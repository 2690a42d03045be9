import PagedOs.Memory.Faithful

/-! # The layout of one process

The regions of a process, its break and the end of its area change with its own calls
only. Whether there were frames for a growth shows in the page table and nowhere else,
so two processes that make the same calls on RAMs of the same size have the same
layout, whatever the other processes do to the devices.
-/

namespace PagedOs

open LinkedHeap Transition

/-! ## One call -/

namespace MmStruct

variable {mm mm' : MmStruct}

/-- A search of the free list reads the list and nothing else. -/
theorem SameRegions.getFreeVmrgArea (same : SameRegions mm mm') {size : Int}
    {found : Option VmRg} {area : MmStruct} (cut : mm.getFreeVmrgArea size = some (found, area)) :
    ∃ area', mm'.getFreeVmrgArea size = some (found, area') ∧ SameRegions area area' := by
  simp only [MmStruct.getFreeVmrgArea, Option.map_eq_some_iff] at cut ⊢
  rw [same.rgHeap, same.mmap]
  obtain ⟨node, searched, outcome⟩ := cut
  rw [searched]
  cases node with
  | none =>
      obtain ⟨rfl, rfl⟩ := Prod.mk.inj outcome
      exact ⟨mm', ⟨_, rfl, rfl⟩, same⟩
  | some rgit =>
      obtain ⟨rfl, rfl⟩ := Prod.mk.inj outcome
      exact ⟨_, ⟨_, rfl, rfl⟩, ⟨rfl, rfl, same.symrgtbl⟩⟩

/-- A region pushed on two equal free lists leaves them equal. -/
theorem SameRegions.pushNode (same : SameRegions mm mm') (h : Heap VmRg) (newNode : Nat) :
    SameRegions (mm.pushNode h newNode) (mm'.pushNode h newNode) := by
  constructor <;> simp only [MmStruct.pushNode, same.mmap, same.symrgtbl]

theorem SameRegions.enlistVmFreergList (same : SameRegions mm mm') {rg : VmRg} {status : Int}
    {area : MmStruct} (enlisted : mm.enlistVmFreergList rg = some (status, area)) :
    ∃ area', mm'.enlistVmFreergList rg = some (status, area') ∧ SameRegions area area' := by
  unfold MmStruct.enlistVmFreergList at enlisted ⊢
  split at enlisted
  · rename_i empty
    simp only [Option.some.injEq, Prod.mk.injEq] at enlisted
    obtain ⟨rfl, rfl⟩ := enlisted
    exact ⟨mm', by simp only [empty, ↓reduceIte], same⟩
  · rename_i proper
    simp only [Option.map_eq_some_iff] at enlisted
    obtain ⟨scan, searched, outcome⟩ := enlisted
    simp only [proper, ↓reduceIte, same.rgHeap, same.mmap, searched, Option.map_some,
      Option.some.injEq]
    cases upper : scan.nodeNeedDecBase <;> cases lower : scan.nodeNeedIncLimit <;>
      simp only [upper, lower, Prod.mk.injEq] at outcome <;> obtain ⟨rfl, rfl⟩ := outcome
    · exact ⟨_, rfl, same.pushNode _ _⟩
    · exact ⟨_, rfl, ⟨rfl, rfl, same.symrgtbl⟩⟩
    · exact ⟨_, rfl, ⟨rfl, rfl, same.symrgtbl⟩⟩
    · exact ⟨_, rfl, same.pushNode _ _⟩

/-- A register set to the same region in both keeps the layouts equal. -/
theorem SameRegions.setSymrg (same : SameRegions mm mm') (rgid : Int) (rg : VmRg) :
    SameRegions (mm.setSymrg rgid rg) (mm'.setSymrg rgid rg) := by
  refine ⟨same.mmap, same.rgHeap, ?_⟩
  simp only [MmStruct.setSymrg, same.symrgtbl]

end MmStruct

open MmStruct (SameRegions)

namespace Caller

variable {c c' : Caller}

/-- What `inc_vma_limit` does to the area does not depend on the frames there are. -/
theorem incVmaLimit_mmap (same : c'.mm.mmap = c.mm.mmap) (ramSize : c'.mram.maxsz = c.mram.maxsz)
    (originSize : Int) :
    (c'.incVmaLimit originSize).2.mm.mmap = (c.incVmaLimit originSize).2.mm.mmap := by
  have left := c.incVmaLimit_breakMoved originSize
  have right := c'.incVmaLimit_breakMoved originSize
  have vmEnd : (c'.incVmaLimit originSize).2.mm.mmap.vmEnd =
      (c.incVmaLimit originSize).2.mm.mmap.vmEnd := by
    have full : c'.areaFull = c.areaFull := by rw [areaFull, areaFull, same, ramSize]
    have amount : c'.incAmt originSize = c.incAmt originSize := by rw [incAmt, incAmt, same]
    rw [incVmaLimit_vmEnd, incVmaLimit_vmEnd, full, amount, same]
  have moved := right.sbrk.trans ((congrArg (·.sbrk + toULong originSize) same).trans
    left.sbrk.symm)
  have start := right.vmStart.trans ((congrArg (·.vmStart) same).trans left.vmStart.symm)
  have list := right.vmFreergList.trans
    ((congrArg (·.vmFreergList) same).trans left.vmFreergList.symm)
  generalize (c.incVmaLimit originSize).2.mm.mmap = area at *
  generalize (c'.incVmaLimit originSize).2.mm.mmap = area' at *
  cases area
  cases area'
  simp only [VmArea.mk.injEq]
  exact ⟨start, vmEnd, moved, list⟩

/-- Whether a size goes beyond the page at the break depends on the area alone. -/
theorem exceedsPage_congr (same : c'.mm.mmap = c.mm.mmap) (size : Int) :
    c'.exceedsPage size = c.exceedsPage size := by
  simp only [exceedsPage, same]

/-- Growing at the break moves two equal areas to the same place, since the areas and the size of
the RAM decide what it does. -/
theorem atBreak_mmap (same : c'.mm.mmap = c.mm.mmap) (ramSize : c'.mram.maxsz = c.mram.maxsz)
    (size : Int) : (c'.atBreak size).mm.mmap = (c.atBreak size).mm.mmap := by
  unfold atBreak
  rw [exceedsPage_congr same]
  split
  · exact incVmaLimit_mmap same ramSize size
  · simp only [moveSbrk, same]

/-- An allocation at the break keeps equal layouts equal, whatever the tables and free frames are.
-/
theorem atBreak_sameRegions (same : SameRegions c.mm c'.mm)
    (ramSize : c'.mram.maxsz = c.mram.maxsz) (size : Int) :
    SameRegions (c.atBreak size).mm (c'.atBreak size).mm where
  mmap := atBreak_mmap same.mmap ramSize size
  rgHeap := by
    rw [(c.atBreak_breakMoved size).rgHeap, (c'.atBreak_breakMoved size).rgHeap, same.rgHeap]
  symrgtbl := by
    rw [(c.atBreak_breakMoved size).symrgtbl, (c'.atBreak_breakMoved size).symrgtbl, same.symrgtbl]

/-- An allocation that runs in one address space runs in every other one of the same layout,
returns the same address and leaves the same layout. -/
theorem alloc_sameRegions (same : SameRegions c.mm c'.mm)
    (ramSize : c'.mram.maxsz = c.mram.maxsz) {rgid size status addr : Int} {after : Caller}
    (ran : c.alloc rgid size = some (status, addr, after)) :
    ∃ after', c'.alloc rgid size = some (status, addr, after') ∧
      SameRegions after.mm after'.mm := by
  rw [alloc_eq, Option.map_eq_some_iff] at ran
  obtain ⟨⟨found, area⟩, cut, outcome⟩ := ran
  obtain ⟨area', cut', sameArea⟩ := same.getFreeVmrgArea cut
  rw [alloc_eq, cut', Option.map_some]
  cases found with
  | some rgnode =>
      simp only [Prod.mk.injEq] at outcome
      obtain ⟨rfl, rfl, rfl⟩ := outcome
      exact ⟨_, rfl, sameArea.setSymrg _ _⟩
  | none =>
      simp only [Prod.mk.injEq] at outcome
      obtain ⟨rfl, rfl, rfl⟩ := outcome
      have broken : SameRegions (({ c with mm := area } : Caller).atBreak size).mm
          (({ c' with mm := area' } : Caller).atBreak size).mm :=
        @atBreak_sameRegions { c with mm := area } { c' with mm := area' } sameArea ramSize size
      simp only [sameArea.mmap, Option.some.injEq, Prod.mk.injEq, true_and, exists_eq_left']
      exact broken.setSymrg _ _

theorem free_sameRegions (same : SameRegions c.mm c'.mm) {rgid status : Int} {after : Caller}
    (ran : c.free rgid = some (status, after)) :
    ∃ after', c'.free rgid = some (status, after') ∧ SameRegions after.mm after'.mm := by
  unfold free at ran ⊢
  split at ran
  · rename_i outside
    simp only [Option.some.injEq, Prod.mk.injEq] at ran
    obtain ⟨rfl, rfl⟩ := ran
    exact ⟨c', by simp only [outside, ↓reduceIte], same⟩
  · rename_i inside
    obtain ⟨⟨ignored, area⟩, enlisted, outcome⟩ := Option.map_eq_some_iff.mp ran
    simp only [Prod.mk.injEq] at outcome
    obtain ⟨rfl, rfl⟩ := outcome
    obtain ⟨area', enlisted', sameArea⟩ := same.enlistVmFreergList enlisted
    rw [same.symrgtbl]
    simp only [inside, ↓reduceIte, enlisted', Option.map_some]
    exact ⟨_, rfl, sameArea.setSymrg _ _⟩

/-- The address that `__alloc` hands to `pgalloc`. -/
def allocAddr (c : Caller) : MemoryCall → Option Int
  | .pgalloc size regIndex =>
      (c.alloc (toInt regIndex.toNat) (toInt size.toNat)).map fun (_, addr, _) => addr
  | _ => none

/-- **One call in two processes of the same layout** leaves them the same layout, and an
allocation is given the same address. -/
theorem memoryCall_sameRegions (same : SameRegions c.mm c'.mm)
    (ramSize : c'.mram.maxsz = c.mram.maxsz) {u u' : Uninit} {data data' byte byte' : Byte}
    {call : MemoryCall} {status status' : Int} {after after' : Caller}
    (ran : c.memoryCall u data call = some (status, byte, after))
    (ran' : c'.memoryCall u' data' call = some (status', byte', after')) :
    c'.allocAddr call = c.allocAddr call ∧ SameRegions after.mm after'.mm := by
  cases call with
  | pgalloc size regIndex =>
      obtain ⟨addr, done⟩ := pgalloc_eq_some.mp (memoryCall_pgalloc ran)
      obtain ⟨addr', done'⟩ := pgalloc_eq_some.mp (memoryCall_pgalloc ran')
      obtain ⟨expected, again, agrees⟩ := alloc_sameRegions same ramSize done
      simp only [done', Option.some.injEq, Prod.mk.injEq] at again
      obtain ⟨-, rfl, rfl⟩ := again
      simp only [allocAddr, done, done', Option.map_some, true_and]
      exact agrees
  | pgfreeData regIndex =>
      have done' := memoryCall_pgfreeData ran'
      obtain ⟨expected, again, agrees⟩ := free_sameRegions same (memoryCall_pgfreeData ran)
      obtain ⟨-, rfl⟩ := Prod.mk.inj (Option.some.inj (done'.symm.trans again))
      exact ⟨rfl, agrees⟩
  | pgread source offset =>
      have left := (memoryCall_pgread ran).regions
      have right := (memoryCall_pgread ran').regions
      exact ⟨rfl, left.symm.trans (same.trans right)⟩
  | pgwrite value destination offset =>
      have left := (memoryCall_pgwrite ran).regions
      have right := (memoryCall_pgwrite ran').regions
      exact ⟨rfl, left.symm.trans (same.trans right)⟩

/-- No call changes the size of the RAM. -/
theorem memoryCall_ramSize {u : Uninit} {data byte : Byte} {call : MemoryCall} {status : Int}
    {after : Caller} (ran : c.memoryCall u data call = some (status, byte, after)) :
    after.mram.maxsz = c.mram.maxsz := by
  cases call with
  | pgalloc size regIndex =>
      obtain ⟨addr, done⟩ := pgalloc_eq_some.mp (memoryCall_pgalloc ran)
      rw [alloc_eq, Option.map_eq_some_iff] at done
      obtain ⟨⟨found, area⟩, -, outcome⟩ := done
      cases found with
      | some rgnode =>
          simp only [Prod.mk.injEq] at outcome
          rw [← outcome.2.2]
          rfl
      | none =>
          simp only [Prod.mk.injEq] at outcome
          rw [← outcome.2.2]
          simp only [withSymrg, atBreak]
          split
          · exact (incVmaLimit_devices _ _).1.1
          · rfl
  | pgfreeData regIndex =>
      have done := memoryCall_pgfreeData ran
      rw [pgfreeData, free] at done
      split at done
      · simp only [Option.some.injEq, Prod.mk.injEq] at done
        rw [done.2]
      · simp only [Option.map_eq_some_iff, Prod.mk.injEq, Prod.exists] at done
        obtain ⟨_, area, -, -, rfl⟩ := done
        rfl
  | pgread source offset =>
      exact (memoryCall_pgread ran).ramSize
  | pgwrite value destination offset =>
      exact (memoryCall_pgwrite ran).ramSize

end Caller

/-! ## Runs -/

/-- What a process can see of its layout; an entry of the symbol table is its region. -/
structure Layout where
  symrgtbl : List VmRg
  sbrk : ULong
  vmEnd : ULong
  freeRegions : List VmRg

/-- The layout of a process: its symbol table, the break and the end of its area, and its free
regions. -/
def MmStruct.layout (mm : MmStruct) : Layout :=
  ⟨mm.tableRegions, mm.mmap.sbrk, mm.mmap.vmEnd, mm.freeRegions⟩

/-- A call with the address an allocation was given and the layout it led to. -/
structure Observation where
  call : MemoryCall
  addr : Option Int
  layout : Layout

/-- What a process saw of a history, in order. -/
def observed [DecidableEq ι] (P : ι) (history : List (ι × Observation)) : List Observation :=
  history.filterMap fun label => if label.1 = P then some label.2 else none

namespace Sys

/-- What a process sees of its call between two states. -/
def observation (s : Sys ι) (P : ι) (call : MemoryCall) (t : Sys ι) : Observation :=
  ⟨call, (s.caller P).allocAddr call, (t.mm P).layout⟩

/-- A process of each of two systems has the same layout and RAM of the same size. -/
structure SameLayout (A : ι) (B : κ) (s : Sys ι) (s' : Sys κ) : Prop where
  regions : SameRegions (s.mm A) (s'.mm B)
  ramSize : s'.mram.maxsz = s.mram.maxsz

variable {s t : Sys ι} {s' t' : Sys κ} {A P : ι} {B : κ} {seen : Observation}

theorem SameLayout.symm (same : SameLayout A B s s') : SameLayout B A s' s :=
  ⟨same.regions.symm, same.ramSize.symm⟩

variable [DecidableEq ι]

/-- A process makes a call, after which every area still ends below 2^22; the label says
what it saw. -/
def ObservedStep (s : Sys ι) (label : ι × Observation) (t : Sys ι) : Prop :=
  (∃ status data, MemoryStep s (label.1, label.2.call, status, data) t) ∧
    label.2 = s.observation label.1 label.2.call t ∧ t.Low

/-- Any call leaves the RAM its size and the other processes their layout. -/
theorem ObservedStep.others (taken : s.ObservedStep (P, seen) t) :
    t.mram.maxsz = s.mram.maxsz ∧ ∀ Q, Q ≠ P → t.mm Q = s.mm Q := by
  obtain ⟨⟨status, data, -, u, before, c, ran, rfl⟩, -, -⟩ := taken
  exact ⟨Caller.memoryCall_ramSize ran, fun Q other => put_mm_of_ne s other c⟩

/-- What another process does is hidden from the layout of this one. -/
theorem SameLayout.hidden (same : SameLayout A B s s') (taken : s.ObservedStep (P, seen) t)
    (other : P ≠ A) : SameLayout A B t s' := by
  obtain ⟨ramSize, others⟩ := taken.others
  exact ⟨by rw [others A other.symm]; exact same.regions, same.ramSize.trans ramSize.symm⟩

variable [DecidableEq κ]

/-- The same call in two processes of the same layout shows the same. -/
theorem SameLayout.visible (same : SameLayout A B s s') {seen' : Observation}
    (taken : s.ObservedStep (A, seen) t) (taken' : s'.ObservedStep (B, seen') t')
    (call : seen.call = seen'.call) : seen = seen' ∧ SameLayout A B t t' := by
  have ramSize := taken.others.1
  have ramSize' := taken'.others.1
  obtain ⟨⟨status, data, -, u, before, c, ran, rfl⟩, shown, -⟩ := taken
  obtain ⟨⟨status', data', -, u', before', c', ran', rfl⟩, shown', -⟩ := taken'
  simp only at ran ran' shown shown'
  rw [← call] at ran' shown'
  obtain ⟨addr, regions⟩ := Caller.memoryCall_sameRegions
    (show SameRegions (s.caller A).mm (s'.caller B).mm from same.regions) same.ramSize ran ran'
  have layout : c.mm.layout = c'.mm.layout := by
    simp only [MmStruct.layout, MmStruct.tableRegions, MmStruct.freeRegions, regions.mmap,
      regions.rgHeap, regions.symrgtbl]
  refine ⟨?_, ⟨by simpa only [put_mm_self] using regions, ?_⟩⟩
  · rw [shown, shown']
    simp only [observation, put_mm_self, addr, layout]
  · rw [ramSize, ramSize', same.ramSize]

/-- **The layout of a process does not depend on other processes.** Two processes with
empty address spaces and RAMs of the same size that make the same calls see the same
after each of them, whatever the others in their systems call and whichever frames
there are. -/
theorem layout_independent {history : List (ι × Observation)} {history' : List (κ × Observation)}
    (fresh : s.mm A = MmStruct.zeroed.initMm) (fresh' : s'.mm B = MmStruct.zeroed.initMm)
    (ramSize : s'.mram.maxsz = s.mram.maxsz) (run : Run ObservedStep s history t)
    (run' : Run ObservedStep s' history' t')
    (calls : (observed A history).map Observation.call =
      (observed B history').map Observation.call) :
    observed A history = observed B history' := by
  have start : SameLayout A B s s' := ⟨by rw [fresh, fresh']; exact .refl _, ramSize⟩
  refine (Run.agree (SameLayout A B) _ _ Observation.call ?_ ?_ ?_ run run' calls start).1
  · rintro source ⟨P, seen⟩ target mirror same taken hides
    exact same.hidden taken fun self => by simp [self] at hides
  · rintro source mirror ⟨P, seen⟩ reached same taken hides
    exact (same.symm.hidden taken fun self => by simp [self] at hides).symm
  · rintro source ⟨P, seen⟩ target mirror ⟨Q, seen'⟩ reached shown shown' same taken taken'
      left right call
    obtain ⟨rfl, rfl⟩ : P = A ∧ seen = shown := by simpa using left
    obtain ⟨rfl, rfl⟩ : Q = B ∧ seen' = shown' := by simpa using right
    exact same.visible taken taken' call

/-- A process that got 300 bytes on both frames of the RAM. -/
def aloneAllocated : Sys (Fin 2) :=
  (((boot (Fin 2) 512 256).called ⟨0, Nat.two_pos⟩ (.pgalloc 300 0)).get
    (by decide +kernel)).2.2

/-- The state in which another process took every frame first. -/
def drained : Sys (Fin 2) :=
  (((boot (Fin 2) 512 256).called ⟨1, Nat.one_lt_two⟩ (.pgalloc 700 0)).get
    (by decide +kernel)).2.2

/-- So that there is no frame for the 300 bytes. -/
def drainedAllocated : Sys (Fin 2) :=
  ((drained.called ⟨0, Nat.two_pos⟩ (.pgalloc 300 0)).get (by decide +kernel)).2.2

/-- The process sees the same with all frames to itself and with none left over for it. -/
theorem layout_independent_drained :
    (boot (Fin 2) 512 256).observation 0 (.pgalloc 300 0) aloneAllocated =
      drained.observation 0 (.pgalloc 300 0) drainedAllocated := by
  have alone : Run ObservedStep (boot (Fin 2) 512 256)
      [(0, (boot (Fin 2) 512 256).observation 0 (.pgalloc 300 0) aloneAllocated)]
      aloneAllocated :=
    .single ⟨⟨0, 0, memoryStep_of_called (by decide) _ (by decide +kernel) (by decide +kernel)⟩,
      rfl, by decide +kernel⟩
  have crowded : Run ObservedStep (boot (Fin 2) 512 256)
      [(1, (boot (Fin 2) 512 256).observation 1 (.pgalloc 700 0) drained),
        (0, drained.observation 0 (.pgalloc 300 0) drainedAllocated)] drainedAllocated :=
    .cons ⟨⟨0, 0, memoryStep_of_called (by decide) _ (by decide +kernel) (by decide +kernel)⟩,
      rfl, by decide +kernel⟩
    (.single ⟨⟨0, 0, memoryStep_of_called (by decide) _ (by decide +kernel)
      (by decide +kernel)⟩, rfl, by decide +kernel⟩)
  have agrees := layout_independent (A := 0) (B := 0) rfl rfl rfl alone crowded rfl
  simpa [observed] using agrees

end Sys

end PagedOs
