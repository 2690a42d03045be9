import PagedOs.Memory.Faithful

/-! # Allocations and the pages behind them

Where the region of an allocation comes from, and whether there are pages behind it.
As long as every growth is granted, the mapped area follows the break. `__alloc` does not
look at the result of `inc_vma_limit`, so that a growth that is not granted still yields
a region.
-/

namespace PagedOs

open LinkedHeap Transition

variable {ι : Type*}

/-! ## Where a region comes from -/

namespace Caller

variable {c c' : Caller} {size r : BitVec 32}

/-- The process after no free region was large enough. -/
def short (c : Caller) (size : Int) : Option Caller :=
  match c.mm.getFreeVmrgArea size with
  | some (none, mm) => some { c with mm := mm }
  | _ => none

/-- The process that an allocation calls `inc_vma_limit` for. -/
def growing (c : Caller) (size : Int) : Option Caller :=
  (c.short size).filter fun b => b.exceedsPage size

/-- The search for a free region failed, and it may have changed the list. -/
theorem short_eq_some {size : Int} {b : Caller} (found : c.short size = some b) :
    c.mm.getFreeVmrgArea size = some (none, b.mm) ∧ b = { c with mm := b.mm } := by
  unfold short at found
  split at found
  · rename_i mm cut
    obtain rfl := Option.some_inj.mp found
    exact ⟨cut, rfl⟩
  · cases found

/-- **Everything `pgalloc` can do** when it returns, whatever the free list holds. -/
theorem pgalloc_cases (small : size.toNat < 2 ^ 31) (inside : r.toNat < 30) {status : Int}
    (ran : c.pgalloc size r = some (status, c')) :
    status = 0 ∧
      ((c.short size.toNat = none ∧ ∃ found area,
          c.mm.getFreeVmrgArea size.toNat = some (some found, area) ∧
          c' = ({ c with mm := area } : Caller).withSymrg r.toNat found) ∨
        ∃ b, c.short size.toNat = some b ∧
          c' = (b.atBreak size.toNat).withSymrg r.toNat ⟨toULong (toInt b.mm.mmap.sbrk.toNat),
            toULong (toInt (toInt b.mm.mmap.sbrk.toNat + size.toNat))⟩) := by
  have amount : toInt size.toNat = (size.toNat : Int) := toInt_eq_self (by omega) (by omega)
  simp only [pgalloc, amount, register_eq inside, Option.map_eq_some_iff, Prod.mk.injEq,
    Prod.exists] at ran
  obtain ⟨_, addr, after, done, rfl, rfl⟩ := ran
  rw [alloc_eq, Option.map_eq_some_iff] at done
  obtain ⟨⟨found, area⟩, cut, outcome⟩ := done
  cases found with
  | some found =>
      simp only [Prod.mk.injEq] at outcome
      obtain ⟨rfl, -, rfl⟩ := outcome
      exact ⟨rfl, .inl ⟨by simp only [short, cut], found, area, cut, rfl⟩⟩
  | none =>
      simp only [Prod.mk.injEq] at outcome
      obtain ⟨rfl, -, rfl⟩ := outcome
      exact ⟨rfl, .inr ⟨{ c with mm := area }, by simp only [short, cut], rfl⟩⟩

/-- **Everything `pgfree_data` can do** when it returns. -/
theorem pgfreeData_cases (inside : r.toNat < 30) {status : Int}
    (ran : c.pgfreeData r = some (status, c')) :
    ∃ enlisted area, c.mm.enlistVmFreergList (c.mm.symrgtbl r.toNat) = some (enlisted, area) ∧
      c' = ({ c with mm := area } : Caller).withSymrg r.toNat ⟨0, 0⟩ := by
  simp only [c.pgfreeData_register inside, Option.map_eq_some_iff, Prod.mk.injEq,
    Prod.exists] at ran
  obtain ⟨enlisted, area, done, -, rfl⟩ := ran
  exact ⟨enlisted, area, done, rfl⟩

/-- A growth that returns 0 was not refused and found its frames. -/
theorem granted_iff (c : Caller) (originSize : Int) :
    (c.incVmaLimit originSize).1 = 0 ↔
      c.areaFull = false ∧ c.framesLeft originSize = true := by
  rcases c.incVmaLimit_cases originSize with
    ⟨full, result⟩ | ⟨full, short, result⟩ | ⟨full, left, result⟩
  · simp [result, full]
  · simp [result, full, short]
  · simp [result, full, left]

/-- Making room at the break, when the area can grow as far as it has to. -/
theorem atBreak_grew (backed : c.mm.Backed) {size : Nat}
    (room : c.mm.mmap.sbrk.toNat + size ≤ 2 ^ 22)
    (can : c.exceedsPage size = true → c.areaFull = false ∧ c.framesLeft size = true) :
    ∃ ram swap, c.Grew size (c.atBreak size) ram swap := by
  unfold atBreak
  split
  · rename_i exceeds
    obtain ⟨notFull, left⟩ := can exceeds
    exact ⟨_, _, (incVmaLimit_grew backed room notFull left).2⟩
  · rename_i fits
    obtain ⟨after, -, sbrk⟩ := moveSbrk_backed backed (by omega) (Bool.eq_false_iff.mpr fits)
    refine ⟨[], [], ⟨sbrk, by rw [after.aligned, sbrk], rfl, rfl, rfl, fun some => absurd rfl some,
      fun pgn _ => by rw [moveSbrk_pgd], fun i fpn found => ?_, fun i fpn found => ?_, ?_, rfl,
      rfl⟩⟩
    · simp at found
    · simp at found
    · rw [moveSbrk_fifoPgn]
      rfl

/-- It can grow no further than the address range if it still ends in it. -/
theorem atBreak_room (backed : c.mm.Backed) {size : Nat} (small : size < 2 ^ 31)
    (granted : c.exceedsPage size = true → (c.incVmaLimit size).1 = 0)
    (low : (c.atBreak size).mm.mmap.vmEnd.toNat ≤ 2 ^ 22) :
    c.mm.mmap.sbrk.toNat + size ≤ 2 ^ 22 := by
  unfold atBreak at low
  split at low
  · rename_i exceeds
    rw [incVmaLimit_vmEnd, ((c.granted_iff size).mp (granted exceeds)).1,
      if_neg Bool.false_ne_true] at low
    exact room_of_low backed small low
  · rename_i fits
    exact (moveSbrk_backed backed small (Bool.eq_false_iff.mpr fits)).2.1

end Caller

/-! ## The mapped area follows the break -/

namespace MmStruct

variable {mm mm' : MmStruct}

/-- The pages of the area are mapped, and those behind it are as they were allocated. -/
structure Extent (mm : MmStruct) : Prop extends Backed mm where
  behind : ∀ pgn, mm.endPgn ≤ pgn → mm.pgd pgn = 0

/-- Only the pages, the area and the break matter. -/
theorem Backed.congr (backed : mm.Backed) (pgd : mm'.pgd = mm.pgd)
    (vmEnd : mm'.mmap.vmEnd = mm.mmap.vmEnd) (sbrk : mm'.mmap.sbrk = mm.mmap.sbrk) :
    mm'.Backed where
  low := by
    rw [vmEnd]
    exact backed.low
  aligned := by
    rw [vmEnd, sbrk]
    exact backed.aligned
  mapped := by
    rw [vmEnd, pgd]
    exact backed.mapped

/-- The extent is one of the page table and the two bounds alone. -/
theorem Extent.congr (extent : mm.Extent) (pgd : mm'.pgd = mm.pgd)
    (vmEnd : mm'.mmap.vmEnd = mm.mmap.vmEnd) (sbrk : mm'.mmap.sbrk = mm.mmap.sbrk) :
    mm'.Extent where
  toBacked := extent.toBacked.congr pgd vmEnd sbrk
  behind := by
    rw [endPgn, vmEnd, pgd]
    exact extent.behind

/-- A fresh address space has no page, and no break. -/
theorem Extent.start : MmStruct.zeroed.initMm.Extent := ⟨.start, fun _ _ => rfl⟩

end MmStruct

/-- The call changes regions and not bytes. -/
def MemoryCall.IsRegionCall : MemoryCall → Prop
  | .pgalloc _ _ => True
  | .pgfreeData _ => True
  | .pgread _ _ => False
  | .pgwrite _ _ _ => False

namespace Caller

variable {c c' : Caller}

/-- The call of `inc_vma_limit` that an allocation makes, if any, returns 0. -/
def Granted (c : Caller) : MemoryCall → Prop
  | .pgalloc size _ =>
      ∀ b ∈ c.growing (toInt size.toNat), (b.incVmaLimit (toInt size.toNat)).1 = 0
  | _ => True

/-- The state and the call decide, so that the condition can be evaluated. -/
instance (c : Caller) (call : MemoryCall) : Decidable (c.Granted call) :=
  match call with
  | .pgalloc _ _ => inferInstanceAs (Decidable (∀ _ ∈ _, _))
  | .pgfreeData _ => .isTrue trivial
  | .pgread _ _ => .isTrue trivial
  | .pgwrite _ _ _ => .isTrue trivial

/-- Between two states of a process each new page took one frame, of RAM or of swap, and
was not mapped before. -/
structure Consumes (c c' : Caller) (ram swap : List Int) : Prop where
  ramTaken : c.mram.freeFpList = ram ++ c'.mram.freeFpList
  swapTaken : c.activeMswp.freeFpList = swap ++ c'.activeMswp.freeFpList
  pages : c'.mm.endPgn = c.mm.endPgn + (ram.length + swap.length)
  kept : ∀ pgn < c.mm.endPgn, c'.mm.pgd pgn = c.mm.pgd pgn
  unmapped : ∀ pgn < pagingMaxPgn, c.mm.endPgn ≤ pgn → c.mm.pgd pgn = 0
  ramEntry : ∀ i fpn, ram.reverse[i]? = some fpn →
    c'.mm.pgd (c.mm.endPgn + i) = pteSetFpn 0 fpn
  swapEntry : ∀ i fpn, swap.reverse[i]? = some fpn →
    c'.mm.pgd (c.mm.endPgn + ram.length + i) = pteSetSwap 0 0 fpn

/-- A call that leaves the page tables and the devices consumes no frame. -/
theorem Consumes.nothing (extent : c.mm.Extent) (same : c.SamePages c') : c.Consumes c' [] [] where
  ramTaken := by rw [same.mram, List.nil_append]
  swapTaken := by rw [same.activeMswp, List.nil_append]
  pages := by
    rw [MmStruct.endPgn, same.vmEnd]
    rfl
  kept := fun pgn _ => by rw [same.pgd]
  unmapped := fun pgn _ outside => extent.behind pgn outside
  ramEntry := fun i fpn found => by simp at found
  swapEntry := fun i fpn found => by simp at found

/-- What is consumed is counted on the page tables and the devices alone. -/
theorem Consumes.congr {b d : Caller} {ram swap : List Int} (consumes : b.Consumes d ram swap)
    (before : c.SamePages b) (after : d.SamePages c') : c.Consumes c' ram swap := by
  have endPgn : b.mm.endPgn = c.mm.endPgn := by rw [MmStruct.endPgn, before.vmEnd, MmStruct.endPgn]
  have endPgn' : c'.mm.endPgn = d.mm.endPgn := by
    rw [MmStruct.endPgn, after.vmEnd, MmStruct.endPgn]
  obtain ⟨ramTaken, swapTaken, pages, kept, unmapped, ramEntry, swapEntry⟩ := consumes
  rw [before.mram, ← after.mram] at ramTaken
  rw [before.activeMswp, ← after.activeMswp] at swapTaken
  rw [endPgn, ← endPgn'] at pages
  rw [endPgn, before.pgd, ← after.pgd] at kept
  rw [endPgn, before.pgd] at unmapped
  rw [endPgn, ← after.pgd] at ramEntry swapEntry
  exact ⟨ramTaken, swapTaken, pages, kept, unmapped, ramEntry, swapEntry⟩

/-- A growth consumes the frames that it has got. -/
theorem Grew.consumes {size : Nat} {ram swap : List Int} (extent : c.mm.Extent)
    (grew : c.Grew size c' ram swap) : c.Consumes c' ram swap where
  ramTaken := grew.ramTaken
  swapTaken := grew.swapTaken
  pages := grew.pages
  kept := fun pgn inside => grew.kept pgn (.inl inside)
  unmapped := fun pgn _ outside => extent.behind pgn outside
  ramEntry := fun i fpn found => by
    rw [grew.ramEntry i fpn found, extent.behind _ (Nat.le_add_right _ _)]
  swapEntry := fun i fpn found => by
    rw [grew.swapEntry i fpn found, extent.behind _ (by omega)]

theorem Grew.extent {size : Nat} {ram swap : List Int} (extent : c.mm.Extent)
    (room : c.mm.mmap.sbrk.toNat + size ≤ 2 ^ 22) (grew : c.Grew size c' ram swap) :
    c'.mm.Extent where
  toBacked := grew.backed extent.toBacked room
  behind := fun pgn outside => by
    have pages := grew.pages
    rw [grew.kept pgn (.inr outside)]
    exact extent.behind pgn (by omega)

/-- **A granted call** keeps the pages of the area mapped and all others unmapped. -/
theorem Granted.extent {u : Uninit} {data byte : Byte} {call : MemoryCall} {status : Int}
    (extent : c.mm.Extent) (inRange : call.InRange) (region : call.IsRegionCall)
    (granted : c.Granted call) (ran : c.memoryCall u data call = some (status, byte, c'))
    (low : c'.mm.mmap.vmEnd.toNat ≤ 2 ^ 22) :
    c'.mm.Extent ∧ ∃ ram swap, c.Consumes c' ram swap := by
  cases call with
  | pgalloc size r =>
      have done := memoryCall_pgalloc ran
      have amount : toInt size.toNat = (size.toNat : Int) :=
        toInt_eq_self (by omega) (by have := inRange.1.2; omega)
      obtain ⟨-, ⟨-, found, area, cut, rfl⟩ | ⟨b, found, rfl⟩⟩ :=
        pgalloc_cases inRange.1.2 inRange.2 done
      · have same := MmStruct.getFreeVmrgArea_sameSpace cut
        exact ⟨extent.congr same.pgd same.vmEnd same.sbrk, [], [],
          .nothing extent ⟨same.pgd, same.fifoPgn, same.vmEnd, rfl, rfl⟩⟩
      · obtain ⟨cut, shape⟩ := short_eq_some found
        have same := MmStruct.getFreeVmrgArea_sameSpace cut
        have extentB := extent.congr same.pgd same.vmEnd same.sbrk
        have statusIs : b.exceedsPage size.toNat = true → (b.incVmaLimit size.toNat).1 = 0 := by
          intro exceeds
          refine amount ▸ granted b ?_
          rw [growing, amount, found]
          exact Option.filter_eq_some_iff.mpr ⟨rfl, exceeds⟩
        have room := atBreak_room extentB.toBacked inRange.1.2 statusIs low
        obtain ⟨ram, swap, grew⟩ := atBreak_grew extentB.toBacked room fun exceeds =>
          (b.granted_iff size.toNat).mp (statusIs exceeds)
        have after := grew.extent extentB room
        refine ⟨after.congr rfl rfl rfl, ram, swap, (grew.consumes extentB).congr ?_
          ⟨rfl, rfl, rfl, rfl, rfl⟩⟩
        rw [shape]
        exact ⟨same.pgd, same.fifoPgn, same.vmEnd, rfl, rfl⟩
  | pgfreeData r =>
      obtain ⟨enlisted, area, entered, rfl⟩ := pgfreeData_cases inRange (memoryCall_pgfreeData ran)
      have same := MmStruct.enlistVmFreergList_sameSpace entered
      exact ⟨extent.congr same.pgd same.vmEnd same.sbrk, [], [],
        .nothing extent ⟨same.pgd, same.fifoPgn, same.vmEnd, rfl, rfl⟩⟩
  | pgread source offset => exact region.elim
  | pgwrite value destination offset => exact region.elim

end Caller

namespace Sys

variable [DecidableEq ι] {s t : Sys ι} {P : ι}

/-- A process makes a call. The calls of `P` are allocations, with every growth granted, and
frees, and its area ends in the address range. -/
def GrantedStep (P : ι) (s : Sys ι) (label : ι × MemoryCall × Int × Byte) (t : Sys ι) : Prop :=
  MemoryStep s label t ∧
    (label.1 = P → label.2.1.IsRegionCall ∧ (s.caller P).Granted label.2.1) ∧
    (t.mm P).mmap.vmEnd.toNat ≤ 2 ^ 22

/-- A granted step keeps the extent of the process that is looked at, and consumes what it gets for
its new pages. -/
theorem GrantedStep.extent {label : ι × MemoryCall × Int × Byte}
    (extent : (s.mm P).Extent) (taken : GrantedStep P s label t) :
    (t.mm P).Extent ∧
      (label.1 = P → ∃ ram swap, (s.caller P).Consumes (t.caller P) ram swap) := by
  obtain ⟨Q, call, status, byte⟩ := label
  obtain ⟨⟨inRange, u, data, c, ran, rfl⟩, own, low⟩ := taken
  by_cases self : Q = P
  · subst self
    obtain ⟨region, granted⟩ := own rfl
    simp only [put_mm_self, caller, put_mram, put_activeMswp] at low ran granted ⊢
    have reached := granted.extent (c := s.caller Q) extent inRange region ran low
    exact ⟨reached.1, fun _ => reached.2⟩
  · rw [put_mm_of_ne s (Ne.symm self)]
    exact ⟨extent, fun same => absurd same self⟩

/-- **The mapped area matches the break** of a process as long as its growths are granted,
whatever the others do: the area ends where the break rounds up to, its pages are mapped
and no others, and each call takes one frame for each page it adds. -/
theorem mapped_area_matches_break {history : List (ι × MemoryCall × Int × Byte)}
    (fresh : s.mm P = MmStruct.zeroed.initMm) (run : Run (GrantedStep P) s history t) :
    (t.mm P).mmap.vmEnd = pagingPageAlignsz (t.mm P).mmap.sbrk ∧
      (∀ pgn < (t.mm P).mmap.vmEnd.toNat / 256, pagingPagePresent ((t.mm P).pgd pgn) = true ∨
        pagingPageSwapped ((t.mm P).pgd pgn) = true) ∧
      (∀ pgn < pagingMaxPgn, (t.mm P).mmap.vmEnd.toNat / 256 ≤ pgn → (t.mm P).pgd pgn = 0) ∧
      ∀ label next, GrantedStep P t label next → label.1 = P →
        ∃ ram swap, (t.caller P).Consumes (next.caller P) ram swap := by
  have extent : (t.mm P).Extent :=
    run.invariant (fun state => (state.mm P).Extent)
      (fun _ _ _ extent taken => (GrantedStep.extent extent taken).1) (fresh ▸ .start)
  exact ⟨extent.vmEnd_eq_align, fun _ inside => extent.mapped_of_lt inside,
    fun _ _ outside => extent.behind _ outside,
    fun _ _ taken self => (GrantedStep.extent extent taken).2 self⟩

/-- A growth over more pages than the RAM has frames maps the pages up to the break, and none
behind it. -/
theorem mapped_area_matches_break_spilled :
    Mapped ((spilled.mm ()).pgd 2) ∧ (spilled.mm ()).pgd 3 = 0 := by
  have run : Run (GrantedStep ()) (boot Unit 512 1024) [((), .pgalloc 700 0, 0, 0)] spilled :=
    .single ⟨memoryStep_of_called (by decide) _ (by decide +kernel) (by decide +kernel),
      fun _ => ⟨trivial, by decide +kernel⟩, by decide +kernel⟩
  obtain ⟨-, mapped, behind, -⟩ := mapped_area_matches_break rfl run
  exact ⟨mapped 2 (by decide +kernel), behind 3 (by decide) (by decide +kernel)⟩

end Sys

/-! ## Regions without pages -/

/-- A region ends, and starts, at or below an address. -/
def VmRg.Below (bound : Nat) (rg : VmRg) : Prop := rg.rgStart.toNat ≤ bound ∧ rg.rgEnd.toNat ≤ bound

/-- A region below a bound is below any higher one. -/
theorem VmRg.Below.mono {rg : VmRg} {bound higher : Nat} (below : rg.Below bound)
    (le : bound ≤ higher) : rg.Below higher := ⟨below.1.trans le, below.2.trans le⟩

namespace MmStruct

variable {mm area : MmStruct} {h : Heap VmRg} {bound : Nat}

/-- Deleting a node keeps a property of all regions, if the empty region at the end of each has it.
-/
theorem deleteVmRgNode_all {p : VmRg → Prop} (all : h.All p)
    (empty : ∀ rg, p rg → p ⟨rg.rgEnd, rg.rgEnd⟩) (target : Nat) :
    (deleteVmRgNode h target).All p := by
  unfold deleteVmRgNode
  split
  · exact all.absorb _ _
  · exact all.set (empty _ (all target)) target

/-- Pushing a node keeps a property of all regions. -/
theorem pushNode_all {p : VmRg → Prop} (all : h.All p) (mm : MmStruct) (newNode : Nat) :
    (mm.pushNode h newNode).rgHeap.All p := by
  simp only [pushNode]
  split
  · have value : p (⟨(h.node newNode).val, mm.mmap.vmFreergList⟩ : Node VmRg).val := all newNode
    exact all.set value newNode
  · exact all

/-- Enlisting a region puts the bounds of regions there are together anew, also when the
list it works on has lost its shape. -/
theorem enlistVmFreergList_below (all : mm.rgHeap.All (VmRg.Below bound)) {rg : VmRg}
    (below : rg.Below bound) {status : Int}
    (enlisted : mm.enlistVmFreergList rg = some (status, area)) :
    area.rgHeap.All (VmRg.Below bound) := by
  rcases enlistVmFreergList_cases enlisted with
    rfl | ⟨up, rfl⟩ | ⟨down, rfl⟩ | ⟨up, down, rfl⟩ | rfl
  · exact all
  · have merged : VmRg.Below bound ⟨rg.rgStart, (mm.rgHeap.node up).val.rgEnd⟩ :=
      ⟨below.1, (all up).2⟩
    exact all.setVal merged up
  · have merged : VmRg.Below bound ⟨(mm.rgHeap.node down).val.rgStart, rg.rgEnd⟩ :=
      ⟨(all down).1, below.2⟩
    exact all.setVal merged down
  · have merged : VmRg.Below bound ⟨(mm.rgHeap.node down).val.rgStart,
        (mm.rgHeap.node up).val.rgEnd⟩ := ⟨(all down).1, (all up).2⟩
    have entered := all.malloc.setVal merged mm.rgHeap.malloc.1
    have empty : ∀ rg : VmRg, rg.Below bound → VmRg.Below bound ⟨rg.rgEnd, rg.rgEnd⟩ :=
      fun rg below => ⟨below.2, below.2⟩
    exact pushNode_all
      (deleteVmRgNode_all (deleteVmRgNode_all entered empty up) empty down) mm _
  · exact pushNode_all (all.malloc.setVal below _) mm _

/-- A search that finds a region stops at a node it fits. -/
theorem findFit_fits {size : Int} {fuel : Nat} {link : Option Nat} {rgit : Nat}
    (found : findFit h size fuel link = some (some rgit)) :
    (h.node rgit).val.rgStart + toULong size ≤ (h.node rgit).val.rgEnd := by
  induction fuel generalizing link with
  | zero =>
      cases link with
      | none => simp [findFit] at found
      | some a => simp [findFit] at found
  | succ fuel ih =>
      cases link with
      | none => simp [findFit] at found
      | some a =>
          rw [findFit] at found
          split at found
          · rename_i fits
            obtain rfl : a = rgit := by simpa using found
            exact fits
          · exact ih found

/-- A region cut from the free list lies where the free region did. -/
theorem getFreeVmrgArea_below (all : mm.rgHeap.All (VmRg.Below bound)) (low : bound < 2 ^ 62)
    {size : Nat} (small : size < 2 ^ 31) {found : Option VmRg}
    (cut : mm.getFreeVmrgArea size = some (found, area)) :
    area.rgHeap.All (VmRg.Below bound) ∧
      ∀ rg, found = some rg → rg.Below bound ∧ rg.rgEnd.toNat = rg.rgStart.toNat + size := by
  obtain ⟨node, searched, outcome⟩ := Option.map_eq_some_iff.mp cut
  cases node with
  | none =>
      obtain ⟨rfl, rfl⟩ := Prod.mk.inj outcome
      exact ⟨all, fun rg none => by cases none⟩
  | some rgit =>
      obtain ⟨rfl, rfl⟩ := Prod.mk.inj outcome
      have below := all rgit
      have fits := BitVec.le_def.mp (findFit_fits searched)
      have sum : ((mm.rgHeap.node rgit).val.rgStart + toULong size).toNat =
          (mm.rgHeap.node rgit).val.rgStart.toNat + size := by
        rw [add_toULong_toNat (by have := below.1; omega) (by omega) (by omega), Int.toNat_natCast]
      have inside : VmRg.Below bound ⟨(mm.rgHeap.node rgit).val.rgStart,
          (mm.rgHeap.node rgit).val.rgStart + toULong size⟩ := ⟨below.1, fits.trans below.2⟩
      refine ⟨?_, fun rg some => ?_⟩
      · simp only [carve]
        split
        · have rest : VmRg.Below bound ⟨(mm.rgHeap.node rgit).val.rgStart + toULong size,
              (mm.rgHeap.node rgit).val.rgEnd⟩ := ⟨inside.2, below.2⟩
          exact all.setVal rest rgit
        · exact deleteVmRgNode_all all (fun rg below => ⟨below.2, below.2⟩) rgit
      · split at some
        · cases some
        · obtain rfl := Option.some_inj.mp some
          exact ⟨inside, sum⟩

/-- Every region of the process, on the free list or not, lies below its break. -/
structure Bounded (mm : MmStruct) : Prop where
  nodes : mm.rgHeap.All (VmRg.Below mm.mmap.sbrk.toNat)
  table : ∀ r : Nat, r < 30 → (mm.symrgtbl r).Below mm.mmap.sbrk.toNat

/-- A fresh address space has no region, so that all of them are bounded. -/
theorem Bounded.start : MmStruct.zeroed.initMm.Bounded where
  nodes := by
    have all : MmStruct.zeroed.rgHeap.All (VmRg.Below 0) := fun _ => ⟨Nat.le_refl _, Nat.le_refl _⟩
    exact all.malloc.set ⟨Nat.le_refl _, Nat.le_refl _⟩ _
  table := fun _ _ => ⟨Nat.le_refl _, Nat.le_refl _⟩

theorem Bounded.sameRegions (bounded : mm.Bounded) (same : SameRegions mm area) :
    area.Bounded := by
  obtain ⟨nodes, table⟩ := bounded
  rw [← same.mmap, ← same.rgHeap] at nodes
  rw [← same.mmap, ← same.symrgtbl] at table
  exact ⟨nodes, table⟩

/-- An entry of the symbol table is written and the break moves up. -/
theorem Bounded.setSymrg (bounded : mm.Bounded) (nodes : area.rgHeap.All (VmRg.Below bound))
    (table : area.symrgtbl = mm.symrgtbl) (sbrk : bound ≤ area.mmap.sbrk.toNat)
    (grows : mm.mmap.sbrk.toNat ≤ area.mmap.sbrk.toNat) {r : Nat} {rg : VmRg}
    (below : rg.Below area.mmap.sbrk.toNat) : (area.setSymrg r rg).Bounded where
  nodes := nodes.weaken fun _ below => below.mono sbrk
  table := fun other inside => by
    by_cases same : other = r
    · subst same
      simpa only [MmStruct.setSymrg, Function.update_self] using below
    · have kept : (area.setSymrg r rg).symrgtbl other = mm.symrgtbl other := by
        rw [← table]
        exact Function.update_of_ne (by exact_mod_cast same) ..
      rw [kept]
      exact (bounded.table other inside).mono grows

end MmStruct

namespace Caller

variable {c c' : Caller} {size r : BitVec 32}

/-- What an allocation leaves that is cut from the free list, or whose region ends below 2^31. -/
structure Recorded (c : Caller) (size r : BitVec 32) (c' : Caller) : Prop where
  bounded : c'.mm.Bounded
  sized : (c'.mm.symrgtbl r.toNat).rgEnd.toNat =
    (c'.mm.symrgtbl r.toNat).rgStart.toNat + size.toNat
  area : (c.short size.toNat = none ∧ c'.mm.mmap.sbrk = c.mm.mmap.sbrk ∧
      c'.mm.mmap.vmEnd = c.mm.mmap.vmEnd) ∨
    ∃ b, c.short size.toNat = some b ∧ b.mm.mmap.sbrk = c.mm.mmap.sbrk ∧
      b.mm.mmap.vmEnd = c.mm.mmap.vmEnd ∧ c'.mm.mmap.vmEnd = (b.atBreak size.toNat).mm.mmap.vmEnd ∧
      c'.mm.mmap.sbrk.toNat = c.mm.mmap.sbrk.toNat + size.toNat ∧
      (c'.mm.symrgtbl r.toNat).rgStart = c.mm.mmap.sbrk

/-- An allocation records a region that ends at the break or is taken from the free list. -/
theorem pgalloc_recorded (bounded : c.mm.Bounded) (sbrkLow : c.mm.mmap.sbrk.toNat < 2 ^ 31)
    (small : size.toNat < 2 ^ 31) (inside : r.toNat < 30)
    (room : ∀ b ∈ c.short size.toNat, b.mm.mmap.sbrk.toNat + size.toNat < 2 ^ 31) {status : Int}
    (ran : c.pgalloc size r = some (status, c')) : c.Recorded size r c' := by
  obtain ⟨-, ⟨cut, found, area, carved, rfl⟩ | ⟨b, found, rfl⟩⟩ := pgalloc_cases small inside ran
  · have same := MmStruct.getFreeVmrgArea_sameSpace carved
    have sbrk := congrArg BitVec.toNat same.sbrk
    obtain ⟨nodes, within⟩ := MmStruct.getFreeVmrgArea_below bounded.nodes (by omega) small carved
    obtain ⟨below, sized⟩ := within found rfl
    refine ⟨bounded.setSymrg nodes same.symrgtbl sbrk.ge sbrk.ge (below.mono sbrk.ge), ?_,
      .inl ⟨cut, same.sbrk, same.vmEnd⟩⟩
    rw [withSymrg_self]
    exact sized
  · have fits := room b found
    obtain ⟨cut, shape⟩ := short_eq_some found
    have same := MmStruct.getFreeVmrgArea_sameSpace cut
    have sbrk := congrArg BitVec.toNat same.sbrk
    have nodes := (MmStruct.getFreeVmrgArea_below bounded.nodes (by omega) small cut).1
    have moved := b.atBreak_breakMoved size.toNat
    have grown : (b.atBreak size.toNat).mm.mmap.sbrk.toNat =
        c.mm.mmap.sbrk.toNat + size.toNat := by
      rw [moved.sbrk, add_toULong_natCast (by omega) (by omega), sbrk]
    have start : toInt b.mm.mmap.sbrk.toNat = b.mm.mmap.sbrk.toNat :=
      toInt_eq_self (by omega) (by omega)
    have stop : toInt (b.mm.mmap.sbrk.toNat + size.toNat) = b.mm.mmap.sbrk.toNat + size.toNat :=
      toInt_eq_self (by omega) (by omega)
    have first : toULong b.mm.mmap.sbrk.toNat = b.mm.mmap.sbrk := by
      rw [toULong, BitVec.ofInt_natCast, BitVec.ofNat_toNat, BitVec.setWidth_eq]
    have last : (toULong (b.mm.mmap.sbrk.toNat + size.toNat)).toNat =
        c.mm.mmap.sbrk.toNat + size.toNat := by
      rw [toULong_toNat (by omega) (by omega)]
      omega
    rw [start, stop, first]
    have below : VmRg.Below (b.atBreak size.toNat).mm.mmap.sbrk.toNat
        ⟨b.mm.mmap.sbrk, toULong (b.mm.mmap.sbrk.toNat + size.toNat)⟩ := by
      constructor
      · simp only
        omega
      · simp only [last]
        omega
    refine ⟨bounded.setSymrg (moved.rgHeap ▸ nodes) (moved.symrgtbl.trans same.symrgtbl) ?_ ?_
      below, ?_, .inr ⟨b, found, same.sbrk, same.vmEnd, rfl, grown, ?_⟩⟩
    · omega
    · omega
    · rw [withSymrg_self, last]
      exact congrArg (· + size.toNat) sbrk.symm
    · rw [withSymrg_self]
      exact same.sbrk

/-- Freeing a variable keeps the regions below the break. -/
theorem pgfreeData_bounded (bounded : c.mm.Bounded) (inside : r.toNat < 30) {status : Int}
    (ran : c.pgfreeData r = some (status, c')) : c'.mm.Bounded := by
  obtain ⟨enlisted, area, entered, rfl⟩ := pgfreeData_cases inside ran
  have same := MmStruct.enlistVmFreergList_sameSpace entered
  have sbrk := congrArg BitVec.toNat same.sbrk
  have nodes := MmStruct.enlistVmFreergList_below bounded.nodes (bounded.table r.toNat inside)
    entered
  exact bounded.setSymrg nodes same.symrgtbl sbrk.ge sbrk.ge ⟨Nat.zero_le _, Nat.zero_le _⟩

end Caller

/-- An address of the region is on the page. -/
def VmRg.Touches (rg : VmRg) (pgn : Nat) : Prop :=
  ∃ x, rg.rgStart.toNat ≤ x ∧ x < rg.rgEnd.toNat ∧ x / 256 = pgn

namespace Caller

variable {c c' : Caller} {size r : BitVec 32}

/-- An allocation that returns 0 recorded a region on mapped pages, and one whose growth
finds too few frames returns another status. -/
def AllocationBacked (c : Caller) (size r : BitVec 32) : Prop :=
  ∀ status c', c.pgalloc size r = some (status, c') →
    (status = 0 → ∀ pgn, (c'.mm.symrgtbl r.toNat).Touches pgn →
      pgn < pagingMaxPgn ∧ Mapped (c'.mm.pgd pgn)) ∧
    ∀ b ∈ c.growing size.toNat, b.framesLeft size.toNat = false → status ≠ 0

/-- The allocation is served from the free list, or it ends in the address range and a
growth it needs is neither refused for the size of the area nor short of frames. -/
def Provided (c : Caller) : MemoryCall → Prop
  | .pgalloc size _ => ∀ b ∈ c.short size.toNat,
      b.mm.mmap.sbrk.toNat + size.toNat ≤ 2 ^ 22 ∧
        (b.exceedsPage size.toNat = true → b.areaFull = false ∧ b.framesLeft size.toNat = true)
  | _ => True

/-- The search and the growth are evaluated, so that the condition can be. -/
instance (c : Caller) (call : MemoryCall) : Decidable (c.Provided call) :=
  match call with
  | .pgalloc _ _ => inferInstanceAs (Decidable (∀ _ ∈ _, _ ∧ (_ → _)))
  | .pgfreeData _ => .isTrue trivial
  | .pgread _ _ => .isTrue trivial
  | .pgwrite _ _ _ => .isTrue trivial

end Caller

/-- The pages of the area are mapped and the regions lie below the break. -/
structure MmStruct.Stocked (mm : MmStruct) : Prop extends Backed mm, Bounded mm

namespace MmStruct.Stocked

variable {mm mm' : MmStruct}

/-- A fresh address space is stocked, as nothing has been asked for. -/
theorem start : MmStruct.zeroed.initMm.Stocked := ⟨.start, .start⟩

/-- An address below the break is on a mapped page. -/
theorem mapped_of_touches (stocked : mm.Stocked) {rg : VmRg} (below : rg.Below mm.mmap.sbrk.toNat)
    {pgn : Nat} (touches : rg.Touches pgn) : pgn < pagingMaxPgn ∧ Mapped (mm.pgd pgn) := by
  obtain ⟨x, start, stop, rfl⟩ := touches
  have sbrk := stocked.sbrk_le
  have vmEnd := stocked.vmEnd_eq
  have pages := stocked.endPgn_le
  have high := below.2
  have inside : x / 256 < mm.endPgn := by omega
  exact ⟨by omega, stocked.mapped_of_lt inside⟩

/-- Pages may go to swap and come back. -/
theorem sameRegions (stocked : mm.Stocked) (same : SameRegions mm mm')
    (mapped : ∀ pgn, Mapped (mm.pgd pgn) → Mapped (mm'.pgd pgn)) : mm'.Stocked := by
  obtain ⟨⟨low, aligned, backed⟩, bounded⟩ := stocked
  rw [← same.mmap] at low aligned
  refine ⟨⟨low, aligned, fun pgn inside => mapped pgn (backed pgn ?_)⟩, bounded.sameRegions same⟩
  rwa [← same.mmap]

end MmStruct.Stocked

namespace Caller

variable {c c' : Caller} {size r : BitVec 32}

/-- **An allocation that is provided for** keeps the area backed, and its region lies below
the break. -/
theorem Provided.pgalloc (stocked : c.mm.Stocked) (small : size.toNat < 2 ^ 31)
    (inside : r.toNat < 30) (provided : c.Provided (.pgalloc size r)) {status : Int}
    (ran : c.pgalloc size r = some (status, c')) : c'.mm.Stocked := by
  have low := stocked.low
  have sbrkLe := stocked.sbrk_le
  have recorded := pgalloc_recorded stocked.toBounded (by omega) small inside
    (fun b found => (provided b found).1.trans_lt (by decide)) ran
  refine ⟨?_, recorded.bounded⟩
  obtain ⟨-, ⟨-, found, area, cut, rfl⟩ | ⟨b, found, rfl⟩⟩ := pgalloc_cases small inside ran
  · have same := MmStruct.getFreeVmrgArea_sameSpace cut
    exact stocked.toBacked.congr same.pgd same.vmEnd same.sbrk
  · obtain ⟨room, can⟩ := provided b found
    have same := MmStruct.getFreeVmrgArea_sameSpace (short_eq_some found).1
    have backed := stocked.toBacked.congr same.pgd same.vmEnd same.sbrk
    obtain ⟨ram, swap, grew⟩ := atBreak_grew backed room can
    exact (grew.backed backed room).congr rfl rfl rfl

/-- Freeing a variable keeps the regions below the break. -/
theorem pgfreeData_stocked (stocked : c.mm.Stocked) (inside : r.toNat < 30) {status : Int}
    (ran : c.pgfreeData r = some (status, c')) : c'.mm.Stocked := by
  have bounded := pgfreeData_bounded stocked.toBounded inside ran
  obtain ⟨enlisted, area, entered, rfl⟩ := pgfreeData_cases inside ran
  have same := MmStruct.enlistVmFreergList_sameSpace entered
  exact ⟨stocked.toBacked.congr same.pgd same.vmEnd same.sbrk, bounded⟩

/-- **A call that is provided for** keeps the area backed and the regions below the break. -/
theorem Provided.stocked {u : Uninit} {data byte : Byte} {call : MemoryCall} {status : Int}
    (stocked : c.mm.Stocked) (inRange : call.InRange) (provided : c.Provided call)
    (ran : c.memoryCall u data call = some (status, byte, c')) : c'.mm.Stocked := by
  cases call with
  | pgalloc size r =>
      exact Provided.pgalloc stocked inRange.1.2 inRange.2 provided (memoryCall_pgalloc ran)
  | pgfreeData r =>
      exact pgfreeData_stocked stocked inRange (memoryCall_pgfreeData ran)
  | pgread source offset =>
      have accessed := memoryCall_pgread ran
      exact stocked.sameRegions accessed.regions accessed.mapped
  | pgwrite value destination offset =>
      have accessed := memoryCall_pgwrite ran
      exact stocked.sameRegions accessed.regions accessed.mapped

end Caller

namespace Sys

variable [DecidableEq ι] {start s t : Sys ι}

/-- The condition on the state before a call under which allocations are backed. -/
def ProvidedCall (s : Sys ι) (label : ι × MemoryCall × Int × Byte) : Prop :=
  (s.caller label.1).Provided label.2.1

/-- The call is looked up in its state, so that the condition can be evaluated. -/
instance (s : Sys ι) (label : ι × MemoryCall × Int × Byte) : Decidable (s.ProvidedCall label) :=
  inferInstanceAs (Decidable (Caller.Provided _ _))

/-- Every process stays stocked over a provided call of any of them. -/
theorem stocked_step {label : ι × MemoryCall × Int × Byte} (stocked : ∀ P, (s.mm P).Stocked)
    (taken : Guarded MemoryStep ProvidedCall s label t) (P : ι) : (t.mm P).Stocked := by
  obtain ⟨provided, inRange, u, data, c, ran, rfl⟩ := taken
  by_cases self : P = label.1
  · rw [self, put_mm_self]
    exact provided.stocked (stocked label.1) inRange ran
  · rw [put_mm_of_ne s self]
    exact stocked P

/-- **A successful allocation is backed** by mapped pages in every run whose allocations are
provided for, if it is provided for itself. -/
theorem allocation_backed {history : List (ι × MemoryCall × Int × Byte)}
    (fresh : ∀ P, start.mm P = MmStruct.zeroed.initMm)
    (run : Run (Guarded MemoryStep ProvidedCall) start history s) {P : ι} {size r : BitVec 32}
    (inRange : (MemoryCall.pgalloc size r).InRange)
    (provided : (s.caller P).Provided (.pgalloc size r)) :
    (s.caller P).AllocationBacked size r := by
  have stocked : ∀ P, (s.mm P).Stocked := run.invariant (fun s => ∀ P, (s.mm P).Stocked)
    (fun _ _ _ => stocked_step) fun P => fresh P ▸ .start
  intro status c' ran
  have after := provided.pgalloc (stocked P) inRange.1.2 inRange.2 ran
  refine ⟨fun _ pgn touches => after.mapped_of_touches (after.table r.toNat inRange.2) touches,
    fun b growing lacking => ?_⟩
  obtain ⟨short, exceeds⟩ := Option.filter_eq_some_iff.mp growing
  have left := ((provided b short).2 exceeds).2
  rw [lacking] at left
  cases left

/-- An allocation behind a growth that went to swap is backed by its pages. -/
theorem allocation_backed_spilled : (spilled.caller ()).AllocationBacked 60 1 := by
  have run : Run (Guarded MemoryStep ProvidedCall) (boot Unit 512 1024)
      [((), .pgalloc 700 0, 0, 0)] spilled :=
    .single ⟨by decide +kernel,
      memoryStep_of_called (by decide) _ (by decide +kernel) (by decide +kernel)⟩
  exact allocation_backed (fun _ => rfl) run (by decide) (by decide +kernel)

/-- An allocation of four pages with one frame of RAM and one of swap. -/
def lacking : Int × Caller :=
  (((boot Unit 256 256).caller ()).pgalloc 1000 0).get (by decide +kernel)

/-- It returns 0, and its region is on no mapped page. -/
theorem lacking_frames_unbacked : ¬ ∀ (start s : Sys Unit)
    (history : List (Unit × MemoryCall × Int × Byte)) (size r : BitVec 32),
    (∀ P, start.mm P = MmStruct.zeroed.initMm) → start.mram.Formatted →
      start.activeMswp.Formatted → Run MemoryStep start history s →
      (MemoryCall.pgalloc size r).InRange → (s.caller ()).AllocationBacked size r := by
  intro claim
  have backed := claim (boot Unit 256 256) _ [] 1000 0 (fun _ => rfl)
    (Memphy.initMemphy_formatted ..) (Memphy.initMemphy_formatted ..) (.nil _) (by decide)
  have ran : ((boot Unit 256 256).caller ()).pgalloc 1000 0 = some lacking :=
    Option.eq_some_of_isSome _
  have touches : (lacking.2.mm.symrgtbl 0).Touches 0 :=
    ⟨0, by decide +kernel, by decide +kernel, rfl⟩
  have mapped := (backed lacking.1 lacking.2 ran).1 (by decide +kernel) 0 touches
  exact absurd mapped (by decide +kernel)

end Sys

end PagedOs
