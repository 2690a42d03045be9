import PagedOs.Memory.Backing

/-! # The sizes of allocations

`pgalloc` takes the size as a `uint32_t` and passes it on as an `int`, which is converted to
`unsigned long` where it meets the bounds of a region, the break and the end of the area.
As long as the size fits an `int` and the break stays below 2^31, none of these
conversions changes a number: a region has the size asked for, the break and the end of
the area only move up, and a region at the break lies above all others.
-/

namespace PagedOs

open LinkedHeap Spans Transition

variable {ι : Type*}

/-- The registers name variables, and a size is any number of 32 bits. -/
def MemoryCall.NamesVariable : MemoryCall → Prop
  | .pgalloc _ regIndex => regIndex.toNat < 30
  | .pgfreeData regIndex => regIndex.toNat < 30
  | .pgread source _ => source.toNat < 30
  | .pgwrite _ destination _ => destination.toNat < 30

/-- Whether the register is one of the 30 of a process is a comparison. -/
instance (call : MemoryCall) : Decidable call.NamesVariable :=
  match call with
  | .pgalloc _ _ => inferInstanceAs (Decidable (_ < _))
  | .pgfreeData _ => inferInstanceAs (Decidable (_ < _))
  | .pgread _ _ => inferInstanceAs (Decidable (_ < _))
  | .pgwrite _ _ _ => inferInstanceAs (Decidable (_ < _))

namespace Caller

variable {c c' : Caller} {size r : BitVec 32}

/-- The region recorded has the size asked for, and neither the break nor the end of the area
moved down. -/
structure Sized (c : Caller) (size r : BitVec 32) (c' : Caller) : Prop where
  recorded : (c'.mm.symrgtbl r.toNat).rgEnd.toNat =
    (c'.mm.symrgtbl r.toNat).rgStart.toNat + size.toNat
  sbrk : c.mm.mmap.sbrk.toNat ≤ c'.mm.mmap.sbrk.toNat
  vmEnd : c.mm.mmap.vmEnd.toNat ≤ c'.mm.mmap.vmEnd.toNat

/-- An allocation fits an `int` and, unless it is served from the free list, ends below 2^31;
a free is not wedged. -/
def FitsInt (c : Caller) : MemoryCall → Prop
  | .pgalloc size _ => size.toNat < 2 ^ 31 ∧
      ∀ b ∈ c.short size.toNat, b.mm.mmap.sbrk.toNat + size.toNat < 2 ^ 31
  | .pgfreeData regIndex =>
      MmStruct.wedged (c.mm.symrgtbl regIndex.toNat) c.mm.freeRegions = false
  | _ => True

/-- Whether a call fits an `int` is computed from the size, the free list and the break. -/
instance (c : Caller) (call : MemoryCall) : Decidable (c.FitsInt call) :=
  match call with
  | .pgalloc _ _ => inferInstanceAs (Decidable (_ ∧ ∀ _ ∈ _, _))
  | .pgfreeData _ => inferInstanceAs (Decidable (_ = _))
  | .pgread _ _ => .isTrue trivial
  | .pgwrite _ _ _ => .isTrue trivial

end Caller

/-- No address is covered twice, the regions lie below the break, and the area does not end
behind it. A first allocation of nearly 2^31 bytes moves the end of the area around, and the
break is then so high that it does not move again. -/
structure MmStruct.Settled (mm : MmStruct) : Prop extends Bounded mm where
  sbrkLow : mm.mmap.sbrk.toNat < 2 ^ 31
  ends : mm.mmap.vmEnd.toNat ≤ (mm.mmap.sbrk.toNat + 255) / 256 * 256 ∨
    2 ^ 31 - 256 < mm.mmap.sbrk.toNat
  packed : ∃ regions, FreeList mm regions ∧
    ∀ x, mm.cover regions x ≤ if x < mm.mmap.sbrk.toNat then 1 else 0

namespace MmStruct.Settled

variable {mm mm' : MmStruct}

/-- The address space that `init_mm` leaves on zero-filled memory is settled. -/
theorem start : MmStruct.zeroed.initMm.Settled where
  toBounded := .start
  sbrkLow := by decide
  ends := by decide
  packed := MmStruct.Laid.start.packed

/-- Being settled is a matter of the regions. -/
theorem sameRegions (settled : mm.Settled) (same : SameRegions mm mm') : mm'.Settled where
  toBounded := settled.toBounded.sameRegions same
  sbrkLow := by
    rw [same.mmap]
    exact settled.sbrkLow
  ends := by
    rw [same.mmap]
    exact settled.ends
  packed := by
    obtain ⟨regions, list, packed⟩ := settled.packed
    refine ⟨regions, FreeList_congr list same.rgHeap (by rw [same.mmap]), fun x => ?_⟩
    rw [cover_congr same.symrgtbl, same.mmap]
    exact packed x

end MmStruct.Settled

namespace Caller

variable {c c' : Caller} {size r : BitVec 32}

theorem rounded (x : Nat) :
    ∃ pages, (x + 255) / 256 * 256 = pages * 256 ∧ x ≤ pages * 256 ∧ pages * 256 < x + 256 :=
  ⟨(x + 255) / 256, rfl, by omega, by omega⟩

/-- A growth that ends below 2^31 moves the end of the area up, to no more than the break
rounded up. -/
theorem atBreak_vmEnd_le {size : Nat} (room : c.mm.mmap.sbrk.toNat + size < 2 ^ 31)
    (ends : c.mm.mmap.vmEnd.toNat ≤ (c.mm.mmap.sbrk.toNat + 255) / 256 * 256 ∨
      2 ^ 31 - 256 < c.mm.mmap.sbrk.toNat) :
    c.mm.mmap.vmEnd.toNat ≤ (c.atBreak size).mm.mmap.vmEnd.toNat ∧
      ((c.atBreak size).mm.mmap.vmEnd.toNat ≤ (c.mm.mmap.sbrk.toNat + size + 255) / 256 * 256 ∨
        2 ^ 31 - 256 < c.mm.mmap.sbrk.toNat + size) := by
  have difference := @aligned_difference size c (by omega) (by omega)
  obtain ⟨old, oldEq, oldLow, oldHigh⟩ := rounded c.mm.mmap.sbrk.toNat
  obtain ⟨new, newEq, newLow, newHigh⟩ := rounded (c.mm.mmap.sbrk.toNat + size)
  rw [oldEq, newEq] at difference
  rw [oldEq] at ends
  rw [newEq]
  unfold atBreak
  split
  · rw [incVmaLimit_vmEnd]
    split
    · omega
    · rw [incAmt, difference]
      by_cases large : new * 256 - old * 256 < 2 ^ 31
      · rw [toInt_eq_self (by omega) (by omega)]
        rcases ends with below | high
        · rw [add_toULong_toNat (by omega) (by omega) (by omega)]
          omega
        · -- the break is on the last page below 2^31
          have none : new * 256 - old * 256 = 0 := by omega
          have still : toULong ((0 : Nat) : Int) = 0#64 := rfl
          rw [none, still, BitVec.add_zero]
          omega
      · omega
  · rw [moveSbrk_vmEnd]
    omega

/-- A region cut from the free list shares no byte with a variable. -/
theorem cut_apart {regions : List VmRg} (list : FreeList c.mm regions)
    (packed : ∀ x, c.mm.cover regions x ≤ if x < c.mm.mmap.sbrk.toNat then 1 else 0)
    (sbrkLow : c.mm.mmap.sbrk.toNat < 2 ^ 31) (small : size.toNat < 2 ^ 31) (inside : r.toNat < 30)
    (cut : c.short size.toNat = none) {status : Int} (ran : c.pgalloc size r = some (status, c'))
    {other : Nat} (entry : other < 30) :
    Apart (c'.mm.symrgtbl r.toNat).span (c.mm.symrgtbl other).span := by
  obtain ⟨-, ⟨-, found, area, carved, rfl⟩ | ⟨b, short, -⟩⟩ := pgalloc_cases small inside ran
  · rw [withSymrg_self]
    rcases MmStruct.getFreeVmrgArea_spec list (show (0 : Int) ≤ size.toNat by omega) (by omega)
      (packed_low list packed sbrkLow) with
      ⟨nothing, -⟩ | ⟨found', _, regions', carved', -, -, -, covered⟩
    · rw [carved] at nothing
      cases nothing
    · obtain rfl : found = found' :=
        Option.some.inj (Prod.mk.inj (Option.some.inj (carved.symm.trans carved'))).1
      rintro x ⟨inFound, inOther⟩
      have free : 0 < covers [found.span] x :=
        covers_pos.mpr ⟨_, List.mem_singleton_self _, inFound⟩
      have used : 0 < covers (spans c.mm.tableRegions) x :=
        covers_pos.mpr ⟨_, List.mem_map.mpr ⟨_, List.mem_map.mpr ⟨other, List.mem_range.mpr entry,
          rfl⟩, rfl⟩, inOther⟩
      have once := packed x
      have taken := covered x
      rw [MmStruct.cover] at once
      split at once <;> omega
  · rw [cut] at short
    cases short

/-- **An allocation of a size that fits.** -/
theorem Settled.pgalloc (settled : c.mm.Settled) (inside : r.toNat < 30)
    (fits : c.FitsInt (.pgalloc size r)) :
    ∃ c', c.pgalloc size r = some (0, c') ∧ c'.mm.Settled ∧ c.Sized size r c' ∧
      ∀ other : Nat, other < 30 →
        Apart (c'.mm.symrgtbl r.toNat).span (c.mm.symrgtbl other).span ∧
        ((c.short size.toNat).isSome = true →
          (c.mm.symrgtbl other).rgEnd.toNat ≤ (c'.mm.symrgtbl r.toNat).rgStart.toNat) := by
  obtain ⟨small, room⟩ := fits
  have sbrkLow := settled.sbrkLow
  obtain ⟨regions, list, packed⟩ := settled.packed
  have low := packed_low list packed sbrkLow
  obtain ⟨c', result, -⟩ := pgalloc_cover list low sbrkLow small inside
  obtain ⟨bounded, sized, area⟩ :=
    pgalloc_recorded settled.toBounded sbrkLow small inside room result
  refine ⟨c', result, ?_⟩
  rcases area with ⟨cut, sbrk, vmEnd⟩ | ⟨b, short, sbrkB, vmEndB, vmEnd, sbrk, start⟩
  · have stays := congrArg BitVec.toNat sbrk
    have low' : c'.mm.mmap.sbrk.toNat < 2 ^ 31 := stays.trans_lt sbrkLow
    refine ⟨⟨bounded, low', ?_, pgalloc_packed list packed sbrkLow small inside result low'⟩,
      ⟨sized, stays.ge, (congrArg BitVec.toNat vmEnd).ge⟩, fun other entry => ⟨?_, ?_⟩⟩
    · rw [sbrk, vmEnd]
      exact settled.ends
    · exact cut_apart list packed sbrkLow small inside cut result entry
    · rw [cut]
      exact fun none => absurd none (by decide)
  · have fits := room b short
    rw [← sbrkB] at sbrk
    have moved := atBreak_vmEnd_le fits (by rw [sbrkB, vmEndB]; exact settled.ends)
    rw [← vmEnd, vmEndB, ← sbrk] at moved
    have low' : c'.mm.mmap.sbrk.toNat < 2 ^ 31 := by omega
    have above : ∀ other : Nat, other < 30 →
        (c.mm.symrgtbl other).rgEnd.toNat ≤ (c'.mm.symrgtbl r.toNat).rgStart.toNat := by
      intro other entry
      rw [start]
      exact (settled.table other entry).2
    refine ⟨⟨bounded, low', moved.2, pgalloc_packed list packed sbrkLow small inside result low'⟩,
      ⟨sized, by rw [sbrk, sbrkB]; exact Nat.le_add_right _ _, moved.1⟩,
      fun other entry => ⟨?_, fun _ => above other entry⟩⟩
    rintro x ⟨inNew, inOld⟩
    have reached := (holds_iff.mp inNew).1
    have beyond := (holds_iff.mp inOld).2
    exact absurd (beyond.trans_le (above other entry)) reached.not_gt

/-- Freeing a variable moves neither the break nor the end of the area. -/
theorem Settled.pgfreeData (settled : c.mm.Settled) (inside : r.toNat < 30)
    (fits : c.FitsInt (.pgfreeData r)) {status : Int}
    (ran : c.pgfreeData r = some (status, c')) : c'.mm.Settled := by
  obtain ⟨regions, list, packed⟩ := settled.packed
  obtain ⟨after, regions', result, pages, sbrk, -, list', covered⟩ :=
    pgfreeData_cover list inside fits
  obtain ⟨-, rfl⟩ := Prod.mk.inj (Option.some.inj (ran.symm.trans result))
  refine ⟨pgfreeData_bounded settled.toBounded inside ran, ?_, ?_, regions', list', fun x => ?_⟩
  · rw [sbrk]
    exact settled.sbrkLow
  · rw [sbrk, pages.vmEnd]
    exact settled.ends
  · rw [covered x, sbrk]
    exact packed x

/-- **A call that fits** leaves a process in which no size has wrapped. -/
theorem FitsInt.settled {u : Uninit} {data byte : Byte} {call : MemoryCall} {status : Int}
    (settled : c.mm.Settled) (names : call.NamesVariable) (fits : c.FitsInt call)
    (ran : c.memoryCall u data call = some (status, byte, c')) : c'.mm.Settled := by
  cases call with
  | pgalloc size r =>
      have done := memoryCall_pgalloc ran
      obtain ⟨reached, result, settled', -⟩ := Settled.pgalloc settled names fits
      obtain ⟨-, rfl⟩ := Prod.mk.inj (Option.some.inj (done.symm.trans result))
      exact settled'
  | pgfreeData r =>
      exact Settled.pgfreeData settled names fits (memoryCall_pgfreeData ran)
  | pgread source offset =>
      exact settled.sameRegions (memoryCall_pgread ran).regions
  | pgwrite value destination offset =>
      exact settled.sameRegions (memoryCall_pgwrite ran).regions

/-- The allocation changes nothing and says so, or it records a region of the size asked for
above all others and moves neither the break nor the end of the area down. -/
def RecordsAbove (c : Caller) (size r : BitVec 32) : Prop :=
  ∃ status c', c.pgalloc size r = some (status, c') ∧
    (status ≠ 0 ∧ c' = c ∨ c.Sized size r c' ∧ ∀ other : Nat, other < 30 →
      (c.mm.symrgtbl other).rgEnd.toNat ≤ (c'.mm.symrgtbl r.toNat).rgStart.toNat)

end Caller

namespace Sys

variable [DecidableEq ι] {start s t : Sys ι}

/-- A process makes a call with any size; the label is that of `MemoryStep`. -/
def LoadedStep (s : Sys ι) (label : ι × MemoryCall × Int × Byte) (t : Sys ι) : Prop :=
  label.2.1.NamesVariable ∧ ∃ u before c,
    (s.caller label.1).memoryCall u before label.2.1 = some (label.2.2.1, label.2.2.2, c) ∧
      t = s.put label.1 c

/-- The condition on the state before a call under which sizes do not wrap. -/
def FitsIntCall (s : Sys ι) (label : ι × MemoryCall × Int × Byte) : Prop :=
  (s.caller label.1).FitsInt label.2.1

/-- The condition is that of the process that calls. -/
instance (s : Sys ι) (label : ι × MemoryCall × Int × Byte) : Decidable (s.FitsIntCall label) :=
  inferInstanceAs (Decidable (Caller.FitsInt _ _))

/-- One call that fits an `int` leaves every address space settled. -/
theorem settled_step {label : ι × MemoryCall × Int × Byte} (settled : ∀ P, (s.mm P).Settled)
    (taken : Guarded LoadedStep FitsIntCall s label t) (P : ι) : (t.mm P).Settled := by
  obtain ⟨fits, names, u, data, c, ran, rfl⟩ := taken
  by_cases self : P = label.1
  · rw [self, put_mm_self]
    exact fits.settled (settled label.1) names ran
  · rw [put_mm_of_ne s self]
    exact settled P

/-- **Allocation sizes do not wrap** in runs whose calls fit an `int`: an allocation that fits,
too, succeeds, records a region of its size, and moves neither the break nor the end of the
area down. Its region shares no byte with a variable, and it starts at or above the end of
each unless it was cut from the free list. -/
theorem allocation_sizes_exact {history : List (ι × MemoryCall × Int × Byte)}
    (fresh : ∀ P, start.mm P = MmStruct.zeroed.initMm)
    (run : Run (Guarded LoadedStep FitsIntCall) start history s) {P : ι} {size r : BitVec 32}
    (inside : r.toNat < 30) (fits : (s.caller P).FitsInt (.pgalloc size r)) :
    ∃ c', (s.caller P).pgalloc size r = some (0, c') ∧ (s.caller P).Sized size r c' ∧
      ∀ other : Nat, other < 30 →
        Apart (c'.mm.symrgtbl r.toNat).span ((s.mm P).symrgtbl other).span ∧
        (((s.caller P).short size.toNat).isSome = true →
          ((s.mm P).symrgtbl other).rgEnd.toNat ≤ (c'.mm.symrgtbl r.toNat).rgStart.toNat) := by
  have settled : ∀ P, (s.mm P).Settled := run.invariant (fun s => ∀ P, (s.mm P).Settled)
    (fun _ _ _ => settled_step) fun P => fresh P ▸ .start
  obtain ⟨c', result, -, sized, apart⟩ :=
    Caller.Settled.pgalloc (c := s.caller P) (settled P) inside fits
  exact ⟨c', result, sized, apart⟩

/-- A call that the code defines on one of the 30 registers is a step of these runs. -/
theorem loadedStep_of_called {P : ι} {call : MemoryCall} {status : Int} {data : Byte}
    (names : call.NamesVariable) (defined : (s.called P call).isSome = true)
    (statusIs : ((s.called P call).get defined).1 = status)
    (dataIs : ((s.called P call).get defined).2.1 = data) :
    LoadedStep s (P, call, status, data) ((s.called P call).get defined).2.2 :=
  ⟨names, ran_of_called defined statusIs dataIs⟩

/-- A process with a variable of 100 bytes, -/
def lowerSized : Sys Unit :=
  (((boot Unit 512 1024).called () (.pgalloc 100#32 0)).get (by decide +kernel)).2.2

/-- with another variable of 100 bytes above it, -/
def bothSized : Sys Unit :=
  ((lowerSized.called () (.pgalloc 100 1)).get (by decide +kernel)).2.2

/-- and with the lower one free again. -/
def lowerReleased : Sys Unit :=
  ((bothSized.called () (.pgfreeData 0)).get (by decide +kernel)).2.2

theorem lowerSized_reached :
    LoadedStep (boot Unit 512 1024) ((), .pgalloc 100 0, 0, 0) lowerSized :=
  loadedStep_of_called (by decide) _ (by decide +kernel) (by decide +kernel)

theorem bothSized_reached : LoadedStep lowerSized ((), .pgalloc 100 1, 0, 0) bothSized :=
  loadedStep_of_called (by decide) _ (by decide +kernel) (by decide +kernel)

theorem lowerReleased_reached : LoadedStep bothSized ((), .pgfreeData 0, 0, 0) lowerReleased :=
  loadedStep_of_called (by decide) _ (by decide +kernel) (by decide +kernel)

/-- A third variable of 1000 bytes gets a region of that size, above the second one. -/
theorem allocation_sizes_exact_third :
    ∃ c', (bothSized.caller ()).pgalloc 1000 2 = some (0, c') ∧
      (bothSized.caller ()).Sized 1000 2 c' ∧
      ((bothSized.mm ()).symrgtbl 1).rgEnd.toNat ≤ (c'.mm.symrgtbl 2).rgStart.toNat := by
  have run : Run (Guarded LoadedStep FitsIntCall) (boot Unit 512 1024)
      [((), .pgalloc 100 0, 0, 0), ((), .pgalloc 100 1, 0, 0)] bothSized :=
    .cons ⟨by decide +kernel, lowerSized_reached⟩ (.single ⟨by decide +kernel, bothSized_reached⟩)
  obtain ⟨c', result, sized, above⟩ := allocation_sizes_exact (fun _ => rfl) run
    (show (2 : BitVec 32).toNat < 30 by decide)
    (show (bothSized.caller ()).FitsInt (.pgalloc 1000 2) by decide +kernel)
  exact ⟨c', result, sized, (above 1 (by decide)).2 (by decide +kernel)⟩

/-- The 50 bytes are cut from the free region, below the variable that is still there. -/
theorem free_list_allocates_below : ¬ ∀ (start s : Sys Unit)
    (history : List (Unit × MemoryCall × Int × Byte)) (size r : BitVec 32),
    (∀ P, start.mm P = MmStruct.zeroed.initMm) → Run LoadedStep start history s → r.toNat < 30 →
      (s.caller ()).RecordsAbove size r := by
  intro claim
  obtain ⟨status, c', result, recorded⟩ := claim (boot Unit 512 1024) lowerReleased _ 50 2
    (fun _ => rfl) (.cons lowerSized_reached (.cons bothSized_reached
      (.single lowerReleased_reached))) (by decide)
  have outcome : (((lowerReleased.caller ()).pgalloc 50 2).map fun called =>
      (called.1, (called.2.mm.symrgtbl 2).rgStart.toNat)) = some (0, 0) := by decide +kernel
  rw [result, Option.map_some, Option.some.injEq, Prod.mk.injEq] at outcome
  have other : ((lowerReleased.mm ()).symrgtbl 1).rgEnd.toNat = 200 := by decide +kernel
  rcases recorded with ⟨failed, -⟩ | ⟨-, above⟩
  · exact failed outcome.1
  · have lies := (above 1 (by decide)).trans_eq outcome.2
    exact absurd (other.ge.trans lies) (by decide)

/-- A size of 2^32 - 50 is -50 as an `int`, and takes the break back from 100 to 50. -/
example : (do
    let (_, c) ← ((boot Unit 512 1024).caller ()).pgalloc 100 0
    let (status, c) ← c.pgalloc (BitVec.ofNat 32 (2 ^ 32 - 50)) 1
    return (status, (c.mm.symrgtbl 1).span, c.mm.mmap.sbrk.toNat)) = some (0, (100, 50), 50) := by
  decide +kernel

end Sys

end PagedOs
