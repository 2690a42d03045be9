import PagedOs.Library.Traced
import PagedOs.Memory.Sizes

/-! # Writes to the page table

Which entries of `pgd` an allocation writes, function by function. Forgetting that gives back
`pgalloc`. Nothing compares the end of a growth with the 2^22 bytes of the address range,
so that the entries lie in the table, and the region in the address range, exactly if the
region that is allocated at the break ends in the range.
-/

namespace PagedOs

open LinkedHeap Spans Transition

variable {ι : Type*}

/-! ## The entries written -/

namespace MmStruct

/-- A loop of `vmap_page_range`, with the pages whose entries it writes. -/
def mapFramesWriting (setEntry : Pte → Int → Pte) (mm : MmStruct) (pgn : Nat) :
    List Int → Traced Nat MmStruct
  | [] => return mm
  | fpn :: frames => do
      Traced.record pgn
      let mm := mm.setPte pgn (setEntry (mm.pgd pgn) fpn)
      mapFramesWriting setEntry (mm.enlistPgnNode (pgn + 1)) (pgn + 1) frames

/-- `vmap_page_range`, with the pages whose entries it writes. -/
def vmapPageRangeWriting (mm : MmStruct) (addr : Int) (frames frmLstSwap : List Int) :
    Traced Nat MmStruct := do
  let pgn := pagingPgn addr
  let mm ← mm.mapFramesWriting pteSetFpn pgn frames
  mm.mapFramesWriting (fun pte swpoff => pteSetSwap pte 0 swpoff) (pgn + frames.length) frmLstSwap

/-- The traced loop computes what the loop of `vmap_page_range` computes. -/
theorem mapFramesWriting_result (setEntry : Pte → Int → Pte) (mm : MmStruct) (pgn : Nat)
    (frames : List Int) :
    (mm.mapFramesWriting setEntry pgn frames).result = some (mm.mapFrames setEntry pgn frames) := by
  induction frames generalizing mm pgn with
  | nil => rfl
  | cons fpn frames ih =>
      rw [mapFramesWriting, Traced.result_bind, Traced.result_record, Option.bind_some, ih,
        mapFrames]

/-- The traced `vmap_page_range` computes what the original computes. -/
theorem vmapPageRangeWriting_result (mm : MmStruct) (addr : Int) (frames frmLstSwap : List Int) :
    (mm.vmapPageRangeWriting addr frames frmLstSwap).result =
      some (mm.vmapPageRange addr frames frmLstSwap) := by
  rw [vmapPageRangeWriting, Traced.result_bind, mapFramesWriting_result, Option.bind_some,
    mapFramesWriting_result, vmapPageRange]

theorem mapFramesWriting_range (setEntry : Pte → Int → Pte) (mm : MmStruct) {pgn bound : Nat}
    {frames : List Int} (enough : frames = [] ∨ pgn + frames.length ≤ bound) :
    Traced.Always (· < bound) (mm.mapFramesWriting setEntry pgn frames) := by
  induction frames generalizing mm pgn with
  | nil => exact .pure mm
  | cons fpn frames ih =>
      have room := enough.resolve_left (List.cons_ne_nil fpn frames)
      rw [List.length_cons] at room
      exact .bind (.record (by omega)) fun _ _ => ih _ (.inr (by omega))

/-- With enough room below a bound `vmap_page_range` writes no entry at it or behind it. -/
theorem vmapPageRangeWriting_range (mm : MmStruct) {addr : Int} {frames frmLstSwap : List Int}
    {bound : Nat} (enough : frames.length + frmLstSwap.length = 0 ∨
      pagingPgn addr + (frames.length + frmLstSwap.length) ≤ bound) :
    Traced.Always (· < bound) (mm.vmapPageRangeWriting addr frames frmLstSwap) := by
  refine .bind (mapFramesWriting_range _ _ ?_) fun _ _ => mapFramesWriting_range _ _ ?_
  · rw [← List.length_eq_zero_iff]
    omega
  · rw [← List.length_eq_zero_iff]
    omega

end MmStruct

namespace Caller

variable {c c' : Caller} {size r : BitVec 32}

/-- `vm_map_ram`, with the pages whose entries it writes. -/
def vmMapRamWriting (c : Caller) (mapstart incpgnum : Int) : Traced Nat (Int × Caller) :=
  let (retAlloc, frmLst, frmLstSwap, c) := c.allocPagesRange incpgnum.toNat [] []
  if retAlloc < 0 then return (-1, c)
  else do
    let mm ← c.mm.vmapPageRangeWriting mapstart frmLst frmLstSwap
    return (0, { c with mm := mm })

/-- `inc_vma_limit`, with the pages whose entries it writes. -/
def incVmaLimitWriting (c : Caller) (originSize : Int) : Traced Nat (Int × Caller) :=
  let incAmt := c.incAmt originSize
  let incnumpage := incAmt.tdiv pagingPagesz
  let c := c.getVmAreaNodeAtBrk originSize
  let oldEnd := toInt c.mm.mmap.vmEnd.toNat
  if c.validateOverlapVmArea < 0 then return (-1, c)
  else do
    let mapped ← (c.moveVmEnd incAmt).vmMapRamWriting oldEnd incnumpage
    return (if mapped.1 < 0 then -1 else 0, mapped.2)

/-- Making room at the break, as `__alloc` does. -/
def atBreakWriting (c : Caller) (size : Int) : Traced Nat Caller :=
  if c.exceedsPage size then do
    let grown ← c.incVmaLimitWriting size
    return grown.2
  else return c.moveSbrk size

/-- `__alloc`, with the pages whose entries it writes. -/
def allocWriting (c : Caller) (rgid size : Int) : Traced Nat (Int × Int × Caller) := do
  let found ← Traced.lift (c.mm.getFreeVmrgArea size)
  match found with
  | (some rgnode, mm) =>
      return (0, toInt rgnode.rgStart.toNat, ({ c with mm := mm } : Caller).withSymrg rgid rgnode)
  | (none, mm) => do
      let rg : VmRg := ⟨toULong (toInt mm.mmap.sbrk.toNat),
        toULong (toInt (toInt mm.mmap.sbrk.toNat + size))⟩
      let c ← ({ c with mm := mm } : Caller).atBreakWriting size
      return (0, toInt rg.rgStart.toNat, c.withSymrg rgid rg)

/-- `pgalloc`, with the pages whose entries it writes. -/
def pgallocWriting (proc : Caller) (size regIndex : BitVec 32) : Traced Nat (Int × Caller) := do
  let (status, _, proc) ← proc.allocWriting (toInt regIndex.toNat) (toInt size.toNat)
  return (status, proc)

/-- The traced `vm_map_ram` computes what the original computes. -/
theorem vmMapRamWriting_result (c : Caller) (mapstart incpgnum : Int) :
    (c.vmMapRamWriting mapstart incpgnum).result = some (c.vmMapRam mapstart incpgnum) := by
  unfold vmMapRamWriting vmMapRam
  generalize c.allocPagesRange incpgnum.toNat [] [] = taken
  obtain ⟨retAlloc, frmLst, frmLstSwap, after⟩ := taken
  by_cases failed : retAlloc < 0
  · simp only [failed, ↓reduceIte, Traced.result_pure]
  · simp only [failed, ↓reduceIte, Traced.result_bind, Traced.result_pure,
      MmStruct.vmapPageRangeWriting_result, Option.bind_some]

/-- The traced `inc_vma_limit` computes what the original computes. -/
theorem incVmaLimitWriting_result (c : Caller) (originSize : Int) :
    (c.incVmaLimitWriting originSize).result = some (c.incVmaLimit originSize) := by
  unfold incVmaLimitWriting incVmaLimit
  by_cases failed : (c.getVmAreaNodeAtBrk originSize).validateOverlapVmArea < 0
  · simp only [failed, ↓reduceIte, Traced.result_pure]
  · simp only [failed, ↓reduceIte, Traced.result_bind, Traced.result_pure, vmMapRamWriting_result,
      Option.bind_some]

/-- The traced end of `__alloc` computes what the original computes. -/
theorem atBreakWriting_result (c : Caller) (size : Int) :
    (c.atBreakWriting size).result = some (c.atBreak size) := by
  unfold atBreakWriting atBreak
  split
  · rw [Traced.result_bind, incVmaLimitWriting_result, Option.bind_some, Traced.result_pure]
  · rfl

theorem pgallocWriting_result (c : Caller) (size r : BitVec 32) :
    (c.pgallocWriting size r).result = c.pgalloc size r := by
  have allocated : ∀ rgid amount : Int,
      (c.allocWriting rgid amount).result = c.alloc rgid amount := by
    intro rgid amount
    rw [allocWriting, Traced.result_bind, Traced.result_lift, alloc_eq, Option.map_eq_bind]
    apply Option.bind_congr
    rintro ⟨_ | rgnode, mm⟩ -
    · simp only [Traced.result_bind, atBreakWriting_result, Option.bind_some, Traced.result_pure,
        Function.comp_apply]
    · rfl
  rw [pgallocWriting, Traced.result_bind, allocated, pgalloc, Option.map_eq_bind]
  rfl

/-- The entries written by a growth follow the entry of the page at the old end. -/
theorem vmMapRamWriting_range (c : Caller) (mapstart incpgnum : Int) {bound : Nat}
    (enough : incpgnum.toNat = 0 ∨ pagingPgn mapstart + incpgnum.toNat ≤ bound) :
    Traced.Always (· < bound) (c.vmMapRamWriting mapstart incpgnum) := by
  unfold vmMapRamWriting
  rw [allocPagesRange_eq]
  generalize incpgnum.toNat = count at enough
  by_cases failed : (if count ≤ c.mram.freeFpList.length + c.activeMswp.freeFpList.length then 0
      else -3000 : Int) < 0
  · simp only [failed, ↓reduceIte]
    exact .pure _
  · simp only [failed, ↓reduceIte, List.append_nil]
    refine .bind (MmStruct.vmapPageRangeWriting_range _ ?_) fun _ _ => .pure _
    simp only [List.length_reverse, List.length_take]
    omega

/-- A growth that asks for no page or has its pages below the bound writes below it. -/
theorem incVmaLimitWriting_range (c : Caller) (originSize : Int) {bound : Nat}
    (enough : c.incnumpage originSize = 0 ∨
      pagingPgn (toInt c.mm.mmap.vmEnd.toNat) + c.incnumpage originSize ≤ bound) :
    Traced.Always (· < bound) (c.incVmaLimitWriting originSize) := by
  unfold incVmaLimitWriting
  by_cases failed : (c.getVmAreaNodeAtBrk originSize).validateOverlapVmArea < 0
  · simp only [failed, ↓reduceIte]
    exact .pure _
  · simp only [failed, ↓reduceIte]
    exact .bind (vmMapRamWriting_range _ _ _ enough) fun _ _ => .pure _

end Caller

/-! ## The address range -/

/-- The regions and the break lie in the address range, and the area does not end behind it. -/
structure MmStruct.Fenced (mm : MmStruct) : Prop extends Bounded mm where
  low : mm.mmap.sbrk.toNat ≤ 2 ^ 22
  ends : mm.mmap.vmEnd.toNat ≤ (mm.mmap.sbrk.toNat + 255) / 256 * 256

namespace MmStruct.Fenced

variable {mm mm' : MmStruct}

/-- The address space that `init_mm` leaves on zero-filled memory lies inside of the address range.
-/
theorem start : MmStruct.zeroed.initMm.Fenced := ⟨.start, by decide, by decide⟩

/-- Whether it does is a matter of its regions. -/
theorem sameRegions (fenced : mm.Fenced) (same : SameRegions mm mm') : mm'.Fenced where
  toBounded := fenced.toBounded.sameRegions same
  low := by
    rw [same.mmap]
    exact fenced.low
  ends := by
    rw [same.mmap]
    exact fenced.ends

/-- The bytes of different pages of the variables have different entries. -/
theorem page_injective (fenced : mm.Fenced) {left right x y : Nat} (leftEntry : left < 30)
    (rightEntry : right < 30) (inLeft : holds (mm.symrgtbl left).span x = true)
    (inRight : holds (mm.symrgtbl right).span y = true) (samePage : pagingPgn x = pagingPgn y) :
    x / 256 = y / 256 := by
  have low := fenced.low
  have xBelow := (holds_iff.mp inLeft).2.trans_le (fenced.table left leftEntry).2
  have yBelow := (holds_iff.mp inRight).2.trans_le (fenced.table right rightEntry).2
  have xPage := pagingPgn_eq x
  have yPage := pagingPgn_eq y
  omega

end MmStruct.Fenced

namespace Caller

variable {c c' : Caller} {size r : BitVec 32}

/-- An allocation is served from the free list or ends in the address range. -/
def Contained (c : Caller) : MemoryCall → Prop
  | .pgalloc size _ => ∀ b ∈ c.short size.toNat, b.mm.mmap.sbrk.toNat + size.toNat ≤ 2 ^ 22
  | _ => True

/-- The room that a call needs is a comparison with the break. -/
instance (c : Caller) (call : MemoryCall) : Decidable (c.Contained call) :=
  match call with
  | .pgalloc _ _ => inferInstanceAs (Decidable (∀ _ ∈ _, _))
  | .pgfreeData _ => .isTrue trivial
  | .pgread _ _ => .isTrue trivial
  | .pgwrite _ _ _ => .isTrue trivial

/-- An allocation writes entries of the page table only, and a region that it records for
success lies in the address range. -/
structure StaysInside (c : Caller) (size r : BitVec 32) : Prop where
  writes : Traced.Always (· < pagingMaxPgn) (c.pgallocWriting size r)
  recorded : ∀ c', c.pgalloc size r = some (0, c') → (c'.mm.symrgtbl r.toNat).Below (2 ^ 22)

/-- The pages of a growth that ends in the address range have entries. -/
theorem atBreakWriting_range {size : Nat} (room : c.mm.mmap.sbrk.toNat + size ≤ 2 ^ 22)
    (ends : c.mm.mmap.vmEnd.toNat ≤ (c.mm.mmap.sbrk.toNat + 255) / 256 * 256) :
    Traced.Always (· < pagingMaxPgn) (c.atBreakWriting size) := by
  unfold atBreakWriting
  split
  · refine .bind (incVmaLimitWriting_range c size ?_) fun _ _ => .pure _
    have difference := @aligned_difference size c (by omega) (by omega)
    obtain ⟨old, oldEq, oldLow, oldHigh⟩ := rounded c.mm.mmap.sbrk.toNat
    obtain ⟨new, newEq, newLow, newHigh⟩ := rounded (c.mm.mmap.sbrk.toNat + size)
    have count := c.incnumpage_eq size
    rw [oldEq, newEq] at difference
    rw [oldEq] at ends
    rw [incAmt, difference, toInt_eq_self (by omega) (by omega)] at count
    have first := pagingPgn_eq (toInt c.mm.mmap.vmEnd.toNat)
    have converted : toInt c.mm.mmap.vmEnd.toNat = c.mm.mmap.vmEnd.toNat :=
      toInt_eq_self (by omega) (by omega)
    have bound : pagingMaxPgn = 16384 := by decide
    -- an area that ends with the address range has no page left to map
    by_cases last : c.mm.mmap.vmEnd.toNat = 2 ^ 22
    · omega
    · rw [converted] at first ⊢
      omega
  · exact .pure _

theorem pgallocWriting_range (fenced : c.mm.Fenced) (small : size.toNat < 2 ^ 31)
    (contained : c.Contained (.pgalloc size r)) :
    Traced.Always (· < pagingMaxPgn) (c.pgallocWriting size r) := by
  have amount : toInt size.toNat = (size.toNat : Int) := toInt_eq_self (by omega) (by omega)
  refine .bind (.bind (.lift _) fun found searched => ?_) fun _ _ => .pure _
  rw [amount] at searched ⊢
  obtain ⟨_ | rgnode, mm⟩ := found
  · have short : c.short size.toNat = some { c with mm := mm } := by
      rw [Caller.short, show c.mm.getFreeVmrgArea size.toNat = some (none, mm) from searched]
    have same := MmStruct.getFreeVmrgArea_sameSpace searched
    refine .bind (atBreakWriting_range (contained _ short) ?_) fun _ _ => .pure _
    simp only [same.vmEnd, same.sbrk]
    exact fenced.ends
  · exact .pure _

/-- **An allocation that is contained** keeps the regions and the area in the address range. -/
theorem Fenced.pgalloc (fenced : c.mm.Fenced) (small : size.toNat < 2 ^ 31) (inside : r.toNat < 30)
    (contained : c.Contained (.pgalloc size r)) {status : Int}
    (ran : c.pgalloc size r = some (status, c')) : c'.mm.Fenced := by
  have low := fenced.low
  obtain ⟨bounded, -, area⟩ := pgalloc_recorded fenced.toBounded (by omega) small inside
    (fun b found => (contained b found).trans_lt (by decide)) ran
  rcases area with ⟨-, sbrk, vmEnd⟩ | ⟨b, short, sbrkB, vmEndB, vmEnd, sbrk, -⟩
  · refine ⟨bounded, ?_, ?_⟩
    · rw [sbrk]
      exact low
    · rw [sbrk, vmEnd]
      exact fenced.ends
  · have room := contained b short
    rw [← sbrkB] at sbrk
    have moved := (atBreak_vmEnd_le (room.trans_lt (by decide))
      (.inl (by rw [sbrkB, vmEndB]; exact fenced.ends))).2.resolve_right (by omega)
    refine ⟨bounded, by omega, ?_⟩
    rw [vmEnd, sbrk]
    exact moved

/-- **A call that is contained**, too. -/
theorem Contained.fenced {u : Uninit} {data byte : Byte} {call : MemoryCall} {status : Int}
    (fenced : c.mm.Fenced) (inRange : call.InRange) (contained : c.Contained call)
    (ran : c.memoryCall u data call = some (status, byte, c')) : c'.mm.Fenced := by
  cases call with
  | pgalloc size r =>
      exact Fenced.pgalloc fenced inRange.1.2 inRange.2 contained (memoryCall_pgalloc ran)
  | pgfreeData r =>
      have done := memoryCall_pgfreeData ran
      have bounded := pgfreeData_bounded fenced.toBounded inRange done
      obtain ⟨enlisted, area, entered, rfl⟩ := pgfreeData_cases inRange done
      have same := MmStruct.enlistVmFreergList_sameSpace entered
      refine ⟨bounded, ?_, ?_⟩
      · exact (congrArg BitVec.toNat same.sbrk).trans_le fenced.low
      · simp only [withSymrg, MmStruct.setSymrg, same.sbrk, same.vmEnd]
        exact fenced.ends
  | pgread source offset =>
      exact fenced.sameRegions (memoryCall_pgread ran).regions
  | pgwrite value destination offset =>
      exact fenced.sameRegions (memoryCall_pgwrite ran).regions

/-- **An allocation stays inside** the page table and the address range exactly if it is
contained. -/
theorem staysInside_iff (fenced : c.mm.Fenced) (inRange : (MemoryCall.pgalloc size r).InRange) :
    c.StaysInside size r ↔ c.Contained (.pgalloc size r) := by
  obtain ⟨⟨-, small⟩, inside⟩ := inRange
  have low := fenced.low
  constructor
  · intro stays b found
    obtain ⟨cut, shape⟩ := short_eq_some found
    have same := MmStruct.getFreeVmrgArea_sameSpace cut
    have sbrk := congrArg BitVec.toNat same.sbrk
    have amount : toInt size.toNat = (size.toNat : Int) := toInt_eq_self (by omega) (by omega)
    have start : toInt b.mm.mmap.sbrk.toNat = b.mm.mmap.sbrk.toNat :=
      toInt_eq_self (by omega) (by omega)
    have result : ∃ c', c.pgalloc size r = some (0, c') ∧ (c'.mm.symrgtbl r.toNat).rgEnd =
        toULong (toInt (b.mm.mmap.sbrk.toNat + size.toNat)) := by
      refine ⟨({ c with mm := b.mm }.atBreak size.toNat).withSymrg r.toNat
        ⟨toULong (toInt b.mm.mmap.sbrk.toNat),
          toULong (toInt (toInt b.mm.mmap.sbrk.toNat + size.toNat))⟩, ?_, ?_⟩
      · rw [pgalloc, amount, register_eq inside, alloc_eq, cut]
        rfl
      · rw [withSymrg_self, start]
    obtain ⟨c', done, recorded⟩ := result
    have below := (stays.recorded c' done).2
    rw [recorded] at below
    by_cases fits : b.mm.mmap.sbrk.toNat + size.toNat < 2 ^ 31
    · rw [toInt_eq_self (by omega) (by omega), toULong_toNat (by omega) (by omega)] at below
      omega
    · -- the end of the region is negative as an `int`
      rw [toInt_eq_sub (by omega) (by omega)] at below
      have negative : ((b.mm.mmap.sbrk.toNat : Int) + size.toNat) - 2 ^ 32 < 0 := by omega
      have wrapped := toULong_toNat_neg negative (by omega)
      omega
  · intro contained
    refine ⟨pgallocWriting_range fenced small contained, fun c' ran => ?_⟩
    have after := Fenced.pgalloc fenced small inside contained ran
    exact (after.table r.toNat inside).mono after.low

end Caller

namespace Sys

variable [DecidableEq ι] {start s t : Sys ι}

/-- The condition on the state before a call under which allocations stay inside. -/
def ContainedCall (s : Sys ι) (label : ι × MemoryCall × Int × Byte) : Prop :=
  (s.caller label.1).Contained label.2.1

/-- One contained call keeps every address space inside of the address range. -/
theorem fenced_step {label : ι × MemoryCall × Int × Byte} (fenced : ∀ P, (s.mm P).Fenced)
    (taken : Guarded MemoryStep ContainedCall s label t) (P : ι) : (t.mm P).Fenced := by
  obtain ⟨contained, inRange, u, data, c, ran, rfl⟩ := taken
  by_cases self : P = label.1
  · rw [self, put_mm_self]
    exact contained.fenced (fenced label.1) inRange ran
  · rw [put_mm_of_ne s self]
    exact fenced P

/-- **Writes to the page table stay inside it** in runs whose allocations are contained: the
bytes of different pages of the variables have different entries, and the next allocation
writes entries of the table and records a region in the address range exactly if it is
contained, too. -/
theorem table_writes_inside {history : List (ι × MemoryCall × Int × Byte)}
    (fresh : ∀ P, start.mm P = MmStruct.zeroed.initMm)
    (run : Run (Guarded MemoryStep ContainedCall) start history s) (P : ι) :
    (∀ left right x y : Nat, left < 30 → right < 30 →
      holds ((s.mm P).symrgtbl left).span x = true →
      holds ((s.mm P).symrgtbl right).span y = true →
      pagingPgn x = pagingPgn y → x / 256 = y / 256) ∧
    ∀ size r, (MemoryCall.pgalloc size r).InRange →
      ((s.caller P).StaysInside size r ↔ (s.caller P).Contained (.pgalloc size r)) := by
  have fenced : ∀ P, (s.mm P).Fenced := run.invariant (fun s => ∀ P, (s.mm P).Fenced)
    (fun _ _ _ => fenced_step) fun P => fresh P ▸ .start
  constructor
  · intro _ _ _ _ leftEntry rightEntry inLeft inRight samePage
    exact (fenced P).page_injective leftEntry rightEntry inLeft inRight samePage
  · intro size r inRange
    exact Caller.staysInside_iff (c := s.caller P) (fenced P) inRange

/-- An allocation of 1000 bytes by a process that has 700 writes entries of its table only. -/
theorem table_writes_inside_spilled : (spilled.caller ()).StaysInside 1000 1 := by
  have run : Run (Guarded MemoryStep ContainedCall) (boot Unit 512 1024)
      [((), .pgalloc 700 0, 0, 0)] spilled :=
    .single ⟨show (_ : Caller).Contained _ by decide +kernel,
      memoryStep_of_called (by decide) _ (by decide +kernel) (by decide +kernel)⟩
  exact ((table_writes_inside (fun _ => rfl) run ()).2 1000 1 (by decide)).mpr (by decide +kernel)

/-- An allocation of one byte more than the address range has returns 0. -/
theorem region_outside_range : ¬ ∀ (start s : Sys Unit)
    (history : List (Unit × MemoryCall × Int × Byte)) (size r : BitVec 32),
    (∀ P, start.mm P = MmStruct.zeroed.initMm) → Run MemoryStep start history s →
      (MemoryCall.pgalloc size r).InRange → (s.caller ()).StaysInside size r := by
  intro claim
  have stays := claim (boot Unit 256 256) _ [] (2 ^ 22 + 1) 0 (fun _ => rfl) (.nil _) (by decide)
  have ran : ∃ c', ((boot Unit 256 256).caller ()).pgalloc (2 ^ 22 + 1) 0 = some (0, c') ∧
      (c'.mm.symrgtbl 0).rgEnd.toNat = 2 ^ 22 + 1 := by
    have defined : ((((boot Unit 256 256).caller ()).pgalloc (2 ^ 22 + 1) 0).map fun called =>
        (called.1, (called.2.mm.symrgtbl 0).rgEnd.toNat)) = some (0, 2 ^ 22 + 1) := by
      decide +kernel
    obtain ⟨⟨status, c'⟩, result, outcome⟩ := Option.map_eq_some_iff.mp defined
    obtain ⟨rfl, recorded⟩ := Prod.mk.inj outcome
    exact ⟨c', result, recorded⟩
  obtain ⟨c', result, recorded⟩ := ran
  have below := (stays.recorded c' result).2
  exact absurd (recorded.ge.trans below) (by decide)

end Sys

end PagedOs
