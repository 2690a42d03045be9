import PagedOs.Memory.FreeRegion
import PagedOs.Memory.Growth

/-! # The memory interface of a process

`pgalloc`, `pgfree_data`, `pgread` and `pgwrite` of `mm-vm.c` with the functions they
call. A result `none` means that the C function never returns. Messages and memory
dumps are left out.
-/

namespace PagedOs

/-- Write an entry of the symbol table. -/
def MmStruct.setSymrg (mm : MmStruct) (rgid : Int) (rg : VmRg) : MmStruct :=
  { mm with symrgtbl := Function.update mm.symrgtbl rgid rg }

/-- `get_symrg_byid`, whose check lets register 30 pass. -/
def MmStruct.getSymrgById (mm : MmStruct) (rgid : Int) : Option VmRg :=
  if rgid < 0 ∨ rgid > pagingMaxSymtblSz then none else some (mm.symrgtbl rgid)

/-- The registers that are checked, which `__free` and `get_symrg_byid` do alike: those from
2^31 on are negative as an `int`. -/
theorem register_refused_iff (r : BitVec 32) :
    toInt r.toNat < 0 ∨ toInt r.toNat > pagingMaxSymtblSz ↔ 30 < r.toNat := by
  have bound := r.isLt
  rw [pagingMaxSymtblSz]
  by_cases small : r.toNat < 2 ^ 31
  · rw [toInt_eq_self (by omega) (by omega)]
    omega
  · rw [toInt_eq_sub (by omega) (by omega)]
    omega

theorem MmStruct.getSymrgById_refused (mm : MmStruct) {r : BitVec 32} (refused : 30 < r.toNat) :
    mm.getSymrgById (toInt r.toNat) = none := if_pos ((register_refused_iff r).mpr refused)

/-- Up to register 30 `get_symrg_byid` returns what `symrgtbl` holds there. -/
theorem MmStruct.getSymrgById_passed (mm : MmStruct) {r : BitVec 32} (passed : ¬ 30 < r.toNat) :
    mm.getSymrgById (toInt r.toNat) = some (mm.symrgtbl (toInt r.toNat)) :=
  if_neg (mt (register_refused_iff r).mp passed)

namespace Caller

/-- The region asked for does not fit behind the break on the page it is on. -/
def exceedsPage (c : Caller) (size : Int) : Bool :=
  toULong size + c.mm.mmap.sbrk > pagingPageAlignsz c.mm.mmap.sbrk ∨
    c.mm.mmap.sbrk = c.mm.mmap.vmEnd

/-- `__alloc`, with its status and the address it returns. The result of
`inc_vma_limit` is not looked at, and `rgid` is not checked: from 30 on it writes
behind the table, which leaves every other field here (`MmStruct`) and not in C. -/
def alloc (c : Caller) (rgid size : Int) : Option (Int × Int × Caller) :=
  (c.mm.getFreeVmrgArea size).map fun found =>
    match found with
    | (some rgnode, mm) =>
        (0, toInt rgnode.rgStart.toNat, { c with mm := mm.setSymrg rgid rgnode })
    | (none, mm) =>
        let c := { c with mm := mm }
        let oldSbrk := toInt c.mm.mmap.sbrk.toNat
        let c := if c.exceedsPage size then (c.incVmaLimit size).2
          else c.moveSbrk size
        let rg := ⟨toULong oldSbrk, toULong (toInt (oldSbrk + size))⟩
        (0, toInt rg.rgStart.toNat, { c with mm := c.mm.setSymrg rgid rg })

/-- `__free`: the region of the register goes to the free list, and the register gets `(0, 0)`. -/
def free (c : Caller) (rgid : Int) : Option (Int × Caller) :=
  if rgid < 0 ∨ rgid > pagingMaxSymtblSz then some (-1, c)
  else
    (c.mm.enlistVmFreergList (c.mm.symrgtbl rgid)).map fun (_, mm) =>
      (0, { c with mm := mm.setSymrg rgid ⟨0, 0⟩ })

/-- `__read`; `data` is what the caller's variable holds on entry. The result of
`pg_getval` is not looked at. -/
def read (c : Caller) (u : Uninit) (rgid offset : Int) (data : Byte) : Int × Byte × Caller :=
  match c.mm.getSymrgById rgid with
  | none => (-1, data, c)
  | some currg =>
      let (_, data, c) := c.pgGetval u (toInt (currg.rgStart + toULong offset).toNat) data
      (0, data, c)

/-- `__write`. The result of `pg_setval` is not looked at. -/
def write (c : Caller) (u : Uninit) (rgid offset : Int) (value : Byte) : Int × Caller :=
  match c.mm.getSymrgById rgid with
  | none => (-1, c)
  | some currg =>
      let (_, c) := c.pgSetval u (toInt (currg.rgStart + toULong offset).toNat) value
      (0, c)

/-- `pgalloc`, which passes its operands to `__alloc` as `int`s. -/
def pgalloc (proc : Caller) (size regIndex : BitVec 32) : Option (Int × Caller) :=
  (proc.alloc (toInt regIndex.toNat) (toInt size.toNat)).map fun (status, _, proc) =>
    (status, proc)

/-- An allocation with the address that `pgalloc` drops. -/
theorem pgalloc_eq_some {proc after : Caller} {size regIndex : BitVec 32} {status : Int} :
    proc.pgalloc size regIndex = some (status, after) ↔
      ∃ addr, proc.alloc (toInt regIndex.toNat) (toInt size.toNat) =
        some (status, addr, after) := by
  simp only [pgalloc, Option.map_eq_some_iff, Prod.mk.injEq, Prod.exists]
  constructor
  · rintro ⟨_, addr, _, done, rfl, rfl⟩
    exact ⟨addr, done⟩
  · rintro ⟨addr, done⟩
    exact ⟨_, addr, _, done, rfl, rfl⟩

/-- `pgfree_data`, which passes its operand to `__free` as an `int`. -/
def pgfreeData (proc : Caller) (regIndex : BitVec 32) : Option (Int × Caller) :=
  proc.free (toInt regIndex.toNat)

/-- The size that `pgread` and `pgwrite` compare the offset with, an `int`. -/
def sizeRg (proc : Caller) (rgid : BitVec 32) : Int :=
  let rg := proc.mm.symrgtbl rgid.toNat
  toInt (rg.rgEnd - rg.rgStart).toNat

/-- `pgread`, with the byte that `__read` leaves in its data argument; `data` is what
that variable holds before. -/
def pgread (proc : Caller) (u : Uninit) (source offset : BitVec 32) (data : Byte) :
    Int × Byte × Caller :=
  if offset > BitVec.ofInt 32 (proc.sizeRg source) then (-1, data, proc)
  else proc.read u (toInt source.toNat) (toInt offset.toNat) data

/-- `pgwrite`: an offset beyond the length of the region is rejected with -1. -/
def pgwrite (proc : Caller) (u : Uninit) (data : Byte) (destination offset : BitVec 32) :
    Int × Caller :=
  if offset > BitVec.ofInt 32 (proc.sizeRg destination) then (-1, proc)
  else proc.write u (toInt destination.toNat) (toInt offset.toNat) data

/-- **Everything `pgread` can do.** It fails and changes nothing, or a page is read. -/
theorem pgread_cases (proc : Caller) (u : Uninit) (source offset : BitVec 32) (data : Byte) :
    proc.pgread u source offset data = (-1, data, proc) ∨
      ∃ addr, proc.pgread u source offset data = (0, (proc.pgGetval u addr data).2) := by
  unfold pgread read
  split
  · exact .inl rfl
  · split
    · exact .inl rfl
    · exact .inr ⟨_, rfl⟩

/-- **Everything `pgwrite` can do.** It fails and changes nothing, or a page is written. -/
theorem pgwrite_cases (proc : Caller) (u : Uninit) (data : Byte)
    (destination offset : BitVec 32) :
    proc.pgwrite u data destination offset = (-1, proc) ∨
      ∃ addr, proc.pgwrite u data destination offset = (0, (proc.pgSetval u addr data).2) := by
  unfold pgwrite write
  split
  · exact .inl rfl
  · split
    · exact .inl rfl
    · exact .inr ⟨_, rfl⟩

/-- An access to the memory changes pages only. -/
theorem pgGetpage_sameRegions (c : Caller) (u : Uninit) (pgn : Nat) :
    MmStruct.SameRegions c.mm (c.pgGetpage u pgn).2.mm := by
  rcases c.pgGetpage_cases u pgn with ⟨-, result⟩ | ⟨-, -, result⟩ | ⟨_, -, -, -, result⟩
  · rw [result]
    exact .refl _
  · rw [result]
    exact .refl _
  · rw [result]
    exact ⟨rfl, rfl, rfl⟩

end Caller

end PagedOs
