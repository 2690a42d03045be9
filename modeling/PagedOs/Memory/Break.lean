import PagedOs.Memory.AddressSpace

/-! # The break and the mapped area

An area is backed when its end is the break rounded up to a page and every page below
the end is mapped. A growth that gets its frames keeps this: it takes one frame for each
new page, in the order RAM before swap, and enters them from the old end upwards.
-/

namespace PagedOs

/-- The area ends where its break rounds up to, and its pages are mapped. -/
structure MmStruct.Backed (mm : MmStruct) : Prop where
  low : mm.mmap.vmEnd.toNat ≤ 2 ^ 22
  aligned : mm.mmap.vmEnd.toNat = (mm.mmap.sbrk.toNat + 255) / 256 * 256
  mapped : ∀ pgn, pgn * 256 < mm.mmap.vmEnd.toNat → Mapped (mm.pgd pgn)

/-- The first page behind the area, which is the first that a growth maps. -/
def MmStruct.endPgn (mm : MmStruct) : Nat := mm.mmap.vmEnd.toNat / 256

namespace MmStruct.Backed

variable {mm : MmStruct}

/-- The break never goes beyond the end of the area. -/
theorem sbrk_le (backed : mm.Backed) : mm.mmap.sbrk.toNat ≤ mm.mmap.vmEnd.toNat := by
  have := backed.aligned
  omega

/-- A fresh address space is backed: it has no page, and the break is at its start. -/
theorem start : MmStruct.zeroed.initMm.Backed where
  low := by decide
  aligned := by decide
  mapped := fun _ inside => absurd inside (Nat.not_lt_zero _)

/-- The end of a backed area is the end of its last page. -/
theorem vmEnd_eq (backed : mm.Backed) : mm.mmap.vmEnd.toNat = mm.endPgn * 256 := by
  rw [MmStruct.endPgn, backed.aligned, Nat.mul_div_cancel _ (by decide)]

/-- A process has no more pages than the page table has entries. -/
theorem endPgn_le (backed : mm.Backed) : mm.endPgn ≤ pagingMaxPgn := by
  have := backed.low
  have := backed.vmEnd_eq
  have : pagingMaxPgn = 16384 := by decide
  omega

/-- Every page of the area is mapped, in RAM or in swap. -/
theorem mapped_of_lt (backed : mm.Backed) {pgn : Nat} (inside : pgn < mm.endPgn) :
    Mapped (mm.pgd pgn) := backed.mapped pgn (by rw [backed.vmEnd_eq]; omega)

/-- In terms of the macro of the source. -/
theorem vmEnd_eq_align (backed : mm.Backed) :
    mm.mmap.vmEnd = pagingPageAlignsz mm.mmap.sbrk := by
  have low := backed.low
  have below := backed.sbrk_le
  apply BitVec.eq_of_toNat_eq
  rw [pagingPageAlignsz_toNat _ (by omega), backed.aligned]

end MmStruct.Backed

namespace Caller

variable {c : Caller} {size : Nat}

/-- What a growth does that gets the frames `ram` and `swap`. -/
structure Grew (c : Caller) (size : Nat) (c' : Caller) (ram swap : List Int) : Prop where
  sbrk : c'.mm.mmap.sbrk.toNat = c.mm.mmap.sbrk.toNat + size
  vmEnd : c'.mm.mmap.vmEnd.toNat = (c.mm.mmap.sbrk.toNat + size + 255) / 256 * 256
  pages : c'.mm.endPgn = c.mm.endPgn + (ram.length + swap.length)
  ramTaken : c.mram.freeFpList = ram ++ c'.mram.freeFpList
  swapTaken : c.activeMswp.freeFpList = swap ++ c'.activeMswp.freeFpList
  ramFirst : swap ≠ [] → c'.mram.freeFpList = []
  kept : ∀ pgn, pgn < c.mm.endPgn ∨ c'.mm.endPgn ≤ pgn → c'.mm.pgd pgn = c.mm.pgd pgn
  ramEntry : ∀ i fpn, ram.reverse[i]? = some fpn →
    c'.mm.pgd (c.mm.endPgn + i) = pteSetFpn (c.mm.pgd (c.mm.endPgn + i)) fpn
  swapEntry : ∀ i fpn, swap.reverse[i]? = some fpn →
    c'.mm.pgd (c.mm.endPgn + ram.length + i) =
      pteSetSwap (c.mm.pgd (c.mm.endPgn + ram.length + i)) 0 fpn
  listed : c'.mm.fifoPgn =
    (List.range' (c.mm.endPgn + 1) (ram.length + swap.length)).reverse ++ c.mm.fifoPgn
  ramCells : c'.mram.storage = c.mram.storage
  swapCells : c'.activeMswp.storage = c.activeMswp.storage

/-- The break rounded up before and after it moved. -/
theorem aligned_difference (c : Caller) (low : c.mm.mmap.sbrk.toNat < 2 ^ 31)
    (small : size < 2 ^ 31) :
    (pagingPageAlignsz (toULong size + c.mm.mmap.sbrk) -
        pagingPageAlignsz c.mm.mmap.sbrk).toNat =
      (c.mm.mmap.sbrk.toNat + size + 255) / 256 * 256 -
        (c.mm.mmap.sbrk.toNat + 255) / 256 * 256 := by
  have sum : (toULong size + c.mm.mmap.sbrk).toNat = c.mm.mmap.sbrk.toNat + size := by
    rw [BitVec.add_comm, add_toULong_natCast (by omega) (by omega)]
  have old := pagingPageAlignsz_toNat c.mm.mmap.sbrk (by omega)
  have new := pagingPageAlignsz_toNat (toULong size + c.mm.mmap.sbrk) (by omega)
  rw [sum] at new
  rw [BitVec.toNat_sub_of_le (BitVec.le_def.mpr (by omega)), new, old]

private theorem aligned_sum (backed : c.mm.Backed) (small : size < 2 ^ 31) :
    (pagingPageAlignsz (toULong size + c.mm.mmap.sbrk) -
        pagingPageAlignsz c.mm.mmap.sbrk).toNat =
      (c.mm.mmap.sbrk.toNat + size + 255) / 256 * 256 - c.mm.mmap.vmEnd.toNat := by
  have low := backed.low
  have below := backed.sbrk_le
  rw [aligned_difference c (by omega) small, backed.aligned]

/-- The pages up to the break, as long as they lie in the address range. -/
theorem incAmt_eq (backed : c.mm.Backed) (room : c.mm.mmap.sbrk.toNat + size ≤ 2 ^ 22) :
    c.incAmt size = ((c.mm.mmap.sbrk.toNat + size + 255) / 256 * 256 : Nat) -
      c.mm.mmap.vmEnd.toNat := by
  have aligned := backed.aligned
  rw [incAmt, aligned_sum backed (by omega), toInt_eq_self (by omega) (by omega)]
  omega

/-- An area that still ends in the address range has not grown past it: a size of nearly
2^31 would move its end backwards and around. -/
theorem room_of_low (backed : c.mm.Backed) (small : size < 2 ^ 31)
    (low : (c.mm.mmap.vmEnd + toULong (c.incAmt size)).toNat ≤ 2 ^ 22) :
    c.mm.mmap.sbrk.toNat + size ≤ 2 ^ 22 := by
  have before := backed.low
  have aligned := backed.aligned
  have amount := aligned_sum backed small
  generalize target : (c.mm.mmap.sbrk.toNat + size + 255) / 256 * 256 = top at amount
  rw [incAmt, amount] at low
  by_cases fits : top - c.mm.mmap.vmEnd.toNat < 2 ^ 31
  · rw [toInt_eq_self (by omega) (by omega), add_toULong_toNat (by omega) (by omega) (by omega)]
      at low
    omega
  · -- the end moves back by more than there is in front of it
    rw [toInt_eq_sub (by omega) (by omega), BitVec.toNat_add] at low
    have moved := toULong_toNat_neg
      (show ((top - c.mm.mmap.vmEnd.toNat : Nat) : Int) - 2 ^ 32 < 0 by omega) (by omega)
    omega

/-- The number of pages a growth in the address range asks for. -/
theorem incnumpage_backed (backed : c.mm.Backed)
    (room : c.mm.mmap.sbrk.toNat + size ≤ 2 ^ 22) :
    c.mm.endPgn + c.incnumpage size = (c.mm.mmap.sbrk.toNat + size + 255) / 256 := by
  have count := c.incnumpage_eq size
  have vmEnd := backed.vmEnd_eq
  have aligned := backed.aligned
  rw [incAmt_eq backed room] at count
  omega

/-- Where the area ends after a growth in the address range. -/
theorem vmEnd_grown (backed : c.mm.Backed) (room : c.mm.mmap.sbrk.toNat + size ≤ 2 ^ 22) :
    (c.mm.mmap.vmEnd + toULong (c.incAmt size)).toNat =
      (c.mm.mmap.sbrk.toNat + size + 255) / 256 * 256 := by
  have low := backed.low
  have aligned := backed.aligned
  have amount := incAmt_eq backed room
  rw [add_toULong_toNat (by omega) (by omega) (by omega)]
  omega

/-- The page that a growth starts with is the one the area ends on. At the end of the address
range there is no page to map. -/
theorem firstPage_eq (backed : c.mm.Backed) (room : c.mm.mmap.sbrk.toNat + size ≤ 2 ^ 22) :
    c.incnumpage size = 0 ∨ pagingPgn (toInt c.mm.mmap.vmEnd.toNat) = c.mm.endPgn := by
  have low := backed.low
  have vmEnd := backed.vmEnd_eq
  have pages := incnumpage_backed backed room
  by_cases last : c.mm.mmap.vmEnd.toNat = 2 ^ 22
  · left
    omega
  · right
    have first := pagingPgn_eq (toInt c.mm.mmap.vmEnd.toNat)
    rw [toInt_eq_self (by omega) (by omega)] at first ⊢
    omega

/-- The frames of the two devices that a growth takes when they have enough. -/
theorem taken_length (left : c.framesLeft size = true) :
    (c.mram.freeFpList.take (c.incnumpage size)).length =
        min (c.incnumpage size) c.mram.freeFpList.length ∧
      (c.mram.freeFpList.take (c.incnumpage size)).length +
        (c.activeMswp.freeFpList.take (c.swappage size)).length = c.incnumpage size := by
  have enough := framesLeft_iff.mp left
  rw [List.length_take, List.length_take, swappage]
  omega

/-- **A growth that finds its frames.** -/
theorem incVmaLimit_grew (backed : c.mm.Backed) (room : c.mm.mmap.sbrk.toNat + size ≤ 2 ^ 22)
    (notFull : c.areaFull = false) (left : c.framesLeft size = true) :
    (c.incVmaLimit size).1 = 0 ∧ c.Grew size (c.incVmaLimit size).2
      (c.mram.freeFpList.take (c.incnumpage size))
      (c.activeMswp.freeFpList.take (c.swappage size)) := by
  have below := backed.sbrk_le
  have low := backed.low
  have pages := incnumpage_backed backed room
  have vmEnd := vmEnd_grown backed room
  have start := firstPage_eq backed room
  obtain ⟨ramCount, count⟩ := taken_length left
  have area := MmStruct.vmapPageRange_sameRegions (c.grown size) (toInt c.mm.mmap.vmEnd.toNat)
    (c.mram.freeFpList.take (c.incnumpage size)).reverse
    (c.activeMswp.freeFpList.take (c.swappage size)).reverse
  have moved := c.incVmaLimit_breakMoved size
  rcases c.incVmaLimit_cases size with ⟨full, -⟩ | ⟨-, short, -⟩ | ⟨-, -, result⟩
  · simp [notFull] at full
  · simp [left] at short
  rw [result] at moved ⊢
  refine ⟨rfl, ?_⟩
  generalize ram : c.mram.freeFpList.take (c.incnumpage size) = ramFrames at *
  generalize swap : c.activeMswp.freeFpList.take (c.swappage size) = swapFrames at *
  have endPgn : ((c.grown size).vmapPageRange (toInt c.mm.mmap.vmEnd.toNat) ramFrames.reverse
      swapFrames.reverse).endPgn = c.mm.endPgn + (ramFrames.length + swapFrames.length) := by
    rw [MmStruct.endPgn, area.mmap, grown_vmEnd, vmEnd, count, pages,
      Nat.mul_div_cancel _ (by decide)]
  refine ⟨?_, ?_, endPgn, ?_, ?_, fun some => ?_, fun pgn outside => ?_, fun i fpn found => ?_,
    fun i fpn found => ?_, ?_, rfl, rfl⟩
  · rw [moved.sbrk, add_toULong_natCast (by omega) (by omega)]
  · simp only [area.mmap, grown_vmEnd, vmEnd]
  · simp only [Memphy.taken, ← ram, List.take_append_drop]
  · simp only [Memphy.taken, ← swap, List.take_append_drop]
  · have positive := List.length_pos_iff.mpr some
    simp only [Memphy.taken]
    exact List.drop_eq_nil_of_le (by omega)
  · rw [endPgn] at outside
    rw [MmStruct.vmapPageRange_outside _ ?_, grown_pgd]
    simp only [List.length_reverse]
    rcases start with none | start <;> omega
  · have inside := (List.getElem?_eq_some_iff.mp found).1
    rw [List.length_reverse] at inside
    rw [← start.resolve_left (by omega), (MmStruct.vmapPageRange_entry _).1 found, grown_pgd]
  · have inside := (List.getElem?_eq_some_iff.mp found).1
    rw [List.length_reverse] at inside
    have entry := (@MmStruct.vmapPageRange_entry (c.grown size) (toInt c.mm.mmap.vmEnd.toNat)
      ramFrames.reverse swapFrames.reverse i fpn).2 found
    rw [start.resolve_left (by omega), List.length_reverse, grown_pgd] at entry
    exact entry
  · rw [MmStruct.vmapPageRange_listed, List.length_reverse, List.length_reverse, grown_fifoPgn]
    rcases start with none | start
    · rw [count, none]
      rfl
    · rw [start]

namespace Grew

variable {c' : Caller} {ram swap : List Int}

/-- A page is one there was, got a RAM frame or got a swap frame. -/
theorem page_cases (grew : c.Grew size c' ram swap) (pgn : Nat) :
    ((pgn < c.mm.endPgn ∨ c'.mm.endPgn ≤ pgn) ∧ c'.mm.pgd pgn = c.mm.pgd pgn) ∨
      (∃ fpn ∈ ram, (c.mm.endPgn ≤ pgn ∧ pgn < c.mm.endPgn + ram.length) ∧
        c'.mm.pgd pgn = pteSetFpn (c.mm.pgd pgn) fpn) ∨
      ∃ fpn ∈ swap, (c.mm.endPgn + ram.length ≤ pgn ∧ pgn < c'.mm.endPgn) ∧
        c'.mm.pgd pgn = pteSetSwap (c.mm.pgd pgn) 0 fpn := by
  have pages := grew.pages
  by_cases old : pgn < c.mm.endPgn ∨ c'.mm.endPgn ≤ pgn
  · exact .inl ⟨old, grew.kept pgn old⟩
  · obtain ⟨i, rfl⟩ := Nat.exists_eq_add_of_le (show c.mm.endPgn ≤ pgn by omega)
    by_cases early : i < ram.reverse.length
    · refine .inr (.inl ⟨_, List.mem_reverse.mp (List.getElem_mem early), ?_,
        grew.ramEntry i _ (List.getElem?_eq_getElem early)⟩)
      rw [List.length_reverse] at early
      omega
    · rw [List.length_reverse] at early
      obtain ⟨j, rfl⟩ := Nat.exists_eq_add_of_le (Nat.le_of_not_lt early)
      have late : j < swap.reverse.length := by
        rw [List.length_reverse]
        omega
      have entry := grew.swapEntry j _ (List.getElem?_eq_getElem late)
      rw [Nat.add_assoc] at entry
      exact .inr (.inr ⟨_, List.mem_reverse.mp (List.getElem_mem late), by omega, entry⟩)

theorem backed (grew : c.Grew size c' ram swap) (backed : c.mm.Backed)
    (room : c.mm.mmap.sbrk.toNat + size ≤ 2 ^ 22) : c'.mm.Backed where
  low := by
    rw [grew.vmEnd]
    omega
  aligned := by rw [grew.vmEnd, grew.sbrk]
  mapped := fun pgn inside => by
    have vmEnd : c'.mm.mmap.vmEnd.toNat = c'.mm.endPgn * 256 := by
      rw [MmStruct.endPgn, grew.vmEnd, Nat.mul_div_cancel _ (by decide)]
    rcases grew.page_cases pgn with ⟨old, entry⟩ | ⟨fpn, -, -, entry⟩ | ⟨fpn, -, -, entry⟩
    · rw [entry]
      exact backed.mapped_of_lt (by omega)
    · rw [entry]
      exact mapped_pteSetFpn _ _
    · rw [entry]
      exact mapped_pteSetSwap _ _ _

end Grew

/-- A region that ends on the page of the break needs no page. -/
theorem moveSbrk_backed (backed : c.mm.Backed) (small : size < 2 ^ 31)
    (fits : c.exceedsPage size = false) :
    (c.moveSbrk size).mm.Backed ∧ c.mm.mmap.sbrk.toNat + size ≤ 2 ^ 22 ∧
      (c.moveSbrk size).mm.mmap.sbrk.toNat = c.mm.mmap.sbrk.toNat + size := by
  have low := backed.low
  have aligned := backed.aligned
  have below := backed.sbrk_le
  have sum : (toULong size + c.mm.mmap.sbrk).toNat = c.mm.mmap.sbrk.toNat + size := by
    rw [BitVec.add_comm, add_toULong_natCast (by omega) (by omega)]
  have old := pagingPageAlignsz_toNat c.mm.mmap.sbrk (by omega)
  simp only [exceedsPage, decide_eq_false_iff_not, not_or, gt_iff_lt, BitVec.not_lt,
    BitVec.le_def, sum, old] at fits
  have moved : (c.moveSbrk size).mm.mmap.sbrk.toNat = c.mm.mmap.sbrk.toNat + size := by
    rw [← sum, BitVec.add_comm]
    rfl
  have reached : (c.mm.mmap.sbrk.toNat + 255) / 256 =
      (c.mm.mmap.sbrk.toNat + size + 255) / 256 := by
    have onPage := fits.1
    generalize quotient : (c.mm.mmap.sbrk.toNat + 255) / 256 = pages at *
    omega
  refine ⟨⟨low, ?_, fun pgn inside => ?_⟩, ?_, moved⟩
  · rw [moveSbrk_vmEnd, moved, aligned, reached]
  · rw [moveSbrk_pgd]
    exact backed.mapped pgn inside
  · rw [← aligned] at fits
    omega

end Caller

end PagedOs
