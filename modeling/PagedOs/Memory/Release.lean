import PagedOs.Memory.Entries
import PagedOs.Memory.Frames

/-! # Releasing a process

`free_pcb_memph` runs over the whole page table and puts one number on a free list for every
entry: for an entry without the PRESENT bit its frame number on the list of the RAM, for one
with it its swap offset on the list of the swap device. That is the wrong way round, and pages
that were never mapped are not told from swapped ones.
-/

namespace PagedOs

open Transition

/-- The body of the loop of `free_pcb_memph`. -/
def Caller.releasePage (c : Caller) (pagenum : Nat) : Caller :=
  let pte := c.mm.pgd pagenum
  if !pagingPagePresent pte then { c with mram := c.mram.memphyPutFreefp (pagingFpn pte) }
  else { c with activeMswp := c.activeMswp.memphyPutFreefp (pagingSwp pte) }

/-- `free_pcb_memph`: a frame for each entry of the table, to the device that its test names. -/
def Caller.freePcbMemph (c : Caller) : Int × Caller :=
  (0, (List.range pagingMaxPgn).foldl releasePage c)

namespace MmStruct

/-- The pages that are in RAM, in increasing order. -/
def presentPages (mm : MmStruct) : List Nat :=
  (List.range pagingMaxPgn).filter fun pgn => pagingPagePresent (mm.pgd pgn)

/-- The pages that are in swap, in increasing order. -/
def swappedPages (mm : MmStruct) : List Nat :=
  (List.range pagingMaxPgn).filter fun pgn =>
    !pagingPagePresent (mm.pgd pgn) && pagingPageSwapped (mm.pgd pgn)

/-- The pages that are not in RAM, mapped or not. -/
def absentPages (mm : MmStruct) : List Nat :=
  (List.range pagingMaxPgn).filter fun pgn => !pagingPagePresent (mm.pgd pgn)

/-- The frame numbers in some entries, as `PAGING_FPN` reads them. -/
def fpns (mm : MmStruct) (pages : List Nat) : List Int :=
  pages.map fun pgn => pagingFpn (mm.pgd pgn)

/-- The swap offsets in some entries, as `PAGING_SWP` reads them. -/
def swps (mm : MmStruct) (pages : List Nat) : List Int :=
  pages.map fun pgn => pagingSwp (mm.pgd pgn)

/-- The entries of the pages in swap hold, in the bits of the frame number, the frames of the
pages in RAM, and these hold, in the bits of the swap offset, the frames of the pages in swap;
and no page is without a frame. -/
structure Mirrored (mm : MmStruct) : Prop where
  mapped : ∀ pgn < pagingMaxPgn, Mapped (mm.pgd pgn)
  ram : (mm.fpns mm.swappedPages).Perm (mm.fpns mm.presentPages)
  swap : (mm.swps mm.presentPages).Perm (mm.swps mm.swappedPages)

end MmStruct

namespace Caller

/-- Every mapped page owns a frame of its own, and no free frame is owned. -/
structure OwnsFrames (c : Caller) : Prop where
  ram : (c.mm.fpns c.mm.presentPages).Nodup
  swap : (c.mm.swps c.mm.swappedPages).Nodup
  ramFree : (c.mm.fpns c.mm.presentPages).Disjoint c.mram.freeFpList
  swapFree : (c.mm.swps c.mm.swappedPages).Disjoint c.activeMswp.freeFpList

/-- The frames of the mapped pages, and no others, were added to the free lists, each once; so
a list without duplicates still has none. -/
structure FramesReturned (c c' : Caller) : Prop where
  ram : c'.mram.freeFpList.Perm (c.mm.fpns c.mm.presentPages ++ c.mram.freeFpList)
  swap : c'.activeMswp.freeFpList.Perm (c.mm.swps c.mm.swappedPages ++ c.activeMswp.freeFpList)
  ramNodup : c.mram.freeFpList.Nodup → c'.mram.freeFpList.Nodup
  swapNodup : c.activeMswp.freeFpList.Nodup → c'.activeMswp.freeFpList.Nodup

/-- What the loop puts on the lists, last page first. -/
theorem releasePages_eq (c : Caller) (pages : List Nat) :
    (pages.foldl releasePage c).mm = c.mm ∧
      (pages.foldl releasePage c).mram.freeFpList =
        (c.mm.fpns (pages.filter fun pgn => !pagingPagePresent (c.mm.pgd pgn))).reverse ++
          c.mram.freeFpList ∧
      (pages.foldl releasePage c).activeMswp.freeFpList =
        (c.mm.swps (pages.filter fun pgn => pagingPagePresent (c.mm.pgd pgn))).reverse ++
          c.activeMswp.freeFpList := by
  induction pages using List.reverseRecOn with
  | nil => exact ⟨rfl, rfl, rfl⟩
  | append_singleton pages pgn ih =>
      obtain ⟨mm, ram, swap⟩ := ih
      rw [List.foldl_append, List.foldl_cons, List.foldl_nil, List.filter_append,
        List.filter_append]
      generalize List.foldl releasePage c pages = reached at mm ram swap ⊢
      unfold releasePage
      rw [mm]
      cases present : pagingPagePresent (c.mm.pgd pgn) with
      | true =>
          simp [present, ram, swap, Memphy.memphyPutFreefp, MmStruct.fpns, MmStruct.swps]
      | false =>
          simp [present, ram, swap, Memphy.memphyPutFreefp, MmStruct.fpns, MmStruct.swps]

variable {c : Caller}

/-- The frames of the pages that are not PRESENT go to the free list of the RAM, the last page in
front. -/
theorem freePcbMemph_mram (c : Caller) : c.freePcbMemph.2.mram.freeFpList =
    (c.mm.fpns c.mm.absentPages).reverse ++ c.mram.freeFpList := by
  unfold freePcbMemph MmStruct.absentPages
  generalize List.range pagingMaxPgn = pages
  exact (releasePages_eq c pages).2.1

/-- The swap offsets of the PRESENT pages go to that of the swap device. -/
theorem freePcbMemph_activeMswp (c : Caller) : c.freePcbMemph.2.activeMswp.freeFpList =
    (c.mm.swps c.mm.presentPages).reverse ++ c.activeMswp.freeFpList := by
  unfold freePcbMemph MmStruct.presentPages
  generalize List.range pagingMaxPgn = pages
  exact (releasePages_eq c pages).2.2

end Caller

/-- A page without the PRESENT bit that is mapped is in swap. -/
theorem MmStruct.absentPages_eq {mm : MmStruct}
    (mapped : ∀ pgn < pagingMaxPgn, Mapped (mm.pgd pgn)) :
    mm.absentPages = mm.swappedPages := by
  rw [absentPages, swappedPages]
  apply List.filter_congr
  intro pgn member
  rcases mapped pgn (List.mem_range.mp member) with present | swapped
  · simp only [present, Bool.not_true, Bool.false_and]
  · simp only [swapped, Bool.and_true]

/-- If there are no more pages that are absent than in swap, every page is mapped. -/
theorem MmStruct.mapped_of_length {mm : MmStruct}
    (same : mm.absentPages.length = mm.swappedPages.length) :
    ∀ pgn < pagingMaxPgn, Mapped (mm.pgd pgn) := by
  have filtered : mm.swappedPages =
      mm.absentPages.filter fun pgn => pagingPageSwapped (mm.pgd pgn) := by
    rw [absentPages, swappedPages, List.filter_filter]
    exact List.filter_congr fun pgn _ => Bool.and_comm ..
  have all := List.length_filter_eq_length_iff.mp (filtered ▸ same.symm)
  intro pgn inside
  cases present : pagingPagePresent (mm.pgd pgn) with
  | true => exact .inl present
  | false =>
      apply Or.inr
      apply all pgn
      exact List.mem_filter.mpr ⟨List.mem_range.mpr inside, by rw [present]; rfl⟩

namespace Caller

/-- The frames are returned by a mirrored table only: the numbers put on a list are as many as its
frames, so that every page is mapped. -/
theorem FramesReturned.mirrored {c : Caller}
    (returned : c.FramesReturned c.freePcbMemph.2) : c.mm.Mirrored := by
  have ram := returned.ram
  have swap := returned.swap
  rw [freePcbMemph_mram, List.perm_append_right_iff] at ram
  rw [freePcbMemph_activeMswp, List.perm_append_right_iff] at swap
  have ramFields := (List.reverse_perm _).symm.trans ram
  have swapFields := (List.reverse_perm _).symm.trans swap
  have ramCount := ramFields.length_eq
  have swapCount := swapFields.length_eq
  simp only [MmStruct.fpns, MmStruct.swps, List.length_map] at ramCount swapCount
  have mapped := MmStruct.mapped_of_length (ramCount.trans swapCount)
  rw [MmStruct.absentPages_eq mapped] at ramFields
  exact ⟨mapped, ramFields, swapFields⟩

/-- **Releasing a process returns its frames** if and only if its page table is mirrored. -/
theorem freePcbMemph_returns_iff {c : Caller} (owns : c.OwnsFrames) :
    c.FramesReturned c.freePcbMemph.2 ↔ c.mm.Mirrored := by
  constructor
  · exact FramesReturned.mirrored
  · intro mirrored
    have ram : c.freePcbMemph.2.mram.freeFpList.Perm
        (c.mm.fpns c.mm.presentPages ++ c.mram.freeFpList) := by
      rw [freePcbMemph_mram, List.perm_append_right_iff, MmStruct.absentPages_eq mirrored.mapped]
      exact (List.reverse_perm _).trans mirrored.ram
    have swap : c.freePcbMemph.2.activeMswp.freeFpList.Perm
        (c.mm.swps c.mm.swappedPages ++ c.activeMswp.freeFpList) := by
      rw [freePcbMemph_activeMswp, List.perm_append_right_iff]
      exact (List.reverse_perm _).trans mirrored.swap
    refine ⟨ram, swap, fun free => ?_, fun free => ?_⟩
    · exact ram.nodup_iff.mpr (owns.ram.append free owns.ramFree)
    · exact swap.nodup_iff.mpr (owns.swap.append free owns.swapFree)

/-- A process without mapped pages, as it ends when it never allocated. -/
def unmapped : Caller := ⟨.zeroed, .zeroed, .zeroed⟩

/-- For a process without mapped pages every entry puts frame 0 on the list of the RAM. -/
theorem freePcbMemph_frees_unmapped :
    ¬ ∀ c : Caller, c.OwnsFrames → c.FramesReturned c.freePcbMemph.2 := by
  intro claim
  have present : unmapped.mm.presentPages = [] :=
    List.filter_eq_nil_iff.mpr fun pgn _ => (by decide : ¬ pagingPagePresent 0 = true)
  have swapped : unmapped.mm.swappedPages = [] :=
    List.filter_eq_nil_iff.mpr fun pgn _ =>
      (by decide : ¬ (!pagingPagePresent 0 && pagingPageSwapped 0) = true)
  have first : 0 ∈ unmapped.mm.absentPages :=
    List.mem_filter.mpr ⟨List.mem_range.mpr (by decide), by decide⟩
  have returned := claim unmapped ⟨by rw [present]; exact List.nodup_nil,
    by rw [swapped]; exact List.nodup_nil, by rw [present]; exact List.disjoint_nil_left _,
    by rw [swapped]; exact List.disjoint_nil_left _⟩
  have empty := returned.ram
  rw [freePcbMemph_mram, present] at empty
  have none := List.append_eq_nil_iff.mp empty.eq_nil
  rw [List.reverse_eq_nil_iff, MmStruct.fpns, List.map_eq_nil_iff] at none
  exact absurd first (none.1 ▸ List.not_mem_nil)

end Caller

/-! ## A mirrored table -/

/-- A flag outside of a field does not show in the field. -/
theorem getval_setbit {v flag mask : Pte} (apart : flag &&& mask = 0) (offst : Nat) :
    getval (setbit v flag) mask offst = getval v mask offst := by
  rw [getval, setbit, BitVec.and_or_distrib_right, apart, getval]
  simp

/-- A word with a frame number in its lower bits and again in the bits behind it. -/
def twinWord (i : Nat) : Pte := BitVec.ofNat 32 (i * 8193)

theorem twinWord_toNat {i : Nat} (inside : i < 8192) : (twinWord i).toNat = i * 8193 := by
  rw [twinWord, BitVec.toNat_ofNat, Nat.mod_eq_of_lt (by omega)]

/-- Its frame bits are the number, whatever flag is set beside them. -/
theorem pagingFpn_twinWord {i : Nat} (inside : i < 8192) {flag : Pte}
    (apart : flag &&& pagingPteFpnMask = 0) : pagingFpn (setbit (twinWord i) flag) = i := by
  have mask : pagingPteFpnMask.toNat = 2 ^ 13 - 1 := by decide
  rw [pagingFpn, getval_setbit apart, getval, BitVec.ushiftRight_zero, BitVec.toNat_and, mask,
    twinWord_toNat inside, Nat.and_two_pow_sub_one_eq_mod]
  omega

/-- Its offset bits are the number and its copy behind, shifted into place. -/
theorem pagingSwp_twinWord {i : Nat} (inside : i < 8192) {flag : Pte}
    (apart : flag &&& pagingPteSwpoffMask = 0) :
    pagingSwp (setbit (twinWord i) flag) = Int.ofNat (i * 8193 / 32) := by
  have mask : (pagingPteSwpoffMask >>> 5).toNat = 2 ^ 21 - 1 := by decide
  rw [pagingSwp, getval_setbit apart, getval, BitVec.ushiftRight_and_distrib, BitVec.toNat_and,
    mask, BitVec.toNat_ushiftRight, twinWord_toNat inside, Nat.and_two_pow_sub_one_eq_mod,
    Nat.shiftRight_eq_div_pow, Int.ofNat_eq_natCast]
  congr 1
  omega

/-- With one flag the word is a PRESENT entry, with the other a SWAPPED one. -/
theorem present_twinWord {i : Nat} (inside : i < 8192) :
    pagingPagePresent (setbit (twinWord i) pagingPtePresentMask) = true ∧
      pagingPagePresent (setbit (twinWord i) pagingPteSwappedMask) = false ∧
      pagingPageSwapped (setbit (twinWord i) pagingPteSwappedMask) = true := by
  have low : (twinWord i).getLsbD 31 = false := by
    rw [BitVec.getLsbD, twinWord_toNat inside]
    exact Nat.testBit_lt_two_pow (by omega)
  have presentBits : pagingPtePresentMask.getLsbD 31 = true := by decide
  have swappedBits : pagingPteSwappedMask.getLsbD 31 = false ∧
      pagingPteSwappedMask.getLsbD 30 = true := by decide
  simp only [pagingPagePresent_eq, pagingPageSwapped_eq, ← BitVec.getLsbD_eq_getElem, setbit,
    BitVec.getLsbD_or, low, presentBits, swappedBits, Bool.or_true, Bool.or_false, and_self]

/-- Half of the pages are in RAM and half in swap, in frames of the same numbers. -/
def twinTable : MmStruct :=
  { MmStruct.zeroed with
    pgd := fun pgn =>
      if pgn < 8192 then setbit (twinWord pgn) pagingPtePresentMask
      else setbit (twinWord (pgn - 8192)) pagingPteSwappedMask }

namespace TwinTable

/-- The lower half of the table is in the RAM. -/
theorem pgd_present {i : Nat} (inside : i < 8192) :
    twinTable.pgd i = setbit (twinWord i) pagingPtePresentMask := if_pos inside

/-- The upper half has the same words and is in the swap device. -/
theorem pgd_swapped (i : Nat) :
    twinTable.pgd (8192 + i) = setbit (twinWord i) pagingPteSwappedMask := by
  simp only [twinTable, Nat.not_lt.mpr (Nat.le_add_right 8192 i), ↓reduceIte,
    Nat.add_sub_cancel_left]

/-- The pages of the lower half, then those of the upper one. -/
private theorem halves : List.range pagingMaxPgn =
    List.range 8192 ++ (List.range 8192).map (8192 + ·) := by
  rw [show pagingMaxPgn = 8192 + 8192 by decide, List.range_add]

/-- The pages found PRESENT are those of the lower half. -/
theorem presentPages : twinTable.presentPages = List.range 8192 := by
  have lower : (List.range 8192).filter (fun pgn => pagingPagePresent (twinTable.pgd pgn)) =
      List.range 8192 := by
    apply List.filter_eq_self.mpr
    intro i member
    have inside := List.mem_range.mp member
    rw [pgd_present inside, (present_twinWord inside).1]
  have upper : ((List.range 8192).map (8192 + ·)).filter
      (fun pgn => pagingPagePresent (twinTable.pgd pgn)) = [] := by
    apply List.filter_eq_nil_iff.mpr
    intro pgn member
    obtain ⟨i, inside, rfl⟩ := List.mem_map.mp member
    rw [pgd_swapped, (present_twinWord (List.mem_range.mp inside)).2.1]
    exact Bool.false_ne_true
  rw [MmStruct.presentPages, halves, List.filter_append, lower, upper, List.append_nil]

/-- The pages found SWAPPED are those of the upper half. -/
theorem swappedPages : twinTable.swappedPages = (List.range 8192).map (8192 + ·) := by
  have lower : (List.range 8192).filter (fun pgn =>
      !pagingPagePresent (twinTable.pgd pgn) && pagingPageSwapped (twinTable.pgd pgn)) = [] := by
    apply List.filter_eq_nil_iff.mpr
    intro i member
    have inside := List.mem_range.mp member
    rw [pgd_present inside, (present_twinWord inside).1]
    exact Bool.false_ne_true
  have upper : ((List.range 8192).map (8192 + ·)).filter (fun pgn =>
      !pagingPagePresent (twinTable.pgd pgn) && pagingPageSwapped (twinTable.pgd pgn)) =
        (List.range 8192).map (8192 + ·) := by
    apply List.filter_eq_self.mpr
    intro pgn member
    obtain ⟨i, inside, rfl⟩ := List.mem_map.mp member
    obtain ⟨-, absent, swapped⟩ := present_twinWord (List.mem_range.mp inside)
    rw [pgd_swapped, absent, swapped]
    rfl
  rw [MmStruct.swappedPages, halves, List.filter_append, lower, upper, List.nil_append]

/-- The RAM frames of the lower half are all frames below 8192. -/
theorem fpns_present : twinTable.fpns twinTable.presentPages = (List.range 8192).map Int.ofNat := by
  rw [MmStruct.fpns, presentPages]
  apply List.map_congr_left
  intro i member
  have inside := List.mem_range.mp member
  rw [pgd_present inside, pagingFpn_twinWord inside (by decide)]
  rfl

theorem fpns_swapped : twinTable.fpns twinTable.swappedPages = (List.range 8192).map Int.ofNat := by
  rw [MmStruct.fpns, swappedPages, List.map_map]
  apply List.map_congr_left
  intro i member
  rw [Function.comp_apply, pgd_swapped, pagingFpn_twinWord (List.mem_range.mp member) (by decide)]
  rfl

/-- The offset bits of the lower half name these swap frames. -/
theorem swps_present : twinTable.swps twinTable.presentPages =
    (List.range 8192).map fun i => Int.ofNat (i * 8193 / 32) := by
  rw [MmStruct.swps, presentPages]
  apply List.map_congr_left
  intro i member
  have inside := List.mem_range.mp member
  rw [pgd_present inside, pagingSwp_twinWord inside (by decide)]

theorem swps_swapped : twinTable.swps twinTable.swappedPages =
    (List.range 8192).map fun i => Int.ofNat (i * 8193 / 32) := by
  rw [MmStruct.swps, swappedPages, List.map_map]
  apply List.map_congr_left
  intro i member
  rw [Function.comp_apply, pgd_swapped, pagingSwp_twinWord (List.mem_range.mp member) (by decide)]

/-- The table is mirrored: what the inverted test returns is what the right one would. -/
theorem mirrored : twinTable.Mirrored where
  mapped := fun pgn inside => by
    have half : pagingMaxPgn = 8192 + 8192 := by decide
    by_cases lower : pgn < 8192
    · rw [pgd_present lower]
      exact .inl (present_twinWord lower).1
    · obtain ⟨i, rfl⟩ := Nat.exists_eq_add_of_le (Nat.not_lt.mp lower)
      rw [pgd_swapped]
      exact .inr (present_twinWord (by omega)).2.2
  ram := by rw [fpns_swapped, fpns_present]
  swap := by rw [swps_present, swps_swapped]

/-- No two pages of the table own the same frame. -/
theorem ownsFrames : Caller.OwnsFrames ⟨twinTable, .zeroed, .zeroed⟩ where
  ram := by
    rw [fpns_present]
    exact List.nodup_range.map fun _ _ same => Int.ofNat_inj.mp same
  swap := by
    rw [swps_swapped]
    apply List.nodup_range.map
    intro i j same
    have := Int.ofNat_inj.mp same
    omega
  ramFree := List.disjoint_nil_right _
  swapFree := List.disjoint_nil_right _

end TwinTable

/-- On such a table the exchange of the two lists does no harm. -/
theorem freePcbMemph_returns_mirrored :
    Caller.FramesReturned ⟨twinTable, .zeroed, .zeroed⟩
      (Caller.freePcbMemph ⟨twinTable, .zeroed, .zeroed⟩).2 :=
  (Caller.freePcbMemph_returns_iff TwinTable.ownsFrames).mpr TwinTable.mirrored

/-! ## The tables that the program writes -/

/-- The field `PAGING_PTE_SWPTYP_MASK` is the low bits of the frame number. -/
theorem pagingFpn_emod (pte : Pte) : pagingFpn pte % 32 = pagingSwptyp pte := by
  have fpnMask : pagingPteFpnMask.toNat = 2 ^ 13 - 1 := by decide
  have typMask : pagingPteSwptypMask.toNat = 2 ^ 5 - 1 := by decide
  simp only [pagingFpn, pagingSwptyp, getval, BitVec.ushiftRight_zero, BitVec.toNat_and, fpnMask,
    typMask, Nat.and_two_pow_sub_one_eq_mod]
  omega

namespace MmStruct

variable {mm mm' : MmStruct}

/-- The entries that are not PRESENT have the swap type 0: those that were never written, and those
that `pte_set_swap` wrote, which is called with the type 0 throughout. -/
def Untyped (mm : MmStruct) : Prop :=
  ∀ pgn, pagingPagePresent (mm.pgd pgn) = false → pagingSwptyp (mm.pgd pgn) = 0

/-- **A table without swap types is not mirrored.** The frame numbers read from the pages in swap
are multiples of 32, of which there are 256, and half of the pages would have to be there with
numbers that are all different. -/
theorem Untyped.not_mirrored (untyped : mm.Untyped) (owned : (mm.fpns mm.presentPages).Nodup) :
    ¬ mm.Mirrored := by
  intro mirrored
  have distinct : (mm.fpns mm.swappedPages).Nodup := mirrored.ram.nodup_iff.mpr owned
  have multiples : mm.fpns mm.swappedPages ⊆ (List.range 256).map fun i => Int.ofNat (32 * i) := by
    intro fpn member
    obtain ⟨pgn, swapped, rfl⟩ := List.mem_map.mp member
    have absent : pagingPagePresent (mm.pgd pgn) = false := by
      have both := (List.mem_filter.mp swapped).2
      simp only [Bool.and_eq_true, Bool.not_eq_true'] at both
      exact both.1
    have field := (pagingFpn_emod (mm.pgd pgn)).trans (untyped pgn absent)
    have low := pagingFpn_nonneg (mm.pgd pgn)
    have high := pagingFpn_lt (mm.pgd pgn)
    refine List.mem_map.mpr ⟨(pagingFpn (mm.pgd pgn) / 32).toNat, List.mem_range.mpr (by omega), ?_⟩
    simp only [Int.ofNat_eq_natCast]
    omega
  have few := (List.subperm_of_subset distinct multiples).length_le
  have same := mirrored.ram.length_eq
  have all := List.length_eq_length_filter_add (l := List.range pagingMaxPgn)
    fun pgn => pagingPagePresent (mm.pgd pgn)
  have absent := congrArg List.length (absentPages_eq mirrored.mapped)
  simp only [fpns, List.length_map, List.length_range] at few same
  rw [List.length_range] at all
  simp only [presentPages, absentPages] at absent same
  have size : pagingMaxPgn = 16384 := by decide
  omega

/-- Only the table matters. -/
theorem Untyped.congr (untyped : mm.Untyped) (same : mm'.pgd = mm.pgd) : mm'.Untyped := by
  rwa [Untyped, same]

/-- A new entry is PRESENT or without a type. -/
theorem Untyped.setPte (untyped : mm.Untyped) (pgn : Nat) {pte : Pte}
    (entry : pagingPagePresent pte = false → pagingSwptyp pte = 0) :
    (mm.setPte pgn pte).Untyped := by
  intro page absent
  by_cases same : page = pgn
  · subst same
    rw [setPte_pgd_self] at absent ⊢
    exact entry absent
  · rw [setPte_pgd_of_ne same] at absent ⊢
    exact untyped page absent

/-- An entry that `pte_set_fpn` wrote is PRESENT. -/
theorem Untyped.setFpn (untyped : mm.Untyped) (pgn : Nat) (pte : Pte) (fpn : Int) :
    (mm.setPte pgn (pteSetFpn pte fpn)).Untyped :=
  untyped.setPte pgn fun absent => by
    rw [pagingPagePresent_pteSetFpn] at absent
    cases absent

/-- An entry that `pte_set_swap` wrote with the type 0 has the type 0. -/
theorem Untyped.setSwap (untyped : mm.Untyped) (pgn : Nat) (pte : Pte) (swpoff : Int) :
    (mm.setPte pgn (pteSetSwap pte 0 swpoff)).Untyped :=
  untyped.setPte pgn fun _ => pagingSwptyp_pteSetSwap pte (by decide) (by decide) swpoff

/-- A loop of `vmap_page_range` writes one such entry after the other. -/
theorem Untyped.mapFrames {setEntry : Pte → Int → Pte}
    (writes : ∀ {mm : MmStruct}, mm.Untyped → ∀ pgn pte fpn,
      (mm.setPte pgn (setEntry pte fpn)).Untyped)
    (untyped : mm.Untyped) (pgn : Nat) (frames : List Int) :
    (mm.mapFrames setEntry pgn frames).Untyped := by
  induction frames generalizing mm pgn with
  | nil => exact untyped
  | cons fpn frames ih =>
      have entered :
          ((mm.setPte pgn (setEntry (mm.pgd pgn) fpn)).enlistPgnNode (pgn + 1)).Untyped :=
        (writes untyped pgn (mm.pgd pgn) fpn).congr rfl
      exact ih entered (pgn + 1)

theorem Untyped.vmapPageRange (untyped : mm.Untyped) (addr : Int) (frames frmLstSwap : List Int) :
    (mm.vmapPageRange addr frames frmLstSwap).Untyped :=
  mapFrames Untyped.setSwap (mapFrames Untyped.setFpn untyped _ frames) _ frmLstSwap

/-- The exchange of a fault writes one entry of each kind. -/
theorem Untyped.exchanged (untyped : mm.Untyped) (pgn vicpgn : Nat) (swpfpn : Int) :
    (mm.exchanged pgn vicpgn swpfpn).Untyped :=
  ((untyped.setSwap vicpgn _ swpfpn).setFpn pgn _ _).congr rfl

end MmStruct

namespace Caller

variable {c : Caller}

theorem incVmaLimit_untyped (untyped : c.mm.Untyped) (originSize : Int) :
    (c.incVmaLimit originSize).2.mm.Untyped := by
  rcases c.incVmaLimit_cases originSize with ⟨-, result⟩ | ⟨-, -, result⟩ | ⟨-, -, result⟩
  · rw [result]
    exact untyped.congr (c.moveSbrk_pgd originSize)
  · rw [result]
    exact untyped.congr (c.grown_pgd originSize)
  · rw [result]
    exact (untyped.congr (c.grown_pgd originSize)).vmapPageRange _ _ _

theorem pgGetpage_untyped (untyped : c.mm.Untyped) (u : Uninit) (pgn : Nat) :
    (c.pgGetpage u pgn).2.mm.Untyped := by
  rcases c.pgGetpage_cases u pgn with ⟨-, result⟩ | ⟨-, -, result⟩ | ⟨vicpgn, -, -, -, result⟩
  · rwa [result]
  · rwa [result]
  · rw [result]
    exact untyped.exchanged pgn vicpgn _

/-- No call writes a swap type. -/
theorem pageCall_untyped (untyped : c.mm.Untyped) (u : Uninit) (data : Byte) (call : PageCall) :
    (c.pageCall u data call).mm.Untyped := by
  cases call with
  | incVmaLimit originSize => exact incVmaLimit_untyped untyped originSize
  | pgGetval addr =>
      rw [pageCall, pgGetval_caller]
      exact pgGetpage_untyped untyped u _
  | pgSetval addr value =>
      obtain ⟨mram, -, result⟩ := c.pgSetval_caller u addr value
      rw [pageCall, result]
      exact pgGetpage_untyped untyped u _

end Caller

variable {ι : Type*}

/-- The pages that own their frames in the sense of the ledger have frame numbers that are all
different. -/
theorem RamExclusive.fpns_nodup {s : Sys ι} (exclusive : RamExclusive s) (P : ι) :
    ((s.mm P).fpns (s.mm P).presentPages).Nodup := by
  refine List.Nodup.map_on (fun left leftIn right rightIn same => ?_)
    (List.nodup_range.filter _)
  obtain ⟨leftInside, leftPresent⟩ := List.mem_filter.mp leftIn
  obtain ⟨rightInside, rightPresent⟩ := List.mem_filter.mp rightIn
  have owner : (P, ⟨left, List.mem_range.mp leftInside⟩) =
      ((P, ⟨right, List.mem_range.mp rightInside⟩) : PageId ι) :=
    exclusive.ledger.exclusive (ramFrame_eq_some.mpr ⟨leftPresent, rfl⟩)
      (ramFrame_eq_some.mpr ⟨rightPresent, same.symm⟩)
  exact congrArg (fun page : PageId ι => (page.2 : Nat)) owner

namespace Sys

variable [DecidableEq ι] {s t : Sys ι} {history : List (ι × PageCall)}

/-- One call leaves every table without swap types. -/
theorem LowStep.untyped (untyped : ∀ P, (s.mm P).Untyped) {label : ι × PageCall}
    (taken : s.LowStep label t) (P : ι) : (t.mm P).Untyped := by
  obtain ⟨⟨u, data, rfl⟩, -⟩ := taken
  rw [pageCall]
  by_cases self : P = label.1
  · subst self
    rw [put_mm_self]
    exact Caller.pageCall_untyped (untyped label.1) u data label.2
  · rw [put_mm_of_ne s self]
    exact untyped P

/-- **No process returns its frames.** Whatever processes grow their areas and access their memory,
the page tables that they reach are not mirrored, so that `free_pcb_memph` puts wrong numbers on the
free lists. -/
theorem frames_never_returned (formatted : s.mram.Formatted) (small : s.mram.maxsz / 256 ≤ 8192)
    (unmapped : ∀ P pgn, (s.mm P).pgd pgn = 0)
    (listed : ∀ P, ∀ pgn ∈ (s.mm P).fifoPgn, pgn < pagingMaxPgn) (low : s.Low)
    (run : Run LowStep s history t) (P : ι) :
    ¬ (t.caller P).FramesReturned (t.caller P).freePcbMemph.2 := by
  have initial : RamExclusive s := .start formatted small unmapped listed
  have untyped : ∀ P, (t.mm P).Untyped :=
    run.invariant (fun state => ∀ P, (state.mm P).Untyped)
      (fun _ _ _ inv taken => taken.untyped inv) fun P pgn _ => by rw [unmapped]; rfl
  intro returned
  exact (untyped P).not_mirrored ((initial.run low run).fpns_nodup P) returned.mirrored

end Sys

end PagedOs
