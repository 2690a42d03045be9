import PagedOs.Memory.Memphy

/-! # What an entry keeps

The fields of an entry overlap: the frame number lies in bits 0 to 12, the swap type in bits 0
to 4 and the swap offset in bits 5 to 25. Whatever updates an entry has seen, the last one
decides what it decodes to, provided that its values fit; the frames of a device fit as long as
the device is not too large.
-/

namespace PagedOs

/-- The field `PAGING_PTE_SWPTYP_MASK` of an entry, which no function of the source reads. -/
def pagingSwptyp (pte : Pte) : Int := (getval pte pagingPteSwptypMask 0).toNat

/-- An update of an entry: `pte_set_fpn` or `pte_set_swap` with its arguments. -/
inductive PteUpdate where
  | setFpn (fpn : Int)
  | setSwap (swptyp swpoff : Int)

namespace PteUpdate

/-- The entry after the update, on the word that was there. -/
def apply (pte : Pte) : PteUpdate → Pte
  | .setFpn fpn => pteSetFpn pte fpn
  | .setSwap swptyp swpoff => pteSetSwap pte swptyp swpoff

/-- The values of the update fit their fields. -/
def Fits : PteUpdate → Prop
  | .setFpn fpn => 0 ≤ fpn ∧ fpn < 2 ^ 13
  | .setSwap swptyp swpoff => (0 ≤ swptyp ∧ swptyp < 2 ^ 5) ∧ 0 ≤ swpoff ∧ swpoff < 2 ^ 21

/-- The entry decodes to what the update put in. -/
def Shown (pte : Pte) : PteUpdate → Prop
  | .setFpn fpn =>
      pagingPagePresent pte = true ∧ pagingPageSwapped pte = false ∧ pagingFpn pte = fpn
  | .setSwap swptyp swpoff =>
      pagingPagePresent pte = false ∧ pagingPageSwapped pte = true ∧ pagingSwp pte = swpoff ∧
        pagingSwptyp pte = swptyp

end PteUpdate

/-- `SETBIT` leaves every bit outside of its mask as it was. -/
theorem setbit_getLsbD {v mask : Pte} {i : Nat} (outside : mask.getLsbD i = false) :
    (setbit v mask).getLsbD i = v.getLsbD i := by
  rw [setbit, BitVec.getLsbD_or, outside, Bool.or_false]

/-- `CLRBIT` leaves every bit outside of its mask as it was. -/
theorem clrbit_getLsbD {v mask : Pte} {i : Nat} (outside : mask.getLsbD i = false) :
    (clrbit v mask).getLsbD i = v.getLsbD i := by
  by_cases inside : i < 32
  · simp only [clrbit, BitVec.getLsbD_and, BitVec.getLsbD_not, inside, outside, decide_true,
      Bool.not_false, Bool.and_true]
  · rw [BitVec.getLsbD_of_ge _ _ (by omega), BitVec.getLsbD_of_ge _ _ (by omega)]

/-- Writing a field leaves the bits outside its mask alone. -/
theorem setval_getLsbD {v mask : Pte} {i : Nat} (outside : mask.getLsbD i = false) (value : Int)
    (offst : Nat) : (setval v value mask offst).getLsbD i = v.getLsbD i := by
  have cleared : (v &&& ~~~mask).getLsbD i = v.getLsbD i := clrbit_getLsbD outside
  rw [setval, BitVec.getLsbD_or, cleared, BitVec.getLsbD_and, outside, Bool.and_false,
    Bool.or_false]

/-- So a field with a mask of its own is kept. -/
theorem setval_and_apart {v mask other : Pte} (apart : mask &&& other = 0) (value : Int)
    (offst : Nat) : setval v value mask offst &&& other = v &&& other := by
  apply BitVec.eq_of_getLsbD_eq
  intro i inside
  have bit := congrArg (BitVec.getLsbD · i) apart
  simp only [BitVec.getLsbD_and, BitVec.ofNat_eq_ofNat, BitVec.getLsbD_zero] at bit
  cases covered : other.getLsbD i with
  | false => simp only [BitVec.getLsbD_and, covered, Bool.and_false]
  | true =>
      have outside : mask.getLsbD i = false := by simpa only [covered, Bool.and_true] using bit
      rw [BitVec.getLsbD_and, BitVec.getLsbD_and, setval_getLsbD outside]

/-- A swap type of at most 5 bits is recovered from an entry it was put in. -/
theorem pagingSwptyp_pteSetSwap (pte : Pte) {swptyp : Int} (nonneg : 0 ≤ swptyp)
    (small : swptyp < 2 ^ 5) (swpoff : Int) :
    pagingSwptyp (pteSetSwap pte swptyp swpoff) = swptyp := by
  have mask : pagingPteSwptypMask = BitVec.ofNat 32 (2 ^ 5 - 1) := by decide
  have field : (BitVec.ofInt 32 swptyp &&& pagingPteSwptypMask).toNat = swptyp.toNat := by
    rw [BitVec.toNat_and, BitVec.toNat_ofInt, Int.emod_eq_of_lt nonneg (by omega), mask,
      show (BitVec.ofNat 32 (2 ^ 5 - 1)).toNat = 2 ^ 5 - 1 by decide,
      Nat.and_two_pow_sub_one_eq_mod, Nat.mod_eq_of_lt (by omega)]
  have apart : pagingPteSwpoffMask &&& pagingPteSwptypMask = 0 := by decide
  simp only [pagingSwptyp, pteSetSwap, getval, setval_and_apart apart, setval_and_mask,
    BitVec.ushiftRight_zero, BitVec.shiftLeft_zero, field]
  exact Int.toNat_of_nonneg nonneg

namespace PteUpdate

/-- An update whose values fit their fields is read back from the entry it leaves, whatever stood
there before. -/
theorem apply_shown (pte : Pte) {update : PteUpdate} (fits : update.Fits) :
    update.Shown (apply pte update) := by
  cases update with
  | setFpn fpn =>
      exact ⟨pagingPagePresent_pteSetFpn pte fpn, pagingPageSwapped_pteSetFpn pte fpn,
        pagingFpn_pteSetFpn pte fits.1 fits.2⟩
  | setSwap swptyp swpoff =>
      obtain ⟨⟨typNonneg, typSmall⟩, offNonneg, offSmall⟩ := fits
      exact ⟨pagingPagePresent_pteSetSwap pte swptyp swpoff,
        pagingPageSwapped_pteSetSwap pte swptyp swpoff,
        pagingSwp_pteSetSwap pte swptyp offNonneg offSmall,
        pagingSwptyp_pteSetSwap pte typNonneg typSmall swpoff⟩

/-- No update writes the bits 26 to 29. -/
theorem apply_getLsbD (pte : Pte) (update : PteUpdate) {i : Nat} (low : 26 ≤ i) (high : i < 30) :
    (apply pte update).getLsbD i = pte.getLsbD i := by
  have outside : ∀ i < 30, 26 ≤ i → pagingPteFpnMask.getLsbD i = false ∧
      pagingPteSwptypMask.getLsbD i = false ∧ pagingPteSwpoffMask.getLsbD i = false ∧
      pagingPtePresentMask.getLsbD i = false ∧ pagingPteSwappedMask.getLsbD i = false := by decide
  obtain ⟨fpnMask, typMask, offMask, presentMask, swappedMask⟩ := outside i high low
  cases update with
  | setFpn fpn =>
      rw [apply, pteSetFpn, setval_getLsbD fpnMask, clrbit_getLsbD swappedMask,
        setbit_getLsbD presentMask]
  | setSwap swptyp swpoff =>
      rw [apply, pteSetSwap, setval_getLsbD offMask, setval_getLsbD typMask,
        setbit_getLsbD swappedMask, clrbit_getLsbD presentMask]

/-- **Updates override each other cleanly.** After any sequence of updates an entry decodes to
what the last one put in, if this fits its fields, and its bits 26 to 29 are as they were. -/
theorem last_update_shown (pte : Pte) (updates : List PteUpdate) (last : PteUpdate)
    (fits : ∀ update ∈ updates ++ [last], update.Fits) :
    last.Shown ((updates ++ [last]).foldl apply pte) ∧
      ∀ i, 26 ≤ i → i < 30 →
        ((updates ++ [last]).foldl apply pte).getLsbD i = pte.getLsbD i := by
  constructor
  · rw [List.foldl_append, List.foldl_cons, List.foldl_nil]
    apply apply_shown
    exact fits last List.mem_concat_self
  · intro i low high
    generalize updates ++ [last] = history
    induction history generalizing pte with
    | nil => rfl
    | cons update later ih => rw [List.foldl_cons, ih, apply_getLsbD pte update low high]

/-- A page in frame 8191 is swapped out; the bits of the frame number that the swap offset
covers are gone. -/
theorem last_update_shown_swapped_out :
    pagingSwp ([.setFpn 8191, .setSwap 3 1000].foldl apply 0x14000000#32) = 1000 := by
  have shown := last_update_shown 0x14000000#32 [.setFpn 8191] (.setSwap 3 1000) (by
    intro update member
    rcases List.mem_pair.mp member with rfl | rfl
    · exact ⟨by decide, by decide⟩
    · exact ⟨⟨by decide, by decide⟩, by decide, by decide⟩)
  exact shown.1.2.2.1

end PteUpdate

/-! ## The frames of a device -/

namespace Memphy

/-- The device after some calls of `MEMPHY_get_freefp`. -/
def afterGets (mp : Memphy) : (calls : Nat) → Memphy
  | 0 => mp
  | calls + 1 => (mp.memphyGetFreefp 0).2.2.afterGets calls

/-- A frame that `MEMPHY_get_freefp` can return, sooner or later. -/
def Obtains (mp : Memphy) (fpn : Int) : Prop :=
  ∃ calls retfpn, ((mp.afterGets calls).memphyGetFreefp retfpn).1 = 0 ∧
    ((mp.afterGets calls).memphyGetFreefp retfpn).2.1 = fpn

/-- Each call of `MEMPHY_get_freefp` takes the first frame off, so that `calls` of them drop the
first `calls` frames of the list. -/
theorem afterGets_free (mp : Memphy) (calls : Nat) :
    (mp.afterGets calls).freeFpList = mp.freeFpList.drop calls := by
  induction calls generalizing mp with
  | zero => rfl
  | succ calls ih => rw [afterGets, ih, memphyGetFreefp_free, List.drop_tail]

/-- What calls of `MEMPHY_get_freefp` hand out are the frames of the free list and no others. -/
theorem obtains_iff {mp : Memphy} {fpn : Int} : mp.Obtains fpn ↔ fpn ∈ mp.freeFpList := by
  constructor
  · rintro ⟨calls, retfpn, status, same⟩
    have list := afterGets_free mp calls
    unfold memphyGetFreefp at status same
    split at status
    · cases status
    · rename_i first rest found
      rw [found] at list same
      obtain rfl : first = fpn := same
      exact List.mem_of_mem_drop (list ▸ List.mem_cons_self)
  · intro member
    obtain ⟨front, rest, split⟩ := List.append_of_mem member
    have found : (mp.afterGets front.length).freeFpList = fpn :: rest := by
      rw [afterGets_free, split, List.drop_left]
    refine ⟨front.length, 0, ?_, ?_⟩ <;> rw [memphyGetFreefp, found]

end Memphy

/-- The frames that the devices hand out are recovered from the entries they are put in. -/
structure FramesFit (mram activeMswp : Memphy) : Prop where
  ram : ∀ fpn, mram.Obtains fpn → ∀ pte, pagingFpn (pteSetFpn pte fpn) = fpn
  swap : ∀ fpn, activeMswp.Obtains fpn →
    ∀ pte swptyp, pagingSwp (pteSetSwap pte swptyp fpn) = fpn
  ramDistinct : ∀ fpn other, mram.Obtains fpn → mram.Obtains other → fpn ≠ other →
    ∀ pte pte', pteSetFpn pte fpn ≠ pteSetFpn pte' other
  swapDistinct : ∀ fpn other, activeMswp.Obtains fpn → activeMswp.Obtains other → fpn ≠ other →
    ∀ pte pte' swptyp swptyp', pteSetSwap pte swptyp fpn ≠ pteSetSwap pte' swptyp' other

/-- The swap offset that an entry holds is read through 21 bits. -/
theorem pagingSwp_lt (pte : Pte) : pagingSwp pte < 2 ^ 21 := by
  have mask : pagingPteSwpoffMask >>> 5 = BitVec.ofNat 32 (2 ^ 21 - 1) := by decide
  have bound : ((pte &&& pagingPteSwpoffMask) >>> 5).toNat ≤ 2 ^ 21 - 1 := by
    rw [BitVec.ushiftRight_and_distrib, mask, BitVec.toNat_and,
      show (BitVec.ofNat 32 (2 ^ 21 - 1)).toNat = 2 ^ 21 - 1 by decide]
    exact Nat.and_le_right
  simp only [pagingSwp, getval]
  omega

/-- Exactly the numbers of 13 bits are recovered from an entry for a frame in RAM. -/
theorem fpn_recovered_iff {fpn : Int} :
    (∀ pte, pagingFpn (pteSetFpn pte fpn) = fpn) ↔ 0 ≤ fpn ∧ fpn < 2 ^ 13 := by
  constructor
  · intro recovered
    rw [← recovered 0]
    exact ⟨pagingFpn_nonneg _, pagingFpn_lt _⟩
  · rintro ⟨nonneg, small⟩ pte
    exact pagingFpn_pteSetFpn pte nonneg small

/-- And those of 21 bits from one for a frame in swap. -/
theorem swpoff_recovered_iff {fpn : Int} :
    (∀ pte swptyp, pagingSwp (pteSetSwap pte swptyp fpn) = fpn) ↔ 0 ≤ fpn ∧ fpn < 2 ^ 21 := by
  constructor
  · intro recovered
    rw [← recovered 0 0]
    exact ⟨Int.natCast_nonneg _, pagingSwp_lt _⟩
  · rintro ⟨nonneg, small⟩ pte swptyp
    exact pagingSwp_pteSetSwap pte swptyp nonneg small

/-- The frames of a device of a size, and those behind them on a list that was not written to
its end, are below a bound. -/
def Memphy.Narrow (mp : Memphy) (maxSize : Int) (uninit : List Int) (bound : Int) : Prop :=
  maxSize < bound * 256 + 256 ∧ ∀ fpn ∈ mp.unset maxSize uninit, 0 ≤ fpn ∧ fpn < bound

/-- Every frame that a device hands out after `init_memphy` is below the bound exactly when the
size of the device or, on an empty format, what malloc left on the list says so. -/
theorem Memphy.narrow_iff (mp : Memphy) (storage : Int → Byte) (maxSize : Int) (randomflg : Bool)
    (uninit : List Int) {bound : Int} (positive : 0 < bound) :
    (∀ fpn, (mp.initMemphy storage maxSize randomflg uninit).Obtains fpn →
      0 ≤ fpn ∧ fpn < bound) ↔ mp.Narrow maxSize uninit bound := by
  simp only [obtains_iff, initMemphy_freeFpList, List.mem_append, mem_frames]
  constructor
  · intro all
    refine ⟨?_, fun fpn member => all fpn (.inr member)⟩
    by_contra large
    have := all bound (.inl (by omega))
    omega
  · rintro ⟨size, unset⟩ fpn (inside | member)
    · omega
    · exact unset fpn member

/-- **Frame numbers fit their fields** if and only if the RAM is smaller than 2^21 + 256 bytes,
the swap device smaller than 2^29 + 256, and what `MEMPHY_format` leaves unwritten names no
larger frame either. -/
theorem frames_fit_iff (mram activeMswp : Memphy) (ramStorage swapStorage : Int → Byte)
    (memramsz memswpsz : Int) (randomflg : Bool) (ramUninit swapUninit : List Int) :
    FramesFit (mram.initMemphy ramStorage memramsz randomflg ramUninit)
        (activeMswp.initMemphy swapStorage memswpsz randomflg swapUninit) ↔
      mram.Narrow memramsz ramUninit (2 ^ 13) ∧
        activeMswp.Narrow memswpsz swapUninit (2 ^ 21) := by
  rw [← Memphy.narrow_iff mram ramStorage memramsz randomflg ramUninit (by decide),
    ← Memphy.narrow_iff activeMswp swapStorage memswpsz randomflg swapUninit (by decide)]
  constructor
  · intro fit
    exact ⟨fun fpn obtained => fpn_recovered_iff.mp (fit.ram fpn obtained),
      fun fpn obtained => swpoff_recovered_iff.mp (fit.swap fpn obtained)⟩
  · rintro ⟨ram, swap⟩
    have ramBack := fun fpn obtained => fpn_recovered_iff.mpr (ram fpn obtained)
    have swapBack := fun fpn obtained => swpoff_recovered_iff.mpr (swap fpn obtained)
    refine ⟨ramBack, swapBack, ?_, ?_⟩
    · intro fpn other first second different pte pte' same
      apply different
      rw [← ramBack fpn first pte, same, ramBack other second]
    · intro fpn other first second different pte pte' swptyp swptyp' same
      apply different
      rw [← swapBack fpn first pte swptyp, same, swapBack other second]

/-- In a RAM of 4 MB frame 8192 gets the encoding of frame 0. -/
theorem large_ram_truncates : ¬ ∀ (mram activeMswp : Memphy) (ramStorage swapStorage : Int → Byte)
    (memramsz memswpsz : Int) (randomflg : Bool) (ramUninit swapUninit : List Int),
    FramesFit (mram.initMemphy ramStorage memramsz randomflg ramUninit)
      (activeMswp.initMemphy swapStorage memswpsz randomflg swapUninit) := by
  intro claim
  have fit := claim .zeroed .zeroed (fun _ => 0) (fun _ => 0) (2 ^ 22) (2 ^ 24) true [] []
  have obtained : (Memphy.zeroed.initMemphy (fun _ => 0) (2 ^ 22) true []).Obtains 8192 :=
    Memphy.obtains_iff.mpr (Memphy.initMemphy_free _ _ _ (by decide))
  exact absurd (fit.ram 8192 obtained 0) (by decide)

end PagedOs
