import Mathlib.Data.BitVec

/-! # Machine words and page-table entries

The C types of the memory manager: `uint32_t` and `unsigned long` are bit
vectors, `BYTE` is eight bits, and an `int` is an integer that `toInt` wraps
where the source converts a wider value. The macros of `bitops.h` and `mm.h` are
translated one by one; the lemmas after them say what decoding an updated entry
yields.
-/

namespace PagedOs

/-- `BYTE`, which is a `char` of 8 bits. -/
abbrev Byte := BitVec 8

/-- `unsigned long`, in which addresses of the area are counted. -/
abbrev ULong := BitVec 64

/-- A page-table entry, `uint32_t`. -/
abbrev Pte := BitVec 32

/-- Conversion of a wider integer to `int`. -/
def toInt (x : Int) : Int := (BitVec.ofInt 32 x).toInt

/-- Conversion of an `int` to `unsigned long`. -/
def toULong (x : Int) : ULong := BitVec.ofInt 64 x

/-! ## bitops.h -/

/-- `BIT`, the word with one bit set. -/
def bit (nr : Nat) : BitVec 32 := 1#32 <<< nr

/-- `GENMASK`, with `BITS_PER_LONG` 32: the bits from `l` to `h`. -/
def genmask (h l : Nat) : BitVec 32 :=
  (BitVec.allOnes 32 <<< l) &&& (BitVec.allOnes 32 >>> (32 - h - 1))

/-- `NBITS2`, the first step of the search for the highest bit. -/
def nbits2 (n : Nat) : Nat := if n &&& 2 = 0 then 0 else 1

/-- `NBITS4` -/
def nbits4 (n : Nat) : Nat := if n &&& 0xC = 0 then nbits2 n else 2 + nbits2 (n >>> 2)

/-- `NBITS8` -/
def nbits8 (n : Nat) : Nat := if n &&& 0xF0 = 0 then nbits4 n else 4 + nbits4 (n >>> 4)

/-- `NBITS16` -/
def nbits16 (n : Nat) : Nat := if n &&& 0xFF00 = 0 then nbits8 n else 8 + nbits8 (n >>> 8)

/-- `NBITS32` -/
def nbits32 (n : Nat) : Nat := if n &&& 0xFFFF0000 = 0 then nbits16 n else 16 + nbits16 (n >>> 16)

/-- `NBITS`, the position of the highest bit that is set. -/
def nbits (n : Nat) : Nat := if n = 0 then 0 else nbits32 n

/-! ## mm.h -/

/-- `PAGING_CPU_BUS_WIDTH`, the 22 bits of an address. -/
def pagingCpuBusWidth : Nat := 22

/-- `PAGING_PAGESZ`, the 256 bytes of a page. -/
def pagingPagesz : Nat := 256

/-- `PAGING_PAGE_ALIGNSZ` of an `unsigned long`: rounded up to a page. -/
def pagingPageAlignsz (sz : ULong) : ULong :=
  (sz + BitVec.ofNat 64 pagingPagesz - 1) / BitVec.ofNat 64 pagingPagesz *
    BitVec.ofNat 64 pagingPagesz

/-- `PAGING_MAX_PGN`, the number of entries of a page table. -/
def pagingMaxPgn : Nat := (2 ^ pagingCpuBusWidth + pagingPagesz - 1) / pagingPagesz

/-- `PAGING_MAX_SYMTBL_SZ`, the number of registers of a process. -/
def pagingMaxSymtblSz : Int := 30

/-- `PAGING_PTE_PRESENT_MASK`, bit 31 of an entry. -/
def pagingPtePresentMask : Pte := bit 31

/-- `PAGING_PTE_SWAPPED_MASK`, bit 30 of an entry. -/
def pagingPteSwappedMask : Pte := bit 30

/-- `PAGING_PTE_FPN_MASK`, the bits 0 to 12 of an entry. -/
def pagingPteFpnMask : Pte := genmask 12 0

/-- `PAGING_PTE_SWPTYP_MASK`, the bits 0 to 4 of an entry. -/
def pagingPteSwptypMask : Pte := genmask 4 0

/-- `PAGING_PTE_SWPOFF_MASK`, the bits 5 to 25 of an entry. -/
def pagingPteSwpoffMask : Pte := genmask 25 5

/-- `PAGING_OFFST_MASK`, the bits 0 to 7 of an address. -/
def pagingOffstMask : BitVec 32 := genmask (nbits pagingPagesz - 1) 0

/-- `PAGING_PGN_MASK`, the bits 8 to 21 of an address. -/
def pagingPgnMask : BitVec 32 := genmask (pagingCpuBusWidth - 1) (nbits pagingPagesz)

/-- `SETBIT`: the bits of the mask are set. -/
def setbit (v mask : Pte) : Pte := v ||| mask

/-- `CLRBIT`: the bits of the mask are cleared. -/
def clrbit (v mask : Pte) : Pte := v &&& ~~~mask

/-- `SETVAL`: a field of a word gets a value, which is shifted and masked. -/
def setval (v : Pte) (value : Int) (mask : Pte) (offst : Nat) : Pte :=
  (v &&& ~~~mask) ||| ((BitVec.ofInt 32 value <<< offst) &&& mask)

/-- `GETVAL`: the value of a field of a word. -/
def getval (v mask : BitVec 32) (offst : Nat) : BitVec 32 := (v &&& mask) >>> offst

/-- `PAGING_PAGE_PRESENT`, whether an entry has its PRESENT bit. -/
def pagingPagePresent (pte : Pte) : Bool := pte &&& pagingPtePresentMask != 0

/-- The bit `PAGING_PTE_SWAPPED_MASK` of an entry. -/
def pagingPageSwapped (pte : Pte) : Bool := pte &&& pagingPteSwappedMask != 0

/-- `PAGING_FPN`, stored into an `int` -/
def pagingFpn (pte : Pte) : Int := (getval pte pagingPteFpnMask 0).toNat

/-- `PAGING_SWP`, stored into an `int` -/
def pagingSwp (pte : Pte) : Int := (getval pte pagingPteSwpoffMask 5).toNat

/-- `PAGING_PGN` of an `int` address -/
def pagingPgn (addr : Int) : Nat :=
  (getval (BitVec.ofInt 32 addr) pagingPgnMask (nbits pagingPagesz)).toNat

/-- `PAGING_OFFST` of an `int` address -/
def pagingOffst (addr : Int) : Int := (getval (BitVec.ofInt 32 addr) pagingOffstMask 0).toNat

/-- `pte_set_swap`: the entry of a page that goes to the swap device. -/
def pteSetSwap (pte : Pte) (swptyp swpoff : Int) : Pte :=
  let pte := clrbit pte pagingPtePresentMask
  let pte := setbit pte pagingPteSwappedMask
  let pte := setval pte swptyp pagingPteSwptypMask 0
  setval pte swpoff pagingPteSwpoffMask 5

/-- `pte_set_fpn`: the entry of a page that comes to the RAM. -/
def pteSetFpn (pte : Pte) (fpn : Int) : Pte :=
  let pte := setbit pte pagingPtePresentMask
  let pte := clrbit pte pagingPteSwappedMask
  setval pte fpn pagingPteFpnMask 0

/-! ## Decoding -/

/-- An entry with neither bit set names no frame: its page was never mapped. -/
def Mapped (pte : Pte) : Prop := pagingPagePresent pte = true ∨ pagingPageSwapped pte = true

/-- Whether an entry is mapped is read off two bits. -/
instance (pte : Pte) : Decidable (Mapped pte) := inferInstanceAs (Decidable (_ ∨ _))

theorem pagingPagePresent_eq (pte : Pte) : pagingPagePresent pte = pte[31] := by
  have mask : pagingPtePresentMask = BitVec.twoPow 32 31 := by decide
  have entry : pte[31] = pte.getLsbD 31 := by simp
  rw [entry, pagingPagePresent, mask, BitVec.and_twoPow]
  cases pte.getLsbD 31 <;> decide

theorem pagingPageSwapped_eq (pte : Pte) : pagingPageSwapped pte = pte[30] := by
  have mask : pagingPteSwappedMask = BitVec.twoPow 32 30 := by decide
  have entry : pte[30] = pte.getLsbD 30 := by simp
  rw [entry, pagingPageSwapped, mask, BitVec.and_twoPow]
  cases pte.getLsbD 30 <;> decide

/-- Reading a field back through its mask yields the value written. -/
theorem setval_and_mask (v : Pte) (value : Int) (mask : Pte) (offst : Nat) :
    setval v value mask offst &&& mask = (BitVec.ofInt 32 value <<< offst) &&& mask := by
  ext i inside
  simp only [setval, BitVec.getElem_and, BitVec.getElem_or, BitVec.getElem_not]
  cases mask[i] <;> simp

/-- A number within 32 bits is its own word. -/
private theorem ofInt_toNat {value : Int} (nonneg : 0 ≤ value) (small : value < 2 ^ 32) :
    (BitVec.ofInt 32 value).toNat = value.toNat := by
  rw [BitVec.toNat_ofInt, Int.emod_eq_of_lt nonneg (by simpa using small)]

/-- A number within the range of an `int` is its own. -/
theorem toInt_eq_self {x : Int} (low : -2 ^ 31 ≤ x) (high : x < 2 ^ 31) : toInt x = x := by
  rw [toInt, BitVec.toInt_ofInt]
  exact Int.bmod_eq_of_le (by omega) (by omega)

/-- The upper half of the range of `uint32_t` wraps to the negative numbers. -/
theorem toInt_eq_sub {x : Int} (low : 2 ^ 31 ≤ x) (high : x < 2 ^ 32) : toInt x = x - 2 ^ 32 := by
  rw [toInt, BitVec.toInt_ofInt, Int.bmod_neg _ _ (by omega)]
  omega

theorem toInt_lt (x : Int) : toInt x < 2 ^ 31 := by
  have := (BitVec.ofInt 32 x).toInt_lt
  simpa only [toInt] using this

/-- A conversion to `int` keeps the low bits. -/
theorem toInt_emod (x : Int) : toInt x % 2 ^ 22 = x % 2 ^ 22 := by
  rw [toInt, BitVec.toInt_ofInt, Int.bmod]
  split <;> omega

/-- The conversion to `unsigned long` keeps the lower 22 bits, those of an address. -/
theorem toULong_emod (x : Int) : ((toULong x).toNat : Int) % 2 ^ 22 = x % 2 ^ 22 := by
  rw [toULong, BitVec.toNat_ofInt]
  omega

/-- A number that is not negative keeps its value. -/
theorem toULong_toNat {x : Int} (nonneg : 0 ≤ x) (small : x < 2 ^ 63) :
    (toULong x).toNat = x.toNat := by
  rw [toULong, BitVec.toNat_ofInt, Int.emod_eq_of_lt nonneg (by omega)]

theorem toULong_toNat_neg {x : Int} (negative : x < 0) (small : -2 ^ 64 ≤ x) :
    ((toULong x).toNat : Int) = x + 2 ^ 64 := by
  rw [toULong, BitVec.toNat_ofInt]
  omega

/-- Adding a length to an address that is not near the end of the address range. -/
theorem add_toULong_toNat {addr : ULong} {x : Int} (low : addr.toNat < 2 ^ 62) (nonneg : 0 ≤ x)
    (small : x < 2 ^ 62) : (addr + toULong x).toNat = addr.toNat + x.toNat := by
  rw [BitVec.toNat_add, toULong_toNat nonneg (by omega), Nat.mod_eq_of_lt (by omega)]

/-- Adding a small amount to a low address does not wrap. -/
theorem add_toULong_natCast {addr : ULong} {n : Nat} (low : addr.toNat < 2 ^ 62)
    (small : n < 2 ^ 62) : (addr + toULong n).toNat = addr.toNat + n := by
  rw [add_toULong_toNat low (by omega) (by omega), Int.toNat_natCast]

theorem pagingPageAlignsz_toNat (sz : ULong) (low : sz.toNat < 2 ^ 63) :
    (pagingPageAlignsz sz).toNat = (sz.toNat + 255) / 256 * 256 := by
  have page : (BitVec.ofNat 64 pagingPagesz).toNat = 256 := by decide
  have sum : (sz + BitVec.ofNat 64 pagingPagesz).toNat = sz.toNat + 256 := by
    rw [BitVec.toNat_add, page]
    omega
  have below : (sz + BitVec.ofNat 64 pagingPagesz - 1).toNat = sz.toNat + 255 := by
    rw [BitVec.toNat_sub, sum, show (1 : ULong).toNat = 1 from rfl]
    omega
  rw [pagingPageAlignsz, BitVec.toNat_mul, BitVec.toNat_udiv, below, page]
  omega

@[simp] theorem pagingPagePresent_pteSetFpn (pte : Pte) (fpn : Int) :
    pagingPagePresent (pteSetFpn pte fpn) = true := by
  have outsideFpn : pagingPteFpnMask[31] = false := by decide
  have outsideSwapped : pagingPteSwappedMask[31] = false := by decide
  have present : pagingPtePresentMask[31] = true := by decide
  simp [pagingPagePresent_eq, pteSetFpn, setval, clrbit, setbit, outsideFpn, outsideSwapped,
    present]

@[simp] theorem pagingPagePresent_pteSetSwap (pte : Pte) (swptyp swpoff : Int) :
    pagingPagePresent (pteSetSwap pte swptyp swpoff) = false := by
  have outsideTyp : pagingPteSwptypMask[31] = false := by decide
  have outsideOff : pagingPteSwpoffMask[31] = false := by decide
  have outsideSwapped : pagingPteSwappedMask[31] = false := by decide
  have present : pagingPtePresentMask[31] = true := by decide
  simp [pagingPagePresent_eq, pteSetSwap, setval, clrbit, setbit, outsideTyp, outsideOff,
    outsideSwapped, present]

@[simp] theorem pagingPageSwapped_pteSetSwap (pte : Pte) (swptyp swpoff : Int) :
    pagingPageSwapped (pteSetSwap pte swptyp swpoff) = true := by
  have outsideTyp : pagingPteSwptypMask[30] = false := by decide
  have outsideOff : pagingPteSwpoffMask[30] = false := by decide
  have swapped : pagingPteSwappedMask[30] = true := by decide
  simp [pagingPageSwapped_eq, pteSetSwap, setval, clrbit, setbit, outsideTyp, outsideOff, swapped]

@[simp] theorem pagingPageSwapped_pteSetFpn (pte : Pte) (fpn : Int) :
    pagingPageSwapped (pteSetFpn pte fpn) = false := by
  have outsideFpn : pagingPteFpnMask[30] = false := by decide
  have swapped : pagingPteSwappedMask[30] = true := by decide
  simp [pagingPageSwapped_eq, pteSetFpn, setval, clrbit, outsideFpn, swapped]

/-- A frame number of at most 13 bits is recovered from an entry it was put in. -/
theorem pagingFpn_pteSetFpn (pte : Pte) {fpn : Int} (nonneg : 0 ≤ fpn) (small : fpn < 2 ^ 13) :
    pagingFpn (pteSetFpn pte fpn) = fpn := by
  have mask : pagingPteFpnMask = BitVec.ofNat 32 (2 ^ 13 - 1) := by decide
  have field : (BitVec.ofInt 32 fpn &&& pagingPteFpnMask).toNat = fpn.toNat := by
    rw [BitVec.toNat_and, ofInt_toNat nonneg (by omega), mask,
      show (BitVec.ofNat 32 (2 ^ 13 - 1)).toNat = 2 ^ 13 - 1 by decide,
      Nat.and_two_pow_sub_one_eq_mod, Nat.mod_eq_of_lt (by omega)]
  simp only [pagingFpn, pteSetFpn, getval, setval_and_mask, BitVec.ushiftRight_zero,
    BitVec.shiftLeft_zero, field]
  exact Int.toNat_of_nonneg nonneg

/-- A swap offset of at most 21 bits is recovered from an entry it was put in. -/
theorem pagingSwp_pteSetSwap (pte : Pte) (swptyp : Int) {swpoff : Int} (nonneg : 0 ≤ swpoff)
    (small : swpoff < 2 ^ 21) : pagingSwp (pteSetSwap pte swptyp swpoff) = swpoff := by
  have mask : pagingPteSwpoffMask = BitVec.ofNat 32 (2 ^ 21 - 1) <<< 5 := by decide
  have field : (((BitVec.ofInt 32 swpoff <<< 5) &&& pagingPteSwpoffMask) >>> 5).toNat =
      swpoff.toNat := by
    rw [mask, ← BitVec.shiftLeft_and_distrib, BitVec.toNat_ushiftRight, BitVec.toNat_shiftLeft,
      BitVec.toNat_and, ofInt_toNat nonneg (by omega),
      show (BitVec.ofNat 32 (2 ^ 21 - 1)).toNat = 2 ^ 21 - 1 by decide,
      Nat.and_two_pow_sub_one_eq_mod, Nat.mod_eq_of_lt (by omega), Nat.shiftLeft_eq,
      Nat.shiftRight_eq_div_pow]
    omega
  simp only [pagingSwp, pteSetSwap, getval, setval_and_mask, field]
  exact Int.toNat_of_nonneg nonneg

/-- An entry that names a RAM frame is mapped. -/
theorem mapped_pteSetFpn (pte : Pte) (fpn : Int) : Mapped (pteSetFpn pte fpn) :=
  .inl (pagingPagePresent_pteSetFpn pte fpn)

/-- An entry that names a swap frame is mapped. -/
theorem mapped_pteSetSwap (pte : Pte) (swptyp swpoff : Int) :
    Mapped (pteSetSwap pte swptyp swpoff) :=
  .inr (pagingPageSwapped_pteSetSwap pte swptyp swpoff)

/-- Frame numbers read from an entry are not negative. -/
theorem pagingFpn_nonneg (pte : Pte) : 0 ≤ pagingFpn pte := Int.natCast_nonneg _

/-- Frame numbers read from an entry have 13 bits. -/
theorem pagingFpn_lt (pte : Pte) : pagingFpn pte < 2 ^ 13 := by
  have mask : pagingPteFpnMask.toNat = 2 ^ 13 - 1 := by decide
  have bound : (pte &&& pagingPteFpnMask).toNat ≤ 2 ^ 13 - 1 := by
    rw [BitVec.toNat_and, mask]
    exact Nat.and_le_right
  simp only [pagingFpn, getval, BitVec.ushiftRight_zero]
  omega

/-- The page number of an address is its bits 8 to 21. -/
theorem pagingPgn_eq (addr : Int) : (pagingPgn addr : Int) = addr % 2 ^ 22 / 256 := by
  have mask : pagingPgnMask = BitVec.ofNat 32 (2 ^ 14 - 1) <<< 8 := by decide
  have bits : nbits pagingPagesz = 8 := by decide
  have value : (BitVec.ofInt 32 addr).toNat = (addr % 2 ^ 32).toNat := BitVec.toNat_ofInt ..
  have shifted : (getval (BitVec.ofInt 32 addr) pagingPgnMask 8).toNat =
      (BitVec.ofInt 32 addr).toNat / 2 ^ 8 % 2 ^ 14 := by
    have cleared : (BitVec.ofNat 32 (2 ^ 14 - 1) <<< 8) >>> 8 = BitVec.ofNat 32 (2 ^ 14 - 1) := by
      decide
    rw [getval, mask, BitVec.ushiftRight_and_distrib, cleared, BitVec.toNat_and,
      BitVec.toNat_ushiftRight, show (BitVec.ofNat 32 (2 ^ 14 - 1)).toNat = 2 ^ 14 - 1 by decide,
      Nat.and_two_pow_sub_one_eq_mod, Nat.shiftRight_eq_div_pow]
  rw [pagingPgn, bits, shifted, value]
  omega

/-- Every address has its page inside of the table. -/
theorem pagingPgn_lt (addr : Int) : pagingPgn addr < pagingMaxPgn := by
  have := pagingPgn_eq addr
  have bound : pagingMaxPgn = 16384 := by decide
  omega

/-- The page offset of an address is its bits 0 to 7. -/
theorem pagingOffst_eq (addr : Int) : pagingOffst addr = addr % 256 := by
  have mask : pagingOffstMask = BitVec.ofNat 32 (2 ^ 8 - 1) := by decide
  have value : (BitVec.ofInt 32 addr).toNat = (addr % 2 ^ 32).toNat := BitVec.toNat_ofInt ..
  rw [pagingOffst, getval, mask, BitVec.ushiftRight_zero, BitVec.toNat_and, value,
    show (BitVec.ofNat 32 (2 ^ 8 - 1)).toNat = 2 ^ 8 - 1 by decide, Nat.and_two_pow_sub_one_eq_mod]
  omega

end PagedOs
