import Mathlib.Logic.Function.Basic
import PagedOs.Memory.Word

/-! # Memory devices

A device of `mm-memphy.c`: its storage, a flag that tells random access from
sequential access, and the lists of free and of used frames. The storage is a
function on addresses; an address outside `0 .. maxsz - 1` is a cell the device
does not have. A local variable that C leaves uninitialised is an argument of the
function that declares it.
-/

namespace PagedOs

/-- `struct memphy_struct`. The device has the cells `0 .. maxsz - 1`, those of `malloc(maxsz)`.
Here every other address is a cell of its own too, which the code reads and writes without a check,
where in C it is memory of somebody else: what is claimed of such an access asks that it stays
inside. -/
structure Memphy where
  storage : Int → Byte
  maxsz : Int
  rdmflg : Bool
  cursor : Int
  freeFpList : List Int
  usedFpList : List Int

namespace Memphy

/-- The loop of `MEMPHY_mv_csr`, which moves the cursor cell by cell. -/
def mvCsrLoop (maxsz : Int) : (steps : Nat) → (cursor : Int) → Int
  | 0, cursor => cursor
  | steps + 1, cursor => mvCsrLoop maxsz steps ((cursor + 1).tmod maxsz)

/-- `MEMPHY_mv_csr`: the cursor goes back to 0 and on to the offset. -/
def memphyMvCsr (mp : Memphy) (offset : Int) : Memphy :=
  { mp with cursor := mvCsrLoop mp.maxsz (min offset mp.maxsz).toNat 0 }

/-- `MEMPHY_seq_read`; `value` is what the caller's variable holds on entry. -/
def memphySeqRead (mp : Memphy) (addr : Int) (value : Byte) : Int × Byte × Memphy :=
  if !mp.rdmflg then (-1, value, mp)
  else
    let mp := mp.memphyMvCsr addr
    (0, mp.storage addr, mp)

/-- `MEMPHY_read`, which leaves a sequential device to `MEMPHY_seq_read`. -/
def memphyRead (mp : Memphy) (addr : Int) (value : Byte) : Int × Byte × Memphy :=
  if mp.rdmflg then (0, mp.storage addr, mp) else mp.memphySeqRead addr value

/-- `MEMPHY_seq_write`, which tests the flag the wrong way round, too. -/
def memphySeqWrite (mp : Memphy) (addr : Int) (value : Byte) : Int × Memphy :=
  if !mp.rdmflg then (-1, mp)
  else
    let mp := mp.memphyMvCsr addr
    (0, { mp with storage := Function.update mp.storage addr value })

/-- `MEMPHY_write`, which leaves a sequential device to `MEMPHY_seq_write`. -/
def memphyWrite (mp : Memphy) (addr : Int) (data : Byte) : Int × Memphy :=
  if mp.rdmflg then (0, { mp with storage := Function.update mp.storage addr data })
  else mp.memphySeqWrite addr data

/-- `MEMPHY_format`. The first node is linked to the second by the loop, so with a
single frame its link keeps the heap memory it was allocated from; `uninit` is the
list that memory links to. With no frame at all the list head is not assigned. -/
def memphyFormat (mp : Memphy) (pagesz : Int) (uninit : List Int) : Int × Memphy :=
  let numfp := mp.maxsz.tdiv pagesz
  if numfp ≤ 0 then (-1, mp)
  else if numfp = 1 then (0, { mp with freeFpList := 0 :: uninit })
  else (0, { mp with freeFpList := (List.range numfp.toNat).map Int.ofNat })

/-- `MEMPHY_get_freefp`; `retfpn` is what the caller's variable holds on entry. -/
def memphyGetFreefp (mp : Memphy) (retfpn : Int) : Int × Int × Memphy :=
  match mp.freeFpList with
  | [] => (-1, retfpn, mp)
  | fpn :: rest => (0, fpn, { mp with freeFpList := rest })

/-- `MEMPHY_put_freefp`: the frame is put in front of the free list. -/
def memphyPutFreefp (mp : Memphy) (fpn : Int) : Memphy :=
  { mp with freeFpList := fpn :: mp.freeFpList }

/-- `MEMPHY_put_usedfp`: the frame is put in front of the used list. -/
def memphyPutUsedfp (mp : Memphy) (fpn : Int) : Memphy :=
  { mp with usedFpList := fpn :: mp.usedFpList }

/-- `init_memphy` on a structure with arbitrary contents, `storage` being the
memory allocated for the cells. -/
def initMemphy (mp : Memphy) (storage : Int → Byte) (maxSize : Int) (randomflg : Bool)
    (uninit : List Int) : Memphy :=
  let mp := { mp with storage := storage, maxsz := maxSize, usedFpList := [] }
  let mp := (mp.memphyFormat pagingPagesz uninit).2
  { mp with rdmflg := randomflg, cursor := if randomflg then mp.cursor else 0 }

/-- A device structure in zero-filled memory, before `init_memphy`. -/
def zeroed : Memphy where
  storage := fun _ => 0
  maxsz := 0
  rdmflg := false
  cursor := 0
  freeFpList := []
  usedFpList := []

/-- `__swap_cp_page`; `data` is what the variable of that name holds before each
read. The frame numbers are not checked, and the addresses are not bounded here, where an `int`
overflows from frame `2 ^ 23` on. -/
def swapCpPage (data : Nat → Byte) (mpsrc : Memphy) (srcfpn : Int) (mpdst : Memphy)
    (dstfpn : Int) : Memphy × Memphy :=
  (List.range pagingPagesz).foldl (fun (devices : Memphy × Memphy) (cellidx : Nat) =>
    let addrsrc := srcfpn * pagingPagesz + cellidx
    let addrdst := dstfpn * pagingPagesz + cellidx
    let (_, value, mpsrc) := devices.1.memphyRead addrsrc (data cellidx)
    let (_, mpdst) := devices.2.memphyWrite addrdst value
    (mpsrc, mpdst)) (mpsrc, mpdst)

/-! ## What a copy does -/

/-- The bytes of a frame, by their offset in it. -/
def page (mp : Memphy) (fpn : Int) (offset : Fin 256) : Byte := mp.storage (fpn * 256 + offset)

/-- Two devices with the same frames; the cells and the cursor may differ. -/
structure SameFrames (mp other : Memphy) : Prop where
  maxsz : other.maxsz = mp.maxsz
  rdmflg : other.rdmflg = mp.rdmflg
  free : other.freeFpList = mp.freeFpList
  used : other.usedFpList = mp.usedFpList

theorem SameFrames.refl (mp : Memphy) : SameFrames mp mp := ⟨rfl, rfl, rfl, rfl⟩

theorem SameFrames.trans {first second third : Memphy} (left : SameFrames first second)
    (right : SameFrames second third) : SameFrames first third :=
  ⟨right.maxsz.trans left.maxsz, right.rdmflg.trans left.rdmflg, right.free.trans left.free,
    right.used.trans left.used⟩

/-- `MEMPHY_get_freefp` leaves the tail of the free list, whether a frame was there or not. -/
theorem memphyGetFreefp_free (mp : Memphy) (retfpn : Int) :
    (mp.memphyGetFreefp retfpn).2.2.freeFpList = mp.freeFpList.tail := by
  unfold memphyGetFreefp
  split
  · rename_i none
    rw [none, List.tail_nil]
  · rename_i fpn rest found
    rw [found, List.tail_cons]

/-- A read from a random access device returns the cell and moves nothing. -/
theorem memphyRead_random {mp : Memphy} (random : mp.rdmflg = true) (addr : Int) (value : Byte) :
    mp.memphyRead addr value = (0, mp.storage addr, mp) := by
  simp only [memphyRead, random, ↓reduceIte]

/-- A device that is not random access is never moved either: `MEMPHY_seq_read`
tests the flag the wrong way round. -/
@[simp] theorem memphyRead_device (mp : Memphy) (addr : Int) (value : Byte) :
    (mp.memphyRead addr value).2.2 = mp := by
  cases access : mp.rdmflg <;> simp [memphyRead, memphySeqRead, access]

/-- A write to a random access device sets the cell and nothing else. -/
theorem memphyWrite_random {mp : Memphy} (random : mp.rdmflg = true) (addr : Int) (data : Byte) :
    mp.memphyWrite addr data =
      (0, { mp with storage := Function.update mp.storage addr data }) := by
  simp only [memphyWrite, random, ↓reduceIte]

/-- A write keeps the frames of a device, also of a sequential one, where it stores nothing. -/
theorem memphyWrite_sameFrames (mp : Memphy) (addr : Int) (data : Byte) :
    SameFrames mp (mp.memphyWrite addr data).2 := by
  unfold memphyWrite memphySeqWrite
  split
  · exact ⟨rfl, rfl, rfl, rfl⟩
  · rename_i sequential
    simp only [sequential, Bool.not_false, ↓reduceIte]
    exact .refl mp

/-- One round of `__swap_cp_page`, as a change of the destination alone. -/
private def copyCell (data : Nat → Byte) (mpsrc : Memphy) (srcfpn dstfpn : Int) (mpdst : Memphy)
    (cellidx : Nat) : Memphy :=
  (mpdst.memphyWrite (dstfpn * pagingPagesz + cellidx)
    (mpsrc.memphyRead (srcfpn * pagingPagesz + cellidx) (data cellidx)).2.1).2

/-- The copy of a page is a loop over its cells; the source stays as it is. -/
private theorem swapCpPage_eq (data : Nat → Byte) (mpsrc : Memphy) (srcfpn : Int) (mpdst : Memphy)
    (dstfpn : Int) :
    mpsrc.swapCpPage data srcfpn mpdst dstfpn =
      (mpsrc, (List.range pagingPagesz).foldl (copyCell data mpsrc srcfpn dstfpn) mpdst) := by
  unfold swapCpPage
  generalize List.range pagingPagesz = cells
  induction cells generalizing mpdst with
  | nil => rfl
  | cons cellidx cells ih =>
      rw [List.foldl_cons, List.foldl_cons, ← ih, copyCell]
      simp only [memphyRead_device]

/-- What a copy between random-access devices writes, cell after cell. -/
theorem swapCpPage_fold (data : Nat → Byte) {mpsrc : Memphy} (readable : mpsrc.rdmflg = true)
    (srcfpn : Int) (mpdst : Memphy) (dstfpn : Int) :
    (mpsrc.swapCpPage data srcfpn mpdst dstfpn).2 =
      (List.range pagingPagesz).foldl (fun mp cellidx =>
        (mp.memphyWrite (dstfpn * pagingPagesz + (cellidx : Nat))
          (mpsrc.storage (srcfpn * pagingPagesz + cellidx))).2) mpdst := by
  have cell : copyCell data mpsrc srcfpn dstfpn = fun mp (cellidx : Nat) =>
      (mp.memphyWrite (dstfpn * pagingPagesz + cellidx)
        (mpsrc.storage (srcfpn * pagingPagesz + cellidx))).2 := by
    funext mp cellidx
    rw [copyCell, memphyRead_random readable]
  rw [swapCpPage_eq, cell]

/-- The source of a copy is not changed. -/
@[simp] theorem swapCpPage_source (data : Nat → Byte) (mpsrc : Memphy) (srcfpn : Int)
    (mpdst : Memphy) (dstfpn : Int) : (mpsrc.swapCpPage data srcfpn mpdst dstfpn).1 = mpsrc := by
  rw [swapCpPage_eq]

/-- The copy of a page keeps the frames of the device that it goes to. -/
theorem swapCpPage_sameFrames (data : Nat → Byte) (mpsrc : Memphy) (srcfpn : Int)
    (mpdst : Memphy) (dstfpn : Int) :
    SameFrames mpdst (mpsrc.swapCpPage data srcfpn mpdst dstfpn).2 := by
  rw [swapCpPage_eq]
  generalize List.range pagingPagesz = cells
  induction cells generalizing mpdst with
  | nil => exact .refl mpdst
  | cons cellidx cells ih => exact (memphyWrite_sameFrames ..).trans (ih _)

/-- After the cells below `count` were copied, exactly these hold the source's bytes. -/
private theorem copyCells_storage (data : Nat → Byte) {mpsrc mpdst : Memphy}
    (readable : mpsrc.rdmflg = true) (writable : mpdst.rdmflg = true) (srcfpn dstfpn : Int)
    (count : Nat) (addr : Int) :
    ((List.range count).foldl (copyCell data mpsrc srcfpn dstfpn) mpdst).storage addr =
      if dstfpn * 256 ≤ addr ∧ addr < dstfpn * 256 + count then
        mpsrc.storage (srcfpn * 256 + (addr - dstfpn * 256))
      else mpdst.storage addr := by
  induction count with
  | zero =>
      have outside : ¬ (dstfpn * 256 ≤ addr ∧ addr < dstfpn * 256 + (0 : Nat)) := by omega
      simp only [List.range_zero, List.foldl_nil, outside, ↓reduceIte]
  | succ count ih =>
      have random : ((List.range count).foldl (copyCell data mpsrc srcfpn dstfpn)
          mpdst).rdmflg = true := by
        generalize List.range count = cells
        clear ih
        induction cells generalizing mpdst with
        | nil => exact writable
        | cons cellidx cells ih =>
            exact ih ((memphyWrite_sameFrames ..).rdmflg.trans writable)
      rw [List.range_succ, List.foldl_append, List.foldl_cons, List.foldl_nil, copyCell,
        memphyWrite_random random, memphyRead_random readable]
      simp only [pagingPagesz, Nat.cast_ofNat]
      by_cases last : addr = dstfpn * 256 + count
      · subst last
        rw [Function.update_self, if_pos (by omega)]
        congr 1
        omega
      · rw [Function.update_of_ne last, ih]
        congr 1
        simp only [eq_iff_iff]
        omega

/-- **What a page copy between random-access devices does.** The destination frame
holds the bytes of the source frame, and every other cell is as it was. -/
theorem swapCpPage_storage (data : Nat → Byte) {mpsrc mpdst : Memphy}
    (readable : mpsrc.rdmflg = true) (writable : mpdst.rdmflg = true) (srcfpn dstfpn addr : Int) :
    (mpsrc.swapCpPage data srcfpn mpdst dstfpn).2.storage addr =
      if dstfpn * 256 ≤ addr ∧ addr < dstfpn * 256 + 256 then
        mpsrc.storage (srcfpn * 256 + (addr - dstfpn * 256))
      else mpdst.storage addr := by
  have cells : ((pagingPagesz : Nat) : Int) = 256 := rfl
  rw [swapCpPage_eq, copyCells_storage data readable writable, cells]

/-- Behind the copy the frame that it went to holds the page of the source. -/
theorem swapCpPage_page (data : Nat → Byte) {mpsrc mpdst : Memphy}
    (readable : mpsrc.rdmflg = true) (writable : mpdst.rdmflg = true) (srcfpn dstfpn : Int) :
    (mpsrc.swapCpPage data srcfpn mpdst dstfpn).2.page dstfpn = mpsrc.page srcfpn := by
  funext offset
  rw [page, swapCpPage_storage data readable writable, if_pos (by omega), page]
  congr 1
  omega

/-- Every other frame of that device holds what it held before. -/
theorem swapCpPage_page_of_ne (data : Nat → Byte) {mpsrc mpdst : Memphy}
    (readable : mpsrc.rdmflg = true) (writable : mpdst.rdmflg = true) (srcfpn : Int)
    {dstfpn fpn : Int} (other : fpn ≠ dstfpn) :
    (mpsrc.swapCpPage data srcfpn mpdst dstfpn).2.page fpn = mpdst.page fpn := by
  funext offset
  rw [page, swapCpPage_storage data readable writable, if_neg (by omega), page]

/-- The frames of a device that are free name frames it has, each of them once. -/
structure Formatted (mp : Memphy) : Prop where
  nodup : mp.freeFpList.Nodup
  inside : ∀ fpn ∈ mp.freeFpList, 0 ≤ fpn ∧ fpn < mp.maxsz / 256

/-- C division rounds to zero, which matters for a negative size only. -/
theorem numfp_le_zero_iff {maxSize : Int} : maxSize.tdiv 256 ≤ 0 ↔ maxSize < 256 := by
  rcases Int.lt_or_le maxSize 0 with negative | nonneg
  · have mirrored : (-maxSize).tdiv 256 = -maxSize.tdiv 256 := Int.neg_tdiv maxSize 256
    have := Int.tdiv_nonneg (show 0 ≤ -maxSize by omega) (by decide : (0 : Int) ≤ 256)
    omega
  · rw [Int.tdiv_eq_ediv_of_nonneg nonneg]
    omega

theorem numfp_eq {maxSize : Int} (some : 256 ≤ maxSize) : maxSize.tdiv 256 = maxSize / 256 :=
  Int.tdiv_eq_ediv_of_nonneg (by omega)

/-- The frames of a device of a size. -/
def frames (maxSize : Int) : List Int := (List.range (maxSize / 256).toNat).map Int.ofNat

/-- The frames of a device are numbered from 0 and lie inside of its size as a whole. -/
theorem mem_frames {maxSize fpn : Int} : fpn ∈ frames maxSize ↔ 0 ≤ fpn ∧ fpn < maxSize / 256 := by
  simp only [frames, List.mem_map, List.mem_range, Int.ofNat_eq_natCast]
  constructor
  · rintro ⟨index, below, rfl⟩
    omega
  · rintro ⟨nonneg, below⟩
    exact ⟨fpn.toNat, by omega, Int.toNat_of_nonneg nonneg⟩

theorem nodup_frames (maxSize : Int) : (frames maxSize).Nodup :=
  List.nodup_range.map fun _ _ same => Int.ofNat_inj.mp same

/-- There are no more free frames than the device has. -/
theorem Formatted.length_le {mp : Memphy} (formatted : mp.Formatted) (nonneg : 0 ≤ mp.maxsz) :
    (mp.freeFpList.length : Int) * 256 ≤ mp.maxsz := by
  have inside := List.subperm_of_subset formatted.nodup fun fpn free =>
    mem_frames.mpr (formatted.inside fpn free)
  have count := inside.length_le
  rw [frames, List.length_map, List.length_range] at count
  omega

/-- A device smaller than a frame has none. -/
theorem frames_small {maxSize : Int} (small : maxSize < 256) : frames maxSize = [] := by
  rw [frames, show (maxSize / 256).toNat = 0 by omega, List.range_zero, List.map_nil]

/-- What a free list holds behind the frames of the device because `MEMPHY_format` does not
write its end: the list itself without a frame, and what the link of a single node leads to. -/
def unset (mp : Memphy) (maxSize : Int) (uninit : List Int) : List Int :=
  if maxSize < 256 then mp.freeFpList else if maxSize < 512 then uninit else []

theorem memphyFormat_freeFpList (mp : Memphy) (uninit : List Int) :
    (mp.memphyFormat 256 uninit).2.freeFpList = frames mp.maxsz ++ mp.unset mp.maxsz uninit := by
  unfold memphyFormat unset
  by_cases none : mp.maxsz < 256
  · rw [if_pos (numfp_le_zero_iff.mpr none), if_pos none, frames_small none, List.nil_append]
  · have quotient := numfp_eq (Int.not_lt.mp none)
    rw [if_neg (fun zero => none (numfp_le_zero_iff.mp zero)), if_neg none]
    by_cases single : mp.maxsz < 512
    · have one : mp.maxsz / 256 = 1 := by omega
      rw [if_pos (quotient.trans one), if_pos single, frames, one]
      rfl
    · rw [if_neg (by omega), if_neg single, frames, List.append_nil, ← quotient]

/-- A device as `init_memphy` leaves it lists the frames of its size in the same way. -/
theorem initMemphy_freeFpList (mp : Memphy) (storage : Int → Byte) (maxSize : Int)
    (randomflg : Bool) (uninit : List Int) :
    (mp.initMemphy storage maxSize randomflg uninit).freeFpList =
      frames maxSize ++ mp.unset maxSize uninit :=
  memphyFormat_freeFpList { mp with storage := storage, maxsz := maxSize, usedFpList := [] } uninit

/-- In zero-filled memory the frames of the device are free, and nothing else. -/
theorem initMemphy_zeroed (storage : Int → Byte) (maxSize : Int) (randomflg : Bool) :
    (zeroed.initMemphy storage maxSize randomflg []).freeFpList = frames maxSize := by
  have nothing : zeroed.unset maxSize [] = [] := by
    unfold unset zeroed
    split_ifs <;> rfl
  rw [initMemphy_freeFpList, nothing, List.append_nil]

theorem initMemphy_size (mp : Memphy) (storage : Int → Byte) (maxSize : Int) (randomflg : Bool)
    (uninit : List Int) : (mp.initMemphy storage maxSize randomflg uninit).maxsz = maxSize := by
  simp only [initMemphy, memphyFormat]
  split_ifs <;> rfl

theorem initMemphy_formatted (storage : Int → Byte) (maxSize : Int) (randomflg : Bool) :
    Formatted (zeroed.initMemphy storage maxSize randomflg []) := by
  constructor
  · rw [initMemphy_zeroed]
    exact nodup_frames maxSize
  · rw [initMemphy_zeroed, initMemphy_size]
    exact fun fpn member => mem_frames.mp member

theorem initMemphy_free (storage : Int → Byte) (maxSize : Int) (randomflg : Bool) {fpn : Int}
    (inside : 0 ≤ fpn ∧ fpn < maxSize / 256) :
    fpn ∈ (zeroed.initMemphy storage maxSize randomflg []).freeFpList := by
  rw [initMemphy_zeroed]
  exact mem_frames.mpr inside

end Memphy

end PagedOs
