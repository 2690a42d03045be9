import PagedOs.Library.Ledger
import PagedOs.Library.Transition
import PagedOs.Memory.Growth

/-! # Exclusive frames

The page tables of all processes and the free lists of the two devices, seen as
ledgers of frames: a page owns the frame its entry names. Mapping a page grants it
a free frame, and a fault moves the frame of the victim to the page that faulted.
-/

namespace PagedOs

open Transition

variable {ι : Type*}

/-- The RAM frame that an entry names, if the entry is PRESENT. -/
def ramFrame (pte : Pte) : Option Int :=
  if pagingPagePresent pte then some (pagingFpn pte) else none

/-- The swap frame that an entry names, if the entry is SWAPPED and not PRESENT. -/
def swapFrame (pte : Pte) : Option Int :=
  if pagingPagePresent pte = false ∧ pagingPageSwapped pte = true then some (pagingSwp pte)
  else none

/-- A page of a process, with the process that it belongs to. -/
abbrev PageId (ι : Type*) := ι × Fin pagingMaxPgn

/-- The frames the pages of all processes own. -/
def owners (frame : Pte → Option Int) (mm : ι → MmStruct) : PageId ι → Option Int :=
  fun page => frame ((mm page.1).pgd page.2)

/-- The frames a device has: those that lie below its size as a whole. -/
def Memphy.Inside (mp : Memphy) (fpn : Int) : Prop := 0 ≤ fpn ∧ fpn < mp.maxsz / 256

/-- An entry owns the RAM frame of its `FPN` bits exactly when it is PRESENT. -/
theorem ramFrame_eq_some {pte : Pte} {fpn : Int} :
    ramFrame pte = some fpn ↔ pagingPagePresent pte = true ∧ pagingFpn pte = fpn := by
  unfold ramFrame
  split <;> simp_all

/-- `pte_set_fpn` makes the entry own the frame it is given, when the number fits the 13 bits. -/
theorem ramFrame_pteSetFpn (pte : Pte) {fpn : Int} (nonneg : 0 ≤ fpn) (small : fpn < 2 ^ 13) :
    ramFrame (pteSetFpn pte fpn) = some fpn :=
  ramFrame_eq_some.mpr ⟨pagingPagePresent_pteSetFpn pte fpn, pagingFpn_pteSetFpn pte nonneg small⟩

@[simp] theorem ramFrame_pteSetSwap (pte : Pte) (swptyp swpoff : Int) :
    ramFrame (pteSetSwap pte swptyp swpoff) = none := by
  simp [ramFrame]

/-- An entry owns the swap frame of its offset bits exactly when it is SWAPPED and not PRESENT. -/
theorem swapFrame_eq_some {pte : Pte} {fpn : Int} :
    swapFrame pte = some fpn ↔
      (pagingPagePresent pte = false ∧ pagingPageSwapped pte = true) ∧ pagingSwp pte = fpn := by
  unfold swapFrame
  split <;> simp_all

/-- `pte_set_swap` makes the entry own the swap frame it is given, when the number fits the 21
bits. -/
theorem swapFrame_pteSetSwap (pte : Pte) (swptyp : Int) {swpoff : Int} (nonneg : 0 ≤ swpoff)
    (small : swpoff < 2 ^ 21) : swapFrame (pteSetSwap pte swptyp swpoff) = some swpoff :=
  swapFrame_eq_some.mpr ⟨⟨pagingPagePresent_pteSetSwap .., pagingPageSwapped_pteSetSwap ..⟩,
    pagingSwp_pteSetSwap pte swptyp nonneg small⟩

@[simp] theorem swapFrame_pteSetFpn (pte : Pte) (fpn : Int) :
    swapFrame (pteSetFpn pte fpn) = none := by
  simp [swapFrame]

/-- Taking frames off a device leaves a part of its free list, in the old order. -/
theorem Memphy.taken_sublist (mp : Memphy) (count : Nat) :
    (mp.taken count).freeFpList.Sublist mp.freeFpList := List.drop_sublist count mp.freeFpList

/-- The free list before frames were taken is those frames and the rest. -/
theorem Memphy.taken_perm (mp : Memphy) (count : Nat) :
    mp.freeFpList.Perm ((mp.freeFpList.take count).reverse ++ (mp.taken count).freeFpList) := by
  have split : mp.freeFpList = mp.freeFpList.take count ++ (mp.taken count).freeFpList :=
    (List.take_append_drop ..).symm
  exact (List.Perm.of_eq split).trans ((List.reverse_perm _).symm.append_right _)

section Tables

variable [DecidableEq ι] {frame : Pte → Option Int} {mm : ι → MmStruct} {P : ι} {m : MmStruct}

/-- Only page tables matter for who owns what. -/
theorem owners_congr {m' : MmStruct} (same : m'.pgd = m.pgd) :
    owners frame (Function.update mm P m') = owners frame (Function.update mm P m) := by
  funext page
  by_cases self : page.1 = P
  · simp only [owners, self, Function.update_self, same]
  · simp only [owners, Function.update_of_ne self]

/-- A new entry changes what its page owns. -/
theorem owners_setPte {pgn : Nat} (inside : pgn < pagingMaxPgn) (pte : Pte) :
    owners frame (Function.update mm P (m.setPte pgn pte)) =
      Function.update (owners frame (Function.update mm P m)) (P, ⟨pgn, inside⟩) (frame pte) := by
  funext page
  by_cases self : page.1 = P
  · by_cases here : (page.2 : Nat) = pgn
    · have same : page = (P, ⟨pgn, inside⟩) := Prod.ext self (Fin.ext here)
      subst same
      simp only [owners, Function.update_self, MmStruct.setPte_pgd_self]
    · have other : page ≠ (P, ⟨pgn, inside⟩) := fun same =>
        here (congrArg (fun page => (page.2 : Nat)) same)
      rw [Function.update_of_ne other]
      simp only [owners, self, Function.update_self, MmStruct.setPte_pgd_of_ne here]
  · have other : page ≠ (P, ⟨pgn, inside⟩) := fun same => self (congrArg Prod.fst same)
    rw [Function.update_of_ne other]
    simp only [owners, Function.update_of_ne self]

variable {valid : Int → Prop} {setEntry : Pte → Int → Pte}

/-- Mapping a range of pages grants them the frames. -/
theorem mapFrames_grants {frames free : List Int}
    (enters : ∀ fpn ∈ frames, ∀ pte, frame (setEntry pte fpn) = some fpn) {pgn : Nat}
    (inside : pgn + frames.length ≤ pagingMaxPgn)
    (ledger : Ledger valid (owners frame (Function.update mm P m)) (frames ++ free)) :
    Ledger valid (owners frame (Function.update mm P (m.mapFrames setEntry pgn frames))) free := by
  induction frames generalizing m pgn with
  | nil => exact ledger
  | cons fpn frames ih =>
      rw [List.length_cons] at inside
      have here : pgn < pagingMaxPgn := by omega
      apply ih (fun other member => enters other (List.mem_cons_of_mem _ member)) (by omega)
      rw [owners_congr (MmStruct.enlistPgnNode_pgd _), owners_setPte here,
        enters fpn List.mem_cons_self]
      exact ledger.grant _

/-- Mapping a range of pages takes from them what they own of the other device. -/
theorem mapFrames_revokes (clears : ∀ pte fpn, frame (setEntry pte fpn) = none)
    {frames free : List Int} {pgn : Nat} (inside : pgn + frames.length ≤ pagingMaxPgn)
    (ledger : Ledger valid (owners frame (Function.update mm P m)) free) :
    Ledger valid (owners frame (Function.update mm P (m.mapFrames setEntry pgn frames))) free := by
  induction frames generalizing m pgn with
  | nil => exact ledger
  | cons fpn frames ih =>
      rw [List.length_cons] at inside
      have here : pgn < pagingMaxPgn := by omega
      apply ih (by omega)
      rw [owners_congr (MmStruct.enlistPgnNode_pgd _), owners_setPte here, clears]
      exact ledger.revoke _

/-- After a growth the RAM frames taken belong to the pages of the range. -/
theorem vmapPageRange_ram {frames frmLstSwap free : List Int} {addr : Int}
    (inside : pagingPgn addr + (frames.length + frmLstSwap.length) ≤ pagingMaxPgn)
    (entries : ∀ fpn ∈ frames, 0 ≤ fpn ∧ fpn < 2 ^ 13)
    (ledger : Ledger valid (owners ramFrame (Function.update mm P m)) (frames ++ free)) :
    Ledger valid (owners ramFrame (Function.update mm P (m.vmapPageRange addr frames frmLstSwap)))
      free := by
  apply mapFrames_revokes (fun pte fpn => ramFrame_pteSetSwap pte 0 fpn) (by omega)
  exact mapFrames_grants (fun fpn member pte => ramFrame_pteSetFpn pte (entries fpn member).1
    (entries fpn member).2) (by omega) ledger

/-- After a growth the swap frames taken belong to the pages of the range. -/
theorem vmapPageRange_swap {frames frmLstSwap free : List Int} {addr : Int}
    (inside : pagingPgn addr + (frames.length + frmLstSwap.length) ≤ pagingMaxPgn)
    (entries : ∀ fpn ∈ frmLstSwap, 0 ≤ fpn ∧ fpn < 2 ^ 21)
    (ledger : Ledger valid (owners swapFrame (Function.update mm P m)) (frmLstSwap ++ free)) :
    Ledger valid (owners swapFrame (Function.update mm P (m.vmapPageRange addr frames frmLstSwap)))
      free := by
  refine mapFrames_grants (fun fpn member pte => swapFrame_pteSetSwap pte 0
    (entries fpn member).1 (entries fpn member).2) (by omega) ?_
  exact mapFrames_revokes (fun pte fpn => swapFrame_pteSetFpn pte fpn) (by omega) ledger

/-- A fault moves the RAM frame of the victim to the page that faulted. -/
theorem exchanged_ram {pgn vicpgn : Nat} {free : List Int} (swpfpn : Int)
    (inside : pgn < pagingMaxPgn) (vicInside : vicpgn < pagingMaxPgn)
    (present : pagingPagePresent (m.pgd vicpgn) = true)
    (ledger : Ledger valid (owners ramFrame (Function.update mm P m)) free) :
    Ledger valid (owners ramFrame (Function.update mm P (m.exchanged pgn vicpgn swpfpn))) free := by
  have held : owners ramFrame (Function.update mm P m) (P, ⟨vicpgn, vicInside⟩) =
      some (pagingFpn (m.pgd vicpgn)) := by
    simp only [owners, Function.update_self]
    exact ramFrame_eq_some.mpr ⟨present, rfl⟩
  have moved := ledger.transfer held (P, ⟨pgn, inside⟩)
  rw [MmStruct.exchanged, owners_congr (MmStruct.enlistPgnNode_pgd _), owners_setPte inside,
    owners_setPte vicInside, ramFrame_pteSetSwap,
    ramFrame_pteSetFpn _ (pagingFpn_nonneg _) (pagingFpn_lt _)]
  exact moved

/-- A fault gives the victim a swap frame and takes from the page that faulted its own. -/
theorem exchanged_swapOwners {pgn vicpgn : Nat} {swpfpn : Int} (inside : pgn < pagingMaxPgn)
    (vicInside : vicpgn < pagingMaxPgn) (nonneg : 0 ≤ swpfpn) (small : swpfpn < 2 ^ 21) :
    owners swapFrame (Function.update mm P (m.exchanged pgn vicpgn swpfpn)) =
      Function.update (Function.update (owners swapFrame (Function.update mm P m))
        (P, ⟨vicpgn, vicInside⟩) (some swpfpn)) (P, ⟨pgn, inside⟩) none := by
  rw [MmStruct.exchanged, owners_congr (MmStruct.enlistPgnNode_pgd _), owners_setPte inside,
    owners_setPte vicInside, swapFrame_pteSetFpn, swapFrame_pteSetSwap _ _ nonneg small]

/-- The frame taken from the page is not given back. -/
theorem exchanged_swap {pgn vicpgn : Nat} {swpfpn : Int} {free : List Int}
    (inside : pgn < pagingMaxPgn) (vicInside : vicpgn < pagingMaxPgn)
    (nonneg : 0 ≤ swpfpn) (small : swpfpn < 2 ^ 21)
    (ledger : Ledger valid (owners swapFrame (Function.update mm P m)) (swpfpn :: free)) :
    Ledger valid (owners swapFrame (Function.update mm P (m.exchanged pgn vicpgn swpfpn)))
      free := by
  rw [exchanged_swapOwners inside vicInside nonneg small]
  exact (ledger.grant _).revoke _

section Growth

variable {c : Caller} {originSize : Int}

/-- What `inc_vma_limit` takes from RAM belongs to the pages it maps, or to nobody if it
fails. -/
theorem incVmaLimit_ram (low : c.mm.mmap.vmEnd.toNat < 2 ^ 22)
    (high : (c.incVmaLimit originSize).2.mm.mmap.vmEnd.toNat < 2 ^ 22)
    (fits : ∀ fpn ∈ c.mram.freeFpList.take (c.incnumpage originSize), 0 ≤ fpn ∧ fpn < 2 ^ 13)
    (ledger : Ledger valid (owners ramFrame (Function.update mm P c.mm)) c.mram.freeFpList) :
    Ledger valid (owners ramFrame (Function.update mm P (c.incVmaLimit originSize).2.mm))
      (c.incVmaLimit originSize).2.mram.freeFpList := by
  rcases c.incVmaLimit_cases originSize with ⟨-, result⟩ | ⟨-, -, result⟩ | ⟨-, -, result⟩
  · simp only [result]
    rw [owners_congr (c.moveSbrk_pgd originSize)]
    exact ledger
  · simp only [result]
    rw [owners_congr (c.grown_pgd originSize)]
    exact ledger.drop (c.mram.taken_sublist _)
  · simp only [result] at high ⊢
    rw [(MmStruct.vmapPageRange_sameRegions ..).mmap, Caller.grown_vmEnd] at high
    have pages := c.pages_lt originSize low high
    have count := c.taken_le originSize
    apply vmapPageRange_ram (by omega) (fun fpn member => fits fpn (List.mem_reverse.mp member))
    rw [owners_congr (c.grown_pgd originSize)]
    exact ledger.perm (c.mram.taken_perm _)

/-- What it takes from swap belongs to the pages it maps, too. -/
theorem incVmaLimit_swap (low : c.mm.mmap.vmEnd.toNat < 2 ^ 22)
    (high : (c.incVmaLimit originSize).2.mm.mmap.vmEnd.toNat < 2 ^ 22)
    (fits : ∀ fpn ∈ c.activeMswp.freeFpList.take (c.swappage originSize), 0 ≤ fpn ∧ fpn < 2 ^ 21)
    (ledger : Ledger valid (owners swapFrame (Function.update mm P c.mm))
      c.activeMswp.freeFpList) :
    Ledger valid (owners swapFrame (Function.update mm P (c.incVmaLimit originSize).2.mm))
      (c.incVmaLimit originSize).2.activeMswp.freeFpList := by
  rcases c.incVmaLimit_cases originSize with ⟨-, result⟩ | ⟨-, -, result⟩ | ⟨-, -, result⟩
  · simp only [result]
    rw [owners_congr (c.moveSbrk_pgd originSize)]
    exact ledger
  · simp only [result]
    rw [owners_congr (c.grown_pgd originSize)]
    exact ledger.drop (c.activeMswp.taken_sublist _)
  · simp only [result] at high ⊢
    rw [(MmStruct.vmapPageRange_sameRegions ..).mmap, Caller.grown_vmEnd] at high
    have pages := c.pages_lt originSize low high
    have count := c.taken_le originSize
    refine vmapPageRange_swap (by omega)
      (fun fpn member => fits fpn (List.mem_reverse.mp member)) ?_
    rw [owners_congr (c.grown_pgd originSize)]
    exact ledger.perm (c.activeMswp.taken_perm _)

end Growth

end Tables

namespace Caller

variable {c : Caller} {originSize : Int}

/-- The pages that `inc_vma_limit` lists are pages of the address range. -/
theorem incVmaLimit_fifoPgn (low : c.mm.mmap.vmEnd.toNat < 2 ^ 22)
    (high : (c.incVmaLimit originSize).2.mm.mmap.vmEnd.toNat < 2 ^ 22) {pgn : Nat}
    (member : pgn ∈ (c.incVmaLimit originSize).2.mm.fifoPgn) :
    pgn ∈ c.mm.fifoPgn ∨ pgn < pagingMaxPgn := by
  rcases c.incVmaLimit_cases originSize with ⟨-, result⟩ | ⟨-, -, result⟩ | ⟨-, -, result⟩
  · rw [result, moveSbrk_fifoPgn] at member
    exact .inl member
  · simp only [result, grown_fifoPgn] at member
    exact .inl member
  · simp only [result] at high member
    rw [(MmStruct.vmapPageRange_sameRegions ..).mmap, grown_vmEnd] at high
    have pages := c.pages_lt originSize low high
    have count := c.taken_le originSize
    rcases MmStruct.vmapPageRange_fifoPgn _ member with earlier | late
    · rw [grown_fifoPgn] at earlier
      exact .inl earlier
    · exact .inr (by omega)

/-- A growth takes frames from the devices and leaves what they are. -/
theorem incVmaLimit_devices (c : Caller) (originSize : Int) :
    ((c.incVmaLimit originSize).2.mram.maxsz = c.mram.maxsz ∧
      (c.incVmaLimit originSize).2.mram.rdmflg = c.mram.rdmflg) ∧
    (c.incVmaLimit originSize).2.activeMswp.maxsz = c.activeMswp.maxsz ∧
      (c.incVmaLimit originSize).2.activeMswp.rdmflg = c.activeMswp.rdmflg := by
  rcases c.incVmaLimit_cases originSize with ⟨-, result⟩ | ⟨-, -, result⟩ | ⟨-, -, result⟩
  · rw [result]
    exact ⟨⟨rfl, rfl⟩, rfl, rfl⟩
  · rw [result]
    exact ⟨⟨rfl, rfl⟩, rfl, rfl⟩
  · rw [result]
    exact ⟨⟨rfl, rfl⟩, rfl, rfl⟩

end Caller

/-! ## Runs of growths and accesses -/

/-- A call that may change which frames the pages own. -/
inductive PageCall where
  | incVmaLimit (originSize : Int)
  | pgGetval (addr : Int)
  | pgSetval (addr : Int) (value : Byte)

/-- The process after a call; `u` and `data` are what uninitialised variables hold. -/
def Caller.pageCall (c : Caller) (u : Uninit) (data : Byte) : PageCall → Caller
  | .incVmaLimit originSize => (c.incVmaLimit originSize).2
  | .pgGetval addr => (c.pgGetval u addr data).2.2
  | .pgSetval addr value => (c.pgSetval u addr value).2

namespace Sys

/-- The entry of a page, in the table of its process. -/
def pte (s : Sys ι) (page : PageId ι) : Pte := (s.mm page.1).pgd page.2

/-- The address in RAM that `pg_getval` and `pg_setval` form for a page in RAM. -/
def physical (s : Sys ι) (P : ι) (addr : Int) : Int :=
  Caller.phyaddr (pagingFpn ((s.mm P).pgd (pagingPgn addr))) (pagingOffst addr)

/-- The byte lies on a page in RAM. -/
def InRam (s : Sys ι) (P : ι) (addr : Int) : Prop :=
  pagingPagePresent ((s.mm P).pgd (pagingPgn addr)) = true

/-- Every area ends below 2^22, the size of the address range. -/
def Low (s : Sys ι) : Prop := ∀ P, (s.mm P).mmap.vmEnd.toNat < 2 ^ 22

/-- With finitely many processes the ends of their areas are compared one by one. -/
instance [Fintype ι] (s : Sys ι) : Decidable s.Low := inferInstanceAs (Decidable (∀ _, _))

variable [DecidableEq ι]

/-- The system after a process made a call. -/
def pageCall (s : Sys ι) (u : Uninit) (data : Byte) (label : ι × PageCall) : Sys ι :=
  s.put label.1 ((s.caller label.1).pageCall u data label.2)

/-- A process makes a call, after which every area still ends below 2^22. -/
def LowStep (s : Sys ι) (label : ι × PageCall) (t : Sys ι) : Prop :=
  (∃ u data, t = s.pageCall u data label) ∧ t.Low

end Sys

/-- The pages in RAM own their frames. -/
structure RamExclusive (s : Sys ι) : Prop where
  ledger : Ledger s.mram.Inside (owners ramFrame s.mm) s.mram.freeFpList
  listed : ∀ P, ∀ pgn ∈ (s.mm P).fifoPgn, pgn < pagingMaxPgn
  small : s.mram.maxsz / 256 ≤ 8192

/-- The pages, RAM and swap as a fault leaves them. -/
theorem Caller.faulted_mram (c : Caller) (u : Uninit) (pgn vicpgn : Nat) :
    Memphy.SameFrames c.mram (c.faulted u pgn vicpgn).mram := by
  simp only [faulted]
  exact Memphy.swapCpPage_sameFrames u.swapIn _ _ c.mram _

/-- A fault leaves the swap device with the frames that `MEMPHY_get_freefp` left, since the copies
and `MEMPHY_put_freefp` of the RAM do not touch its list. -/
theorem Caller.faulted_activeMswp (c : Caller) (u : Uninit) (pgn vicpgn : Nat) :
    Memphy.SameFrames (c.activeMswp.memphyGetFreefp u.swpfpn).2.2
      (c.faulted u pgn vicpgn).activeMswp := by
  simp only [faulted]
  exact Memphy.swapCpPage_sameFrames u.swapOut c.mram _ _ _

theorem Caller.pgGetpage_mram (c : Caller) (u : Uninit) (pgn : Nat) :
    Memphy.SameFrames c.mram (c.pgGetpage u pgn).2.mram := by
  rcases c.pgGetpage_cases u pgn with ⟨-, result⟩ | ⟨-, -, result⟩ | ⟨vicpgn, -, -, -, result⟩
  · rw [result]
    exact .refl _
  · rw [result]
    exact .refl _
  · rw [result]
    exact c.faulted_mram u pgn vicpgn

/-- The physical address is the frame times the page size plus the offset. -/
theorem phyaddr_eq (fpn off : Int) : Caller.phyaddr fpn off = fpn * 256 + off := by
  have bits : nbits pagingPagesz = 8 := by decide
  rw [Caller.phyaddr, bits]
  rfl

namespace RamExclusive

variable [DecidableEq ι] {s : Sys ι}

/-- The invariant after a process has run, in terms of that process. -/
theorem put (exclusive : RamExclusive s) {P : ι} {c : Caller} (size : c.mram.maxsz = s.mram.maxsz)
    (ledger : Ledger s.mram.Inside (owners ramFrame (Function.update s.mm P c.mm))
      c.mram.freeFpList)
    (listed : ∀ pgn ∈ c.mm.fifoPgn, pgn < pagingMaxPgn) : RamExclusive (s.put P c) where
  ledger := ledger.weaken fun fpn inside => by
    simpa only [Memphy.Inside, Sys.put_mram, size] using inside
  listed := fun Q => by
    by_cases same : Q = P
    · subst same
      simpa only [Sys.put_mm_self] using listed
    · simpa only [Sys.put_mm_of_ne s same] using exclusive.listed Q
  small := by simpa only [Sys.put_mram, size] using exclusive.small

/-- Replacing the address space of one process by one with the same table keeps the account of the
frames. -/
theorem self_ledger (exclusive : RamExclusive s) {P : ι} {m : MmStruct}
    (same : m.pgd = (s.caller P).mm.pgd) :
    Ledger s.mram.Inside (owners ramFrame (Function.update s.mm P m)) s.mram.freeFpList := by
  rw [owners_congr same]
  simpa only [Sys.caller, Function.update_eq_self] using exclusive.ledger

theorem incVmaLimit (exclusive : RamExclusive s) (low : s.Low) (P : ι) (originSize : Int)
    (high : ((s.caller P).incVmaLimit originSize).2.mm.mmap.vmEnd.toNat < 2 ^ 22) :
    RamExclusive (s.put P ((s.caller P).incVmaLimit originSize).2) := by
  have ledger := exclusive.self_ledger (rfl : (s.caller P).mm.pgd = (s.caller P).mm.pgd)
  have size := ((s.caller P).incVmaLimit_devices originSize).1.1
  refine exclusive.put size (incVmaLimit_ram (low P) high (fun fpn member => ?_) ledger)
    fun pgn member => ?_
  · have inside := ledger.freeValid (List.mem_of_mem_take member)
    have := exclusive.small
    exact ⟨inside.1, by have := inside.2; omega⟩
  · exact (Caller.incVmaLimit_fifoPgn (low P) high member).elim (exclusive.listed P pgn) id

/-- `pg_getpage` moves a frame from the victim to the page that faulted. -/
theorem pgGetpage (exclusive : RamExclusive s) (P : ι) (u : Uninit) {pgn : Nat}
    (inside : pgn < pagingMaxPgn) : RamExclusive (s.put P ((s.caller P).pgGetpage u pgn).2) := by
  have ledger := exclusive.self_ledger (rfl : (s.caller P).mm.pgd = (s.caller P).mm.pgd)
  rcases (s.caller P).pgGetpage_cases u pgn with
    ⟨-, result⟩ | ⟨-, -, result⟩ | ⟨vicpgn, -, victim, -, result⟩
  · rw [result]
    exact exclusive.put rfl ledger (exclusive.listed P)
  · rw [result]
    exact exclusive.put rfl ledger (exclusive.listed P)
  · rw [result]
    obtain ⟨member, present⟩ := MmStruct.findVictimPage_some victim
    have frames := (s.caller P).faulted_mram u pgn vicpgn
    refine exclusive.put frames.maxsz ?_ fun page member => ?_
    · rw [frames.free]
      exact exchanged_ram _ inside (exclusive.listed P vicpgn member) present ledger
    · rcases List.mem_cons.mp member with rfl | member
      · exact inside
      · exact exclusive.listed P page member

/-- The contents of the RAM do not matter. -/
theorem touch {P : ι} {c : Caller} (exclusive : RamExclusive (s.put P c)) {mram : Memphy}
    (frames : Memphy.SameFrames c.mram mram) : RamExclusive (s.put P { c with mram := mram }) where
  ledger := by
    have ledger := exclusive.ledger
    simp only [Sys.put_mram, frames.free]
    exact ledger.weaken fun fpn inside => by
      simpa only [Memphy.Inside, Sys.put_mram, frames.maxsz] using inside
  listed := exclusive.listed
  small := by simpa only [Sys.put_mram, frames.maxsz] using exclusive.small

theorem step (exclusive : RamExclusive s) (low : s.Low) {label : ι × PageCall} {t : Sys ι}
    (taken : s.LowStep label t) : RamExclusive t := by
  obtain ⟨P, call⟩ := label
  obtain ⟨⟨u, data, rfl⟩, high⟩ := taken
  cases call with
  | incVmaLimit originSize =>
      have atP := high P
      rw [Sys.pageCall, Sys.put_mm_self] at atP
      exact exclusive.incVmaLimit low P originSize atP
  | pgGetval addr =>
      have loaded := exclusive.pgGetpage P u (pagingPgn_lt addr)
      simp only [Sys.pageCall, Caller.pageCall, Caller.pgGetval]
      split
      · simpa only [*] using loaded
      · rename_i fpn c result
        rw [result] at loaded
        simpa only [Memphy.memphyRead_device] using loaded
  | pgSetval addr value =>
      have loaded := exclusive.pgGetpage P u (pagingPgn_lt addr)
      simp only [Sys.pageCall, Caller.pageCall, Caller.pgSetval]
      split
      · simpa only [*] using loaded
      · rename_i fpn c result
        rw [result] at loaded
        exact loaded.touch (Memphy.memphyWrite_sameFrames ..)

omit [DecidableEq ι] in
/-- Before the first growth no page owns a frame, and the device is formatted. -/
theorem start (formatted : s.mram.Formatted) (small : s.mram.maxsz / 256 ≤ 8192)
    (unmapped : ∀ P pgn, (s.mm P).pgd pgn = 0)
    (listed : ∀ P, ∀ pgn ∈ (s.mm P).fifoPgn, pgn < pagingMaxPgn) : RamExclusive s :=
  { ledger := .empty formatted.nodup formatted.inside fun page => by
      simp only [owners, unmapped]
      rfl
    listed := listed
    small := small }

/-- A run keeps the ledger, its calls in any order. -/
theorem run (exclusive : RamExclusive s) (low : s.Low) {history : List (ι × PageCall)} {t : Sys ι}
    (taken : Run Sys.LowStep s history t) : RamExclusive t :=
  (taken.invariant (fun state => RamExclusive state ∧ state.Low)
    (fun _ _ _ inv step => ⟨inv.1.step inv.2 step, step.2⟩) ⟨exclusive, low⟩).1

end RamExclusive

/-- **RAM frames are exclusive.** Whatever processes grow their areas and access their
memory, two pages in RAM are in different frames, none of them free and all of them
within the device, and no two bytes on pages in RAM have one physical address. -/
theorem ram_frames_exclusive [DecidableEq ι] {s t : Sys ι} {history : List (ι × PageCall)}
    (formatted : s.mram.Formatted) (small : s.mram.maxsz / 256 ≤ 8192)
    (unmapped : ∀ P pgn, (s.mm P).pgd pgn = 0)
    (listed : ∀ P, ∀ pgn ∈ (s.mm P).fifoPgn, pgn < pagingMaxPgn) (low : s.Low)
    (run : Run Sys.LowStep s history t) :
    (∀ page other : PageId ι, page ≠ other → pagingPagePresent (t.pte page) = true →
        pagingPagePresent (t.pte other) = true →
        pagingFpn (t.pte page) ≠ pagingFpn (t.pte other)) ∧
      (∀ page : PageId ι, pagingPagePresent (t.pte page) = true →
        pagingFpn (t.pte page) ∉ t.mram.freeFpList ∧
          pagingFpn (t.pte page) < t.mram.maxsz / 256) ∧
      (∀ (P Q : ι) (x y : Int), (P, x) ≠ (Q, y) → 0 ≤ x ∧ x < 2 ^ 22 → 0 ≤ y ∧ y < 2 ^ 22 →
        t.InRam P x → t.InRam Q y → t.physical P x ≠ t.physical Q y) ∧
      ∀ (P : ι) (x : Int), t.InRam P x → 0 ≤ t.physical P x ∧ t.physical P x < t.mram.maxsz := by
  have initial : RamExclusive s := .start formatted small unmapped listed
  have exclusive : RamExclusive t := initial.run low run
  have owned : ∀ page : PageId ι, pagingPagePresent (t.pte page) = true →
      owners ramFrame t.mm page = some (pagingFpn (t.pte page)) :=
    fun page present => ramFrame_eq_some.mpr ⟨present, rfl⟩
  have distinct : ∀ page other : PageId ι, page ≠ other → pagingPagePresent (t.pte page) = true →
      pagingPagePresent (t.pte other) = true →
      pagingFpn (t.pte page) ≠ pagingFpn (t.pte other) := by
    intro page other different present otherPresent same
    have held := owned other otherPresent
    rw [← same] at held
    exact different (exclusive.ledger.exclusive (owned page present) held)
  have inside : ∀ page : PageId ι, pagingPagePresent (t.pte page) = true →
      pagingFpn (t.pte page) < t.mram.maxsz / 256 :=
    fun page present => (exclusive.ledger.ownedValid (owned page present)).2
  refine ⟨distinct, fun page present => ⟨exclusive.ledger.taken (owned page present),
    inside page present⟩, ?_, ?_⟩
  · intro P Q x y different xRange yRange xIn yIn same
    simp only [Sys.physical, phyaddr_eq, pagingOffst_eq] at same
    have xPage := pagingPgn_eq x
    have yPage := pagingPgn_eq y
    -- bytes of one frame are bytes of one page, and then the offsets decide
    have onePage : (P, (⟨pagingPgn x, pagingPgn_lt x⟩ : Fin pagingMaxPgn)) =
        (Q, ⟨pagingPgn y, pagingPgn_lt y⟩) := by
      by_contra apart
      have := distinct _ _ apart xIn yIn
      simp only [Sys.pte] at this
      omega
    obtain ⟨rfl, pages⟩ := Prod.mk.inj onePage
    have pgn : pagingPgn x = pagingPgn y := Fin.mk.inj pages
    rw [pgn] at same xPage
    exact different (by rw [show x = y by omega])
  · intro P x xIn
    have frame := inside (P, ⟨pagingPgn x, pagingPgn_lt x⟩) xIn
    have nonneg := pagingFpn_nonneg ((t.mm P).pgd (pagingPgn x))
    simp only [Sys.pte] at frame
    simp only [Sys.physical, phyaddr_eq, pagingOffst_eq]
    omega

/-- Both processes have pages in RAM, and the growth of the first one behind them went to swap. -/
def crowded : Sys (Fin 2) :=
  (((Sys.boot (Fin 2) 1024 1024).pageCall .zeroed 0 (⟨0, Nat.two_pos⟩, .incVmaLimit 600)).pageCall
    .zeroed 0 (⟨1, Nat.one_lt_two⟩, .incVmaLimit 200)).pageCall .zeroed 0
      (⟨0, Nat.two_pos⟩, .incVmaLimit 300)

/-- A page fault of the first process has brought its page 3 in for its page 2. -/
def faulted : Sys (Fin 2) := crowded.pageCall .zeroed 0 (⟨0, Nat.two_pos⟩, .pgGetval 800)

/-- Behind that run the two processes have grown and faulted; their pages name different frames,
and the addresses behind them differ. -/
theorem ram_frames_exclusive_faulted :
    pagingFpn (faulted.pte (0, ⟨3, by decide⟩)) ≠ pagingFpn (faulted.pte (1, ⟨0, by decide⟩)) ∧
      faulted.physical 0 800 ≠ faulted.physical 1 32 := by
  have run : Run Sys.LowStep (Sys.boot (Fin 2) 1024 1024)
      [(0, .incVmaLimit 600), (1, .incVmaLimit 200), (0, .incVmaLimit 300), (0, .pgGetval 800)]
      faulted :=
    .cons ⟨⟨.zeroed, 0, rfl⟩, by decide +kernel⟩ (.cons ⟨⟨.zeroed, 0, rfl⟩, by decide +kernel⟩
      (.cons ⟨⟨.zeroed, 0, rfl⟩, by decide +kernel⟩ (.single
        ⟨⟨.zeroed, 0, rfl⟩, by decide +kernel⟩)))
  have exclusive := ram_frames_exclusive (Memphy.initMemphy_formatted (fun _ => 0) 1024 true)
    (by decide) (fun _ _ => rfl) (fun _ _ member => absurd member List.not_mem_nil) (by decide) run
  exact ⟨exclusive.1 _ _ (by decide) (by decide +kernel) (by decide +kernel),
    exclusive.2.2.1 0 1 800 32 (by decide) (by decide) (by decide)
      (show pagingPagePresent _ = true by decide +kernel)
      (show pagingPagePresent _ = true by decide +kernel)⟩

end PagedOs
