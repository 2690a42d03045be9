import PagedOs.Memory.Structs

/-! # Page faults

`find_victim_page`, `pg_getpage`, `pg_getval` and `pg_setval` of `mm-vm.c`. A function
whose status is 0 or an error returns an option, with what its output parameter
holds on success.
-/

namespace PagedOs

/-- `find_victim_page`: the first page of the list that is in RAM. -/
def MmStruct.findVictimPage (mm : MmStruct) : Option Nat :=
  mm.fifoPgn.find? fun pgn => pagingPagePresent (mm.pgd pgn)

/-- `enlist_pgn_node` on the list of a process. -/
def MmStruct.enlistPgnNode (mm : MmStruct) (pgn : Nat) : MmStruct :=
  { mm with fifoPgn := pgn :: mm.fifoPgn }

/-- Overwrite the page-table entry of one page. -/
def MmStruct.setPte (mm : MmStruct) (pgn : Nat) (pte : Pte) : MmStruct :=
  { mm with pgd := Function.update mm.pgd pgn pte }

namespace Caller

/-- `pg_getpage`. The frame number it returns is decoded from the entry read on
entry, also after a fault. The result of `MEMPHY_get_freefp` is not looked at. -/
def pgGetpage (c : Caller) (u : Uninit) (pgn : Nat) : Option Int × Caller :=
  let pte := c.mm.pgd pgn
  if pagingPagePresent pte then (some (pagingFpn pte), c)
  else
    let tgtfpn := pagingSwp pte
    match c.mm.findVictimPage with
    | none => (none, c)
    | some vicpgn =>
        let vicfpn := pagingFpn (c.mm.pgd vicpgn)
        let (_, swpfpn, mswp) := c.activeMswp.memphyGetFreefp u.swpfpn
        let (mram, mswp) := c.mram.swapCpPage u.swapOut vicfpn mswp swpfpn
        let (mswp, mram) := mswp.swapCpPage u.swapIn tgtfpn mram vicfpn
        let mm := c.mm.setPte vicpgn (pteSetSwap (c.mm.pgd vicpgn) 0 swpfpn)
        let mm := mm.setPte pgn (pteSetFpn (mm.pgd pgn) vicfpn)
        (some (pagingFpn pte), ⟨mm.enlistPgnNode pgn, mram, mswp⟩)

/-- The address of a byte of a frame, `(fpn << PAGING_ADDR_FPN_LOBIT) + off`. -/
def phyaddr (fpn off : Int) : Int := fpn * 2 ^ nbits pagingPagesz + off

/-- `pg_getval`; `data` is what the caller's variable holds on entry. -/
def pgGetval (c : Caller) (u : Uninit) (addr : Int) (data : Byte) : Int × Byte × Caller :=
  match c.pgGetpage u (pagingPgn addr) with
  | (none, c) => (-1, data, c)
  | (some fpn, c) =>
      let (_, data, mram) := c.mram.memphyRead (phyaddr fpn (pagingOffst addr)) data
      (0, data, { c with mram := mram })

/-- `pg_setval`: the page of the address, and one write through the frame number that came back. -/
def pgSetval (c : Caller) (u : Uninit) (addr : Int) (value : Byte) : Int × Caller :=
  match c.pgGetpage u (pagingPgn addr) with
  | (none, c) => (-1, c)
  | (some fpn, c) =>
      let (_, mram) := c.mram.memphyWrite (phyaddr fpn (pagingOffst addr)) value
      (0, { c with mram := mram })

end Caller

/-! ## What a fault does -/

namespace MmStruct

variable {mm : MmStruct}

/-- The victim is a page of the list that is in RAM. -/
theorem findVictimPage_some {vicpgn : Nat} (found : mm.findVictimPage = some vicpgn) :
    vicpgn ∈ mm.fifoPgn ∧ pagingPagePresent (mm.pgd vicpgn) = true :=
  ⟨List.mem_of_find?_eq_some found, by simpa using List.find?_some found⟩

@[simp] theorem setPte_pgd_self (pgn : Nat) (pte : Pte) : (mm.setPte pgn pte).pgd pgn = pte :=
  Function.update_self ..

theorem setPte_pgd_of_ne {pgn other : Nat} (distinct : other ≠ pgn) (pte : Pte) :
    (mm.setPte pgn pte).pgd other = mm.pgd other := Function.update_of_ne distinct ..

@[simp] theorem enlistPgnNode_pgd (pgn : Nat) : (mm.enlistPgnNode pgn).pgd = mm.pgd := rfl

/-- The page table and the page list after the victim `vicpgn` went to a swap frame and
`pgn` took its RAM frame. -/
def exchanged (mm : MmStruct) (pgn vicpgn : Nat) (swpfpn : Int) : MmStruct :=
  ((mm.setPte vicpgn (pteSetSwap (mm.pgd vicpgn) 0 swpfpn)).setPte pgn
    (pteSetFpn (mm.pgd pgn) (pagingFpn (mm.pgd vicpgn)))).enlistPgnNode pgn

/-- The entry of the page brought in names the frame that the victim had. -/
theorem exchanged_pgd_self (pgn vicpgn : Nat) (swpfpn : Int) :
    (mm.exchanged pgn vicpgn swpfpn).pgd pgn =
      pteSetFpn (mm.pgd pgn) (pagingFpn (mm.pgd vicpgn)) := by
  rw [exchanged, enlistPgnNode_pgd, setPte_pgd_self]

/-- The entry of the victim names the swap frame that was free. -/
theorem exchanged_pgd_victim {pgn vicpgn : Nat} (distinct : vicpgn ≠ pgn) (swpfpn : Int) :
    (mm.exchanged pgn vicpgn swpfpn).pgd vicpgn = pteSetSwap (mm.pgd vicpgn) 0 swpfpn := by
  rw [exchanged, enlistPgnNode_pgd, setPte_pgd_of_ne distinct, setPte_pgd_self]

/-- An exchange leaves every entry but those of its two pages. -/
theorem exchanged_pgd_of_ne {pgn vicpgn other : Nat} (notPage : other ≠ pgn)
    (notVictim : other ≠ vicpgn) (swpfpn : Int) :
    (mm.exchanged pgn vicpgn swpfpn).pgd other = mm.pgd other := by
  rw [exchanged, enlistPgnNode_pgd, setPte_pgd_of_ne notPage, setPte_pgd_of_ne notVictim]

theorem exchanged_mapped {pgn vicpgn page : Nat} (swpfpn : Int) (mapped : Mapped (mm.pgd page)) :
    Mapped ((mm.exchanged pgn vicpgn swpfpn).pgd page) := by
  by_cases isPage : page = pgn
  · subst isPage
    rw [exchanged_pgd_self]
    exact mapped_pteSetFpn _ _
  · by_cases isVictim : page = vicpgn
    · subst isVictim
      rw [exchanged_pgd_victim isPage]
      exact mapped_pteSetSwap _ _ _
    · rw [exchanged_pgd_of_ne isPage isVictim]
      exact mapped

end MmStruct

namespace Caller

/-- The state a fault leads to when the victim `vicpgn` makes room for `pgn`. -/
def faulted (c : Caller) (u : Uninit) (pgn vicpgn : Nat) : Caller :=
  let vicfpn := pagingFpn (c.mm.pgd vicpgn)
  let free := (c.activeMswp.memphyGetFreefp u.swpfpn).2
  let out := c.mram.swapCpPage u.swapOut vicfpn free.2 free.1
  let back := out.2.swapCpPage u.swapIn (pagingSwp (c.mm.pgd pgn)) c.mram vicfpn
  ⟨c.mm.exchanged pgn vicpgn free.1, back.2, out.2⟩

/-- `pg_getpage` of a PRESENT page returns the frame of its entry and changes nothing. -/
theorem pgGetpage_hit {c : Caller} {pgn : Nat}
    (present : pagingPagePresent (c.mm.pgd pgn) = true) (u : Uninit) :
    c.pgGetpage u pgn = (some (pagingFpn (c.mm.pgd pgn)), c) := by
  simp only [pgGetpage, present, ↓reduceIte]

/-- Without a victim it fails and changes nothing. -/
theorem pgGetpage_nobody {c : Caller} {pgn : Nat}
    (absent : pagingPagePresent (c.mm.pgd pgn) = false) (nobody : c.mm.findVictimPage = none)
    (u : Uninit) : c.pgGetpage u pgn = (none, c) := by
  simp only [pgGetpage, absent, Bool.false_eq_true, ↓reduceIte, nobody]

/-- With a victim it returns what the entry said before the exchange. -/
theorem pgGetpage_miss {c : Caller} {pgn vicpgn : Nat}
    (absent : pagingPagePresent (c.mm.pgd pgn) = false)
    (victim : c.mm.findVictimPage = some vicpgn) (u : Uninit) :
    vicpgn ≠ pgn ∧
      c.pgGetpage u pgn = (some (pagingFpn (c.mm.pgd pgn)), c.faulted u pgn vicpgn) := by
  have distinct : vicpgn ≠ pgn := by
    rintro rfl
    rw [(MmStruct.findVictimPage_some victim).2] at absent
    exact absurd absent (by decide)
  refine ⟨distinct, ?_⟩
  simp only [pgGetpage, absent, Bool.false_eq_true, ↓reduceIte, victim, faulted,
    MmStruct.exchanged, Memphy.swapCpPage_source, MmStruct.setPte_pgd_of_ne distinct.symm]

/-- **Everything `pg_getpage` can do.** The page is in RAM and nothing changes; or it
is not, and there is no victim, or there is one and the page takes its frame. -/
theorem pgGetpage_cases (c : Caller) (u : Uninit) (pgn : Nat) :
    (pagingPagePresent (c.mm.pgd pgn) = true ∧
        c.pgGetpage u pgn = (some (pagingFpn (c.mm.pgd pgn)), c)) ∨
      (pagingPagePresent (c.mm.pgd pgn) = false ∧ c.mm.findVictimPage = none ∧
        c.pgGetpage u pgn = (none, c)) ∨
      ∃ vicpgn, pagingPagePresent (c.mm.pgd pgn) = false ∧
        c.mm.findVictimPage = some vicpgn ∧ vicpgn ≠ pgn ∧
        c.pgGetpage u pgn = (some (pagingFpn (c.mm.pgd pgn)), c.faulted u pgn vicpgn) := by
  cases present : pagingPagePresent (c.mm.pgd pgn) with
  | true => exact .inl ⟨rfl, pgGetpage_hit present u⟩
  | false =>
      right
      cases victim : c.mm.findVictimPage with
      | none => exact .inl ⟨rfl, rfl, pgGetpage_nobody present victim u⟩
      | some vicpgn => exact .inr ⟨vicpgn, rfl, rfl, pgGetpage_miss present victim u⟩

/-- A page that has an entry keeps one through the fault of any page. -/
theorem pgGetpage_mapped (c : Caller) (u : Uninit) {pgn page : Nat}
    (mapped : Mapped (c.mm.pgd page)) : Mapped ((c.pgGetpage u pgn).2.mm.pgd page) := by
  rcases c.pgGetpage_cases u pgn with ⟨-, result⟩ | ⟨-, -, result⟩ | ⟨vicpgn, -, -, -, result⟩
  · rwa [result]
  · rwa [result]
  · rw [result]
    exact MmStruct.exchanged_mapped _ mapped

/-- A page that is read ends up as `pg_getpage` leaves it. -/
theorem pgGetval_caller (c : Caller) (u : Uninit) (addr : Int) (data : Byte) :
    (c.pgGetval u addr data).2.2 = (c.pgGetpage u (pagingPgn addr)).2 := by
  unfold pgGetval
  split
  · simp only [*]
  · simp only [*, Memphy.memphyRead_device]

/-- A page that is written, too, up to the cells of the RAM. -/
theorem pgSetval_caller (c : Caller) (u : Uninit) (addr : Int) (value : Byte) :
    ∃ mram, Memphy.SameFrames (c.pgGetpage u (pagingPgn addr)).2.mram mram ∧
      (c.pgSetval u addr value).2 = { (c.pgGetpage u (pagingPgn addr)).2 with mram := mram } := by
  unfold pgSetval
  split
  · rename_i after result
    exact ⟨after.mram, by rw [result]; exact .refl _, by rw [result]⟩
  · rename_i fpn after result
    refine ⟨_, ?_, by rw [result]⟩
    rw [result]
    exact Memphy.memphyWrite_sameFrames ..

end Caller

end PagedOs
