import PagedOs.Memory.Frames

/-! # Page contents across swaps

What a mapped page holds, wherever its frame is, and that `pg_getpage` moves pages
between RAM and swap without changing it.
-/

namespace PagedOs

open Transition

variable {ι : Type*}

namespace Sys

/-- The bytes of a page: of its RAM frame if it is in RAM, else of its swap frame. -/
def content (s : Sys ι) (page : PageId ι) : Fin 256 → Byte :=
  if pagingPagePresent (s.pte page) then s.mram.page (pagingFpn (s.pte page))
  else s.activeMswp.page (pagingSwp (s.pte page))

/-- Every mapped page has a frame of its own on one of two random-access devices. -/
structure Coherent (s : Sys ι) : Prop where
  ram : Ledger s.mram.Inside (owners ramFrame s.mm) s.mram.freeFpList
  swap : Ledger s.activeMswp.Inside (owners swapFrame s.mm) s.activeMswp.freeFpList
  ramRandom : s.mram.rdmflg = true
  swapRandom : s.activeMswp.rdmflg = true
  listed : ∀ P, ∀ pgn ∈ (s.mm P).fifoPgn, pgn < pagingMaxPgn

/-- A coherent system whose frame numbers fit the fields of an entry. -/
structure WellFormed (s : Sys ι) : Prop extends Coherent s where
  ramSmall : s.mram.maxsz / 256 ≤ 2 ^ 13
  swapSmall : s.activeMswp.maxsz / 256 ≤ 2 ^ 21

end Sys

namespace Caller

/-- The frames that `inc_vma_limit` takes have numbers that fit the fields of an entry. -/
def framesFit (c : Caller) (originSize : Int) : Bool :=
  (c.mram.freeFpList.take (c.incnumpage originSize)).all (· < 2 ^ 13) &&
    (c.activeMswp.freeFpList.take (c.swappage originSize)).all (· < 2 ^ 21)

/-- The frames that a growth takes fit the fields of an entry: 13 bits for those of the RAM, 21 for
those of the swap device. -/
theorem framesFit_iff {c : Caller} {originSize : Int} :
    c.framesFit originSize = true ↔
      (∀ fpn ∈ c.mram.freeFpList.take (c.incnumpage originSize), fpn < 2 ^ 13) ∧
        ∀ fpn ∈ c.activeMswp.freeFpList.take (c.swappage originSize), fpn < 2 ^ 21 := by
  simp only [framesFit, Bool.and_eq_true, List.all_eq_true, decide_eq_true_eq]

/-- What a fault does to the frames of the two devices, when swap has a frame. -/
structure Exchange (c : Caller) (pgn vicpgn : Nat) (swpfpn : Int) (rest : List Int)
    (c' : Caller) : Prop where
  mm : c'.mm = c.mm.exchanged pgn vicpgn swpfpn
  ram : Memphy.SameFrames c.mram c'.mram
  swap : Memphy.SameFrames { c.activeMswp with freeFpList := rest } c'.activeMswp
  saved : c'.activeMswp.page swpfpn = c.mram.page (pagingFpn (c.mm.pgd vicpgn))
  swapKept : ∀ fpn, fpn ≠ swpfpn → c'.activeMswp.page fpn = c.activeMswp.page fpn
  loaded : c'.mram.page (pagingFpn (c.mm.pgd vicpgn)) =
    c'.activeMswp.page (pagingSwp (c.mm.pgd pgn))
  ramKept : ∀ fpn, fpn ≠ pagingFpn (c.mm.pgd vicpgn) → c'.mram.page fpn = c.mram.page fpn

/-- The swap frame a fault sends its victim to: the first free one, or what the variable for
it holds when there is none. -/
def slot (c : Caller) (u : Uninit) : Int := (c.activeMswp.memphyGetFreefp u.swpfpn).2.1

/-- A fault with a free swap frame moves its victim there. -/
theorem slot_of_free {c : Caller} {swpfpn : Int} {rest : List Int}
    (free : c.activeMswp.freeFpList = swpfpn :: rest) (u : Uninit) : c.slot u = swpfpn := by
  simp only [slot, Memphy.memphyGetFreefp, free]

/-- On a full swap device the victim goes where the uninitialised local says. -/
theorem slot_of_full {c : Caller} (full : c.activeMswp.freeFpList = []) (u : Uninit) :
    c.slot u = u.swpfpn := by
  simp only [slot, Memphy.memphyGetFreefp, full]

/-- `MEMPHY_get_freefp` yields that frame and takes it off the list. -/
theorem memphyGetFreefp_slot (c : Caller) (u : Uninit) :
    (c.activeMswp.memphyGetFreefp u.swpfpn).2 =
      (c.slot u, { c.activeMswp with freeFpList := c.activeMswp.freeFpList.tail }) := by
  obtain ⟨mm, mram, storage, maxsz, rdmflg, cursor, free, used⟩ := c
  cases free <;> rfl

/-- A fault between random-access devices is an exchange, whatever frame the victim gets. -/
theorem faulted_moves {c : Caller} (ramRandom : c.mram.rdmflg = true)
    (swapRandom : c.activeMswp.rdmflg = true) (u : Uninit) (pgn vicpgn : Nat) :
    c.Exchange pgn vicpgn (c.slot u) c.activeMswp.freeFpList.tail (c.faulted u pgn vicpgn) := by
  simp only [faulted, memphyGetFreefp_slot]
  generalize c.slot u = swpfpn
  generalize mswp : ({ c.activeMswp with freeFpList := c.activeMswp.freeFpList.tail } : Memphy) =
    free
  have freeRandom : free.rdmflg = true := by
    rw [← mswp]
    exact swapRandom
  have freePage : free.page = c.activeMswp.page := by
    rw [← mswp]
    rfl
  -- the victim's frame is copied out to the swap frame
  have swap := Memphy.swapCpPage_sameFrames u.swapOut c.mram (pagingFpn (c.mm.pgd vicpgn)) free
    swpfpn
  have saved := Memphy.swapCpPage_page u.swapOut ramRandom freeRandom
    (pagingFpn (c.mm.pgd vicpgn)) swpfpn
  have swapKept := fun fpn (other : fpn ≠ swpfpn) => Memphy.swapCpPage_page_of_ne u.swapOut
    ramRandom freeRandom (pagingFpn (c.mm.pgd vicpgn)) other
  rw [freePage] at swapKept
  have outRandom := swap.rdmflg.trans freeRandom
  generalize (c.mram.swapCpPage u.swapOut (pagingFpn (c.mm.pgd vicpgn)) free swpfpn).2 = out at *
  -- and the page that faulted is copied in over it
  have ram := Memphy.swapCpPage_sameFrames u.swapIn out (pagingSwp (c.mm.pgd pgn)) c.mram
    (pagingFpn (c.mm.pgd vicpgn))
  have loaded := Memphy.swapCpPage_page u.swapIn outRandom ramRandom (pagingSwp (c.mm.pgd pgn))
    (pagingFpn (c.mm.pgd vicpgn))
  have ramKept := fun fpn (other : fpn ≠ pagingFpn (c.mm.pgd vicpgn)) =>
    Memphy.swapCpPage_page_of_ne u.swapIn outRandom ramRandom (pagingSwp (c.mm.pgd pgn)) other
  generalize (out.swapCpPage u.swapIn (pagingSwp (c.mm.pgd pgn)) c.mram
    (pagingFpn (c.mm.pgd vicpgn))).2 = back at *
  subst mswp
  exact ⟨rfl, ram, swap, saved, swapKept, loaded, ramKept⟩

/-- A fault between two random access devices, with a free swap frame, exchanges the two pages. -/
theorem faulted_exchange {c : Caller} (ramRandom : c.mram.rdmflg = true)
    (swapRandom : c.activeMswp.rdmflg = true) (u : Uninit) (pgn vicpgn : Nat) {swpfpn : Int}
    {rest : List Int} (free : c.activeMswp.freeFpList = swpfpn :: rest) :
    c.Exchange pgn vicpgn swpfpn rest (c.faulted u pgn vicpgn) := by
  have moved := faulted_moves ramRandom swapRandom u pgn vicpgn
  rwa [slot_of_free free, free] at moved

namespace Exchange

variable {c c' : Caller} {pgn vicpgn : Nat} {swpfpn : Int} {rest : List Int}

/-- The bytes that a fault brings into the frame of its victim. -/
def incoming (c : Caller) (pgn vicpgn : Nat) (swpfpn : Int) : Fin 256 → Byte :=
  if pagingSwp (c.mm.pgd pgn) = swpfpn then c.mram.page (pagingFpn (c.mm.pgd vicpgn))
  else c.activeMswp.page (pagingSwp (c.mm.pgd pgn))

/-- Behind the exchange the swap frame that was free holds the page of the victim, and the others
hold what they held. -/
theorem swapPage (moved : c.Exchange pgn vicpgn swpfpn rest c') (fpn : Int) :
    c'.activeMswp.page fpn =
      if fpn = swpfpn then c.mram.page (pagingFpn (c.mm.pgd vicpgn))
      else c.activeMswp.page fpn := by
  split
  · rename_i same
    rw [same, moved.saved]
  · rename_i other
    exact moved.swapKept fpn other

/-- Behind the exchange the frame of the victim holds the page brought in, and the others hold what
they held. -/
theorem ramPage (moved : c.Exchange pgn vicpgn swpfpn rest c') (fpn : Int) :
    c'.mram.page fpn =
      if fpn = pagingFpn (c.mm.pgd vicpgn) then incoming c pgn vicpgn swpfpn
      else c.mram.page fpn := by
  split
  · rename_i same
    rw [same, moved.loaded, moved.swapPage, incoming]
  · rename_i other
    exact moved.ramKept fpn other

end Exchange

end Caller

namespace Sys

variable {s : Sys ι}

/-- A page with its old entry keeps its bytes if the frame it names does. -/
theorem content_congr {t : Sys ι} {page : PageId ι} (entry : t.pte page = s.pte page)
    (ram : pagingPagePresent (s.pte page) = true →
      t.mram.page (pagingFpn (s.pte page)) = s.mram.page (pagingFpn (s.pte page)))
    (swap : pagingPagePresent (s.pte page) = false →
      t.activeMswp.page (pagingSwp (s.pte page)) = s.activeMswp.page (pagingSwp (s.pte page))) :
    t.content page = s.content page := by
  unfold content
  rw [entry]
  cases present : pagingPagePresent (s.pte page) with
  | true => simpa only [↓reduceIte] using ram present
  | false => simpa only [Bool.false_eq_true, ↓reduceIte] using swap present

/-- A mapped page that is not PRESENT owns the swap frame of its entry. -/
theorem swapped_of_mapped {page : PageId ι} (mapped : Mapped (s.pte page))
    (absent : pagingPagePresent (s.pte page) = false) :
    swapFrame (s.pte page) = some (pagingSwp (s.pte page)) := by
  refine swapFrame_eq_some.mpr ⟨⟨absent, mapped.resolve_left ?_⟩, rfl⟩
  rw [absent]
  decide

theorem Coherent.start (ramFormatted : s.mram.Formatted) (swapFormatted : s.activeMswp.Formatted)
    (ramRandom : s.mram.rdmflg = true) (swapRandom : s.activeMswp.rdmflg = true)
    (unmapped : ∀ P pgn, (s.mm P).pgd pgn = 0)
    (listed : ∀ P, ∀ pgn ∈ (s.mm P).fifoPgn, pgn < pagingMaxPgn) : Coherent s where
  ram := .empty ramFormatted.nodup ramFormatted.inside fun page => by
    simp only [owners, unmapped]
    rfl
  swap := .empty swapFormatted.nodup swapFormatted.inside fun page => by
    simp only [owners, unmapped]
    rfl
  ramRandom := ramRandom
  swapRandom := swapRandom
  listed := listed

/-- The machine as `os.c` boots it is coherent: no page is mapped and both devices are formatted.
-/
theorem boot_coherent (ramSize swapSize : Int) : (boot ι ramSize swapSize).Coherent :=
  .start (Memphy.initMemphy_formatted ..) (Memphy.initMemphy_formatted ..) rfl rfl
    (fun _ _ => rfl) (fun _ _ member => absurd member List.not_mem_nil)

/-! ## What a fault preserves -/

/-- The frame of a page is one that its device has. -/
def Located (s : Sys ι) (page : PageId ι) : Prop :=
  if pagingPagePresent (s.pte page) then s.mram.Inside (pagingFpn (s.pte page))
  else s.activeMswp.Inside (pagingSwp (s.pte page))

/-- A mapped page loses neither its frame nor a byte. -/
def KeepsPage (s t : Sys ι) (page : PageId ι) : Prop :=
  Mapped (s.pte page) →
    Mapped (t.pte page) ∧ (s.Located page → t.Located page) ∧ t.content page = s.content page

/-- No mapped page loses its frame or a byte. -/
def KeepsPages (s t : Sys ι) : Prop := ∀ page, s.KeepsPage t page

theorem KeepsPages.refl (s : Sys ι) : s.KeepsPages s := fun _ mapped => ⟨mapped, id, rfl⟩

theorem located_of_present {page : PageId ι} (present : pagingPagePresent (s.pte page) = true) :
    s.Located page ↔ s.mram.Inside (pagingFpn (s.pte page)) := by
  rw [Located, if_pos present]

theorem located_of_absent {page : PageId ι} (absent : pagingPagePresent (s.pte page) = false) :
    s.Located page ↔ s.activeMswp.Inside (pagingSwp (s.pte page)) := by
  rw [Located, if_neg (by rw [absent]; exact Bool.false_ne_true)]

theorem content_of_present {page : PageId ι} (present : pagingPagePresent (s.pte page) = true) :
    s.content page = s.mram.page (pagingFpn (s.pte page)) := by
  rw [content, if_pos present]

theorem content_of_absent {page : PageId ι} (absent : pagingPagePresent (s.pte page) = false) :
    s.content page = s.activeMswp.page (pagingSwp (s.pte page)) := by
  rw [content, if_neg (by rw [absent]; exact Bool.false_ne_true)]

/-- The two frames that a fault overwrites are of no other page, or hold already what is
copied into them, and the entry of the victim leads back to its bytes. -/
structure Harmless (s : Sys ι) (P : ι) (pgn vicpgn : Nat) (swpfpn : Int) : Prop where
  saved : vicpgn < pagingMaxPgn →
    (s.mram.Inside (pagingFpn ((s.mm P).pgd vicpgn)) →
      s.activeMswp.Inside (pagingSwp (pteSetSwap ((s.mm P).pgd vicpgn) 0 swpfpn))) ∧
    (pagingSwp (pteSetSwap ((s.mm P).pgd vicpgn) 0 swpfpn) = swpfpn ∨
      s.activeMswp.page (pagingSwp (pteSetSwap ((s.mm P).pgd vicpgn) 0 swpfpn)) =
        s.mram.page (pagingFpn ((s.mm P).pgd vicpgn)))
  fetched : pgn < pagingMaxPgn → Mapped ((s.mm P).pgd pgn) →
    s.activeMswp.Inside (pagingSwp ((s.mm P).pgd pgn)) →
      s.mram.Inside (pagingFpn ((s.mm P).pgd vicpgn))
  swapKept : ∀ page, swapFrame (s.pte page) = some swpfpn →
    s.activeMswp.page swpfpn = s.mram.page (pagingFpn ((s.mm P).pgd vicpgn))
  ramKept : ∀ page, ¬ (page.1 = P ∧ (page.2 : Nat) = vicpgn) →
    ramFrame (s.pte page) = some (pagingFpn ((s.mm P).pgd vicpgn)) →
      s.mram.page (pagingFpn ((s.mm P).pgd vicpgn)) =
        Caller.Exchange.incoming (s.caller P) pgn vicpgn swpfpn

variable [DecidableEq ι]

/-- The call of one process leaves the entries of the others. -/
theorem put_pte_of_ne {P : ι} {page : PageId ι} (other : page.1 ≠ P) (c : Caller) :
    (s.put P c).pte page = s.pte page := by
  rw [pte, put_mm_of_ne s other, pte]

theorem put_pte_self {P : ι} {page : PageId ι} (self : page.1 = P) (c : Caller) :
    (s.put P c).pte page = c.mm.pgd page.2 := by
  rw [pte, self, put_mm_self]

section Exchange

variable {P : ι} {pgn vicpgn : Nat} {swpfpn : Int} {rest : List Int} {c : Caller}

/-- The entry of the page that faulted names the frame of the victim. -/
theorem exchange_pte_fetched (moved : (s.caller P).Exchange pgn vicpgn swpfpn rest c)
    (inside : pgn < pagingMaxPgn) : (s.put P c).pte (P, ⟨pgn, inside⟩) =
      pteSetFpn ((s.mm P).pgd pgn) (pagingFpn ((s.mm P).pgd vicpgn)) := by
  apply (put_pte_self rfl c).trans
  rw [moved.mm]
  exact MmStruct.exchanged_pgd_self pgn vicpgn swpfpn

/-- The entry of the victim names the swap frame it got. -/
theorem exchange_pte_victim (moved : (s.caller P).Exchange pgn vicpgn swpfpn rest c)
    (distinct : vicpgn ≠ pgn) (inside : vicpgn < pagingMaxPgn) :
    (s.put P c).pte (P, ⟨vicpgn, inside⟩) = pteSetSwap ((s.mm P).pgd vicpgn) 0 swpfpn := by
  apply (put_pte_self rfl c).trans
  rw [moved.mm]
  exact MmStruct.exchanged_pgd_victim distinct swpfpn

theorem exchange_pte_other (moved : (s.caller P).Exchange pgn vicpgn swpfpn rest c)
    {page : PageId ι} (notPage : ¬ (page.1 = P ∧ (page.2 : Nat) = pgn))
    (notVictim : ¬ (page.1 = P ∧ (page.2 : Nat) = vicpgn)) :
    (s.put P c).pte page = s.pte page := by
  by_cases self : page.1 = P
  · rw [put_pte_self self, moved.mm, pte, self]
    exact MmStruct.exchanged_pgd_of_ne (fun same => notPage ⟨self, same⟩)
      (fun same => notVictim ⟨self, same⟩) swpfpn
  · exact put_pte_of_ne self c

theorem exchange_content_fetched (moved : (s.caller P).Exchange pgn vicpgn swpfpn rest c)
    (inside : pgn < pagingMaxPgn) : (s.put P c).content (P, ⟨pgn, inside⟩) =
      Caller.Exchange.incoming (s.caller P) pgn vicpgn swpfpn := by
  have ram : (s.put P c).mram.page (pagingFpn ((s.mm P).pgd vicpgn)) = _ :=
    moved.ramPage (pagingFpn ((s.mm P).pgd vicpgn))
  rw [content, exchange_pte_fetched moved inside, pagingPagePresent_pteSetFpn, if_pos rfl,
    pagingFpn_pteSetFpn _ (pagingFpn_nonneg _) (pagingFpn_lt _), ram]
  exact if_pos rfl

theorem exchange_content_victim (moved : (s.caller P).Exchange pgn vicpgn swpfpn rest c)
    (distinct : vicpgn ≠ pgn) (inside : vicpgn < pagingMaxPgn) :
    (s.put P c).content (P, ⟨vicpgn, inside⟩) =
      if pagingSwp (pteSetSwap ((s.mm P).pgd vicpgn) 0 swpfpn) = swpfpn then
        s.mram.page (pagingFpn ((s.mm P).pgd vicpgn))
      else s.activeMswp.page (pagingSwp (pteSetSwap ((s.mm P).pgd vicpgn) 0 swpfpn)) := by
  rw [content, exchange_pte_victim moved distinct inside, pagingPagePresent_pteSetSwap,
    if_neg Bool.false_ne_true]
  exact moved.swapPage _

/-- A page with its old entry holds what its frame holds. -/
theorem exchange_content_other (moved : (s.caller P).Exchange pgn vicpgn swpfpn rest c)
    {page : PageId ι} (entry : (s.put P c).pte page = s.pte page) :
    (s.put P c).content page =
      if pagingPagePresent (s.pte page) then
        if pagingFpn (s.pte page) = pagingFpn ((s.mm P).pgd vicpgn) then
          Caller.Exchange.incoming (s.caller P) pgn vicpgn swpfpn
        else s.mram.page (pagingFpn (s.pte page))
      else if pagingSwp (s.pte page) = swpfpn then s.mram.page (pagingFpn ((s.mm P).pgd vicpgn))
        else s.activeMswp.page (pagingSwp (s.pte page)) := by
  rw [content, entry]
  split
  · exact moved.ramPage _
  · exact moved.swapPage _

/-- The devices keep their size in a fault. -/
theorem exchange_inside (moved : (s.caller P).Exchange pgn vicpgn swpfpn rest c) (fpn : Int) :
    ((s.put P c).mram.Inside fpn ↔ s.mram.Inside fpn) ∧
      ((s.put P c).activeMswp.Inside fpn ↔ s.activeMswp.Inside fpn) := by
  have ram : c.mram.maxsz = s.mram.maxsz := moved.ram.maxsz
  have swap : c.activeMswp.maxsz = s.activeMswp.maxsz := moved.swap.maxsz
  simp only [Memphy.Inside, put_mram, put_activeMswp, ram, swap, and_self]

theorem keepsPage_fetched_iff (moved : (s.caller P).Exchange pgn vicpgn swpfpn rest c)
    (inside : pgn < pagingMaxPgn) (mapped : Mapped ((s.mm P).pgd pgn))
    (absent : pagingPagePresent ((s.mm P).pgd pgn) = false) :
    s.KeepsPage (s.put P c) (P, ⟨pgn, inside⟩) ↔
      (s.activeMswp.Inside (pagingSwp ((s.mm P).pgd pgn)) →
        s.mram.Inside (pagingFpn ((s.mm P).pgd vicpgn))) ∧
      (pagingSwp ((s.mm P).pgd pgn) = swpfpn →
        s.activeMswp.page swpfpn = s.mram.page (pagingFpn ((s.mm P).pgd vicpgn))) := by
  have entry := exchange_pte_fetched moved inside
  have after : pagingPagePresent ((s.put P c).pte (P, ⟨pgn, inside⟩)) = true := by
    rw [entry, pagingPagePresent_pteSetFpn]
  have stays : Mapped ((s.put P c).pte (P, ⟨pgn, inside⟩)) := .inl after
  have frame : pagingFpn ((s.put P c).pte (P, ⟨pgn, inside⟩)) =
      pagingFpn ((s.mm P).pgd vicpgn) := by
    rw [entry, pagingFpn_pteSetFpn _ (pagingFpn_nonneg _) (pagingFpn_lt _)]
  have before : s.pte (P, ⟨pgn, inside⟩) = (s.mm P).pgd pgn := rfl
  have absentBefore : pagingPagePresent (s.pte (P, ⟨pgn, inside⟩)) = false := absent
  rw [KeepsPage, located_of_present after, frame, (exchange_inside moved _).1,
    located_of_absent absentBefore, content_of_absent absentBefore,
    exchange_content_fetched moved inside, before]
  simp only [mapped, stays, true_implies, true_and]
  refine and_congr_right' ?_
  by_cases hit : pagingSwp ((s.mm P).pgd pgn) = swpfpn
  · have own : Caller.Exchange.incoming (s.caller P) pgn vicpgn swpfpn =
        s.mram.page (pagingFpn ((s.mm P).pgd vicpgn)) := if_pos hit
    simp only [own, hit, true_implies]
    exact eq_comm
  · have loaded : Caller.Exchange.incoming (s.caller P) pgn vicpgn swpfpn =
        s.activeMswp.page (pagingSwp ((s.mm P).pgd pgn)) := if_neg hit
    simp only [loaded, hit, false_implies]

theorem keepsPage_victim_iff (moved : (s.caller P).Exchange pgn vicpgn swpfpn rest c)
    (distinct : vicpgn ≠ pgn) (inside : vicpgn < pagingMaxPgn)
    (present : pagingPagePresent ((s.mm P).pgd vicpgn) = true) :
    s.KeepsPage (s.put P c) (P, ⟨vicpgn, inside⟩) ↔
      (s.mram.Inside (pagingFpn ((s.mm P).pgd vicpgn)) →
        s.activeMswp.Inside (pagingSwp (pteSetSwap ((s.mm P).pgd vicpgn) 0 swpfpn))) ∧
      (pagingSwp (pteSetSwap ((s.mm P).pgd vicpgn) 0 swpfpn) = swpfpn ∨
        s.activeMswp.page (pagingSwp (pteSetSwap ((s.mm P).pgd vicpgn) 0 swpfpn)) =
          s.mram.page (pagingFpn ((s.mm P).pgd vicpgn))) := by
  have entry := exchange_pte_victim moved distinct inside
  have after : pagingPagePresent ((s.put P c).pte (P, ⟨vicpgn, inside⟩)) = false := by
    rw [entry, pagingPagePresent_pteSetSwap]
  have stays : Mapped ((s.put P c).pte (P, ⟨vicpgn, inside⟩)) :=
    entry ▸ mapped_pteSetSwap _ _ _
  have before : s.pte (P, ⟨vicpgn, inside⟩) = (s.mm P).pgd vicpgn := rfl
  have presentBefore : pagingPagePresent (s.pte (P, ⟨vicpgn, inside⟩)) = true := present
  have mapped : Mapped ((s.mm P).pgd vicpgn) := .inl present
  rw [KeepsPage, located_of_absent after, (exchange_inside moved _).2, entry,
    located_of_present presentBefore, content_of_present presentBefore,
    exchange_content_victim moved distinct inside, before]
  rw [entry] at stays
  simp only [mapped, stays, true_implies, true_and]
  refine and_congr_right' ?_
  split
  · rename_i back
    simp only [back, true_or]
  · rename_i elsewhere
    simp only [elsewhere, false_or]

theorem keepsPage_other_iff (moved : (s.caller P).Exchange pgn vicpgn swpfpn rest c)
    {page : PageId ι} (mapped : Mapped (s.pte page))
    (notPage : ¬ (page.1 = P ∧ (page.2 : Nat) = pgn))
    (notVictim : ¬ (page.1 = P ∧ (page.2 : Nat) = vicpgn)) :
    s.KeepsPage (s.put P c) page ↔
      (ramFrame (s.pte page) = some (pagingFpn ((s.mm P).pgd vicpgn)) →
        s.mram.page (pagingFpn ((s.mm P).pgd vicpgn)) =
          Caller.Exchange.incoming (s.caller P) pgn vicpgn swpfpn) ∧
      (swapFrame (s.pte page) = some swpfpn →
        s.activeMswp.page swpfpn = s.mram.page (pagingFpn ((s.mm P).pgd vicpgn))) := by
  have entry := exchange_pte_other moved notPage notVictim
  have located : (s.put P c).Located page ↔ s.Located page := by
    simp only [Located, entry, exchange_inside moved]
  rw [KeepsPage, located, entry, exchange_content_other moved entry]
  simp only [mapped, true_implies, true_and, imp_self]
  cases inRam : pagingPagePresent (s.pte page) with
  | true =>
      simp only [content_of_present inRam, ramFrame_eq_some, swapFrame_eq_some, inRam,
        Bool.true_eq_false, false_and, false_implies, and_true, true_and, ↓reduceIte]
      split
      · rename_i same
        simp only [same, true_implies]
        exact eq_comm
      · rename_i other
        simp only [other, false_implies]
  | false =>
      have swapped := mapped.resolve_left (by rw [inRam]; exact Bool.false_ne_true)
      simp only [content_of_absent inRam, ramFrame_eq_some, swapFrame_eq_some, inRam, swapped,
        Bool.false_eq_true, false_and, false_implies, true_and, ↓reduceIte]
      split
      · rename_i same
        simp only [same, true_implies]
        exact eq_comm
      · rename_i other
        simp only [other, false_implies]

/-- **When a fault keeps every page**: exactly if it is harmless. -/
theorem exchange_keeps_iff (moved : (s.caller P).Exchange pgn vicpgn swpfpn rest c)
    (absent : pagingPagePresent ((s.mm P).pgd pgn) = false)
    (present : pagingPagePresent ((s.mm P).pgd vicpgn) = true) (distinct : vicpgn ≠ pgn) :
    s.KeepsPages (s.put P c) ↔ s.Harmless P pgn vicpgn swpfpn := by
  have notFaulted : ∀ page : PageId ι, pagingPagePresent (s.pte page) = true →
      ¬ (page.1 = P ∧ (page.2 : Nat) = pgn) := by
    rintro page inRam ⟨rfl, rfl⟩
    exact absurd (inRam.symm.trans absent) (by decide)
  have notVictim : ∀ page : PageId ι, pagingPagePresent (s.pte page) = false →
      ¬ (page.1 = P ∧ (page.2 : Nat) = vicpgn) := by
    rintro page inSwap ⟨rfl, rfl⟩
    exact absurd (present.symm.trans inSwap) (by decide)
  constructor
  · intro keeps
    constructor
    · intro inside
      exact (keepsPage_victim_iff moved distinct inside present).mp (keeps _)
    · intro inside mapped
      exact ((keepsPage_fetched_iff moved inside mapped absent).mp (keeps _)).1
    · intro page named
      obtain ⟨⟨inSwap, swapped⟩, same⟩ := swapFrame_eq_some.mp named
      by_cases isPage : page.1 = P ∧ (page.2 : Nat) = pgn
      · obtain ⟨Q, pgn', inside⟩ := page
        obtain ⟨rfl, rfl⟩ := isPage
        exact ((keepsPage_fetched_iff moved inside (.inr swapped) absent).mp (keeps _)).2 same
      · exact ((keepsPage_other_iff moved (.inr swapped) isPage (notVictim page inSwap)).mp
          (keeps page)).2 named
    · intro page other named
      have inRam := (ramFrame_eq_some.mp named).1
      exact ((keepsPage_other_iff moved (.inl inRam) (notFaulted page inRam) other).mp
        (keeps page)).1 named
  · intro harmless page mapped
    suffices kept : s.KeepsPage (s.put P c) page from kept mapped
    by_cases isPage : page.1 = P ∧ (page.2 : Nat) = pgn
    · obtain ⟨Q, pgn', inside⟩ := page
      obtain ⟨rfl, rfl⟩ := isPage
      refine (keepsPage_fetched_iff moved inside mapped absent).mpr
        ⟨harmless.fetched inside mapped, fun same => ?_⟩
      exact harmless.swapKept _ (same ▸ swapped_of_mapped mapped absent)
    by_cases isVictim : page.1 = P ∧ (page.2 : Nat) = vicpgn
    · obtain ⟨Q, vicpgn', inside⟩ := page
      obtain ⟨rfl, rfl⟩ := isVictim
      exact (keepsPage_victim_iff moved distinct inside present).mpr (harmless.saved inside)
    · exact (keepsPage_other_iff moved mapped isPage isVictim).mpr
        ⟨harmless.ramKept page isVictim, harmless.swapKept page⟩

end Exchange

namespace Coherent

/-- The invariant after a process has run, in terms of that process. -/
theorem put (coherent : Coherent s) {P : ι} {c : Caller}
    (ramSame : c.mram.maxsz = s.mram.maxsz ∧ c.mram.rdmflg = s.mram.rdmflg)
    (swapSame : c.activeMswp.maxsz = s.activeMswp.maxsz ∧
      c.activeMswp.rdmflg = s.activeMswp.rdmflg)
    (ram : Ledger s.mram.Inside (owners ramFrame (Function.update s.mm P c.mm)) c.mram.freeFpList)
    (swap : Ledger s.activeMswp.Inside (owners swapFrame (Function.update s.mm P c.mm))
      c.activeMswp.freeFpList)
    (listed : ∀ pgn ∈ c.mm.fifoPgn, pgn < pagingMaxPgn) : Coherent (s.put P c) where
  ram := ram.weaken fun fpn valid => by
    simpa only [Memphy.Inside, put_mram, ramSame.1] using valid
  swap := swap.weaken fun fpn valid => by
    simpa only [Memphy.Inside, put_activeMswp, swapSame.1] using valid
  ramRandom := ramSame.2.trans coherent.ramRandom
  swapRandom := swapSame.2.trans coherent.swapRandom
  listed := fun Q => by
    by_cases same : Q = P
    · subst same
      simpa only [put_mm_self] using listed
    · simpa only [put_mm_of_ne s same] using coherent.listed Q

section Exchange

variable {P : ι} {pgn vicpgn : Nat} {swpfpn : Int} {rest : List Int} {c : Caller}

/-- A fault leaves the frames with one owner each. -/
theorem exchange (coherent : Coherent s) (inside : pgn < pagingMaxPgn)
    (victim : (s.mm P).findVictimPage = some vicpgn)
    (free : s.activeMswp.freeFpList = swpfpn :: rest) (small : swpfpn < 2 ^ 21)
    (moved : (s.caller P).Exchange pgn vicpgn swpfpn rest c) : Coherent (s.put P c) := by
  obtain ⟨member, present⟩ := MmStruct.findVictimPage_some victim
  have vicInside := coherent.listed P vicpgn member
  have table : c.mm = (s.mm P).exchanged pgn vicpgn swpfpn := moved.mm
  have ramFrames : Memphy.SameFrames s.mram c.mram := moved.ram
  have swapFrames : Memphy.SameFrames { s.activeMswp with freeFpList := rest } c.activeMswp :=
    moved.swap
  have self : Function.update s.mm P (s.mm P) = s.mm := Function.update_eq_self ..
  refine coherent.put ⟨ramFrames.maxsz, ramFrames.rdmflg⟩ ⟨swapFrames.maxsz, swapFrames.rdmflg⟩
    ?_ ?_ fun page listed => ?_
  · rw [table, ramFrames.free]
    exact exchanged_ram swpfpn inside vicInside present (self.symm ▸ coherent.ram)
  · have before := coherent.swap
    rw [free, ← self] at before
    rw [table, swapFrames.free]
    exact exchanged_swap inside vicInside (before.freeValid List.mem_cons_self).1 small before
  · rw [table] at listed
    rcases List.mem_cons.mp listed with rfl | listed
    · exact inside
    · exact coherent.listed P page listed

omit [DecidableEq ι] in
/-- A fault that finds a free swap frame is harmless. -/
theorem harmless (coherent : Coherent s) (victim : (s.mm P).findVictimPage = some vicpgn)
    (free : s.activeMswp.freeFpList = swpfpn :: rest) (small : swpfpn < 2 ^ 21) (pgn : Nat) :
    s.Harmless P pgn vicpgn swpfpn := by
  obtain ⟨member, present⟩ := MmStruct.findVictimPage_some victim
  have vicInside := coherent.listed P vicpgn member
  have vicOwns : owners ramFrame s.mm (P, ⟨vicpgn, vicInside⟩) =
      some (pagingFpn ((s.mm P).pgd vicpgn)) := ramFrame_eq_some.mpr ⟨present, rfl⟩
  have swapFree : swpfpn ∈ s.activeMswp.freeFpList := free ▸ List.mem_cons_self
  have valid := coherent.swap.freeValid swapFree
  have back := pagingSwp_pteSetSwap ((s.mm P).pgd vicpgn) 0 valid.1 small
  constructor
  · intro _
    rw [back]
    exact ⟨fun _ => valid, .inl rfl⟩
  · intro _ _ _
    exact coherent.ram.ownedValid vicOwns
  · intro page named
    exact absurd swapFree (coherent.swap.taken named)
  · intro page notVictim named
    have same := coherent.ram.exclusive named vicOwns
    exact absurd ⟨congrArg Prod.fst same, congrArg (fun page => (page.2 : Nat)) same⟩ notVictim

/-- A fault on a mapped page changes the bytes of no mapped page. -/
theorem exchange_content (coherent : Coherent s)
    (absent : pagingPagePresent ((s.mm P).pgd pgn) = false)
    (victim : (s.mm P).findVictimPage = some vicpgn) (distinct : vicpgn ≠ pgn)
    (free : s.activeMswp.freeFpList = swpfpn :: rest) (small : swpfpn < 2 ^ 21)
    (moved : (s.caller P).Exchange pgn vicpgn swpfpn rest c) {page : PageId ι}
    (pageMapped : Mapped (s.pte page)) :
    Mapped ((s.put P c).pte page) ∧ (s.put P c).content page = s.content page := by
  obtain ⟨stays, -, same⟩ := (exchange_keeps_iff moved absent
    (MmStruct.findVictimPage_some victim).2 distinct).mpr
    (coherent.harmless victim free small pgn) page pageMapped
  exact ⟨stays, same⟩

end Exchange

/-- **One call of `pg_getpage`**, when swap has a frame for a victim. -/
theorem getPage (coherent : Coherent s) (P : ι) (u : Uninit) {pgn : Nat}
    (inside : pgn < pagingMaxPgn)
    (room : pagingPagePresent ((s.mm P).pgd pgn) = false →
      ∃ swpfpn rest, s.activeMswp.freeFpList = swpfpn :: rest ∧ swpfpn < 2 ^ 21) :
    Coherent (s.put P ((s.caller P).pgGetpage u pgn).2) ∧
      (∀ page, Mapped (s.pte page) →
        Mapped ((s.put P ((s.caller P).pgGetpage u pgn).2).pte page) ∧
          (s.put P ((s.caller P).pgGetpage u pgn).2).content page = s.content page) ∧
      (((s.caller P).pgGetpage u pgn).1.isSome = true →
        pagingPagePresent (((s.caller P).pgGetpage u pgn).2.mm.pgd pgn) = true) ∧
      ((s.caller P).pgGetpage u pgn).2.mram.maxsz = s.mram.maxsz ∧
      ((s.caller P).pgGetpage u pgn).2.activeMswp.maxsz = s.activeMswp.maxsz := by
  rcases (s.caller P).pgGetpage_cases u pgn with
    ⟨present, result⟩ | ⟨-, -, result⟩ | ⟨vicpgn, absent, victim, distinct, result⟩
  · simp only [result, put_caller]
    exact ⟨coherent, fun _ mapped => ⟨mapped, trivial⟩, fun _ => present, rfl, rfl⟩
  · simp only [result, put_caller]
    exact ⟨coherent, fun _ mapped => ⟨mapped, trivial⟩, fun none => absurd none (by decide), rfl,
      rfl⟩
  · simp only [result]
    obtain ⟨swpfpn, rest, free, small⟩ := room absent
    have moved := Caller.faulted_exchange (c := s.caller P) coherent.ramRandom coherent.swapRandom u
      pgn vicpgn free
    refine ⟨coherent.exchange inside victim free small moved, fun page pageMapped =>
      coherent.exchange_content absent victim distinct free small moved pageMapped,
      fun _ => ?_, moved.ram.maxsz, moved.swap.maxsz⟩
    rw [moved.mm, MmStruct.exchanged_pgd_self]
    exact pagingPagePresent_pteSetFpn _ _

/-- The contents of the RAM do not matter for who owns which frame. -/
theorem touch {P : ι} {c : Caller} (coherent : Coherent (s.put P c)) {mram : Memphy}
    (frames : Memphy.SameFrames c.mram mram) : Coherent (s.put P { c with mram := mram }) where
  ram := by
    have ledger := coherent.ram
    simp only [put_mram, frames.free]
    exact ledger.weaken fun fpn inside => by
      simpa only [Memphy.Inside, put_mram, frames.maxsz] using inside
  swap := coherent.swap
  ramRandom := frames.rdmflg.trans coherent.ramRandom
  swapRandom := coherent.swapRandom
  listed := coherent.listed

/-- A growth leaves the frames with one owner each. -/
theorem incVmaLimit (coherent : Coherent s) (P : ι) (originSize : Int)
    (low : (s.mm P).mmap.vmEnd.toNat < 2 ^ 22)
    (high : ((s.caller P).incVmaLimit originSize).2.mm.mmap.vmEnd.toNat < 2 ^ 22)
    (fits : (s.caller P).framesFit originSize = true) :
    Coherent (s.put P ((s.caller P).incVmaLimit originSize).2) := by
  have table : ∀ frame : Pte → Option Int,
      owners frame (Function.update s.mm P (s.caller P).mm) = owners frame s.mm := fun frame => by
    simp only [Sys.caller, Function.update_eq_self]
  obtain ⟨ramFits, swapFits⟩ := Caller.framesFit_iff.mp fits
  obtain ⟨ramSame, swapSame⟩ := (s.caller P).incVmaLimit_devices originSize
  refine coherent.put ramSame swapSame (incVmaLimit_ram low high (fun fpn member => ?_) ?_)
    (incVmaLimit_swap low high (fun fpn member => ?_) ?_) fun pgn member => ?_
  · exact ⟨(coherent.ram.freeValid (List.mem_of_mem_take member)).1, ramFits fpn member⟩
  · rw [table ramFrame]
    exact coherent.ram
  · exact ⟨(coherent.swap.freeValid (List.mem_of_mem_take member)).1, swapFits fpn member⟩
  · rw [table swapFrame]
    exact coherent.swap
  · exact (Caller.incVmaLimit_fifoPgn low high member).elim (coherent.listed P pgn) id

end Coherent

/-- A call of `pg_getpage` by a process, with its result. -/
def GetPage (s : Sys ι) (call : PageId ι × Option Int) (t : Sys ι) : Prop :=
  ∃ u, ((s.caller call.1.1).pgGetpage u call.1.2).1 = call.2 ∧
    t = s.put call.1.1 ((s.caller call.1.1).pgGetpage u call.1.2).2

/-- The page asked for is mapped, and if it is not in RAM then swap has a free frame. -/
def Served (s : Sys ι) (call : PageId ι × Option Int) : Prop :=
  Mapped (s.pte call.1) ∧
    (pagingPagePresent (s.pte call.1) = false → s.activeMswp.freeFpList ≠ [])

/-- What one served call preserves, and what it achieves. -/
theorem WellFormed.getPage {t : Sys ι} {call : PageId ι × Option Int} (formed : WellFormed s)
    (taken : Guarded GetPage Served s call t) :
    WellFormed t ∧
      (∀ page, Mapped (s.pte page) → Mapped (t.pte page) ∧ t.content page = s.content page) ∧
      (call.2.isSome = true → pagingPagePresent (t.pte call.1) = true) ∧
      ∀ Q, Q ≠ call.1.1 → (t.mm Q).pgd = (s.mm Q).pgd := by
  obtain ⟨⟨P, pgn, inside⟩, status⟩ := call
  obtain ⟨⟨-, free⟩, u, result, rfl⟩ := taken
  simp only at free result
  subst result
  have room : pagingPagePresent ((s.mm P).pgd pgn) = false →
      ∃ swpfpn rest, s.activeMswp.freeFpList = swpfpn :: rest ∧ swpfpn < 2 ^ 21 := by
    intro absent
    obtain ⟨swpfpn, rest, shape⟩ := List.exists_cons_of_ne_nil (free absent)
    have valid := formed.swap.freeValid (shape ▸ List.mem_cons_self : swpfpn ∈ _)
    have := formed.swapSmall
    exact ⟨swpfpn, rest, shape, by have := valid.2; omega⟩
  obtain ⟨coherent, contents, present, ramSize, swapSize⟩ :=
    formed.toCoherent.getPage P u inside room
  refine ⟨⟨coherent, ?_, ?_⟩, contents, fun served => ?_, fun Q other => ?_⟩
  · simpa only [put_mram, ramSize] using formed.ramSmall
  · simpa only [put_activeMswp, swapSize] using formed.swapSmall
  · exact (congrArg pagingPagePresent (put_pte_self rfl _)).trans (present served)
  · rw [put_mm_of_ne s other]

/-- **Swapping is transparent to page contents.** Along every run of served calls from a
well-formed system the system stays well formed and no mapped page of any process
changes its bytes; a call that succeeds leaves its page in RAM and the page tables of
the other processes alone. -/
theorem swapping_transparent {t : Sys ι} {history : List (PageId ι × Option Int)}
    (formed : s.WellFormed) (run : Run (Guarded GetPage Served) s history t) :
    t.WellFormed ∧
      (∀ page, Mapped (s.pte page) → Mapped (t.pte page) ∧ t.content page = s.content page) ∧
      (∀ Q, (∀ call ∈ history, call.1.1 ≠ Q) → (t.mm Q).pgd = (s.mm Q).pgd) ∧
      ∀ call next, Guarded GetPage Served t call next →
        (call.2.isSome = true → pagingPagePresent (next.pte call.1) = true) ∧
          ∀ Q, Q ≠ call.1.1 → (next.mm Q).pgd = (t.mm Q).pgd := by
  have whole : t.WellFormed ∧
      (∀ page, Mapped (s.pte page) → Mapped (t.pte page) ∧ t.content page = s.content page) ∧
      ∀ Q, (∀ call ∈ history, call.1.1 ≠ Q) → (t.mm Q).pgd = (s.mm Q).pgd := by
    induction run with
    | nil source => exact ⟨formed, fun _ mapped => ⟨mapped, rfl⟩, fun _ _ => rfl⟩
    | cons taken _ ih =>
        obtain ⟨formed, contents, -, tables⟩ := formed.getPage taken
        obtain ⟨formed, later, laterTables⟩ := ih formed
        refine ⟨formed, fun page mapped => ?_, fun Q apart => ?_⟩
        · obtain ⟨stays, same⟩ := contents page mapped
          obtain ⟨still, same'⟩ := later page stays
          exact ⟨still, same'.trans same⟩
        · rw [laterTables Q fun call member => apart call (List.mem_cons_of_mem _ member)]
          exact tables Q (apart _ List.mem_cons_self).symm
  obtain ⟨formed, contents, tables⟩ := whole
  refine ⟨formed, contents, tables, fun call next taken => ?_⟩
  obtain ⟨-, -, present, others⟩ := formed.getPage taken
  exact ⟨present, others⟩

/-- A process that has grown over three pages of a RAM of two frames. -/
def threePages : Sys (Fin 2) :=
  (boot (Fin 2) 512 1024).put ⟨0, Nat.two_pos⟩
    (((boot (Fin 2) 512 1024).caller ⟨0, Nat.two_pos⟩).incVmaLimit 700).2

/-- The third of its pages was fetched. -/
def thirdFetched : Sys (Fin 2) :=
  threePages.put ⟨0, Nat.two_pos⟩ ((threePages.caller ⟨0, Nat.two_pos⟩).pgGetpage .zeroed 2).2

/-- The third page has the same bytes before and after it is brought back from the swap device. -/
theorem swapping_transparent_third_fetched :
    thirdFetched.content (0, ⟨2, by decide⟩) = threePages.content (0, ⟨2, by decide⟩) := by
  have formed : threePages.WellFormed :=
    ⟨(boot_coherent 512 1024).incVmaLimit 0 700 (by decide) (by decide) (by decide), by decide,
      by decide⟩
  have run : Run (Guarded GetPage Served) threePages
      [((0, ⟨2, by decide⟩), some 0)] thirdFetched :=
    .single ⟨⟨by decide, fun _ => by decide⟩, .zeroed, by decide +kernel, rfl⟩
  have mapped : Mapped (threePages.pte (0, ⟨2, by decide⟩)) := by decide
  exact ((swapping_transparent formed run).2.1 _ mapped).2

end Sys

end PagedOs
