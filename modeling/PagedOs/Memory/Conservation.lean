import PagedOs.Memory.Residency

/-! # Conservation of swap frames

Where the frames of the swap device are: free, or named by a page that was swapped out. A
growth moves frames from the one place to the other. A fault does so for its victim, but
forgets the frame of the page it brings in, which is lost from then on.
-/

namespace PagedOs

open Transition

variable {ι : Type*}

namespace Caller

variable {c c' : Caller}

/-- After a growth the swap frames that pages name are those there were and those it took. -/
theorem Grew.swapFrame_iff {size : Nat} {ram swap : List Int} (extent : c.mm.Extent)
    (after : c'.mm.Extent) (grew : c.Grew size c' ram swap)
    (fits : ∀ fpn ∈ swap, 0 ≤ fpn ∧ fpn < 2 ^ 21) (fpn : Int) :
    (∃ pgn : Fin pagingMaxPgn, swapFrame (c'.mm.pgd pgn) = some fpn) ↔
      fpn ∈ swap ∨ ∃ pgn : Fin pagingMaxPgn, swapFrame (c.mm.pgd pgn) = some fpn := by
  have pages := grew.pages
  have bound := after.endPgn_le
  refine ⟨fun ⟨pgn, named⟩ => ?_, fun placed => ?_⟩
  · rcases grew.page_cases pgn with ⟨-, entry⟩ | ⟨other, -, -, entry⟩ | ⟨other, member, -, entry⟩
    · rw [entry] at named
      exact .inr ⟨pgn, named⟩
    · rw [entry, swapFrame_pteSetFpn] at named
      cases named
    · rw [entry, swapFrame_pteSetSwap _ _ (fits other member).1 (fits other member).2] at named
      exact .inl (Option.some_inj.mp named ▸ member)
  · rcases placed with member | ⟨pgn, named⟩
    · obtain ⟨i, found⟩ := List.getElem?_of_mem (List.mem_reverse.mpr member)
      have inside := (List.getElem?_eq_some_iff.mp found).1
      rw [List.length_reverse] at inside
      refine ⟨⟨c.mm.endPgn + ram.length + i, by omega⟩, ?_⟩
      rw [grew.swapEntry i fpn found]
      exact swapFrame_pteSetSwap _ _ (fits fpn member).1 (fits fpn member).2
    · refine ⟨pgn, ?_⟩
      have mapped : Mapped (c.mm.pgd pgn) := .inr (swapFrame_eq_some.mp named).1.2
      rw [grew.kept pgn (.inl (extent.lt_of_mapped mapped))]
      exact named

/-- A growth puts no page into RAM and into swap. -/
theorem Grew.clean {size : Nat} {ram swap : List Int} (grew : c.Grew size c' ram swap) {pgn : Nat}
    (clean : pagingPageSwapped (c.mm.pgd pgn) = true → pagingPagePresent (c.mm.pgd pgn) = false) :
    pagingPageSwapped (c'.mm.pgd pgn) = true → pagingPagePresent (c'.mm.pgd pgn) = false := by
  rcases grew.page_cases pgn with ⟨-, entry⟩ | ⟨fpn, -, -, entry⟩ | ⟨fpn, -, -, entry⟩
  · rwa [entry]
  · simp [entry]
  · simp [entry]

end Caller

/-- The exchange of two pages leaves no entry that is in RAM and in swap at once. -/
theorem MmStruct.exchanged_clean {mm : MmStruct} {pgn vicpgn page : Nat} (swpfpn : Int)
    (clean : pagingPageSwapped (mm.pgd page) = true → pagingPagePresent (mm.pgd page) = false) :
    pagingPageSwapped ((mm.exchanged pgn vicpgn swpfpn).pgd page) = true →
      pagingPagePresent ((mm.exchanged pgn vicpgn swpfpn).pgd page) = false := by
  by_cases isPage : page = pgn
  · subst isPage
    simp [exchanged_pgd_self]
  · by_cases isVictim : page = vicpgn
    · subst isVictim
      simp [exchanged_pgd_victim isPage]
    · rwa [exchanged_pgd_of_ne isPage isVictim]

namespace Sys

/-- The page was swapped out and names the frame. -/
def Names (s : Sys ι) (page : PageId ι) (fpn : Int) : Prop :=
  pagingPageSwapped (s.pte page) = true ∧ pagingSwp (s.pte page) = fpn

/-- Each swap frame is in one place, and so the free frames and the pages that were swapped
out add up to the frames of the device. -/
structure SwapConserved (s : Sys ι) : Prop where
  nodup : s.activeMswp.freeFpList.Nodup
  onePlace : ∀ fpn, s.activeMswp.Inside fpn →
    (fpn ∈ s.activeMswp.freeFpList ∧ ∀ page, ¬ s.Names page fpn) ∨
      (fpn ∉ s.activeMswp.freeFpList ∧ ∃! page, s.Names page fpn)
  total : s.activeMswp.freeFpList.length +
    Nat.card {page : PageId ι // pagingPageSwapped (s.pte page) = true} =
      (s.activeMswp.maxsz / 256).toNat

/-- The frame is free or belongs to a page. -/
def SwapPlaced (s : Sys ι) (fpn : Int) : Prop :=
  Ledger.Placed (owners swapFrame s.mm) s.activeMswp.freeFpList fpn

/-- Every area is mapped, and each swap frame has one owner at most. -/
structure SwapLedger (s : Sys ι) : Prop where
  extent : ∀ P, (s.mm P).Extent
  low : s.Low
  ledger : Ledger s.activeMswp.Inside (owners swapFrame s.mm) s.activeMswp.freeFpList
  clean : ∀ P pgn, pagingPageSwapped ((s.mm P).pgd pgn) = true →
    pagingPagePresent ((s.mm P).pgd pgn) = false
  small : s.activeMswp.maxsz / 256 ≤ 2 ^ 21

variable {s t : Sys ι}

namespace SwapLedger

/-- Before the first call no process owns a swap frame, and all of them are free. -/
theorem start (fresh : ∀ P, s.mm P = MmStruct.zeroed.initMm)
    (formatted : s.activeMswp.Formatted) (small : s.activeMswp.maxsz / 256 ≤ 2 ^ 21) :
    s.SwapLedger where
  extent := fun P => fresh P ▸ .start
  low := fun P => by
    rw [fresh P]
    decide
  ledger := .empty formatted.nodup formatted.inside fun page => by
    simp only [owners, fresh]
    exact (by decide : swapFrame 0 = none)
  clean := fun P pgn swapped => by
    rw [fresh P] at swapped
    exact absurd (.inr swapped) (MmStruct.start_unmapped pgn)
  small := small

/-- An entry names a swap frame when its page owns it. -/
theorem names_iff (sound : s.SwapLedger) {page : PageId ι} {fpn : Int} :
    s.Names page fpn ↔ owners swapFrame s.mm page = some fpn := by
  refine Iff.trans ?_ swapFrame_eq_some.symm
  exact and_congr_left' ⟨fun swapped => ⟨sound.clean _ _ swapped, swapped⟩, And.right⟩

theorem conserved_iff (sound : s.SwapLedger) :
    s.SwapConserved ↔ ∀ fpn, s.activeMswp.Inside fpn → s.SwapPlaced fpn := by
  refine ⟨fun conserved fpn inside => ?_, fun placed => ⟨sound.ledger.nodup, fun fpn inside => ?_,
    ?_⟩⟩
  · rcases conserved.onePlace fpn inside with ⟨free, -⟩ | ⟨-, page, named, -⟩
    · exact .inl free
    · exact .inr ⟨page, sound.names_iff.mp named⟩
  · simp only [sound.names_iff]
    exact sound.ledger.one_place (placed fpn inside)
  · have nodup : ((List.range (s.activeMswp.maxsz / 256).toNat).map Int.ofNat).Nodup :=
      List.nodup_range.map fun _ _ same => Int.ofNat_inj.mp same
    have exactly : ∀ fpn, fpn ∈ (List.range (s.activeMswp.maxsz / 256).toNat).map Int.ofNat ↔
        s.activeMswp.Inside fpn := by
      intro fpn
      rw [List.mem_map, Memphy.Inside]
      refine ⟨?_, fun inside => ⟨fpn.toNat, List.mem_range.mpr (by omega),
        Int.toNat_of_nonneg inside.1⟩⟩
      rintro ⟨index, below, rfl⟩
      rw [List.mem_range] at below
      rw [Int.ofNat_eq_natCast]
      omega
    have count := sound.ledger.length_add_card nodup exactly placed
    rw [List.length_map, List.length_range] at count
    rw [← count]
    congr 1
    refine Nat.card_congr (Equiv.subtypeEquivRight fun page => ?_)
    rw [Option.isSome_iff_exists]
    refine ⟨fun swapped => ⟨_, sound.names_iff.mp ⟨swapped, rfl⟩⟩, fun named => ?_⟩
    obtain ⟨fpn, named⟩ := named
    exact (sound.names_iff.mpr named).1

variable [DecidableEq ι] {P : ι} {c : Caller} {pgn vicpgn : Nat}

/-- The invariant after a process has run, in terms of that process. -/
theorem put (sound : s.SwapLedger) (extent : c.mm.Extent) (low : (s.put P c).Low)
    (size : c.activeMswp.maxsz = s.activeMswp.maxsz)
    (ledger : Ledger s.activeMswp.Inside (owners swapFrame (Function.update s.mm P c.mm))
      c.activeMswp.freeFpList)
    (clean : ∀ pgn, pagingPageSwapped (c.mm.pgd pgn) = true →
      pagingPagePresent (c.mm.pgd pgn) = false) : (s.put P c).SwapLedger where
  extent := fun Q => by
    by_cases self : Q = P
    · rw [self, put_mm_self]
      exact extent
    · rw [put_mm_of_ne s self]
      exact sound.extent Q
  low := low
  ledger := ledger.weaken fun fpn inside => by
    simpa only [Memphy.Inside, put_activeMswp, size] using inside
  clean := fun Q => by
    by_cases self : Q = P
    · rw [self, put_mm_self]
      exact clean
    · rw [put_mm_of_ne s self]
      exact sound.clean Q
  small := by simpa only [put_activeMswp, size] using sound.small

/-- Writing the address space of a process back changes nothing, which puts the ledger in the form
that the updates have. -/
theorem self_ledger (sound : s.SwapLedger) (P : ι) :
    Ledger s.activeMswp.Inside (owners swapFrame (Function.update s.mm P (s.caller P).mm))
      s.activeMswp.freeFpList := by
  simpa only [caller, Function.update_eq_self] using sound.ledger

/-- The pages that name a frame are pages of the process that ran or of another one. -/
theorem owned_put_iff {frame : Pte → Option Int} {fpn : Int} :
    (∃ page, owners frame (s.put P c).mm page = some fpn) ↔
      (∃ pgn : Fin pagingMaxPgn, frame (c.mm.pgd pgn) = some fpn) ∨
        ∃ page : PageId ι, page.1 ≠ P ∧ owners frame s.mm page = some fpn := by
  refine ⟨fun ⟨⟨Q, pgn⟩, named⟩ => ?_, fun placed => ?_⟩
  · by_cases self : Q = P
    · subst self
      simp only [owners, put_mm_self] at named
      exact .inl ⟨pgn, named⟩
    · simp only [owners, put_mm_of_ne s self] at named
      exact .inr ⟨(Q, pgn), self, named⟩
  · rcases placed with ⟨pgn, named⟩ | ⟨⟨Q, pgn⟩, other, named⟩
    · refine ⟨(P, pgn), ?_⟩
      simpa only [owners, put_mm_self] using named
    · refine ⟨(Q, pgn), ?_⟩
      simpa only [owners, put_mm_of_ne s other] using named

/-- A growth moves swap frames from the free list to pages. -/
theorem incVmaLimit (sound : s.SwapLedger) {originSize : Int}
    (orderly : (s.caller P).Orderly (.incVmaLimit originSize))
    (low : (s.put P ((s.caller P).incVmaLimit originSize).2).Low) :
    (s.put P ((s.caller P).incVmaLimit originSize).2).SwapLedger ∧
      ∀ fpn, (s.put P ((s.caller P).incVmaLimit originSize).2).SwapPlaced fpn ↔
        s.SwapPlaced fpn := by
  have before := sound.self_ledger P
  have high := low P
  rw [put_mm_self] at high
  obtain ⟨after, ram, swap, grew⟩ := orderly.grew (sound.extent P) high.le
  have taken : s.activeMswp.freeFpList =
      swap ++ ((s.caller P).incVmaLimit originSize).2.activeMswp.freeFpList := grew.swapTaken
  have fits : ∀ fpn ∈ s.activeMswp.freeFpList, 0 ≤ fpn ∧ fpn < 2 ^ 21 := fun fpn member => by
    have inside := sound.ledger.freeValid member
    have := sound.small
    exact ⟨inside.1, by have := inside.2; omega⟩
  refine ⟨sound.put after low ((s.caller P).incVmaLimit_devices originSize).2.1
    (incVmaLimit_swap (sound.low P) high (fun fpn member => fits fpn (List.mem_of_mem_take member))
      before) fun pgn => grew.clean (sound.clean P pgn), fun fpn => ?_⟩
  have named := grew.swapFrame_iff (sound.extent P) after (fun other member =>
    fits other (taken ▸ List.mem_append_left _ member)) fpn
  have old := @owned_put_iff _ s _ P (s.caller P) swapFrame fpn
  rw [put_caller] at old
  rw [SwapPlaced, SwapPlaced, Ledger.Placed, Ledger.Placed, owned_put_iff, old, named, taken,
    List.mem_append, put_activeMswp, or_assoc, or_assoc, or_left_comm]

/-- A fault loses the swap frame of the page that it brings in. -/
theorem fault (sound : s.SwapLedger) (free : s.activeMswp.freeFpList ≠ [])
    (fault : (s.caller P).Fault pgn vicpgn c) (low : (s.put P c).Low) :
    (s.put P c).SwapLedger ∧ (∀ fpn, (s.put P c).SwapPlaced fpn → s.SwapPlaced fpn) ∧
      ∃ fpn, s.activeMswp.Inside fpn ∧ ¬ (s.put P c).SwapPlaced fpn := by
  have before := sound.self_ledger P
  have present := (MmStruct.findVictimPage_some fault.victim).2
  have vicInside : vicpgn < pagingMaxPgn :=
    ((sound.extent P).lt_of_present present).trans_le (sound.extent P).endPgn_le
  have extent := fault.extent (sound.extent P)
  obtain ⟨swpfpn, table, size, popped⟩ := fault.swap
  obtain ⟨fpn, rest, shape⟩ := List.exists_cons_of_ne_nil free
  obtain ⟨rfl, left⟩ := popped fpn rest shape
  rw [shape] at before
  have inside := before.freeValid List.mem_cons_self
  have small : swpfpn < 2 ^ 21 := by
    have := sound.small
    have := inside.2
    omega
  have unchanged : Function.update s.mm P (s.caller P).mm = s.mm := Function.update_eq_self ..
  have owns : owners swapFrame (s.put P c).mm = Function.update (Function.update
      (owners swapFrame s.mm) (P, ⟨vicpgn, vicInside⟩) (some swpfpn)) (P, ⟨pgn, fault.inside⟩)
        none := by
    rw [Sys.put, table, exchanged_swapOwners fault.inside vicInside inside.1 small, unchanged]
  have held : owners swapFrame s.mm (P, ⟨pgn, fault.inside⟩) =
      some (pagingSwp ((s.mm P).pgd pgn)) := swapped_of_mapped fault.mapped fault.absent
  have apart : (P, (⟨pgn, fault.inside⟩ : Fin pagingMaxPgn)) ≠ (P, ⟨vicpgn, vicInside⟩) :=
    fun same => fault.distinct (Fin.mk.inj (Prod.mk.inj same).2).symm
  refine ⟨sound.put extent low size ?_ fun page => ?_, fun other placed => ?_,
    pagingSwp ((s.mm P).pgd pgn), ?_, ?_⟩
  · rw [table, left]
    exact exchanged_swap fault.inside vicInside inside.1 small before
  · rw [table]
    exact MmStruct.exchanged_clean swpfpn (sound.clean P page)
  · rw [SwapPlaced, put_activeMswp, left, owns] at placed
    rw [SwapPlaced, shape]
    exact placed.of_revoke.of_grant
  · exact sound.ledger.ownedValid held
  · -- its page no longer names it, and nobody put it on the list
    rw [unchanged] at before
    rw [SwapPlaced, put_activeMswp, left, owns]
    apply (before.grant _).revoke_unplaced
    rw [Function.update_of_ne apart]
    exact held

/-- A call that leaves the page table and the swap device keeps the ledger and the place of every
frame. -/
theorem sameTables (sound : s.SwapLedger) (same : (s.caller P).SameTables c)
    (low : (s.put P c).Low) :
    (s.put P c).SwapLedger ∧ ∀ fpn, (s.put P c).SwapPlaced fpn ↔ s.SwapPlaced fpn := by
  have before := sound.self_ledger P
  have kept : Function.update s.mm P (s.caller P).mm = s.mm := Function.update_eq_self ..
  have free : c.activeMswp.freeFpList = s.activeMswp.freeFpList := same.swap.free
  refine ⟨sound.put ?_ low same.swap.maxsz ?_ fun pgn => ?_, fun fpn => ?_⟩
  · rw [same.mm]
    exact sound.extent P
  · rw [same.mm, free]
    exact before
  · rw [same.mm]
    exact sound.clean P pgn
  · rw [SwapPlaced, put_activeMswp, free, Sys.put, same.mm, kept, SwapPlaced]

end SwapLedger

variable [DecidableEq ι]

/-- The call is orderly, and a fault finds a free swap frame. -/
def Supplied (s : Sys ι) (label : ι × PageCall) : Prop :=
  (s.caller label.1).Orderly label.2 ∧
    ((s.caller label.1).Swaps label.2 → s.activeMswp.freeFpList ≠ [])

/-- The call is orderly, and it is not a fault. -/
def Settled (s : Sys ι) (label : ι × PageCall) : Prop :=
  (s.caller label.1).Orderly label.2 ∧ ¬ (s.caller label.1).Swaps label.2

/-- The free list of the swap device decides, so that the condition can be evaluated. -/
instance (s : Sys ι) (label : ι × PageCall) : Decidable (s.Supplied label) :=
  inferInstanceAs (Decidable (_ ∧ (_ → _)))

/-- The entry of the page that is fetched decides, so that the condition can be evaluated. -/
instance (s : Sys ι) (label : ι × PageCall) : Decidable (s.Settled label) :=
  inferInstanceAs (Decidable (_ ∧ ¬ _))

omit [DecidableEq ι] in
/-- A call for which swap need not be asked finds its frame in any case. -/
theorem Settled.supplied {label : ι × PageCall} (settled : s.Settled label) : s.Supplied label :=
  ⟨settled.1, fun swaps => absurd swaps settled.2⟩

/-- **One step** loses a frame exactly when it is a fault, and never finds a lost one again. -/
theorem SwapLedger.step (sound : s.SwapLedger) {label : ι × PageCall}
    (taken : Guarded LowStep Supplied s label t) :
    t.SwapLedger ∧ t.activeMswp.maxsz = s.activeMswp.maxsz ∧
      ((s.Settled label ∧ ∀ fpn, t.SwapPlaced fpn ↔ s.SwapPlaced fpn) ∨
        ¬ s.Settled label ∧ (∀ fpn, t.SwapPlaced fpn → s.SwapPlaced fpn) ∧
          ∃ fpn, s.activeMswp.Inside fpn ∧ ¬ t.SwapPlaced fpn) := by
  obtain ⟨P, call⟩ := label
  obtain ⟨⟨orderly, supply⟩, ⟨u, data, rfl⟩, low⟩ := taken
  rw [pageCall] at low ⊢
  rcases orderly.cases u data with
    ⟨originSize, isGrowth, result⟩ | ⟨-, ⟨still, same⟩ | ⟨swaps, fault⟩⟩
  · simp only at isGrowth
    subst isGrowth
    simp only [result] at low ⊢
    obtain ⟨after, placed⟩ := sound.incVmaLimit orderly low
    have size := ((s.caller P).incVmaLimit_devices originSize).2.1
    refine ⟨after, size, .inl ⟨⟨orderly, fun swaps => ?_⟩, placed⟩⟩
    obtain ⟨_, accessed, _⟩ := swaps
    cases accessed
  · obtain ⟨after, placed⟩ := sound.sameTables same low
    exact ⟨after, same.swap.maxsz, .inl ⟨⟨orderly, still⟩, placed⟩⟩
  · obtain ⟨pgn, vicpgn, fault⟩ := fault
    obtain ⟨after, placed, lost⟩ := sound.fault (supply swaps) fault low
    obtain ⟨_, -, size, -⟩ := fault.swap
    exact ⟨after, size, .inr ⟨fun settled => settled.2 swaps, placed, lost⟩⟩

/-- **A run** without faults loses nothing, and any other run has lost a frame. -/
theorem SwapLedger.run (sound : s.SwapLedger) {history : List (ι × PageCall)}
    (run : Run (Guarded LowStep Supplied) s history t) :
    t.SwapLedger ∧ t.activeMswp.maxsz = s.activeMswp.maxsz ∧
      (∀ fpn, t.SwapPlaced fpn → s.SwapPlaced fpn) ∧
      (Run (Guarded LowStep Settled) s history t ∨
        ∃ fpn, s.activeMswp.Inside fpn ∧ ¬ t.SwapPlaced fpn) := by
  induction run with
  | nil source => exact ⟨sound, rfl, fun _ => id, .inl (.nil source)⟩
  | cons taken _ ih =>
      obtain ⟨after, size, outcome⟩ := sound.step taken
      obtain ⟨sound, sizes, placed, rest⟩ := ih after
      refine ⟨sound, sizes.trans size, ?_⟩
      simp only [Memphy.Inside, size] at rest ⊢
      rcases outcome with ⟨settled, same⟩ | ⟨-, fewer, fpn, inside, lost⟩
      · exact ⟨fun fpn found => (same fpn).mp (placed fpn found),
          rest.imp_left fun rest => .cons ⟨settled, taken.2⟩ rest⟩
      · exact ⟨fun fpn found => fewer fpn (placed fpn found),
          .inr ⟨fpn, inside, fun found => lost (placed fpn found)⟩⟩

theorem SwapLedger.settled (sound : s.SwapLedger) {history : List (ι × PageCall)}
    (run : Run (Guarded LowStep Settled) s history t)
    (placed : ∀ fpn, s.activeMswp.Inside fpn → s.SwapPlaced fpn) :
    t.SwapLedger ∧ ∀ fpn, t.activeMswp.Inside fpn → t.SwapPlaced fpn := by
  refine run.invariant (fun state => state.SwapLedger ∧
    ∀ fpn, state.activeMswp.Inside fpn → state.SwapPlaced fpn) ?_ ⟨sound, placed⟩
  intro source label target ⟨sound, placed⟩ taken
  obtain ⟨after, size, outcome⟩ := sound.step ⟨taken.1.supplied, taken.2⟩
  obtain ⟨-, same⟩ := outcome.resolve_right fun ⟨unsettled, _⟩ => unsettled taken.1
  refine ⟨after, fun fpn inside => (same fpn).mpr (placed fpn ?_)⟩
  simpa only [Memphy.Inside, size] using inside

/-- **Swap frames are conserved** in a run of supplied calls exactly when none of its calls is
a fault: each fault loses the frame of the page that it brings in. -/
theorem swap_conserved {history : List (ι × PageCall)}
    (fresh : ∀ P, s.mm P = MmStruct.zeroed.initMm) (formatted : s.activeMswp.Formatted)
    (complete : ∀ fpn, s.activeMswp.Inside fpn → fpn ∈ s.activeMswp.freeFpList)
    (small : s.activeMswp.maxsz / 256 ≤ 2 ^ 21)
    (run : Run (Guarded LowStep Supplied) s history t) :
    t.SwapConserved ↔ Run (Guarded LowStep Settled) s history t := by
  have sound := SwapLedger.start fresh formatted small
  refine ⟨fun conserved => ?_, fun settled => ?_⟩
  · obtain ⟨after, size, -, outcome⟩ := sound.run run
    refine outcome.resolve_right fun ⟨fpn, inside, lost⟩ => lost ?_
    apply after.conserved_iff.mp conserved fpn
    simpa only [Memphy.Inside, size] using inside
  · obtain ⟨after, placed⟩ := sound.settled settled fun fpn inside => .inl (complete fpn inside)
    exact after.conserved_iff.mpr placed

/-- The third page of a process was fetched after the first three were mapped. -/
def refetched : Sys (Fin 2) :=
  threePages.pageCall .zeroed 0 (⟨0, Nat.two_pos⟩, .pgGetval 600)

/-- The growth over three pages, one of them in swap, is a settled step. -/
theorem threePages_step : Guarded LowStep Settled (boot (Fin 2) 512 1024) (0, .incVmaLimit 700)
    threePages := ⟨by decide +kernel, ⟨.zeroed, 0, rfl⟩, by decide +kernel⟩

/-- Fetching the page in swap is a supplied step, at the end of which a page is in its place. -/
theorem refetched_step : Guarded LowStep Supplied threePages (0, .pgGetval 600) refetched :=
  ⟨by decide +kernel, ⟨.zeroed, 0, rfl⟩, by decide +kernel⟩

/-- No swap frame is lost by the growth over three pages. -/
theorem swap_conserved_three_pages : threePages.SwapConserved :=
  (swap_conserved (fun _ => rfl) (Memphy.initMemphy_formatted ..)
    (fun _ inside => Memphy.initMemphy_free _ _ _ inside) (by decide)
    (.single ⟨threePages_step.1.supplied, threePages_step.2⟩)).mpr (.single threePages_step)

/-- Neither is the frame it was in free afterwards, nor does a page name it. -/
theorem fetched_frame_lost : ¬ ∀ (s t : Sys (Fin 2)) (history : List (Fin 2 × PageCall)),
    (∀ P, s.mm P = MmStruct.zeroed.initMm) → s.mram.Formatted → s.activeMswp.Formatted →
      (∀ fpn, s.activeMswp.Inside fpn → fpn ∈ s.activeMswp.freeFpList) →
      s.mram.maxsz / 256 ≤ 2 ^ 13 → s.activeMswp.maxsz / 256 ≤ 2 ^ 21 →
      Run (Guarded LowStep Supplied) s history t → t.SwapConserved := by
  intro claim
  have first : Guarded LowStep Supplied _ _ _ := ⟨threePages_step.1.supplied, threePages_step.2⟩
  have conserved := claim _ _ _ (fun _ => rfl) (Memphy.initMemphy_formatted ..)
    (Memphy.initMemphy_formatted ..) (fun _ inside => Memphy.initMemphy_free _ _ _ inside)
    (by decide) (by decide) (.cons first (.single refetched_step))
  have sound : (boot (Fin 2) 512 1024).SwapLedger :=
    .start (fun _ => rfl) (Memphy.initMemphy_formatted ..) (by decide)
  obtain ⟨after, size, outcome⟩ := (sound.step first).1.step refetched_step
  rcases outcome with ⟨settled, -⟩ | ⟨-, -, fpn, inside, lost⟩
  · exact absurd settled (by decide +kernel)
  · refine lost (after.conserved_iff.mp conserved fpn ?_)
    simpa only [Memphy.Inside, size] using inside

end Sys

end PagedOs
