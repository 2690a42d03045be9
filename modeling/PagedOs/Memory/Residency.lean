import PagedOs.Library.Recency
import PagedOs.Memory.Backing

/-! # Resident pages

Runs of growths that are granted and of accesses to mapped pages, and what they leave on
the list that victims are taken from. A growth lists the page behind each page it maps,
and the list is pushed and searched at the same end, so that the page found is the one
that arrived last.
-/

namespace PagedOs

open Recency Transition

variable {ι : Type*}

/-! ## Orderly calls -/

/-- The call grows the area. -/
def PageCall.IsGrowth : PageCall → Prop
  | .incVmaLimit _ => True
  | .pgGetval _ => False
  | .pgSetval _ _ => False

/-- Which calls grow the area is a matter of their shape. -/
instance (call : PageCall) : Decidable call.IsGrowth :=
  match call with
  | .incVmaLimit _ => .isTrue trivial
  | .pgGetval _ => .isFalse id
  | .pgSetval _ _ => .isFalse id

/-- The page an access is to; a growth is not about one page. -/
def PageCall.pgn : PageCall → Option Nat
  | .incVmaLimit _ => none
  | .pgGetval addr => some (pagingPgn addr)
  | .pgSetval addr _ => some (pagingPgn addr)

namespace MmStruct

variable {mm : MmStruct}

/-- A page of the table that is in RAM. -/
def resident (mm : MmStruct) (pgn : Nat) : Bool :=
  pgn < pagingMaxPgn && pagingPagePresent (mm.pgd pgn)

/-- The pages that are in RAM after a step and were not before it. -/
def arrived (mm mm' : MmStruct) : List Nat :=
  (List.range pagingMaxPgn).filter fun pgn => mm'.resident pgn && !mm.resident pgn

/-- A page is resident when the table has an entry for it and the entry is PRESENT. -/
theorem resident_iff {pgn : Nat} :
    mm.resident pgn = true ↔ pgn < pagingMaxPgn ∧ pagingPagePresent (mm.pgd pgn) = true := by
  rw [resident, Bool.and_eq_true, decide_eq_true_eq]

namespace Extent

/-- A mapped page is a page of the area. -/
theorem lt_of_mapped (extent : mm.Extent) {pgn : Nat} (mapped : Mapped (mm.pgd pgn)) :
    pgn < mm.endPgn := by
  by_contra outside
  rw [extent.behind pgn (Nat.le_of_not_lt outside)] at mapped
  exact absurd mapped (by decide)

/-- A page in RAM lies below the end of the area. -/
theorem lt_of_present (extent : mm.Extent) {pgn : Nat}
    (present : pagingPagePresent (mm.pgd pgn) = true) : pgn < mm.endPgn :=
  extent.lt_of_mapped (.inl present)

/-- So that a page in RAM is a page of the table. -/
theorem resident_eq (extent : mm.Extent) (pgn : Nat) :
    mm.resident pgn = pagingPagePresent (mm.pgd pgn) := by
  refine Bool.eq_iff_iff.mpr (resident_iff.trans ⟨And.right, fun present => ⟨?_, present⟩⟩)
  exact (extent.lt_of_present present).trans_le extent.endPgn_le

/-- A fault on a mapped page leaves the area its pages. -/
theorem exchanged (extent : mm.Extent) {pgn vicpgn : Nat} (swpfpn : Int)
    (mapped : Mapped (mm.pgd pgn)) (present : pagingPagePresent (mm.pgd vicpgn) = true) :
    (mm.exchanged pgn vicpgn swpfpn).Extent where
  low := extent.low
  aligned := extent.aligned
  mapped := fun page inside => exchanged_mapped swpfpn (extent.mapped page inside)
  behind := fun page outside => by
    have outside : mm.endPgn ≤ page := outside
    have isPage := extent.lt_of_mapped mapped
    have isVictim := extent.lt_of_present present
    rw [exchanged_pgd_of_ne (by omega) (by omega)]
    exact extent.behind page outside

end Extent

end MmStruct

namespace Caller

variable {c c' : Caller}

/-- A growth has a positive `int` size and returns 0; an access is to a mapped page. -/
def Orderly (c : Caller) : PageCall → Prop
  | .incVmaLimit originSize =>
      (1 ≤ originSize ∧ originSize < 2 ^ 31) ∧ (c.incVmaLimit originSize).1 = 0
  | .pgGetval addr => Mapped (c.mm.pgd (pagingPgn addr))
  | .pgSetval addr _ => Mapped (c.mm.pgd (pagingPgn addr))

/-- Whether a call is orderly is read off its size or the entry that it accesses. -/
instance (c : Caller) (call : PageCall) : Decidable (c.Orderly call) :=
  match call with
  | .incVmaLimit _ => inferInstanceAs (Decidable ((_ ∧ _) ∧ _))
  | .pgGetval _ => inferInstanceAs (Decidable (Mapped _))
  | .pgSetval _ _ => inferInstanceAs (Decidable (Mapped _))

/-- The call is an access to a page that is not in RAM, and a page on the list is. -/
def Swaps (c : Caller) (call : PageCall) : Prop :=
  ∃ pgn ∈ call.pgn, pagingPagePresent (c.mm.pgd pgn) = false ∧
    ∃ page ∈ c.mm.fifoPgn, pagingPagePresent (c.mm.pgd page) = true

/-- Whether a call is a page fault with a victim is read off the table and the list. -/
instance (c : Caller) (call : PageCall) : Decidable (c.Swaps call) :=
  inferInstanceAs (Decidable (∃ _ ∈ _, _ ∧ _))

/-- The pages and the frames of the devices are as they were. -/
structure SameTables (c c' : Caller) : Prop where
  mm : c'.mm = c.mm
  ram : Memphy.SameFrames c.mram c'.mram
  swap : Memphy.SameFrames c.activeMswp c'.activeMswp

/-- A fault on a mapped page that finds a victim. -/
structure Fault (c : Caller) (pgn vicpgn : Nat) (c' : Caller) : Prop where
  inside : pgn < pagingMaxPgn
  mapped : Mapped (c.mm.pgd pgn)
  absent : pagingPagePresent (c.mm.pgd pgn) = false
  victim : c.mm.findVictimPage = some vicpgn
  distinct : vicpgn ≠ pgn
  ram : Memphy.SameFrames c.mram c'.mram
  swap : ∃ swpfpn, c'.mm = c.mm.exchanged pgn vicpgn swpfpn ∧
    c'.activeMswp.maxsz = c.activeMswp.maxsz ∧
    ∀ fpn rest, c.activeMswp.freeFpList = fpn :: rest →
      swpfpn = fpn ∧ c'.activeMswp.freeFpList = rest

/-- An access changes nothing or is a fault. -/
theorem pgGetpage_fault (c : Caller) (u : Uninit) {call : PageCall} {pgn : Nat}
    (accessed : call.pgn = some pgn) (inside : pgn < pagingMaxPgn)
    (mapped : Mapped (c.mm.pgd pgn)) {mram : Memphy}
    (frames : Memphy.SameFrames (c.pgGetpage u pgn).2.mram mram) :
    (¬ c.Swaps call ∧ c.SameTables { (c.pgGetpage u pgn).2 with mram := mram }) ∨
      c.Swaps call ∧ ∃ vicpgn, c.Fault pgn vicpgn { (c.pgGetpage u pgn).2 with mram := mram } := by
  have ram := (c.pgGetpage_mram u pgn).trans frames
  have onPage : ∀ other ∈ call.pgn, other = pgn := by
    rw [accessed]
    exact fun other same => (Option.some_inj.mp same).symm
  rcases c.pgGetpage_cases u pgn with
    ⟨present, result⟩ | ⟨-, none, result⟩ | ⟨vicpgn, absent, victim, distinct, result⟩
  · refine .inl ⟨?_, by rw [result], ram, by rw [result]; exact .refl _⟩
    rintro ⟨other, same, absent, -⟩
    rw [onPage other same, present] at absent
    cases absent
  · refine .inl ⟨?_, by rw [result], ram, by rw [result]; exact .refl _⟩
    rintro ⟨-, -, -, page, member, present⟩
    exact List.find?_eq_none.mp none page member present
  · have swap := c.faulted_activeMswp u pgn vicpgn
    rw [result]
    refine .inr ⟨⟨pgn, accessed, absent, vicpgn, MmStruct.findVictimPage_some victim⟩, vicpgn,
      inside, mapped, absent, victim, distinct, ram, _, rfl, ?_, fun fpn rest free => ?_⟩
    · rw [swap.maxsz]
      unfold Memphy.memphyGetFreefp
      split <;> rfl
    · have popped : (c.activeMswp.memphyGetFreefp u.swpfpn).2 =
          (fpn, { c.activeMswp with freeFpList := rest }) := by
        simp only [Memphy.memphyGetFreefp, free]
      rw [swap.free, popped]
      exact ⟨rfl, rfl⟩

/-- **Everything an orderly call can do.** -/
theorem Orderly.cases {call : PageCall} (orderly : c.Orderly call) (u : Uninit) (data : Byte) :
    (∃ originSize, call = .incVmaLimit originSize ∧
        c.pageCall u data call = (c.incVmaLimit originSize).2) ∨
      ¬ call.IsGrowth ∧ ((¬ c.Swaps call ∧ c.SameTables (c.pageCall u data call)) ∨
        c.Swaps call ∧ ∃ pgn vicpgn, c.Fault pgn vicpgn (c.pageCall u data call)) := by
  cases call with
  | incVmaLimit originSize => exact .inl ⟨originSize, rfl, rfl⟩
  | pgGetval addr =>
      refine .inr ⟨id, ?_⟩
      simp only [pageCall]
      rw [pgGetval_caller]
      exact (c.pgGetpage_fault u rfl (pagingPgn_lt addr) orderly (.refl _)).imp_right
        (And.imp_right fun fault => ⟨_, fault⟩)
  | pgSetval addr value =>
      refine .inr ⟨id, ?_⟩
      simp only [pageCall]
      obtain ⟨mram, frames, written⟩ := c.pgSetval_caller u addr value
      rw [written]
      exact (c.pgGetpage_fault u rfl (pagingPgn_lt addr) orderly frames).imp_right
        (And.imp_right fun fault => ⟨_, fault⟩)

/-- An orderly growth that ends in the address range. -/
theorem Orderly.grew {originSize : Int} (orderly : c.Orderly (.incVmaLimit originSize))
    (extent : c.mm.Extent)
    (low : (c.incVmaLimit originSize).2.mm.mmap.vmEnd.toNat ≤ 2 ^ 22) :
    (c.incVmaLimit originSize).2.mm.Extent ∧
      ∃ ram swap, c.Grew originSize.toNat (c.incVmaLimit originSize).2 ram swap := by
  obtain ⟨⟨positive, small⟩, granted⟩ := orderly
  obtain ⟨size, rfl⟩ := Int.eq_ofNat_of_zero_le (show 0 ≤ originSize by omega)
  obtain ⟨notFull, left⟩ := (c.granted_iff size).mp granted
  rw [incVmaLimit_vmEnd, notFull, if_neg Bool.false_ne_true] at low
  have room := room_of_low extent.toBacked (by omega) low
  obtain ⟨-, grew⟩ := incVmaLimit_grew extent.toBacked room notFull left
  exact ⟨grew.extent extent room, _, _, grew⟩

/-- A fault keeps the mapped pages those of the area. -/
theorem Fault.extent {pgn vicpgn : Nat} (fault : c.Fault pgn vicpgn c') (extent : c.mm.Extent) :
    c'.mm.Extent := by
  obtain ⟨swpfpn, table, -⟩ := fault.swap
  rw [table]
  exact extent.exchanged swpfpn fault.mapped (MmStruct.findVictimPage_some fault.victim).2

end Caller

/-! ## Candidates -/

namespace MmStruct

/-- The pages that are candidates for replacement are those in RAM. -/
structure Complete (mm : MmStruct) : Prop where
  listed : ∀ pgn, mm.resident pgn = true → pgn ∈ mm.fifoPgn
  inside : ∀ pgn ∈ mm.fifoPgn, pgn < mm.mmap.vmEnd.toNat / 256
  victim : (∃ pgn, mm.resident pgn = true) → mm.findVictimPage.isSome = true

/-- Behind `init_mm` on zero-filled memory no page is mapped. -/
theorem start_unmapped (pgn : Nat) : ¬ Mapped (MmStruct.zeroed.initMm.pgd pgn) :=
  show ¬ Mapped 0 by decide

theorem start_not_resident (pgn : Nat) : ¬ MmStruct.zeroed.initMm.resident pgn = true :=
  fun present => start_unmapped pgn (.inl (resident_iff.mp present).2)

/-- Nothing is in RAM and nothing is listed. -/
theorem start_complete : MmStruct.zeroed.initMm.Complete where
  listed := fun pgn present => absurd present (start_not_resident pgn)
  inside := fun _ member => absurd member List.not_mem_nil
  victim := fun ⟨pgn, present⟩ => absurd present (start_not_resident pgn)

end MmStruct

namespace Caller

variable {c c' : Caller}

/-- A process that has no page yet makes no orderly access. -/
theorem Orderly.isGrowth_of_fresh {call : PageCall} (orderly : c.Orderly call)
    (fresh : c.mm = MmStruct.zeroed.initMm) : call.IsGrowth := by
  have unmapped : ∀ pgn, ¬ Mapped (c.mm.pgd pgn) := by
    rw [fresh]
    exact MmStruct.start_unmapped
  cases call with
  | incVmaLimit originSize => trivial
  | pgGetval addr => exact absurd orderly (unmapped _)
  | pgSetval addr value => exact absurd orderly (unmapped _)

/-- A growth lists the page behind the last page it maps. -/
theorem Grew.endPgn_listed {size : Nat} {ram swap : List Int} (grew : c.Grew size c' ram swap)
    (before : c'.mm.endPgn = c.mm.endPgn → c.mm.endPgn ∈ c.mm.fifoPgn) :
    c'.mm.endPgn ∈ c'.mm.fifoPgn := by
  have pages := grew.pages
  rw [grew.listed, List.mem_append, List.mem_reverse, List.mem_range'_1]
  by_cases none : c'.mm.endPgn = c.mm.endPgn
  · rw [none]
    exact .inr (before none)
  · exact .inl (by omega)

end Caller

namespace Sys

variable [DecidableEq ι] {s t : Sys ι} {P : ι}

/-- A process makes a call; the label names the pages of it that came into RAM. The calls
of `P` are orderly, and its area ends below 2^22, so that every page it lists has an
entry. -/
def OrderlyStep (P : ι) (s : Sys ι) (label : ι × PageCall × List Nat) (t : Sys ι) : Prop :=
  (∃ u data, t = s.pageCall u data (label.1, label.2.1)) ∧
    label.2.2 = (s.mm label.1).arrived (t.mm label.1) ∧
    (label.1 = P → (s.caller P).Orderly label.2.1) ∧ (t.mm P).mmap.vmEnd.toNat < 2 ^ 22

/-- A call that is orderly and keeps the area low is a step, labelled with the pages that arrived.
-/
theorem orderlyStep_pageCall (u : Uninit) (data : Byte) {call : PageCall}
    (orderly : (s.caller P).Orderly call)
    (low : ((s.pageCall u data (P, call)).mm P).mmap.vmEnd.toNat < 2 ^ 22) :
    OrderlyStep P s (P, call, (s.mm P).arrived ((s.pageCall u data (P, call)).mm P))
      (s.pageCall u data (P, call)) := by
  refine ⟨⟨u, data, rfl⟩, ?_, fun _ => orderly, low⟩
  -- the page table is too large to be unfolded
  simp only

/-- **Everything an orderly step can do** to the process, in terms of what it sees. -/
theorem OrderlyStep.cases {label : ι × PageCall × List Nat} (extent : (s.mm P).Extent)
    (taken : OrderlyStep P s label t) :
    (label.1 ≠ P ∧ t.mm P = s.mm P) ∨
      label.1 = P ∧ label.2.2 = (s.mm P).arrived (t.mm P) ∧ (s.caller P).Orderly label.2.1 ∧
        ((label.2.1.IsGrowth ∧ ∃ size ram swap, 0 < size ∧ (t.mm P).Extent ∧
            (s.caller P).Grew size (t.caller P) ram swap) ∨
          ¬ label.2.1.IsGrowth ∧
            ((¬ (s.caller P).Swaps label.2.1 ∧ (s.caller P).SameTables (t.caller P)) ∨
              (s.caller P).Swaps label.2.1 ∧
                ∃ pgn vicpgn, (s.caller P).Fault pgn vicpgn (t.caller P))) := by
  obtain ⟨Q, call, pages⟩ := label
  obtain ⟨⟨u, data, rfl⟩, named, own, low⟩ := taken
  by_cases self : Q = P
  · subst self
    have after : (s.pageCall u data (Q, call)).caller Q = (s.caller Q).pageCall u data call := by
      simp only [pageCall, caller, put_mm_self, put_mram, put_activeMswp]
    refine .inr ⟨rfl, named, own rfl, ?_⟩
    have reached : (s.pageCall u data (Q, call)).mm Q = ((s.caller Q).pageCall u data call).mm :=
      congrArg Caller.mm after
    rw [after]
    rw [reached] at low ⊢
    rcases (own rfl).cases u data with ⟨originSize, isGrowth, result⟩ | access
    · subst isGrowth
      have orderly := own rfl
      rw [result] at low ⊢
      obtain ⟨extent, ram, swap, grew⟩ := orderly.grew extent low.le
      have positive := orderly.1.1
      exact .inl ⟨trivial, _, ram, swap, by omega, extent, grew⟩
    · exact .inr access
  · exact .inl ⟨self, put_mm_of_ne s (Ne.symm self) _⟩

/-- Before its first growth a process has no page; afterwards it lists the page behind its
area. -/
theorem listed_behind {history : List (ι × PageCall × List Nat)}
    (fresh : s.mm P = MmStruct.zeroed.initMm) (run : Run (OrderlyStep P) s history t) :
    ((∀ label ∈ history, label.1 = P → ¬ label.2.1.IsGrowth) ∧ t.mm P = MmStruct.zeroed.initMm) ∨
      (∃ label ∈ history, label.1 = P ∧ label.2.1.IsGrowth) ∧ (t.mm P).Extent ∧
        (t.mm P).endPgn ∈ (t.mm P).fifoPgn := by
  refine run.history_invariant (fun past state =>
    ((∀ label ∈ past, label.1 = P → ¬ label.2.1.IsGrowth) ∧ state.mm P = MmStruct.zeroed.initMm) ∨
      (∃ label ∈ past, label.1 = P ∧ label.2.1.IsGrowth) ∧ (state.mm P).Extent ∧
        (state.mm P).endPgn ∈ (state.mm P).fifoPgn)
    (fun past source label target before taken => ?_)
    (.inl ⟨fun _ none => absurd none List.not_mem_nil, fresh⟩)
  have extent : (source.mm P).Extent := by
    rcases before with ⟨-, unused⟩ | ⟨-, extent, -⟩
    · rw [unused]
      exact .start
    · exact extent
  rcases taken.cases extent with ⟨other, kept⟩ | ⟨self, -, orderly, outcome⟩
  · rw [kept]
    refine before.imp (And.imp_left fun none => ?_)
      (And.imp_left fun ⟨found, member, own⟩ => ⟨found, List.mem_append_left _ member, own⟩)
    intro found member own
    rcases List.mem_append.mp member with member | member
    · exact none found member own
    · rw [List.mem_singleton.mp member] at own
      exact absurd own other
  · right
    have grows : label.2.1.IsGrowth → ∃ found ∈ past ++ [label], found.1 = P ∧ found.2.1.IsGrowth :=
      fun growth => ⟨label, List.mem_append_right _ List.mem_cons_self, self, growth⟩
    rcases outcome with ⟨growth, size, ram, swap, positive, after, grew⟩ | ⟨access, outcome⟩
    · refine ⟨grows growth, after, grew.endPgn_listed fun same => ?_⟩
      rcases before with ⟨-, unused⟩ | ⟨-, -, listed⟩
      · -- the first growth maps a page, as the break is at the start of the area
        have vmEnd := grew.vmEnd
        have old : ((source.caller P).mm).endPgn = 0 := congrArg MmStruct.endPgn unused
        have start : (source.caller P).mm.mmap.sbrk.toNat = 0 :=
          congrArg (fun mm => mm.mmap.sbrk.toNat) unused
        rw [old, MmStruct.endPgn] at same
        omega
      · exact listed
    · have grown : ((∃ label ∈ past, label.1 = P ∧ label.2.1.IsGrowth) ∧ (source.mm P).Extent ∧
          (source.mm P).endPgn ∈ (source.mm P).fifoPgn) := by
        rcases before with ⟨-, unused⟩ | grown
        · exact absurd (orderly.isGrowth_of_fresh unused) access
        · exact grown
      obtain ⟨⟨found, member, own⟩, -, listed⟩ := grown
      refine ⟨⟨found, List.mem_append_left _ member, own⟩, ?_⟩
      rcases outcome with ⟨-, same⟩ | ⟨-, pgn, vicpgn, fault⟩
      · rw [show target.mm P = source.mm P from same.mm]
        exact ⟨extent, listed⟩
      · refine ⟨fault.extent extent, ?_⟩
        obtain ⟨swpfpn, table, -⟩ := fault.swap
        rw [show target.mm P = _ from table]
        exact List.mem_cons_of_mem _ listed

/-- **The candidates for replacement are complete** exactly until the process grows for the
first time: the page recorded with each page mapped is the next one. -/
theorem candidates_complete {history : List (ι × PageCall × List Nat)}
    (fresh : s.mm P = MmStruct.zeroed.initMm) (run : Run (OrderlyStep P) s history t) :
    (t.mm P).Complete ↔ ∀ label ∈ history, label.1 = P → ¬ label.2.1.IsGrowth := by
  rcases listed_behind fresh run with ⟨none, unused⟩ | ⟨⟨label, member, self, growth⟩, -, listed⟩
  · rw [unused]
    exact iff_of_true MmStruct.start_complete none
  · refine iff_of_false (fun complete => ?_) fun none => none label member self growth
    exact Nat.lt_irrefl _ (complete.inside _ listed)

/-- A process that has grown over one page. -/
def onePage : Sys Unit := (boot Unit 512 1024).pageCall .zeroed 0 ((), .incVmaLimit 100)

theorem onePage_step : OrderlyStep () (boot Unit 512 1024)
    ((), .incVmaLimit 100, ((boot Unit 512 1024).mm ()).arrived (onePage.mm ())) onePage :=
  orderlyStep_pageCall .zeroed 0 (by decide) (by decide)

/-- With one page in RAM the candidates are incomplete: the list holds the page behind it. -/
theorem candidates_complete_one_page : ¬ (onePage.mm ()).Complete := by
  apply (candidates_complete rfl (.single onePage_step)).not.mpr
  intro none
  exact none _ List.mem_cons_self rfl trivial

/-- Its only page is in RAM and not listed. -/
theorem first_page_unlisted : ¬ ∀ (s t : Sys Unit) (history : List (Unit × PageCall × List Nat)),
    s.mram.Formatted → s.activeMswp.Formatted → (∀ P, s.mm P = MmStruct.zeroed.initMm) →
      Run (OrderlyStep ()) s history t → (t.mm ()).Complete := by
  intro claim
  have complete := claim _ _ _ (Memphy.initMemphy_formatted ..) (Memphy.initMemphy_formatted ..)
    (fun _ => rfl) (.single onePage_step)
  exact absurd (complete.listed 0 (by decide)) (by decide)

end Sys

/-! ## The order of replacement -/

namespace MmStruct

variable {mm mm' : MmStruct}

/-- When the pages of a range come into RAM and no others, they are what arrived, in increasing
order. -/
theorem arrived_eq {start count : Nat} (inside : start + count ≤ pagingMaxPgn)
    (exactly : ∀ pgn, mm'.resident pgn = true ∧ mm.resident pgn = false ↔
      start ≤ pgn ∧ pgn < start + count) : mm.arrived mm' = List.range' start count :=
  filter_range_eq inside fun pgn _ => by
    rw [← exactly pgn, Bool.and_eq_true, Bool.not_eq_true']

theorem arrived_self : mm.arrived mm = [] :=
  arrived_eq (show 0 + 0 ≤ pagingMaxPgn from Nat.zero_le _) fun pgn => by
    refine iff_of_false (fun ⟨there, absent⟩ => ?_) (by omega)
    rw [there] at absent
    cases absent

/-- After a fault the page is in RAM and the victim is not. -/
theorem exchanged_resident {pgn vicpgn : Nat} (swpfpn : Int) (inside : pgn < pagingMaxPgn)
    (distinct : vicpgn ≠ pgn) (page : Nat) :
    (mm.exchanged pgn vicpgn swpfpn).resident page = true ↔
      page = pgn ∨ page ≠ vicpgn ∧ mm.resident page = true := by
  rw [resident_iff, resident_iff]
  by_cases isPage : page = pgn
  · subst isPage
    rw [exchanged_pgd_self, pagingPagePresent_pteSetFpn]
    exact iff_of_true ⟨inside, rfl⟩ (.inl rfl)
  · by_cases isVictim : page = vicpgn
    · subst isVictim
      rw [exchanged_pgd_victim isPage, pagingPagePresent_pteSetSwap]
      simp [isPage]
    · rw [exchanged_pgd_of_ne isPage isVictim]
      simp [isPage, isVictim]

end MmStruct

namespace Caller

variable {c c' : Caller}

/-- After a growth the pages in RAM are those there were and the ones that got RAM frames. -/
theorem Grew.resident {size : Nat} {ram swap : List Int} (extent : c.mm.Extent)
    (after : c'.mm.Extent) (grew : c.Grew size c' ram swap) (pgn : Nat) :
    c'.mm.resident pgn = true ↔ c.mm.resident pgn = true ∨
      c.mm.endPgn ≤ pgn ∧ pgn < c.mm.endPgn + ram.length := by
  rw [after.resident_eq, extent.resident_eq]
  have pages := grew.pages
  have absent : c.mm.endPgn ≤ pgn → ¬ pagingPagePresent (c.mm.pgd pgn) = true :=
    fun outside present => Nat.lt_irrefl _ ((extent.lt_of_present present).trans_le outside)
  rcases grew.page_cases pgn with ⟨old, entry⟩ | ⟨fpn, -, new, entry⟩ | ⟨fpn, -, new, entry⟩
  · rw [entry, or_iff_left (by omega)]
  · rw [entry, pagingPagePresent_pteSetFpn]
    exact iff_of_true rfl (.inr new)
  · rw [entry, pagingPagePresent_pteSetSwap, or_iff_right (absent (by omega))]
    exact iff_of_false Bool.false_ne_true (by omega)

/-- The pages that arrive with a growth, in increasing order. -/
theorem Grew.arrived {size : Nat} {ram swap : List Int} (extent : c.mm.Extent)
    (after : c'.mm.Extent) (grew : c.Grew size c' ram swap) :
    c.mm.arrived c'.mm = List.range' c.mm.endPgn ram.length := by
  have bound := after.endPgn_le
  have pages := grew.pages
  apply MmStruct.arrived_eq (by omega)
  intro pgn
  rw [grew.resident extent after]
  refine ⟨fun ⟨there, absent⟩ => there.resolve_left (Bool.eq_false_iff.mp absent), fun new =>
    ⟨.inr new, Bool.eq_false_iff.mpr fun present => ?_⟩⟩
  have := extent.lt_of_present (MmStruct.resident_iff.mp present).2
  omega

/-- The one page that arrives with a fault. -/
theorem Fault.arrived {pgn vicpgn : Nat} (fault : c.Fault pgn vicpgn c') :
    c.mm.arrived c'.mm = [pgn] := by
  obtain ⟨swpfpn, table, -⟩ := fault.swap
  have absent : c.mm.resident pgn = false := Bool.eq_false_iff.mpr fun present => by
    have there := (MmStruct.resident_iff.mp present).2
    rw [fault.absent] at there
    cases there
  refine (MmStruct.arrived_eq (show pgn + 1 ≤ pagingMaxPgn from fault.inside)
    fun page => ?_).trans rfl
  rw [table, MmStruct.exchanged_resident swpfpn fault.inside fault.distinct]
  refine ⟨fun ⟨there, before⟩ => ?_, fun here => ?_⟩
  · rcases there with rfl | ⟨-, present⟩
    · omega
    · rw [present] at before
      cases before
  · obtain rfl : page = pgn := by omega
    exact ⟨.inl rfl, absent⟩

/-- **The victim is the newest arrival.** What holds of a process and of the pages that have
arrived so far: a growth that still gets RAM frames goes on where the list begins, and
once a page had to go to swap there are no RAM frames left. -/
structure NewestFirst (c : Caller) (arrivals : List Nat) : Prop where
  extent : c.mm.Extent
  inside : ∀ pgn ∈ arrivals, pgn < c.mm.endPgn
  victim : c.mm.findVictimPage = none ∨ c.mm.findVictimPage = newest arrivals c.mm.resident
  head : c.mram.freeFpList ≠ [] → c.mm.fifoPgn = [] ∨ c.mm.fifoPgn.head? = some c.mm.endPgn
  full : ∀ pgn, Mapped (c.mm.pgd pgn) → pagingPagePresent (c.mm.pgd pgn) = false →
    c.mram.freeFpList = []

namespace NewestFirst

variable {arrivals : List Nat}

/-- Nothing has arrived in an address space as `init_mm` leaves it. -/
theorem start (fresh : c.mm = MmStruct.zeroed.initMm) : c.NewestFirst [] := by
  obtain ⟨mm, mram, mswp⟩ := c
  obtain rfl : mm = MmStruct.zeroed.initMm := fresh
  exact
    { extent := .start
      inside := fun _ member => absurd member List.not_mem_nil
      victim := .inl rfl
      head := fun _ => .inl rfl
      full := fun pgn mapped _ => absurd mapped (MmStruct.start_unmapped pgn) }

theorem drop (first : c.NewestFirst arrivals) (same : c'.mm = c.mm)
    (fewer : c'.mram.freeFpList <:+ c.mram.freeFpList) : c'.NewestFirst arrivals := by
  have emptied : c.mram.freeFpList = [] → c'.mram.freeFpList = [] := fun empty =>
    List.suffix_nil.mp (empty ▸ fewer)
  obtain ⟨extent, inside, victim, head, full⟩ := first
  rw [← same] at extent inside victim head full
  exact ⟨extent, inside, victim, fun some => head (mt emptied some),
    fun pgn mapped absent => emptied (full pgn mapped absent)⟩

/-- A fault puts the page that arrives in front of the list, and its victim was the newest page on
it. -/
theorem fault (first : c.NewestFirst arrivals) {pgn vicpgn : Nat}
    (fault : c.Fault pgn vicpgn c') : c'.NewestFirst (arrivals ++ c.mm.arrived c'.mm) := by
  have empty := first.full pgn fault.mapped fault.absent
  have emptied : c'.mram.freeFpList = [] := fault.ram.free.trans empty
  rw [fault.arrived]
  obtain ⟨swpfpn, table, -⟩ := fault.swap
  have there : (c.mm.exchanged pgn vicpgn swpfpn).resident pgn = true :=
    (MmStruct.exchanged_resident swpfpn fault.inside fault.distinct pgn).mpr (.inl rfl)
  refine ⟨fault.extent first.extent, fun page member => ?_, .inr ?_,
    fun some => absurd emptied some, fun _ _ _ => emptied⟩
  · rw [table]
    rcases List.mem_append.mp member with member | member
    · exact first.inside page member
    · rw [List.mem_singleton.mp member]
      exact first.extent.lt_of_mapped fault.mapped
  · rw [table, newest_append_singleton there]
    exact List.find?_cons_of_pos (MmStruct.resident_iff.mp there).2

/-- A call that leaves the table and the list lets no page arrive. -/
theorem same (first : c.NewestFirst arrivals) (same : c.SameTables c') :
    c'.NewestFirst (arrivals ++ c.mm.arrived c'.mm) := by
  rw [same.mm, MmStruct.arrived_self, List.append_nil]
  exact first.drop same.mm (same.ram.free ▸ List.suffix_refl _)

/-- A growth that gets no RAM frame lists pages that are not in RAM. -/
theorem victim_of_swapped {size : Nat} {swap : List Int} (extent : c.mm.Extent)
    (after : c'.mm.Extent) (grew : c.Grew size c' [] swap) :
    c'.mm.findVictimPage = c.mm.findVictimPage ∧ c'.mm.resident = c.mm.resident := by
  have same : c'.mm.resident = c.mm.resident := by
    funext pgn
    have there := grew.resident extent after pgn
    rw [List.length_nil, or_iff_left (by omega)] at there
    exact Bool.eq_iff_iff.mpr there
  have present : (fun pgn => pagingPagePresent (c'.mm.pgd pgn)) =
      fun pgn => pagingPagePresent (c.mm.pgd pgn) := by
    funext pgn
    rw [← after.resident_eq, ← extent.resident_eq, same]
  refine ⟨?_, same⟩
  rw [MmStruct.findVictimPage, MmStruct.findVictimPage, present, grew.listed, List.find?_append,
    List.find?_eq_none.mpr, Option.none_or]
  intro pgn member absent
  rw [List.mem_reverse, List.mem_range'_1] at member
  have := extent.lt_of_present absent
  omega

/-- A growth that gets RAM frames lists the page behind the last one of them, the pages
before it down to the second, and the first is at the front of the old list. -/
theorem victim_of_ram (first : c.NewestFirst arrivals) {size : Nat} {fpn : Int}
    {ram swap : List Int} (after : c'.mm.Extent) (grew : c.Grew size c' (fpn :: ram) swap) :
    c'.mm.findVictimPage = none ∨ c'.mm.findVictimPage = some (c.mm.endPgn + ram.length) := by
  have there := fun pgn => grew.resident first.extent after pgn
  have present : ∀ pgn, pagingPagePresent (c'.mm.pgd pgn) = true ↔
      c.mm.resident pgn = true ∨ c.mm.endPgn ≤ pgn ∧ pgn < c.mm.endPgn + (ram.length + 1) :=
    fun pgn => by rw [← after.resident_eq, there pgn, List.length_cons]
  have newest : pagingPagePresent (c'.mm.pgd (c.mm.endPgn + ram.length)) = true :=
    (present _).mpr (.inr (by omega))
  have behind : ∀ pgn, c.mm.endPgn + (ram.length + 1) ≤ pgn →
      ¬ pagingPagePresent (c'.mm.pgd pgn) = true := by
    intro pgn outside found
    rcases (present pgn).mp found with old | new
    · have := first.extent.lt_of_present (MmStruct.resident_iff.mp old).2
      omega
    · omega
  have split : (List.range' (c.mm.endPgn + 1) (ram.length + 1 + swap.length)).reverse =
      (List.range' (c.mm.endPgn + 1 + ram.length) (swap.length + 1)).reverse ++
        (List.range' (c.mm.endPgn + 1) ram.length).reverse := by
    rw [← List.reverse_append, List.range'_append_1]
    congr 2
    omega
  have unlisted : (List.range' (c.mm.endPgn + 1 + ram.length) (swap.length + 1)).reverse.find?
      (fun pgn => pagingPagePresent (c'.mm.pgd pgn)) = none := by
    refine List.find?_eq_none.mpr fun pgn member => behind pgn ?_
    rw [List.mem_reverse, List.mem_range'_1] at member
    omega
  rw [MmStruct.findVictimPage, grew.listed, List.length_cons, split, List.append_assoc,
    List.find?_append, unlisted, Option.none_or]
  cases ram with
  | cons second ram =>
      -- the last page that got a RAM frame was listed by the one before it
      have index : c.mm.endPgn + 1 + 1 * ram.length = c.mm.endPgn + (ram.length + 1) := by omega
      rw [List.length_cons] at newest ⊢
      rw [List.range'_concat, List.reverse_append, List.reverse_singleton, List.singleton_append,
        List.cons_append, index]
      exact .inr (List.find?_cons_of_pos newest)
  | nil =>
      have some : c.mram.freeFpList ≠ [] := by
        rw [grew.ramTaken]
        exact List.cons_ne_nil _ _
      rcases first.head some with empty | head
      · rw [empty]
        exact .inl rfl
      · obtain ⟨rest, listed⟩ := List.head?_eq_some_iff.mp head
        rw [listed]
        exact .inr (List.find?_cons_of_pos newest)

/-- A growth lists its pages in falling order, behind which the older ones stand. -/
theorem growth (first : c.NewestFirst arrivals) {size : Nat} {ram swap : List Int}
    (after : c'.mm.Extent) (grew : c.Grew size c' ram swap) :
    c'.NewestFirst (arrivals ++ c.mm.arrived c'.mm) := by
  have pages := grew.pages
  rw [grew.arrived first.extent after]
  refine ⟨after, fun pgn member => ?_, ?_, fun left => ?_, fun pgn mapped absent => ?_⟩
  · rcases List.mem_append.mp member with member | member
    · have := first.inside pgn member
      omega
    · rw [List.mem_range'_1] at member
      omega
  · cases ram with
    | nil =>
        obtain ⟨victim, resident⟩ := victim_of_swapped first.extent after grew
        rw [victim, resident, List.length_nil, List.range'_zero, List.append_nil]
        exact first.victim
    | cons fpn ram =>
        apply (first.victim_of_ram after grew).imp_right
        intro found
        have there : c'.mm.resident (c.mm.endPgn + 1 * ram.length) = true :=
          (grew.resident first.extent after _).mpr
            (.inr ⟨by omega, by rw [List.length_cons]; omega⟩)
        rw [found, List.length_cons, List.range'_concat, ← List.append_assoc,
          newest_append_singleton there, Nat.one_mul]
  · have before : c.mram.freeFpList ≠ [] := by
      rw [grew.ramTaken]
      exact List.append_ne_nil_of_right_ne_nil _ left
    rw [grew.listed, pages]
    generalize ram.length + swap.length = count
    cases count with
    | zero => exact first.head before
    | succ count =>
        rw [List.range'_concat, List.reverse_append, List.reverse_singleton,
          List.singleton_append, List.cons_append, List.head?_cons]
        exact .inr (congrArg some (by omega))
  · by_cases old : pgn < c.mm.endPgn
    · rw [grew.kept pgn (.inl old)] at mapped absent
      have empty := first.full pgn mapped absent
      rw [grew.ramTaken] at empty
      exact (List.append_eq_nil_iff.mp empty).2
    · have inside := after.lt_of_mapped mapped
      apply grew.ramFirst
      intro none
      have there := (grew.resident first.extent after pgn).mpr
        (.inr ⟨by omega, by rw [none, List.length_nil] at pages; omega⟩)
      rw [(MmStruct.resident_iff.mp there).2] at absent
      cases absent

end NewestFirst

/-- **The first page stays.** It is never listed, as a growth lists the page behind each one that it
maps, and it is in RAM whenever a page of the process is. -/
structure FirstStays (c : Caller) : Prop where
  unlisted : 0 ∉ c.mm.fifoPgn
  resident : ∀ pgn, c.mm.resident pgn = true → c.mm.resident 0 = true

namespace FirstStays

variable {arrivals : List Nat}

/-- As long as the area is empty there is no first page to lose. -/
theorem start (fresh : c.mm = MmStruct.zeroed.initMm) : c.FirstStays := by
  refine ⟨?_, fun pgn there => ?_⟩
  · rw [fresh]
    exact List.not_mem_nil
  · rw [fresh] at there
    exact absurd there (MmStruct.start_not_resident pgn)

/-- Page 0 stays where the address space stays. -/
theorem drop (stays : c.FirstStays) (same : c'.mm = c.mm) : c'.FirstStays := by
  refine ⟨?_, fun pgn there => ?_⟩
  · rw [same]
    exact stays.unlisted
  · rw [same] at there ⊢
    exact stays.resident pgn there

/-- A page that a fault sends away is listed, and so it is another one. -/
theorem fault (stays : c.FirstStays) (first : c.NewestFirst arrivals) {pgn vicpgn : Nat}
    (fault : c.Fault pgn vicpgn c') : c'.FirstStays := by
  obtain ⟨member, present⟩ := MmStruct.findVictimPage_some fault.victim
  obtain ⟨swpfpn, table, -⟩ := fault.swap
  have there : c.mm.resident 0 = true :=
    stays.resident vicpgn ((first.extent.resident_eq vicpgn).trans present)
  have notVictim : 0 ≠ vicpgn := by
    rintro rfl
    exact stays.unlisted member
  have notPage : 0 ≠ pgn := by
    rintro rfl
    rw [first.extent.resident_eq, fault.absent] at there
    cases there
  refine ⟨?_, fun _ _ => ?_⟩
  · rw [table]
    exact List.not_mem_cons_of_ne_of_not_mem notPage stays.unlisted
  · rw [table]
    exact (MmStruct.exchanged_resident swpfpn fault.inside fault.distinct 0).mpr
      (.inr ⟨notVictim, there⟩)

/-- A growth gets RAM frames only as long as every page of the process is in RAM. -/
theorem growth (stays : c.FirstStays) (first : c.NewestFirst arrivals) {size : Nat}
    {ram swap : List Int} (after : c'.mm.Extent) (grew : c.Grew size c' ram swap) :
    c'.FirstStays := by
  have there := grew.resident first.extent after
  refine ⟨?_, fun pgn new => (there 0).mpr ?_⟩
  · rw [grew.listed, List.mem_append, List.mem_reverse, List.mem_range'_1]
    exact fun listed => listed.elim (fun new => by omega) stays.unlisted
  · rcases (there pgn).mp new with old | ⟨behind, got⟩
    · exact .inl (stays.resident pgn old)
    · by_cases empty : c.mm.endPgn = 0
      · exact .inr ⟨by omega, by omega⟩
      · refine .inl ?_
        rw [first.extent.resident_eq]
        cases present : pagingPagePresent (c.mm.pgd 0) with
        | true => rfl
        | false =>
            have below : 0 < c.mm.mmap.vmEnd.toNat := by
              refine Nat.pos_of_ne_zero fun none => empty ?_
              rw [MmStruct.endPgn, none, Nat.zero_div]
            have mapped := first.extent.mapped 0 (by rwa [Nat.zero_mul])
            have free := first.full 0 mapped present
            rw [grew.ramTaken, List.append_eq_nil_iff] at free
            rw [free.1, List.length_nil] at got
            omega

end FirstStays

/-- No call puts frames on the free list of the RAM. -/
theorem pageCall_ram_suffix (c : Caller) (u : Uninit) (data : Byte) (call : PageCall) :
    (c.pageCall u data call).mram.freeFpList <:+ c.mram.freeFpList := by
  cases call with
  | incVmaLimit originSize =>
      simp only [pageCall]
      rcases c.incVmaLimit_cases originSize with ⟨-, result⟩ | ⟨-, -, result⟩ | ⟨-, -, result⟩
      · rw [result]
        exact List.suffix_refl _
      · rw [result]
        exact List.drop_suffix ..
      · rw [result]
        exact List.drop_suffix ..
  | pgGetval addr =>
      simp only [pageCall]
      rw [pgGetval_caller, (c.pgGetpage_mram u _).free]
  | pgSetval addr value =>
      obtain ⟨mram, frames, written⟩ := c.pgSetval_caller u addr value
      simp only [pageCall]
      rw [written, frames.free, (c.pgGetpage_mram u _).free]

end Caller

namespace Sys

variable [DecidableEq ι] {s t : Sys ι} {P : ι}

/-- The pages of a process in the order in which they came into RAM. -/
def arrivals (P : ι) (history : List (ι × PageCall × List Nat)) : List Nat :=
  history.flatMap fun label => if label.1 = P then label.2.2 else []

/-- A step keeps the list in the order of arrival, with the newest page in front. -/
theorem OrderlyStep.newestFirst {past : List (ι × PageCall × List Nat)}
    {label : ι × PageCall × List Nat} (first : (s.caller P).NewestFirst (arrivals P past))
    (taken : OrderlyStep P s label t) :
    (t.caller P).NewestFirst (arrivals P (past ++ [label])) := by
  have extended : arrivals P (past ++ [label]) =
      arrivals P past ++ if label.1 = P then label.2.2 else [] := by
    rw [arrivals, List.flatMap_append, List.flatMap_singleton, arrivals]
  rcases taken.cases first.extent with ⟨other, kept⟩ | ⟨self, named, -, outcome⟩
  · rw [extended, if_neg other, List.append_nil]
    obtain ⟨⟨u, data, rfl⟩, -⟩ := taken
    exact first.drop kept ((s.caller label.1).pageCall_ram_suffix u data label.2.1)
  · rw [extended, if_pos self, named]
    rcases outcome with
      ⟨-, size, ram, swap, -, after, grew⟩ | ⟨-, ⟨-, same⟩ | ⟨-, pgn, vicpgn, fault⟩⟩
    · exact first.growth after grew
    · exact first.same same
    · exact first.fault fault

/-- A step keeps page 0 in RAM and off the list. -/
theorem OrderlyStep.firstStays {past : List (ι × PageCall × List Nat)}
    {label : ι × PageCall × List Nat} (first : (s.caller P).NewestFirst (arrivals P past))
    (stays : (s.caller P).FirstStays) (taken : OrderlyStep P s label t) :
    (t.caller P).FirstStays := by
  rcases taken.cases first.extent with ⟨-, kept⟩ | ⟨-, -, -, outcome⟩
  · exact stays.drop kept
  · rcases outcome with
      ⟨-, size, ram, swap, -, after, grew⟩ | ⟨-, ⟨-, same⟩ | ⟨-, pgn, vicpgn, fault⟩⟩
    · exact stays.growth first after grew
    · exact stays.drop same.mm
    · exact stays.fault first fault

/-- What holds of a process after every orderly run: the list is searched from the newest page on,
and the first page stays. -/
theorem reached_newestFirst {history : List (ι × PageCall × List Nat)}
    (fresh : s.mm P = MmStruct.zeroed.initMm) (run : Run (OrderlyStep P) s history t) :
    (t.caller P).NewestFirst (arrivals P history) ∧ (t.caller P).FirstStays :=
  run.history_invariant (fun past state =>
      (state.caller P).NewestFirst (arrivals P past) ∧ (state.caller P).FirstStays)
    (fun _ _ _ _ both taken => ⟨taken.newestFirst both.1, taken.firstStays both.1 both.2⟩)
    ⟨.start fresh, .start fresh⟩

/-- **The victim is never the oldest page.** It is the page that came into RAM last, so that it
would be the one that has been there longest only if no other page of the process were in RAM; but
the first page is, and it is not listed. -/
theorem victim_never_oldest {history : List (ι × PageCall × List Nat)}
    (fresh : s.mm P = MmStruct.zeroed.initMm) (run : Run (OrderlyStep P) s history t)
    {vicpgn : Nat} (victim : (t.mm P).findVictimPage = some vicpgn) :
    (Oldest (arrivals P history) (t.mm P).resident vicpgn ↔
      ∀ pgn other, (t.mm P).resident pgn = true → (t.mm P).resident other = true →
        pgn = other) ∧
      ¬ Oldest (arrivals P history) (t.mm P).resident vicpgn := by
  obtain ⟨first, stays⟩ := reached_newestFirst fresh run
  have found : newest (arrivals P history) (t.mm P).resident = some vicpgn := by
    rcases first.victim with none | newest
    · exact absurd (none.symm.trans victim) nofun
    · exact newest.symm.trans victim
  have there := (eq_append_of_newest found).1
  have onlyOne : Oldest (arrivals P history) (t.mm P).resident vicpgn ↔
      ∀ pgn other, (t.mm P).resident pgn = true → (t.mm P).resident other = true →
        pgn = other := by
    rw [oldest_newest_iff found]
    refine ⟨fun alone pgn other pgnThere otherThere => ?_, fun single other otherThere =>
      single other vicpgn otherThere there⟩
    rw [alone pgn pgnThere, alone other otherThere]
  refine ⟨onlyOne, fun oldest => ?_⟩
  have listed := (MmStruct.findVictimPage_some victim).1
  have zero := onlyOne.mp oldest 0 vicpgn (stays.resident vicpgn there) there
  exact stays.unlisted (zero ▸ listed)

/-- A process that has grown over six pages of a RAM of four frames. -/
def sixPages : Sys Unit := (boot Unit 1024 1024).pageCall .zeroed 0 ((), .incVmaLimit 1300)

theorem sixPages_step : OrderlyStep () (boot Unit 1024 1024)
    ((), .incVmaLimit 1300, ((boot Unit 1024 1024).mm ()).arrived (sixPages.mm ())) sixPages :=
  orderlyStep_pageCall .zeroed 0 (by decide +kernel) (by decide +kernel)

/-- Page 3, which a fault would take of these six, came last; page 0 is the oldest one. -/
theorem victim_never_oldest_six_pages : ¬ Oldest (arrivals ()
    [((), .incVmaLimit 1300, ((boot Unit 1024 1024).mm ()).arrived (sixPages.mm ()))])
      (sixPages.mm ()).resident 3 := by
  have victim : (sixPages.mm ()).findVictimPage = some 3 := by decide +kernel
  exact (victim_never_oldest rfl (.single sixPages_step) victim).2

/-- The last of the four pages that came into RAM is the victim, before the first. -/
theorem last_page_replaced : ¬ ∀ (s t : Sys Unit) (history : List (Unit × PageCall × List Nat)),
    s.mram.Formatted → s.activeMswp.Formatted → (∀ P, s.mm P = MmStruct.zeroed.initMm) →
      Run (OrderlyStep ()) s history t → ∀ vicpgn, (t.mm ()).findVictimPage = some vicpgn →
        Oldest (arrivals () history) (t.mm ()).resident vicpgn := by
  intro claim
  have oldest := claim _ _ _ (Memphy.initMemphy_formatted ..) (Memphy.initMemphy_formatted ..)
    (fun _ => rfl) (.single sixPages_step) 3 (by decide +kernel)
  obtain ⟨front, back, shape, -, later⟩ := oldest 0 (by decide +kernel) (by decide)
  -- the pages of one growth arrive in increasing order
  have increasing : (arrivals () [((), PageCall.incVmaLimit 1300,
      ((boot Unit 1024 1024).mm ()).arrived (sixPages.mm ()))]).Pairwise (· < ·) := by
    simp only [arrivals, List.flatMap_singleton, ↓reduceIte]
    exact List.pairwise_lt_range.filter _
  rw [shape] at increasing
  have ordered := (List.pairwise_cons.mp (List.pairwise_append.mp increasing).2.1).1 0 later
  exact absurd ordered (by decide)

end Sys

end PagedOs
