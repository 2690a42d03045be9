import PagedOs.Memory.Faithful
import PagedOs.Memory.Fault

/-! # Failures and the statuses that report them

A growth that fails has moved the break by then, and may have moved the end of the area and
taken frames. A page that cannot be fetched makes `pg_getval` and `pg_setval` fail, which
`__read` and `__write` do not look at.
-/

namespace PagedOs

variable {ι : Type*}

namespace Caller

/-! ## Growths that fail -/

/-- All that a growth may change is as it was. -/
structure Untouched (c c' : Caller) : Prop where
  sbrk : c'.mm.mmap.sbrk = c.mm.mmap.sbrk
  vmEnd : c'.mm.mmap.vmEnd = c.mm.mmap.vmEnd
  pgd : c'.mm.pgd = c.mm.pgd
  fifoPgn : c'.mm.fifoPgn = c.mm.fifoPgn
  ramFree : c'.mram.freeFpList = c.mram.freeFpList
  ramUsed : c'.mram.usedFpList = c.mram.usedFpList
  swapFree : c'.activeMswp.freeFpList = c.activeMswp.freeFpList
  swapUsed : c'.activeMswp.usedFpList = c.activeMswp.usedFpList

/-- A growth that returns -1 leaves no trace. -/
def NoTrace (c : Caller) (originSize : Int) : Prop :=
  (c.incVmaLimit originSize).1 = -1 → c.Untouched (c.incVmaLimit originSize).2

/-- **A failed growth always leaves a trace**, the moved break at least: only a growth that
does not fail leaves none. -/
theorem incVmaLimit_noTrace_iff (c : Caller) {originSize : Int} (positive : 1 ≤ originSize)
    (small : originSize < 2 ^ 31) :
    c.NoTrace originSize ↔ c.areaFull = false ∧ c.framesLeft originSize = true := by
  have moves : ¬ c.Untouched (c.incVmaLimit originSize).2 := by
    intro untouched
    have amount := toULong_toNat (x := originSize) (by omega) (by omega)
    have sum := congrArg BitVec.toNat
      ((c.incVmaLimit_breakMoved originSize).sbrk.symm.trans untouched.sbrk)
    rw [BitVec.toNat_add, amount] at sum
    have := c.mm.mmap.sbrk.isLt
    omega
  rcases c.incVmaLimit_cases originSize with
    ⟨full, result⟩ | ⟨full, short, result⟩ | ⟨full, left, result⟩
  · refine iff_of_false (fun noTrace => moves (noTrace (by rw [result]))) ?_
    simp only [full, Bool.true_eq_false, false_and, not_false_eq_true]
  · refine iff_of_false (fun noTrace => moves (noTrace (by rw [result]))) ?_
    simp only [short, Bool.false_eq_true, and_false, not_false_eq_true]
  · refine iff_of_true (fun failed => ?_) ⟨full, left⟩
    rw [result] at failed
    simp at failed

/-- A growth by 300 bytes finds its two frames in the RAM, so that no failure leaves a trace. -/
theorem incVmaLimit_noTrace_two_pages : ((Sys.boot Unit 512 512).caller ()).NoTrace 300 :=
  (incVmaLimit_noTrace_iff _ (by decide) (by decide)).mpr (by decide +kernel)

/-- A growth over four pages, with one frame of RAM and one of swap. -/
theorem incVmaLimit_leaves_trace :
    ¬ ∀ (c : Caller) (size : Int), 1 ≤ size → size < 2 ^ 31 → c.NoTrace size := by
  intro claim
  have untouched := claim ((Sys.boot Unit 256 256).caller ()) 1000 (by decide) (by decide)
    (by decide +kernel)
  exact absurd untouched.ramFree (by decide +kernel)

/-! ## Accesses that fail -/

/-- The virtual address of a byte of a region. -/
def virtualAddr (c : Caller) (r o : BitVec 32) : Int :=
  ((c.mm.symrgtbl r.toNat).rgStart.toNat + o.toNat : Nat)

/-- The address that is accessed has the page and the offset of the virtual one. -/
theorem accessed_page (c : Caller) (r o : BitVec 32) :
    pagingPgn (c.accessed r o) = pagingPgn (c.virtualAddr r o) ∧
      pagingOffst (c.accessed r o) = pagingOffst (c.virtualAddr r o) := by
  have offset := (toULong_emod (toInt o.toNat)).trans (toInt_emod _)
  have low : c.accessed r o % 2 ^ 22 = c.virtualAddr r o % 2 ^ 22 := by
    rw [accessed, toInt_emod, virtualAddr, BitVec.toNat_add]
    omega
  have page := pagingPgn_eq (c.accessed r o)
  have page' := pagingPgn_eq (c.virtualAddr r o)
  rw [pagingOffst_eq, pagingOffst_eq]
  omega

/-- The offset is rejected; or the RAM is random access, and the page is in RAM or there is
a victim in the frame that the entry of the page names. -/
def TakesPlace (c : Caller) (r o : BitVec 32) : Prop :=
  c.rejects r o = true ∨ c.mram.rdmflg = true ∧
    (pagingPagePresent (c.mm.pgd (pagingPgn (c.virtualAddr r o))) = true ∨
      ∃ vicpgn ∈ c.mm.findVictimPage,
        pagingFpn (c.mm.pgd (pagingPgn (c.virtualAddr r o))) = pagingFpn (c.mm.pgd vicpgn))

end Caller

namespace Sys

variable [DecidableEq ι] {s : Sys ι} {P : ι} {r o : BitVec 32}

/-- What a status says: a write that returns 0 has taken place, and an access whose page cannot
be fetched returns another status and delivers nothing. -/
structure Reported (s : Sys ι) (P : ι) (r o : BitVec 32) : Prop where
  written : ∀ u value, ((s.caller P).pgwrite u value r o).1 = 0 →
    (s.put P ((s.caller P).pgwrite u value r o).2).byteAt P ((s.caller P).virtualAddr r o) = value
  failed : ∀ u, ((s.caller P).pgGetpage u (pagingPgn ((s.caller P).virtualAddr r o))).1 = none →
    ∀ data value, ((s.caller P).pgread u r o data).1 ≠ 0 ∧
      ((s.caller P).pgread u r o data).2.1 = data ∧ ((s.caller P).pgwrite u value r o).1 ≠ 0

omit [DecidableEq ι] in
/-- The byte that an address stands for depends on its page and its offset alone. -/
theorem byteAt_congr {x y : Int} (page : pagingPgn x = pagingPgn y)
    (offset : pagingOffst x = pagingOffst y) : s.byteAt P x = s.byteAt P y := by
  simp only [byteAt, page, offset]

/-- The byte at an address after a write that fetched its page. -/
theorem pgSetval_byteAt {u : Uninit} {x fpn : Int} {c : Caller}
    (fetched : (s.caller P).pgGetpage u (pagingPgn x) = (some fpn, c))
    (present : pagingPagePresent (c.mm.pgd (pagingPgn x)) = true) (value : Byte) :
    (s.put P ((s.caller P).pgSetval u x value).2).byteAt P x =
      if s.mram.rdmflg = true ∧ fpn = pagingFpn (c.mm.pgd (pagingPgn x)) then value
      else (s.put P c).byteAt P x := by
  have access : c.mram.rdmflg = s.mram.rdmflg := by
    have frames := (s.caller P).pgGetpage_mram u (pagingPgn x)
    rw [fetched] at frames
    exact frames.rdmflg
  have result : ((s.caller P).pgSetval u x value).2 =
      { c with mram := (c.mram.memphyWrite (Caller.phyaddr fpn (pagingOffst x)) value).2 } := by
    simp only [Caller.pgSetval, fetched]
  rw [result, byteAt_present (by rwa [put_mm_self]), byteAt_present (by rwa [put_mm_self])]
  simp only [physical, put_mm_self, put_mram]
  cases random : s.mram.rdmflg with
  | false =>
      rw [random] at access
      simp only [Memphy.memphyWrite, Memphy.memphySeqWrite, access, Bool.false_eq_true, false_and,
        Bool.not_false, ↓reduceIte]
  | true =>
      rw [random] at access
      rw [Memphy.memphyWrite_random access]
      by_cases same : fpn = pagingFpn (c.mm.pgd (pagingPgn x))
      · simp only [same, and_self, ↓reduceIte, Function.update_self]
      · rw [if_neg (by simp only [same, and_false, not_false_eq_true])]
        apply Function.update_of_ne
        rw [phyaddr_eq, phyaddr_eq]
        omega

/-- Whatever byte is written, it is there afterwards: exactly if the RAM takes it and it goes to
the frame of the page. -/
theorem pgSetval_lands_iff {u : Uninit} {x fpn : Int} {c : Caller}
    (fetched : (s.caller P).pgGetpage u (pagingPgn x) = (some fpn, c))
    (present : pagingPagePresent (c.mm.pgd (pagingPgn x)) = true) :
    (∀ value, (s.put P ((s.caller P).pgSetval u x value).2).byteAt P x = value) ↔
      s.mram.rdmflg = true ∧ fpn = pagingFpn (c.mm.pgd (pagingPgn x)) := by
  simp only [pgSetval_byteAt fetched present]
  constructor
  · intro lands
    by_contra lost
    have same := lands ((s.put P c).byteAt P x + 1)
    rw [if_neg lost] at same
    have := congrArg BitVec.toNat same
    rw [BitVec.toNat_add, show (1 : Byte).toNat = 1 from rfl] at this
    omega
  · intro both value
    rw [if_pos both]

/-- Where the page is fetched, a status can be trusted exactly if the byte is there afterwards. -/
theorem reported_of_fetched (inside : r.toNat < 30) (accepted : (s.caller P).rejects r o = false)
    (fetched : ∀ u, ((s.caller P).pgGetpage u
      (pagingPgn ((s.caller P).accessed r o))).1.isSome = true) :
    s.Reported P r o ↔ ∀ u value,
      (s.put P ((s.caller P).pgSetval u ((s.caller P).accessed r o) value).2).byteAt P
        ((s.caller P).accessed r o) = value := by
  obtain ⟨page, offset⟩ := (s.caller P).accessed_page r o
  have write := fun u value => Caller.pgwrite_accepted inside accepted u value
  have byte : ∀ t : Sys ι, t.byteAt P ((s.caller P).virtualAddr r o) =
      t.byteAt P ((s.caller P).accessed r o) := fun t => byteAt_congr page.symm offset.symm
  constructor
  · intro reported u value
    have done := reported.written u value (by rw [write])
    rwa [byte, write] at done
  · intro lands
    refine ⟨fun u value _ => ?_, fun u failed => ?_⟩
    · rw [byte, write]
      exact lands u value
    · rw [← page] at failed
      have found := fetched u
      rw [failed] at found
      cases found

/-- **When a status can be trusted.** -/
theorem access_reported_iff (inside : r.toNat < 30) :
    s.Reported P r o ↔ (s.caller P).TakesPlace r o := by
  obtain ⟨page, -⟩ := (s.caller P).accessed_page r o
  cases rejected : (s.caller P).rejects r o with
  | true =>
      refine iff_of_true ⟨?_, ?_⟩ (.inl rejected)
      · intro u value accepted
        rw [Caller.pgwrite_rejected rejected] at accepted
        exact absurd accepted (by simp)
      · intro u _ data value
        rw [Caller.pgread_rejected rejected, Caller.pgwrite_rejected rejected]
        simp
  | false =>
      simp only [Caller.TakesPlace, rejected, Bool.false_eq_true, false_or, ← page]
      cases present : pagingPagePresent
          ((s.caller P).mm.pgd (pagingPgn ((s.caller P).accessed r o))) with
      | true =>
          have hit := Caller.pgGetpage_hit present
          have lands := fun u => pgSetval_lands_iff (hit u) present
          rw [reported_of_fetched inside rejected fun u => by rw [hit, Option.isSome_some]]
          constructor
          · intro all
            exact ⟨((lands .zeroed).mp (all .zeroed)).1, .inl rfl⟩
          · rintro ⟨random, -⟩ u
            exact (lands u).mpr ⟨random, rfl⟩
      | false =>
          cases victim : (s.caller P).mm.findVictimPage with
          | none =>
              have failed := Caller.pgGetpage_nobody present victim
              refine iff_of_false (fun reported => ?_) (by simp)
              obtain ⟨status, -⟩ := reported.failed .zeroed (by rw [← page, failed]) 0 0
              rw [Caller.pgread_accepted inside rejected] at status
              exact status rfl
          | some vicpgn =>
              have fetched := fun u => (Caller.pgGetpage_miss present victim u).2
              -- the page is in the frame of the victim now
              have after : ∀ u, ((s.caller P).faulted u
                  (pagingPgn ((s.caller P).accessed r o)) vicpgn).mm.pgd
                  (pagingPgn ((s.caller P).accessed r o)) =
                    pteSetFpn ((s.mm P).pgd (pagingPgn ((s.caller P).accessed r o)))
                      (pagingFpn ((s.mm P).pgd vicpgn)) :=
                fun u => MmStruct.exchanged_pgd_self ..
              have lands := fun u => pgSetval_lands_iff (fetched u)
                (by rw [after, pagingPagePresent_pteSetFpn])
              simp only [after, pagingFpn_pteSetFpn _ (pagingFpn_nonneg _) (pagingFpn_lt _)]
                at lands
              rw [reported_of_fetched inside rejected fun u => by rw [fetched, Option.isSome_some]]
              simp only [Bool.false_eq_true, false_or, Option.mem_def, Option.some.injEq,
                exists_eq_left']
              constructor
              · intro all
                exact (lands .zeroed).mp (all .zeroed)
              · intro both u
                exact (lands u).mpr both

/-- The access to byte 600 of region 0, whose page is in the swap device, is reported as it went.
-/
theorem access_reported_spilled : spilled.Reported () 0 600 :=
  (access_reported_iff (by decide)).mpr
    (.inr ⟨by decide +kernel, .inr ⟨1, by decide +kernel, by decide +kernel⟩⟩)

/-- A process that got 1000 bytes on two RAM frames and two swap frames. -/
def halfSpilled : Sys Unit :=
  (((boot Unit 512 1024).called () (.pgalloc 1000 0)).get (by decide +kernel)).2.2

/-- A byte of its third page is written, with status 0, to a frame the RAM does not have. -/
theorem write_reported_and_lost :
    ¬ ∀ (s : Sys Unit) (r o : BitVec 32), r.toNat < 30 → (s.caller ()).InRegion r o →
      s.Reported () r o := by
  intro claim
  have reported := claim halfSpilled 0 600 (by decide) (by decide +kernel)
  have written := reported.written .zeroed 7 (by decide +kernel)
  exact absurd written (by decide +kernel)

end Sys

end PagedOs
