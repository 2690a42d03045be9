import PagedOs.Memory.Calls

/-! # What a fault reports and what it costs

`pg_getpage` returns the frame number it decoded before the fault, and sends its victim to
whatever frame the variable for it names when swap is full. Both go well by chance: the old
entry of the page may name the frame of the victim, and the swap frame may be one that the device
has and that no page is in.
-/

namespace PagedOs

variable {ι : Type*}

namespace Caller

/-- The frame number is that of the frame the page is in, and every address formed from it
lies in that frame and in the RAM. -/
structure FrameOf (c : Caller) (pgn : Nat) (fpn : Int) : Prop where
  present : pagingPagePresent (c.mm.pgd pgn) = true
  frame : fpn = pagingFpn (c.mm.pgd pgn)
  inside : ∀ off : Int, 0 ≤ off → off < 256 →
    (0 ≤ phyaddr fpn off ∧ phyaddr fpn off < c.mram.maxsz) ∧
      phyaddr fpn off / 256 = pagingFpn (c.mm.pgd pgn)

/-- The page is in RAM, or its entry names the frame of the page that a fault would make room
with, if there is one. -/
def NamesFrame (c : Caller) (pgn : Nat) : Prop :=
  pagingPagePresent (c.mm.pgd pgn) = true ∨
    ∀ vicpgn ∈ c.mm.findVictimPage, pagingFpn (c.mm.pgd pgn) = pagingFpn (c.mm.pgd vicpgn)

/-- Whether the entry of a page names a frame of the RAM is a comparison with its size. -/
instance (c : Caller) (pgn : Nat) : Decidable (c.NamesFrame pgn) :=
  inferInstanceAs (Decidable (_ ∨ ∀ _ ∈ _, _))

/-- The addresses of a frame that the RAM has. -/
theorem FrameOf.of_inside {c : Caller} {pgn : Nat}
    (present : pagingPagePresent (c.mm.pgd pgn) = true)
    (inside : c.mram.Inside (pagingFpn (c.mm.pgd pgn))) :
    c.FrameOf pgn (pagingFpn (c.mm.pgd pgn)) where
  present := present
  frame := rfl
  inside := by
    intro off nonneg below
    obtain ⟨low, high⟩ := inside
    rw [phyaddr_eq]
    omega

end Caller

namespace Sys

variable {s : Sys ι} [DecidableEq ι]

omit [DecidableEq ι] in
/-- **Which frame `pg_getpage` returns.** Where every mapped page has a frame of its own, a
call that succeeds returns the frame of its page exactly if the entry it read names it. -/
theorem pgGetpage_returns_frame_iff (coherent : s.Coherent) (P : ι) (u : Uninit) {pgn : Nat}
    (inside : pgn < pagingMaxPgn) :
    (∀ fpn c, (s.caller P).pgGetpage u pgn = (some fpn, c) → c.FrameOf pgn fpn) ↔
      (s.caller P).NamesFrame pgn := by
  have located : ∀ {page : Nat}, page < pagingMaxPgn →
      pagingPagePresent ((s.mm P).pgd page) = true →
        s.mram.Inside (pagingFpn ((s.mm P).pgd page)) := by
    intro page below present
    have owned : owners ramFrame s.mm (P, ⟨page, below⟩) =
        some (pagingFpn ((s.mm P).pgd page)) := ramFrame_eq_some.mpr ⟨present, rfl⟩
    exact coherent.ram.ownedValid owned
  rcases (s.caller P).pgGetpage_cases u pgn with
    ⟨present, result⟩ | ⟨absent, nobody, result⟩ | ⟨vicpgn, absent, victim, -, result⟩
  · refine iff_of_true ?_ (.inl present)
    intro fpn c returned
    rw [result, Prod.mk.injEq, Option.some_inj] at returned
    obtain ⟨rfl, rfl⟩ := returned
    exact .of_inside present (located inside present)
  · refine iff_of_true ?_ (.inr ?_)
    · intro fpn c returned
      rw [result] at returned
      cases returned
    · simp only [nobody, Option.mem_def, reduceCtorEq, false_implies, implies_true]
  · -- the page is in the frame of the victim now
    have moved := Caller.faulted_moves (c := s.caller P) coherent.ramRandom coherent.swapRandom u
      pgn vicpgn
    have frame : pagingFpn (((s.caller P).faulted u pgn vicpgn).mm.pgd pgn) =
        pagingFpn ((s.mm P).pgd vicpgn) := by
      rw [moved.mm, MmStruct.exchanged_pgd_self,
        pagingFpn_pteSetFpn _ (pagingFpn_nonneg _) (pagingFpn_lt _)]
      rfl
    obtain ⟨listed, inRam⟩ := MmStruct.findVictimPage_some victim
    constructor
    · intro returns
      refine .inr fun other found => ?_
      obtain rfl := Option.some_inj.mp (victim.symm.trans found)
      exact (returns _ _ result).frame.trans frame
    · intro named fpn c returned
      rw [result, Prod.mk.injEq, Option.some_inj] at returned
      obtain ⟨rfl, rfl⟩ := returned
      have same := (named.resolve_left (by rw [absent]; decide)) vicpgn victim
      have valid := located (coherent.listed P vicpgn listed) inRam
      rw [same]
      refine frame ▸ .of_inside ?_ ?_
      · rw [moved.mm, MmStruct.exchanged_pgd_self, pagingPagePresent_pteSetFpn]
      · rw [frame, Memphy.Inside, moved.ram.maxsz]
        exact valid

/-- A process that has grown over four pages of a RAM of two frames. -/
def fourPages : Sys (Fin 2) :=
  (boot (Fin 2) 512 1024).put ⟨0, Nat.two_pos⟩
    (((boot (Fin 2) 512 1024).caller ⟨0, Nat.two_pos⟩).incVmaLimit 1000).2

/-- The third page comes back from the swap device with frame 0, the frame that it then is in. -/
theorem pgGetpage_returns_frame_third_page :
    (thirdFetched.caller 0).FrameOf 2 0 := by
  have coherent : threePages.Coherent :=
    (boot_coherent 512 1024).incVmaLimit 0 700 (by decide) (by decide) (by decide)
  have found : ((threePages.caller 0).pgGetpage .zeroed 2).1 = some 0 := by decide +kernel
  have fetched : thirdFetched.caller 0 = ((threePages.caller 0).pgGetpage .zeroed 2).2 :=
    caller_put threePages 0 _
  have returned : (threePages.caller 0).pgGetpage .zeroed 2 = (some 0, thirdFetched.caller 0) := by
    rw [fetched, ← found]
  exact (pgGetpage_returns_frame_iff coherent 0 .zeroed (by decide)).mpr (by decide +kernel) 0 _
    returned

/-- The third page is in swap frame 1, and for that `pg_getpage` returns frame 32 of a RAM of
two frames. -/
theorem pgGetpage_returns_stale_frame :
    ¬ ∀ (s : Sys (Fin 2)) (P : Fin 2) (u : Uninit) (pgn : Nat) (fpn : Int) (c : Caller),
      s.Coherent → pgn < pagingMaxPgn → Mapped ((s.mm P).pgd pgn) →
        (s.caller P).pgGetpage u pgn = (some fpn, c) → c.FrameOf pgn fpn := by
  intro claim
  have coherent : fourPages.Coherent :=
    (boot_coherent 512 1024).incVmaLimit 0 1000 (by decide) (by decide +kernel) (by decide +kernel)
  have found : ((fourPages.caller 0).pgGetpage .zeroed 2).1 = some 32 := by decide +kernel
  have wrong := claim fourPages 0 .zeroed 2 32 ((fourPages.caller 0).pgGetpage .zeroed 2).2 coherent
    (by decide) (by decide +kernel) (by rw [← found])
  exact absurd wrong.frame (by decide +kernel)

end Sys

/-! ## The cells that a fault accesses -/

/-- The cells of a frame are cells of the device exactly if the frame is one of its frames. -/
theorem Memphy.inside_iff {mp : Memphy} {fpn : Int} : mp.Inside fpn ↔
    ∀ cellidx ∈ List.range pagingPagesz,
      0 ≤ fpn * 256 + (cellidx : Nat) ∧ fpn * 256 + (cellidx : Nat) < mp.maxsz := by
  have cells : pagingPagesz = 256 := rfl
  unfold Inside
  constructor
  · rintro ⟨nonneg, below⟩ cellidx member
    have bound := List.mem_range.mp member
    omega
  · intro all
    have first := all 0 (List.mem_range.mpr (by omega))
    have last := all 255 (List.mem_range.mpr (by omega))
    omega

namespace Calls

/-- A copy of some cells reads these from the one device and writes them to the other. -/
theorem copyCells_inBounds (data : Nat → Byte) {mpsrc mpdst : Device} (different : mpsrc ≠ mpdst)
    (srcfpn dstfpn : Int) (cells : List Nat) {d : Device → Memphy}
    (readable : (d mpsrc).rdmflg = true) (writable : (d mpdst).rdmflg = true) :
    (copyCells data mpsrc srcfpn mpdst dstfpn cells).InBounds d ↔ ∀ cellidx ∈ cells,
      (0 ≤ srcfpn * 256 + (cellidx : Nat) ∧ srcfpn * 256 + (cellidx : Nat) < (d mpsrc).maxsz) ∧
        0 ≤ dstfpn * 256 + (cellidx : Nat) ∧ dstfpn * 256 + (cellidx : Nat) < (d mpdst).maxsz := by
  have cellSize : ((pagingPagesz : Nat) : Int) = 256 := rfl
  induction cells generalizing d with
  | nil => exact iff_of_true trivial fun _ member => absurd member List.not_mem_nil
  | cons cellidx rest ih =>
      rw [copyCells, List.forall_mem_cons]
      simp only [DeviceM.bind_inBounds, DeviceM.perform_read, DeviceM.perform_write, cellSize]
      rw [DeviceM.read_inBounds readable, DeviceM.write_inBounds writable]
      generalize ((d mpsrc).memphyRead (srcfpn * 256 + cellidx) (data cellidx)).2.1 = byte
      have written := (d mpdst).memphyWrite_sameFrames (dstfpn * 256 + cellidx) byte
      have later := ih
        (d := Function.update d mpdst ((d mpdst).memphyWrite (dstfpn * 256 + cellidx) byte).2)
        (by rwa [Function.update_of_ne different])
        (by rw [Function.update_self, written.rdmflg, writable])
      rw [Function.update_of_ne different, Function.update_self, written.maxsz] at later
      exact (and_congr_right' (and_congr_right' later)).trans and_assoc.symm

/-- A copy stays within the devices exactly if both of its frames are there. -/
theorem swapCpPage_inBounds (data : Nat → Byte) {mpsrc mpdst : Device} (different : mpsrc ≠ mpdst)
    (srcfpn dstfpn : Int) {d : Device → Memphy} (readable : (d mpsrc).rdmflg = true)
    (writable : (d mpdst).rdmflg = true) :
    (swapCpPage data mpsrc srcfpn mpdst dstfpn).InBounds d ↔
      (d mpsrc).Inside srcfpn ∧ (d mpdst).Inside dstfpn := by
  rw [swapCpPage, copyCells_inBounds data different srcfpn dstfpn _ readable writable,
    Memphy.inside_iff, Memphy.inside_iff]
  exact ⟨fun all => ⟨fun cellidx member => (all cellidx member).1, fun cellidx member =>
    (all cellidx member).2⟩, fun all cellidx member => ⟨all.1 cellidx member, all.2 cellidx member⟩⟩

theorem exchange_inBounds (swapOut swapIn : Nat → Byte) (vicfpn swpfpn tgtfpn : Int)
    {d : Device → Memphy} (ramRandom : (d .mram).rdmflg = true)
    (swapRandom : (d .activeMswp).rdmflg = true) :
    ((swapCpPage swapOut .mram vicfpn .activeMswp swpfpn).InBounds d ∧
      (swapCpPage swapIn .activeMswp tgtfpn .mram vicfpn).InBounds
        ((swapCpPage swapOut .mram vicfpn .activeMswp swpfpn).perform DeviceCall.handle d).2) ↔
      (d .mram).Inside vicfpn ∧ (d .activeMswp).Inside swpfpn ∧ (d .activeMswp).Inside tgtfpn := by
  have outward : Device.mram ≠ .activeMswp := by decide
  have copied := Memphy.swapCpPage_sameFrames swapOut (d .mram) vicfpn (d .activeMswp) swpfpn
  have back := swapCpPage_inBounds swapIn outward.symm tgtfpn vicfpn
    (d := ((swapCpPage swapOut .mram vicfpn .activeMswp swpfpn).perform DeviceCall.handle d).2)
  rw [perform_swapCpPage swapOut outward] at back ⊢
  simp only [Function.update_self, Function.update_of_ne outward, Memphy.swapCpPage_source,
    Memphy.Inside, copied.rdmflg, copied.maxsz] at back ⊢
  rw [swapCpPage_inBounds swapOut outward _ _ ramRandom swapRandom,
    back swapRandom ramRandom, Memphy.Inside, Memphy.Inside]
  tauto

/-- **Which cells `pg_getpage` accesses**: none, or those of the frame of its victim, of the swap
frame that this is sent to, and of the one of the page. -/
theorem pgGetpage_inBounds (c : Caller) (ramRandom : c.mram.rdmflg = true)
    (swapRandom : c.activeMswp.rdmflg = true) (u : Uninit) (pgn : Nat) :
    (pgGetpage c.mm u pgn).InBounds c.device ↔
      pagingPagePresent (c.mm.pgd pgn) = true ∨ ∀ vicpgn ∈ c.mm.findVictimPage,
        c.mram.Inside (pagingFpn (c.mm.pgd vicpgn)) ∧ c.activeMswp.Inside (c.slot u) ∧
          c.activeMswp.Inside (pagingSwp (c.mm.pgd pgn)) := by
  cases present : pagingPagePresent (c.mm.pgd pgn) with
  | true =>
      rw [pgGetpage_hit u present]
      exact iff_of_true trivial (.inl rfl)
  | false =>
      cases victim : c.mm.findVictimPage with
      | none =>
          simp only [pgGetpage, present, victim]
          exact iff_of_true trivial (.inr fun _ found => by cases found)
      | some vicpgn =>
          simp only [pgGetpage, present, victim, Bool.false_eq_true, ↓reduceIte, false_or,
            Option.mem_def, Option.some.injEq, forall_eq']
          simp only [DeviceM.bind_inBounds, DeviceM.getFreefp_inBounds, DeviceM.return_inBounds,
            DeviceM.perform_getFreefp, Caller.device, c.memphyGetFreefp_slot u, true_and, and_true]
          exact exchange_inBounds u.swapOut u.swapIn _ _ _ ramRandom swapRandom
end Calls

namespace Sys

variable {s : Sys ι} [DecidableEq ι]

/-! ## Faults with swap full -/

/-- The frames between which a fault copies are frames of their devices: the one of the victim, the
one that this is sent to, and the one that the page is fetched from. -/
structure Framed (s : Sys ι) (P : ι) (pgn vicpgn : Nat) (swpfpn : Int) : Prop where
  victim : s.mram.Inside (pagingFpn ((s.mm P).pgd vicpgn))
  slot : s.activeMswp.Inside swpfpn
  target : s.activeMswp.Inside (pagingSwp ((s.mm P).pgd pgn))

/-- The page is in RAM, or no page makes room for it, or the one that does makes a harmless
exchange between frames of the devices. -/
def FaultHarmless (s : Sys ι) (P : ι) (u : Uninit) (pgn : Nat) : Prop :=
  pagingPagePresent ((s.mm P).pgd pgn) = true ∨
    ∀ vicpgn ∈ (s.mm P).findVictimPage, s.Framed P pgn vicpgn ((s.caller P).slot u) ∧
      s.Harmless P pgn vicpgn ((s.caller P).slot u)

/-- **When `pg_getpage` keeps every page**, whoever owns which frame. -/
theorem pgGetpage_keeps_iff (ramRandom : s.mram.rdmflg = true)
    (swapRandom : s.activeMswp.rdmflg = true) (P : ι) (u : Uninit) (pgn : Nat) :
    s.KeepsPages (s.put P ((s.caller P).pgGetpage u pgn).2) ↔
      pagingPagePresent ((s.mm P).pgd pgn) = true ∨ ∀ vicpgn ∈ (s.mm P).findVictimPage,
        s.Harmless P pgn vicpgn ((s.caller P).slot u) := by
  rcases (s.caller P).pgGetpage_cases u pgn with
    ⟨present, result⟩ | ⟨absent, nobody, result⟩ | ⟨vicpgn, absent, victim, distinct, result⟩
  · rw [result, put_caller]
    exact iff_of_true (.refl s) (.inl present)
  · rw [result, put_caller]
    refine iff_of_true (.refl s) (.inr fun vicpgn found => ?_)
    exact absurd (nobody.symm.trans found) (by simp)
  · rw [result]
    have moved := Caller.faulted_moves (c := s.caller P) ramRandom swapRandom u pgn vicpgn
    have victim : (s.mm P).findVictimPage = some vicpgn := victim
    have absent : pagingPagePresent ((s.mm P).pgd pgn) = false := absent
    rw [exchange_keeps_iff moved absent (MmStruct.findVictimPage_some victim).2 distinct, absent,
      victim]
    simp only [Bool.false_eq_true, false_or, Option.mem_def, Option.some.injEq, forall_eq']

/-- **When `pg_getpage` does no harm**: no mapped page loses a byte, and no cell is accessed that
the devices do not have. -/
theorem pgGetpage_harmless_iff (ramRandom : s.mram.rdmflg = true)
    (swapRandom : s.activeMswp.rdmflg = true) (P : ι) (u : Uninit) (pgn : Nat) :
    s.KeepsPages (s.put P ((s.caller P).pgGetpage u pgn).2) ∧
        (Calls.pgGetpage (s.mm P) u pgn).InBounds (s.caller P).device ↔
      s.FaultHarmless P u pgn := by
  have keeps := s.pgGetpage_keeps_iff ramRandom swapRandom P u pgn
  have cells : (Calls.pgGetpage (s.mm P) u pgn).InBounds (s.caller P).device ↔
      pagingPagePresent ((s.mm P).pgd pgn) = true ∨ ∀ vicpgn ∈ (s.mm P).findVictimPage,
        s.Framed P pgn vicpgn ((s.caller P).slot u) := by
    refine (Calls.pgGetpage_inBounds (s.caller P) ramRandom swapRandom u pgn).trans
      (or_congr_right (forall₂_congr fun vicpgn _ => ?_))
    exact ⟨fun ⟨victim, slot, target⟩ => ⟨victim, slot, target⟩,
      fun ⟨victim, slot, target⟩ => ⟨victim, slot, target⟩⟩
  rw [keeps, cells, FaultHarmless, ← or_and_left]
  refine or_congr_right ⟨fun ⟨harmless, framed⟩ vicpgn found =>
    ⟨framed vicpgn found, harmless vicpgn found⟩, fun all => ?_⟩
  exact ⟨fun vicpgn found => (all vicpgn found).2, fun vicpgn found => (all vicpgn found).1⟩

/-- The fault is served and every mapped page keeps its bytes, or it fails and nothing has
changed; and it accesses no cell that the devices do not have. -/
def CleanFault (s : Sys ι) (P : ι) (u : Uninit) (pgn : Nat) : Prop :=
  ((((s.caller P).pgGetpage u pgn).1.isSome = true ∧
      pagingPagePresent (((s.caller P).pgGetpage u pgn).2.mm.pgd pgn) = true ∧
      s.KeepsPages (s.put P ((s.caller P).pgGetpage u pgn).2)) ∨
    (s.caller P).pgGetpage u pgn = (none, s.caller P)) ∧
      (Calls.pgGetpage (s.mm P) u pgn).InBounds (s.caller P).device

/-- **A fault with swap full.** It is clean exactly if there is no victim, or the uninitialised
variable names a frame of the swap device that can take it: no mapped page loses by that. -/
theorem full_swap_fault_clean_iff (ramRandom : s.mram.rdmflg = true)
    (swapRandom : s.activeMswp.rdmflg = true) (full : s.activeMswp.freeFpList = []) (P : ι)
    (u : Uninit) {pgn : Nat} (absent : pagingPagePresent ((s.mm P).pgd pgn) = false) :
    s.CleanFault P u pgn ↔ ∀ vicpgn ∈ (s.mm P).findVictimPage,
      s.Framed P pgn vicpgn u.swpfpn ∧ s.Harmless P pgn vicpgn u.swpfpn := by
  have harmless := s.pgGetpage_harmless_iff ramRandom swapRandom P u pgn
  rw [FaultHarmless, absent, Caller.slot_of_full full] at harmless
  simp only [Bool.false_eq_true, false_or] at harmless
  rw [← harmless, CleanFault]
  refine and_congr_left fun _ => ?_
  rcases (s.caller P).pgGetpage_cases u pgn with
    ⟨present, -⟩ | ⟨-, -, result⟩ | ⟨vicpgn, -, -, -, result⟩
  · exact absurd (present.symm.trans absent) (by decide)
  · rw [result, put_caller]
    exact iff_of_true (.inr rfl) (.refl s)
  · have moved := Caller.faulted_moves (c := s.caller P) ramRandom swapRandom u pgn vicpgn
    have present : pagingPagePresent (((s.caller P).faulted u pgn vicpgn).mm.pgd pgn) = true := by
      rw [moved.mm, MmStruct.exchanged_pgd_self, pagingPagePresent_pteSetFpn]
    simp only [result, Option.isSome_some, present, true_and, Prod.mk.injEq, reduceCtorEq,
      false_and, or_false]

/-- A process that has grown over four pages of a RAM of two frames, with three frames of swap. -/
def twoAndThree : Sys Unit :=
  (boot Unit 512 768).put () (((boot Unit 512 768).caller ()).incVmaLimit 1000).2

/-- The last frame of swap is lost: it is neither free nor of a page. -/
def frameLost : Sys Unit :=
  { twoAndThree with activeMswp := { twoAndThree.activeMswp with freeFpList := [] } }

/-- The variable names the frame that was lost, and the victim is saved there. -/
theorem full_swap_fault_clean_lost_frame :
    frameLost.CleanFault () ⟨2, fun _ => 0, fun _ => 0⟩ 2 := by
  have coherent : twoAndThree.Coherent :=
    (boot_coherent 512 768).incVmaLimit () 1000 (by decide) (by decide +kernel) (by decide +kernel)
  have victim : (twoAndThree.mm ()).findVictimPage = some 1 := by decide +kernel
  have free : twoAndThree.activeMswp.freeFpList = [2] := by decide +kernel
  have harmless := coherent.harmless victim free (by decide) 2
  refine (full_swap_fault_clean_iff (by decide +kernel) (by decide +kernel) rfl () _
    (by decide +kernel)).mpr fun vicpgn found => ?_
  obtain rfl := Option.some.inj (victim.symm.trans found)
  exact ⟨⟨⟨by decide +kernel, by decide +kernel⟩, ⟨by decide, by decide +kernel⟩,
    ⟨by decide +kernel, by decide +kernel⟩⟩, harmless.saved, harmless.fetched, harmless.swapKept,
    harmless.ramKept⟩

/-- A process that has grown over four pages of a RAM and a swap device of two frames each. -/
def twoByTwo : Sys Unit :=
  (boot Unit 512 512).put () (((boot Unit 512 512).caller ()).incVmaLimit 1000).2

/-- And that wrote a byte of the page that a fault would make room with. -/
def swapFull : Sys Unit := twoByTwo.put () ((twoByTwo.caller ()).pgSetval .zeroed 256 7).2

/-- In the state with a full swap device every page still shows what the processes wrote. -/
theorem swapFull_coherent : swapFull.Coherent := by
  have grown : twoByTwo.Coherent :=
    (boot_coherent 512 512).incVmaLimit () 1000 (by decide) (by decide +kernel) (by decide +kernel)
  have hit : ((twoByTwo.caller ()).pgGetpage .zeroed (pagingPgn 256)).2 = twoByTwo.caller () := by
    rcases (twoByTwo.caller ()).pgGetpage_cases .zeroed (pagingPgn 256) with
      ⟨-, result⟩ | ⟨absent, -⟩ | ⟨vicpgn, absent, -⟩
    · rw [result]
    · exact absurd absent (by decide +kernel)
    · exact absurd absent (by decide +kernel)
  obtain ⟨mram, frames, written⟩ := (twoByTwo.caller ()).pgSetval_caller .zeroed 256 7
  rw [hit] at frames written
  rw [swapFull, written]
  apply Coherent.touch _ frames
  rwa [put_caller]

/-- The variable names swap frame 0, which the fourth page is in. The victim is copied over
it. -/
theorem full_swap_fault_overwrites :
    ¬ ∀ (s : Sys Unit) (u : Uninit) (pgn : Nat), s.Coherent → s.activeMswp.freeFpList = [] →
      pgn < pagingMaxPgn → pagingPagePresent ((s.mm ()).pgd pgn) = false →
        pagingPageSwapped ((s.mm ()).pgd pgn) = true → s.CleanFault () u pgn := by
  intro claim
  have clean := claim swapFull .zeroed 2 swapFull_coherent (by decide +kernel) (by decide)
    (by decide +kernel) (by decide +kernel)
  rcases clean.1 with ⟨-, -, keeps⟩ | failed
  · have kept := (keeps ((), ⟨3, by decide⟩) (by decide +kernel)).2.2
    exact absurd (congrFun kept 0) (by decide +kernel)
  · exact absurd (congrArg (fun result => result.1.isSome) failed) (by decide +kernel)

end Sys

end PagedOs
