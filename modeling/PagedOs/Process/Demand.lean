import Mathlib.Algebra.Order.BigOperators.Group.Finset
import PagedOs.Memory.Backing
import PagedOs.Process.Variables

/-! # Programs that fit in RAM

What can be said of a program before it runs: whether its instructions name variables that it has
at that point, and how many bytes it asks for. The processes of programs that pass this check find
all their pages in RAM as long as it has a frame for every page that they ask for together.
-/

namespace PagedOs

open Transition

variable {ι : Type*}

/-! ## The check -/

namespace Inst

/-- The byte is one of a variable that the program has. -/
def names (vars : Variables) (r o : BitVec 32) : Bool :=
  r.toNat < 30 && (vars r).any fun v => o < v.size

/-- The instruction names a register, and an access a byte of a variable. -/
def valid (vars : Variables) (ins : Inst) : Bool :=
  match ins.opcode with
  | .calcOp => true
  | .allocOp => 1 ≤ ins.arg0.toNat && ins.arg0.toNat < 2 ^ 31 && ins.arg1.toNat < 30
  | .freeOp => ins.arg0.toNat < 30
  | .readOp => names vars ins.arg0 ins.arg1
  | .writeOp => names vars ins.arg1 ins.arg2

/-- The bytes that the instruction asks for. -/
def bytes (ins : Inst) : Nat :=
  match ins.opcode with
  | .allocOp => ins.arg0.toNat
  | _ => 0

/-- A byte is named by a register below 30 whose variable goes beyond it. -/
theorem names_iff {vars : Variables} {r o : BitVec 32} :
    names vars r o = true ↔ r.toNat < 30 ∧ ∃ v, vars r = some v ∧ o < v.size := by
  rw [names, Bool.and_eq_true, decide_eq_true_eq, Option.any_eq_true]
  simp only [decide_eq_true_eq]

end Inst

/-- The instructions are valid one after the other. -/
def validFrom : Variables → List Inst → Bool
  | _, [] => true
  | vars, ins :: rest => ins.valid vars && validFrom (ins.compute vars) rest

/-- The bytes that the instructions ask for. -/
def demand (text : List Inst) : Nat := (text.map Inst.bytes).sum

/-- The pages that these bytes fill, the last of them perhaps in part. -/
def demandedPages (text : List Inst) : Nat := (demand text + 255) / 256

/-- The check of a program: its instructions are valid, and the last page of the address space is
left. -/
def checked (text : List Inst) : Bool :=
  validFrom (fun _ => none) text && demand text ≤ 2 ^ 22 - 256

/-- In a program that passes the check every instruction is valid for the variables that the ones
before it leave. -/
theorem valid_of_validFrom {vars : Variables} {text : List Inst}
    (valid : validFrom vars text = true) {pc : Nat} {ins : Inst} (found : text[pc]? = some ins) :
    ins.valid ((text.take pc).foldl Inst.compute vars) = true := by
  induction text generalizing vars pc with
  | nil => simp at found
  | cons first rest ih =>
      rw [validFrom, Bool.and_eq_true] at valid
      cases pc with
      | zero =>
          obtain rfl := Option.some.inj found
          exact valid.1
      | succ pc => exact ih valid.2 found

/-- What the first instructions ask for is part of what the program asks for. -/
theorem demand_take_le (text : List Inst) (pc : Nat) : demand (text.take pc) ≤ demand text := by
  have whole : demand text = demand (text.take pc) + demand (text.drop pc) := by
    rw [demand, demand, demand, ← List.sum_append, ← List.map_append, List.take_append_drop]
  omega

/-- The demand goes up by the bytes of the instruction that is executed. -/
theorem demand_take_succ {text : List Inst} {pc : Nat} {ins : Inst}
    (found : text[pc]? = some ins) :
    demand (text.take (pc + 1)) = demand (text.take pc) + ins.bytes := by
  rw [List.take_add_one, found, Option.toList_some, demand, List.map_append, List.sum_append,
    List.map_singleton, List.sum_singleton]
  rfl

/-! ## Calls that find their pages in RAM -/

/-- The pages of the area are in RAM. -/
def MmStruct.Housed (mm : MmStruct) : Prop :=
  ∀ pgn < mm.endPgn, pagingPagePresent (mm.pgd pgn) = true

namespace Caller

variable {c b c' : Caller} {size : Nat}

/-- What a call does that moves the break by some bytes at most and takes a RAM frame for each
page that it adds. -/
structure Takes (c c' : Caller) (size : Nat) : Prop where
  housed : c.mm.Housed → c'.mm.Housed
  sbrk : c'.mm.mmap.sbrk.toNat ≤ c.mm.mmap.sbrk.toNat + size
  vmStart : c'.mm.mmap.vmStart = c.mm.mmap.vmStart
  frames : c'.mm.endPgn + c'.mram.freeFpList.length =
    c.mm.endPgn + c.mram.freeFpList.length
  ramSize : c'.mram.maxsz = c.mram.maxsz
  swap : c'.activeMswp = c.activeMswp

namespace Takes

/-- Two calls one after the other take what they take together. -/
theorem trans {more : Nat} (first : c.Takes b size) (second : b.Takes c' more) :
    c.Takes c' (size + more) where
  housed := fun housed => second.housed (first.housed housed)
  sbrk := by
    have := first.sbrk
    have := second.sbrk
    omega
  vmStart := second.vmStart.trans first.vmStart
  frames := second.frames.trans first.frames
  ramSize := second.ramSize.trans first.ramSize
  swap := second.swap.trans first.swap

theorem refl (c : Caller) (size : Nat) : c.Takes c size :=
  ⟨id, Nat.le_add_right .., rfl, rfl, rfl, rfl⟩

theorem withSymrg (takes : c.Takes c' size) (rgid : Int) (rg : VmRg) :
    c.Takes (c'.withSymrg rgid rg) size :=
  ⟨takes.housed, takes.sbrk, takes.vmStart, takes.frames, takes.ramSize, takes.swap⟩

/-- A call that moves neither the break nor a page takes nothing. -/
theorem of_sameSpace {area : MmStruct} (same : MmStruct.SameSpace c.mm area) (size : Nat) :
    c.Takes { c with mm := area } size where
  housed := fun housed => by
    unfold MmStruct.Housed MmStruct.endPgn
    rw [same.pgd, same.vmEnd]
    exact housed
  sbrk := by
    rw [same.sbrk]
    exact Nat.le_add_right ..
  vmStart := same.vmStart
  frames := by rw [MmStruct.endPgn, same.vmEnd, MmStruct.endPgn]
  ramSize := rfl
  swap := rfl

theorem of_sameFrames {mram : Memphy} (same : Memphy.SameFrames c.mram mram) (size : Nat) :
    c.Takes { c with mram := mram } size where
  housed := id
  sbrk := Nat.le_add_right ..
  vmStart := rfl
  frames := by rw [same.free]
  ramSize := same.maxsz
  swap := rfl

end Takes

/-- The area can grow by some bytes without a swap frame. -/
structure Roomy (c : Caller) (size : Nat) : Prop where
  start : c.mm.mmap.vmStart = 0
  low : c.mm.mmap.sbrk.toNat + size ≤ 2 ^ 22 - 256
  frames : (c.mm.mmap.sbrk.toNat + size + 255) / 256 ≤
    c.mm.endPgn + c.mram.freeFpList.length
  small : ∀ fpn ∈ c.mram.freeFpList, fpn < 2 ^ 13
  inRam : (c.mm.mmap.vmEnd.toNat : Int) ≤ c.mram.maxsz
  ramSize : c.mram.maxsz ≤ 2 ^ 21

/-- Where there is room in RAM a growth needs no swap frame. -/
theorem Roomy.swappage_eq (roomy : c.Roomy size) (backed : c.mm.Backed) : c.swappage size = 0 := by
  have low := roomy.low
  have frames := roomy.frames
  have pages : c.mm.endPgn + c.incnumpage size = _ := incnumpage_backed backed (by omega)
  rw [swappage]
  omega

/-- Where there is room in RAM the area can grow. -/
theorem Roomy.canGrow (roomy : c.Roomy size) (backed : c.mm.Backed) : c.CanGrow size := by
  have inRam := roomy.inRam
  have ramSize := roomy.ramSize
  have noSwap := roomy.swappage_eq backed
  refine ⟨Bool.eq_false_iff.mpr fun full => ?_,
    framesLeft_iff.mpr (Nat.le_add_right_of_le (Nat.le_of_sub_eq_zero noSwap)),
    framesFit_iff.mpr ⟨fun fpn member => roomy.small fpn (List.mem_of_mem_take member),
      fun fpn member => ?_⟩⟩
  · have above := BitVec.lt_def.mp (areaFull_iff.mp full)
    rw [roomy.start, sub_zero, toULong_toNat (by omega) (by omega)] at above
    omega
  · rw [noSwap] at member
    cases member

/-- Where there is room in RAM an allocation finds room. -/
theorem Roomy.hasRoom (roomy : c.Roomy size) (backed : c.mm.Backed) {amount : BitVec 32}
    (same : amount.toNat = size) : c.HasRoom amount := by
  subst same
  exact .inr ⟨roomy.low, fun _ => roomy.canGrow backed⟩

/-- A growth for which there is room in RAM leaves the swap device. -/
theorem Roomy.atBreak_swap (roomy : c.Roomy size) (backed : c.mm.Backed) :
    (c.atBreak size).activeMswp = c.activeMswp := by
  unfold Caller.atBreak
  split
  · rcases c.incVmaLimit_cases size with ⟨-, result⟩ | ⟨-, -, result⟩ | ⟨-, -, result⟩
    · rw [result]
      rfl
    · rw [result, roomy.swappage_eq backed]
      rfl
    · rw [result, roomy.swappage_eq backed]
      rfl
  · rfl

/-- Room at the break is made with RAM frames. -/
theorem Roomy.atBreak (roomy : c.Roomy size) (backed : c.mm.Backed) :
    c.Takes (c.atBreak size) size := by
  have low := roomy.low
  obtain ⟨notFull, left, -⟩ := roomy.canGrow backed
  obtain ⟨ram, swap, grew⟩ := atBreak_grew backed (by omega) fun _ => ⟨notFull, left⟩
  have pages := grew.pages
  have count := congrArg List.length grew.ramTaken
  rw [List.length_append] at count
  have noSwap : swap = [] := by
    have taken := grew.swapTaken
    rwa [roomy.atBreak_swap backed, List.self_eq_append_left] at taken
  subst noSwap
  rw [List.length_nil] at pages
  exact {
    housed := fun housed pgn inside => by
      rcases grew.page_cases pgn with ⟨old, entry⟩ | ⟨fpn, -, -, entry⟩ | ⟨fpn, member, -⟩
      · rw [entry]
        exact housed pgn (by omega)
      · rw [entry, pagingPagePresent_pteSetFpn]
      · cases member
    sbrk := grew.sbrk.le
    vmStart := (c.atBreak_breakMoved size).vmStart
    frames := by omega
    ramSize := by
      unfold Caller.atBreak
      split
      · exact (c.incVmaLimit_devices size).1.1
      · rfl
    swap := roomy.atBreak_swap backed }

/-- **An allocation** of a program that fits in RAM. -/
theorem Roomy.pgalloc {amount r : BitVec 32} (roomy : c.Roomy amount.toNat)
    (backed : c.mm.Backed) (small : amount.toNat < 2 ^ 31) (inside : r.toNat < 30) {status : Int}
    (ran : c.pgalloc amount r = some (status, c')) : c.Takes c' amount.toNat := by
  obtain ⟨-, ⟨-, found, area, cut, rfl⟩ | ⟨b, found, rfl⟩⟩ := pgalloc_cases small inside ran
  · exact (Takes.of_sameSpace (MmStruct.getFreeVmrgArea_sameSpace cut) _).withSymrg _ _
  · obtain ⟨cut, shape⟩ := short_eq_some found
    have same := MmStruct.getFreeVmrgArea_sameSpace cut
    have mram : b.mram = c.mram := by rw [shape]
    have roomyB : b.Roomy amount.toNat := by
      constructor <;> simp only [MmStruct.endPgn, same.vmStart, same.sbrk, same.vmEnd, mram]
      · exact roomy.start
      · exact roomy.low
      · exact roomy.frames
      · exact roomy.small
      · exact roomy.inRam
      · exact roomy.ramSize
    have before : c.Takes b 0 := by
      rw [shape]
      exact .of_sameSpace same 0
    have takes := before.trans (roomyB.atBreak (backed.congr same.pgd same.vmEnd same.sbrk))
    rw [Nat.zero_add] at takes
    exact takes.withSymrg _ _

/-- **A free** leaves the pages. -/
theorem pgfreeData_takes {r : BitVec 32} (inside : r.toNat < 30) {status : Int}
    (ran : c.pgfreeData r = some (status, c')) : c.Takes c' 0 := by
  obtain ⟨enlisted, area, entered, rfl⟩ := pgfreeData_cases inside ran
  exact (Takes.of_sameSpace (MmStruct.enlistVmFreergList_sameSpace entered) 0).withSymrg _ _

/-- **An access** to a page in RAM leaves the pages. -/
theorem pgread_takes {r o : BitVec 32} (inside : r.toNat < 30) (accepted : c.rejects r o = false)
    (present : pagingPagePresent (c.mm.pgd (pagingPgn (c.accessed r o))) = true) (u : Uninit)
    (data : Byte) : c.Takes (c.pgread u r o data).2.2 0 := by
  rw [pgread_accepted inside accepted, pgGetval_caller, pgGetpage_hit present]
  exact .refl c 0

/-- A write to a page in RAM takes no frame and leaves the break. -/
theorem pgwrite_takes {r o : BitVec 32} (inside : r.toNat < 30) (accepted : c.rejects r o = false)
    (present : pagingPagePresent (c.mm.pgd (pagingPgn (c.accessed r o))) = true) (u : Uninit)
    (value : Byte) : c.Takes (c.pgwrite u value r o).2 0 := by
  obtain ⟨mram, frames, written⟩ := c.pgSetval_caller u (c.accessed r o) value
  rw [pgwrite_accepted inside accepted, written, pgGetpage_hit present]
  rw [pgGetpage_hit present] at frames
  exact .of_sameFrames frames 0

end Caller

/-! ## Instructions that find their pages in RAM -/

namespace Sys

variable {s : Sys ι} {P : ι} {ins : Inst} {vars : Variables}

/-- A free does not have its lower neighbour right behind its upper neighbour on the list. -/
def UnwedgedInst (s : Sys ι) (P : ι) (ins : Inst) : Prop :=
  ins.opcode = .freeOp →
    MmStruct.wedged ((s.mm P).symrgtbl ins.arg0.toNat) (s.mm P).freeRegions = false

/-- The list of free regions is searched, so that the condition can be evaluated. -/
instance (s : Sys ι) (P : ι) (ins : Inst) : Decidable (s.UnwedgedInst P ins) :=
  inferInstanceAs (Decidable (_ → _))

/-- A byte that the program names is on a page in RAM. -/
theorem Represents.named (represents : s.Represents P vars) (sound : Sound s)
    (housed : (s.mm P).Housed) {r o : BitVec 32} (named : Inst.names vars r o = true) :
    r.toNat < 30 ∧ (s.caller P).InRegion r o ∧ (s.caller P).rejects r o = false ∧
      (s.caller P).Served ((s.caller P).accessed r o) ∧
      pagingPagePresent ((s.caller P).mm.pgd (pagingPgn ((s.caller P).accessed r o))) = true := by
  obtain ⟨inside, v, held, within⟩ := Inst.names_iff.mp named
  have inRegion := represents.inRegion inside held within
  obtain ⟨-, area, accepted⟩ := inRegion.accessed (sound.laid P) inside
  have vmEnd := (sound.laid P).backed.vmEnd_eq
  have page := pagingPgn_eq ((s.caller P).accessed r o)
  have low := (sound.laid P).low
  obtain ⟨nonneg, below⟩ := area
  have present := housed (pagingPgn ((s.caller P).accessed r o)) (by
    simp only [caller] at *
    omega)
  exact ⟨inside, inRegion, accepted, ⟨⟨nonneg, below⟩, .inl present⟩, present⟩

/-- **A valid instruction** makes a regular call when there is room for what it asks for, and takes
no more than that. -/
theorem Represents.valid (represents : s.Represents P vars) (sound : Sound s)
    (housed : (s.mm P).Housed) (valid : ins.valid vars = true)
    (unwedged : s.UnwedgedInst P ins) (roomy : (s.caller P).Roomy ins.bytes) :
    s.RegularInst P ins ∧ ∀ {u : Uninit} {data : Byte} {stat : Int} {c : Caller},
      (s.caller P).execute u data ins = some (stat, c) → (s.caller P).Takes c ins.bytes := by
  have backed : (s.caller P).mm.Backed := (sound.laid P).backed
  unfold RegularInst Inst.memoryCall Caller.execute
  unfold Inst.valid at valid
  unfold Inst.bytes at roomy ⊢
  cases opcode : ins.opcode with
  | calcOp =>
      refine ⟨fun _ calls => (nomatch calls), fun {u data stat c} ran => ?_⟩
      obtain ⟨-, rfl⟩ := Prod.mk.inj (Option.some.inj ran)
      exact .refl _ _
  | allocOp =>
      simp only [opcode, Bool.and_eq_true, decide_eq_true_eq] at valid roomy
      refine ⟨fun _ calls => ?_, fun {u data stat c} ran => ?_⟩
      · obtain rfl := Option.mem_some.mp calls
        exact ⟨valid, roomy.hasRoom backed rfl⟩
      · exact roomy.pgalloc backed valid.1.2 valid.2 ran
  | freeOp =>
      simp only [opcode, decide_eq_true_eq] at valid
      refine ⟨fun _ calls => ?_, fun {u data stat c} ran => ?_⟩
      · obtain rfl := Option.mem_some.mp calls
        exact ⟨valid, unwedged opcode⟩
      · exact Caller.pgfreeData_takes valid ran
  | readOp =>
      simp only [opcode] at valid
      obtain ⟨inside, -, accepted, served, present⟩ := represents.named sound housed valid
      refine ⟨fun _ calls => ?_, fun {u data stat c} ran => ?_⟩
      · obtain rfl := Option.mem_some.mp calls
        exact ⟨inside, .inr served⟩
      · obtain ⟨-, rfl⟩ := Prod.mk.inj (Option.some.inj ran)
        exact Caller.pgread_takes inside accepted present u data
  | writeOp =>
      simp only [opcode] at valid
      obtain ⟨inside, inRegion, accepted, served, present⟩ := represents.named sound housed valid
      refine ⟨fun _ calls => ?_, fun {u data stat c} ran => ?_⟩
      · obtain rfl := Option.mem_some.mp calls
        exact ⟨inside, .inr ⟨served, .inl inRegion⟩⟩
      · obtain rfl := congrArg Prod.snd (Option.some.inj ran)
        exact Caller.pgwrite_takes inside accepted present u _

/-! ## All processes together -/

/-- The processes have their pages in RAM, and their breaks are where the bytes that they asked
for end at most. The free frames and the pages of some of them are the frames that were free at
first, and swap is as it was. -/
structure Housing (procs : Finset ι) (total : Nat) (swap : Memphy) (asked : ι → Nat) (s : Sys ι) :
    Prop where
  housed : ∀ P, (s.mm P).Housed
  vmStart : ∀ P, (s.mm P).mmap.vmStart = 0
  sbrk : ∀ P, (s.mm P).mmap.sbrk.toNat ≤ asked P
  frames : ∑ P ∈ procs, (s.mm P).endPgn + s.mram.freeFpList.length = total
  fits : (total : Int) * 256 ≤ s.mram.maxsz
  ramSize : s.mram.maxsz ≤ 2 ^ 21
  swap : s.activeMswp = swap

section Housing

variable {procs : Finset ι} {total : Nat} {swap : Memphy} {asked limit : ι → Nat}

/-- The pages of a process are those up to its break, the last of them perhaps in part. -/
theorem endPgn_eq (laid : (s.mm P).Laid) :
    (s.mm P).endPgn = ((s.mm P).mmap.sbrk.toNat + 255) / 256 := by
  rw [MmStruct.endPgn, laid.aligned, Nat.mul_div_cancel _ (by decide)]

variable [DecidableEq ι]

/-- **Nobody takes the frames of another process** when there are enough for all of them. -/
theorem Housing.roomy (housing : Housing procs total swap asked s) (sound : Sound s)
    (member : P ∈ procs) (enough : ∑ Q ∈ procs, (limit Q + 255) / 256 ≤ total)
    (below : ∀ Q ∈ procs, asked Q ≤ limit Q) {size : Nat} (inside : asked P + size ≤ limit P)
    (low : limit P ≤ 2 ^ 22 - 256) : (s.caller P).Roomy size := by
  have pages (Q : ι) (here : Q ∈ procs) : (s.mm Q).endPgn ≤ (limit Q + 255) / 256 := by
    have break_ := housing.sbrk Q
    have bound := below Q here
    rw [endPgn_eq (sound.laid Q)]
    omega
  have others : ∑ Q ∈ procs.erase P, (s.mm Q).endPgn ≤
      ∑ Q ∈ procs.erase P, (limit Q + 255) / 256 :=
    Finset.sum_le_sum fun Q here => pages Q (Finset.mem_of_mem_erase here)
  have taken := Finset.add_sum_erase procs (fun Q => (s.mm Q).endPgn) member
  have wanted := Finset.add_sum_erase procs (fun Q => (limit Q + 255) / 256) member
  have frames := housing.frames
  have fits := housing.fits
  have ramSize := housing.ramSize
  have break_ := housing.sbrk P
  have vmEnd := (sound.laid P).backed.vmEnd_eq
  exact {
    start := housing.vmStart P
    low := by
      simp only [caller]
      omega
    frames := by
      simp only [caller]
      omega
    small := fun fpn free => by
      have valid : s.mram.Inside fpn := sound.coherent.ram.freeValid free
      have := valid.2
      omega
    inRam := by
      simp only [caller]
      omega
    ramSize := ramSize }

theorem Housing.put (housing : Housing procs total swap asked s) (member : P ∈ procs) {c : Caller}
    {size : Nat} (takes : (s.caller P).Takes c size) :
    Housing procs total swap (Function.update asked P (asked P + size)) (s.put P c) where
  housed := fun Q => by
    by_cases same : Q = P
    · subst same
      rw [put_mm_self]
      exact takes.housed (housing.housed Q)
    · rw [put_mm_of_ne s same]
      exact housing.housed Q
  vmStart := fun Q => by
    by_cases same : Q = P
    · subst same
      rw [put_mm_self]
      exact takes.vmStart.trans (housing.vmStart Q)
    · rw [put_mm_of_ne s same]
      exact housing.vmStart Q
  sbrk := fun Q => by
    by_cases same : Q = P
    · subst same
      rw [put_mm_self, Function.update_self]
      exact takes.sbrk.trans (Nat.add_le_add_right (housing.sbrk Q) size)
    · rw [put_mm_of_ne s same, Function.update_of_ne same]
      exact housing.sbrk Q
  frames := by
    have others : ∑ Q ∈ procs.erase P, ((s.put P c).mm Q).endPgn =
        ∑ Q ∈ procs.erase P, (s.mm Q).endPgn :=
      Finset.sum_congr rfl fun Q here => by rw [put_mm_of_ne s (Finset.ne_of_mem_erase here)]
    have before := Finset.add_sum_erase procs (fun Q => (s.mm Q).endPgn) member
    have after := Finset.add_sum_erase procs (fun Q => ((s.put P c).mm Q).endPgn) member
    have frames := housing.frames
    have exchanged := takes.frames
    simp only [put_mm_self, put_mram, caller] at *
    omega
  fits := by
    rw [put_mram, takes.ramSize]
    exact housing.fits
  ramSize := by
    rw [put_mram, takes.ramSize]
    exact housing.ramSize
  swap := takes.swap.trans housing.swap

end Housing

/-- The processes have executed their programs up to their program counters: the memory shows the
variables that they have computed, on pages in RAM. -/
structure Underway (procs : Finset ι) (total : Nat) (swap : Memphy) (text : ι → List Inst)
    (pc : ι → Nat) (s : Sys ι) : Prop where
  sound : Sound s
  shows : ∀ P, s.Represents P (computed ((text P).take (pc P)))
  housing : Housing procs total swap (fun P => demand ((text P).take (pc P))) s

namespace Underway

variable {procs : Finset ι} {total : Nat} {swap : Memphy} {text : ι → List Inst} {pc : ι → Nat}

/-- The demand of the process that executes goes up, and those of the others stay. -/
theorem demand_update [DecidableEq ι] (found : (text P)[pc P]? = some ins) :
    (fun Q => demand ((text Q).take (Function.update pc P (pc P + 1) Q))) =
      Function.update (fun Q => demand ((text Q).take (pc Q))) P
        (demand ((text P).take (pc P)) + ins.bytes) := by
  funext Q
  by_cases same : Q = P
  · subst same
    rw [Function.update_self, Function.update_self, demand_take_succ found]
  · rw [Function.update_of_ne same, Function.update_of_ne same]

variable [DecidableEq ι]

/-- **An instruction of a checked program** makes a regular call, and the process has executed it
then. -/
theorem execute (underway : Underway procs total swap text pc s)
    (passed : ∀ Q ∈ procs, checked (text Q) = true)
    (enough : ∑ Q ∈ procs, demandedPages (text Q) ≤ total) (member : P ∈ procs)
    (found : (text P)[pc P]? = some ins) (unwedged : s.UnwedgedInst P ins) :
    s.RegularInst P ins ∧ ∀ {u : Uninit} {data : Byte} {stat : Int} {c : Caller},
      (s.caller P).execute u data ins = some (stat, c) →
        Underway procs total swap text (Function.update pc P (pc P + 1)) (s.put P c) := by
  obtain ⟨valid, small⟩ := Bool.and_eq_true_iff.mp (passed P member)
  -- no process asks for more than its program does
  have asks : demand ((text P).take (pc P)) + ins.bytes ≤ demand (text P) :=
    (demand_take_succ found).ge.trans (demand_take_le _ _)
  have roomy := underway.housing.roomy underway.sound member enough
    (fun Q _ => demand_take_le _ _) asks (of_decide_eq_true small)
  obtain ⟨regular, takes⟩ := (underway.shows P).valid underway.sound (underway.housing.housed P)
    (valid_of_validFrom valid found) unwedged roomy
  refine ⟨regular, fun ran => ?_⟩
  obtain ⟨sound, represents⟩ := underway.sound.execute regular ran
  refine ⟨sound, fun Q => ?_, ?_⟩
  · have shows := represents Q _ (underway.shows Q)
    by_cases same : Q = P
    · subst same
      rw [if_pos rfl, ← computed_snoc] at shows
      rwa [Function.update_self, List.take_add_one, found]
    · rw [if_neg same] at shows
      rwa [Function.update_of_ne same]
  · rw [demand_update found]
    exact underway.housing.put member (takes ran)

end Underway

end Sys

end PagedOs
