import PagedOs.Memory.Faithful
import PagedOs.Process.Run

/-! # What a program computes

A program uses its memory through the variables in its registers: `alloc` gives a register a fresh
variable, `free` takes it away, `write` stores a byte in it. A process has the variables of its
program in its memory as long as the calls that its instructions make are regular, whatever other
processes do in the meantime.
-/

namespace PagedOs

open Spans Transition

variable {ι : Type*}

/-- A variable: its size, and the bytes that were written to it. -/
structure Variable where
  size : BitVec 32
  bytes : BitVec 32 → Option Byte

/-- Nothing was written to a fresh variable. -/
def Variable.fresh (size : BitVec 32) : Variable := ⟨size, fun _ => none⟩

/-- A byte is stored in a variable; behind its end there is nothing. -/
def Variable.store (v : Variable) (offset : BitVec 32) (data : Byte) : Variable :=
  if offset < v.size then { v with bytes := Function.update v.bytes offset (some data) } else v

namespace Variable

variable {v : Variable} {offset other : BitVec 32} {data : Byte}

/-- Storing a byte leaves the size of the variable. -/
@[simp] theorem store_size : (v.store offset data).size = v.size := by
  unfold store
  split <;> rfl

/-- A byte that is stored inside of the variable is there. -/
theorem store_bytes_self (within : offset < v.size) :
    (v.store offset data).bytes offset = some data := by
  rw [store, if_pos within]
  exact Function.update_self ..

/-- The other bytes of the variable are as they were. -/
theorem store_bytes_of_ne (different : other ≠ offset) :
    (v.store offset data).bytes other = v.bytes other := by
  unfold store
  split
  · exact Function.update_of_ne different ..
  · rfl

end Variable

/-- The variables of a program: what each register holds, if anything. -/
abbrev Variables := BitVec 32 → Option Variable

/-- The variables after an instruction, as the program means it. -/
def Inst.compute (vars : Variables) (ins : Inst) : Variables :=
  match ins.opcode with
  | .calcOp => vars
  | .allocOp => Function.update vars ins.arg1 (some (.fresh ins.arg0))
  | .freeOp => Function.update vars ins.arg0 none
  | .readOp => vars
  | .writeOp =>
      Function.update vars ins.arg1
        ((vars ins.arg1).map fun v => v.store ins.arg2 (ins.arg0.setWidth 8))

/-- The variables after some instructions, from none on. -/
def computed (text : List Inst) : Variables := text.foldl Inst.compute fun _ => none

/-- The call that an instruction makes; `calc` makes none. -/
def Inst.memoryCall (ins : Inst) : Option MemoryCall :=
  match ins.opcode with
  | .calcOp => none
  | .allocOp => some (.pgalloc ins.arg0 ins.arg1)
  | .freeOp => some (.pgfreeData ins.arg0)
  | .readOp => some (.pgread ins.arg0 ins.arg1)
  | .writeOp => some (.pgwrite (ins.arg0.setWidth 8) ins.arg1 ins.arg2)

/-- The variables after one more instruction are those that it computes from the ones before. -/
theorem computed_snoc (text : List Inst) (ins : Inst) :
    computed (text ++ [ins]) = ins.compute (computed text) := by
  rw [computed, List.foldl_append]
  rfl

namespace Caller

variable {c c' : Caller}

/-- An instruction that makes no call leaves the memory. -/
theorem execute_none {ins : Inst} (silent : ins.memoryCall = none) (u : Uninit) (data : Byte) :
    c.execute u data ins = some (calcProc, c) := by
  unfold Inst.memoryCall at silent
  unfold execute
  cases opcode : ins.opcode <;> simp [opcode] at silent ⊢

/-- An instruction that makes a call does to the memory what the call does. -/
theorem execute_some {ins : Inst} {call : MemoryCall} (calls : ins.memoryCall = some call)
    (u : Uninit) (data : Byte) : c.execute u data ins =
      (c.memoryCall u data call).map fun (stat, _, c) => (stat, c) := by
  unfold Inst.memoryCall at calls
  unfold execute
  cases opcode : ins.opcode with
  | calcOp => simp [opcode] at calls
  | allocOp =>
      obtain rfl := Option.some.inj (by simpa only [opcode] using calls)
      simp only [memoryCall, Option.map_map]
      exact (congrFun Option.map_id _).symm
  | freeOp =>
      obtain rfl := Option.some.inj (by simpa only [opcode] using calls)
      simp only [memoryCall, Option.map_map]
      exact (congrFun Option.map_id _).symm
  | readOp =>
      obtain rfl := Option.some.inj (by simpa only [opcode] using calls)
      rfl
  | writeOp =>
      obtain rfl := Option.some.inj (by simpa only [opcode] using calls)
      rfl

/-- The region of an allocation that finds room has the size asked for. -/
theorem pgalloc_sized (laid : c.mm.Laid) {size r : BitVec 32} (positive : 1 ≤ size.toNat)
    (small : size.toNat < 2 ^ 31) (inside : r.toNat < 30) (room : c.HasRoom size) {status : Int}
    (ran : c.pgalloc size r = some (status, c')) :
    (c'.mm.symrgtbl r.toNat).rgEnd.toNat =
      (c'.mm.symrgtbl r.toNat).rgStart.toNat + size.toNat := by
  have low := laid.low
  have below := laid.sbrk_le
  obtain ⟨regions, list, packed⟩ := laid.packed
  have amount : toInt size.toNat = (size.toNat : Int) := toInt_eq_self (by omega) (by omega)
  have ends := packed_low list packed (by omega)
  simp only [pgalloc, amount, register_eq inside] at ran
  rcases alloc_cases list ends size.toNat (by omega) (by omega) r.toNat with
    ⟨addr, found, area, regions', result, -, -, sized, -⟩ | ⟨none_fits, addr, rg, result, behind⟩
  · rw [result, Option.map_some] at ran
    obtain ⟨-, rfl⟩ := Prod.mk.inj (Option.some.inj ran)
    rw [withSymrg_self]
    exact sized
  · have fits : c.mm.mmap.sbrk.toNat + size.toNat ≤ 2 ^ 22 - 256 := by
      refine (room.resolve_left ?_).1
      intro found
      obtain ⟨rg, member, enough⟩ := List.any_eq_true.mp found
      have enough := of_decide_eq_true enough
      rw [list.freeRegions_eq, List.mem_append, List.mem_singleton] at member
      rcases member with member | rfl
      · exact none_fits rg member enough
      · exact absurd (show 0 + size.toNat ≤ 0 from enough) (by omega)
    rw [result, Option.map_some] at ran
    obtain ⟨-, rfl⟩ := Prod.mk.inj (Option.some.inj ran)
    rw [withSymrg_self, behind (by omega)]
    exact add_toULong_natCast (by omega) (by omega)

theorem pgfreeData_empties {r : BitVec 32} (inside : r.toNat < 30) {status : Int}
    (ran : c.pgfreeData r = some (status, c')) : c'.mm.symrgtbl r.toNat = ⟨0, 0⟩ := by
  simp only [pgfreeData, free, register_eq inside] at ran
  rw [if_neg (by simp only [pagingMaxSymtblSz]; omega)] at ran
  obtain ⟨⟨listed, mm⟩, -, same⟩ := Option.map_eq_some_iff.mp ran
  obtain ⟨-, rfl⟩ := Prod.mk.inj same
  exact withSymrg_self { c with mm := mm } r.toNat ⟨0, 0⟩

end Caller

namespace Sys

/-- The memory of a process shows exactly the variables: the region of each has its size, its bytes
are those that were written, and a register without a variable has the empty region. Of the bytes
that were not written nothing is said. -/
@[mk_iff]
structure Represents (s : Sys ι) (P : ι) (vars : Variables) : Prop where
  shown : ∀ r v, r.toNat < 30 → vars r = some v →
    ((s.mm P).symrgtbl r.toNat).rgEnd.toNat =
        ((s.mm P).symrgtbl r.toNat).rgStart.toNat + v.size.toNat ∧
      ∀ o data, o < v.size → v.bytes o = some data →
        s.byteAt P ((s.caller P).accessed r o) = data
  nothing : ∀ r, r.toNat < 30 → vars r = none → (s.mm P).symrgtbl r.toNat = ⟨0, 0⟩

/-- An instruction makes a regular call, or none. -/
def RegularInst (s : Sys ι) (P : ι) (ins : Inst) : Prop :=
  ∀ call ∈ ins.memoryCall, call.InRange ∧ (s.caller P).Regular call

/-- A call is regular or not by the state, so that the condition can be evaluated. -/
instance (s : Sys ι) (P : ι) (ins : Inst) : Decidable (s.RegularInst P ins) :=
  inferInstanceAs (Decidable (∀ call ∈ ins.memoryCall, _))

variable {s t : Sys ι} {P Q : ι} {vars : Variables}

theorem represents_nothing (fresh : s.mm P = MmStruct.zeroed.initMm) :
    s.Represents P fun _ => none where
  shown := fun _ _ _ found => nomatch found
  nothing := fun _ _ _ => by
    rw [fresh]
    rfl

/-- A byte of a variable is inside the region of its register. -/
theorem Represents.inRegion (represents : s.Represents P vars) {r o : BitVec 32} {v : Variable}
    (inside : r.toNat < 30) (held : vars r = some v) (within : o < v.size) :
    (s.caller P).InRegion r o := by
  have sized := (represents.shown r v inside held).1
  have less := BitVec.lt_def.mp within
  unfold Caller.InRegion
  simp only [caller]
  omega

/-- A byte that was written to a variable is stored at its address. -/
theorem Represents.stored (represents : s.Represents P vars) (sound : Sound s) {r o : BitVec 32}
    {v : Variable} {data : Byte} (inside : r.toNat < 30) (held : vars r = some v)
    (within : o < v.size) (written : v.bytes o = some data) : Stored s P r o data where
  sound := sound
  inRegion := represents.inRegion inside held within
  byte := (represents.shown r v inside held).2 o data within written

/-- **A read obtains what the variable holds.** -/
theorem Represents.read (represents : s.Represents P vars) (sound : Sound s) {r o : BitVec 32}
    {v : Variable} {data : Byte} (inside : r.toNat < 30) (held : vars r = some v)
    (within : o < v.size) (written : v.bytes o = some data)
    (regular : (s.caller P).Regular (.pgread r o)) (u : Uninit) (before : Byte) :
    ∃ c, (s.caller P).pgread u r o before = (0, data, c) := by
  have stored := represents.stored sound inside held within written
  obtain ⟨-, -, accepted⟩ := stored.inRegion.accessed (sound.laid P) inside
  have served := regular.resolve_left (by rw [accepted]; exact Bool.false_ne_true)
  classical
  obtain ⟨c, result, -⟩ := sound.pgread u inside accepted before served
  rw [stored.byte] at result
  exact ⟨c, result⟩

variable [DecidableEq ι] {label : ι × MemoryCall × Int × Byte}

/-- A call leaves the variables that it does not disturb. -/
theorem Represents.undisturbed (represents : s.Represents Q vars) (sound : Sound s)
    (taken : Guarded MemoryStep RegularCall s label t) {r : BitVec 32} {v : Variable}
    (inside : r.toNat < 30) (held : vars r = some v)
    (kept : Q = label.1 → ¬ label.2.1.Replaces r) :
    ((t.mm Q).symrgtbl r.toNat).rgEnd.toNat =
        ((t.mm Q).symrgtbl r.toNat).rgStart.toNat + v.size.toNat ∧
      ∀ o data, o < v.size → v.bytes o = some data →
        (label.1 = Q → ¬ label.2.1.Disturbs r o) →
          t.byteAt Q ((t.caller Q).accessed r o) = data := by
  have region := (sound.step taken).regions Q r kept
  refine ⟨?_, fun o data within written quiet => ?_⟩
  · rw [region]
    exact (represents.shown r v inside held).1
  · exact ((represents.stored sound inside held within written).step inside taken quiet).byte

/-- A call leaves the variables of the other processes. -/
theorem Represents.others (represents : s.Represents Q vars) (sound : Sound s)
    (taken : Guarded MemoryStep RegularCall s label t) (other : Q ≠ label.1) :
    t.Represents Q vars where
  shown := fun r v inside held => by
    obtain ⟨sized, bytes⟩ :=
      represents.undisturbed sound taken inside held fun same => absurd same other
    exact ⟨sized, fun o data within written =>
      bytes o data within written fun same => absurd same.symm other⟩
  nothing := fun r inside none =>
    ((sound.step taken).regions Q r fun same => absurd same other).trans
      (represents.nothing r inside none)

variable {call : MemoryCall} {status : Int} {byte : Byte}

/-- A call leaves a variable that it neither replaces nor writes to. -/
theorem Represents.quiet (represents : s.Represents P vars) (sound : Sound s)
    (taken : Guarded MemoryStep RegularCall s (P, call, status, byte) t) {r : BitVec 32}
    {v : Variable} (inside : r.toNat < 30) (held : vars r = some v)
    (quiet : ∀ o, ¬ call.Disturbs r o) :
    ((t.mm P).symrgtbl r.toNat).rgEnd.toNat =
        ((t.mm P).symrgtbl r.toNat).rgStart.toNat + v.size.toNat ∧
      ∀ o data, o < v.size → v.bytes o = some data →
        t.byteAt P ((t.caller P).accessed r o) = data := by
  obtain ⟨sized, bytes⟩ :=
    represents.undisturbed sound taken inside held fun _ replaces => quiet 0 (.inl replaces)
  exact ⟨sized, fun o data within written => bytes o data within written fun _ => quiet o⟩

/-- A call leaves a register without a variable, unless it replaces its region. -/
theorem Represents.still (represents : s.Represents P vars) (sound : Sound s)
    (taken : Guarded MemoryStep RegularCall s (P, call, status, byte) t) {r : BitVec 32}
    (inside : r.toNat < 30) (none : vars r = none) (kept : ¬ call.Replaces r) :
    (t.mm P).symrgtbl r.toNat = ⟨0, 0⟩ :=
  ((sound.step taken).regions P r fun _ => kept).trans (represents.nothing r inside none)

/-- An allocated variable has the size that was asked for, and no byte of it was written. -/
theorem Represents.pgalloc (represents : s.Represents P vars) (sound : Sound s)
    {size regIndex : BitVec 32}
    (taken : Guarded MemoryStep RegularCall s (P, .pgalloc size regIndex, status, byte) t) :
    t.Represents P (Function.update vars regIndex (some (.fresh size))) := by
  refine ⟨fun r v inside held => ?_, fun r inside none => ?_⟩
  · by_cases same : r = regIndex
    · subst same
      rw [Function.update_self] at held
      obtain rfl := Option.some.inj held
      refine ⟨?_, fun o data _ written => by cases written⟩
      obtain ⟨room, inRange, u, before, c, ran, rfl⟩ := taken
      rw [put_mm_self]
      exact Caller.pgalloc_sized (sound.laid P) inRange.1.1 inRange.1.2 inRange.2 room
        (Caller.memoryCall_pgalloc ran)
    · rw [Function.update_of_ne same] at held
      exact represents.quiet sound taken inside held fun o disturbs =>
        same (MemoryCall.disturbs_pgalloc.mp disturbs).symm
  · have different : r ≠ regIndex := by
      rintro rfl
      rw [Function.update_self] at none
      cases none
    rw [Function.update_of_ne different] at none
    exact represents.still sound taken inside none fun replaced => different replaced.symm

theorem Represents.pgfreeData (represents : s.Represents P vars) (sound : Sound s)
    {regIndex : BitVec 32}
    (taken : Guarded MemoryStep RegularCall s (P, .pgfreeData regIndex, status, byte) t) :
    t.Represents P (Function.update vars regIndex none) := by
  refine ⟨fun r v inside held => ?_, fun r inside none => ?_⟩
  · have different : r ≠ regIndex := by
      rintro rfl
      rw [Function.update_self] at held
      cases held
    rw [Function.update_of_ne different] at held
    exact represents.quiet sound taken inside held fun o disturbs =>
      different (MemoryCall.disturbs_pgfreeData.mp disturbs).symm
  · by_cases same : r = regIndex
    · subst same
      obtain ⟨-, inRange, u, before, c, ran, rfl⟩ := taken
      rw [put_mm_self]
      exact Caller.pgfreeData_empties inRange (Caller.memoryCall_pgfreeData ran)
    · rw [Function.update_of_ne same] at none
      exact represents.still sound taken inside none fun replaced => same replaced.symm

/-- A read leaves the variables as they are. -/
theorem Represents.pgread (represents : s.Represents P vars) (sound : Sound s)
    {source offset : BitVec 32}
    (taken : Guarded MemoryStep RegularCall s (P, .pgread source offset, status, byte) t) :
    t.Represents P vars where
  shown := fun _ _ inside held =>
    represents.quiet sound taken inside held fun _ => MemoryCall.not_disturbs_pgread
  nothing := fun _ inside none => represents.still sound taken inside none id

/-- A variable holds the byte that is written to it. -/
theorem Represents.pgwrite (represents : s.Represents P vars) (sound : Sound s) {data : Byte}
    {destination offset : BitVec 32}
    (taken :
      Guarded MemoryStep RegularCall s (P, .pgwrite data destination offset, status, byte) t) :
    t.Represents P (Function.update vars destination
      ((vars destination).map fun v => v.store offset data)) := by
  refine ⟨fun r v inside held => ?_, fun r inside none => ?_⟩
  · by_cases same : r = destination
    · subst same
      rw [Function.update_self] at held
      obtain ⟨before, earlier, rfl⟩ := Option.map_eq_some_iff.mp held
      obtain ⟨sized, bytes⟩ := represents.undisturbed sound taken inside earlier fun _ => id
      rw [Variable.store_size]
      refine ⟨sized, fun o stored within written => ?_⟩
      by_cases hit : o = offset
      · -- the byte that is written
        subst hit
        rw [Variable.store_bytes_self within] at written
        obtain rfl := Option.some.inj written
        have inRegion := represents.inRegion inside earlier within
        obtain ⟨-, reached, accepted⟩ := inRegion.accessed (sound.laid P) inside
        have effect := sound.step taken
        rw [accessed_congr (effect.regions P _ fun _ => id), effect.bytes P _ reached]
        exact if_pos ⟨accepted, rfl, rfl⟩
      · rw [Variable.store_bytes_of_ne hit] at written
        exact bytes o stored within written fun _ disturbs =>
          hit (MemoryCall.disturbs_pgwrite.mp disturbs).2.symm
    · rw [Function.update_of_ne same] at held
      exact represents.quiet sound taken inside held fun o disturbs =>
        same (MemoryCall.disturbs_pgwrite.mp disturbs).1.symm
  · have before : vars r = Option.none := by
      by_cases same : r = destination
      · subst same
        rwa [Function.update_self, Option.map_eq_none_iff] at none
      · rwa [Function.update_of_ne same] at none
    exact represents.still sound taken inside before id

/-- **A regular call of an instruction** does to the memory what the instruction does to the
variables, and nothing to those of other processes. -/
theorem Represents.step (represents : s.Represents Q vars) (sound : Sound s) {ins : Inst}
    (calls : ins.memoryCall = some label.2.1)
    (taken : Guarded MemoryStep RegularCall s label t) :
    t.Represents Q (if Q = label.1 then ins.compute vars else vars) := by
  obtain ⟨P, call, status, byte⟩ := label
  simp only at calls ⊢
  by_cases own : Q = P
  case neg =>
    rw [if_neg own]
    exact represents.others sound taken own
  subst own
  rw [if_pos rfl]
  unfold Inst.memoryCall at calls
  unfold Inst.compute
  cases opcode : ins.opcode with
  | calcOp => simp [opcode] at calls
  | allocOp =>
      simp only [opcode] at calls
      obtain rfl := Option.some.inj calls
      exact represents.pgalloc sound taken
  | freeOp =>
      simp only [opcode] at calls
      obtain rfl := Option.some.inj calls
      exact represents.pgfreeData sound taken
  | readOp =>
      simp only [opcode] at calls
      obtain rfl := Option.some.inj calls
      exact represents.pgread sound taken
  | writeOp =>
      simp only [opcode] at calls
      obtain rfl := Option.some.inj calls
      exact represents.pgwrite sound taken

theorem Sound.executes (sound : Sound s) {ins : Inst} (regular : s.RegularInst P ins) (u : Uninit)
    (data : Byte) : ∃ result, (s.caller P).execute u data ins = some result := by
  unfold RegularInst Inst.memoryCall at regular
  unfold Caller.execute
  cases opcode : ins.opcode with
  | calcOp => exact ⟨_, rfl⟩
  | allocOp =>
      rw [opcode] at regular
      obtain ⟨⟨⟨positive, small⟩, inside⟩, room⟩ := regular _ rfl
      obtain ⟨c, result, -⟩ := sound.pgalloc positive small inside room
      exact ⟨_, result⟩
  | freeOp =>
      rw [opcode] at regular
      obtain ⟨inside, unwedged⟩ := regular _ rfl
      obtain ⟨c, result, -⟩ := sound.pgfreeData inside unwedged
      exact ⟨_, result⟩
  | readOp => exact ⟨_, rfl⟩
  | writeOp => exact ⟨_, rfl⟩

/-- **A regular instruction** keeps the system sound and computes. -/
theorem Sound.execute (sound : Sound s) {ins : Inst} (regular : s.RegularInst P ins) {u : Uninit}
    {data : Byte} {stat : Int} {c : Caller}
    (ran : (s.caller P).execute u data ins = some (stat, c)) :
    Sound (s.put P c) ∧ ∀ Q vars, s.Represents Q vars →
      (s.put P c).Represents Q (if Q = P then ins.compute vars else vars) := by
  cases calls : ins.memoryCall with
  | none =>
      rw [Caller.execute_none calls] at ran
      obtain ⟨-, rfl⟩ := Prod.mk.inj (Option.some.inj ran)
      rw [put_caller]
      refine ⟨sound, fun Q vars represents => ?_⟩
      have still : ins.compute vars = vars := by
        unfold Inst.memoryCall at calls
        unfold Inst.compute
        cases opcode : ins.opcode <;> simp [opcode] at calls ⊢
      rwa [still, ite_self]
  | some call =>
      obtain ⟨inRange, isRegular⟩ := regular call calls
      rw [Caller.execute_some calls] at ran
      obtain ⟨⟨status, byte, after⟩, called, same⟩ := Option.map_eq_some_iff.mp ran
      obtain ⟨rfl, rfl⟩ := Prod.mk.inj same
      have taken : Guarded MemoryStep RegularCall s (P, call, status, byte) (s.put P after) :=
        ⟨isRegular, inRange, u, data, after, called, rfl⟩
      exact ⟨(sound.step taken).sound, fun Q vars represents => represents.step sound calls taken⟩

end Sys

end PagedOs
