import PagedOs.Memory.Calls
import PagedOs.Memory.Preempted
import PagedOs.Process.Demand

/-! # Instructions that overlap

Processes on different CPUs execute their instructions at the same time: while one of them is in
`alloc_pages_range` or about to access its page, any other one may call the devices. A process that
has taken frames has not entered them in its table yet, so the frames are neither free nor owned.
They are put back in front of the free list here: then nothing has happened before the last call of
the instruction, and the instruction is executed at once with it.
-/

namespace PagedOs

open Transition

variable {ι : Type*}

/-- What a process has of its own: its tables and its program counter. -/
structure Process where
  mm : MmStruct
  pc : Nat

/-- `run` for a process that has an instruction left. -/
def runCalls (u : Uninit) (data : Byte) (text : List Inst) (own : Process) :
    Option (DeviceM Process) :=
  (text[own.pc]?).bind fun ins =>
    (Calls.execute own.mm u data ins).map fun calls => do
      let (_, mm) ← calls
      return ⟨mm, own.pc + 1⟩

/-- Processes that execute their instructions a call at a time. -/
abbrev Overlapped (ι : Type*) :=
  Interleaved ι (Device → Memphy) DeviceCall DeviceCall.Result Process

namespace Overlapped

/-- What a process may execute next; its uninitialised variables hold anything. -/
def Begins (text : ι → List Inst) (P : ι) (own : Process) (m : DeviceM Process) : Prop :=
  ∃ u data, runCalls u data (text P) own = some m

/-- The processes are about to execute their first instructions. -/
def start (memory : Sys ι) : Overlapped ι where
  shared := memory.device
  own := fun P => ⟨memory.mm P, 0⟩
  within := fun _ => none

/-- The devices and the tables, without the calls that are under way. -/
def sys (s : Overlapped ι) : Sys ι where
  mram := s.shared .mram
  activeMswp := s.shared .activeMswp
  mm := fun P => (s.own P).mm

/-- A free that is begun is not wedged. -/
def Unwedged (text : ι → List Inst) (s : Overlapped ι)
    (label : ι × Option (Sigma DeviceCall.Result)) : Prop :=
  ∀ ins ∈ (text label.1)[(s.own label.1).pc]?, s.sys.UnwedgedInst label.1 ins

/-- The instruction of the process is looked up and its free is tested, so that the condition can
be evaluated. -/
instance (text : ι → List Inst) (s : Overlapped ι) (label : ι × Option (Sigma DeviceCall.Result)) :
    Decidable (s.Unwedged text label) :=
  inferInstanceAs (Decidable (∀ ins ∈ (text label.1)[(s.own label.1).pc]?, _))

variable [DecidableEq ι]

/-- A step of a process: the beginning of its next instruction, or a call of it. -/
def Step (text : ι → List Inst) :
    Overlapped ι → ι × Option (Sigma DeviceCall.Result) → Overlapped ι → Prop :=
  Interleaved.Step DeviceCall.handle (Begins text)

end Overlapped

/-- What a process begins with: the calls of its next instruction, with the program counter moved
behind them. -/
theorem runCalls_eq_some {u : Uninit} {data : Byte} {text : List Inst} {own : Process}
    {m : DeviceM Process} (begun : runCalls u data text own = some m) :
    ∃ ins calls, text[own.pc]? = some ins ∧ Calls.execute own.mm u data ins = some calls ∧
      m = calls >>= fun result => .ret ⟨result.2, own.pc + 1⟩ := by
  obtain ⟨ins, found, more⟩ := Option.bind_eq_some_iff.mp begun
  obtain ⟨calls, executes, rfl⟩ := Option.map_eq_some_iff.mp more
  exact ⟨ins, calls, found, executes, rfl⟩

theorem runCalls_perform {s : Sys ι} {P : ι} {u : Uninit} {data : Byte} {text : List Inst}
    {pc : Nat} {m : DeviceM Process} (begun : runCalls u data text ⟨s.mm P, pc⟩ = some m) :
    ∃ ins stat c, text[pc]? = some ins ∧ (s.caller P).execute u data ins = some (stat, c) ∧
      m.perform DeviceCall.handle s.device = (⟨c.mm, pc + 1⟩, c.device) := by
  obtain ⟨ins, calls, found, executes, rfl⟩ := runCalls_eq_some begun
  have device : (s.caller P).device = s.device := by
    funext device
    cases device <;> rfl
  have alone := Calls.perform_execute (s.caller P) u data ins
  rw [show (s.caller P).mm = s.mm P from rfl, executes, Option.map_some] at alone
  rw [Caller.perform, device] at alone
  refine ⟨ins, _, _, found, alone.symm, ?_⟩
  rw [Calling.perform_bind, Calling.perform_ret]
  exact Prod.ext rfl (Caller.device_mk _ _).symm

/-- An instruction that the machine can execute in one step is one that a process can begin. -/
theorem exists_runCalls {s : Sys ι} {P : ι} {u : Uninit} {data : Byte} {text : List Inst} {pc : Nat}
    {ins : Inst} (found : text[pc]? = some ins) {result : Int × Caller}
    (ran : (s.caller P).execute u data ins = some result) :
    ∃ m, runCalls u data text ⟨s.mm P, pc⟩ = some m := by
  rw [← Calls.perform_execute] at ran
  obtain ⟨calls, executes, -⟩ := Option.map_eq_some_iff.mp ran
  have executes : Calls.execute (s.mm P) u data ins = some calls := executes
  rw [runCalls, found, Option.bind_some, executes]
  exact ⟨_, rfl⟩

/-! ## Where a process is in its instruction -/

/-- What an instruction calls first when the pages of the process are in RAM. -/
inductive Begun (s : Sys ι) (P : ι) (text : List Inst) (pc : Nat) : DeviceM Process → Prop where
  | done (after : Process) : Begun s P text pc (.ret after)
  | read {ins : Inst} (value : Byte) (after : Process) (found : text[pc]? = some ins)
      (reads : ins.opcode = .readOp)
      (present : s.InRam P ((s.caller P).accessed ins.arg0 ins.arg1)) :
      Begun s P text pc (.call
        (.read .mram (s.physical P ((s.caller P).accessed ins.arg0 ins.arg1)) value) fun _ =>
          .ret after)
  | write (addr : Int) (value : Byte) (after : Process) (present : s.InRam P addr) :
      Begun s P text pc (.call (.write .mram (s.physical P addr) value) fun _ => .ret after)
  | grow (next : Int → DeviceM Process)
      (asks : ∀ maxsz, (∃ after, next maxsz = .ret after) ∨
        ∃ n, ∃ k : Int × List Int × List Int → Process, next maxsz =
          (Calls.allocPagesRange n [] [] >>= fun allocated => .ret (k allocated)) ∧
            (s.mm P).endPgn + n ≤ demandedPages text) :
      Begun s P text pc (.call (.maxsz .mram) next)

/-- Two devices with the same cells, whatever has become of their frames. -/
structure Memphy.SameCells (mp other : Memphy) : Prop where
  storage : other.storage = mp.storage
  maxsz : other.maxsz = mp.maxsz
  rdmflg : other.rdmflg = mp.rdmflg

theorem Memphy.SameCells.refl (mp : Memphy) : Memphy.SameCells mp mp := ⟨rfl, rfl, rfl⟩

/-- Devices that have the same cells as a third one have them in common. -/
theorem Memphy.SameCells.trans {mp other third : Memphy} (first : Memphy.SameCells mp other)
    (second : Memphy.SameCells other third) : Memphy.SameCells mp third :=
  ⟨second.storage.trans first.storage, second.maxsz.trans first.maxsz,
    second.rdmflg.trans first.rdmflg⟩

section Underway

variable {procs : Finset ι} {total : Nat} {swap : Memphy} {text : ι → List Inst} {pc : ι → Nat}
  {s : Sys ι} {P : ι}

/-- The pages that an allocation adds are among those that the program asks for. -/
theorem Sys.Underway.grown_le (underway : s.Underway procs total swap text pc)
    (passed : checked (text P) = true) {ins : Inst} (found : (text P)[pc P]? = some ins)
    (allocates : ins.opcode = .allocOp) :
    (s.mm P).endPgn + (s.mm P).incnumpage (toInt ins.arg0.toNat) ≤ demandedPages (text P) := by
  obtain ⟨allValid, small⟩ := Bool.and_eq_true_iff.mp passed
  have valid := valid_of_validFrom allValid found
  have amount : toInt ins.arg0.toNat = (ins.arg0.toNat : Int) := by
    simp only [Inst.valid, allocates, Bool.and_eq_true, decide_eq_true_eq] at valid
    exact toInt_eq_self (by omega) (by omega)
  have asked : demand ((text P).take (pc P)) + ins.arg0.toNat ≤ demand (text P) := by
    have step := demand_take_succ found
    have whole := demand_take_le (text P) (pc P + 1)
    simp only [Inst.bytes, allocates] at step
    omega
  have sbrk := underway.housing.sbrk P
  have low := of_decide_eq_true small
  have backed : (s.caller P).mm.Backed := (underway.sound.laid P).backed
  have count : (s.mm P).endPgn + (s.mm P).incnumpage ins.arg0.toNat =
      ((s.mm P).mmap.sbrk.toNat + ins.arg0.toNat + 255) / 256 :=
    Caller.incnumpage_backed backed (by simp only [Sys.caller]; omega)
  rw [amount, count, demandedPages]
  omega

/-- An instruction of a checked program begins in one of the ways that are listed. -/
theorem begun_of_runCalls (underway : s.Underway procs total swap text pc)
    (passed : checked (text P) = true) {u : Uninit} {data : Byte} {m : DeviceM Process}
    (begun : runCalls u data (text P) ⟨s.mm P, pc P⟩ = some m) : Begun s P (text P) (pc P) m := by
  obtain ⟨ins, calls, found, executes, rfl⟩ := runCalls_eq_some begun
  have valid := valid_of_validFrom (Bool.and_eq_true_iff.mp passed).1 found
  have sound := underway.sound
  have housed := underway.housing.housed P
  unfold Calls.execute at executes
  unfold Inst.valid at valid
  cases opcode : ins.opcode with
  | calcOp =>
      simp only [opcode] at executes
      obtain rfl := Option.some.inj executes
      exact .done _
  | allocOp =>
      simp only [opcode] at executes
      rcases Calls.pgalloc_calls executes with ⟨result, rfl⟩ | ⟨next, rfl, later⟩
      · exact .done _
      · rw [Calling.call_bind]
        refine .grow _ fun maxsz => ?_
        rcases later maxsz with ⟨result, returns⟩ | ⟨k, asks⟩
        · rw [returns]
          exact .inl ⟨_, rfl⟩
        · rw [asks]
          simp only [bind_assoc]
          exact .inr ⟨_, _, rfl, underway.grown_le passed found opcode⟩
  | freeOp =>
      simp only [opcode, Calls.pgfreeData, Calls.free] at executes
      split at executes
      · obtain rfl := Option.some.inj executes
        exact .done _
      · obtain ⟨_, -, rfl⟩ := Option.map_eq_some_iff.mp executes
        exact .done _
  | readOp =>
      simp only [opcode] at executes valid
      obtain ⟨inside, -, accepted, -, present⟩ := (underway.shows P).named sound housed valid
      have hit := Calls.pgread_hit u inside accepted present data
      have caller : (s.caller P).mm = s.mm P := rfl
      rw [caller] at hit
      rw [hit] at executes
      obtain rfl := Option.some.inj executes
      exact Begun.read (s := s) (P := P) data ⟨s.mm P, pc P + 1⟩ found opcode present
  | writeOp =>
      simp only [opcode] at executes valid
      obtain ⟨inside, -, accepted, -, present⟩ := (underway.shows P).named sound housed valid
      have hit := Calls.pgwrite_hit u inside accepted present (ins.arg0.setWidth 8)
      have caller : (s.caller P).mm = s.mm P := rfl
      rw [caller] at hit
      rw [hit] at executes
      obtain rfl := Option.some.inj executes
      exact Begun.write (s := s) (P := P) _ _ ⟨s.mm P, pc P + 1⟩ present

/-- The memory of a process is in the cells. -/
theorem Sys.Represents.sameCells {vars : Variables} (represents : s.Represents P vars)
    {mram : Memphy} (same : Memphy.SameCells s.mram mram) :
    Sys.Represents { s with mram := mram } P vars := by
  have page : mram.page = s.mram.page := by
    funext fpn offset
    rw [Memphy.page, Memphy.page, same.storage]
  have byteAt : ({ s with mram := mram } : Sys ι).byteAt = s.byteAt := by
    funext P x
    simp only [Sys.byteAt, Sys.content, Sys.pte, page]
    rfl
  refine ⟨fun r v register held => ?_, represents.nothing⟩
  rw [byteAt]
  exact represents.shown r v register held

/-- Neither the order of the free frames nor the used ones matter. -/
theorem Sys.Underway.reorder (underway : s.Underway procs total swap text pc) {mram : Memphy}
    (same : Memphy.SameCells s.mram mram) (free : s.mram.freeFpList.Perm mram.freeFpList) :
    Sys.Underway procs total swap text pc { s with mram := mram } := by
  have inside : mram.Inside = s.mram.Inside := by
    funext fpn
    simp only [Memphy.Inside, same.maxsz]
  have housing := underway.housing
  have coherent := underway.sound.coherent
  exact {
    sound := {
      coherent := {
        ram := by
          rw [inside]
          exact coherent.ram.perm free
        swap := coherent.swap
        ramRandom := same.rdmflg.trans coherent.ramRandom
        swapRandom := coherent.swapRandom
        listed := coherent.listed }
      laid := underway.sound.laid }
    shows := fun P => (underway.shows P).sameCells same
    housing := {
      housed := housing.housed
      vmStart := housing.vmStart
      sbrk := housing.sbrk
      frames := by
        rw [← free.length_eq]
        exact housing.frames
      fits := by
        rw [same.maxsz]
        exact housing.fits
      ramSize := by
        rw [same.maxsz]
        exact housing.ramSize
      swap := housing.swap } }

variable [DecidableEq ι]

/-- **The last call of an instruction** of a checked program executes the instruction, when it leads
to what the instruction does on its own. -/
theorem Sys.Underway.commit (underway : s.Underway procs total swap text pc)
    (passed : ∀ Q ∈ procs, checked (text Q) = true)
    (enough : ∑ Q ∈ procs, demandedPages (text Q) ≤ total) (member : P ∈ procs)
    {u : Uninit} {data : Byte} {m : DeviceM Process}
    (begun : runCalls u data (text P) ⟨s.mm P, pc P⟩ = some m)
    (unwedged : ∀ ins ∈ (text P)[pc P]?, s.UnwedgedInst P ins) {after : Process}
    {d : Device → Memphy} (performed : m.perform DeviceCall.handle s.device = (after, d)) :
    after.pc = pc P + 1 ∧ Sys.Underway procs total swap text (Function.update pc P (pc P + 1))
      ⟨d .mram, d .activeMswp, Function.update s.mm P after.mm⟩ := by
  obtain ⟨ins, stat, c, found, ran, whole⟩ := runCalls_perform begun
  obtain ⟨rfl, rfl⟩ := Prod.mk.inj (whole.symm.trans performed)
  refine ⟨rfl, ?_⟩
  exact (underway.execute passed enough member found (unwedged ins found)).2 ran

end Underway

end PagedOs
