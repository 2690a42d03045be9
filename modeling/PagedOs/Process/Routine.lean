import PagedOs.Process.Run
import PagedOs.Scheduler.Dispatch

/-! # The CPU loop and the loader

`cpu_routine` and `ld_routine` of `os.c` as a labelled transition system. The calls of
`get_proc`, `put_proc`, `add_proc` and `run` are atomic, and the steps of the loader
and of any number of CPUs come in any order. Forgetting what the CPUs execute is a
simulation by the machine of `Dispatch`.
-/

namespace PagedOs

open Transition

variable {α κ : Type*}

/-- Where a CPU is in the loop of `cpu_routine`, with its local variables `proc` and
`time_left`. -/
inductive Cpu (α : Type*) where
  /-- before the status of the current process is checked -/
  | check (proc : Option α) (timeLeft : Int)
  /-- before `proc = get_proc()`, when the process was completed or put back; the pointer
  that `proc` still has is not used again -/
  | fetch (timeLeft : Int)
  /-- before the status is checked once more -/
  | recheck (proc : Option α) (timeLeft : Int)
  /-- outside of the loop -/
  | stopped

/-- The process a CPU holds, if it holds one at this place of its loop. -/
def Cpu.holds : Cpu α → Option α
  | .check proc _ => proc
  | .fetch _ => none
  | .recheck proc _ => proc
  | .stopped => none

/-- A CPU that fetches a process holds none. -/
@[simp] theorem Cpu.holds_fetch (timeLeft : Int) : (.fetch timeLeft : Cpu α).holds = none := rfl

/-- The simulated machine: the static data of `sched.c`, the processes the loader has
still to add, `done`, the memory, the program counter of each process and the CPUs. -/
structure Os (α κ : Type*) where
  sched : Mlq α
  pending : List α
  done : Bool
  memory : Sys α
  pc : α → Nat
  cpu : κ → Cpu α

/-- The field `prio` of a process, as the queues look at it. -/
def prioOf (pcb : α → Pcb) (proc : α) : Nat := (pcb proc).prio

/-- What a step of the loader or of a CPU did. -/
inductive OsEvent (α κ : Type*) where
  | add (proc : α)
  | finish
  | get (cpu : κ)
  | put (cpu : κ) (proc : α)
  | complete (cpu : κ) (proc : α)
  | run (cpu : κ) (proc : α) (executed : Option Inst) (stat : Int)
  | skip (cpu : κ)
  | stop (cpu : κ)
deriving DecidableEq

namespace Os

/-- The machine when the threads are started, with any memory. -/
def start (pending : List α) (memory : Sys α) : Os α κ where
  sched := Mlq.zeroed.initScheduler
  pending := pending
  done := false
  memory := memory
  pc := fun _ => 0
  cpu := fun _ => .check none 0

variable [DecidableEq α] [DecidableEq κ]

/-- A CPU moves on, and the others stay where they are. -/
def setCpu (s : Os α κ) (k : κ) (c : Cpu α) : Os α κ := { s with cpu := Function.update s.cpu k c }

/-- The next step of `ld_routine`: it adds the next process, or sets `done` behind the last one. -/
def loaderStep (pcb : α → Pcb) (s : Os α κ) : Option (OsEvent α κ × Os α κ) :=
  match s.pending with
  | proc :: rest =>
      some (.add proc, { s with
        sched := s.sched.addProc (prioOf pcb) proc
        pending := rest
        memory := { s.memory with
          mm := Function.update s.memory.mm proc (s.memory.mm proc).initMm } })
  | [] => if s.done then none else some (.finish, { s with done := true })

/-- `run(proc); time_left--`, after `time_left` was set if it was 0. -/
def execute (pcb : α → Pcb) (timeSlot : Int) (s : Os α κ) (k : κ) (u : Uninit) (data : Byte)
    (proc : α) (timeLeft : Int) : Option (OsEvent α κ × Os α κ) :=
  let timeLeft := if timeLeft = 0 then timeSlot else timeLeft
  ((pcb proc).run (s.pc proc) (s.memory.caller proc) u data).map fun (stat, pc, c) =>
    (.run k proc (pcb proc).text[s.pc proc]? stat,
      { s with
        memory := s.memory.put proc c
        pc := Function.update s.pc proc pc
        cpu := Function.update s.cpu k (.check (some proc) (timeLeft - 1)) })

/-- The next step of `cpu_routine` on a CPU. -/
def cpuStep (pcb : α → Pcb) (timeSlot : Int) (s : Os α κ) (k : κ) (u : Uninit) (data : Byte) :
    Option (OsEvent α κ × Os α κ) :=
  match s.cpu k with
  | .check none timeLeft =>
      match s.sched.getProc (prioOf pcb) with
      | (none, sched) => some (.get k, { s with sched := sched }.setCpu k (.check none timeLeft))
      | (some proc, sched) =>
          some (.get k, { s with sched := sched }.setCpu k (.recheck (some proc) timeLeft))
  | .check (some proc) timeLeft =>
      if s.pc proc = (pcb proc).text.length then
        some (.complete k proc, s.setCpu k (.fetch 0))
      else if timeLeft = 0 then
        some (.put k proc,
          { s with sched := s.sched.putProc (prioOf pcb) proc }.setCpu k (.fetch timeLeft))
      else s.execute pcb timeSlot k u data proc timeLeft
  | .fetch timeLeft =>
      let (proc, sched) := s.sched.getProc (prioOf pcb)
      some (.get k, { s with sched := sched }.setCpu k (.recheck proc timeLeft))
  | .recheck none timeLeft =>
      if s.done then some (.stop k, s.setCpu k .stopped)
      else some (.skip k, s.setCpu k (.check none timeLeft))
  | .recheck (some proc) timeLeft => s.execute pcb timeSlot k u data proc timeLeft
  | .stopped => none

/-- A step of the loader or of a CPU. -/
def Step (pcb : α → Pcb) (timeSlot : Int) (s : Os α κ) (event : OsEvent α κ) (t : Os α κ) : Prop :=
  s.loaderStep pcb = some (event, t) ∨
    ∃ k u data, s.cpuStep pcb timeSlot k u data = some (event, t)

/-! ## What the CPUs hold -/

/-- The machine without what its processes execute. -/
def dispatch (s : Os α κ) : Dispatch α κ := ⟨s.sched, s.pending, fun k => (s.cpu k).holds⟩

end Os

/-- The event of the scheduler in a step. -/
def OsEvent.dispatch : OsEvent α κ → Option (DispatchEvent α κ)
  | .add proc => some (.add proc)
  | .get cpu => some (.get cpu)
  | .put cpu proc => some (.put cpu proc)
  | .complete cpu proc => some (.complete cpu proc)
  | _ => none

namespace Os

section Executed

variable [DecidableEq α]

/-- The instructions that were executed for a process, in order. -/
def executed (proc : α) (history : List (OsEvent α κ)) : List Inst :=
  history.filterMap fun
    | .run _ ran ins _ => if ran = proc then ins else none
    | _ => none

/-- What was executed for each process is its code up to the program counter. -/
def InOrder (pcb : α → Pcb) (history : List (OsEvent α κ)) (s : Os α κ) : Prop :=
  ∀ proc, executed proc history = (pcb proc).text.take (s.pc proc) ∧
    s.pc proc ≤ (pcb proc).text.length

/-- The instructions executed in a history are collected step by step. -/
theorem executed_snoc (proc : α) (history : List (OsEvent α κ)) (event : OsEvent α κ) :
    executed proc (history ++ [event]) = executed proc history ++ executed proc [event] :=
  List.filterMap_append ..

/-- A call of `run` executes its instruction for the process that it is called for. -/
theorem executed_run (proc ran : α) (k : κ) (ins : Option Inst) (stat : Int) :
    executed proc [(.run k ran ins stat : OsEvent α κ)] =
      if ran = proc then ins.toList else [] := by
  by_cases same : ran = proc
  · cases ins <;> simp [executed, same]
  · simp [executed, same]

theorem executed_other (proc : α) {event : OsEvent α κ}
    (other : ∀ k proc executed stat, event ≠ .run k proc executed stat) :
    executed proc [event] = [] := by
  cases event with
  | run k ran ins stat => exact absurd rfl (other k ran ins stat)
  | _ => rfl

end Executed

/-- What the CPUs hold after one of them has moved on: the others hold what they held. -/
theorem holds_update [DecidableEq κ] (s : Os α κ) (k : κ) (c : Cpu α) :
    (fun j => (Function.update s.cpu k c j).holds) =
      Function.update (fun j => (s.cpu j).holds) k c.holds := by
  funext j
  by_cases same : j = k
  · subst same
    rw [Function.update_self, Function.update_self]
  · rw [Function.update_of_ne same, Function.update_of_ne same]

variable [DecidableEq κ] {pcb : α → Pcb} {timeSlot : Int} {s t : Os α κ} {event : OsEvent α κ}

/-- A CPU that moves on with the process it holds. -/
theorem setCpu_dispatch {k : κ} {c : Cpu α} (same : c.holds = (s.cpu k).holds) :
    (s.setCpu k c).dispatch = s.dispatch := by
  rw [dispatch, setCpu, dispatch, holds_update, same, Function.update_eq_self]

variable [DecidableEq α]

/-- What a step does that runs an instruction: the counter of its process moves past the
instruction executed, if there is one. -/
structure Executes (pcb : α → Pcb) (s : Os α κ) (k : κ) (proc : α) (event : OsEvent α κ)
    (t : Os α κ) : Prop where
  label : ∃ stat, event = .run k proc (pcb proc).text[s.pc proc]? stat
  dispatch : t.dispatch = s.dispatch
  others : ∀ other, other ≠ proc → t.pc other = s.pc other
  counter : ((pcb proc).text[s.pc proc]? = none ∧ t.pc proc = s.pc proc) ∨
    ∃ ins, (pcb proc).text[s.pc proc]? = some ins ∧ t.pc proc = s.pc proc + 1

/-- A call of `run` executes the next instruction of the process that the CPU holds. -/
theorem execute_executes {k : κ} {u : Uninit} {data : Byte} {proc : α} {timeLeft : Int}
    (held : (s.cpu k).holds = some proc)
    (ran : s.execute pcb timeSlot k u data proc timeLeft = some (event, t)) :
    Executes pcb s k proc event t := by
  unfold execute at ran
  obtain ⟨⟨stat, pc, c⟩, result, same⟩ := Option.map_eq_some_iff.mp ran
  obtain ⟨rfl, rfl⟩ := Prod.mk.inj same
  refine ⟨⟨stat, rfl⟩, ?_, fun other different => Function.update_of_ne different .., ?_⟩
  · rw [dispatch, dispatch, holds_update, Cpu.holds, ← held, Function.update_eq_self]
  · simp only [Function.update_self]
    exact Pcb.run_cases result

/-- What any other step does: no process executes, and it is a step of the machine of
`Dispatch` or hidden from it. -/
structure Schedules (pcb : α → Pcb) (s : Os α κ) (event : OsEvent α κ) (t : Os α κ) : Prop where
  label : ∀ k proc executed stat, event ≠ .run k proc executed stat
  dispatch : match event.dispatch with
    | none => t.dispatch = s.dispatch
    | some seen => Dispatch.Step (prioOf pcb) s.dispatch seen t.dispatch
  counter : t.pc = s.pc

/-- A CPU without a process gets one, or none. -/
theorem getProc_schedules {k : κ} {c : Cpu α} {proc : Option α} {sched : Mlq α}
    (idle : (s.cpu k).holds = none) (held : c.holds = proc)
    (got : s.sched.getProc (prioOf pcb) = (proc, sched)) :
    Schedules pcb s (.get k) ({ s with sched := sched }.setCpu k c) := by
  refine ⟨fun _ _ _ _ => by simp, ?_, rfl⟩
  simp only [OsEvent.dispatch, Dispatch.Step, Dispatch.next, dispatch, idle, ↓reduceIte, got,
    setCpu, holds_update, held]

theorem complete_schedules {k : κ} {proc : α} (timeLeft : Int)
    (held : (s.cpu k).holds = some proc) :
    Schedules pcb s (.complete k proc) (s.setCpu k (.fetch timeLeft)) := by
  refine ⟨fun _ _ _ _ => by simp, ?_, rfl⟩
  simp only [OsEvent.dispatch, Dispatch.Step, Dispatch.next, dispatch, held, ↓reduceIte, setCpu,
    holds_update, Cpu.holds_fetch]

theorem putProc_schedules {k : κ} {proc : α} (timeLeft : Int)
    (held : (s.cpu k).holds = some proc) :
    Schedules pcb s (.put k proc)
      ({ s with sched := s.sched.putProc (prioOf pcb) proc }.setCpu k
        (.fetch timeLeft)) := by
  refine ⟨fun _ _ _ _ => by simp, ?_, rfl⟩
  simp only [OsEvent.dispatch, Dispatch.Step, Dispatch.next, dispatch, held, ↓reduceIte, setCpu,
    holds_update, Cpu.holds_fetch]

/-- **Everything a step can do.** -/
theorem Step.cases (taken : Step pcb timeSlot s event t) :
    (∃ k proc, Executes pcb s k proc event t) ∨ Schedules pcb s event t := by
  rcases taken with loaded | ⟨k, u, data, stepped⟩
  · right
    unfold loaderStep at loaded
    split at loaded
    · rename_i proc rest pending
      obtain ⟨rfl, rfl⟩ := Prod.mk.inj (Option.some_inj.mp loaded)
      refine ⟨fun _ _ _ _ => by simp, ?_, rfl⟩
      simp only [OsEvent.dispatch, Dispatch.Step, Dispatch.next, Os.dispatch, pending, ↓reduceIte]
    · split at loaded
      · cases loaded
      · obtain ⟨rfl, rfl⟩ := Prod.mk.inj (Option.some_inj.mp loaded)
        exact ⟨fun _ _ _ _ => by simp, rfl, rfl⟩
  · unfold cpuStep at stepped
    split at stepped
    · rename_i timeLeft here
      have idle : (s.cpu k).holds = none := by rw [here, Cpu.holds]
      split at stepped
      · rename_i sched got
        obtain ⟨rfl, rfl⟩ := Prod.mk.inj (Option.some_inj.mp stepped)
        exact .inr (getProc_schedules idle rfl got)
      · rename_i proc sched got
        obtain ⟨rfl, rfl⟩ := Prod.mk.inj (Option.some_inj.mp stepped)
        exact .inr (getProc_schedules idle rfl got)
    · rename_i proc timeLeft here
      have held : (s.cpu k).holds = some proc := by rw [here, Cpu.holds]
      split at stepped
      · obtain ⟨rfl, rfl⟩ := Prod.mk.inj (Option.some_inj.mp stepped)
        exact .inr (complete_schedules 0 held)
      · split at stepped
        · obtain ⟨rfl, rfl⟩ := Prod.mk.inj (Option.some_inj.mp stepped)
          exact .inr (putProc_schedules timeLeft held)
        · exact .inl ⟨k, proc, execute_executes held stepped⟩
    · rename_i timeLeft here
      have idle : (s.cpu k).holds = none := by rw [here, Cpu.holds]
      obtain ⟨rfl, rfl⟩ := Prod.mk.inj (Option.some_inj.mp stepped)
      exact .inr (getProc_schedules idle rfl rfl)
    · rename_i timeLeft here
      split at stepped
      · obtain ⟨rfl, rfl⟩ := Prod.mk.inj (Option.some_inj.mp stepped)
        exact .inr ⟨fun _ _ _ _ => by simp, setCpu_dispatch (by rw [here]; rfl), rfl⟩
      · obtain ⟨rfl, rfl⟩ := Prod.mk.inj (Option.some_inj.mp stepped)
        exact .inr ⟨fun _ _ _ _ => by simp, setCpu_dispatch (by rw [here]; rfl), rfl⟩
    · rename_i proc timeLeft here
      exact .inl ⟨k, proc, execute_executes (by rw [here, Cpu.holds]) stepped⟩
    · cases stepped

/-- The CPUs and the loader work the queues as the machine of `Dispatch` allows. -/
theorem Step.dispatch (taken : Step pcb timeSlot s event t) :
    match event.dispatch with
    | none => t.dispatch = s.dispatch
    | some seen => Dispatch.Step (prioOf pcb) s.dispatch seen t.dispatch := by
  rcases taken.cases with ⟨k, proc, executes⟩ | schedules
  · obtain ⟨stat, rfl⟩ := executes.label
    exact executes.dispatch
  · exact schedules.dispatch

/-- **Refinement.** Every run of the machine is one of the machine of `Dispatch`. -/
theorem run_dispatch {history : List (OsEvent α κ)}
    (run : Run (Step pcb timeSlot) s history t) :
    Run (Dispatch.Step (prioOf pcb)) s.dispatch
      (history.filterMap OsEvent.dispatch) t.dispatch := by
  obtain ⟨reached, mirrored, rfl⟩ := run.simulate (fun source mirror => source.dispatch = mirror)
    OsEvent.dispatch (fun source label target mirror related taken => by
      subst related
      have seen := taken.dispatch
      cases observed : label.dispatch with
      | none => simpa only [observed] using seen
      | some event => exact ⟨target.dispatch, by simpa only [observed] using seen, rfl⟩) rfl
  exact mirrored

/-- **One step executes in order.** -/
theorem InOrder.step {history : List (OsEvent α κ)} (inOrder : InOrder pcb history s)
    (taken : Step pcb timeSlot s event t) : InOrder pcb (history ++ [event]) t := by
  intro proc
  obtain ⟨before, bound⟩ := inOrder proc
  rw [executed_snoc, before]
  rcases taken.cases with ⟨k, ran, executes⟩ | schedules
  · obtain ⟨stat, rfl⟩ := executes.label
    rw [executed_run]
    by_cases same : ran = proc
    · subst same
      rw [if_pos rfl, ← List.take_add_one]
      rcases executes.counter with ⟨behind, stays⟩ | ⟨ins, found, moved⟩
      · have last := List.getElem?_eq_none_iff.mp behind
        rw [stays, List.take_of_length_le (by omega), List.take_of_length_le last]
        exact ⟨rfl, bound⟩
      · obtain ⟨inside, -⟩ := List.getElem?_eq_some_iff.mp found
        rw [moved]
        exact ⟨rfl, inside⟩
    · rw [if_neg same, List.append_nil, executes.others proc (Ne.symm same)]
      exact ⟨rfl, bound⟩
  · rw [executed_other proc schedules.label, List.append_nil, schedules.counter]
    exact ⟨rfl, bound⟩

/-- **Execution is exclusive and in order.** However the steps of the CPUs and the loader
interleave, no process is at two places, each was offered only to a queue the array has,
and what was executed for it is its code up to its program counter. -/
theorem execution_exclusive_in_order {pending : List α} (distinct : pending.Nodup)
    (inRange : ∀ proc ∈ pending, prioOf pcb proc < maxPrio) {memory : Sys α}
    {history : List (OsEvent α κ)}
    (run : Run (Step pcb timeSlot) (start pending memory) history t) :
    (∀ proc place other, t.dispatch.occupant place = some proc →
        t.dispatch.occupant other = some proc → place = other) ∧
      (∀ proc place, t.dispatch.occupant place = some proc → prioOf pcb proc < maxPrio) ∧
      ∀ proc, executed proc history = (pcb proc).text.take (t.pc proc) ∧
        t.pc proc ≤ (pcb proc).text.length := by
  have ledger : Ledger (fun proc => prioOf pcb proc < maxPrio) t.dispatch.held
      t.dispatch.waiting :=
    (run_dispatch run).invariant (fun s => Ledger _ s.held s.waiting)
      (fun _ _ _ ledger taken => taken.ledger ledger) (Dispatch.start_ledger distinct inRange)
  refine ⟨fun proc place other => Dispatch.place_unique ledger,
    fun proc place => Dispatch.valid_of_place ledger, ?_⟩
  exact run.history_invariant (InOrder pcb) (fun _ _ _ _ inOrder taken => inOrder.step taken)
    fun proc => ⟨rfl, Nat.zero_le _⟩

/-- The steps of some actors, the loader being `none`, with zero-filled local variables. -/
def steps (pcb : α → Pcb) (timeSlot : Int) :
    Os α κ → List (Option κ) → Option (List (OsEvent α κ) × Os α κ)
  | s, [] => some ([], s)
  | s, actor :: rest =>
      (match actor with
        | none => s.loaderStep pcb
        | some k => s.cpuStep pcb timeSlot k .zeroed 0).bind fun (event, next) =>
          (next.steps pcb timeSlot rest).map fun (history, last) => (event :: history, last)

/-- Turns that can be taken one after the other are a run. -/
theorem run_steps {actors : List (Option κ)} {history : List (OsEvent α κ)}
    (done : s.steps pcb timeSlot actors = some (history, t)) :
    Run (Step pcb timeSlot) s history t := by
  induction actors generalizing s history with
  | nil =>
      obtain ⟨rfl, rfl⟩ := Prod.mk.inj (Option.some_inj.mp done)
      exact .nil s
  | cons actor rest ih =>
      obtain ⟨⟨event, next⟩, first, others⟩ := Option.bind_eq_some_iff.mp done
      obtain ⟨⟨later, last⟩, followed, same⟩ := Option.map_eq_some_iff.mp others
      obtain ⟨rfl, rfl⟩ := Prod.mk.inj same
      refine .cons ?_ (ih followed)
      cases actor with
      | none => exact .inl first
      | some k => exact .inr ⟨k, _, _, first⟩

/-- Two processes of one priority, the first of which has two instructions. -/
def twoProcesses : Fin 2 → Pcb
  | 0 => ⟨0, [⟨.calcOp, 0, 0, 0⟩, ⟨.allocOp, 300, 0, 0⟩]⟩
  | 1 => ⟨0, [⟨.calcOp, 0, 0, 0⟩]⟩

/-- With a time slot of 1 the first process is put back after one instruction, and the
second CPU executes the other one. -/
def migration : List (OsEvent (Fin 2) Bool) × Os (Fin 2) Bool :=
  ((start [⟨0, Nat.two_pos⟩, ⟨1, Nat.one_lt_two⟩] (.boot (Fin 2) 512 1024)).steps twoProcesses 1
    [none, some true, some true, none, some true, some true, some false, some false]).get
      (by decide +kernel)

/-- The two instructions of the process are executed in order, the first on one CPU and the second
on the other. -/
theorem execution_exclusive_in_order_migration :
    executed 0 migration.1 = [⟨.calcOp, 0, 0, 0⟩, ⟨.allocOp, 300, 0, 0⟩] := by
  have done : (start [0, 1] (.boot (Fin 2) 512 1024)).steps twoProcesses 1
      [none, some true, some true, none, some true, some true, some false, some false] =
        some migration := (Option.some_get _).symm
  have run : Run (Step twoProcesses 1) (start [0, 1] (.boot (Fin 2) 512 1024)) migration.1
      migration.2 := run_steps done
  have inOrder := (execution_exclusive_in_order (by decide) (by decide) run).2.2 0
  have counter : migration.2.pc 0 = 2 := by decide +kernel
  rw [inOrder.1, counter]
  decide

end Os

end PagedOs
