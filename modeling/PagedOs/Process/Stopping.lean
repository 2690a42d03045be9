import PagedOs.Process.Quantum
import PagedOs.Process.Routine

/-! # When a CPU stops

An iteration of the loop of `cpu_routine` that starts in a state of the machine and is not
interrupted: `get_proc` serves the ready queues, `done` is the flag of the loader, and the steps
of the CPU in the machine make the iteration up.

The test that leaves the loop comes after the second fetch only. A CPU that has no process at the
head of the loop and gets none skips it.
-/

namespace PagedOs

open Transition

variable {α κ : Type*}

/-- No level below `MAX_PRIO` has a process. -/
def Mlq.Drained (s : Mlq α) : Prop := ∀ level < maxPrio, s.contents level = []

namespace Os

/-- The local variables of a CPU at the head of the loop. -/
def vars (s : Os α κ) (held : Option α) (timeLeft : Int) : CpuVars α :=
  ⟨held.map fun proc => (proc, s.pc proc), timeLeft⟩

/-- The ready queues when the iteration calls `get_proc`. -/
def queuesAtFetch (pcb : α → Pcb) (s : Os α κ) (held : Option α) (timeLeft : Int) : Mlq α :=
  match held with
  | none => s.sched
  | some proc =>
      if s.pc proc ≠ (pcb proc).text.length ∧ timeLeft = 0 then
        s.sched.putProc (prioOf pcb) proc
      else s.sched

/-- What the iteration finds: the process that `get_proc` would return, and the flag of the loader.
-/
def round (pcb : α → Pcb) (s : Os α κ) (held : Option α) (timeLeft : Int) (u : Uninit)
    (data : Byte) : Round α where
  got := ((s.queuesAtFetch pcb held timeLeft).getProc (prioOf pcb)).1.map
    fun proc => (proc, s.pc proc)
  done := s.done
  caller := s.memory.caller
  uninit := u
  data := data

/-- The iteration of a CPU at the head of the loop. -/
def iteration (pcb : α → Pcb) (timeSlot : Int) (s : Os α κ) (held : Option α) (timeLeft : Int)
    (u : Uninit) (data : Byte) : Traced (CpuEvent α) (Option (CpuVars α)) :=
  cpuRoutine pcb timeSlot (s.round pcb held timeLeft u data) (s.vars held timeLeft)

/-- A CPU stops when there is no more work, and only then: the iteration leaves the loop if the
loader is done, the queues are empty and the CPU has no process that is not completed, and it leaves
the loop only if the loader is done and `get_proc` returned NULL. -/
def StopsExactly (pcb : α → Pcb) (timeSlot : Int) (s : Os α κ) (held : Option α) (timeLeft : Int)
    (u : Uninit) (data : Byte) : Prop :=
  (s.done = true → s.sched.Drained →
      (∀ proc, held = some proc → s.pc proc = (pcb proc).text.length) →
        (s.iteration pcb timeSlot held timeLeft u data).result = some none ∧
          .detachEvent ∈ (s.iteration pcb timeSlot held timeLeft u data).events) ∧
    ((s.iteration pcb timeSlot held timeLeft u data).result = some none →
      s.done = true ∧ .getProc none ∈ (s.iteration pcb timeSlot held timeLeft u data).events)

end Os

variable {pcb : α → Pcb} {timeSlot timeLeft : Int} {round : Round α} {s : CpuVars α}

/-- A CPU that has a process to run does not leave its loop in that round. -/
theorem runSlot_stays (proc : α) (pc : Nat) :
    (runSlot pcb round proc pc timeLeft).result ≠ some none := by
  rw [runSlot]
  split
  · intro stays
    cases stays
  · intro stays
    cases stays

/-- The rest of an iteration leaves the loop only without a process, and when the loader is done. -/
theorem recheck_leaves (left : (recheck pcb timeSlot round s).result = some none) :
    s.proc = none ∧ round.done = true := by
  obtain ⟨held, timeLeft⟩ := s
  cases held with
  | some process => exact absurd left (runSlot_stays process.1 process.2)
  | none =>
      cases done : round.done with
      | true => exact ⟨rfl, rfl⟩
      | false =>
          simp only [recheck, done, Bool.false_eq_true, ↓reduceIte] at left
          cases left

/-- An iteration leaves the loop only when the loader is done and `get_proc` returned NULL. -/
theorem cpuRoutine_leaves (left : (cpuRoutine pcb timeSlot round s).result = some none) :
    round.done = true ∧ .getProc none ∈ (cpuRoutine pcb timeSlot round s).events := by
  obtain ⟨held, timeLeft⟩ := s
  cases held with
  | none =>
      cases got : round.got with
      | none =>
          simp only [cpuRoutine, got] at left
          cases left
      | some process =>
          simp only [cpuRoutine, got] at left
          exact absurd (recheck_leaves left).1 (Option.some_ne_none process)
  | some process =>
      obtain ⟨proc, pc⟩ := process
      simp only [cpuRoutine] at left ⊢
      split at left
      case isTrue complete =>
        obtain ⟨got, done⟩ := recheck_leaves left
        rw [if_pos complete]
        refine ⟨done, List.mem_cons_of_mem _ ?_⟩
        rw [← show round.got = none from got]
        exact List.mem_cons_self
      case isFalse incomplete =>
        split at left
        case isTrue used =>
          obtain ⟨got, done⟩ := recheck_leaves left
          rw [if_neg incomplete, if_pos used]
          refine ⟨done, List.mem_cons_of_mem _ ?_⟩
          rw [← show round.got = none from got]
          exact List.mem_cons_self
        case isFalse => exact absurd (recheck_leaves left).1 (Option.some_ne_none _)

/-- **An idle CPU that gets no process** waits for the next slot and is where it was. -/
theorem cpuRoutine_idle (idle : s.proc = none) (none_got : round.got = none) :
    cpuRoutine pcb timeSlot round s = ⟨[.getProc none, .nextSlot], some (some s)⟩ := by
  simp only [cpuRoutine, idle, none_got]
  rfl

/-- As long as it gets no process it neither leaves the loop nor is detached, whatever the flag
of the loader says. -/
theorem cpuLoop_idle (idle : s.proc = none) {rounds : List (Round α)}
    (nothing : ∀ round ∈ rounds, round.got = none) :
    (Traced.feed (cpuLoop pcb timeSlot) (some s) rounds).result = some (some s) ∧
      .detachEvent ∉ (Traced.feed (cpuLoop pcb timeSlot) (some s) rounds).events := by
  induction rounds with
  | nil => exact ⟨rfl, List.not_mem_nil⟩
  | cons round rounds ih =>
      obtain ⟨stays, quiet⟩ := ih fun other member => nothing other (List.mem_cons_of_mem _ member)
      have waits : cpuLoop pcb timeSlot (some s) round =
          ⟨[.getProc none, .nextSlot], some (some s)⟩ :=
        cpuRoutine_idle idle (nothing round List.mem_cons_self)
      rw [Traced.feed, waits]
      refine ⟨stays, fun member => ?_⟩
      rcases List.mem_cons.mp member with called | member
      · cases called
      rcases List.mem_cons.mp member with called | member
      · cases called
      · exact quiet member

/-- A CPU that completed its process and gets none leaves the loop when the loader is done. -/
theorem cpuRoutine_completed {proc : α} (held : s.proc = some (proc, (pcb proc).text.length))
    (none_got : round.got = none) (done : round.done = true) :
    cpuRoutine pcb timeSlot round s =
      ⟨[.free proc (pcb proc).text.length, .getProc none, .detachEvent], some none⟩ := by
  simp only [cpuRoutine, held, none_got, recheck, done, ↓reduceIte]
  rfl

namespace Os

variable {s : Os α κ} {held : Option α} {u : Uninit} {data : Byte}

/-- Where nobody is queued any more and the own process is complete, a round gets no process. -/
theorem round_got_of_drained (drained : s.sched.Drained)
    (completed : ∀ proc, held = some proc → s.pc proc = (pcb proc).text.length) :
    (s.round pcb held timeLeft u data).got = none := by
  have queues : s.queuesAtFetch pcb held timeLeft = s.sched := by
    cases held with
    | none => rfl
    | some proc => exact if_neg fun incomplete => incomplete.1 (completed proc rfl)
  rw [round, queues, Mlq.getProc, (Mlq.getMlqProc_eq_none _).mpr drained, Option.map_none]

/-- **A CPU stops exactly when there is no more work** unless it had no process before. -/
theorem stopsExactly_iff (pcb : α → Pcb) (timeSlot : Int) (s : Os α κ) (held : Option α)
    (timeLeft : Int) (u : Uninit) (data : Byte) :
    StopsExactly pcb timeSlot s held timeLeft u data ↔
      ¬(held = none ∧ s.done = true ∧ s.sched.Drained) := by
  constructor
  · rintro ⟨stops, _⟩ ⟨rfl, done, drained⟩
    have got : (s.round pcb none timeLeft u data).got = none :=
      round_got_of_drained drained nofun
    have left := (stops done drained nofun).1
    rw [iteration, cpuRoutine_idle rfl got] at left
    exact nomatch left
  · intro working
    refine ⟨fun done drained completed => ?_, fun left => cpuRoutine_leaves left⟩
    cases held with
    | none => exact absurd ⟨rfl, done, drained⟩ working
    | some proc =>
        have got : (s.round pcb (some proc) timeLeft u data).got = none :=
          round_got_of_drained drained completed
        have here : (s.vars (some proc) timeLeft).proc = some (proc, (pcb proc).text.length) := by
          rw [← completed proc rfl]
          rfl
        rw [iteration, cpuRoutine_completed here got done]
        exact ⟨rfl, List.mem_of_mem_getLast? rfl⟩

/-! ## The iteration in the machine -/

section Steps

variable [DecidableEq α] [DecidableEq κ] {k : κ}

/-- Where a CPU is after an iteration. -/
def Leaves (t : Os α κ) (k : κ) : Option (CpuVars α) → Prop
  | none => t.cpu k = .stopped
  | some left => ∃ held, t.cpu k = .check held left.timeLeft ∧ left = t.vars held left.timeLeft

omit [DecidableEq α] in
/-- The CPU that moves on is where it moves to. -/
theorem setCpu_cpu (s : Os α κ) (k : κ) (c : Cpu α) : (s.setCpu k c).cpu k = c :=
  Function.update_self ..

/-- A step that executes is the end of the iteration. -/
theorem execute_leaves {round : Round α} {proc : α} {next : Option (CpuVars α)}
    (memory : round.caller = s.memory.caller)
    (left : (runSlot pcb round proc (s.pc proc)
      (if timeLeft = 0 then timeSlot else timeLeft)).result = some next) :
    ∃ event t, s.execute pcb timeSlot k round.uninit round.data proc timeLeft = some (event, t) ∧
      t.Leaves k next := by
  rw [runSlot, memory] at left
  split at left
  case h_1 => cases left
  case h_2 stat pc c ran =>
    obtain rfl := Option.some.inj left
    refine ⟨_, _, by rw [execute, ran]; rfl, some proc, Function.update_self .., ?_⟩
    simp only [vars, Option.map_some, Function.update_self]

/-- The second status check and what follows is one step. -/
theorem recheck_leaves_step {round : Round α} {next : Option (CpuVars α)}
    (here : s.cpu k = .recheck held timeLeft) (flag : round.done = s.done)
    (memory : round.caller = s.memory.caller)
    (left : (recheck pcb timeSlot round (s.vars held timeLeft)).result = some next) :
    ∃ event t, s.cpuStep pcb timeSlot k round.uninit round.data = some (event, t) ∧
      t.Leaves k next := by
  cases held with
  | some proc =>
      obtain ⟨event, t, ran, leaves⟩ := execute_leaves (k := k) memory left
      exact ⟨event, t, by rw [cpuStep, here]; exact ran, leaves⟩
  | none =>
      cases done : s.done with
      | true =>
          simp only [recheck, vars, Option.map_none, flag, done, ↓reduceIte] at left
          obtain rfl := Option.some.inj left
          exact ⟨_, _, by rw [cpuStep, here]; exact if_pos done, setCpu_cpu ..⟩
      | false =>
          simp only [recheck, vars, Option.map_none, flag, done, Bool.false_eq_true,
            ↓reduceIte] at left
          obtain rfl := Option.some.inj left
          refine ⟨_, _, by rw [cpuStep, here]; exact if_neg (by rw [done]; decide), none,
            setCpu_cpu .., rfl⟩

/-- The rest of an iteration when a process was just fetched in one step. -/
theorem fetched_leaves_steps {round : Round α} {next : Option (CpuVars α)} {event : OsEvent α κ}
    {fetched : Option α} {sched : Mlq α}
    (flag : round.done = s.done) (memory : round.caller = s.memory.caller)
    (got : s.cpuStep pcb timeSlot k round.uninit round.data =
      some (event, { s with sched := sched }.setCpu k (.recheck fetched timeLeft)))
    (left : (recheck pcb timeSlot round (s.vars fetched timeLeft)).result = some next) :
    ∃ history t, Run (Step pcb timeSlot) s history t ∧ t.Leaves k next := by
  obtain ⟨event', t, ran, leaves⟩ := recheck_leaves_step
    (s := { s with sched := sched }.setCpu k (.recheck fetched timeLeft)) (setCpu_cpu ..) flag
    memory left
  exact ⟨_, t, .cons (.inr ⟨k, _, _, got⟩) (.single (.inr ⟨k, _, _, ran⟩)), leaves⟩

/-- The rest of an iteration when the process before was given up in one step. -/
theorem gaveUp_leaves_steps {round : Round α} {next : Option (CpuVars α)} {event : OsEvent α κ}
    {sched : Mlq α} (flag : round.done = s.done) (memory : round.caller = s.memory.caller)
    (gave : s.cpuStep pcb timeSlot k round.uninit round.data =
      some (event, { s with sched := sched }.setCpu k (.fetch timeLeft)))
    (left : (recheck pcb timeSlot round
      (s.vars (sched.getProc (prioOf pcb)).1 timeLeft)).result = some next) :
    ∃ history t, Run (Step pcb timeSlot) s history t ∧ t.Leaves k next := by
  have here := setCpu_cpu { s with sched := sched } k (.fetch timeLeft)
  have got : ({ s with sched := sched }.setCpu k (.fetch timeLeft)).cpuStep pcb timeSlot k
      round.uninit round.data = some (.get k, { s with
        sched := (sched.getProc (prioOf pcb)).2
        cpu := Function.update s.cpu k (.fetch timeLeft) }.setCpu k
          (.recheck (sched.getProc (prioOf pcb)).1 timeLeft)) := by
    rw [cpuStep, here]
    rfl
  obtain ⟨history, t, run, leaves⟩ := fetched_leaves_steps
    (s := { s with sched := sched }.setCpu k (.fetch timeLeft)) flag memory got left
  exact ⟨_, t, .cons (.inr ⟨k, _, _, gave⟩) run, leaves⟩

/-- **An iteration is what the CPU does in the machine** when nobody else moves. -/
theorem iteration_steps {next : Option (CpuVars α)} (here : s.cpu k = .check held timeLeft)
    (left : (s.iteration pcb timeSlot held timeLeft u data).result = some next) :
    ∃ history t, Run (Step pcb timeSlot) s history t ∧ t.Leaves k next := by
  have flag : (s.round pcb held timeLeft u data).done = s.done := rfl
  have memory : (s.round pcb held timeLeft u data).caller = s.memory.caller := rfl
  cases held with
  | none =>
      obtain ⟨fetched, sched, got⟩ :
          ∃ fetched sched, s.sched.getProc (prioOf pcb) = (fetched, sched) := ⟨_, _, rfl⟩
      have found : (s.round pcb none timeLeft u data).got =
          fetched.map fun proc => (proc, s.pc proc) := by
        simp only [round, queuesAtFetch, got]
      cases fetched with
      | none =>
          have step : s.cpuStep pcb timeSlot k u data =
              some (.get k, { s with sched := sched }.setCpu k (.check none timeLeft)) := by
            rw [cpuStep, here]
            simp only [got]
          rw [iteration, cpuRoutine_idle rfl found] at left
          obtain rfl := Option.some.inj left
          exact ⟨_, _, .single (.inr ⟨k, u, data, step⟩), none, setCpu_cpu .., rfl⟩
      | some proc =>
          have step : s.cpuStep pcb timeSlot k u data =
              some (.get k,
                { s with sched := sched }.setCpu k (.recheck (some proc) timeLeft)) := by
            rw [cpuStep, here]
            simp only [got]
          have rest : (recheck pcb timeSlot (s.round pcb none timeLeft u data)
              (s.vars (some proc) timeLeft)).result = some next := by
            simp only [iteration, cpuRoutine, vars, Option.map_none, Traced.result_record_bind,
              found, Option.map_some] at left
            exact left
          exact fetched_leaves_steps flag memory step rest
  | some proc =>
      have current : s.vars (some proc) timeLeft = ⟨some (proc, s.pc proc), timeLeft⟩ := rfl
      rw [iteration, current] at left
      simp only [cpuRoutine] at left
      by_cases complete : s.pc proc = (pcb proc).text.length
      · have step : s.cpuStep pcb timeSlot k u data =
            some (.complete k proc, { s with sched := s.sched }.setCpu k (.fetch 0)) := by
          rw [cpuStep, here]
          exact if_pos complete
        have queues : s.queuesAtFetch pcb (some proc) timeLeft = s.sched :=
          if_neg fun incomplete => incomplete.1 complete
        have rest : (recheck pcb timeSlot (s.round pcb (some proc) timeLeft u data)
            (s.vars (s.sched.getProc (prioOf pcb)).1 0)).result = some next := by
          rw [if_pos complete, Traced.result_record_bind, Traced.result_record_bind] at left
          rw [← queues]
          exact left
        exact gaveUp_leaves_steps flag memory step rest
      by_cases used : timeLeft = 0
      · have step : s.cpuStep pcb timeSlot k u data =
            some (.put k proc, { s with sched := s.sched.putProc (prioOf pcb) proc }.setCpu k
              (.fetch timeLeft)) := by
          rw [cpuStep, here]
          simp only [if_neg complete, if_pos used]
        have queues : s.queuesAtFetch pcb (some proc) timeLeft =
            s.sched.putProc (prioOf pcb) proc := if_pos ⟨complete, used⟩
        have rest : (recheck pcb timeSlot (s.round pcb (some proc) timeLeft u data)
            (s.vars ((s.sched.putProc (prioOf pcb) proc).getProc (prioOf pcb)).1
              timeLeft)).result = some next := by
          rw [if_neg complete, if_pos used, Traced.result_record_bind,
            Traced.result_record_bind] at left
          rw [← queues]
          exact left
        exact gaveUp_leaves_steps flag memory step rest
      · rw [if_neg complete, if_neg used] at left
        obtain ⟨event, t, ran, leaves⟩ := execute_leaves (k := k) memory left
        have step : s.cpuStep pcb timeSlot k u data = some (event, t) := by
          rw [cpuStep, here]
          simp only [if_neg complete, if_neg used]
          exact ran
        exact ⟨[event], t, .single (.inr ⟨k, u, data, step⟩), leaves⟩

end Steps

/-- Two CPUs and one process: the second CPU finds the queues empty before the loader is done. -/
def lateLoader : List (OsEvent (Fin 2) Bool) × Os (Fin 2) Bool :=
  ((start [⟨0, Nat.two_pos⟩] (.boot (Fin 2) 512 1024)).steps twoProcesses 1
    [none, some true, some false, none]).get (by decide +kernel)

/-- It does not stop when there is no more work. -/
theorem idle_cpu_skips_stop_test :
    (∃ history, Run (Step twoProcesses 1) (start [0] (.boot (Fin 2) 512 1024)) history
        lateLoader.2) ∧ lateLoader.2.cpu false = .check none 0 ∧
      ¬StopsExactly twoProcesses 1 lateLoader.2 none 0 .zeroed 0 := by
  have reached : (start [0] (.boot (Fin 2) 512 1024)).steps twoProcesses 1
      [none, some true, some false, none] = some lateLoader := (Option.some_get _).symm
  refine ⟨⟨_, run_steps reached⟩, rfl, fun exact => ?_⟩
  have drained : lateLoader.2.sched.Drained := by
    intro level inside
    revert level
    decide +kernel
  have got : (lateLoader.2.round twoProcesses none 0 .zeroed 0).got = none :=
    round_got_of_drained drained nofun
  have left := (exact.1 (by decide +kernel) drained nofun).1
  rw [iteration, cpuRoutine_idle rfl got] at left
  exact nomatch left

end Os

end PagedOs
