import Mathlib.Order.Interval.Finset.Nat
import PagedOs.System.Kernel

/-! # What a CPU does in a slot

A CPU runs one instruction at most between two calls of `next_slot`, so the barrier spaces the
instructions of a CPU out, and those of a process: it is on one CPU at a time, and a CPU keeps the
process that it has run until its slot is over. The time between the arrival of a process and its
end is bounded from below by its code.
-/

namespace PagedOs

open Transition

variable {α κ : Type*} [DecidableEq α] [DecidableEq κ]

theorem TimerState.Step.time_eq {ι : Type*} [DecidableEq ι] {devList : List ι}
    {s t : TimerState ι} {label : TimerStep ι} (taken : Step devList s label t) :
    t.time = if label = .tick then s.time + 1 else s.time := by
  have effect := taken.effect
  cases label with
  | setDone => obtain ⟨-, -, -, rfl⟩ := effect; rfl
  | returned => obtain ⟨-, -, rfl⟩ := effect; rfl
  | detach => obtain ⟨-, -, -, rfl⟩ := effect; rfl
  | check => obtain ⟨-, -, -, -, -, rfl⟩ := effect; rfl
  | tick => obtain ⟨-, -, -, rfl⟩ := effect; rfl
  | reset => obtain ⟨-, -, -, -, rfl⟩ := effect; rfl
  | loop => obtain ⟨-, -, -, rfl⟩ := effect; rfl
  | stop => cases effect; rfl

theorem TimerState.Step.time_le {ι : Type*} [DecidableEq ι] {devList : List ι}
    {s t : TimerState ι} {label : TimerStep ι} (taken : Step devList s label t) :
    s.time ≤ t.time := by
  rw [taken.time_eq]
  split <;> omega

/-- No device returns from `next_slot` more often than the clock advances. -/
theorem TimerState.completed_le_time {ι : Type*} [DecidableEq ι] {devList : List ι}
    (nodup : devList.Nodup) {history : List (TimerStep ι)} {s : TimerState ι}
    (run : Run (Step devList) (startTimer devList) history s) {device : ι}
    (member : device ∈ devList) : completed device history ≤ s.time := by
  refine run.reached_invariant (fun history s => completed device history ≤ s.time)
    (fun past before label after reached bound taken => ?_) (Nat.le_refl 0)
  by_cases back : label = .returned device
  · subst back
    obtain ⟨inside, cleared, rfl⟩ := taken.effect
    have behind := (((Barrier.run nodup reached).devices device member).released inside cleared).1
    rw [completed_snoc, if_pos rfl]
    exact behind.le
  · rw [completed_other back]
    exact bound.trans taken.time_le

namespace Kernel

/-- The devices are the CPUs and the loader. -/
structure Attached (devList : List (Option κ)) : Prop where
  nodup : devList.Nodup
  all : ∀ device, device ∈ devList

/-- `main` attaches the loader and every CPU, each of them once. -/
theorem attachAll_attached (numCpus : Nat) : Attached (attachAll numCpus) where
  nodup := by
    refine List.nodup_cons.mpr ⟨by simp, ?_⟩
    exact (List.nodup_reverse.mpr (List.nodup_finRange numCpus)).map (Option.some_injective _)
  all := fun device => by cases device <;> simp [attachAll]

/-- The slots that a CPU has finished. -/
def clock (k : κ) (history : List (KernelStep α κ)) : Nat :=
  slotsOf (some k) (history.filterMap KernelStep.arrivalStep)

/-- The processes that the loader has added, each with the slot. -/
def arrived (history : List (KernelStep α κ)) : List (α × Nat) :=
  added (history.filterMap KernelStep.arrivalStep)

/-- The calls of `run`: the CPU, the process and the slot. -/
def ranIn (history : List (KernelStep α κ)) : List (κ × α × Nat) :=
  history.filterMap fun
    | .cpu k (.run _ proc _ _) slot => some (k, proc, slot)
    | _ => none

/-- The slots in which a CPU has called `run`. -/
def slotsOn (k : κ) (history : List (KernelStep α κ)) : List Nat :=
  ((ranIn history).filter fun ran => ran.1 = k).map fun ran => ran.2.2

/-- The slots in which `run` was called for a process. -/
def slotsFor (proc : α) (history : List (KernelStep α κ)) : List Nat :=
  ((ranIn history).filter fun ran => ran.2.1 = proc).map fun ran => ran.2.2

/-- A CPU has finished its slot's work. -/
def Busy (s : Kernel α κ) (k : κ) : Prop :=
  s.due k = true ∨ s.arrivals.timer.inside (some k) = true

/-! ## Where a CPU is in time -/

section Reached

variable {pcb : α → Pcb} {timeSlot : Int} {devList : List (Option κ)}
  {processes : List (α × Nat)} {memory : Sys α} {history : List (KernelStep α κ)}
  {s t : Kernel α κ} {label : KernelStep α κ}

/-- The parts of the machine agree in every reachable state. -/
theorem reached_joined
    (run : Run (Step pcb timeSlot devList) (start devList processes memory) history s) :
    s.Joined := run_joined run (start_joined devList processes memory)

/-- The loader keeps to its schedule in every run of the machine, as forgetting the CPUs leaves a
run of the timer with it. -/
theorem reached_arriving (attached : Attached devList)
    (run : Run (Step pcb timeSlot devList) (start devList processes memory) history s) :
    Arriving devList none processes (history.filterMap KernelStep.arrivalStep) s.arrivals :=
  Arrivals.run_arriving attached.nodup (attached.all none) (run_arrivals run)

theorem reached_ledger (distinct : (processes.map Prod.fst).Nodup)
    (run : Run (Step pcb timeSlot devList) (start devList processes memory) history s) :
    Ledger (fun _ => True) s.os.dispatch.held s.os.dispatch.waiting :=
  (Os.run_dispatch (run_os run (start_joined devList processes memory))).invariant
    (fun s => Ledger _ s.held s.waiting) (fun _ _ _ ledger taken => taken.ledger ledger)
    (Dispatch.start_ledger distinct fun _ _ => trivial)

omit [DecidableEq κ] in
/-- The timer of the machine runs on its own. -/
theorem run_timer {ι : Type*} [DecidableEq ι] {devList : List ι} {device : ι}
    {source target : Arrivals ι α} {history : List (ArrivalStep ι α)}
    (run : Run (Arrivals.Step devList device) source history target) :
    Run (TimerState.Step devList) source.timer (history.filterMap ArrivalStep.timerStep)
      target.timer := by
  have simulated : ∃ reached, Run (TimerState.Step devList) source.timer
      (history.filterMap ArrivalStep.timerStep) reached ∧ target.timer = reached := by
    refine run.simulate (fun arrivals mirror => arrivals.timer = mirror) ArrivalStep.timerStep ?_
      rfl
    rintro before label after mirror rfl taken
    have effect := taken.effect
    cases label with
    | timer step => exact ⟨_, effect.1, rfl⟩
    | test => exact effect.1
    | add proc slot => exact effect.2.1
    | finish => exact effect.1
  obtain ⟨reached, mirrored, rfl⟩ := simulated
  exact mirrored

/-- A CPU has finished no more slots than the clock has counted. -/
theorem clock_le (attached : Attached devList)
    (run : Run (Step pcb timeSlot devList) (start devList processes memory) history s) (k : κ) :
    clock k history ≤ s.arrivals.timer.time :=
  TimerState.completed_le_time attached.nodup (run_timer (run_arrivals run))
    (attached.all (some k))

omit [DecidableEq α] [DecidableEq κ] in
/-- A CPU that has not left its loop is attached. -/
theorem Joined.attached (joined : s.Joined) {k : κ} (running : s.os.cpu k ≠ .stopped) :
    s.arrivals.timer.fsh (some k) = false := by
  by_contra gone
  exact running (joined.gone k (by simpa using gone))

/-- A CPU at work is in the current slot. -/
theorem clock_free (attached : Attached devList)
    (run : Run (Step pcb timeSlot devList) (start devList processes memory) history s) {k : κ}
    (outside : s.arrivals.timer.inside (some k) = false) (running : s.os.cpu k ≠ .stopped) :
    clock k history = s.arrivals.timer.time :=
  (((reached_arriving attached run).barrier.devices (some k) (attached.all _)).outside
    ((reached_joined run).attached running) outside).2.1

omit [DecidableEq α] in
/-- A CPU that returns from `next_slot` has finished a slot more. -/
theorem clock_returned (k : κ) (history : List (KernelStep α κ)) :
    clock k (history ++ [.arrival (.timer (.returned (some k)))]) = clock k history + 1 := by
  rw [clock, List.filterMap_append]
  exact (slotsOf_timer (some k) _ (.returned (some k))).trans (by rw [if_pos rfl]; rfl)

omit [DecidableEq α] in
/-- No other step finishes a slot of the CPU. -/
theorem clock_other {k : κ} (history : List (KernelStep α κ))
    (noReturn : label ≠ .arrival (.timer (.returned (some k)))) :
    clock k (history ++ [label]) = clock k history := by
  rw [clock, List.filterMap_append]
  cases label with
  | cpu j event slot => exact congrArg (slotsOf _) (List.append_nil _)
  | arrival step =>
      cases step with
      | timer step =>
          refine (slotsOf_timer (some k) _ step).trans ?_
          rw [if_neg fun same => noReturn (by rw [same])]
          rfl
      | _ => exact slotsOf_other _ _ rfl

/-- A CPU comes out of `next_slot` and stays where it was in its loop, and it does not come in but
from its own step. -/
theorem Move.busy (joined : s.Joined) {step : ArrivalStep (Option κ) α}
    (moved : Move pcb timeSlot devList s t (.arrival step)) :
    t.os.cpu = s.os.cpu ∧
      ∀ k, t.Busy k ↔ s.Busy k ∧ step ≠ .timer (.returned (some k)) := by
  unfold Busy
  cases moved with
  | add arrives loads due =>
      obtain ⟨-, timer, -⟩ := arrives.effect
      refine ⟨?_, fun k => by simp [timer, due]⟩
      rcases Os.loaderStep_cases loads with ⟨_, _, -, -, -, -, -, cpu, -⟩ | ⟨-, -, -, -, -, cpu, -⟩
      · exact cpu
      · exact cpu
  | finish arrives loads due =>
      obtain ⟨timer, -⟩ := arrives.effect
      refine ⟨?_, fun k => by simp [timer, due]⟩
      rcases Os.loaderStep_cases loads with ⟨_, _, -, -, -, -, -, cpu, -⟩ | ⟨-, -, -, -, -, cpu, -⟩
      · exact cpu
      · exact cpu
  | @call k arrives ready os due =>
      obtain ⟨timer, -⟩ := arrives.effect
      obtain ⟨-, -, -, moved⟩ := timer.effect
      refine ⟨by rw [os], fun j => ?_⟩
      by_cases same : j = k
      · subst same
        simp [moved, ready]
      · simp [moved, due, same]
  | detach arrives stopped os due =>
      obtain ⟨timer, -⟩ := arrives.effect
      obtain ⟨-, -, -, moved⟩ := timer.effect
      exact ⟨by rw [os], fun j => by simp [moved, due]⟩
  | silent arrives noAdd noFinish noCall noDetach os due =>
      refine ⟨by rw [os], fun j => ?_⟩
      cases step with
      | add proc slot => exact absurd rfl (noAdd proc slot)
      | finish => exact absurd rfl noFinish
      | test =>
          obtain ⟨timer, -⟩ := arrives.effect
          simp [timer, due]
      | timer step =>
          obtain ⟨timer, -⟩ := arrives.effect
          rw [due]
          by_cases back : step = .returned (some j)
          · subst back
            obtain ⟨inside, -, moved⟩ := timer.effect
            have notDue : s.due j = false := by
              by_contra ready
              have outside := joined.due_outside j (by simpa using ready)
              rw [outside] at inside
              cases inside
            simp [moved, notDue]
          · have flags := timer.flags_kept (fun same => noCall j (congrArg _ same)) back
              (fun same => noDetach j (congrArg _ same))
            simp [flags.1, back]

/-! ## One instruction in a slot -/

omit [DecidableEq α] [DecidableEq κ] in
/-- The calls of `run` are collected step by step. -/
theorem ranIn_snoc (history : List (KernelStep α κ)) (label : KernelStep α κ) :
    ranIn (history ++ [label]) = ranIn history ++ ranIn [label] :=
  List.filterMap_append ..

omit [DecidableEq α] [DecidableEq κ] in
/-- A call of `run` counts for the CPU, the process and the slot. -/
theorem ranIn_run (k j : κ) (proc : α) (executed : Option Inst) (stat : Int) (slot : Nat) :
    ranIn [.cpu k (.run j proc executed stat) slot] = [(k, proc, slot)] := rfl

/-- What a CPU has run it has run in slots that are over, or it runs it in this slot and keeps the
process. -/
def RanBefore (history : List (KernelStep α κ)) (s : Kernel α κ) : Prop :=
  ∀ ran ∈ ranIn history, ran.2.2 < clock ran.1 history ∨
    (ran.2.2 = clock ran.1 history ∧ s.Busy ran.1 ∧ (s.os.cpu ran.1).holds = some ran.2.1)

/-- A step keeps the order: a CPU that has run in a slot calls `next_slot` before it runs again. -/
theorem RanBefore.step (attached : Attached devList)
    (run : Run (Step pcb timeSlot devList) (start devList processes memory) history s)
    (before : RanBefore history s) (taken : Step pcb timeSlot devList s label t) :
    RanBefore (history ++ [label]) t := by
  have moved := taken.move
  intro ran member
  rw [ranIn_snoc] at member
  cases label with
  | arrival step =>
      obtain ⟨cpu, busy⟩ := moved.busy (reached_joined run)
      have earlier : ran ∈ ranIn history := by simpa [ranIn] using member
      by_cases back : step = .timer (.returned (some ran.1))
      · subst back
        rw [clock_returned]
        rcases before ran earlier with past | ⟨now, -⟩
        · exact .inl (Nat.lt_succ_of_lt past)
        · exact .inl (by omega)
      · rw [clock_other _ (by simpa using back), cpu]
        exact (before ran earlier).imp_right fun ⟨now, was, holds⟩ =>
          ⟨now, (busy ran.1).mpr ⟨was, back⟩, holds⟩
  | cpu k event slot =>
      rw [clock_other _ (by simp)]
      cases moved with
      | @cpu k event u data free steps arrivals due =>
          obtain ⟨moved, apart⟩ := Os.cpuStep_moves steps
          rcases List.mem_append.mp member with earlier | last
          · by_cases same : ran.1 = k
            · -- the CPU has come to the slot since
              refine .inl ((before ran earlier).resolve_right fun ⟨_, busy, _⟩ => ?_)
              rw [Busy, same, free.1, free.2] at busy
              simp at busy
            · rw [Busy, arrivals, due, Function.update_of_ne same, apart.cpu _ same]
              exact before ran earlier
          · cases moved with
            | @run timeLeft timeAfter proc executed stat here after =>
                have this : ran = (k, proc, s.arrivals.timer.time) := by
                  simpa [ranIn, TimerState.currentTime] using last
                subst this
                have running : s.os.cpu k ≠ .stopped := by
                  rcases here with ⟨here, -⟩ | here <;> simp [here]
                refine .inr ⟨(clock_free attached run free.1 running).symm, .inl ?_, ?_⟩
                · rw [due, Function.update_self, after]
                  rfl
                · rw [after]
                  rfl
            | _ => simp [ranIn] at last

/-- What the CPUs have run lies in slots that are over, or in the present one, in every reachable
state. -/
theorem reached_ranBefore (attached : Attached devList)
    (run : Run (Step pcb timeSlot devList) (start devList processes memory) history s) :
    RanBefore history s :=
  run.reached_invariant RanBefore
    (fun _ _ _ _ reached before taken => before.step attached reached taken)
    fun _ member => absurd member List.not_mem_nil

/-- A CPU at work has run nothing in this slot, and its process has not been run in it. -/
theorem ran_in_the_past (attached : Attached devList) (distinct : (processes.map Prod.fst).Nodup)
    (run : Run (Step pcb timeSlot devList) (start devList processes memory) history s) {k : κ}
    {proc : α} (free : s.free k) (holds : (s.os.cpu k).holds = some proc) {ran : κ × α × Nat}
    (member : ran ∈ ranIn history) (related : ran.1 = k ∨ ran.2.1 = proc) :
    ran.2.2 < s.arrivals.timer.time := by
  rcases reached_ranBefore attached run ran member with past | ⟨-, busy, held⟩
  · exact past.trans_le (clock_le attached run ran.1)
  · have same : ran.1 = k := by
      rcases related with same | same
      · exact same
      · rw [same] at held
        exact (reached_ledger distinct run).exclusive held holds
    rw [Busy, same, free.1, free.2] at busy
    simp at busy

omit [DecidableEq α] [DecidableEq κ] in
/-- What was run last comes after the rest. -/
theorem pairwise_snoc (select : κ × α × Nat → Bool) {earlier : List (κ × α × Nat)}
    (ordered : ((earlier.filter select).map fun ran => ran.2.2).Pairwise (· < ·))
    {last : κ × α × Nat}
    (later : ∀ ran ∈ earlier, select ran = true → ran.2.2 < last.2.2) :
    (((earlier ++ [last]).filter select).map fun ran => ran.2.2).Pairwise (· < ·) := by
  rw [List.filter_append, List.map_append, List.pairwise_append]
  refine ⟨ordered, ?_, fun slot member other single => ?_⟩
  · by_cases selected : select last <;> simp [selected]
  · obtain ⟨ran, inside, rfl⟩ := List.mem_map.mp member
    obtain ⟨inside, selected⟩ := List.mem_filter.mp inside
    obtain ⟨found, only, rfl⟩ := List.mem_map.mp single
    obtain rfl := List.mem_singleton.mp (List.mem_filter.mp only).1
    exact later ran inside selected

/-- The slots of a CPU and those of a process increase. -/
def Spaced (history : List (KernelStep α κ)) : Prop :=
  (∀ k, (slotsOn k history).Pairwise (· < ·)) ∧ ∀ proc, (slotsFor proc history).Pairwise (· < ·)

/-- The slots of each CPU and of each process increase, in every reachable state. -/
theorem reached_spaced (attached : Attached devList) (distinct : (processes.map Prod.fst).Nodup)
    (run : Run (Step pcb timeSlot devList) (start devList processes memory) history s) :
    Spaced history := by
  refine run.reached_invariant (fun history _ => Spaced history)
    (fun past before label after reached spaced taken => ?_) ⟨fun _ => .nil, fun _ => .nil⟩
  have moved := taken.move
  have silent (nothing : ranIn [label] = []) : Spaced (past ++ [label]) := by
    unfold Spaced slotsOn slotsFor
    rw [ranIn_snoc, nothing, List.append_nil]
    exact spaced
  cases moved with
  | @cpu k event u data free steps arrivals due =>
      cases (Os.cpuStep_moves steps).1 with
      | @run timeLeft timeAfter proc executed stat here after =>
          have holds : (before.os.cpu k).holds = some proc := by
            rcases here with ⟨here, -⟩ | here <;> rw [here] <;> rfl
          have earlier {ran : κ × α × Nat} (member : ran ∈ ranIn past)
              (related : ran.1 = k ∨ ran.2.1 = proc) : ran.2.2 < before.arrivals.timer.time :=
            ran_in_the_past attached distinct reached free holds member related
          unfold Spaced slotsOn slotsFor
          rw [ranIn_snoc]
          refine ⟨fun j => ?_, fun other => ?_⟩
          · by_cases same : j = k
            · subst same
              exact pairwise_snoc _ (spaced.1 j) fun ran member selected =>
                earlier member (.inl (by simpa using selected))
            · have apart : ¬ k = j := fun hit => same hit.symm
              rw [ranIn_run, List.filter_append, List.filter_singleton]
              simp only [apart, decide_false, cond_false, List.append_nil]
              exact spaced.1 j
          · by_cases same : other = proc
            · subst same
              exact pairwise_snoc _ (spaced.2 other) fun ran member selected =>
                earlier member (.inr (by simpa using selected))
            · have apart : ¬ proc = other := fun hit => same hit.symm
              rw [ranIn_run, List.filter_append, List.filter_singleton]
              simp only [apart, decide_false, cond_false, List.append_nil]
              exact spaced.2 other
      | _ => exact silent rfl
  | _ => exact silent rfl

/-! ## Nothing runs before it arrives -/

omit [DecidableEq α] [DecidableEq κ] in
theorem arrived_snoc (history : List (KernelStep α κ)) (label : KernelStep α κ) :
    arrived (history ++ [label]) = arrived history ++ arrived [label] := by
  simp only [arrived, added, List.filterMap_append]

omit [DecidableEq α] [DecidableEq κ] in
/-- A process that has arrived has arrived for the longer history too. -/
theorem mem_arrived_snoc {history : List (KernelStep α κ)} {arrival : α × Nat}
    (member : arrival ∈ arrived history) (label : KernelStep α κ) :
    arrival ∈ arrived (history ++ [label]) := by
  rw [arrived_snoc]
  exact List.mem_append_left _ member

/-- What a step of the machine does to the timer: a step of the timer, or nothing. -/
theorem Step.timer (taken : Step pcb timeSlot devList s label t) :
    (∃ step, label = .arrival (.timer step) ∧
        TimerState.Step devList s.arrivals.timer step t.arrivals.timer) ∨
      ((∀ step, label ≠ .arrival (.timer step)) ∧ t.arrivals.timer = s.arrivals.timer) := by
  have arrival {step : ArrivalStep (Option κ) α}
      (arrives : Arrivals.Step devList none s.arrivals step t.arrivals) :
      (∃ seen, (.arrival step : KernelStep α κ) = .arrival (.timer seen) ∧
          TimerState.Step devList s.arrivals.timer seen t.arrivals.timer) ∨
        ((∀ seen, (.arrival step : KernelStep α κ) ≠ .arrival (.timer seen)) ∧
          t.arrivals.timer = s.arrivals.timer) := by
    have effect := arrives.effect
    cases step with
    | timer step => exact .inl ⟨step, rfl, effect.1⟩
    | test => exact .inr ⟨by simp, effect.1⟩
    | add proc slot => exact .inr ⟨by simp, effect.2.1⟩
    | finish => exact .inr ⟨by simp, effect.1⟩
  cases taken.move with
  | add arrives => exact arrival arrives
  | finish arrives => exact arrival arrives
  | call arrives => exact arrival arrives
  | detach arrives => exact arrival arrives
  | silent arrives => exact arrival arrives
  | cpu free steps arrivals => exact .inr ⟨by simp, by rw [arrivals]⟩

theorem Step.time_le (taken : Step pcb timeSlot devList s label t) :
    s.arrivals.timer.time ≤ t.arrivals.timer.time := by
  rcases taken.timer with ⟨step, -, moved⟩ | ⟨-, same⟩
  · exact moved.time_le
  · rw [same]

/-- A process is in the machine: it is queued or held. -/
def Present (s : Kernel α κ) (proc : α) : Prop :=
  proc ∈ s.os.sched.queued ∨ ∃ k, (s.os.cpu k).holds = some proc

omit [DecidableEq α] in
/-- What is offered to the queues is in them afterwards, or dropped. -/
theorem mem_enqueued {sched : Mlq α} {proc other : α}
    (member : other ∈ (sched.addProc (prioOf pcb) proc).queued) :
    other = proc ∨ other ∈ sched.queued := by
  rcases sched.queued_enqueue (prioOf pcb) proc with ⟨-, stored⟩ | ⟨-, dropped⟩
  · exact List.mem_cons.mp (stored.mem_iff.mp member)
  · exact .inr (dropped ▸ member)

omit [DecidableEq α] in
/-- A CPU brings no process into the queues or to itself that was not there. -/
theorem present_of_cpuMove {k : κ} {event : OsEvent α κ}
    (moved : Os.CpuMove pcb s.os t.os k event) (apart : Os.Apart s.os t.os k) {proc : α}
    (present : t.Present proc) : s.Present proc := by
  -- it is enough to look at the CPU that moves
  have other (here : (t.os.cpu k).holds = some proc → s.Present proc)
      (held : ∃ j, (t.os.cpu j).holds = some proc) : s.Present proc := by
    obtain ⟨j, holds⟩ := held
    by_cases same : j = k
    · exact here (same ▸ holds)
    · exact .inr ⟨j, by rwa [apart.cpu j same] at holds⟩
  cases moved with
  | empty fetches nothing still after =>
      refine present.elim (fun member => by simp [still] at member) (other fun holds => ?_)
      rcases after with ⟨-, after⟩ | after <;> simp [after, Cpu.holds] at holds
  | @got timeLeft fetched fetches taken after =>
      refine present.elim (fun member => .inl (taken.mem_iff.mpr (List.mem_cons_of_mem _ member)))
        (other fun holds => ?_)
      obtain rfl : fetched = proc := by simpa [after, Cpu.holds] using holds
      exact .inl (taken.mem_iff.mpr List.mem_cons_self)
  | complete here ended after sched =>
      refine present.elim (fun member => .inl (sched ▸ member)) (other fun holds => ?_)
      simp [after] at holds
  | @put offered here unfinished after sched =>
      refine present.elim (fun member => ?_) (other fun holds => by simp [after] at holds)
      rw [sched] at member
      rcases mem_enqueued member with rfl | queued
      · exact .inr ⟨k, by rw [here]; rfl⟩
      · exact .inl queued
  | @run timeLeft timeAfter ran executed stat here after sched =>
      refine present.elim (fun member => .inl (sched ▸ member)) (other fun holds => ?_)
      obtain rfl : ran = proc := by simpa [after, Cpu.holds] using holds
      exact .inr ⟨k, by rcases here with ⟨here, -⟩ | here <;> rw [here] <;> rfl⟩
  | skip here going after sched =>
      refine present.elim (fun member => .inl (sched ▸ member)) (other fun holds => ?_)
      simp [after, Cpu.holds] at holds
  | stop here done after sched =>
      refine present.elim (fun member => .inl (sched ▸ member)) (other fun holds => ?_)
      simp [after, Cpu.holds] at holds

/-- The processes that are queued or held have arrived, none later than now. -/
structure Known (history : List (KernelStep α κ)) (s : Kernel α κ) : Prop where
  present : ∀ proc, s.Present proc → ∃ slot, (proc, slot) ∈ arrived history
  past : ∀ arrival ∈ arrived history, arrival.2 ≤ s.arrivals.timer.time

/-- A step in which no process comes to a CPU or to the queues. -/
theorem Known.frame (known : Known history s) (taken : Step pcb timeSlot devList s label t)
    (noAdd : arrived [label] = []) (present : ∀ proc, t.Present proc → s.Present proc) :
    Known (history ++ [label]) t where
  present := fun proc somewhere => by
    rw [arrived_snoc, noAdd, List.append_nil]
    exact known.present proc (present proc somewhere)
  past := fun arrival member => by
    rw [arrived_snoc, noAdd, List.append_nil] at member
    exact (known.past arrival member).trans taken.time_le

/-- A step keeps it: the loader adds in the present slot, and the others move processes that have
arrived. -/
theorem Known.step (known : Known history s) (joined : s.Joined)
    (taken : Step pcb timeSlot devList s label t) : Known (history ++ [label]) t := by
  have unchanged {proc : α} (os : t.os = s.os) (present : t.Present proc) : s.Present proc := by
    unfold Present at present ⊢
    rwa [os] at present
  cases taken.move with
  | @add proc slot event arrives loads due =>
      obtain ⟨now, -⟩ := arrives.effect
      obtain ⟨rfl, sched, -, cpu, -⟩ := joined.adds arrives loads
      refine ⟨fun other present => ?_, fun arrival member => ?_⟩
      · have cases : other = proc ∨ s.Present other := by
          rcases present with member | ⟨k, holds⟩
          · rw [sched] at member
            exact (mem_enqueued member).imp_right .inl
          · exact .inr (.inr ⟨k, by rwa [cpu] at holds⟩)
        rcases cases with rfl | before
        · exact ⟨slot, by rw [arrived_snoc]; exact List.mem_append_right _ List.mem_cons_self⟩
        · obtain ⟨slot, member⟩ := known.present other before
          exact ⟨slot, mem_arrived_snoc member _⟩
      · rw [arrived_snoc] at member
        rcases List.mem_append.mp member with earlier | last
        · exact (known.past arrival earlier).trans taken.time_le
        · obtain rfl : arrival = (proc, slot) := List.mem_singleton.mp last
          exact now.symm.le.trans taken.time_le
  | finish arrives loads due =>
      obtain ⟨rfl, sched, -, cpu, -⟩ := joined.finishes arrives loads
      refine known.frame taken rfl fun proc present => ?_
      unfold Present at present ⊢
      rwa [sched, cpu] at present
  | call arrives ready os => exact known.frame taken rfl fun proc => unchanged os
  | detach arrives stopped os => exact known.frame taken rfl fun proc => unchanged os
  | @silent step arrives noAdd noFinish noCall noDetach os =>
      refine known.frame taken ?_ fun proc => unchanged os
      cases step with
      | add proc slot => exact absurd rfl (noAdd proc slot)
      | _ => rfl
  | cpu free steps =>
      obtain ⟨moved, apart⟩ := Os.cpuStep_moves steps
      exact known.frame taken rfl fun proc => present_of_cpuMove moved apart

omit [DecidableEq α] [DecidableEq κ] in
theorem start_queued (devList : List (Option κ)) (processes : List (α × Nat)) (memory : Sys α) :
    (start devList processes memory).os.sched.queued = [] :=
  Dispatch.start_queued (κ := κ) (processes.map Prod.fst)

/-- The processes that are queued or held have arrived, in every reachable state. -/
theorem reached_known
    (run : Run (Step pcb timeSlot devList) (start devList processes memory) history s) :
    Known history s := by
  refine run.reached_invariant Known (fun _ _ _ _ reached known taken =>
    known.step (reached_joined reached) taken) ⟨fun proc present => ?_, fun _ member =>
      absurd member List.not_mem_nil⟩
  rcases present with member | ⟨k, holds⟩
  · rw [start_queued] at member
    cases member
  · simp [start, Os.start, Cpu.holds] at holds

omit [DecidableEq α] in
/-- The processes arrive in the order of the configuration. -/
theorem arrivals_map (now : Nat) (processes : List (α × Nat)) :
    (PagedOs.arrivals now processes).map Prod.fst = processes.map Prod.fst := by
  induction processes generalizing now with
  | nil => rfl
  | cons process rest ih => exact congrArg (process.1 :: ·) (ih _)

/-- The arrivals up to here are the beginning of the schedule. -/
theorem arrived_scheduled (attached : Attached devList)
    (run : Run (Step pcb timeSlot devList) (start devList processes memory) history s) :
    arrived history <+: PagedOs.arrivals 0 processes :=
  ⟨_, (reached_arriving attached run).schedule⟩

theorem arrived_unique (attached : Attached devList) (distinct : (processes.map Prod.fst).Nodup)
    (run : Run (Step pcb timeSlot devList) (start devList processes memory) history s) {proc : α}
    {slot other : Nat} (here : (proc, slot) ∈ arrived history)
    (there : (proc, other) ∈ arrived history) : slot = other := by
  rw [← arrivals_map 0 processes] at distinct
  have scheduled := (arrived_scheduled attached run).subset
  have same := List.inj_on_of_nodup_map distinct (scheduled here) (scheduled there) rfl
  exact congrArg Prod.snd same

omit [DecidableEq κ] in
/-- Every call of `run` executes one instruction at most. -/
theorem executed_length_le (proc : α) (history : List (KernelStep α κ)) :
    (Os.executed proc (history.filterMap KernelStep.osEvent)).length ≤
      (slotsFor proc history).length := by
  have one (label : KernelStep α κ) :
      (Os.executed proc ([label].filterMap KernelStep.osEvent)).length ≤
        (slotsFor proc [label]).length := by
    cases label with
    | arrival step => cases step <;> exact Nat.zero_le _
    | cpu k event slot =>
        cases event with
        | run j ran ins stat =>
            by_cases same : ran = proc
            · cases ins <;> simp [Os.executed, KernelStep.osEvent, slotsFor, ranIn_run, same]
            · cases ins <;> simp [Os.executed, KernelStep.osEvent, same]
        | _ => exact Nat.zero_le _
  induction history with
  | nil => exact Nat.le_refl 0
  | cons label rest ih =>
      have head := one label
      have split : Os.executed proc ((label :: rest).filterMap KernelStep.osEvent) =
          Os.executed proc ([label].filterMap KernelStep.osEvent) ++
            Os.executed proc (rest.filterMap KernelStep.osEvent) := by
        rw [← List.singleton_append, List.filterMap_append]
        exact List.filterMap_append ..
      have splitSlots : slotsFor proc (label :: rest) =
          slotsFor proc [label] ++ slotsFor proc rest := by
        rw [← List.singleton_append, slotsFor, ranIn, List.filterMap_append, List.filter_append,
          List.map_append]
        rfl
      rw [split, splitSlots, List.length_append, List.length_append]
      exact Nat.add_le_add head ih

/-- A process is run after it has arrived. -/
def RanAfter (history : List (KernelStep α κ)) : Prop :=
  ∀ ran ∈ ranIn history, ∃ slot, (ran.2.1, slot) ∈ arrived history ∧ slot ≤ ran.2.2

/-- Whatever was run of a process was run in or after the slot of its arrival, in every reachable
state. -/
theorem reached_ranAfter
    (run : Run (Step pcb timeSlot devList) (start devList processes memory) history s) :
    RanAfter history := by
  refine run.reached_invariant (fun history _ => RanAfter history)
    (fun past before label after reached held taken ran member => ?_)
    fun _ member => absurd member List.not_mem_nil
  have earlier (member : ran ∈ ranIn past) :
      ∃ slot, (ran.2.1, slot) ∈ arrived (past ++ [label]) ∧ slot ≤ ran.2.2 := by
    obtain ⟨slot, arrives, bound⟩ := held ran member
    exact ⟨slot, mem_arrived_snoc arrives label, bound⟩
  rw [ranIn_snoc] at member
  rcases List.mem_append.mp member with member | last
  · exact earlier member
  · cases taken.move with
    | @cpu k event u data free steps arrivals due =>
        cases (Os.cpuStep_moves steps).1 with
        | @run timeLeft timeAfter proc executed stat here after =>
            have known := reached_known reached
            have holds : (before.os.cpu k).holds = some proc := by
              rcases here with ⟨here, -⟩ | here <;> rw [here] <;> rfl
            obtain ⟨slot, arrives⟩ := known.present proc (.inr ⟨k, holds⟩)
            rw [ranIn_run] at last
            obtain rfl := List.mem_singleton.mp last
            exact ⟨slot, mem_arrived_snoc arrives _, known.past _ arrives⟩
        | _ => simp [ranIn] at last
    | _ => simp [ranIn] at last

/-- The slots that are left of a process's stay bound what is run of it. -/
theorem slotsFor_length_le (attached : Attached devList)
    (distinct : (processes.map Prod.fst).Nodup)
    (run : Run (Step pcb timeSlot devList) (start devList processes memory) history s) {proc : α}
    {slot now : Nat} (arrives : (proc, slot) ∈ arrived history)
    (before : ∀ ran ∈ ranIn history, ran.2.1 = proc → ran.2.2 < now) :
    (slotsFor proc history).length ≤ now - slot := by
  have ordered := (reached_spaced attached distinct run).2 proc
  have inside : (slotsFor proc history).toFinset ⊆ Finset.Ico slot now := by
    intro ranSlot member
    obtain ⟨ran, selected, rfl⟩ := List.mem_map.mp (List.mem_toFinset.mp member)
    obtain ⟨found, same⟩ := List.mem_filter.mp selected
    have same : ran.2.1 = proc := by simpa using same
    obtain ⟨first, arrivesFirst, bound⟩ := reached_ranAfter run ran found
    rw [same] at arrivesFirst
    obtain rfl := arrived_unique attached distinct run arrives arrivesFirst
    exact Finset.mem_Ico.mpr ⟨bound, before ran found same⟩
  have nodup : (slotsFor proc history).Nodup := ordered.imp fun less => Nat.ne_of_lt less
  calc (slotsFor proc history).length
      = (slotsFor proc history).toFinset.card := (List.toFinset_card_of_nodup nodup).symm
    _ ≤ (Finset.Ico slot now).card := Finset.card_le_card inside
    _ = now - slot := Nat.card_Ico slot now

/-- A process that is complete has spent a slot on each of its instructions. -/
def Timely (pcb : α → Pcb) (history : List (KernelStep α κ)) : Prop :=
  ∀ k j proc slot, .cpu k (.complete j proc) slot ∈ history →
    ∃ first, (proc, first) ∈ arrived history ∧ first + (pcb proc).text.length ≤ slot

/-- A process that is complete has spent a slot on each of its instructions, in every reachable
state. -/
theorem reached_timely (attached : Attached devList) (distinct : (processes.map Prod.fst).Nodup)
    (run : Run (Step pcb timeSlot devList) (start devList processes memory) history s) :
    Timely pcb history := by
  refine run.reached_invariant (fun history _ => Timely pcb history)
    (fun past before label after reached held taken k j proc slot member => ?_)
    fun _ _ _ _ member => absurd member List.not_mem_nil
  rcases List.mem_append.mp member with earlier | last
  · obtain ⟨first, arrives, bound⟩ := held k j proc slot earlier
    exact ⟨first, mem_arrived_snoc arrives label, bound⟩
  · obtain rfl := List.mem_singleton.mp last
    cases taken.move with
    | @cpu k event u data free steps arrivals due =>
        cases (Os.cpuStep_moves steps).1 with
        | complete here ended after =>
            have known := reached_known reached
            have holds : (before.os.cpu k).holds = some proc := by rw [here]; rfl
            obtain ⟨first, arrives⟩ := known.present proc (.inr ⟨k, holds⟩)
            have inOrder : Os.InOrder pcb (past.filterMap KernelStep.osEvent) before.os :=
              (run_os reached (start_joined devList processes memory)).history_invariant
                (Os.InOrder pcb) (fun _ _ _ _ inOrder taken => inOrder.step taken)
                fun proc => ⟨rfl, Nat.zero_le _⟩
            have executed : (Os.executed proc (past.filterMap KernelStep.osEvent)).length =
                (pcb proc).text.length := by
              rw [(inOrder proc).1, ended, List.take_length]
            have spent := slotsFor_length_le attached distinct reached arrives
              fun ran member same =>
                ran_in_the_past attached distinct reached free holds member (.inr same)
            have calls := executed_length_le proc past
            have bound := known.past _ arrives
            refine ⟨first, mem_arrived_snoc arrives _, ?_⟩
            simp only [TimerState.currentTime]
            omega

/-- **One instruction in a slot.** In every run of the threads the slots in which a CPU executes
increase, and so do those in which a process is executed, whatever CPUs it is on. A process is
executed in or after the slot in which it arrives, so it is complete no earlier than its code takes,
one slot for each instruction. -/
theorem one_instruction_per_slot (attached : Attached devList)
    (distinct : (processes.map Prod.fst).Nodup)
    (run : Run (Step pcb timeSlot devList) (start devList processes memory) history s) :
    (∀ k, (slotsOn k history).Pairwise (· < ·)) ∧
      (∀ proc, (slotsFor proc history).Pairwise (· < ·)) ∧
      (∀ ran ∈ ranIn history, ∃ slot, (ran.2.1, slot) ∈ PagedOs.arrivals 0 processes ∧
        slot ≤ ran.2.2) ∧
      ∀ k j proc slot, .cpu k (.complete j proc) slot ∈ history →
        ∃ first, (proc, first) ∈ PagedOs.arrivals 0 processes ∧
          first + (pcb proc).text.length ≤ slot := by
  have spaced := reached_spaced attached distinct run
  have scheduled := (arrived_scheduled attached run).subset
  refine ⟨spaced.1, spaced.2, fun ran member => ?_, fun k j proc slot member => ?_⟩
  · obtain ⟨slot, arrives, bound⟩ := reached_ranAfter run ran member
    exact ⟨slot, scheduled arrives, bound⟩
  · obtain ⟨first, arrives, bound⟩ := reached_timely attached distinct run k j proc slot member
    exact ⟨first, scheduled arrives, bound⟩

end Reached

/-- The first process is executed on CPU 0 first and then on CPU 1, in one slot after the other. -/
theorem one_instruction_per_slot_whole :
    slotsFor proc0 whole.1 = [1, 2, 3] ∧ slotsOn cpu1 whole.1 = [1, 2, 3] ∧
      (slotsFor proc0 whole.1).Pairwise (· < ·) ∧ (slotsOn cpu1 whole.1).Pairwise (· < ·) := by
  have spaced := one_instruction_per_slot (attachAll_attached 2) (by decide) run_whole
  exact ⟨by decide +kernel, by decide +kernel, spaced.2.1 proc0, spaced.1 cpu1⟩

end Kernel

end PagedOs
