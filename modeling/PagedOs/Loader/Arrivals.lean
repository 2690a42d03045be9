import Mathlib.Order.MinMax
import PagedOs.Timer.Barrier

/-! # When processes arrive

`ld_routine` of `os.c` as a device of the timer, once the process files are read. For each
process it waits until its start time and adds it, and it stays away for a slot after each of
them. The other devices and the timer move as they can.

The barrier turns the time into the number of slots that the loader has waited, so the slot of
each process follows from the start times alone.
-/

namespace PagedOs

open Transition

variable {ι α : Type*}

/-- Where `ld_routine` is, with the processes that it has not added and their start times. -/
inductive Loader (α : Type*) where
  /-- before `current_time()` is compared with the start time, or at the end of the loop -/
  | test (rest : List (α × Nat))
  /-- before `add_proc` -/
  | ready (proc : α) (rest : List (α × Nat))
  /-- before `next_slot` -/
  | leave (rest : List (α × Nat))
  /-- in `next_slot` -/
  | waiting (rest : List (α × Nat))
  /-- before `detach_event` -/
  | loaded
  | detached

/-- The timer with its devices, the loader and the flag `done`. -/
structure Arrivals (ι α : Type*) where
  timer : TimerState ι
  loader : Loader α
  done : Bool

/-- A step of the timer or a device, or a step of the loader between two calls of the timer. -/
inductive ArrivalStep (ι α : Type*) where
  | timer (step : TimerStep ι)
  | test
  | add (proc : α) (slot : Nat)
  | finish
deriving DecidableEq

/-! ## Arrival slots -/

/-- The slots in which processes arrive that are looked at from a slot on: each at its start time,
or in the slot after the one before it if that is later. -/
def arrivals : Nat → List (α × Nat) → List (α × Nat)
  | _, [] => []
  | now, (proc, startTime) :: rest =>
      (proc, max startTime now) :: arrivals (max startTime now + 1) rest

/-- Nothing arrives in a slot before the start time of the next process. -/
theorem arrivals_early {now startTime : Nat} (early : now < startTime) (proc : α)
    (rest : List (α × Nat)) :
    arrivals (now + 1) ((proc, startTime) :: rest) = arrivals now ((proc, startTime) :: rest) := by
  rw [arrivals, arrivals, max_eq_left early, max_eq_left early.le]

/-- A process whose start time has come arrives in the present slot, and the others after it. -/
theorem arrivals_due {now startTime : Nat} (due : startTime ≤ now) (proc : α)
    (rest : List (α × Nat)) :
    arrivals now ((proc, startTime) :: rest) = (proc, now) :: arrivals (now + 1) rest := by
  rw [arrivals, max_eq_right due]

/-- The arrivals that are looked at from a slot on are in this slot or in later ones. -/
theorem le_of_mem_arrivals {now : Nat} {processes : List (α × Nat)} {arrival : α × Nat}
    (member : arrival ∈ arrivals now processes) : now ≤ arrival.2 := by
  induction processes generalizing now with
  | nil => exact absurd member List.not_mem_nil
  | cons process rest ih =>
      rcases List.mem_cons.mp member with rfl | later
      · exact le_max_right _ _
      · exact ((le_max_right _ _).trans (Nat.le_succ _)).trans (ih later)

/-- The processes arrive in their order, none before its start time. -/
theorem arrivals_forall₂ (now : Nat) (processes : List (α × Nat)) :
    List.Forall₂ (fun process arrival => arrival.1 = process.1 ∧ process.2 ≤ arrival.2) processes
      (arrivals now processes) := by
  induction processes generalizing now with
  | nil => exact .nil
  | cons process rest ih => exact .cons ⟨rfl, le_max_left _ _⟩ (ih _)

theorem arrivals_pairwise (now : Nat) (processes : List (α × Nat)) :
    (arrivals now processes).Pairwise fun earlier later => earlier.2 < later.2 := by
  induction processes generalizing now with
  | nil => exact .nil
  | cons process rest ih =>
      exact .cons (fun later member => le_of_mem_arrivals member) (ih _)

/-- The arrivals that are left when the loader has waited this many slots. -/
def Loader.remaining (now : Nat) : Loader α → List (α × Nat)
  | .test rest => arrivals now rest
  | .ready proc rest => (proc, now) :: arrivals (now + 1) rest
  | .leave rest => arrivals (now + 1) rest
  | .waiting rest => arrivals (now + 1) rest
  | .loaded => []
  | .detached => []

/-- What is left of the arrivals comes in later slots. -/
theorem le_of_mem_remaining {now : Nat} {loader : Loader α} {arrival : α × Nat}
    (member : arrival ∈ loader.remaining now) : now ≤ arrival.2 := by
  cases loader with
  | test rest => exact le_of_mem_arrivals member
  | ready proc rest =>
      rcases List.mem_cons.mp member with rfl | later
      · exact le_rfl
      · exact (Nat.le_succ now).trans (le_of_mem_arrivals later)
  | leave rest => exact (Nat.le_succ now).trans (le_of_mem_arrivals member)
  | waiting rest => exact (Nat.le_succ now).trans (le_of_mem_arrivals member)
  | loaded => exact absurd member List.not_mem_nil
  | detached => exact absurd member List.not_mem_nil

/-- Where the loader is as a device. -/
def Loader.Placed (device : ι) (timer : TimerState ι) : Loader α → Prop
  | .waiting _ => timer.inside device = true ∧ timer.fsh device = false
  | .detached => timer.fsh device = true
  | _ => timer.inside device = false ∧ timer.fsh device = false

/-! ## Steps -/

variable [DecidableEq ι]

/-- What a step of the timer is for the loader, which is this device. -/
def Loader.follow (device : ι) (loader : Loader α) (step : TimerStep ι) : Option (Loader α) :=
  if step = .setDone device then
    match loader with
    | .leave rest => some (.waiting rest)
    | _ => none
  else if step = .returned device then
    match loader with
    | .waiting rest => some (.test rest)
    | _ => none
  else if step = .detach device then
    match loader with
    | .loaded => some .detached
    | _ => none
  else some loader

namespace Arrivals

omit [DecidableEq ι] in
/-- The state in which the loop starts. -/
def start (devList : List ι) (processes : List (α × Nat)) : Arrivals ι α where
  timer := .startTimer devList
  loader := .test processes
  done := false

variable [DecidableEq α]

/-- One step of the loader from the state that it is in. -/
def advance (devList : List ι) (device : ι) (s : Arrivals ι α) :
    ArrivalStep ι α → Option (Arrivals ι α)
  | .timer step =>
      match s.timer.advance devList step, s.loader.follow device step with
      | some timer, some loader => some { s with timer := timer, loader := loader }
      | _, _ => none
  | .test =>
      match s.loader with
      | .test ((proc, startTime) :: rest) =>
          if s.timer.currentTime < startTime then
            some { s with loader := .leave ((proc, startTime) :: rest) }
          else some { s with loader := .ready proc rest }
      | _ => none
  | .add proc slot =>
      match s.loader with
      | .ready next rest =>
          if next = proc ∧ s.timer.currentTime = slot then
            some { s with loader := .leave rest }
          else none
      | _ => none
  | .finish =>
      match s.loader with
      | .test [] => some { s with loader := .loaded, done := true }
      | _ => none

/-- The steps of the threads, in any order. -/
def Step (devList : List ι) (device : ι) (s : Arrivals ι α) (label : ArrivalStep ι α)
    (t : Arrivals ι α) : Prop :=
  s.advance devList device label = some t

end Arrivals

/-- What the timer sees of a step. -/
def ArrivalStep.timerStep : ArrivalStep ι α → Option (TimerStep ι)
  | .timer step => some step
  | _ => none

/-- The processes that were added, each with the slot. -/
def added (history : List (ArrivalStep ι α)) : List (α × Nat) :=
  history.filterMap fun
    | .add proc slot => some (proc, slot)
    | _ => none

/-- The calls of `next_slot` that a device has returned from. -/
def slotsOf (device : ι) (history : List (ArrivalStep ι α)) : Nat :=
  TimerState.completed device (history.filterMap ArrivalStep.timerStep)

/-- The steps of the timer that the loader takes, and the others. -/
theorem Loader.follow_cases {device : ι} {loader next : Loader α} {step : TimerStep ι}
    (followed : loader.follow device step = some next) :
    (∃ rest, step = .setDone device ∧ loader = .leave rest ∧ next = .waiting rest) ∨
      (∃ rest, step = .returned device ∧ loader = .waiting rest ∧ next = .test rest) ∨
      (step = .detach device ∧ loader = .loaded ∧ next = .detached) ∨
      (step ≠ .setDone device ∧ step ≠ .returned device ∧ step ≠ .detach device ∧
        next = loader) := by
  unfold Loader.follow at followed
  by_cases call : step = .setDone device
  · rw [if_pos call] at followed
    split at followed
    · exact .inl ⟨_, call, rfl, (Option.some.inj followed).symm⟩
    · exact nomatch followed
  rw [if_neg call] at followed
  by_cases back : step = .returned device
  · rw [if_pos back] at followed
    split at followed
    · exact .inr (.inl ⟨_, back, rfl, (Option.some.inj followed).symm⟩)
    · exact nomatch followed
  rw [if_neg back] at followed
  by_cases gone : step = .detach device
  · rw [if_pos gone] at followed
    split at followed
    · exact .inr (.inr (.inl ⟨gone, rfl, (Option.some.inj followed).symm⟩))
    · exact nomatch followed
  rw [if_neg gone] at followed
  exact .inr (.inr (.inr ⟨call, back, gone, (Option.some.inj followed).symm⟩))

omit [DecidableEq ι] in
/-- Where the loader stands depends on the timer by the two flags of its device only. -/
theorem Loader.Placed.congr {device : ι} {loader : Loader α} {timer next : TimerState ι}
    (placed : loader.Placed device timer) (inside : next.inside device = timer.inside device)
    (fsh : next.fsh device = timer.fsh device) : loader.Placed device next := by
  unfold Loader.Placed at placed ⊢
  rw [inside, fsh]
  exact placed

omit [DecidableEq ι] in
/-- The processes added in a history are collected step by step. -/
theorem added_snoc (history : List (ArrivalStep ι α)) (label : ArrivalStep ι α) :
    added (history ++ [label]) = added history ++ added [label] :=
  List.filterMap_append ..

/-- The loader is in its next slot when it returns from `next_slot`, and with no other step of the
timer. -/
theorem slotsOf_timer (device : ι) (history : List (ArrivalStep ι α)) (step : TimerStep ι) :
    slotsOf device (history ++ [ArrivalStep.timer step]) =
      slotsOf device history + if step = .returned device then 1 else 0 := by
  rw [slotsOf, List.filterMap_append]
  exact TimerState.completed_snoc device _ step

/-- A step of the loader between two calls of the timer does not end its slot. -/
theorem slotsOf_other (device : ι) (history : List (ArrivalStep ι α)) {label : ArrivalStep ι α}
    (hidden : label.timerStep = none) :
    slotsOf device (history ++ [label]) = slotsOf device history := by
  rw [slotsOf, List.filterMap_append, List.filterMap_cons_none hidden, List.filterMap_nil,
    List.append_nil, slotsOf]

/-- What every run maintains: the barrier, the place of the loader in it and the arrivals, those
that were and those that are left. -/
structure Arriving (devList : List ι) (device : ι) (processes : List (α × Nat))
    (history : List (ArrivalStep ι α)) (s : Arrivals ι α) : Prop where
  barrier : TimerState.Barrier devList (history.filterMap ArrivalStep.timerStep) s.timer
  placed : s.loader.Placed device s.timer
  schedule : added history ++ s.loader.remaining (slotsOf device history) = arrivals 0 processes
  finished : s.done = true → s.loader = .loaded ∨ s.loader = .detached

namespace Arriving

variable {devList : List ι} {device : ι} {processes : List (α × Nat)}
  {history : List (ArrivalStep ι α)} {s : Arrivals ι α}

/-- Outside `next_slot` the time is the number of slots that the loader has waited. -/
theorem time (arriving : Arriving devList device processes history s) (member : device ∈ devList)
    (outside : s.timer.inside device = false ∧ s.timer.fsh device = false) :
    slotsOf device history = s.timer.currentTime :=
  ((arriving.barrier.devices device member).outside outside.2 outside.1).2.1

/-- The flag is not set while the loader has something to do. -/
theorem not_done (arriving : Arriving devList device processes history s) {place : Loader α}
    (here : s.loader = place) (busy : place ≠ .loaded ∧ place ≠ .detached) : ¬s.done = true := by
  intro done
  rcases arriving.finished done with loaded | detached
  · exact busy.1 (here.symm.trans loaded)
  · exact busy.2 (here.symm.trans detached)

theorem timerStep (arriving : Arriving devList device processes history s) (nodup : devList.Nodup)
    {step : TimerStep ι} {timer : TimerState ι} {loader : Loader α}
    (taken : TimerState.Step devList s.timer step timer)
    (followed : s.loader.follow device step = some loader) :
    Arriving devList device processes (history ++ [ArrivalStep.timer step])
      { s with timer := timer, loader := loader } := by
  have barrier : TimerState.Barrier devList
      ((history ++ [ArrivalStep.timer step]).filterMap ArrivalStep.timerStep) timer := by
    rw [List.filterMap_append]
    exact arriving.barrier.step nodup taken
  have schedule := arriving.schedule
  have placed := arriving.placed
  have kept : added (history ++ [ArrivalStep.timer step]) = added history := by
    rw [added_snoc]
    exact List.append_nil _
  rcases Loader.follow_cases followed with ⟨rest, rfl, before, rfl⟩ | ⟨rest, rfl, before, rfl⟩ |
    ⟨rfl, before, rfl⟩ | ⟨noCall, noReturn, noDetach, rfl⟩
  · rw [before] at schedule
    refine ⟨barrier, ?_, ?_, fun done => ?_⟩
    · obtain ⟨_, _, attached, rfl⟩ := taken.effect
      exact ⟨Function.update_self .., attached⟩
    · rw [kept, slotsOf_timer, if_neg (by simp)]
      exact schedule
    · exact absurd done (arriving.not_done before ⟨nofun, nofun⟩)
  · rw [before] at schedule placed
    refine ⟨barrier, ?_, ?_, fun done => ?_⟩
    · obtain ⟨_, _, rfl⟩ := taken.effect
      exact ⟨Function.update_self .., placed.2⟩
    · rw [kept, slotsOf_timer, if_pos rfl]
      exact schedule
    · exact absurd done (arriving.not_done before ⟨nofun, nofun⟩)
  · rw [before] at schedule
    refine ⟨barrier, ?_, ?_, fun _ => .inr rfl⟩
    · obtain ⟨_, _, _, rfl⟩ := taken.effect
      exact Function.update_self ..
    · rw [kept]
      exact schedule
  · obtain ⟨inside, fsh⟩ := taken.flags_kept noCall noReturn noDetach
    refine ⟨barrier, placed.congr inside fsh, ?_, arriving.finished⟩
    rw [kept, slotsOf_timer, if_neg noReturn]
    exact schedule

/-- A step of the loader between two calls of the timer. -/
theorem ownStep (arriving : Arriving devList device processes history s) {label : ArrivalStep ι α}
    (hidden : label.timerStep = none) {t : Arrivals ι α} (timer : t.timer = s.timer)
    (placed : t.loader.Placed device s.timer)
    (schedule : added history ++ added [label] ++ t.loader.remaining (slotsOf device history) =
      arrivals 0 processes)
    (finished : t.done = true → t.loader = .loaded ∨ t.loader = .detached) :
    Arriving devList device processes (history ++ [label]) t := by
  refine ⟨?_, timer ▸ placed, ?_, finished⟩
  · rw [timer, List.filterMap_append, List.filterMap_cons_none hidden, List.filterMap_nil,
      List.append_nil]
    exact arriving.barrier
  · rw [added_snoc, slotsOf_other device history hidden]
    exact schedule

theorem silentStep (arriving : Arriving devList device processes history s)
    {label : ArrivalStep ι α} (hidden : label.timerStep = none) (silent : added [label] = [])
    {t : Arrivals ι α} (timer : t.timer = s.timer) (placed : t.loader.Placed device s.timer)
    (schedule : added history ++ t.loader.remaining (slotsOf device history) =
      arrivals 0 processes)
    (finished : t.done = true → t.loader = .loaded ∨ t.loader = .detached) :
    Arriving devList device processes (history ++ [label]) t := by
  refine arriving.ownStep hidden timer placed ?_ finished
  rw [silent, List.append_nil]
  exact schedule

variable [DecidableEq α]

/-- **Every step** keeps the arrivals on schedule. -/
theorem step (arriving : Arriving devList device processes history s) (nodup : devList.Nodup)
    (member : device ∈ devList) {label : ArrivalStep ι α} {t : Arrivals ι α}
    (taken : Arrivals.Step devList device s label t) :
    Arriving devList device processes (history ++ [label]) t := by
  have placed := arriving.placed
  have schedule := arriving.schedule
  unfold Arrivals.Step at taken
  cases label with
  | timer step =>
      rw [Arrivals.advance] at taken
      split at taken
      case h_1 timer loader stepped followed =>
        obtain rfl := Option.some.inj taken
        exact arriving.timerStep nodup stepped followed
      case h_2 => exact nomatch taken
  | test =>
      rw [Arrivals.advance] at taken
      split at taken
      case h_2 => exact nomatch taken
      case h_1 proc startTime rest before =>
        rw [before] at placed schedule
        have now := arriving.time member placed
        have unfinished := arriving.not_done before ⟨nofun, nofun⟩
        split at taken
        case isTrue early =>
          obtain rfl := Option.some.inj taken
          refine arriving.silentStep rfl rfl rfl placed ?_ fun done => absurd done unfinished
          rw [← now] at early
          rw [Loader.remaining, arrivals_early early]
          exact schedule
        case isFalse due =>
          obtain rfl := Option.some.inj taken
          refine arriving.silentStep rfl rfl rfl placed ?_ fun done => absurd done unfinished
          rw [← now] at due
          rw [Loader.remaining, arrivals_due (Nat.le_of_not_lt due)] at schedule
          exact schedule
  | add proc slot =>
      rw [Arrivals.advance] at taken
      split at taken
      case h_2 => exact nomatch taken
      case h_1 next rest before =>
        rw [before] at placed schedule
        split at taken
        case isFalse => exact nomatch taken
        case isTrue guard =>
          obtain ⟨rfl, rfl⟩ := guard
          obtain rfl := Option.some.inj taken
          refine arriving.ownStep rfl rfl placed ?_ fun done => ?_
          · rw [← arriving.time member placed, List.append_assoc]
            exact schedule
          · exact absurd done (arriving.not_done before ⟨nofun, nofun⟩)
  | finish =>
      rw [Arrivals.advance] at taken
      split at taken
      case h_2 => exact nomatch taken
      case h_1 before =>
        rw [before] at placed schedule
        obtain rfl := Option.some.inj taken
        exact arriving.silentStep rfl rfl rfl placed schedule fun _ => .inl rfl

end Arriving

namespace Arrivals

variable [DecidableEq α] {devList : List ι} {device : ι} {processes : List (α × Nat)}
  {history : List (ArrivalStep ι α)} {s : Arrivals ι α}

omit [DecidableEq α] in
/-- Before the first step nothing was added and the whole schedule is left. -/
theorem start_arriving (devList : List ι) (device : ι) (processes : List (α × Nat)) :
    Arriving devList device processes [] (start devList processes) where
  barrier := TimerState.startTimer_barrier devList
  placed := ⟨rfl, rfl⟩
  schedule := rfl
  finished := nofun

/-- **The loader keeps to its schedule** in every run: what it has added, with what is left to it,
is the schedule of all processes. -/
theorem run_arriving (nodup : devList.Nodup) (member : device ∈ devList)
    (run : Run (Step devList device) (start devList processes) history s) :
    Arriving devList device processes history s :=
  run.history_invariant (Arriving devList device processes)
    (fun _ _ _ _ arriving taken => arriving.step nodup member taken)
    (start_arriving devList device processes)

/-- The loader waits for nobody but in `next_slot`: from every other place it has a step. -/
theorem loader_moves (nodup : devList.Nodup) (member : device ∈ devList)
    (run : Run (Step devList device) (start devList processes) history s)
    (awake : ∀ rest, s.loader ≠ .waiting rest) (attached : s.loader ≠ .detached) :
    ∃ label t, Step devList device s label t ∧ t.loader ≠ s.loader := by
  have placed := (run_arriving nodup member run).placed
  cases place : s.loader with
  | test rest =>
      cases rest with
      | nil =>
          exact ⟨.finish, { s with loader := .loaded, done := true },
            by rw [Step, advance, place], nofun⟩
      | cons process rest =>
          by_cases early : s.timer.currentTime < process.2
          · exact ⟨.test, { s with loader := .leave (process :: rest) },
              by rw [Step, advance, place]; exact if_pos early, nofun⟩
          · exact ⟨.test, { s with loader := .ready process.1 rest },
              by rw [Step, advance, place]; exact if_neg early, nofun⟩
  | ready proc rest =>
      exact ⟨.add proc s.timer.currentTime, { s with loader := .leave rest },
        by rw [Step, advance, place]; exact if_pos ⟨rfl, rfl⟩, nofun⟩
  | leave rest =>
      rw [place] at placed
      obtain ⟨timer, call⟩ : ∃ timer, s.timer.advance devList (.setDone device) = some timer :=
        ⟨_, if_pos ⟨member, placed.1, placed.2⟩⟩
      refine ⟨.timer (.setDone device), { s with timer := timer, loader := .waiting rest }, ?_,
        nofun⟩
      rw [Step, advance, call, place]
      simp only [Loader.follow, ↓reduceIte]
  | waiting rest => exact absurd place (awake rest)
  | loaded =>
      rw [place] at placed
      obtain ⟨timer, gone⟩ : ∃ timer, s.timer.advance devList (.detach device) = some timer :=
        ⟨_, if_pos ⟨member, placed.1, placed.2⟩⟩
      refine ⟨.timer (.detach device), { s with timer := timer, loader := .detached }, ?_, nofun⟩
      rw [Step, advance, gone, place]
      simp only [Loader.follow, ↓reduceIte, reduceCtorEq]
  | detached => exact absurd place attached

/-- **Processes arrive on schedule.** In every run the loader has added the first ones of the
processes, each in its slot: all whose slot it has waited for, and all of them when it is done. -/
theorem arrivals_on_schedule (nodup : devList.Nodup) (member : device ∈ devList)
    (run : Run (Step devList device) (start devList processes) history s) :
    added history <+: arrivals 0 processes ∧
      (∀ arrival ∈ arrivals 0 processes, arrival.2 < slotsOf device history →
        arrival ∈ added history) ∧
      (s.done = true → added history = arrivals 0 processes) ∧
      List.Forall₂ (fun process arrival => arrival.1 = process.1 ∧ process.2 ≤ arrival.2) processes
        (arrivals 0 processes) ∧
      (added history).Pairwise fun earlier later => earlier.2 < later.2 := by
  have arriving := run_arriving nodup member run
  have started : added history <+: arrivals 0 processes := ⟨_, arriving.schedule⟩
  refine ⟨started, fun arrival scheduled past => ?_, fun done => ?_, arrivals_forall₂ 0 processes,
    (arrivals_pairwise 0 processes).sublist started.sublist⟩
  · rw [← arriving.schedule] at scheduled
    rcases List.mem_append.mp scheduled with before | left
    · exact before
    · exact absurd (le_of_mem_remaining left) (Nat.not_le_of_lt past)
  · have schedule := arriving.schedule
    rcases arriving.finished done with loaded | detached
    · rwa [loaded, Loader.remaining, List.append_nil] at schedule
    · rwa [detached, Loader.remaining, List.append_nil] at schedule

/-- Two processes whose start times decrease: the second one arrives in the slot after the first. -/
def twoArrivals : List (ArrivalStep (Fin 1) Bool) :=
  [.test, .timer (.setDone 0), .timer (.check 0), .timer .tick, .timer (.reset 0),
    .timer (.returned 0), .timer .loop, .test, .add false 1, .timer (.setDone 0),
    .timer (.check 0), .timer .tick, .timer (.reset 0), .timer (.returned 0), .test, .add true 2,
    .timer (.setDone 0), .timer .loop, .timer (.check 0), .timer .tick, .timer (.reset 0),
    .timer (.returned 0), .finish, .timer (.detach 0)]

/-- A process whose start time is earlier than the one in front of it arrives in the slot behind
that one. -/
theorem arrivals_on_schedule_decreasing :
    added twoArrivals = arrivals 0 [(false, 1), (true, 0)] := by
  have run := Run.of_follow (advance [(0 : Fin 1)] 0) (start [0] [(false, 1), (true, 0)])
    twoArrivals (by decide)
  exact (arrivals_on_schedule (by decide) (by decide) run).2.2.1 (by decide)

end Arrivals

end PagedOs
