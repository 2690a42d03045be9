import PagedOs.Timer.Monitors

/-! # The threads are a lock-step barrier

What the threads do with the flags, the clock and the position of `timer_routine` is a run of the
barrier, in every interleaving of their statements.
-/

namespace PagedOs

open Transition

namespace Threads

variable {ι : Type*} [DecidableEq ι] {devList : List ι} {s t : Threads ι}
  {label : Option (TimerStep ι)} {turn : Turn ι}

/-! ## The barrier behind the threads -/

/-- A device is in `next_slot` from the moment on that its flag is set, and until it has seen that
the flag is cleared. -/
def inside : DevicePc → Bool
  | .slot .signal | .slot .unlock => true
  | .wait .unlock => false
  | .wait _ => true
  | _ => false

/-- It has been detached when the flag `fsh` is set. -/
def gone : DevicePc → Bool
  | .detach .signal | .detach .unlock | .detached => true
  | _ => false

/-- A device is behind the timer once it has been counted, or once its flag is cleared. -/
def routine : TimerPc ι → Routine ι
  | .scan rest fsh event .unlock => .scan rest.tail fsh event
  | .scan rest fsh event _ => .scan rest fsh event
  | .count device rest fsh event => .scan (device :: rest) fsh event
  | .release rest fsh event .signal | .release rest fsh event .unlock =>
      .release rest.tail fsh event
  | .release rest fsh event _ => .release rest fsh event
  | .stopTest fsh event => .release [] fsh event
  | .exited => .exited

/-- The state of the barrier that the threads are in, their places and locks forgotten. -/
def barrier (s : Threads ι) : TimerState ι where
  time := s.time
  done := s.done
  fsh := s.fsh
  inside := fun device => inside (s.device device)
  routine := routine s.timer
  timerStop := s.timerStop

/-- What the threads know from the tests they have made. -/
structure Consistent (devList : List ι) (s : Threads ι) : Prop where
  attached : ∀ device, s.device device ≠ .outside → device ∈ devList
  fsh : ∀ device, s.fsh device = gone (s.device device)
  counted : ∀ device rest fsh event, s.timer = .count device rest fsh event →
    s.done device = true ∨ s.fsh device = true
  some_left : ∀ fsh event, s.timer = .stopTest fsh event → fsh ≠ event

/-- What the barrier sees of a step. -/
def Seen (devList : List ι) (s t : Threads ι) : Option (TimerStep ι) → Prop
  | none => t.barrier = s.barrier
  | some step => TimerState.Step devList s.barrier step t.barrier

omit [DecidableEq ι] in
/-- The threads are consistent when they are created: no device is in a function of the timer. -/
theorem start_consistent (devList : List ι) : Consistent devList (start devList) where
  attached := fun _ moved => absurd rfl moved
  fsh := fun _ => rfl
  counted := nofun
  some_left := nofun

/-- A device that moves shows in the barrier by whether it is inside `next_slot`. -/
theorem barrier_setDevice (device : ι) (pc : DevicePc) :
    (s.setDevice device pc).barrier =
      { s.barrier with inside := Function.update s.barrier.inside device (inside pc) } := by
  simp only [barrier, setDevice, TimerState.mk.injEq, true_and, and_true]
  funext other
  by_cases same : other = device
  · rw [same, Function.update_self, Function.update_self]
  · rw [Function.update_of_ne same, Function.update_of_ne same]

/-- A device goes on within the same part of `next_slot`. -/
theorem barrier_setDevice_same {device : ι} {pc : DevicePc}
    (same : inside pc = inside (s.device device)) :
    (s.setDevice device pc).barrier = s.barrier := by
  rw [barrier_setDevice, same]
  exact congrArg (fun flags => { s.barrier with inside := flags })
    (Function.update_eq_self device s.barrier.inside)

/-- A signal wakes the timer and does not move it to another statement of the coarse routine. -/
theorem routine_signalEvent (device : ι) (pc : TimerPc ι) :
    routine (signalEvent device pc) = routine pc := by
  unfold signalEvent
  split
  · rename_i next rest fsh event
    by_cases same : next = device
    · rw [if_pos same]
      rfl
    · rw [if_neg same]
  · rfl

/-- A signal wakes a device and changes nothing that the barrier sees of it. -/
theorem signalTimer_flags (pc : DevicePc) :
    inside (signalTimer pc) = inside pc ∧ gone (signalTimer pc) = gone pc ∧
      (signalTimer pc = .outside ↔ pc = .outside) := by
  cases pc with
  | wait pc => cases pc <;> exact ⟨rfl, rfl, by simp [signalTimer]⟩
  | _ => exact ⟨rfl, rfl, by simp [signalTimer]⟩

/-- A signal does not bring the timer to count a device. -/
theorem signalEvent_count {device current : ι} {pc : TimerPc ι} {rest : List ι} {fsh event : Nat}
    (counts : signalEvent device pc = .count current rest fsh event) :
    pc = .count current rest fsh event := by
  unfold signalEvent at counts
  split at counts
  · cases counts
  · exact counts

/-- The timer tests `timer_stop` after a signal only if it did so before. -/
theorem signalEvent_stopTest {device : ι} {pc : TimerPc ι} {fsh event : Nat}
    (tests : signalEvent device pc = .stopTest fsh event) : pc = .stopTest fsh event := by
  unfold signalEvent at tests
  split at tests
  · cases tests
  · exact tests

theorem Consistent.setDevice (known : Consistent devList s) {device : ι} {pc : DevicePc}
    (attached : pc ≠ .outside → device ∈ devList) (same : gone pc = gone (s.device device)) :
    Consistent devList (s.setDevice device pc) where
  attached := by
    intro other moved
    by_cases hit : other = device
    · subst hit
      exact attached (by simpa [Threads.setDevice] using moved)
    · refine known.attached other ?_
      simpa [Threads.setDevice, hit] using moved
  fsh := by
    intro other
    by_cases hit : other = device
    · subst hit
      simpa [Threads.setDevice, same] using known.fsh other
    · simpa [Threads.setDevice, hit] using known.fsh other
  counted := known.counted
  some_left := known.some_left

omit [DecidableEq ι] in
/-- What the threads know does not depend on the mutexes. -/
theorem Consistent.locks (known : Consistent devList s) (eventLock timerLock : ι → Option Holder) :
    Consistent devList { s with eventLock := eventLock, timerLock := timerLock } :=
  ⟨known.attached, known.fsh, known.counted, known.some_left⟩

omit [DecidableEq ι] in
/-- Nor on where the timer is, up to what it has tested. -/
theorem Consistent.setTimer (known : Consistent devList s) {pc : TimerPc ι}
    (counted : ∀ device rest fsh event, pc = .count device rest fsh event →
      s.done device = true ∨ s.fsh device = true)
    (some_left : ∀ fsh event, pc = .stopTest fsh event → fsh ≠ event) :
    Consistent devList (s.setTimer pc) :=
  ⟨known.attached, known.fsh, counted, some_left⟩

/-- A flag that is set takes nothing back. -/
theorem Consistent.setDone (known : Consistent devList s) (device : ι) :
    Consistent devList (s.setDone device true) where
  attached := known.attached
  fsh := known.fsh
  counted := by
    intro current rest fsh event counts
    by_cases same : current = device
    · exact .inl (by simp [Threads.setDone, same])
    · simpa [Threads.setDone, same] using known.counted current rest fsh event counts
  some_left := known.some_left

theorem Consistent.setFsh (known : Consistent devList s) {device : ι} (member : device ∈ devList) :
    Consistent devList ((s.setFsh device).setDevice device (.detach .signal)) where
  attached := by
    intro other moved
    by_cases same : other = device
    · exact same ▸ member
    · refine known.attached other ?_
      simpa [Threads.setDevice, Threads.setFsh, same] using moved
  fsh := by
    intro other
    by_cases same : other = device
    · simp [Threads.setDevice, Threads.setFsh, same, gone]
    · simpa [Threads.setDevice, Threads.setFsh, same] using known.fsh other
  counted := by
    intro current rest fsh event counts
    by_cases same : current = device
    · exact .inr (by simp [Threads.setDevice, Threads.setFsh, same])
    · simpa [Threads.setDevice, Threads.setFsh, same] using
        known.counted current rest fsh event counts
  some_left := known.some_left

/-- The statements of a device are steps of the barrier, or it cannot see them. -/
theorem DeviceMove.refines {device : ι} (moved : DeviceMove s device label t)
    (known : Consistent devList s) :
    Consistent devList t ∧ Seen devList s t label := by
  have attached (moving : s.device device ≠ .outside) : device ∈ devList :=
    known.attached device moving
  cases moved with
  | @lockEvent here kind at_lock free =>
      have moving : s.device device ≠ .outside := by
        rcases kind with rfl | rfl <;> simp [at_lock]
      have flags : gone (here .set) = gone (s.device device) ∧
          inside (here .set) = inside (s.device device) := by
        rw [at_lock]
        rcases kind with rfl | rfl <;> exact ⟨rfl, rfl⟩
      exact ⟨(known.locks _ _).setDevice (fun _ => attached moving) flags.1,
        barrier_setDevice_same (s := s.setEventLock device _) flags.2⟩
  | setDone at_set =>
      have member := attached (by simp [at_set])
      have notGone : s.fsh device = false := by rw [known.fsh, at_set]; rfl
      have outside : s.barrier.inside device = false := by simp [barrier, at_set, inside]
      refine ⟨(known.setDone device).setDevice (fun _ => member)
        (by simp [Threads.setDone, at_set, gone]), ?_⟩
      show TimerState.advance _ _ _ = _
      rw [TimerState.advance, if_pos ⟨member, outside, notGone⟩, barrier_setDevice]
      rfl
  | setFsh at_set =>
      have member := attached (by simp [at_set])
      have notGone : s.fsh device = false := by rw [known.fsh, at_set]; rfl
      have outside : s.barrier.inside device = false := by simp [barrier, at_set, inside]
      refine ⟨known.setFsh member, ?_⟩
      have stays : Function.update s.barrier.inside device false = s.barrier.inside := by
        rw [← outside, Function.update_eq_self]
      show TimerState.advance _ _ _ = _
      rw [TimerState.advance, if_pos ⟨member, outside, notGone⟩, barrier_setDevice]
      simp only [inside, Threads.setFsh, barrier] at stays ⊢
      rw [stays]
  | @signal here kind at_signal =>
      have moving : s.device device ≠ .outside := by
        rcases kind with rfl | rfl <;> simp [at_signal]
      have flags : gone (here .unlock) = gone (s.device device) ∧
          inside (here .unlock) = inside (s.device device) := by
        rw [at_signal]
        rcases kind with rfl | rfl <;> exact ⟨rfl, rfl⟩
      have kept : Consistent devList (s.setTimer (signalEvent device s.timer)) :=
        known.setTimer (fun current rest fsh event counts =>
          known.counted current rest fsh event (signalEvent_count counts))
          (fun fsh event tests => known.some_left fsh event (signalEvent_stopTest tests))
      refine ⟨kept.setDevice (fun _ => attached moving) flags.1, ?_⟩
      show (((s.setTimer (signalEvent device s.timer))).setDevice device (here .unlock)).barrier =
        s.barrier
      rw [barrier_setDevice_same (s := s.setTimer (signalEvent device s.timer)) flags.2]
      simp [barrier, Threads.setTimer, routine_signalEvent]
  | unlockSlot at_unlock =>
      exact ⟨(known.locks _ _).setDevice (fun _ => attached (by simp [at_unlock]))
          (by simp [at_unlock, gone]),
        barrier_setDevice_same (s := s.setEventLock device none)
          (by simp [setEventLock, at_unlock, inside])⟩
  | unlockDetach at_unlock =>
      exact ⟨(known.locks _ _).setDevice (fun _ => attached (by simp [at_unlock]))
          (by simp [at_unlock, gone]),
        barrier_setDevice_same (s := s.setEventLock device none)
          (by simp [setEventLock, at_unlock, inside])⟩
  | lockTimer ready free =>
      have waits : ∃ pc, s.device device = .wait pc ∧ inside (.wait pc) = true := by
        rcases ready with here | here
        · exact ⟨_, here, rfl⟩
        · exact ⟨_, here, rfl⟩
      obtain ⟨pc, here, within⟩ := waits
      have same : inside (.wait .test) = inside (s.device device) := by rw [here, within]; rfl
      exact ⟨(known.locks _ _).setDevice (fun _ => attached (by simp [here]))
          (by simp [here, gone]),
        barrier_setDevice_same (s := s.setTimerLock device _) same⟩
  | sleep tests done =>
      exact ⟨(known.locks _ _).setDevice (fun _ => attached (by simp [tests]))
          (by simp [tests, gone]),
        barrier_setDevice_same (s := s.setTimerLock device none)
          (by simp [setTimerLock, tests, inside])⟩
  | pass tests cleared =>
      have within : s.barrier.inside device = true := by simp [barrier, tests, inside]
      refine ⟨known.setDevice (fun _ => attached (by simp [tests])) (by simp [tests, gone]), ?_⟩
      show TimerState.advance _ _ _ = _
      rw [TimerState.advance, if_pos ⟨within, cleared⟩, barrier_setDevice]
      rfl
  | unlockTimer at_unlock =>
      have member := attached (by simp [at_unlock])
      exact ⟨(known.locks _ _).setDevice (fun _ => member) (by simp [at_unlock, gone]),
        barrier_setDevice_same (s := s.setTimerLock device none)
          (by simp [setTimerLock, at_unlock, inside])⟩

theorem TimerMove.refines (moved : TimerMove devList s label t) (known : Consistent devList s) :
    Consistent devList t ∧ Seen devList s t label := by
  -- where the timer has neither tested for a count nor for the end
  have plain (pc : TimerPc ι) (noCount : ∀ device rest fsh event, pc ≠ .count device rest fsh event)
      (noTest : ∀ fsh event, pc ≠ .stopTest fsh event) : Consistent devList (s.setTimer pc) :=
    known.setTimer (fun _ _ _ _ counts => absurd counts (noCount _ _ _ _))
      (fun _ _ tests => absurd tests (noTest _ _))
  have routine_eq (pc : TimerPc ι) (here : s.timer = pc) : s.barrier.routine = routine pc :=
    congrArg routine here
  cases moved with
  | @tick fsh event pc scanned =>
      refine ⟨⟨known.attached, known.fsh, by simp [Threads.setTimer],
        by simp [Threads.setTimer]⟩, ?_⟩
      show TimerState.advance _ _ _ = _
      rw [TimerState.advance, routine_eq _ scanned]
      cases pc <;> rfl
  | lockEvent scans ready free =>
      refine ⟨(plain _ (by simp) (by simp)).locks _ _, ?_⟩
      rcases ready with rfl | rfl <;>
        simp [Seen, barrier, Threads.setTimer, setEventLock, scans, routine]
  | pass tests flagged =>
      refine ⟨known.setTimer ?_ (by simp),
        by simp [Seen, barrier, Threads.setTimer, tests, routine]⟩
      intro current rest fsh event counts
      cases counts
      exact flagged
  | sleep tests =>
      exact ⟨(plain _ (by simp) (by simp)).locks _ _, by
        simp [Seen, barrier, Threads.setTimer, setEventLock, tests, routine]⟩
  | count counts =>
      refine ⟨plain _ (by simp) (by simp), ?_⟩
      have flagged := known.counted _ _ _ _ counts
      show TimerState.advance _ _ _ = _
      rw [TimerState.advance, routine_eq _ counts]
      simp only [routine, barrier, flagged, and_self, if_true]
      rfl
  | unlockEvent unlocks =>
      exact ⟨(plain _ (by simp) (by simp)).locks _ _, by
        simp [Seen, barrier, Threads.setTimer, setEventLock, unlocks, routine]⟩
  | @leave fsh event pc released all =>
      refine ⟨plain _ (by simp) (by simp), ?_⟩
      have ended : s.barrier.routine = .release [] fsh event := by
        rw [routine_eq _ released]
        cases pc <;> rfl
      show TimerState.advance _ _ _ = _
      rw [TimerState.advance, ended]
      simp only [if_pos all]
      rfl
  | @stay fsh event pc released some_left =>
      refine ⟨known.setTimer (by simp) ?_, ?_⟩
      · intro fsh' event' tests
        cases tests
        exact some_left
      · cases pc <;> simp [Seen, barrier, Threads.setTimer, released, routine]
  | lockTimer at_lock =>
      exact ⟨(plain _ (by simp) (by simp)).locks _ _, by
        simp [Seen, barrier, Threads.setTimer, setTimerLock, at_lock, routine]⟩
  | @reset device rest fsh event at_set =>
      refine ⟨⟨known.attached, known.fsh, by simp [Threads.setTimer],
        by simp [Threads.setTimer]⟩, ?_⟩
      show TimerState.advance _ _ _ = _
      rw [TimerState.advance, routine_eq _ at_set]
      simp only [routine, if_true]
      rfl
  | @signal device rest fsh event at_signal =>
      obtain ⟨within, detached, elsewhere⟩ := signalTimer_flags (s.device device)
      have kept : Consistent devList (s.setDevice device (signalTimer (s.device device))) :=
        known.setDevice (fun moving => known.attached device (moving ∘ elsewhere.mpr)) detached
      refine ⟨kept.setTimer (by simp) (by simp), ?_⟩
      have same := barrier_setDevice_same (s := s) within
      show { (s.setDevice device (signalTimer (s.device device))).barrier with
        routine := routine (.release (device :: rest) fsh event .unlock) } = s.barrier
      rw [same]
      simp [barrier, at_signal, routine]
  | unlockTimer at_unlock =>
      exact ⟨(plain _ (by simp) (by simp)).locks _ _, by
        simp [Seen, barrier, Threads.setTimer, setTimerLock, at_unlock, routine]⟩
  | @stopTest fsh event tests =>
      have different := known.some_left fsh event tests
      refine ⟨known.setTimer ?_ ?_, ?_⟩
      · intro current rest fsh event counts
        split at counts <;> cases counts
      · intro fsh event tests
        split at tests <;> cases tests
      · show TimerState.advance _ _ _ = _
        rw [TimerState.advance, routine_eq _ tests]
        cases stopped : s.timerStop <;>
          simp [stopped, routine, different, barrier, Threads.setTimer]

/-- **One statement** of a thread is a step of the barrier or is not seen there at all, and it
keeps the threads consistent. -/
theorem Move.refines (moved : Move devList s turn label t) (known : Consistent devList s) :
    Consistent devList t ∧ Seen devList s t label := by
  cases moved with
  | @call turn caller pc kind attached outside =>
      have flags : gone pc = gone (s.device caller) ∧ inside pc = inside (s.device caller) := by
        rw [outside]
        rcases kind with ⟨-, rfl⟩ | ⟨-, rfl⟩ <;> exact ⟨rfl, rfl⟩
      exact ⟨known.setDevice (fun _ => attached) flags.1, barrier_setDevice_same flags.2⟩
  | device moved => exact moved.refines known
  | timer moved => exact moved.refines known
  | @wakeDevice sleeper asleep =>
      have member := known.attached sleeper (by simp [asleep])
      exact ⟨known.setDevice (fun _ => member) (by simp [asleep, gone]),
        barrier_setDevice_same (by simp [asleep, inside])⟩
  | wakeTimer asleep =>
      exact ⟨known.setTimer (by simp) (by simp), by
        simp [Seen, barrier, Threads.setTimer, asleep, routine]⟩
  | stop => exact ⟨⟨known.attached, known.fsh, known.counted, known.some_left⟩, rfl⟩

/-- The simulation over a whole run, from the step lemma. -/
theorem run_refines {labels : List (Turn ι × Option (TimerStep ι))}
    (run : Run (Step devList) (start devList) labels s) :
    Consistent devList s ∧
      Run (TimerState.Step devList) (TimerState.startTimer devList) (labels.filterMap Prod.snd)
        s.barrier := by
  have simulated : ∃ reached,
      Run (TimerState.Step devList) (TimerState.startTimer devList) (labels.filterMap Prod.snd)
        reached ∧ Consistent devList s ∧ s.barrier = reached := by
    refine run.simulate
      (fun threads mirror => Consistent devList threads ∧ threads.barrier = mirror) Prod.snd ?_
      ⟨start_consistent devList, rfl⟩
    rintro before ⟨turn, label⟩ after mirror ⟨known, rfl⟩ taken
    obtain ⟨still, seen⟩ := taken.move.refines known
    cases label with
    | none => exact ⟨still, seen⟩
    | some step => exact ⟨_, seen, still, rfl⟩
  obtain ⟨reached, coarse, known, rfl⟩ := simulated
  exact ⟨known, coarse⟩

/-- **The threads are a lock-step barrier.** In every interleaving of their statements, with any
wake-ups, the flags, the clock and the position of `timer_routine` go through a run of the barrier,
and the timer and a device never hold a mutex of the device together: the timer does not count a
device that is about to set a flag, and no device tests `done` when the timer clears it. -/
theorem threads_refine_barrier {labels : List (Turn ι × Option (TimerStep ι))}
    (run : Run (Step devList) (start devList) labels s) :
    Run (TimerState.Step devList) (TimerState.startTimer devList) (labels.filterMap Prod.snd)
      s.barrier ∧
    ∀ device,
      ((eventWaiter device s.timer = .test ∨ eventWaiter device s.timer = .inside) →
        ¬ ((s.device device).setter = .set ∨ (s.device device).setter = .signal ∨
          (s.device device).setter = .unlock)) ∧
      (((s.device device).waiter = .test ∨ (s.device device).waiter = .inside) →
        ¬ (timerSetter device s.timer = .set ∨ timerSetter device s.timer = .signal ∨
          timerSetter device s.timer = .unlock)) :=
  ⟨(run_refines run).2, fun device =>
    ⟨(run_sound run device).1.exclusive, (run_sound run device).2.exclusive⟩⟩

/-! ## Runs of two devices -/

/-- Some turns one after the other, with the steps of the barrier that they make. -/
def play (devList : List ι) : Threads ι → List (Turn ι) →
    Option (List (Turn ι × Option (TimerStep ι)) × Threads ι)
  | s, [] => some ([], s)
  | s, turn :: rest =>
      (s.next devList turn).bind fun (label, after) =>
        (after.play devList rest).map fun (labels, last) => ((turn, label) :: labels, last)

/-- Turns that can be taken one after the other are a run of the threads. -/
theorem run_play {turns : List (Turn ι)} {labels : List (Turn ι × Option (TimerStep ι))}
    (played : s.play devList turns = some (labels, t)) : Run (Step devList) s labels t := by
  induction turns generalizing s labels with
  | nil =>
      obtain ⟨rfl, rfl⟩ := Prod.mk.inj (Option.some_inj.mp played)
      exact .nil s
  | cons turn rest ih =>
      obtain ⟨⟨label, after⟩, first, others⟩ := Option.bind_eq_some_iff.mp played
      obtain ⟨⟨later, last⟩, followed, same⟩ := Option.map_eq_some_iff.mp others
      obtain ⟨rfl, rfl⟩ := Prod.mk.inj same
      exact .cons first (ih followed)

/-- The same, where only the fact that they can be taken is known. -/
theorem run_play_get {turns : List (Turn ι)} (enabled : (s.play devList turns).isSome) :
    Run (Step devList) s ((s.play devList turns).get enabled).1
      ((s.play devList turns).get enabled).2 :=
  run_play (Option.some_get _).symm

/-- The first of two devices. -/
abbrev here : Fin 2 := ⟨0, Nat.two_pos⟩

/-- The second of two devices. -/
abbrev there : Fin 2 := ⟨1, Nat.one_lt_two⟩

/-- The timer has gone to sleep for the first device, and then both set `done`. -/
def fallAsleep : List (Turn (Fin 2)) :=
  [.timer, .timer, .nextSlot here, .nextSlot there, .device there, .device there, .device here,
    .device here]

/-- What happens in these turns, and the state behind them. -/
def asleep : List (Turn (Fin 2) × Option (TimerStep (Fin 2))) × Threads (Fin 2) :=
  ((start [here, there]).play [here, there] fallAsleep).get (by decide +kernel)

/-- The turns up to the signal of the first device are a run. -/
theorem run_asleep : Run (Step [here, there]) (start [here, there]) asleep.1 asleep.2 :=
  run_play_get _

/-- The timer is not in the critical section of the device that is about to signal. -/
theorem threads_refine_barrier_asleep :
    Run (TimerState.Step [here, there]) (TimerState.startTimer [here, there])
        [.setDone there, .setDone here] asleep.2.barrier ∧
      asleep.2.timer = .scan [here, there] 0 0 .sleep ∧
        (asleep.2.device here).setter = .signal ∧
          ¬ (eventWaiter here asleep.2.timer = .test ∨
            eventWaiter here asleep.2.timer = .inside) := by
  obtain ⟨coarse, exclusive⟩ := threads_refine_barrier run_asleep
  have seen : asleep.1.filterMap Prod.snd = [.setDone there, .setDone here] := by decide +kernel
  have signals : (asleep.2.device here).setter = .signal := rfl
  rw [seen] at coarse
  exact ⟨coarse, rfl, signals, fun within =>
    (exclusive here).1 within (.inr (.inl signals))⟩

end Threads

end PagedOs
