import PagedOs.Timer.Barrier

/-! # The threads of the timer

`timer_routine`, `next_slot` and `detach_event` of `timer.c`, one call of the pthread library and
one access to a flag at a time. Each device has two mutexes with a condition variable each. A
thread that waits on a variable gives up its mutex and sleeps in one step; it is woken by a signal,
or for no reason.

Each variable is a monitor: the timer waits for a device on `event_cond`, the device waits for the
timer on `timer_cond`. The statements under the mutexes are the atomic steps of the barrier.
-/

namespace PagedOs

open Transition

/-- Who holds a mutex of a device. -/
inductive Holder where
  | device
  | timer
deriving DecidableEq

/-- Where a thread is that sets a flag under a mutex and signals. -/
inductive NotifyPc where
  | lock
  | set
  | signal
  | unlock
deriving DecidableEq

/-- Where a thread is that waits for a flag under a mutex. -/
inductive AwaitPc where
  | lock
  | test
  | sleep
  | woken
  | unlock
deriving DecidableEq

/-- Where the thread of a device is: outside of `timer.c`, in the first or the second half of
`next_slot`, or in `detach_event`. -/
inductive DevicePc where
  | outside
  | slot (pc : NotifyPc)
  | wait (pc : AwaitPc)
  | detach (pc : NotifyPc)
  | detached
deriving DecidableEq

/-- Where `timer_routine` is, with the devices from the current one on and the counters `fsh` and
`event`: in its first loop, before the counters are increased there, or in its second loop. Behind
the last device the first loop is followed by `_time++`, and the second one by the comparison of
the counters and the test of `timer_stop`. -/
inductive TimerPc (ι : Type*) where
  | scan (rest : List ι) (fsh event : Nat) (pc : AwaitPc)
  | count (device : ι) (rest : List ι) (fsh event : Nat)
  | release (rest : List ι) (fsh event : Nat) (pc : NotifyPc)
  | stopTest (fsh event : Nat)
  | exited

/-- The static state of `timer.c`, the mutexes of the devices and the threads. -/
structure Threads (ι : Type*) where
  time : Nat
  done : ι → Bool
  fsh : ι → Bool
  timerStop : Bool
  eventLock : ι → Option Holder
  timerLock : ι → Option Holder
  device : ι → DevicePc
  timer : TimerPc ι

/-- What happens next: a device calls `next_slot` or `detach_event`, its thread or the timer does
its next statement, one of them wakes for no reason, or `stop_timer` sets `timer_stop`. -/
inductive Turn (ι : Type*) where
  | nextSlot (device : ι)
  | detachEvent (device : ι)
  | device (device : ι)
  | timer
  | wakeDevice (device : ι)
  | wakeTimer
  | stopTimer
deriving DecidableEq

variable {ι : Type*}

namespace Threads

/-- Behind the first test of `timer_stop`, every device attached. -/
def start (devList : List ι) : Threads ι where
  time := 0
  done := fun _ => false
  fsh := fun _ => false
  timerStop := false
  eventLock := fun _ => none
  timerLock := fun _ => none
  device := fun _ => .outside
  timer := .scan devList 0 0 .lock

/-- The timer goes on to its next statement. -/
def setTimer (s : Threads ι) (pc : TimerPc ι) : Threads ι := { s with timer := pc }

variable [DecidableEq ι]

/-- The thread of a device goes on. -/
def setDevice (s : Threads ι) (device : ι) (pc : DevicePc) : Threads ι :=
  { s with device := Function.update s.device device pc }

/-- `pthread_mutex_lock` and `pthread_mutex_unlock` on `event_lock`, by who holds it then -/
def setEventLock (s : Threads ι) (device : ι) (holder : Option Holder) : Threads ι :=
  { s with eventLock := Function.update s.eventLock device holder }

/-- `pthread_mutex_lock` and `pthread_mutex_unlock` on `timer_lock`, by who holds it then -/
def setTimerLock (s : Threads ι) (device : ι) (holder : Option Holder) : Threads ι :=
  { s with timerLock := Function.update s.timerLock device holder }

/-- The field `done` of a device gets a value. -/
def setDone (s : Threads ι) (device : ι) (value : Bool) : Threads ι :=
  { s with done := Function.update s.done device value }

/-- The field `fsh` of a device is set, when it detaches. -/
def setFsh (s : Threads ι) (device : ι) : Threads ι :=
  { s with fsh := Function.update s.fsh device true }

/-- `pthread_cond_signal` on `event_cond`, where the timer may be waiting -/
def signalEvent (device : ι) : TimerPc ι → TimerPc ι
  | .scan (next :: rest) fsh event .sleep =>
      .scan (next :: rest) fsh event (if next = device then .woken else .sleep)
  | pc => pc

/-- `pthread_cond_signal` on `timer_cond`, where the device may be waiting -/
def signalTimer : DevicePc → DevicePc
  | .wait .sleep => .wait .woken
  | pc => pc

/-- A device sets a flag under `event_lock`, and signals that it did. -/
def notify (s : Threads ι) (device : ι) (here : NotifyPc → DevicePc) (after : DevicePc)
    (step : TimerStep ι) (flagged : Threads ι) :
    NotifyPc → Option (Option (TimerStep ι) × Threads ι)
  | .lock =>
      if s.eventLock device = none then
        some (none, (s.setEventLock device (some .device)).setDevice device (here .set))
      else none
  | .set => some (some step, flagged.setDevice device (here .signal))
  | .signal =>
      some (none, (s.setTimer (signalEvent device s.timer)).setDevice device (here .unlock))
  | .unlock => some (none, (s.setEventLock device none).setDevice device after)

/-- The next statement of a device, with the step of the barrier that it is. -/
def deviceStep (s : Threads ι) (device : ι) : Option (Option (TimerStep ι) × Threads ι) :=
  match s.device device with
  | .outside => none
  | .slot pc =>
      s.notify device .slot (.wait .lock) (.setDone device) (s.setDone device true) pc
  | .wait pc =>
      match pc with
      | .lock | .woken =>
          if s.timerLock device = none then
            some (none, (s.setTimerLock device (some .device)).setDevice device (.wait .test))
          else none
      | .test =>
          if s.done device then
            some (none, (s.setTimerLock device none).setDevice device (.wait .sleep))
          else some (some (.returned device), s.setDevice device (.wait .unlock))
      | .sleep => none
      | .unlock => some (none, (s.setTimerLock device none).setDevice device .outside)
  | .detach pc => s.notify device .detach .detached (.detach device) (s.setFsh device) pc
  | .detached => none

/-- The next statement of `timer_routine`, with the step of the barrier that it is. -/
def timerStep (devList : List ι) (s : Threads ι) : Option (Option (TimerStep ι) × Threads ι) :=
  match s.timer with
  | .scan [] fsh event _ =>
      some (some .tick, { s with time := s.time + 1 }.setTimer (.release devList fsh event .lock))
  | .scan (device :: rest) fsh event pc =>
      match pc with
      | .lock | .woken =>
          if s.eventLock device = none then
            some (none, (s.setEventLock device (some .timer)).setTimer
              (.scan (device :: rest) fsh event .test))
          else none
      | .test =>
          if s.done device || s.fsh device then
            some (none, s.setTimer (.count device rest fsh event))
          else
            some (none, (s.setEventLock device none).setTimer
              (.scan (device :: rest) fsh event .sleep))
      | .sleep => none
      | .unlock => some (none, (s.setEventLock device none).setTimer (.scan rest fsh event .lock))
  | .count device rest fsh event =>
      some (some (.check device), s.setTimer
        (.scan (device :: rest) (if s.fsh device then fsh + 1 else fsh) (event + 1) .unlock))
  | .release [] fsh event _ =>
      if fsh = event then some (some .loop, s.setTimer .exited)
      else some (none, s.setTimer (.stopTest fsh event))
  | .release (device :: rest) fsh event pc =>
      match pc with
      | .lock =>
          if s.timerLock device = none then
            some (none, (s.setTimerLock device (some .timer)).setTimer
              (.release (device :: rest) fsh event .set))
          else none
      | .set =>
          some (some (.reset device),
            (s.setDone device false).setTimer (.release (device :: rest) fsh event .signal))
      | .signal =>
          some (none, (s.setDevice device (signalTimer (s.device device))).setTimer
            (.release (device :: rest) fsh event .unlock))
      | .unlock =>
          some (none, (s.setTimerLock device none).setTimer (.release rest fsh event .lock))
  | .stopTest _ _ =>
      some (some .loop, s.setTimer (if s.timerStop then .exited else .scan devList 0 0 .lock))
  | .exited => none

/-- What happens in a turn, with the step of the barrier that it is. -/
def next (devList : List ι) (s : Threads ι) : Turn ι → Option (Option (TimerStep ι) × Threads ι)
  | .nextSlot device =>
      if device ∈ devList ∧ s.device device = .outside then
        some (none, s.setDevice device (.slot .lock))
      else none
  | .detachEvent device =>
      if device ∈ devList ∧ s.device device = .outside then
        some (none, s.setDevice device (.detach .lock))
      else none
  | .device device => s.deviceStep device
  | .timer => s.timerStep devList
  | .wakeDevice device =>
      if s.device device = .wait .sleep then some (none, s.setDevice device (.wait .woken))
      else none
  | .wakeTimer =>
      match s.timer with
      | .scan (device :: rest) fsh event .sleep =>
          some (none, s.setTimer (.scan (device :: rest) fsh event .woken))
      | _ => none
  | .stopTimer => some (some .stop, { s with timerStop := true })

/-- The steps of the threads, each labelled with its turn and the step of the barrier in it. -/
def Step (devList : List ι) (s : Threads ι) (label : Turn ι × Option (TimerStep ι))
    (t : Threads ι) : Prop :=
  s.next devList label.1 = some (label.2, t)

/-! ## Everything a thread can do -/

/-- The halves in which a device sets a flag. -/
def Notifies (here : NotifyPc → DevicePc) : Prop := here = .slot ∨ here = .detach

/-- The statements of a device, with what each needs and changes. -/
inductive DeviceMove (s : Threads ι) (device : ι) : Option (TimerStep ι) → Threads ι → Prop where
  | lockEvent {here : NotifyPc → DevicePc} (kind : Notifies here)
      (at_lock : s.device device = here .lock) (free : s.eventLock device = none) :
      DeviceMove s device none
        ((s.setEventLock device (some .device)).setDevice device (here .set))
  | setDone (at_set : s.device device = .slot .set) :
      DeviceMove s device (some (.setDone device))
        ((s.setDone device true).setDevice device (.slot .signal))
  | setFsh (at_set : s.device device = .detach .set) :
      DeviceMove s device (some (.detach device))
        ((s.setFsh device).setDevice device (.detach .signal))
  | signal {here : NotifyPc → DevicePc} (kind : Notifies here)
      (at_signal : s.device device = here .signal) :
      DeviceMove s device none
        ((s.setTimer (signalEvent device s.timer)).setDevice device (here .unlock))
  | unlockSlot (at_unlock : s.device device = .slot .unlock) :
      DeviceMove s device none ((s.setEventLock device none).setDevice device (.wait .lock))
  | unlockDetach (at_unlock : s.device device = .detach .unlock) :
      DeviceMove s device none ((s.setEventLock device none).setDevice device .detached)
  | lockTimer (ready : s.device device = .wait .lock ∨ s.device device = .wait .woken)
      (free : s.timerLock device = none) :
      DeviceMove s device none
        ((s.setTimerLock device (some .device)).setDevice device (.wait .test))
  | sleep (tests : s.device device = .wait .test) (done : s.done device = true) :
      DeviceMove s device none ((s.setTimerLock device none).setDevice device (.wait .sleep))
  | pass (tests : s.device device = .wait .test) (cleared : s.done device = false) :
      DeviceMove s device (some (.returned device)) (s.setDevice device (.wait .unlock))
  | unlockTimer (at_unlock : s.device device = .wait .unlock) :
      DeviceMove s device none ((s.setTimerLock device none).setDevice device .outside)

/-- The statements of the timer, with what each needs and changes. -/
inductive TimerMove (devList : List ι) (s : Threads ι) :
    Option (TimerStep ι) → Threads ι → Prop where
  | tick {fsh event : Nat} {pc : AwaitPc} (scanned : s.timer = .scan [] fsh event pc) :
      TimerMove devList s (some .tick)
        ({ s with time := s.time + 1 }.setTimer (.release devList fsh event .lock))
  | lockEvent {device : ι} {rest : List ι} {fsh event : Nat} {pc : AwaitPc}
      (scans : s.timer = .scan (device :: rest) fsh event pc) (ready : pc = .lock ∨ pc = .woken)
      (free : s.eventLock device = none) :
      TimerMove devList s none
        ((s.setEventLock device (some .timer)).setTimer (.scan (device :: rest) fsh event .test))
  | pass {device : ι} {rest : List ι} {fsh event : Nat}
      (tests : s.timer = .scan (device :: rest) fsh event .test)
      (flagged : s.done device = true ∨ s.fsh device = true) :
      TimerMove devList s none (s.setTimer (.count device rest fsh event))
  | sleep {device : ι} {rest : List ι} {fsh event : Nat}
      (tests : s.timer = .scan (device :: rest) fsh event .test) (notDone : s.done device = false)
      (attached : s.fsh device = false) :
      TimerMove devList s none
        ((s.setEventLock device none).setTimer (.scan (device :: rest) fsh event .sleep))
  | count {device : ι} {rest : List ι} {fsh event : Nat}
      (counts : s.timer = .count device rest fsh event) :
      TimerMove devList s (some (.check device)) (s.setTimer
        (.scan (device :: rest) (if s.fsh device then fsh + 1 else fsh) (event + 1) .unlock))
  | unlockEvent {device : ι} {rest : List ι} {fsh event : Nat}
      (unlocks : s.timer = .scan (device :: rest) fsh event .unlock) :
      TimerMove devList s none
        ((s.setEventLock device none).setTimer (.scan rest fsh event .lock))
  | leave {fsh event : Nat} {pc : NotifyPc} (released : s.timer = .release [] fsh event pc)
      (all : fsh = event) : TimerMove devList s (some .loop) (s.setTimer .exited)
  | stay {fsh event : Nat} {pc : NotifyPc} (released : s.timer = .release [] fsh event pc)
      (some_left : fsh ≠ event) : TimerMove devList s none (s.setTimer (.stopTest fsh event))
  | lockTimer {device : ι} {rest : List ι} {fsh event : Nat}
      (at_lock : s.timer = .release (device :: rest) fsh event .lock)
      (free : s.timerLock device = none) :
      TimerMove devList s none ((s.setTimerLock device (some .timer)).setTimer
        (.release (device :: rest) fsh event .set))
  | reset {device : ι} {rest : List ι} {fsh event : Nat}
      (at_set : s.timer = .release (device :: rest) fsh event .set) :
      TimerMove devList s (some (.reset device))
        ((s.setDone device false).setTimer (.release (device :: rest) fsh event .signal))
  | signal {device : ι} {rest : List ι} {fsh event : Nat}
      (at_signal : s.timer = .release (device :: rest) fsh event .signal) :
      TimerMove devList s none ((s.setDevice device (signalTimer (s.device device))).setTimer
        (.release (device :: rest) fsh event .unlock))
  | unlockTimer {device : ι} {rest : List ι} {fsh event : Nat}
      (at_unlock : s.timer = .release (device :: rest) fsh event .unlock) :
      TimerMove devList s none
        ((s.setTimerLock device none).setTimer (.release rest fsh event .lock))
  | stopTest {fsh event : Nat} (tests : s.timer = .stopTest fsh event) :
      TimerMove devList s (some .loop)
        (s.setTimer (if s.timerStop then .exited else .scan devList 0 0 .lock))

variable {devList : List ι} {s t : Threads ι} {device other : ι} {label : Option (TimerStep ι)}

/-- What a device does in its turn, read off the definition once for all. -/
theorem deviceStep_moves (taken : s.deviceStep device = some (label, t)) :
    DeviceMove s device label t := by
  unfold deviceStep at taken
  split at taken
  case h_1 => cases taken
  case h_2 pc here =>
    cases pc with
    | lock =>
        simp only [notify, Option.ite_none_right_eq_some, Option.some.injEq, Prod.mk.injEq] at taken
        obtain ⟨free, rfl, rfl⟩ := taken
        exact .lockEvent (.inl rfl) here free
    | set =>
        obtain ⟨rfl, rfl⟩ := Prod.mk.inj (Option.some.inj taken)
        exact .setDone here
    | signal =>
        obtain ⟨rfl, rfl⟩ := Prod.mk.inj (Option.some.inj taken)
        exact .signal (.inl rfl) here
    | unlock =>
        obtain ⟨rfl, rfl⟩ := Prod.mk.inj (Option.some.inj taken)
        exact .unlockSlot here
  case h_3 pc here =>
    split at taken
    case h_1 =>
      simp only [Option.ite_none_right_eq_some, Option.some.injEq, Prod.mk.injEq] at taken
      obtain ⟨free, rfl, rfl⟩ := taken
      exact .lockTimer (.inl here) free
    case h_2 =>
      simp only [Option.ite_none_right_eq_some, Option.some.injEq, Prod.mk.injEq] at taken
      obtain ⟨free, rfl, rfl⟩ := taken
      exact .lockTimer (.inr here) free
    case h_3 =>
      cases done : s.done device with
      | true =>
          rw [done, if_pos rfl] at taken
          obtain ⟨rfl, rfl⟩ := Prod.mk.inj (Option.some.inj taken)
          exact .sleep here done
      | false =>
          rw [done, if_neg Bool.false_ne_true] at taken
          obtain ⟨rfl, rfl⟩ := Prod.mk.inj (Option.some.inj taken)
          exact .pass here done
    case h_4 => cases taken
    case h_5 =>
      obtain ⟨rfl, rfl⟩ := Prod.mk.inj (Option.some.inj taken)
      exact .unlockTimer here
  case h_4 pc here =>
    cases pc with
    | lock =>
        simp only [notify, Option.ite_none_right_eq_some, Option.some.injEq, Prod.mk.injEq] at taken
        obtain ⟨free, rfl, rfl⟩ := taken
        exact .lockEvent (.inr rfl) here free
    | set =>
        obtain ⟨rfl, rfl⟩ := Prod.mk.inj (Option.some.inj taken)
        exact .setFsh here
    | signal =>
        obtain ⟨rfl, rfl⟩ := Prod.mk.inj (Option.some.inj taken)
        exact .signal (.inr rfl) here
    | unlock =>
        obtain ⟨rfl, rfl⟩ := Prod.mk.inj (Option.some.inj taken)
        exact .unlockDetach here
  case h_5 => cases taken

/-- What the timer does in its turn, read off the definition once for all. -/
theorem timerStep_moves (taken : s.timerStep devList = some (label, t)) :
    TimerMove devList s label t := by
  unfold timerStep at taken
  split at taken
  case h_1 here =>
    obtain ⟨rfl, rfl⟩ := Prod.mk.inj (Option.some.inj taken)
    exact .tick here
  case h_2 device rest fsh event pc here =>
    split at taken
    case h_1 =>
      simp only [Option.ite_none_right_eq_some, Option.some.injEq, Prod.mk.injEq] at taken
      obtain ⟨free, rfl, rfl⟩ := taken
      exact .lockEvent here (.inl rfl) free
    case h_2 =>
      simp only [Option.ite_none_right_eq_some, Option.some.injEq, Prod.mk.injEq] at taken
      obtain ⟨free, rfl, rfl⟩ := taken
      exact .lockEvent here (.inr rfl) free
    case h_3 =>
      split at taken
      case isTrue flagged =>
        obtain ⟨rfl, rfl⟩ := Prod.mk.inj (Option.some.inj taken)
        exact .pass here (by simpa using flagged)
      case isFalse flagless =>
        obtain ⟨rfl, rfl⟩ := Prod.mk.inj (Option.some.inj taken)
        simp only [Bool.or_eq_true, not_or, Bool.not_eq_true] at flagless
        exact .sleep here flagless.1 flagless.2
    case h_4 => cases taken
    case h_5 =>
      obtain ⟨rfl, rfl⟩ := Prod.mk.inj (Option.some.inj taken)
      exact .unlockEvent here
  case h_3 here =>
    obtain ⟨rfl, rfl⟩ := Prod.mk.inj (Option.some.inj taken)
    exact .count here
  case h_4 fsh event pc here =>
    split at taken
    case isTrue all =>
      obtain ⟨rfl, rfl⟩ := Prod.mk.inj (Option.some.inj taken)
      exact .leave here all
    case isFalse some_left =>
      obtain ⟨rfl, rfl⟩ := Prod.mk.inj (Option.some.inj taken)
      exact .stay here some_left
  case h_5 device rest fsh event pc here =>
    cases pc with
    | lock =>
        simp only [Option.ite_none_right_eq_some, Option.some.injEq, Prod.mk.injEq] at taken
        obtain ⟨free, rfl, rfl⟩ := taken
        exact .lockTimer here free
    | set =>
        obtain ⟨rfl, rfl⟩ := Prod.mk.inj (Option.some.inj taken)
        exact .reset here
    | signal =>
        obtain ⟨rfl, rfl⟩ := Prod.mk.inj (Option.some.inj taken)
        exact .signal here
    | unlock =>
        obtain ⟨rfl, rfl⟩ := Prod.mk.inj (Option.some.inj taken)
        exact .unlockTimer here
  case h_6 here =>
    obtain ⟨rfl, rfl⟩ := Prod.mk.inj (Option.some.inj taken)
    exact .stopTest here
  case h_7 => cases taken

/-- What happens in a turn: a device outside makes a call, a thread executes a statement or wakes
up, or the timer is told to stop. -/
inductive Move (devList : List ι) (s : Threads ι) :
    Turn ι → Option (TimerStep ι) → Threads ι → Prop where
  | call {turn : Turn ι} {device : ι} {pc : DevicePc}
      (kind : turn = .nextSlot device ∧ pc = .slot .lock ∨
        turn = .detachEvent device ∧ pc = .detach .lock)
      (attached : device ∈ devList) (outside : s.device device = .outside) :
      Move devList s turn none (s.setDevice device pc)
  | device {device : ι} {label : Option (TimerStep ι)} {t : Threads ι}
      (moved : DeviceMove s device label t) : Move devList s (.device device) label t
  | timer {label : Option (TimerStep ι)} {t : Threads ι} (moved : TimerMove devList s label t) :
      Move devList s .timer label t
  | wakeDevice {device : ι} (asleep : s.device device = .wait .sleep) :
      Move devList s (.wakeDevice device) none (s.setDevice device (.wait .woken))
  | wakeTimer {device : ι} {rest : List ι} {fsh event : Nat}
      (asleep : s.timer = .scan (device :: rest) fsh event .sleep) :
      Move devList s .wakeTimer none (s.setTimer (.scan (device :: rest) fsh event .woken))
  | stop : Move devList s .stopTimer (some .stop) { s with timerStop := true }

/-- What a turn does: a call, a statement of a thread, a spurious wake-up or `stop_timer`. -/
theorem Step.move (taken : Step devList s (turn, label) t) : Move devList s turn label t := by
  unfold Step next at taken
  cases turn with
  | nextSlot device =>
      simp only [Option.ite_none_right_eq_some, Option.some.injEq, Prod.mk.injEq] at taken
      obtain ⟨⟨attached, outside⟩, rfl, rfl⟩ := taken
      exact .call (.inl ⟨rfl, rfl⟩) attached outside
  | detachEvent device =>
      simp only [Option.ite_none_right_eq_some, Option.some.injEq, Prod.mk.injEq] at taken
      obtain ⟨⟨attached, outside⟩, rfl, rfl⟩ := taken
      exact .call (.inr ⟨rfl, rfl⟩) attached outside
  | device device => exact .device (deviceStep_moves taken)
  | timer => exact .timer (timerStep_moves taken)
  | wakeDevice device =>
      simp only [Option.ite_none_right_eq_some, Option.some.injEq, Prod.mk.injEq] at taken
      obtain ⟨asleep, rfl, rfl⟩ := taken
      exact .wakeDevice asleep
  | wakeTimer =>
      dsimp only at taken
      split at taken
      case h_1 asleep =>
        obtain ⟨rfl, rfl⟩ := Prod.mk.inj (Option.some.inj taken)
        exact .wakeTimer asleep
      case h_2 => cases taken
  | stopTimer =>
      obtain ⟨rfl, rfl⟩ := Prod.mk.inj (Option.some.inj taken)
      exact .stop

end Threads

end PagedOs
