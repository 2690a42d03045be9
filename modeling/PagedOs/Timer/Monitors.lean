import PagedOs.Library.Monitor
import PagedOs.Timer.Threads

/-! # The monitors of the devices

The timer waits for a device on `event_cond`, the device waits for the timer on `timer_cond`. What a
thread does is a step of at most one of them, or two where the timer lets go of one device and comes
to the next one.
-/

namespace PagedOs

open Transition

/-- Where a thread that notifies another one is as the setter of a monitor. -/
def NotifyPc.setter : NotifyPc → SetterPc
  | .lock => .lock
  | .set => .set
  | .signal => .signal
  | .unlock => .unlock

/-- Where a thread that waits for another one is as the waiter of a monitor. -/
def AwaitPc.waiter : AwaitPc → WaiterPc
  | .lock => .lock
  | .test => .test
  | .sleep => .asleep
  | .woken => .woken
  | .unlock => .inside

/-- The party that holds `event_lock`, where the timer waits. -/
def Holder.eventParty : Holder → Party
  | .device => .setter
  | .timer => .waiter

/-- The party that holds `timer_lock`, where the device waits. -/
def Holder.timerParty : Holder → Party
  | .device => .waiter
  | .timer => .setter

/-- The device that the timer waits for. -/
def DevicePc.setter : DevicePc → SetterPc
  | .slot pc => pc.setter
  | .detach pc => pc.setter
  | _ => .away

/-- The device that waits for the timer. -/
def DevicePc.waiter : DevicePc → WaiterPc
  | .wait pc => pc.waiter
  | _ => .away

namespace Threads

variable {ι : Type*} [DecidableEq ι] {devList : List ι} {s t : Threads ι} {device other : ι}
  {label : Option (TimerStep ι)} {turn : Turn ι}

/-! ## The monitors of a device -/

/-- The timer that waits for a device. -/
def eventWaiter (device : ι) : TimerPc ι → WaiterPc
  | .scan (next :: _) _ _ pc => if next = device then pc.waiter else .away
  | .count next _ _ _ => if next = device then .inside else .away
  | _ => .away

/-- The timer that a device waits for. -/
def timerSetter (device : ι) : TimerPc ι → SetterPc
  | .release (next :: _) _ _ pc => if next = device then pc.setter else .away
  | _ => .away

/-- `event_lock` and `event_cond` of a device, where the timer waits for it to be done. -/
def eventMonitor (s : Threads ι) (device : ι) : Monitor where
  condition := s.done device || s.fsh device
  mutex := (s.eventLock device).map Holder.eventParty
  waiter := eventWaiter device s.timer
  setter := (s.device device).setter

/-- `timer_lock` and `timer_cond` of a device, where it waits for the timer. -/
def timerMonitor (s : Threads ι) (device : ι) : Monitor where
  condition := !s.done device
  mutex := (s.timerLock device).map Holder.timerParty
  waiter := (s.device device).waiter
  setter := timerSetter device s.timer

/-- A signal to one device does not concern the timer where it waits for another one. -/
theorem eventWaiter_signalEvent (different : other ≠ device) (pc : TimerPc ι) :
    eventWaiter other (signalEvent device pc) = eventWaiter other pc := by
  unfold signalEvent
  split
  · rename_i next rest fsh event
    by_cases same : next = device
    · have away : ¬ next = other := fun hit => different (hit.symm.trans same)
      simp only [eventWaiter, if_neg away]
    · simp only [if_neg same]
  · rfl

/-- A signal to the timer does not concern it where it releases the devices. -/
theorem timerSetter_signalEvent (pc : TimerPc ι) :
    timerSetter other (signalEvent device pc) = timerSetter other pc := by
  unfold signalEvent
  split <;> rfl

/-- A signal wakes the timer if it waits for the device. -/
theorem eventWaiter_signalEvent_self (pc : TimerPc ι) :
    eventWaiter device (signalEvent device pc) =
      if eventWaiter device pc = .asleep then .woken else eventWaiter device pc := by
  unfold signalEvent
  split
  · rename_i next rest fsh event
    by_cases same : next = device
    · simp [eventWaiter, same, AwaitPc.waiter]
    · simp [eventWaiter, same]
  · rename_i awake
    cases pc with
    | scan rest fsh event pc =>
        cases rest with
        | nil => rfl
        | cons next rest =>
            cases pc with
            | sleep => exact absurd rfl (awake next rest fsh event)
            | _ => by_cases same : next = device <;> simp [eventWaiter, same, AwaitPc.waiter]
    | count next _ _ _ => by_cases same : next = device <;> simp [eventWaiter, same]
    | _ => rfl

/-- And the device if it waits for the timer. -/
theorem waiter_signalTimer (pc : DevicePc) :
    (signalTimer pc).waiter = (if pc.waiter = .asleep then .woken else pc.waiter) ∧
      (signalTimer pc).setter = pc.setter := by
  cases pc with
  | wait pc => cases pc <;> exact ⟨rfl, rfl⟩
  | _ => exact ⟨rfl, rfl⟩

/-- A device that sets its flag under the mutex of the event is at the same statement for the
monitor, and it does not wait. -/
theorem Notifies.setter {here : NotifyPc → DevicePc} (kind : Notifies here) (pc : NotifyPc) :
    (here pc).setter = pc.setter ∧ (here pc).waiter = .away := by
  rcases kind with rfl | rfl <;> exact ⟨rfl, rfl⟩

section Monitors

open Relation Monitor

/-- A device has no part in the monitors of another one. -/
theorem DeviceMove.elsewhere (moved : DeviceMove s device label t) (different : other ≠ device) :
    t.eventMonitor other = s.eventMonitor other ∧ t.timerMonitor other = s.timerMonitor other := by
  cases moved <;> constructor <;>
    simp [eventMonitor, timerMonitor, setDevice, setTimer, setEventLock, setTimerLock,
      Threads.setDone, Threads.setFsh, different, eventWaiter_signalEvent, timerSetter_signalEvent]

/-- What a device does is at most one step of its `event_cond`. -/
theorem DeviceMove.event (moved : DeviceMove s device label t) :
    ReflGen Monitor.Step (s.eventMonitor device) (t.eventMonitor device) := by
  cases moved with
  | lockEvent kind at_lock free =>
      have ready : (s.eventMonitor device).setter = .lock := by
        rw [eventMonitor, at_lock]
        exact (kind.setter _).1
      convert ReflGen.single (Monitor.Step.take ready (by simp [eventMonitor, free])) using 1
      simp [eventMonitor, setDevice, setEventLock, kind.setter, Holder.eventParty, NotifyPc.setter]
  | setDone at_set =>
      have sets : (s.eventMonitor device).setter = .set := by
        rw [eventMonitor, at_set]
        rfl
      convert ReflGen.single (Monitor.Step.set sets) using 1
      simp [eventMonitor, setDevice, Threads.setDone, DevicePc.setter, NotifyPc.setter]
  | setFsh at_set =>
      have sets : (s.eventMonitor device).setter = .set := by
        rw [eventMonitor, at_set]
        rfl
      convert ReflGen.single (Monitor.Step.set sets) using 1
      simp [eventMonitor, setDevice, Threads.setFsh, DevicePc.setter, NotifyPc.setter]
  | signal kind at_signal =>
      have signals : (s.eventMonitor device).setter = .signal := by
        rw [eventMonitor, at_signal]
        exact (kind.setter _).1
      convert ReflGen.single (Monitor.Step.signal signals) using 1
      simp only [eventMonitor, setDevice, setTimer, Function.update_self, kind.setter,
        NotifyPc.setter, eventWaiter_signalEvent_self]
      rfl
  | unlockSlot at_unlock =>
      have unlocks : (s.eventMonitor device).setter = .unlock := by
        rw [eventMonitor, at_unlock]
        rfl
      convert ReflGen.single (Monitor.Step.unlock unlocks) using 1
      simp [eventMonitor, setDevice, setEventLock, DevicePc.setter]
  | unlockDetach at_unlock =>
      have unlocks : (s.eventMonitor device).setter = .unlock := by
        rw [eventMonitor, at_unlock]
        rfl
      convert ReflGen.single (Monitor.Step.unlock unlocks) using 1
      simp [eventMonitor, setDevice, setEventLock, DevicePc.setter]
  | lockTimer ready free =>
      have away : (s.device device).setter = .away := by
        rcases ready with here | here <;> rw [here] <;> rfl
      convert ReflGen.refl using 1
      simp only [eventMonitor, setDevice, setTimerLock, Function.update_self, away]
      rfl
  | sleep tests done =>
      convert ReflGen.refl using 1
      simp [eventMonitor, setDevice, setTimerLock, DevicePc.setter, tests]
  | pass tests cleared =>
      convert ReflGen.refl using 1
      simp [eventMonitor, setDevice, DevicePc.setter, tests]
  | unlockTimer at_unlock =>
      convert ReflGen.refl using 1
      simp [eventMonitor, setDevice, setTimerLock, DevicePc.setter, at_unlock]

/-- And at most one step of its `timer_cond`. -/
theorem DeviceMove.timer (moved : DeviceMove s device label t) :
    ReflGen Monitor.Step (s.timerMonitor device) (t.timerMonitor device) := by
  cases moved with
  | lockEvent kind at_lock free =>
      convert ReflGen.refl using 1
      simp [timerMonitor, setDevice, setEventLock, at_lock, kind.setter]
  | setDone at_set =>
      have away : (s.timerMonitor device).waiter = .away := by
        rw [timerMonitor, at_set]
        rfl
      convert ReflGen.single (Monitor.Step.clear away) using 1
      simp [timerMonitor, setDevice, Threads.setDone, DevicePc.waiter, at_set]
  | setFsh at_set =>
      convert ReflGen.refl using 1
      simp [timerMonitor, setDevice, Threads.setFsh, DevicePc.waiter, at_set]
  | signal kind at_signal =>
      convert ReflGen.refl using 1
      simp [timerMonitor, setDevice, setTimer, at_signal, kind.setter, timerSetter_signalEvent]
  | unlockSlot at_unlock =>
      have away : (s.timerMonitor device).waiter = .away := by
        rw [timerMonitor, at_unlock]
        rfl
      convert ReflGen.single (Monitor.Step.arrive away) using 1
      simp [timerMonitor, setDevice, setEventLock, DevicePc.waiter, AwaitPc.waiter]
  | unlockDetach at_unlock =>
      convert ReflGen.refl using 1
      simp [timerMonitor, setDevice, setEventLock, DevicePc.waiter, at_unlock]
  | lockTimer ready free =>
      have waits : (s.timerMonitor device).waiter = .lock ∨
          (s.timerMonitor device).waiter = .woken := by
        rcases ready with here | here
        · exact .inl (by rw [timerMonitor, here]; rfl)
        · exact .inr (by rw [timerMonitor, here]; rfl)
      convert ReflGen.single (Monitor.Step.lock waits (by simp [timerMonitor, free])) using 1
      simp [timerMonitor, setDevice, setTimerLock, DevicePc.waiter, AwaitPc.waiter,
        Holder.timerParty]
  | sleep tests done =>
      have waits : (s.timerMonitor device).waiter = .test := by
        rw [timerMonitor, tests]
        rfl
      convert ReflGen.single (Monitor.Step.sleep waits (by simp [timerMonitor, done])) using 1
      simp [timerMonitor, setDevice, setTimerLock, DevicePc.waiter, AwaitPc.waiter]
  | pass tests cleared =>
      have waits : (s.timerMonitor device).waiter = .test := by
        rw [timerMonitor, tests]
        rfl
      convert ReflGen.single (Monitor.Step.pass waits (by simp [timerMonitor, cleared])) using 1
      simp [timerMonitor, setDevice, DevicePc.waiter, AwaitPc.waiter]
  | unlockTimer at_unlock =>
      have waits : (s.timerMonitor device).waiter = .inside := by
        rw [timerMonitor, at_unlock]
        rfl
      convert ReflGen.single (Monitor.Step.leave waits) using 1
      simp [timerMonitor, setDevice, setTimerLock, DevicePc.waiter]

/-- The timer comes to wait for the first of the devices that are left. -/
theorem scan_arrives (device : ι) (m : Monitor) (rest : List ι) (fsh event : Nat)
    (away : m.waiter = .away) :
    ReflTransGen Monitor.Step m
      { m with waiter := eventWaiter device (.scan rest fsh event .lock) } := by
  have first : eventWaiter device (.scan rest fsh event .lock) = .away ∨
      eventWaiter device (.scan rest fsh event .lock) = .lock := by
    cases rest with
    | nil => exact .inl rfl
    | cons next rest =>
        by_cases same : next = device
        · exact .inr (by simp only [eventWaiter, if_pos same, AwaitPc.waiter])
        · exact .inl (by simp only [eventWaiter, if_neg same])
  rcases first with stays | arrives
  · rw [stays, ← away]
  · rw [arrives]
    exact .single (.arrive away)

theorem release_approaches (device : ι) (m : Monitor) (rest : List ι) (fsh event : Nat)
    (away : m.setter = .away) :
    ReflTransGen Monitor.Step m
      { m with setter := timerSetter device (.release rest fsh event .lock) } := by
  have first : timerSetter device (.release rest fsh event .lock) = .away ∨
      timerSetter device (.release rest fsh event .lock) = .lock := by
    cases rest with
    | nil => exact .inl rfl
    | cons next rest =>
        by_cases same : next = device
        · exact .inr (by simp only [timerSetter, if_pos same, NotifyPc.setter])
        · exact .inl (by simp only [timerSetter, if_neg same])
  rcases first with stays | approaches
  · rw [stays, ← away]
  · rw [approaches]
    exact .single (.approach away)

/-- What the timer does with one device leaves the monitors of the others, up to its way to the
next one. -/
theorem TimerMove.event (moved : TimerMove devList s label t) (device : ι) :
    ReflTransGen Monitor.Step (s.eventMonitor device) (t.eventMonitor device) := by
  cases moved with
  | tick scanned =>
      convert ReflTransGen.refl using 1
      simp [eventMonitor, setTimer, scanned, eventWaiter]
  | @lockEvent current rest fsh event pc scans ready free =>
      by_cases same : current = device
      · subst same
        have waits : (s.eventMonitor current).waiter = .lock ∨
            (s.eventMonitor current).waiter = .woken := by
          rcases ready with rfl | rfl
          · exact .inl (by simp [eventMonitor, scans, eventWaiter, AwaitPc.waiter])
          · exact .inr (by simp [eventMonitor, scans, eventWaiter, AwaitPc.waiter])
        convert ReflTransGen.single (Monitor.Step.lock waits (by simp [eventMonitor, free]))
          using 1
        simp [eventMonitor, setTimer, setEventLock, eventWaiter, AwaitPc.waiter,
          Holder.eventParty]
      · convert ReflTransGen.refl using 1
        simp [eventMonitor, setTimer, setEventLock, scans, eventWaiter, same, Ne.symm same]
  | @pass current rest fsh event tests flagged =>
      by_cases same : current = device
      · subst same
        have waits : (s.eventMonitor current).waiter = .test := by
          simp [eventMonitor, tests, eventWaiter, AwaitPc.waiter]
        convert ReflTransGen.single
          (Monitor.Step.pass waits (by simpa [eventMonitor] using flagged)) using 1
        simp [eventMonitor, setTimer, eventWaiter]
      · convert ReflTransGen.refl using 1
        simp [eventMonitor, setTimer, tests, eventWaiter, same]
  | @sleep current rest fsh event tests notDone attached =>
      by_cases same : current = device
      · subst same
        have waits : (s.eventMonitor current).waiter = .test := by
          simp [eventMonitor, tests, eventWaiter, AwaitPc.waiter]
        convert ReflTransGen.single
          (Monitor.Step.sleep waits (by simp [eventMonitor, notDone, attached])) using 1
        simp [eventMonitor, setTimer, setEventLock, eventWaiter, AwaitPc.waiter]
      · convert ReflTransGen.refl using 1
        simp [eventMonitor, setTimer, setEventLock, tests, eventWaiter, same, Ne.symm same]
  | count counts =>
      convert ReflTransGen.refl using 1
      simp [eventMonitor, setTimer, counts, eventWaiter, AwaitPc.waiter]
  | @unlockEvent current rest fsh event unlocks =>
      by_cases same : current = device
      · subst same
        have inside : (s.eventMonitor current).waiter = .inside := by
          simp [eventMonitor, unlocks, eventWaiter, AwaitPc.waiter]
        refine .head (Monitor.Step.leave inside) ?_
        convert scan_arrives current { s.eventMonitor current with mutex := none, waiter := .away }
          rest fsh event rfl using 1
        simp [eventMonitor, setTimer, setEventLock]
      · have away : (s.eventMonitor device).waiter = .away := by
          simp [eventMonitor, unlocks, eventWaiter, same]
        convert scan_arrives device _ rest fsh event away using 1
        simp [eventMonitor, setTimer, setEventLock, Ne.symm same]
  | leave released =>
      convert ReflTransGen.refl using 1
      simp [eventMonitor, setTimer, released, eventWaiter]
  | stay released =>
      convert ReflTransGen.refl using 1
      simp [eventMonitor, setTimer, released, eventWaiter]
  | lockTimer at_lock =>
      convert ReflTransGen.refl using 1
      simp [eventMonitor, setTimer, setTimerLock, at_lock, eventWaiter]
  | @reset current rest fsh event at_set =>
      have away : (s.eventMonitor device).waiter = .away := by
        simp [eventMonitor, at_set, eventWaiter]
      by_cases same : current = device
      · subst same
        cases gone : s.fsh current with
        | true =>
            convert ReflTransGen.refl using 1
            simp [eventMonitor, setTimer, Threads.setDone, at_set, eventWaiter, gone]
        | false =>
            convert ReflTransGen.single (Monitor.Step.clear away) using 1
            simp [eventMonitor, setTimer, Threads.setDone, at_set, eventWaiter, gone]
      · convert ReflTransGen.refl using 1
        simp [eventMonitor, setTimer, Threads.setDone, at_set, eventWaiter, Ne.symm same]
  | @signal current rest fsh event at_signal =>
      convert ReflTransGen.refl using 1
      by_cases same : current = device
      · subst same
        simp [eventMonitor, setTimer, setDevice, at_signal, eventWaiter, waiter_signalTimer]
      · simp [eventMonitor, setTimer, setDevice, at_signal, eventWaiter, Ne.symm same]
  | unlockTimer at_unlock =>
      convert ReflTransGen.refl using 1
      simp [eventMonitor, setTimer, setTimerLock, at_unlock, eventWaiter]
  | @stopTest fsh event tests =>
      have away : (s.eventMonitor device).waiter = .away := by
        simp [eventMonitor, tests, eventWaiter]
      cases stopped : s.timerStop with
      | true =>
          convert ReflTransGen.refl using 1
          simp [eventMonitor, setTimer, tests, eventWaiter]
      | false =>
          convert scan_arrives device _ devList 0 0 away using 1
          simp [eventMonitor, setTimer]

/-- A statement of the timer is one of the monitors' steps for each device, or none. -/
theorem TimerMove.timer (moved : TimerMove devList s label t) (device : ι) :
    ReflTransGen Monitor.Step (s.timerMonitor device) (t.timerMonitor device) := by
  cases moved with
  | @tick fsh event pc scanned =>
      have away : (s.timerMonitor device).setter = .away := by
        simp [timerMonitor, scanned, timerSetter]
      convert release_approaches device _ devList fsh event away using 1
      simp [timerMonitor, setTimer]
  | lockEvent scans =>
      convert ReflTransGen.refl using 1
      simp [timerMonitor, setTimer, setEventLock, scans, timerSetter]
  | pass tests =>
      convert ReflTransGen.refl using 1
      simp [timerMonitor, setTimer, tests, timerSetter]
  | sleep tests =>
      convert ReflTransGen.refl using 1
      simp [timerMonitor, setTimer, setEventLock, tests, timerSetter]
  | count counts =>
      convert ReflTransGen.refl using 1
      simp [timerMonitor, setTimer, counts, timerSetter]
  | unlockEvent unlocks =>
      convert ReflTransGen.refl using 1
      simp [timerMonitor, setTimer, setEventLock, unlocks, timerSetter]
  | leave released =>
      convert ReflTransGen.refl using 1
      simp [timerMonitor, setTimer, released, timerSetter]
  | stay released =>
      convert ReflTransGen.refl using 1
      simp [timerMonitor, setTimer, released, timerSetter]
  | @lockTimer current rest fsh event at_lock free =>
      by_cases same : current = device
      · subst same
        have ready : (s.timerMonitor current).setter = .lock := by
          simp [timerMonitor, at_lock, timerSetter, NotifyPc.setter]
        convert ReflTransGen.single (Monitor.Step.take ready (by simp [timerMonitor, free])) using 1
        simp [timerMonitor, setTimer, setTimerLock, timerSetter, NotifyPc.setter,
          Holder.timerParty]
      · convert ReflTransGen.refl using 1
        simp [timerMonitor, setTimer, setTimerLock, at_lock, timerSetter, same, Ne.symm same]
  | @reset current rest fsh event at_set =>
      by_cases same : current = device
      · subst same
        have sets : (s.timerMonitor current).setter = .set := by
          simp [timerMonitor, at_set, timerSetter, NotifyPc.setter]
        convert ReflTransGen.single (Monitor.Step.set sets) using 1
        simp [timerMonitor, setTimer, Threads.setDone, timerSetter, NotifyPc.setter]
      · convert ReflTransGen.refl using 1
        simp [timerMonitor, setTimer, Threads.setDone, at_set, timerSetter, same, Ne.symm same]
  | @signal current rest fsh event at_signal =>
      by_cases same : current = device
      · subst same
        have signals : (s.timerMonitor current).setter = .signal := by
          simp [timerMonitor, at_signal, timerSetter, NotifyPc.setter]
        convert ReflTransGen.single (Monitor.Step.signal signals) using 1
        simp only [timerMonitor, setTimer, setDevice, Function.update_self, waiter_signalTimer,
          timerSetter, NotifyPc.setter, if_pos]
        rfl
      · convert ReflTransGen.refl using 1
        simp [timerMonitor, setTimer, setDevice, at_signal, timerSetter, same, Ne.symm same]
  | @unlockTimer current rest fsh event at_unlock =>
      by_cases same : current = device
      · subst same
        have unlocks : (s.timerMonitor current).setter = .unlock := by
          simp [timerMonitor, at_unlock, timerSetter, NotifyPc.setter]
        refine .head (Monitor.Step.unlock unlocks) ?_
        convert release_approaches current
          { s.timerMonitor current with mutex := none, setter := .away } rest fsh event rfl using 1
        simp [timerMonitor, setTimer, setTimerLock]
      · have away : (s.timerMonitor device).setter = .away := by
          simp [timerMonitor, at_unlock, timerSetter, same]
        convert release_approaches device _ rest fsh event away using 1
        simp [timerMonitor, setTimer, setTimerLock, Ne.symm same]
  | stopTest tests =>
      convert ReflTransGen.refl using 1
      cases stopped : s.timerStop <;>
        simp [timerMonitor, setTimer, tests, timerSetter]

/-! ## The monitors in a run -/

/-- A statement of any thread is seen by the monitor of the event of each device as steps of its
own. -/
theorem Move.event_steps (moved : Move devList s turn label t) (device : ι) :
    ReflTransGen Monitor.Step (s.eventMonitor device) (t.eventMonitor device) := by
  cases moved with
  | @call turn caller pc kind attached outside =>
      by_cases same : device = caller
      · subst same
        have away : (s.eventMonitor device).setter = .away := by
          simp [eventMonitor, outside, DevicePc.setter]
        convert ReflTransGen.single (Monitor.Step.approach away) using 1
        rcases kind with ⟨-, rfl⟩ | ⟨-, rfl⟩ <;>
          simp [eventMonitor, setDevice, DevicePc.setter, NotifyPc.setter]
      · convert ReflTransGen.refl using 1
        simp [eventMonitor, setDevice, same]
  | @device mover label t moved =>
      by_cases same : device = mover
      · subst same
        exact moved.event.to_reflTransGen
      · rw [(moved.elsewhere same).1]
  | timer moved => exact moved.event device
  | @wakeDevice sleeper asleep =>
      convert ReflTransGen.refl using 1
      by_cases same : device = sleeper
      · subst same
        simp [eventMonitor, setDevice, asleep, DevicePc.setter]
      · simp [eventMonitor, setDevice, same]
  | @wakeTimer current rest fsh event asleep =>
      by_cases same : current = device
      · subst same
        have slept : (s.eventMonitor current).waiter = .asleep := by
          simp [eventMonitor, asleep, eventWaiter, AwaitPc.waiter]
        convert ReflTransGen.single (Monitor.Step.wake slept) using 1
        simp [eventMonitor, setTimer, eventWaiter, AwaitPc.waiter]
      · convert ReflTransGen.refl using 1
        simp [eventMonitor, setTimer, asleep, eventWaiter, same]
  | stop => exact .refl

/-- A statement of any thread is seen by the monitor of the timer of each device as steps of its
own. -/
theorem Move.timer_steps (moved : Move devList s turn label t) (device : ι) :
    ReflTransGen Monitor.Step (s.timerMonitor device) (t.timerMonitor device) := by
  cases moved with
  | @call turn caller pc kind attached outside =>
      convert ReflTransGen.refl using 1
      by_cases same : device = caller
      · subst same
        rcases kind with ⟨-, rfl⟩ | ⟨-, rfl⟩ <;>
          simp [timerMonitor, setDevice, outside, DevicePc.waiter]
      · simp [timerMonitor, setDevice, same]
  | @device mover label t moved =>
      by_cases same : device = mover
      · subst same
        exact moved.timer.to_reflTransGen
      · rw [(moved.elsewhere same).2]
  | timer moved => exact moved.timer device
  | @wakeDevice sleeper asleep =>
      by_cases same : device = sleeper
      · subst same
        have slept : (s.timerMonitor device).waiter = .asleep := by
          simp [timerMonitor, asleep, DevicePc.waiter, AwaitPc.waiter]
        convert ReflTransGen.single (Monitor.Step.wake slept) using 1
        simp [timerMonitor, setDevice, DevicePc.waiter, AwaitPc.waiter]
      · convert ReflTransGen.refl using 1
        simp [timerMonitor, setDevice, same]
  | wakeTimer asleep =>
      convert ReflTransGen.refl using 1
      simp [timerMonitor, setTimer, asleep, timerSetter]
  | stop => exact .refl

/-- Both monitors of every device are sound. -/
def MonitorsSound (s : Threads ι) : Prop :=
  ∀ device, (s.eventMonitor device).Sound ∧ (s.timerMonitor device).Sound

/-- The monitors are sound when the threads are created. -/
theorem start_sound (devList : List ι) : (start devList).MonitorsSound := by
  refine fun device => ⟨.of_free rfl ?_ rfl, .of_free rfl (.inl rfl) rfl⟩
  cases devList with
  | nil => exact .inl rfl
  | cons first rest =>
      by_cases same : first = device
      · exact .inr (by simp [eventMonitor, start, eventWaiter, same, AwaitPc.waiter])
      · exact .inl (by simp [eventMonitor, start, eventWaiter, same])

/-- The monitors of all devices are sound in every state that the threads reach. -/
theorem run_sound {labels : List (Turn ι × Option (TimerStep ι))}
    (run : Run (Step devList) (start devList) labels s) : s.MonitorsSound := by
  refine run.invariant MonitorsSound ?_ (start_sound devList)
  rintro before ⟨turn, label⟩ after sound taken device
  exact ⟨(sound device).1.steps (taken.move.event_steps device),
    (sound device).2.steps (taken.move.timer_steps device)⟩

end Monitors

end Threads

end PagedOs
