import Mathlib.Algebra.Order.BigOperators.Group.Finset
import PagedOs.Timer.Lockstep

/-! # Every slot ends

No wake-up of the timer is lost: as long as a device is attached, a thread of the timer has a next
statement, or the timer waits for a device that is still at its slot's work. And these statements
are boundedly many before the clock advances.
-/

namespace PagedOs

open Transition

namespace Threads

variable {ι : Type*} [DecidableEq ι] {devList : List ι} {s t : Threads ι}
  {label : Option (TimerStep ι)} {turn : Turn ι}

/-! ## Nobody waits for ever -/

/-- Where the monitor of the event lets the device go on, the device has a statement. -/
theorem deviceStep_of_setter {device : ι} (moves : (s.eventMonitor device).SetterMoves) :
    (s.deviceStep device).isSome := by
  unfold Monitor.SetterMoves eventMonitor at moves
  unfold deviceStep
  cases here : s.device device with
  | slot pc => cases pc <;> simp_all [notify, DevicePc.setter, NotifyPc.setter]
  | detach pc => cases pc <;> simp_all [notify, DevicePc.setter, NotifyPc.setter]
  | _ => simp_all [DevicePc.setter]

/-- Where the monitor of the timer lets the device go on, the device has a statement. -/
theorem deviceStep_of_waiter {device : ι} (moves : (s.timerMonitor device).WaiterMoves) :
    (s.deviceStep device).isSome := by
  unfold Monitor.WaiterMoves timerMonitor at moves
  unfold deviceStep
  cases here : s.device device with
  | wait pc =>
      cases pc with
      | test => cases done : s.done device <;> simp
      | _ => simp_all [DevicePc.waiter, AwaitPc.waiter]
  | _ => simp_all [DevicePc.waiter]

/-- Where the monitor of the event lets the timer go on, the timer has a statement. -/
theorem timerStep_of_waiter {device : ι} (moves : (s.eventMonitor device).WaiterMoves) :
    (s.timerStep devList).isSome := by
  unfold Monitor.WaiterMoves eventMonitor at moves
  unfold timerStep
  cases here : s.timer with
  | scan rest fsh event pc =>
      cases rest with
      | nil => rfl
      | cons next rest =>
          have same : next = device := by
            by_contra different
            simp_all [eventWaiter]
          subst same
          cases pc with
          | test => by_cases flagged : s.done next || s.fsh next <;> simp [flagged]
          | _ => simp_all [eventWaiter, AwaitPc.waiter]
  | count => rfl
  | _ => simp_all [eventWaiter]

/-- Where the monitor of the timer lets the timer go on, the timer has a statement. -/
theorem timerStep_of_setter {device : ι} (moves : (s.timerMonitor device).SetterMoves) :
    (s.timerStep devList).isSome := by
  unfold Monitor.SetterMoves timerMonitor at moves
  unfold timerStep
  cases here : s.timer with
  | release rest fsh event pc =>
      cases rest with
      | nil => by_cases all : fsh = event <;> simp [all]
      | cons next rest =>
          have same : next = device := by
            by_contra different
            simp_all [timerSetter]
          subst same
          cases pc <;> simp_all [timerSetter, NotifyPc.setter]
  | _ => simp_all [timerSetter]

/-- A thread of the timer or of a device has a next statement. -/
def Enabled (devList : List ι) (s : Threads ι) : Prop :=
  (s.timerStep devList).isSome ∨ ∃ device ∈ devList, (s.deviceStep device).isSome

/-- The timer is asleep, and the device that it waits for is outside of `timer.c`. -/
def AwaitsDevice (devList : List ι) (s : Threads ι) : Prop :=
  ∃ device ∈ devList, ∃ rest fsh event,
    s.timer = .scan (device :: rest) fsh event .sleep ∧ s.device device = .outside

/-- `timer_routine` has left its loop, after `stop_timer` or behind the last device. -/
def Ended (devList : List ι) (s : Threads ι) : Prop :=
  s.timer = .exited ∧ (s.timerStop = true ∨ ∀ device ∈ devList, s.device device = .detached)

/-- The threads that move belong to attached devices. -/
theorem Consistent.enabled (known : Consistent devList s) {device : ι}
    (moves : (s.deviceStep device).isSome) : Enabled devList s := by
  refine .inr ⟨device, known.attached device fun outside => ?_, moves⟩
  simp [deviceStep, outside] at moves

/-- The timer sleeps for a device whose flags are clear: it is at its slot's work, or it is on its
way through `next_slot`. -/
theorem asleep_enabled (sound : s.MonitorsSound) (known : Consistent devList s) {device : ι}
    {rest : List ι} {fsh event : Nat} (member : device ∈ devList)
    (asleep : s.timer = .scan (device :: rest) fsh event .sleep)
    (fails : (s.eventMonitor device).condition = false)
    (away : (s.eventMonitor device).setter = .away) :
    Enabled devList s ∨ AwaitsDevice devList s := by
  obtain ⟨cleared, attached⟩ : s.done device = false ∧ s.fsh device = false := by
    simpa [eventMonitor] using fails
  cases here : s.device device with
  | outside => exact .inr ⟨device, member, rest, fsh, event, asleep, here⟩
  | slot pc => cases pc <;> simp [eventMonitor, here, DevicePc.setter, NotifyPc.setter] at away
  | detach pc => cases pc <;> simp [eventMonitor, here, DevicePc.setter, NotifyPc.setter] at away
  | detached => simp [known.fsh, here, gone] at attached
  | wait pc =>
      have waits : (s.timerMonitor device).waiter ≠ .away := by
        cases pc <;> simp [timerMonitor, here, DevicePc.waiter, AwaitPc.waiter]
      rcases (sound device).2.waiter_moves waits with (waiter | setter) | ⟨-, holds, -⟩
      · exact .inl (known.enabled (deviceStep_of_waiter waiter))
      · exact .inl (.inl (timerStep_of_setter setter))
      · simp [timerMonitor, cleared] at holds

/-- **No wake-up is lost.** Some thread can go on in every reachable state, unless the timer waits
for a device that works on its slot, or has left its loop. -/
theorem enabled_or_waiting (sound : s.MonitorsSound) (known : Consistent devList s)
    (tallied : TimerState.Tallied devList s.barrier) :
    Enabled devList s ∨ AwaitsDevice devList s ∨ Ended devList s := by
  cases here : s.timer with
  | scan rest fsh event pc =>
      cases rest with
      | nil => exact .inl (.inl (by simp [timerStep, here]))
      | cons device rest =>
          have waits : (s.eventMonitor device).waiter ≠ .away := by
            cases pc <;> simp [eventMonitor, here, eventWaiter, AwaitPc.waiter]
          rcases (sound device).1.waiter_moves waits with (timer | setter) | ⟨asleep, fails, away⟩
          · exact .inl (.inl (timerStep_of_waiter timer))
          · exact .inl (known.enabled (deviceStep_of_setter setter))
          · have sleeps : pc = .sleep := by
              cases pc <;> simp [eventMonitor, here, eventWaiter, AwaitPc.waiter] at asleep ⊢
            subst sleeps
            have member : device ∈ devList := by
              simp only [TimerState.Tallied, barrier, here, routine] at tallied
              obtain ⟨checked, split, -⟩ := tallied
              simp [split]
            rcases asleep_enabled sound known member here fails away with enabled | awaits
            · exact .inl enabled
            · exact .inr (.inl awaits)
  | count device rest fsh event => exact .inl (.inl (by simp [timerStep, here]))
  | release rest fsh event pc =>
      cases rest with
      | nil =>
          refine .inl (.inl ?_)
          by_cases all : fsh = event <;> simp [timerStep, here, all]
      | cons device rest =>
          have busy : (s.timerMonitor device).setter ≠ .away := by
            cases pc <;> simp [timerMonitor, here, timerSetter, NotifyPc.setter]
          rcases (sound device).2.setter_moves busy with waiter | timer
          · exact .inl (known.enabled (deviceStep_of_waiter waiter))
          · exact .inl (.inl (timerStep_of_setter timer))
  | stopTest fsh event => exact .inl (.inl (by simp [timerStep, here]))
  | exited =>
      simp only [TimerState.Tallied, barrier, here, routine] at tallied
      rcases tallied with stopped | all
      · exact .inr (.inr ⟨here, .inl stopped⟩)
      · by_cases left : ∀ device ∈ devList, s.device device = .detached
        · exact .inr (.inr ⟨here, .inr left⟩)
        · obtain ⟨device, member, there⟩ : ∃ device ∈ devList, s.device device ≠ .detached := by
            simpa using left
          have flagged := all device member
          rw [known.fsh] at flagged
          refine .inl (known.enabled (?_ : (s.deviceStep device).isSome))
          cases at_pc : s.device device with
          | detach pc => cases pc <;> simp_all [gone, deviceStep, notify]
          | _ => simp_all [gone]

/-! ## A slot takes boundedly many statements -/

/-- The statements a device has before it, and the waiting of the timer that its signal ends. -/
def deviceCost : DevicePc → Nat
  | .outside | .detached | .wait .sleep => 0
  | .slot .lock => 11
  | .slot .set => 10
  | .slot .signal => 9
  | .slot .unlock => 4
  | .wait .lock | .wait .woken => 3
  | .wait .test => 2
  | .wait .unlock => 1
  | .detach .lock => 8
  | .detach .set => 7
  | .detach .signal => 6
  | .detach .unlock => 1

/-- The statements of the timer up to the next tick, and the waiting of the devices that its signals
end. -/
def timerCost (devList : List ι) : TimerPc ι → Nat
  | .scan [] _ _ _ => 0
  | .scan (_ :: rest) _ _ pc => 4 * rest.length +
      match pc with
      | .lock | .woken => 4
      | .test => 3
      | .sleep => 0
      | .unlock => 1
  | .count _ rest _ _ => 4 * rest.length + 2
  | .release [] _ _ _ => 4 * devList.length + 2
  | .release (_ :: rest) _ _ pc => 4 * devList.length + 2 + 7 * rest.length +
      match pc with
      | .lock => 7
      | .set => 6
      | .signal => 5
      | .unlock => 1
  | .stopTest _ _ => 4 * devList.length + 1
  | .exited => 0

/-- The statements of all threads up to the next tick. -/
def cost (devList : List ι) (s : Threads ι) : Nat :=
  timerCost devList s.timer + ∑ device ∈ devList.toFinset, deviceCost (s.device device)

/-- A device changes the sum by its own part. -/
theorem deviceCost_setDevice {device : ι} (member : device ∈ devList) (pc : DevicePc) :
    (∑ other ∈ devList.toFinset, deviceCost ((s.setDevice device pc).device other)) +
        deviceCost (s.device device) =
      (∑ other ∈ devList.toFinset, deviceCost (s.device other)) + deviceCost pc := by
  have here := List.mem_toFinset.mpr member
  have others : ∑ other ∈ devList.toFinset.erase device,
      deviceCost ((s.setDevice device pc).device other) =
        ∑ other ∈ devList.toFinset.erase device, deviceCost (s.device other) :=
    Finset.sum_congr rfl fun other hit => by
      simp only [setDevice, Function.update_of_ne (Finset.ne_of_mem_erase hit)]
  have own : deviceCost ((s.setDevice device pc).device device) = deviceCost pc := by
    simp only [setDevice, Function.update_self]
  rw [← Finset.add_sum_erase _ _ here, own, others,
    ← Finset.add_sum_erase _ (fun other => deviceCost (s.device other)) here]
  omega

/-- A signal wakes the timer for at most four more statements. -/
theorem timerCost_signalEvent (devList : List ι) (device : ι) (pc : TimerPc ι) :
    timerCost devList (signalEvent device pc) ≤ timerCost devList pc + 4 := by
  unfold signalEvent
  split
  · rename_i next rest fsh event
    by_cases same : next = device <;> simp [timerCost, same]
  · exact Nat.le_add_right _ _

theorem deviceCost_signalTimer (pc : DevicePc) :
    deviceCost (signalTimer pc) ≤ deviceCost pc + 3 := by
  cases pc with
  | wait pc => cases pc <;> simp [signalTimer, deviceCost]
  | _ => simp [signalTimer]

/-- A statement of a device lowers the cost of what is left in the slot. -/
theorem DeviceMove.cost {device : ι} (moved : DeviceMove s device label t)
    (known : Consistent devList s) : t.cost devList + 1 ≤ s.cost devList := by
  have attached (moving : s.device device ≠ .outside) : device ∈ devList :=
    known.attached device moving
  -- the statements that leave the timer where it is
  have alone (pc : DevicePc) (moving : s.device device ≠ .outside)
      (less : deviceCost pc + 1 ≤ deviceCost (s.device device)) :
      (s.setDevice device pc).cost devList + 1 ≤ s.cost devList := by
    have changed := deviceCost_setDevice (s := s) (attached moving) pc
    simp only [Threads.cost] at changed ⊢
    have timer : (s.setDevice device pc).timer = s.timer := rfl
    rw [timer]
    omega
  cases moved with
  | @lockEvent here kind at_lock free =>
      rcases kind with rfl | rfl
      · exact alone _ (by simp [at_lock]) (by simp [at_lock, deviceCost])
      · exact alone _ (by simp [at_lock]) (by simp [at_lock, deviceCost])
  | setDone at_set => exact alone _ (by simp [at_set]) (by simp [at_set, deviceCost])
  | setFsh at_set => exact alone _ (by simp [at_set]) (by simp [at_set, deviceCost])
  | @signal here kind at_signal =>
      have moving : s.device device ≠ .outside := by
        rcases kind with rfl | rfl <;> simp [at_signal]
      have less : deviceCost (here .unlock) + 5 = deviceCost (s.device device) := by
        rw [at_signal]
        rcases kind with rfl | rfl <;> rfl
      have changed := deviceCost_setDevice (s := s) (attached moving) (here .unlock)
      have woken := timerCost_signalEvent devList device s.timer
      simp only [Threads.cost, setDevice, setTimer] at changed ⊢
      omega
  | unlockSlot at_unlock => exact alone _ (by simp [at_unlock]) (by simp [at_unlock, deviceCost])
  | unlockDetach at_unlock => exact alone _ (by simp [at_unlock]) (by simp [at_unlock, deviceCost])
  | lockTimer ready free =>
      rcases ready with here | here
      · exact alone _ (by simp [here]) (by simp [here, deviceCost])
      · exact alone _ (by simp [here]) (by simp [here, deviceCost])
  | sleep tests done => exact alone _ (by simp [tests]) (by simp [tests, deviceCost])
  | pass tests cleared => exact alone _ (by simp [tests]) (by simp [tests, deviceCost])
  | unlockTimer at_unlock =>
      exact alone _ (by simp [at_unlock]) (by simp [at_unlock, deviceCost])

/-- A statement of the timer lowers the cost of what is left in the slot, unless it ends it. -/
theorem TimerMove.cost (moved : TimerMove devList s label t) (noTick : label ≠ some .tick)
    (known : Consistent devList s) : t.cost devList + 1 ≤ s.cost devList := by
  -- the statements that leave the devices where they are
  have alone (pc : TimerPc ι) (less : timerCost devList pc + 1 ≤ timerCost devList s.timer) :
      (s.setTimer pc).cost devList + 1 ≤ s.cost devList := by
    simp only [Threads.cost, setTimer]
    omega
  cases moved with
  | tick scanned => exact absurd rfl noTick
  | lockEvent scans ready free =>
      rcases ready with rfl | rfl
      · exact alone _ (by simp [scans, timerCost])
      · exact alone _ (by simp [scans, timerCost])
  | pass tests flagged => exact alone _ (by simp [tests, timerCost])
  | sleep tests notDone attached => exact alone _ (by simp [tests, timerCost])
  | count counts => exact alone _ (by simp [counts, timerCost])
  | @unlockEvent device rest fsh event unlocks =>
      refine alone _ ?_
      cases rest with
      | nil => simp [unlocks, timerCost]
      | cons next rest =>
          simp only [unlocks, timerCost, List.length_cons]
          omega
  | leave released all => exact alone _ (by simp [released, timerCost])
  | stay released some_left => exact alone _ (by simp [released, timerCost])
  | lockTimer at_lock free => exact alone _ (by simp [at_lock, timerCost])
  | reset at_set => exact alone _ (by simp [at_set, timerCost])
  | @signal device rest fsh event at_signal =>
      have woken := deviceCost_signalTimer (s.device device)
      by_cases member : device ∈ devList
      · have changed := deviceCost_setDevice (s := s) member (signalTimer (s.device device))
        simp only [Threads.cost, setDevice, setTimer, at_signal, timerCost] at changed ⊢
        omega
      · -- a device that is not attached has not moved
        have outside : s.device device = .outside := by
          by_contra moving
          exact member (known.attached device moving)
        have same : s.setDevice device (signalTimer (s.device device)) = s := by
          simp only [setDevice, outside, signalTimer]
          rw [← outside, Function.update_eq_self]
        rw [same]
        exact alone _ (by simp [at_signal, timerCost])
  | @unlockTimer device rest fsh event at_unlock =>
      refine alone _ ?_
      cases rest with
      | nil => simp [at_unlock, timerCost]
      | cons next rest =>
          simp only [at_unlock, timerCost, List.length_cons]
          omega
  | @stopTest fsh event tests =>
      refine alone _ ?_
      cases stopped : s.timerStop with
      | true => simp [tests, timerCost]
      | false =>
          cases devList with
          | nil => simp [tests, timerCost]
          | cons next rest =>
              simp only [Bool.false_eq_true, ↓reduceIte, tests, timerCost, List.length_cons]
              omega

/-- A device has at most 11 statements to be done in a slot, with the waiting that they end. -/
theorem deviceCost_le (pc : DevicePc) : deviceCost pc ≤ 11 := by
  cases pc with
  | slot pc => cases pc <;> decide
  | wait pc => cases pc <;> decide
  | detach pc => cases pc <;> decide
  | _ => decide

/-- The devices that a loop has not passed. -/
def ahead : Routine ι → List ι
  | .scan rest _ _ => rest
  | .release rest _ _ => rest
  | .exited => []

omit [DecidableEq ι] in
/-- The timer has no more devices before it in its scan than are attached. -/
theorem ahead_le {s : TimerState ι} (tallied : TimerState.Tallied devList s) :
    (ahead s.routine).length ≤ devList.length := by
  cases here : s.routine with
  | scan rest fsh event =>
      simp only [TimerState.Tallied, here] at tallied
      obtain ⟨checked, split, -⟩ := tallied
      simp [ahead, split]
  | release rest fsh event =>
      simp only [TimerState.Tallied, here] at tallied
      obtain ⟨⟨cleared, split⟩, -⟩ := tallied
      simp [ahead, split]
  | exited => exact Nat.zero_le _

omit [DecidableEq ι] in
/-- The timer has at most 11 statements for each device, and 7 others. -/
theorem timerCost_le (tallied : TimerState.Tallied devList s.barrier) :
    timerCost devList s.timer ≤ 11 * devList.length + 7 := by
  have within : (ahead (routine s.timer)).length ≤ devList.length := ahead_le tallied
  cases here : s.timer with
  | scan rest fsh event pc =>
      rw [here] at within
      cases rest with
      | nil => exact Nat.zero_le _
      | cons next rest =>
          cases pc <;>
            simp only [routine, ahead, List.tail_cons, List.length_cons, timerCost] at within ⊢ <;>
            omega
  | count next rest fsh event =>
      rw [here] at within
      simp only [routine, ahead, List.length_cons, timerCost] at within ⊢
      omega
  | release rest fsh event pc =>
      rw [here] at within
      cases rest with
      | nil =>
          simp only [timerCost]
          omega
      | cons next rest =>
          cases pc <;>
            simp only [routine, ahead, List.tail_cons, List.length_cons, timerCost] at within ⊢ <;>
            omega
  | stopTest fsh event =>
      simp only [timerCost]
      omega
  | exited => exact Nat.zero_le _

/-- What is left in a slot is bounded by the number of devices. -/
theorem cost_le (tallied : TimerState.Tallied devList s.barrier) :
    s.cost devList ≤ 22 * devList.length + 7 := by
  have timer := timerCost_le tallied
  have devices : ∑ device ∈ devList.toFinset, deviceCost (s.device device) ≤
      devList.toFinset.card • 11 :=
    Finset.sum_le_card_nsmul _ _ _ fun device _ => deviceCost_le (s.device device)
  have number := devList.toFinset_card_le
  rw [Nat.nsmul_eq_mul] at devices
  unfold Threads.cost
  omega

/-- A statement of a thread other than the increment of `_time`: no call of a device, and no wake-up
for no reason. -/
def Own (label : Turn ι × Option (TimerStep ι)) : Prop :=
  (label.1 = .timer ∨ ∃ device, label.1 = .device device) ∧ label.2 ≠ some .tick

/-- Every own statement of the threads lowers the cost of what is left in the slot. -/
theorem Step.cost {turn : Turn ι × Option (TimerStep ι)} (taken : Step devList s turn t)
    (own : Own turn) (known : Consistent devList s) :
    Consistent devList t ∧ t.cost devList + 1 ≤ s.cost devList := by
  obtain ⟨turn, label⟩ := turn
  have moved := taken.move
  refine ⟨(moved.refines known).1, ?_⟩
  obtain ⟨rfl | ⟨device, rfl⟩, noTick⟩ := own
  · cases moved with
    | call kind => simp at kind
    | timer moved => exact moved.cost noTick known
  · cases moved with
    | call kind => simp at kind
    | device moved => exact moved.cost known

theorem run_cost {labels : List (Turn ι × Option (TimerStep ι))}
    (run : Run (Step devList) s labels t) (own : ∀ label ∈ labels, Own label)
    (known : Consistent devList s) : labels.length + t.cost devList ≤ s.cost devList := by
  have bound := run.countP_add_le (Consistent devList) (fun _ => true)
    (fun state => (state.cost devList : Int))
    (fun before label after known own taken => by
      obtain ⟨still, less⟩ := taken.cost own known
      exact ⟨still, by simp only [if_true]; omega⟩) known own
  simp only [List.countP_true] at bound
  omega

/-- **Every slot ends.** From any reachable state the threads do at most `22 n + 7` statements of
their own before the next tick, in whatever order they are scheduled, with `n` attached devices. And
when no other statement is left, the tick comes, unless the timer waits for a device that has yet to
finish its slot, or has left its loop. -/
theorem slot_ends {history labels : List (Turn ι × Option (TimerStep ι))}
    (run : Run (Step devList) (start devList) history s) (future : Run (Step devList) s labels t)
    (own : ∀ label ∈ labels, Own label) :
    labels.length ≤ 22 * devList.length + 7 ∧
      ((∀ label after, Step devList t label after → ¬ Own label) →
        (∃ after, Step devList t (.timer, some .tick) after) ∨ AwaitsDevice devList t ∨
          Ended devList t) := by
  have tallied {history : List (Turn ι × Option (TimerStep ι))} {s : Threads ι}
      (run : Run (Step devList) (start devList) history s) :
      TimerState.Tallied devList s.barrier := by
    exact (run_refines run).2.invariant (TimerState.Tallied devList)
      (fun _ _ _ tally taken => tally.step taken) (TimerState.startTimer_barrier devList).tally
  constructor
  · have spent := run_cost future own (run_refines run).1
    have bound := cost_le (tallied run)
    omega
  · intro stuck
    have there := run.append future
    rcases enabled_or_waiting (run_sound there) (run_refines there).1 (tallied there) with
      (timer | ⟨device, -, moves⟩) | waits
    · obtain ⟨⟨label, after⟩, taken⟩ := Option.isSome_iff_exists.mp timer
      refine .inl ⟨after, ?_⟩
      by_contra other
      refine stuck (.timer, label) after taken ⟨.inl rfl, fun tick => other ?_⟩
      rw [← tick]
      exact taken
    · obtain ⟨⟨label, after⟩, taken⟩ := Option.isSome_iff_exists.mp moves
      refine absurd ⟨.inr ⟨device, rfl⟩, fun tick => ?_⟩ (stuck (.device device, label) after taken)
      subst tick
      cases deviceStep_moves taken
    · exact .inr waits

/-- The devices signal and go to sleep themselves, and the timer counts them. -/
def wakeUp : List (Turn (Fin 2)) :=
  List.replicate 4 (.device here) ++ List.replicate 4 (.device there) ++ List.replicate 8 .timer

/-- What happens in these turns after the timer has gone to sleep. -/
def woken : List (Turn (Fin 2) × Option (TimerStep (Fin 2))) × Threads (Fin 2) :=
  (asleep.2.play [here, there] wakeUp).get (by decide +kernel)

/-- Nobody but the timer has a statement left, and it advances the clock. -/
theorem slot_ends_wakeUp : woken.1.length = 16 ∧ woken.1.length ≤ 22 * 2 + 7 ∧
    ∃ after, Step [here, there] woken.2 (.timer, some .tick) after := by
  have run : Run (Step [here, there]) asleep.2 woken.1 woken.2 := run_play_get _
  have own : ∀ label ∈ woken.1, Own label := by
    have turns : woken.1.map Prod.fst = wakeUp := by decide +kernel
    have noTick : ∀ label ∈ woken.1, label.2 ≠ some .tick := by decide +kernel
    refine fun label member => ⟨?_, noTick label member⟩
    have turn : label.1 ∈ wakeUp := turns ▸ List.mem_map_of_mem member
    simp only [wakeUp, List.mem_append, List.mem_replicate] at turn
    rcases turn with (⟨-, turn⟩ | ⟨-, turn⟩) | ⟨-, turn⟩
    · exact .inr ⟨here, turn⟩
    · exact .inr ⟨there, turn⟩
    · exact .inl turn
  have scanned : woken.2.timer = .scan [] 0 2 .lock := rfl
  have waits : ∀ device, woken.2.device device = .wait .sleep
    | 0 => rfl
    | 1 => rfl
  have stuck : ∀ label after, Step [here, there] woken.2 label after → ¬ Own label := by
    rintro ⟨turn, label⟩ after taken ⟨rfl | ⟨device, rfl⟩, noTick⟩
    · simp only [Step, next, timerStep, scanned, Option.some.injEq, Prod.mk.injEq] at taken
      exact noTick taken.1.symm
    · simp only [Step, next, deviceStep, waits, reduceCtorEq] at taken
  obtain ⟨bound, ends⟩ := slot_ends run_asleep run own
  refine ⟨by decide +kernel, bound, ?_⟩
  rcases ends stuck with tick | ⟨_, _, _, _, _, sleeps, _⟩ | ⟨gone, _⟩
  · exact tick
  · simp [scanned] at sleeps
  · simp [scanned] at gone

end Threads

end PagedOs
