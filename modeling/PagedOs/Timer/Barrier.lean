import Mathlib.Data.List.Nodup
import Mathlib.Logic.Function.Basic
import PagedOs.Library.Transition

/-! # The timer

`timer.c` keeps one record for each attached device. A device that has finished
its slot sets `done` in `next_slot` and waits there until the timer clears it;
the timer waits for every device to be done or detached, advances `_time` and
clears the flags one by one. Each lock-protected section is one step here, and so
is the increment of `_time`; a label names the step, so what a device has done is
read off the history of a run.
-/

namespace PagedOs

open Transition

/-- Where `timer_routine` stands: in the scan of the device list, with the
devices still to check and the counters `fsh` and `event`; in the loop that
clears the flags, with the devices still to clear; or past its loop. -/
inductive Routine (ι : Type*) where
  | scan (rest : List ι) (fsh event : Nat)
  | release (rest : List ι) (fsh event : Nat)
  | exited

/-- The static state of `timer.c` with the threads that use it: `inside` tells
whether a device is between its set-done and its return from `next_slot`. The clock
is not bounded here, where `_time` is a `uint64_t` that starts again behind `2 ^ 64 - 1` slots. -/
structure TimerState (ι : Type*) where
  time : Nat
  done : ι → Bool
  fsh : ι → Bool
  inside : ι → Bool
  routine : Routine ι
  timerStop : Bool

/-- The atomic steps: what a device or the timer does under a lock, the tick between two slots, and
the request to stop. -/
inductive TimerStep (ι : Type*) where
  | setDone (device : ι)
  | returned (device : ι)
  | detach (device : ι)
  | check (device : ι)
  | tick
  | reset (device : ι)
  | loop
  | stop
  deriving DecidableEq

variable {ι : Type*} [DecidableEq ι]

namespace TimerState

omit [DecidableEq ι] in
/-- The state `start_timer` leaves behind, every device attached before it. -/
def startTimer (devList : List ι) : TimerState ι where
  time := 0
  done := fun _ => false
  fsh := fun _ => false
  inside := fun _ => false
  routine := .scan devList 0 0
  timerStop := false

/-- One step of a device thread, of `timer_routine` or of `stop_timer`. -/
def advance (devList : List ι) (s : TimerState ι) : TimerStep ι → Option (TimerState ι)
  | .setDone device =>
      if device ∈ devList ∧ s.inside device = false ∧ s.fsh device = false then
        some { s with
          done := Function.update s.done device true
          inside := Function.update s.inside device true }
      else none
  | .returned device =>
      if s.inside device = true ∧ s.done device = false then
        some { s with inside := Function.update s.inside device false }
      else none
  | .detach device =>
      if device ∈ devList ∧ s.inside device = false ∧ s.fsh device = false then
        some { s with fsh := Function.update s.fsh device true }
      else none
  | .check device =>
      match s.routine with
      | .scan (next :: rest) fsh event =>
          if next = device ∧ (s.done device = true ∨ s.fsh device = true) then
            some { s with
              routine := .scan rest (if s.fsh device then fsh + 1 else fsh) (event + 1) }
          else none
      | _ => none
  | .tick =>
      match s.routine with
      | .scan [] fsh event =>
          some { s with time := s.time + 1, routine := .release devList fsh event }
      | _ => none
  | .reset device =>
      match s.routine with
      | .release (next :: rest) fsh event =>
          if next = device then
            some { s with
              done := Function.update s.done device false
              routine := .release rest fsh event }
          else none
      | _ => none
  | .loop =>
      match s.routine with
      | .release [] fsh event =>
          some { s with
            routine :=
              if fsh = event then .exited
              else if s.timerStop then .exited
              else .scan devList 0 0 }
      | _ => none
  | .stop => some { s with timerStop := true }

/-- The steps of the timer and its devices. -/
def Step (devList : List ι) (s : TimerState ι) (label : TimerStep ι) (t : TimerState ι) : Prop :=
  s.advance devList label = some t

/-- What a step requires of the state before it and does to that state. -/
def Effect (devList : List ι) (s t : TimerState ι) : TimerStep ι → Prop
  | .setDone device =>
      device ∈ devList ∧ s.inside device = false ∧ s.fsh device = false ∧
        t = { s with
          done := Function.update s.done device true
          inside := Function.update s.inside device true }
  | .returned device =>
      s.inside device = true ∧ s.done device = false ∧
        t = { s with inside := Function.update s.inside device false }
  | .detach device =>
      device ∈ devList ∧ s.inside device = false ∧ s.fsh device = false ∧
        t = { s with fsh := Function.update s.fsh device true }
  | .check device =>
      ∃ rest fsh event, s.routine = .scan (device :: rest) fsh event ∧
        (s.done device = true ∨ s.fsh device = true) ∧
          t = { s with
            routine := .scan rest (if s.fsh device then fsh + 1 else fsh) (event + 1) }
  | .tick =>
      ∃ fsh event, s.routine = .scan [] fsh event ∧
        t = { s with time := s.time + 1, routine := .release devList fsh event }
  | .reset device =>
      ∃ rest fsh event, s.routine = .release (device :: rest) fsh event ∧
        t = { s with
          done := Function.update s.done device false
          routine := .release rest fsh event }
  | .loop =>
      ∃ fsh event, s.routine = .release [] fsh event ∧
        t = { s with
          routine :=
            if fsh = event then .exited
            else if s.timerStop then .exited
            else .scan devList 0 0 }
  | .stop => t = { s with timerStop := true }

/-- What each step does to the timer and the flags, read off the definition of the steps once for
all. -/
theorem Step.effect {devList : List ι} {s t : TimerState ι} {label : TimerStep ι}
    (taken : Step devList s label t) : Effect devList s t label := by
  unfold Step at taken
  cases label with
  | setDone device =>
      rw [advance] at taken
      split at taken
      · rename_i guard
        exact ⟨guard.1, guard.2.1, guard.2.2, (Option.some.inj taken).symm⟩
      · cases taken
  | returned device =>
      rw [advance] at taken
      split at taken
      · rename_i guard
        exact ⟨guard.1, guard.2, (Option.some.inj taken).symm⟩
      · cases taken
  | detach device =>
      rw [advance] at taken
      split at taken
      · rename_i guard
        exact ⟨guard.1, guard.2.1, guard.2.2, (Option.some.inj taken).symm⟩
      · cases taken
  | check device =>
      rw [advance] at taken
      split at taken
      · rename_i next rest fsh event at_scan
        split at taken
        · rename_i guard
          obtain ⟨rfl, ready⟩ := guard
          exact ⟨rest, fsh, event, at_scan, ready, (Option.some.inj taken).symm⟩
        · cases taken
      · cases taken
  | tick =>
      rw [advance] at taken
      split at taken
      · rename_i fsh event at_scan
        exact ⟨fsh, event, at_scan, (Option.some.inj taken).symm⟩
      · cases taken
  | reset device =>
      rw [advance] at taken
      split at taken
      · rename_i next rest fsh event at_release
        split at taken
        · rename_i same
          subst same
          exact ⟨rest, fsh, event, at_release, (Option.some.inj taken).symm⟩
        · cases taken
      · cases taken
  | loop =>
      rw [advance] at taken
      split at taken
      · rename_i fsh event at_release
        exact ⟨fsh, event, at_release, (Option.some.inj taken).symm⟩
      · cases taken
  | stop => exact (Option.some.inj taken).symm

/-- `current_time`, which devices read without a lock. -/
def currentTime (s : TimerState ι) : Nat := s.time

/-- The calls of `next_slot` a device has started. -/
def started (device : ι) (history : List (TimerStep ι)) : Nat :=
  history.count (.setDone device)

/-- The calls of `next_slot` a device has returned from. -/
def completed (device : ι) (history : List (TimerStep ι)) : Nat :=
  history.count (.returned device)

/-- The device has been checked in the current round and not yet cleared. -/
def counted (s : TimerState ι) (device : ι) : Prop :=
  match s.routine with
  | .scan rest _ _ => device ∉ rest
  | .release rest _ _ => device ∈ rest
  | .exited => False

/-- Whether the slot a device waits for has begun without its flag being cleared. -/
def lag (s : TimerState ι) (device : ι) : Nat :=
  match s.routine with
  | .release rest _ _ => if device ∈ rest then 1 else 0
  | _ => 0

/-- What a run maintains about one device of the list. -/
structure Synchronised (history : List (TimerStep ι)) (s : TimerState ι) (device : ι) : Prop where
  calls : started device history =
    completed device history + if s.inside device then 1 else 0
  detached : s.fsh device = true → s.inside device = false
  outside : s.fsh device = false → s.inside device = false →
    s.done device = false ∧ completed device history = s.time ∧ ¬ s.counted device
  waiting : s.inside device = true → s.done device = true →
    completed device history + s.lag device = s.time
  released : s.inside device = true → s.done device = false →
    completed device history + 1 = s.time ∧ ¬ s.counted device

/-- What a run maintains about the position and the counters of `timer_routine`. -/
def Tallied (devList : List ι) (s : TimerState ι) : Prop :=
  match s.routine with
  | .scan rest fsh event =>
      ∃ checked, devList = checked ++ rest ∧ event = checked.length ∧ fsh ≤ event ∧
        (fsh = event → ∀ device ∈ checked, s.fsh device = true)
  | .release rest fsh event =>
      (∃ cleared, devList = cleared ++ rest) ∧
        (fsh = event → ∀ device ∈ devList, s.fsh device = true)
  | .exited => s.timerStop = true ∨ ∀ device ∈ devList, s.fsh device = true

/-- The barrier invariant: what a run maintains about every device of the list, and about the
counters of the timer. -/
structure Barrier (devList : List ι) (history : List (TimerStep ι)) (s : TimerState ι) : Prop where
  devices : ∀ device ∈ devList, Synchronised history s device
  tally : Tallied devList s

/-- Detaching only adds to the devices that are detached. -/
theorem fsh_mono {s : TimerState ι} {device other : ι} (gone : s.fsh other = true) :
    Function.update s.fsh device true other = true := by
  by_cases same : other = device
  · rw [same, Function.update_self]
  · rwa [Function.update_of_ne same]

/-- A step keeps the tally of the devices that the timer has counted in its scan. -/
theorem Tallied.step {devList : List ι} {s t : TimerState ι} {label : TimerStep ι}
    (tally : Tallied devList s) (taken : Step devList s label t) : Tallied devList t := by
  have effect := taken.effect
  cases label with
  | setDone device =>
      obtain ⟨_, _, _, rfl⟩ := effect
      exact tally
  | returned device =>
      obtain ⟨_, _, rfl⟩ := effect
      exact tally
  | detach device =>
      obtain ⟨_, _, _, rfl⟩ := effect
      unfold Tallied at tally ⊢
      dsimp only
      split at tally
      · obtain ⟨checked, split, counter, bound, all⟩ := tally
        exact ⟨checked, split, counter, bound, fun equal other member =>
          fsh_mono (all equal other member)⟩
      · exact ⟨tally.1, fun equal other member => fsh_mono (tally.2 equal other member)⟩
      · exact tally.imp_right fun all other member => fsh_mono (all other member)
  | check device =>
      obtain ⟨rest, fsh, event, at_scan, _, rfl⟩ := effect
      simp only [Tallied, at_scan] at tally
      obtain ⟨checked, split, counter, bound, all⟩ := tally
      refine ⟨checked ++ [device], by simpa using split, by simp [counter], ?_, ?_⟩
      · split <;> omega
      · intro equal other member
        cases gone : s.fsh device with
        | false =>
            simp only [gone, Bool.false_eq_true, ↓reduceIte] at equal
            omega
        | true =>
            simp only [gone, ↓reduceIte] at equal
            rcases List.mem_append.mp member with earlier | last
            · exact all (by omega) other earlier
            · rwa [List.mem_singleton.mp last]
  | tick =>
      obtain ⟨fsh, event, at_scan, rfl⟩ := effect
      simp only [Tallied, at_scan, List.append_nil] at tally
      obtain ⟨checked, rfl, _, _, all⟩ := tally
      exact ⟨⟨[], rfl⟩, all⟩
  | reset device =>
      obtain ⟨rest, fsh, event, at_release, rfl⟩ := effect
      simp only [Tallied, at_release] at tally
      obtain ⟨⟨cleared, split⟩, all⟩ := tally
      exact ⟨⟨cleared ++ [device], by simpa using split⟩, all⟩
  | loop =>
      obtain ⟨fsh, event, at_release, rfl⟩ := effect
      simp only [Tallied, at_release] at tally
      by_cases equal : fsh = event
      · simp only [Tallied, equal, ↓reduceIte]
        exact .inr (tally.2 equal)
      · by_cases stopped : s.timerStop = true
        · simp only [Tallied, equal, stopped, ↓reduceIte, true_or]
        · simp only [Tallied, equal, stopped, Bool.false_eq_true, ↓reduceIte]
          exact ⟨[], rfl, rfl, Nat.le_refl 0, fun _ _ member => absurd member List.not_mem_nil⟩
  | stop =>
      cases effect
      unfold Tallied at tally ⊢
      dsimp only
      split at tally
      · exact tally
      · exact tally
      · exact .inl rfl

/-- A device has called `next_slot` once more when it sets `done`. -/
theorem started_snoc (device : ι) (history : List (TimerStep ι)) (label : TimerStep ι) :
    started device (history ++ [label]) =
      started device history + if label = .setDone device then 1 else 0 := by
  simp only [started, List.count_append, List.count_singleton, beq_iff_eq]

/-- A device has finished a slot more when it returns from `next_slot`. -/
theorem completed_snoc (device : ι) (history : List (TimerStep ι)) (label : TimerStep ι) :
    completed device (history ++ [label]) =
      completed device history + if label = .returned device then 1 else 0 := by
  simp only [completed, List.count_append, List.count_singleton, beq_iff_eq]

/-- Only its own steps count as calls of a device. -/
theorem started_other {device : ι} {history : List (TimerStep ι)} {label : TimerStep ι}
    (noCall : label ≠ .setDone device) :
    started device (history ++ [label]) = started device history := by
  rw [started_snoc, if_neg noCall, Nat.add_zero]

/-- No step but its own return finishes a slot of a device. -/
theorem completed_other {device : ι} {history : List (TimerStep ι)} {label : TimerStep ι}
    (noReturn : label ≠ .returned device) :
    completed device (history ++ [label]) = completed device history := by
  rw [completed_snoc, if_neg noReturn, Nat.add_zero]

/-- A step that neither begins nor ends a call of the device leaves the balance of its calls. -/
theorem Synchronised.calls_kept {history : List (TimerStep ι)} {s : TimerState ι} {device : ι}
    (held : Synchronised history s device) {label : TimerStep ι}
    (noCall : label ≠ .setDone device) (noReturn : label ≠ .returned device) :
    started device (history ++ [label]) =
      completed device (history ++ [label]) + if s.inside device then 1 else 0 := by
  rw [started_other noCall, completed_other noReturn]
  exact held.calls

/-- A step of another device, or one that only moves the timer past other
devices, changes nothing this device's part of the invariant speaks of. -/
theorem Synchronised.congr {history : List (TimerStep ι)} {s t : TimerState ι} {device : ι}
    (held : Synchronised history s device) {label : TimerStep ι}
    (noCall : label ≠ .setDone device) (noReturn : label ≠ .returned device)
    (time : t.time = s.time) (done : t.done device = s.done device)
    (inside : t.inside device = s.inside device) (fsh : t.fsh device = s.fsh device)
    (counted : t.counted device ↔ s.counted device) (lag : t.lag device = s.lag device) :
    Synchronised (history ++ [label]) t device where
  calls := by rw [inside]; exact held.calls_kept noCall noReturn
  detached := by rw [fsh, inside]; exact held.detached
  outside := by
    rw [fsh, inside, done, completed_other noReturn, time, counted]
    exact held.outside
  waiting := by
    rw [inside, done, completed_other noReturn, time, lag]
    exact held.waiting
  released := by
    rw [inside, done, completed_other noReturn, time, counted]
    exact held.released

/-- A device that is not waiting to be cleared has no slot behind it. -/
theorem lag_of_not_counted {s : TimerState ι} {device : ι} (free : ¬ s.counted device) :
    s.lag device = 0 := by
  unfold lag
  split
  · rename_i rest _ _ at_release
    have absent : device ∉ rest := by simpa only [counted, at_release] using free
    rw [if_neg absent]
  · rfl

omit [DecidableEq ι] in
/-- The devices still to be checked or cleared are listed once. -/
theorem Tallied.nodup_rest {devList : List ι} {s : TimerState ι} (tally : Tallied devList s)
    (nodup : devList.Nodup) :
    match s.routine with
    | .scan rest _ _ => rest.Nodup
    | .release rest _ _ => rest.Nodup
    | .exited => True := by
  unfold Tallied at tally
  split at tally
  · obtain ⟨checked, rfl, _⟩ := tally
    exact nodup.of_append_right
  · obtain ⟨⟨cleared, rfl⟩, _⟩ := tally
    exact nodup.of_append_right
  · trivial

/-- A flag that was just set does not have the other value. -/
private theorem update_self_absurd {flags : ι → Bool} {device : ι} {flag : Bool}
    (other : Function.update flags device flag device = !flag) : False := by
  rw [Function.update_self] at other
  cases flag <;> cases other

namespace Synchronised

variable {devList : List ι} {history : List (TimerStep ι)} {s t : TimerState ι} {device : ι}

/-- The device enters `next_slot` in time and waits. -/
theorem setDone (held : Synchronised history s device)
    (effect : Effect devList s t (.setDone device)) :
    Synchronised (history ++ [.setDone device]) t device := by
  obtain ⟨_, wasOutside, attached, rfl⟩ := effect
  obtain ⟨_, inTime, free⟩ := held.outside attached wasOutside
  have calls := held.calls
  have noLag : s.lag device = 0 := lag_of_not_counted free
  refine ⟨?_, ?_, ?_, ?_, ?_⟩
  · simp only [started_snoc, completed_snoc, Function.update_self, reduceCtorEq, ↓reduceIte,
      wasOutside, Bool.false_eq_true] at calls ⊢
    omega
  · intro gone
    exact absurd (attached.symm.trans gone) Bool.false_ne_true
  · intro _ outside
    exact (update_self_absurd outside).elim
  · intro _ _
    simp only [completed_snoc, reduceCtorEq, ↓reduceIte, Nat.add_zero]
    exact (congrArg (completed device history + ·) noLag).trans inTime
  · intro _ cleared
    exact (update_self_absurd cleared).elim

/-- The device leaves `next_slot` after its flag was cleared. -/
theorem returned (held : Synchronised history s device)
    (effect : Effect devList s t (.returned device)) :
    Synchronised (history ++ [.returned device]) t device := by
  obtain ⟨wasInside, cleared, rfl⟩ := effect
  obtain ⟨behind, free⟩ := held.released wasInside cleared
  have calls := held.calls
  refine ⟨?_, ?_, ?_, ?_, ?_⟩
  · simp only [started_snoc, completed_snoc, Function.update_self, reduceCtorEq, ↓reduceIte,
      wasInside, Bool.false_eq_true] at calls ⊢
    omega
  · intro _
    exact Function.update_self ..
  · intro _ _
    refine ⟨cleared, ?_, free⟩
    simpa only [completed_snoc, ↓reduceIte] using behind
  · intro inside
    exact (update_self_absurd inside).elim
  · intro inside
    exact (update_self_absurd inside).elim

theorem detach (held : Synchronised history s device)
    (effect : Effect devList s t (.detach device)) :
    Synchronised (history ++ [.detach device]) t device := by
  obtain ⟨_, wasOutside, attached, rfl⟩ := effect
  refine ⟨?_, fun _ => wasOutside, ?_, ?_, ?_⟩
  · exact held.calls_kept (by simp) (by simp)
  · intro stillAttached
    exact (update_self_absurd stillAttached).elim
  · intro inside
    exact absurd (wasOutside.symm.trans inside) Bool.false_ne_true
  · intro inside
    exact absurd (wasOutside.symm.trans inside) Bool.false_ne_true

/-- A device the scan passes while attached has its flag set, so it is inside `next_slot`. -/
theorem check (held : Synchronised history s device)
    (effect : Effect devList s t (.check device)) :
    Synchronised (history ++ [.check device]) t device := by
  obtain ⟨rest, fsh, event, at_scan, ready, rfl⟩ := effect
  have flagged : s.fsh device = false → s.done device = true := fun attached =>
    ready.resolve_right fun gone => Bool.false_ne_true (attached.symm.trans gone)
  refine ⟨?_, held.detached, ?_, ?_, ?_⟩
  · exact held.calls_kept (by simp) (by simp)
  · intro attached outside
    exact absurd ((held.outside attached outside).1.symm.trans (flagged attached))
      Bool.false_ne_true
  · intro inside done
    have lagless := held.waiting inside done
    simp only [lag, at_scan] at lagless
    simpa only [completed_snoc, reduceCtorEq, ↓reduceIte, Nat.add_zero, lag] using lagless
  · intro inside cleared
    have attached : s.fsh device = false := by
      by_contra gone
      have outside := held.detached (by simpa using gone)
      exact absurd (outside.symm.trans inside) Bool.false_ne_true
    exact absurd (cleared.symm.trans (flagged attached)) Bool.false_ne_true

/-- The slot begins after every device was checked, and those inside wait for their flags. -/
theorem tick (held : Synchronised history s device) (member : device ∈ devList)
    (effect : Effect devList s t .tick) : Synchronised (history ++ [.tick]) t device := by
  obtain ⟨fsh, event, at_scan, rfl⟩ := effect
  have everyone : s.counted device := by simp [counted, at_scan]
  refine ⟨?_, held.detached, ?_, ?_, ?_⟩
  · exact held.calls_kept (by simp) (by simp)
  · intro attached outside
    exact absurd everyone (held.outside attached outside).2.2
  · intro inside done
    have lagless := held.waiting inside done
    simp only [lag, at_scan, Nat.add_zero] at lagless
    simp only [completed_snoc, reduceCtorEq, ↓reduceIte, Nat.add_zero, lag, member, lagless]
  · intro inside cleared
    exact absurd everyone (held.released inside cleared).2

/-- The flag of the device is cleared, once in a round. -/
theorem reset (held : Synchronised history s device)
    (effect : Effect devList s t (.reset device))
    (listed : ∀ rest fsh event, s.routine = .release rest fsh event → rest.Nodup) :
    Synchronised (history ++ [.reset device]) t device := by
  obtain ⟨rest, fsh, event, at_release, rfl⟩ := effect
  have due : s.counted device := by simp [counted, at_release]
  have past : device ∉ rest := (List.nodup_cons.mp (listed _ _ _ at_release)).1
  refine ⟨?_, held.detached, ?_, ?_, ?_⟩
  · exact held.calls_kept (by simp) (by simp)
  · intro attached outside
    exact absurd due (held.outside attached outside).2.2
  · intro _ done
    exact (update_self_absurd done).elim
  · intro inside _
    refine ⟨?_, by simpa [counted] using past⟩
    by_cases done : s.done device = true
    · have behind := held.waiting inside done
      simp only [lag, at_release, List.mem_cons_self, ↓reduceIte] at behind
      simpa only [completed_snoc, reduceCtorEq, ↓reduceIte, Nat.add_zero] using behind
    · exact absurd due (held.released inside (by simpa using done)).2

/-- Every step keeps a device synchronised: its own steps and those of the timer about it as
above, and no other step touches it. -/
theorem step {label : TimerStep ι} (barrier : Barrier devList history s) (nodup : devList.Nodup)
    (taken : Step devList s label t) (member : device ∈ devList) :
    Synchronised (history ++ [label]) t device := by
  have effect := taken.effect
  have held := barrier.devices device member
  cases label with
  | setDone other =>
      by_cases same : device = other
      · subst same
        exact held.setDone effect
      · obtain ⟨_, _, _, rfl⟩ := effect
        exact held.congr (by simp [Ne.symm same]) (by simp) rfl
          (Function.update_of_ne same ..) (Function.update_of_ne same ..) rfl Iff.rfl rfl
  | returned other =>
      by_cases same : device = other
      · subst same
        exact held.returned effect
      · obtain ⟨_, _, rfl⟩ := effect
        exact held.congr (by simp) (by simp [Ne.symm same]) rfl rfl
          (Function.update_of_ne same ..) rfl Iff.rfl rfl
  | detach other =>
      by_cases same : device = other
      · subst same
        exact held.detach effect
      · obtain ⟨_, _, _, rfl⟩ := effect
        exact held.congr (by simp) (by simp) rfl rfl rfl
          (Function.update_of_ne same ..) Iff.rfl rfl
  | check other =>
      by_cases same : device = other
      · subst same
        exact held.check effect
      · obtain ⟨rest, fsh, event, at_scan, _, rfl⟩ := effect
        exact held.congr (by simp) (by simp) rfl rfl rfl rfl
          (by simp [counted, at_scan, same]) (by simp [lag, at_scan])
  | tick => exact held.tick member effect
  | reset other =>
      by_cases same : device = other
      · subst same
        apply held.reset effect
        intro rest fsh event at_release
        have listed := barrier.tally.nodup_rest nodup
        rwa [at_release] at listed
      · obtain ⟨rest, fsh, event, at_release, rfl⟩ := effect
        exact held.congr (by simp) (by simp) rfl
          (Function.update_of_ne same ..) rfl rfl (by simp [counted, at_release, same])
          (by simp [lag, at_release, same])
  | loop =>
      obtain ⟨fsh, event, at_release, rfl⟩ := effect
      have free : ¬ s.counted device := by simp [counted, at_release]
      refine held.congr (by simp) (by simp) rfl rfl rfl rfl ?_ ?_
      · refine iff_of_false ?_ free
        simp only [counted]
        split_ifs <;> simp [member]
      · rw [lag_of_not_counted free]
        simp only [lag]
        split_ifs <;> rfl
  | stop =>
      cases effect
      exact held.congr (by simp) (by simp) rfl rfl rfl rfl Iff.rfl rfl

end Synchronised

/-- **The step lemma of the barrier.** Each kind of step keeps the tally and the place of every
device. -/
theorem Barrier.step {devList : List ι} {history : List (TimerStep ι)} {s t : TimerState ι}
    {label : TimerStep ι} (barrier : Barrier devList history s) (nodup : devList.Nodup)
    (taken : Step devList s label t) : Barrier devList (history ++ [label]) t :=
  ⟨fun _ member => .step barrier nodup taken member, barrier.tally.step taken⟩

/-- Before the first step no device has called `next_slot`, and the timer begins its first scan. -/
theorem startTimer_barrier (devList : List ι) : Barrier devList [] (startTimer devList) where
  devices device member :=
    ⟨rfl, fun _ => rfl, fun _ _ => ⟨rfl, rfl, by simpa [counted, startTimer] using member⟩,
      fun _ flagged => absurd flagged (by simp [startTimer]),
      fun inside => absurd inside (by simp [startTimer])⟩
  tally := ⟨[], rfl, rfl, Nat.le_refl 0, fun _ _ member => absurd member List.not_mem_nil⟩

/-- Every run from `start_timer` keeps the barrier invariant. -/
theorem Barrier.run {devList : List ι} (nodup : devList.Nodup) {history : List (TimerStep ι)}
    {s : TimerState ι} (run : Run (Step devList) (startTimer devList) history s) :
    Barrier devList history s :=
  run.history_invariant (Barrier devList) (fun _ _ _ _ held taken => held.step nodup taken)
    (startTimer_barrier devList)

/-- Only its own steps move a device into and out of `next_slot` or detach it. -/
theorem Step.flags_kept {devList : List ι} {s t : TimerState ι} {label : TimerStep ι}
    (taken : Step devList s label t) {device : ι} (noCall : label ≠ .setDone device)
    (noReturn : label ≠ .returned device) (noDetach : label ≠ .detach device) :
    t.inside device = s.inside device ∧ t.fsh device = s.fsh device := by
  have effect := taken.effect
  cases label with
  | setDone other =>
      obtain ⟨_, _, _, rfl⟩ := effect
      have different : device ≠ other := fun same => noCall (by rw [same])
      exact ⟨Function.update_of_ne different .., rfl⟩
  | returned other =>
      obtain ⟨_, _, rfl⟩ := effect
      have different : device ≠ other := fun same => noReturn (by rw [same])
      exact ⟨Function.update_of_ne different .., rfl⟩
  | detach other =>
      obtain ⟨_, _, _, rfl⟩ := effect
      have different : device ≠ other := fun same => noDetach (by rw [same])
      exact ⟨rfl, Function.update_of_ne different ..⟩
  | check other =>
      obtain ⟨_, _, _, _, _, rfl⟩ := effect
      exact ⟨rfl, rfl⟩
  | tick =>
      obtain ⟨_, _, _, rfl⟩ := effect
      exact ⟨rfl, rfl⟩
  | reset other =>
      obtain ⟨_, _, _, _, rfl⟩ := effect
      exact ⟨rfl, rfl⟩
  | loop =>
      obtain ⟨_, _, _, rfl⟩ := effect
      exact ⟨rfl, rfl⟩
  | stop =>
      cases effect
      exact ⟨rfl, rfl⟩

/-- A device outside `next_slot` stays there until it calls it or is detached. -/
theorem Step.stays_outside {devList : List ι} {s t : TimerState ι} {label : TimerStep ι}
    (taken : Step devList s label t) {device : ι} (outside : s.inside device = false)
    (attached : s.fsh device = false) (noCall : label ≠ .setDone device)
    (noDetach : label ≠ .detach device) :
    t.inside device = false ∧ t.fsh device = false ∧ label ≠ .returned device := by
  have noReturn : label ≠ .returned device := by
    rintro rfl
    exact Bool.false_ne_true (outside.symm.trans taken.effect.1)
  obtain ⟨inside, fsh⟩ := taken.flags_kept noCall noReturn noDetach
  exact ⟨inside.trans outside, fsh.trans attached, noReturn⟩

/-- Over a run in which it neither calls `next_slot` nor detaches, a device
outside `next_slot` stays there. -/
theorem run_stays_outside {devList : List ι} {s t : TimerState ι} {future : List (TimerStep ι)}
    (run : Run (Step devList) s future t) {device : ι} (outside : s.inside device = false)
    (attached : s.fsh device = false) (noCall : .setDone device ∉ future)
    (noDetach : .detach device ∉ future) :
    t.inside device = false ∧ t.fsh device = false ∧ completed device future = 0 := by
  induction run with
  | nil _ => exact ⟨outside, attached, rfl⟩
  | cons taken _ ih =>
      obtain ⟨noCallNow, noCallLater⟩ := List.ne_and_not_mem_of_not_mem_cons noCall
      obtain ⟨noDetachNow, noDetachLater⟩ := List.ne_and_not_mem_of_not_mem_cons noDetach
      obtain ⟨stillOutside, stillAttached, notReturn⟩ :=
        taken.stays_outside outside attached (Ne.symm noCallNow) (Ne.symm noDetachNow)
      obtain ⟨finallyOutside, finallyAttached, none_returned⟩ :=
        ih stillOutside stillAttached noCallLater noDetachLater
      refine ⟨finallyOutside, finallyAttached, ?_⟩
      simpa only [completed, List.count_cons_of_ne notReturn] using none_returned

/-- An attached device is in the slot of the clock, or one behind it as long as it waits to be
released. -/
theorem Synchronised.slot {history : List (TimerStep ι)} {s : TimerState ι} {device : ι}
    (held : Synchronised history s device) (attached : s.fsh device = false) :
    completed device history = s.time ∨ completed device history + 1 = s.time := by
  cases inside : s.inside device with
  | false => exact .inl (held.outside attached inside).2.1
  | true =>
      cases done : s.done device with
      | false => exact .inr (held.released inside done).1
      | true =>
          have behind := held.waiting inside done
          unfold lag at behind
          split at behind
          · split at behind
            · exact .inr behind
            · exact .inl behind
          · exact .inl behind

/-- **The timer is a lock-step barrier.** In every state reached from
`start_timer`: an attached device outside `next_slot` reads the number of its
completed calls as the current time, which stays put until the device calls
`next_slot` or detaches; every attached device has completed `_time` or
`_time - 1` calls, so two of them are at most one slot apart; each increment of
`_time` answers exactly one set-done of every attached device; and unless
`stop_timer` was called the loop has only been left when every device had
detached. -/
theorem lock_step_barrier {devList : List ι} (nodup : devList.Nodup)
    {history : List (TimerStep ι)} {s : TimerState ι}
    (run : Run (Step devList) (startTimer devList) history s) :
    (∀ device ∈ devList, s.fsh device = false → s.inside device = false →
      s.currentTime = completed device history ∧
      ∀ future t, Run (Step devList) s future t → .setDone device ∉ future →
        .detach device ∉ future → t.currentTime = s.currentTime) ∧
    (∀ device ∈ devList, s.fsh device = false →
      completed device history = s.currentTime ∨ completed device history + 1 = s.currentTime) ∧
    (∀ device ∈ devList, ∀ other ∈ devList, s.fsh device = false → s.fsh other = false →
      completed device history ≤ completed other history + 1) ∧
    (∀ device ∈ devList, s.fsh device = false →
      started device history =
        completed device history + (if s.inside device then 1 else 0) ∧
      ∀ t, Step devList s .tick t → started device history = t.currentTime) ∧
    (s.routine = .exited → s.timerStop = false → ∀ device ∈ devList, s.fsh device = true) := by
  have barrier := Barrier.run nodup run
  refine ⟨?_, ?_, ?_, ?_, ?_⟩
  · intro device member attached outside
    have now := ((barrier.devices device member).outside attached outside).2.1
    refine ⟨now.symm, fun future t rest noCall noDetach => ?_⟩
    obtain ⟨stillOutside, stillAttached, none_returned⟩ :=
      run_stays_outside rest outside attached noCall noDetach
    have later := (((Barrier.run nodup (run.append rest)).devices device member).outside
      stillAttached stillOutside).2.1
    have same : completed device (history ++ future) = completed device history := by
      rw [completed, List.count_append, ← completed, ← completed, none_returned, Nat.add_zero]
    exact later.symm.trans (same.trans now)
  · exact fun device member attached => (barrier.devices device member).slot attached
  · intro device member other otherMember attached otherAttached
    have first := (barrier.devices device member).slot attached
    have second := (barrier.devices other otherMember).slot otherAttached
    omega
  · intro device member attached
    have held := barrier.devices device member
    refine ⟨held.calls, fun t taken => ?_⟩
    obtain ⟨fsh, event, at_scan, rfl⟩ := taken.effect
    have everyone : s.counted device := by simp [counted, at_scan]
    have inside : s.inside device = true := by
      by_contra outside
      exact (held.outside attached (by simpa using outside)).2.2 everyone
    have done : s.done device = true := by
      by_contra cleared
      exact (held.released inside (by simpa using cleared)).2 everyone
    have calls := held.calls
    have behind := held.waiting inside done
    simp only [lag, at_scan, Nat.add_zero, inside, ↓reduceIte, currentTime] at calls behind ⊢
    omega
  · intro exited running
    have tally := barrier.tally
    simp only [Tallied, exited, running, Bool.false_eq_true, false_or] at tally
    exact tally

/-- One slot of two devices: both are done, the time advances, and the first is
cleared and returns while the second still waits. -/
def firstSlot : List (TimerStep (Fin 2)) :=
  [.setDone ⟨0, Nat.two_pos⟩, .check ⟨0, Nat.two_pos⟩, .setDone ⟨1, Nat.one_lt_two⟩,
    .check ⟨1, Nat.one_lt_two⟩, .tick, .reset ⟨0, Nat.two_pos⟩, .returned ⟨0, Nat.two_pos⟩]

/-- One device has returned into the next slot when the other one has yet to do so. -/
theorem lock_step_barrier_first_slot :
    ∃ s : TimerState (Fin 2), Run (Step [0, 1]) (startTimer [0, 1]) firstSlot s ∧
      s.currentTime = completed 0 firstSlot ∧ completed 1 firstSlot + 1 = s.currentTime := by
  have run := Run.of_follow (advance [0, 1]) (startTimer [0, 1]) firstSlot (by decide)
  have barrier := lock_step_barrier (by decide) run
  refine ⟨_, run, ?_, ?_⟩
  · exact (barrier.1 0 (by decide) (by decide) (by decide)).1
  · exact (barrier.2.1 1 (by decide) (by decide)).resolve_left (by decide)

end TimerState

end PagedOs
