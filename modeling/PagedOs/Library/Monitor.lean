import Mathlib.Logic.Relation

/-! # Monitors

A mutex and a condition variable between two threads. The waiter takes the mutex and tests a
condition, and as long as it fails the waiter gives up the mutex and sleeps on the variable in one
step. The setter makes the condition hold and signals, both under the mutex. A signal wakes the
waiter if it sleeps, and it may wake without one. The condition may fail again when the waiter is
away.

No wake-up is lost: a waiter sleeps only while the condition fails or the signal is about to come.
So a party that is not away can move, or the other one can, unless the waiter sleeps on a condition
that nobody is about to set.
-/

/-- The two threads that share a monitor. -/
inductive Party where
  | waiter
  | setter
deriving DecidableEq

/-- Where the waiter is: outside, in front of the lock, at its test, in the wait, or behind it. -/
inductive WaiterPc where
  | away
  | lock
  | test
  | asleep
  | woken
  | inside
deriving DecidableEq

/-- Where the setter is: outside, in front of the lock, or at one of its statements behind it. -/
inductive SetterPc where
  | away
  | lock
  | set
  | signal
  | unlock
deriving DecidableEq

/-- The condition, the holder of the mutex and the two threads. -/
structure Monitor where
  condition : Bool
  mutex : Option Party
  waiter : WaiterPc
  setter : SetterPc

namespace Monitor

/-- The statements of the two threads, and what happens around them. -/
inductive Step : Monitor → Monitor → Prop where
  | arrive {m : Monitor} (away : m.waiter = .away) : Step m { m with waiter := .lock }
  | lock {m : Monitor} (ready : m.waiter = .lock ∨ m.waiter = .woken) (free : m.mutex = none) :
      Step m { m with mutex := some .waiter, waiter := .test }
  | pass {m : Monitor} (tests : m.waiter = .test) (holds : m.condition = true) :
      Step m { m with waiter := .inside }
  | sleep {m : Monitor} (tests : m.waiter = .test) (fails : m.condition = false) :
      Step m { m with mutex := none, waiter := .asleep }
  | wake {m : Monitor} (asleep : m.waiter = .asleep) : Step m { m with waiter := .woken }
  | leave {m : Monitor} (inside : m.waiter = .inside) :
      Step m { m with mutex := none, waiter := .away }
  | approach {m : Monitor} (away : m.setter = .away) : Step m { m with setter := .lock }
  | take {m : Monitor} (ready : m.setter = .lock) (free : m.mutex = none) :
      Step m { m with mutex := some .setter, setter := .set }
  | set {m : Monitor} (sets : m.setter = .set) :
      Step m { m with condition := true, setter := .signal }
  | signal {m : Monitor} (signals : m.setter = .signal) :
      Step m { m with
        waiter := if m.waiter = .asleep then .woken else m.waiter
        setter := .unlock }
  | unlock {m : Monitor} (unlocks : m.setter = .unlock) :
      Step m { m with mutex := none, setter := .away }
  | clear {m : Monitor} (away : m.waiter = .away) : Step m { m with condition := false }

/-- The mutex is held by the thread that is between its lock and its unlock, and a waiter that
sleeps misses no signal. -/
structure Sound (m : Monitor) : Prop where
  waiter : m.mutex = some .waiter ↔ m.waiter = .test ∨ m.waiter = .inside
  setter : m.mutex = some .setter ↔
    m.setter = .set ∨ m.setter = .signal ∨ m.setter = .unlock
  asleep : m.waiter = .asleep → m.condition = false ∨ m.setter = .signal

/-- Before either of them has taken the mutex. -/
theorem Sound.of_free {m : Monitor} (free : m.mutex = none)
    (waiter : m.waiter = .away ∨ m.waiter = .lock) (setter : m.setter = .away) : m.Sound := by
  rcases waiter with away | lock
  · exact ⟨by simp [free, away], by simp [free, setter], by simp [away]⟩
  · exact ⟨by simp [free, lock], by simp [free, setter], by simp [lock]⟩

/-- **Every step keeps a monitor sound.** -/
theorem Sound.step {m n : Monitor} (sound : m.Sound) (taken : Step m n) : n.Sound := by
  obtain ⟨waiter, setter, asleep⟩ := sound
  cases taken with
  | arrive away => exact ⟨by simp_all, setter, nofun⟩
  | lock ready free =>
      rw [free] at setter
      exact ⟨by simp, by simpa using setter, nofun⟩
  | pass tests holds => exact ⟨by simp_all, setter, nofun⟩
  | sleep tests fails =>
      have held : m.mutex = some .waiter := waiter.mpr (.inl tests)
      rw [held] at setter
      exact ⟨by simp, by simpa using setter, fun _ => .inl fails⟩
  | wake asleep => exact ⟨by simp_all, setter, nofun⟩
  | leave inside =>
      have held : m.mutex = some .waiter := waiter.mpr (.inr inside)
      rw [held] at setter
      exact ⟨by simp, by simpa using setter, nofun⟩
  | approach away => exact ⟨waiter, by simp_all, by simp_all⟩
  | take ready free =>
      rw [free] at waiter
      exact ⟨by simpa using waiter, by simp, by simp_all⟩
  | set sets => exact ⟨waiter, by simp_all, fun _ => .inr rfl⟩
  | signal signals =>
      refine ⟨?_, by simp_all, ?_⟩
      · by_cases slept : m.waiter = .asleep
        · simp_all
        · simpa [slept] using waiter
      · by_cases slept : m.waiter = .asleep
        · simp [slept]
        · simp [slept]
  | unlock unlocks =>
      have held : m.mutex = some .setter := setter.mpr (.inr (.inr unlocks))
      rw [held] at waiter
      exact ⟨by simpa using waiter, by simp, by simp_all⟩
  | clear away => exact ⟨waiter, setter, by simp [away]⟩

/-- A monitor that is sound stays sound over any number of steps, by the step lemma. -/
theorem Sound.steps {m n : Monitor} (sound : m.Sound) (taken : Relation.ReflTransGen Step m n) :
    n.Sound := by
  induction taken with
  | refl => exact sound
  | tail _ last ih => exact ih.step last

/-- The two threads are not between lock and unlock at the same time. -/
theorem Sound.exclusive {m : Monitor} (sound : m.Sound)
    (waiter : m.waiter = .test ∨ m.waiter = .inside) :
    ¬ (m.setter = .set ∨ m.setter = .signal ∨ m.setter = .unlock) := fun setter =>
  absurd ((sound.waiter.mpr waiter).symm.trans (sound.setter.mpr setter)) (by decide)

/-- The waiter can do its next statement. -/
def WaiterMoves (m : Monitor) : Prop :=
  m.waiter = .test ∨ m.waiter = .inside ∨
    ((m.waiter = .lock ∨ m.waiter = .woken) ∧ m.mutex = none)

/-- The setter can do its next statement. -/
def SetterMoves (m : Monitor) : Prop :=
  m.setter = .set ∨ m.setter = .signal ∨ m.setter = .unlock ∨
    (m.setter = .lock ∧ m.mutex = none)

/-- The mutex is free or its holder can move. -/
theorem Sound.holder_moves {m : Monitor} (sound : m.Sound) :
    m.mutex = none ∨ m.WaiterMoves ∨ m.SetterMoves := by
  cases holder : m.mutex with
  | none => exact .inl rfl
  | some party =>
      cases party with
      | waiter =>
          rcases sound.waiter.mp holder with tests | inside
          · exact .inr (.inl (.inl tests))
          · exact .inr (.inl (.inr (.inl inside)))
      | setter =>
          rcases sound.setter.mp holder with sets | signals | unlocks
          · exact .inr (.inr (.inl sets))
          · exact .inr (.inr (.inr (.inl signals)))
          · exact .inr (.inr (.inr (.inr (.inl unlocks))))

/-- **A setter is never blocked for good.** -/
theorem Sound.setter_moves {m : Monitor} (sound : m.Sound) (busy : m.setter ≠ .away) :
    m.WaiterMoves ∨ m.SetterMoves := by
  rcases sound.holder_moves with free | moves
  · right
    cases here : m.setter with
    | away => exact absurd here busy
    | lock => exact .inr (.inr (.inr ⟨here, free⟩))
    | set => exact .inl here
    | signal => exact .inr (.inl here)
    | unlock => exact .inr (.inr (.inl here))
  · exact moves

/-- **A waiter is blocked only by a condition that fails**, and that the setter has not come to
set. -/
theorem Sound.waiter_moves {m : Monitor} (sound : m.Sound) (busy : m.waiter ≠ .away) :
    (m.WaiterMoves ∨ m.SetterMoves) ∨
      (m.waiter = .asleep ∧ m.condition = false ∧ m.setter = .away) := by
  by_cases idle : m.setter = .away
  · rcases sound.holder_moves with free | moves
    · cases here : m.waiter with
      | away => exact absurd here busy
      | lock => exact .inl (.inl (.inr (.inr ⟨.inl here, free⟩)))
      | test => exact .inl (.inl (.inl here))
      | asleep =>
          have fails := (sound.asleep here).resolve_right (by simp [idle])
          exact .inr ⟨rfl, fails, idle⟩
      | woken => exact .inl (.inl (.inr (.inr ⟨.inr here, free⟩)))
      | inside => exact .inl (.inl (.inr (.inl here)))
    · exact .inl moves
  · exact .inl (sound.setter_moves idle)

end Monitor
