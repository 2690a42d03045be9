import Mathlib.Algebra.Order.Group.Int
import PagedOs.Library.Transition
import PagedOs.Scheduler.Sched

/-! # Histories of the scheduler

The scheduler as a labelled transition system. Its steps are the calls of
`add_proc`, `put_proc` and `get_proc`, each atomic under `queue_lock`, and a
label records what the call did: whether `enqueue` stored the process, or
whether the slots were refilled and which process left which level.
-/

namespace PagedOs

open Transition

variable {α : Type*}

/-- A call of the scheduler interface, with the process that it hands over. -/
inductive Call (α : Type*) where
  | add (proc : α)
  | put (proc : α)
  | get

/-- What a call did: whether a process was stored, or which one was dispatched from where. -/
inductive Event (α : Type*) where
  | offered (proc : α) (accepted : Bool)
  | got (reset : Bool) (level : Option Nat) (proc : Option α)

namespace Event

/-- The priority of an offered process indexes the array of queues. -/
def InRange (prio : α → Nat) : Event α → Prop
  | .offered proc _ => prio proc < maxPrio
  | .got _ _ _ => True

/-- The priority of the offered process decides whether the event is in range. -/
instance (prio : α → Nat) (event : Event α) : Decidable (event.InRange prio) :=
  match event with
  | .offered proc _ => inferInstanceAs (Decidable (prio proc < maxPrio))
  | .got _ _ _ => .isTrue trivial

/-- A call of `get_proc`, whether it returned a process or not. -/
def isGet : Event α → Bool
  | .offered _ _ => false
  | .got _ _ _ => true

/-- A call that refills the slots, since no level with a process had one left. -/
def resets : Event α → Bool
  | .got reset _ _ => reset
  | .offered _ _ => false

/-- A call that dispatches a process from the given level. -/
def dispatches (level : Nat) : Event α → Bool
  | .got _ (some source) _ => source == level
  | _ => false

end Event

/-- The processes that left a level, in the order of the history. -/
def dispatched (level : Nat) (history : List (Event α)) : List α :=
  history.filterMap fun
    | .got _ source proc => if source = some level then proc else none
    | .offered _ _ => none

/-- The processes `enqueue` stored at a level, in the order of the history. -/
def accepted (prio : α → Nat) (level : Nat) (history : List (Event α)) : List α :=
  history.filterMap fun
    | .offered proc stored => if prio proc = level ∧ stored = true then some proc else none
    | .got _ _ _ => none

/-- The number of dispatches from a level since the last refill, the call that
refilled included. -/
def sinceReset (level : Nat) (history : List (Event α)) : Nat :=
  history.foldl (fun count event =>
    (if event.resets then 0 else count) + if event.dispatches level then 1 else 0) 0

namespace Mlq

/-- One call, with what it did to the queues. -/
def call (prio : α → Nat) (s : Mlq α) : Call α → Event α × Mlq α
  | .add proc => (.offered proc (s.accepts (prio proc)), s.addProc prio proc)
  | .put proc => (.offered proc (s.accepts (prio proc)), s.putProc prio proc)
  | .get => (.got s.resets s.nextLevel (s.getProc prio).1, (s.getProc prio).2)

/-- The steps of the scheduler, labelled with what they did. -/
def Step (prio : α → Nat) (s : Mlq α) (event : Event α) (t : Mlq α) : Prop :=
  ∃ c, s.call prio c = (event, t)

/-- The steps whose processes have a priority below `MAX_PRIO`. -/
def Calls (prio : α → Nat) : Mlq α → Event α → Mlq α → Prop :=
  Guarded (Step prio) fun _ event => event.InRange prio

/-- The events of a sequence of calls and the state it leads to. -/
def calls (prio : α → Nat) : Mlq α → List (Call α) → List (Event α) × Mlq α
  | s, [] => ([], s)
  | s, c :: rest =>
      let (event, next) := s.call prio c
      let (events, last) := next.calls prio rest
      (event :: events, last)

theorem run_calls (prio : α → Nat) (s : Mlq α) (cs : List (Call α))
    (inRange : ∀ event ∈ (s.calls prio cs).1, event.InRange prio) :
    Run (Calls prio) s (s.calls prio cs).1 (s.calls prio cs).2 := by
  induction cs generalizing s with
  | nil => exact .nil s
  | cons c rest ih =>
      exact .cons ⟨inRange _ List.mem_cons_self, c, rfl⟩
        (ih _ fun event member => inRange event (List.mem_cons_of_mem _ member))

theorem Step.inv {prio : α → Nat} {s t : Mlq α} {event : Event α} (taken : Step prio s event t) :
    (∃ proc, event = .offered proc (s.accepts (prio proc)) ∧
      t = s.setLevel (prio proc) ((s.mlqReadyQueue (prio proc)).enqueue proc)) ∨
    (event = .got true none none ∧ (∀ p < maxPrio, s.contents p = []) ∧ t = s.served) ∨
    ∃ level proc rest, event = .got s.resets (some level) (some proc) ∧
      s.served.readyLevel = some level ∧ Queue.Removes prio (s.contents level) proc rest ∧
      t = s.served.setLevel level ⟨rest, s.served.slot level - 1⟩ := by
  obtain ⟨c, same⟩ := taken
  cases c with
  | add proc =>
      cases same
      exact .inl ⟨proc, rfl, rfl⟩
  | put proc =>
      cases same
      exact .inl ⟨proc, rfl, rfl⟩
  | get =>
      right
      rcases getMlqProc_spec prio s with
        ⟨nothing, result⟩ | ⟨level, proc, rest, found, removes, result⟩
      · left
        simp only [call, getProc, result, nothing, resets_of_nextLevel_eq_none nothing,
          Prod.mk.injEq] at same
        exact ⟨same.1.symm, nextLevel_eq_none.mp nothing, same.2.symm⟩
      · right
        simp only [call, getProc, result, found, Prod.mk.injEq] at same
        exact ⟨level, proc, rest, same.1.symm, found, removes, same.2.symm⟩

/-- What every level satisfies in every reachable state. -/
structure Levels (prio : α → Nat) (s : Mlq α) : Prop where
  bounded : ∀ p < maxPrio, (s.mlqReadyQueue p).size ≤ maxQueueSize
  uniform : ∀ p < maxPrio, ∀ proc ∈ s.contents p, prio proc = p
  slot_nonneg : ∀ p < maxPrio, 0 ≤ s.slot p
  slot_le : ∀ p < maxPrio, s.slot p ≤ budget p

theorem initScheduler_contents (s : Mlq α) {p : Nat} (inside : p < maxPrio) :
    s.initScheduler.contents p = [] := by
  simp only [contents, initScheduler, inside, ↓reduceIte]

/-- `init_scheduler` gives every level below `MAX_PRIO` its budget. -/
theorem initScheduler_slot (s : Mlq α) {p : Nat} (inside : p < maxPrio) :
    s.initScheduler.slot p = budget p := by
  simp only [slot, initScheduler, inside, ↓reduceIte]

/-- The levels are as they should be behind `init_scheduler`, whatever the memory held before. -/
theorem initScheduler_levels (prio : α → Nat) (s : Mlq α) : s.initScheduler.Levels prio where
  bounded p inside := by
    have none_stored : (s.initScheduler.mlqReadyQueue p).proc = [] :=
      initScheduler_contents s inside
    simp [Queue.size, none_stored]
  uniform p inside proc member := by
    rw [initScheduler_contents s inside] at member
    exact absurd member List.not_mem_nil
  slot_nonneg p inside := by
    rw [initScheduler_slot s inside]
    exact (budget_pos inside).le
  slot_le p inside := (initScheduler_slot s inside).le

theorem Levels.served {prio : α → Nat} {s : Mlq α} (levels : s.Levels prio) :
    s.served.Levels prio where
  bounded p inside := by
    have kept : (s.served.mlqReadyQueue p).proc = (s.mlqReadyQueue p).proc := served_contents s p
    simpa only [Queue.size, kept] using levels.bounded p inside
  uniform p inside := by simpa only [served_contents] using levels.uniform p inside
  slot_nonneg p inside := by
    rw [served_slot s inside]
    split
    · exact (budget_pos inside).le
    · exact levels.slot_nonneg p inside
  slot_le p inside := by
    rw [served_slot s inside]
    split
    · exact le_rfl
    · exact levels.slot_le p inside

/-- In order, a level gives up the process at its head. -/
theorem Levels.eq_cons {prio : α → Nat} {s : Mlq α} (levels : s.Levels prio) {level : Nat}
    (inside : level < maxPrio) {proc : α} {rest : List α}
    (removes : Queue.Removes prio (s.contents level) proc rest) :
    s.contents level = proc :: rest :=
  removes.eq_cons_of_uniform (levels.uniform level inside)

/-- A level may change to any queue of its own processes within its size and its budget. -/
theorem Levels.setLevel {prio : α → Nat} {s : Mlq α} (levels : s.Levels prio) {level : Nat}
    {q : Queue α} (bounded : q.size ≤ maxQueueSize) (uniform : ∀ proc ∈ q.proc, prio proc = level)
    (slot_nonneg : 0 ≤ q.slot) (slot_le : q.slot ≤ budget level) :
    (s.setLevel level q).Levels prio where
  bounded p inside := by
    by_cases same : p = level
    · subst same
      rwa [setLevel_self]
    · rw [setLevel_other s same]
      exact levels.bounded p inside
  uniform p inside proc member := by
    rw [setLevel_contents] at member
    by_cases same : p = level
    · subst same
      rw [if_pos rfl] at member
      exact uniform proc member
    · rw [if_neg same] at member
      exact levels.uniform p inside proc member
  slot_nonneg p inside := by
    rw [setLevel_slot]
    by_cases same : p = level
    · rwa [if_pos same]
    · rw [if_neg same]
      exact levels.slot_nonneg p inside
  slot_le p inside := by
    rw [setLevel_slot]
    by_cases same : p = level
    · subst same
      rwa [if_pos rfl]
    · rw [if_neg same]
      exact levels.slot_le p inside

/-- A call keeps the levels as they should be. Each kind of call is one case. -/
theorem Levels.step {prio : α → Nat} {s t : Mlq α} {event : Event α} (levels : s.Levels prio)
    (taken : Calls prio s event t) : t.Levels prio := by
  obtain ⟨inRange, taken⟩ := taken
  rcases taken.inv with
    ⟨proc, rfl, rfl⟩ | ⟨rfl, _, rfl⟩ | ⟨level, proc, rest, rfl, found, removes, rfl⟩
  · -- a process is offered to its own level
    have inside : prio proc < maxPrio := inRange
    refine levels.setLevel (Queue.enqueue_size_le (levels.bounded _ inside) proc)
      (fun other member => ?_) ?_ ?_
    · rcases Queue.mem_enqueue member with stored | rfl
      · exact levels.uniform _ inside other stored
      · rfl
    · rw [Queue.enqueue_slot]
      exact levels.slot_nonneg _ inside
    · rw [Queue.enqueue_slot]
      exact levels.slot_le _ inside
  · exact levels.served
  · -- the head of a level leaves, and its slot was not used up
    obtain ⟨inside, ready, _⟩ := readyLevel_eq_some.mp found
    have charged := (ready_iff.mp ready).1
    have after := levels.served
    rw [← served_contents] at removes
    have cells : (s.served.mlqReadyQueue level).proc = proc :: rest := after.eq_cons inside removes
    have full := after.bounded level inside
    have ceiling := after.slot_le level inside
    rw [Queue.size, cells, List.length_cons] at full
    refine after.setLevel (Nat.le_of_succ_le full) (fun other member => ?_) ?_ ?_
    · have stored : other ∈ (s.served.mlqReadyQueue level).proc :=
        cells ▸ List.mem_cons_of_mem proc member
      exact after.uniform level inside other stored
    · dsimp only
      omega
    · dsimp only
      omega

/-- The levels are as they should be in every state that calls lead to. -/
theorem Levels.run {prio : α → Nat} {s t : Mlq α} {history : List (Event α)}
    (run : Run (Calls prio) s history t) (levels : s.Levels prio) : t.Levels prio :=
  run.invariant (Levels prio) (fun _ _ _ held taken => held.step taken) levels

end Mlq

end PagedOs
