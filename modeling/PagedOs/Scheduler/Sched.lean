import Mathlib.Logic.Function.Basic
import PagedOs.Scheduler.Queue

/-! # The multilevel ready queue

`sched.c` keeps one ready queue for each priority value below `MAX_PRIO`, with a
budget of `MAX_PRIO - prio` dispatches, its slot. `get_mlq_proc` serves the first
nonempty level that has budget left; when there is none it refills every budget
and looks once more. The array of queues is a function on level numbers: the
numbers from `maxPrio` on stand for the memory after the array, which
`put_mlq_proc` and `add_mlq_proc` reach when a process carries such a priority.
-/

namespace PagedOs

/-- `MAX_PRIO`, the number of levels. -/
def maxPrio : Nat := 140

/-- The static state of `sched.c`: a queue for each level, with its slots. `MAX_PRIO` levels are
set up; the numbers behind them stand for memory that is not the queues' in C. -/
structure Mlq (α : Type*) where
  mlqReadyQueue : Nat → Queue α

variable {α : Type*}

namespace Mlq

/-- The budget a level is given at a refill. -/
def budget (level : Nat) : Int := (maxPrio : Int) - (level : Int)

/-- Replace the queue of one level, and keep the others. -/
def setLevel (s : Mlq α) (level : Nat) (q : Queue α) : Mlq α :=
  { s with mlqReadyQueue := Function.update s.mlqReadyQueue level q }

@[simp] theorem setLevel_self (s : Mlq α) (level : Nat) (q : Queue α) :
    (s.setLevel level q).mlqReadyQueue level = q := Function.update_self ..

/-- The other levels have the queues that they had. -/
@[simp] theorem setLevel_other (s : Mlq α) {level other : Nat} (different : other ≠ level)
    (q : Queue α) : (s.setLevel level q).mlqReadyQueue other = s.mlqReadyQueue other :=
  Function.update_of_ne different ..

/-- The static storage before `init_scheduler`, which C fills with zeros. -/
def zeroed : Mlq α := ⟨fun _ => ⟨[], 0⟩⟩

/-- `init_scheduler`: every level is empty and has its full budget of slots. -/
def initScheduler (s : Mlq α) : Mlq α where
  mlqReadyQueue := fun i => if i < maxPrio then ⟨[], budget i⟩ else s.mlqReadyQueue i

/-- The slot refill loop of `get_mlq_proc`: every level gets its budget back. -/
def resetSlots (s : Mlq α) : Mlq α where
  mlqReadyQueue := fun prio =>
    if prio < maxPrio then { s.mlqReadyQueue prio with slot := budget prio }
    else s.mlqReadyQueue prio

/-- The test `slot > 0 && !empty(...)` of a level. -/
def ready (s : Mlq α) (level : Nat) : Bool :=
  decide (0 < (s.mlqReadyQueue level).slot) && !(s.mlqReadyQueue level).empty

/-- The level the loop over `prio = 0 .. MAX_PRIO - 1` stops at. -/
def readyLevel (s : Mlq α) : Option Nat := (List.range maxPrio).find? s.ready

/-- The loop of `get_mlq_proc`: dequeue from the first ready level, charge its
slot. -/
def serve (prio : α → Nat) (s : Mlq α) : Option α × Mlq α :=
  match s.readyLevel with
  | none => (none, s)
  | some level =>
      let (proc, q) := (s.mlqReadyQueue level).dequeue prio
      (proc, s.setLevel level { q with slot := q.slot - 1 })

/-- `get_mlq_proc`: the first level that has a process and a slot, if need be behind a refill. -/
def getMlqProc (prio : α → Nat) (s : Mlq α) : Option α × Mlq α :=
  match s.serve prio with
  | (some proc, next) => (some proc, next)
  | (none, next) => next.resetSlots.serve prio

/-- `put_mlq_proc`: the process goes to the end of its level. -/
def putMlqProc (prio : α → Nat) (s : Mlq α) (proc : α) : Mlq α :=
  s.setLevel (prio proc) ((s.mlqReadyQueue (prio proc)).enqueue proc)

/-- `add_mlq_proc`, which does the same for a new process. -/
def addMlqProc (prio : α → Nat) (s : Mlq α) (proc : α) : Mlq α :=
  s.setLevel (prio proc) ((s.mlqReadyQueue (prio proc)).enqueue proc)

/-- `get_proc`, `put_proc` and `add_proc` forward to the routines above. -/
def getProc (prio : α → Nat) (s : Mlq α) : Option α × Mlq α := s.getMlqProc prio

@[inherit_doc getProc]
def putProc (prio : α → Nat) (s : Mlq α) (proc : α) : Mlq α := s.putMlqProc prio proc

@[inherit_doc getProc]
def addProc (prio : α → Nat) (s : Mlq α) (proc : α) : Mlq α := s.addMlqProc prio proc

/-- The processes waiting at a level, in the order of their cells. -/
def contents (s : Mlq α) (level : Nat) : List α := (s.mlqReadyQueue level).proc

/-- The slots that a level has left. -/
def slot (s : Mlq α) (level : Nat) : Int := (s.mlqReadyQueue level).slot

/-- Whether `enqueue` would store a process offered to this level. -/
def accepts (s : Mlq α) (level : Nat) : Bool :=
  decide ((s.mlqReadyQueue level).size < maxQueueSize)

/-- `get_mlq_proc` refills the slots exactly when its first loop finds nothing. -/
def resets (s : Mlq α) : Bool := s.readyLevel.isNone

/-- The state the last loop of `get_mlq_proc` runs on. -/
def served (s : Mlq α) : Mlq α := if s.resets then s.resetSlots else s

/-- The level a call of `get_mlq_proc` dispatches from. -/
def nextLevel (s : Mlq α) : Option Nat := s.served.readyLevel

/-- The processes at a level after the queue of some level is replaced. -/
@[simp] theorem setLevel_contents (s : Mlq α) (level other : Nat) (q : Queue α) :
    (s.setLevel level q).contents other = if other = level then q.proc else s.contents other := by
  by_cases same : other = level
  · simp only [contents, same, setLevel_self, ↓reduceIte]
  · simp only [contents, same, setLevel_other s same, ↓reduceIte]

/-- The slot of a level after the queue of some level is replaced. -/
@[simp] theorem setLevel_slot (s : Mlq α) (level other : Nat) (q : Queue α) :
    (s.setLevel level q).slot other = if other = level then q.slot else s.slot other := by
  by_cases same : other = level
  · simp only [slot, same, setLevel_self, ↓reduceIte]
  · simp only [slot, same, setLevel_other s same, ↓reduceIte]

/-- Storing a process costs no level its slot. -/
theorem enqueued_slot (s : Mlq α) (level : Nat) (proc : α) (other : Nat) :
    (s.setLevel level ((s.mlqReadyQueue level).enqueue proc)).slot other = s.slot other := by
  rw [setLevel_slot, Queue.enqueue_slot]
  by_cases same : other = level
  · rw [if_pos same, same]
    rfl
  · rw [if_neg same]

/-- A level is ready when it has budget left and a process waits. -/
theorem ready_iff {s : Mlq α} {level : Nat} :
    s.ready level = true ↔ 0 < s.slot level ∧ s.contents level ≠ [] := by
  simp [ready, slot, contents]

/-- A refill leaves the processes at each level where they are. -/
@[simp] theorem resetSlots_contents (s : Mlq α) (level : Nat) :
    s.resetSlots.contents level = s.contents level := by
  unfold contents resetSlots
  dsimp only
  split <;> rfl

/-- A refill gives each level its whole budget. -/
@[simp] theorem resetSlots_slot (s : Mlq α) {level : Nat} (inside : level < maxPrio) :
    s.resetSlots.slot level = budget level := by
  simp [slot, resetSlots, inside]

/-- The slots on which the last loop works are the whole budgets behind a refill, and those from
before otherwise. -/
theorem served_slot (s : Mlq α) {level : Nat} (inside : level < maxPrio) :
    s.served.slot level = if s.resets then budget level else s.slot level := by
  unfold served
  split
  · exact resetSlots_slot s inside
  · rfl

/-- Every level below `MAX_PRIO` has a budget of at least one dispatch. -/
theorem budget_pos {level : Nat} (inside : level < maxPrio) : 0 < budget level := by
  unfold budget
  omega

/-- The level the loop stops at is ready and no level before it is. -/
theorem readyLevel_eq_some {s : Mlq α} {level : Nat} :
    s.readyLevel = some level ↔
      level < maxPrio ∧ s.ready level = true ∧ ∀ p < level, s.ready p = false := by
  rw [readyLevel, List.find?_range_eq_some]
  simp only [List.mem_range, Bool.not_eq_eq_eq_not, Bool.not_true]
  tauto

/-- The loop finds no level when none of them is ready. -/
theorem readyLevel_eq_none {s : Mlq α} :
    s.readyLevel = none ↔ ∀ p < maxPrio, s.ready p = false := by
  simp [readyLevel]

/-- The processes on which the last loop works are those from before. -/
@[simp] theorem served_contents (s : Mlq α) (level : Nat) :
    s.served.contents level = s.contents level := by
  unfold served
  split
  · exact resetSlots_contents s level
  · rfl

/-- One pass of the loop: nothing happens unless some level is ready, and then
one process leaves that level and its slot drops by one. -/
theorem serve_spec (prio : α → Nat) (s : Mlq α) :
    (s.readyLevel = none ∧ s.serve prio = (none, s)) ∨
      ∃ level proc rest, s.readyLevel = some level ∧
        Queue.Removes prio (s.contents level) proc rest ∧
        s.serve prio = (some proc, s.setLevel level ⟨rest, s.slot level - 1⟩) := by
  cases found : s.readyLevel with
  | none =>
      left
      simp only [serve, found, and_self]
  | some level =>
      right
      have nonempty := (ready_iff.mp (readyLevel_eq_some.mp found).2.1).2
      obtain ⟨proc, rest, removes, taken⟩ := Queue.dequeue_removes prio nonempty
      refine ⟨level, proc, rest, rfl, removes, ?_⟩
      simp only [serve, found, taken]
      rfl

/-- `get_mlq_proc` is one pass of the loop, after a refill when it needs one. -/
theorem getMlqProc_eq_serve (prio : α → Nat) (s : Mlq α) :
    s.getMlqProc prio = s.served.serve prio := by
  rcases serve_spec prio s with ⟨nothing, first⟩ | ⟨level, proc, rest, found, _, first⟩
  · have again : s.served = s.resetSlots := by
      simp only [served, resets, nothing, Option.isNone_none, ↓reduceIte]
    simp only [getMlqProc, first, again]
  · have once : s.served = s := by
      simp only [served, resets, found, Option.isNone_some, Bool.false_eq_true, ↓reduceIte]
    simp only [getMlqProc, first, once]

/-- What a call of `get_mlq_proc` does: it may refill the slots, and unless every
level is empty one process leaves the level `nextLevel` names, whose slot drops
by one. -/
theorem getMlqProc_spec (prio : α → Nat) (s : Mlq α) :
    (s.nextLevel = none ∧ s.getMlqProc prio = (none, s.served)) ∨
      ∃ level proc rest, s.nextLevel = some level ∧
        Queue.Removes prio (s.contents level) proc rest ∧
        s.getMlqProc prio =
          (some proc, s.served.setLevel level ⟨rest, s.served.slot level - 1⟩) := by
  rw [getMlqProc_eq_serve]
  simpa only [served_contents, nextLevel] using serve_spec prio s.served

/-- A call that dispatches nobody has refilled the slots before. -/
theorem resets_of_nextLevel_eq_none {s : Mlq α} (nothing : s.nextLevel = none) :
    s.resets = true := by
  by_contra kept
  simp only [nextLevel, served, kept, ↓reduceIte] at nothing
  exact kept (Option.isNone_iff_eq_none.mpr nothing)

/-- After a refill a nonempty level is ready, so the second loop misses nothing. -/
theorem nextLevel_eq_none {s : Mlq α} :
    s.nextLevel = none ↔ ∀ p < maxPrio, s.contents p = [] := by
  constructor
  · intro nothing p inside
    have refilled : s.served = s.resetSlots := if_pos (resets_of_nextLevel_eq_none nothing)
    rw [nextLevel, refilled] at nothing
    by_contra nonempty
    have ready : s.resetSlots.ready p = true :=
      ready_iff.mpr ⟨by rw [resetSlots_slot s inside]; exact budget_pos inside,
        by rwa [resetSlots_contents]⟩
    rw [readyLevel_eq_none.mp nothing p inside] at ready
    exact Bool.false_ne_true ready
  · intro allEmpty
    apply readyLevel_eq_none.mpr
    intro p inside
    cases ready : s.served.ready p with
    | false => rfl
    | true => exact absurd (by rw [served_contents]; exact allEmpty p inside) (ready_iff.mp ready).2

/-- `get_mlq_proc` returns `NULL` only when there is no process to return. -/
theorem getMlqProc_eq_none (prio : α → Nat) {s : Mlq α} :
    (s.getMlqProc prio).1 = none ↔ ∀ p < maxPrio, s.contents p = [] := by
  rw [← nextLevel_eq_none]
  rcases getMlqProc_spec prio s with ⟨nothing, result⟩ | ⟨level, proc, rest, found, _, result⟩
  · simp only [nothing, result]
  · simp only [found, result, reduceCtorEq]

end Mlq

end PagedOs
