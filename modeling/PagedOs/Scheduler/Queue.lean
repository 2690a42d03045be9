import Mathlib.Data.List.Basic
import Mathlib.Data.List.Induction
import Mathlib.Order.Nat
import PagedOs.Library.StableSort

/-! # Ready queues

A ready queue is an array of at most `maxQueueSize` process pointers and a count
of the cells in use. The model keeps the cells in use as a list, whose length is
the `size` field, and runs the two loops of `dequeue` (the search for the
smallest priority value and the shift that closes the gap) on it. What the loops
compute is stated on lists: the search finds the first cell of smallest priority
(`highestPrioIndex_spec`) and the shift erases it (`dequeue_eq`). The cells are in
the order in which their processes were enqueued (`cells_in_order_of_arrival`), so
that calling `dequeue` again and again sorts them stably
(`dequeue_stable_minimum`).
-/

namespace PagedOs

open StableSort

/-- `MAX_QUEUE_SIZE`, the cells of a queue. -/
def maxQueueSize : Nat := 10

/-- `struct queue_t`; `proc` holds the `size` cells in use. -/
structure Queue (α : Type*) where
  proc : List α
  slot : Int

variable {α : Type*}

namespace Queue

/-- The `size` field, which is the number of cells in use. -/
def size (q : Queue α) : Nat := q.proc.length

/-- `empty`, which looks at the size alone. -/
def empty (q : Queue α) : Bool := q.size == 0

/-- `enqueue`: a full queue is left as it is. -/
def enqueue (q : Queue α) (proc : α) : Queue α :=
  if q.size < maxQueueSize then { q with proc := q.proc ++ [proc] } else q

/-- The test `proc[i]->prio < proc[highest]->prio`, on two cells of a queue. -/
def outranks (prio : α → Nat) (cells : List α) (i highest : Nat) : Bool :=
  match cells[i]?, cells[highest]? with
  | some proc, some best => decide (prio proc < prio best)
  | _, _ => false

/-- The search loop of `dequeue`, for `i = 1 .. size - 1`. -/
def highestPrioIndex (prio : α → Nat) (cells : List α) : Nat :=
  (List.range' 1 (cells.length - 1)).foldl
    (fun highest i => if outranks prio cells i highest then i else highest) 0

/-- The shift loop of `dequeue`, `proc[i] = proc[i + 1]` for the given indices. -/
def shiftCells (cells : List α) (indices : List Nat) : List α :=
  indices.foldl (fun cells i =>
    match cells[i + 1]? with
    | some next => cells.set i next
    | none => cells) cells

/-- `dequeue`: the process of smallest `prio`, and the queue without its cell. -/
def dequeue (prio : α → Nat) (q : Queue α) : Option α × Queue α :=
  if q.empty then (none, q)
  else
    let highest := highestPrioIndex prio q.proc
    let shifted := shiftCells q.proc (List.range' highest (q.size - 1 - highest))
    (q.proc[highest]?, { q with proc := shifted.dropLast })

/-- The queue is empty when it has no process. -/
@[simp] theorem empty_eq_true {q : Queue α} : q.empty = true ↔ q.proc = [] := by
  simp [empty, size]

/-- The queue is not empty when it has a process. -/
@[simp] theorem empty_eq_false {q : Queue α} : q.empty = false ↔ q.proc ≠ [] := by
  simp [empty, size]

@[simp] theorem enqueue_slot (q : Queue α) (proc : α) : (q.enqueue proc).slot = q.slot := by
  unfold enqueue
  split <;> rfl

/-- Where there is room the process is stored behind the others. -/
theorem enqueue_of_lt {q : Queue α} (room : q.size < maxQueueSize) (proc : α) :
    (q.enqueue proc).proc = q.proc ++ [proc] := by
  unfold enqueue
  rw [if_pos room]

/-- Where there is no room `enqueue` does nothing. -/
theorem enqueue_of_full {q : Queue α} (full : ¬ q.size < maxQueueSize) (proc : α) :
    q.enqueue proc = q := by
  unfold enqueue
  rw [if_neg full]

/-- The queue never holds more processes than it has cells. -/
theorem enqueue_size_le {q : Queue α} (bounded : q.size ≤ maxQueueSize) (proc : α) :
    (q.enqueue proc).size ≤ maxQueueSize := by
  by_cases room : q.size < maxQueueSize
  · have grown : (q.enqueue proc).size = q.size + 1 := by
      simp only [size, enqueue_of_lt room, List.length_append, List.length_singleton]
    omega
  · rw [enqueue_of_full room]
    exact bounded

/-- A process in the queue was there before, or it is the one that was offered. -/
theorem mem_enqueue {q : Queue α} {proc other : α} (member : other ∈ (q.enqueue proc).proc) :
    other ∈ q.proc ∨ other = proc := by
  by_cases room : q.size < maxQueueSize
  · simpa [enqueue_of_lt room] using member
  · rw [enqueue_of_full room] at member
    exact .inl member

/-- What the search loop knows once it has looked at the cells below `seen`: the
index it holds is the first one of smallest priority among them. -/
structure LeastBelow (prio : α → Nat) (cells : List α) (seen highest : Nat) : Prop where
  bounded : highest < seen
  least : ∀ j, ∀ best ∈ cells[highest]?, ∀ proc ∈ cells[j]?, j < seen → prio best ≤ prio proc
  first : ∀ j, ∀ best ∈ cells[highest]?, ∀ proc ∈ cells[j]?, j < highest → prio best < prio proc

/-- One round of the search keeps the least index among those seen, and the first of equal ones. -/
private theorem LeastBelow.advance {prio : α → Nat} {cells : List α} {seen highest : Nat}
    (known : LeastBelow prio cells seen highest) (inside : seen < cells.length) :
    LeastBelow prio cells (seen + 1)
      (if outranks prio cells seen highest then seen else highest) := by
  have bound := known.bounded
  obtain ⟨current, currentAt⟩ : ∃ current, cells[seen]? = some current :=
    ⟨_, List.getElem?_eq_getElem inside⟩
  obtain ⟨held, heldAt⟩ : ∃ held, cells[highest]? = some held :=
    ⟨_, List.getElem?_eq_getElem (by omega)⟩
  have test : outranks prio cells seen highest = decide (prio current < prio held) := by
    simp only [outranks, currentAt, heldAt]
  have heldLeast := fun j => known.least j held heldAt
  have heldFirst := fun j => known.first j held heldAt
  rw [test]
  by_cases smaller : prio current < prio held
  · simp only [smaller, decide_true, ↓reduceIte]
    refine ⟨Nat.lt_succ_self _, ?_, ?_⟩
    · intro j best bestAt proc procAt before
      obtain rfl : current = best := Option.some.inj (currentAt.symm.trans bestAt)
      rcases Nat.lt_succ_iff_lt_or_eq.mp before with earlier | rfl
      · exact le_trans smaller.le (heldLeast j proc procAt earlier)
      · obtain rfl : current = proc := Option.some.inj (currentAt.symm.trans procAt)
        exact le_rfl
    · intro j best bestAt proc procAt before
      obtain rfl : current = best := Option.some.inj (currentAt.symm.trans bestAt)
      exact lt_of_lt_of_le smaller (heldLeast j proc procAt before)
  · simp only [smaller, decide_false, Bool.false_eq_true, ↓reduceIte]
    refine ⟨by omega, ?_, ?_⟩
    · intro j best bestAt proc procAt before
      obtain rfl : held = best := Option.some.inj (heldAt.symm.trans bestAt)
      rcases Nat.lt_succ_iff_lt_or_eq.mp before with earlier | rfl
      · exact heldLeast j proc procAt earlier
      · obtain rfl : current = proc := Option.some.inj (currentAt.symm.trans procAt)
        exact Nat.le_of_not_lt smaller
    · intro j best bestAt proc procAt before
      obtain rfl : held = best := Option.some.inj (heldAt.symm.trans bestAt)
      exact heldFirst j proc procAt before

/-- The whole search finds the first cell of least priority among those that it has seen. -/
private theorem LeastBelow.search {prio : α → Nat} {cells : List α} (count : Nat) :
    ∀ {seen highest : Nat}, LeastBelow prio cells seen highest → seen + count ≤ cells.length →
      LeastBelow prio cells (seen + count) ((List.range' seen count).foldl
        (fun highest i => if outranks prio cells i highest then i else highest) highest) := by
  induction count with
  | zero => exact fun known _ => known
  | succ count ih =>
      intro seen highest known inside
      have next := ih (known.advance (by omega)) (by omega)
      rwa [show seen + 1 + count = seen + (count + 1) by omega] at next

/-- The search loop finds the first cell of smallest priority. -/
theorem highestPrioIndex_spec (prio : α → Nat) {cells : List α} (nonempty : cells ≠ []) :
    LeastBelow prio cells cells.length (highestPrioIndex prio cells) := by
  have positive : 0 < cells.length := List.length_pos_of_ne_nil nonempty
  have start : LeastBelow prio cells 1 0 := by
    refine ⟨Nat.zero_lt_one, ?_, fun j _ _ _ _ before => absurd before (Nat.not_lt_zero j)⟩
    intro j best bestAt proc procAt before
    obtain rfl : j = 0 := by omega
    obtain rfl : best = proc := Option.some.inj (bestAt.symm.trans procAt)
    exact le_rfl
  have found := start.search (cells.length - 1) (by omega)
  rwa [show 1 + (cells.length - 1) = cells.length by omega] at found

/-- The loop that shifts the cells closes the gap, and the last cell, which is now there twice, is
dropped. -/
private theorem shiftCells_append (before : List α) (gap : α) (after : List α) :
    (shiftCells (before ++ gap :: after) (List.range' before.length after.length)).dropLast =
      before ++ after := by
  induction after generalizing before gap with
  | nil => simp [shiftCells]
  | cons next after ih =>
      have moved : (before ++ gap :: next :: after).set before.length next =
          (before ++ [next]) ++ next :: after := by simp
      have step : shiftCells (before ++ gap :: next :: after)
            (List.range' before.length (next :: after).length) =
          shiftCells ((before ++ [next]) ++ next :: after)
            (List.range' (before ++ [next]).length after.length) := by
        simp only [shiftCells, List.length_cons, List.range'_succ, List.foldl_cons,
          List.length_append, List.length_nil, Nat.zero_add]
        rw [show (before ++ gap :: next :: after)[before.length + 1]? = some next by simp]
        simp only [moved]
      rw [step, ih (before ++ [next]) next]
      simp

/-- Shifting the cells above an index down and dropping the last one erases the
cell at that index. -/
theorem shiftCells_dropLast (cells : List α) {index : Nat} (inside : index < cells.length) :
    (shiftCells cells (List.range' index (cells.length - 1 - index))).dropLast =
      cells.eraseIdx index := by
  have split : cells = cells.take index ++ cells[index] :: cells.drop (index + 1) := by simp
  have shifted := shiftCells_append (cells.take index) cells[index] (cells.drop (index + 1))
  rw [← split, List.length_take, List.length_drop, Nat.min_eq_left (Nat.le_of_lt inside),
    show cells.length - (index + 1) = cells.length - 1 - index by omega] at shifted
  rw [shifted, List.eraseIdx_eq_take_drop_succ]

/-- `dequeue` removes the first process of smallest priority. -/
theorem dequeue_eq (prio : α → Nat) {q : Queue α} (nonempty : q.proc ≠ []) :
    q.dequeue prio = (q.proc[highestPrioIndex prio q.proc]?,
      { q with proc := q.proc.eraseIdx (highestPrioIndex prio q.proc) }) := by
  have notEmpty : q.empty = false := empty_eq_false.mpr nonempty
  simp only [dequeue, notEmpty, Bool.false_eq_true, ↓reduceIte, size,
    shiftCells_dropLast q.proc (highestPrioIndex_spec prio nonempty).bounded]

/-- `proc` is the first of the processes of smallest priority in `cells`, and
`rest` is what remains without it, in order. -/
def Removes (prio : α → Nat) (cells : List α) (proc : α) (rest : List α) : Prop :=
  ∃ before after, cells = before ++ proc :: after ∧ rest = before ++ after ∧
    (∀ other ∈ before, prio proc < prio other) ∧ ∀ other ∈ after, prio proc ≤ prio other

/-- The cells with the removed process put back are those from before, in some order. -/
theorem Removes.perm {prio : α → Nat} {cells rest : List α} {proc : α}
    (removes : Removes prio cells proc rest) : cells.Perm (proc :: rest) := by
  obtain ⟨before, after, rfl, rfl, _, _⟩ := removes
  exact List.perm_middle

/-- Among processes of one priority the one removed is the head of the queue. -/
theorem Removes.eq_cons_of_uniform {prio : α → Nat} {cells rest : List α} {proc : α} {level : Nat}
    (removes : Removes prio cells proc rest) (uniform : ∀ other ∈ cells, prio other = level) :
    cells = proc :: rest := by
  obtain ⟨before, after, rfl, rfl, first, _⟩ := removes
  cases before with
  | nil => rfl
  | cons other before =>
      have smaller := first other List.mem_cons_self
      rw [uniform proc (by simp), uniform other (by simp)] at smaller
      exact absurd smaller (lt_irrefl level)

/-- A nonempty queue gives up the first of its processes of smallest priority. -/
theorem dequeue_removes (prio : α → Nat) {q : Queue α} (nonempty : q.proc ≠ []) :
    ∃ proc rest, Removes prio q.proc proc rest ∧
      q.dequeue prio = (some proc, { q with proc := rest }) := by
  have found := highestPrioIndex_spec prio nonempty
  have at_index := List.getElem?_eq_getElem found.bounded
  refine ⟨q.proc.get ⟨highestPrioIndex prio q.proc, found.bounded⟩,
    q.proc.eraseIdx (highestPrioIndex prio q.proc), ⟨q.proc.take (highestPrioIndex prio q.proc),
      q.proc.drop (highestPrioIndex prio q.proc + 1), by simp,
      List.eraseIdx_eq_take_drop_succ .., ?_, ?_⟩, ?_⟩
  · intro other member
    obtain ⟨j, inside, rfl⟩ := List.mem_take_iff_getElem.mp member
    exact found.first j _ at_index _ (List.getElem?_eq_getElem _) (by omega)
  · intro other member
    obtain ⟨j, inside, rfl⟩ := List.mem_drop_iff_getElem.mp member
    exact found.least _ _ at_index _ (List.getElem?_eq_getElem _) (by omega)
  · rw [dequeue_eq prio nonempty, at_index]
    rfl

/-! ## Order of arrival -/

/-- A call of `enqueue` or of `dequeue`. -/
inductive Call (α : Type*) where
  | enqueue (proc : α)
  | dequeue

/-- The process that is passed to `enqueue`. -/
def Call.offered : Call α → Option α
  | .enqueue proc => some proc
  | .dequeue => none

/-- The queue after a call, without what the call returned. -/
def serve (prio : α → Nat) (q : Queue α) : Call α → Queue α
  | .enqueue proc => q.enqueue proc
  | .dequeue => (q.dequeue prio).2

/-- The queue after some calls, one after the other. -/
def served (prio : α → Nat) (q : Queue α) (calls : List (Call α)) : Queue α :=
  calls.foldl (serve prio) q

/-- The calls that a queue has served are served one after the other. -/
theorem served_snoc (prio : α → Nat) (q : Queue α) (calls : List (Call α)) (call : Call α) :
    q.served prio (calls ++ [call]) = (q.served prio calls).serve prio call :=
  List.foldl_concat ..

theorem Removes.sublist {prio : α → Nat} {cells rest : List α} {proc : α}
    (removes : Removes prio cells proc rest) : rest.Sublist cells := by
  obtain ⟨before, after, rfl, rfl, _, _⟩ := removes
  exact (List.sublist_cons_self proc after).append_left before

/-- What a call leaves is among the cells from before and the process that it offers, in this
order. -/
theorem serve_sublist (prio : α → Nat) (q : Queue α) (call : Call α) :
    (q.serve prio call).proc.Sublist (q.proc ++ call.offered.toList) := by
  cases call with
  | enqueue proc =>
      by_cases room : q.size < maxQueueSize
      · rw [serve, enqueue_of_lt room]
        exact .refl _
      · rw [serve, enqueue_of_full room]
        exact List.sublist_append_left ..
  | dequeue =>
      rw [Call.offered, Option.toList_none, List.append_nil, serve]
      by_cases nonempty : q.proc = []
      · rw [dequeue, if_pos (empty_eq_true.mpr nonempty)]
      · obtain ⟨proc, rest, removes, result⟩ := dequeue_removes prio nonempty
        rw [result]
        exact removes.sublist

/-- **The cells are in order of arrival**: after any calls they are some of the processes that
were passed to `enqueue`, in the order of these calls. -/
theorem cells_in_order_of_arrival (prio : α → Nat) (slot : Int) (calls : List (Call α)) :
    (served prio ⟨[], slot⟩ calls).proc.Sublist (calls.filterMap Call.offered) := by
  induction calls using List.reverseRecOn with
  | nil => exact .slnil
  | append_singleton calls call ih =>
      rw [served_snoc, List.filterMap_append]
      refine (serve_sublist prio _ call).trans ?_
      cases call with
      | enqueue proc => exact ih.append (.refl _)
      | dequeue => exact ih.append (.refl _)

/-! ## Repeated removal -/

/-- What some successive calls of `dequeue` return. -/
def dequeues (prio : α → Nat) (q : Queue α) : (calls : Nat) → List (Option α)
  | 0 => []
  | calls + 1 => (q.dequeue prio).1 :: (q.dequeue prio).2.dequeues prio calls

theorem dequeues_sorted (prio : α → Nat) (q : Queue α) :
    ∃ drained, q.dequeues prio (q.size + 1) = drained.map some ++ [none] ∧
      StablySorted prio q.proc drained := by
  obtain ⟨cells, count⟩ : ∃ cells, q.size = cells := ⟨_, rfl⟩
  induction cells generalizing q with
  | zero =>
      have none : q.proc = [] := List.length_eq_zero_iff.mp count
      refine ⟨[], ?_, none ▸ .nil prio⟩
      rw [count, dequeues, dequeues, dequeue, if_pos (empty_eq_true.mpr none)]
      rfl
  | succ cells ih =>
      have nonempty : q.proc ≠ [] := List.ne_nil_of_length_eq_add_one count
      obtain ⟨proc, rest, removes, result⟩ := dequeue_removes prio nonempty
      have left : ({ q with proc := rest } : Queue α).size = cells :=
        Nat.succ.inj (removes.perm.length_eq.symm.trans count)
      obtain ⟨drained, returned, stable⟩ := ih _ left
      refine ⟨proc :: drained, ?_, ?_⟩
      · rw [left] at returned
        rw [count, dequeues, result, returned]
        rfl
      · obtain ⟨before, after, shape, rfl, first, least⟩ := removes
        rw [shape]
        exact stable.cons_middle first least

/-- **`dequeue` is a stable removal of a minimum.** It returns the first process of smallest
priority in the queue and leaves the others in their order; emptying the queue by it gives the
processes sorted by priority, those of one priority in the order in which they stood. -/
theorem dequeue_stable_minimum (prio : α → Nat) (q : Queue α) (nonempty : 1 ≤ q.size) :
    (∃ proc rest, q.dequeue prio = (some proc, rest) ∧ Removes prio q.proc proc rest.proc ∧
      rest.size + 1 = q.size ∧ rest.slot = q.slot) ∧
    ∃ drained, q.dequeues prio (q.size + 1) = drained.map some ++ [none] ∧
      StablySorted prio q.proc drained := by
  refine ⟨?_, dequeues_sorted prio q⟩
  obtain ⟨proc, rest, removes, result⟩ := dequeue_removes prio (List.ne_nil_of_length_pos nonempty)
  exact ⟨proc, { q with proc := rest }, result, removes, removes.perm.length_eq.symm, rfl⟩

/-- Of four processes with two priorities those of one priority come out in the order in which they
came in. -/
theorem dequeue_stable_minimum_ties :
    StablySorted Prod.fst [(1, 0), (0, 1), (1, 2), (0, 3)] [(0, 1), (0, 3), (1, 0), (1, 2)] := by
  obtain ⟨drained, returned, stable⟩ :=
    (dequeue_stable_minimum Prod.fst ⟨[(1, 0), (0, 1), (1, 2), (0, 3)], 0⟩ (by decide)).2
  have evaluated : (⟨[(1, 0), (0, 1), (1, 2), (0, 3)], 0⟩ : Queue (Nat × Nat)).dequeues Prod.fst 5 =
      [(0, 1), (0, 3), (1, 0), (1, 2)].map some ++ [none] := by decide
  have same := List.append_cancel_right (returned.symm.trans evaluated)
  rwa [(List.map_inj_right fun _ _ => Option.some.inj).mp same] at stable

end Queue

end PagedOs
