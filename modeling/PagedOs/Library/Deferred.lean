import Mathlib.Data.List.Nodup
import Mathlib.Logic.Function.Conjugate

/-! # Actions put off

Every thread has a list of actions that it has still to perform. `settle` performs those of some
threads, one thread after the other. Where the actions of different threads commute, a thread that
performs its next one does not change what `settle` leads to, and a thread that sets out to perform
a list of them has performed it at once there. So what happens an action at a time, in any order,
happens in one step of the settled state.
-/

namespace Deferred

variable {κ α σ β : Type*}

/-- A thread performs a list of actions. -/
def finish (act : κ → α → σ → σ) (k : κ) (actions : List α) (s : σ) : σ :=
  actions.foldl (fun s action => act k action s) s

/-- Some threads perform what they have to do. -/
def settle (act : κ → α → σ → σ) (ks : List κ) (todo : κ → List α) (s : σ) : σ :=
  ks.foldl (fun s k => finish act k (todo k) s) s

/-- What different threads have to do commutes. -/
def Independent (act : κ → α → σ → σ) (todo : κ → List α) : Prop :=
  ∀ ⦃j k⦄, j ≠ k → ∀ a ∈ todo j, ∀ b ∈ todo k, Function.Commute (act j a) (act k b)

variable {act : κ → α → σ → σ} {ks : List κ} {todo : κ → List α} {k : κ} {s : σ}

/-- Where no action is left to be done, finishing leaves the state as it is. -/
@[simp] theorem finish_nil (k : κ) (s : σ) : finish act k [] s = s := rfl

/-- The actions that are left are done from the first one on. -/
@[simp] theorem finish_cons (k : κ) (action : α) (actions : List α) (s : σ) :
    finish act k (action :: actions) s = finish act k actions (act k action s) := rfl

/-- Doing the actions of two lists is doing those of one list put together. -/
theorem finish_append (k : κ) (first second : List α) (s : σ) :
    finish act k (first ++ second) s = finish act k second (finish act k first s) :=
  List.foldl_append ..

@[simp] theorem settle_nil (todo : κ → List α) (s : σ) : settle act [] todo s = s := rfl

/-- The participants are settled one after the other, each with all the actions that it has left.
-/
@[simp] theorem settle_cons (j : κ) (ks : List κ) (todo : κ → List α) (s : σ) :
    settle act (j :: ks) todo s = settle act ks todo (finish act j (todo j) s) := rfl

/-- Only what is left to the participants that are settled matters. -/
theorem settle_congr {other : κ → List α} (same : ∀ j ∈ ks, other j = todo j) :
    settle act ks other s = settle act ks todo s := by
  induction ks generalizing s with
  | nil => rfl
  | cons j ks ih =>
      rw [settle_cons, settle_cons, same j List.mem_cons_self,
        ih fun i member => same i (List.mem_cons_of_mem _ member)]

theorem settle_idle (idle : ∀ j ∈ ks, todo j = []) : settle act ks todo s = s := by
  induction ks generalizing s with
  | nil => rfl
  | cons j ks ih =>
      rw [settle_cons, idle j List.mem_cons_self, finish_nil]
      exact ih fun i member => idle i (List.mem_cons_of_mem _ member)

/-! ## What no action changes -/

/-- A view that none of the actions changes is the same before and after them. -/
theorem finish_view (view : σ → β) {actions : List α}
    (keeps : ∀ a ∈ actions, ∀ s, view (act k a s) = view s) :
    view (finish act k actions s) = view s := by
  induction actions generalizing s with
  | nil => rfl
  | cons a actions ih =>
      rw [finish_cons, ih fun b member => keeps b (List.mem_cons_of_mem _ member)]
      exact keeps a List.mem_cons_self s

/-- A view that no action of any participant changes is the same before and after settling. -/
theorem settle_view (view : σ → β)
    (keeps : ∀ j ∈ ks, ∀ a ∈ todo j, ∀ s, view (act j a s) = view s) :
    view (settle act ks todo s) = view s := by
  induction ks generalizing s with
  | nil => rfl
  | cons j ks ih =>
      rw [settle_cons, ih fun i member => keeps i (List.mem_cons_of_mem _ member)]
      exact finish_view view (keeps j List.mem_cons_self)

/-! ## What commutes with every action -/

/-- A function on states that commutes with each of the actions commutes with all of them together.
-/
theorem commute_finish {f : σ → σ} {actions : List α}
    (commutes : ∀ a ∈ actions, Function.Commute f (act k a)) :
    Function.Commute f (finish act k actions) := by
  intro s
  induction actions generalizing s with
  | nil => rfl
  | cons a actions ih =>
      have head : f (act k a s) = act k a (f s) := commutes a List.mem_cons_self s
      rw [finish_cons, finish_cons, ih fun b member => commutes b (List.mem_cons_of_mem _ member),
        head]

/-- A function on states that commutes with every action that is left commutes with settling. -/
theorem settle_comm {f : σ → σ}
    (commutes : ∀ j ∈ ks, ∀ a ∈ todo j, Function.Commute f (act j a)) :
    settle act ks todo (f s) = f (settle act ks todo s) := by
  induction ks generalizing s with
  | nil => rfl
  | cons j ks ih =>
      have head : f (finish act j (todo j) s) = finish act j (todo j) (f s) :=
        commute_finish (commutes j List.mem_cons_self) s
      rw [settle_cons, settle_cons, ← head]
      exact ih fun i member => commutes i (List.mem_cons_of_mem _ member)

/-! ## Steps of a thread -/

variable [DecidableEq κ]

/-- **Performing** the next action leaves the settled state. -/
theorem settle_perform (independent : Independent act todo) (nodup : ks.Nodup) (member : k ∈ ks)
    {action : α} {rest : List α} (next : todo k = action :: rest) :
    settle act ks (Function.update todo k rest) (act k action s) = settle act ks todo s := by
  induction ks generalizing s with
  | nil => cases member
  | cons j ks ih =>
      obtain ⟨fresh, nodup⟩ := List.nodup_cons.mp nodup
      rw [settle_cons, settle_cons]
      by_cases same : j = k
      · subst same
        rw [Function.update_self, next, finish_cons]
        refine settle_congr fun i inside => Function.update_of_ne ?_ ..
        rintro rfl
        exact fresh inside
      · have inside : k ∈ ks := (List.mem_cons.mp member).resolve_left fun hit => same hit.symm
        have moved : finish act j (todo j) (act k action s) =
            act k action (finish act j (todo j) s) := by
          refine (commute_finish (fun a here => ?_) s).symm
          exact independent (Ne.symm same) action (next ▸ List.mem_cons_self) a here
        rw [Function.update_of_ne same, moved]
        exact ih nodup inside

/-- **Setting out** to perform a list of actions performs it in the settled state. -/
theorem settle_add (idle : todo k = []) (nodup : ks.Nodup) (member : k ∈ ks) {plan : List α}
    (independent : Independent act (Function.update todo k plan)) :
    settle act ks (Function.update todo k plan) s = finish act k plan (settle act ks todo s) := by
  have commutes (j : κ) (other : j ≠ k) (a : α) (here : a ∈ todo j) :
      Function.Commute (finish act k plan) (act j a) := by
    refine (commute_finish fun b inside => ?_).symm
    refine independent other a ?_ b ?_
    · rwa [Function.update_of_ne other]
    · rwa [Function.update_self]
  induction ks generalizing s with
  | nil => cases member
  | cons j ks ih =>
      obtain ⟨fresh, nodup⟩ := List.nodup_cons.mp nodup
      rw [settle_cons, settle_cons]
      by_cases same : j = k
      · subst same
        rw [Function.update_self, idle, finish_nil]
        have others (i : κ) (inside : i ∈ ks) : i ≠ j := fun hit => fresh (hit ▸ inside)
        rw [settle_congr fun i inside => Function.update_of_ne (others i inside) ..]
        exact settle_comm fun i inside a here => commutes i (others i inside) a here
      · have inside : k ∈ ks := (List.mem_cons.mp member).resolve_left fun hit => same hit.symm
        rw [Function.update_of_ne same]
        exact ih nodup inside

end Deferred
