import Mathlib.Data.List.Basic
import Mathlib.Data.List.Sort

/-! # Arrivals

A history lists arrivals, the latest one last; an item may leave and arrive again. Of
the items that are there at some moment the newest is the one that arrived last, and an
item is the oldest when all others arrived after its own last arrival.
-/

namespace Recency

variable {α : Type*}

/-- The second item arrived after the last arrival of the first. -/
def After (history : List α) (item other : α) : Prop :=
  ∃ front back, history = front ++ item :: back ∧ item ∉ back ∧ other ∈ back

/-- The item has been there longest of those that are there. -/
def Oldest (history : List α) (present : α → Bool) (item : α) : Prop :=
  ∀ other, present other = true → other ≠ item → After history item other

/-- The last arrival of an item that is there. -/
def newest (history : List α) (present : α → Bool) : Option α := history.reverse.find? present

variable {history : List α} {present : α → Bool} {item : α}

/-- The last item to arrive is the newest. -/
theorem newest_append_singleton (there : present item = true) :
    newest (history ++ [item]) present = some item := by
  rw [newest, List.reverse_append, List.reverse_singleton, List.singleton_append,
    List.find?_cons_of_pos there]

/-- Nothing that is there arrived after the newest. -/
theorem eq_append_of_newest (found : newest history present = some item) :
    present item = true ∧ ∃ front back, history = front ++ item :: back ∧
      ∀ other ∈ back, present other = false := by
  obtain ⟨there, front, back, shape, earlier⟩ := List.find?_eq_some_iff_append.mp found
  refine ⟨there, back.reverse, front.reverse, ?_, fun other member => ?_⟩
  · rw [← List.reverse_reverse history, shape, List.reverse_append, List.reverse_cons,
      List.append_assoc, List.singleton_append]
  · simpa using earlier other (List.mem_reverse.mp member)

/-- **The newest is the oldest** only where it is alone. -/
theorem oldest_newest_iff (found : newest history present = some item) :
    Oldest history present item ↔ ∀ other, present other = true → other = item := by
  obtain ⟨there, front, back, shape, gone⟩ := eq_append_of_newest found
  refine ⟨fun oldest other otherThere => ?_, fun alone other otherThere different =>
    absurd (alone other otherThere) different⟩
  by_contra different
  obtain ⟨front', back', shape', last, later⟩ := oldest other otherThere different
  -- both cut the history at the last arrival of the item
  have notBack : item ∉ back := fun member => by
    rw [gone item member] at there
    cases there
  have same : back = back' := by
    rw [shape] at shape'
    rcases List.append_eq_append_iff.mp shape' with ⟨middle, rfl, tail⟩ | ⟨middle, rfl, tail⟩
    · cases middle with
      | nil => simpa using tail
      | cons first middle =>
          obtain ⟨rfl, rfl⟩ := List.cons.inj tail
          exact absurd (List.mem_append_right _ List.mem_cons_self) notBack
    · cases middle with
      | nil => simpa using tail.symm
      | cons first middle =>
          obtain ⟨rfl, rfl⟩ := List.cons.inj tail
          exact absurd (List.mem_append_right _ List.mem_cons_self) last
  rw [← same] at later
  rw [gone other later] at otherThere
  cases otherThere

/-- A stretch of numbers cut out of a longer one. -/
theorem filter_range_eq {bound start count : Nat} {p : Nat → Bool} (inside : start + count ≤ bound)
    (exactly : ∀ n < bound, p n = true ↔ start ≤ n ∧ n < start + count) :
    (List.range bound).filter p = List.range' start count := by
  apply (List.pairwise_lt_range.filter p).eq_of_mem_iff List.pairwise_lt_range'
  intro n
  rw [List.mem_filter, List.mem_range, List.mem_range'_1]
  refine ⟨fun ⟨below, holds⟩ => (exactly n below).mp holds, fun within => ?_⟩
  have below : n < bound := by omega
  exact ⟨below, (exactly n below).mpr within⟩

end Recency
