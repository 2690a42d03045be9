import Mathlib.Data.List.Count
import Mathlib.Order.Lattice

/-! # Stable sorting

A list sorted by a key in which the items of one key stay in the order of the input. Taking
the first of the items of least key out again and again sorts in this way (`cons_middle`).
-/

namespace StableSort

variable {α κ : Type*} [LinearOrder κ] {key : α → κ}

/-- The items of a list ordered by key, those of one key as they stood in it. -/
structure StablySorted (key : α → κ) (items sorted : List α) : Prop where
  ordered : sorted.Pairwise fun first second => key first ≤ key second
  ties : ∀ k, sorted.filter (key · = k) = items.filter (key · = k)

namespace StablySorted

variable {items sorted before after : List α} {item : α}

/-- The empty list is its own stable sort. -/
theorem nil (key : α → κ) : StablySorted key [] [] := ⟨.nil, fun _ => rfl⟩

theorem perm (stable : StablySorted key items sorted) : sorted.Perm items := by
  classical
  apply List.perm_iff_count.mpr
  intro item
  have kept := congrArg (List.count item) (stable.ties (key item))
  rwa [List.count_filter (by simp), List.count_filter (by simp)] at kept

/-- **Selection.** The first of the items of least key in front of the others, stably sorted. -/
theorem cons_middle (stable : StablySorted key (before ++ after) sorted)
    (first : ∀ other ∈ before, key item < key other)
    (least : ∀ other ∈ after, key item ≤ key other) :
    StablySorted key (before ++ item :: after) (item :: sorted) where
  ordered := by
    refine List.pairwise_cons.mpr ⟨fun other member => ?_, stable.ordered⟩
    rcases List.mem_append.mp (stable.perm.mem_iff.mp member) with early | late
    · exact (first other early).le
    · exact least other late
  ties := fun k => by
    have rest := stable.ties k
    rw [List.filter_append] at rest
    rw [List.filter_append, List.filter_cons, List.filter_cons, rest]
    by_cases same : key item = k
    · -- no item before it has its key
      have none : before.filter (key · = k) = [] := by
        apply List.filter_eq_nil_iff.mpr
        intro other member
        simpa only [decide_eq_true_eq, ← same] using (first other member).ne'
      rw [none, List.nil_append, List.nil_append]
    · simp only [same, decide_false, Bool.false_eq_true, ↓reduceIte]

end StablySorted

end StableSort
