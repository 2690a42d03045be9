import Mathlib.Data.List.Count
import Mathlib.Data.List.Pairwise
import Mathlib.Data.List.Perm.Basic
import Mathlib.Logic.Function.Basic
import Mathlib.Order.Lattice
import Mathlib.Order.Defs.LinearOrder

/-! # Counting how often spans cover a point

A span is a half-open interval of a linear order. How many spans of a list hold a
point adds up over the list, so cutting a span in two, joining two neighbours and
moving spans about leave the count of every point as it was. Disjointness and
union are read off the counts at the end.
-/

namespace Spans

variable {α : Type*} [LinearOrder α]

/-- Whether a span holds a point: its start counts, and its end does not. -/
def holds (span : α × α) (x : α) : Bool := span.1 ≤ x ∧ x < span.2

/-- How many of the spans hold the point. -/
def covers (spans : List (α × α)) (x : α) : Nat := spans.countP fun span => holds span x

/-- Spans without a common point, as those of two variables have to be. -/
def Apart (left right : α × α) : Prop := ∀ x, ¬ (holds left x = true ∧ holds right x = true)

/-- A span holds the points from its start on, up to its end and without it. -/
theorem holds_iff {span : α × α} {x : α} : holds span x = true ↔ span.1 ≤ x ∧ x < span.2 :=
  decide_eq_true_iff

/-- A span holds no point exactly if it is empty, as far as its first point tells. -/
theorem holds_eq_false {span : α × α} (empty : span.2 ≤ span.1) (x : α) : holds span x = false :=
  decide_eq_false fun inside => absurd (inside.1.trans_lt inside.2) empty.not_gt

/-- How often a point is covered adds up over the spans of a list. -/
theorem covers_cons (span : α × α) (spans : List (α × α)) (x : α) :
    covers (span :: spans) x = covers [span] x + covers spans x := by
  simp only [covers, List.countP_cons, List.countP_nil, Nat.zero_add]
  exact Nat.add_comm _ _

/-- The spans of two lists together cover a point as often as those of both. -/
@[simp] theorem covers_append (left right : List (α × α)) (x : α) :
    covers (left ++ right) x = covers left x + covers right x := List.countP_append

/-- A single span covers a point once when it holds it, and never otherwise. -/
theorem covers_singleton (span : α × α) (x : α) :
    covers [span] x = if holds span x then 1 else 0 := by
  simp only [covers, List.countP_cons, List.countP_nil, Nat.zero_add]

theorem covers_empty {span : α × α} (empty : span.2 ≤ span.1) (x : α) : covers [span] x = 0 := by
  rw [covers_singleton, holds_eq_false empty x, if_neg (by decide)]

/-- Two neighbours cover what the span from the first to the last bound covers. -/
theorem covers_join {lo mid hi : α} (lower : lo ≤ mid) (upper : mid ≤ hi) (x : α) :
    covers [(lo, hi)] x = covers [(lo, mid)] x + covers [(mid, hi)] x := by
  simp only [covers_singleton, holds_iff]
  by_cases below : x < mid
  · have first : x < hi := below.trans_le upper
    have second : ¬ (mid ≤ x) := below.not_ge
    simp only [below, first, second, and_true, ↓reduceIte, Nat.add_zero]
  · have reached : mid ≤ x := le_of_not_gt below
    have from_lower : lo ≤ x := lower.trans reached
    simp only [below, reached, from_lower, and_false, true_and, ↓reduceIte, Nat.zero_add]

/-- A point lies in one of the spans exactly if its count is not zero. -/
theorem covers_pos {spans : List (α × α)} {x : α} :
    0 < covers spans x ↔ ∃ span ∈ spans, holds span x = true := List.countP_pos_iff

/-- Spans that are not empty have no common point exactly if one ends before the other. -/
theorem apart_iff {left right : α × α} (first : left.1 < left.2) (second : right.1 < right.2) :
    Apart left right ↔ left.2 ≤ right.1 ∨ right.2 ≤ left.1 := by
  constructor
  · intro apart
    rcases le_total left.1 right.1 with before | after
    · refine .inl (le_of_not_gt fun inside => apart right.1 ?_)
      exact ⟨holds_iff.mpr ⟨before, inside⟩, holds_iff.mpr ⟨le_refl _, second⟩⟩
    · refine .inr (le_of_not_gt fun inside => apart left.1 ?_)
      exact ⟨holds_iff.mpr ⟨le_refl _, first⟩, holds_iff.mpr ⟨after, inside⟩⟩
  · rintro order x ⟨inLeft, inRight⟩
    rw [holds_iff] at inLeft inRight
    rcases order with before | after
    · exact absurd (inLeft.2.trans_le before) inRight.1.not_gt
    · exact absurd (inRight.2.trans_le after) inLeft.1.not_gt

/-- Spans none of whose points is counted twice are pairwise disjoint. -/
theorem pairwise_apart {spans : List (α × α)} (once : ∀ x, covers spans x ≤ 1) :
    spans.Pairwise Apart := by
  induction spans with
  | nil => exact .nil
  | cons span spans ih =>
      refine .cons (fun other member x both => ?_) (ih fun x => ?_)
      · have first : covers [span] x = 1 := by rw [covers_singleton, both.1, if_pos rfl]
        have second : 0 < covers spans x := covers_pos.mpr ⟨other, member, both.2⟩
        have total := once x
        rw [covers_cons] at total
        omega
      · have total := once x
        rw [covers_cons] at total
        omega

theorem covers_le_one {spans : List (α × α)} (apart : spans.Pairwise Apart) (x : α) :
    covers spans x ≤ 1 := by
  induction apart with
  | nil => exact Nat.zero_le 1
  | @cons span spans first _ ih =>
      rw [covers_cons, covers_singleton]
      by_cases inside : holds span x = true
      · have others : covers spans x = 0 := by
          apply Nat.eq_zero_of_not_pos
          intro again
          obtain ⟨other, member, also⟩ := covers_pos.mp again
          exact first other member x ⟨inside, also⟩
        have once : (if holds span x = true then 1 else 0) + covers spans x = 1 := by
          rw [if_pos inside, others]
        exact Nat.le_of_eq once
      · rw [if_neg inside, Nat.zero_add]
        exact ih

/-- Two members of a family of spans none of whose points is counted twice. -/
theorem family_apart {κ : Type*} {family : κ → α × α} {keys : List κ}
    (once : ∀ x, covers (keys.map family) x ≤ 1) {left right : κ} (leftMember : left ∈ keys)
    (rightMember : right ∈ keys) (different : left ≠ right) :
    Apart (family left) (family right) := by
  have symmetric : Std.Symm fun first second => Apart (family first) (family second) :=
    ⟨fun _ _ apart x both => apart x both.symm⟩
  exact (List.pairwise_map.mp (pairwise_apart once)).forall leftMember rightMember different

theorem covers_update {κ : Type*} [DecidableEq κ] (family : κ → α × α) {keys : List κ}
    (nodup : keys.Nodup) {key : κ} (member : key ∈ keys) (span : α × α) (x : α) :
    covers (keys.map (Function.update family key span)) x + covers [family key] x =
      covers (keys.map family) x + covers [span] x := by
  induction keys with
  | nil => cases member
  | cons first keys ih =>
      obtain ⟨notLater, rest⟩ := List.nodup_cons.mp nodup
      rw [List.map_cons, covers_cons, List.map_cons, covers_cons (family first)]
      by_cases same : first = key
      · subst same
        have untouched : keys.map (Function.update family first span) = keys.map family :=
          List.map_congr_left fun other inside =>
            Function.update_of_ne (fun hit : other = first => notLater (hit ▸ inside)) ..
        rw [untouched, Function.update_self]
        omega
      · have later : key ∈ keys := (List.mem_cons.mp member).resolve_left (Ne.symm same)
        rw [Function.update_of_ne same]
        have := ih rest later
        omega

theorem covers_filter {keep : α × α → Bool} (spans : List (α × α)) (x : α)
    (empty : ∀ span ∈ spans, keep span = false → covers [span] x = 0) :
    covers (spans.filter keep) x = covers spans x := by
  induction spans with
  | nil => rfl
  | cons span spans ih =>
      have rest := ih fun other member => empty other (List.mem_cons_of_mem _ member)
      rw [covers_cons]
      cases kept : keep span with
      | true => rw [List.filter_cons_of_pos kept, covers_cons, rest]
      | false =>
          rw [List.filter_cons_of_neg (by simp [kept]), rest, empty span List.mem_cons_self kept,
            Nat.zero_add]

end Spans
