import Mathlib.Logic.Basic
import Mathlib.Data.List.Basic

/-! # Runs of labelled transition systems

A system is a labelled step relation; everything an observer may know about a
step is part of its label, so the list of labels of a run is its history. The
rules `Run.invariant`, `Run.history_invariant` and `Run.countP_add_le` turn a fact
about one step into a fact about every run, `Run.simulate` turns a match of steps
into a match of runs, `Run.agree` compares what two runs show an observer, and `Guarded`
restricts a system to the steps that meet a condition on the state before them.
-/

namespace Transition

variable {σ ε : Type*}

/-- A finite run of a labelled step relation together with its labels. -/
inductive Run (step : σ → ε → σ → Prop) : σ → List ε → σ → Prop where
  | nil (source : σ) : Run step source [] source
  | cons {source middle target : σ} {label : ε} {labels : List ε} :
      step source label middle → Run step middle labels target →
        Run step source (label :: labels) target

/-- The part of a step relation whose steps start in a state meeting the guard. -/
def Guarded (step : σ → ε → σ → Prop) (guard : σ → ε → Prop) : σ → ε → σ → Prop :=
  fun source label target => guard source label ∧ step source label target

variable {step : σ → ε → σ → Prop} {guard : σ → ε → Prop}

namespace Run

/-- A single step is a run with one label. -/
theorem single {source target : σ} {label : ε} (taken : step source label target) :
    Run step source [label] target :=
  .cons taken (.nil target)

/-- Two runs of which one ends where the other begins are one run. -/
theorem append {source middle target : σ} {first second : List ε}
    (left : Run step source first middle) (right : Run step middle second target) :
    Run step source (first ++ second) target := by
  induction left with
  | nil _ => exact right
  | cons taken _ ih => exact .cons taken (ih right)

/-- A run with a first label begins with a step of this label. -/
theorem cons_inv {source target : σ} {label : ε} {labels : List ε}
    (run : Run step source (label :: labels) target) :
    ∃ middle, step source label middle ∧ Run step middle labels target := by
  cases run with
  | cons taken rest => exact ⟨_, taken, rest⟩

/-- A run over a concatenation of histories passes through a middle state. -/
theorem append_inv {source target : σ} {first second : List ε}
    (run : Run step source (first ++ second) target) :
    ∃ middle, Run step source first middle ∧ Run step middle second target := by
  induction first generalizing source with
  | nil => exact ⟨source, .nil source, run⟩
  | cons label labels ih =>
      obtain ⟨next, taken, rest⟩ := run.cons_inv
      obtain ⟨middle, left, right⟩ := ih rest
      exact ⟨middle, .cons taken left, right⟩

/-- A predicate kept by every step holds at the end of every run it holds at the
start of. -/
theorem invariant (predicate : σ → Prop)
    (preserved : ∀ source label target, predicate source → step source label target →
      predicate target)
    {source target : σ} {labels : List ε} (run : Run step source labels target)
    (initial : predicate source) : predicate target := by
  induction run with
  | nil _ => exact initial
  | cons taken _ ih => exact ih (preserved _ _ _ initial taken)

/-- The induction behind the invariants with a history, for a run that starts with some past. -/
private theorem history_invariant_from (predicate : List ε → σ → Prop)
    (preserved : ∀ past source label target, predicate past source → step source label target →
      predicate (past ++ [label]) target)
    {source target : σ} {labels : List ε} (run : Run step source labels target) (past : List ε)
    (initial : predicate past source) : predicate (past ++ labels) target := by
  induction run generalizing past with
  | nil _ => simpa only [List.append_nil] using initial
  | cons taken _ ih =>
      have next := ih _ (preserved _ _ _ _ initial taken)
      simpa only [List.append_assoc, List.singleton_append] using next

/-- A predicate on the history and the state, kept by every step. -/
theorem history_invariant (predicate : List ε → σ → Prop)
    (preserved : ∀ past source label target, predicate past source → step source label target →
      predicate (past ++ [label]) target)
    {source target : σ} {labels : List ε} (run : Run step source labels target)
    (initial : predicate [] source) : predicate labels target := by
  simpa only [List.nil_append] using history_invariant_from predicate preserved run [] initial

/-- The same when a step has to keep it in the states that a run reaches only. -/
theorem reached_invariant (predicate : List ε → σ → Prop) {source target : σ} {labels : List ε}
    (preserved : ∀ past middle label next, Run step source past middle → predicate past middle →
      step middle label next → predicate (past ++ [label]) next)
    (run : Run step source labels target) (initial : predicate [] source) :
    predicate labels target :=
  (run.history_invariant (fun past middle => Run step source past middle ∧ predicate past middle)
    (fun past middle label next held taken =>
      ⟨held.1.append (.single taken), preserved past middle label next held.1 held.2 taken⟩)
    ⟨.nil source, initial⟩).2

/-- A run is one of any relation that allows all of its steps. -/
theorem mono {other : σ → ε → σ → Prop}
    (weaker : ∀ source label target, step source label target → other source label target)
    {source target : σ} {labels : List ε} (run : Run step source labels target) :
    Run other source labels target := by
  induction run with
  | nil _ => exact .nil _
  | cons taken _ ih => exact .cons (weaker _ _ _ taken) ih

theorem unguarded {source target : σ} {labels : List ε}
    (run : Run (Guarded step guard) source labels target) : Run step source labels target :=
  run.mono fun _ _ _ taken => taken.2

end Run

/-- A potential argument: when every step keeps an invariant and lowers a
potential by what it counts, a run counts no more than the potential it starts
with. -/
theorem Run.countP_add_le (predicate : σ → Prop) (counted : ε → Bool) (potential : σ → Int)
    {admitted : ε → Prop}
    (decreases : ∀ source label target, predicate source → admitted label →
      step source label target → predicate target ∧
        (if counted label then 1 else 0) + potential target ≤ potential source)
    {source target : σ} {labels : List ε} (run : Run step source labels target)
    (initial : predicate source) (admissible : ∀ label ∈ labels, admitted label) :
    (labels.countP counted : Int) + potential target ≤ potential source := by
  induction run with
  | nil _ => simp
  | @cons source middle target label labels taken _ ih =>
      have first := decreases _ _ _ initial (admissible _ List.mem_cons_self) taken
      have rest := ih first.1 fun other member => admissible other (List.mem_cons_of_mem _ member)
      have bound := first.2
      rw [List.countP_cons]
      cases hit : counted label with
      | false =>
          simp only [hit, Bool.false_eq_true, ↓reduceIte] at bound ⊢
          omega
      | true =>
          simp only [hit, ↓reduceIte] at bound ⊢
          omega

/-- Follow a list of labels through a partial deterministic system. -/
def follow (next : σ → ε → Option σ) : σ → List ε → Option σ
  | source, [] => some source
  | source, label :: labels => (next source label).bind fun middle => follow next middle labels

/-- Following two sequences of labels is following the one and then the other. -/
theorem follow_append (next : σ → ε → Option σ) (source : σ) (first second : List ε) :
    follow next source (first ++ second) =
      (follow next source first).bind fun middle => follow next middle second := by
  induction first generalizing source with
  | nil => rfl
  | cons label labels ih => simp only [List.cons_append, follow, ih, Option.bind_assoc]

/-- The labels a deterministic system can follow are the history of a run. -/
theorem Run.of_follow (next : σ → ε → Option σ) (source : σ) (labels : List ε)
    (defined : (follow next source labels).isSome) :
    Run (fun before label after => next before label = some after) source labels
      ((follow next source labels).get defined) := by
  induction labels generalizing source with
  | nil => exact .nil source
  | cons label labels ih =>
      cases taken : next source label with
      | none => simp [follow, taken] at defined
      | some middle =>
          have rest : (follow next middle labels).isSome := by
            simpa [follow, taken] using defined
          have moved : follow next source (label :: labels) = follow next middle labels := by
            simp [follow, taken]
          simp only [moved]
          exact .cons taken (ih _ rest)

/-- The steps of a partial deterministic system that a guard admits. -/
def admitted (guard : σ → ε → Prop) [∀ source label, Decidable (guard source label)]
    (next : σ → ε → Option σ) (source : σ) (label : ε) : Option σ :=
  if guard source label then next source label else none

/-- Labels that can be followed within the guard are the history of a guarded run. -/
theorem Run.of_follow_admitted [∀ source label, Decidable (guard source label)]
    (next : σ → ε → Option σ) (matched : ∀ source label target,
      next source label = some target → step source label target) (source : σ) (labels : List ε)
    (defined : (follow (admitted guard next) source labels).isSome) :
    Run (Guarded step guard) source labels
      ((follow (admitted guard next) source labels).get defined) := by
  apply (Run.of_follow _ source labels defined).mono
  intro before label after taken
  by_cases inside : guard before label
  · rw [admitted, if_pos inside] at taken
    exact ⟨inside, matched before label after taken⟩
  · rw [admitted, if_neg inside] at taken
    cases taken

/-- Simulation: when every step of one system is matched by a step of the other, with
the label an observer sees, or is hidden and leaves the states related, then every run
is matched by a run with the labels the observer sees. -/
theorem Run.simulate {τ η : Type*} {other : τ → η → τ → Prop} (related : σ → τ → Prop)
    (observe : ε → Option η)
    (matched : ∀ source label target mirror, related source mirror → step source label target →
      match observe label with
      | none => related target mirror
      | some seen => ∃ reached, other mirror seen reached ∧ related target reached)
    {source target : σ} {labels : List ε} (run : Run step source labels target)
    {mirror : τ} (initial : related source mirror) :
    ∃ reached, Run other mirror (labels.filterMap observe) reached ∧ related target reached := by
  induction run generalizing mirror with
  | nil _ => exact ⟨mirror, .nil mirror, initial⟩
  | @cons source middle target label labels taken _ ih =>
      have first := matched _ _ _ _ initial taken
      cases seen : observe label with
      | none =>
          rw [seen] at first
          rw [List.filterMap_cons_none seen]
          exact ih first
      | some visible =>
          rw [seen] at first
          obtain ⟨next, moved, nextRelated⟩ := first
          obtain ⟨reached, rest, finalRelated⟩ := ih nextRelated
          rw [List.filterMap_cons_some seen]
          exact ⟨reached, .cons moved rest, finalRelated⟩

/-- Unwinding: two runs, in which hidden steps leave the states related and a visible step
of each with the same input shows the same and keeps them related, show the same when
they have the same inputs. -/
theorem Run.agree {τ η ω α : Type*} {other : τ → η → τ → Prop} (related : σ → τ → Prop)
    (observe : ε → Option ω) (observeOther : η → Option ω) (input : ω → α)
    (hidden : ∀ source label target mirror, related source mirror → step source label target →
      observe label = none → related target mirror)
    (hiddenOther : ∀ source mirror label reached, related source mirror →
      other mirror label reached → observeOther label = none → related source reached)
    (matched : ∀ source label target mirror labelOther reached seen seenOther,
      related source mirror → step source label target → other mirror labelOther reached →
      observe label = some seen → observeOther labelOther = some seenOther →
      input seen = input seenOther → seen = seenOther ∧ related target reached)
    {source target : σ} {mirror reached : τ} {labels : List ε} {labelsOther : List η}
    (run : Run step source labels target) (runOther : Run other mirror labelsOther reached)
    (same : (labels.filterMap observe).map input =
      (labelsOther.filterMap observeOther).map input) (initial : related source mirror) :
    labels.filterMap observe = labelsOther.filterMap observeOther ∧ related target reached := by
  induction run generalizing mirror labelsOther with
  | nil source =>
      -- the other run shows nothing either
      induction runOther with
      | nil _ => exact ⟨rfl, initial⟩
      | @cons mirror next _ label labels taken _ ih =>
          cases seen : observeOther label with
          | some visible => simp [List.filterMap_cons_some seen] at same
          | none =>
              rw [List.filterMap_cons_none seen] at same ⊢
              exact ih same (hiddenOther _ _ _ _ initial taken seen)
  | @cons source middle target label labels taken _ ih =>
      cases seen : observe label with
      | none =>
          rw [List.filterMap_cons_none seen] at same ⊢
          exact ih runOther same (hidden _ _ _ _ initial taken seen)
      | some visible =>
          rw [List.filterMap_cons_some seen] at same ⊢
          -- the other run hides steps before it shows its own
          induction runOther with
          | nil _ => simp at same
          | @cons mirror next _ labelOther labelsOther takenOther rest inner =>
              cases seenOther : observeOther labelOther with
              | none =>
                  rw [List.filterMap_cons_none seenOther] at same ⊢
                  exact inner ih (hiddenOther _ _ _ _ initial takenOther seenOther) same
              | some visibleOther =>
                  rw [List.filterMap_cons_some seenOther] at same ⊢
                  simp only [List.map_cons, List.cons.injEq] at same
                  obtain ⟨agrees, nextRelated⟩ :=
                    matched _ _ _ _ _ _ _ _ initial taken takenOther seen seenOther same.1
                  obtain ⟨later, finalRelated⟩ := ih rest same.2 nextRelated
                  exact ⟨by rw [agrees, later], finalRelated⟩

end Transition
