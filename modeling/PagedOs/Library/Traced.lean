import Mathlib.Data.Option.Basic
import Mathlib.Data.List.Basic

/-! # Computations that leave a trace

A computation records events and returns a value, or it never returns and has then only
recorded some. Forgetting the events gives back a plain partial computation; the rule
`Always.bind` says which events a sequence of two computations can record, and
`feed_eq_iff` when two machines that are fed the same inputs leave the same trace.
-/

universe u v

/-- The events of a computation, and its value if it returns. -/
structure Traced (ε : Type u) (α : Type v) where
  events : List ε
  result : Option α

namespace Traced

variable {ε : Type u} {α β : Type v}

/-- One computation after the other: the second records behind the first, if that returns. -/
def andThen (first : Traced ε α) (second : α → Traced ε β) : Traced ε β :=
  match first.result with
  | none => ⟨first.events, none⟩
  | some value => ⟨first.events ++ (second value).events, (second value).result⟩

/-- Traced computations form a monad: the events of the second part come behind those of the first,
and an aborted first part has no second one. -/
instance : Monad (Traced ε) where
  pure value := ⟨[], some value⟩
  bind := andThen

/-- A partial computation that records nothing, whether it returns or not. -/
def lift (result : Option α) : Traced ε α := ⟨[], result⟩

/-- Record an event and go on. -/
def record (event : ε) : Traced ε PUnit := ⟨[event], some ⟨⟩⟩

/-- Record an event and never return, as a failed assertion does. -/
def abort (event : ε) : Traced ε α := ⟨[event], none⟩

/-- A computation that only returns has its value for a result. -/
@[simp] theorem result_pure (value : α) : (pure value : Traced ε α).result = some value := rfl

/-- A computation that only returns has no events. -/
@[simp] theorem events_pure (value : α) : (pure value : Traced ε α).events = [] := rfl

/-- A result that is taken over is the result. -/
@[simp] theorem result_lift (result : Option α) : (lift result : Traced ε α).result = result := rfl

/-- A result that is taken over comes without events. -/
@[simp] theorem events_lift (result : Option α) : (lift result : Traced ε α).events = [] := rfl

@[simp] theorem result_record (event : ε) :
    (record event : Traced ε PUnit.{v + 1}).result = some ⟨⟩ := rfl

@[simp] theorem events_record (event : ε) :
    (record event : Traced ε PUnit.{v + 1}).events = [event] := rfl

@[simp] theorem result_abort (event : ε) : (abort event : Traced ε α).result = none := rfl

/-- A computation that aborts records why it did, and nothing else. -/
@[simp] theorem events_abort (event : ε) : (abort event : Traced ε α).events = [event] := rfl

variable {first : Traced ε α} {second : α → Traced ε β}

@[simp] theorem result_bind :
    (first >>= second).result = first.result.bind fun value => (second value).result := by
  cases returned : first.result <;> simp [bind, andThen, returned]

/-- An event that is recorded in front does not matter to the result. -/
theorem result_record_bind (event : ε) (rest : PUnit → Traced ε β) :
    (record event >>= rest).result = (rest ⟨⟩).result := rfl

/-- An event of two computations is one of the first, or one of the second when the first returns.
-/
theorem mem_events_bind {event : ε} : event ∈ (first >>= second).events ↔
    event ∈ first.events ∨ ∃ value, first.result = some value ∧ event ∈ (second value).events := by
  cases returned : first.result <;> simp [bind, andThen, returned]

/-- What the first computation records is recorded whatever comes next. -/
theorem mem_events_of_first {event : ε} (member : event ∈ first.events) :
    event ∈ (first >>= second).events := mem_events_bind.mpr (.inl member)

/-- Every event meets the condition, also those recorded before an abort. -/
def Always (condition : ε → Prop) (m : Traced ε α) : Prop := ∀ event ∈ m.events, condition event

variable {condition : ε → Prop}

/-- A computation without events meets any condition on its events. -/
theorem Always.pure (value : α) : Always condition (Pure.pure value : Traced ε α) :=
  fun _ member => absurd member List.not_mem_nil

/-- A result that is taken over meets any condition, as it comes without events. -/
theorem Always.lift (result : Option α) : Always condition (Traced.lift result : Traced ε α) :=
  fun _ member => absurd member List.not_mem_nil

/-- A recorded event meets the condition when the event itself does. -/
theorem Always.record {event : ε} (meets : condition event) :
    Always condition (Traced.record event : Traced ε PUnit.{v + 1}) := fun _ member => by
  rwa [List.mem_singleton.mp member]

/-- Two computations one after the other meet the condition when both of them do. -/
theorem Always.bind (left : Always condition first)
    (right : ∀ value, first.result = some value → Always condition (second value)) :
    Always condition (first >>= second) := fun event member =>
  (mem_events_bind.mp member).elim (left event) fun ⟨value, returned, later⟩ =>
    right value returned event later

/-! ## Machines that are fed inputs -/

variable {σ : Type v} {ι : Type*}

/-- Feed a machine one input after the other. -/
def feed (step : σ → ι → Traced ε σ) : σ → List ι → Traced ε σ
  | s, [] => Pure.pure s
  | s, input :: inputs => step s input >>= fun next => feed step next inputs

/-- Every input that the machine comes to finds it in a state that meets the condition. -/
def Along (step : σ → ι → Traced ε σ) (condition : σ → ι → Prop) : σ → List ι → Prop
  | _, [] => True
  | s, input :: inputs => condition s input ∧
      ∀ next, (step s input).result = some next → Along step condition next inputs

/-- A condition on all states and inputs holds along every sequence of inputs. -/
theorem Along.of_forall {step : σ → ι → Traced ε σ} {condition : σ → ι → Prop}
    (always : ∀ s input, condition s input) (s : σ) (inputs : List ι) :
    Along step condition s inputs := by
  induction inputs generalizing s with
  | nil => trivial
  | cons input inputs ih => exact ⟨always s input, fun next _ => ih next⟩

/-- What every step does where the condition is met, the machine does that only comes to
such states. -/
theorem Always.feed {event : ε → Prop} {step : σ → ι → Traced ε σ} {condition : σ → ι → Prop}
    (always : ∀ s input, condition s input → Always event (step s input)) {s : σ}
    {inputs : List ι} (along : Along step condition s inputs) :
    Always event (Traced.feed step s inputs) := by
  induction inputs generalizing s with
  | nil => exact .pure s
  | cons input inputs ih =>
      exact .bind (always s input along.1) fun next reached => ih (along.2 next reached)

/-- Machines whose steps record different things but lead to the same states. -/
theorem result_feed_congr {η : Type*} {step : σ → ι → Traced ε σ} {other : σ → ι → Traced η σ}
    {condition : σ → ι → Prop}
    (same : ∀ s input, condition s input → (step s input).result = (other s input).result)
    {s : σ} {inputs : List ι} (along : Along step condition s inputs) :
    (feed step s inputs).result = (feed other s inputs).result := by
  induction inputs generalizing s with
  | nil => rfl
  | cons input inputs ih =>
      simp only [feed, result_bind, ← same s input along.1]
      exact Option.bind_congr fun next reached => ih (along.2 next reached)

/-- The events of the first computation come first. -/
theorem events_bind (first : Traced ε α) (second : α → Traced ε β) :
    ∃ later, (first >>= second).events = first.events ++ later := by
  cases returned : first.result with
  | none => exact ⟨[], by simp [bind, andThen, returned]⟩
  | some value => exact ⟨(second value).events, by simp [bind, andThen, returned]⟩

/-- After the same computation the traces are the same if it does not return, or if they go on
the same. -/
theorem bind_eq_iff {other : α → Traced ε β} : first >>= second = first >>= other ↔
    ∀ value, first.result = some value → second value = other value := by
  cases returned : first.result with
  | none => simp [bind, andThen, returned]
  | some value =>
      simp only [bind, andThen, returned, mk.injEq, List.append_cancel_left_eq, Option.some.injEq,
        forall_eq']
      exact ⟨fun ⟨events, result⟩ => congrArg₂ mk events result, fun same => by simp [same]⟩

/-- **Two machines leave the same trace** exactly when the first of them only comes to states
that meet a condition, if their steps are the same where it is met and start with
different events where it is not. -/
theorem feed_eq_iff {step other : σ → ι → Traced ε σ}
    {condition : σ → ι → Prop}
    (same : ∀ s input, condition s input → other s input = step s input)
    (differ : ∀ s input, ¬ condition s input → ∃ event event' events events',
      (step s input).events = event :: events ∧ (other s input).events = event' :: events' ∧
        event' ≠ event) (s : σ) (inputs : List ι) :
    feed other s inputs = feed step s inputs ↔ Along step condition s inputs := by
  induction inputs generalizing s with
  | nil => exact iff_of_true rfl trivial
  | cons input inputs ih =>
      by_cases met : condition s input
      · simp only [feed, Along, same s input met, bind_eq_iff, met, true_and, ih]
      · refine iff_of_false (fun equal => ?_) fun along => met along.1
        -- the first event already differs
        obtain ⟨event, event', events, events', recorded, recorded', different⟩ :=
          differ s input met
        obtain ⟨later, shape⟩ := events_bind (step s input) fun next => feed step next inputs
        obtain ⟨later', shape'⟩ := events_bind (other s input) fun next => feed other next inputs
        rw [recorded] at shape
        rw [recorded'] at shape'
        have traces := congrArg Traced.events equal
        simp only [feed, shape, shape', List.cons_append] at traces
        exact different (List.cons.inj traces).1

/-! ## Events after others -/

/-- Every event is good after the ones before it. -/
def Legal (good : List ε → ε → Prop) : List ε → List ε → Prop
  | _, [] => True
  | past, event :: events => good past event ∧ Legal good (past ++ [event]) events

variable {good : List ε → ε → Prop}

/-- Events are legal behind a past when the first part is, and the second part behind the past with
the first one. -/
theorem Legal.append {past first second : List ε} (left : Legal good past first)
    (right : Legal good (past ++ first) second) : Legal good past (first ++ second) := by
  induction first generalizing past with
  | nil => rwa [List.append_nil] at right
  | cons event first ih =>
      refine ⟨left.1, ih left.2 ?_⟩
      rwa [List.append_assoc, List.singleton_append]

theorem Legal.of_split {past before after : List ε} {event : ε}
    (legal : Legal good past (before ++ event :: after)) : good (past ++ before) event := by
  induction before generalizing past with
  | nil =>
      rw [List.append_nil]
      exact legal.1
  | cons earlier before ih =>
      have later := ih legal.2
      rwa [List.append_assoc, List.singleton_append] at later

/-- The events of a computation are legal, and its value is as expected after them. -/
def Meets (good : List ε → ε → Prop) (keeps : List ε → α → Prop) (past : List ε)
    (m : Traced ε α) : Prop :=
  Legal good past m.events ∧ ∀ value, m.result = some value → keeps (past ++ m.events) value

/-- A computation that only returns keeps what its value meets. -/
theorem Meets.pure {keeps : List ε → α → Prop} {past : List ε} {value : α}
    (kept : keeps past value) : Meets good keeps past (Pure.pure value) := by
  refine ⟨trivial, fun _ returned => ?_⟩
  obtain rfl := Option.some.inj returned
  rwa [events_pure, List.append_nil]

/-- Nothing is asked of a computation that does not return and has no events. -/
theorem Meets.never {keeps : List ε → α → Prop} {past : List ε} :
    Meets good keeps past (Traced.lift none) := ⟨trivial, nofun⟩

/-- An event that is good now is recorded, and the rest goes on behind it. -/
theorem Meets.record {keeps : List ε → β → Prop} {past : List ε} {event : ε}
    {rest : PUnit → Traced ε β} (now : good past event)
    (later : Meets good keeps (past ++ [event]) (rest ⟨⟩)) :
    Meets good keeps past (Traced.record event >>= rest) := by
  refine ⟨⟨now, later.1⟩, fun value returned => ?_⟩
  have kept := later.2 value returned
  rwa [List.append_assoc] at kept

/-- **The rule for two computations one after the other.** The second one may rely on what the
first one keeps of its value and of the events so far. -/
theorem Meets.bind {keeps : List ε → α → Prop} {keepsLater : List ε → β → Prop} {past : List ε}
    (left : Meets good keeps past first)
    (right : ∀ value, keeps (past ++ first.events) value →
      Meets good keepsLater (past ++ first.events) (second value)) :
    Meets good keepsLater past (first >>= second) := by
  cases returned : first.result with
  | none =>
      simp only [Meets, Bind.bind, andThen, returned]
      exact ⟨left.1, nofun⟩
  | some value =>
      obtain ⟨legal, kept⟩ := right value (left.2 value returned)
      simp only [Meets, Bind.bind, andThen, returned]
      refine ⟨left.1.append legal, fun last reached => ?_⟩
      rw [← List.append_assoc]
      exact kept last reached

/-- **Run rule.** What each step keeps and does, given what was recorded before, a machine that is
fed inputs keeps and does. -/
theorem Meets.feed {keeps : List ε → σ → Prop} {step : σ → ι → Traced ε σ} {admitted : ι → Prop}
    (steps : ∀ past s input, keeps past s → admitted input →
      Meets good keeps past (step s input))
    {past : List ε} {s : σ} {inputs : List ι} (kept : keeps past s)
    (admissible : ∀ input ∈ inputs, admitted input) :
    Meets good keeps past (Traced.feed step s inputs) := by
  induction inputs generalizing past s with
  | nil => exact .pure kept
  | cons input inputs ih =>
      refine .bind (steps past s input kept (admissible input List.mem_cons_self)) ?_
      intro next kept'
      exact ih kept' fun other member => admissible other (List.mem_cons_of_mem input member)

end Traced
