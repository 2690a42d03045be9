import Mathlib.Logic.Function.Basic
import PagedOs.Library.Transition

/-! # Computations that call shared objects

A computation makes calls, goes on with what they return, and returns a value in the end. `perform`
executes it on its own. `Interleaved` is a machine of threads with data of their own, which execute
their computations a call at a time in any order; `run_alone` says that what a computation does on
its own can happen there.
-/

universe u v w

/-- A computation with calls `c : γ` whose results are in `ρ c`. -/
inductive Calling (γ : Type u) (ρ : γ → Type v) (α : Type w) where
  | ret (value : α)
  | call (c : γ) (next : ρ c → Calling γ ρ α)

namespace Calling

variable {γ : Type u} {ρ : γ → Type v} {α β : Type w} {σ : Type*}

/-- One computation after the other: the second starts with what the first one returns. -/
def andThen : Calling γ ρ α → (α → Calling γ ρ β) → Calling γ ρ β
  | ret value, f => f value
  | call c next, f => call c fun result => (next result).andThen f

/-- Computations form a monad: the second part is put behind every way in which the first can
return. -/
instance : Monad (Calling γ ρ) where
  pure := ret
  bind := andThen

/-- Nothing but a call, whose result is returned. -/
def ask (c : γ) : Calling γ ρ (ρ c) := call c ret

@[simp] theorem pure_eq (value : α) : (pure value : Calling γ ρ α) = ret value := rfl

/-- Nothing is put in front of what follows a computation that has returned already. -/
@[simp] theorem ret_bind (value : α) (f : α → Calling γ ρ β) : ret value >>= f = f value := rfl

/-- What follows a call is put behind whatever the computation does with its result. -/
@[simp] theorem call_bind (c : γ) (next : ρ c → Calling γ ρ α) (f : α → Calling γ ρ β) :
    call c next >>= f = call c fun result => next result >>= f := rfl

/-- A computation followed by the bare return of its value is the computation itself. -/
theorem bind_ret (m : Calling γ ρ α) : m >>= ret = m := by
  induction m with
  | ret value => rfl
  | call c next ih => exact congrArg (call c) (funext ih)

/-- Three computations one after the other are the same however they are bracketed. -/
theorem bind_bind {δ : Type w} (m : Calling γ ρ α) (f : α → Calling γ ρ β)
    (g : β → Calling γ ρ δ) : m >>= f >>= g = m >>= fun value => f value >>= g := by
  induction m with
  | ret value => rfl
  | call c next ih => exact congrArg (call c) (funext ih)

/-- The monad laws, so that the lemmas about lawful monads rewrite computations. -/
instance : LawfulMonad (Calling γ ρ) :=
  LawfulMonad.mk' _ bind_ret (fun _ _ => rfl) bind_bind

/-- What a computation returns when nothing comes in between, and what it leaves. -/
def perform (handle : (c : γ) → σ → ρ c × σ) : Calling γ ρ α → σ → α × σ
  | ret value, s => (value, s)
  | call c next, s => (next (handle c s).1).perform handle (handle c s).2

variable (handle : (c : γ) → σ → ρ c × σ)

/-- A computation that has returned leaves the state that the handler works on. -/
@[simp] theorem perform_ret (value : α) (s : σ) :
    (ret value : Calling γ ρ α).perform handle s = (value, s) := rfl

/-- A call is handled in the present state, and the rest goes on in the state behind it. -/
@[simp] theorem perform_call (c : γ) (next : ρ c → Calling γ ρ α) (s : σ) :
    (call c next).perform handle s = (next (handle c s).1).perform handle (handle c s).2 := rfl

theorem perform_last {c : γ} {next : ρ c → Calling γ ρ α} {s after : σ} {result : ρ c} {value : α}
    (handled : handle c s = (result, after)) (last : next result = ret value) :
    (call c next).perform handle s = (value, after) := by
  rw [perform_call, handled, last, perform_ret]

/-- Two computations one after the other are performed one after the other, the second in the state
and with the value that the first one leaves. -/
@[simp] theorem perform_bind (m : Calling γ ρ α) (f : α → Calling γ ρ β) (s : σ) :
    (m >>= f).perform handle s =
      (f (m.perform handle s).1).perform handle (m.perform handle s).2 := by
  induction m generalizing s with
  | ret value => rfl
  | call c next ih => exact ih _ _

/-- Every call that a computation makes when nothing comes in between is admitted in the state in
which it is made. -/
def Admitted (ok : γ → σ → Prop) : Calling γ ρ α → σ → Prop
  | ret _, _ => True
  | call c next, s => ok c s ∧ (next (handle c s).1).Admitted ok (handle c s).2

variable {ok : γ → σ → Prop}

/-- A computation that makes no call makes none that is not allowed. -/
@[simp] theorem admitted_ret (value : α) (s : σ) :
    (ret value : Calling γ ρ α).Admitted handle ok s := trivial

/-- A call is allowed in the present state, and so is everything behind it in the state it leads
to. -/
@[simp] theorem admitted_call (c : γ) (next : ρ c → Calling γ ρ α) (s : σ) :
    (call c next).Admitted handle ok s ↔
      ok c s ∧ (next (handle c s).1).Admitted handle ok (handle c s).2 := Iff.rfl

/-- For a single call it is enough that the call itself is allowed. -/
@[simp] theorem admitted_ask (c : γ) (s : σ) :
    (ask c : Calling γ ρ (ρ c)).Admitted handle ok s ↔ ok c s := and_iff_left trivial

/-- The second of two computations makes its calls in the state that the first one leaves. -/
@[simp] theorem admitted_bind (m : Calling γ ρ α) (f : α → Calling γ ρ β) (s : σ) :
    (m >>= f).Admitted handle ok s ↔ m.Admitted handle ok s ∧
      (f (m.perform handle s).1).Admitted handle ok (m.perform handle s).2 := by
  induction m generalizing s with
  | ret value => exact (and_iff_right trivial).symm
  | call c next ih =>
      rw [call_bind, admitted_call, ih, admitted_call, and_assoc]
      rfl

/-- Everything that a computation may return has the property, whatever its calls return. -/
def Returns (p : α → Prop) : Calling γ ρ α → Prop
  | ret value => p value
  | call _ next => ∀ result, (next result).Returns p

/-- A function that is applied to the result of a computation settles what is returned. -/
theorem returns_bind_ret {p : β → Prop} {f : α → β} (all : ∀ value, p (f value))
    (m : Calling γ ρ α) : (m >>= fun value => ret (f value)).Returns p := by
  induction m with
  | ret value => exact all value
  | call c next ih => exact ih

end Calling

/-- Threads with data of their own on a shared state, each of them within a computation or not. -/
structure Interleaved (κ : Type*) (σ : Type*) (γ : Type u) (ρ : γ → Type v) (α : Type w) where
  shared : σ
  own : κ → α
  within : κ → Option (Calling γ ρ α)

namespace Interleaved

open Transition

variable {κ σ : Type*} {γ : Type u} {ρ : γ → Type v} {α : Type w} [DecidableEq κ]

/-- A thread has a computation before it, and is at the next call of it or at its end. -/
def proceed (s : Interleaved κ σ γ ρ α) (k : κ) (m : Calling γ ρ α) : Interleaved κ σ γ ρ α :=
  match m with
  | .ret value =>
      { s with own := Function.update s.own k value, within := Function.update s.within k none }
  | .call c next => { s with within := Function.update s.within k (some (.call c next)) }

/-- A thread begins a computation that it may begin with its data, or makes the next call of one.
A computation without calls is over at once. -/
inductive Step (handle : (c : γ) → σ → ρ c × σ) (begins : κ → α → Calling γ ρ α → Prop) :
    Interleaved κ σ γ ρ α → κ × Option (Sigma ρ) → Interleaved κ σ γ ρ α → Prop where
  | start {s : Interleaved κ σ γ ρ α} {k : κ} {m : Calling γ ρ α} (idle : s.within k = none)
      (may : begins k (s.own k) m) : Step handle begins s (k, none) (s.proceed k m)
  | call {s : Interleaved κ σ γ ρ α} {k : κ} {c : γ} {next : ρ c → Calling γ ρ α} {result : ρ c}
      {shared : σ} (here : s.within k = some (.call c next))
      (returns : handle c s.shared = (result, shared)) :
      Step handle begins s (k, some ⟨c, result⟩)
        (Interleaved.proceed { s with shared := shared } k (next result))

variable {handle : (c : γ) → σ → ρ c × σ} {begins : κ → α → Calling γ ρ α → Prop}
  {s : Interleaved κ σ γ ρ α} {k : κ}

/-- The participant that goes on changes what is its own only. The shared state is as it was. -/
@[simp] theorem proceed_shared (m : Calling γ ρ α) : (s.proceed k m).shared = s.shared := by
  cases m <;> rfl

/-- What the other participants own is as it was when one of them goes on. -/
theorem proceed_own_of_ne (m : Calling γ ρ α) {j : κ} (other : j ≠ k) :
    (s.proceed k m).own j = s.own j := by
  cases m with
  | ret value => exact Function.update_of_ne other ..
  | call c next => rfl

/-- The calls that the other participants are in are as they were when one of them goes on. -/
theorem proceed_within_of_ne (m : Calling γ ρ α) {j : κ} (other : j ≠ k) :
    (s.proceed k m).within j = s.within j := by
  cases m <;> exact Function.update_of_ne other ..

/-- A participant that returns owns the value, and is between two computations then. -/
theorem proceed_ret (value : α) : s.proceed k (.ret value) =
    { s with own := Function.update s.own k value, within := Function.update s.within k none } :=
  rfl

/-- A participant that comes to a call is within its computation from then on, before the call. -/
theorem proceed_call (c : γ) (next : ρ c → Calling γ ρ α) : s.proceed k (.call c next) =
    { s with within := Function.update s.within k (some (.call c next)) } := rfl

section Play

variable (handle : (c : γ) → σ → ρ c × σ) (begin : κ → α → Option (Calling γ ρ α))

/-- The next step of a thread: it begins a computation, makes one call, or has returned. -/
def advance (s : Interleaved κ σ γ ρ α) (k : κ) :
    Option ((κ × Option (Sigma ρ)) × Interleaved κ σ γ ρ α) :=
  match s.within k with
  | none => (begin k (s.own k)).map fun m => ((k, none), s.proceed k m)
  | some (.ret _) => none
  | some (.call c next) =>
      let (result, shared) := handle c s.shared
      some ((k, some ⟨c, result⟩), Interleaved.proceed { s with shared := shared } k (next result))

/-- The next steps of some threads as long as they meet the guard. -/
def play (guard : Interleaved κ σ γ ρ α → κ × Option (Sigma ρ) → Prop)
    [∀ s label, Decidable (guard s label)] : Interleaved κ σ γ ρ α → List κ →
      Option (List (κ × Option (Sigma ρ)) × Interleaved κ σ γ ρ α)
  | s, [] => some ([], s)
  | s, k :: rest =>
      (s.advance handle begin k).bind fun (label, next) =>
        if guard s label then
          (next.play guard rest).map fun (history, last) => (label :: history, last)
        else none

variable {handle begin}

/-- The executable step is one of the steps of the relation when the computations that it begins
are. -/
theorem step_of_advance (may : ∀ k own m, begin k own = some m → begins k own m)
    {label : κ × Option (Sigma ρ)} {t : Interleaved κ σ γ ρ α}
    (advanced : s.advance handle begin k = some (label, t)) : Step handle begins s label t := by
  unfold advance at advanced
  split at advanced
  case h_1 idle =>
    obtain ⟨m, first, same⟩ := Option.map_eq_some_iff.mp advanced
    obtain ⟨rfl, rfl⟩ := Prod.mk.inj same
    exact .start idle (may _ _ _ first)
  case h_2 => cases advanced
  case h_3 c next here =>
    obtain ⟨rfl, rfl⟩ := Prod.mk.inj (Option.some.inj advanced)
    exact .call here rfl

/-- Turns that can be taken one after the other, each allowed by the guard, are a run. -/
theorem run_play (may : ∀ k own m, begin k own = some m → begins k own m)
    {guard : Interleaved κ σ γ ρ α → κ × Option (Sigma ρ) → Prop}
    [∀ s label, Decidable (guard s label)] {turns : List κ}
    {history : List (κ × Option (Sigma ρ))} {t : Interleaved κ σ γ ρ α}
    (played : s.play handle begin guard turns = some (history, t)) :
    Run (Guarded (Step handle begins) guard) s history t := by
  induction turns generalizing s history with
  | nil =>
      obtain ⟨rfl, rfl⟩ := Prod.mk.inj (Option.some_inj.mp played)
      exact .nil s
  | cons k rest ih =>
      obtain ⟨⟨label, next⟩, first, others⟩ := Option.bind_eq_some_iff.mp played
      dsimp only at others
      split at others
      case isTrue admitted =>
        obtain ⟨⟨later, last⟩, followed, same⟩ := Option.map_eq_some_iff.mp others
        obtain ⟨rfl, rfl⟩ := Prod.mk.inj same
        exact .cons ⟨admitted, step_of_advance may first⟩ (ih followed)
      case isFalse => cases others

end Play

end Interleaved
