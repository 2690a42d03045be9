import Mathlib.Algebra.BigOperators.Ring.Finset
import Mathlib.Algebra.Order.BigOperators.Group.Finset
import PagedOs.Scheduler.History

/-! # What the scheduler guarantees over whole histories

Three results on every history that starts at `init_scheduler`: each level serves
its processes first in, first out (`levels_are_fifo`); the dispatches between two
refills follow the budgets (`budget_policy`); and a level that always has a
process waiting is bypassed only a bounded number of times (`bypass_bounded`).
-/

namespace PagedOs.Mlq

open Transition

variable {α : Type*}

/-! ## First in, first out -/

/-- The processes that a level dispatches in two stretches are those of both together. -/
theorem dispatched_append (level : Nat) (first second : List (Event α)) :
    dispatched level (first ++ second) = dispatched level first ++ dispatched level second :=
  List.filterMap_append

/-- The processes that a level accepts in two stretches are those of both together. -/
theorem accepted_append (prio : α → Nat) (level : Nat) (first second : List (Event α)) :
    accepted prio level (first ++ second) =
      accepted prio level first ++ accepted prio level second :=
  List.filterMap_append

/-- Every accepted process has been dispatched or is still waiting, in the order
of acceptance. -/
def Fifo (prio : α → Nat) (past : List (Event α)) (s : Mlq α) : Prop :=
  ∀ p < maxPrio, dispatched p past ++ s.contents p = accepted prio p past

/-- A call keeps the order. It appends to what was accepted, or moves the first of those waiting to
what was dispatched. -/
theorem Fifo.step {prio : α → Nat} {past : List (Event α)} {s t : Mlq α} {event : Event α}
    (fifo : Fifo prio past s) (levels : s.Levels prio) (taken : Calls prio s event t) :
    Fifo prio (past ++ [event]) t := by
  intro p inside
  have before := fifo p inside
  rw [dispatched_append, accepted_append, ← before]
  rcases taken.2.inv with
    ⟨proc, rfl, rfl⟩ | ⟨rfl, _, rfl⟩ | ⟨level, proc, rest, rfl, found, removes, rfl⟩
  · rw [setLevel_contents]
    by_cases same : p = prio proc
    · subst same
      by_cases room : (s.mlqReadyQueue (prio proc)).size < maxQueueSize
      · simp [dispatched, accepted, accepts, room, Queue.enqueue_of_lt room, contents]
      · simp [dispatched, accepted, accepts, room, Queue.enqueue_of_full room, contents]
    · simp [dispatched, accepted, same, Ne.symm same]
  · simp [dispatched, accepted]
  · rw [setLevel_contents, served_contents]
    by_cases same : p = level
    · subst same
      have head := levels.eq_cons inside removes
      simp [dispatched, accepted, head]
    · simp [dispatched, accepted, same, Ne.symm same]

/-- **Each level is a queue.** In every state reached from `init_scheduler`, a
level holds at most `MAX_QUEUE_SIZE` processes, all of its own priority, its slot
is between zero and its budget, and the processes dispatched from it followed by
those waiting are the processes `enqueue` accepted there, in that order. -/
theorem levels_are_fifo (prio : α → Nat) (s₀ : Mlq α) {history : List (Event α)} {s : Mlq α}
    (run : Run (Calls prio) s₀.initScheduler history s) {p : Nat} (inside : p < maxPrio) :
    (s.mlqReadyQueue p).size ≤ maxQueueSize ∧ (∀ proc ∈ s.contents p, prio proc = p) ∧
      (0 ≤ s.slot p ∧ s.slot p ≤ budget p) ∧
      dispatched p history ++ s.contents p = accepted prio p history := by
  have levels : s.Levels prio := .run run (initScheduler_levels prio s₀)
  have initial : Fifo prio [] s₀.initScheduler ∧ s₀.initScheduler.Levels prio :=
    ⟨fun p inside => by simp [dispatched, accepted, initScheduler_contents s₀ inside],
      initScheduler_levels prio s₀⟩
  have fifo := run.history_invariant (fun past s => Fifo prio past s ∧ s.Levels prio)
    (fun _ _ _ _ held taken => ⟨held.1.step held.2 taken, held.2.step taken⟩) initial
  exact ⟨levels.bounded p inside, levels.uniform p inside,
    ⟨levels.slot_nonneg p inside, levels.slot_le p inside⟩, fifo.1 p inside⟩

/-- A process that was added and one that was put come out of level 7 in this order. -/
theorem levels_are_fifo_three_calls :
    dispatched 7 (zeroed.initScheduler.calls (fun _ : Nat => 7) [.add 1, .put 2, .get]).1 ++
      (zeroed.initScheduler.calls (fun _ => 7) [.add 1, .put 2, .get]).2.contents 7 = [1, 2] :=
  (levels_are_fifo (fun _ => 7) zeroed (run_calls _ _ [.add 1, .put 2, .get] (by decide))
    (by decide)).2.2.2.trans (by decide)

/-! ## Budgets -/

/-- A dispatch counts for the level that it serves, and a refill starts the count again. -/
theorem sinceReset_snoc (level : Nat) (past : List (Event α)) (event : Event α) :
    sinceReset level (past ++ [event]) = (if event.resets then 0 else sinceReset level past) +
      if event.dispatches level then 1 else 0 := by
  simp only [sinceReset, List.foldl_append, List.foldl_cons, List.foldl_nil]

/-- The slot of a level is its budget less its dispatches since the last refill. -/
def Spent (past : List (Event α)) (s : Mlq α) : Prop :=
  ∀ p < maxPrio, s.slot p + sinceReset p past = budget p

/-- A call keeps the balance. A dispatch takes one from the slot, and a refill makes it the whole
budget. -/
theorem Spent.step {prio : α → Nat} {past : List (Event α)} {s t : Mlq α} {event : Event α}
    (spent : Spent past s) (taken : Step prio s event t) : Spent (past ++ [event]) t := by
  intro p inside
  have before := spent p inside
  rw [sinceReset_snoc]
  rcases taken.inv with
    ⟨proc, rfl, rfl⟩ | ⟨rfl, nothing, rfl⟩ | ⟨level, proc, rest, rfl, found, _, rfl⟩
  · rw [enqueued_slot]
    simpa [Event.resets, Event.dispatches] using before
  · have refilled : s.resets = true := resets_of_nextLevel_eq_none (nextLevel_eq_none.mpr nothing)
    simp [served_slot s inside, refilled, Event.resets, Event.dispatches]
  · rw [setLevel_slot]
    by_cases same : p = level
    · subst same
      cases refilled : s.resets with
      | false =>
          simp only [Event.resets, Event.dispatches, beq_self_eq_true, ↓reduceIte,
            served_slot s inside, refilled, Bool.false_eq_true]
          push_cast
          omega
      | true =>
          simp [Event.resets, Event.dispatches, served_slot s inside, refilled]
    · cases refilled : s.resets with
      | false =>
          simpa [Event.resets, Event.dispatches, served_slot s inside, refilled, same,
            Ne.symm same] using before
      | true =>
          simp [Event.resets, Event.dispatches, served_slot s inside, refilled, same, Ne.symm same]

/-- The balance of slots and dispatches holds in every state that calls lead to from
`init_scheduler`. -/
theorem Spent.run {prio : α → Nat} {s₀ : Mlq α} {history : List (Event α)} {s : Mlq α}
    (run : Run (Calls prio) s₀.initScheduler history s) : Spent history s :=
  run.history_invariant Spent (fun _ _ _ _ held taken => held.step taken.2) fun p inside => by
    simp [sinceReset, initScheduler_slot s₀ inside]

/-- Dispatches in a stretch of the history that only its first call may refill
are all dispatches since the last refill. -/
theorem countP_dispatches_le_sinceReset (level : Nat) (before : List (Event α))
    (during : List (Event α)) (quiet : ∀ event ∈ during.tail, event.resets = false) :
    during.countP (Event.dispatches level) ≤ sinceReset level (before ++ during) := by
  induction during using List.reverseRecOn with
  | nil => exact Nat.zero_le _
  | append_singleton earlier last ih =>
      rw [← List.append_assoc, sinceReset_snoc, List.countP_append, List.countP_singleton]
      cases earlier with
      | nil =>
          simp only [List.countP_nil, Nat.zero_add]
          exact Nat.le_add_left _ _
      | cons first rest =>
          have kept : last.resets = false := quiet last (by simp)
          have shorter := ih fun event member => quiet event (by simp_all)
          simp only [kept, Bool.false_eq_true, ↓reduceIte]
          omega

/-- **The budget policy.** Between two refills a level is served at most its
budget of times. A call that does not refill serves a level only if every level
before it is empty or has had its whole budget since the last refill; a call
refills only when every nonempty level has; and it returns `NULL` exactly when
every level is empty. -/
theorem budget_policy (prio : α → Nat) (s₀ : Mlq α) {history : List (Event α)} {s : Mlq α}
    (run : Run (Calls prio) s₀.initScheduler history s) :
    (∀ p < maxPrio, ∀ before during, history = before ++ during →
      (∀ event ∈ during.tail, event.resets = false) →
        during.countP (Event.dispatches p) ≤ maxPrio - p) ∧
    (∀ q proc t, Step prio s (.got false (some q) proc) t →
      ∀ p < q, s.contents p = [] ∨ sinceReset p history = maxPrio - p) ∧
    (∀ level proc t, Step prio s (.got true level proc) t →
      ∀ p < maxPrio, s.contents p ≠ [] → sinceReset p history = maxPrio - p) ∧
    (∀ reset level proc t, Step prio s (.got reset level proc) t →
      (proc = none ↔ ∀ p < maxPrio, s.contents p = [])) := by
  have levels : s.Levels prio := .run run (initScheduler_levels prio s₀)
  have spent : Spent history s := .run run
  have exhausted : ∀ p < maxPrio, s.ready p = false →
      s.contents p = [] ∨ sinceReset p history = maxPrio - p := by
    intro p inside unready
    by_cases nonempty : s.contents p = []
    · exact .inl nonempty
    · right
      have noSlot : ¬ 0 < s.slot p := fun positive =>
        Bool.false_ne_true (unready.symm.trans (ready_iff.mpr ⟨positive, nonempty⟩))
      have balance := spent p inside
      have floor := levels.slot_nonneg p inside
      unfold budget at balance
      omega
  refine ⟨?_, ?_, ?_, ?_⟩
  · intro p inside before during split quiet
    have few := countP_dispatches_le_sinceReset p before during quiet
    rw [← split] at few
    have balance := spent p inside
    have floor := levels.slot_nonneg p inside
    unfold budget at balance
    omega
  · intro q proc t taken p before
    rcases taken.inv with ⟨_, same, _⟩ | ⟨same, _, _⟩ | ⟨level, _, _, same, found, _, _⟩
    · cases same
    · cases same
    · obtain ⟨kept, rfl, _⟩ : false = s.resets ∧ q = level ∧ _ := by
        simpa only [Event.got.injEq, Option.some.injEq] using same
      have once : s.served = s := by simp [served, ← kept]
      rw [once] at found
      obtain ⟨inside, _, unready⟩ := readyLevel_eq_some.mp found
      exact exhausted p (by omega) (unready p before)
  · intro level proc t taken p inside nonempty
    have refilled : s.readyLevel = none := by
      rcases taken.inv with ⟨_, same, _⟩ | ⟨_, nothing, _⟩ | ⟨_, _, _, same, _, _, _⟩
      · cases same
      · exact absurd (nothing p inside) nonempty
      · have resets : true = s.resets := (Event.got.injEq .. ▸ same).1
        exact Option.isNone_iff_eq_none.mp resets.symm
    exact (exhausted p inside (readyLevel_eq_none.mp refilled p inside)).resolve_left nonempty
  · intro reset level proc t taken
    rcases taken.inv with ⟨_, same, _⟩ | ⟨same, nothing, _⟩ | ⟨_, _, _, same, found, _, _⟩
    · cases same
    · cases same
      exact ⟨fun _ => nothing, fun _ => rfl⟩
    · cases same
      refine ⟨fun impossible => (by cases impossible), fun nothing => ?_⟩
      have served_none : s.nextLevel = none := nextLevel_eq_none.mpr nothing
      rw [nextLevel, found] at served_none
      cases served_none

/-- Two processes, at the last two levels, whose budgets are two dispatches and one. -/
def spending : List (Call Nat) :=
  [.add 138, .add 139, .get, .put 138, .get, .put 138, .get, .put 139]

/-- Both budgets are used up, each by its own level, and the next call refills them. -/
theorem budget_policy_refill :
    let spent := zeroed.initScheduler.calls id spending
    spent.1.countP (Event.dispatches 138) = 2 ∧ spent.1.countP (Event.dispatches 138) ≤ 2 ∧
      sinceReset 138 spent.1 = 2 ∧ sinceReset 139 spent.1 = 1 ∧
      (spent.2.call id .get).1 = .got true (some 138) (some 138) := by
  have run := run_calls id zeroed.initScheduler spending (by decide)
  have refills : (((zeroed.initScheduler.calls id spending).2).call id .get).1 =
      .got true (some 138) (some 138) := rfl
  obtain ⟨within, -, refill, -⟩ := budget_policy id zeroed run
  have used := refill (some 138) (some 138) _ ⟨.get, Prod.ext refills rfl⟩
  exact ⟨by decide, within 138 (by decide) [] _ rfl (by decide),
    used 138 (by decide) (by decide), used 139 (by decide) (by decide), refills⟩

/-! ## Bypassing -/

/-- How many calls can still bypass a nonempty level: while it has a slot left,
the slots before it; otherwise every other slot, and after the refill the budgets
before it. -/
def patience (q : Nat) (s : Mlq α) : Int :=
  if 0 < s.slot q then ∑ p ∈ Finset.range q, s.slot p
  else ∑ p ∈ (Finset.range maxPrio).erase q, s.slot p + ∑ p ∈ Finset.range q, budget p

/-- Where one term of a sum is charged and the others are kept, the sum is charged once. -/
private theorem sum_charged (levels : Finset Nat) (before after : Nat → Int) {level : Nat}
    (member : level ∈ levels) (charged : after level = before level - 1)
    (kept : ∀ p ∈ levels, p ≠ level → after p = before p) :
    1 + ∑ p ∈ levels, after p = ∑ p ∈ levels, before p := by
  rw [← Finset.add_sum_erase levels after member, ← Finset.add_sum_erase levels before member,
    charged, Finset.sum_congr rfl fun p inside =>
      kept p (Finset.mem_of_mem_erase inside) (Finset.ne_of_mem_erase inside),
    ← Int.add_assoc, show 1 + (before level - 1) = before level by omega]

/-- A call that serves another level costs the nonempty level `q` some patience. -/
theorem patience_step {prio : α → Nat} {s t : Mlq α} {event : Event α} (levels : s.Levels prio)
    {q : Nat} (inside : q < maxPrio) (waiting : s.contents q ≠ []) (taken : Calls prio s event t)
    (bypassed : event.dispatches q = false) :
    (if event.isGet then 1 else 0) + patience q t ≤ patience q s := by
  rcases taken.2.inv with
    ⟨proc, rfl, rfl⟩ | ⟨rfl, nothing, _⟩ | ⟨level, proc, rest, rfl, found, _, rfl⟩
  · have slots : (s.setLevel (prio proc) ((s.mlqReadyQueue (prio proc)).enqueue proc)).slot =
        s.slot := funext (enqueued_slot s (prio proc) proc)
    simp only [Event.isGet, Bool.false_eq_true, ↓reduceIte, patience, slots, Int.zero_add]
    exact le_rfl
  · exact absurd (nothing q inside) waiting
  · have other : level ≠ q := by simpa [Event.dispatches] using bypassed
    obtain ⟨levelInside, _, unready⟩ := readyLevel_eq_some.mp found
    -- while `q` has a slot it is ready, so the loop stops before it
    have earlier : 0 < s.served.slot q → level < q := by
      intro positive
      by_contra later
      have ready : s.served.ready q = true :=
        ready_iff.mpr ⟨positive, by rwa [served_contents]⟩
      rw [unready q (by omega)] at ready
      exact Bool.false_ne_true ready
    have charged : ∀ p, (s.served.setLevel level ⟨rest, s.served.slot level - 1⟩).slot p =
        if p = level then s.served.slot level - 1 else s.served.slot p := by
      intro p
      rw [setLevel_slot]
    simp only [Event.isGet, ↓reduceIte, patience, charged, Ne.symm other]
    cases refilled : s.resets with
    | false =>
        have once : s.served = s := by simp [served, refilled]
        rw [once] at earlier ⊢
        by_cases positive : 0 < s.slot q
        · simp only [positive, ↓reduceIte]
          exact (sum_charged _ _ _ (Finset.mem_range.mpr (earlier positive)) (by simp)
            fun p _ different => by simp [different]).le
        · simp only [positive, ↓reduceIte]
          have sum := sum_charged ((Finset.range maxPrio).erase q) s.slot
            (fun p => if p = level then s.slot level - 1 else s.slot p)
            (Finset.mem_erase.mpr ⟨other, Finset.mem_range.mpr levelInside⟩) (by simp)
            fun p _ different => by simp [different]
          omega
    | true =>
        have spent : ¬ 0 < s.slot q := by
          intro positive
          have ready : s.ready q = true := ready_iff.mpr ⟨positive, waiting⟩
          rw [readyLevel_eq_none.mp (Option.isNone_iff_eq_none.mp refilled) q inside] at ready
          exact Bool.false_ne_true ready
        have refill : ∀ p < maxPrio, s.served.slot p = budget p := fun p bound => by
          simp [served_slot s bound, refilled]
        have positive : 0 < s.served.slot q := by
          rw [refill q inside]
          exact budget_pos inside
        have before := earlier positive
        simp only [positive, spent, ↓reduceIte]
        have sum := sum_charged (Finset.range q) budget
          (fun p => if p = level then s.served.slot level - 1 else s.served.slot p)
          (Finset.mem_range.mpr before) (by simp [refill level levelInside])
          fun p member different => by
            simp [different, refill p (by have := Finset.mem_range.mp member; omega)]
        have floor : 0 ≤ ∑ p ∈ (Finset.range maxPrio).erase q, s.slot p :=
          Finset.sum_nonneg fun p member =>
            levels.slot_nonneg p (Finset.mem_range.mp (Finset.mem_of_mem_erase member))
        omega

/-- The budgets of levels below `MAX_PRIO` are positive, so that their sum is one of natural
numbers. -/
private theorem sum_budget {levels : Finset Nat} (inside : ∀ p ∈ levels, p < maxPrio) :
    ∑ p ∈ levels, budget p = ((∑ p ∈ levels, (maxPrio - p) : Nat) : Int) := by
  rw [Nat.cast_sum]
  apply Finset.sum_congr rfl
  intro p member
  have bound := inside p member
  unfold budget
  omega

/-- The patience of a level is never negative, as no slot is. -/
theorem patience_nonneg {prio : α → Nat} {s : Mlq α} (levels : s.Levels prio) {q : Nat}
    (inside : q < maxPrio) : 0 ≤ patience q s := by
  have slots : 0 ≤ ∑ p ∈ Finset.range q, s.slot p := Finset.sum_nonneg fun p member =>
    levels.slot_nonneg p (by have := Finset.mem_range.mp member; omega)
  have others : 0 ≤ ∑ p ∈ (Finset.range maxPrio).erase q, s.slot p :=
    Finset.sum_nonneg fun p member =>
      levels.slot_nonneg p (Finset.mem_range.mp (Finset.mem_of_mem_erase member))
  have budgets : 0 ≤ ∑ p ∈ Finset.range q, budget p := Finset.sum_nonneg fun p member =>
    (budget_pos (by have := Finset.mem_range.mp member; omega)).le
  unfold patience
  split <;> omega

/-- The patience of a level is at most what the bound says: no slot exceeds its budget. -/
theorem patience_le {prio : α → Nat} {s : Mlq α} (levels : s.Levels prio) {q : Nat}
    (inside : q < maxPrio) :
    patience q s ≤ ((∑ p ∈ (Finset.range maxPrio).erase q, (maxPrio - p) +
      ∑ p ∈ Finset.range q, (maxPrio - p) : Nat) : Int) := by
  have below : ∀ p ∈ Finset.range q, p < maxPrio := fun p member => by
    have := Finset.mem_range.mp member
    omega
  have around : ∀ p ∈ (Finset.range maxPrio).erase q, p < maxPrio := fun p member =>
    Finset.mem_range.mp (Finset.mem_of_mem_erase member)
  have slots : ∑ p ∈ Finset.range q, s.slot p ≤ ∑ p ∈ Finset.range q, budget p :=
    Finset.sum_le_sum fun p member => levels.slot_le p (below p member)
  have others : ∑ p ∈ (Finset.range maxPrio).erase q, s.slot p ≤
      ∑ p ∈ (Finset.range maxPrio).erase q, budget p :=
    Finset.sum_le_sum fun p member => levels.slot_le p (around p member)
  rw [Nat.cast_add, ← sum_budget below, ← sum_budget around]
  have budgets : 0 ≤ ∑ p ∈ (Finset.range maxPrio).erase q, budget p :=
    Finset.sum_nonneg fun p member => (budget_pos (around p member)).le
  unfold patience
  split <;> omega

/-- **Bounded bypassing.** From any reachable state, while level `q` is never
empty, the calls of `get_proc` that pass it by number at most the budgets of the
other levels plus the budgets of the levels before it. -/
theorem bypass_bounded (prio : α → Nat) (s₀ : Mlq α) {past : List (Event α)} {s : Mlq α}
    (reached : Run (Calls prio) s₀.initScheduler past s) {q : Nat} (inside : q < maxPrio)
    {future : List (Event α)} {t : Mlq α}
    (run : Run (Guarded (Calls prio) fun state _ => state.contents q ≠ []) s future t)
    (bypassed : ∀ event ∈ future, event.dispatches q = false) :
    future.countP Event.isGet ≤ ∑ p ∈ (Finset.range maxPrio).erase q, (maxPrio - p) +
      ∑ p ∈ Finset.range q, (maxPrio - p) := by
  have levels : s.Levels prio := .run reached (initScheduler_levels prio s₀)
  have counted := run.countP_add_le (Levels prio) Event.isGet (patience q)
    (fun _ _ _ held passes taken =>
      ⟨held.step taken.2, patience_step held inside taken.1 taken.2 passes⟩) levels bypassed
  have floor := patience_nonneg (levels.run run.unguarded) inside
  have ceiling := patience_le levels inside
  omega

/-- A process at level 0, and one at level 5 that waits behind it. -/
def waiting : Mlq Nat := (zeroed.initScheduler.calls id [.add 0, .add 5]).2

/-- The first process is taken three times and put back in between. -/
def bypassing : List (Event Nat) × Mlq Nat :=
  waiting.calls id [.get, .put 0, .get, .put 0, .get]

/-- Three dispatches pass level 5, and the first level would have budget for many more. -/
theorem bypass_bounded_three_times :
    bypassing.1.countP Event.isGet = 3 ∧ bypassing.1.countP Event.isGet ≤
      ∑ p ∈ (Finset.range maxPrio).erase 5, (maxPrio - p) +
        ∑ p ∈ Finset.range 5, (maxPrio - p) := by
  have reached : Run (Calls id) zeroed.initScheduler _ waiting :=
    run_calls id zeroed.initScheduler [.add 0, .add 5] (by decide)
  have run : Run (Guarded (Calls id) fun state _ => state.contents 5 ≠ []) waiting bypassing.1
      bypassing.2 :=
    .cons ⟨by decide, by decide, .get, rfl⟩ (.cons ⟨by decide, by decide, .put 0, rfl⟩
      (.cons ⟨by decide, by decide, .get, rfl⟩ (.cons ⟨by decide, by decide, .put 0, rfl⟩
        (.single ⟨by decide, by decide, .get, rfl⟩))))
  exact ⟨by decide, bypass_bounded id zeroed reached (by decide) run (by decide)⟩

end PagedOs.Mlq
