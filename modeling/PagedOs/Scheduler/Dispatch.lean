import Mathlib.Data.List.Nodup
import Mathlib.Data.List.Pairwise
import PagedOs.Library.Ledger
import PagedOs.Scheduler.History

/-! # Processes between the queues and the CPUs

The loader adds processes to the ready queues, and any number of CPUs take them out,
put them back or complete them. Where the processes are is a ledger: a CPU owns the
process it holds, and the queued ones and those not yet added are free.
-/

namespace PagedOs

open Transition
open scoped List

variable {α κ : Type*}

/-! ## The queued processes -/

namespace Mlq

/-- The processes in the ready queues, level by level. -/
def queued (s : Mlq α) : List α := (List.range maxPrio).flatMap s.contents

/-- A process is queued when it waits at one of the levels below `MAX_PRIO`. -/
theorem mem_queued {s : Mlq α} {proc : α} :
    proc ∈ s.queued ↔ ∃ level < maxPrio, proc ∈ s.contents level := by
  simp only [queued, List.mem_flatMap, List.mem_range]

/-- Exchanging one of the lists that are joined. -/
private theorem flatMap_update_perm (family : Nat → List α) {keys : List Nat}
    (nodup : keys.Nodup) {key : Nat} (member : key ∈ keys) (cells : List α) :
    (family key ++ keys.flatMap (Function.update family key cells)).Perm
      (cells ++ keys.flatMap family) := by
  induction keys with
  | nil => cases member
  | cons first keys ih =>
      obtain ⟨notLater, rest⟩ := List.nodup_cons.mp nodup
      rw [List.flatMap_cons, List.flatMap_cons]
      by_cases same : first = key
      · subst same
        have untouched : keys.flatMap (Function.update family first cells) = keys.flatMap family :=
          List.flatMap_congr fun other inside =>
            Function.update_of_ne (fun hit : other = first => notLater (hit ▸ inside)) ..
        rw [untouched, Function.update_self]
        exact List.perm_append_comm_assoc ..
      · have later : key ∈ keys := (List.mem_cons.mp member).resolve_left (Ne.symm same)
        rw [Function.update_of_ne same]
        calc family key ++ (family first ++ keys.flatMap (Function.update family key cells))
            ~ family first ++ (family key ++ keys.flatMap (Function.update family key cells)) :=
              List.perm_append_comm_assoc ..
          _ ~ family first ++ (cells ++ keys.flatMap family) := (ih rest later).append_left _
          _ ~ cells ++ (family first ++ keys.flatMap family) := List.perm_append_comm_assoc ..

theorem queued_setLevel (s : Mlq α) {level : Nat} (inside : level < maxPrio) (q : Queue α) :
    s.contents level ++ (s.setLevel level q).queued ~ q.proc ++ s.queued := by
  have exchanged : (s.setLevel level q).contents = Function.update s.contents level q.proc := by
    funext other
    rw [setLevel_contents, Function.update_apply]
  rw [queued, exchanged]
  exact flatMap_update_perm s.contents List.nodup_range (List.mem_range.mpr inside) q.proc

/-- A queue outside the array holds no queued process. -/
theorem queued_setLevel_outside (s : Mlq α) {level : Nat} (outside : ¬ level < maxPrio)
    (q : Queue α) : (s.setLevel level q).queued = s.queued := by
  apply List.flatMap_congr
  intro other member
  have inside := List.mem_range.mp member
  rw [setLevel_contents, if_neg (by omega)]

/-- A refill of the slots moves no process. -/
theorem queued_served (s : Mlq α) : s.served.queued = s.queued :=
  List.flatMap_congr fun level _ => served_contents s level

/-- The array has the level of the process, and its queue has room. -/
def HasRoom (prio : α → Nat) (s : Mlq α) (proc : α) : Prop :=
  prio proc < maxPrio ∧ s.accepts (prio proc) = true

/-- The size of the queue decides whether there is room. -/
instance (prio : α → Nat) (s : Mlq α) (proc : α) : Decidable (s.HasRoom prio proc) :=
  inferInstanceAs (Decidable (_ ∧ _))

/-- A process offered to the queues is stored if there is room for it, and dropped
if not. -/
theorem queued_enqueue (prio : α → Nat) (s : Mlq α) (proc : α) :
    (s.HasRoom prio proc ∧ (s.addProc prio proc).queued ~ proc :: s.queued) ∨
      (¬ s.HasRoom prio proc ∧ (s.addProc prio proc).queued = s.queued) := by
  by_cases inside : prio proc < maxPrio
  · have exchanged := s.queued_setLevel inside ((s.mlqReadyQueue (prio proc)).enqueue proc)
    by_cases room : (s.mlqReadyQueue (prio proc)).size < maxQueueSize
    · refine .inl ⟨⟨inside, decide_eq_true room⟩, ?_⟩
      rw [Queue.enqueue_of_lt room, List.append_assoc] at exchanged
      exact (List.perm_append_left_iff _).mp exchanged
    · refine .inr ⟨fun wrong => room (of_decide_eq_true wrong.2), ?_⟩
      have same : s.addProc prio proc = s := by
        rw [addProc, addMlqProc, Queue.enqueue_of_full room, setLevel, Function.update_eq_self]
      rw [same]
  · exact .inr ⟨fun wrong => inside wrong.1, s.queued_setLevel_outside inside _⟩

/-- `get_proc` takes a process off the queues if there is one. -/
theorem queued_getProc (prio : α → Nat) (s : Mlq α) :
    ((s.getProc prio).1 = none ∧ (s.getProc prio).2.queued = s.queued) ∨
      ∃ proc, (s.getProc prio).1 = some proc ∧ s.queued ~ proc :: (s.getProc prio).2.queued := by
  rcases getMlqProc_spec prio s with ⟨-, result⟩ | ⟨level, proc, rest, found, removes, result⟩
  · refine .inl ?_
    rw [getProc, result]
    exact ⟨rfl, queued_served s⟩
  · refine .inr ⟨proc, ?_⟩
    rw [getProc, result]
    have inside := (readyLevel_eq_some.mp found).1
    have exchanged := s.served.queued_setLevel inside ⟨rest, s.served.slot level - 1⟩
    rw [served_contents, queued_served] at exchanged
    refine ⟨rfl, (List.perm_append_left_iff rest).mp ?_⟩
    calc rest ++ s.queued
        ~ s.contents level ++ (s.served.setLevel level ⟨rest, s.served.slot level - 1⟩).queued :=
          exchanged.symm
      _ ~ (proc :: rest) ++ (s.served.setLevel level ⟨rest, s.served.slot level - 1⟩).queued :=
          removes.perm.append_right _
      _ ~ rest ++ (proc :: (s.served.setLevel level ⟨rest, s.served.slot level - 1⟩).queued) :=
          List.perm_middle.symm

end Mlq

/-! ## The machine -/

/-- The ready queues, the processes the loader has not added yet, and the process each
CPU holds. -/
structure Dispatch (α κ : Type*) where
  sched : Mlq α
  pending : List α
  held : κ → Option α

/-- The loader adds a process; a CPU calls `get_proc`, puts its process back or completes
it. -/
inductive DispatchEvent (α κ : Type*) where
  | add (proc : α)
  | get (cpu : κ)
  | put (cpu : κ) (proc : α)
  | complete (cpu : κ) (proc : α)

/-- Where a process can be: in a cell of a level, or with a CPU. -/
inductive Place (κ : Type*) where
  | queued (level index : Nat)
  | held (cpu : κ)

namespace Dispatch

/-- The scheduler initialised, the loader about to add the given processes and no CPU
holding one. -/
def start (pending : List α) : Dispatch α κ :=
  ⟨Mlq.zeroed.initScheduler, pending, fun _ => none⟩

/-- The process at a place, if there is one. -/
def occupant (s : Dispatch α κ) : Place κ → Option α
  | .queued level index => if level < maxPrio then (s.sched.contents level)[index]? else none
  | .held cpu => s.held cpu

/-- The processes that no CPU holds, the queued ones in front of those to come. -/
def waiting (s : Dispatch α κ) : List α := s.sched.queued ++ s.pending

theorem start_queued (pending : List α) : (start pending : Dispatch α κ).sched.queued = [] := by
  apply List.flatMap_eq_nil_iff.mpr
  intro level member
  exact Mlq.initScheduler_contents _ (List.mem_range.mp member)

/-- Nothing is held and the processes to be added are distinct. -/
theorem start_ledger {valid : α → Prop} {pending : List α} (distinct : pending.Nodup)
    (inside : ∀ proc ∈ pending, valid proc) :
    Ledger valid (start pending : Dispatch α κ).held (start pending : Dispatch α κ).waiting := by
  rw [waiting, start_queued, List.nil_append]
  exact .empty distinct inside fun _ => rfl

section Places

variable {s : Dispatch α κ} {proc : α}

/-- A process that is queued or held has a place. -/
theorem exists_place (somewhere : proc ∈ s.sched.queued ∨ ∃ cpu, s.held cpu = some proc) :
    ∃ place, s.occupant place = some proc := by
  rcases somewhere with queued | ⟨cpu, held⟩
  · obtain ⟨level, inside, member⟩ := Mlq.mem_queued.mp queued
    obtain ⟨index, found⟩ := List.mem_iff_getElem?.mp member
    exact ⟨.queued level index, by rw [occupant, if_pos inside, found]⟩
  · exact ⟨.held cpu, held⟩

/-- The place in a queue that a process occupies is a cell of that level. -/
theorem occupant_queued {level index : Nat}
    (found : s.occupant (.queued level index) = some proc) :
    level < maxPrio ∧ (s.sched.contents level)[index]? = some proc := by
  by_cases inside : level < maxPrio
  · exact ⟨inside, by rwa [occupant, if_pos inside] at found⟩
  · rw [occupant, if_neg inside] at found
    cases found

variable {valid : α → Prop}

/-- A process in a cell of a queue is one of those that wait. -/
theorem mem_waiting {level index : Nat} (found : s.occupant (.queued level index) = some proc) :
    proc ∈ s.waiting := by
  obtain ⟨inside, cell⟩ := occupant_queued found
  exact List.mem_append_left _ (Mlq.mem_queued.mpr ⟨level, inside, List.mem_of_getElem? cell⟩)

/-- What is valid of every process the loader adds is valid of those at a place. -/
theorem valid_of_place (ledger : Ledger valid s.held s.waiting) {place : Place κ}
    (here : s.occupant place = some proc) : valid proc := by
  cases place with
  | held cpu => exact ledger.ownedValid here
  | queued level index => exact ledger.freeValid (mem_waiting here)

/-- **A process has one place at most.** -/
theorem place_unique (ledger : Ledger valid s.held s.waiting) {place other : Place κ}
    (here : s.occupant place = some proc) (there : s.occupant other = some proc) :
    place = other := by
  have nodup := List.nodup_flatMap.mp (List.nodup_append.mp ledger.nodup).1
  cases place with
  | held cpu =>
      cases other with
      | held second => rw [ledger.exclusive here there]
      | queued level index => exact absurd (mem_waiting there) (ledger.taken here)
  | queued level index =>
      cases other with
      | held cpu => exact absurd (mem_waiting here) (ledger.taken there)
      | queued second position =>
          obtain ⟨inside, cell⟩ := occupant_queued here
          obtain ⟨alsoInside, alsoCell⟩ := occupant_queued there
          have sameLevel : level = second := by
            by_contra different
            have symmetric : Std.Symm (Function.onFun List.Disjoint s.sched.contents) :=
              ⟨fun _ _ apart _ first second => apart second first⟩
            have apart := nodup.2.forall (List.mem_range.mpr inside)
              (List.mem_range.mpr alsoInside) different
            exact apart (List.mem_of_getElem? cell) (List.mem_of_getElem? alsoCell)
          subst sameLevel
          obtain ⟨below, at_index⟩ := List.getElem?_eq_some_iff.mp cell
          rw [← at_index, List.getElem?_eq_some_iff] at alsoCell
          obtain ⟨_, same⟩ := alsoCell
          rw [(nodup.1 level (List.mem_range.mpr inside)).getElem_inj_iff.mp same]

end Places

variable [DecidableEq α] [DecidableEq κ]

/-- The state after an event, if it can happen. -/
def next (prio : α → Nat) (s : Dispatch α κ) : DispatchEvent α κ → Option (Dispatch α κ)
  | .add proc =>
      match s.pending with
      | [] => none
      | first :: rest =>
          if first = proc then some { s with sched := s.sched.addProc prio proc, pending := rest }
          else none
  | .get cpu =>
      if s.held cpu = none then
        let (proc, sched) := s.sched.getProc prio
        some { s with sched := sched, held := Function.update s.held cpu proc }
      else none
  | .put cpu proc =>
      if s.held cpu = some proc then
        some { s with sched := s.sched.putProc prio proc, held := Function.update s.held cpu none }
      else none
  | .complete cpu proc =>
      if s.held cpu = some proc then some { s with held := Function.update s.held cpu none }
      else none

/-- The steps of the machine, as a relation. -/
def Step (prio : α → Nat) (s : Dispatch α κ) (event : DispatchEvent α κ) (t : Dispatch α κ) :
    Prop :=
  s.next prio event = some t

/-- The queue that a process is added or put back to has room for it. -/
def Roomy (prio : α → Nat) (s : Dispatch α κ) : DispatchEvent α κ → Prop
  | .add proc => s.sched.HasRoom prio proc
  | .put _ proc => s.sched.HasRoom prio proc
  | .get _ => True
  | .complete _ _ => True

/-- Only the processes of the two calls that enqueue need room, so that the condition can be
evaluated. -/
instance (prio : α → Nat) (s : Dispatch α κ) (event : DispatchEvent α κ) :
    Decidable (s.Roomy prio event) :=
  match event with
  | .add _ => inferInstanceAs (Decidable (Mlq.HasRoom _ _ _))
  | .put _ _ => inferInstanceAs (Decidable (Mlq.HasRoom _ _ _))
  | .get _ => .isTrue trivial
  | .complete _ _ => .isTrue trivial

variable {prio : α → Nat} {s t : Dispatch α κ} {event : DispatchEvent α κ}

/-- **Everything a step can do.** -/
theorem Step.cases (taken : Step prio s event t) :
    (∃ proc rest, event = .add proc ∧ s.pending = proc :: rest ∧
      t = ⟨s.sched.addProc prio proc, rest, s.held⟩) ∨
    (∃ cpu, event = .get cpu ∧ s.held cpu = none ∧
      t = ⟨(s.sched.getProc prio).2, s.pending,
        Function.update s.held cpu (s.sched.getProc prio).1⟩) ∨
    (∃ cpu proc, event = .put cpu proc ∧ s.held cpu = some proc ∧
      t = ⟨s.sched.putProc prio proc, s.pending, Function.update s.held cpu none⟩) ∨
    ∃ cpu proc, event = .complete cpu proc ∧ s.held cpu = some proc ∧
      t = ⟨s.sched, s.pending, Function.update s.held cpu none⟩ := by
  unfold Step at taken
  cases event with
  | add proc =>
      refine .inl ?_
      simp only [next] at taken
      cases waiting : s.pending with
      | nil => simp [waiting] at taken
      | cons first rest =>
          simp only [waiting, Option.ite_none_right_eq_some, Option.some.injEq] at taken
          obtain ⟨rfl, rfl⟩ := taken
          exact ⟨first, rest, rfl, rfl, rfl⟩
  | get cpu =>
      refine .inr (.inl ?_)
      simp only [next, Option.ite_none_right_eq_some, Option.some.injEq] at taken
      exact ⟨cpu, rfl, taken.1, taken.2.symm⟩
  | put cpu proc =>
      refine .inr (.inr (.inl ?_))
      simp only [next, Option.ite_none_right_eq_some, Option.some.injEq] at taken
      exact ⟨cpu, proc, rfl, taken.1, taken.2.symm⟩
  | complete cpu proc =>
      refine .inr (.inr (.inr ?_))
      simp only [next, Option.ite_none_right_eq_some, Option.some.injEq] at taken
      exact ⟨cpu, proc, rfl, taken.1, taken.2.symm⟩

/-- **Every step keeps the ledger**: a CPU is granted the process it gets, and what it
puts back or completes it gives up. -/
theorem Step.ledger {valid : α → Prop} (taken : Step prio s event t)
    (ledger : Ledger valid s.held s.waiting) : Ledger valid t.held t.waiting := by
  unfold waiting at ledger ⊢
  rcases taken.cases with ⟨proc, rest, -, pending, rfl⟩ | ⟨cpu, -, idle, rfl⟩ |
    ⟨cpu, proc, -, held, rfl⟩ | ⟨cpu, proc, -, held, rfl⟩
  · rw [pending] at ledger
    rcases s.sched.queued_enqueue prio proc with ⟨-, stored⟩ | ⟨-, dropped⟩
    · exact ledger.perm (List.perm_middle.trans (stored.append_right rest).symm)
    · rw [dropped]
      exact ledger.drop ((List.sublist_cons_self proc rest).append_left _)
  · rcases s.sched.queued_getProc prio with ⟨nothing, same⟩ | ⟨proc, found, taken⟩
    · rw [nothing, same]
      exact ledger.revoke cpu
    · rw [found]
      exact (ledger.perm (taken.append_right s.pending)).grant cpu
  · rcases s.sched.queued_enqueue prio proc with ⟨-, stored⟩ | ⟨-, dropped⟩
    · exact (ledger.release held).perm (stored.append_right s.pending).symm
    · have same : (s.sched.putProc prio proc).queued = s.sched.queued := dropped
      rw [same]
      exact ledger.revoke cpu
  · exact ledger.revoke cpu

/-- The processes that were added and not completed are queued or held. -/
def Accounted (history : List (DispatchEvent α κ)) (s : Dispatch α κ) : Prop :=
  ∀ proc, .add proc ∈ history → (∀ cpu, .complete cpu proc ∉ history) →
    proc ∈ s.sched.queued ∨ ∃ cpu, s.held cpu = some proc

omit [DecidableEq α] in
/-- The CPUs that do not act hold what they held. -/
theorem held_elsewhere {held : κ → Option α} {cpu : κ} {proc : α} (now : Option α)
    (notHere : held cpu ≠ some proc) (holder : ∃ other, held other = some proc) :
    ∃ other, Function.update held cpu now other = some proc := by
  obtain ⟨other, holds⟩ := holder
  have distinct : other ≠ cpu := fun same => notHere (same ▸ holds)
  exact ⟨other, by rw [Function.update_of_ne distinct, holds]⟩

/-- With room in the queues no step loses a process. -/
theorem Accounted.step {history : List (DispatchEvent α κ)} (accounted : Accounted history s)
    (taken : Guarded (Step prio) (Roomy prio) s event t) :
    Accounted (history ++ [event]) t := by
  intro proc added notCompleted
  have before : .add proc ∈ history → proc ∈ s.sched.queued ∨ ∃ cpu, s.held cpu = some proc :=
    fun earlier => accounted proc earlier fun cpu member =>
      notCompleted cpu (List.mem_append_left _ member)
  have notLast : .add proc ∉ [event] → proc ∈ s.sched.queued ∨ ∃ cpu, s.held cpu = some proc :=
    fun other => before ((List.mem_append.mp added).resolve_right other)
  obtain ⟨roomy, taken⟩ := taken
  rcases taken.cases with ⟨offered, rest, rfl, -, rfl⟩ | ⟨cpu, rfl, idle, rfl⟩ |
    ⟨cpu, offered, rfl, held, rfl⟩ | ⟨cpu, done, rfl, held, rfl⟩
  · obtain ⟨-, stored⟩ := (s.sched.queued_enqueue prio offered).resolve_right fun full =>
      full.1 roomy
    by_cases same : offered = proc
    · exact .inl (stored.mem_iff.mpr (same ▸ List.mem_cons_self))
    · rcases notLast (by simpa using Ne.symm same) with queued | holder
      · exact .inl (stored.mem_iff.mpr (List.mem_cons_of_mem _ queued))
      · exact .inr holder
  · rcases notLast (by simp) with queued | holder
    · rcases s.sched.queued_getProc prio with ⟨-, same⟩ | ⟨found, got, taken⟩
      · exact .inl (same ▸ queued)
      · rcases List.mem_cons.mp (taken.mem_iff.mp queued) with rfl | still
        · exact .inr ⟨cpu, (Function.update_self ..).trans got⟩
        · exact .inl still
    · exact .inr (held_elsewhere _ (by simp [idle]) holder)
  · obtain ⟨-, stored⟩ := (s.sched.queued_enqueue prio offered).resolve_right fun full =>
      full.1 roomy
    by_cases same : offered = proc
    · exact .inl (stored.mem_iff.mpr (same ▸ List.mem_cons_self))
    · rcases notLast (by simp) with queued | holder
      · exact .inl (stored.mem_iff.mpr (List.mem_cons_of_mem _ queued))
      · exact .inr (held_elsewhere none (by simpa [held] using same) holder)
  · have other : done ≠ proc := by
      rintro rfl
      exact notCompleted cpu (List.mem_append_right _ List.mem_cons_self)
    rcases notLast (by simp) with queued | holder
    · exact .inl queued
    · exact .inr (held_elsewhere none (by simpa [held] using other) holder)

/-- **No process is lost** in a run that offers processes only to queues with room: each
process added and not completed is at exactly one place. -/
theorem no_process_lost {pending : List α} (distinct : pending.Nodup)
    {history : List (DispatchEvent α κ)}
    (run : Run (Guarded (Step prio) (Roomy prio)) (start pending) history t) {proc : α}
    (added : .add proc ∈ history) (notCompleted : ∀ cpu, .complete cpu proc ∉ history) :
    ∃! place, t.occupant place = some proc := by
  have ledger : Ledger (fun _ => True) t.held t.waiting :=
    run.invariant (fun s => Ledger (fun _ => True) s.held s.waiting)
      (fun _ _ _ ledger taken => taken.2.ledger ledger)
      (start_ledger distinct fun _ _ => trivial)
  have accounted : Accounted history t :=
    run.history_invariant Accounted (fun _ _ _ _ accounted taken => accounted.step taken)
      fun _ member => absurd member List.not_mem_nil
  obtain ⟨place, here⟩ := exists_place (accounted proc added notCompleted)
  exact ⟨place, here, fun other there => place_unique ledger there here⟩

/-- The loader adds two processes, and two CPUs take them while the first puts one back. -/
def twoShared : List (DispatchEvent Nat Bool) :=
  [.add 0, .add 1, .get true, .put true 0, .get false, .get true]

/-- The state that these calls lead to. -/
def twoSharedState : Dispatch Nat Bool :=
  (follow (admitted (Roomy fun _ => 0) (next fun _ => 0)) (start [0, 1]) twoShared).get
    (by decide +kernel)

/-- The process that both CPUs could have taken is in one place only. -/
theorem no_process_lost_two_shared : ∃! place, twoSharedState.occupant place = some 0 := by
  have run : Run (Guarded (Step fun _ => 0) (Roomy fun _ => 0)) (start [0, 1]) twoShared
      twoSharedState := Run.of_follow_admitted _ (fun _ _ _ moved => moved) _ _ _
  exact no_process_lost (by decide) run (by simp [twoShared]) (by simp [twoShared])

/-- Eleven processes of one priority are added before a CPU takes one. -/
def elevenAdded : List (DispatchEvent Nat Unit) := (List.range 11).map .add

/-- The state that these calls lead to. -/
def elevenAddedState : Dispatch Nat Unit :=
  (follow (next fun _ => 0) (start (List.range 11)) elevenAdded).get (by decide +kernel)

/-- The queue of a level has ten cells, and `enqueue` drops the eleventh process. -/
theorem full_queue_loses : ¬ ∀ (prio : Nat → Nat) (pending : List Nat)
    (history : List (DispatchEvent Nat Unit)) (t : Dispatch Nat Unit) (proc : Nat),
    pending.Nodup → Run (Step prio) (start pending) history t → .add proc ∈ history →
      (∀ cpu, .complete cpu proc ∉ history) → ∃! place, t.occupant place = some proc := by
  intro claim
  have run : Run (Step fun _ => 0) (start (List.range 11)) elevenAdded elevenAddedState :=
    Run.of_follow _ _ _ _
  obtain ⟨place, here, -⟩ := claim _ _ _ _ 10 List.nodup_range run (by simp [elevenAdded])
    (by simp [elevenAdded])
  have notQueued : 10 ∉ elevenAddedState.sched.queued := by decide +kernel
  cases place with
  | queued level index =>
      obtain ⟨inside, cell⟩ := occupant_queued here
      exact notQueued (Mlq.mem_queued.mpr ⟨level, inside, List.mem_of_getElem? cell⟩)
  | held cpu =>
      have idle : elevenAddedState.held cpu = none := by
        cases cpu
        decide +kernel
      rw [occupant, idle] at here
      cases here

end Dispatch

end PagedOs
