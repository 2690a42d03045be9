import Mathlib.Algebra.Order.BigOperators.Group.Finset
import PagedOs.System.Completion

/-! # How long a run takes

Behind the last arrival a slot in which no CPU executes is one in which no process is left. A
process without code is run once and any other one as often as it has instructions, so the slots up
to the end are not more than the instructions.
-/

namespace PagedOs

open Transition

variable {α κ : Type*} [DecidableEq α] [DecidableEq κ]

namespace Kernel

/-- How often a process is run at most. -/
def share (pcb : α → Pcb) (proc : α) : Nat := max 1 (pcb proc).text.length

/-- The calls of `run` for all processes at most. -/
def work (pcb : α → Pcb) (processes : List (α × Nat)) : Nat :=
  ∑ proc ∈ (processes.map Prod.fst).toFinset, share pcb proc

section Reached

variable {pcb : α → Pcb} {timeSlot : Int} {devList : List (Option κ)}
  {processes : List (α × Nat)} {memory : Sys α} {history : List (KernelStep α κ)}
  {s t : Kernel α κ} {label : KernelStep α κ}

/-! ## How often a process is run -/

/-- A process that is to be run next by the CPU that gets it. -/
def Waits (s : Kernel α κ) (proc : α) : Prop :=
  proc ∈ s.os.sched.queued ∨ proc ∈ s.os.pending ∨
    ∃ k timeLeft, s.os.cpu k = .recheck (some proc) timeLeft

/-- What was run of each process, and that a waiting one is not at its end. -/
structure Rationed (pcb : α → Pcb) (history : List (KernelStep α κ)) (s : Kernel α κ) : Prop where
  counted : ∀ proc, 0 < (pcb proc).text.length →
    (slotsFor proc history).length = s.os.pc proc
  once : ∀ proc, (pcb proc).text.length = 0 → (slotsFor proc history).length ≤ 1
  fresh : ∀ proc, s.Waits proc → s.os.pc proc < (pcb proc).text.length ∨ slotsFor proc history = []

omit [DecidableEq κ] in
/-- The slots of a process are collected step by step. -/
theorem slotsFor_snoc (proc : α) (history : List (KernelStep α κ)) (label : KernelStep α κ) :
    slotsFor proc (history ++ [label]) = slotsFor proc history ++ slotsFor proc [label] := by
  rw [slotsFor, ranIn_snoc, List.filter_append, List.map_append]
  rfl

omit [DecidableEq κ] in
/-- A step in which nothing is run and no process comes to wait that has come to its end. -/
theorem Rationed.frame (rationed : Rationed pcb history s) (nothing : ranIn [label] = [])
    (pc : t.os.pc = s.os.pc)
    (waits : ∀ proc, t.Waits proc → s.Waits proc ∨ s.os.pc proc < (pcb proc).text.length) :
    Rationed pcb (history ++ [label]) t := by
  have same (proc : α) : slotsFor proc (history ++ [label]) = slotsFor proc history := by
    rw [slotsFor_snoc, slotsFor, slotsFor, nothing]
    exact List.append_nil _
  refine ⟨fun proc positive => ?_, fun proc empty => ?_, fun proc waiting => ?_⟩
  · rw [same, pc]
    exact rationed.counted proc positive
  · rw [same]
    exact rationed.once proc empty
  · rw [same, pc]
    rcases waits proc waiting with before | unfinished
    · exact rationed.fresh proc before
    · exact .inl unfinished

omit [DecidableEq α] [DecidableEq κ] in
/-- A process that is run waits nowhere, and no process comes to wait. -/
theorem waits_of_ran
    (ledger : Ledger (fun _ => True) s.os.dispatch.held s.os.dispatch.waiting) {k : κ} {proc : α}
    {timeAfter : Int} (holds : s.os.dispatch.held k = some proc)
    (after : t.os.cpu k = .check (some proc) timeAfter) (sched : t.os.sched = s.os.sched)
    (apart : Os.Apart s.os t.os k) {other : α} (waiting : t.Waits other) :
    other ≠ proc ∧ s.Waits other := by
  rcases waiting with queued | pending | ⟨i, left, place⟩
  · rw [sched] at queued
    refine ⟨fun same => ?_, .inl queued⟩
    exact ledger.taken (same ▸ holds) (List.mem_append_left _ queued)
  · rw [apart.pending] at pending
    refine ⟨fun same => ?_, .inr (.inl pending)⟩
    exact ledger.taken (same ▸ holds) (List.mem_append_right _ pending)
  · -- the CPU that runs it does not wait for the processor
    have elsewhere : i ≠ k := by
      rintro rfl
      rw [after] at place
      cases place
    rw [apart.cpu i elsewhere] at place
    refine ⟨?_, .inr (.inr ⟨i, left, place⟩)⟩
    rintro rfl
    have also : s.os.dispatch.held i = some other := by
      show (s.os.cpu i).holds = some other
      rw [place]
      rfl
    exact elsewhere (ledger.exclusive also holds)

omit [DecidableEq κ] in
theorem Rationed.ran (rationed : Rationed pcb history s)
    (inOrder : Os.InOrder pcb (history.filterMap KernelStep.osEvent) s.os)
    (ledger : Ledger (fun _ => True) s.os.dispatch.held s.os.dispatch.waiting) {k j : κ}
    {proc : α} {executed : Option Inst} {stat timeLeft timeAfter : Int} {slot : Nat}
    (here : s.os.cpu k = .check (some proc) timeLeft ∧ s.os.pc proc ≠ (pcb proc).text.length ∨
      s.os.cpu k = .recheck (some proc) timeLeft)
    (after : t.os.cpu k = .check (some proc) timeAfter) (sched : t.os.sched = s.os.sched)
    (others : ∀ other, other ≠ proc → t.os.pc other = s.os.pc other)
    (counter : ((pcb proc).text[s.os.pc proc]? = none ∧ t.os.pc proc = s.os.pc proc) ∨
      ∃ ins, (pcb proc).text[s.os.pc proc]? = some ins ∧ t.os.pc proc = s.os.pc proc + 1)
    (apart : Os.Apart s.os t.os k) :
    Rationed pcb (history ++ [.cpu k (.run j proc executed stat) slot]) t := by
  have holds : s.os.dispatch.held k = some proc := by
    show (s.os.cpu k).holds = some proc
    rcases here with ⟨here, -⟩ | here <;> rw [here] <;> rfl
  have bound := (inOrder proc).2
  -- it is not at its end, or it has no code and is run for the first time
  have unfinished : s.os.pc proc < (pcb proc).text.length ∨ slotsFor proc history = [] := by
    rcases here with ⟨-, unfinished⟩ | here
    · exact .inl (by omega)
    · exact rationed.fresh proc (.inr (.inr ⟨k, timeLeft, here⟩))
  have own : slotsFor proc (history ++ [.cpu k (.run j proc executed stat) slot]) =
      slotsFor proc history ++ [slot] := by
    rw [slotsFor_snoc, slotsFor, slotsFor, ranIn_run]
    simp
  have other {proc' : α} (different : proc' ≠ proc) :
      slotsFor proc' (history ++ [.cpu k (.run j proc executed stat) slot]) =
        slotsFor proc' history := by
    rw [slotsFor_snoc, slotsFor, slotsFor, ranIn_run]
    simp [Ne.symm different]
  refine ⟨fun proc' positive => ?_, fun proc' empty => ?_, fun proc' waiting => ?_⟩
  · by_cases same : proc' = proc
    · subst same
      have counted := rationed.counted proc' positive
      have inside : s.os.pc proc' < (pcb proc').text.length := by
        rcases unfinished with inside | nothing
        · exact inside
        · rw [nothing, List.length_nil] at counted
          omega
      rw [own, List.length_append, List.length_singleton, counted]
      rcases counter with ⟨behind, -⟩ | ⟨ins, -, moved⟩
      · exact absurd (List.getElem?_eq_none_iff.mp behind) (Nat.not_le_of_lt inside)
      · exact moved.symm
    · rw [other same, others proc' same]
      exact rationed.counted proc' positive
  · by_cases same : proc' = proc
    · subst same
      rcases unfinished with inside | nothing
      · omega
      · rw [own, nothing]
        exact Nat.le_refl 1
    · rw [other same]
      exact rationed.once proc' empty
  · obtain ⟨same, earlier⟩ := waits_of_ran ledger holds after sched apart waiting
    rw [other same, others proc' same]
    exact rationed.fresh proc' earlier

/-- A CPU that does not run its process. -/
theorem Rationed.cpuStep (rationed : Rationed pcb history s)
    (inOrder : Os.InOrder pcb (history.filterMap KernelStep.osEvent) s.os)
    (ledger : Ledger (fun _ => True) s.os.dispatch.held s.os.dispatch.waiting) {k : κ}
    {event : OsEvent α κ} {slot : Nat} (moved : Os.CpuMove pcb s.os t.os k event)
    (apart : Os.Apart s.os t.os k) :
    Rationed pcb (history ++ [.cpu k event slot]) t := by
  -- the other CPUs wait with the processes that they waited with
  have others {proc : α} (gone : ∀ timeLeft, t.os.cpu k ≠ .recheck (some proc) timeLeft)
      (place : ∃ i timeLeft, t.os.cpu i = .recheck (some proc) timeLeft) : s.Waits proc := by
    obtain ⟨i, timeLeft, place⟩ := place
    by_cases same : i = k
    · exact absurd (same ▸ place) (gone timeLeft)
    · exact .inr (.inr ⟨i, timeLeft, by rwa [apart.cpu i same] at place⟩)
  have stays {proc : α} (sched : t.os.sched = s.os.sched)
      (gone : ∀ timeLeft, t.os.cpu k ≠ .recheck (some proc) timeLeft)
      (waiting : t.Waits proc) : s.Waits proc := by
    rcases waiting with queued | pending | place
    · exact .inl (sched ▸ queued)
    · exact .inr (.inl (apart.pending ▸ pending))
    · exact others gone place
  cases moved with
  | empty fetches nothing still after pc =>
      refine rationed.frame rfl pc fun proc waiting => .inl ?_
      have gone (timeLeft : Int) : t.os.cpu k ≠ .recheck (some proc) timeLeft := by
        rcases after with ⟨-, after⟩ | after <;> simp [after]
      rcases waiting with queued | pending | place
      · rw [still] at queued
        cases queued
      · exact .inr (.inl (apart.pending ▸ pending))
      · exact others gone place
  | @got timeLeft fetched fetches taken after pc =>
      refine rationed.frame rfl pc fun proc waiting => .inl ?_
      rcases waiting with queued | pending | place
      · exact .inl (taken.mem_iff.mpr (List.mem_cons_of_mem _ queued))
      · exact .inr (.inl (apart.pending ▸ pending))
      · by_cases same : fetched = proc
        · exact .inl (taken.mem_iff.mpr (same ▸ List.mem_cons_self))
        · exact others (fun timeLeft => by simp [after, same]) place
  | complete here ended after sched pc =>
      exact rationed.frame rfl pc fun proc waiting => .inl (stays sched (by simp [after]) waiting)
  | @put offered here unfinished after sched pc =>
      refine rationed.frame rfl pc fun proc waiting => ?_
      have bound := (inOrder offered).2
      rcases waiting with queued | pending | place
      · rw [sched] at queued
        rcases mem_enqueued queued with rfl | before
        · exact .inr (by omega)
        · exact .inl (.inl before)
      · exact .inl (.inr (.inl (apart.pending ▸ pending)))
      · exact .inl (others (by simp [after]) place)
  | run here after sched notOwn counter =>
      exact rationed.ran inOrder ledger here after sched notOwn counter apart
  | skip here going after sched pc =>
      exact rationed.frame rfl pc fun proc waiting => .inl (stays sched (by simp [after]) waiting)
  | stop here done after sched pc =>
      exact rationed.frame rfl pc fun proc waiting => .inl (stays sched (by simp [after]) waiting)

/-- Every process was run once for each instruction that it has behind it, in every reachable
state, and one without code once at most. -/
theorem reached_rationed (distinct : (processes.map Prod.fst).Nodup)
    (run : Run (Step pcb timeSlot devList) (start devList processes memory) history s) :
    Rationed pcb history s := by
  refine run.reached_invariant (Rationed pcb)
    (fun past before label after reached rationed taken => ?_)
    ⟨fun _ _ => rfl, fun _ _ => Nat.zero_le 1, fun _ _ => .inr rfl⟩
  have joined := reached_joined reached
  have unchanged (os : after.os = before.os) (nothing : ranIn [label] = []) :
      Rationed pcb (past ++ [label]) after := by
    refine rationed.frame nothing (by rw [os]) fun proc waiting => .inl ?_
    unfold Waits at waiting ⊢
    rwa [os] at waiting
  cases taken.move with
  | @add proc slot event arrives loads due =>
      obtain ⟨-, sched, -, cpu, pc⟩ := joined.adds arrives loads
      refine rationed.frame rfl pc fun other waiting => .inl ?_
      have pending := joined.pending
      obtain ⟨-, -, -, rest, place, later⟩ := arrives.effect
      have pendingAfter := (joined.step taken).pending
      rw [place] at pending
      rw [later] at pendingAfter
      rcases waiting with queued | still | ⟨k, timeLeft, here⟩
      · rw [sched] at queued
        rcases mem_enqueued queued with rfl | earlier
        · exact .inr (.inl (pending ▸ List.mem_cons_self))
        · exact .inl earlier
      · refine .inr (.inl ?_)
        rw [pendingAfter] at still
        rw [pending]
        exact List.mem_cons_of_mem _ still
      · exact .inr (.inr ⟨k, timeLeft, cpu ▸ here⟩)
  | finish arrives loads =>
      obtain ⟨-, sched, -, cpu, pc⟩ := joined.finishes arrives loads
      refine rationed.frame rfl pc fun other waiting => .inl ?_
      have pendingAfter := (joined.step taken).pending
      obtain ⟨-, -, place, -⟩ := arrives.effect
      rw [place] at pendingAfter
      rcases waiting with queued | still | ⟨k, timeLeft, here⟩
      · exact .inl (sched ▸ queued)
      · rw [pendingAfter] at still
        cases still
      · exact .inr (.inr ⟨k, timeLeft, cpu ▸ here⟩)
  | call arrives ready os => exact unchanged os rfl
  | detach arrives stopped os => exact unchanged os rfl
  | silent arrives noAdd noFinish noCall noDetach os => exact unchanged os rfl
  | cpu free steps =>
      obtain ⟨moved, apart⟩ := Os.cpuStep_moves steps
      exact rationed.cpuStep (reached_inOrder reached) (reached_ledger distinct reached) moved apart

/-- No process is run more often than it has instructions, or once. -/
theorem slotsFor_le_share (distinct : (processes.map Prod.fst).Nodup)
    (run : Run (Step pcb timeSlot devList) (start devList processes memory) history s) (proc : α) :
    (slotsFor proc history).length ≤ share pcb proc := by
  have rationed := reached_rationed distinct run
  rcases Nat.eq_zero_or_pos (pcb proc).text.length with empty | positive
  · exact (rationed.once proc empty).trans (le_max_left _ _)
  · rw [rationed.counted proc positive]
    exact (reached_inOrder run proc).2.trans (le_max_right _ _)

/-! ## Slots in which nothing is run -/

omit [DecidableEq α] [DecidableEq κ] in
theorem complete_snoc {proc : α} (complete : Complete proc history) (label : KernelStep α κ) :
    Complete proc (history ++ [label]) := by
  obtain ⟨k, j, slot, member⟩ := complete
  exact ⟨k, j, slot, List.mem_append_left _ member⟩

/-- A CPU that is through with its slot and keeps a process has run it in the slot. -/
def HeldRan (history : List (KernelStep α κ)) (s : Kernel α κ) : Prop :=
  ∀ k proc timeLeft, s.os.cpu k = .check (some proc) timeLeft → s.Busy k →
    (k, proc, clock k history) ∈ ranIn history

/-- In every reachable state a CPU that is through with its slot and keeps a process has run it. -/
theorem reached_heldRan (attached : Attached devList)
    (run : Run (Step pcb timeSlot devList) (start devList processes memory) history s) :
    HeldRan history s := by
  refine run.reached_invariant HeldRan (fun past before label after reached held taken k proc
    timeLeft here busy => ?_) fun k proc timeLeft here => by simp [start, Os.start] at here
  rw [ranIn_snoc]
  cases label with
  | arrival step =>
      obtain ⟨cpu, flags⟩ := taken.move.busy (reached_joined reached)
      obtain ⟨was, noReturn⟩ := (flags k).mp busy
      rw [cpu] at here
      rw [clock_other _ (by simpa using noReturn)]
      exact List.mem_append_left _ (held k proc timeLeft here was)
  | cpu k' event slot =>
      rw [clock_other _ (by simp)]
      cases taken.move with
      | @cpu k' event u data free steps arrivals due =>
          obtain ⟨moved, apart⟩ := Os.cpuStep_moves steps
          by_cases same : k = k'
          · subst same
            have running := moved.running
            cases moved with
            | empty fetches nothing still now =>
                rcases now with ⟨-, now⟩ | now <;> simp [now] at here
            | got fetches found now => simp [now] at here
            | complete was ended now => simp [now] at here
            | put was unfinished now => simp [now] at here
            | run was now =>
                rw [now] at here
                cases here
                refine List.mem_append_right _ ?_
                rw [ranIn_run, clock_free attached reached free.1 running]
                exact List.mem_singleton.mpr rfl
            | skip was going now => simp [now] at here
            | stop was done now => simp [now] at here
          · rw [apart.cpu k same] at here
            rw [Busy, arrivals, due, Function.update_of_ne same] at busy
            exact List.mem_append_left _ (held k proc timeLeft here busy)

/-- When the clock advances behind the last arrival slot the loader has added every process. -/
theorem tick_arrived (attached : Attached devList)
    (run : Run (Step pcb timeSlot devList) (start devList processes memory) history s)
    (tick : Step pcb timeSlot devList s (.arrival (.timer .tick)) t) {last : Nat}
    (latest : ∀ arrival ∈ PagedOs.arrivals 0 processes, arrival.2 ≤ last)
    (behind : last < s.arrivals.timer.time) : arrived history = PagedOs.arrivals 0 processes := by
  have arriving := reached_arriving attached run
  have schedule := arriving.schedule
  have nothing : s.arrivals.loader.remaining
      (slotsOf none (history.filterMap KernelStep.arrivalStep)) = [] := by
    cases gone : s.arrivals.timer.fsh none with
    | true =>
        have placed := arriving.placed
        cases here : s.arrivals.loader <;> simp [here, Loader.Placed, gone] at placed
        rfl
    | false =>
        have now := (tick_device attached run tick gone).2
        refine List.eq_nil_iff_forall_not_mem.mpr fun arrival member => ?_
        have scheduled := schedule ▸ List.mem_append_right _ member
        exact absurd (latest arrival scheduled)
          (Nat.not_le_of_lt (behind.trans_le (now ▸ le_of_mem_remaining member)))
  rwa [nothing, List.append_nil] at schedule

/-- A slot behind the last arrival in which no CPU runs a process leaves none. -/
theorem nothing_run [Fintype κ] [Nonempty κ] (attached : Attached devList)
    (run : Run (Step pcb timeSlot devList) (start devList processes memory) history s)
    (tick : Step pcb timeSlot devList s (.arrival (.timer .tick)) t) {last : Nat}
    (latest : ∀ arrival ∈ PagedOs.arrivals 0 processes, arrival.2 ≤ last)
    (behind : last < s.arrivals.timer.time)
    (idle : ∀ ran ∈ ranIn history, ran.2.2 ≠ s.arrivals.timer.time) (proc : α) :
    ¬ s.Present proc := by
  by_cases running : ∃ k, s.os.cpu k ≠ .stopped
  · obtain ⟨k, running⟩ := running
    have none : arrivedNow history s = 0 := by
      refine List.countP_eq_zero.mpr fun arrival member => ?_
      have bound := latest arrival ((arrived_scheduled attached run).subset member)
      simp only [decide_eq_true_eq]
      omega
    rintro (queued | ⟨j, holds⟩)
    · rcases no_idle_slot attached run tick running with ran | ⟨length, -⟩
      · obtain ⟨ran, member, now⟩ := List.mem_map.mp ran
        exact idle ran (List.mem_filter.mp member).1 now
      · rw [none, Nat.le_zero, List.length_eq_zero_iff] at length
        rw [length] at queued
        cases queued
    · -- the process that a CPU keeps was run in the slot
      have notStopped : s.os.cpu j ≠ .stopped := fun gone => by
        rw [gone] at holds
        cases holds
      obtain ⟨inside, head, now⟩ := tick_through attached run tick notStopped
      cases here : s.os.cpu j with
      | check held timeLeft =>
          rw [here] at holds
          obtain rfl : held = some proc := holds
          have ran := reached_heldRan attached run j proc timeLeft here (.inr inside)
          exact idle _ ran now
      | _ => simp [here, Cpu.atHead] at head
  · simp only [not_exists, not_not] at running
    exact nothing_left attached run running proc

/-- As long as a process is not complete a CPU runs one in every slot behind the last arrival. -/
theorem reached_progress [Fintype κ] [Nonempty κ] (attached : Attached devList)
    (distinct : (processes.map Prod.fst).Nodup)
    (fits : Fitting (prioOf pcb) (processes.map Prod.fst)) {last : Nat}
    (latest : ∀ arrival ∈ PagedOs.arrivals 0 processes, arrival.2 ≤ last)
    (run : Run (Step pcb timeSlot devList) (start devList processes memory) history s) :
    (∀ process ∈ processes, Complete process.1 history) ∨
      ∀ slot, last < slot → slot < s.arrivals.timer.time →
        ∃ ran ∈ ranIn history, ran.2.2 = slot := by
  refine run.reached_invariant (fun history s =>
      (∀ process ∈ processes, Complete process.1 history) ∨
        ∀ slot, last < slot → slot < s.arrivals.timer.time →
          ∃ ran ∈ ranIn history, ran.2.2 = slot)
    (fun past before label after reached progress taken => ?_)
    (.inr fun slot _ early => absurd early (Nat.not_lt_zero slot))
  rcases progress with complete | progress
  · exact .inl fun process member => complete_snoc (complete process member) label
  have earlier (slot : Nat) (behind : last < slot) (early : slot < before.arrivals.timer.time) :
      ∃ ran ∈ ranIn (past ++ [label]), ran.2.2 = slot := by
    obtain ⟨ran, member, now⟩ := progress slot behind early
    exact ⟨ran, by rw [ranIn_snoc]; exact List.mem_append_left _ member, now⟩
  by_cases tick : label = .arrival (.timer .tick)
  · subst tick
    have time : after.arrivals.timer.time = before.arrivals.timer.time + 1 := by
      rcases taken.timer with ⟨step, same, moved⟩ | ⟨noStep, -⟩
      · obtain rfl : step = .tick := by simpa using same.symm
        exact moved.time_eq
      · exact absurd rfl (noStep _)
    by_cases behind : last < before.arrivals.timer.time
    · by_cases used : ∃ ran ∈ ranIn past, ran.2.2 = before.arrivals.timer.time
      · obtain ⟨ran, member, now⟩ := used
        refine .inr fun slot late early => ?_
        rcases Nat.lt_succ_iff_lt_or_eq.mp (time ▸ early) with sooner | rfl
        · exact earlier slot late sooner
        · exact ⟨ran, by rw [ranIn_snoc]; exact List.mem_append_left _ member, now⟩
      · simp only [not_exists, not_and] at used
        refine .inl fun process member => complete_snoc ?_ _
        by_contra notYet
        obtain ⟨slot, arrives⟩ := mem_arrivals_of_mem 0 member
        rw [← tick_arrived attached reached taken latest behind] at arrives
        exact nothing_run attached reached taken latest behind used process.1
          (present_of_arrived distinct fits reached arrives notYet)
    · exact .inr fun slot late early => absurd early (by omega)
  · have time : after.arrivals.timer.time = before.arrivals.timer.time := by
      rcases taken.timer with ⟨step, rfl, moved⟩ | ⟨-, same⟩
      · refine moved.time_eq.trans (if_neg ?_)
        rintro rfl
        exact tick rfl
      · rw [same]
    exact .inr fun slot late early => earlier slot late (time ▸ early)

/-- A run that is long enough completes every process. -/
theorem complete_of_late [Fintype κ] [Nonempty κ] (attached : Attached devList)
    (distinct : (processes.map Prod.fst).Nodup)
    (fits : Fitting (prioOf pcb) (processes.map Prod.fst)) {last : Nat}
    (latest : ∀ arrival ∈ PagedOs.arrivals 0 processes, arrival.2 ≤ last)
    (run : Run (Step pcb timeSlot devList) (start devList processes memory) history s)
    (late : last + work pcb processes + 1 < s.arrivals.timer.time) :
    ∀ process ∈ processes, Complete process.1 history := by
  rcases reached_progress attached distinct fits latest run with complete | progress
  · exact complete
  -- otherwise the slots behind the last arrival are not more than the calls of `run`
  exfalso
  let procs := (processes.map Prod.fst).toFinset
  have covered : Finset.Ioo last s.arrivals.timer.time ⊆
      procs.biUnion fun proc => (slotsFor proc history).toFinset := by
    intro slot inside
    obtain ⟨above, below⟩ := Finset.mem_Ioo.mp inside
    obtain ⟨ran, member, rfl⟩ := progress slot above below
    obtain ⟨first, arrives, -⟩ := reached_ranAfter run ran member
    have scheduled := (arrived_scheduled attached run).subset arrives
    have known : ran.2.1 ∈ processes.map Prod.fst := by
      rw [← arrivals_map 0 processes]
      exact List.mem_map.mpr ⟨_, scheduled, rfl⟩
    refine Finset.mem_biUnion.mpr ⟨ran.2.1, List.mem_toFinset.mpr known, ?_⟩
    refine List.mem_toFinset.mpr (List.mem_map_of_mem (List.mem_filter.mpr ⟨member, ?_⟩))
    exact decide_eq_true rfl
  have slots : s.arrivals.timer.time - last - 1 ≤ work pcb processes :=
    calc s.arrivals.timer.time - last - 1
        = (Finset.Ioo last s.arrivals.timer.time).card := (Nat.card_Ioo _ _).symm
      _ ≤ (procs.biUnion fun proc => (slotsFor proc history).toFinset).card :=
          Finset.card_le_card covered
      _ ≤ ∑ proc ∈ procs, (slotsFor proc history).toFinset.card := Finset.card_biUnion_le
      _ ≤ ∑ proc ∈ procs, share pcb proc :=
          Finset.sum_le_sum fun proc _ => (List.toFinset_card_le _).trans
            (slotsFor_le_share distinct run proc)
      _ = work pcb processes := rfl
  omega

/-- **Bounded completion.** When the ready queues have room for every process, all processes are
complete in as many slots behind the last arrival as they have instructions together, one for a
process without code. -/
theorem bounded_completion [Fintype κ] [Nonempty κ] (attached : Attached devList)
    (distinct : (processes.map Prod.fst).Nodup)
    (fits : Fitting (prioOf pcb) (processes.map Prod.fst)) {last : Nat}
    (latest : ∀ arrival ∈ PagedOs.arrivals 0 processes, arrival.2 ≤ last)
    (run : Run (Step pcb timeSlot devList) (start devList processes memory) history s)
    (late : last + work pcb processes + 1 < s.arrivals.timer.time) :
    ∀ process ∈ processes, Complete process.1 history ∧
      Os.executed process.1 (history.filterMap KernelStep.osEvent) = (pcb process.1).text := by
  intro process member
  have complete := complete_of_late attached distinct fits latest run late process member
  exact ⟨complete, executed_of_complete run complete⟩

end Reached

/-- Six slots are enough for the two processes, and a CPU that is idle has let the clock go on. -/
theorem bounded_completion_overdue :
    Complete proc0 overdue.1 ∧ Complete proc1 overdue.1 ∧
      Os.executed proc0 (overdue.1.filterMap KernelStep.osEvent) =
        [⟨.allocOp, 600, 0, 0⟩, ⟨.writeOp, 7, 0, 520⟩, ⟨.readOp, 0, 520, 20⟩] := by
  have latest : ∀ arrival ∈ PagedOs.arrivals 0 [(proc0, 0), (proc1, 1)], arrival.2 ≤ 1 := by
    decide
  have late : 1 + work (sharing 600 520) [(proc0, 0), (proc1, 1)] + 1 <
      overdue.2.arrivals.timer.time := by decide +kernel
  have all := bounded_completion (attachAll_attached 2) (by decide) (sharing_fitting 600 520) latest
    run_overdue late
  have first := all (proc0, 0) List.mem_cons_self
  have second := all (proc1, 1) (List.mem_cons_of_mem _ List.mem_cons_self)
  exact ⟨first.1, second.1, first.2⟩

end Kernel

end PagedOs
