import PagedOs.System.Idle

/-! # Every process is completed

Where the ready queues have room for all processes of their priority no process is lost, so one that
has arrived and is not complete is queued or held. The queues are not left alone either: as long as
a process is queued a CPU comes back to them. So the CPUs leave their loops behind the last process
only.
-/

namespace PagedOs

open Transition

variable {α κ : Type*} [DecidableEq α] [DecidableEq κ]

/-! ## Room for every process -/

/-- The priorities index the array, and no queue has fewer cells than processes of its priority. -/
structure Fitting (prio : α → Nat) (processes : List α) : Prop where
  inRange : ∀ proc ∈ processes, prio proc < maxPrio
  cells : ∀ level, (processes.countP fun proc => prio proc = level) ≤ maxQueueSize

namespace Dispatch

variable {prio : α → Nat} {processes : List α} {s t : Dispatch α κ} {event : DispatchEvent α κ}

/-- What a run keeps about the processes and the queues. -/
structure Housed (prio : α → Nat) (processes : List α) (s : Dispatch α κ) : Prop where
  ledger : Ledger (fun proc => proc ∈ processes) s.held s.waiting
  levels : s.sched.Levels prio

omit [DecidableEq α] [DecidableEq κ] in
/-- The queue of a process has room for it where it is not in the queues. -/
theorem Housed.hasRoom (housed : Housed prio processes s) (fits : Fitting prio processes)
    {proc : α} (member : proc ∈ processes) (away : proc ∉ s.sched.queued) :
    s.sched.HasRoom prio proc := by
  have inside := fits.inRange proc member
  refine ⟨inside, decide_eq_true ?_⟩
  have queued (other : α) (stored : other ∈ s.sched.contents (prio proc)) :
      other ∈ s.sched.queued := Mlq.mem_queued.mpr ⟨_, inside, stored⟩
  have nodup : (s.sched.contents (prio proc)).Nodup :=
    (List.nodup_flatMap.mp (List.nodup_append.mp housed.ledger.nodup).1).1 _
      (List.mem_range.mpr inside)
  -- with the process the cells are processes of one priority
  have cells : (proc :: s.sched.contents (prio proc)).Subperm
      (processes.filter fun other => prio other = prio proc) := by
    refine List.subperm_of_subset (List.nodup_cons.mpr ⟨away ∘ queued proc, nodup⟩) ?_
    intro other here
    rcases List.mem_cons.mp here with rfl | stored
    · exact List.mem_filter.mpr ⟨member, by simp⟩
    · have waits : other ∈ s.waiting := List.mem_append_left _ (queued other stored)
      exact List.mem_filter.mpr ⟨housed.ledger.freeValid waits,
        by simpa using housed.levels.uniform _ inside other stored⟩
  have length := cells.length_le
  rw [← List.countP_eq_length_filter, List.length_cons] at length
  exact (Nat.lt_of_succ_le length).trans_le (fits.cells (prio proc))

/-- So no step is offered a process to a full queue. -/
theorem Housed.roomy (housed : Housed prio processes s) (fits : Fitting prio processes)
    (taken : Step prio s event t) : s.Roomy prio event := by
  rcases taken.cases with ⟨proc, rest, rfl, pending, -⟩ | ⟨cpu, rfl, -⟩ |
    ⟨cpu, proc, rfl, held, -⟩ | ⟨cpu, proc, rfl, -⟩
  · have waits : proc ∈ s.waiting := by
      rw [waiting, pending]
      exact List.mem_append_right _ List.mem_cons_self
    refine housed.hasRoom fits (housed.ledger.freeValid waits) fun queued => ?_
    have apart := (List.nodup_append.mp housed.ledger.nodup).2.2
    rw [pending] at apart
    exact apart proc queued proc List.mem_cons_self rfl
  · trivial
  · refine housed.hasRoom fits (housed.ledger.ownedValid held) fun queued => ?_
    exact housed.ledger.taken held (List.mem_append_left _ queued)
  · trivial

/-- A step of the machine is a call of the scheduler, or leaves it. -/
theorem Housed.step (housed : Housed prio processes s) (fits : Fitting prio processes)
    (taken : Step prio s event t) : Housed prio processes t where
  ledger := taken.ledger housed.ledger
  levels := by
    have roomy := housed.roomy fits taken
    rcases taken.cases with ⟨proc, rest, rfl, -, rfl⟩ | ⟨cpu, rfl, -, rfl⟩ |
      ⟨cpu, proc, rfl, -, rfl⟩ | ⟨cpu, proc, rfl, -, rfl⟩
    · have offered : Mlq.Calls prio s.sched (.offered proc _) (s.sched.addProc prio proc) :=
        ⟨roomy.1, .add proc, rfl⟩
      exact housed.levels.step offered
    · have got : Mlq.Calls prio s.sched (.got _ _ _) (s.sched.getProc prio).2 :=
        ⟨trivial, .get, rfl⟩
      exact housed.levels.step got
    · have offered : Mlq.Calls prio s.sched (.offered proc _) (s.sched.putProc prio proc) :=
        ⟨roomy.1, .put proc, rfl⟩
      exact housed.levels.step offered
    · exact housed.levels

/-- **No process is lost** where the queues have room for all of them. -/
theorem run_accounted (distinct : processes.Nodup) (fits : Fitting prio processes)
    {history : List (DispatchEvent α κ)}
    (run : Run (Step prio) (start processes) history t) : Accounted history t := by
  have kept := run.history_invariant
    (fun history s => Housed prio processes s ∧ Accounted history s)
    (fun past before label after held taken => ⟨held.1.step fits taken,
      held.2.step ⟨held.1.roomy fits taken, taken⟩⟩)
    ⟨⟨start_ledger distinct fun _ member => member, Mlq.initScheduler_levels prio _⟩,
      fun _ member => absurd member List.not_mem_nil⟩
  exact kept.2

end Dispatch

/-- Behind the slot in which it adds a process the loader is away for the rest of it. -/
theorem Arrivals.added_past {ι : Type*} [DecidableEq ι] {devList : List ι} {device : ι}
    {processes : List (α × Nat)} {history : List (ArrivalStep ι α)} {s : Arrivals ι α}
    (nodup : devList.Nodup) (member : device ∈ devList)
    (run : Run (Step devList device) (start devList processes) history s) :
    ∀ arrival ∈ added history, arrival.2 < slotsOf device history ∨
      (arrival.2 = slotsOf device history ∧
        ∃ rest, s.loader = .leave rest ∨ s.loader = .waiting rest) := by
  refine run.reached_invariant (fun history s => ∀ arrival ∈ added history,
      arrival.2 < slotsOf device history ∨ (arrival.2 = slotsOf device history ∧
        ∃ rest, s.loader = .leave rest ∨ s.loader = .waiting rest))
    (fun past before label after reached held taken arrival here => ?_)
    fun _ member => absurd member List.not_mem_nil
  have arriving := run_arriving nodup member reached
  have placed := arriving.placed
  -- where the loader is neither about to wait nor waiting
  have elsewhere (back : ∀ rest, before.loader ≠ .leave rest ∧ before.loader ≠ .waiting rest)
      (here : arrival ∈ added past) : arrival.2 < slotsOf device past := by
    refine (held arrival here).resolve_right ?_
    rintro ⟨-, rest, leave | waiting⟩
    · exact (back rest).1 leave
    · exact (back rest).2 waiting
  rw [added_snoc] at here
  cases label with
  | timer step =>
      have earlier : arrival ∈ added past := by simpa [added] using here
      have followed := taken.follows
      rw [slotsOf_timer]
      rcases Loader.follow_cases followed with ⟨rest, rfl, leave, waiting⟩ | ⟨rest, rfl, -⟩ |
        ⟨rfl, loaded, -⟩ | ⟨-, noReturn, -, same⟩
      · rw [if_neg (by simp)]
        exact (held arrival earlier).imp_right fun now => ⟨now.1, rest, .inr waiting⟩
      · rw [if_pos rfl]
        refine .inl ?_
        rcases held arrival earlier with before | now
        · exact before.trans (Nat.lt_succ_self _)
        · exact now.1.le.trans_lt (Nat.lt_succ_self _)
      · rw [if_neg (by simp)]
        exact .inl (elsewhere (fun rest => by simp [loaded]) earlier)
      · rw [if_neg noReturn, same]
        exact held arrival earlier
  | test =>
      obtain ⟨-, -, -, rest, place⟩ := taken.effect
      rw [slotsOf_other device past rfl]
      exact .inl (elsewhere (fun rest => by simp [place]) (by simpa [added] using here))
  | add proc slot =>
      obtain ⟨now, -, -, rest, place, after⟩ := taken.effect
      rw [slotsOf_other device past rfl]
      rcases List.mem_append.mp here with earlier | last
      · exact .inl (elsewhere (fun rest => by simp [place]) earlier)
      · rw [place] at placed
        obtain rfl := List.mem_singleton.mp last
        exact .inr ⟨now.symm.trans (arriving.time member placed).symm, rest, .inl after⟩
  | finish =>
      obtain ⟨-, place, -⟩ := taken.effect
      rw [slotsOf_other device past rfl]
      exact .inl (elsewhere (fun rest => by simp [place]) (by simpa [added] using here))

/-- A CPU that comes back to the queues: it has not left its loop and is not about to. -/
def Cpu.live : Cpu α → Bool
  | .recheck none _ => false
  | .stopped => false
  | _ => true

namespace Kernel

section Reached

variable {pcb : α → Pcb} {timeSlot : Int} {devList : List (Option κ)}
  {processes : List (α × Nat)} {memory : Sys α} {history : List (KernelStep α κ)}
  {s t : Kernel α κ} {label : KernelStep α κ}

/-- A process is complete: a CPU has found its code executed to the end. -/
def Complete (proc : α) (history : List (KernelStep α κ)) : Prop :=
  ∃ k j slot, .cpu k (.complete j proc) slot ∈ history

/-- The CPUs work the queues as in the machine of `Dispatch`. -/
theorem reached_dispatch
    (run : Run (Step pcb timeSlot devList) (start devList processes memory) history s) :
    Run (Dispatch.Step (prioOf pcb)) (Dispatch.start (processes.map Prod.fst))
      ((history.filterMap KernelStep.osEvent).filterMap OsEvent.dispatch) s.os.dispatch :=
  Os.run_dispatch (run_os run (start_joined devList processes memory))

/-- A process that has arrived and is not complete is queued or held. -/
theorem present_of_arrived (distinct : (processes.map Prod.fst).Nodup)
    (fits : Fitting (prioOf pcb) (processes.map Prod.fst))
    (run : Run (Step pcb timeSlot devList) (start devList processes memory) history s) {proc : α}
    {slot : Nat} (arrives : (proc, slot) ∈ arrived history) (notYet : ¬ Complete proc history) :
    s.Present proc := by
  refine Dispatch.run_accounted distinct fits (reached_dispatch run) proc ?_ fun k member => ?_
  · rw [arrived, added, List.filterMap_filterMap] at arrives
    obtain ⟨label, member, same⟩ := List.mem_filterMap.mp arrives
    rw [List.filterMap_filterMap]
    refine List.mem_filterMap.mpr ⟨label, member, ?_⟩
    cases label with
    | cpu k event slot => cases same
    | arrival step =>
        cases step with
        | add other slot =>
            obtain ⟨rfl, -⟩ := Prod.mk.inj (Option.some.inj same)
            rfl
        | _ => cases same
  · rw [List.filterMap_filterMap] at member
    obtain ⟨label, member, same⟩ := List.mem_filterMap.mp member
    refine notYet ?_
    cases label with
    | cpu j event slot =>
        cases event with
        | complete i other =>
            cases same
            exact ⟨j, k, slot, member⟩
        | _ => cases same
    | arrival step => cases step <;> cases same

/-- The flag of the loader is not set in the slot of the last arrival. -/
theorem not_done_of_arrival (attached : Attached devList)
    (run : Run (Step pcb timeSlot devList) (start devList processes memory) history s) {proc : α}
    (now : (proc, s.arrivals.timer.time) ∈ arrived history) : s.os.done = false := by
  have member := attached.all none
  have bound : slotsOf none (history.filterMap KernelStep.arrivalStep) ≤ s.arrivals.timer.time :=
    TimerState.completed_le_time attached.nodup (run_timer (run_arrivals run)) member
  rcases Arrivals.added_past attached.nodup member (run_arrivals run) _ now with
    past | ⟨-, rest, place⟩
  · exact absurd past (Nat.not_lt_of_le bound)
  · rw [(reached_joined run).done]
    by_contra done
    have finished := (reached_arriving attached run).finished (by simpa using done)
    rcases place with place | place <;> rcases finished with ended | ended <;>
      simp [place] at ended

/-- A queued process is not left alone: a CPU comes back to the queues, or the slot of the last
arrival is not over. A CPU has left its loop when the loader was done. -/
structure Attended (history : List (KernelStep α κ)) (s : Kernel α κ) : Prop where
  served : s.os.sched.queued = [] ∨ (∃ k, (s.os.cpu k).live = true) ∨
    ∃ proc, (proc, s.arrivals.timer.time) ∈ arrived history
  stopped : ∀ k, s.os.cpu k = .stopped → s.os.done = true

omit [DecidableEq α] in
/-- A step of a CPU leaves nobody unattended: a CPU stops only when it found the queues empty. -/
theorem Attended.cpuStep (attended : Attended history s) {k : κ} {event : OsEvent α κ}
    (moved : Os.CpuMove pcb s.os t.os k event) (apart : Os.Apart s.os t.os k)
    (timer : t.arrivals = s.arrivals) :
    Attended (history ++ [.cpu k event s.arrivals.timer.currentTime]) t := by
  have elsewhere (notStopped : t.os.cpu k ≠ .stopped ∨ t.os.done = true) (j : κ)
      (gone : t.os.cpu j = .stopped) : t.os.done = true := by
    by_cases same : j = k
    · exact notStopped.resolve_left fun running => running (same ▸ gone)
    · rw [apart.cpu j same] at gone
      rw [apart.done]
      exact attended.stopped j gone
  have busy (live : (t.os.cpu k).live = true) :
      Attended (history ++ [.cpu k event s.arrivals.timer.currentTime]) t := by
    refine ⟨.inr (.inl ⟨k, live⟩), elsewhere (.inl fun gone => ?_)⟩
    rw [gone] at live
    cases live
  cases moved with
  | empty fetches nothing still after =>
      refine ⟨.inl still, elsewhere (.inl ?_)⟩
      rcases after with ⟨-, after⟩ | after <;> simp [after]
  | got fetches taken after => exact busy (by rw [after]; rfl)
  | complete here ended after => exact busy (by rw [after]; rfl)
  | put here unfinished after => exact busy (by rw [after]; rfl)
  | run here after => exact busy (by rw [after]; rfl)
  | skip here going after => exact busy (by rw [after]; rfl)
  | stop here done after sched =>
      refine ⟨?_, elsewhere (.inr (apart.done.trans done))⟩
      rcases attended.served with empty | ⟨j, live⟩ | ⟨proc, now⟩
      · exact .inl (by rw [sched, empty])
      · refine .inr (.inl ⟨j, ?_⟩)
        by_cases same : j = k
        · rw [same, here] at live
          cases live
        · rwa [apart.cpu j same]
      · exact .inr (.inr ⟨proc, by rw [timer]; exact mem_arrived_snoc now _⟩)

omit [DecidableEq α] [DecidableEq κ] in
/-- A step that leaves the CPUs, the queues and the clock. -/
theorem Attended.frame (attended : Attended history s) (queued : t.os.sched = s.os.sched)
    (cpu : t.os.cpu = s.os.cpu) (done : s.os.done = true → t.os.done = true)
    (time : t.arrivals.timer.time = s.arrivals.timer.time) :
    Attended (history ++ [label]) t where
  served := by
    rw [queued, cpu, time]
    exact attended.served.imp_right (Or.imp_right fun ⟨proc, now⟩ =>
      ⟨proc, mem_arrived_snoc now label⟩)
  stopped := fun k gone => done (attended.stopped k (cpu ▸ gone))

/-- A step of any thread leaves nobody unattended. -/
theorem Attended.step [Nonempty κ] (attached : Attached devList)
    (run : Run (Step pcb timeSlot devList) (start devList processes memory) history s)
    (attended : Attended history s) (taken : Step pcb timeSlot devList s label t) :
    Attended (history ++ [label]) t := by
  have joined := reached_joined run
  cases taken.move with
  | @add proc slot event arrives loads due =>
      obtain ⟨now, timer, -⟩ := arrives.effect
      obtain ⟨-, -, done, cpu, -⟩ := joined.adds arrives loads
      refine ⟨.inr (.inr ⟨proc, ?_⟩), fun k gone => ?_⟩
      · rw [timer, arrived_snoc]
        refine List.mem_append_right _ (List.mem_singleton.mpr ?_)
        exact congrArg (Prod.mk proc) now
      · rw [done]
        exact attended.stopped k (cpu ▸ gone)
  | finish arrives loads =>
      obtain ⟨timer, -⟩ := arrives.effect
      obtain ⟨-, sched, done, cpu, -⟩ := joined.finishes arrives loads
      exact attended.frame sched cpu (fun _ => done) (by rw [timer])
  | call arrives ready os =>
      obtain ⟨timer, -⟩ := arrives.effect
      exact attended.frame (by rw [os]) (by rw [os]) (fun done => by rw [os, done])
        (timer.time_eq.trans (if_neg (by simp)))
  | detach arrives stopped os =>
      obtain ⟨timer, -⟩ := arrives.effect
      exact attended.frame (by rw [os]) (by rw [os]) (fun done => by rw [os, done])
        (timer.time_eq.trans (if_neg (by simp)))
  | @silent step arrives noAdd noFinish noCall noDetach os =>
      by_cases tick : step = .timer .tick
      · subst tick
        refine ⟨?_, fun k gone => ?_⟩
        · rw [os]
          by_cases running : ∃ k, s.os.cpu k ≠ .stopped
          · obtain ⟨k, running⟩ := running
            have head := (tick_through attached run taken running).2.1
            refine .inr (.inl ⟨k, ?_⟩)
            cases here : s.os.cpu k <;> simp [here, Cpu.atHead, Cpu.live] at head ⊢
          · -- every CPU has left its loop, and no process can have arrived
            simp only [not_exists, not_not] at running
            refine .inl ?_
            rcases attended.served with empty | ⟨k, live⟩ | ⟨proc, now⟩
            · exact empty
            · rw [running k] at live
              cases live
            · have k := Classical.arbitrary κ
              have going := not_done_of_arrival attached run now
              rw [attended.stopped k (running k)] at going
              cases going
        · rw [os]
          exact attended.stopped k (os ▸ gone)
      · refine attended.frame (by rw [os]) (by rw [os]) (fun done => by rw [os, done]) ?_
        rcases taken.timer with ⟨seen, same, moved⟩ | ⟨-, same⟩
        · refine moved.time_eq.trans (if_neg ?_)
          rintro rfl
          exact tick (by simpa using same)
        · rw [same]
  | cpu free steps arrivals =>
      obtain ⟨moved, apart⟩ := Os.cpuStep_moves steps
      exact attended.cpuStep moved apart arrivals

/-- Nobody is left unattended in any reachable state. -/
theorem reached_attended [Nonempty κ] (attached : Attached devList)
    (run : Run (Step pcb timeSlot devList) (start devList processes memory) history s) :
    Attended history s :=
  run.reached_invariant Attended (fun _ _ _ _ reached attended taken =>
    attended.step attached reached taken)
    ⟨.inl (start_queued devList processes memory), fun k gone => by
      simp [start, Os.start] at gone⟩

/-- When every CPU has left its loop nothing is queued or held. -/
theorem nothing_left [Nonempty κ] (attached : Attached devList)
    (run : Run (Step pcb timeSlot devList) (start devList processes memory) history s)
    (stopped : ∀ k, s.os.cpu k = .stopped) (proc : α) : ¬ s.Present proc := by
  have attended := reached_attended attached run
  have done := attended.stopped _ (stopped (Classical.arbitrary κ))
  rintro (queued | ⟨k, holds⟩)
  · rcases attended.served with empty | ⟨k, live⟩ | ⟨other, now⟩
    · rw [empty] at queued
      cases queued
    · rw [stopped k] at live
      cases live
    · rw [not_done_of_arrival attached run now] at done
      cases done
  · rw [stopped k] at holds
    cases holds

/-- When the loader is done every process has arrived. -/
theorem all_arrived (attached : Attached devList)
    (run : Run (Step pcb timeSlot devList) (start devList processes memory) history s)
    (done : s.os.done = true) : arrived history = PagedOs.arrivals 0 processes := by
  have arriving := reached_arriving attached run
  have schedule := arriving.schedule
  rw [(reached_joined run).done] at done
  rcases arriving.finished done with place | place
  · rwa [place, Loader.remaining, List.append_nil] at schedule
  · rwa [place, Loader.remaining, List.append_nil] at schedule

omit [DecidableEq α] in
/-- Every process of the configuration has a slot in the schedule. -/
theorem mem_arrivals_of_mem (now : Nat) {process : α × Nat} (member : process ∈ processes) :
    ∃ slot, (process.1, slot) ∈ PagedOs.arrivals now processes := by
  have inside : process.1 ∈ (PagedOs.arrivals now processes).map Prod.fst := by
    rw [arrivals_map]
    exact List.mem_map_of_mem member
  obtain ⟨arrival, found, same⟩ := List.mem_map.mp inside
  exact ⟨arrival.2, same ▸ found⟩

/-- What was executed of each process is the beginning of its code, up to its program counter. -/
theorem reached_inOrder
    (run : Run (Step pcb timeSlot devList) (start devList processes memory) history s) :
    Os.InOrder pcb (history.filterMap KernelStep.osEvent) s.os :=
  (run_os run (start_joined devList processes memory)).history_invariant (Os.InOrder pcb)
    (fun _ _ _ _ inOrder taken => inOrder.step taken) fun _ => ⟨rfl, Nat.zero_le _⟩

/-- The code of a process that is complete was executed to its end, and in order. -/
theorem executed_of_complete
    (run : Run (Step pcb timeSlot devList) (start devList processes memory) history s) {proc : α}
    (complete : Complete proc history) :
    Os.executed proc (history.filterMap KernelStep.osEvent) = (pcb proc).text := by
  revert complete
  refine run.reached_invariant (fun history _ => Complete proc history →
      Os.executed proc (history.filterMap KernelStep.osEvent) = (pcb proc).text)
    (fun past before label after reached held taken complete => ?_)
    fun ⟨_, _, _, member⟩ => absurd member List.not_mem_nil
  obtain ⟨now, bound⟩ := reached_inOrder reached proc
  obtain ⟨later, -⟩ := reached_inOrder (reached.append (.single taken)) proc
  -- what was executed stays executed, and nothing comes after the whole code
  have extended : Os.executed proc (past.filterMap KernelStep.osEvent) <+:
      Os.executed proc ((past ++ [label]).filterMap KernelStep.osEvent) := by
    rw [List.filterMap_append, Os.executed, Os.executed, List.filterMap_append]
    exact List.prefix_append _ _
  have whole (all : Os.executed proc (past.filterMap KernelStep.osEvent) = (pcb proc).text) :
      Os.executed proc ((past ++ [label]).filterMap KernelStep.osEvent) = (pcb proc).text := by
    have length := extended.length_le
    rw [all] at extended length
    exact (extended.eq_of_length_le (by rw [later]; exact List.length_take_le' _ _)).symm
  obtain ⟨k, j, slot, member⟩ := complete
  rcases List.mem_append.mp member with earlier | last
  · exact whole (held ⟨k, j, slot, earlier⟩)
  · obtain rfl := List.mem_singleton.mp last
    refine whole ?_
    cases taken.move with
    | cpu free steps =>
        cases (Os.cpuStep_moves steps).1 with
        | complete here ended => rw [now, ended, List.take_length]

/-- **The CPUs leave their loops behind the last process.** When all of them have left, every
process was added and is complete, and its code was executed to its end, in order. -/
theorem complete_when_stopped [Nonempty κ] (attached : Attached devList)
    (distinct : (processes.map Prod.fst).Nodup)
    (fits : Fitting (prioOf pcb) (processes.map Prod.fst))
    (run : Run (Step pcb timeSlot devList) (start devList processes memory) history s)
    (stopped : ∀ k, s.os.cpu k = .stopped) :
    ∀ process ∈ processes, process.1 ∈ (arrived history).map Prod.fst ∧
      Complete process.1 history ∧
        Os.executed process.1 (history.filterMap KernelStep.osEvent) = (pcb process.1).text := by
  intro process member
  have done := (reached_attended attached run).stopped _ (stopped (Classical.arbitrary κ))
  obtain ⟨slot, arrives⟩ := mem_arrivals_of_mem 0 member
  rw [← all_arrived attached run done] at arrives
  have complete : Complete process.1 history := by
    by_contra notYet
    exact nothing_left attached run stopped process.1
      (present_of_arrived distinct fits run arrives notYet)
  exact ⟨List.mem_map.mpr ⟨_, arrives, rfl⟩, complete, executed_of_complete run complete⟩

end Reached

/-- Ten cells are enough for two processes, whatever their priorities. -/
theorem sharing_fitting (size offset : BitVec 32) :
    Fitting (prioOf (sharing size offset)) [proc0, proc1] where
  inRange
    | 0, _ => (by decide : 0 < maxPrio)
    | 1, _ => (by decide : 1 < maxPrio)
  cells := fun _ => List.countP_le_length.trans (by decide)

/-- Both processes are complete when both CPUs have left. -/
theorem complete_when_stopped_whole :
    [proc0, proc1] = (arrived whole.1).map Prod.fst ∧ Complete proc0 whole.1 ∧
      Complete proc1 whole.1 ∧
      Os.executed proc0 (whole.1.filterMap KernelStep.osEvent) =
        [⟨.allocOp, 600, 0, 0⟩, ⟨.writeOp, 7, 0, 520⟩, ⟨.readOp, 0, 520, 20⟩] := by
  have stopped (k : Fin 2) : whole.2.os.cpu k = .stopped := by
    have left : ∀ k, (whole.2.os.cpu k).left = true := by decide +kernel
    have here := left k
    cases place : whole.2.os.cpu k <;> simp [place, Cpu.left] at here ⊢
  have all := complete_when_stopped (attachAll_attached 2) (by decide) (sharing_fitting 600 520)
    run_whole stopped
  have first := all (proc0, 0) List.mem_cons_self
  have second := all (proc1, 1) (List.mem_cons_of_mem _ List.mem_cons_self)
  exact ⟨by decide +kernel, first.2.1, second.2.1, first.2.2⟩

end Kernel

end PagedOs
