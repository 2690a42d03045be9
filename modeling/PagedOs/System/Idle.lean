import Mathlib.Algebra.BigOperators.Group.Finset.Basic
import PagedOs.System.Slots

/-! # No slot is wasted

A CPU that runs nothing in a slot has found the queues empty in it. What comes into the queues
afterwards is taken off again in the same slot, by the CPU that puts it back or by another one that
is about to fetch, but for a process that arrives in the slot.
-/

namespace PagedOs

open Transition

variable {α κ : Type*} [DecidableEq α] [DecidableEq κ]

/-- A CPU has given its process up and fetches another one. -/
def Cpu.fetching : Cpu α → Nat
  | .fetch _ => 1
  | _ => 0

namespace Kernel

/-- The number of CPUs that are about to fetch another process. -/
def fetching [Fintype κ] (s : Kernel α κ) : Nat := ∑ k, (s.os.cpu k).fetching

/-- The processes that have arrived in the current slot. -/
def arrivedNow (history : List (KernelStep α κ)) (s : Kernel α κ) : Nat :=
  (arrived history).countP fun arrival => arrival.2 = s.arrivals.timer.time

section Reached

variable [Fintype κ] {pcb : α → Pcb} {timeSlot : Int} {devList : List (Option κ)}
  {processes : List (α × Nat)} {memory : Sys α} {history : List (KernelStep α κ)}
  {s t : Kernel α κ} {label : KernelStep α κ}

omit [DecidableEq α] in
/-- When one CPU moves the others fetch as before. -/
theorem fetching_apart {k : κ} (apart : Os.Apart s.os t.os k) :
    t.fetching + (s.os.cpu k).fetching = s.fetching + (t.os.cpu k).fetching := by
  have others : ∑ j ∈ Finset.univ.erase k, (t.os.cpu j).fetching =
      ∑ j ∈ Finset.univ.erase k, (s.os.cpu j).fetching :=
    Finset.sum_congr rfl fun j hit => by rw [apart.cpu j (Finset.ne_of_mem_erase hit)]
  rw [fetching, fetching, ← Finset.add_sum_erase _ _ (Finset.mem_univ k), others,
    ← Finset.add_sum_erase _ (fun j => (s.os.cpu j).fetching) (Finset.mem_univ k)]
  omega

omit [DecidableEq α] [DecidableEq κ] in
/-- The CPUs fetch as before when none of them moves. -/
theorem fetching_congr (same : t.os.cpu = s.os.cpu) : t.fetching = s.fetching := by
  rw [fetching, fetching, same]

omit [DecidableEq α] [DecidableEq κ] [Fintype κ] in
/-- The queues have room for the process, or it is dropped. -/
theorem length_enqueued_le (pcb : α → Pcb) (sched : Mlq α) (proc : α) :
    (sched.addProc (prioOf pcb) proc).queued.length ≤ sched.queued.length + 1 := by
  rcases sched.queued_enqueue (prioOf pcb) proc with ⟨-, stored⟩ | ⟨-, dropped⟩
  · exact stored.length_eq.le
  · exact dropped ▸ Nat.le_succ _

omit [DecidableEq α] in
/-- What is queued beyond a number is about to be fetched, if it was before. -/
theorem queued_le_of_cpuMove {k : κ} {event : OsEvent α κ} {number : Nat}
    (moved : Os.CpuMove pcb s.os t.os k event) (apart : Os.Apart s.os t.os k)
    (bound : s.os.sched.queued.length ≤ s.fetching + number) :
    t.os.sched.queued.length ≤ t.fetching + number := by
  have changed := fetching_apart apart
  cases moved with
  | empty fetches nothing still => simp [still]
  | got fetches taken after =>
      have length := taken.length_eq
      have before : (s.os.cpu k).fetching ≤ 1 := by
        rcases fetches with here | here <;> simp [here, Cpu.fetching]
      have now : (t.os.cpu k).fetching = 0 := by rw [after]; rfl
      rw [List.length_cons] at length
      omega
  | complete here ended after sched =>
      simp only [here, after, Cpu.fetching] at changed
      rw [sched]
      omega
  | @put proc here unfinished after sched =>
      have length := length_enqueued_le pcb s.os.sched proc
      simp only [here, after, Cpu.fetching] at changed
      rw [sched]
      exact length.trans (by omega)
  | run here after sched =>
      have before : (s.os.cpu k).fetching = 0 := by
        rcases here with ⟨here, -⟩ | here <;> rw [here] <;> rfl
      have now : (t.os.cpu k).fetching = 0 := by rw [after]; rfl
      rw [sched]
      omega
  | skip here going after sched =>
      simp only [here, after, Cpu.fetching] at changed
      rw [sched]
      omega
  | stop here done after sched =>
      simp only [here, after, Cpu.fetching] at changed
      rw [sched]
      omega

/-- A CPU has done its slot's work, or found nothing to do. -/
def Through (s : Kernel α κ) (k : κ) : Prop :=
  s.Busy k ∨ ∃ timeLeft, s.os.cpu k = .recheck none timeLeft

/-- A CPU that is through with the current slot has run a process in it, or the queues hold no more
than the CPUs fetch and what has arrived. -/
def Used (history : List (KernelStep α κ)) (s : Kernel α κ) : Prop :=
  ∀ k, s.Through k → clock k history = s.arrivals.timer.time →
    s.arrivals.timer.time ∈ slotsOn k history ∨
      s.os.sched.queued.length ≤ s.fetching + arrivedNow history s

omit [DecidableEq α] [Fintype κ] in
/-- A slot in which a CPU has run stays one in the longer history. -/
theorem slotsOn_mem_snoc {k : κ} {slot : Nat} (member : slot ∈ slotsOn k history)
    (label : KernelStep α κ) : slot ∈ slotsOn k (history ++ [label]) := by
  rw [slotsOn, ranIn_snoc, List.filter_append, List.map_append]
  exact List.mem_append_left _ member

omit [Fintype κ] in
/-- The loader brings a process into the queues in the slot in which it arrives. -/
theorem Move.queued (joined : s.Joined) {step : ArrivalStep (Option κ) α}
    (moved : Move pcb timeSlot devList s t (.arrival step)) :
    t.os.sched.queued.length ≤
        s.os.sched.queued.length + (arrived ([.arrival step] : List (KernelStep α κ))).length ∧
      ∀ arrival ∈ arrived ([.arrival step] : List (KernelStep α κ)),
        arrival.2 = s.arrivals.timer.time := by
  cases moved with
  | @add proc slot event arrives loads due =>
      obtain ⟨now, -⟩ := arrives.effect
      obtain ⟨-, sched, -⟩ := joined.adds arrives loads
      refine ⟨sched ▸ length_enqueued_le pcb s.os.sched proc, fun arrival member => ?_⟩
      obtain rfl := List.mem_singleton.mp member
      exact now.symm
  | finish arrives loads due =>
      obtain ⟨-, sched, -⟩ := joined.finishes arrives loads
      exact ⟨by rw [sched]; exact Nat.le_add_right _ _,
        fun _ member => absurd member List.not_mem_nil⟩
  | call arrives ready os =>
      exact ⟨by rw [os]; exact Nat.le_add_right _ _, fun _ member => absurd member List.not_mem_nil⟩
  | detach arrives stopped os =>
      exact ⟨by rw [os]; exact Nat.le_add_right _ _, fun _ member => absurd member List.not_mem_nil⟩
  | silent arrives noAdd noFinish noCall noDetach os =>
      refine ⟨by rw [os]; exact Nat.le_add_right _ _, fun _ member => ?_⟩
      cases step with
      | add proc slot => exact absurd rfl (noAdd proc slot)
      | _ => exact absurd member List.not_mem_nil

omit [DecidableEq α] [DecidableEq κ] [Fintype κ] in
/-- What arrives counts for the slot, and nothing else does. -/
theorem arrivedNow_snoc (same : t.arrivals.timer.time = s.arrivals.timer.time)
    (now : ∀ arrival ∈ arrived [label], arrival.2 = s.arrivals.timer.time) :
    arrivedNow (history ++ [label]) t = arrivedNow history s + (arrived [label]).length := by
  have all : (arrived [label]).countP (fun arrival => arrival.2 = s.arrivals.timer.time) =
      (arrived [label]).length :=
    List.countP_eq_length.mpr fun arrival member => by simpa using now arrival member
  rw [arrivedNow, arrived_snoc, List.countP_append, same, all]
  rfl

/-- A step of the timer or of the loader wastes no slot: an arrival is counted, and the clock
advances only when every CPU is through. -/
theorem Used.arrival (attached : Attached devList)
    (run : Run (Step pcb timeSlot devList) (start devList processes memory) history s)
    (used : Used history s) {step : ArrivalStep (Option κ) α}
    (taken : Step pcb timeSlot devList s (.arrival step) t) :
    Used (history ++ [.arrival step]) t := by
  have joined := reached_joined run
  intro k through now
  obtain ⟨cpu, busy⟩ := taken.move.busy joined
  have before : s.Through k ∧ step ≠ .timer (.returned (some k)) := by
    rcases through with later | ⟨timeLeft, here⟩
    · exact ⟨.inl ((busy k).mp later).1, ((busy k).mp later).2⟩
    · refine ⟨.inr ⟨timeLeft, cpu ▸ here⟩, ?_⟩
      rintro rfl
      -- the CPU would have been in `next_slot`
      rcases taken.timer with ⟨step, same, moved⟩ | ⟨noStep, -⟩
      · obtain rfl : step = .returned (some k) := by simpa using same.symm
        have head := joined.head k (.inr moved.effect.1)
        rw [← cpu, here] at head
        cases head
      · exact absurd rfl (noStep _)
  rw [clock_other _ (by simpa using before.2)] at now
  have time : t.arrivals.timer.time = s.arrivals.timer.time := by
    have bound := clock_le attached run k
    rcases taken.timer with ⟨step, -, moved⟩ | ⟨-, same⟩
    · have advanced := moved.time_eq
      split at advanced
      · omega
      · exact advanced
    · rw [same]
  obtain ⟨length, arrivals⟩ := taken.move.queued joined
  rw [time] at now ⊢
  rw [arrivedNow_snoc time arrivals, fetching_congr cpu]
  refine (used k before.1 now).imp (fun ran => slotsOn_mem_snoc ran _) fun bound => ?_
  omega

/-- A step of a CPU wastes no slot. It finds no process only when nobody is queued. -/
theorem Used.cpuStep (used : Used history s) {k' : κ} {event : OsEvent α κ} {slot : Nat}
    (taken : Step pcb timeSlot devList s (.cpu k' event slot) t) :
    Used (history ++ [.cpu k' event slot]) t := by
  intro k through now
  rw [clock_other _ (by simp)] at now
  cases taken.move with
  | @cpu k' event u data free steps arrivals due =>
      obtain ⟨moved, apart⟩ := Os.cpuStep_moves steps
      have time : t.arrivals.timer.time = s.arrivals.timer.time := by rw [arrivals]
      rw [time] at now ⊢
      have counted : arrivedNow (history ++ [.cpu k' event s.arrivals.timer.currentTime]) t =
          arrivedNow history s :=
        arrivedNow_snoc time fun _ member => absurd member List.not_mem_nil
      rw [counted]
      by_cases same : k = k'
      · subst same
        -- where the CPU is through with its slot, it is at the head of the loop or next to it
        have ended : (t.os.cpu k).atHead = true ∨
            ∃ timeLeft, t.os.cpu k = .recheck none timeLeft := by
          refine through.imp_left fun busy => ?_
          rw [Busy, arrivals, due, Function.update_self, free.1] at busy
          simpa using busy
        cases moved with
        | empty fetches nothing still => exact .inr (by simp [still])
        | got fetches taken after => simp [after, Cpu.atHead] at ended
        | complete here _ after => simp [after, Cpu.atHead] at ended
        | put here _ after => simp [after, Cpu.atHead] at ended
        | @run _ _ proc =>
            refine .inl ?_
            rw [slotsOn, ranIn_snoc, ranIn_run, List.filter_append, List.map_append]
            exact List.mem_append_right _ (by simp [TimerState.currentTime])
        | skip here going after sched pc =>
            refine (used k (.inr ⟨_, here⟩) now).imp (fun ran => slotsOn_mem_snoc ran _)
              fun bound => ?_
            have moved : Os.CpuMove pcb s.os t.os k (.skip k) :=
              .skip here going after sched pc
            exact queued_le_of_cpuMove moved apart bound
        | stop here _ after => simp [after, Cpu.atHead] at ended
      · have before : s.Through k := by
          unfold Through Busy at through ⊢
          rwa [arrivals, due, Function.update_of_ne same, apart.cpu k same] at through
        exact (used k before now).imp (fun ran => slotsOn_mem_snoc ran _) fun bound =>
          queued_le_of_cpuMove moved apart bound

/-- A step of any thread wastes no slot. -/
theorem Used.step (attached : Attached devList)
    (run : Run (Step pcb timeSlot devList) (start devList processes memory) history s)
    (used : Used history s) (taken : Step pcb timeSlot devList s label t) :
    Used (history ++ [label]) t := by
  cases label with
  | arrival step => exact used.arrival attached run taken
  | cpu k event slot => exact used.cpuStep taken

/-- No slot is wasted in any reachable state. -/
theorem reached_used (attached : Attached devList)
    (run : Run (Step pcb timeSlot devList) (start devList processes memory) history s) :
    Used history s := by
  refine run.reached_invariant Used (fun _ _ _ _ reached used taken =>
    used.step attached reached taken) fun k through now => .inr ?_
  rw [start_queued]
  exact Nat.zero_le _

omit [Fintype κ] in
/-- When the clock advances every device that is attached has finished the slot. -/
theorem tick_device (attached : Attached devList)
    (run : Run (Step pcb timeSlot devList) (start devList processes memory) history s)
    (tick : Step pcb timeSlot devList s (.arrival (.timer .tick)) t) {device : Option κ}
    (going : s.arrivals.timer.fsh device = false) :
    s.arrivals.timer.inside device = true ∧
      slotsOf device (history.filterMap KernelStep.arrivalStep) = s.arrivals.timer.time := by
  have synchronised := (reached_arriving attached run).barrier.devices device (attached.all _)
  have scanned : ∃ fsh event, s.arrivals.timer.routine = .scan [] fsh event := by
    rcases tick.timer with ⟨step, same, moved⟩ | ⟨noStep, -⟩
    · obtain rfl : step = .tick := by simpa using same.symm
      obtain ⟨fsh, event, scanned, -⟩ := moved.effect
      exact ⟨fsh, event, scanned⟩
    · exact absurd rfl (noStep _)
  obtain ⟨fsh, event, scanned⟩ := scanned
  have everyone : s.arrivals.timer.counted device := by simp [TimerState.counted, scanned]
  have inside : s.arrivals.timer.inside device = true := by
    by_contra outside
    exact (synchronised.outside going (by simpa using outside)).2.2 everyone
  have done : s.arrivals.timer.done device = true := by
    by_contra cleared
    exact (synchronised.released inside (by simpa using cleared)).2 everyone
  have level := synchronised.waiting inside done
  simp only [TimerState.lag, scanned, Nat.add_zero] at level
  exact ⟨inside, level⟩

omit [Fintype κ] in
/-- A CPU that has not left its loop is at the head of it then. -/
theorem tick_through (attached : Attached devList)
    (run : Run (Step pcb timeSlot devList) (start devList processes memory) history s)
    (tick : Step pcb timeSlot devList s (.arrival (.timer .tick)) t) {k : κ}
    (running : s.os.cpu k ≠ .stopped) :
    s.arrivals.timer.inside (some k) = true ∧ (s.os.cpu k).atHead = true ∧
      clock k history = s.arrivals.timer.time := by
  have joined := reached_joined run
  obtain ⟨inside, now⟩ := tick_device attached run tick (joined.attached running)
  exact ⟨inside, joined.head k (.inr inside), now⟩

/-- **No slot is wasted.** When the clock advances each CPU that has not left its loop has called
`run` in the slot, unless no more processes are in the queues than have arrived in this slot, which
is one at most. -/
theorem no_idle_slot (attached : Attached devList)
    (run : Run (Step pcb timeSlot devList) (start devList processes memory) history s)
    (tick : Step pcb timeSlot devList s (.arrival (.timer .tick)) t) {k : κ}
    (running : s.os.cpu k ≠ .stopped) :
    s.arrivals.timer.time ∈ slotsOn k history ∨
      (s.os.sched.queued.length ≤ arrivedNow history s ∧ arrivedNow history s ≤ 1) := by
  obtain ⟨inside, -, now⟩ := tick_through attached run tick running
  have idle : s.fetching = 0 := by
    refine Finset.sum_eq_zero fun j _ => ?_
    by_cases gone : s.os.cpu j = .stopped
    · rw [gone]
      rfl
    · have head := (tick_through attached run tick gone).2.1
      cases here : s.os.cpu j <;> simp [here, Cpu.atHead, Cpu.fetching] at head ⊢
  refine (reached_used attached run k (.inl (.inr inside)) now).imp_right fun bound => ?_
  refine ⟨by omega, ?_⟩
  have slots : ((arrived history).map Prod.snd).Nodup :=
    (List.pairwise_map.mpr (((arrivals_pairwise 0 processes).sublist
      (arrived_scheduled attached run).sublist).imp fun less => Nat.ne_of_lt less))
  have once := List.nodup_iff_count_le_one.mp slots s.arrivals.timer.time
  rw [List.count, List.countP_map] at once
  exact (List.countP_congr fun arrival _ => by simp).le.trans once

end Reached

/-- The process that arrives in the first slot comes too late for both CPUs. -/
theorem no_idle_slot_late :
    late.2.arrivals.timer.time ∈ slotsOn cpu0 late.1 ∨
      (late.2.os.sched.queued.length ≤ arrivedNow late.1 late.2 ∧
        arrivedNow late.1 late.2 ≤ 1) := by
  obtain ⟨t, tick⟩ : ∃ t, Step (sharing 600 520) 1 (attachAll 2) late.2
      (.arrival (.timer .tick)) t := step_of_isSome (by decide +kernel)
  have running : late.2.os.cpu cpu0 ≠ .stopped := fun gone => by
    have head : (late.2.os.cpu cpu0).atHead = true := by decide +kernel
    rw [gone] at head
    cases head
  exact no_idle_slot (attachAll_attached 2) run_late tick running

end Kernel

end PagedOs
