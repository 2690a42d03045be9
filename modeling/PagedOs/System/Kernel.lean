import Mathlib.Data.List.FinRange
import PagedOs.Process.Routine
import PagedOs.Loader.Arrivals

/-! # The whole machine

The threads that `main` of `os.c` starts: the loader and the CPUs run the ready queues and the
processes between two calls of `next_slot`, and each of them is a device of the timer. A CPU calls
`next_slot` where its loop begins again, unless it gave its process up and fetches another one, and
it detaches once it has left the loop.

The machine is a product: forgetting the timer leaves a run of the CPUs and the loader, and
forgetting the CPUs leaves a run of the timer with the loader.
-/

namespace PagedOs

open Transition

variable {α κ : Type*}

/-- The threads with the timer. `due` tells whether a CPU has yet to call `next_slot`. The device
`none` is the one of the loader. -/
structure Kernel (α κ : Type*) where
  os : Os α κ
  arrivals : Arrivals (Option κ) α
  due : κ → Bool

/-- A step of the timer or of the loader, or a step of a CPU with the slot in which it happens. -/
inductive KernelStep (α κ : Type*) where
  | arrival (step : ArrivalStep (Option κ) α)
  | cpu (cpu : κ) (event : OsEvent α κ) (slot : Nat)
deriving DecidableEq

/-- What happens next, with what the C code leaves open in a step of a CPU. -/
inductive KernelTurn (α κ : Type*) where
  | arrival (step : ArrivalStep (Option κ) α)
  | cpu (cpu : κ) (u : Uninit) (data : Byte)

/-- The head of the loop of `cpu_routine`. -/
def Cpu.atHead : Cpu α → Bool
  | .check _ _ => true
  | _ => false

/-- The CPU is outside of its loop, and detaches from the timer. -/
def Cpu.left : Cpu α → Bool
  | .stopped => true
  | _ => false

namespace Kernel

/-- The devices in the order of `dev_list` after `main` has attached them. -/
def attachAll (numCpus : Nat) : List (Option (Fin numCpus)) :=
  none :: (List.finRange numCpus).reverse.map some

/-- The machine that `main` starts, every device attached. -/
def start (devList : List (Option κ)) (processes : List (α × Nat)) (memory : Sys α) :
    Kernel α κ where
  os := .start (processes.map Prod.fst) memory
  arrivals := .start devList processes
  due := fun _ => false

variable [DecidableEq α] [DecidableEq κ]

/-- What the CPUs and the ready queues see of a step of the timer or of the loader. -/
def synchronise (pcb : α → Pcb) (s : Kernel α κ) :
    ArrivalStep (Option κ) α → Option (Os α κ × (κ → Bool))
  | .add _ _ => (s.os.loaderStep pcb).map fun (_, os) => (os, s.due)
  | .finish => (s.os.loaderStep pcb).map fun (_, os) => (os, s.due)
  | .timer (.setDone (some k)) =>
      if s.due k then some (s.os, Function.update s.due k false) else none
  | .timer (.detach (some k)) => if (s.os.cpu k).left then some (s.os, s.due) else none
  | _ => some (s.os, s.due)

/-- A CPU moves when it is neither in `next_slot` nor about to call it. -/
def free (s : Kernel α κ) (k : κ) : Prop :=
  s.arrivals.timer.inside (some k) = false ∧ s.due k = false

/-- The flag of the device and the one of the CPU decide whether it moves. -/
instance (s : Kernel α κ) (k : κ) : Decidable (s.free k) := inferInstanceAs (Decidable (_ ∧ _))

/-- The state after a turn, with what happened. -/
def advance (pcb : α → Pcb) (timeSlot : Int) (devList : List (Option κ)) (s : Kernel α κ) :
    KernelTurn α κ → Option (KernelStep α κ × Kernel α κ)
  | .arrival step =>
      match s.arrivals.advance devList none step, s.synchronise pcb step with
      | some arrivals, some (os, due) => some (.arrival step, ⟨os, arrivals, due⟩)
      | _, _ => none
  | .cpu k u data =>
      if s.free k then
        (s.os.cpuStep pcb timeSlot k u data).map fun (event, os) =>
          (.cpu k event s.arrivals.timer.currentTime,
            ⟨os, s.arrivals, Function.update s.due k (os.cpu k).atHead⟩)
      else none

/-- The steps of the threads, in any order. -/
def Step (pcb : α → Pcb) (timeSlot : Int) (devList : List (Option κ)) (s : Kernel α κ)
    (label : KernelStep α κ) (t : Kernel α κ) : Prop :=
  ∃ turn, s.advance pcb timeSlot devList turn = some (label, t)

end Kernel

/-- What the CPUs and the ready queues see of a step. -/
def KernelStep.osEvent : KernelStep α κ → Option (OsEvent α κ)
  | .arrival (.add proc _) => some (.add proc)
  | .arrival .finish => some .finish
  | .arrival _ => none
  | .cpu _ event _ => some event

/-- What the timer and the loader see. -/
def KernelStep.arrivalStep : KernelStep α κ → Option (ArrivalStep (Option κ) α)
  | .arrival step => some step
  | .cpu _ _ _ => none

namespace Kernel

variable [DecidableEq α] [DecidableEq κ] {pcb : α → Pcb} {timeSlot : Int}
  {devList : List (Option κ)} {s t : Kernel α κ} {label : KernelStep α κ}

/-- What a step does, given as the moves of its parts. -/
inductive Move (pcb : α → Pcb) (timeSlot : Int) (devList : List (Option κ)) (s t : Kernel α κ) :
    KernelStep α κ → Prop where
  | add {proc : α} {slot : Nat} {event : OsEvent α κ}
      (arrives : Arrivals.Step devList none s.arrivals (.add proc slot) t.arrivals)
      (loads : s.os.loaderStep pcb = some (event, t.os)) (due : t.due = s.due) :
      Move pcb timeSlot devList s t (.arrival (.add proc slot))
  | finish {event : OsEvent α κ}
      (arrives : Arrivals.Step devList none s.arrivals .finish t.arrivals)
      (loads : s.os.loaderStep pcb = some (event, t.os)) (due : t.due = s.due) :
      Move pcb timeSlot devList s t (.arrival .finish)
  | call {k : κ}
      (arrives : Arrivals.Step devList none s.arrivals (.timer (.setDone (some k))) t.arrivals)
      (ready : s.due k = true) (os : t.os = s.os) (due : t.due = Function.update s.due k false) :
      Move pcb timeSlot devList s t (.arrival (.timer (.setDone (some k))))
  | detach {k : κ}
      (arrives : Arrivals.Step devList none s.arrivals (.timer (.detach (some k))) t.arrivals)
      (stopped : s.os.cpu k = .stopped) (os : t.os = s.os) (due : t.due = s.due) :
      Move pcb timeSlot devList s t (.arrival (.timer (.detach (some k))))
  | silent {step : ArrivalStep (Option κ) α}
      (arrives : Arrivals.Step devList none s.arrivals step t.arrivals)
      (noAdd : ∀ proc slot, step ≠ .add proc slot) (noFinish : step ≠ .finish)
      (noCall : ∀ k, step ≠ .timer (.setDone (some k)))
      (noDetach : ∀ k, step ≠ .timer (.detach (some k))) (os : t.os = s.os) (due : t.due = s.due) :
      Move pcb timeSlot devList s t (.arrival step)
  | cpu {k : κ} {event : OsEvent α κ} {u : Uninit} {data : Byte} (free : s.free k)
      (steps : s.os.cpuStep pcb timeSlot k u data = some (event, t.os))
      (arrivals : t.arrivals = s.arrivals)
      (due : t.due = Function.update s.due k (t.os.cpu k).atHead) :
      Move pcb timeSlot devList s t (.cpu k event s.arrivals.timer.currentTime)

/-- What a step of the timer or of the loader does to the parts of the machine, one case for each
kind of step that they take together. -/
theorem synchronise_moves {step : ArrivalStep (Option κ) α} {os : Os α κ} {due : κ → Bool}
    {arrivals : Arrivals (Option κ) α}
    (arrives : Arrivals.Step devList none s.arrivals step arrivals)
    (synchronised : s.synchronise pcb step = some (os, due)) :
    Move pcb timeSlot devList s ⟨os, arrivals, due⟩ (.arrival step) := by
  unfold synchronise at synchronised
  split at synchronised
  case h_1 proc slot =>
    obtain ⟨⟨event, os⟩, loads, same⟩ := Option.map_eq_some_iff.mp synchronised
    obtain ⟨rfl, rfl⟩ := Prod.mk.inj same
    exact .add arrives loads rfl
  case h_2 =>
    obtain ⟨⟨event, os⟩, loads, same⟩ := Option.map_eq_some_iff.mp synchronised
    obtain ⟨rfl, rfl⟩ := Prod.mk.inj same
    exact .finish arrives loads rfl
  case h_3 k =>
    split at synchronised
    case isTrue ready =>
      obtain ⟨rfl, rfl⟩ := Prod.mk.inj (Option.some.inj synchronised)
      exact .call arrives ready rfl rfl
    case isFalse => cases synchronised
  case h_4 k =>
    split at synchronised
    case isTrue left =>
      obtain ⟨rfl, rfl⟩ := Prod.mk.inj (Option.some.inj synchronised)
      have stopped : s.os.cpu k = .stopped := by
        cases here : s.os.cpu k <;> simp [here, Cpu.left] at left ⊢
      exact .detach arrives stopped rfl rfl
    case isFalse => cases synchronised
  case h_5 noAdd noFinish noCall noDetach =>
    obtain ⟨rfl, rfl⟩ := Prod.mk.inj (Option.some.inj synchronised)
    exact .silent arrives noAdd noFinish noCall noDetach rfl rfl

/-- What a turn does, read off the definition once for all. -/
theorem Step.move (taken : Step pcb timeSlot devList s label t) :
    Move pcb timeSlot devList s t label := by
  obtain ⟨turn, taken⟩ := taken
  unfold advance at taken
  split at taken
  case h_1 step =>
    split at taken
    case h_1 arrivals os due arrives synchronised =>
      obtain ⟨rfl, rfl⟩ := Prod.mk.inj (Option.some.inj taken)
      exact synchronise_moves arrives synchronised
    case h_2 => cases taken
  case h_2 k u data =>
    split at taken
    case isTrue free =>
      obtain ⟨⟨event, os⟩, steps, same⟩ := Option.map_eq_some_iff.mp taken
      obtain ⟨rfl, rfl⟩ := Prod.mk.inj same
      exact .cpu free steps rfl rfl
    case isFalse => cases taken

end Kernel

/-! ## What a step of a CPU does -/

namespace Os

/-- A CPU is about to call `get_proc`. -/
def Fetches (s : Os α κ) (k : κ) (timeLeft : Int) : Prop :=
  s.cpu k = .check none timeLeft ∨ s.cpu k = .fetch timeLeft

/-- What a step of a CPU does to it, to its process and to the ready queues. -/
inductive CpuMove (pcb : α → Pcb) (s t : Os α κ) (k : κ) : OsEvent α κ → Prop where
  | empty {timeLeft : Int} (fetches : s.Fetches k timeLeft) (nothing : s.sched.queued = [])
      (still : t.sched.queued = [])
      (after : s.cpu k = .check none timeLeft ∧ t.cpu k = .check none timeLeft ∨
        t.cpu k = .recheck none timeLeft) (pc : t.pc = s.pc) : CpuMove pcb s t k (.get k)
  | got {timeLeft : Int} {proc : α} (fetches : s.Fetches k timeLeft)
      (taken : s.sched.queued.Perm (proc :: t.sched.queued))
      (after : t.cpu k = .recheck (some proc) timeLeft) (pc : t.pc = s.pc) :
      CpuMove pcb s t k (.get k)
  | complete {timeLeft : Int} {proc : α} (here : s.cpu k = .check (some proc) timeLeft)
      (ended : s.pc proc = (pcb proc).text.length) (after : t.cpu k = .fetch 0)
      (sched : t.sched = s.sched) (pc : t.pc = s.pc) : CpuMove pcb s t k (.complete k proc)
  | put {proc : α} (here : s.cpu k = .check (some proc) 0)
      (unfinished : s.pc proc ≠ (pcb proc).text.length) (after : t.cpu k = .fetch 0)
      (sched : t.sched = s.sched.putProc (prioOf pcb) proc) (pc : t.pc = s.pc) :
      CpuMove pcb s t k (.put k proc)
  | run {timeLeft timeAfter : Int} {proc : α} {executed : Option Inst} {stat : Int}
      (here : s.cpu k = .check (some proc) timeLeft ∧ s.pc proc ≠ (pcb proc).text.length ∨
        s.cpu k = .recheck (some proc) timeLeft)
      (after : t.cpu k = .check (some proc) timeAfter) (sched : t.sched = s.sched)
      (others : ∀ other, other ≠ proc → t.pc other = s.pc other)
      (counter : ((pcb proc).text[s.pc proc]? = none ∧ t.pc proc = s.pc proc) ∨
        ∃ ins, (pcb proc).text[s.pc proc]? = some ins ∧ t.pc proc = s.pc proc + 1) :
      CpuMove pcb s t k (.run k proc executed stat)
  | skip {timeLeft : Int} (here : s.cpu k = .recheck none timeLeft) (going : s.done = false)
      (after : t.cpu k = .check none timeLeft) (sched : t.sched = s.sched) (pc : t.pc = s.pc) :
      CpuMove pcb s t k (.skip k)
  | stop {timeLeft : Int} (here : s.cpu k = .recheck none timeLeft) (done : s.done = true)
      (after : t.cpu k = .stopped) (sched : t.sched = s.sched) (pc : t.pc = s.pc) :
      CpuMove pcb s t k (.stop k)

/-- What it leaves: the loader, its flag and the other CPUs. -/
structure Apart (s t : Os α κ) (k : κ) : Prop where
  pending : t.pending = s.pending
  done : t.done = s.done
  cpu : ∀ other, other ≠ k → t.cpu other = s.cpu other

variable [DecidableEq α] [DecidableEq κ] {pcb : α → Pcb} {timeSlot : Int} {s t : Os α κ} {k : κ}
  {event : OsEvent α κ} {u : Uninit} {data : Byte}

omit [DecidableEq α] [DecidableEq κ] in
/-- `get_proc` returns NULL when the queues are empty, and takes a process off them otherwise. -/
theorem getProc_queued (pcb : α → Pcb) (sched : Mlq α) :
    ((sched.getProc (prioOf pcb)).1 = none ∧ sched.queued = [] ∧
        (sched.getProc (prioOf pcb)).2.queued = []) ∨
      ∃ proc, (sched.getProc (prioOf pcb)).1 = some proc ∧
        sched.queued.Perm (proc :: (sched.getProc (prioOf pcb)).2.queued) := by
  rcases sched.queued_getProc (prioOf pcb) with ⟨nothing, same⟩ | found
  · have empty : sched.queued = [] := by
      apply List.flatMap_eq_nil_iff.mpr
      intro level member
      exact (Mlq.getMlqProc_eq_none _).mp nothing level (List.mem_range.mp member)
    exact .inl ⟨nothing, empty, same.trans empty⟩
  · exact .inr found

/-- A call of `run` moves the CPU back to the head of its loop, and one instruction of the process
is executed when it has one left. -/
theorem execute_moves {proc : α} {timeLeft : Int}
    (here : s.cpu k = .check (some proc) timeLeft ∧ s.pc proc ≠ (pcb proc).text.length ∨
      s.cpu k = .recheck (some proc) timeLeft)
    (ran : s.execute pcb timeSlot k u data proc timeLeft = some (event, t)) :
    CpuMove pcb s t k event ∧ Apart s t k := by
  unfold execute at ran
  obtain ⟨⟨stat, pc, c⟩, result, same⟩ := Option.map_eq_some_iff.mp ran
  obtain ⟨rfl, rfl⟩ := Prod.mk.inj same
  refine ⟨.run here (Function.update_self ..) rfl
    (fun other different => Function.update_of_ne different ..) ?_,
    ⟨rfl, rfl, fun other different => Function.update_of_ne different ..⟩⟩
  simp only [Function.update_self]
  exact Pcb.run_cases result

omit [DecidableEq α] in
/-- A CPU that moves on in its loop. -/
theorem setCpu_apart (s : Os α κ) (sched : Mlq α) (c : Cpu α) :
    Apart s ({ s with sched := sched }.setCpu k c) k :=
  ⟨rfl, rfl, fun _ different => Function.update_of_ne different ..⟩

/-- What a CPU does in its turn, one case for each place in the loop. -/
theorem cpuStep_moves (stepped : s.cpuStep pcb timeSlot k u data = some (event, t)) :
    CpuMove pcb s t k event ∧ Apart s t k := by
  unfold cpuStep at stepped
  split at stepped
  case h_1 timeLeft here =>
    rcases getProc_queued pcb s.sched with ⟨nothing, empty, still⟩ | ⟨proc, found, taken⟩
    · split at stepped
      case h_1 sched got =>
        obtain ⟨rfl, rfl⟩ := Prod.mk.inj (Option.some.inj stepped)
        rw [got] at still
        exact ⟨.empty (.inl here) empty still (.inl ⟨here, Function.update_self ..⟩) rfl,
          setCpu_apart ..⟩
      case h_2 got =>
        rw [got] at nothing
        cases nothing
    · split at stepped
      case h_1 got =>
        rw [got] at found
        cases found
      case h_2 other sched got =>
        obtain ⟨rfl, rfl⟩ := Prod.mk.inj (Option.some.inj stepped)
        rw [got] at found taken
        obtain rfl := Option.some.inj found
        exact ⟨.got (.inl here) taken (Function.update_self ..) rfl, setCpu_apart ..⟩
  case h_2 proc timeLeft here =>
    split at stepped
    case isTrue ended =>
      obtain ⟨rfl, rfl⟩ := Prod.mk.inj (Option.some.inj stepped)
      exact ⟨.complete here ended (Function.update_self ..) rfl rfl, setCpu_apart ..⟩
    case isFalse unfinished =>
      split at stepped
      case isTrue used =>
        subst used
        obtain ⟨rfl, rfl⟩ := Prod.mk.inj (Option.some.inj stepped)
        exact ⟨.put here unfinished (Function.update_self ..) rfl rfl, setCpu_apart ..⟩
      case isFalse => exact execute_moves (.inl ⟨here, unfinished⟩) stepped
  case h_3 timeLeft here =>
    obtain ⟨proc, sched, got⟩ : ∃ proc sched, s.sched.getProc (prioOf pcb) = (proc, sched) :=
      ⟨_, _, rfl⟩
    simp only [got] at stepped
    obtain ⟨rfl, rfl⟩ := Prod.mk.inj (Option.some.inj stepped)
    rcases getProc_queued pcb s.sched with ⟨nothing, empty, still⟩ | ⟨proc, found, taken⟩
    · rw [got] at nothing still
      obtain rfl := nothing
      exact ⟨.empty (.inr here) empty still (.inr (Function.update_self ..)) rfl,
        setCpu_apart ..⟩
    · rw [got] at found taken
      obtain rfl := found
      exact ⟨.got (.inr here) taken (Function.update_self ..) rfl, setCpu_apart ..⟩
  case h_4 timeLeft here =>
    split at stepped
    case isTrue done =>
      obtain ⟨rfl, rfl⟩ := Prod.mk.inj (Option.some.inj stepped)
      exact ⟨.stop here done (Function.update_self ..) rfl rfl, setCpu_apart ..⟩
    case isFalse going =>
      obtain ⟨rfl, rfl⟩ := Prod.mk.inj (Option.some.inj stepped)
      exact ⟨.skip here (Bool.not_eq_true _ ▸ going) (Function.update_self ..) rfl rfl,
        setCpu_apart ..⟩
  case h_5 proc timeLeft here => exact execute_moves (.inr here) stepped
  case h_6 => cases stepped

omit [DecidableEq α] [DecidableEq κ] in
/-- A CPU is never outside of the loop before its step. -/
theorem CpuMove.running (moved : CpuMove pcb s t k event) : s.cpu k ≠ .stopped := by
  cases moved with
  | empty fetches => rcases fetches with here | here <;> simp [here]
  | got fetches => rcases fetches with here | here <;> simp [here]
  | complete here => simp [here]
  | put here => simp [here]
  | run here => rcases here with ⟨here, -⟩ | here <;> simp [here]
  | skip here => simp [here]
  | stop here => simp [here]

omit [DecidableEq κ] in
theorem loaderStep_cases (loaded : s.loaderStep pcb = some (event, t)) :
    (∃ proc rest, event = .add proc ∧ s.pending = proc :: rest ∧ t.pending = rest ∧
        t.sched = s.sched.addProc (prioOf pcb) proc ∧ t.done = s.done ∧ t.cpu = s.cpu ∧
          t.pc = s.pc) ∨
      (event = .finish ∧ s.pending = [] ∧ t.pending = [] ∧ t.sched = s.sched ∧ t.done = true ∧
        t.cpu = s.cpu ∧ t.pc = s.pc) := by
  unfold loaderStep at loaded
  split at loaded
  case h_1 proc rest pending =>
    obtain ⟨rfl, rfl⟩ := Prod.mk.inj (Option.some.inj loaded)
    exact .inl ⟨proc, rest, rfl, pending, rfl, rfl, rfl, rfl, rfl⟩
  case h_2 pending =>
    split at loaded
    · cases loaded
    · obtain ⟨rfl, rfl⟩ := Prod.mk.inj (Option.some.inj loaded)
      exact .inr ⟨rfl, pending, pending, rfl, rfl, rfl, rfl⟩

end Os

/-! ## How the parts belong together -/

/-- The processes that the loader has not added. -/
def Loader.procs : Loader α → List α
  | .test rest => rest.map Prod.fst
  | .ready proc rest => proc :: rest.map Prod.fst
  | .leave rest => rest.map Prod.fst
  | .waiting rest => rest.map Prod.fst
  | .loaded => []
  | .detached => []

/-- What a step of the timer with the loader does. -/
def Arrivals.Effect {ι : Type*} [DecidableEq ι] (devList : List ι) (s t : Arrivals ι α) :
    ArrivalStep ι α → Prop
  | .timer step => TimerState.Step devList s.timer step t.timer ∧ t.loader.procs = s.loader.procs ∧
      t.done = s.done
  | .test => t.timer = s.timer ∧ t.loader.procs = s.loader.procs ∧ t.done = s.done ∧
      ∃ rest, s.loader = .test rest
  | .add proc slot => s.timer.currentTime = slot ∧ t.timer = s.timer ∧ t.done = s.done ∧
      ∃ rest, s.loader = .ready proc rest ∧ t.loader = .leave rest
  | .finish => t.timer = s.timer ∧ s.loader = .test [] ∧ t.loader = .loaded ∧ t.done = true

/-- The processes that are left to the loader are the same over a step of the timer. -/
theorem Loader.follow_procs {ι : Type*} [DecidableEq ι] {device : ι} {loader next : Loader α}
    {step : TimerStep ι} (followed : loader.follow device step = some next) :
    next.procs = loader.procs := by
  rcases Loader.follow_cases followed with ⟨rest, -, rfl, rfl⟩ | ⟨rest, -, rfl, rfl⟩ |
    ⟨-, rfl, rfl⟩ | ⟨-, -, -, rfl⟩ <;> rfl

/-- What a step of the timer or of the loader does to the clock, the loader and what it has added.
-/
theorem Arrivals.Step.effect {ι : Type*} [DecidableEq ι] [DecidableEq α] {devList : List ι}
    {device : ι} {s t : Arrivals ι α} {label : ArrivalStep ι α}
    (taken : Arrivals.Step devList device s label t) : Effect devList s t label := by
  unfold Arrivals.Step at taken
  cases label with
  | timer step =>
      rw [advance] at taken
      split at taken
      case h_1 timer loader stepped followed =>
        obtain rfl := Option.some.inj taken
        exact ⟨stepped, Loader.follow_procs followed, rfl⟩
      case h_2 => cases taken
  | test =>
      rw [advance] at taken
      split at taken
      case h_1 proc startTime rest here =>
        split at taken
        · obtain rfl := Option.some.inj taken
          exact ⟨rfl, by rw [here]; rfl, rfl, _, here⟩
        · obtain rfl := Option.some.inj taken
          exact ⟨rfl, by rw [here]; rfl, rfl, _, here⟩
      case h_2 => cases taken
  | add proc slot =>
      rw [advance] at taken
      split at taken
      case h_1 next rest here =>
        split at taken
        case isTrue guard =>
          obtain ⟨rfl, rfl⟩ := guard
          obtain rfl := Option.some.inj taken
          exact ⟨rfl, rfl, rfl, rest, here, rfl⟩
        case isFalse => cases taken
      case h_2 => cases taken
  | finish =>
      rw [advance] at taken
      split at taken
      case h_1 here =>
        obtain rfl := Option.some.inj taken
        exact ⟨rfl, here, rfl, rfl⟩
      case h_2 => cases taken

/-- The loader takes part in the steps of the timer that are its own. -/
theorem Arrivals.Step.follows {ι : Type*} [DecidableEq ι] [DecidableEq α] {devList : List ι}
    {device : ι} {s t : Arrivals ι α} {step : TimerStep ι}
    (taken : Arrivals.Step devList device s (.timer step) t) :
    s.loader.follow device step = some t.loader := by
  unfold Arrivals.Step at taken
  rw [advance] at taken
  split at taken
  case h_1 timer loader stepped followed =>
    obtain rfl := Option.some.inj taken
    exact followed
  case h_2 => cases taken

namespace Kernel

/-- What the parts of the machine know of each other. -/
structure Joined (s : Kernel α κ) : Prop where
  pending : s.os.pending = s.arrivals.loader.procs
  done : s.os.done = s.arrivals.done
  head : ∀ k, s.due k = true ∨ s.arrivals.timer.inside (some k) = true →
    (s.os.cpu k).atHead = true
  gone : ∀ k, s.arrivals.timer.fsh (some k) = true → s.os.cpu k = .stopped
  due_outside : ∀ k, s.due k = true → s.arrivals.timer.inside (some k) = false

/-- Before the first step the loader has every process before it, and no CPU has called
`next_slot`. -/
theorem start_joined (devList : List (Option κ)) (processes : List (α × Nat)) (memory : Sys α) :
    (start devList processes memory).Joined where
  pending := rfl
  done := rfl
  head := fun _ busy => by simp [start, Arrivals.start, TimerState.startTimer] at busy
  gone := fun _ gone => by simp [start, Arrivals.start, TimerState.startTimer] at gone
  due_outside := fun _ _ => rfl

variable [DecidableEq α] [DecidableEq κ] {pcb : α → Pcb} {timeSlot : Int}
  {devList : List (Option κ)} {s t : Kernel α κ} {label : KernelStep α κ}

/-- A CPU comes into `next_slot` and is detached by steps of its own only. -/
theorem cpu_flags {timer next : TimerState (Option κ)} {step : TimerStep (Option κ)} {k : κ}
    (taken : TimerState.Step devList timer step next) (noCall : step ≠ .setDone (some k))
    (noDetach : step ≠ .detach (some k)) :
    (next.inside (some k) = true → timer.inside (some k) = true) ∧
      next.fsh (some k) = timer.fsh (some k) := by
  by_cases back : step = .returned (some k)
  · subst back
    obtain ⟨_, _, rfl⟩ := taken.effect
    exact ⟨fun inside => by simp at inside, rfl⟩
  · obtain ⟨inside, fsh⟩ := taken.flags_kept noCall back noDetach
    exact ⟨fun now => inside ▸ now, fsh⟩

omit [DecidableEq α] [DecidableEq κ] in
/-- A step after which nothing is known of a CPU that was not known before. -/
theorem Joined.frame (joined : s.Joined) (pending : t.os.pending = t.arrivals.loader.procs)
    (done : t.os.done = t.arrivals.done) (cpu : t.os.cpu = s.os.cpu) (due : t.due = s.due)
    (flags : ∀ k, (t.arrivals.timer.inside (some k) = true →
        s.arrivals.timer.inside (some k) = true) ∧
      t.arrivals.timer.fsh (some k) = s.arrivals.timer.fsh (some k)) : t.Joined where
  pending := pending
  done := done
  head := fun k busy => by
    rw [cpu]
    rw [due] at busy
    exact joined.head k (busy.imp_right (flags k).1)
  gone := fun k gone => by
    rw [cpu]
    exact joined.gone k ((flags k).2 ▸ gone)
  due_outside := fun k ready => by
    rw [due] at ready
    cases inside : t.arrivals.timer.inside (some k) with
    | false => rfl
    | true => exact absurd ((flags k).1 inside) (by simp [joined.due_outside k ready])

/-- The parts of the machine agree after the loader has added a process. -/
theorem Joined.added (joined : s.Joined) {proc : α} {slot : Nat} {event : OsEvent α κ}
    (arrives : Arrivals.Step devList none s.arrivals (.add proc slot) t.arrivals)
    (loads : s.os.loaderStep pcb = some (event, t.os)) (due : t.due = s.due) : t.Joined := by
  obtain ⟨-, timer, notDone, rest, here, there⟩ := arrives.effect
  have pending := joined.pending
  rw [here] at pending
  rcases Os.loaderStep_cases loads with
    ⟨first, others, -, before, after, -, sameDone, cpu, -⟩ | ⟨-, before, -⟩
  · have split := before.symm.trans pending
    refine joined.frame ?_ (by rw [sameDone, notDone, joined.done]) cpu due fun k => ?_
    · rw [after, there]
      exact (List.cons.inj split).2
    · rw [timer]
      exact ⟨id, rfl⟩
  · rw [before] at pending
    cases pending

/-- The parts of the machine agree after the loader has set its flag. -/
theorem Joined.finished (joined : s.Joined) {event : OsEvent α κ}
    (arrives : Arrivals.Step devList none s.arrivals .finish t.arrivals)
    (loads : s.os.loaderStep pcb = some (event, t.os)) (due : t.due = s.due) : t.Joined := by
  obtain ⟨timer, here, there, nowDone⟩ := arrives.effect
  have pending := joined.pending
  rw [here] at pending
  rcases Os.loaderStep_cases loads with
    ⟨first, others, -, before, -⟩ | ⟨-, before, after, -, alsoDone, cpu, -⟩
  · rw [before] at pending
    cases pending
  · refine joined.frame ?_ (by rw [alsoDone, nowDone]) cpu due fun k => ?_
    · rw [after, there]
      rfl
    · rw [timer]
      exact ⟨id, rfl⟩

theorem Joined.called (joined : s.Joined) {k : κ}
    (arrives : Arrivals.Step devList none s.arrivals (.timer (.setDone (some k))) t.arrivals)
    (ready : s.due k = true) (os : t.os = s.os) (due : t.due = Function.update s.due k false) :
    t.Joined := by
  obtain ⟨timer, procs, sameDone⟩ := arrives.effect
  have effect := timer.effect
  obtain ⟨-, -, -, moved⟩ := effect
  refine ⟨by rw [os, procs, joined.pending], by rw [os, sameDone, joined.done], fun j busy => ?_,
    fun j left => ?_, fun j later => ?_⟩
  · rw [os]
    by_cases same : j = k
    · exact same ▸ joined.head k (.inl ready)
    · rw [due, moved] at busy
      exact joined.head j (by simpa [same] using busy)
  · rw [os]
    rw [moved] at left
    exact joined.gone j left
  · rw [moved]
    rw [due] at later
    by_cases same : j = k
    · simp [same] at later
    · simpa [same] using joined.due_outside j (by simpa [same] using later)

/-- The parts of the machine agree after a CPU was detached. -/
theorem Joined.detached (joined : s.Joined) {k : κ}
    (arrives : Arrivals.Step devList none s.arrivals (.timer (.detach (some k))) t.arrivals)
    (stopped : s.os.cpu k = .stopped) (os : t.os = s.os) (due : t.due = s.due) : t.Joined := by
  obtain ⟨timer, procs, sameDone⟩ := arrives.effect
  have effect := timer.effect
  obtain ⟨-, -, -, moved⟩ := effect
  refine ⟨by rw [os, procs, joined.pending], by rw [os, sameDone, joined.done], fun j busy => ?_,
    fun j left => ?_, fun j later => ?_⟩
  · rw [os]
    rw [due, moved] at busy
    exact joined.head j busy
  · rw [os]
    by_cases same : j = k
    · exact same ▸ stopped
    · rw [moved] at left
      exact joined.gone j (by simpa [same] using left)
  · rw [moved]
    exact joined.due_outside j (due ▸ later)

omit [DecidableEq α] in
/-- The parts of the machine agree after a step of a CPU. -/
theorem Joined.cpuStep (joined : s.Joined) {k : κ} {event : OsEvent α κ} (free : s.free k)
    (moved : Os.CpuMove pcb s.os t.os k event) (apart : Os.Apart s.os t.os k)
    (arrivals : t.arrivals = s.arrivals)
    (due : t.due = Function.update s.due k (t.os.cpu k).atHead) : t.Joined := by
  refine ⟨by rw [apart.pending, arrivals, joined.pending],
    by rw [apart.done, arrivals, joined.done], fun j busy => ?_, fun j left => ?_,
    fun j later => ?_⟩
  · rw [arrivals, due] at busy
    by_cases same : j = k
    · subst same
      rcases busy with ready | inside
      · simpa using ready
      · rw [free.1] at inside
        cases inside
    · rw [apart.cpu j same]
      exact joined.head j (by simpa [same] using busy)
  · rw [arrivals] at left
    by_cases same : j = k
    · subst same
      exact absurd (joined.gone j left) moved.running
    · rw [apart.cpu j same]
      exact joined.gone j left
  · rw [arrivals]
    by_cases same : j = k
    · exact same ▸ free.1
    · rw [due, Function.update_of_ne same] at later
      exact joined.due_outside j later

/-- The parts of the machine agree after any step. -/
theorem Joined.step (joined : s.Joined) (taken : Step pcb timeSlot devList s label t) :
    t.Joined := by
  cases taken.move with
  | add arrives loads due => exact joined.added arrives loads due
  | finish arrives loads due => exact joined.finished arrives loads due
  | call arrives ready os due => exact joined.called arrives ready os due
  | detach arrives stopped os due => exact joined.detached arrives stopped os due
  | @silent step arrives noAdd noFinish noCall noDetach os due =>
      cases step with
      | add proc slot => exact absurd rfl (noAdd proc slot)
      | finish => exact absurd rfl noFinish
      | timer step =>
          obtain ⟨timer, procs, sameDone⟩ := arrives.effect
          exact joined.frame (by rw [os, procs, joined.pending])
            (by rw [os, sameDone, joined.done]) (by rw [os]) due fun k =>
              cpu_flags timer (fun same => noCall k (congrArg _ same))
                (fun same => noDetach k (congrArg _ same))
      | test =>
          obtain ⟨timer, procs, sameDone, -⟩ := arrives.effect
          refine joined.frame (by rw [os, procs, joined.pending])
            (by rw [os, sameDone, joined.done]) (by rw [os]) due fun k => ?_
          rw [timer]
          exact ⟨id, rfl⟩
  | cpu free steps arrivals due =>
      obtain ⟨moved, apart⟩ := Os.cpuStep_moves steps
      exact joined.cpuStep free moved apart arrivals due

theorem Joined.adds (joined : s.Joined) {proc : α} {slot : Nat} {event : OsEvent α κ}
    (arrives : Arrivals.Step devList none s.arrivals (.add proc slot) t.arrivals)
    (loads : s.os.loaderStep pcb = some (event, t.os)) :
    event = .add proc ∧ t.os.sched = s.os.sched.addProc (prioOf pcb) proc ∧
      t.os.done = s.os.done ∧ t.os.cpu = s.os.cpu ∧ t.os.pc = s.os.pc := by
  have pending := joined.pending
  obtain ⟨-, -, -, rest, here, -⟩ := arrives.effect
  rw [here] at pending
  rcases Os.loaderStep_cases loads with
    ⟨first, others, rfl, before, -, sched, done, cpu, pc⟩ | ⟨-, before, -⟩
  · rw [before] at pending
    obtain ⟨rfl, -⟩ := List.cons.inj pending
    exact ⟨rfl, sched, done, cpu, pc⟩
  · rw [before] at pending
    cases pending

/-- And it is done when nothing is left. -/
theorem Joined.finishes (joined : s.Joined) {event : OsEvent α κ}
    (arrives : Arrivals.Step devList none s.arrivals .finish t.arrivals)
    (loads : s.os.loaderStep pcb = some (event, t.os)) :
    event = .finish ∧ t.os.sched = s.os.sched ∧ t.os.done = true ∧ t.os.cpu = s.os.cpu ∧
      t.os.pc = s.os.pc := by
  have pending := joined.pending
  obtain ⟨-, here, -⟩ := arrives.effect
  rw [here] at pending
  rcases Os.loaderStep_cases loads with
    ⟨first, others, -, before, -⟩ | ⟨rfl, -, -, sched, done, cpu, pc⟩
  · rw [before] at pending
    cases pending
  · exact ⟨rfl, sched, done, cpu, pc⟩

/-! ## The two machines that make it up -/

/-- The parts of the machine agree in every state of a run. -/
theorem run_joined {source : Kernel α κ} {history : List (KernelStep α κ)}
    (run : Run (Step pcb timeSlot devList) source history s) (joined : source.Joined) : s.Joined :=
  run.invariant Joined (fun _ _ _ joined taken => joined.step taken) joined

/-- **Refinement.** Every run of the machine is one of the CPUs and the loader. -/
theorem run_os {source : Kernel α κ} {history : List (KernelStep α κ)}
    (run : Run (Step pcb timeSlot devList) source history s) (joined : source.Joined) :
    Run (Os.Step pcb timeSlot) source.os (history.filterMap KernelStep.osEvent) s.os := by
  have simulated : ∃ reached, Run (Os.Step pcb timeSlot) source.os
      (history.filterMap KernelStep.osEvent) reached ∧ s.Joined ∧ s.os = reached := by
    refine run.simulate (fun kernel mirror => kernel.Joined ∧ kernel.os = mirror)
      KernelStep.osEvent ?_ ⟨joined, rfl⟩
    rintro before label after mirror ⟨joined, rfl⟩ taken
    have still := joined.step taken
    cases taken.move with
    | add arrives loads =>
        obtain ⟨rfl, -⟩ := joined.adds arrives loads
        exact ⟨_, .inl loads, still, rfl⟩
    | finish arrives loads =>
        obtain ⟨rfl, -⟩ := joined.finishes arrives loads
        exact ⟨_, .inl loads, still, rfl⟩
    | call arrives ready os => exact ⟨still, os⟩
    | detach arrives stopped os => exact ⟨still, os⟩
    | @silent step arrives noAdd noFinish noCall noDetach os =>
        cases step with
        | add proc slot => exact absurd rfl (noAdd proc slot)
        | finish => exact absurd rfl noFinish
        | timer step => exact ⟨still, os⟩
        | test => exact ⟨still, os⟩
    | @cpu k event u data free steps => exact ⟨_, .inr ⟨k, u, data, steps⟩, still, rfl⟩
  obtain ⟨reached, mirrored, -, rfl⟩ := simulated
  exact mirrored

/-- And one of the timer with the loader. -/
theorem run_arrivals {source : Kernel α κ} {history : List (KernelStep α κ)}
    (run : Run (Step pcb timeSlot devList) source history s) :
    Run (Arrivals.Step devList none) source.arrivals (history.filterMap KernelStep.arrivalStep)
      s.arrivals := by
  have simulated : ∃ reached, Run (Arrivals.Step devList none) source.arrivals
      (history.filterMap KernelStep.arrivalStep) reached ∧ s.arrivals = reached := by
    refine run.simulate (fun kernel mirror => kernel.arrivals = mirror) KernelStep.arrivalStep ?_
      rfl
    rintro before label after mirror rfl taken
    cases taken.move with
    | add arrives => exact ⟨_, arrives, rfl⟩
    | finish arrives => exact ⟨_, arrives, rfl⟩
    | call arrives => exact ⟨_, arrives, rfl⟩
    | detach arrives => exact ⟨_, arrives, rfl⟩
    | silent arrives => exact ⟨_, arrives, rfl⟩
    | cpu free steps arrivals => exact arrivals
  obtain ⟨reached, mirrored, rfl⟩ := simulated
  exact mirrored

/-- Some turns one after the other, with what happens in them. -/
def play (pcb : α → Pcb) (timeSlot : Int) (devList : List (Option κ)) :
    Kernel α κ → List (KernelTurn α κ) → Option (List (KernelStep α κ) × Kernel α κ)
  | s, [] => some ([], s)
  | s, turn :: rest =>
      (s.advance pcb timeSlot devList turn).bind fun (label, next) =>
        (next.play pcb timeSlot devList rest).map fun (history, last) => (label :: history, last)

/-- Turns that can be taken one after the other are a run of the machine. -/
theorem run_play {turns : List (KernelTurn α κ)} {history : List (KernelStep α κ)}
    (played : s.play pcb timeSlot devList turns = some (history, t)) :
    Run (Step pcb timeSlot devList) s history t := by
  induction turns generalizing s history with
  | nil =>
      obtain ⟨rfl, rfl⟩ := Prod.mk.inj (Option.some_inj.mp played)
      exact .nil s
  | cons turn rest ih =>
      obtain ⟨⟨label, next⟩, first, others⟩ := Option.bind_eq_some_iff.mp played
      obtain ⟨⟨later, last⟩, followed, same⟩ := Option.map_eq_some_iff.mp others
      obtain ⟨rfl, rfl⟩ := Prod.mk.inj same
      exact .cons ⟨turn, first⟩ (ih followed)

/-- A step of the timer or of the loader can be taken when it leads to a state. -/
theorem step_of_isSome {step : ArrivalStep (Option κ) α}
    (enabled : (s.advance pcb timeSlot devList (.arrival step)).isSome) :
    ∃ t, Step pcb timeSlot devList s (.arrival step) t := by
  obtain ⟨⟨label, t⟩, advanced⟩ := Option.isSome_iff_exists.mp enabled
  have same := advanced
  simp only [advance] at same
  split at same
  case h_1 =>
    obtain ⟨rfl, -⟩ := Prod.mk.inj (Option.some.inj same)
    exact ⟨t, .arrival step, advanced⟩
  case h_2 => cases same

/-! ## Runs of two CPUs -/

section Turns

variable {β : Type*}

/-- The first of two CPUs. -/
abbrev cpu0 : Fin 2 := ⟨0, Nat.two_pos⟩

/-- The second of two CPUs. -/
abbrev cpu1 : Fin 2 := ⟨1, Nat.one_lt_two⟩

/-- The next step of a CPU, with zero in whatever the C code leaves uninitialised. -/
def cpuTurn (k : Fin 2) : KernelTurn β (Fin 2) := .cpu k .zeroed 0

/-- A device calls `next_slot` and is done with its slot. -/
def callTurn (device : Option (Fin 2)) : KernelTurn β (Fin 2) :=
  .arrival (.timer (.setDone device))

/-- A device returns from `next_slot` into the next slot. -/
def returnTurn (device : Option (Fin 2)) : KernelTurn β (Fin 2) :=
  .arrival (.timer (.returned device))

/-- A device that has left its loop is detached. -/
def detachTurn (device : Option (Fin 2)) : KernelTurn β (Fin 2) :=
  .arrival (.timer (.detach device))

/-- The first slot: both CPUs find the queues empty before the loader adds the first process. -/
def lateSlot (first : β) : List (KernelTurn β (Fin 2)) :=
  [cpuTurn cpu0, cpuTurn cpu1, callTurn (some cpu0), callTurn (some cpu1), .arrival .test,
    .arrival (.add first 0), callTurn none]

/-- The clock advances: the timer has checked every device and lets them into the next slot. -/
def clockTurns : List (KernelTurn β (Fin 2)) :=
  [.arrival (.timer (.check none)), .arrival (.timer (.check (some cpu1))),
    .arrival (.timer (.check (some cpu0))), .arrival (.timer .tick),
    .arrival (.timer (.reset none)), .arrival (.timer (.reset (some cpu1))),
    .arrival (.timer (.reset (some cpu0))), .arrival (.timer .loop)]

/-- The second slot: each CPU executes the first instruction of a process. -/
def busySlot (second : β) : List (KernelTurn β (Fin 2)) :=
  [returnTurn none, returnTurn (some cpu0), returnTurn (some cpu1), .arrival .test,
    .arrival (.add second 1), callTurn none, cpuTurn cpu0, cpuTurn cpu0, callTurn (some cpu0),
    cpuTurn cpu1, cpuTurn cpu1, callTurn (some cpu1)]

/-- The third slot: CPU 0 puts the first process back, and CPU 1, whose own process is complete,
takes it and executes it. CPU 0 then finds the queues empty. -/
def movingSlot : List (KernelTurn β (Fin 2)) :=
  [returnTurn none, returnTurn (some cpu0), returnTurn (some cpu1), cpuTurn cpu0, cpuTurn cpu1,
    cpuTurn cpu1, cpuTurn cpu1, callTurn (some cpu1), cpuTurn cpu0]

/-- CPU 0 looks at the flag of the loader after it is set, and leaves its loop. -/
def leavingTurns : List (KernelTurn β (Fin 2)) :=
  [.arrival .finish, detachTurn none, cpuTurn cpu0, detachTurn (some cpu0)]

/-- CPU 0 looks at the flag of the loader before it is set, and so it looks for a process in every
slot from then on. -/
def stayingTurns : List (KernelTurn β (Fin 2)) :=
  [cpuTurn cpu0, callTurn (some cpu0), .arrival .finish, detachTurn none]

/-- A slot in which CPU 0 finds the queues empty. -/
def idleTurns : List (KernelTurn β (Fin 2)) :=
  [returnTurn (some cpu0), cpuTurn cpu0, callTurn (some cpu0)]

/-- CPU 1 puts the first process back and takes it again. -/
def againTurns : List (KernelTurn β (Fin 2)) := [returnTurn (some cpu1), cpuTurn cpu1, cpuTurn cpu1]

/-- CPU 1 executes the last instruction and calls `next_slot`. -/
def lastTurns : List (KernelTurn β (Fin 2)) := [cpuTurn cpu1, callTurn (some cpu1)]

/-- The process of CPU 1 is complete and the queues are empty. The CPU leaves its loop. -/
def completeTurns : List (KernelTurn β (Fin 2)) :=
  [returnTurn (some cpu1), cpuTurn cpu1, cpuTurn cpu1, cpuTurn cpu1, detachTurn (some cpu1)]

/-- Two processes, the second of them with one instruction only, up to the third slot. -/
def movingRun (first second : β) : List (KernelTurn β (Fin 2)) :=
  lateSlot first ++ clockTurns ++ busySlot second ++ clockTurns ++ movingSlot

/-- Both processes are executed to their ends, and both CPUs leave their loops. -/
def wholeRun (first second : β) : List (KernelTurn β (Fin 2)) :=
  movingRun first second ++ leavingTurns ++ clockTurns ++ againTurns ++ lastTurns ++ clockTurns ++
    completeTurns

/-- CPU 0 stays in its loop, and the last instruction of the first process is the next one. -/
def lastRun (first second : β) : List (KernelTurn β (Fin 2)) :=
  movingRun first second ++ stayingTurns ++ clockTurns ++ idleTurns ++ againTurns

/-- The clock goes on for the sake of CPU 0. -/
def overdueRun (first second : β) : List (KernelTurn β (Fin 2)) :=
  lastRun first second ++ lastTurns ++ clockTurns ++ idleTurns ++ completeTurns ++ clockTurns ++
    idleTurns ++ clockTurns ++ idleTurns ++ clockTurns

end Turns

/-- The first of two processes. -/
abbrev proc0 : Fin 2 := ⟨0, Nat.two_pos⟩

/-- The second of two processes. -/
abbrev proc1 : Fin 2 := ⟨1, Nat.one_lt_two⟩

/-- The first process allocates some bytes, stores 7 at an offset and reads it again. The other one
allocates 300 bytes. -/
def sharing (size offset : BitVec 32) : Fin 2 → Pcb
  | 0 => ⟨0, [⟨.allocOp, size, 0, 0⟩, ⟨.writeOp, 7, 0, offset⟩, ⟨.readOp, 0, offset, 20⟩]⟩
  | 1 => ⟨1, [⟨.allocOp, 300, 0, 0⟩]⟩

/-- A RAM of some size, a swap device and zero-filled memory. -/
def unusedMemory (ramSize : Int) : Sys (Fin 2) :=
  { Sys.boot (Fin 2) ramSize 1024 with mm := fun _ => .zeroed }

/-- Two CPUs, the loader, which adds a process in each of the first two slots, and a RAM in which
the five pages of both have a frame. -/
def sharingStart : Kernel (Fin 2) (Fin 2) :=
  start (attachAll 2) [(proc0, 0), (proc1, 1)] (unusedMemory 1280)

/-- The machine after some turns, with the steps that they were. -/
def afterTurns (turns : List (KernelTurn (Fin 2) (Fin 2))) :
    Option (List (KernelStep (Fin 2) (Fin 2)) × Kernel (Fin 2) (Fin 2)) :=
  sharingStart.play (sharing 600 520) 1 (attachAll 2) turns

/-- The same for the machine with the two processes. -/
theorem run_afterTurns {turns : List (KernelTurn (Fin 2) (Fin 2))}
    {played : List (KernelStep (Fin 2) (Fin 2)) × Kernel (Fin 2) (Fin 2)}
    (result : afterTurns turns = some played) :
    Run (Step (sharing 600 520) 1 (attachAll 2)) sharingStart played.1 played.2 :=
  run_play result

/-- What happens in the first slot, and the state before the timer looks at the devices. -/
def late : List (KernelStep (Fin 2) (Fin 2)) × Kernel (Fin 2) (Fin 2) :=
  (afterTurns (lateSlot proc0 ++ clockTurns.take 3)).get (by decide +kernel)

/-- What happens until both CPUs are detached. -/
def whole : List (KernelStep (Fin 2) (Fin 2)) × Kernel (Fin 2) (Fin 2) :=
  (afterTurns (wholeRun proc0 proc1)).get (by decide +kernel)

/-- What happens until the clock has passed the deadline of both processes. -/
def overdue : List (KernelStep (Fin 2) (Fin 2)) × Kernel (Fin 2) (Fin 2) :=
  (afterTurns (overdueRun proc0 proc1)).get (by decide +kernel)

/-- The turns up to the first tick are a run. -/
theorem run_late : Run (Step (sharing 600 520) 1 (attachAll 2)) sharingStart late.1 late.2 :=
  run_afterTurns (Option.some_get _).symm

/-- The turns until both CPUs are detached are a run. -/
theorem run_whole : Run (Step (sharing 600 520) 1 (attachAll 2)) sharingStart whole.1 whole.2 :=
  run_afterTurns (Option.some_get _).symm

/-- The turns past the deadline are a run. -/
theorem run_overdue :
    Run (Step (sharing 600 520) 1 (attachAll 2)) sharingStart overdue.1 overdue.2 :=
  run_afterTurns (Option.some_get _).symm

end Kernel

end PagedOs
