import PagedOs.Process.Variables
import PagedOs.System.Completion

/-! # What the machine computes

The processes share the devices and take turns on any number of CPUs, and yet the memory of each of
them shows the variables that its program computes: its instructions are executed in order, and a
regular call of another process leaves its bytes where they are, whatever pages move. What a process
reads is what its program has written.
-/

namespace PagedOs

open Transition

variable {α κ : Type*} [DecidableEq α]

/-! ## What a step does to the memory -/

namespace Os

variable [DecidableEq κ] {pcb : α → Pcb} {timeSlot : Int} {s t : Os α κ} {k : κ}
  {event : OsEvent α κ} {u : Uninit} {data : Byte}

/-- A CPU calls `run` for the process that it holds. -/
structure Ran (pcb : α → Pcb) (s t : Os α κ) (k : κ) (u : Uninit) (data : Byte) (proc : α)
    (stat : Int) (pc : Nat) (c : Caller) : Prop where
  held : (s.cpu k).holds = some proc
  ran : (pcb proc).run (s.pc proc) (s.memory.caller proc) u data = some (stat, pc, c)
  memory : t.memory = s.memory.put proc c
  pc : t.pc = Function.update s.pc proc pc

/-- A call of `run` is the one of the process that the CPU holds, and it changes what `run`
changes. -/
theorem execute_ran {proc : α} {timeLeft : Int} (held : (s.cpu k).holds = some proc)
    (executed : s.execute pcb timeSlot k u data proc timeLeft = some (event, t)) :
    ∃ stat pc c, event = .run k proc (pcb proc).text[s.pc proc]? stat ∧
      Ran pcb s t k u data proc stat pc c := by
  unfold execute at executed
  obtain ⟨⟨stat, pc, c⟩, ran, same⟩ := Option.map_eq_some_iff.mp executed
  obtain ⟨rfl, rfl⟩ := Prod.mk.inj same
  exact ⟨stat, pc, c, rfl, held, ran, rfl, rfl⟩

/-- Only `run` changes the memory and the program counters. -/
theorem cpuStep_memory (stepped : s.cpuStep pcb timeSlot k u data = some (event, t)) :
    (t.memory = s.memory ∧ t.pc = s.pc ∧
        ∀ j proc executed stat, event ≠ .run j proc executed stat) ∨
      ∃ proc stat pc c, event = .run k proc (pcb proc).text[s.pc proc]? stat ∧
        Ran pcb s t k u data proc stat pc c := by
  unfold cpuStep at stepped
  split at stepped
  case h_1 timeLeft here =>
    split at stepped <;> obtain ⟨rfl, rfl⟩ := Prod.mk.inj (Option.some.inj stepped) <;>
      exact .inl ⟨rfl, rfl, by simp⟩
  case h_2 proc timeLeft here =>
    split at stepped
    case isTrue ended =>
      obtain ⟨rfl, rfl⟩ := Prod.mk.inj (Option.some.inj stepped)
      exact .inl ⟨rfl, rfl, by simp⟩
    case isFalse =>
      split at stepped
      case isTrue used =>
        obtain ⟨rfl, rfl⟩ := Prod.mk.inj (Option.some.inj stepped)
        exact .inl ⟨rfl, rfl, by simp⟩
      case isFalse => exact .inr ⟨proc, execute_ran (by rw [here]; rfl) stepped⟩
  case h_3 timeLeft here =>
    obtain ⟨rfl, rfl⟩ := Prod.mk.inj (Option.some.inj stepped)
    exact .inl ⟨rfl, rfl, by simp⟩
  case h_4 timeLeft here =>
    split at stepped <;> obtain ⟨rfl, rfl⟩ := Prod.mk.inj (Option.some.inj stepped) <;>
      exact .inl ⟨rfl, rfl, by simp⟩
  case h_5 proc timeLeft here => exact .inr ⟨proc, execute_ran (by rw [here]; rfl) stepped⟩
  case h_6 => cases stepped

omit [DecidableEq κ] in
/-- The loader sets up the address space of the process that it adds. -/
theorem loaderStep_memory (loaded : s.loaderStep pcb = some (event, t)) :
    t.pc = s.pc ∧ (∀ proc, event = .add proc → t.memory = { s.memory with
      mm := Function.update s.memory.mm proc (s.memory.mm proc).initMm }) ∧
        (event = .finish → t.memory = s.memory) := by
  unfold loaderStep at loaded
  split at loaded
  case h_1 proc rest pending =>
    obtain ⟨rfl, rfl⟩ := Prod.mk.inj (Option.some.inj loaded)
    refine ⟨rfl, fun other same => ?_, fun other => by cases other⟩
    cases same
    rfl
  case h_2 pending =>
    split at loaded
    · cases loaded
    · obtain ⟨rfl, rfl⟩ := Prod.mk.inj (Option.some.inj loaded)
      exact ⟨rfl, fun _ same => (nomatch same), fun _ => rfl⟩

end Os

/-- The instruction that a step executes and the process that it belongs to. -/
def KernelStep.inst : KernelStep α κ → Option (α × Inst)
  | .cpu _ (.run _ proc executed _) _ => executed.map fun ins => (proc, ins)
  | _ => none

namespace Kernel

/-- The memory in which the processes that have not arrived have their address spaces already, set
up on what `malloc` will return for them. -/
def prepared (history : List (KernelStep α κ)) (memory : Sys α) : Sys α :=
  { memory with
    mm := fun proc => if proc ∈ (arrived history).map Prod.fst then memory.mm proc
      else (memory.mm proc).initMm }

section Prepared

variable {history : List (KernelStep α κ)} {memory : Sys α} {proc : α} {label : KernelStep α κ}

/-- A process that has arrived has the address space that it has. -/
theorem prepared_mm (here : proc ∈ (arrived history).map Prod.fst) :
    (prepared history memory).mm proc = memory.mm proc := if_pos here

/-- The prepared memory is the real one for a process that has arrived. -/
theorem prepared_caller (here : proc ∈ (arrived history).map Prod.fst) :
    (prepared history memory).caller proc = memory.caller proc := by
  simp only [Sys.caller, prepared_mm here]
  rfl

/-- A call of a process that has arrived does the same to the prepared memory. -/
theorem prepared_put (here : proc ∈ (arrived history).map Prod.fst) (c : Caller) :
    prepared history (memory.put proc c) = (prepared history memory).put proc c := by
  simp only [prepared, Sys.put, Sys.mk.injEq, true_and]
  funext other
  by_cases same : other = proc
  · subst same
    rw [if_pos here, Function.update_self, Function.update_self]
  · simp only [Function.update_of_ne same]

/-- A step with which nobody arrives leaves what is prepared. -/
theorem prepared_silent (noAdd : arrived [label] = []) :
    prepared (history ++ [label]) memory = prepared history memory := by
  rw [prepared, prepared, arrived_snoc, noAdd, List.append_nil]

theorem prepared_add {slot : Nat} (fresh : proc ∉ (arrived history).map Prod.fst) :
    prepared (history ++ [.arrival (.add proc slot)])
        { memory with mm := Function.update memory.mm proc (memory.mm proc).initMm } =
      prepared history memory := by
  have arrives : (arrived (history ++ [.arrival (.add proc slot)])).map Prod.fst =
      (arrived history).map Prod.fst ++ [proc] := by
    rw [arrived_snoc, List.map_append]
    rfl
  simp only [prepared, arrives, List.mem_append, List.mem_singleton, Sys.mk.injEq, true_and]
  funext other
  by_cases same : other = proc
  · subst same
    rw [if_pos (.inr rfl), if_neg fresh, Function.update_self]
  · simp only [same, or_false, Function.update_of_ne same]

/-- The prepared memory shows the variables of a process that has arrived exactly when the real one
does. -/
theorem prepared_represents (here : proc ∈ (arrived history).map Prod.fst) {vars : Variables} :
    (prepared history memory).Represents proc vars ↔ memory.Represents proc vars := by
  simp only [Sys.represents_iff, prepared_caller here, prepared_mm here, Sys.byteAt, Sys.content,
    Sys.pte]
  rfl

end Prepared

/-- What a step of the machine does to the memory and the program counters. -/
inductive Effect (pcb : α → Pcb) (history : List (KernelStep α κ)) (label : KernelStep α κ)
    (s t : Kernel α κ) : Prop
  | still (inst : label.inst = none)
      (memory : prepared (history ++ [label]) t.os.memory = prepared history s.os.memory)
      (pc : t.os.pc = s.os.pc)
  | execute {proc : α} {ins : Inst} {u : Uninit} {data : Byte} {stat : Int} {c : Caller}
      (inst : label.inst = some (proc, ins)) (here : proc ∈ (arrived history).map Prod.fst)
      (found : (pcb proc).text[s.os.pc proc]? = some ins)
      (ran : ((prepared history s.os.memory).caller proc).execute u data ins = some (stat, c))
      (memory : prepared (history ++ [label]) t.os.memory =
        (prepared history s.os.memory).put proc c)
      (pc : t.os.pc = Function.update s.os.pc proc (s.os.pc proc + 1))

variable [DecidableEq κ]

section Reached

variable {pcb : α → Pcb} {timeSlot : Int} {devList : List (Option κ)}
  {processes : List (α × Nat)} {memory : Sys α} {history : List (KernelStep α κ)}
  {s t : Kernel α κ} {label : KernelStep α κ}

theorem arrived_of_holds
    (run : Run (Step pcb timeSlot devList) (start devList processes memory) history s) {k : κ}
    {proc : α} (held : (s.os.cpu k).holds = some proc) :
    proc ∈ (arrived history).map Prod.fst := by
  obtain ⟨slot, member⟩ := (reached_known run).present proc (.inr ⟨k, held⟩)
  exact List.mem_map_of_mem member

theorem fresh_of_add (attached : Attached devList) (distinct : (processes.map Prod.fst).Nodup)
    (run : Run (Step pcb timeSlot devList) (start devList processes memory) history s) {proc : α}
    {slot : Nat} (taken : Step pcb timeSlot devList s (.arrival (.add proc slot)) t) :
    proc ∉ (arrived history).map Prod.fst := by
  have scheduled := (arrived_scheduled attached (run.append (.single taken))).sublist.map Prod.fst
  rw [arrivals_map, arrived_snoc, List.map_append] at scheduled
  have apart := (List.nodup_append.mp (distinct.sublist scheduled)).2.2
  exact fun member => apart proc member proc List.mem_cons_self rfl

omit [DecidableEq κ] in
/-- A step that executes nothing, and with which nobody arrives, leaves the memory and the
counters. -/
theorem Effect.silent (inst : label.inst = none) (noAdd : arrived [label] = [])
    (memory : t.os.memory = s.os.memory) (pc : t.os.pc = s.os.pc) :
    Effect pcb history label s t :=
  .still inst (by rw [prepared_silent noAdd, memory]) pc

omit [DecidableEq κ] in
/-- A call of `run` executes the next instruction, if there is one. -/
theorem Effect.ran {k : κ} {u : Uninit} {data : Byte} {proc : α} {stat : Int} {pc : Nat}
    {c : Caller} {slot : Nat} (here : proc ∈ (arrived history).map Prod.fst)
    (ran : Os.Ran pcb s.os t.os k u data proc stat pc c) :
    Effect pcb history (.cpu k (.run k proc (pcb proc).text[s.os.pc proc]? stat) slot) s t := by
  have silent : arrived [(.cpu k (.run k proc (pcb proc).text[s.os.pc proc]? stat) slot :
      KernelStep α κ)] = [] := rfl
  have result := ran.ran
  cases found : (pcb proc).text[s.os.pc proc]? with
  | none =>
      simp only [Pcb.run, found, Option.some.injEq, Prod.mk.injEq] at result
      obtain ⟨-, rfl, rfl⟩ := result
      refine .silent rfl rfl ?_ ?_
      · rw [ran.memory, Sys.put_caller]
      · rw [ran.pc, Function.update_eq_self]
  | some ins =>
      rw [found] at silent
      simp only [Pcb.run, found, Option.map_eq_some_iff, Prod.mk.injEq] at result
      obtain ⟨⟨stat', c'⟩, executed, rfl, rfl, rfl⟩ := result
      rw [← prepared_caller here] at executed
      exact .execute rfl here found executed
        (by rw [prepared_silent silent, ran.memory, prepared_put here]) ran.pc

/-- **What a step of the machine does.** It executes the next instruction of a process that has
arrived, or leaves the memory and the program counters, where the address space of a process that
arrives is what was prepared for it. -/
theorem step_effect (attached : Attached devList) (distinct : (processes.map Prod.fst).Nodup)
    (run : Run (Step pcb timeSlot devList) (start devList processes memory) history s)
    (taken : Step pcb timeSlot devList s label t) : Effect pcb history label s t := by
  have joined := reached_joined run
  cases taken.move with
  | @add proc slot event arrives loads =>
      obtain ⟨rfl, -⟩ := joined.adds arrives loads
      obtain ⟨pc, adds, -⟩ := Os.loaderStep_memory loads
      have fresh := fresh_of_add attached distinct run taken
      have reached : prepared (history ++ [.arrival (.add proc slot)]) _ =
          prepared history s.os.memory := prepared_add fresh
      rw [← adds proc rfl] at reached
      exact .still rfl reached pc
  | finish arrives loads =>
      obtain ⟨rfl, -⟩ := joined.finishes arrives loads
      obtain ⟨pc, -, finishes⟩ := Os.loaderStep_memory loads
      exact .silent rfl rfl (finishes rfl) pc
  | call arrives ready os => exact .silent rfl rfl (by rw [os]) (by rw [os])
  | detach arrives stopped os => exact .silent rfl rfl (by rw [os]) (by rw [os])
  | @silent step arrives noAdd noFinish noCall noDetach os =>
      refine .silent rfl ?_ (by rw [os]) (by rw [os])
      cases step with
      | add proc slot => exact absurd rfl (noAdd proc slot)
      | _ => rfl
  | @cpu k event u data free steps =>
      rcases Os.cpuStep_memory steps with ⟨memory, pc, noRun⟩ | ⟨proc, stat, pc, c, rfl, ran⟩
      · refine .silent ?_ rfl memory pc
        cases event with
        | run other proc executed stat => exact absurd rfl (noRun other proc executed stat)
        | _ => rfl
      · exact .ran (arrived_of_holds run ran.held) ran

/-! ## What the programs compute -/

/-- The instruction that a step executes makes a regular call, or none. -/
def RegularStep (s : Kernel α κ) (label : KernelStep α κ) : Prop :=
  ∀ executed ∈ label.inst, s.os.memory.RegularInst executed.1 executed.2

/-- The instruction of the step is in its label, so that the condition can be evaluated. -/
instance (s : Kernel α κ) (label : KernelStep α κ) : Decidable (s.RegularStep label) :=
  inferInstanceAs (Decidable (∀ executed ∈ label.inst, _))

/-- The variables that the instructions of a process have computed so far. -/
def variablesOf (pcb : α → Pcb) (s : Kernel α κ) (proc : α) : Variables :=
  computed ((pcb proc).text.take (s.os.pc proc))

omit [DecidableEq κ] in
theorem variablesOf_update {proc : α} {ins : Inst}
    (found : (pcb proc).text[s.os.pc proc]? = some ins)
    (pc : t.os.pc = Function.update s.os.pc proc (s.os.pc proc + 1)) (other : α) :
    variablesOf pcb t other =
      if other = proc then ins.compute (variablesOf pcb s proc) else variablesOf pcb s other := by
  rw [variablesOf, pc]
  split
  · rename_i same
    subst same
    rw [Function.update_self, List.take_add_one, found, Option.toList_some, computed_snoc]
    rfl
  · rename_i different
    rw [Function.update_of_ne different]
    rfl

/-- The memory is sound and shows the variables. -/
structure Computing (pcb : α → Pcb) (history : List (KernelStep α κ)) (s : Kernel α κ) :
    Prop where
  sound : (prepared history s.os.memory).Sound
  shows : ∀ proc, (prepared history s.os.memory).Represents proc (variablesOf pcb s proc)

omit [DecidableEq κ] in
/-- A step of the machine computes: what it executes does to the memory what it does to the
variables. -/
theorem Computing.step (computing : Computing pcb history s) (regular : s.RegularStep label)
    (effect : Effect pcb history label s t) : Computing pcb (history ++ [label]) t := by
  cases effect with
  | still inst memory pc =>
      refine ⟨memory ▸ computing.sound, fun proc => ?_⟩
      rw [memory, variablesOf, pc]
      exact computing.shows proc
  | @execute proc ins u data stat c inst here found ran memory pc =>
      have isRegular : (prepared history s.os.memory).RegularInst proc ins := by
        have isRegular := regular (proc, ins) inst
        rwa [Sys.RegularInst, ← prepared_caller here] at isRegular
      obtain ⟨sound, represents⟩ := computing.sound.execute isRegular ran
      refine ⟨memory ▸ sound, fun other => ?_⟩
      rw [memory, variablesOf_update found pc]
      have shows := represents other _ (computing.shows other)
      by_cases same : other = proc
      · subst same
        rwa [if_pos rfl] at shows ⊢
      · rwa [if_neg same] at shows ⊢

omit [DecidableEq κ] in
/-- Before the first step no process has a variable, on zero-filled memory and formatted devices.
-/
theorem start_computing (unused : ∀ proc, memory.mm proc = .zeroed)
    (ramFormatted : memory.mram.Formatted)
    (swapFormatted : memory.activeMswp.Formatted)
    (ramRandom : memory.mram.rdmflg = true) (swapRandom : memory.activeMswp.rdmflg = true) :
    Computing pcb [] (start devList processes memory) := by
  have fresh (proc : α) : (prepared ([] : List (KernelStep α κ))
      (start devList processes memory).os.memory).mm proc = MmStruct.zeroed.initMm :=
    congrArg MmStruct.initMm (unused proc)
  exact ⟨.start fresh ramFormatted swapFormatted ramRandom swapRandom,
    fun proc => Sys.represents_nothing (fresh proc)⟩

theorem arrived_of_complete
    (run : Run (Step pcb timeSlot devList) (start devList processes memory) history s) {proc : α}
    (complete : Complete proc history) : proc ∈ (arrived history).map Prod.fst := by
  refine run.reached_invariant (fun history _ => Complete proc history →
    proc ∈ (arrived history).map Prod.fst) (fun past before label after reached held taken
      complete => ?_) (fun ⟨_, _, _, member⟩ => absurd member List.not_mem_nil) complete
  rw [arrived_snoc, List.map_append]
  apply List.mem_append_left
  obtain ⟨k, j, slot, member⟩ := complete
  rcases List.mem_append.mp member with earlier | last
  · exact held ⟨k, j, slot, earlier⟩
  · obtain rfl := List.mem_singleton.mp last
    cases taken.move with
    | cpu free steps =>
        cases (Os.cpuStep_moves steps).1 with
        | complete here ended => exact arrived_of_holds reached (by rw [here]; rfl)

/-- The code of a complete process was executed to its end. -/
theorem variablesOf_of_complete
    (run : Run (Step pcb timeSlot devList) (start devList processes memory) history s) {proc : α}
    (complete : Complete proc history) :
    variablesOf pcb s proc = computed (pcb proc).text := by
  have whole := executed_of_complete run complete
  rw [(reached_inOrder run proc).1] at whole
  rw [variablesOf, whole]

end Reached

/-! ## A program that stores a byte -/

/-- Some turns one after the other whose instructions make regular calls. -/
def playRegular (pcb : α → Pcb) (timeSlot : Int) (devList : List (Option κ)) :
    Kernel α κ → List (KernelTurn α κ) → Option (List (KernelStep α κ) × Kernel α κ)
  | s, [] => some ([], s)
  | s, turn :: rest =>
      (s.advance pcb timeSlot devList turn).bind fun (label, next) =>
        if s.RegularStep label then
          (next.playRegular pcb timeSlot devList rest).map fun (history, last) =>
            (label :: history, last)
        else none

/-- Turns that can be taken one after the other, with regular calls only, are a run of regular
calls. -/
theorem run_playRegular {pcb : α → Pcb} {timeSlot : Int} {devList : List (Option κ)}
    {s t : Kernel α κ} {turns : List (KernelTurn α κ)} {history : List (KernelStep α κ)}
    (played : s.playRegular pcb timeSlot devList turns = some (history, t)) :
    Run (Guarded (Step pcb timeSlot devList) RegularStep) s history t := by
  induction turns generalizing s history with
  | nil =>
      obtain ⟨rfl, rfl⟩ := Prod.mk.inj (Option.some_inj.mp played)
      exact .nil s
  | cons turn rest ih =>
      obtain ⟨⟨label, next⟩, first, others⟩ := Option.bind_eq_some_iff.mp played
      dsimp only at others
      split at others
      case isTrue regular =>
        obtain ⟨⟨later, last⟩, followed, same⟩ := Option.map_eq_some_iff.mp others
        obtain ⟨rfl, rfl⟩ := Prod.mk.inj same
        exact .cons ⟨regular, turn, first⟩ (ih followed)
      case isFalse => cases others

/-- The same, where only the fact that they can be taken is known. -/
theorem run_playRegular_get {pcb : α → Pcb} {timeSlot : Int} {devList : List (Option κ)}
    {s : Kernel α κ} {turns : List (KernelTurn α κ)}
    (regular : (s.playRegular pcb timeSlot devList turns).isSome) :
    Run (Guarded (Step pcb timeSlot devList) RegularStep) s
      ((s.playRegular pcb timeSlot devList turns).get regular).1
      ((s.playRegular pcb timeSlot devList turns).get regular).2 :=
  run_playRegular (Option.some_get _).symm

end Kernel

end PagedOs
