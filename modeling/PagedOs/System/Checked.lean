import PagedOs.Process.Demand
import PagedOs.System.Deadline
import PagedOs.System.Programs

/-! # Checked programs

What is known before the machine starts. The programs pass the check, and the RAM has a frame for
every page that they ask for together: then every call in every run is regular, no page ever goes
to swap, and at the deadline the memory shows what the programs compute.
-/

namespace PagedOs

open Transition

variable {α κ : Type*} [DecidableEq α]

namespace Kernel

/-- Programs that pass the check on a machine whose RAM has the frames that they ask for. -/
structure Suited (pcb : α → Pcb) (processes : List (α × Nat)) (memory : Sys α) : Prop where
  checked : ∀ process ∈ processes, checked (pcb process.1).text = true
  unused : ∀ proc, memory.mm proc = MmStruct.zeroed
  ramFormatted : memory.mram.Formatted
  swapFormatted : memory.activeMswp.Formatted
  ramRandom : memory.mram.rdmflg = true
  swapRandom : memory.activeMswp.rdmflg = true
  frames : ∑ proc ∈ (processes.map Prod.fst).toFinset, demandedPages (pcb proc).text ≤
    memory.mram.freeFpList.length
  ramSize : 0 ≤ memory.mram.maxsz ∧ memory.mram.maxsz ≤ 2 ^ 21

/-- The free that a step executes is not wedged. -/
def UnwedgedStep (s : Kernel α κ) (label : KernelStep α κ) : Prop :=
  ∀ executed ∈ label.inst, s.os.memory.UnwedgedInst executed.1 executed.2

/-- The bytes that the instructions of a process have asked for so far. -/
def askedFor (pcb : α → Pcb) (s : Kernel α κ) (proc : α) : Nat :=
  demand ((pcb proc).text.take (s.os.pc proc))

/-- The memory shows the variables of the processes, and their pages are in RAM. -/
structure Residing (pcb : α → Pcb) (processes : List (α × Nat)) (memory : Sys α)
    (history : List (KernelStep α κ)) (s : Kernel α κ) : Prop where
  computing : Computing pcb history s
  housing : (prepared history s.os.memory).Housing (processes.map Prod.fst).toFinset
    memory.mram.freeFpList.length memory.activeMswp (askedFor pcb s)

variable {pcb : α → Pcb} {timeSlot : Int} {devList : List (Option κ)}
  {processes : List (α × Nat)} {memory : Sys α} {history : List (KernelStep α κ)}
  {s t : Kernel α κ} {label : KernelStep α κ}

/-- Before the first step nobody has a page, and no byte was asked for. -/
theorem start_residing (suited : Suited pcb processes memory) :
    Residing pcb processes memory [] (start devList processes memory) := by
  have fresh (proc : α) : (prepared ([] : List (KernelStep α κ))
      (start devList processes memory).os.memory).mm proc = MmStruct.zeroed.initMm :=
    congrArg MmStruct.initMm (suited.unused proc)
  have noPages : MmStruct.zeroed.initMm.endPgn = 0 := rfl
  exact {
    computing := start_computing suited.unused suited.ramFormatted suited.swapFormatted
      suited.ramRandom suited.swapRandom
    housing := {
      housed := fun proc pgn inside => by
        rw [fresh, noPages] at inside
        exact absurd inside (Nat.not_lt_zero pgn)
      vmStart := fun proc => rfl
      sbrk := fun proc => Nat.zero_le _
      frames := by
        simp only [fresh, noPages, Finset.sum_const_zero, Nat.zero_add]
        rfl
      fits := suited.ramFormatted.length_le suited.ramSize.1
      ramSize := suited.ramSize.2
      swap := rfl } }

/-- **A step of checked programs** makes a regular call and takes nothing but RAM frames. -/
theorem Residing.step (suited : Suited pcb processes memory)
    (known : ∀ proc ∈ (arrived history).map Prod.fst, proc ∈ processes.map Prod.fst)
    (residing : Residing pcb processes memory history s) (unwedged : s.UnwedgedStep label)
    (effect : Effect pcb history label s t) :
    s.RegularStep label ∧ Residing pcb processes memory (history ++ [label]) t := by
  cases effect with
  | still inst memory pc =>
      have regular : s.RegularStep label := fun executed member => by
        rw [inst] at member
        cases member
      refine ⟨regular, residing.computing.step regular (.still inst memory pc), ?_⟩
      have same : askedFor pcb t = askedFor pcb s := by
        funext proc
        rw [askedFor, pc, askedFor]
      rw [memory, same]
      exact residing.housing
  | @execute proc ins u data stat c inst here found ran memory pc =>
      have underway : (prepared history s.os.memory).Underway (processes.map Prod.fst).toFinset _ _
          (fun proc => (pcb proc).text) s.os.pc :=
        ⟨residing.computing.sound, residing.computing.shows, residing.housing⟩
      have passed : ∀ other ∈ (processes.map Prod.fst).toFinset,
          checked (pcb other).text = true := by
        intro other there
        obtain ⟨process, inside, rfl⟩ := List.mem_map.mp (List.mem_toFinset.mp there)
        exact suited.checked process inside
      have quiet : (prepared history s.os.memory).UnwedgedInst proc ins := by
        have quiet := unwedged (proc, ins) inst
        rwa [Sys.UnwedgedInst, ← prepared_mm here] at quiet
      obtain ⟨isRegular, executes⟩ := underway.execute passed suited.frames
        (List.mem_toFinset.mpr (known proc here)) found quiet
      have regular : s.RegularStep label := fun executed same => by
        rw [inst] at same
        obtain rfl := Option.mem_some.mp same
        rwa [Sys.RegularInst, prepared_caller here] at isRegular
      refine ⟨regular, residing.computing.step regular (.execute inst here found ran memory pc),
        ?_⟩
      have asked : askedFor pcb t = fun other => demand ((pcb other).text.take
          (Function.update s.os.pc proc (s.os.pc proc + 1) other)) := by
        funext other
        rw [askedFor, pc]
      rw [memory, asked]
      exact (executes ran).housing

variable [DecidableEq κ]

/-- **The invariant of the whole run.** Every instruction up to here made a regular call, and the
pages of all processes are in RAM. -/
theorem reached_residing (attached : Attached devList)
    (distinct : (processes.map Prod.fst).Nodup) (suited : Suited pcb processes memory)
    (run : Run (Guarded (Step pcb timeSlot devList) UnwedgedStep) (start devList processes memory)
      history s) :
    Run (Guarded (Step pcb timeSlot devList) RegularStep) (start devList processes memory)
      history s ∧ Residing pcb processes memory history s := by
  refine run.reached_invariant (fun history s =>
    Run (Guarded (Step pcb timeSlot devList) RegularStep) (start devList processes memory)
      history s ∧ Residing pcb processes memory history s)
    (fun past before label after reached held taken => ?_)
    ⟨.nil _, start_residing suited⟩
  obtain ⟨unwedged, moved⟩ := taken
  have known : ∀ proc ∈ (arrived past).map Prod.fst, proc ∈ processes.map Prod.fst := by
    have scheduled := (arrived_scheduled attached reached.unguarded).sublist.map Prod.fst
    rw [arrivals_map] at scheduled
    exact fun proc member => scheduled.subset member
  obtain ⟨regular, residing⟩ := held.2.step suited known unwedged
    (step_effect attached distinct reached.unguarded moved)
  exact ⟨held.1.append (.single ⟨regular, moved⟩), residing⟩

omit [DecidableEq κ] in
/-- What the machine has of a process that has arrived. -/
theorem Residing.shows (residing : Residing pcb processes memory history s) {proc : α}
    (here : proc ∈ (arrived history).map Prod.fst) : (s.os.memory.mm proc).Housed ∧
      s.os.memory.Represents proc (variablesOf pcb s proc) := by
  have housed := residing.housing.housed proc
  rw [prepared_mm here] at housed
  exact ⟨housed, (prepared_represents here).mp (residing.computing.shows proc)⟩

/-- At the deadline the memory shows the variables of the whole programs. -/
theorem Residing.whole [Fintype κ] [Nonempty κ] (residing : Residing pcb processes memory history s)
    (attached : Attached devList) (distinct : (processes.map Prod.fst).Nodup)
    (fits : Fitting (prioOf pcb) (processes.map Prod.fst)) {last : Nat}
    (latest : ∀ arrival ∈ PagedOs.arrivals 0 processes, arrival.2 ≤ last)
    (run : Run (Step pcb timeSlot devList) (start devList processes memory) history s)
    (late : last + work pcb processes + 1 < s.arrivals.timer.time) :
    ∀ process ∈ processes, (s.os.memory.mm process.1).Housed ∧
      s.os.memory.Represents process.1 (computed (pcb process.1).text) := by
  intro process member
  have complete := complete_of_late attached distinct fits latest run late process member
  rw [← variablesOf_of_complete run complete]
  exact residing.shows (arrived_of_complete run complete)

/-- **Checked programs** make regular calls only, in every order in which the machine can execute
them. Their pages are in RAM, swap is never used, and the memory of a process shows the variables
that it has computed so far. At the deadline it shows those of the whole program. -/
theorem checked_programs_computed [Fintype κ] [Nonempty κ] (attached : Attached devList)
    (distinct : (processes.map Prod.fst).Nodup) (suited : Suited pcb processes memory)
    (fits : Fitting (prioOf pcb) (processes.map Prod.fst)) {last : Nat}
    (latest : ∀ arrival ∈ PagedOs.arrivals 0 processes, arrival.2 ≤ last)
    (run : Run (Guarded (Step pcb timeSlot devList) UnwedgedStep) (start devList processes memory)
      history s) :
    Run (Guarded (Step pcb timeSlot devList) RegularStep) (start devList processes memory)
        history s ∧
      s.os.memory.activeMswp = memory.activeMswp ∧
      (∀ proc ∈ (arrived history).map Prod.fst, (s.os.memory.mm proc).Housed ∧
        s.os.memory.Represents proc (variablesOf pcb s proc)) ∧
      (last + work pcb processes + 1 < s.arrivals.timer.time → ∀ process ∈ processes,
        (s.os.memory.mm process.1).Housed ∧
          s.os.memory.Represents process.1 (computed (pcb process.1).text)) := by
  obtain ⟨regular, residing⟩ := reached_residing attached distinct suited run
  exact ⟨regular, residing.housing.swap, fun proc here => residing.shows here,
    residing.whole attached distinct fits latest run.unguarded⟩

/-! ## The program that stores a byte -/

omit [DecidableEq α] [DecidableEq κ] in
/-- The free of a regular call is not wedged. -/
theorem RegularStep.unwedged (regular : s.RegularStep label) : s.UnwedgedStep label := by
  intro executed same frees
  have call := (regular executed same (.pgfreeData executed.2.arg0) (by
    simp only [Inst.memoryCall, frees, Option.mem_def])).2
  exact call

/-- The two programs pass the check and have a frame for each of their five pages. -/
theorem sharing_suited : Suited (sharing 600 520) [(proc0, 0), (proc1, 1)] (unusedMemory 1280) where
  checked := by decide +kernel
  unused := fun _ => rfl
  ramFormatted := Memphy.initMemphy_formatted ..
  swapFormatted := Memphy.initMemphy_formatted ..
  ramRandom := rfl
  swapRandom := rfl
  frames := by decide +kernel
  ramSize := by decide +kernel

/-- The run past the deadline, in which every instruction makes a regular call. -/
def stored : List (KernelStep (Fin 2) (Fin 2)) × Kernel (Fin 2) (Fin 2) :=
  (sharingStart.playRegular (sharing 600 520) 1 (attachAll 2) (overdueRun proc0 proc1)).get
    (by decide +kernel)

/-- The turns are a run of regular calls. -/
theorem run_stored : Run (Guarded (Step (sharing 600 520) 1 (attachAll 2)) RegularStep)
    sharingStart stored.1 stored.2 :=
  run_playRegular_get _

/-- The byte is in RAM, and swap is as it was. -/
theorem checked_programs_computed_stored :
    stored.2.os.memory.activeMswp = (unusedMemory 1280).activeMswp ∧
      (stored.2.os.memory.mm proc0).Housed ∧ (stored.2.os.memory.mm proc1).Housed ∧
        stored.2.os.memory.byteAt proc0 ((stored.2.os.memory.caller proc0).accessed 0 520) = 7 := by
  have latest : ∀ arrival ∈ PagedOs.arrivals 0 [(proc0, 0), (proc1, 1)], arrival.2 ≤ 1 := by
    decide
  have late : 1 + work (sharing 600 520) [(proc0, 0), (proc1, 1)] + 1 <
      stored.2.arrivals.timer.time := by decide +kernel
  obtain ⟨-, swap, -, whole⟩ := checked_programs_computed (attachAll_attached 2) (by decide)
    sharing_suited (sharing_fitting 600 520) latest
    (run_stored.mono fun _ _ _ taken => ⟨taken.1.unwedged, taken.2⟩)
  obtain ⟨housed, shows⟩ := whole late (proc0, 0) List.mem_cons_self
  obtain ⟨other, -⟩ := whole late (proc1, 1) (List.mem_cons_of_mem _ List.mem_cons_self)
  have held : computed (sharing 600 520 proc0).text 0 =
      some ((Variable.fresh 600).store 520 7) := rfl
  dsimp only at housed other shows
  exact ⟨swap, housed, other, (shows.shown 0 _ (by decide) held).2 520 7 (by decide) (by decide)⟩

end Kernel

end PagedOs
