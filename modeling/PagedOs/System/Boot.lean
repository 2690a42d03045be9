import PagedOs.Loader.Config
import PagedOs.System.Checked

/-! # From files to memory

`main` of `os.c` with the files that it reads. When the configuration file shows a configuration
and the process files show programs, the machine that is started is the one of this configuration
and these programs, and what the processes have in their memory at the end is what the programs in
the files compute.
-/

namespace PagedOs

open Scanning Transition

/-! ## Instructions with the operands of their opcode -/

/-- The instruction with zeros for the operands that its opcode does not have. -/
def Instruction.inst (instruction : Instruction) : Inst where
  opcode := instruction.opcode
  arg0 := instruction.operands.getD 0 0
  arg1 := instruction.operands.getD 1 0
  arg2 := instruction.operands.getD 2 0

namespace Inst

variable (ins : Inst) (vars : Variables)

/-- An instruction computes the same from the operands of its opcode alone. -/
theorem compute_instruction : ins.instruction.inst.compute vars = ins.compute vars := by
  obtain ⟨opcode, arg0, arg1, arg2⟩ := ins
  cases opcode <;> rfl

/-- An instruction is valid by the operands of its opcode alone. -/
theorem valid_instruction : ins.instruction.inst.valid vars = ins.valid vars := by
  obtain ⟨opcode, arg0, arg1, arg2⟩ := ins
  cases opcode <;> rfl

/-- An instruction asks for bytes by the operands of its opcode alone. -/
theorem bytes_instruction : ins.instruction.inst.bytes = ins.bytes := by
  obtain ⟨opcode, arg0, arg1, arg2⟩ := ins
  cases opcode <;> rfl

end Inst

/-- The text that is executed for the instructions of a file. -/
def textOf (program : List Instruction) : List Inst := program.map Instruction.inst

section TextOf

variable (text : List Inst)

/-- A program computes the same from the text that was read from its file. -/
theorem computed_textOf : computed (textOf (text.map Inst.instruction)) = computed text := by
  simp only [computed, textOf, List.map_map, List.foldl_map, Function.comp_apply,
    Inst.compute_instruction]

/-- A program asks for the same from the text that was read from its file. -/
theorem demand_textOf : demand (textOf (text.map Inst.instruction)) = demand text := by
  simp only [demand, textOf, List.map_map]
  exact congrArg List.sum (List.map_congr_left fun ins _ => ins.bytes_instruction)

/-- A program is valid by the text that was read from its file. -/
theorem validFrom_textOf (vars : Variables) :
    validFrom vars (textOf (text.map Inst.instruction)) = validFrom vars text := by
  induction text generalizing vars with
  | nil => rfl
  | cons ins rest ih =>
      rw [validFrom, ← ih, ← Inst.valid_instruction, ← Inst.compute_instruction]
      rfl

/-- A program passes the check by the text that was read from its file. -/
theorem checked_textOf : checked (textOf (text.map Inst.instruction)) = checked text := by
  rw [checked, checked, validFrom_textOf, demand_textOf]

end TextOf

/-! ## main -/

/-- The path of the configuration file: the directory with the argument of `main` behind it,
whatever its length. The buffer has 100 bytes, so that in C the path has to be shorter. -/
def inputPath (name : List Char) : List Char := "input/".toList ++ name

/-- The threads of `load_proc`, each with what its memory held. They run together, and nothing
protects `avail_pid`, so each of them may find any value in it. -/
def loadAll (files : List Char → Option (List Char)) (availPid : Nat → BitVec 32)
    (unset : Nat → Unset) : Nat → List ProcessLine → Except LoadExit (List LoadedPcb)
  | _, [] => .ok []
  | i, line :: lines =>
      match load (availPid i) (unset i) (files line.path) with
      | .error exit => .error exit
      | .ok (pcb, _) =>
          match loadAll files availPid unset (i + 1) lines with
          | .error exit => .error exit
          | .ok pcbs => .ok (pcb :: pcbs)

/-- The messages before `exit(1)`, those of `read_config` and those of `load`. -/
inductive BootExit where
  | config (exit : ConfigExit)
  | load (exit : LoadExit)

/-- What `main` has read when the processes are loaded. -/
structure Booted where
  config : Config
  pcbs : List LoadedPcb

/-- `main` until the processes are loaded, with its argument. -/
def boot (files : List Char → Option (List Char)) (unsetLine : Nat → ProcessLine)
    (availPid : Nat → BitVec 32) (unset : Nat → Unset) (arg : List Char) :
    Except BootExit Booted :=
  match readConfig unsetLine (files (inputPath arg)) with
  | .error exit => .error (.config exit)
  | .ok config =>
      match loadAll files availPid unset 0 config.processes with
      | .error exit => .error (.load exit)
      | .ok pcbs => .ok ⟨config, pcbs⟩

/-- The processes with their start times, numbered in the order of the configuration. -/
def Config.schedule (config : Config) : List (Nat × Nat) :=
  config.processes.mapIdx fun proc line => (proc, line.startTime.toNat)

namespace Booted

/-- The processes by their place in the configuration. The priority of the configuration is assigned
to a field of 32 bits. -/
def pcb (b : Booted) (proc : Nat) : Pcb where
  prio := (b.config.processes[proc]?).elim 0 fun line => (line.prio.setWidth 32).toNat
  text := (b.pcbs[proc]?).elim [] fun pcb => pcb.code.text

/-- The number of CPUs that are started, none when the configuration has a negative number. -/
def numCpus (b : Booted) : Nat := b.config.numCpus.toNat

/-- The devices that `main` initialises, of which the first swap device is the active one. -/
def memory (b : Booted) : Sys Nat :=
  { Sys.boot Nat b.config.memramsz (b.config.memswpsz.getD 0 0) with mm := fun _ => .zeroed }

/-- The machine when the threads are started. -/
def start (b : Booted) : Kernel Nat (Fin b.numCpus) :=
  Kernel.start (Kernel.attachAll b.numCpus) b.config.schedule b.memory

/-- A step of the machine with the programs, the time slot and the CPUs that were read. -/
def Step (b : Booted) :
    Kernel Nat (Fin b.numCpus) → KernelStep Nat (Fin b.numCpus) → Kernel Nat (Fin b.numCpus) →
      Prop :=
  Kernel.Step b.pcb b.config.timeSlot (Kernel.attachAll b.numCpus)

end Booted

/-! ## Files that are well formed -/

/-- A program with the priority in its file. -/
structure Program where
  priority : BitVec 32
  instructions : List Instruction

/-- The file shows the program, whatever white space is between its words. -/
def Program.ShownBy (program : Program) (file : Option (List Char)) : Prop :=
  program.instructions.length < 2 ^ 32 ∧
    ∃ text ∈ file, LaidOut isspace (fileTokens program.priority program.instructions) text

/-- The files show a configuration and the programs of its processes, whatever their white space.
The path of the configuration file fits its buffer. -/
structure Installed (files : List Char → Option (List Char)) (arg : List Char) (config : Config)
    (programs : List Program) : Prop where
  argument : Char.ofNat 0 ∉ arg ∧ (inputPath arg).length < pathSize
  representable : config.Representable
  configFile : ∃ text ∈ files (inputPath arg), LaidOut isspace config.tokens text
  processFiles : List.Forall₂ (fun line program => program.ShownBy (files line.path))
    config.processes programs

/-- A file that shows a program holds it. -/
theorem parse_of_shown {program : Program} {text : List Char}
    (small : program.instructions.length < 2 ^ 32)
    (laid : LaidOut isspace (fileTokens program.priority program.instructions) text) :
    parse text = some (program.priority, program.instructions) := by
  obtain ⟨further, shown⟩ := words_of_laidOut (proper_fileTokens _ _) laid
  have size : (BitVec.ofNat 32 program.instructions.length).toNat =
      program.instructions.length := by
    rw [BitVec.toNat_ofNat, Nat.mod_eq_of_lt small]
  simp only [parse, shown, fileTokens, List.cons_append, numeral_decimal program.priority.isLt,
    numeral_decimal small, Option.bind_eq_bind, Option.bind_some, size, parseText_tokens,
    BitVec.ofNat_toNat, BitVec.setWidth_eq]
  rfl

theorem loadAll_of_shown {files : List Char → Option (List Char)} {lines : List ProcessLine}
    {programs : List Program}
    (shown : List.Forall₂ (fun line program => program.ShownBy (files line.path)) lines programs)
    (availPid : Nat → BitVec 32) (unset : Nat → Unset) (i : Nat) :
    ∃ pcbs, loadAll files availPid unset i lines = .ok pcbs ∧
      List.Forall₂ (fun pcb program => LoadedPcb.Holds pcb program.priority program.instructions)
        pcbs programs := by
  induction shown generalizing i with
  | nil => exact ⟨[], rfl, .nil⟩
  | @cons line program lines programs first rest ih =>
      obtain ⟨small, text, found, laid⟩ := first
      obtain ⟨pcb, next, loaded, holds⟩ :=
        load_of_parse (parse_of_shown small laid) (availPid i) (unset i)
      obtain ⟨pcbs, others, hold⟩ := ih (i + 1)
      refine ⟨pcb :: pcbs, ?_, .cons holds hold⟩
      rw [Option.mem_def] at found
      simp only [loadAll, found, loaded, others]

/-- The processes of the machine have the programs. -/
def Booted.Runs (b : Booted) (programs : List Program) : Prop :=
  List.Forall₂ (fun pcb program => LoadedPcb.Holds pcb program.priority program.instructions)
    b.pcbs programs

/-- The machine is started with the configuration and the programs of the files. -/
theorem boot_of_installed {files : List Char → Option (List Char)} {arg : List Char}
    {config : Config} {programs : List Program} (installed : Installed files arg config programs)
    (unsetLine : Nat → ProcessLine) (availPid : Nat → BitVec 32) (unset : Nat → Unset) :
    ∃ b, boot files unsetLine availPid unset arg = .ok b ∧ b.config = config ∧
      b.Runs programs := by
  obtain ⟨text, found, laid⟩ := installed.configFile
  obtain ⟨pcbs, loaded, hold⟩ := loadAll_of_shown installed.processFiles availPid unset 0
  rw [Option.mem_def] at found
  refine ⟨⟨config, pcbs⟩, ?_, rfl, hold⟩
  obtain ⟨further, shown⟩ := words_of_laidOut (proper_tokens installed.representable) laid
  simp only [boot, found, readConfig_words installed.representable shown, loaded]

/-! ## The machine computes the files -/

/-- The programs pass the check and the configuration has what they need: a CPU, a RAM with a frame
for every page that they ask for, and room in the ready queues. -/
structure Feasible (config : Config) (programs : List Program) : Prop where
  cpu : 0 < config.numCpus
  checked : ∀ program ∈ programs, checked (textOf program.instructions) = true
  frames : (programs.map fun program => demandedPages (textOf program.instructions)).sum ≤
    (config.memramsz / 256).toNat
  ramSize : 0 ≤ config.memramsz ∧ config.memramsz ≤ 2 ^ 21
  inRange : ∀ line ∈ config.processes, (line.prio.setWidth 32).toNat < maxPrio
  cells : ∀ level, (config.processes.countP fun line => (line.prio.setWidth 32).toNat = level) ≤
    maxQueueSize

/-- A function of the places that looks at the elements there. -/
private theorem map_range_eq {β γ : Type*} {l : List β} {f : β → γ} {g : Nat → γ}
    (same : ∀ i y, l[i]? = some y → g i = f y) : (List.range l.length).map g = l.map f := by
  refine List.ext_getElem (by rw [List.length_map, List.length_map, List.length_range])
    fun i left right => ?_
  rw [List.length_map] at right
  rw [List.getElem_map, List.getElem_map, List.getElem_range]
  exact same i _ (List.getElem?_eq_getElem right)

/-- Two lists related element by element have related elements at each place. -/
private theorem exists_of_forall₂ {β γ : Type*} {R : β → γ → Prop} {l : List β} {m : List γ}
    (all : List.Forall₂ R l m) {i : Nat} {y : γ} (found : m[i]? = some y) :
    ∃ x, l[i]? = some x ∧ R x y := by
  induction all generalizing i with
  | nil => simp at found
  | @cons first other rest others related _ ih =>
      cases i with
      | zero =>
          obtain rfl := Option.some.inj found
          exact ⟨first, rfl, related⟩
      | succ i => exact ih found

/-- The processes are numbered in the order of their lines. -/
theorem Config.schedule_fst (config : Config) :
    config.schedule.map Prod.fst = List.range config.processes.length := by
  refine List.ext_getElem (by simp only [schedule, List.length_map, List.length_mapIdx,
    List.length_range]) fun i left right => ?_
  simp only [schedule, List.getElem_map, List.getElem_mapIdx, List.getElem_range]

namespace Booted

variable {b : Booted} {programs : List Program}

/-- The text of a process is that of its program, up to operands that are not looked at. -/
theorem Runs.text (runs : b.Runs programs) {proc : Nat} {program : Program}
    (found : programs[proc]? = some program) :
    (b.pcb proc).text.map Inst.instruction = program.instructions := by
  obtain ⟨pcb, loaded, holds⟩ := exists_of_forall₂ runs found
  simp only [Booted.pcb, loaded, Option.elim_some]
  exact holds.text

/-- The priority of a process is the one of its line, cut to 32 bits. -/
theorem prio_eq {proc : Nat} {line : ProcessLine} (found : b.config.processes[proc]? = some line) :
    prioOf b.pcb proc = (line.prio.setWidth 32).toNat := by
  simp only [prioOf, pcb, found, Option.elim_some]

/-- A feasible configuration has cells in the ready queues for all processes of a level. -/
theorem fitting (feasible : Feasible b.config programs) :
    Fitting (prioOf b.pcb) (b.config.schedule.map Prod.fst) := by
  rw [Config.schedule_fst]
  refine ⟨fun proc member => ?_, fun level => ?_⟩
  · have found := List.getElem?_eq_getElem (List.mem_range.mp member)
    rw [prio_eq found]
    exact feasible.inRange _ (List.getElem_mem _)
  · have same := map_range_eq (l := b.config.processes) fun proc line found => prio_eq found
    have bound := feasible.cells level
    have counted := congrArg (List.countP fun prio => prio = level) same
    rw [List.countP_map, List.countP_map] at counted
    exact counted.trans_le bound

/-- **What boot establishes** for the machine: the programs pass the check, the memory is
zero-filled, both devices are formatted, and the RAM has the frames that the programs ask for. -/
theorem suited (runs : b.Runs programs) (feasible : Feasible b.config programs)
    (count : b.config.processes.length = programs.length) :
    Kernel.Suited b.pcb b.config.schedule b.memory where
  checked := fun process member => by
    have inside : process.1 < programs.length := by
      rw [← count, ← List.mem_range, ← Config.schedule_fst]
      exact List.mem_map_of_mem member
    have found := List.getElem?_eq_getElem inside
    rw [← checked_textOf, runs.text found]
    exact feasible.checked _ (List.getElem_mem _)
  unused := fun _ => rfl
  ramFormatted := Memphy.initMemphy_formatted ..
  swapFormatted := Memphy.initMemphy_formatted ..
  ramRandom := rfl
  swapRandom := rfl
  frames := by
    have pages := map_range_eq (l := programs) (g := fun proc => demandedPages (b.pcb proc).text)
      fun proc program found => by
        rw [demandedPages, ← demand_textOf, runs.text found]
    have free : b.memory.mram.freeFpList.length = (b.config.memramsz / 256).toNat := by
      simp only [memory, Sys.boot, Memphy.initMemphy_zeroed, Memphy.frames, List.length_map,
        List.length_range]
    rw [Config.schedule_fst, List.sum_toFinset _ List.nodup_range, count, pages, free]
    exact feasible.frames
  ramSize := by
    simp only [memory, Sys.boot, Memphy.initMemphy_size]
    exact feasible.ramSize

/-- The slots that the processes need are counted on the programs of the files. -/
theorem work_eq (runs : b.Runs programs) (count : b.config.processes.length = programs.length) :
    Kernel.work b.pcb b.config.schedule =
      (programs.map fun program => max 1 program.instructions.length).sum := by
  have shares := map_range_eq (l := programs) (g := Kernel.share b.pcb) fun proc program found => by
    rw [Kernel.share, ← List.length_map Inst.instruction, runs.text found]
  rw [Kernel.work, Config.schedule_fst, List.sum_toFinset _ List.nodup_range, count, shares]

end Booted

/-- **From the text of the files to the bytes in memory.** When the files show a configuration and
programs that it is feasible for, the machine starts, and in every run that is long enough the
memory of each process shows the variables that its program computes. -/
theorem installed_programs_computed {files : List Char → Option (List Char)} {arg : List Char}
    {config : Config} {programs : List Program} (installed : Installed files arg config programs)
    (feasible : Feasible config programs) {last : Nat}
    (latest : ∀ arrival ∈ arrivals 0 config.schedule, arrival.2 ≤ last)
    (unsetLine : Nat → ProcessLine) (availPid : Nat → BitVec 32) (unset : Nat → Unset) :
    ∃ b, boot files unsetLine availPid unset arg = .ok b ∧ b.config = config ∧
      ∀ history s, Run (Guarded b.Step Kernel.UnwedgedStep) b.start history s →
        last + (programs.map fun program => max 1 program.instructions.length).sum + 1 <
            s.arrivals.timer.time →
          s.os.memory.activeMswp = b.memory.activeMswp ∧
            ∀ proc program, programs[proc]? = some program → (s.os.memory.mm proc).Housed ∧
              s.os.memory.Represents proc (computed (textOf program.instructions)) := by
  obtain ⟨b, booted, rfl, runs⟩ := boot_of_installed installed unsetLine availPid unset
  refine ⟨b, booted, rfl, fun history s run late => ?_⟩
  have count := installed.processFiles.length_eq
  have distinct : (b.config.schedule.map Prod.fst).Nodup := by
    rw [Config.schedule_fst]
    exact List.nodup_range
  have attached := Kernel.attachAll_attached b.numCpus
  have cpu : Nonempty (Fin b.numCpus) := ⟨⟨0, by
    have := feasible.cpu
    rw [Booted.numCpus]
    omega⟩⟩
  rw [← Booted.work_eq runs count] at late
  obtain ⟨-, residing⟩ :=
    Kernel.reached_residing attached distinct (Booted.suited runs feasible count) run
  have whole := residing.whole attached distinct (Booted.fitting feasible) latest run.unguarded late
  refine ⟨residing.housing.swap, fun proc program found => ?_⟩
  have inside : proc < b.config.schedule.length := by
    rw [← List.length_map Prod.fst, Config.schedule_fst, List.length_range, count]
    exact (List.getElem?_eq_some_iff.mp found).1
  have place : (b.config.schedule[proc]).1 = proc := by
    simp only [Config.schedule, List.getElem_mapIdx]
  have shown := whole _ (List.getElem_mem inside)
  rw [place, ← computed_textOf, runs.text found] at shown
  exact shown

/-! ## Small files -/

/-- 600 bytes are allocated, and a byte is stored there and read again. -/
def storingProgram : Program :=
  ⟨15, [⟨.allocOp, [600, 0], rfl⟩, ⟨.writeOp, [7, 0, 520], rfl⟩, ⟨.readOp, [0, 520, 20], rfl⟩]⟩

/-- A program of one instruction, which allocates 300 bytes. -/
def allocatingProgram : Program := ⟨15, [⟨.allocOp, [300, 0], rfl⟩]⟩

/-- The small configuration, with the files of its two programs. -/
def smallFiles (path : List Char) : Option (List Char) :=
  if path = "input/small".toList then some "1 2 2 1280 1024 0 0 0 0 p0 0 1 p1 1".toList
  else if path = "input/proc/p0".toList then
    some "15 3 alloc 600 0 write 7 0 520 read 0 520 20".toList
  else if path = "input/proc/p1".toList then some "15 1 alloc 300 0".toList
  else none

/-- What `main` has read of these files when the threads start. -/
def smallBooted : Booted where
  config := smallConfig
  pcbs := [⟨1, 15, ⟨[⟨.allocOp, 600, 0, 0⟩, ⟨.writeOp, 7, 0, 520⟩, ⟨.readOp, 0, 520, 20⟩], 3⟩, 0,
    1024⟩, ⟨1, 15, ⟨[⟨.allocOp, 300, 0, 0⟩], 1⟩, 0, 1024⟩]

/-- A run of both processes past the deadline. -/
def smallRun : List (KernelStep Nat (Fin smallBooted.numCpus)) ×
    Kernel Nat (Fin smallBooted.numCpus) :=
  (smallBooted.start.playRegular smallBooted.pcb 1 (Kernel.attachAll 2)
    (Kernel.overdueRun 0 1)).get (by decide +kernel)

/-- Every free of the run is unwedged, as every call is regular. -/
theorem run_small : Run (Guarded smallBooted.Step Kernel.UnwedgedStep) smallBooted.start smallRun.1
    smallRun.2 := by
  have regular : Run (Guarded (Kernel.Step smallBooted.pcb 1 (Kernel.attachAll 2))
      Kernel.RegularStep) smallBooted.start smallRun.1 smallRun.2 := Kernel.run_playRegular_get _
  exact regular.mono fun _ _ _ taken => ⟨taken.1.unwedged, taken.2⟩

/-- The three files show the configuration and the two programs with one blank between two words.
-/
theorem smallFiles_installed :
    Installed smallFiles "small".toList smallConfig [storingProgram, allocatingProgram] where
  argument := by decide
  representable := smallConfig_representable
  configFile := ⟨_, rfl, laidOut_intercalate rfl _ _⟩
  processFiles := .cons ⟨by decide, _, rfl, laidOut_intercalate rfl _ _⟩
    (.cons ⟨by decide, _, rfl, laidOut_intercalate rfl _ _⟩ .nil)

/-- The small configuration has two CPUs and a frame for each of the five pages. -/
theorem smallConfig_feasible : Feasible smallConfig [storingProgram, allocatingProgram] where
  cpu := by decide
  checked := by decide +kernel
  frames := by decide +kernel
  ramSize := by decide
  inRange := by decide +kernel
  cells := fun _ => List.countP_le_length.trans (by decide)

/-- What is in memory in the end is what the two files say. -/
theorem installed_programs_computed_small :
    (smallRun.2.os.memory.mm 0).Housed ∧ (smallRun.2.os.memory.mm 1).Housed ∧
      smallRun.2.os.memory.byteAt 0 ((smallRun.2.os.memory.caller 0).accessed 0 520) = 7 := by
  have latest : ∀ arrival ∈ arrivals 0 smallConfig.schedule, arrival.2 ≤ 1 := by decide
  obtain ⟨b, booted, -, whole⟩ := installed_programs_computed smallFiles_installed
    smallConfig_feasible latest (fun _ => ⟨0, [], 0⟩) (fun _ => 1) (fun _ => .zeroed)
  have same : boot smallFiles (fun _ => ⟨0, [], 0⟩) (fun _ => 1) (fun _ => .zeroed) "small".toList =
      .ok smallBooted := rfl
  obtain rfl := Except.ok.inj (same.symm.trans booted)
  obtain ⟨-, shown⟩ := whole smallRun.1 smallRun.2 run_small (by decide +kernel)
  obtain ⟨housed, shows⟩ := shown 0 storingProgram rfl
  obtain ⟨other, -⟩ := shown 1 allocatingProgram rfl
  have held : computed (textOf storingProgram.instructions) 0 =
      some ((Variable.fresh 600).store 520 7) := rfl
  exact ⟨housed, other, (shows.shown 0 _ (by decide) held).2 520 7 (by decide) (by decide)⟩

end PagedOs
