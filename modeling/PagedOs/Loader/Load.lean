import PagedOs.Loader.Scan
import PagedOs.Process.Run

/-! # The loader of process files

`load` reads a process from its file without looking at what `fscanf` returns: an operand that
could not be read keeps what the memory held, and where no opcode word is left the word before
it is used again. `parse` says which files hold a process and which one.
-/

namespace PagedOs

open Scanning

/-- `PAGE_SIZE`, which `load` puts into the descriptor of a process. -/
def pageSize : Nat := 2 ^ 10

/-- The word of a program file that stands for `CALC`, `OPT_CALC` of `loader.c`. -/
def optCalc : List Char := ['c', 'a', 'l', 'c']
/-- The word that stands for `ALLOC`, which has a size and a register behind it. -/
def optAlloc : List Char := ['a', 'l', 'l', 'o', 'c']
/-- The word that stands for `FREE`, which has a register behind it. -/
def optFree : List Char := ['f', 'r', 'e', 'e']
/-- The word that stands for `READ`, with the source, the offset and the destination. -/
def optRead : List Char := ['r', 'e', 'a', 'd']
/-- The word that stands for `WRITE`, with the data, the destination and the offset. -/
def optWrite : List Char := ['w', 'r', 'i', 't', 'e']

/-- The string that `strcmp` sees in a buffer. -/
def cString (buffer : List Char) : List Char := buffer.takeWhile (· ≠ '\x00')

/-- The messages that `load` and `get_opcode` print before `exit(1)`. -/
inductive LoadExit where
  | cannotFind
  | opcode (opt : List Char)
deriving DecidableEq

/-- `get_opcode`: the opcode of a word, compared with the five words one by one. -/
def getOpcode (opt : List Char) : Except LoadExit Opcode :=
  if cString opt = optCalc then .ok .calcOp
  else if cString opt = optAlloc then .ok .allocOp
  else if cString opt = optFree then .ok .freeOp
  else if cString opt = optRead then .ok .readOp
  else if cString opt = optWrite then .ok .writeOp
  else .error (.opcode opt)

/-- `struct code_seg_t`: the instructions, with the number that the file announces. -/
structure CodeSeg where
  text : List Inst
  size : BitVec 32
deriving DecidableEq

/-- The fields of `struct pcb_t` that `load` sets. -/
structure LoadedPcb where
  pid : BitVec 32
  priority : BitVec 32
  code : CodeSeg
  pc : BitVec 32
  bp : BitVec 32
deriving DecidableEq

/-- What the memory of `load` holds before it is written: two fields, the buffer for the opcode
words and the text. -/
structure Unset where
  priority : BitVec 32
  size : BitVec 32
  opcode : List Char
  text : Nat → Inst

/-- Zero-filled memory, in which an operand that was not read is 0. -/
def Unset.zeroed : Unset := ⟨0, 0, [], fun _ => ⟨.calcOp, 0, 0, 0⟩⟩

/-- The format of the operands: how many numbers `load` reads behind the opcode. -/
def Opcode.format : Opcode → List Directive
  | .calcOp => []
  | .allocOp => [.unsigned, .space, .unsigned, .space]
  | .freeOp => [.unsigned, .space]
  | .readOp => [.unsigned, .space, .unsigned, .space, .unsigned, .space]
  | .writeOp => [.unsigned, .space, .unsigned, .space, .unsigned, .space]

/-- The opcode and the operands that were assigned are written, the other operands are kept. -/
def Inst.assign (inst : Inst) (opcode : Opcode) (values : List (BitVec 32)) : Inst where
  opcode := opcode
  arg0 := values.getD 0 inst.arg0
  arg1 := values.getD 1 inst.arg1
  arg2 := values.getD 2 inst.arg2

/-- A round of the loop, with the buffer and the file as it leaves them. The buffer is taken to
hold a word of any length. -/
def loadInst (inst : Inst) (buffer file : List Char) :
    Except LoadExit (Inst × List Char × List Char) :=
  let (word, file) := scanString file
  let buffer := word.getD buffer
  match getOpcode buffer with
  | .error exit => .error exit
  | .ok opcode =>
      let (values, file) := fscanf opcode.format file
      .ok (inst.assign opcode values, buffer, file)

/-- An unknown opcode word ends the program with its message. -/
theorem loadInst_refused {inst : Inst} {buffer file : List Char} {exit : LoadExit}
    (unknown : getOpcode ((scanString file).1.getD buffer) = .error exit) :
    loadInst inst buffer file = .error exit := by
  simp only [loadInst, unknown]

/-- A known opcode word is read with the format of its operands. -/
theorem loadInst_accepted {inst : Inst} {buffer file : List Char} {opcode : Opcode}
    (known : getOpcode ((scanString file).1.getD buffer) = .ok opcode) :
    loadInst inst buffer file =
      .ok (inst.assign opcode (fscanf opcode.format (scanString file).2).1,
        (scanString file).1.getD buffer, (fscanf opcode.format (scanString file).2).2) := by
  simp only [loadInst, known]

/-- The loop of `load` from `i` on, with the text that is left. -/
def loadText (text : Nat → Inst) : Nat → Nat → List Char → List Char → Except LoadExit (List Inst)
  | _, 0, _, _ => .ok []
  | i, left + 1, buffer, file =>
      match loadInst (text i) buffer file with
      | .error exit => .error exit
      | .ok (inst, buffer, file) =>
          match loadText text (i + 1) left buffer file with
          | .error exit => .error exit
          | .ok later => .ok (inst :: later)

/-- `load`, with the next `avail_pid`, where `fopen` found the file. -/
def load (availPid : BitVec 32) (unset : Unset) :
    Option (List Char) → Except LoadExit (LoadedPcb × BitVec 32)
  | none => .error .cannotFind
  | some file =>
      let (values, file) := fscanf [.unsigned, .space, .unsigned] file
      let priority := values.getD 0 unset.priority
      let size := values.getD 1 unset.size
      match loadText unset.text 0 size.toNat unset.opcode file with
      | .error exit => .error exit
      | .ok text =>
          .ok (⟨availPid, priority, ⟨text, size⟩, 0, BitVec.ofNat 32 pageSize⟩, availPid + 1)

/-! ## Process files -/

/-- The word of an opcode, which `get_opcode` turns back into it. -/
def Opcode.word : Opcode → List Char
  | .calcOp => optCalc
  | .allocOp => optAlloc
  | .freeOp => optFree
  | .readOp => optRead
  | .writeOp => optWrite

/-- The number of operands that an opcode has. -/
def Opcode.arity : Opcode → Nat
  | .calcOp => 0
  | .allocOp => 2
  | .freeOp => 1
  | .readOp => 3
  | .writeOp => 3

/-- The opcode that a word is the name of, as the loop of `get_opcode` compares them. -/
def Opcode.ofWord (word : List Char) : Option Opcode :=
  [Opcode.calcOp, .allocOp, .freeOp, .readOp, .writeOp].find? fun opcode => opcode.word = word

/-- An instruction with as many operands as its opcode has. -/
structure Instruction where
  opcode : Opcode
  operands : List (BitVec 32)
  arity : operands.length = opcode.arity
deriving DecidableEq

/-- The instruction that is executed for a line: what the CPU casts its operands to. -/
def Inst.instruction (inst : Inst) : Instruction where
  opcode := inst.opcode
  operands := [inst.arg0, inst.arg1, inst.arg2].take inst.opcode.arity
  arity := by cases inst.opcode <;> rfl

/-- As many numerals are read as were asked for. -/
theorem numerals_length {count : Nat} {words later : List (List Char)} {values : List (BitVec 32)}
    (found : numerals count words = some (values, later)) : values.length = count := by
  induction count generalizing words values with
  | zero =>
      obtain ⟨rfl, _⟩ := Prod.mk.inj (Option.some.inj found)
      rfl
  | succ count ih =>
      obtain ⟨_, _, _, _, _, _, following, rfl⟩ := numerals_succ found
      exact congrArg (· + 1) (ih following)

/-- The instruction that the words start with. -/
def parseInstruction : List (List Char) → Option (Instruction × List (List Char))
  | [] => none
  | word :: words =>
      match Opcode.ofWord word with
      | none => none
      | some opcode =>
          match found : numerals opcode.arity words with
          | none => none
          | some (operands, words) => some (⟨opcode, operands, numerals_length found⟩, words)

/-- The instructions that the words start with. -/
def parseText : Nat → List (List Char) → Option (List Instruction)
  | 0, _ => some []
  | count + 1, words => do
      let (instruction, words) ← parseInstruction words
      let later ← parseText count words
      return instruction :: later

/-- A program with an instruction more begins with this instruction. -/
theorem parseText_succ {count : Nat} {words : List (List Char)} {program : List Instruction}
    (found : parseText (count + 1) words = some program) :
    ∃ instruction others later, parseInstruction words = some (instruction, others) ∧
      parseText count others = some later ∧ program = instruction :: later := by
  obtain ⟨⟨instruction, others⟩, first, found⟩ := Option.bind_eq_some_iff.mp found
  obtain ⟨later, following, same⟩ := Option.bind_eq_some_iff.mp found
  exact ⟨instruction, others, later, first, following, (Option.some.inj same).symm⟩

/-- The priority and the instructions of a process file: there are at least as many as it says. -/
def parse (file : List Char) : Option (BitVec 32 × List Instruction) :=
  match words isspace file with
  | priority :: size :: words => do
      let priority ← numeral priority
      let size ← numeral size
      let text ← parseText size.toNat words
      return (priority, text)
  | _ => none

/-- The name of an opcode is what `get_opcode` finds. -/
theorem getOpcode_of_ofWord {word : List Char} {opcode : Opcode}
    (known : Opcode.ofWord word = some opcode) : getOpcode word = .ok opcode := by
  have same := List.find?_some (p := fun opcode : Opcode => decide (opcode.word = word)) known
  rw [decide_eq_true_eq] at same
  rw [← same]
  cases opcode <;> rfl

/-- The format of an opcode has one number for each of its operands. -/
theorem Opcode.numbers_format (opcode : Opcode) :
    Directive.numbers opcode.format = opcode.arity := by
  cases opcode <;> rfl

/-- The operands that are all assigned are those of the instruction. -/
theorem Inst.assign_instruction (inst : Inst) (instruction : Instruction) :
    (inst.assign instruction.opcode instruction.operands).instruction = instruction := by
  obtain ⟨opcode, operands, arity⟩ := instruction
  simp only [Inst.assign, Inst.instruction, Instruction.mk.injEq, true_and]
  match opcode, operands, arity with
  | .calcOp, [], _ => rfl
  | .allocOp, [_, _], _ => rfl
  | .freeOp, [_], _ => rfl
  | .readOp, [_, _, _], _ => rfl
  | .writeOp, [_, _, _], _ => rfl

/-- A round reads the instruction that the file's words start with. -/
theorem loadInst_of_parse {file : List Char} {instruction : Instruction} {later : List (List Char)}
    (found : parseInstruction (words isspace file) = some (instruction, later)) (inst : Inst)
    (buffer : List Char) :
    ∃ word rest, loadInst inst buffer file =
        .ok (inst.assign instruction.opcode instruction.operands, word, rest) ∧
      words isspace rest = later := by
  cases shown : words isspace file with
  | nil =>
      rw [shown] at found
      exact nomatch found
  | cons word others =>
      rw [shown, parseInstruction] at found
      obtain ⟨behind, reads, counted⟩ := scanString_of_words shown
      cases known : Opcode.ofWord word with
      | none =>
          rw [known] at found
          exact nomatch found
      | some opcode =>
          simp only [known] at found
          split at found
          case h_1 => exact nomatch found
          case h_2 operands words' numbers =>
            obtain ⟨rfl, rfl⟩ := Prod.mk.inj (Option.some.inj found)
            rw [← counted, ← opcode.numbers_format] at numbers
            obtain ⟨rest, assigned, left⟩ := fscanf_of_words opcode.format numbers
            refine ⟨word, rest, ?_, left⟩
            have accepted : getOpcode ((scanString file).1.getD buffer) = .ok opcode := by
              rw [reads, Option.getD_some, getOpcode_of_ofWord known]
            rw [loadInst_accepted accepted, reads, assigned, Option.getD_some]

/-- The loop reads the instructions that the file's words start with. -/
theorem loadText_of_parse {count : Nat} {file : List Char} {program : List Instruction}
    (found : parseText count (words isspace file) = some program) (text : Nat → Inst) (i : Nat)
    (buffer : List Char) :
    ∃ loaded, loadText text i count buffer file = .ok loaded ∧
      loaded.map Inst.instruction = program := by
  induction count generalizing file program i buffer with
  | zero =>
      obtain rfl := Option.some.inj found
      exact ⟨[], rfl, rfl⟩
  | succ count ih =>
      obtain ⟨instruction, others, later, first, following, rfl⟩ := parseText_succ found
      obtain ⟨word, rest, reads, counted⟩ := loadInst_of_parse first (text i) buffer
      rw [← counted] at following
      obtain ⟨loaded, reads', equal⟩ := ih following (i + 1) word
      refine ⟨(text i).assign instruction.opcode instruction.operands :: loaded, ?_, ?_⟩
      · simp only [loadText, reads, reads']
      · rw [List.map_cons, equal, Inst.assign_instruction]

/-- As many instructions are read as the file declares. -/
theorem parseText_length {count : Nat} {words : List (List Char)} {program : List Instruction}
    (found : parseText count words = some program) : program.length = count := by
  induction count generalizing words program with
  | zero =>
      obtain rfl := Option.some.inj found
      rfl
  | succ count ih =>
      obtain ⟨_, _, _, _, following, rfl⟩ := parseText_succ found
      exact congrArg (· + 1) (ih following)

/-- The process is the one of the file. -/
structure LoadedPcb.Holds (pcb : LoadedPcb) (priority : BitVec 32) (program : List Instruction) :
    Prop where
  priority : pcb.priority = priority
  size : pcb.code.size.toNat = program.length
  text : pcb.code.text.map Inst.instruction = program
  pc : pcb.pc = 0

/-- **Well-formed files are loaded.** -/
theorem load_of_parse {file : List Char} {priority : BitVec 32} {program : List Instruction}
    (found : parse file = some (priority, program)) (availPid : BitVec 32) (unset : Unset) :
    ∃ pcb next, load availPid unset (some file) = .ok (pcb, next) ∧ pcb.Holds priority program := by
  rw [parse] at found
  split at found
  case h_2 => exact nomatch found
  case h_1 first second others shown =>
    obtain ⟨priority', numberFirst, found⟩ := Option.bind_eq_some_iff.mp found
    obtain ⟨size, numberSecond, found⟩ := Option.bind_eq_some_iff.mp found
    obtain ⟨program', parsed, same⟩ := Option.bind_eq_some_iff.mp found
    obtain ⟨rfl, rfl⟩ := Prod.mk.inj (Option.some.inj same)
    have numbers : numerals 2 (words isspace file) = some ([priority', size], others) := by
      rw [shown]
      simp only [numerals, numberFirst, numberSecond, Option.bind_eq_bind, Option.bind_some]
      rfl
    obtain ⟨rest, reads, counted⟩ :=
      fscanf_of_words [.unsigned, .space, .unsigned] numbers
    rw [← counted] at parsed
    obtain ⟨loaded, text, equal⟩ := loadText_of_parse parsed unset.text 0 unset.opcode
    refine ⟨⟨availPid, priority', ⟨loaded, size⟩, 0, BitVec.ofNat 32 pageSize⟩, availPid + 1, ?_,
      ⟨rfl, ?_, equal, rfl⟩⟩
    · simp only [load, reads, List.getD_cons_zero, List.getD_cons_succ, text]
    · exact (parseText_length parsed).symm

end PagedOs
