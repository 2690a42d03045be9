import PagedOs.Loader.Load

/-! # Which process files are loaded

A file with the tokens of a program is loaded as that program. A file without is refused when
the loop meets an unknown opcode word; any other one is loaded too, as a program that it does not
hold.
-/

namespace PagedOs

open Scanning

/-! ## Files that are not well formed -/

/-- Within the instructions that are left the loop finds a word that is no opcode where it looks
for one. -/
inductive UnknownOpcode : Nat → List Char → List Char → Prop where
  | here {left : Nat} {buffer file : List Char} {exit : LoadExit} :
      getOpcode ((scanString file).1.getD buffer) = .error exit →
      UnknownOpcode (left + 1) buffer file
  | behind {left : Nat} {buffer file : List Char} {opcode : Opcode} :
      getOpcode ((scanString file).1.getD buffer) = .ok opcode →
      UnknownOpcode left ((scanString file).1.getD buffer)
        (fscanf opcode.format (scanString file).2).2 →
      UnknownOpcode (left + 1) buffer file

/-- The loop ends the program only at an unknown opcode word. -/
theorem loadText_error_iff (text : Nat → Inst) (i left : Nat) (buffer file : List Char) :
    (∃ exit, loadText text i left buffer file = .error exit) ↔ UnknownOpcode left buffer file := by
  induction left generalizing i buffer file with
  | zero =>
      constructor
      · rintro ⟨exit, stopped⟩
        rw [loadText] at stopped
        cases stopped
      · intro unknown
        cases unknown
  | succ left ih =>
      cases known : getOpcode ((scanString file).1.getD buffer) with
      | error exit =>
          have stopped : loadText text i (left + 1) buffer file = .error exit := by
            simp only [loadText, loadInst_refused known]
          exact ⟨fun _ => .here known, fun _ => ⟨exit, stopped⟩⟩
      | ok opcode =>
          have later := ih (i + 1) ((scanString file).1.getD buffer)
            (fscanf opcode.format (scanString file).2).2
          constructor
          · rintro ⟨exit, stopped⟩
            refine .behind known (later.mp ?_)
            simp only [loadText, loadInst_accepted known] at stopped
            split at stopped
            case h_1 exit' same => exact ⟨exit', same⟩
            case h_2 => cases stopped
          · intro unknown
            cases unknown with
            | here refused => cases known.symm.trans refused
            | behind known' unknown =>
                obtain rfl := Except.ok.inj (known.symm.trans known')
                obtain ⟨exit, stopped⟩ := later.mpr unknown
                refine ⟨exit, ?_⟩
                simp only [loadText, loadInst_accepted known, stopped]

/-- The file has an unknown opcode word among as many instructions as its size says. -/
def Refused (unset : Unset) (file : List Char) : Prop :=
  let read := fscanf [.unsigned, .space, .unsigned] file
  UnknownOpcode (read.1.getD 1 unset.size).toNat unset.opcode read.2

/-- A file is refused exactly when the loop meets a word that is no opcode. -/
theorem load_error_iff (availPid : BitVec 32) (unset : Unset) (file : List Char) :
    (∃ exit, load availPid unset (some file) = .error exit) ↔ Refused unset file := by
  rw [Refused, ← loadText_error_iff unset.text 0]
  cases same : loadText unset.text 0
    ((fscanf [.unsigned, .space, .unsigned] file).1.getD 1 unset.size).toNat unset.opcode
    (fscanf [.unsigned, .space, .unsigned] file).2 with
  | error exit =>
      refine ⟨fun _ => ⟨exit, rfl⟩, fun _ => ⟨exit, ?_⟩⟩
      simp only [load, same]
  | ok loaded =>
      constructor
      · rintro ⟨exit, stopped⟩
        simp only [load, same] at stopped
        cases stopped
      · rintro ⟨_, stopped⟩
        cases stopped

/-- What `load` owes to a file: it returns only the program that the file holds. -/
def ReturnsProgramsOnly (availPid : BitVec 32) (unset : Unset) (file : List Char) : Prop :=
  ∀ pcb next, load availPid unset (some file) = .ok (pcb, next) →
    ∃ priority program, parse file = some (priority, program) ∧ pcb.Holds priority program

/-- **`load` keeps to the programs of the files** where the file holds one, and where it happens
to end the program. -/
theorem returnsProgramsOnly_iff (availPid : BitVec 32) (unset : Unset) (file : List Char) :
    ReturnsProgramsOnly availPid unset file ↔ (parse file).isSome ∨ Refused unset file := by
  rw [← load_error_iff availPid]
  constructor
  · intro only
    cases loaded : load availPid unset (some file) with
    | error exit => exact .inr ⟨exit, rfl⟩
    | ok result =>
        obtain ⟨priority, program, found, _⟩ := only result.1 result.2 loaded
        exact .inl (Option.isSome_of_eq_some found)
  · rintro (wellFormed | ⟨exit, stopped⟩) pcb next loaded
    · obtain ⟨⟨priority, program⟩, found⟩ := Option.isSome_iff_exists.mp wellFormed
      obtain ⟨pcb', next', loaded', holds⟩ := load_of_parse found availPid unset
      obtain ⟨rfl, _⟩ := Prod.mk.inj (Except.ok.inj (loaded.symm.trans loaded'))
      exact ⟨priority, program, found, holds⟩
    · exact nomatch loaded.symm.trans stopped

/-- Two instructions are declared: the second one is `free` again, of what the memory held. -/
theorem load_repeats_opcode :
    ¬ReturnsProgramsOnly 1 ⟨0, 0, [], fun _ => ⟨.calcOp, 9, 9, 9⟩⟩
      ['1', ' ', '2', '\n', 'f', 'r', 'e', 'e', ' ', '3', '\n'] := by
  intro only
  obtain ⟨priority, program, found, _⟩ :=
    only ⟨1, 1, ⟨[⟨.freeOp, 3, 9, 9⟩, ⟨.freeOp, 9, 9, 9⟩], 2⟩, 0, 1024⟩ 2 (by decide)
  have none : parse ['1', ' ', '2', '\n', 'f', 'r', 'e', 'e', ' ', '3', '\n'] = none := by decide
  exact nomatch none.symm.trans found

/-! ## Files with the tokens of a program -/

/-- The decimal token of a number, as a program file holds it. -/
def decimal (value : Nat) : List Char := Nat.toDigits 10 value

/-- The words that an instruction has in a file: its opcode and its operands. -/
def Instruction.tokens (instruction : Instruction) : List (List Char) :=
  instruction.opcode.word :: instruction.operands.map fun value => decimal value.toNat

/-- The priority, the number of instructions and the instructions. -/
def fileTokens (priority : BitVec 32) (program : List Instruction) : List (List Char) :=
  decimal priority.toNat :: decimal program.length :: program.flatMap Instruction.tokens

theorem isspace_of_isDigit {c : Char} (digit : c.isDigit = true) : isspace c = false := by
  cases space : isspace c with
  | false => rfl
  | true => exact nomatch digit.symm.trans (isDigit_of_isspace space)

/-- The digits of a number form a word without white space. -/
theorem proper_decimal (value : Nat) : Proper isspace (decimal value) :=
  ⟨Nat.toDigits_ne_nil, fun _ member =>
    isspace_of_isDigit (Nat.isDigit_of_mem_toDigits (by decide) (by decide) member)⟩

/-- The word of an opcode has no white space in it. -/
theorem proper_word (opcode : Opcode) : Proper isspace opcode.word := by
  cases opcode <;> exact proper_of_all (List.cons_ne_nil _ _) rfl

/-- The words that a program is written with have no white space in them. -/
theorem proper_fileTokens (priority : BitVec 32) (program : List Instruction) :
    ∀ token ∈ fileTokens priority program, Proper isspace token := by
  intro token member
  rcases List.mem_cons.mp member with rfl | member
  · exact proper_decimal _
  rcases List.mem_cons.mp member with rfl | member
  · exact proper_decimal _
  obtain ⟨instruction, _, member⟩ := List.mem_flatMap.mp member
  rcases List.mem_cons.mp member with rfl | member
  · exact proper_word _
  · obtain ⟨value, _, rfl⟩ := List.mem_map.mp member
    exact proper_decimal _

/-- The digits of a number below `2 ^ 32` are the numeral of this number. -/
theorem numeral_decimal {value : Nat} (small : value < 2 ^ 32) :
    numeral (decimal value) = some (BitVec.ofNat 32 value) := by
  have digits : (decimal value).all Char.isDigit = true :=
    List.all_eq_true.mpr fun _ member =>
      Nat.isDigit_of_mem_toDigits (by decide) (by decide) member
  have back : Nat.ofDigitChars 10 (decimal value) 0 = value := Nat.ofDigitChars_ten_toDigits
  rw [numeral, back, if_pos ⟨Nat.toDigits_ne_nil, digits, small⟩]

/-- The operands of an instruction are read back from their digits, and the words behind them are
left. -/
theorem numerals_decimal (values : List (BitVec 32)) (further : List (List Char)) :
    numerals values.length ((values.map fun value => decimal value.toNat) ++ further) =
      some (values, further) := by
  induction values with
  | nil => rfl
  | cons value values ih =>
      simp only [List.length_cons, List.map_cons, List.cons_append, numerals, ih,
        numeral_decimal value.isLt, BitVec.ofNat_toNat, BitVec.setWidth_eq, Option.bind_eq_bind,
        Option.bind_some]
      rfl

/-- The word of an opcode is read as this opcode. -/
theorem Opcode.ofWord_word (opcode : Opcode) : Opcode.ofWord opcode.word = some opcode := by
  cases opcode <;> rfl

/-- An instruction is read back from its words, and the words behind them are left. -/
theorem parseInstruction_tokens (instruction : Instruction) (further : List (List Char)) :
    parseInstruction (instruction.tokens ++ further) = some (instruction, further) := by
  have operands := numerals_decimal instruction.operands further
  rw [instruction.arity] at operands
  rw [Instruction.tokens, List.cons_append, parseInstruction]
  simp only [Opcode.ofWord_word]
  split
  case h_1 missing => cases operands.symm.trans missing
  case h_2 found =>
    obtain ⟨rfl, rfl⟩ := Prod.mk.inj (Option.some.inj (found.symm.trans operands))
    rfl

/-- A program is read back from the words of its instructions. -/
theorem parseText_tokens (program : List Instruction) (further : List (List Char)) :
    parseText program.length (program.flatMap Instruction.tokens ++ further) = some program := by
  induction program with
  | nil => rfl
  | cons instruction program ih =>
      rw [List.length_cons, List.flatMap_cons, List.append_assoc, parseText,
        parseInstruction_tokens]
      simp only [Option.bind_eq_bind, Option.bind_some, ih]
      rfl

/-- **`load` inverts the format** for every program whose length the size field can hold. -/
theorem load_fileTokens (availPid : BitVec 32) (unset : Unset) (priority : BitVec 32)
    (program : List Instruction) (small : program.length < 2 ^ 32) (file : List Char)
    (laid : LaidOut isspace (fileTokens priority program) file) :
    ∃ pcb next, load availPid unset (some file) = .ok (pcb, next) ∧ pcb.Holds priority program := by
  obtain ⟨further, shown⟩ := words_of_laidOut (proper_fileTokens priority program) laid
  apply load_of_parse
  have size : (BitVec.ofNat 32 program.length).toNat = program.length := by
    rw [BitVec.toNat_ofNat, Nat.mod_eq_of_lt small]
  simp only [parse, shown, fileTokens, List.cons_append, numeral_decimal priority.isLt,
    numeral_decimal small, Option.bind_eq_bind, Option.bind_some, size, parseText_tokens,
    BitVec.ofNat_toNat, BitVec.setWidth_eq]
  rfl

/-- A file with two instructions is loaded as a process that holds them. -/
theorem load_fileTokens_short :
    ∃ pcb next, load 1 Unset.zeroed (some ['1', ' ', '2', '\n', 'f', 'r', 'e', 'e', ' ', '7', '\n',
        'c', 'a', 'l', 'c', '\n']) = .ok (pcb, next) ∧
      pcb.Holds 1 [⟨.freeOp, [7], rfl⟩, ⟨.calcOp, [], rfl⟩] :=
  load_fileTokens 1 Unset.zeroed 1 [⟨.freeOp, [7], rfl⟩, ⟨.calcOp, [], rfl⟩] (by decide) _
    (.cons ['1'] [' '] (List.cons_ne_nil _ _) (List.all_eq_true.mp rfl)
      (.cons ['2'] ['\n'] (List.cons_ne_nil _ _) (List.all_eq_true.mp rfl)
        (.cons optFree [' '] (List.cons_ne_nil _ _) (List.all_eq_true.mp rfl)
          (.cons ['7'] ['\n'] (List.cons_ne_nil _ _) (List.all_eq_true.mp rfl)
            (.last optCalc ['\n'] (ends_cons rfl []))))))

/-- The size field cannot hold the length of a program of 2^32 instructions. -/
theorem load_fileTokens_long :
    ∃ file, LaidOut isspace (fileTokens 1 (List.replicate (2 ^ 32) ⟨.calcOp, [], rfl⟩)) file ∧
      ∀ pcb next, load 1 Unset.zeroed (some file) = .ok (pcb, next) →
        ¬pcb.Holds 1 (List.replicate (2 ^ 32) ⟨.calcOp, [], rfl⟩) := by
  have blank : isspace ' ' = true := rfl
  obtain ⟨file, laid⟩ := exists_laidOut blank (decimal (1 : BitVec 32).toNat)
    (decimal (List.replicate (2 ^ 32) (⟨.calcOp, [], rfl⟩ : Instruction)).length ::
      (List.replicate (2 ^ 32) ⟨.calcOp, [], rfl⟩).flatMap Instruction.tokens)
  refine ⟨file, laid, fun pcb next _ holds => ?_⟩
  have bounded := pcb.code.size.isLt
  rw [holds.size, List.length_replicate] at bounded
  exact lt_irrefl _ bounded

/-! ## Files that end too early -/

theorem fscanf_exhausted (format : List Directive) {file : List Char}
    (exhausted : words isspace file = []) : words isspace (fscanf format file).2 = [] := by
  have skipped := skip_eq_nil exhausted
  induction format generalizing file with
  | nil => exact exhausted
  | cons directive format ih =>
      cases directive with
      | space =>
          rw [fscanf, skipped]
          exact ih words_nil rfl
      | unsigned =>
          have nothing : scanUnsigned file = (none, []) := by
            simp only [scanUnsigned, skipped]
            rfl
          simp only [fscanf, nothing]
          exact words_nil

/-- Where the words end, the opcode word before is found again and again. -/
theorem not_unknown_exhausted {left : Nat} {buffer file : List Char} {opcode : Opcode}
    (exhausted : words isspace file = []) (known : getOpcode buffer = .ok opcode) :
    ¬UnknownOpcode left buffer file := by
  induction left generalizing file with
  | zero =>
      intro unknown
      cases unknown
  | succ left ih =>
      have skipped := skip_eq_nil exhausted
      have nothing : scanString file = (none, []) := by
        simp only [scanString, skipped, ↓reduceIte]
      intro unknown
      cases unknown with
      | here refused =>
          rw [nothing, Option.getD_none] at refused
          cases known.symm.trans refused
      | behind accepted unknown =>
          rw [nothing, Option.getD_none] at unknown
          exact ih (fscanf_exhausted _ words_nil) unknown

/-- The opcode words of a program and the last of them again are all known. -/
theorem not_unknown_tokens {program : List Instruction} {left : Nat} {buffer file : List Char}
    (shown : words isspace file = program.flatMap Instruction.tokens)
    (known : program ≠ [] ∨ ∃ opcode, getOpcode buffer = .ok opcode) :
    ¬UnknownOpcode left buffer file := by
  induction program generalizing left buffer file with
  | nil =>
      obtain ⟨opcode, accepted⟩ := known.resolve_left (absurd rfl)
      exact not_unknown_exhausted shown accepted
  | cons instruction program ih =>
      rw [List.flatMap_cons, Instruction.tokens, List.cons_append] at shown
      obtain ⟨behind, reads, counted⟩ := scanString_of_words shown
      have accepted : getOpcode ((scanString file).1.getD buffer) = .ok instruction.opcode := by
        rw [reads, Option.getD_some, getOpcode_of_ofWord (Opcode.ofWord_word _)]
      have operands := numerals_decimal instruction.operands
        (program.flatMap Instruction.tokens)
      rw [instruction.arity, ← counted, ← instruction.opcode.numbers_format] at operands
      obtain ⟨rest, assigned, left'⟩ := fscanf_of_words instruction.opcode.format operands
      intro unknown
      cases unknown with
      | here refused => exact nomatch accepted.symm.trans refused
      | behind accepted' unknown =>
          obtain rfl := Except.ok.inj (accepted.symm.trans accepted')
          rw [reads, assigned] at unknown
          exact ih left' (.inr ⟨_, getOpcode_of_ofWord (Opcode.ofWord_word _)⟩) unknown

/-- **A file that ends too early is loaded all the same**, however many instructions it declares,
if it has one. -/
theorem load_accepts_short (availPid : BitVec 32) (unset : Unset) {priority size : BitVec 32}
    {program : List Instruction} (nonempty : program ≠ []) {file : List Char}
    (shown : words isspace file = decimal priority.toNat :: decimal size.toNat ::
      program.flatMap Instruction.tokens) :
    ∃ result, load availPid unset (some file) = .ok result := by
  have header : numerals 2 (words isspace file) =
      some ([priority, size], program.flatMap Instruction.tokens) := by
    rw [shown]
    exact numerals_decimal [priority, size] _
  obtain ⟨rest, reads, counted⟩ := fscanf_of_words [.unsigned, .space, .unsigned] header
  cases loaded : load availPid unset (some file) with
  | ok result => exact ⟨result, rfl⟩
  | error exit =>
      have refused := (load_error_iff availPid unset file).mp ⟨exit, loaded⟩
      rw [Refused, reads] at refused
      exact absurd refused (not_unknown_tokens counted (.inl nonempty))

end PagedOs
