import PagedOs.Loader.Files
import PagedOs.Memory.Word

/-! # The configuration file

`read_config` of `os.c`. It looks at what the first call of `fscanf` returns and at no other: a
number behind the first three that could not be read is what the memory held. Every configuration
is read back from a file that shows its numbers and words.
-/

namespace PagedOs

open Scanning

/-! ## Conversions of whole numbers -/

/-- The sign and the digits that a conversion of a whole number reads. -/
def scanSubject (file : List Char) : Option (Bool × List Char) × List Char :=
  let (negative, rest) := scanSign (skip isspace file)
  let digits := rest.takeWhile Char.isDigit
  let rest := rest.dropWhile Char.isDigit
  if digits = [] then (none, rest) else (some (negative, digits), rest)

/-- `strtol` in base 10, which keeps to the range of a `long`. -/
def strtol (negative : Bool) (digits : List Char) : Int :=
  let value : Int := Nat.ofDigitChars 10 digits 0
  if negative then max (-2 ^ 63) (-value) else min (2 ^ 63 - 1) value

/-- `strtoul` in base 10, all of it. -/
def strtoulLong (negative : Bool) (digits : List Char) : BitVec 64 :=
  let value := Nat.ofDigitChars 10 digits 0
  if 2 ^ 64 ≤ value then BitVec.ofNat 64 (2 ^ 64 - 1)
  else if negative then -BitVec.ofNat 64 value
  else BitVec.ofNat 64 value

/-- `%d`, which assigns a `long` to an `int`. -/
def scanInt (file : List Char) : Option Int × List Char :=
  let (subject, rest) := scanSubject file
  (subject.map fun (negative, digits) => toInt (strtol negative digits), rest)

/-- The conversion `%lu`: a number up to 2^64, which wraps for a minus sign. -/
def scanLong (file : List Char) : Option (BitVec 64) × List Char :=
  let (subject, rest) := scanSubject file
  (subject.map fun (negative, digits) => strtoulLong negative digits, rest)

/-! ## read_config -/

/-- `PAGING_MAX_MMSWP`, the number of swap devices that a configuration lists. -/
def pagingMaxMmswp : Nat := 4

/-- The start time, the file and the priority of a process. -/
structure ProcessLine where
  startTime : BitVec 64
  proc : List Char
  prio : BitVec 64
deriving DecidableEq

/-- The path of the file: the directory with the name behind it, which `strcat` puts together. -/
def ProcessLine.path (line : ProcessLine) : List Char := "input/proc/".toList ++ line.proc

/-- The size of the buffers for a name and for a path. -/
def pathSize : Nat := 100

/-- The variables that `read_config` sets, with those of the processes in order. -/
structure Config where
  timeSlot : Int
  numCpus : Int
  numProcesses : Int
  memramsz : Int
  memswpsz : List Int
  processes : List ProcessLine
deriving DecidableEq

/-- The messages that `read_config` and the checks behind it print before `exit(1)`. -/
inductive ConfigExit where
  | cannotFind
  | firstLine
deriving DecidableEq

/-- A number of one of the calls whose result is not looked at. -/
def readInt (unset : Int) (file : List Char) : Int × List Char :=
  match scanInt file with
  | (none, file) => (unset, file)
  | (some value, file) => (value, file)

/-- A number with the white space behind it. -/
def readIntLine (unset : Int) (file : List Char) : Int × List Char :=
  match scanInt file with
  | (none, file) => (unset, file)
  | (some value, file) => (value, skip isspace file)

/-- The sizes of the swap devices. The array is zero before. -/
def readSizes : Nat → List Char → List Int × List Char
  | 0, file => ([], file)
  | left + 1, file =>
      let (size, file) := readInt 0 file
      let (sizes, file) := readSizes left file
      (size :: sizes, file)

/-- The line of a process, with what the memory held before. A name is stored here whatever its
length, where the buffer and the path have 100 bytes each and a NUL would end the name: a line that
is `Named` is stored in C too. -/
def readLine (unset : ProcessLine) (file : List Char) : ProcessLine × List Char :=
  match scanLong file with
  | (none, file) => (unset, file)
  | (some startTime, file) =>
      match scanString (skip isspace file) with
      | (none, file) => ({ unset with startTime := startTime }, file)
      | (some proc, file) =>
          match scanLong (skip isspace file) with
          | (none, file) => (⟨startTime, proc, unset.prio⟩, file)
          | (some prio, file) => (⟨startTime, proc, prio⟩, skip isspace file)

/-- The loop over the processes from `i` on. -/
def readLines (unset : Nat → ProcessLine) : Nat → Nat → List Char → List ProcessLine
  | _, 0, _ => []
  | i, left + 1, file =>
      let (line, file) := readLine (unset i) file
      line :: readLines unset (i + 1) left file

/-- `read_config`, where `fopen` found the file. -/
def readConfig (unset : Nat → ProcessLine) : Option (List Char) → Except ConfigExit Config
  | none => .error .cannotFind
  | some file =>
      match scanInt file with
      | (none, _) => .error .firstLine
      | (some timeSlot, file) =>
          match scanInt (skip isspace file) with
          | (none, _) => .error .firstLine
          | (some numCpus, file) =>
              match scanInt (skip isspace file) with
              | (none, _) => .error .firstLine
              | (some numProcesses, file) =>
                  let (memramsz, file) := readIntLine 0 (skip isspace file)
                  let (memswpsz, file) := readSizes pagingMaxMmswp file
                  let processes := readLines unset 0 numProcesses.toNat (skip isspace file)
                  .ok ⟨timeSlot, numCpus, numProcesses, memramsz, memswpsz, processes⟩

/-! ## Reading a word -/

section Reads

variable {β : Type*}

/-- A conversion that reads the word as the value wherever it comes next. -/
def Reads (scan : List Char → Option β × List Char) (word : List Char) (value : β) : Prop :=
  ∀ file later, words isspace file = word :: later →
    ∃ rest, scan file = (some value, rest) ∧ words isspace rest = later

/-- The conversion `%s` reads any word as it is. -/
theorem reads_string (word : List Char) : Reads scanString word word :=
  fun _ _ found => scanString_of_words found

/-- The word of a number with its sign. -/
def signed (negative : Bool) (value : Nat) : List Char :=
  if negative then '-' :: decimal value else decimal value

/-- A number with its sign is a word without white space. -/
theorem proper_signed (negative : Bool) (value : Nat) : Proper isspace (signed negative value) := by
  cases negative with
  | false => exact proper_decimal value
  | true =>
      refine ⟨List.cons_ne_nil _ _, fun c member => ?_⟩
      rcases List.mem_cons.mp member with rfl | member
      · rfl
      · exact (proper_decimal value).2 c member

/-- The decimal digits of a number are digits for the conversions. -/
theorem decimal_digits (value : Nat) : ∀ c ∈ decimal value, c.isDigit = true :=
  fun _ member => Nat.isDigit_of_mem_toDigits (by decide) (by decide) member

/-- The sign and the digits of a number are read off its word. -/
theorem reads_subject (negative : Bool) (value : Nat) :
    Reads scanSubject (signed negative value) (negative, decimal value) := by
  intro file later found
  obtain ⟨rest, split, -, -, ends, counted⟩ := split_of_words found
  obtain ⟨reads, leaves⟩ := takeWhile_run (decimal_digits value)
    (fun c rest' shown => isDigit_of_isspace (ends c rest' shown))
  have nonempty : decimal value ≠ [] := Nat.toDigits_ne_nil
  have sign : scanSign (skip isspace file) = (negative, decimal value ++ rest) := by
    rw [split]
    cases negative with
    | true => rfl
    | false =>
        obtain ⟨c, tail, same⟩ := List.exists_cons_of_ne_nil nonempty
        have digit := decimal_digits value c (same ▸ List.mem_cons_self)
        rw [signed, if_neg Bool.false_ne_true, same, List.cons_append]
        exact scanSign_digit digit _
  refine ⟨rest, ?_, counted⟩
  simp only [scanSubject, sign, reads, leaves, if_neg nonempty]

/-- The value of the number that an `int` is written as. -/
def intWord (value : Int) : List Char := signed (value < 0) value.natAbs

/-- The digits of a number give its value back. -/
theorem ofDigitChars_decimal (value : Nat) : Nat.ofDigitChars 10 (decimal value) 0 = value :=
  Nat.ofDigitChars_ten_toDigits

/-- The conversion `%d` reads the word of a value of an `int` as this value. -/
theorem reads_int {value : Int} (low : -2 ^ 31 ≤ value) (high : value < 2 ^ 31) :
    Reads scanInt (intWord value) value := by
  intro file later found
  obtain ⟨rest, reads, counted⟩ := reads_subject (value < 0) value.natAbs file later found
  refine ⟨rest, ?_, counted⟩
  have back : toInt (strtol (value < 0) (decimal value.natAbs)) = value := by
    have inRange : strtol (value < 0) (decimal value.natAbs) = value := by
      simp only [strtol, ofDigitChars_decimal, decide_eq_true_eq]
      split <;> omega
    rw [inRange, toInt]
    exact BitVec.toInt_ofInt_eq_self (by decide) low high
  simp only [scanInt, reads, Option.map_some, back]

/-- The conversion `%lu` reads the digits of a value of 64 bits as this value. -/
theorem reads_long (value : BitVec 64) : Reads scanLong (decimal value.toNat) value := by
  intro file later found
  obtain ⟨rest, reads, counted⟩ := reads_subject false value.toNat file later found
  refine ⟨rest, ?_, counted⟩
  have back : strtoulLong false (decimal value.toNat) = value := by
    have small := value.isLt
    simp only [strtoulLong, ofDigitChars_decimal]
    rw [if_neg (Nat.not_le_of_lt small), if_neg Bool.false_ne_true, BitVec.ofNat_toNat,
      BitVec.setWidth_eq]
  simp only [scanLong, reads, Option.map_some, back]

end Reads

/-! ## Configuration files -/

/-- The words of the line of a process. -/
def ProcessLine.tokens (line : ProcessLine) : List (List Char) :=
  [decimal line.startTime.toNat, line.proc, decimal line.prio.toNat]

/-- The words of a configuration file as its format lays them out, line by line. -/
def Config.tokens (config : Config) : List (List Char) :=
  intWord config.timeSlot :: intWord config.numCpus :: intWord config.numProcesses ::
    intWord config.memramsz :: (config.memswpsz.map intWord ++
      config.processes.flatMap ProcessLine.tokens)

/-- The value is one of an `int`. -/
def IsInt (value : Int) : Prop := -2 ^ 31 ≤ value ∧ value < 2 ^ 31

/-- Two comparisons decide whether a value is one of an `int`. -/
instance (value : Int) : Decidable (IsInt value) := inferInstanceAs (Decidable (_ ∧ _))

/-- The name is a word that `read_config` stores as it is. It has no NUL, which would end it, and
the path with it leaves room for the NUL behind it. -/
structure ProcessLine.Named (line : ProcessLine) : Prop where
  word : Proper isspace line.proc
  noNul : Char.ofNat 0 ∉ line.proc
  fits : line.path.length < pathSize

/-- The variables have values of their types, and the file names are words that fit the buffers. -/
structure Config.Representable (config : Config) : Prop where
  timeSlot : IsInt config.timeSlot
  numCpus : IsInt config.numCpus
  numProcesses : IsInt config.numProcesses
  memramsz : IsInt config.memramsz
  memswpsz : ∀ size ∈ config.memswpsz, IsInt size
  sizes : config.memswpsz.length = pagingMaxMmswp
  processes : config.numProcesses = config.processes.length
  proc : ∀ line ∈ config.processes, line.Named

section Words

variable {file : List Char} {later : List (List Char)}

/-- A number whose result is not looked at is read where the file shows it. -/
theorem readInt_word {value : Int} (isInt : IsInt value)
    (found : words isspace file = intWord value :: later) (unset : Int) :
    ∃ rest, readInt unset file = (value, rest) ∧ words isspace rest = later := by
  obtain ⟨rest, reads, counted⟩ := reads_int isInt.1 isInt.2 file later found
  exact ⟨rest, by simp only [readInt, reads], counted⟩

/-- So is a number with the white space behind it. -/
theorem readIntLine_word {value : Int} (isInt : IsInt value)
    (found : words isspace file = intWord value :: later) (unset : Int) :
    ∃ rest, readIntLine unset file = (value, rest) ∧ words isspace rest = later := by
  obtain ⟨rest, reads, counted⟩ := reads_int isInt.1 isInt.2 file later found
  exact ⟨skip isspace rest, by simp only [readIntLine, reads], (words_skip rest).trans counted⟩

/-- The sizes of the swap devices are read one after the other. -/
theorem readSizes_words {sizes : List Int} (areInts : ∀ size ∈ sizes, IsInt size)
    (found : words isspace file = sizes.map intWord ++ later) :
    ∃ rest, readSizes sizes.length file = (sizes, rest) ∧ words isspace rest = later := by
  induction sizes generalizing file with
  | nil => exact ⟨file, rfl, found⟩
  | cons size sizes ih =>
      obtain ⟨middle, reads, counted⟩ := readInt_word (areInts size List.mem_cons_self) found 0
      obtain ⟨rest, reads', counted'⟩ :=
        ih (fun other member => areInts other (List.mem_cons_of_mem _ member)) counted
      exact ⟨rest, by simp only [List.length_cons, readSizes, reads, reads'], counted'⟩

/-- The line of a process is read as it is written, whatever the memory held before. -/
theorem readLine_words {line : ProcessLine} (found : words isspace file = line.tokens ++ later)
    (unset : ProcessLine) :
    ∃ rest, readLine unset file = (line, rest) ∧ words isspace rest = later := by
  obtain ⟨first, reads, counted⟩ := reads_long line.startTime file _ found
  rw [← words_skip] at counted
  obtain ⟨second, reads', counted'⟩ := reads_string line.proc _ _ counted
  rw [← words_skip] at counted'
  obtain ⟨third, reads'', counted''⟩ := reads_long line.prio _ _ counted'
  exact ⟨skip isspace third, by simp only [readLine, reads, reads', reads''],
    (words_skip third).trans counted''⟩

/-- All lines of the configuration are read, as many as there are processes. -/
theorem readLines_words {lines : List ProcessLine}
    (found : words isspace file = lines.flatMap ProcessLine.tokens ++ later)
    (unset : Nat → ProcessLine) (i : Nat) : readLines unset i lines.length file = lines := by
  induction lines generalizing file i with
  | nil => rfl
  | cons line lines ih =>
      rw [List.flatMap_cons, List.append_assoc] at found
      obtain ⟨rest, reads, counted⟩ := readLine_words found (unset i)
      simp only [List.length_cons, readLines, reads, ih counted]

end Words

/-- The words of a representable configuration have no white space in them, so that they are read
back one by one. -/
theorem proper_tokens {config : Config} (representable : config.Representable) :
    ∀ token ∈ config.tokens, Proper isspace token := by
  intro token member
  simp only [Config.tokens, List.mem_cons, List.mem_append, List.mem_map, List.mem_flatMap]
    at member
  rcases member with rfl | rfl | rfl | rfl | ⟨size, -, rfl⟩ | ⟨line, inside, member⟩
  · exact proper_signed ..
  · exact proper_signed ..
  · exact proper_signed ..
  · exact proper_signed ..
  · exact proper_signed ..
  · simp only [ProcessLine.tokens, List.mem_cons, List.not_mem_nil, or_false] at member
    rcases member with rfl | rfl | rfl
    · exact proper_decimal _
    · exact (representable.proc line inside).word
    · exact proper_decimal _

/-- The configuration that the first words show is read. -/
theorem readConfig_words {config : Config} (representable : config.Representable)
    {file : List Char} {further : List (List Char)}
    (shown : words isspace file = config.tokens ++ further) (unset : Nat → ProcessLine) :
    readConfig unset (some file) = .ok config := by
  simp only [Config.tokens, List.cons_append, List.append_assoc] at shown
  obtain ⟨first, reads, counted⟩ :=
    reads_int representable.timeSlot.1 representable.timeSlot.2 _ _ shown
  rw [← words_skip] at counted
  obtain ⟨second, reads', counted'⟩ :=
    reads_int representable.numCpus.1 representable.numCpus.2 _ _ counted
  rw [← words_skip] at counted'
  obtain ⟨third, reads'', counted''⟩ :=
    reads_int representable.numProcesses.1 representable.numProcesses.2 _ _ counted'
  rw [← words_skip] at counted''
  obtain ⟨fourth, ram, ramCounted⟩ := readIntLine_word representable.memramsz counted'' 0
  obtain ⟨fifth, swap, swapCounted⟩ := readSizes_words representable.memswpsz ramCounted
  rw [representable.sizes] at swap
  rw [← words_skip] at swapCounted
  have lines := readLines_words swapCounted unset 0
  have count : config.numProcesses.toNat = config.processes.length := by
    rw [representable.processes, Int.toNat_natCast]
  simp only [readConfig, reads, reads', reads'', ram, swap, count, lines]

/-- **`read_config` inverts the format.** Whatever the white space of the file, and whatever the
memory held, the configuration that the file shows is read. -/
theorem readConfig_tokens {config : Config} (representable : config.Representable)
    {file : List Char} (laid : LaidOut isspace config.tokens file) (unset : Nat → ProcessLine) :
    readConfig unset (some file) = .ok config := by
  obtain ⟨further, shown⟩ := words_of_laidOut (proper_tokens representable) laid
  exact readConfig_words representable shown unset

/-- Two CPUs, five frames of RAM and two processes. -/
def smallConfig : Config where
  timeSlot := 1
  numCpus := 2
  numProcesses := 2
  memramsz := 1280
  memswpsz := [1024, 0, 0, 0]
  processes := [⟨0, ['p', '0'], 0⟩, ⟨1, ['p', '1'], 1⟩]

/-- Each number of the small configuration fits its type, and the names are short words. -/
theorem smallConfig_representable : smallConfig.Representable where
  timeSlot := by decide
  numCpus := by decide
  numProcesses := by decide
  memramsz := by decide
  memswpsz := by decide
  sizes := rfl
  processes := rfl
  proc := fun line member => by
    simp only [smallConfig, List.mem_cons, List.not_mem_nil, or_false] at member
    rcases member with rfl | rfl
    · exact ⟨proper_of_all (List.cons_ne_nil _ _) rfl, by decide, by decide⟩
    · exact ⟨proper_of_all (List.cons_ne_nil _ _) rfl, by decide, by decide⟩

/-- The small configuration is read from a file with one blank between two words. -/
theorem readConfig_tokens_small :
    readConfig (fun _ => ⟨0, [], 0⟩) (some "1 2 2 1280 1024 0 0 0 0 p0 0 1 p1 1".toList) =
      .ok smallConfig := by
  have laid : LaidOut isspace smallConfig.tokens "1 2 2 1280 1024 0 0 0 0 p0 0 1 p1 1".toList :=
    laidOut_intercalate rfl _ _
  exact readConfig_tokens smallConfig_representable laid _

end PagedOs
