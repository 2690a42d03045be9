import Mathlib.Data.BitVec
import PagedOs.Library.Scanning

/-! # Conversions of `fscanf`

What `%u`, `%s` and white space of a format read, on the characters that are left of a file. A
conversion that fails assigns nothing, and the directives behind it are not carried out.

`numeral` says which words are unsigned numbers of 32 bits. `%u` reads each of them as that
number, and as more than these: it takes a sign, the digits in front of other characters and
numbers that do not fit.
-/

namespace PagedOs

open Scanning

/-- `isspace` in the C locale: a blank, and the characters from tab to carriage return. -/
def isspace (c : Char) : Bool :=
  c = ' ' || c = '\t' || c = '\n' || c = '\x0b' || c = '\x0c' || c = '\r'

/-- The conversion `%s`: white space is skipped, and the word ends where there is more. -/
def scanString (file : List Char) : Option (List Char) × List Char :=
  let rest := skip isspace file
  if rest = [] then (none, rest) else (some (headWord isspace rest), behindWord isspace rest)

/-- The sign in front of a number, which need not be there: it is a minus, and what follows. -/
def scanSign : List Char → Bool × List Char
  | '-' :: rest => (true, rest)
  | '+' :: rest => (false, rest)
  | rest => (false, rest)

/-- `strtoul` in base 10, of which `%u` assigns the lower 32 bits. -/
def strtoul (negative : Bool) (digits : List Char) : BitVec 32 :=
  let value := Nat.ofDigitChars 10 digits 0
  if 2 ^ 64 ≤ value then BitVec.ofNat 32 (2 ^ 64 - 1)
  else if negative then -BitVec.ofNat 32 value
  else BitVec.ofNat 32 value

/-- The conversion `%u`: a number modulo 2^32, which a minus sign may precede. -/
def scanUnsigned (file : List Char) : Option (BitVec 32) × List Char :=
  let (negative, rest) := scanSign (skip isspace file)
  let digits := rest.takeWhile Char.isDigit
  let rest := rest.dropWhile Char.isDigit
  -- A sign without digits is gone all the same.
  if digits = [] then (none, rest) else (some (strtoul negative digits), rest)

/-- A directive of a format: `%u` or white space. -/
inductive Directive where
  | unsigned
  | space

/-- `fscanf`, with the values that it assigns. -/
def fscanf : List Directive → List Char → List (BitVec 32) × List Char
  | [], file => ([], file)
  | .space :: format, file => fscanf format (skip isspace file)
  | .unsigned :: format, file =>
      match scanUnsigned file with
      | (none, rest) => ([], rest)
      | (some value, rest) =>
          let (values, rest) := fscanf format rest
          (value :: values, rest)

/-- The number of `%u` in a format. -/
def Directive.numbers : List Directive → Nat
  | [] => 0
  | .space :: format => numbers format
  | .unsigned :: format => numbers format + 1

/-- The number that a word of digits is. -/
def numeral (word : List Char) : Option (BitVec 32) :=
  if word ≠ [] ∧ word.all Char.isDigit ∧ Nat.ofDigitChars 10 word 0 < 2 ^ 32 then
    some (BitVec.ofNat 32 (Nat.ofDigitChars 10 word 0))
  else none

/-- The numbers that a text's first words are, and the words behind them. -/
def numerals : Nat → List (List Char) → Option (List (BitVec 32) × List (List Char))
  | 0, words => some ([], words)
  | _ + 1, [] => none
  | count + 1, word :: words => do
      let value ← numeral word
      let (values, words) ← numerals count words
      return (value :: values, words)

theorem numerals_succ {count : Nat} {words later : List (List Char)} {values : List (BitVec 32)}
    (found : numerals (count + 1) words = some (values, later)) :
    ∃ word others value values', words = word :: others ∧ numeral word = some value ∧
      numerals count others = some (values', later) ∧ values = value :: values' := by
  cases words with
  | nil => exact nomatch found
  | cons word others =>
      obtain ⟨value, number, found⟩ := Option.bind_eq_some_iff.mp found
      obtain ⟨⟨values', later'⟩, following, same⟩ := Option.bind_eq_some_iff.mp found
      obtain ⟨rfl, rfl⟩ := Prod.mk.inj (Option.some.inj same)
      exact ⟨word, others, value, values', rfl, number, following, rfl⟩

/-- The six characters that `isspace` accepts in the C locale. -/
theorem isspace_cases {c : Char} (space : isspace c = true) :
    c = ' ' ∨ c = '\t' ∨ c = '\n' ∨ c = '\x0b' ∨ c = '\x0c' ∨ c = '\r' := by
  simpa only [isspace, Bool.or_eq_true, decide_eq_true_eq, or_assoc] using space

/-- White space is not a digit, so that it ends a number. -/
theorem isDigit_of_isspace {c : Char} (space : isspace c = true) : c.isDigit = false := by
  rcases isspace_cases space with rfl | rfl | rfl | rfl | rfl | rfl <;> rfl

/-- A number starts with its digits: it has no sign. -/
theorem scanSign_digit {c : Char} (digit : c.isDigit = true) (rest : List Char) :
    scanSign (c :: rest) = (false, c :: rest) := by
  have minus : c ≠ '-' := by
    rintro rfl
    exact absurd digit (by decide)
  have plus : c ≠ '+' := by
    rintro rfl
    exact absurd digit (by decide)
  rw [scanSign]
  · rintro _ same
    exact minus (List.cons.inj same).1
  · rintro _ same
    exact plus (List.cons.inj same).1

/-- A number below `2 ^ 32` is converted without loss. -/
theorem strtoul_small {digits : List Char} (small : Nat.ofDigitChars 10 digits 0 < 2 ^ 32) :
    strtoul false digits = BitVec.ofNat 32 (Nat.ofDigitChars 10 digits 0) := by
  rw [strtoul, if_neg (by omega), if_neg Bool.false_ne_true]

/-- Reading a word finds the text in front of it, the word and the text behind it. -/
theorem split_of_words {file word : List Char} {later : List (List Char)}
    (found : words isspace file = word :: later) :
    ∃ rest, skip isspace file = word ++ rest ∧ headWord isspace (skip isspace file) = word ∧
      behindWord isspace (skip isspace file) = rest ∧ Ends isspace rest ∧
      words isspace rest = later := by
  rw [words_eq] at found
  split at found
  · exact absurd found (List.cons_ne_nil _ _).symm
  · obtain ⟨rfl, rfl⟩ := List.cons.inj found
    exact ⟨_, (headWord_append_behindWord _).symm, rfl, rfl, ends_behindWord _, rfl⟩

/-- `%s` reads the next word of the file. -/
theorem scanString_of_words {file word : List Char} {later : List (List Char)}
    (found : words isspace file = word :: later) :
    ∃ rest, scanString file = (some word, rest) ∧ words isspace rest = later := by
  obtain ⟨rest, _, whole, behind, _, counted⟩ := split_of_words found
  have more : skip isspace file ≠ [] := by
    intro none
    rw [words_eq, if_pos none] at found
    exact absurd found (List.cons_ne_nil _ _).symm
  refine ⟨rest, ?_, counted⟩
  simp only [scanString, if_neg more, whole, behind]

/-- `%u` reads the next word of the file when it is a number. -/
theorem scanUnsigned_of_words {file word : List Char} {later : List (List Char)} {value : BitVec 32}
    (found : words isspace file = word :: later) (number : numeral word = some value) :
    ∃ rest, scanUnsigned file = (some value, rest) ∧ words isspace rest = later := by
  obtain ⟨rest, split, _, _, ends, counted⟩ := split_of_words found
  rw [numeral] at number
  split at number
  case isFalse => exact absurd number.symm (Option.some_ne_none value)
  case isTrue shape =>
    obtain ⟨nonempty, all, small⟩ := shape
    have digits := List.all_eq_true.mp all
    obtain ⟨reads, leaves⟩ := takeWhile_run digits
      (fun c rest' shown => isDigit_of_isspace (ends c rest' shown))
    have unsigned : scanSign (skip isspace file) = (false, word ++ rest) := by
      obtain ⟨c, tail, rfl⟩ := List.exists_cons_of_ne_nil nonempty
      rw [split, List.cons_append]
      exact scanSign_digit (digits c List.mem_cons_self) _
    refine ⟨rest, ?_, counted⟩
    simp only [scanUnsigned, unsigned, reads, leaves, if_neg nonempty, strtoul_small small]
    rw [Option.some.inj number]

/-- **A format reads the next words of the file** when they are the numbers it asks for. -/
theorem fscanf_of_words (format : List Directive) {file : List Char} {values : List (BitVec 32)}
    {later : List (List Char)}
    (found : numerals (Directive.numbers format) (words isspace file) = some (values, later)) :
    ∃ rest, fscanf format file = (values, rest) ∧ words isspace rest = later := by
  induction format generalizing file values with
  | nil =>
      obtain ⟨rfl, rfl⟩ := Prod.mk.inj (Option.some.inj found)
      exact ⟨file, rfl, rfl⟩
  | cons directive format ih =>
      cases directive with
      | space =>
          rw [← words_skip] at found
          exact ih found
      | unsigned =>
          obtain ⟨word, others, value, values', shown, number, following, rfl⟩ :=
            numerals_succ found
          obtain ⟨rest, reads, counted⟩ := scanUnsigned_of_words shown number
          rw [← counted] at following
          obtain ⟨rest', reads', counted'⟩ := ih following
          refine ⟨rest', ?_, counted'⟩
          simp only [fscanf, reads, reads']

end PagedOs
