import Mathlib.Data.List.TakeWhile

/-! # Words in a text

A text is read word by word: separators are skipped, and a word goes on to the next separator or
the end. `words_eq_cons` says what such a reading finds in a text with given words, `LaidOut`
which texts show given words, with any gaps between them.
-/

namespace Scanning

variable {α : Type*} (space : α → Bool)

/-- The text behind the separators it starts with. -/
def skip (text : List α) : List α := text.dropWhile space

/-- The word that a text starts with. -/
def headWord (text : List α) : List α := text.takeWhile fun c => !space c

/-- The text behind the word it starts with. -/
def behindWord (text : List α) : List α := text.dropWhile fun c => !space c

/-- The words of a text: the longest pieces of it without a separator. -/
def words (text : List α) : List (List α) := (text.splitOnP space).filter fun word => !word.isEmpty

/-- The text is at its end or goes on with a separator. -/
def Ends (text : List α) : Prop := ∀ c rest, text = c :: rest → space c = true

/-- A word is not empty and has no separators. -/
def Proper (word : List α) : Prop := word ≠ [] ∧ ∀ c ∈ word, space c = false

variable {space}

/-- The end of the text ends a word. -/
theorem ends_nil : Ends space [] := fun _ _ nothing => absurd nothing (List.cons_ne_nil _ _).symm

/-- A separator ends the word in front of it. -/
theorem ends_cons {c : α} (separator : space c = true) (rest : List α) : Ends space (c :: rest) :=
  fun _ _ same => (List.cons.inj same).1 ▸ separator

/-- A word is proper when it has a character and none of its characters is a separator. -/
theorem proper_of_all {word : List α} (nonempty : word ≠ [])
    (inside : (word.all fun c => !space c) = true) : Proper space word :=
  ⟨nonempty, fun c member => (Bool.not_eq_true' _).mp (List.all_eq_true.mp inside c member)⟩

theorem words_nil : words space [] = [] := by
  rw [words, List.splitOnP_nil]
  rfl

/-- A separator in front of a text does not change its words. -/
theorem words_cons {c : α} (separator : space c = true) (text : List α) :
    words space (c :: text) = words space text := by
  rw [words, List.splitOnP_cons_eq_if_modifyHead, if_pos separator, List.filter_cons]
  rfl

/-- Skipping separators begins with the one in front. -/
theorem skip_cons {c : α} (separator : space c = true) (text : List α) :
    skip space (c :: text) = skip space text :=
  List.dropWhile_cons_of_pos separator

/-- The words of a text are the same when the separators in front of it are skipped. -/
theorem words_skip (text : List α) : words space (skip space text) = words space text := by
  induction text with
  | nil => rfl
  | cons c text ih =>
      cases separator : space c with
      | true => rw [skip_cons separator, ih, words_cons separator]
      | false => rw [skip, List.dropWhile_cons_of_neg (by rw [separator]; exact Bool.false_ne_true)]

/-- A word with a separator or nothing behind it is the first word. -/
theorem words_append {word : List α} (proper : Proper space word) {rest : List α}
    (ends : Ends space rest) : words space (word ++ rest) = word :: words space rest := by
  obtain ⟨nonempty, inside⟩ := proper
  have kept : (!word.isEmpty) = true := by
    rw [Bool.not_eq_true', List.isEmpty_eq_false_iff]
    exact nonempty
  cases rest with
  | nil =>
      rw [List.append_nil, words, List.splitOnP_eq_singleton inside, words_nil]
      simp only [List.filter_cons, kept, ↓reduceIte, List.filter_nil]
  | cons c rest =>
      have separator := ends c rest rfl
      rw [words_cons separator, words, List.splitOnP_append_cons_of_forall_mem inside c separator,
        words]
      simp only [List.filter_cons, kept, ↓reduceIte]

/-- A run of characters that pass a test ends where the first one fails it. -/
theorem takeWhile_run {test : α → Bool} {run rest : List α} (passes : ∀ c ∈ run, test c = true)
    (stops : ∀ c later, rest = c :: later → test c = false) :
    (run ++ rest).takeWhile test = run ∧ (run ++ rest).dropWhile test = rest := by
  rw [List.takeWhile_append_of_pos passes, List.dropWhile_append_of_pos passes]
  cases rest with
  | nil => exact ⟨List.append_nil run, rfl⟩
  | cons c later =>
      have fails : ¬test c = true := by
        rw [stops c later rfl]
        exact Bool.false_ne_true
      rw [List.takeWhile_cons_of_neg fails, List.dropWhile_cons_of_neg fails, List.append_nil]
      exact ⟨rfl, rfl⟩

/-- The text that is left when a word was read starts with a separator or is at its end. -/
theorem ends_behindWord (text : List α) : Ends space (behindWord space text) := by
  intro c rest split
  have stopped := List.head?_dropWhile_not (fun c => !space c) text
  rw [← behindWord, split] at stopped
  simpa only [List.head?_cons, Bool.not_eq_false'] using stopped

/-- A text is its first word with what is behind it. -/
theorem headWord_append_behindWord (text : List α) :
    headWord space text ++ behindWord space text = text :=
  List.takeWhile_append_dropWhile

/-- Behind separators there is a word, unless the text is at its end. -/
theorem proper_headWord {text : List α} (more : skip space text ≠ []) :
    Proper space (headWord space (skip space text)) := by
  obtain ⟨c, rest, split⟩ := List.exists_cons_of_ne_nil more
  have stopped := List.head?_dropWhile_not space text
  rw [← skip, split] at stopped
  have inside : (!space c) = true := by
    rw [Bool.not_eq_true']
    exact stopped
  constructor
  · rw [split, headWord, List.takeWhile_cons_of_pos (p := fun c => !space c) inside]
    exact List.cons_ne_nil _ _
  · intro d member
    have passes := List.mem_takeWhile_imp member
    rwa [Bool.not_eq_true'] at passes

/-- **What reading a word does**: the text is at its end, or it starts with its first word. -/
theorem words_eq (text : List α) :
    words space text = if skip space text = [] then []
      else headWord space (skip space text) ::
        words space (behindWord space (skip space text)) := by
  split
  case isTrue none => rw [← words_skip, none, words_nil]
  case isFalse more =>
    have read := words_append (proper_headWord more) (ends_behindWord (skip space text))
    rw [headWord_append_behindWord, words_skip] at read
    exact read

/-- A text without words has nothing behind its separators. -/
theorem skip_eq_nil {text : List α} (none : words space text = []) : skip space text = [] := by
  rw [words_eq] at none
  by_contra more
  rw [if_neg more] at none
  exact List.cons_ne_nil _ _ none

/-- A text that shows words one by one, any separators between them; the last one may have more
text behind it. -/
inductive LaidOut (space : α → Bool) : List (List α) → List α → Prop where
  | last (word rest : List α) : Ends space rest → LaidOut space [word] (word ++ rest)
  | cons (word gap : List α) {words : List (List α)} {text : List α} : gap ≠ [] →
      (∀ c ∈ gap, space c = true) → LaidOut space words text →
      LaidOut space (word :: words) (word ++ (gap ++ text))

/-- A gap of separators in front of a text does not change its words. -/
theorem words_gap {gap : List α} (separators : ∀ c ∈ gap, space c = true) (text : List α) :
    words space (gap ++ text) = words space text := by
  induction gap with
  | nil => rfl
  | cons c gap ih =>
      rw [List.cons_append, words_cons (separators c List.mem_cons_self)]
      exact ih fun d member => separators d (List.mem_cons_of_mem c member)

/-- A gap that has a separator at least ends the word in front of it. -/
theorem ends_gap {gap : List α} (nonempty : gap ≠ []) (separators : ∀ c ∈ gap, space c = true)
    (text : List α) : Ends space (gap ++ text) := by
  obtain ⟨c, gap, rfl⟩ := List.exists_cons_of_ne_nil nonempty
  exact ends_cons (separators c List.mem_cons_self) _

/-- The words that a text shows are its first words. -/
theorem words_of_laidOut {shown : List (List α)} {text : List α}
    (proper : ∀ word ∈ shown, Proper space word) (laid : LaidOut space shown text) :
    ∃ further, words space text = shown ++ further := by
  induction laid with
  | last word rest ends => exact ⟨_, words_append (proper word List.mem_cons_self) ends⟩
  | cons word gap nonempty separators _ ih =>
      obtain ⟨further, later⟩ := ih fun other member => proper other (List.mem_cons_of_mem _ member)
      refine ⟨further, ?_⟩
      rw [words_append (proper word List.mem_cons_self) (ends_gap nonempty separators _),
        words_gap separators, later]
      rfl

theorem exists_laidOut {separator : α} (space_separator : space separator = true)
    (word : List α) (others : List (List α)) : ∃ text, LaidOut space (word :: others) text := by
  induction others generalizing word with
  | nil => exact ⟨_, .last word [] ends_nil⟩
  | cons other others ih =>
      obtain ⟨text, laid⟩ := ih other
      refine ⟨_, .cons word [separator] (List.cons_ne_nil _ _) ?_ laid⟩
      intro c member
      rwa [List.mem_singleton.mp member]

theorem laidOut_intercalate {separator : α} (space_separator : space separator = true)
    (word : List α) (others : List (List α)) :
    LaidOut space (word :: others) ([separator].intercalate (word :: others)) := by
  induction others generalizing word with
  | nil =>
      have laid : LaidOut space [word] (word ++ []) := .last word [] ends_nil
      rw [List.intercalate_singleton]
      rwa [List.append_nil] at laid
  | cons other others ih =>
      rw [List.intercalate_cons_cons, List.append_assoc]
      refine .cons word [separator] (List.cons_ne_nil _ _) (fun c member => ?_) (ih other)
      rwa [List.mem_singleton.mp member]

end Scanning
