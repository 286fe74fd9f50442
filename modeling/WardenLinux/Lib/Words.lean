/-
  The words of a text.

  A word is a run without separators.  `words` are those of a text in order;
  `words_cons` and `words_singleton` say what a word in front of a separator, or at
  the end, adds to them.  `takeWhile_run` and `dropWhile_run` split a text after a run
  of any class.
-/
import Mathlib.Data.List.TakeWhile

namespace Words

variable {α : Type}

section
variable {cls : α → Bool} {r s : List α} (hr : ∀ c ∈ r, cls c = true)
  (hs : ∀ c ∈ s.head?, cls c = false)
include hr hs

theorem takeWhile_run : (r ++ s).takeWhile cls = r := by
  rw [List.takeWhile_append_of_pos hr]
  cases s with
  | nil => rw [List.takeWhile_nil, List.append_nil]
  | cons c s =>
    rw [List.takeWhile_cons_of_neg (by rw [hs c rfl]; exact Bool.false_ne_true), List.append_nil]

theorem dropWhile_run : (r ++ s).dropWhile cls = s := by
  rw [List.dropWhile_append_of_pos hr]
  cases s with
  | nil => rfl
  | cons c s => rw [List.dropWhile_cons_of_neg (by rw [hs c rfl]; exact Bool.false_ne_true)]

end

variable (sep : α → Bool)

/-- The words of a text, `word` being read. -/
def wordsFrom (word : List α) : List α → List (List α)
  | [] => if word.isEmpty then [] else [word]
  | c :: cs =>
    if sep c then
      if word.isEmpty then wordsFrom [] cs else word :: wordsFrom [] cs
    else wordsFrom (word ++ [c]) cs

/-- The words of a text. -/
def words (text : List α) : List (List α) := wordsFrom sep [] text

/-- A run without separators. -/
def IsWord (word : List α) : Prop := word ≠ [] ∧ ∀ c ∈ word, sep c = false

instance (word : List α) : Decidable (IsWord sep word) := inferInstanceAs (Decidable (_ ∧ _))

variable {sep}

theorem wordsFrom_append {cs : List α} (h : ∀ c ∈ cs, sep c = false) (word rest : List α) :
    wordsFrom sep word (cs ++ rest) = wordsFrom sep (word ++ cs) rest := by
  induction cs generalizing word with
  | nil => rw [List.nil_append, List.append_nil]
  | cons c cs ih =>
    rw [List.forall_mem_cons] at h
    rw [List.cons_append, wordsFrom, h.1, if_neg Bool.false_ne_true, ih h.2, List.append_assoc]
    rfl

theorem IsWord.isEmpty {word : List α} (h : IsWord sep word) : word.isEmpty = false :=
  List.isEmpty_eq_false_iff.2 h.1

/-- A word in front of a separator. -/
theorem words_cons {word : List α} (h : IsWord sep word) {c : α} (hc : sep c = true)
    (rest : List α) : words sep (word ++ c :: rest) = word :: words sep rest := by
  rw [words, wordsFrom_append h.2, List.nil_append, wordsFrom, if_pos hc, h.isEmpty,
    if_neg Bool.false_ne_true]
  rfl

/-- A word at the end. -/
theorem words_singleton {word : List α} (h : IsWord sep word) : words sep word = [word] := by
  have happend := wordsFrom_append h.2 [] []
  rw [List.append_nil, List.nil_append] at happend
  rw [words, happend, wordsFrom, h.isEmpty, if_neg Bool.false_ne_true]

end Words
