/-
  Numbers in decimal.

  `scan` takes the run of digits at the front of a text as a number, and `parse` a
  whole text that is nothing but digits.
  `scan_digits`: the digits of a number, before anything that is not a digit, are
  scanned as the number; `parse_digits`: and nothing but its digits are parsed as it.
-/
import Mathlib.Algebra.Group.Nat.Defs
import WardenLinux.Lib.Words

namespace Decimal

/-- The number at the front of a text and what comes after its digits, none
    when there is no digit. -/
def scan (s : List Char) : Option (ℕ × List Char) :=
  if s.takeWhile Char.isDigit = [] then none
  else some (Nat.ofDigitChars 10 (s.takeWhile Char.isDigit) 0, s.dropWhile Char.isDigit)

/-- The number of a text of digits, if it fits into some bits. -/
def parse (bits : ℕ) (s : List Char) : Option ℕ :=
  if s ≠ [] ∧ s.all Char.isDigit then
    if Nat.ofDigitChars 10 s 0 < 2 ^ bits then some (Nat.ofDigitChars 10 s 0) else none
  else none

theorem isDigit_of_mem {n : ℕ} {c : Char} (h : c ∈ Nat.toDigits 10 n) : c.isDigit = true :=
  Nat.isDigit_of_mem_toDigits (by decide) (by decide) h

/-- A number has a first digit. -/
theorem exists_digit (n : ℕ) : ∃ c cs, Nat.toDigits 10 n = c :: cs ∧ c.isDigit = true := by
  obtain ⟨c, cs, h⟩ := List.exists_cons_of_ne_nil (Nat.toDigits_ne_nil (n := n) (b := 10))
  exact ⟨c, cs, h, isDigit_of_mem (h ▸ List.mem_cons_self)⟩

theorem scan_digits {rest : List Char} (hrest : ∀ c ∈ rest.head?, c.isDigit = false) (n : ℕ) :
    scan (Nat.toDigits 10 n ++ rest) = some (n, rest) := by
  have hdigits : ∀ c ∈ Nat.toDigits 10 n, c.isDigit = true := fun c => isDigit_of_mem
  rw [scan, Words.takeWhile_run hdigits hrest, Words.dropWhile_run hdigits hrest,
    if_neg Nat.toDigits_ne_nil, Nat.ofDigitChars_ten_toDigits]

theorem parse_digits {bits n : ℕ} (h : n < 2 ^ bits) : parse bits (Nat.toDigits 10 n) = some n := by
  have hall : (Nat.toDigits 10 n).all Char.isDigit = true :=
    List.all_eq_true.2 fun c => isDigit_of_mem
  rw [parse, if_pos ⟨Nat.toDigits_ne_nil, hall⟩, Nat.ofDigitChars_ten_toDigits, if_pos h]

theorem ofDigitChars_toString (n : ℕ) : Nat.ofDigitChars 10 (toString n).toList 0 = n := by
  rw [show (toString n).toList = Nat.toDigits 10 n from Nat.toList_repr]
  exact Nat.ofDigitChars_ten_toDigits

theorem toString_inj {m n : ℕ} (h : toString m = toString n) : m = n := by
  rw [← ofDigitChars_toString m, h, ofDigitChars_toString]

end Decimal
