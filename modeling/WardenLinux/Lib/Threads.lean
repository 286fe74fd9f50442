/-
  Threads with numbers.

  The threads of a system are a function from numbers to what each thread is at,
  with `none` for a number that is not taken.  `set` is the only change: a
  thread begins, or takes a step (`set_cases` says who is there afterwards).
-/
import Mathlib.Data.Nat.Notation
import Mathlib.Logic.Function.Basic

namespace Threads

variable {α : Type} {ts : ℕ → Option α} {i j : ℕ} {a b : α}

/-- The thread `i` is at `a` now. -/
def set (ts : ℕ → Option α) (i : ℕ) (a : α) : ℕ → Option α := Function.update ts i (some a)

@[simp] theorem set_self : set ts i a i = some a := Function.update_self ..

theorem set_of_ne (h : j ≠ i) : set ts i a j = ts j := Function.update_of_ne h ..

theorem set_cases (h : set ts i a j = some b) : j = i ∧ b = a ∨ j ≠ i ∧ ts j = some b := by
  rcases eq_or_ne j i with rfl | hj
  · rw [set_self] at h; cases h
    exact .inl ⟨rfl, rfl⟩
  · rw [set_of_ne hj] at h
    exact .inr ⟨hj, h⟩

end Threads
