/-
  Entries of a finite map after one of them was written or erased.

  Mathlib's rules are for the key that was written and for another one; here
  they are one equivalence for each operation, from which an entry of the new
  map is followed back to the old one.
-/
import Mathlib.Data.List.AList

namespace Maps

variable {α β : Type} [DecidableEq α] {m : AList fun _ : α => β} {k k' : α} {v v' : β}

/-- An entry is the one that was written, or an old one under another key. -/
theorem lookup_insert_eq_some : (m.insert k v).lookup k' = some v' ↔
    k' = k ∧ v' = v ∨ k' ≠ k ∧ m.lookup k' = some v' := by
  by_cases hk : k' = k
  · subst hk
    rw [AList.lookup_insert, Option.some.injEq]
    simp [eq_comm]
  · rw [AList.lookup_insert_ne hk]
    simp [hk]

/-- What is left is under the other keys. -/
theorem lookup_erase_eq_some : (m.erase k).lookup k' = some v ↔
    k' ≠ k ∧ m.lookup k' = some v := by
  by_cases hk : k' = k
  · subst hk
    rw [AList.lookup_erase]
    simp
  · rw [AList.lookup_erase_ne hk]
    simp [hk]

end Maps
