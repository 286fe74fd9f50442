/-
  Packet filters: chains of rules, the commands that change them and what
  packets meet there.

  A filter (`PacketFilter`) is some state with commands on it, the chains and
  rules that are printed of the state, and the fate of a packet in a chain.
  What is assumed of it is `PacketFilter.Lawful`: when a command succeeds and
  what is printed after it, and that a packet meets the rules of a chain in
  their order.  The first rule whose condition holds decides: a verdict, a return
  to the caller, a jump to another chain, after whose return the next rule is
  tried, a goto, after whose return this chain returns as well, or something that
  is done with the packet before the next rule is tried.

  * `runRules`: the rules of a chain, given the fate in the other chains.
  * `newOrFlush`, `deleteRules`, `clearChains`, `deleteChains`: commands for all
    that is printed of a chain or of the table.
  * `wp_newChain` and so on: what a command of a lawful filter leaves.
-/
import WardenLinux.Lib.Fallible
import Mathlib.Data.List.Perm.Subperm
import Mathlib.Logic.Function.Basic
import Mathlib.Logic.Relation

namespace Netfilter

open Fallible Function Relation

variable {σ χ μ ν π κ : Type}

/-! ## Tables -/

inductive Target (χ ν : Type) where
  | verdict (v : ν)
  | ret
  | jump (c : χ)
  | goto (c : χ)
  | pass (v : ν)
  deriving DecidableEq, Repr

/-- The chain a target refers to. -/
def Target.chain? : Target χ ν → Option χ
  | .jump c => some c
  | .goto c => some c
  | .verdict _ => none
  | .ret => none
  | .pass _ => none

structure Rule (χ μ ν : Type) where
  cond : μ
  target : Target χ ν
  deriving DecidableEq, Repr

/-- The rules of the chains that exist. -/
abbrev Table (χ μ ν : Type) := χ → Option (List (Rule χ μ ν))

/-- A rule of the one chain refers to the other. -/
def Refers (t : Table χ μ ν) (c c' : χ) : Prop :=
  ∃ rs, t c = some rs ∧ ∃ r ∈ rs, r.target.chain? = some c'

/-- A chain whose rules refer to no other one. -/
def Leaf (t : Table χ μ ν) (c : χ) : Prop :=
  ∃ rs, t c = some rs ∧ ∀ r ∈ rs, r.target.chain? = none

theorem Leaf.not_refers {t : Table χ μ ν} {c : χ} (h : Leaf t c) (c' : χ) : ¬ Refers t c c' := by
  obtain ⟨rs, hl, hrs⟩ := h
  rintro ⟨rs', hl', r, hr, ht⟩
  rw [hl, Option.some.injEq] at hl'
  rw [hrs r (hl' ▸ hr)] at ht
  cases ht

theorem Leaf.isSome {t : Table χ μ ν} {c : χ} (h : Leaf t c) : (t c).isSome := by
  obtain ⟨rs, hl, -⟩ := h
  exact Option.isSome_of_eq_some hl

theorem leaf_nil {t : Table χ μ ν} {c : χ} (h : t c = some []) : Leaf t c :=
  ⟨[], h, List.forall_mem_nil _⟩

/-- A chain does not lead to another one, when those it refers to lead no
    further. -/
theorem not_leads {t : Table χ μ ν} {c d : χ} (hne : c ≠ d)
    (h : ∀ c', Refers t c c' → c' ≠ d ∧ Leaf t c') : ¬ ReflTransGen (Refers t) c d := by
  intro hpath
  rcases hpath.cases_head with rfl | ⟨c', hc', hrest⟩
  · exact hne rfl
  rcases hrest.cases_head with rfl | ⟨c'', hc'', -⟩
  · exact (h _ hc').1 rfl
  · exact (h _ hc').2.not_refers _ hc''

theorem Leaf.not_leads {t : Table χ μ ν} {c d : χ} (h : Leaf t c) (hne : c ≠ d) :
    ¬ ReflTransGen (Refers t) c d :=
  Netfilter.not_leads hne fun c' hc' => absurd hc' (h.not_refers c')

/-! ## Rules -/

section Rules
variable (holds : π → μ → Bool)

/-- The rules of a chain, given what becomes of the packet in the chains they
    refer to: a verdict, or the return to the caller. -/
def runRules (callee : χ → Option (Option ν)) (p : π) : List (Rule χ μ ν) → Option (Option ν)
  | [] => some none
  | r :: rs =>
    if holds p r.cond then
      match r.target with
      | .verdict v => some (some v)
      | .ret => some none
      | .pass _ => runRules callee p rs
      | .goto c => callee c
      | .jump c =>
        match callee c with
        | some none => runRules callee p rs
        | other => other
    else runRules callee p rs

variable {holds} {callee : χ → Option (Option ν)} {p : π} {rs rs' : List (Rule χ μ ν)}

end Rules

/-! ## Filters -/

/-- How a command fails: its arguments cannot be read, or it cannot be done. -/
inductive Error where
  | argument
  | refused
  deriving DecidableEq, Repr

/-- A table of a packet filter, in a state `σ`. -/
structure PacketFilter (σ χ μ ν π : Type) where
  /-- `-S`: the names of the chains -/
  chains : σ → List χ
  /-- `-S`: the rules of a chain -/
  rules : σ → Table χ μ ν
  /-- `-N` -/
  newChain : χ → EStateM Error σ Unit
  /-- `-F` -/
  flush : χ → EStateM Error σ Unit
  /-- `-X` -/
  deleteChain : χ → EStateM Error σ Unit
  /-- `-A` -/
  append : χ → Rule χ μ ν → EStateM Error σ Unit
  /-- `-I`, with positions counted from 0 -/
  insertAt : χ → ℕ → Rule χ μ ν → EStateM Error σ Unit
  /-- `-D`, of a rule as it is printed -/
  deleteRule : χ → Rule χ μ ν → EStateM Error σ Unit
  /-- the chains that are always there -/
  Builtin : χ → Prop
  /-- the names of other chains -/
  Name : χ → Prop
  /-- the options and the target of the rule go with the chain -/
  Takes : χ → Rule χ μ ν → Prop
  /-- the packet meets the options of a rule -/
  holds : π → μ → Bool
  /-- what becomes of a packet in a chain: a verdict, or the return from it -/
  fate : σ → π → χ → Option (Option ν)

namespace PacketFilter

/-- A rule that can be added to a chain: the chain it refers to is there, and
    does not lead back. -/
structure Addable (F : PacketFilter σ χ μ ν π) (s : σ) (c : χ) (r : Rule χ μ ν) : Prop where
  takes : F.Takes c r
  target : ∀ c', r.target.chain? = some c' →
    (F.rules s c').isSome ∧ ¬ F.Builtin c' ∧ ¬ ReflTransGen (Refers (F.rules s)) c' c

theorem Addable.of_none {F : PacketFilter σ χ μ ν π} {s : σ} {c : χ} {r : Rule χ μ ν}
    (h : F.Takes c r) (hr : r.target.chain? = none) : F.Addable s c r where
  takes := h
  target c' hc' := by rw [hr] at hc'; cases hc'

variable [DecidableEq χ] [DecidableEq μ] [DecidableEq ν]

/-- What is assumed of a filter.  A command that fails changes nothing. -/
structure Lawful (F : PacketFilter σ χ μ ν π) : Prop where
  mem_chains : ∀ {s c}, c ∈ F.chains s ↔ (F.rules s c).isSome
  nodup_chains : ∀ s, (F.chains s).Nodup
  newChain : ∀ {s c}, F.Name c → F.rules s c = none →
    ∃ s', F.newChain c s = .ok () s' ∧ F.rules s' = update (F.rules s) c (some [])
  newChain_exists : ∀ {s c}, (F.rules s c).isSome → ∃ e, F.newChain c s = .error e s
  flush : ∀ {s c}, (F.rules s c).isSome →
    ∃ s', F.flush c s = .ok () s' ∧ F.rules s' = update (F.rules s) c (some [])
  flush_none : ∀ {s c}, F.rules s c = none → ∃ e, F.flush c s = .error e s
  deleteChain : ∀ {s c}, ¬ F.Builtin c → F.rules s c = some [] →
    (∀ c', ¬ Refers (F.rules s) c' c) →
    ∃ s', F.deleteChain c s = .ok () s' ∧ F.rules s' = update (F.rules s) c none
  deleteChain_or : ∀ s c,
    (∃ s', F.deleteChain c s = .ok () s' ∧ F.rules s' = update (F.rules s) c none) ∨
      ∃ e, F.deleteChain c s = .error e s
  append : ∀ {s c rs r}, F.rules s c = some rs → F.Addable s c r →
    ∃ s', F.append c r s = .ok () s' ∧ F.rules s' = update (F.rules s) c (some (rs ++ [r]))
  append_none : ∀ {s c r}, F.rules s c = none → ∃ e, F.append c r s = .error e s
  insertAt : ∀ {s c rs n r}, F.rules s c = some rs → n ≤ rs.length → F.Addable s c r →
    ∃ s', F.insertAt c n r s = .ok () s' ∧
      F.rules s' = update (F.rules s) c (some (rs.insertIdx n r))
  insertAt_none : ∀ {s c n r}, F.rules s c = none → ∃ e, F.insertAt c n r s = .error e s
  deleteRule : ∀ {s c rs r}, F.rules s c = some rs → r ∈ rs →
    ∃ s', F.deleteRule c r s = .ok () s' ∧ F.rules s' = update (F.rules s) c (some (rs.erase r))
  fate : ∀ {s p c rs out}, F.rules s c = some rs → runRules F.holds (F.fate s p) p rs = some out →
    F.fate s p c = some out

end PacketFilter

/-! ## Commands for what is printed -/

/-- `xargs`: a command for each line, which fails in the end if one of them
    did. -/
def xargs {α : Type} (f : α → EStateM Error σ Unit) : List α → EStateM Error σ Unit
  | [] => pure ()
  | a :: as => fun s =>
    match f a s with
    | .ok _ s' => xargs f as s'
    | .error e s' => .error e (final (xargs f as s'))

section
variable {α β : Type} {f : α → EStateM Error σ Unit} {s : σ} {Q : Unit → σ → Prop}
  {E : Error → σ → Prop}

theorem wp_xargs_cons {a : α} {as : List α}
    (h : wp (f a) (fun _ s' => wp (xargs f as) Q E s') (fun _ _ => False) s) :
    wp (xargs f (a :: as)) Q E s := by
  simp only [wp, xargs] at h ⊢
  rcases hf : f a s with ⟨_, s'⟩ | ⟨e, s'⟩
  · rw [hf] at h
    exact h
  · rw [hf] at h
    exact h.elim

theorem wp_xargs_append : ∀ {as as' : List α} {s : σ},
    wp (xargs f as) (fun _ s' => wp (xargs f as') Q E s') (fun _ _ => False) s →
      wp (xargs f (as ++ as')) Q E s
  | [], _, _, h => h
  | a :: as, as', s, h => by
    rw [List.cons_append]
    refine wp_xargs_cons ?_
    simp only [wp, xargs] at h ⊢
    rcases hf : f a s with ⟨_, s'⟩ | ⟨e, s'⟩
    · rw [hf] at h
      exact wp_xargs_append h
    · rw [hf] at h
      exact h

theorem xargs_map (g : β → α) : ∀ bs : List β, xargs f (bs.map g) = xargs (fun b => f (g b)) bs
  | [] => rfl
  | b :: bs => by
    funext s
    simp only [List.map_cons, xargs, xargs_map g bs]

end

namespace PacketFilter

section Scripts
variable (F : PacketFilter σ χ μ ν π)

/-- `-N`, or else `-F` -/
def newOrFlush (c : χ) : EStateM Error σ Unit := fun s =>
  match F.newChain c s with
  | .ok a s' => .ok a s'
  | .error _ s' => F.flush c s'

/-- `-D` for every rule of a chain that is printed with what `p` looks for; a
    chain that does not exist prints nothing. -/
def deleteRules (c : χ) (p : Rule χ μ ν → Bool) : EStateM Error σ Unit := do
  let s ← get
  xargs (F.deleteRule c) (((F.rules s c).getD []).filter p)

/-- `-D` for every rule of the chains whose name `p` looks for. -/
def clearChains (p : χ → Bool) : EStateM Error σ Unit := do
  let s ← get
  xargs (fun e => F.deleteRule e.1 e.2)
    (((F.chains s).filter p).flatMap fun c => ((F.rules s c).getD []).map (Prod.mk c))

/-- `-X` for the chains whose name `p` looks for. -/
def deleteChains (p : χ → Bool) : EStateM Error σ Unit := do
  let s ← get
  xargs F.deleteChain ((F.chains s).filter p)

end Scripts

/-! ## What the commands leave -/

section Commands
variable [DecidableEq χ] [DecidableEq μ] [DecidableEq ν] {F : PacketFilter σ χ μ ν π}
  (hF : F.Lawful) {s : σ} {c : χ} {rs : List (Rule χ μ ν)} {r : Rule χ μ ν}
  {Q : Unit → σ → Prop} {E : Error → σ → Prop}
include hF

theorem Lawful.wp_newChain (hn : F.Name c) (h : F.rules s c = none)
    (hQ : ∀ s', F.rules s' = update (F.rules s) c (some []) → Q () s') :
    wp (F.newChain c) Q E s := by
  obtain ⟨s', hok, hs'⟩ := hF.newChain hn h
  exact (wp_ok hok).2 (hQ s' hs')

theorem Lawful.wp_newChain_exists (h : (F.rules s c).isSome) (hE : ∀ e, E e s) :
    wp (F.newChain c) Q E s := by
  obtain ⟨e, herr⟩ := hF.newChain_exists h
  exact (wp_error herr).2 (hE e)

theorem Lawful.wp_flush (h : F.rules s c = some rs)
    (hQ : ∀ s', F.rules s' = update (F.rules s) c (some []) → Q () s') : wp (F.flush c) Q E s := by
  obtain ⟨s', hok, hs'⟩ := hF.flush (Option.isSome_of_eq_some h)
  exact (wp_ok hok).2 (hQ s' hs')

theorem Lawful.wp_flush_none (h : F.rules s c = none) (hE : ∀ e, E e s) : wp (F.flush c) Q E s := by
  obtain ⟨e, herr⟩ := hF.flush_none h
  exact (wp_error herr).2 (hE e)

theorem Lawful.wp_newOrFlush (hn : F.Name c)
    (hQ : ∀ s', F.rules s' = update (F.rules s) c (some []) → Q () s') :
    wp (F.newOrFlush c) Q E s := by
  cases h : F.rules s c with
  | none =>
    obtain ⟨s', hok, hs'⟩ := hF.newChain hn h
    exact (wp_ok (by rw [newOrFlush, hok])).2 (hQ s' hs')
  | some _ =>
    have h := Option.isSome_of_eq_some h
    obtain ⟨e, herr⟩ := hF.newChain_exists h
    obtain ⟨s', hok, hs'⟩ := hF.flush h
    exact (wp_ok (by rw [newOrFlush, herr]; exact hok)).2 (hQ s' hs')

theorem Lawful.wp_deleteChain (hb : ¬ F.Builtin c) (h : F.rules s c = some [])
    (hr : ∀ c', ¬ Refers (F.rules s) c' c)
    (hQ : ∀ s', F.rules s' = update (F.rules s) c none → Q () s') :
    wp (F.deleteChain c) Q E s := by
  obtain ⟨s', hok, hs'⟩ := hF.deleteChain hb h hr
  exact (wp_ok hok).2 (hQ s' hs')

/-- A chain that is deleted if it can be. -/
theorem Lawful.wp_attempt_deleteChain (hQ : Q () s)
    (hQ' : ∀ s', F.rules s' = update (F.rules s) c none → Q () s') :
    wp (attempt (F.deleteChain c)) Q E s := by
  rw [wp_attempt]
  rcases hF.deleteChain_or s c with ⟨s', hok, hs'⟩ | ⟨e, herr⟩
  · exact (wp_ok hok).2 (hQ' s' hs')
  · exact (wp_error herr).2 hQ

theorem Lawful.wp_append (h : F.rules s c = some rs) (hr : F.Addable s c r)
    (hQ : ∀ s', F.rules s' = update (F.rules s) c (some (rs ++ [r])) → Q () s') :
    wp (F.append c r) Q E s := by
  obtain ⟨s', hok, hs'⟩ := hF.append h hr
  exact (wp_ok hok).2 (hQ s' hs')

theorem Lawful.wp_append_none (h : F.rules s c = none) (hE : ∀ e, E e s) :
    wp (F.append c r) Q E s := by
  obtain ⟨e, herr⟩ := hF.append_none h
  exact (wp_error herr).2 (hE e)

theorem Lawful.wp_insertAt {n : ℕ} (h : F.rules s c = some rs) (hn : n ≤ rs.length)
    (hr : F.Addable s c r)
    (hQ : ∀ s', F.rules s' = update (F.rules s) c (some (rs.insertIdx n r)) → Q () s') :
    wp (F.insertAt c n r) Q E s := by
  obtain ⟨s', hok, hs'⟩ := hF.insertAt h hn hr
  exact (wp_ok hok).2 (hQ s' hs')

theorem Lawful.wp_insertAt_none {n : ℕ} (h : F.rules s c = none) (hE : ∀ e, E e s) :
    wp (F.insertAt c n r) Q E s := by
  obtain ⟨e, herr⟩ := hF.insertAt_none h
  exact (wp_error herr).2 (hE e)

/-- Rules of a chain deleted one by one. -/
theorem Lawful.wp_deleteAll : ∀ {l rs : List (Rule χ μ ν)} {s : σ}, F.rules s c = some rs →
    List.Subperm l rs →
    (∀ s', F.rules s' = update (F.rules s) c (some (rs.diff l)) → Q () s') →
    wp (xargs (F.deleteRule c) l) Q E s
  | [], rs, s, h, _, hQ => by
    refine hQ s ?_
    rw [List.diff_nil, ← h, update_eq_self]
  | r :: l, rs, s, h, hl, hQ => by
    obtain ⟨s₁, hok, hs₁⟩ := hF.deleteRule h (hl.subset List.mem_cons_self)
    have hl₁ : List.Subperm l (rs.erase r) := by
      have := hl.erase r
      rwa [List.erase_cons_head] at this
    refine wp_xargs_cons ((wp_ok hok).2 ?_)
    refine Lawful.wp_deleteAll (by rw [hs₁, update_self]) hl₁ fun s' hs' => hQ s' ?_
    rw [hs', hs₁, update_idem, List.diff_cons]

end Commands

theorem diff_filter {α : Type} [DecidableEq α] (p : α → Bool) :
    ∀ l : List α, l.diff (l.filter p) = l.filter fun a => !p a
  | [] => rfl
  | a :: l => by
    cases hp : p a with
    | true =>
      rw [List.filter_cons_of_pos hp, List.diff_cons, List.erase_cons_head, diff_filter p l,
        List.filter_cons_of_neg (by simp [hp])]
    | false =>
      have hmem : a ∉ l.filter p := fun h => by
        rw [(List.mem_filter.1 h).2] at hp
        cases hp
      rw [List.filter_cons_of_neg (by simp [hp]), List.cons_diff_of_not_mem hmem, diff_filter p l,
        List.filter_cons_of_pos (by simp [hp])]

section Printed
variable [DecidableEq χ] [DecidableEq μ] [DecidableEq ν] {F : PacketFilter σ χ μ ν π}
  (hF : F.Lawful) {s : σ} {c : χ} {rs : List (Rule χ μ ν)} {Q : Unit → σ → Prop}
  {E : Error → σ → Prop}
include hF

theorem Lawful.wp_deleteRules {p : Rule χ μ ν → Bool} (h : F.rules s c = some rs)
    (hQ : ∀ s', F.rules s' = update (F.rules s) c (some (rs.filter fun r => !p r)) → Q () s') :
    wp (F.deleteRules c p) Q E s := by
  rw [deleteRules, wp_bind, wp_get, h, Option.getD_some]
  refine hF.wp_deleteAll h (List.filter_sublist).subperm fun s' hs' => hQ s' ?_
  rw [hs', diff_filter]

omit hF [DecidableEq χ] [DecidableEq μ] [DecidableEq ν] in
theorem wp_deleteRules_none {p : Rule χ μ ν → Bool} (h : F.rules s c = none) (hQ : Q () s) :
    wp (F.deleteRules c p) Q E s := by
  rw [deleteRules, wp_bind, wp_get, h]
  exact hQ

/-- The rules of a chain, if there is one, without those that are looked for. -/
theorem Lawful.wp_deleteRules_map {p : Rule χ μ ν → Bool}
    (hQ : ∀ s', F.rules s' = update (F.rules s) c
      ((F.rules s c).map fun rs => rs.filter fun r => !p r) → Q () s') :
    wp (F.deleteRules c p) Q E s := by
  cases h : F.rules s c with
  | none =>
    refine wp_deleteRules_none h (hQ s ?_)
    rw [h, Option.map_none, ← h, update_eq_self]
  | some rs =>
    refine hF.wp_deleteRules h fun s' hs' => hQ s' ?_
    rw [hs', h, Option.map_some]

/-- Rules appended to a chain one by one. -/
theorem Lawful.wp_each_append : ∀ {rs' rs : List (Rule χ μ ν)} {s : σ}, F.rules s c = some rs →
    (∀ r ∈ rs', ∀ s₁ rs₁, F.rules s₁ = update (F.rules s) c (some rs₁) →
      rs₁ ⊆ rs ++ rs' → F.Addable s₁ c r) →
    (∀ s', F.rules s' = update (F.rules s) c (some (rs ++ rs')) → Q () s') →
    wp (each (F.append c) rs') Q E s
  | [], rs, s, h, _, hQ => by
    refine hQ s ?_
    rw [List.append_nil, ← h, update_eq_self]
  | r :: rs', rs, s, h, hr, hQ => by
    rw [each, wp_bind]
    refine hF.wp_append h (hr r List.mem_cons_self s rs (by rw [← h, update_eq_self])
      (List.subset_append_left _ _)) fun s₁ hs₁ => ?_
    refine Lawful.wp_each_append (by rw [hs₁, update_self]) (fun r' hr' s₂ rs₂ hs₂ hsub => ?_)
      fun s' hs' => hQ s' ?_
    · rw [hs₁, update_idem] at hs₂
      rw [List.append_assoc, List.singleton_append] at hsub
      exact hr r' (List.mem_cons_of_mem _ hr') s₂ rs₂ hs₂ hsub
    · rw [hs', hs₁, update_idem, List.append_assoc, List.singleton_append]

/-- Rules that refer to no chain, each put in front of a chain. -/
theorem Lawful.wp_each_insert : ∀ {rs' rs : List (Rule χ μ ν)} {s : σ}, F.rules s c = some rs →
    (∀ r ∈ rs', F.Takes c r ∧ r.target.chain? = none) →
    (∀ s', F.rules s' = update (F.rules s) c (some (rs'.reverse ++ rs)) → Q () s') →
    wp (each (F.insertAt c 0) rs') Q E s
  | [], rs, s, h, _, hQ => by
    refine hQ s ?_
    rw [List.reverse_nil, List.nil_append, ← h, update_eq_self]
  | r :: rs', rs, s, h, hr, hQ => by
    obtain ⟨htakes, hnone⟩ := hr r List.mem_cons_self
    rw [each, wp_bind]
    refine hF.wp_insertAt h (Nat.zero_le _) (.of_none htakes hnone) fun s₁ hs₁ => ?_
    refine Lawful.wp_each_insert (by rw [hs₁, update_self])
      (fun r' hr' => hr r' (List.mem_cons_of_mem _ hr')) fun s' hs' => hQ s' ?_
    rw [hs', hs₁, update_idem, List.insertIdx_zero, List.reverse_cons, List.append_assoc,
      List.singleton_append]

/-- The chains lose their rules, which were printed of the table before. -/
theorem Lawful.wp_clear {t : Table χ μ ν} : ∀ {cs : List χ} {s : σ}, cs.Nodup →
    (∀ c ∈ cs, F.rules s c = t c) →
    (∀ s', (∀ c, F.rules s' c = if c ∈ cs then (t c).map fun _ => [] else F.rules s c) →
      Q () s') →
    wp (xargs (fun e => F.deleteRule e.1 e.2)
      (cs.flatMap fun c => ((t c).getD []).map (Prod.mk c))) Q E s
  | [], s, _, _, hQ => hQ s fun c => by simp
  | c :: cs, s, hn, ht, hQ => by
    rw [List.nodup_cons] at hn
    -- the next chains are still as they were printed
    have hrest : ∀ s₁, F.rules s₁ = update (F.rules s) c ((t c).map fun _ => []) →
        wp (xargs (fun e => F.deleteRule e.1 e.2)
          (cs.flatMap fun c => ((t c).getD []).map (Prod.mk c))) Q E s₁ := fun s₁ hs₁ => by
      refine Lawful.wp_clear hn.2 (fun c' hc' => ?_) fun s' hs' => hQ s' fun c' => ?_
      · have hne : c' ≠ c := fun h => hn.1 (h ▸ hc')
        rw [hs₁, update_of_ne hne]
        exact ht c' (List.mem_cons_of_mem _ hc')
      · rw [hs' c', hs₁]
        by_cases hcc : c' = c
        · subst hcc
          rw [if_neg hn.1, update_self, if_pos List.mem_cons_self]
        · simp [hcc]
    rw [List.flatMap_cons]
    refine wp_xargs_append ?_
    rw [xargs_map]
    cases htc : t c with
    | none =>
      refine hrest s ?_
      rw [htc, Option.map_none, ← htc, ← ht c List.mem_cons_self, update_eq_self]
    | some rs =>
      have hl : F.rules s c = some rs := (ht c List.mem_cons_self).trans htc
      refine hF.wp_deleteAll hl (List.Subperm.refl _) fun s₁ hs₁ => hrest s₁ ?_
      have hdiff : rs.diff rs = [] := by simpa using diff_filter (fun _ => true) rs
      rw [hs₁, htc, Option.getD_some, hdiff, Option.map_some]

/-- Empty chains that nothing refers to are deleted. -/
theorem Lawful.wp_deleteEach : ∀ {cs : List χ} {s : σ}, cs.Nodup →
    (∀ c ∈ cs, ¬ F.Builtin c ∧ F.rules s c = some [] ∧ ∀ c', ¬ Refers (F.rules s) c' c) →
    (∀ s', (∀ c, F.rules s' c = if c ∈ cs then none else F.rules s c) → Q () s') →
    wp (xargs F.deleteChain cs) Q E s
  | [], s, _, _, hQ => hQ s fun c => by simp
  | c :: cs, s, hn, hc, hQ => by
    rw [List.nodup_cons] at hn
    obtain ⟨hb, hl, hr⟩ := hc c List.mem_cons_self
    refine wp_xargs_cons (hF.wp_deleteChain hb hl hr fun s₁ hs₁ => ?_)
    refine Lawful.wp_deleteEach hn.2 (fun c' hc' => ?_) fun s' hs' => hQ s' fun c' => ?_
    · obtain ⟨hb', hl', hr'⟩ := hc c' (List.mem_cons_of_mem _ hc')
      have hne : c' ≠ c := fun h => hn.1 (h ▸ hc')
      refine ⟨hb', ?_, ?_⟩
      · rw [hs₁, update_of_ne hne]
        exact hl'
      · rintro d ⟨rs, hd, hrs⟩
        by_cases hdc : d = c
        · rw [hs₁, hdc, update_self] at hd
          cases hd
        · rw [hs₁, update_of_ne hdc] at hd
          exact hr' d ⟨rs, hd, hrs⟩
    · rw [hs' c', hs₁]
      by_cases hcc : c' = c
      · subst hcc
        simp
      · simp [hcc]

theorem Lawful.mem_filter_chains {p : χ → Bool} :
    c ∈ (F.chains s).filter p ↔ (F.rules s c).isSome ∧ p c = true := by
  rw [List.mem_filter, hF.mem_chains]

/-- The chains with some name are deleted, when the only rules that refer to
    them are their own. -/
theorem Lawful.wp_clearChains_deleteChains {p : χ → Bool} (hb : ∀ c, p c = true → ¬ F.Builtin c)
    (h : ∀ c rs, F.rules s c = some rs → p c = false → ∀ r ∈ rs, ∀ c',
      r.target.chain? = some c' → p c' = false)
    (hQ : ∀ s', (∀ c, F.rules s' c = if p c then none else F.rules s c) → Q () s') :
    wp (do F.clearChains p; F.deleteChains p) Q E s := by
  simp only [clearChains, deleteChains, wp_bind, wp_get]
  refine hF.wp_clear ((hF.nodup_chains s).filter _) (fun _ _ => rfl) fun s₁ hs₁ => ?_
  have hin : ∀ c, p c = true → F.rules s₁ c = (F.rules s c).map fun _ => [] := fun c hp => by
    rw [hs₁]
    split_ifs with hc
    · rfl
    · rw [hF.mem_filter_chains] at hc
      cases hl : F.rules s c with
      | none => rfl
      | some rs => exact absurd ⟨by rw [hl]; rfl, hp⟩ hc
  have hnot : ∀ {c s}, p c = false → c ∉ (F.chains s).filter p := fun hp hc => by
    rw [(List.mem_filter.1 hc).2] at hp
    cases hp
  have hout : ∀ c, p c = false → F.rules s₁ c = F.rules s c := fun c hp => by
    rw [hs₁, if_neg (hnot hp)]
  refine hF.wp_deleteEach ((hF.nodup_chains s₁).filter _) (fun c hc => ?_) fun s₂ hs₂ =>
    hQ s₂ fun c => ?_
  · obtain ⟨hc, hp⟩ := hF.mem_filter_chains.1 hc
    refine ⟨hb c hp, ?_, ?_⟩
    · rw [hin c hp] at hc ⊢
      cases hl : F.rules s c with
      | none => rw [hl] at hc; cases hc
      | some rs => rfl
    · rintro d ⟨rs, hl, r, hr, ht⟩
      cases hd : p d with
      | true =>
        rw [hin d hd, Option.map_eq_some_iff] at hl
        obtain ⟨_, -, rfl⟩ := hl
        cases hr
      | false =>
        rw [hout d hd] at hl
        rw [h d rs hl hd r hr c ht] at hp
        cases hp
  · rw [hs₂]
    cases hp : p c with
    | true =>
      rw [if_pos rfl]
      split_ifs with hc
      · rfl
      · rw [hF.mem_filter_chains] at hc
        cases hl : F.rules s₁ c with
        | none => rfl
        | some rs => exact absurd ⟨by rw [hl]; rfl, hp⟩ hc
    | false => rw [if_neg (hnot hp), hout c hp, if_neg Bool.false_ne_true]

end Printed

end PacketFilter

/-! ## Rules taken out -/

/-- Rules are only taken out. -/
def Thinner (t t' : Table χ μ ν) : Prop :=
  ∀ c rs', t' c = some rs' → ∃ rs, t c = some rs ∧ rs' ⊆ rs

theorem Thinner.refl (t : Table χ μ ν) : Thinner t t :=
  fun _ rs h => ⟨rs, h, List.Subset.refl rs⟩

theorem Thinner.trans {t t' t'' : Table χ μ ν} (h : Thinner t t') (h' : Thinner t' t'') :
    Thinner t t'' := by
  intro c rs hl
  obtain ⟨rs', hl', hsub'⟩ := h' c rs hl
  obtain ⟨rs'', hl'', hsub''⟩ := h c rs' hl'
  exact ⟨rs'', hl'', List.Subset.trans hsub' hsub''⟩

section
variable [DecidableEq χ] {t : Table χ μ ν} {c : χ}

/-- An entry of a table is the one that was written, or an old one. -/
theorem update_eq_some {c' : χ} {o : Option (List (Rule χ μ ν))} {rs : List (Rule χ μ ν)} :
    update t c o c' = some rs ↔ c' = c ∧ o = some rs ∨ c' ≠ c ∧ t c' = some rs := by
  by_cases hc : c' = c
  · subst hc
    rw [update_self]
    simp
  · rw [update_of_ne hc]
    simp [hc]

theorem thinner_update {rs rs' : List (Rule χ μ ν)} (hl : t c = some rs) (hsub : rs' ⊆ rs) :
    Thinner t (update t c (some rs')) := by
  intro c' rs'' hl'
  rcases update_eq_some.1 hl' with ⟨rfl, h⟩ | ⟨-, hl'⟩
  · exact ⟨rs, hl, Option.some.inj h ▸ hsub⟩
  · exact ⟨rs'', hl', List.Subset.refl _⟩

theorem thinner_update_none : Thinner t (update t c none) := by
  intro c' rs' hl'
  rcases update_eq_some.1 hl' with ⟨-, h⟩ | ⟨-, hl'⟩
  · cases h
  · exact ⟨rs', hl', List.Subset.refl _⟩

variable [DecidableEq μ] [DecidableEq ν]

/-- A command that takes rules out of a chain, and leaves the others. -/
def TakesOut (F : PacketFilter σ χ μ ν π) (x : EStateM Error σ Unit) (c : χ) : Prop :=
  ∀ s E, wp x (fun _ s' => Thinner (F.rules s) (F.rules s') ∧
    ∀ c', c' ≠ c → F.rules s' c' = F.rules s c') E s

variable {F : PacketFilter σ χ μ ν π} (hF : F.Lawful)
include hF

theorem takesOut_deleteRules (c : χ) (p : Rule χ μ ν → Bool) : TakesOut F (F.deleteRules c p) c := by
  intro s E
  cases hl : F.rules s c with
  | none => exact PacketFilter.wp_deleteRules_none hl ⟨.refl _, fun _ _ => rfl⟩
  | some rs =>
    refine hF.wp_deleteRules hl fun s' hs' => ?_
    rw [hs']
    exact ⟨thinner_update hl (List.filter_subset_self _), fun _ hc => update_of_ne hc _ _⟩

theorem takesOut_flush (c : χ) : TakesOut F (attempt (F.flush c)) c := by
  intro s E
  rw [wp_attempt]
  cases hl : F.rules s c with
  | none => exact hF.wp_flush_none hl fun _ => ⟨.refl _, fun _ _ => rfl⟩
  | some rs =>
    refine hF.wp_flush hl fun s' hs' => ?_
    rw [hs']
    exact ⟨thinner_update hl (List.nil_subset _), fun _ hc => update_of_ne hc _ _⟩

theorem takesOut_deleteChain (c : χ) : TakesOut F (attempt (F.deleteChain c)) c := by
  intro s E
  refine hF.wp_attempt_deleteChain ⟨.refl _, fun _ _ => rfl⟩ fun s' hs' => ?_
  rw [hs']
  exact ⟨thinner_update_none, fun _ hc => update_of_ne hc _ _⟩

end

end Netfilter
