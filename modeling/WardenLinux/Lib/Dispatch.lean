/-
  A chain of a packet filter that sends packets to one chain for each instance.

  * `Dispatch`: how the entries and chains of instances are written, and
    `teardown`, `setup`, `teardownAll`: the commands that bind, unbind and clear
    them.
  * `Holds`: the table has the entries and chains of some instances, and nothing
    else that is about instances.
  * `wp_setup`, `wp_teardown`, `wp_teardownAll`: what the commands leave of the
    other chains, on a lawful filter; `Holds.replaced`: what a change to the rules
    of one instance leaves.
-/
import WardenLinux.Lib.Netfilter
import Mathlib.Data.List.Nodup

namespace Netfilter

open Fallible Function Relation

variable {σ χ μ ν π ι κ : Type}

/-- A chain that sends packets to one chain for each instance, and how its
    entries are written.  An instance is set up with a configuration `κ`, in
    which its identity `ι` is the key. -/
structure Dispatch (ι κ χ μ ν : Type) where
  chain : χ
  key : κ → ι
  /-- the chain of an instance -/
  inst : ι → χ
  /-- the names that are for chains of instances -/
  isInst : χ → Bool
  /-- the entry of an instance in the dispatching chain -/
  entry : κ → Rule χ μ ν
  /-- the rules a new chain of an instance has -/
  base : List (Rule χ μ ν)
  /-- where a new entry is inserted; at the end if nowhere else -/
  place : Option ℕ
  /-- the entries an instance is taken out with -/
  refers : ι → Rule χ μ ν → Bool
  /-- the entries all instances are taken out with -/
  refersAny : Rule χ μ ν → Bool
  inst_injective : Function.Injective inst
  isInst_inst : ∀ i, isInst (inst i) = true
  isInst_chain : isInst chain = false
  entry_target : ∀ k, (entry k).target.chain? = some (inst (key k))
  refers_entry : ∀ i k, refers i (entry k) = true ↔ key k = i
  base_target : ∀ r ∈ base, ∀ c, r.target.chain? = some c → isInst c = false

namespace Dispatch

section Scripts
variable (D : Dispatch ι κ χ μ ν) (F : PacketFilter σ χ μ ν π)

/-- Take an instance out. -/
def teardown (i : ι) : EStateM Error σ Unit := do
  F.deleteRules D.chain (D.refers i)
  attempt (F.flush (D.inst i))
  attempt (F.deleteChain (D.inst i))

/-- The entry of an instance. -/
def bind (k : κ) : EStateM Error σ Unit :=
  match D.place with
  | some n => F.insertAt D.chain n (D.entry k)
  | none => F.append D.chain (D.entry k)

/-- Set an instance up, with nothing but the rules of a new chain. -/
def setup (k : κ) : EStateM Error σ Unit := do
  D.teardown F (D.key k)
  F.newChain (D.inst (D.key k))
  each (F.append (D.inst (D.key k))) D.base
  D.bind F k

/-- Take all instances out. -/
def teardownAll : EStateM Error σ Unit := do
  F.deleteRules D.chain D.refersAny
  F.clearChains D.isInst
  F.deleteChains D.isInst

/-- The filter takes the names of the instances, and their rules. -/
structure Fits : Prop where
  name : ∀ i, F.Name (D.inst i)
  builtin : ∀ c, D.isInst c = true → ¬ F.Builtin c
  base : ∀ i, ∀ r ∈ D.base, F.Takes (D.inst i) r
  entry : ∀ k, F.Takes D.chain (D.entry k)

end Scripts

/-! ### What a table holds -/

section Holds
variable (D : Dispatch ι κ χ μ ν)

/-- The instances with a new one, in the order of their entries. -/
def placed (e : κ × List (Rule χ μ ν)) (live : List (κ × List (Rule χ μ ν))) :
    List (κ × List (Rule χ μ ν)) :=
  match D.place with
  | some _ => e :: live
  | none => live ++ [e]

/-- The instances without one. -/
def without [DecidableEq ι] (i : ι) (live : List (κ × List (Rule χ μ ν))) :
    List (κ × List (Rule χ μ ν)) :=
  live.filter fun e => D.key e.1 ≠ i

/-- The rules of one instance replaced. -/
def replace [DecidableEq ι] (i : ι) (rs : List (Rule χ μ ν))
    (live : List (κ × List (Rule χ μ ν))) : List (κ × List (Rule χ μ ν)) :=
  live.map fun e => if D.key e.1 = i then (e.1, rs) else e

/-- Rules that refer to no instance. -/
def Foreign (rs : List (Rule χ μ ν)) : Prop :=
  ∀ r ∈ rs, ∀ c, r.target.chain? = some c → D.isInst c = false

/-- The rules around the entries, and where a new one is put. -/
structure Framed (head foot : List (Rule χ μ ν)) : Prop where
  foreign : D.Foreign (head ++ foot)
  kept : ∀ r ∈ head ++ foot, ∀ i, D.refers i r = false
  placed : match D.place with
    | some n => n = head.length
    | none => foot = []

/-- The table has the entries of the given instances, between `head` and
    `foot`, and their chains, and nothing else that is about instances. -/
structure Holds (head foot : List (Rule χ μ ν)) (live : List (κ × List (Rule χ μ ν)))
    (t : Table χ μ ν) : Prop where
  entries : t D.chain = some (head ++ (live.map fun e => D.entry e.1) ++ foot)
  chains : ∀ e ∈ live, t (D.inst (D.key e.1)) = some (e.2 ++ D.base)
  absent : ∀ c, D.isInst c = true → (∀ e ∈ live, D.inst (D.key e.1) ≠ c) → t c = none
  distinct : (live.map fun e => D.key e.1).Nodup
  others : ∀ c rs, t c = some rs → c ≠ D.chain → D.Foreign rs

/-- The chains that have nothing to do with instances are the same. -/
def Same (t t' : Table χ μ ν) : Prop :=
  ∀ c, c ≠ D.chain → D.isInst c = false → t' c = t c

end Holds

variable {D : Dispatch ι κ χ μ ν} {head foot : List (Rule χ μ ν)}
  {live : List (κ × List (Rule χ μ ν))}

theorem inst_ne_chain (D : Dispatch ι κ χ μ ν) (i : ι) : D.inst i ≠ D.chain := fun h => by
  have := D.isInst_inst i
  rw [h, D.isInst_chain] at this
  cases this

theorem ne_inst {c : χ} (hc : D.isInst c = false) (i : ι) : c ≠ D.inst i := fun h => by
  rw [h, D.isInst_inst] at hc
  cases hc

theorem Foreign.mono {rs rs' : List (Rule χ μ ν)} (h : D.Foreign rs) (hsub : rs' ⊆ rs) :
    D.Foreign rs' := fun r hr => h r (hsub hr)

theorem Foreign.concat {rs : List (Rule χ μ ν)} {r : Rule χ μ ν} (h : D.Foreign rs)
    (hr : ∀ c, r.target.chain? = some c → D.isInst c = false) : D.Foreign (rs ++ [r]) := by
  intro r' hr'
  rcases List.mem_append.1 hr' with hr' | hr'
  · exact h r' hr'
  · rw [List.mem_singleton.1 hr']
    exact hr

theorem mem_placed {e e' : κ × List (Rule χ μ ν)} : e ∈ D.placed e' live ↔ e = e' ∨ e ∈ live := by
  unfold placed
  split <;> simp [or_comm]

section
variable [DecidableEq ι]

theorem mem_without {i : ι} {e : κ × List (Rule χ μ ν)} :
    e ∈ D.without i live ↔ e ∈ live ∧ D.key e.1 ≠ i := by
  simp [without]

theorem replace_map {i : ι} (rs : List (Rule χ μ ν)) {β : Type} (f : κ → β) :
    ((D.replace i rs live).map fun e => f e.1) = live.map fun e => f e.1 := by
  rw [replace, List.map_map]
  refine List.map_congr_left fun e _ => ?_
  simp only [Function.comp_apply]
  split <;> rfl

/-- The entries that are left after an instance was taken out. -/
theorem filter_entries (hf : D.Framed head foot) (i : ι) :
    (head ++ (live.map fun e => D.entry e.1) ++ foot).filter (fun r => !D.refers i r) =
      head ++ ((D.without i live).map fun e => D.entry e.1) ++ foot := by
  have hkept : ∀ l : List (Rule χ μ ν), (∀ r ∈ l, r ∈ head ++ foot) →
      l.filter (fun r => !D.refers i r) = l := fun l hl =>
    List.filter_eq_self.2 fun r hr => by rw [hf.kept r (hl r hr) i]; rfl
  rw [List.filter_append, List.filter_append, hkept head (fun r hr => by simp [hr]),
    hkept foot (fun r hr => by simp [hr]), List.filter_map, without]
  congr 4
  funext e
  by_cases h : D.key e.1 = i
  · simp [h, (D.refers_entry i e.1).2 h]
  · have : D.refers i (D.entry e.1) = false := by
      rw [← Bool.not_eq_true, D.refers_entry]
      exact h
    simp [h, this]

end

theorem insertIdx_length (l l' : List (Rule χ μ ν)) (r : Rule χ μ ν) :
    (l ++ l').insertIdx l.length r = l ++ r :: l' := by
  induction l with
  | nil => simp
  | cons _ l ih => simp [ih]

/-! ### The scripts -/

section
variable {t t' t'' : Table χ μ ν}

theorem Same.trans (h : D.Same t t') (h' : D.Same t' t'') : D.Same t t'' :=
  fun c hc hi => (h' c hc hi).trans (h c hc hi)

/-- Tables that differ in the chain of one instance. -/
theorem same_update_inst [DecidableEq χ] (i : ι) (o : Option (List (Rule χ μ ν))) :
    D.Same t (update t (D.inst i) o) :=
  fun _ _ hc => update_of_ne (ne_inst hc i) _ _

/-- A table that differs by one instance, which is out. -/
theorem Holds.without [DecidableEq ι] (h : D.Holds head foot live t) {i : ι}
    (hchain : t' D.chain =
      some (head ++ ((D.without i live).map fun e => D.entry e.1) ++ foot))
    (hinst : t' (D.inst i) = none)
    (hsame : ∀ c, c ≠ D.chain → c ≠ D.inst i → t' c = t c) :
    D.Holds head foot (D.without i live) t' where
  entries := hchain
  chains e he := by
    rw [mem_without] at he
    rw [hsame _ (D.inst_ne_chain _) fun hi => he.2 (D.inst_injective hi)]
    exact h.chains e he.1
  absent c hc hj := by
    by_cases hi : c = D.inst i
    · rw [hi]; exact hinst
    · rw [hsame c (fun h => by rw [h, D.isInst_chain] at hc; cases hc) hi]
      refine h.absent c hc fun e he hk => hj e (mem_without.2 ⟨he, ?_⟩) hk
      rintro rfl
      exact hi hk.symm
  distinct := h.distinct.sublist ((List.filter_sublist ..).map _)
  others c rs hl hc := by
    by_cases hi : c = D.inst i
    · rw [hi, hinst] at hl; cases hl
    · exact h.others c rs (by rw [← hsame c hc hi]; exact hl) hc

/-- The table without the entry and the chain of an instance. -/
theorem Holds.pruned [DecidableEq ι] [DecidableEq χ] (h : D.Holds head foot live t) {i : ι}
    {t₁ : Table χ μ ν}
    (ht₁ : t₁ = update t D.chain
      (some (head ++ ((D.without i live).map fun e => D.entry e.1) ++ foot))) :
    D.Holds head foot (D.without i live) (update t₁ (D.inst i) none) ∧
      D.Same t (update t₁ (D.inst i) none) := by
  subst ht₁
  refine ⟨h.without ?_ (update_self _ _ _) fun c hc hi => ?_, fun c hc hi => ?_⟩
  · rw [update_of_ne (D.inst_ne_chain i).symm, update_self]
  · rw [update_of_ne hi, update_of_ne hc]
  · rw [update_of_ne (ne_inst hi i), update_of_ne hc]

/-- A table that differs by one instance, which is new. -/
theorem Holds.placed (h : D.Holds head foot live t) {k : κ} {rs : List (Rule χ μ ν)}
    (hnew : ∀ e ∈ live, D.key e.1 ≠ D.key k) (hrs : D.Foreign rs)
    (hchain : t' D.chain =
      some (head ++ ((D.placed (k, rs) live).map fun e => D.entry e.1) ++ foot))
    (hinst : t' (D.inst (D.key k)) = some (rs ++ D.base))
    (hsame : ∀ c, c ≠ D.chain → c ≠ D.inst (D.key k) → t' c = t c) :
    D.Holds head foot (D.placed (k, rs) live) t' where
  entries := hchain
  chains e he := by
    rcases mem_placed.1 he with rfl | he
    · exact hinst
    · rw [hsame _ (D.inst_ne_chain _) fun hi => hnew e he (D.inst_injective hi)]
      exact h.chains e he
  absent c hc hj := by
    have hck : c ≠ D.inst (D.key k) := fun hck => hj _ (mem_placed.2 (.inl rfl)) hck.symm
    rw [hsame c (fun h => by rw [h, D.isInst_chain] at hc; cases hc) hck]
    exact h.absent c hc fun e he => hj e (mem_placed.2 (.inr he))
  distinct := by
    have hmem : D.key k ∉ live.map fun e => D.key e.1 := by
      rw [List.mem_map]
      rintro ⟨e, he, hk⟩
      exact hnew e he hk
    unfold Dispatch.placed
    split
    · rw [List.map_cons, List.nodup_cons]
      exact ⟨hmem, h.distinct⟩
    · rw [List.map_append, List.map_singleton, List.nodup_append]
      refine ⟨h.distinct, List.nodup_singleton _, fun a ha b hb => ?_⟩
      rw [List.mem_singleton] at hb
      rintro rfl
      exact hmem (hb ▸ ha)
  others c rs' hl hc := by
    by_cases hi : c = D.inst (D.key k)
    · rw [hi, hinst, Option.some.injEq] at hl
      subst hl
      intro r hr
      rcases List.mem_append.1 hr with hr | hr
      · exact hrs r hr
      · exact D.base_target r hr
    · exact h.others c rs' (by rw [← hsame c hc hi]; exact hl) hc

/-- A table in which the chain of one instance has other rules. -/
theorem Holds.replaced [DecidableEq ι] [DecidableEq χ] (h : D.Holds head foot live t)
    {e : κ × List (Rule χ μ ν)} (he : e ∈ live) {rs : List (Rule χ μ ν)} (hrs : D.Foreign rs) :
    D.Holds head foot (D.replace (D.key e.1) rs live)
      (update t (D.inst (D.key e.1)) (some (rs ++ D.base))) where
  entries := by
    rw [update_of_ne (D.inst_ne_chain _).symm, replace_map]
    exact h.entries
  chains e' he' := by
    obtain ⟨e'', he'', rfl⟩ := List.mem_map.1 he'
    by_cases hk : D.key e''.1 = D.key e.1
    · rw [if_pos hk, hk]
      exact update_self _ _ _
    · rw [if_neg hk, update_of_ne fun hi => hk (D.inst_injective hi)]
      exact h.chains e'' he''
  absent c hc hj := by
    have hall : ∀ e' ∈ live, D.inst (D.key e'.1) ≠ c := fun e' he' hi => by
      have hmem : D.key e'.1 ∈ (D.replace (D.key e.1) rs live).map fun e => D.key e.1 := by
        rw [replace_map]
        exact List.mem_map_of_mem he'
      obtain ⟨e'', he'', hk⟩ := List.mem_map.1 hmem
      exact hj e'' he'' (by rw [hk]; exact hi)
    rw [update_of_ne (hall e he).symm]
    exact h.absent c hc hall
  distinct := by
    rw [replace_map]
    exact h.distinct
  others c rs' hl hc := by
    rcases update_eq_some.1 hl with ⟨-, hl⟩ | ⟨-, hl⟩
    · intro r hr
      rcases List.mem_append.1 (Option.some.inj hl ▸ hr) with hr | hr
      · exact hrs r hr
      · exact D.base_target r hr
    · exact h.others c rs' hl hc

/-- Nothing refers to an instance that is out. -/
theorem Holds.not_refers (h : D.Holds head foot live t) (hf : D.Framed head foot) {i : ι}
    (hi : ∀ e ∈ live, D.key e.1 ≠ i) (c : χ) : ¬ Refers t c (D.inst i) := by
  rintro ⟨rs, hl, r, hr, htarget⟩
  have hforeign : ¬ D.isInst (D.inst i) = false := by simp [D.isInst_inst]
  by_cases hc : c = D.chain
  · rw [hc, h.entries, Option.some.injEq] at hl
    rw [← hl, List.append_assoc, List.mem_append, List.mem_append, List.mem_map] at hr
    rcases hr with hr | ⟨e, he, rfl⟩ | hr
    · exact hforeign (hf.foreign r (by simp [hr]) _ htarget)
    · rw [D.entry_target, Option.some.injEq] at htarget
      exact hi e he (D.inst_injective htarget)
    · exact hforeign (hf.foreign r (by simp [hr]) _ htarget)
  · exact hforeign (h.others c rs hl hc r hr _ htarget)

end

section
variable [DecidableEq ι] [DecidableEq χ] [DecidableEq μ] [DecidableEq ν]
  {F : PacketFilter σ χ μ ν π} {s : σ}

/-- **Taking an instance out** leaves the others. -/
theorem wp_teardown (hF : F.Lawful) (hfit : D.Fits F) (h : D.Holds head foot live (F.rules s))
    (hf : D.Framed head foot) (i : ι) :
    wp (D.teardown F i) (fun _ s' => D.Holds head foot (D.without i live) (F.rules s') ∧
      D.Same (F.rules s) (F.rules s')) (fun _ _ => False) s := by
  rw [teardown, wp_bind]
  refine hF.wp_deleteRules h.entries fun s₁ hs₁ => ?_
  rw [filter_entries hf] at hs₁
  have hout := h.pruned hs₁
  have hi : F.rules s₁ (D.inst i) = F.rules s (D.inst i) := by
    rw [hs₁, update_of_ne (D.inst_ne_chain i)]
  rw [wp_bind, wp_attempt]
  by_cases hlive : ∃ e ∈ live, D.key e.1 = i
  · obtain ⟨e, he, rfl⟩ := hlive
    refine hF.wp_flush (hi.trans (h.chains e he)) fun s₂ hs₂ => ?_
    -- a table with the empty chain is the one without it, as to what refers to it
    have hunref : ∀ c, ¬ Refers (F.rules s₂) c (D.inst (D.key e.1)) := fun c => by
      rintro ⟨rs, hl, r, hr, ht⟩
      rw [hs₂] at hl
      rcases update_eq_some.1 hl with ⟨-, hnil⟩ | ⟨hc, hl⟩
      · rw [← Option.some.inj hnil] at hr
        cases hr
      · refine hout.1.not_refers hf (fun e' he' => (mem_without.1 he').2) c
          ⟨rs, ?_, r, hr, ht⟩
        rw [update_of_ne hc]
        exact hl
    rw [wp_attempt]
    refine hF.wp_deleteChain (hfit.builtin _ (D.isInst_inst _)) (by rw [hs₂, update_self]) hunref
      fun s₃ hs₃ => ?_
    rw [hs₃, hs₂, update_idem]
    exact hout
  · push Not at hlive
    have hnone := hi.trans (h.absent _ (D.isInst_inst i) fun e he hk =>
      hlive e he (D.inst_injective hk))
    have hsame : update (F.rules s₁) (D.inst i) none = F.rules s₁ := by
      rw [← hnone, update_eq_self]
    rw [hsame] at hout
    refine hF.wp_flush_none hnone fun _ => hF.wp_attempt_deleteChain hout fun s₂ hs₂ => ?_
    rw [hs₂, hsame]
    exact hout

omit [DecidableEq ι] in
/-- The entry of a new instance, wherever it is put. -/
theorem wp_enter (hF : F.Lawful) (hf : D.Framed head foot) {k : κ} (rs : List (Rule χ μ ν))
    {Q : Unit → σ → Prop} {E : Error → σ → Prop}
    (hchain : F.rules s D.chain = some (head ++ (live.map fun e => D.entry e.1) ++ foot))
    (hentry : F.Addable s D.chain (D.entry k))
    (hQ : ∀ s', F.rules s' = update (F.rules s) D.chain
      (some (head ++ ((D.placed (k, rs) live).map fun e => D.entry e.1) ++ foot)) → Q () s') :
    wp (D.bind F k) Q E s := by
  have hplaced := hf.placed
  unfold bind
  cases hp : D.place with
  | some n =>
    rw [hp] at hplaced
    simp only at hplaced ⊢
    refine hF.wp_insertAt hchain (by simp [hplaced]) hentry fun s' hs' => hQ s' ?_
    rw [hs', hplaced, List.append_assoc, insertIdx_length, Dispatch.placed, hp]
    simp
  | none =>
    rw [hp] at hplaced
    simp only at hplaced ⊢
    refine hF.wp_append hchain hentry fun s' hs' => hQ s' ?_
    rw [hs', hplaced, Dispatch.placed, hp]
    simp

/-- **Setting an instance up** gives it the rules of a new chain and leaves the
    others. -/
theorem wp_setup (hF : F.Lawful) (hfit : D.Fits F) (h : D.Holds head foot live (F.rules s))
    (hf : D.Framed head foot) (k : κ)
    (hbase : ∀ r ∈ D.base, ∀ c, r.target.chain? = some c →
      c ≠ D.chain ∧ ¬ F.Builtin c ∧ Leaf (F.rules s) c) :
    wp (D.setup F k) (fun _ s' =>
      D.Holds head foot (D.placed (k, []) (D.without (D.key k) live)) (F.rules s') ∧
        D.Same (F.rules s) (F.rules s')) (fun _ _ => False) s := by
  rw [setup, wp_bind]
  refine wp_mono (wp_teardown hF hfit h hf (D.key k)) ?_ fun _ _ he => he
  rintro _ s₁ ⟨h₁, hsame₁⟩
  have hnew : ∀ e ∈ D.without (D.key k) live, D.key e.1 ≠ D.key k := fun e he => (mem_without.1 he).2
  have hnone := h₁.absent _ (D.isInst_inst (D.key k)) fun e he hi =>
    hnew e he (D.inst_injective hi)
  rw [wp_bind]
  refine hF.wp_newChain (hfit.name _) hnone fun s₂ hs₂ => ?_
  -- the chains that the new rules refer to are as they were
  have hleaf : ∀ s' rs, F.rules s' = update (F.rules s₂) (D.inst (D.key k)) (some rs) →
      ∀ r ∈ D.base, ∀ c, r.target.chain? = some c → Leaf (F.rules s') c := by
    intro s' rs hs' r hr c hc
    have hci := D.base_target r hr c hc
    obtain ⟨hchain, -, rs', hl, hrs'⟩ := hbase r hr c hc
    refine ⟨rs', ?_, hrs'⟩
    rw [hs', update_of_ne (ne_inst hci _), hs₂, update_of_ne (ne_inst hci _), hsame₁ c hchain hci]
    exact hl
  rw [wp_bind]
  refine hF.wp_each_append (by rw [hs₂, update_self]) (fun r hr s' rs hs' _ => ?_) fun s₃ hs₃ => ?_
  · refine ⟨hfit.base _ r hr, fun c hc => ?_⟩
    have hl := hleaf s' rs hs' r hr c hc
    exact ⟨hl.isSome, (hbase r hr c hc).2.1, hl.not_leads (ne_inst (D.base_target r hr c hc) _)⟩
  rw [List.nil_append] at hs₃
  have hinst : F.rules s₃ (D.inst (D.key k)) = some D.base := by rw [hs₃, update_self]
  have hsame₃ : ∀ c, c ≠ D.inst (D.key k) → F.rules s₃ c = F.rules s₁ c := fun c hc => by
    rw [hs₃, update_of_ne hc, hs₂, update_of_ne hc]
  have hchain := (hsame₃ _ (D.inst_ne_chain _).symm).trans h₁.entries
  have hentry : F.Addable s₃ D.chain (D.entry k) := by
    refine ⟨hfit.entry k, fun c hc => ?_⟩
    rw [D.entry_target, Option.some.injEq] at hc
    subst hc
    refine ⟨Option.isSome_of_eq_some hinst, hfit.builtin _ (D.isInst_inst _),
      not_leads (D.inst_ne_chain _) ?_⟩
    rintro c ⟨rs, hl, r, hr, hc⟩
    rw [hinst, Option.some.injEq] at hl
    subst hl
    exact ⟨(hbase r hr c hc).1, hleaf s₃ _ hs₃ r hr c hc⟩
  refine wp_enter hF hf [] hchain hentry fun s' hs' => ⟨?_, fun c hc hi => ?_⟩
  · refine h₁.placed hnew (List.forall_mem_nil _) (by rw [hs', update_self]) ?_ fun c hc hi => ?_
    · rw [hs', update_of_ne (D.inst_ne_chain _)]
      exact hinst
    · rw [hs', update_of_ne hc, hsame₃ c hi]
  · rw [hs', update_of_ne hc, hsame₃ c (ne_inst hi _), hsame₁ c hc hi]

end

/-! ### All instances -/

/-- Nothing refers to instances but the entries and their own chains. -/
structure Clean (D : Dispatch ι κ χ μ ν) (t : Table χ μ ν) : Prop where
  others : ∀ c rs, t c = some rs → c ≠ D.chain → D.isInst c = false → D.Foreign rs
  entries : ∀ rs, t D.chain = some rs → D.Foreign (rs.filter fun r => !D.refersAny r)

/-- Nothing is about instances. -/
structure Vacant (D : Dispatch ι κ χ μ ν) (t : Table χ μ ν) : Prop where
  absent : ∀ c, D.isInst c = true → t c = none
  others : ∀ c rs, t c = some rs → c ≠ D.chain → D.Foreign rs

section
variable {t t' : Table χ μ ν}

theorem Clean.thinner (h : D.Clean t) (ht : Thinner t t') : D.Clean t' where
  others c rs' hl hc hi := by
    obtain ⟨rs, hl, hsub⟩ := ht c rs' hl
    exact (h.others c rs hl hc hi).mono hsub
  entries rs' hl := by
    obtain ⟨rs, hl, hsub⟩ := ht _ rs' hl
    exact (h.entries rs hl).mono (List.filter_subset _ hsub)

theorem Vacant.thinner (h : D.Vacant t) (ht : Thinner t t') : D.Vacant t' where
  absent c hc := by
    cases hl : t' c with
    | none => rfl
    | some rs' =>
      obtain ⟨rs, hl, -⟩ := ht c rs' hl
      rw [h.absent c hc] at hl
      cases hl
  others c rs' hl hc := by
    obtain ⟨rs, hl, hsub⟩ := ht c rs' hl
    exact (h.others c rs hl hc).mono hsub

/-- One chain written anew. -/
theorem Vacant.write (h : D.Vacant t) {c : χ} (hc : D.isInst c = false)
    {rs : List (Rule χ μ ν)} (hl : t' c = some rs) (hrs : c = D.chain ∨ D.Foreign rs)
    (hs : ∀ c', c' ≠ c → t' c' = t c') : D.Vacant t' where
  absent c' hc' := by
    rw [hs c' fun hcc => by rw [hcc, hc] at hc'; cases hc']
    exact h.absent c' hc'
  others c' rs' hl' hc' := by
    by_cases hcc : c' = c
    · subst hcc
      rw [hl, Option.some.injEq] at hl'
      exact hl' ▸ hrs.resolve_left hc'
    · exact h.others c' rs' (hs c' hcc ▸ hl') hc'

theorem Vacant.update [DecidableEq χ] (h : D.Vacant t) {c : χ} (hc : D.isInst c = false)
    {rs : List (Rule χ μ ν)} (hrs : c = D.chain ∨ D.Foreign rs) :
    D.Vacant (update t c (some rs)) :=
  h.write hc (update_self _ _ _) hrs fun _ hc' => update_of_ne hc' _ _

/-- A table that is about no instance, with the rules around the entries. -/
theorem Vacant.holds (h : D.Vacant t) (hl : t D.chain = some (head ++ foot)) :
    D.Holds head foot [] t where
  entries := by rw [hl, List.map_nil, List.append_nil]
  chains := List.forall_mem_nil _
  absent c hc _ := h.absent c hc
  distinct := List.nodup_nil
  others := h.others

/-- The table of some instances, when their entries are found. -/
theorem Holds.clean (h : D.Holds head foot live t) (hf : D.Framed head foot)
    (hany : ∀ k, D.refersAny (D.entry k) = true) : D.Clean t where
  others c rs hl hc _ := h.others c rs hl hc
  entries rs hl := by
    rw [h.entries, Option.some.injEq] at hl
    subst hl
    intro r hr
    rw [List.mem_filter, List.append_assoc, List.mem_append, List.mem_append, List.mem_map] at hr
    obtain ⟨hr | ⟨e, -, rfl⟩ | hr, hrefers⟩ := hr
    · exact hf.foreign r (by simp [hr])
    · rw [hany] at hrefers
      cases hrefers
    · exact hf.foreign r (by simp [hr])

end

section
variable [DecidableEq χ] [DecidableEq μ] [DecidableEq ν] {F : PacketFilter σ χ μ ν π} {s : σ}

/-- **Taking all instances out** leaves none, and the chains around theirs. -/
theorem wp_teardownAll (hF : F.Lawful) (hfit : D.Fits F) (h : D.Clean (F.rules s))
    {E : Error → σ → Prop} : wp (D.teardownAll F) (fun _ s' => D.Vacant (F.rules s') ∧
      Thinner (F.rules s) (F.rules s') ∧ D.Same (F.rules s) (F.rules s')) E s := by
  rw [teardownAll, wp_bind]
  refine hF.wp_deleteRules_map fun s₁ hs₁ => ?_
  have h₁ : F.rules s₁ D.chain =
      (F.rules s D.chain).map fun rs => rs.filter fun r => !D.refersAny r := by
    rw [hs₁, update_self]
  have hother : ∀ c, c ≠ D.chain → F.rules s₁ c = F.rules s c := fun c hc => by
    rw [hs₁, update_of_ne hc]
  have hthin : Thinner (F.rules s) (F.rules s₁) := fun c rs hl => by
    by_cases hc : c = D.chain
    · rw [hc, h₁, Option.map_eq_some_iff] at hl
      obtain ⟨rs', hl, rfl⟩ := hl
      exact ⟨rs', hc ▸ hl, List.filter_subset_self _⟩
    · exact ⟨rs, hother c hc ▸ hl, List.Subset.refl _⟩
  have hforeign : ∀ c rs, F.rules s₁ c = some rs → D.isInst c = false → D.Foreign rs :=
    fun c rs hl hi => by
      by_cases hc : c = D.chain
      · rw [hc, h₁, Option.map_eq_some_iff] at hl
        obtain ⟨rs', hl, rfl⟩ := hl
        exact h.entries rs' hl
      · exact h.others c rs (hother c hc ▸ hl) hc hi
  refine hF.wp_clearChains_deleteChains hfit.builtin
    (fun c rs hl hi r hr => hforeign c rs hl hi r hr) fun s' hs' => ?_
  -- the chains that are left are those of `s₁` with other names
  have hleft : ∀ c rs, F.rules s' c = some rs → D.isInst c = false ∧ F.rules s₁ c = some rs :=
    fun c rs hl => by
      rw [hs'] at hl
      split_ifs at hl with hi
      exact ⟨Bool.not_eq_true _ ▸ hi, hl⟩
  refine ⟨⟨fun c hc => by rw [hs', if_pos hc], fun c rs hl _ => ?_⟩, ?_, fun c hc hi => ?_⟩
  · exact hforeign c rs (hleft c rs hl).2 (hleft c rs hl).1
  · exact hthin.trans fun c rs hl => ⟨rs, (hleft c rs hl).2, List.Subset.refl _⟩
  · rw [hs', hi]
    exact hother c hc

end

end Dispatch

end Netfilter
