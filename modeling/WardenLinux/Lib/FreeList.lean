/-
  Free lists and exclusive ownership.

  A pool of resources keeps its free resources in a list.  `Stock` is the
  access to that list of a pool whose own type may restrict it (the list can
  only be cut down through it); `Stock.acquire` takes a resource from the
  front, `Stock.remove` takes a given one out by a search (`removeFirst`).
  `Pool` adds the errors and the release; `Pool.Step` is one call, and
  `Pool.Step.frame` and `Pool.run_frame` the rules for what no call changes.

  `Ahead a b free`: `a` is listed in front of `b`.  Only taking one of the two
  changes that, and what is put back is put behind all others.

  `Exclusive free holds`: no resource is listed twice, none that an owner
  holds is listed, and none has two owners.  It is kept when a resource moves
  from the front of the list to an owner (`give`) or from one owner to another
  (`transfer`), when an owner goes away and its resources are listed
  (`retire`), or when either side forgets one (`shrink`, `drop`); a resource
  that is given back while it is listed or held elsewhere breaks it.
-/
import Mathlib.Data.List.Perm.Subperm
import Mathlib.Data.List.Nodup
import WardenLinux.Lib.Fallible
import WardenLinux.Lib.Transition

namespace FreeList

open Fallible

variable {α ε σ R O : Type}

/-- Take the first element with `p` out of a list: search for its position,
    then join what stands before and after it. -/
def removeFirst (p : α → Bool) (l : List α) : Option (List α) :=
  (l.findIdx? p).map fun i => l.take i ++ l.drop (i + 1)

theorem removeFirst_eq_none {p : α → Bool} {l : List α} :
    removeFirst p l = none ↔ ∀ a ∈ l, p a = false := by
  simp [removeFirst, List.findIdx?_eq_none_iff]

/-- What stands before and after the element that was taken out. -/
theorem removeFirst_split {p : α → Bool} {l l' : List α} (h : removeFirst p l = some l') :
    ∃ a l₁ l₂, p a = true ∧ l = l₁ ++ a :: l₂ ∧ l' = l₁ ++ l₂ := by
  simp only [removeFirst, Option.map_eq_some_iff] at h
  obtain ⟨i, hi, rfl⟩ := h
  obtain ⟨hlt, hp, -⟩ := List.findIdx?_eq_some_iff_getElem.1 hi
  refine ⟨l[i], l.take i, l.drop (i + 1), hp, ?_, rfl⟩
  rw [← List.drop_eq_getElem_cons hlt, List.take_append_drop]

/-- What is left, with the element that was taken out, is what was there. -/
theorem removeFirst_perm {p : α → Bool} {l l' : List α} (h : removeFirst p l = some l') :
    ∃ a, p a = true ∧ l.Perm (a :: l') := by
  obtain ⟨a, l₁, l₂, hp, rfl, rfl⟩ := removeFirst_split h
  exact ⟨a, hp, List.perm_middle⟩

theorem removeFirst_sublist {p : α → Bool} {l l' : List α} (h : removeFirst p l = some l') :
    l'.Sublist l := by
  obtain ⟨a, l₁, l₂, -, rfl, rfl⟩ := removeFirst_split h
  exact (List.Sublist.refl l₁).append (List.sublist_cons_self a l₂)

/-! ## Pools with a free list -/

/-- The free list of a pool, and the pool with a part of it. -/
structure Stock (σ α : Type) where
  list : σ → List α
  keep : (s : σ) → (l : List α) → l.Sublist (list s) → σ

namespace Stock

variable (S : Stock σ α) {s : σ} {E : ε → σ → Prop}

/-- Take the first free resource; `e` is the error of an empty pool. -/
def acquire (e : ε) : EStateM ε σ α := fun s =>
  match h : S.list s with
  | [] => .error e s
  | a :: rest => .ok a (S.keep s rest (h ▸ List.sublist_cons_self a rest))

/-- Take the first free resource with `p` out of the pool; `e` is the error
    when there is none. -/
def remove (p : α → Bool) (e : ε) : EStateM ε σ Unit := fun s =>
  match h : removeFirst p (S.list s) with
  | none => .error e s
  | some rest => .ok () (S.keep s rest (removeFirst_sublist h))

theorem wp_acquire {Q : α → σ → Prop} (e : ε) : wp (S.acquire e) Q E s ↔
    (∀ a rest, S.list s = a :: rest → ∀ h, Q a (S.keep s rest h)) ∧ (S.list s = [] → E e s) := by
  unfold wp acquire
  split
  next a s' hx =>
    split at hx
    · cases hx
    next a' rest h =>
      cases hx
      simp only [h, List.cons.injEq, reduceCtorEq, false_imp_iff, and_true]
      exact ⟨fun hQ _ _ ⟨h1, h2⟩ _ => by subst h1 h2; exact hQ,
        fun hQ => hQ _ _ ⟨rfl, rfl⟩ (List.sublist_cons_self _ _)⟩
  next e' s' hx =>
    split at hx
    next h => cases hx; simp [h]
    · cases hx

theorem acquire_ok {e : ε} {a : α} {s' : σ} (h : S.acquire e s = .ok a s') :
    ∃ rest hsub, S.list s = a :: rest ∧ s' = S.keep s rest hsub := by
  have hwp : wp (S.acquire e)
      (fun a s' => ∃ rest hsub, S.list s = a :: rest ∧ s' = S.keep s rest hsub)
      (fun _ _ => True) s :=
    (S.wp_acquire e).2 ⟨fun _ rest hl hsub => ⟨rest, hsub, hl, rfl⟩, fun _ => trivial⟩
  exact wp_of_ok hwp h

/-- Only an empty pool has nothing to take. -/
theorem acquire_error {e e' : ε} {s' : σ} (h : S.acquire e s = .error e' s') :
    S.list s = [] ∧ s' = s := by
  have hwp : wp (S.acquire e) (fun _ _ => True) (fun _ s' => S.list s = [] ∧ s' = s) s :=
    (S.wp_acquire e).2 ⟨fun _ _ _ _ => trivial, fun hl => ⟨hl, rfl⟩⟩
  exact (wp_of_error hwp h :)

theorem wp_remove {Q : Unit → σ → Prop} (p : α → Bool) (e : ε) : wp (S.remove p e) Q E s ↔
    (∀ rest, removeFirst p (S.list s) = some rest → ∀ h, Q () (S.keep s rest h)) ∧
      (removeFirst p (S.list s) = none → E e s) := by
  unfold wp remove
  split
  next a s' hx =>
    split at hx
    · cases hx
    next rest h =>
      cases hx
      simp only [h, Option.some.injEq, reduceCtorEq, false_imp_iff, and_true]
      exact ⟨fun hQ _ h1 _ => by subst h1; exact hQ, fun hQ => hQ _ rfl (removeFirst_sublist h)⟩
  next e' s' hx =>
    split at hx
    next h => cases hx; simp [h]
    · cases hx

theorem remove_ok {p : α → Bool} {e : ε} {s' : σ} (h : S.remove p e s = .ok () s') :
    ∃ rest hsub, removeFirst p (S.list s) = some rest ∧ s' = S.keep s rest hsub := by
  have hwp : wp (S.remove p e)
      (fun _ s' => ∃ rest hsub, removeFirst p (S.list s) = some rest ∧ s' = S.keep s rest hsub)
      (fun _ _ => True) s :=
    (S.wp_remove p e).2 ⟨fun rest hr hsub => ⟨rest, hsub, hr, rfl⟩, fun _ => trivial⟩
  exact wp_of_ok hwp h

theorem remove_error {p : α → Bool} {e e' : ε} {s' : σ} (h : S.remove p e s = .error e' s') :
    (∀ a ∈ S.list s, p a = false) ∧ s' = s := by
  have hwp : wp (S.remove p e) (fun _ _ => True)
      (fun _ s' => (∀ a ∈ S.list s, p a = false) ∧ s' = s) s :=
    (S.wp_remove p e).2 ⟨fun _ _ _ => trivial, fun hr => ⟨removeFirst_eq_none.1 hr, rfl⟩⟩
  exact (wp_of_error hwp h :)

end Stock

/-! ## Calls on a pool -/

/-- A pool as its callers see it: the errors of an empty pool and of a resource
    that is not free, and what is done with a resource that is given back. -/
structure Pool (ε σ α : Type) extends Stock σ α where
  exhausted : ε
  taken : α → ε
  release : α → σ → σ

namespace Pool

/-- How a call ends. -/
inductive Event (α : Type) where
  | acquired (a : α)
  | exhausted
  | removed (a : α)
  | taken (a : α)
  | released (a : α)
  deriving DecidableEq, Repr

/-- The call hands out the resource. -/
def Event.Yields (a : α) : Event α → Prop
  | acquired b | removed b => b = a
  | _ => False

/-- One call. -/
inductive Step [BEq α] (P : Pool ε σ α) : σ → Event α → σ → Prop
  | acquired {a : α} {s s' : σ} : P.acquire P.exhausted s = .ok a s' → Step P s (.acquired a) s'
  | exhausted {e : ε} {s s' : σ} : P.acquire P.exhausted s = .error e s' → Step P s .exhausted s'
  | removed {a : α} {s s' : σ} : P.remove (· == a) (P.taken a) s = .ok () s' →
      Step P s (.removed a) s'
  | taken {a : α} {e : ε} {s s' : σ} : P.remove (· == a) (P.taken a) s = .error e s' →
      Step P s (.taken a) s'
  | released {a : α} {s : σ} : Step P s (.released a) (P.release a s)

/-- What depends neither on the list nor on what is given back is the same after
    every call. -/
theorem Step.frame [BEq α] {β : Type} {P : Pool ε σ α} {s s' : σ} {e : Event α}
    (h : Step P s e s') (f : σ → β) (hkeep : ∀ s l hsub, f (P.keep s l hsub) = f s)
    (hrelease : ∀ a s, f (P.release a s) = f s) : f s' = f s := by
  cases h with
  | acquired hq =>
    obtain ⟨rest, hsub, -, rfl⟩ := P.acquire_ok hq
    exact hkeep s rest hsub
  | exhausted hq =>
    obtain ⟨-, rfl⟩ := P.acquire_error hq
    rfl
  | removed hq =>
    obtain ⟨rest, hsub, -, rfl⟩ := P.remove_ok hq
    exact hkeep s rest hsub
  | taken hq =>
    obtain ⟨-, rfl⟩ := P.remove_error hq
    rfl
  | released => exact hrelease _ s

/-- It is the same after any calls. -/
theorem run_frame [BEq α] {β : Type} {P : Pool ε σ α} {s₀ s : σ} {es : List (Event α)}
    (h : Transition.Run P.Step s₀ es s) (f : σ → β) (hkeep : ∀ s l hsub, f (P.keep s l hsub) = f s)
    (hrelease : ∀ a s, f (P.release a s) = f s) : f s = f s₀ :=
  h.frame f fun _ _ _ hs => hs.frame f hkeep hrelease

end Pool

/-! ## The order of a free list -/

/-- Both are listed, `a` in front of `b`. -/
def Ahead (a b : R) (free : List R) : Prop := [a, b].Sublist free

namespace Ahead

variable {a b c : R} {l l₁ l₂ : List R}

theorem mem_right (h : Ahead a b l) : b ∈ l := h.subset (List.mem_cons_of_mem a List.mem_cons_self)

/-- What is put at the end comes after everything that is listed. -/
theorem of_mem (h : a ∈ l) : Ahead a b (l ++ [b]) :=
  (List.singleton_sublist.2 h).append (List.Sublist.refl [b])

theorem put (h : Ahead a b l) : Ahead a b (l ++ [c]) := h.trans (List.sublist_append_left l [c])

/-- Another one that leaves the list does not change the order. -/
theorem take (h : Ahead a b (l₁ ++ c :: l₂)) (ha : a ≠ c) (hb : b ≠ c) : Ahead a b (l₁ ++ l₂) := by
  obtain ⟨m₁, m₂, hm, h₁, h₂⟩ := List.sublist_append_iff.1 h
  have hc : c ∉ m₂ := by
    intro hc
    have hab : c ∈ [a, b] := by
      rw [hm]
      exact List.mem_append_right m₁ hc
    rcases List.mem_cons.1 hab with he | he
    · exact ha he.symm
    · exact hb (List.mem_singleton.1 he).symm
  show [a, b].Sublist (l₁ ++ l₂)
  rw [hm]
  refine h₁.append ?_
  rcases List.sublist_cons_iff.1 h₂ with h₂ | ⟨m, rfl, -⟩
  · exact h₂
  · exact absurd List.mem_cons_self hc

/-- The front of the list has nothing ahead of it. -/
theorem not_front (hnd : (b :: l).Nodup) (hne : a ≠ b) : ¬ Ahead a b (b :: l) := by
  intro h
  have h' : Ahead a b l := by
    rcases List.sublist_cons_iff.1 h with h | ⟨m, hm, -⟩
    · exact h
    · exact absurd (List.cons.inj hm).1 hne
  exact (List.nodup_cons.1 hnd).1 h'.mem_right

end Ahead

/-! ## Exclusive ownership -/

/-- The resources listed as free and those held are listed once, held once,
    and not both. -/
structure Exclusive (free : List R) (holds : O → R → Prop) : Prop where
  nodup : free.Nodup
  notFree : ∀ o r, holds o r → r ∉ free
  one : ∀ o o' r, holds o r → holds o' r → o = o'

namespace Exclusive

variable {free free' : List R} {holds holds' : O → R → Prop} {r : R} {o : O}

theorem fresh (h : free.Nodup) (hn : ∀ o r, ¬ holds o r) : Exclusive free holds :=
  ⟨h, fun o r ho => absurd ho (hn o r), fun o _ r ho _ => absurd ho (hn o r)⟩

/-- An owner may forget what it holds. -/
theorem drop (h : Exclusive free holds) (hs : ∀ o r, holds' o r → holds o r) :
    Exclusive free holds' :=
  ⟨h.nodup, fun o r ho => h.notFree o r (hs o r ho),
    fun o o' r ho ho' => h.one o o' r (hs o r ho) (hs o' r ho')⟩

/-- The list may lose what it holds. -/
theorem shrink (h : Exclusive free holds) (hs : free'.Sublist free) : Exclusive free' holds :=
  ⟨h.nodup.sublist hs, fun o r ho hr => h.notFree o r ho (hs.subset hr), h.one⟩

theorem perm (h : Exclusive free holds) (hp : free.Perm free') : Exclusive free' holds :=
  ⟨hp.nodup_iff.1 h.nodup, fun o r ho hr => h.notFree o r ho (hp.mem_iff.2 hr), h.one⟩

/-- The front of the list goes to an owner. -/
theorem give (h : Exclusive (r :: free) holds)
    (hs : ∀ o' r', holds' o' r' → holds o' r' ∨ o' = o ∧ r' = r) : Exclusive free holds' := by
  obtain ⟨hr, hnd⟩ := List.nodup_cons.1 h.nodup
  have hold : ∀ o' r', holds o' r' → r' ∉ free := fun o' r' ho hr' =>
    h.notFree o' r' ho (List.mem_cons_of_mem _ hr')
  have hnew : ∀ o', ¬ holds o' r := fun o' ho => h.notFree o' r ho List.mem_cons_self
  refine ⟨hnd, fun o' r' ho => ?_, fun o₁ o₂ r' h₁ h₂ => ?_⟩
  · rcases hs o' r' ho with ho | ⟨-, rfl⟩
    · exact hold o' r' ho
    · exact hr
  · rcases hs o₁ r' h₁ with h₁ | ⟨rfl, rfl⟩
    · rcases hs o₂ r' h₂ with h₂ | ⟨-, rfl⟩
      · exact h.one o₁ o₂ r' h₁ h₂
      · exact absurd h₁ (hnew o₁)
    · rcases hs o₂ r' h₂ with h₂ | ⟨rfl, -⟩
      · exact absurd h₂ (hnew o₂)
      · rfl

/-- What an owner holds can be listed once. -/
theorem nodup_append (h : Exclusive free holds) (ho : holds o r) : (free ++ [r]).Nodup := by
  rw [List.nodup_append]
  refine ⟨h.nodup, List.nodup_singleton r, fun a ha b hb => ?_⟩
  rw [List.mem_singleton.1 hb]
  exact fun he => h.notFree o r ho (he ▸ ha)

/-- An owner goes away, and what it held may be listed. -/
theorem retire (h : Exclusive free holds) (o : O) (hnd : free'.Nodup)
    (hf : ∀ r ∈ free', r ∈ free ∨ holds o r)
    (hs : ∀ o' r, holds' o' r → holds o' r ∧ o' ≠ o) : Exclusive free' holds' := by
  refine ⟨hnd, fun o' r ho' hr => ?_, fun o₁ o₂ r h₁ h₂ =>
    h.one o₁ o₂ r (hs o₁ r h₁).1 (hs o₂ r h₂).1⟩
  obtain ⟨ho', hne⟩ := hs o' r ho'
  rcases hf r hr with hr | hr
  · exact h.notFree o' r ho' hr
  · exact hne (h.one o' o r ho' hr)

/-- An owner goes away, and what it held is put back, or is lost. -/
theorem putBack (h : Exclusive free holds) (ho : holds o r)
    (hf : free' = free ++ [r] ∨ free' = free)
    (hs : ∀ o' r', holds' o' r' → holds o' r' ∧ o' ≠ o) : Exclusive free' holds' := by
  rcases hf with rfl | rfl
  · refine h.retire o (h.nodup_append ho) (fun r' hr' => ?_) hs
    rcases List.mem_append.1 hr' with hr' | hr'
    · exact Or.inl hr'
    · rw [List.mem_singleton.1 hr']
      exact Or.inr ho
  · exact h.drop fun o' r' ho' => (hs o' r' ho').1

/-- What an owner holds may go to another one. -/
theorem transfer (h : Exclusive free holds) (o₁ o₂ : O)
    (hs : ∀ o' r', holds' o' r' → holds o' r' ∧ o' ≠ o₁ ∨ o' = o₂ ∧ holds o₁ r') :
    Exclusive free holds' := by
  refine ⟨h.nodup, fun o' r' ho => ?_, fun a b r' ha hb => ?_⟩
  · rcases hs o' r' ho with ⟨ho, -⟩ | ⟨-, ho⟩
    exacts [h.notFree o' r' ho, h.notFree o₁ r' ho]
  · rcases hs a r' ha with ⟨ha, hna⟩ | ⟨rfl, ha⟩
    · rcases hs b r' hb with ⟨hb, -⟩ | ⟨-, hb⟩
      exacts [h.one a b r' ha hb, absurd (h.one a o₁ r' ha hb) hna]
    · rcases hs b r' hb with ⟨hb, hnb⟩ | ⟨rfl, -⟩
      exacts [absurd (h.one b o₁ r' hb ha) hnb, rfl]

/-- The front of the list may go to its end. -/
theorem rotate (h : Exclusive (r :: free) holds) : Exclusive (free ++ [r]) holds :=
  h.perm (List.perm_append_singleton r free).symm

end Exclusive

end FreeList
