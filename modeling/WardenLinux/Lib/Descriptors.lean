/-
  Descriptor tables of processes.

  A table is an array of slots; a descriptor is the number of a slot that is in
  use.  A new descriptor is the lowest number that is free.  The flag
  close-on-exec belongs to the descriptor and not to the file: `dup` and `dup2`
  give a descriptor without it, and `exec` closes the descriptors that have it.

  * `get_alloc`, `get_close`, `get_dup2`, `get_exec`: what an operation makes of
    each number.
  * `Opened t ns t'`: since `t` the descriptors `ns` were opened, with the flag.
    `Opened.pair` adds those of a pair of files, and `Opened.get_closeAll` says
    that nothing is left when they are closed.
-/
import Mathlib.Data.List.Basic
import Mathlib.Logic.Function.Basic

namespace Descriptors

variable {φ : Type}

structure Entry (φ : Type) where
  file : φ
  cloexec : Bool
  deriving DecidableEq, Repr

/-- The slots of a process. -/
structure Table (φ : Type) where
  slots : List (Option (Entry φ))
  deriving DecidableEq, Repr

namespace Table

/-! ## Operations -/

def get (t : Table φ) (n : ℕ) : Option (Entry φ) := t.slots[n]?.join

/-- A slot of the array, which is made longer when it is too short. -/
def put (t : Table φ) (n : ℕ) (e : Option (Entry φ)) : Table φ :=
  ⟨(t.slots ++ List.replicate (n + 1 - t.slots.length) none).set n e⟩

def lowest (t : Table φ) : ℕ := t.slots.findIdx Option.isNone

/-- A new descriptor, and the table with it. -/
def alloc (t : Table φ) (e : Entry φ) : ℕ × Table φ := (t.lowest, t.put t.lowest (some e))

def close (t : Table φ) (n : ℕ) : Table φ := t.put n none

def closeAll (t : Table φ) (ns : List ℕ) : Table φ := ns.foldl close t

/-- `FD_CLOEXEC` is set. -/
def setCloexec (t : Table φ) (n : ℕ) : Table φ := t.put n ((t.get n).map ({ · with cloexec := true }))

/-- A copy of a descriptor that is open. -/
def dup (t : Table φ) (n : ℕ) : Option (ℕ × Table φ) :=
  (t.get n).map fun e => t.alloc { e with cloexec := false }

/-- The descriptor `m` becomes a copy of `n`, unless it is the same one. -/
def dup2 (t : Table φ) (n m : ℕ) : Table φ :=
  if n = m then t else t.put m ((t.get n).map ({ · with cloexec := false }))

def exec (t : Table φ) : Table φ := ⟨t.slots.map fun e => e.filter (!·.cloexec)⟩

/-! ### The descriptors after an operation -/

section
variable (t : Table φ) (n m : ℕ)

theorem get_put (e : Option (Entry φ)) : (t.put n e).get m = if m = n then e else t.get m := by
  rw [get, put, List.getElem?_set]
  by_cases h : m = n
  · subst h
    rw [if_pos rfl, if_pos rfl, if_pos (by rw [List.length_append, List.length_replicate]; omega)]
    rfl
  · rw [if_neg (Ne.symm h), if_neg h, get, List.getElem?_append]
    split
    · rfl
    · next hlen =>
      rw [List.getElem?_eq_none (Nat.le_of_not_lt hlen), List.getElem?_replicate]
      split <;> rfl

theorem get_lowest : t.get t.lowest = none := by
  rw [get, lowest]
  by_cases h : t.slots.findIdx Option.isNone < t.slots.length
  · rw [List.getElem?_eq_getElem h, Option.join_some]
    exact Option.isNone_iff_eq_none.1 List.findIdx_getElem
  · rw [List.getElem?_eq_none (Nat.le_of_not_lt h)]
    rfl

variable {t n m} in
theorem get_ne_none_of_lt_lowest (h : m < t.lowest) : t.get m ≠ none := by
  have hlen : m < t.slots.length := Nat.lt_of_lt_of_le h List.findIdx_le_length
  have hsome := List.not_of_lt_findIdx h
  rw [get, List.getElem?_eq_getElem hlen, Option.join_some]
  intro hnone
  rw [hnone] at hsome
  cases hsome

theorem get_alloc (e : Entry φ) :
    (t.alloc e).2.get m = if m = (t.alloc e).1 then some e else t.get m := get_put ..

theorem get_close : (t.close n).get m = if m = n then none else t.get m := get_put ..

theorem get_setCloexec : (t.setCloexec n).get m =
    if m = n then (t.get n).map ({ · with cloexec := true }) else t.get m := get_put ..

theorem get_dup2 : (t.dup2 n m).get m = (if n = m then id else
      Option.map ({ · with cloexec := false })) (t.get n) := by
  rw [dup2]
  split
  · next h => rw [h]; rfl
  · rw [get_put, if_pos rfl]

variable {m} in
theorem get_dup2_of_ne {k : ℕ} (h : k ≠ m) : (t.dup2 n m).get k = t.get k := by
  rw [dup2]
  split
  · rfl
  · rw [get_put, if_neg h]

theorem get_exec : t.exec.get m = (t.get m).filter (!·.cloexec) := by
  rw [get, exec, List.getElem?_map, get]
  rcases t.slots[m]? with _ | _ | e <;> rfl

theorem get_closeAll (ns : List ℕ) :
    (t.closeAll ns).get m = if m ∈ ns then none else t.get m := by
  induction ns generalizing t with
  | nil => rfl
  | cons n ns ih =>
    rw [closeAll, List.foldl_cons]
    refine (ih (t.close n)).trans ?_
    rw [get_close]
    by_cases hn : m = n
    · simp [hn]
    · simp [hn]

end

/-! ## What was opened -/

/-- Between `t` and `t'` the descriptors `ns` were opened, and got the flag. -/
structure Opened (t : Table φ) (ns : List ℕ) (t' : Table φ) : Prop where
  other : ∀ m, m ∉ ns → t'.get m = t.get m
  free : ∀ n ∈ ns, t.get n = none
  cloexec : ∀ n ∈ ns, ∃ f, t'.get n = some ⟨f, true⟩

variable {t t' t'' : Table φ} {ns : List ℕ} {n m : ℕ}

theorem Opened.refl (t : Table φ) : Opened t [] t := ⟨fun _ _ => rfl, by simp, by simp⟩

/-- A free descriptor is not one of those. -/
theorem Opened.not_mem (h : Opened t ns t') (hn : t'.get n = none) : n ∉ ns := by
  intro hmem
  obtain ⟨f, hf⟩ := h.cloexec n hmem
  rw [hn] at hf
  cases hf

/-- Another file is opened. -/
theorem Opened.cons (h : Opened t ns t') {f : φ} (hn : t'.get n = none)
    (hget : ∀ m, t''.get m = if m = n then some ⟨f, true⟩ else t'.get m) : Opened t (n :: ns) t'' := by
  have hnot := h.not_mem hn
  refine ⟨fun m hm => ?_, fun m hm => ?_, fun m hm => ?_⟩
  · rw [List.mem_cons, not_or] at hm
    rw [hget, if_neg hm.1, h.other m hm.2]
  · rcases List.mem_cons.1 hm with rfl | hm
    · rw [← h.other m hnot, hn]
    · exact h.free m hm
  · rw [hget]
    by_cases hmn : m = n
    · exact ⟨f, if_pos hmn⟩
    · rw [if_neg hmn]
      exact h.cloexec m ((List.mem_cons.1 hm).resolve_left hmn)

/-- Nothing is left when all are closed. -/
theorem Opened.get_closeAll {ps : List ℕ} (h : Opened t ns t') (hps : ∀ m, m ∈ ps ↔ m ∈ ns) (m : ℕ) :
    (t'.closeAll ps).get m = t.get m := by
  rw [Table.get_closeAll]
  by_cases hm : m ∈ ns
  · rw [if_pos ((hps m).2 hm), h.free m hm]
  · rw [if_neg (mt (hps m).1 hm), h.other m hm]

/-- A descriptor that gets the flag at once. -/
def allocCloexec (t : Table φ) (f : φ) : ℕ × Table φ :=
  let (n, t) := t.alloc ⟨f, false⟩
  (n, t.setCloexec n)

theorem get_allocCloexec (t : Table φ) (f : φ) (m : ℕ) :
    (t.allocCloexec f).2.get m = if m = t.lowest then some ⟨f, true⟩ else t.get m := by
  show ((t.alloc ⟨f, false⟩).2.setCloexec _).get m = _
  rw [get_setCloexec, get_alloc, get_alloc]
  by_cases hm : m = t.lowest
  · rw [if_pos hm, if_pos hm]
    exact congrArg (Option.map _) (if_pos rfl)
  · rw [if_neg hm, if_neg hm]
    exact if_neg hm

theorem lowest_eq (hlt : ∀ k < m, t.get k ≠ none) (hm : t.get m = none) : t.lowest = m := by
  refine Nat.le_antisymm (Nat.le_of_not_lt fun hlow => get_ne_none_of_lt_lowest hlow hm) ?_
  exact Nat.le_of_not_lt fun hlow => hlt _ hlow (get_lowest t)

/-- Two descriptors, which then get the flag. -/
def allocPair (t : Table φ) (f g : φ) : (ℕ × ℕ) × Table φ :=
  let (a, t) := t.alloc ⟨f, false⟩
  let (b, t) := t.alloc ⟨g, false⟩
  ((a, b), (t.setCloexec a).setCloexec b)

/-- What a pair of new descriptors is. -/
structure Pair (t : Table φ) (f g : φ) (p : ℕ × ℕ) (t' : Table φ) : Prop where
  fst : p.1 = t.lowest
  ne : p.2 ≠ p.1
  free : t.get p.2 = none
  get : ∀ m, t'.get m =
    if m = p.2 then some ⟨g, true⟩ else if m = p.1 then some ⟨f, true⟩ else t.get m

theorem pair_allocPair (t : Table φ) (f g : φ) :
    Pair t f g (t.allocPair f g).1 (t.allocPair f g).2 := by
  set a := t.lowest with ha
  set t₁ := (t.alloc ⟨f, false⟩).2 with ht₁
  have hget₁ : ∀ m, t₁.get m = if m = a then some ⟨f, false⟩ else t.get m := fun m => get_alloc t m _
  have hb : t₁.get t₁.lowest = none := get_lowest t₁
  have hne : t₁.lowest ≠ a := by
    intro h
    rw [h, hget₁, if_pos rfl] at hb
    cases hb
  refine ⟨rfl, hne, ?_, fun m => ?_⟩
  · rw [hget₁, if_neg hne] at hb
    exact hb
  · show (((t₁.alloc ⟨g, false⟩).2.setCloexec a).setCloexec t₁.lowest).get m =
      if m = t₁.lowest then some ⟨g, true⟩ else if m = a then some ⟨f, true⟩ else t.get m
    have hget₂ : ∀ m, (t₁.alloc ⟨g, false⟩).2.get m =
        if m = t₁.lowest then some ⟨g, false⟩ else t₁.get m := fun m => get_alloc t₁ m _
    rw [get_setCloexec, get_setCloexec, get_setCloexec, if_neg hne, hget₂, if_pos rfl, hget₂, hget₂,
      if_neg hne.symm, hget₁, hget₁, if_pos rfl]
    by_cases hm : m = t₁.lowest
    · rw [if_pos hm, if_pos hm]; rfl
    · rw [if_neg hm, if_neg hm, if_neg hm]
      by_cases hma : m = a
      · rw [if_pos hma, if_pos hma]; rfl
      · rw [if_neg hma, if_neg hma, if_neg hma]

section
variable {f g : φ} {p : ℕ × ℕ}

theorem pair_of_allocPair (h : t.allocPair f g = (p, t')) : Pair t f g p t' := by
  have hpair := pair_allocPair t f g
  rwa [h] at hpair

theorem Pair.get_fst (h : Pair t f g p t') : t'.get p.1 = some ⟨f, true⟩ := by
  rw [h.get, if_neg h.ne.symm, if_pos rfl]

theorem Pair.get_snd (h : Pair t f g p t') : t'.get p.2 = some ⟨g, true⟩ := by
  rw [h.get, if_pos rfl]

/-- What was open stays. -/
theorem Pair.keeps (h : Pair t f g p t') (hm : t.get m ≠ none) : t'.get m = t.get m := by
  have h₁ : m ≠ p.1 := by
    rintro rfl
    rw [h.fst] at hm
    exact hm (get_lowest t)
  have h₂ : m ≠ p.2 := by
    rintro rfl
    exact hm h.free
  rw [h.get, if_neg h₂, if_neg h₁]

theorem Pair.still {e : Entry φ} (h : Pair t f g p t') (hm : t.get m = some e) :
    t'.get m = some e := by
  rw [h.keeps (by rw [hm]; exact Option.some_ne_none _), hm]

theorem Pair.taken (h : Pair t f g p t') (hm : ∀ k < m, t.get k ≠ none) : ∀ k < m, t'.get k ≠ none := by
  intro k hk
  rw [h.keeps (hm k hk)]
  exact hm k hk

/-- The numbers are above those in use. -/
theorem Pair.ge (h : Pair t f g p t') (hm : ∀ k < m, t.get k ≠ none) : m ≤ p.1 ∧ m ≤ p.2 := by
  refine ⟨Nat.le_of_not_lt fun hlt => hm _ hlt ?_, Nat.le_of_not_lt fun hlt => hm _ hlt h.free⟩
  rw [h.fst]
  exact get_lowest t

end

theorem Opened.pair {f g : φ} {p : ℕ × ℕ} (h : Opened t ns t') (hp : Pair t' f g p t'') :
    Opened t (p.2 :: p.1 :: ns) t'' := by
  have hfst : t'.get p.1 = none := by rw [hp.fst]; exact get_lowest t'
  have h₁ : Opened t (p.1 :: ns) (t'.put p.1 (some ⟨f, true⟩)) :=
    h.cons hfst fun m => get_put t' p.1 m _
  refine h₁.cons (f := g) (n := p.2) ?_ fun m => ?_
  · rw [get_put, if_neg hp.ne]
    exact hp.free
  · rw [get_put, hp.get]

end Table

end Descriptors
