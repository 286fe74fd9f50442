/-
  Patterns: regular expressions that need no backtracking.

  A pattern is a row of items: a literal text, a run of at least one element of a
  class, an optional element of a class.  `Matches` says which texts it matches and
  what its groups capture; `matchAt` takes as much as it can at every item.

  * `matchAt_iff`: where no item can take what the rest starts with, `matchAt` finds
    the match at the front of a text, if there is one.
  * `find_iff`: `find` finds the leftmost match.
-/
import WardenLinux.Lib.Words

namespace Pattern

variable {α : Type}

inductive Item (α : Type) where
  | lit (text : List α)
  /-- `[..]+`, in a group or not -/
  | run (cls : α → Bool) (captured : Bool)
  /-- `([..]?)` -/
  | opt (cls : α → Bool)

/-- What the groups captured, with that of a group in front. -/
def keep (captured : Bool) (r : List α) (groups : List (List α)) : List (List α) :=
  if captured then r :: groups else groups

/-- The texts that a pattern matches, with what the groups capture. -/
inductive Matches : List (Item α) → List (List α) → List α → Prop
  | nil : Matches [] [] []
  | lit {t p gs w} : Matches p gs w → Matches (.lit t :: p) gs (t ++ w)
  | run {cls captured r p gs w} : r ≠ [] → (∀ c ∈ r, cls c = true) → Matches p gs w →
      Matches (.run cls captured :: p) (keep captured r gs) (r ++ w)
  | some {cls c p gs w} : cls c = true → Matches p gs w →
      Matches (.opt cls :: p) ([c] :: gs) (c :: w)
  | none {cls p gs w} : Matches p gs w → Matches (.opt cls :: p) ([] :: gs) w

section
variable [DecidableEq α]

/-- The match at the front of a text: what the groups capture. -/
def matchAt : List (Item α) → List α → Option (List (List α))
  | [], _ => some []
  | .lit t :: p, s => if t <+: s then matchAt p (s.drop t.length) else none
  | .run cls captured :: p, s =>
    if s.takeWhile cls = [] then none
    else (matchAt p (s.dropWhile cls)).map (keep captured (s.takeWhile cls))
  | .opt cls :: p, c :: s =>
    if cls c then (matchAt p s).map ([c] :: ·) else (matchAt p (c :: s)).map ([] :: ·)
  | .opt _ :: p, [] => (matchAt p []).map ([] :: ·)

/-- The leftmost match. -/
def find (p : List (Item α)) : List α → Option (List (List α))
  | [] => matchAt p []
  | c :: s => (matchAt p (c :: s)).or (find p s)

/-- The elements that a text can start with whose front is matched. -/
def starts : List (Item α) → α → Bool
  | [], _ => true
  | .lit [] :: p, c => starts p c
  | .lit (d :: _) :: _, c => c == d
  | .run cls _ :: _, c => cls c
  | .opt cls :: p, c => cls c || starts p c

/-- No item can take what the rest starts with. -/
def Determinate : List (Item α) → Prop
  | [] => True
  | .lit _ :: p => Determinate p
  | .run cls _ :: p => (∀ c, cls c = true → starts p c = false) ∧ Determinate p
  | .opt cls :: p => (∀ c, cls c = true → starts p c = false) ∧ Determinate p

/-- An item in front of a literal. -/
theorem not_starts_lit {cls : α → Bool} {d : α} (hd : cls d = false) {t : List α}
    {p : List (Item α)} {c : α} (hc : cls c = true) : starts (.lit (d :: t) :: p) c = false := by
  rw [starts, beq_eq_false_iff_ne]
  rintro rfl
  rw [hd] at hc
  nomatch hc

/-! ## Matching at the front -/

theorem Matches.starts {p : List (Item α)} {gs : List (List α)} {w : List α} (h : Matches p gs w)
    (after : List α) : ∀ c ∈ (w ++ after).head?, starts p c = true := by
  induction h with
  | nil => intro c _; rfl
  | @lit t p gs w _ ih =>
    intro c hc
    cases t with
    | nil => exact ih c hc
    | cons d ds =>
      rw [List.cons_append, List.cons_append, List.head?_cons, Option.mem_some_iff] at hc
      simp [Pattern.starts, hc]
  | @run cls captured r p gs w hr hcls _ _ =>
    intro c hc
    obtain ⟨d, ds, rfl⟩ := List.exists_cons_of_ne_nil hr
    rw [List.cons_append, List.cons_append, List.head?_cons, Option.mem_some_iff] at hc
    exact hc ▸ hcls d List.mem_cons_self
  | @some cls c p gs w hc _ _ =>
    intro d hd
    rw [List.cons_append, List.head?_cons, Option.mem_some_iff] at hd
    simp [Pattern.starts, ← hd, hc]
  | none _ ih =>
    intro c hc
    simp [Pattern.starts, ih c hc]

/-- A class that what follows cannot start with. -/
theorem Matches.head_of_disjoint {cls : α → Bool} {p : List (Item α)} {gs : List (List α)}
    {w : List α} (h : Matches p gs w) (hp : ∀ c, cls c = true → Pattern.starts p c = false)
    (after : List α) : ∀ c ∈ (w ++ after).head?, cls c = false := by
  intro c hc
  by_contra hcls
  have := hp c (by simpa using hcls)
  simp [h.starts after c hc] at this

theorem matchAt_of_matches {p : List (Item α)} {gs : List (List α)} {w : List α}
    (h : Matches p gs w) (hp : Determinate p) (after : List α) :
    matchAt p (w ++ after) = some gs := by
  induction h with
  | nil => rfl
  | lit _ ih =>
    rw [List.append_assoc, matchAt, if_pos (List.prefix_append _ _), List.drop_left]
    exact ih hp
  | run hr hcls h ih =>
    have hhead := h.head_of_disjoint hp.1 after
    rw [List.append_assoc, matchAt, Words.takeWhile_run hcls hhead, Words.dropWhile_run hcls hhead,
      if_neg hr, ih hp.2]
    rfl
  | some hc _ ih =>
    rw [List.cons_append, matchAt, if_pos hc, ih hp.2]
    rfl
  | @none cls p gs w h ih =>
    have hhead := h.head_of_disjoint hp.1 after
    have ih := ih hp.2
    cases hs : w ++ after with
    | nil =>
      rw [hs] at ih
      rw [matchAt, ih]
      rfl
    | cons c s =>
      rw [hs] at ih hhead
      rw [matchAt, hhead c rfl, if_neg Bool.false_ne_true, ih]
      rfl

theorem matches_of_matchAt {p : List (Item α)} {gs : List (List α)} {s : List α}
    (h : matchAt p s = some gs) : ∃ w after, s = w ++ after ∧ Matches p gs w := by
  induction p generalizing s gs with
  | nil =>
    rw [matchAt, Option.some.injEq] at h
    exact ⟨[], s, rfl, h ▸ .nil⟩
  | cons i p ih =>
    cases i with
    | lit t =>
      rw [matchAt] at h
      split at h
      · next hpre =>
        obtain ⟨u, rfl⟩ := hpre
        rw [List.drop_left] at h
        obtain ⟨w, after, rfl, hw⟩ := ih h
        exact ⟨t ++ w, after, (List.append_assoc _ _ _).symm, .lit hw⟩
      · nomatch h
    | run cls captured =>
      rw [matchAt] at h
      split at h
      · nomatch h
      · next hne =>
        obtain ⟨gs, hgs, rfl⟩ := Option.map_eq_some_iff.1 h
        obtain ⟨w, after, hdrop, hw⟩ := ih hgs
        refine ⟨s.takeWhile cls ++ w, after, ?_, .run hne (fun c => List.mem_takeWhile_imp) hw⟩
        rw [List.append_assoc, ← hdrop, List.takeWhile_append_dropWhile]
    | opt cls =>
      have hnone : ∀ {s : List α}, (matchAt p s).map ([] :: ·) = some gs →
          ∃ w after, s = w ++ after ∧ Matches (.opt cls :: p) gs w := by
        intro s h
        obtain ⟨gs, hgs, rfl⟩ := Option.map_eq_some_iff.1 h
        obtain ⟨w, after, hs, hw⟩ := ih hgs
        exact ⟨w, after, hs, .none hw⟩
      cases s with
      | nil => exact hnone h
      | cons c s =>
        rw [matchAt] at h
        split at h
        · next hc =>
          obtain ⟨gs, hgs, rfl⟩ := Option.map_eq_some_iff.1 h
          obtain ⟨w, after, rfl, hw⟩ := ih hgs
          exact ⟨c :: w, after, rfl, .some hc hw⟩
        · exact hnone h

/-- **The match at the front of a text**, if there is one, is the one that is found. -/
theorem matchAt_iff {p : List (Item α)} (hp : Determinate p) {gs : List (List α)} {s : List α} :
    matchAt p s = some gs ↔ ∃ w after, s = w ++ after ∧ Matches p gs w := by
  refine ⟨matches_of_matchAt, ?_⟩
  rintro ⟨w, after, rfl, h⟩
  exact matchAt_of_matches h hp after

end

/-! ## The leftmost match -/

/-- No text that is matched stands at the front. -/
def NoneAt (p : List (Item α)) (s : List α) : Prop :=
  ∀ gs w after, s = w ++ after → ¬ Matches p gs w

/-- The leftmost text that is matched stands behind `before`. -/
structure First (p : List (Item α)) (gs : List (List α)) (before w after : List α) : Prop where
  matched : Matches p gs w
  none : ∀ b c, before = b ++ c → c ≠ [] → NoneAt p (c ++ (w ++ after))

variable [DecidableEq α]

theorem matchAt_eq_none_iff {p : List (Item α)} (hp : Determinate p) {s : List α} :
    matchAt p s = none ↔ NoneAt p s := by
  rw [Option.eq_none_iff_forall_ne_some]
  refine ⟨fun h gs w after hs hw => h gs ((matchAt_iff hp).2 ⟨w, after, hs, hw⟩), ?_⟩
  intro h gs hgs
  obtain ⟨w, after, hs, hw⟩ := (matchAt_iff hp).1 hgs
  exact h gs w after hs hw

theorem find_of_first {p : List (Item α)} (hp : Determinate p) {gs : List (List α)}
    {before w after : List α} (h : First p gs before w after) :
    find p (before ++ (w ++ after)) = some gs := by
  induction before with
  | nil =>
    have hw := (matchAt_iff hp).2 ⟨w, after, rfl, h.matched⟩
    rw [List.nil_append]
    cases hs : w ++ after with
    | nil => rw [find, ← hs, hw]
    | cons c s => rw [find, ← hs, hw, Option.some_or]
  | cons c before ih =>
    have hnone : matchAt p (c :: before ++ (w ++ after)) = none :=
      (matchAt_eq_none_iff hp).2 (h.none [] (c :: before) rfl (List.cons_ne_nil _ _))
    rw [List.cons_append] at hnone ⊢
    rw [find, hnone, Option.none_or]
    exact ih ⟨h.matched, fun b d hd hne => h.none (c :: b) d (by rw [hd, List.cons_append]) hne⟩

/-- A text that is matched at the front. -/
theorem first_of_matchAt {p : List (Item α)} {gs : List (List α)} {s : List α}
    (h : matchAt p s = some gs) : ∃ w after, s = w ++ after ∧ First p gs [] w after := by
  obtain ⟨w, after, hs, hw⟩ := matches_of_matchAt h
  refine ⟨w, after, hs, hw, fun b c hbc hne => ?_⟩
  exact absurd (List.append_eq_nil_iff.1 hbc.symm).2 hne

theorem first_of_find {p : List (Item α)} (hp : Determinate p) {gs : List (List α)} {s : List α}
    (h : find p s = some gs) :
    ∃ before w after, s = before ++ (w ++ after) ∧ First p gs before w after := by
  induction s with
  | nil => exact ⟨[], first_of_matchAt h⟩
  | cons c s ih =>
    rw [find] at h
    cases hc : matchAt p (c :: s) with
    | some gs' =>
      rw [hc, Option.some_or] at h
      exact ⟨[], first_of_matchAt (hc.trans h)⟩
    | none =>
      rw [hc, Option.none_or] at h
      obtain ⟨before, w, after, rfl, hfirst⟩ := ih h
      refine ⟨c :: before, w, after, rfl, hfirst.matched, fun b d hbd hne => ?_⟩
      cases b with
      | nil =>
        rw [List.nil_append] at hbd
        exact hbd ▸ (matchAt_eq_none_iff hp).1 hc
      | cons _ b =>
        rw [List.cons_append, List.cons.injEq] at hbd
        exact hfirst.none b d hbd.2 hne

/-- **The leftmost match is found.** -/
theorem find_iff {p : List (Item α)} (hp : Determinate p) {gs : List (List α)} {s : List α} :
    find p s = some gs ↔
      ∃ before w after, s = before ++ (w ++ after) ∧ First p gs before w after := by
  refine ⟨first_of_find hp, ?_⟩
  rintro ⟨before, w, after, rfl, h⟩
  exact find_of_first hp h

end Pattern
