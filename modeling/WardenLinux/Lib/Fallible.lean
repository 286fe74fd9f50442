/-
  Fallible operations on a state, and their weakest preconditions.

  An operation that may fail is an `EStateM`: a function from a state to a
  result and a new state.  An error does not undo the writes made before it,
  as in a language where a function returns an error value and its callers
  clean up by hand.

  * `wp x Q E s`: run from `s`, `x` either returns `a` in a state with `Q a`
    or fails with `e` in a state with `E e`.  The rules are equivalences, so
    that `simp only` with them executes an operation symbolically.
  * `ensure`, `onError`, `attempt`, `getD`: the early return, the error path
    that cleans up, the error that is dropped and the one with a default.
  * `zoom`: an operation on a part of the state, as one on the whole.
  * `each`: an operation run for every element of a list, up to the first
    error (`wp_each` is its invariant rule).
-/
import Mathlib.Logic.Basic

namespace Fallible

variable {ε σ τ α β : Type}

/-- The state an operation ends in, whether it fails or not. -/
def final : EStateM.Result ε σ α → σ
  | .ok _ s => s
  | .error _ s => s

@[simp] theorem final_ok (a : α) (s : σ) : final (.ok a s : EStateM.Result ε σ α) = s := rfl

@[simp] theorem final_error (e : ε) (s : σ) : final (.error e s : EStateM.Result ε σ α) = s := rfl

/-- The weakest precondition of `x` for the postcondition `Q` of a return and
    `E` of an error. -/
def wp (x : EStateM ε σ α) (Q : α → σ → Prop) (E : ε → σ → Prop) (s : σ) : Prop :=
  match x s with
  | .ok a s' => Q a s'
  | .error e s' => E e s'

/-- An early return: fail with `e` unless `c`. -/
def ensure (c : Prop) [Decidable c] (e : ε) : EStateM ε σ Unit :=
  if c then pure () else throw e

/-- Run `x`; when it fails, clean up with `f` and return its error. -/
def onError (x : EStateM ε σ α) (f : σ → σ) : EStateM ε σ α := fun s =>
  match x s with
  | .ok a s' => .ok a s'
  | .error e s' => .error e (f s')

/-- Run `x` for its effect; an error is dropped. -/
def attempt (x : EStateM ε σ α) : EStateM ε σ Unit := fun s => .ok () (final (x s))

/-- Run `x`; when it fails, return `a` instead. -/
def getD (x : EStateM ε σ α) (a : α) : EStateM ε σ α := fun s =>
  match x s with
  | .ok a' s' => .ok a' s'
  | .error _ s' => .ok a s'

/-- A value that was computed with a possible error, without touching the
    state. -/
def checked : Except ε α → EStateM ε σ α
  | .ok a => pure a
  | .error e => throw e

/-- A part `τ` of a state `σ`. -/
structure Part (σ τ : Type) where
  get : σ → τ
  set : τ → σ → σ

/-- An operation on a part of the state. -/
def zoom (l : Part σ τ) (x : EStateM ε τ α) : EStateM ε σ α := fun s =>
  match x (l.get s) with
  | .ok a t => .ok a (l.set t s)
  | .error e t => .error e (l.set t s)

/-- Run `f` on every element, up to the first error. -/
def each (f : β → EStateM ε σ Unit) : List β → EStateM ε σ Unit
  | [] => pure ()
  | b :: bs => do
    f b
    each f bs

/-! ## Rules -/

section
variable {x : EStateM ε σ α} {f : α → EStateM ε σ β} {s : σ} {E : ε → σ → Prop}

theorem wp_ok {Q : α → σ → Prop} {a : α} {s' : σ} (h : x s = .ok a s') : wp x Q E s ↔ Q a s' := by
  simp only [wp, h]

theorem wp_error {Q : α → σ → Prop} {e : ε} {s' : σ} (h : x s = .error e s') :
    wp x Q E s ↔ E e s' := by
  simp only [wp, h]

instance {Q : α → σ → Prop} [∀ a s, Decidable (Q a s)] [∀ e s, Decidable (E e s)] :
    Decidable (wp x Q E s) :=
  match h : x s with
  | .ok a s' => decidable_of_iff (Q a s') (wp_ok h).symm
  | .error e s' => decidable_of_iff (E e s') (wp_error h).symm

@[simp] theorem wp_pure {Q : α → σ → Prop} (a : α) : wp (pure a) Q E s ↔ Q a s := Iff.rfl

@[simp] theorem wp_throw {Q : α → σ → Prop} (e : ε) : wp (throw e) Q E s ↔ E e s := Iff.rfl

@[simp] theorem wp_bind {Q : β → σ → Prop} :
    wp (x >>= f) Q E s ↔ wp x (fun a s' => wp (f a) Q E s') E s := by
  simp only [wp, bind, EStateM.bind]
  rcases x s with ⟨a, s'⟩ | ⟨e, s'⟩ <;> rfl

@[simp] theorem wp_get {Q : σ → σ → Prop} : wp get Q E s ↔ Q s s := Iff.rfl

@[simp] theorem wp_modify {Q : PUnit → σ → Prop} (g : σ → σ) :
    wp (modify g) Q E s ↔ Q ⟨⟩ (g s) := Iff.rfl

@[simp] theorem wp_ensure {Q : Unit → σ → Prop} (c : Prop) [Decidable c] (e : ε) :
    wp (ensure c e) Q E s ↔ (c → Q () s) ∧ (¬ c → E e s) := by
  unfold ensure
  by_cases h : c
  · simp [h]
  · simp [h]

@[simp] theorem wp_onError {Q : α → σ → Prop} (g : σ → σ) :
    wp (onError x g) Q E s ↔ wp x Q (fun e s' => E e (g s')) s := by
  simp only [wp, onError]
  rcases x s with ⟨a, s'⟩ | ⟨e, s'⟩ <;> rfl

@[simp] theorem wp_attempt {Q : Unit → σ → Prop} :
    wp (attempt x) Q E s ↔ wp x (fun _ s' => Q () s') (fun _ s' => Q () s') s := by
  simp only [wp, attempt]
  rcases x s with ⟨a, s'⟩ | ⟨e, s'⟩ <;> rfl

@[simp] theorem wp_getD {Q : α → σ → Prop} (a : α) :
    wp (getD x a) Q E s ↔ wp x Q (fun _ s' => Q a s') s := by
  simp only [wp, getD]
  rcases x s with ⟨a', s'⟩ | ⟨e, s'⟩ <;> rfl

@[simp] theorem wp_checked {Q : α → σ → Prop} (r : Except ε α) :
    wp (checked r) Q E s ↔ (∀ a, r = .ok a → Q a s) ∧ (∀ e, r = .error e → E e s) := by
  rcases r with e | a <;> simp [checked]

@[simp] theorem wp_zoom {Q : α → σ → Prop} (l : Part σ τ) (y : EStateM ε τ α) :
    wp (zoom l y) Q E s ↔
      wp y (fun a t => Q a (l.set t s)) (fun e t => E e (l.set t s)) (l.get s) := by
  simp only [wp, zoom]
  rcases y (l.get s) with ⟨a, t⟩ | ⟨e, t⟩ <;> rfl

@[simp] theorem wp_ite {Q : α → σ → Prop} (c : Prop) [Decidable c] (y : EStateM ε σ α) :
    wp (if c then x else y) Q E s ↔ (c → wp x Q E s) ∧ (¬ c → wp y Q E s) := by
  by_cases h : c <;> simp [h]

theorem wp_mono {Q Q' : α → σ → Prop} {E E' : ε → σ → Prop} (h : wp x Q E s)
    (hQ : ∀ a s', Q a s' → Q' a s') (hE : ∀ e s', E e s' → E' e s') : wp x Q' E' s := by
  rcases hx : x s with ⟨a, s'⟩ | ⟨e, s'⟩
  · rw [wp_ok hx] at h ⊢; exact hQ a s' h
  · rw [wp_error hx] at h ⊢; exact hE e s' h

theorem wp_any {Q : α → σ → Prop} (hQ : ∀ a s', Q a s') (hE : ∀ e s', E e s') : wp x Q E s := by
  rcases hx : x s with ⟨a, s'⟩ | ⟨e, s'⟩
  · exact (wp_ok hx).2 (hQ a s')
  · exact (wp_error hx).2 (hE e s')

/-- What holds of both outcomes holds of the final state. -/
theorem wp_final {P : σ → Prop} (h : wp x (fun _ s' => P s') (fun _ s' => P s') s) :
    P (final (x s)) := by
  rcases hx : x s with ⟨a, s'⟩ | ⟨e, s'⟩
  · exact (wp_ok hx).1 h
  · exact (wp_error hx).1 h

theorem wp_of_ok {Q : α → σ → Prop} {a : α} {s' : σ} (h : wp x Q E s) (hx : x s = .ok a s') :
    Q a s' := (wp_ok hx).1 h

theorem wp_of_error {Q : α → σ → Prop} {e : ε} {s' : σ} (h : wp x Q E s)
    (hx : x s = .error e s') : E e s' := (wp_error hx).1 h

/-- An operation that cannot fail returns. -/
theorem wp_returns {Q : α → σ → Prop} (h : wp x Q (fun _ _ => False) s) :
    ∃ a s', x s = .ok a s' ∧ Q a s' := by
  rcases hx : x s with ⟨a, s'⟩ | ⟨e, s'⟩
  · exact ⟨a, s', rfl, (wp_ok hx).1 h⟩
  · exact ((wp_error hx).1 h).elim

end

/-- The invariant rule of `each`: an invariant kept by every pass, whether it
    returns or fails, holds of the state `each` ends in. -/
theorem wp_each {f : β → EStateM ε σ Unit} {P : σ → Prop} :
    ∀ {bs : List β} {s : σ}, P s →
      (∀ b ∈ bs, ∀ s, P s → wp (f b) (fun _ s' => P s') (fun _ s' => P s') s) →
      wp (each f bs) (fun _ s' => P s') (fun _ s' => P s') s
  | [], s, hs, _ => hs
  | b :: bs, s, hs, hf => by
    rw [each, wp_bind]
    refine wp_mono (hf b (by simp) s hs) (fun _ s' hs' => ?_) (fun _ _ h => h)
    exact wp_each hs' fun b' hb' => hf b' (by simp [hb'])

end Fallible
