/-
  Runs of a labelled transition relation.

  * `Run step s₀ ls s`: the steps with the labels `ls` lead from `s₀` to `s`.
  * `Run.invariant`: what holds at the start and is kept by every step holds
    in every state that is reached.
  * `Run.frame`: what no step changes is the same in every state that is
    reached.
  * `run_of_foldlM`: the run of a step function.
  * `guarded ok step`: the steps that meet a condition on the state before
    them and on their label; a run of it is a run all of whose steps meet it.
  * `Run.guarded_iff`: a condition that is exactly what a step needs to keep a
    property is what all steps of a run need.
  * `throughout_iff`: a condition that is exactly what a deterministic step
    needs to keep a property is exactly what a run needs.
-/
import Mathlib.Data.List.Induction

namespace Transition

variable {σ ℓ : Type} {step : σ → ℓ → σ → Prop} {ok : σ → ℓ → Prop} {s₀ s s' : σ} {ls : List ℓ}

/-- The steps `ls` lead from `s₀` to a state. -/
inductive Run (step : σ → ℓ → σ → Prop) (s₀ : σ) : List ℓ → σ → Prop
  | nil : Run step s₀ [] s₀
  | snoc {ls : List ℓ} {l : ℓ} {s s' : σ} : Run step s₀ ls s → step s l s' →
      Run step s₀ (ls ++ [l]) s'

/-- The steps whose condition holds in the state before them. -/
def guarded (ok : σ → ℓ → Prop) (step : σ → ℓ → σ → Prop) (s : σ) (l : ℓ) (s' : σ) : Prop :=
  ok s l ∧ step s l s'

/-- Some steps lead from `s` to `s'`. -/
def Leads (step : σ → ℓ → σ → Prop) (s s' : σ) : Prop := ∃ ls, Run step s ls s'

/-- **Invariants.** -/
theorem Run.invariant {I : σ → Prop} (h : Run step s₀ ls s) (h₀ : I s₀)
    (hstep : ∀ s l s', I s → step s l s' → I s') : I s := by
  induction h with
  | nil => exact h₀
  | snoc _ hs ih => exact hstep _ _ _ ih hs

/-- What no step changes is the same at the end of a run. -/
theorem Run.frame {β : Type} (h : Run step s₀ ls s) (f : σ → β)
    (hstep : ∀ s l s', step s l s' → f s' = f s) : f s = f s₀ :=
  h.invariant (I := fun s => f s = f s₀) rfl fun s l s' hf hs => (hstep s l s' hs).trans hf

/-- The last step of a run. -/
theorem Run.of_concat {l : ℓ} (h : Run step s₀ (ls ++ [l]) s') :
    ∃ s, Run step s₀ ls s ∧ step s l s' := by
  generalize hls : ls ++ [l] = ls' at h
  cases h with
  | nil => simp at hls
  | snoc hr hs =>
    obtain ⟨rfl, hl⟩ := List.append_inj' hls rfl
    cases hl
    exact ⟨_, hr, hs⟩

theorem Run.of_single {l : ℓ} (h : Run step s₀ [l] s) : step s₀ l s := by
  have hl : Run step s₀ ([] ++ [l]) s := h
  obtain ⟨s₁, hnil, hs⟩ := hl.of_concat
  generalize hls : ([] : List ℓ) = ls at hnil
  cases hnil with
  | nil => exact hs
  | snoc => simp at hls

theorem Run.append {ls' : List ℓ} (h : Run step s₀ ls s) (h' : Run step s ls' s') :
    Run step s₀ (ls ++ ls') s' := by
  induction h' with
  | nil => rwa [List.append_nil]
  | snoc _ hs ih =>
    rw [← List.append_assoc]
    exact ih.snoc hs

/-- A run that is computed. -/
theorem run_of_foldlM {f : σ → ℓ → Option σ} : ∀ {ls : List ℓ} {s : σ}, ls.foldlM f s₀ = some s →
    Run (fun s l s' => f s l = some s') s₀ ls s := by
  intro ls
  induction ls using List.reverseRecOn with
  | nil => rintro s ⟨⟩; exact .nil
  | append_singleton ls l ih =>
    intro s h
    rw [List.foldlM_append] at h
    obtain ⟨s₁, h₁, h₂⟩ := Option.bind_eq_some_iff.1 h
    obtain ⟨s₂, h₂, ⟨⟩⟩ := Option.bind_eq_some_iff.1 h₂
    exact (ih h₁).snoc h₂

theorem exists_run {f : σ → ℓ → Option σ} {P : σ → Prop} [DecidablePred P]
    (h : ((ls.foldlM f s₀).any fun s => decide (P s)) = true) :
    ∃ s, Run (fun s l s' => f s l = some s') s₀ ls s ∧ P s := by
  cases hs : ls.foldlM f s₀ with
  | none => rw [hs] at h; cases h
  | some s => rw [hs] at h; exact ⟨s, run_of_foldlM hs, of_decide_eq_true h⟩

theorem Run.mono {step' : σ → ℓ → σ → Prop} (h : Run step s₀ ls s)
    (hs : ∀ s l s', step s l s' → step' s l s') : Run step' s₀ ls s := by
  induction h with
  | nil => exact .nil
  | snoc _ hl ih => exact ih.snoc (hs _ _ _ hl)

theorem exists_guarded_run {f : σ → ℓ → Option σ} {P : σ → Prop} [DecidablePred P]
    [∀ s l, Decidable (ok s l)]
    (h : ((ls.foldlM (fun s l => if ok s l then f s l else none) s₀).any fun s => decide (P s)) =
      true) : ∃ s, Run (guarded ok fun s l s' => f s l = some s') s₀ ls s ∧ P s := by
  obtain ⟨s, hr, hp⟩ := exists_run h
  refine ⟨s, hr.mono fun s l s' hs => ?_, hp⟩
  split at hs
  · exact ⟨‹_›, hs⟩
  · cases hs

/-- When a step keeps `P` iff it meets its condition, and nothing brings `P` back,
    `P` holds at the end of a run iff all its steps meet theirs. -/
theorem Run.guarded_iff {I P : σ → Prop} (h : Run step s₀ ls s) (hI₀ : I s₀) (hP₀ : P s₀)
    (hI : ∀ s l s', I s → step s l s' → I s')
    (hP : ∀ s l s', I s → step s l s' → (P s' ↔ P s ∧ ok s l)) :
    P s ↔ Run (guarded ok step) s₀ ls s := by
  constructor
  · intro hp
    induction h with
    | nil => exact .nil
    | snoc hr hs ih =>
      obtain ⟨hp, hok⟩ := (hP _ _ _ (hr.invariant hI₀ hI) hs).1 hp
      exact (ih hp).snoc ⟨hok, hs⟩
  · intro hg
    refine (hg.invariant (I := fun s => I s ∧ P s) ⟨hI₀, hP₀⟩ ?_).2
    rintro s l s' ⟨hi, hp⟩ ⟨hok, hs⟩
    exact ⟨hI s l s' hi hs, (hP s l s' hi hs).2 ⟨hp, hok⟩⟩

theorem Leads.refl (s : σ) : Leads step s s := ⟨[], .nil⟩

theorem Leads.single {l : ℓ} (h : step s l s') : Leads step s s' := ⟨[l], Run.nil.snoc h⟩

theorem Leads.trans {s'' : σ} (h : Leads step s s') (h' : Leads step s' s'') :
    Leads step s s'' := by
  obtain ⟨ls', h'⟩ := h'
  induction h' with
  | nil => exact h
  | snoc _ hs ih =>
    obtain ⟨ms, hms⟩ := ih
    exact ⟨ms ++ [_], hms.snoc hs⟩

theorem Leads.head {l : ℓ} {s'' : σ} (h : step s l s') (h' : Leads step s' s'') :
    Leads step s s'' := (Leads.single h).trans h'

/-! ## Deterministic steps -/

section
variable (f : σ → ℓ → σ)

/-- `P` holds in every state the steps lead through, the first and the last
    included. -/
def throughout (P : σ → Prop) : σ → List ℓ → Prop
  | s, [] => P s
  | s, l :: ls => P s ∧ throughout P (f s l) ls

/-- Every step meets its condition in the state before it. -/
def eachStep (ok : σ → ℓ → Prop) : σ → List ℓ → Prop
  | _, [] => True
  | s, l :: ls => ok s l ∧ eachStep ok (f s l) ls

end

/-- When the condition is what a step needs to keep `P`, it is what a run needs
    to keep `P` throughout. -/
theorem throughout_iff {f : σ → ℓ → σ} {I P : σ → Prop} (hI : ∀ s l, I s → I (f s l))
    (hP : ∀ s l, I s → P s → (P (f s l) ↔ ok s l)) :
    ∀ {ls : List ℓ} {s : σ}, I s → P s → (throughout f P s ls ↔ eachStep f ok s ls)
  | [], _, _, h => iff_of_true h trivial
  | l :: ls, s, hi, h => by
    rw [throughout, eachStep, ← hP s l hi h]
    constructor
    · rintro ⟨-, hall⟩
      have hl : P (f s l) := by
        cases ls with
        | nil => exact hall
        | cons => exact hall.1
      exact ⟨hl, (throughout_iff hI hP (hI s l hi) hl).1 hall⟩
    · rintro ⟨hl, hall⟩
      exact ⟨h, (throughout_iff hI hP (hI s l hi) hl).2 hall⟩

end Transition
