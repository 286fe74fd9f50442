/-
  The writer of a process's input (fanin_writer.go, process.go), with its sink
  attached: the sources that `Attach` adds write to it and close it, and so does
  `runLinker` when the process has exited.

  A call that finds the writer closed returns without giving the lock back.
  `Shift` says what a step does to the lock and to the calls between `Lock` and
  `Unlock`; `kept_step` that the lock is lost in just those calls.

  `lock_freed_iff`: the lock is free after every call iff no call takes it once
  the writer is closed; while it is, no call blocks for ever.
-/
import Mathlib.Data.List.Count
import WardenLinux.Lib.Threads
import WardenLinux.Lib.Transition

namespace WardenLinux

open Transition

/-- `faninWriter`: whether it is closed, who holds the lock, and what the sink
    was given. -/
structure FaninWriter where
  closed : Bool
  writeL : Option ℕ
  sunk : List (List UInt8)
  deriving DecidableEq

namespace FaninWriter

/-! ## Steps -/

inductive Call where
  | write (data : List UInt8)
  | close
  deriving DecidableEq, Repr

/-- The error of a call that finds the writer closed. -/
def Call.closedErr : Call → String
  | .write _ => "write after close"
  | .close => "closed twice"

/-- Where a goroutine is. -/
inductive Pc where
  /-- in `Read` of a source, or waiting for the link to exit -/
  | outside
  /-- at `writeL.Lock` -/
  | lock (c : Call)
  /-- at the test of `closed` -/
  | test (c : Call)
  /-- in the sink, `Unlock` being deferred -/
  | sink (c : Call)
  /-- at the end of a source, or past `completed` -/
  | ended
  deriving DecidableEq

/-- A goroutine goes on after a call: `io.Copy` with the next data, unless it has
    got an error. -/
def Call.returned : Call → Option String → Pc
  | .write _, none => .outside
  | .write _, some _ => .lock .close
  | .close, _ => .ended

/-- What a call does before it calls the sink. -/
def Call.enter (w : FaninWriter) : Call → FaninWriter
  | .write _ => w
  | .close => { w with closed := true }

/-- What the sink is given. -/
def Call.give (w : FaninWriter) : Call → FaninWriter
  | .write data => { w with sunk := w.sunk ++ [data] }
  | .close => w

/-- The next step of the goroutine `t`, the sink returning `err`. -/
def Pc.next (t : ℕ) (err : Option String) (w : FaninWriter) : Pc → Option (Pc × FaninWriter)
  | .lock c => if w.writeL = none then some (.test c, { w with writeL := some t }) else none
  | .test c =>
    if w.closed then some (c.returned (some c.closedErr), w) else some (.sink c, c.enter w)
  | .sink c => some (c.returned err, { c.give w with writeL := none })
  | .outside | .ended => none

inductive Role where
  | source
  | linker
  deriving DecidableEq

structure Goroutine where
  role : Role
  pc : Pc
  deriving DecidableEq

structure State where
  writer : FaninWriter
  goroutines : ℕ → Option Goroutine

inductive Label where
  /-- `AddSource` -/
  | attach (t : ℕ)
  /-- a source is read, with data or to its end -/
  | read (t : ℕ) (data : Option (List UInt8))
  /-- the link has exited -/
  | exit (t : ℕ)
  /-- a goroutine takes a step in a call -/
  | go (t : ℕ) (err : Option String)
  deriving DecidableEq

def State.put (s : State) (w : FaninWriter) (t : ℕ) (g : Goroutine) : State :=
  ⟨w, Threads.set s.goroutines t g⟩

def State.step (s : State) : Label → Option State
  | .attach t =>
    match s.goroutines t with
    | none => some (s.put s.writer t ⟨.source, .outside⟩)
    | some _ => none
  | .read t data =>
    match s.goroutines t with
    | some ⟨.source, .outside⟩ =>
      some (s.put s.writer t ⟨.source, .lock (data.elim .close .write)⟩)
    | _ => none
  | .exit t =>
    match s.goroutines t with
    | some ⟨.linker, .outside⟩ => some (s.put s.writer t ⟨.linker, .lock .close⟩)
    | _ => none
  | .go t err =>
    match s.goroutines t with
    | some g => (g.pc.next t err s.writer).map fun (pc, w) => s.put w t ⟨g.role, pc⟩
    | none => none

def Step (s : State) (l : Label) (s' : State) : Prop := s.step l = some s'

/-- What a step can do. -/
inductive Moves (s : State) : Label → State → Prop
  | attach {t : ℕ} : s.goroutines t = none →
      Moves s (.attach t) (s.put s.writer t ⟨.source, .outside⟩)
  | read {t : ℕ} {data : Option (List UInt8)} : s.goroutines t = some ⟨.source, .outside⟩ →
      Moves s (.read t data) (s.put s.writer t ⟨.source, .lock (data.elim .close .write)⟩)
  | exit {t : ℕ} : s.goroutines t = some ⟨.linker, .outside⟩ →
      Moves s (.exit t) (s.put s.writer t ⟨.linker, .lock .close⟩)
  | go {t : ℕ} {err : Option String} {g : Goroutine} {pc : Pc} {w : FaninWriter} :
      s.goroutines t = some g → g.pc.next t err s.writer = some (pc, w) →
      Moves s (.go t err) (s.put w t ⟨g.role, pc⟩)

theorem moves_of_step {s s' : State} {l : Label} (h : Step s l s') : Moves s l s' := by
  cases l with
  | attach t =>
    simp only [Step, State.step] at h
    split at h
    · cases h; exact .attach ‹_›
    · cases h
  | read t data =>
    simp only [Step, State.step] at h
    split at h
    · cases h; exact .read ‹_›
    · cases h
  | exit t =>
    simp only [Step, State.step] at h
    split at h
    · cases h; exact .exit ‹_›
    · cases h
  | go t err =>
    simp only [Step, State.step] at h
    split at h
    · obtain ⟨⟨pc, w⟩, hnext, rfl⟩ := Option.map_eq_some_iff.mp h
      exact .go ‹_› hnext
    · cases h

theorem put_self (s : State) (w : FaninWriter) (t : ℕ) (g : Goroutine) :
    (s.put w t g).goroutines t = some g := Threads.set_self

theorem put_of_ne (s : State) (w : FaninWriter) {t j : ℕ} (g : Goroutine) (h : j ≠ t) :
    (s.put w t g).goroutines j = s.goroutines j := Threads.set_of_ne h

/-- The sink is attached, and `runLinker` waits for its link. -/
def linking : State where
  writer := ⟨false, none, []⟩
  goroutines := Threads.set (fun _ => none) 0 ⟨.linker, .outside⟩

/-! ## The lock -/

/-- Between `Lock` and the return of the call. -/
def Pc.inside : Pc → Bool
  | .test _ | .sink _ => true
  | .outside | .lock _ | .ended => false

def State.inside (s : State) (t : ℕ) : Bool := (s.goroutines t).any fun g => g.pc.inside

/-- The lock is held, and not by a call. -/
def Kept (s : State) : Prop := ∃ t, s.writer.writeL = some t ∧ s.inside t = false

def Pc.tests : Pc → Bool
  | .test _ => true
  | .outside | .lock _ | .sink _ | .ended => false

/-- A call has the lock before the writer is closed. -/
def InTime (s : State) : Label → Prop
  | .go t _ => ∀ g ∈ s.goroutines t, g.pc.tests = true → s.writer.closed = false
  | .attach _ | .read _ _ | .exit _ => True

instance (s : State) : DecidablePred (InTime s)
  | .go t _ =>
    inferInstanceAs (Decidable (∀ g ∈ s.goroutines t, g.pc.tests = true → s.writer.closed = false))
  | .attach _ | .read _ _ | .exit _ => isTrue trivial

/-- What a step does to the lock and to the calls that are inside. -/
inductive Shift (s : State) (l : Label) (s' : State) : Prop
  | same : s'.writer.writeL = s.writer.writeL → s'.inside = s.inside → InTime s l → Shift s l s'
  | locks (t : ℕ) : s.writer.writeL = none → s'.writer.writeL = some t →
      s'.inside = Function.update s.inside t true → InTime s l → Shift s l s'
  | keeps (t : ℕ) : s.inside t = true → s'.writer.writeL = s.writer.writeL →
      s'.inside = Function.update s.inside t false → ¬ InTime s l → Shift s l s'
  | frees (t : ℕ) : s.inside t = true → s'.writer.writeL = none →
      s'.inside = Function.update s.inside t false → InTime s l → Shift s l s'

theorem inside_put (s : State) (w : FaninWriter) (t : ℕ) (g : Goroutine) :
    (s.put w t g).inside = Function.update s.inside t g.pc.inside := by
  funext j
  rcases eq_or_ne j t with rfl | hj
  · rw [Function.update_self, State.inside, put_self, Option.any_some]
  · rw [Function.update_of_ne hj, State.inside, put_of_ne _ _ _ hj, State.inside]

theorem returned_inside (c : Call) (err : Option String) : (c.returned err).inside = false := by
  cases c <;> cases err <;> rfl

theorem enter_writeL (c : Call) (w : FaninWriter) : (c.enter w).writeL = w.writeL := by
  cases c <;> rfl

theorem inside_eq {s : State} {t : ℕ} {g : Goroutine} (hg : s.goroutines t = some g) :
    s.inside t = g.pc.inside := by
  simp [State.inside, hg]

/-- A goroutine that stays outside, or stays inside. -/
theorem inside_put_same {s : State} {t : ℕ} {g : Goroutine} (w : FaninWriter)
    (h : s.inside t = g.pc.inside) : (s.put w t g).inside = s.inside := by
  rw [inside_put, ← h, Function.update_eq_self]

theorem shift_go {s : State} {t : ℕ} {err : Option String} {g : Goroutine} {pc : Pc}
    {w : FaninWriter} (hg : s.goroutines t = some g)
    (h : g.pc.next t err s.writer = some (pc, w)) :
    Shift s (.go t err) (s.put w t ⟨g.role, pc⟩) := by
  obtain ⟨r, pc₀⟩ := g
  have hin := inside_eq hg
  have hnot : pc₀.tests = false → InTime s (.go t err) := by
    rintro hpc g hg' ht
    rw [hg] at hg'
    cases hg'
    rw [hpc] at ht
    cases ht
  cases pc₀ with
  | outside => cases h
  | ended => cases h
  | lock c =>
    simp only [Pc.next, Option.ite_none_right_eq_some, Option.some.injEq, Prod.mk.injEq] at h
    obtain ⟨hL, rfl, rfl⟩ := h
    exact .locks t hL rfl (inside_put ..) (hnot rfl)
  | test c =>
    simp only [Pc.next] at h
    split at h
    case isTrue hclosed =>
      cases h
      refine .keeps t hin rfl ?_ fun hopen => ?_
      · rw [inside_put, returned_inside]
      · rw [hopen _ hg rfl] at hclosed
        cases hclosed
    case isFalse hclosed =>
      cases h
      refine .same (enter_writeL ..) (inside_put_same _ hin) fun g _ _ => ?_
      exact Bool.eq_false_iff.mpr hclosed
  | sink c =>
    cases h
    refine .frees t hin rfl ?_ (hnot rfl)
    rw [inside_put, returned_inside]

theorem shift_of_step {s s' : State} {l : Label} (h : Step s l s') : Shift s l s' := by
  cases moves_of_step h with
  | attach hg => exact .same rfl (inside_put_same _ (by rw [State.inside, hg]; rfl)) trivial
  | read hg => exact .same rfl (inside_put_same _ ((inside_eq hg).trans rfl)) trivial
  | exit hg => exact .same rfl (inside_put_same _ ((inside_eq hg).trans rfl)) trivial
  | go hg hnext => exact shift_go hg hnext

/-- A call that is inside has the lock. -/
def Exclusive (s : State) : Prop := ∀ t, s.inside t = true → s.writer.writeL = some t

theorem exclusive_step {s s' : State} {l : Label} (hinv : Exclusive s) (h : Step s l s') :
    Exclusive s' := by
  intro j hj
  cases shift_of_step h with
  | same hL hin _ => exact hL.trans (hinv j (hin ▸ hj))
  | locks t hnone hL hin _ =>
    rcases eq_or_ne j t with rfl | hjt
    · exact hL
    · rw [hin, Function.update_of_ne hjt] at hj
      rw [hinv j hj] at hnone
      cases hnone
  | keeps t ht hL hin _ =>
    rcases eq_or_ne j t with rfl | hjt
    · rw [hin, Function.update_self] at hj
      cases hj
    · rw [hin, Function.update_of_ne hjt] at hj
      exact hL.trans (hinv j hj)
  | frees t ht hL hin _ =>
    rcases eq_or_ne j t with rfl | hjt
    · rw [hin, Function.update_self] at hj
      cases hj
    · rw [hin, Function.update_of_ne hjt] at hj
      exact absurd (Option.some.inj ((hinv j hj).symm.trans (hinv t ht))) hjt

/-- **The lock is kept** once it was, and by a call that is late. -/
theorem kept_step {s s' : State} {l : Label} (hinv : Exclusive s) (h : Step s l s') :
    Kept s' ↔ Kept s ∨ ¬ InTime s l := by
  cases shift_of_step h with
  | same hL hin hopen => simp [Kept, hL, hin, hopen]
  | locks t hnone hL hin hopen => simp [Kept, hnone, hL, hin, hopen]
  | keeps t ht hL hin hopen => simp [Kept, hL, hin, hopen, hinv t ht]
  | frees t ht hL hin hopen => simp [Kept, hL, hopen, hinv t ht, ht]

theorem linking_inside (t : ℕ) : linking.inside t = false := by
  rcases eq_or_ne t 0 with rfl | ht
  · rfl
  · simp [linking, State.inside, Threads.set_of_ne ht]

theorem exclusive_linking : Exclusive linking := by
  intro t ht
  rw [linking_inside] at ht
  cases ht

theorem not_kept_linking : ¬ Kept linking := by
  rintro ⟨t, ⟨⟩, -⟩

theorem exclusive_run {s : State} {ls : List Label} (h : Run Step linking ls s) : Exclusive s :=
  h.invariant exclusive_linking fun _ _ _ => exclusive_step

theorem not_kept_iff {s : State} {ls : List Label} (h : Run Step linking ls s) :
    ¬ Kept s ↔ Run (guarded InTime Step) linking ls s := by
  refine h.guarded_iff (P := fun s => ¬ Kept s) exclusive_linking not_kept_linking
    (fun _ _ _ => exclusive_step) ?_
  intro s l s' hinv hs
  rw [kept_step hinv hs, not_or, not_not]

/-! ## Calls return -/

/-- No call can take a step. -/
def Quiet (s : State) : Prop := ∀ t err, s.step (.go t err) = none

theorem quiet_next {s : State} (h : Quiet s) {t : ℕ} {g : Goroutine}
    (hg : s.goroutines t = some g) : g.pc.next t none s.writer = none := by
  simpa [State.step, hg] using h t none

/-- A call that has the lock goes on. -/
theorem quiet_inside {s : State} (h : Quiet s) (t : ℕ) : s.inside t = false := by
  cases hg : s.goroutines t with
  | none => simp [State.inside, hg]
  | some g =>
    have hnext := quiet_next h hg
    rw [inside_eq hg]
    obtain ⟨r, pc⟩ := g
    cases pc with
    | test c =>
      simp only [Pc.next] at hnext
      split at hnext <;> cases hnext
    | sink c => cases hnext
    | outside => rfl
    | lock c => rfl
    | ended => rfl

/-- **No call blocks** for ever while the lock is not lost. -/
theorem quiet_returned {s : State} (hfree : ¬ Kept s) (h : Quiet s) {t : ℕ} {g : Goroutine}
    (hg : s.goroutines t = some g) : g.pc = .outside ∨ g.pc = .ended := by
  have hnext := quiet_next h hg
  have hin := quiet_inside h t
  rw [inside_eq hg] at hin
  obtain ⟨r, pc⟩ := g
  cases pc with
  | outside => exact .inl rfl
  | ended => exact .inr rfl
  | test c => cases hin
  | sink c => cases hin
  | lock c =>
    -- whoever has the lock would be inside
    cases hL : s.writer.writeL with
    | none => simp [Pc.next, hL] at hnext
    | some j => exact absurd ⟨j, hL, quiet_inside h j⟩ hfree

/-- The steps to the end of a call, with the `Close` that follows a failed
    write. -/
def Pc.work : Pc → ℕ
  | .lock (.write _) => 6
  | .test (.write _) => 5
  | .sink (.write _) => 4
  | .lock .close => 3
  | .test .close => 2
  | .sink .close => 1
  | .outside | .ended => 0

def State.work (s : State) (t : ℕ) : ℕ := (s.goroutines t).elim 0 fun g => g.pc.work

/-- The goroutine begins a call on its own. -/
def Label.begins (t : ℕ) : Label → Bool
  | .read j _ | .exit j => j = t
  | .attach _ | .go _ _ => false

/-- The goroutine takes a step in a call. -/
def Label.goes (t : ℕ) : Label → Bool
  | .go j _ => j = t
  | .attach _ | .read _ _ | .exit _ => false

theorem returned_work (c : Call) (err : Option String) :
    (c.returned err).work < (Pc.sink c).work := by
  cases c with
  | close => exact Nat.zero_lt_one
  | write data => cases err <;> simp [Call.returned, Pc.work]

theorem work_next {t : ℕ} {err : Option String} {w w' : FaninWriter} {pc pc' : Pc}
    (h : pc.next t err w = some (pc', w')) : pc'.work < pc.work := by
  have hsink : ∀ c : Call, (Pc.sink c).work < (Pc.test c).work := by
    intro c
    cases c <;> exact Nat.lt_succ_self _
  cases pc with
  | outside => cases h
  | ended => cases h
  | lock c =>
    simp only [Pc.next, Option.ite_none_right_eq_some, Option.some.injEq, Prod.mk.injEq] at h
    obtain ⟨-, rfl, -⟩ := h
    cases c <;> exact Nat.lt_succ_self _
  | test c =>
    simp only [Pc.next] at h
    split at h
    · cases h
      exact Nat.lt_trans (returned_work c _) (hsink c)
    · cases h
      exact hsink c
  | sink c =>
    cases h
    exact returned_work c err

theorem work_eq {s : State} {t : ℕ} {g : Goroutine} (hg : s.goroutines t = some g) :
    s.work t = g.pc.work := by
  simp [State.work, hg]

theorem work_put (s : State) (w : FaninWriter) (t : ℕ) (g : Goroutine) (j : ℕ) :
    (s.put w t g).work j = if t = j then g.pc.work else s.work j := by
  rcases eq_or_ne j t with rfl | hj
  · rw [if_pos rfl, State.work, put_self, Option.elim_some]
  · rw [if_neg hj.symm, State.work, put_of_ne _ _ _ hj, State.work]

theorem lock_work (c : Call) : (Pc.lock c).work ≤ 6 := by
  cases c <;> simp [Pc.work]

theorem work_step {s s' : State} {l : Label} (h : Step s l s') (j : ℕ) :
    s'.work j + (if l.goes j then 1 else 0) ≤ s.work j + (if l.begins j then 6 else 0) := by
  cases moves_of_step h with
  | attach hg =>
    rw [work_put]
    split <;> simp [Pc.work, Label.goes, Label.begins]
  | @read t data hg =>
    have hlock := lock_work (data.elim .close .write)
    rw [work_put]
    split <;> simp [Label.goes, Label.begins, *]
    omega
  | exit hg =>
    rw [work_put]
    split <;> simp [Pc.work, Label.goes, Label.begins, *]
  | @go t err g pc w hg hnext =>
    have hwork := work_next hnext
    rw [← work_eq hg] at hwork
    rw [work_put]
    split
    · subst t
      simpa [Label.goes, Label.begins, Nat.succ_le_iff] using hwork
    · simp [Label.goes, Label.begins, *]

/-- **A goroutine takes six steps** at most for each call that it begins. -/
theorem work_run {s : State} {ls : List Label} (h : Run Step linking ls s) (t : ℕ) :
    s.work t + ls.countP (Label.goes t) ≤ 6 * ls.countP (Label.begins t) := by
  induction h with
  | nil =>
    rcases eq_or_ne t 0 with rfl | ht
    · exact Nat.le_refl _
    · simp [linking, State.work, Threads.set_of_ne ht]
  | snoc hr hs ih =>
    have hstep := work_step hs t
    rw [List.countP_append, List.countP_append, List.countP_singleton, List.countP_singleton]
    split at hstep <;> split at hstep <;> simp_all <;> omega

/-- **The lock is free after every call** iff no call takes it once the writer is
    closed.  While it is not lost, every call returns: a goroutine takes a bounded
    number of steps for each, and nobody is left in one when no step can be
    taken; `runLinker` is then past `completed`, if its link has exited. -/
theorem lock_freed_iff {s : State} {ls : List Label} (h : Run Step linking ls s) :
    (¬ Kept s ↔ Run (guarded InTime Step) linking ls s) ∧
      (¬ Kept s → Quiet s →
        ∀ t g, s.goroutines t = some g → g.pc = .outside ∨ g.pc = .ended) ∧
      ∀ t, ls.countP (Label.goes t) ≤ 6 * ls.countP (Label.begins t) := by
  refine ⟨not_kept_iff h, fun hfree hquiet t g => quiet_returned hfree hquiet, ?_⟩
  intro t
  exact Nat.le_trans (Nat.le_add_left _ _) (work_run h t)

/-- A source writes, and `runLinker` closes. -/
theorem lock_freed_write : ∃ s, Run Step linking [.attach 1, .read 1 (some [104]), .go 1 none,
      .go 1 none, .go 1 none, .exit 0, .go 0 none, .go 0 none, .go 0 none] s ∧
    s.goroutines 0 = some ⟨.linker, .ended⟩ ∧ s.writer.sunk = [[104]] ∧ ¬ Kept s := by
  obtain ⟨s, hrun, hended, hsunk⟩ : ∃ s, Run (guarded InTime Step) linking [.attach 1,
      .read 1 (some [104]), .go 1 none, .go 1 none, .go 1 none, .exit 0, .go 0 none, .go 0 none,
      .go 0 none] s ∧ s.goroutines 0 = some ⟨.linker, .ended⟩ ∧ s.writer.sunk = [[104]] :=
    exists_guarded_run (by decide +kernel)
  have h := hrun.mono fun _ _ _ hs => hs.2
  exact ⟨s, h, hended, hsunk, (lock_freed_iff h).1.mpr hrun⟩

/-! ## Two sources that end -/

/-- A goroutine waits for the lock as long as it is held. -/
theorem lock_step {s s' : State} {l : Label} (h : Step s l s') (hL : s.writer.writeL ≠ none)
    {t : ℕ} {r : Role} {c : Call} (ht : s.goroutines t = some ⟨r, .lock c⟩) :
    s'.goroutines t = some ⟨r, .lock c⟩ := by
  have hput : ∀ w j g, s.goroutines j ≠ s.goroutines t →
      (s.put w j g).goroutines t = some ⟨r, .lock c⟩ := by
    intro w j g hj
    have hne : t ≠ j := by
      rintro rfl
      exact hj rfl
    rw [put_of_ne _ _ _ hne, ht]
  cases moves_of_step h with
  | attach hg => exact hput _ _ _ (by simp [hg, ht])
  | read hg => exact hput _ _ _ (by simp [hg, ht])
  | exit hg => exact hput _ _ _ (by simp [hg, ht])
  | go hg hnext =>
    refine hput _ _ _ fun hsame => ?_
    rw [hsame, ht] at hg
    cases hg
    rw [Pc.next, if_neg hL] at hnext
    cases hnext

/-- A goroutine that waits for a lost lock waits for ever. -/
theorem lock_run {s s' : State} {ls : List Label} (h : Run Step s ls s') (hinv : Exclusive s)
    (hkept : Kept s) {t : ℕ} {r : Role} {c : Call} (ht : s.goroutines t = some ⟨r, .lock c⟩) :
    s'.goroutines t = some ⟨r, .lock c⟩ := by
  refine (h.invariant (I := fun s => Exclusive s ∧ Kept s ∧ s.goroutines t = some ⟨r, .lock c⟩)
    ⟨hinv, hkept, ht⟩ ?_).2.2
  rintro s l s' ⟨hinv, hkept, ht⟩ hs
  refine ⟨exclusive_step hinv hs, (kept_step hinv hs).mpr (.inl hkept), lock_step hs ?_ ht⟩
  obtain ⟨j, hL, -⟩ := hkept
  rw [hL]
  exact Option.some_ne_none j

/-- **Two sources end**, and the `Close` of `runLinker` never returns. -/
theorem linker_blocked : ∃ ls s, Run Step linking ls s ∧ Kept s ∧
    s.goroutines 1 = some ⟨.source, .ended⟩ ∧ s.goroutines 2 = some ⟨.source, .ended⟩ ∧
    ∀ ls' s', Run Step s ls' s' → s'.goroutines 0 = some ⟨.linker, .lock .close⟩ := by
  obtain ⟨s, hrun, hclosed, hsource, hlate, hlinker⟩ : ∃ s, Run Step linking [.attach 1, .attach 2,
      .read 1 none, .go 1 none, .go 1 none, .go 1 none, .read 2 none, .exit 0, .go 2 none] s ∧
      s.writer.closed = true ∧ s.goroutines 1 = some ⟨.source, .ended⟩ ∧
      s.goroutines 2 = some ⟨.source, .test .close⟩ ∧
      s.goroutines 0 = some ⟨.linker, .lock .close⟩ :=
    exists_run (by decide +kernel)
  have hinv := exclusive_run hrun
  -- the second source finds the writer closed
  have hstep : Step s (.go 2 none) (s.put s.writer 2 ⟨.source, .ended⟩) := by
    simp [Step, State.step, hlate, Pc.next, hclosed, Call.returned]
  have hkept : Kept (s.put s.writer 2 ⟨.source, .ended⟩) := by
    refine (kept_step hinv hstep).mpr (.inr fun hopen => ?_)
    rw [hopen _ hlate rfl] at hclosed
    cases hclosed
  refine ⟨_, _, hrun.snoc hstep, hkept, ?_, put_self .., fun ls' s' hrun' => ?_⟩
  · rw [put_of_ne _ _ _ (by decide), hsource]
  · refine lock_run hrun' (exclusive_step hinv hstep) hkept ?_
    rw [put_of_ne _ _ _ (by decide), hlinker]

end FaninWriter

end WardenLinux
