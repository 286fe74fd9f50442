/-
  Processes that wait for each other at pipes.

  A process goes through a list of instructions.  It holds ends of pipes; a
  process that it clones, and a helper that it runs, inherits them.  A read waits
  while the pipe is empty and somebody holds its write end, be it the reader
  itself; when nobody does it fails, and so does a write when nobody holds the
  read end.  A process whose instruction fails ends, and a process can be killed
  at any time; its ends are closed then.  A helper goes on without its process.

  * `past`: the instructions that a process has gone through.  `step_past` says
    what a step adds to them, to the pipes and to the log of the calls.
  * `bytes_eq`: what is in a pipe is what was written and not read, so that who
    has read has somebody before it who has written (`exists_write`).
  * `Kept`: which ends a process and its helper hold, from where they are.
  * `length_le`: a run is not longer than the programs allow.
  * `Stuck.at_read`: where nothing can go on, a process that is not through waits
    at an empty pipe whose write end is held.
-/
import WardenLinux.Lib.Transition
import Mathlib.Algebra.BigOperators.Group.Finset.Piecewise
import Mathlib.Algebra.Order.BigOperators.Group.Finset
import Mathlib.Data.Fintype.Basic

namespace Pipes

open Transition

variable {ι π α : Type}

/-! ## Programs -/

inductive End (π : Type) where
  | reading (q : π)
  | writing (q : π)
  deriving DecidableEq, Repr

/-- The instructions.  A name is given to one pipe only; `run` forks a helper
    and waits for it. -/
inductive Instr (ι π α : Type) where
  | pipe (q : π)
  | close (e : End π)
  | read (q : π)
  | write (q : π)
  | call (a : α)
  | run (a : α)
  | clone (j : ι)
  deriving DecidableEq, Repr

namespace Instr

/-- What a process does besides its pipes. -/
def action : Instr ι π α → Option α
  | .call a | .run a => some a
  | .pipe _ | .close _ | .read _ | .write _ | .clone _ => none

/-- The instructions that may fail in any state. -/
def mayFail : Instr ι π α → Bool
  | .pipe _ | .call _ | .run _ | .clone _ => true
  | .close _ | .read _ | .write _ => false

def isClose : Instr ι π α → Bool
  | .close _ => true
  | .pipe _ | .read _ | .write _ | .call _ | .run _ | .clone _ => false

def readsFrom [DecidableEq π] (q : π) : Instr ι π α → Bool
  | .read q' => q' = q
  | .pipe _ | .close _ | .write _ | .call _ | .run _ | .clone _ => false

def writesTo [DecidableEq π] (q : π) : Instr ι π α → Bool
  | .write q' => q' = q
  | .pipe _ | .close _ | .read _ | .call _ | .run _ | .clone _ => false

/-- The ends that are held after an instruction. -/
def onEnds [DecidableEq π] : Instr ι π α → List (End π) → List (End π)
  | .pipe q, es => .reading q :: .writing q :: es
  | .close e, es => es.filter (· ≠ e)
  | .read _, es | .write _, es | .call _, es | .run _, es | .clone _, es => es

/-- The bytes in the pipes after an instruction. -/
def onBytes [DecidableEq π] : Instr ι π α → (π → ℕ) → π → ℕ
  | .read q, bytes => Function.update bytes q (bytes q - 1)
  | .write q, bytes => Function.update bytes q (bytes q + 1)
  | .pipe _, bytes | .close _, bytes | .call _, bytes | .run _, bytes | .clone _, bytes => bytes

end Instr

/-! ## Systems -/

/-- How a helper ends. -/
inductive Exit where
  | exited (code : ℕ)
  | signalled (signal : ℕ)
  deriving DecidableEq, Repr

/-- `WEXITSTATUS`, which is 0 after a signal. -/
def Exit.wexitstatus : Exit → ℕ
  | .exited code => code
  | .signalled _ => 0

/-- A process: the next instruction, the ends it holds, and those of the helper
    it has forked. -/
structure Proc (π : Type) where
  pc : ℕ
  ends : List (End π)
  alive : Bool
  helper : Option (List (End π))
  deriving DecidableEq, Repr

namespace Proc

def holds [DecidableEq π] (p : Proc π) (e : End π) : Bool :=
  decide (e ∈ p.ends) || p.helper.any (fun es => decide (e ∈ es))

def die (p : Proc π) : Proc π := { p with ends := [], alive := false }

end Proc

/-- The processes that were started, the bytes in the pipes, and the calls that
    have succeeded. -/
structure System (ι π α : Type) where
  procs : ι → Option (Proc π)
  bytes : π → ℕ
  log : List (ι × α)

/-- The process `i` takes a step, its call fails, its helper ends, or it is
    killed. -/
inductive Event (ι : Type) where
  | act (i : ι)
  | fail (i : ι)
  | helper (i : ι) (exit : Exit)
  | kill (i : ι)
  deriving DecidableEq, Repr

variable [DecidableEq ι] [DecidableEq π]

namespace System

def set (s : System ι π α) (i : ι) (p : Proc π) : System ι π α :=
  { s with procs := Function.update s.procs i (some p) }

/-- Somebody holds the end. -/
def Held (s : System ι π α) (e : End π) : Prop := ∃ i, (s.procs i).any (·.holds e) = true

instance [Fintype ι] (s : System ι π α) (e : End π) : Decidable (s.Held e) :=
  inferInstanceAs (Decidable (∃ _, _))

/-- The instruction succeeds. -/
def pass (s : System ι π α) (i : ι) (p : Proc π) (x : Instr ι π α) : System ι π α :=
  { s with bytes := x.onBytes s.bytes, log := s.log ++ (x.action.map fun a => (i, a)).toList }.set i
    { p with pc := p.pc + 1, ends := x.onEnds p.ends, helper := none }

end System

section
omit [DecidableEq π]
variable {prog : ι → List (Instr ι π α)} {s : System ι π α} {i k : ι} {p : Proc π}

theorem procs_set_self (s : System ι π α) (i : ι) (p : Proc π) : (s.set i p).procs i = some p :=
  Function.update_self ..

theorem procs_set_of_ne (s : System ι π α) (p : Proc π) (h : k ≠ i) :
    (s.set i p).procs k = s.procs k := Function.update_of_ne h ..

/-- The instructions that a process has passed. -/
def past (prog : ι → List (Instr ι π α)) (s : System ι π α) (i : ι) : List (Instr ι π α) :=
  ((s.procs i).map fun p => (prog i).take p.pc).getD []

omit [DecidableEq ι] in
theorem past_of (hp : s.procs i = some p) : past prog s i = (prog i).take p.pc := by
  rw [past, hp]; rfl

omit [DecidableEq ι] in
theorem past_of_none (hp : s.procs i = none) : past prog s i = [] := by
  rw [past, hp]; rfl

omit [DecidableEq ι] in
theorem past_isPrefix (prog : ι → List (Instr ι π α)) (s : System ι π α) (i : ι) :
    past prog s i <+: prog i := by
  unfold past
  cases s.procs i with
  | none => exact List.nil_prefix
  | some p => exact List.take_prefix ..

theorem past_set (prog : ι → List (Instr ι π α)) (s : System ι π α) (i : ι) (p : Proc π) :
    past prog (s.set i p) = Function.update (past prog s) i ((prog i).take p.pc) := by
  funext k
  by_cases hk : k = i
  · subst hk
    rw [Function.update_self, past_of (procs_set_self ..)]
  · rw [Function.update_of_ne hk, past, past, procs_set_of_ne _ _ hk]

/-- One process is there, and holds nothing. -/
def start (i : ι) : System ι π α where
  procs := Function.update (fun _ => none) i (some ⟨0, [], true, none⟩)
  bytes _ := 0
  log := []

theorem procs_start_self (i : ι) :
    (start i : System ι π α).procs i = some ⟨0, [], true, none⟩ := by simp [start]

theorem procs_start_of_ne (h : k ≠ i) : (start i : System ι π α).procs k = none := by
  simp [start, h]

theorem past_start (prog : ι → List (Instr ι π α)) (i : ι) :
    past prog (start i : System ι π α) = fun _ => [] := by
  funext k
  by_cases hk : k = i
  · subst hk
    exact past_of (procs_start_self k)
  · exact past_of_none (procs_start_of_ne hk)

/-- A change that does not pass an instruction. -/
theorem past_set_same {p' : Proc π} (hp : s.procs i = some p) (hpc : p'.pc = p.pc) :
    past prog (s.set i p') = past prog s := by
  rw [past_set, hpc, ← past_of hp, Function.update_eq_self]

end

theorem past_pass {prog : ι → List (Instr ι π α)} {s : System ι π α} {i : ι} {p : Proc π}
    {x : Instr ι π α} (hp : s.procs i = some p) (hx : (prog i)[p.pc]? = some x) :
    past prog (s.pass i p x) = Function.update (past prog s) i (past prog s i ++ [x]) := by
  rw [System.pass, past_set, past_of hp, List.take_add_one, hx]
  rfl

/-! ## Steps -/

variable [Fintype ι]

/-- The next instruction of a process. -/
def exec (s : System ι π α) (i : ι) (p : Proc π) : Instr ι π α → Option (System ι π α)
  | .read q =>
    if .reading q ∈ p.ends then
      if 0 < s.bytes q then some (s.pass i p (.read q))
      else if s.Held (.writing q) then none
      else some (s.set i p.die)
    else some (s.set i p.die)
  | .write q =>
    if .writing q ∈ p.ends ∧ s.Held (.reading q) then some (s.pass i p (.write q))
    else some (s.set i p.die)
  | .run _ => some (s.set i { p with helper := some p.ends })
  | .clone j =>
    if (s.procs j).isSome then some (s.set i p.die)
    else some ((s.pass i p (.clone j)).set j ⟨0, p.ends, true, none⟩)
  | .pipe q => some (s.pass i p (.pipe q))
  | .close e => some (s.pass i p (.close e))
  | .call a => some (s.pass i p (.call a))

/-- A step of the processes with the programs `prog`. -/
def step (prog : ι → List (Instr ι π α)) (s : System ι π α) : Event ι → Option (System ι π α)
  | .act i =>
    match s.procs i with
    | none => none
    | some p =>
      if p.alive && p.helper.isNone then (prog i)[p.pc]?.bind (exec s i p) else none
  | .fail i =>
    match s.procs i with
    | none => none
    | some p =>
      if p.alive && p.helper.isNone && (prog i)[p.pc]?.any Instr.mayFail then some (s.set i p.die)
      else none
  | .helper i exit =>
    match s.procs i with
    | none => none
    | some p =>
      if p.helper.isNone then none
      else if p.alive then
        match (prog i)[p.pc]? with
        | some (.run a) =>
          if exit.wexitstatus = 0 then some (s.pass i p (.run a))
          else some (s.set i { p.die with helper := none })
        | _ => none
      else some (s.set i { p with helper := none })
  | .kill i =>
    match s.procs i with
    | none => none
    | some p => if p.alive then some (s.set i p.die) else none

/-! ## What a step does -/

section
variable {prog : ι → List (Instr ι π α)} {s s' s₀ : System ι π α} {e : Event ι} {i k : ι} {p : Proc π}
  {q : π} {x : Instr ι π α} {es : List (Event ι)}

/-- Why an instruction fails. -/
inductive Fails (s : System ι π α) (p : Proc π) : Instr ι π α → Prop
  | call {x : Instr ι π α} : x.mayFail = true → Fails s p x
  | noRead {q : π} : .reading q ∉ p.ends → Fails s p (.read q)
  | endOfFile {q : π} : s.bytes q = 0 → ¬ s.Held (.writing q) → Fails s p (.read q)
  | noWrite {q : π} : ¬ (.writing q ∈ p.ends ∧ s.Held (.reading q)) → Fails s p (.write q)

omit [Fintype ι] [DecidableEq ι] in
/-- To close an end does not fail. -/
theorem Fails.not_close (h : Fails s p x) : x.isClose = false := by
  cases h with
  | call hmay => cases x <;> first | rfl | cases hmay
  | noRead | endOfFile | noWrite => rfl

/-- A process passes an instruction, clones another one, forks a helper or ends,
    or a helper is gone whose process is dead. -/
inductive Effect (prog : ι → List (Instr ι π α)) (s : System ι π α) (e : Event ι) :
    System ι π α → Prop
  | passes {i : ι} {p : Proc π} {x : Instr ι π α} (hp : s.procs i = some p) (ha : p.alive = true)
      (hx : (prog i)[p.pc]? = some x) (hread : ∀ q, x = .read q → 0 < s.bytes q)
      (hclone : ∀ j, x ≠ .clone j) : Effect prog s e (s.pass i p x)
  | clones {i j : ι} {p : Proc π} (hp : s.procs i = some p) (ha : p.alive = true)
      (hx : (prog i)[p.pc]? = some (.clone j)) (hj : s.procs j = none) :
      Effect prog s e ((s.pass i p (.clone j)).set j ⟨0, p.ends, true, none⟩)
  | forks {i : ι} {p : Proc π} {a : α} (hp : s.procs i = some p) (ha : p.alive = true)
      (hh : p.helper = none) (hx : (prog i)[p.pc]? = some (.run a)) :
      Effect prog s e (s.set i { p with helper := some p.ends })
  | dies {i : ι} {p : Proc π} {h : Option (List (End π))} (hp : s.procs i = some p)
      (ha : p.alive = true) (hh : h = p.helper ∨ h = none)
      (hwhy : e = .kill i ∨ ∃ x, (prog i)[p.pc]? = some x ∧ Fails s p x) :
      Effect prog s e (s.set i { p.die with helper := h })
  | reaped {i : ι} {p : Proc π} (hp : s.procs i = some p) (ha : p.alive = false)
      (hh : p.helper.isSome) : Effect prog s e (s.set i { p with helper := none })

theorem effect_exec (hp : s.procs i = some p) (ha : p.alive = true) (hh : p.helper = none)
    (hx : (prog i)[p.pc]? = some x) (h : exec s i p x = some s') : Effect prog s e s' := by
  have hdie (hf : Fails s p x) : Effect prog s e (s.set i p.die) :=
    .dies hp ha (.inl rfl) (.inr ⟨x, hx, hf⟩)
  cases x with
  | read q =>
    rw [exec] at h
    split_ifs at h with hr hb hw
    · cases h; exact .passes hp ha hx (fun _ hq => by cases hq; exact hb) fun _ hj => by cases hj
    · cases h; exact hdie (.endOfFile (Nat.eq_zero_of_not_pos hb) hw)
    · cases h; exact hdie (.noRead hr)
  | write q =>
    rw [exec] at h
    split_ifs at h with hw
    · cases h; exact .passes hp ha hx (fun _ hq => by cases hq) fun _ hj => by cases hj
    · cases h; exact hdie (.noWrite hw)
  | run a => cases h; exact .forks hp ha hh hx
  | clone j =>
    rw [exec] at h
    split_ifs at h with hj
    · cases h; exact hdie (.call rfl)
    · cases h; exact .clones hp ha hx (Option.not_isSome_iff_eq_none.1 hj)
  | pipe _ | close _ | call _ => cases h; exact .passes hp ha hx (fun _ hq => by cases hq) fun _ hj => by cases hj

theorem effect_of_step (h : step prog s e = some s') : Effect prog s e s' := by
  cases e with
  | act i =>
    rw [step] at h
    split at h
    · cases h
    · next p hp =>
      split_ifs at h with hr
      rw [Bool.and_eq_true, Option.isNone_iff_eq_none] at hr
      obtain ⟨x, hx, hexec⟩ := Option.bind_eq_some_iff.1 h
      exact effect_exec hp hr.1 hr.2 hx hexec
  | fail i =>
    rw [step] at h
    split at h
    · cases h
    · next p hp =>
      split_ifs at h with hr
      rw [Bool.and_eq_true, Bool.and_eq_true] at hr
      obtain ⟨x, hx, hfail⟩ := (Option.any_eq_true _ _).1 hr.2
      cases h
      exact .dies hp hr.1.1 (.inl rfl) (.inr ⟨x, hx, .call hfail⟩)
  | helper i exit =>
    rw [step] at h
    split at h
    · cases h
    · next p hp =>
      by_cases hh : p.helper = none
      · rw [if_pos (by rw [hh]; rfl)] at h; cases h
      rw [if_neg (by rwa [Option.isNone_iff_eq_none])] at h
      by_cases ha : p.alive = true
      · rw [if_pos ha] at h
        split at h
        · next a hx =>
          split_ifs at h with hz
          · cases h; exact .passes hp ha hx (fun _ hq => by cases hq) fun _ hj => by cases hj
          · cases h; exact .dies hp ha (.inr rfl) (.inr ⟨_, hx, .call rfl⟩)
        · cases h
      · rw [if_neg ha] at h
        cases h
        exact .reaped hp (Bool.eq_false_iff.2 ha) (Option.isSome_iff_ne_none.2 hh)
  | kill i =>
    rw [step] at h
    split at h
    · cases h
    · next p hp =>
      split_ifs at h with ha
      cases h
      exact .dies hp ha (.inl rfl) (.inl rfl)

/-- A dead process stays where it is. -/
theorem dead_stays (hp : s.procs k = some p) (ha : p.alive = false) (h : step prog s e = some s') :
    ∃ p', s'.procs k = some p' ∧ p'.alive = false ∧ p'.pc = p.pc := by
  have hother {i : ι} {p' : Proc π} (hp' : s.procs i = some p') (ha' : p'.alive = true) : k ≠ i := by
    rintro rfl
    rw [hp, Option.some.injEq] at hp'
    rw [← hp', ha] at ha'
    cases ha'
  cases effect_of_step h with
  | passes hp' ha' => exact ⟨p, by rw [System.pass, procs_set_of_ne _ _ (hother hp' ha')]; exact hp, ha, rfl⟩
  | @clones i j p' hp' ha' _ hj =>
    have hkj : k ≠ j := by rintro rfl; rw [hp] at hj; cases hj
    exact ⟨p, by rw [procs_set_of_ne _ _ hkj, System.pass, procs_set_of_ne _ _ (hother hp' ha')]; exact hp, ha, rfl⟩
  | forks hp' ha' => exact ⟨p, by rw [procs_set_of_ne _ _ (hother hp' ha')]; exact hp, ha, rfl⟩
  | dies hp' ha' => exact ⟨p, by rw [procs_set_of_ne _ _ (hother hp' ha')]; exact hp, ha, rfl⟩
  | @reaped i p' hp' ha' =>
    by_cases hki : k = i
    · subst hki
      rw [hp, Option.some.injEq] at hp'
      subst hp'
      exact ⟨_, procs_set_self .., ha, rfl⟩
    · exact ⟨p, by rw [procs_set_of_ne _ _ hki]; exact hp, ha, rfl⟩

/-- How a process has died in a step, or before. -/
theorem dead_cases (h : step prog s e = some s') (hp : s'.procs k = some p)
    (ha : p.alive = false) : ∃ p₀, s.procs k = some p₀ ∧ p₀.pc = p.pc ∧ (p₀.alive = false ∨
      p₀.alive = true ∧ (e = .kill k ∨ ∃ x, (prog k)[p₀.pc]? = some x ∧ Fails s p₀ x)) := by
  -- what is put in the place of a process that is alive, and not dead
  have hset {s₁ : System ι π α} {i : ι} {p₁ : Proc π} (hp : (s₁.set i p₁).procs k = some p)
      (ha₁ : p₁.alive = true) : s₁.procs k = some p := by
    by_cases hk : k = i
    · subst hk
      rw [procs_set_self, Option.some.injEq] at hp
      rw [← hp, ha₁] at ha
      cases ha
    · rwa [procs_set_of_ne _ _ hk] at hp
  cases effect_of_step h with
  | passes _ ha' => exact ⟨p, hset hp ha', rfl, .inl ha⟩
  | clones _ ha' => exact ⟨p, hset (hset hp rfl) ha', rfl, .inl ha⟩
  | forks _ ha' => exact ⟨p, hset hp ha', rfl, .inl ha⟩
  | @dies i p₀ _ hp₀ ha' _ hwhy =>
    by_cases hk : k = i
    · subst hk
      rw [procs_set_self, Option.some.injEq] at hp
      subst hp
      exact ⟨p₀, hp₀, rfl, .inr ⟨ha', hwhy⟩⟩
    · rw [procs_set_of_ne _ _ hk] at hp
      exact ⟨p, hp, rfl, .inl ha⟩
  | @reaped i p₀ hp₀ ha' =>
    by_cases hk : k = i
    · subst hk
      rw [procs_set_self, Option.some.injEq] at hp
      subst hp
      exact ⟨p₀, hp₀, rfl, .inl ha'⟩
    · rw [procs_set_of_ne _ _ hk] at hp
      exact ⟨p, hp, rfl, .inl ha⟩

/-- Where nobody is killed, who is dead has failed before. -/
theorem exists_failure (h : Run (fun s e s' => step prog s e = some s') (start i) es s)
    (hkill : ∀ k, .kill k ∉ es) (hp : s.procs k = some p) (ha : p.alive = false) :
    ∃ es₁ es₂ s₁ p₁ x, Run (fun s e s' => step prog s e = some s') (start i) es₁ s₁ ∧
      Run (fun s e s' => step prog s e = some s') s₁ es₂ s ∧ s₁.procs k = some p₁ ∧
      p₁.alive = true ∧ p₁.pc = p.pc ∧ (prog k)[p.pc]? = some x ∧ Fails s₁ p₁ x := by
  induction h generalizing p with
  | nil =>
    by_cases hk : k = i
    · subst hk
      rw [procs_start_self, Option.some.injEq] at hp
      rw [← hp] at ha
      cases ha
    · rw [procs_start_of_ne hk] at hp; cases hp
  | @snoc es e s s' hr hs ih =>
    obtain ⟨p₀, hp₀, hpc, ha₀ | ⟨ha₀, rfl | ⟨x, hx, hfails⟩⟩⟩ := dead_cases hs hp ha
    · obtain ⟨es₁, es₂, s₁, p₁, x, h₁, h₂, hrest⟩ :=
        ih (fun k hk => hkill k (List.mem_append_left _ hk)) hp₀ ha₀
      rw [hpc] at hrest
      exact ⟨es₁, es₂ ++ [e], s₁, p₁, x, h₁, h₂.snoc hs, hrest⟩
    · exact absurd (List.mem_append_right _ (List.mem_singleton_self _)) (hkill k)
    · exact ⟨es, [] ++ [e], s, p₀, x, hr, Run.nil.snoc hs, hp₀, ha₀, hpc, hpc ▸ hx, hfails⟩

/-- A dead process is dead at the end of a run. -/
theorem dead_of_run (h : Run (fun s e s' => step prog s e = some s') s₀ es s)
    (hp : ∃ p, s₀.procs k = some p ∧ p.alive = false) : ∃ p, s.procs k = some p ∧ p.alive = false := by
  refine h.invariant (I := fun s => ∃ p, s.procs k = some p ∧ p.alive = false) hp ?_
  rintro s e s' ⟨p, hp, ha⟩ hs
  obtain ⟨p', hp', ha', -⟩ := dead_stays hp ha hs
  exact ⟨p', hp', ha'⟩

omit [DecidableEq π] [Fintype ι] in
theorem isSome_set (h : (s.procs k).isSome) : ((s.set i p).procs k).isSome := by
  by_cases hk : k = i
  · subst hk; rw [procs_set_self]; rfl
  · rwa [procs_set_of_ne _ _ hk]

theorem started_stays (hk : (s.procs k).isSome) (h : step prog s e = some s') :
    (s'.procs k).isSome := by
  cases effect_of_step h with
  | passes => exact isSome_set hk
  | clones => exact isSome_set (isSome_set hk)
  | forks => exact isSome_set hk
  | dies => exact isSome_set hk
  | reaped => exact isSome_set hk

/-! ### What the processes have done -/

/-- The entries of the log for an instruction. -/
def entry (i : ι) (x : Instr ι π α) : List (ι × α) := (x.action.map fun a => (i, a)).toList

/-- **A step** passes one instruction of one process, or none. -/
theorem step_past (h : step prog s e = some s') :
    (past prog s' = past prog s ∧ s'.bytes = s.bytes ∧ s'.log = s.log) ∨
    ∃ i x n, past prog s i = (prog i).take n ∧ (prog i)[n]? = some x ∧
      past prog s' = Function.update (past prog s) i (past prog s i ++ [x]) ∧
      s'.bytes = x.onBytes s.bytes ∧ s'.log = s.log ++ entry i x ∧
      (∀ q, x = .read q → 0 < s.bytes q) ∧ ∀ j, x = .clone j → (s'.procs j).isSome := by
  cases effect_of_step h with
  | passes hp _ hx hread hclone =>
    exact .inr ⟨_, _, _, past_of hp, hx, past_pass hp hx, rfl, rfl, hread,
      fun j hj => absurd hj (hclone j)⟩
  | @clones i j p hp _ hx hj =>
    refine .inr ⟨i, .clone j, _, past_of hp, hx, ?_, rfl, rfl, fun q hq => (by cases hq),
      fun j' hj' => by cases hj'; rw [procs_set_self]; rfl⟩
    have hij : j ≠ i := by rintro rfl; rw [hp] at hj; cases hj
    have hnone : past prog (s.pass i p (.clone j)) j = [] :=
      past_of_none (by rw [System.pass, procs_set_of_ne _ _ hij]; exact hj)
    rw [past_set, ← past_pass hp hx]
    exact Function.update_eq_self_iff.2 hnone.symm
  | forks hp => exact .inl ⟨past_set_same hp rfl, rfl, rfl⟩
  | dies hp => exact .inl ⟨past_set_same hp rfl, rfl, rfl⟩
  | reaped hp => exact .inl ⟨past_set_same hp rfl, rfl, rfl⟩

/-- A process that was cloned is there. -/
theorem started_of_clone {j : ι} (h : Run (fun s e s' => step prog s e = some s') (start k) es s)
    (hj : .clone j ∈ past prog s i) : (s.procs j).isSome := by
  induction h generalizing i with
  | nil => rw [past_start] at hj; cases hj
  | @snoc es e s s' _ hs ih =>
    obtain ⟨hpast, -⟩ | ⟨i', x, _, -, -, hpast, -, -, -, hclone⟩ := step_past hs
    · exact started_stays (ih (hpast ▸ hj)) hs
    · rw [hpast] at hj
      by_cases hi : i = i'
      · subst hi
        rw [Function.update_self, List.mem_append, List.mem_singleton] at hj
        rcases hj with hj | hj
        · exact started_stays (ih hj) hs
        · exact hclone j hj.symm
      · rw [Function.update_of_ne hi] at hj
        exact started_stays (ih hj) hs

/-! ## Bytes -/

omit [DecidableEq ι] [Fintype ι] in
theorem onBytes_count {bytes : π → ℕ} (hread : ∀ q, x = .read q → 0 < bytes q) (q : π) :
    x.onBytes bytes q + (if x.readsFrom q then 1 else 0) =
      bytes q + (if x.writesTo q then 1 else 0) := by
  cases x with
  | read q' =>
    have hpos := hread q' rfl
    by_cases hq : q = q'
    · subst hq
      simp [Instr.onBytes, Instr.readsFrom, Instr.writesTo]
      omega
    · simp [Instr.onBytes, Instr.readsFrom, Instr.writesTo, hq, Ne.symm hq]
  | write q' =>
    by_cases hq : q = q'
    · subst hq
      simp [Instr.onBytes, Instr.readsFrom, Instr.writesTo]
    · simp [Instr.onBytes, Instr.readsFrom, Instr.writesTo, hq, Ne.symm hq]
  | pipe _ | close _ | call _ | run _ | clone _ => rfl

theorem sum_countP_update {β : Type} (f : ι → List β) (i : ι) (b : β) (c : β → Bool) :
    ∑ k, (Function.update f i (f i ++ [b]) k).countP c = ∑ k, (f k).countP c + if c b then 1 else 0 := by
  have hcomp : (fun k => (Function.update f i (f i ++ [b]) k).countP c) =
      Function.update (fun k => (f k).countP c) i ((f i ++ [b]).countP c) :=
    funext fun k => Function.apply_update (fun _ l => l.countP c) f i _ k
  rw [hcomp, Finset.sum_update_of_mem (Finset.mem_univ i),
    Finset.sum_eq_add_sum_sdiff_singleton_of_mem (Finset.mem_univ i) fun k => (f k).countP c,
    List.countP_append, List.countP_singleton]
  omega

/-- **What is in a pipe** is what was written and not read. -/
theorem bytes_eq (h : Run (fun s e s' => step prog s e = some s') (start i) es s) (q : π) :
    s.bytes q + ∑ k, (past prog s k).countP (Instr.readsFrom q) =
      ∑ k, (past prog s k).countP (Instr.writesTo q) := by
  refine h.invariant (I := fun s => s.bytes q + ∑ k, (past prog s k).countP (Instr.readsFrom q) =
    ∑ k, (past prog s k).countP (Instr.writesTo q)) ?_ fun s e s' hs hstep => ?_
  · rw [past_start]
    simp [start]
  · obtain ⟨hpast, hbytes, -⟩ | ⟨k, x, _, -, -, hpast, hbytes, -, hread, -⟩ :=
      step_past hstep
    · rw [hpast, hbytes]; exact hs
    · have hcount := onBytes_count hread q
      rw [hpast, hbytes, sum_countP_update, sum_countP_update]
      omega

omit [DecidableEq ι] [DecidableEq π] in
/-- Some process has passed such an instruction. -/
theorem sum_countP_pos {c : Instr ι π α → Bool} {f : ι → List (Instr ι π α)} :
    0 < ∑ k, (f k).countP c ↔ ∃ k, ∃ x ∈ f k, c x = true := by
  rw [Nat.pos_iff_ne_zero, Ne, Finset.sum_eq_zero_iff]
  simp

omit [DecidableEq ι] [Fintype ι] in
theorem readsFrom_iff : x.readsFrom q = true ↔ x = .read q := by
  cases x with
  | read q' => simp [Instr.readsFrom]
  | _ => exact iff_of_false (fun h => by cases h) fun h => by cases h

omit [DecidableEq ι] [Fintype ι] in
theorem writesTo_iff : x.writesTo q = true ↔ x = .write q := by
  cases x with
  | write q' => simp [Instr.writesTo]
  | _ => exact iff_of_false (fun h => by cases h) fun h => by cases h

/-- Who has read has somebody who has written. -/
theorem exists_write (h : Run (fun s e s' => step prog s e = some s') (start i) es s)
    (hr : .read q ∈ past prog s k) : ∃ j, .write q ∈ past prog s j := by
  have hreads : 0 < ∑ k, (past prog s k).countP (Instr.readsFrom q) :=
    sum_countP_pos.2 ⟨k, _, hr, readsFrom_iff.2 rfl⟩
  obtain ⟨j, x, hx, hw⟩ := sum_countP_pos.1 (hreads.trans_le (Nat.le.intro
    ((Nat.add_comm _ _).trans (bytes_eq h q))))
  exact ⟨j, writesTo_iff.1 hw ▸ hx⟩

/-- What was written and not read is in the pipe. -/
theorem bytes_pos (h : Run (fun s e s' => step prog s e = some s') (start i) es s)
    (hw : .write q ∈ past prog s k) (hr : ∀ j, .read q ∉ past prog s j) : 0 < s.bytes q := by
  have hwrites : 0 < ∑ k, (past prog s k).countP (Instr.writesTo q) :=
    sum_countP_pos.2 ⟨k, _, hw, writesTo_iff.2 rfl⟩
  have hreads : ∑ k, (past prog s k).countP (Instr.readsFrom q) = 0 := by
    by_contra hne
    obtain ⟨j, x, hx, hread⟩ := sum_countP_pos.1 (Nat.pos_of_ne_zero hne)
    exact hr j (readsFrom_iff.1 hread ▸ hx)
  have heq := bytes_eq h q
  omega

/-! ## The ends that are held -/

/-- The ends that a process holds after `n` instructions, from those that it has
    inherited. -/
def held (prog : ι → List (Instr ι π α)) (inherited : ι → List (End π)) (i : ι) (n : ℕ) :
    List (End π) := ((prog i).take n).foldl (fun es x => x.onEnds es) (inherited i)

variable {inherited : ι → List (End π)}

omit [DecidableEq ι] [Fintype ι] in
theorem held_succ {n : ℕ} (hx : (prog i)[n]? = some x) :
    held prog inherited i (n + 1) = x.onEnds (held prog inherited i n) := by
  rw [held, List.take_add_one, hx, List.foldl_append]
  rfl

/-- A process and its helper hold the ends of the place where they are. -/
structure KeptAt (prog : ι → List (Instr ι π α)) (inherited : ι → List (End π)) (i : ι)
    (p : Proc π) : Prop where
  ends : p.alive = true → p.ends = held prog inherited i p.pc
  dead : p.alive = false → p.ends = []
  helper : ∀ es, p.helper = some es → es = held prog inherited i p.pc
  atRun : p.alive = true → p.helper.isSome → ∃ a, (prog i)[p.pc]? = some (.run a)
  inside : p.pc ≤ (prog i).length

def Kept (prog : ι → List (Instr ι π α)) (inherited : ι → List (End π)) (s : System ι π α) : Prop :=
  ∀ i p, s.procs i = some p → KeptAt prog inherited i p

omit [Fintype ι] in
theorem Kept.set (h : Kept prog inherited s) (hp : KeptAt prog inherited i p) :
    Kept prog inherited (s.set i p) := by
  intro k p' hp'
  by_cases hk : k = i
  · subst hk
    rw [procs_set_self, Option.some.injEq] at hp'
    exact hp' ▸ hp
  · rw [procs_set_of_ne _ _ hk] at hp'
    exact h k p' hp'

omit [Fintype ι] in
theorem Kept.pass (h : Kept prog inherited s) (hp : s.procs i = some p) (ha : p.alive = true)
    (hx : (prog i)[p.pc]? = some x) : Kept prog inherited (s.pass i p x) := by
  refine Kept.set (s := { s with bytes := _, log := _ }) h ⟨fun _ => ?_, fun hd => ?_,
    fun _ hes => ?_, fun _ hes => ?_, (List.getElem?_eq_some_iff.1 hx).1⟩
  · rw [held_succ hx, ← (h i p hp).ends ha]
  · rw [ha] at hd; cases hd
  · cases hes
  · cases hes

/-- A clone inherits what its process holds. -/
def Inherits (prog : ι → List (Instr ι π α)) (inherited : ι → List (End π)) : Prop :=
  ∀ i n j, (prog i)[n]? = some (.clone j) → inherited j = held prog inherited i n

theorem Kept.step (hinh : Inherits prog inherited) (h : Kept prog inherited s)
    (hs : step prog s e = some s') : Kept prog inherited s' := by
  cases effect_of_step hs with
  | passes hp ha hx => exact h.pass hp ha hx
  | clones hp ha hx =>
    refine (h.pass hp ha hx).set ⟨fun _ => ?_, fun hd => (by cases hd), fun _ hes => (by cases hes),
      fun _ hes => (by cases hes), Nat.zero_le _⟩
    rw [(h _ _ hp).ends ha, ← hinh _ _ _ hx]
    rfl
  | forks hp ha _ hx =>
    refine h.set ⟨(h _ _ hp).ends, (h _ _ hp).dead, fun es hes => ?_, fun _ _ => ⟨_, hx⟩,
      (h _ _ hp).inside⟩
    cases hes
    exact (h _ _ hp).ends ha
  | dies hp ha hh =>
    refine h.set ⟨fun hd => (by cases hd), fun _ => rfl, fun es hes => ?_, fun hd => (by cases hd),
      (h _ _ hp).inside⟩
    rcases hh with rfl | rfl
    · exact (h _ _ hp).helper es hes
    · cases hes
  | reaped hp ha =>
    exact h.set ⟨(h _ _ hp).ends, (h _ _ hp).dead, fun _ hes => (by cases hes),
      fun _ hes => (by cases hes), (h _ _ hp).inside⟩

/-- In every state that is reached. -/
theorem kept_of_run (hinh : Inherits prog inherited) (hi : inherited i = [])
    (h : Run (fun s e s' => Pipes.step prog s e = some s') (start i) es s) :
    Kept prog inherited s := by
  refine h.invariant (fun k p hp => ?_) fun s e s' hk hs => hk.step hinh hs
  by_cases hki : k = i
  · subst hki
    rw [procs_start_self, Option.some.injEq] at hp
    subst hp
    exact ⟨fun _ => by rw [held, List.take_zero, hi]; rfl, fun hd => (by cases hd),
      fun _ hes => (by cases hes), fun _ hes => (by cases hes), Nat.zero_le _⟩
  · rw [procs_start_of_ne hki] at hp; cases hp

omit [Fintype ι] [DecidableEq ι] in
/-- Who holds an end. -/
theorem Kept.holder {d : End π} (h : Kept prog inherited s) (hheld : s.Held d) :
    ∃ i p, s.procs i = some p ∧ d ∈ held prog inherited i p.pc ∧
      (p.alive = true ∨ p.helper.isSome) := by
  obtain ⟨i, hi⟩ := hheld
  obtain ⟨p, hp, hd⟩ := (Option.any_eq_true _ _).1 hi
  refine ⟨i, p, hp, ?_⟩
  rw [Proc.holds, Bool.or_eq_true, decide_eq_true_eq] at hd
  rcases hd with hd | hd
  · cases ha : p.alive with
    | false => rw [(h i p hp).dead ha] at hd; cases hd
    | true => exact ⟨(h i p hp).ends ha ▸ hd, .inl rfl⟩
  · obtain ⟨es, hes, hmem⟩ := (Option.any_eq_true _ _).1 hd
    rw [(h i p hp).helper es hes, decide_eq_true_eq] at hmem
    exact ⟨hmem, .inr (by rw [hes]; rfl)⟩

/-! ## The end of a run -/

/-- How many steps are left to a process at most; `l` is the length of its
    program. -/
def weight (l : ℕ) : Option (Proc π) → ℕ
  | none => 3 * l + 3
  | some p =>
    if p.alive then 3 * (l - p.pc) + if p.helper.isSome then 2 else 3
    else if p.helper.isSome then 1 else 0

def total (prog : ι → List (Instr ι π α)) (s : System ι π α) : ℕ :=
  ∑ i, weight (prog i).length (s.procs i)

omit [DecidableEq π] in
theorem total_set_lt (h : weight (prog i).length (some p) < weight (prog i).length (s.procs i)) :
    total prog (s.set i p) < total prog s := by
  refine Finset.sum_lt_sum (fun k _ => ?_) ⟨i, Finset.mem_univ i, ?_⟩
  · by_cases hk : k = i
    · subst hk
      rw [procs_set_self]
      exact h.le
    · rw [procs_set_of_ne _ _ hk]
  · rwa [procs_set_self]

omit [DecidableEq π] in
theorem total_set_eq (h : weight (prog i).length (some p) = weight (prog i).length (s.procs i)) :
    total prog (s.set i p) = total prog s := by
  refine Finset.sum_congr rfl fun k _ => ?_
  by_cases hk : k = i
  · subst hk
    rwa [procs_set_self]
  · rw [procs_set_of_ne _ _ hk]

theorem total_pass_lt (hp : s.procs i = some p) (ha : p.alive = true)
    (hx : (prog i)[p.pc]? = some x) : total prog (s.pass i p x) < total prog s := by
  obtain ⟨hpc, -⟩ := List.getElem?_eq_some_iff.1 hx
  refine total_set_lt (s := { s with bytes := _, log := _ }) ?_
  simp only [hp, weight, ha, if_true, Option.isSome_none, Bool.false_eq_true, if_false]
  split <;> omega

/-- Every step is one less. -/
theorem total_lt_of_step (h : step prog s e = some s') : total prog s' < total prog s := by
  cases effect_of_step h with
  | passes hp ha hx => exact total_pass_lt hp ha hx
  | @clones i j p hp ha hx hj =>
    have hij : j ≠ i := by rintro rfl; rw [hp] at hj; cases hj
    rw [total_set_eq]
    · exact total_pass_lt hp ha hx
    · rw [System.pass, procs_set_of_ne _ _ hij]
      simp [weight, hj]
  | forks hp ha hh hx =>
    obtain ⟨hpc, -⟩ := List.getElem?_eq_some_iff.1 hx
    refine total_set_lt ?_
    simp [hp, weight, ha, hh]
  | dies hp ha hh =>
    refine total_set_lt ?_
    simp only [hp, weight, Proc.die, ha, if_true, Bool.false_eq_true, if_false]
    split <;> split <;> omega
  | reaped hp ha hh =>
    refine total_set_lt ?_
    simp [hp, weight, ha, hh]

/-- **Every run ends.** -/
theorem length_le (h : Run (fun s e s' => step prog s e = some s') (start i) es s) :
    es.length ≤ ∑ k, (3 * (prog k).length + 3) := by
  have hsum : es.length + total prog s ≤ total prog (start i) := by
    induction h with
    | nil => simp
    | snoc _ hs ih =>
      have hlt := total_lt_of_step hs
      rw [List.length_append, List.length_singleton]
      omega
  have hstart : total prog (start i : System ι π α) = ∑ k, (3 * (prog k).length + 3) := by
    refine Finset.sum_congr rfl fun k _ => ?_
    by_cases hk : k = i
    · subst hk
      rw [procs_start_self]; rfl
    · rw [procs_start_of_ne hk]; rfl
  omega

/-- Nothing goes on by itself. -/
def Stuck (prog : ι → List (Instr ι π α)) (s : System ι π α) : Prop :=
  ∀ e, (∀ i, e ≠ .kill i) → step prog s e = none

/-- **Who waits**, where nothing can go on: no helper is left, and a process that
    is alive is through or waits for somebody with the write end of its pipe. -/
theorem Stuck.at_read (h : Stuck prog s) (hk : Kept prog inherited s) (hp : s.procs i = some p) :
    p.helper = none ∧ (p.alive = true → p.pc = (prog i).length ∨
      ∃ q, (prog i)[p.pc]? = some (.read q) ∧ s.bytes q = 0 ∧ s.Held (.writing q)) := by
  have hh : p.helper = none := by
    by_contra hsome
    have hstep := h (.helper i (.exited 0)) fun _ he => by cases he
    rw [step, hp] at hstep
    simp only [Option.isNone_iff_eq_none, hsome, if_false] at hstep
    cases ha : p.alive with
    | false => simp [ha] at hstep
    | true =>
      obtain ⟨a, hx⟩ := (hk i p hp).atRun ha (Option.isSome_iff_ne_none.2 hsome)
      simp [ha, hx, Exit.wexitstatus] at hstep
  refine ⟨hh, fun ha => ?_⟩
  have hstep := h (.act i) fun _ he => by cases he
  simp only [step, hp, ha, hh, Option.isNone_none, Bool.and_self, if_true] at hstep
  cases hx : (prog i)[p.pc]? with
  | none => exact .inl (Nat.le_antisymm (hk i p hp).inside (List.getElem?_eq_none_iff.1 hx))
  | some x =>
    rw [hx, Option.bind_some] at hstep
    cases x with
    | read q =>
      rw [exec] at hstep
      split_ifs at hstep with hr hb hw
      exact .inr ⟨q, rfl, Nat.eq_zero_of_not_pos hb, hw⟩
    | write q => rw [exec] at hstep; split_ifs at hstep
    | clone j => rw [exec] at hstep; split_ifs at hstep
    | pipe _ | close _ | call _ | run _ => cases hstep

end

end Pipes
