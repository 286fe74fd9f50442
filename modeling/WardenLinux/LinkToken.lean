/-
  The link of one process and its `Unlink`s (process.go): any number of calls of
  `Link`, `Unlink` and `Wait` at the same time.

  The channel `unlinked` holds one value.  `runLinker` takes it when the link has
  exited, an `Unlink` takes it before it interrupts the link; `Token` says where
  it is.  `Moves` lists the steps, `Fits` what is known of the process where a
  goroutine is, and `Sound` what is known of it always.

  * `unlink_excludes_completion`: only one side ever gets the value, and acts.
  * `natural_exit_kept_iff`: the exit of a link is lost to an `Unlink` that started
    after it iff such an `Unlink` finds the value in the channel.
-/
import Mathlib.Data.Int.Notation
import WardenLinux.Lib.Threads
import WardenLinux.Lib.Transition

namespace WardenLinux

open Transition

namespace LinkToken

/-! ## Steps -/

/-- Where the value of the channel `unlinked` is. -/
inductive Token where
  | channel
  | linker
  /-- taken by this `Unlink`, which started after the link had exited by itself,
      or not -/
  | unlink (t : ℕ) (late : Bool)
  deriving DecidableEq, Repr

/-- The command `iodaemon link`. -/
inductive Command where
  | notStarted
  | running
  /-- with the status, if there is one, and whether it exited by itself -/
  | exited (status : Option ℤ) (itself : Bool)
  deriving DecidableEq, Repr

/-- `sync.Once` -/
inductive Once where
  | unused
  | running
  | done
  deriving DecidableEq, Repr

/-- A `Process`, as far as its link goes. -/
structure Process where
  /-- the goroutine that has locked it -/
  waitingLinks : Option ℕ := none
  runningLink : Once := .unused
  link : Command := .notStarted
  /-- the channel is closed -/
  linked : Bool := false
  unlinked : Token := .channel
  exitStatus : ℤ := 0
  exitErr : Option String := none
  done : Bool := false
  /-- how often `runLinker` was called -/
  runs : ℕ := 0
  /-- how often an `Unlink` called `runner.Signal` -/
  signals : ℕ := 0
  /-- the calls of `completed` -/
  completions : List (ℤ × Option String) := []
  deriving DecidableEq, Repr

/-- `completed` -/
def Process.completed (p : Process) (status : ℤ) (err : Option String) : Process :=
  let p := { p with completions := p.completions ++ [(status, err)] }
  if p.done then p else { p with done := true, exitErr := err, exitStatus := status }

@[simp] theorem completed_unlinked (p : Process) (status : ℤ) (err : Option String) :
    (p.completed status err).unlinked = p.unlinked := by
  rw [Process.completed]
  split <;> rfl

@[simp] theorem completed_waitingLinks (p : Process) (status : ℤ) (err : Option String) :
    (p.completed status err).waitingLinks = p.waitingLinks := by
  rw [Process.completed]
  split <;> rfl

@[simp] theorem completed_link (p : Process) (status : ℤ) (err : Option String) :
    (p.completed status err).link = p.link := by
  rw [Process.completed]
  split <;> rfl

/-- Where a goroutine is. -/
inductive Pc where
  /-- `Link`: at `waitingLinks.Lock`, at `runningLink.Do`, and at the deferred
      `Unlock` -/
  | lock
  | once
  | unlock
  /-- `runLinker`: the terminal or the pipe, `runner.Start`, `close(p.linked)`,
      `runner.Wait`, `<-p.unlinked`, `stdin.Close` and `completed` -/
  | setup
  | start
  | closeLinked
  | wait
  | token
  | closeStdin
  | complete (status : ℤ) (err : Option String)
  /-- `Unlink`: at `<-p.linked`, at the `select`, and at `runner.Signal` -/
  | awaitLinked (late : Bool)
  | select (late : Bool)
  | signal (late : Bool)
  /-- `Wait`: in its loop, and after it -/
  | waitDone
  | returned (status : ℤ) (err : Option String)
  | ended
  deriving DecidableEq, Repr

/-- What `runLinker` makes of the state of the command. -/
def Command.outcome : Command → ℤ × Option String
  | exited (some status) _ => (status, none)
  | _ => (-1, some "could not determine exit status")

/-- The next step of the goroutine `t`; `err` is the error of what it calls. -/
def Pc.next (t : ℕ) (err : Option String) (p : Process) : Pc → Option (Pc × Process)
  | lock => if p.waitingLinks = none then some (once, { p with waitingLinks := some t }) else none
  | once =>
    match p.runningLink with
    | .unused => some (setup, { p with runningLink := .running, runs := p.runs + 1 })
    | .running => none
    | .done => some (unlock, p)
  | unlock => some (ended, { p with waitingLinks := none })
  | setup =>
    match err with
    | none => some (start, p)
    | some e => some (complete (-1) (some e), p)
  | start =>
    match err with
    | none => some (closeLinked, { p with link := .running })
    | some e => some (complete (-1) (some e), p)
  | closeLinked => some (wait, { p with linked := true })
  | wait =>
    match p.link with
    | .exited _ _ => some (token, p)
    | _ => none
  | token =>
    if p.unlinked = .channel then some (closeStdin, { p with unlinked := .linker }) else none
  | closeStdin => some (complete p.link.outcome.1 p.link.outcome.2, p)
  | complete status e => some (unlock, { p.completed status e with runningLink := .done })
  | awaitLinked late => if p.linked then some (select late, p) else none
  | select late =>
    if p.unlinked = .channel then some (signal late, { p with unlinked := .unlink t late })
    else some (ended, p)
  | signal _ => some (ended, { p with signals := p.signals + 1 })
  | waitDone => if p.done then some (returned p.exitStatus p.exitErr, p) else none
  | returned _ _ | ended => none

structure State where
  process : Process
  goroutines : ℕ → Option Pc

/-- `NewProcess` -/
def State.new : State := ⟨{}, fun _ => none⟩

def State.put (s : State) (p : Process) (t : ℕ) (pc : Pc) : State :=
  ⟨p, Threads.set s.goroutines t pc⟩

/-- The command has exited by itself. -/
def Command.exitedItself : Command → Bool
  | exited _ itself => itself
  | _ => false

/-- A method of the process. -/
inductive Call where
  | link
  | unlink
  | wait
  deriving DecidableEq, Repr

def Call.entry (p : Process) : Call → Pc
  | link => .lock
  | unlink => .awaitLinked p.link.exitedItself
  | wait => .waitDone

inductive Label where
  /-- a new goroutine calls a method -/
  | call (t : ℕ) (c : Call)
  /-- the command exits -/
  | exit (status : Option ℤ)
  /-- a step of a goroutine -/
  | go (t : ℕ) (err : Option String)
  deriving DecidableEq, Repr

def State.step (s : State) : Label → Option State
  | .call t c =>
    match s.goroutines t with
    | none => some (s.put s.process t (c.entry s.process))
    | some _ => none
  | .exit status =>
    match s.process.link with
    | .running =>
      some { s with process := { s.process with link := .exited status (s.process.signals = 0) } }
    | _ => none
  | .go t err =>
    match s.goroutines t with
    | some pc => (pc.next t err s.process).map fun (pc', p) => s.put p t pc'
    | none => none

def Step (s : State) (l : Label) (s' : State) : Prop := s.step l = some s'

/-- What a step can do. -/
inductive Moves (s : State) : Label → State → Prop
  | call {t : ℕ} {c : Call} : s.goroutines t = none →
      Moves s (.call t c) (s.put s.process t (c.entry s.process))
  | exit {status : Option ℤ} : s.process.link = .running → Moves s (.exit status)
      { s with process := { s.process with link := .exited status (s.process.signals = 0) } }
  | go {t : ℕ} {err : Option String} {pc pc' : Pc} {p : Process} : s.goroutines t = some pc →
      pc.next t err s.process = some (pc', p) → Moves s (.go t err) (s.put p t pc')

theorem moves_of_step {s s' : State} {l : Label} (h : Step s l s') : Moves s l s' := by
  cases l with
  | call t c =>
    simp only [Step, State.step] at h
    split at h
    · cases h
      exact .call ‹_›
    · cases h
  | exit status =>
    simp only [Step, State.step] at h
    split at h
    · cases h
      exact .exit ‹_›
    · cases h
  | go t err =>
    simp only [Step, State.step] at h
    split at h
    · obtain ⟨⟨pc', p⟩, hnext, rfl⟩ := Option.map_eq_some_iff.1 h
      exact .go ‹_› hnext
    · cases h

/-- What the step of a goroutine can do. -/
inductive Acts (t : ℕ) (p : Process) : Pc → Pc → Process → Prop
  | lock : p.waitingLinks = none → Acts t p .lock .once { p with waitingLinks := some t }
  | once : p.runningLink = .unused →
      Acts t p .once .setup { p with runningLink := .running, runs := p.runs + 1 }
  | skip : p.runningLink = .done → Acts t p .once .unlock p
  | unlock : Acts t p .unlock .ended { p with waitingLinks := none }
  | setup : Acts t p .setup .start p
  | start : Acts t p .start .closeLinked { p with link := .running }
  | fail {pc : Pc} {e : String} : pc = .setup ∨ pc = .start →
      Acts t p pc (.complete (-1) (some e)) p
  | closeLinked : Acts t p .closeLinked .wait { p with linked := true }
  | wait {status : Option ℤ} {itself : Bool} : p.link = .exited status itself →
      Acts t p .wait .token p
  | token : p.unlinked = .channel → Acts t p .token .closeStdin { p with unlinked := .linker }
  | closeStdin : Acts t p .closeStdin (.complete p.link.outcome.1 p.link.outcome.2) p
  | complete {status : ℤ} {err : Option String} : Acts t p (.complete status err) .unlock
      { p.completed status err with runningLink := .done }
  | awaitLinked {late : Bool} : p.linked = true → Acts t p (.awaitLinked late) (.select late) p
  | select {late : Bool} : p.unlinked = .channel →
      Acts t p (.select late) (.signal late) { p with unlinked := .unlink t late }
  | exited {late : Bool} : p.unlinked ≠ .channel → Acts t p (.select late) .ended p
  | signal {late : Bool} : Acts t p (.signal late) .ended { p with signals := p.signals + 1 }
  | waitDone : p.done = true → Acts t p .waitDone (.returned p.exitStatus p.exitErr) p

theorem acts_of_next {t : ℕ} {err : Option String} {p p' : Process} {pc pc' : Pc}
    (h : pc.next t err p = some (pc', p')) : Acts t p pc pc' p' := by
  cases pc with
  | lock =>
    rw [Pc.next] at h
    split at h
    · cases h; exact .lock ‹_›
    · cases h
  | once =>
    rw [Pc.next] at h
    split at h
    · cases h; exact .once ‹_›
    · cases h
    · cases h; exact .skip ‹_›
  | unlock => cases h; exact .unlock
  | setup =>
    cases err with
    | none => cases h; exact .setup
    | some e => cases h; exact .fail (.inl rfl)
  | start =>
    cases err with
    | none => cases h; exact .start
    | some e => cases h; exact .fail (.inr rfl)
  | closeLinked => cases h; exact .closeLinked
  | wait =>
    rw [Pc.next] at h
    split at h
    · cases h; exact .wait ‹_›
    · cases h
  | token =>
    rw [Pc.next] at h
    split at h
    · cases h; exact .token ‹_›
    · cases h
  | closeStdin => cases h; exact .closeStdin
  | complete status e => cases h; exact .complete
  | awaitLinked late =>
    rw [Pc.next] at h
    split at h
    · cases h; exact .awaitLinked ‹_›
    · cases h
  | select late =>
    rw [Pc.next] at h
    split at h
    · cases h; exact .select ‹_›
    · cases h; exact .exited ‹_›
  | signal late => cases h; exact .signal
  | waitDone =>
    rw [Pc.next] at h
    split at h
    · cases h; exact .waitDone ‹_›
    · cases h
  | returned status e => cases h
  | ended => cases h

/-- A value that is taken stays with who took it. -/
theorem step_token {s s' : State} {l : Label} (h : Step s l s')
    (htaken : s.process.unlinked ≠ .channel) : s'.process.unlinked = s.process.unlinked := by
  cases moves_of_step h with
  | call => rfl
  | exit => rfl
  | go _ hnext =>
    cases acts_of_next hnext with
    | token hchannel => exact absurd hchannel htaken
    | select hchannel => exact absurd hchannel htaken
    | complete => exact completed_unlinked ..
    | _ => rfl

theorem leads_token {s s' : State} (h : Leads Step s s') (htaken : s.process.unlinked ≠ .channel) :
    s'.process.unlinked = s.process.unlinked := by
  obtain ⟨ls, h⟩ := h
  induction h with
  | nil => rfl
  | snoc _ hs ih => rw [step_token hs (by rwa [ih]), ih]

/-! ## What is known -/

/-- The goroutine has locked `waitingLinks`. -/
def Pc.holds : Pc → Bool
  | once | unlock | setup | start | closeLinked | wait | token | closeStdin | complete _ _ => true
  | lock | awaitLinked _ | select _ | signal _ | waitDone | returned _ _ | ended => false

/-- What is known of the process where the goroutine `t` is. -/
def Pc.Fits (t : ℕ) (p : Process) : Pc → Prop
  | setup | start =>
    p.runningLink = .running ∧ p.linked = false ∧ p.link = .notStarted
  | closeLinked => p.runningLink = .running ∧ p.linked = false
  | wait | token => p.runningLink = .running ∧ p.linked = true ∧ p.unlinked ≠ .linker
  | closeStdin => p.runningLink = .running ∧ p.unlinked = .linker
  | complete _ _ => p.runningLink = .running ∧ (p.linked = true → p.unlinked = .linker)
  | awaitLinked late => late = true → p.link.exitedItself = true
  | select late => p.linked = true ∧ (late = true → p.link.exitedItself = true)
  | signal late => p.unlinked = .unlink t late ∧ p.signals = 0
  | returned status err => p.done = true ∧ p.exitStatus = status ∧ p.exitErr = err
  | lock | once | unlock | waitDone | ended => True

/-- What is known of the process always. -/
structure Process.Sound (p : Process) : Prop where
  unused : p.runningLink = .unused → p.runs = 0 ∧ p.linked = false ∧ p.link = .notStarted
  used : p.runningLink ≠ .unused → p.runs = 1
  running : p.runningLink ≠ .done → p.completions = [] ∧ p.done = false
  done : p.runningLink = .done → p.completions = [(p.exitStatus, p.exitErr)] ∧ p.done = true ∧
    (p.linked = true → p.unlinked = .linker)
  waiting : p.linked = false → p.unlinked = .channel
  signalled : p.signals = 0 ∨ p.signals = 1 ∧ ∃ t late, p.unlinked = .unlink t late
  late : ∀ t, p.unlinked = .unlink t true → p.link.exitedItself = true

structure Known (s : State) : Prop where
  sound : s.process.Sound
  fits : ∀ t pc, s.goroutines t = some pc → pc.Fits t s.process
  locked : ∀ t pc, s.goroutines t = some pc → pc.holds = true → s.process.waitingLinks = some t

theorem known_new : Known State.new := by
  refine ⟨⟨?_, ?_, ?_, ?_, ?_, ?_, ?_⟩, ?_, ?_⟩ <;> simp [State.new]

/-- The step of a goroutine, the others being where they were. -/
theorem Known.put {s : State} (h : Known s) {t : ℕ} {pc : Pc} {p : Process} (hsound : p.Sound)
    (hfits : pc.Fits t p)
    (hothers : ∀ j pc, j ≠ t → s.goroutines j = some pc → pc.Fits j p)
    (hlock : pc.holds = true → p.waitingLinks = some t)
    (hlocks : ∀ j, j ≠ t → s.process.waitingLinks = some j → p.waitingLinks = some j) :
    Known (s.put p t pc) := by
  refine ⟨hsound, ?_, ?_⟩
  · intro j pc' hj
    rcases Threads.set_cases hj with ⟨rfl, rfl⟩ | ⟨hne, hj⟩
    · exact hfits
    · exact hothers j pc' hne hj
  · intro j pc' hj hholds
    rcases Threads.set_cases hj with ⟨rfl, rfl⟩ | ⟨hne, hj⟩
    · exact hlock hholds
    · exact hlocks j hne (h.locked j pc' hj hholds)

/-- What a goroutine without the lock needs of a step. -/
theorem Pc.Fits.idle {t : ℕ} {p p' : Process} {pc : Pc} (h : pc.Fits t p) (hpc : pc.holds = false)
    (hlinked : p.linked = true → p'.linked = true) (hlink : p.link ≠ .notStarted → p'.link = p.link)
    (htoken : p.unlinked ≠ .channel → p'.unlinked = p.unlinked) (hsignals : p'.signals = p.signals)
    (hdone : p.done = true →
      p'.done = true ∧ p'.exitStatus = p.exitStatus ∧ p'.exitErr = p.exitErr) :
    pc.Fits t p' := by
  have hlate : ∀ {late}, (late = true → p.link.exitedItself = true) →
      late = true → p'.link.exitedItself = true := by
    intro late hl hlate
    rw [hlink, hl hlate]
    rintro hns
    have := hl hlate
    rw [hns] at this
    cases this
  cases pc with
  | awaitLinked late => exact hlate h
  | select late => exact ⟨hlinked h.1, hlate h.2⟩
  | signal late =>
    refine ⟨?_, hsignals.trans h.2⟩
    rw [htoken, h.1]
    rw [h.1]
    exact Token.noConfusion
  | returned status err =>
    obtain ⟨hd, hs, he⟩ := hdone h.1
    exact ⟨hd, hs.trans h.2.1, he.trans h.2.2⟩
  | lock | waitDone | ended => trivial
  | _ => cases hpc

/-- The process after the step of a goroutine. -/
theorem acts_sound {t : ℕ} {p p' : Process} {pc pc' : Pc} (h : Acts t p pc pc' p') (hp : p.Sound)
    (hfits : pc.Fits t p) : p'.Sound := by
  cases h with
  | lock | unlock => exact ⟨hp.1, hp.2, hp.3, hp.4, hp.5, hp.6, hp.7⟩
  | once hunused =>
    obtain ⟨hruns, hlinked, hlink⟩ := hp.unused hunused
    obtain ⟨hcompletions, hdone⟩ := hp.running (by simp [hunused])
    exact ⟨nofun, fun _ => by simp [hruns], fun _ => ⟨hcompletions, hdone⟩, nofun, hp.5, hp.6, hp.7⟩
  | start =>
    obtain ⟨hrunning, hlinked, hlink⟩ := hfits
    refine ⟨fun hunused => ?_, hp.2, hp.3, hp.4, hp.5, hp.6, fun j hj => ?_⟩
    · exact absurd (hrunning.symm.trans hunused) nofun
    · exact absurd ((hp.waiting hlinked).symm.trans hj) nofun
  | closeLinked =>
    refine ⟨fun hunused => ?_, hp.2, hp.3, fun hdone => ?_, nofun, hp.6, hp.7⟩
    · exact absurd (hfits.1.symm.trans hunused) nofun
    · exact absurd (hfits.1.symm.trans hdone) nofun
  | token hchannel =>
    refine ⟨hp.1, hp.2, hp.3, fun hdone => ?_, fun hopen => ?_, ?_, nofun⟩
    · exact absurd (hfits.1.symm.trans hdone) nofun
    · exact absurd (hfits.2.1.symm.trans hopen) nofun
    · exact hp.signalled.imp_right fun ⟨_, _, _, hj⟩ => absurd (hchannel.symm.trans hj) nofun
  | complete =>
    obtain ⟨hrunning, hlinker⟩ := hfits
    obtain ⟨hcompletions, hdone⟩ := hp.running (by simp [hrunning])
    have hruns : p.runs = 1 := hp.used (by simp [hrunning])
    simp only [Process.completed, hcompletions, hdone, List.nil_append]
    exact ⟨nofun, fun _ => hruns, fun h => absurd rfl h, fun _ => ⟨rfl, rfl, hlinker⟩, hp.waiting,
      hp.signalled, hp.late⟩
  | select hchannel =>
    obtain ⟨hlinked, hlate⟩ := hfits
    refine ⟨hp.1, hp.2, hp.3, fun hdone => ?_, fun hopen => ?_, ?_, ?_⟩
    · exact absurd (hchannel.symm.trans ((hp.done hdone).2.2 hlinked)) nofun
    · exact absurd (hlinked.symm.trans hopen) nofun
    · exact hp.signalled.imp_right fun ⟨_, _, _, hj⟩ => absurd (hchannel.symm.trans hj) nofun
    · rintro j ⟨⟩
      exact hlate rfl
  | signal =>
    obtain ⟨htoken, hzero⟩ := hfits
    exact ⟨hp.1, hp.2, hp.3, hp.4, hp.5, .inr ⟨by simp [hzero], _, _, htoken⟩, hp.7⟩
  | _ => exact hp

/-- Where the goroutine is after its step. -/
theorem acts_fits {t : ℕ} {p p' : Process} {pc pc' : Pc} (h : Acts t p pc pc' p') (hp : p.Sound)
    (hfits : pc.Fits t p) : pc'.Fits t p' := by
  cases h with
  | once hunused => exact ⟨rfl, (hp.unused hunused).2⟩
  | setup => exact hfits
  | start => exact ⟨hfits.1, hfits.2.1⟩
  | fail hpc =>
    have hlinked : p.runningLink = .running ∧ p.linked = false := by
      rcases hpc with rfl | rfl
      · exact ⟨hfits.1, hfits.2.1⟩
      · exact ⟨hfits.1, hfits.2.1⟩
    refine ⟨hlinked.1, fun hl => ?_⟩
    exact absurd (hlinked.2.symm.trans hl) nofun
  | closeLinked =>
    refine ⟨hfits.1, rfl, fun hlinker => ?_⟩
    exact absurd ((hp.waiting hfits.2).symm.trans hlinker) nofun
  | wait => exact hfits
  | token => exact ⟨hfits.1, rfl⟩
  | closeStdin => exact ⟨hfits.1, fun _ => hfits.2⟩
  | awaitLinked hlinked => exact ⟨hlinked, hfits⟩
  | select hchannel =>
    refine ⟨rfl, ?_⟩
    rcases hp.signalled with hzero | ⟨_, _, _, hj⟩
    · exact hzero
    · exact absurd (hchannel.symm.trans hj) nofun
  | waitDone hdone => exact ⟨hdone, rfl, rfl⟩
  | lock | skip | unlock | complete | exited | signal => trivial

/-- Where the other goroutines are after the step of `t`. -/
theorem acts_others {t j : ℕ} {p p' : Process} {pc pc' pc₁ : Pc} (h : Acts t p pc pc' p')
    (hp : p.Sound) (hfits : pc.Fits t p) (hne : j ≠ t) (hj : pc₁.Fits j p)
    (hidle : pc.holds = true → pc₁.holds = false) : pc₁.Fits j p' := by
  cases h with
  | lock => cases pc₁ <;> exact hj
  | once | unlock =>
    exact hj.idle (hidle rfl) id (fun _ => rfl) (fun _ => rfl) rfl fun hd => ⟨hd, rfl, rfl⟩
  | start =>
    exact hj.idle (hidle rfl) id (fun hl => absurd hfits.2.2 hl) (fun _ => rfl) rfl
      fun hd => ⟨hd, rfl, rfl⟩
  | closeLinked =>
    exact hj.idle (hidle rfl) (fun _ => rfl) (fun _ => rfl) (fun _ => rfl) rfl
      fun hd => ⟨hd, rfl, rfl⟩
  | token hchannel =>
    exact hj.idle (hidle rfl) id (fun _ => rfl) (fun hne => absurd hchannel hne) rfl
      fun hd => ⟨hd, rfl, rfl⟩
  | complete =>
    obtain ⟨-, hdone⟩ := hp.running (by simp [hfits.1])
    simp only [Process.completed, hdone]
    exact hj.idle (hidle rfl) id (fun _ => rfl) (fun _ => rfl) rfl
      fun hd => absurd (hdone.symm.trans hd) nofun
  | select hchannel =>
    -- the linker is not past its read of the channel
    cases pc₁ with
    | closeStdin => exact absurd (hchannel.symm.trans hj.2) nofun
    | complete => exact absurd (hchannel.symm.trans (hj.2 hfits.1)) nofun
    | signal => exact absurd (hchannel.symm.trans hj.1) nofun
    | wait | token => exact ⟨hj.1, hj.2.1, nofun⟩
    | _ => exact hj
  | signal =>
    cases pc₁ with
    | signal =>
      cases hfits.1.symm.trans hj.1
      exact absurd rfl hne
    | _ => exact hj
  | _ => exact hj

/-- Who has locked `waitingLinks` after the step of `t`. -/
theorem acts_locked {t : ℕ} {p p' : Process} {pc pc' : Pc} (h : Acts t p pc pc' p')
    (hpc : pc.holds = true → p.waitingLinks = some t) :
    (pc'.holds = true → p'.waitingLinks = some t) ∧
    ∀ j, j ≠ t → p.waitingLinks = some j → p'.waitingLinks = some j := by
  cases h with
  | lock hfree => exact ⟨fun _ => rfl, fun j _ hj => absurd (hfree.symm.trans hj) nofun⟩
  | unlock =>
    refine ⟨nofun, fun j hne hj => ?_⟩
    exact absurd (Option.some.inj (hj.symm.trans (hpc rfl))) hne
  | fail hstart =>
    have hholds : pc.holds = true := by rcases hstart with rfl | rfl <;> rfl
    exact ⟨fun _ => hpc hholds, fun _ _ hj => hj⟩
  | complete =>
    refine ⟨fun _ => ?_, fun j _ hj => ?_⟩
    · exact (completed_waitingLinks ..).trans (hpc rfl)
    · exact (completed_waitingLinks ..).trans hj
  | once | skip | setup | start | closeLinked | wait | token | closeStdin =>
    exact ⟨fun _ => hpc rfl, fun _ _ hj => hj⟩
  | awaitLinked | select | exited | signal | waitDone => exact ⟨nofun, fun _ _ hj => hj⟩

theorem known_step {s s' : State} {l : Label} (hk : Known s) (h : Step s l s') : Known s' := by
  cases moves_of_step h with
  | @call t c ht =>
    refine hk.put hk.sound ?_ (fun j pc _ hj => hk.fits j pc hj) ?_ (fun _ _ hj => hj)
    · cases c with
      | unlink => exact id
      | link | wait => trivial
    · cases c <;> exact nofun
  | exit hlink =>
    have hnot : s.process.link.exitedItself = false := by rw [hlink]; rfl
    have hp := hk.sound
    refine ⟨⟨fun hunused => ?_, hp.2, hp.3, hp.4, hp.5, hp.6, fun t ht => ?_⟩, fun t pc ht => ?_,
      hk.locked⟩
    · exact absurd (hlink.symm.trans (hp.unused hunused).2.2) nofun
    · exact absurd (hnot.symm.trans (hp.late t ht)) nofun
    · have hfits := hk.fits t pc ht
      cases pc with
      | setup | start => exact absurd (hlink.symm.trans hfits.2.2) nofun
      | awaitLinked late => exact fun hlate => absurd (hnot.symm.trans (hfits hlate)) nofun
      | select late =>
        exact ⟨hfits.1, fun hlate => absurd (hnot.symm.trans (hfits.2 hlate)) nofun⟩
      | _ => exact hfits
  | @go t err pc pc' p ht hnext =>
    have hacts := acts_of_next hnext
    have hfits := hk.fits t pc ht
    obtain ⟨hlock, hlocks⟩ := acts_locked hacts (hk.locked t pc ht)
    refine hk.put (acts_sound hacts hk.sound hfits) (acts_fits hacts hk.sound hfits) ?_ hlock hlocks
    intro j pc₁ hne hj
    refine acts_others hacts hk.sound hfits hne (hk.fits j pc₁ hj) fun hpc => ?_
    -- two goroutines cannot both have the lock
    cases hpc₁ : pc₁.holds with
    | false => rfl
    | true =>
      have hboth := (hk.locked j pc₁ hj hpc₁).symm.trans (hk.locked t pc ht hpc)
      exact absurd (Option.some.inj hboth) hne

theorem known_run {s : State} {ls : List Label} (h : Run Step State.new ls s) : Known s :=
  h.invariant known_new fun _ _ _ => known_step

theorem known_leads {s s' : State} (hk : Known s) (h : Leads Step s s') : Known s' := by
  obtain ⟨ls, h⟩ := h
  exact h.invariant hk fun _ _ _ => known_step

/-! ## One side gets the value -/

/-- While an `Unlink` has the value, the process is not done. -/
theorem Process.Sound.unlink {p : Process} (hp : p.Sound) {t : ℕ} {late : Bool}
    (h : p.unlinked = .unlink t late) : p.completions = [] ∧ p.done = false := by
  refine hp.running fun hdone => ?_
  cases hl : p.linked with
  | false => exact absurd ((hp.waiting hl).symm.trans h) nofun
  | true => exact absurd (((hp.done hdone).2.2 hl).symm.trans h) nofun

theorem Process.Sound.linker {p : Process} (hp : p.Sound) (h : p.unlinked = .linker) :
    p.signals = 0 := by
  rcases hp.signalled with hzero | ⟨_, _, _, hj⟩
  · exact hzero
  · exact absurd (h.symm.trans hj) nofun

theorem Process.Sound.runs_le {p : Process} (hp : p.Sound) : p.runs ≤ 1 := by
  cases h : p.runningLink with
  | unused => exact Nat.le_of_lt (Nat.lt_one_iff.2 (hp.unused h).1)
  | running => exact Nat.le_of_eq (hp.used (by simp [h]))
  | done => exact Nat.le_of_eq (hp.used (by simp [h]))

/-- **`Unlink` and completion exclude each other.** -/
theorem unlink_excludes_completion {s : State} {ls : List Label} (h : Run Step State.new ls s) :
    s.process.signals ≤ 1 ∧ s.process.runs ≤ 1 ∧
    (∀ t late, s.process.unlinked = .unlink t late → ∀ s', Leads Step s s' →
      s'.process.completions = [] ∧ ∀ j status err, s'.goroutines j ≠ some (.returned status err)) ∧
    (s.process.unlinked = .linker → ∀ s', Leads Step s s' →
      s'.process.signals = s.process.signals) ∧
    ∀ i j status status' err err', s.goroutines i = some (.returned status err) →
      s.goroutines j = some (.returned status' err') → status = status' ∧ err = err' := by
  have hk := known_run h
  refine ⟨?_, hk.sound.runs_le, ?_, ?_, ?_⟩
  · rcases hk.sound.signalled with hzero | ⟨hone, -⟩ <;> omega
  · intro t late ht s' hs'
    have hk' := known_leads hk hs'
    have htoken : s'.process.unlinked = .unlink t late := by
      rw [leads_token hs' (by simp [ht]), ht]
    obtain ⟨hcompletions, hdone⟩ := hk'.sound.unlink htoken
    refine ⟨hcompletions, fun j status err hj => ?_⟩
    exact absurd (hdone.symm.trans (hk'.fits j _ hj).1) nofun
  · intro ht s' hs'
    have htoken : s'.process.unlinked = .linker := by rw [leads_token hs' (by simp [ht]), ht]
    rw [hk.sound.linker ht, (known_leads hk hs').sound.linker htoken]
  · intro i j status status' err err' hi hj
    obtain ⟨-, hs, he⟩ := hk.fits i _ hi
    obtain ⟨-, hs', he'⟩ := hk.fits j _ hj
    exact ⟨hs.symm.trans hs', he.symm.trans he'⟩

/-- Two `Link`s, two `Unlink`s and a `Wait`: the second `Unlink` sends no signal. -/
theorem unlink_excludes_completion_two : ∃ s, Run Step State.new [.call 0 .link, .go 0 none,
    .go 0 none, .go 0 none, .go 0 none, .go 0 none, .call 1 .link, .call 2 .unlink, .call 3 .unlink,
    .call 4 .wait, .go 2 none, .go 2 none, .go 3 none, .go 3 none, .go 2 none, .exit none] s ∧
    s.process.unlinked = .unlink 2 false ∧ s.goroutines 3 = some .ended ∧
    s.process.signals = 1 ∧
    ∀ s', Leads Step s s' → s'.process.completions = [] := by
  obtain ⟨s, hrun, htoken, hthird, hsignals⟩ : ∃ s, Run Step State.new [.call 0 .link, .go 0 none,
      .go 0 none, .go 0 none, .go 0 none, .go 0 none, .call 1 .link, .call 2 .unlink,
      .call 3 .unlink, .call 4 .wait, .go 2 none, .go 2 none, .go 3 none, .go 3 none, .go 2 none,
      .exit none] s ∧ s.process.unlinked = .unlink 2 false ∧ s.goroutines 3 = some .ended ∧
      s.process.signals = 1 := exists_run (by decide +kernel)
  obtain ⟨-, -, hexcludes, -⟩ := unlink_excludes_completion hrun
  exact ⟨s, hrun, htoken, hthird, hsignals, fun s' hs' => (hexcludes 2 false htoken s' hs').1⟩

/-! ## The exit of the link -/

/-- What a linker knows of the command. -/
def Pc.Links (p : Process) : Pc → Prop
  | closeLinked | wait => True
  | token | closeStdin => p.link ≠ .running
  | complete status err => p.link ≠ .running ∧ p.link.outcome = (status, err)
  | _ => False

/-- A command that was started has a linker, or its exit was reported. -/
inductive Followed (s : State) : Prop
  | notStarted : s.process.link = .notStarted → Followed s
  | linker {t : ℕ} {pc : Pc} : s.goroutines t = some pc → pc.Links s.process → Followed s
  | done : s.process.runningLink = .done → s.process.link ≠ .running →
      s.process.link.outcome = (s.process.exitStatus, s.process.exitErr) → Followed s

/-- The only step that changes the command starts it. -/
theorem acts_link {t : ℕ} {p p' : Process} {pc pc' : Pc} (h : Acts t p pc pc' p') :
    pc' = .closeLinked ∨ p'.link = p.link := by
  cases h with
  | start => exact .inl rfl
  | complete => exact .inr (completed_link ..)
  | _ => exact .inr rfl

/-- What is reported stays. -/
theorem acts_done {t : ℕ} {p p' : Process} {pc pc' : Pc} (h : Acts t p pc pc' p')
    (hfits : pc.Fits t p) (hdone : p.runningLink = .done) :
    p'.runningLink = .done ∧ p'.exitStatus = p.exitStatus ∧ p'.exitErr = p.exitErr := by
  cases h with
  | once hunused => exact absurd (hunused.symm.trans hdone) nofun
  | complete => exact absurd (hfits.1.symm.trans hdone) nofun
  | _ => exact ⟨hdone, rfl, rfl⟩

theorem Pc.Links.congr {p p' : Process} {pc : Pc} (h : pc.Links p) (hlink : p'.link = p.link) :
    pc.Links p' := by
  cases pc with
  | closeLinked | wait => trivial
  | token | closeStdin => rwa [Links, hlink]
  | complete => rwa [Links, hlink]
  | _ => cases h

theorem acts_links {s : State} {t : ℕ} {p : Process} {pc pc' : Pc} (hk : Known s)
    (ht : s.goroutines t = some pc) (h : Acts t s.process pc pc' p) (hlinks : pc.Links s.process) :
    Followed (s.put p t pc') := by
  have hself : (s.put p t pc').goroutines t = some pc' := Threads.set_self
  cases h with
  | closeLinked => exact .linker hself trivial
  | wait hexited =>
    refine .linker hself ?_
    show s.process.link ≠ .running
    rw [hexited]
    exact nofun
  | token => exact .linker hself hlinks
  | closeStdin => exact .linker hself ⟨hlinks, rfl⟩
  | complete =>
    have hrunning := (hk.fits t _ ht).1
    obtain ⟨-, hdone⟩ := hk.sound.running (by simp [hrunning])
    refine .done rfl ?_ ?_
    · exact (completed_link ..).trans_ne hlinks.1
    · show (s.process.completed _ _).link.outcome = _
      rw [completed_link, hlinks.2]
      simp [State.put, Process.completed, hdone]
  | fail hpc => rcases hpc with rfl | rfl <;> cases hlinks
  | _ => cases hlinks

theorem followed_step {s s' : State} {l : Label} (hk : Known s) (hf : Followed s)
    (h : Step s l s') : Followed s' := by
  cases moves_of_step h with
  | @call t c ht =>
    cases hf with
    | notStarted hns => exact .notStarted hns
    | @linker j pc hj hlinks =>
      have hne : j ≠ t := by
        rintro rfl
        exact absurd (ht.symm.trans hj) nofun
      exact .linker ((Threads.set_of_ne hne).trans hj) hlinks
    | done hdone hrun hout => exact .done hdone hrun hout
  | exit hlink =>
    cases hf with
    | notStarted hns => exact absurd (hlink.symm.trans hns) nofun
    | @linker j pc hj hlinks =>
      cases pc with
      | closeLinked | wait => exact .linker hj trivial
      | token | closeStdin => exact absurd hlink hlinks
      | complete => exact absurd hlink hlinks.1
      | _ => cases hlinks
    | done _ hrun _ => exact absurd hlink hrun
  | @go t err pc pc' p ht hnext =>
    have hacts := acts_of_next hnext
    rcases acts_link hacts with rfl | hlink
    · exact .linker Threads.set_self trivial
    · cases hf with
      | notStarted hns => exact .notStarted (hlink.trans hns)
      | @linker j pc₁ hj hlinks =>
        rcases eq_or_ne j t with rfl | hne
        · cases ht.symm.trans hj
          exact acts_links hk ht hacts hlinks
        · exact .linker ((Threads.set_of_ne hne).trans hj) (hlinks.congr hlink)
      | done hdone hrun hout =>
        obtain ⟨hdone', hstatus, herr⟩ := acts_done hacts (hk.fits t pc ht) hdone
        refine .done hdone' (hlink.trans_ne hrun) ?_
        show p.link.outcome = (p.exitStatus, p.exitErr)
        rw [hlink, hout, hstatus, herr]

theorem known_followed_step {s s' : State} {l : Label} (h : Known s ∧ Followed s)
    (hs : Step s l s') : Known s' ∧ Followed s' :=
  ⟨known_step h.1 hs, followed_step h.1 h.2 hs⟩

/-- Some run ends with the exit of the command reported. -/
def Reported (s : State) : Prop :=
  ∃ s', Leads Step s s' ∧ s'.process.done = true ∧
    (s'.process.exitStatus, s'.process.exitErr) = s.process.link.outcome

theorem step_go {s : State} {t : ℕ} {pc pc' : Pc} {p : Process} (ht : s.goroutines t = some pc)
    (h : pc.next t none s.process = some (pc', p)) : Step s (.go t none) (s.put p t pc') := by
  simp [Step, State.step, ht, h]

theorem Reported.of_step {s s' : State} {l : Label} (h : Step s l s')
    (hlink : s'.process.link = s.process.link) (hr : Reported s') : Reported s := by
  obtain ⟨s'', hleads, hdone, hout⟩ := hr
  exact ⟨s'', hleads.head h, hdone, hout.trans (by rw [hlink])⟩

section
variable {s : State} {t : ℕ} (hk : Known s)
include hk

theorem reported_complete {status : ℤ} {err : Option String}
    (ht : s.goroutines t = some (.complete status err))
    (hout : s.process.link.outcome = (status, err)) : Reported s := by
  obtain ⟨-, hdone⟩ := hk.sound.running (by simp [(hk.fits t _ ht).1])
  refine ⟨_, .single (step_go ht rfl), ?_⟩
  simp [State.put, Process.completed, hdone, hout]

theorem reported_closeStdin (ht : s.goroutines t = some .closeStdin) : Reported s := by
  have hstep := step_go ht rfl
  exact (reported_complete (known_step hk hstep) Threads.set_self rfl).of_step hstep rfl

variable (htoken : ∀ j late, s.process.unlinked ≠ .unlink j late)
include htoken

theorem reported_token (ht : s.goroutines t = some .token) : Reported s := by
  have hchannel : s.process.unlinked = .channel := by
    cases h : s.process.unlinked with
    | channel => rfl
    | linker => exact absurd h (hk.fits t _ ht).2.2
    | unlink j late => exact absurd h (htoken j late)
  have hstep := step_go ht (if_pos hchannel)
  exact (reported_closeStdin (known_step hk hstep) Threads.set_self).of_step hstep rfl

theorem reported_wait (ht : s.goroutines t = some .wait)
    (hlink : s.process.link.exitedItself = true) : Reported s := by
  have hstep : Step s (.go t none) (s.put s.process t .token) := by
    refine step_go ht ?_
    cases h : s.process.link with
    | exited status itself => simp [Pc.next, h]
    | notStarted | running => rw [h] at hlink; cases hlink
  exact (reported_token (known_step hk hstep) htoken Threads.set_self).of_step hstep rfl

theorem reported_closeLinked (ht : s.goroutines t = some .closeLinked)
    (hlink : s.process.link.exitedItself = true) : Reported s := by
  have hstep := step_go ht rfl
  exact (reported_wait (known_step hk hstep) htoken Threads.set_self hlink).of_step hstep rfl

/-- The exit of the link can be reported as long as no `Unlink` has the value. -/
theorem Followed.reported (hf : Followed s) (hlink : s.process.link.exitedItself = true) :
    Reported s := by
  cases hf with
  | notStarted hns => rw [hns] at hlink; cases hlink
  | @linker j pc hj hlinks =>
    cases pc with
    | closeLinked => exact reported_closeLinked hk htoken hj hlink
    | wait => exact reported_wait hk htoken hj hlink
    | token => exact reported_token hk htoken hj
    | closeStdin => exact reported_closeStdin hk hj
    | complete => exact reported_complete hk hj hlinks.2
    | _ => cases hlinks
  | done hdone _ hout => exact ⟨s, .refl s, (hk.sound.done hdone).2.1, hout.symm⟩

end

/-- The command has exited by itself, no `Unlink` that started before has the
    value, and yet the exit is never reported. -/
def Swallowed (s : State) : Prop :=
  s.process.link.exitedItself = true ∧ (∀ t, s.process.unlinked ≠ .unlink t false) ∧ ¬ Reported s

theorem swallowed_iff {s : State} (hk : Known s) (hf : Followed s) :
    Swallowed s ↔ ∃ t, s.process.unlinked = .unlink t true := by
  constructor
  · rintro ⟨hlink, hearly, hnot⟩
    by_contra hlate
    refine hnot (hf.reported hk (fun t late ht => ?_) hlink)
    cases late with
    | false => exact hearly t ht
    | true => exact hlate ⟨t, ht⟩
  · rintro ⟨t, ht⟩
    refine ⟨hk.sound.late t ht, by simp [ht], ?_⟩
    rintro ⟨s', hs', hdone, -⟩
    have htoken : s'.process.unlinked = .unlink t true := by
      rw [leads_token hs' (by simp [ht]), ht]
    exact absurd (((known_leads hk hs').sound.unlink htoken).2.symm.trans hdone) nofun

/-- An `Unlink` that started after the exit of the link does not find the value in
    the channel. -/
def Timely (s : State) : Label → Prop
  | .go t _ => s.goroutines t = some (.select true) → s.process.unlinked ≠ .channel
  | _ => True

instance : ∀ s l, Decidable (Timely s l)
  | _, .go _ _ => inferInstanceAs (Decidable (_ → _))
  | _, .call _ _ => inferInstanceAs (Decidable True)
  | _, .exit _ => inferInstanceAs (Decidable True)

theorem acts_late {t : ℕ} {p p' : Process} {pc pc' : Pc} (h : Acts t p pc pc' p')
    (hchannel : p.unlinked = .channel) :
    (∃ j, p'.unlinked = .unlink j true) ↔ pc = .select true := by
  cases h with
  | @select late => cases late <;> simp
  | exited hne => exact absurd hchannel hne
  | fail hpc => rcases hpc with rfl | rfl <;> simp [hchannel]
  | _ => simp [hchannel]

theorem step_late {s s' : State} {l : Label} (h : Step s l s') :
    (∃ t, s'.process.unlinked = .unlink t true) ↔
      (∃ t, s.process.unlinked = .unlink t true) ∨ ¬ Timely s l := by
  by_cases hchannel : s.process.unlinked = .channel
  · cases moves_of_step h with
    | call => simp [State.put, hchannel, Timely]
    | exit => simp [hchannel, Timely]
    | go ht hnext =>
      show (∃ t, _) ↔ _
      simp only [State.put, acts_late (acts_of_next hnext) hchannel]
      simp [Timely, hchannel, ht]
  · rw [step_token h hchannel]
    have htimely : Timely s l := by
      cases l with
      | go => exact fun _ => hchannel
      | call | exit => trivial
    simp [htimely]

/-- **The exit of a link is kept** iff every `Unlink` that started after it comes
    too late for the value. -/
theorem natural_exit_kept_iff {s : State} {ls : List Label} (h : Run Step State.new ls s) :
    ¬ Swallowed s ↔ Run (guarded Timely Step) State.new ls s := by
  refine h.guarded_iff (I := fun s => Known s ∧ Followed s) (P := fun s => ¬ Swallowed s)
    ⟨known_new, .notStarted rfl⟩ (fun hsw => nomatch hsw.1)
    (fun _ _ _ => known_followed_step) ?_
  intro s l s' hi hs
  obtain ⟨hk', hf'⟩ := known_followed_step hi hs
  rw [swallowed_iff hi.1 hi.2, swallowed_iff hk' hf', step_late hs, not_or, Classical.not_not]

/-- The linker reads the channel before the `Unlink` does. -/
theorem natural_exit_kept_linker : ∃ s, Run Step State.new [.call 0 .link, .go 0 none, .go 0 none,
    .go 0 none, .go 0 none, .go 0 none, .exit (some 3), .call 1 .unlink, .go 1 none, .go 0 none,
    .go 0 none, .go 1 none, .go 0 none, .go 0 none] s ∧ s.process.exitStatus = 3 ∧
    s.process.done = true ∧ ¬ Swallowed s := by
  obtain ⟨s, hrun, hstatus, hdone⟩ : ∃ s, Run (guarded Timely Step) State.new [.call 0 .link,
      .go 0 none, .go 0 none, .go 0 none, .go 0 none, .go 0 none, .exit (some 3), .call 1 .unlink,
      .go 1 none, .go 0 none, .go 0 none, .go 1 none, .go 0 none, .go 0 none] s ∧
      s.process.exitStatus = 3 ∧ s.process.done = true := exists_guarded_run (by decide +kernel)
  have hplain := hrun.mono fun _ _ _ hs => hs.2
  exact ⟨s, hplain, hstatus, hdone, (natural_exit_kept_iff hplain).2 hrun⟩

/-- A linker waits as long as an `Unlink` has the value. -/
theorem token_leads {s s' : State} (h : Leads Step s s') {t j : ℕ} {late : Bool}
    (htoken : s.process.unlinked = .unlink j late) (ht : s.goroutines t = some .token) :
    s'.goroutines t = some .token := by
  obtain ⟨ls, h⟩ := h
  refine (h.invariant (I := fun s => s.process.unlinked = .unlink j late ∧
    s.goroutines t = some .token) ⟨htoken, ht⟩ ?_).2
  rintro s l s' ⟨htoken, ht⟩ hs
  refine ⟨(step_token hs (by simp [htoken])).trans htoken, ?_⟩
  have hput : ∀ p i pc, i ≠ t → (s.put p i pc).goroutines t = some .token :=
    fun p i pc hi => (Threads.set_of_ne hi.symm).trans ht
  cases moves_of_step hs with
  | call hi =>
    refine hput _ _ _ ?_
    rintro rfl
    exact absurd (hi.symm.trans ht) nofun
  | exit => exact ht
  | go hi hnext =>
    refine hput _ _ _ ?_
    rintro rfl
    cases hi.symm.trans ht
    cases acts_of_next hnext with
    | token hchannel => exact absurd (hchannel.symm.trans htoken) nofun
    | fail hpc => rcases hpc with hpc | hpc <;> cases hpc

/-- **An `Unlink` after the exit of the link** takes the value before the linker
    does, and the linker waits for ever. -/
theorem natural_exit_swallowed : ∃ s, Run Step State.new [.call 0 .link, .go 0 none, .go 0 none,
    .go 0 none, .go 0 none, .go 0 none, .exit (some 3), .call 1 .unlink, .go 1 none, .go 0 none,
    .go 1 none] s ∧ Swallowed s ∧
    ∀ s', Leads Step s s' → s'.goroutines 0 = some .token := by
  obtain ⟨s, hrun, htoken, hlinker⟩ : ∃ s, Run Step State.new [.call 0 .link, .go 0 none,
      .go 0 none, .go 0 none, .go 0 none, .go 0 none, .exit (some 3), .call 1 .unlink, .go 1 none,
      .go 0 none, .go 1 none] s ∧ s.process.unlinked = .unlink 1 true ∧
      s.goroutines 0 = some .token := exists_run (by decide +kernel)
  refine ⟨s, hrun, ?_, fun s' hs' => token_leads hs' htoken hlinker⟩
  obtain ⟨hk, hf⟩ := hrun.invariant (I := fun s => Known s ∧ Followed s)
    ⟨known_new, .notStarted rfl⟩ fun _ _ _ => known_followed_step
  exact (swallowed_iff hk hf).2 ⟨1, htoken⟩

end LinkToken

end WardenLinux
