/-
  The memory limit of a container (linux_container.go, `LimitMemory` and
  `startOomNotifier`): who watches it, and what the kernel makes of its writes.

  * `memory_watched_iff`: a `LimitMemory` that succeeds leaves a notifier that was
    started and is watched, iff no start of the notifier has failed before.  A
    notifier is recorded before it is started, and a recorded one is not started
    again.
  * `memory_limits_set`: by the rules of the kernel each `LimitMemory` sets both
    limits, whatever they were.
-/
import WardenLinux.Container
import WardenLinux.Lib.Decimal
import WardenLinux.Lib.Transition

namespace WardenLinux

open Fallible Transition

namespace LinuxContainer

/-- `LimitMemory` after the start of the notifier. -/
def setMemoryLimits (o : Oracle) (limits : MemoryLimits) : EStateM Err Cell Unit := do
  let s ← get
  let set (name : String) : EStateM Err Cell Unit := zoom Cell.calls
    (call o (.cgroupsSet s.container.id "memory" name (toString limits.limitInBytes.toNat)))
  attempt (set "memory.limit_in_bytes")
  attempt (set "memory.memsw.limit_in_bytes")
  set "memory.limit_in_bytes"
  update fun c => { c with currentMemoryLimits := some limits }

theorem limitMemory_eq (cfg : Config) (o : Oracle) (limits : MemoryLimits) :
    limitMemory cfg o limits = (do startOomNotifier cfg o; setMemoryLimits o limits) := rfl

/-- The log of a call of `setMemoryLimits`. -/
theorem wp_setMemoryLimits {o : Oracle} {Q : Unit → Cell → Prop} {E : Err → Cell → Prop} {s : Cell}
    {limits : MemoryLimits} {w : String → Call} (hw : w = fun name =>
      .cgroupsSet s.container.id "memory" name (toString limits.limitInBytes.toNat))
    (hQ : ∀ r, o (s.log ++ [w "memory.limit_in_bytes"] ++ [w "memory.memsw.limit_in_bytes"])
        (w "memory.limit_in_bytes") = .ok r →
      Q () { s with
        container := { s.container with currentMemoryLimits := some limits }
        log := s.log ++ [w "memory.limit_in_bytes"] ++ [w "memory.memsw.limit_in_bytes"] ++
          [w "memory.limit_in_bytes"] })
    (hE : ∀ e, o (s.log ++ [w "memory.limit_in_bytes"] ++ [w "memory.memsw.limit_in_bytes"])
        (w "memory.limit_in_bytes") = .error e →
      E e { s with log := s.log ++ [w "memory.limit_in_bytes"] ++
        [w "memory.memsw.limit_in_bytes"] ++ [w "memory.limit_in_bytes"] }) :
    wp (setMemoryLimits o limits) Q E s := by
  subst hw
  simp only [setMemoryLimits, update, wp_bind, wp_get, wp_attempt, wp_zoom, wp_call, wp_modify]
  -- the first two writes only lengthen the log
  refine ⟨fun _ _ => ⟨fun _ _ => ?_, fun _ _ => ?_⟩, fun _ _ => ⟨fun _ _ => ?_, fun _ _ => ?_⟩⟩
  all_goals exact ⟨hQ, hE⟩

/-- The command of the notifier. -/
def oomCmd (cfg : Config) (c : LinuxContainer) : Cmd where
  path := pathJoin [c.path, "bin", "oom"]
  args := [subsystemPath cfg c "memory"]

section
variable {cfg : Config} {o : Oracle} {Q : Unit → Cell → Prop} {E : Err → Cell → Prop} {s : Cell}

/-- A notifier that is recorded is not started again. -/
theorem wp_startOomNotifier_recorded {oom : Cmd} (h : s.container.oomNotifier = some oom)
    (hQ : Q () s) : wp (startOomNotifier cfg o) Q E s := by
  simp only [startOomNotifier, wp_bind, wp_get, h, wp_pure]
  exact hQ

theorem wp_startOomNotifier_fresh (h : s.container.oomNotifier = none)
    {s' : Cell} (hs' : s' = { s with
      container := { s.container with oomNotifier := some (oomCmd cfg s.container) }
      log := s.log ++ [.start (oomCmd cfg s.container)] })
    (hQ : ∀ r, o s.log (.start (oomCmd cfg s.container)) = .ok r → Q () s')
    (hE : ∀ e, o s.log (.start (oomCmd cfg s.container)) = .error e → E e s') :
    wp (startOomNotifier cfg o) Q E s := by
  subst hs'
  simp only [startOomNotifier, wp_bind, wp_get, h, update, wp_modify, wp_zoom, wp_call]
  exact ⟨hQ, hE⟩

end

/-! ## Who watches -/

/-- A container, with the notifiers for which a `watchForOom` goroutine was
    started. -/
structure Watched where
  cell : Cell
  watching : List Cmd

namespace Watched

def inner : Part Watched Cell := ⟨Watched.cell, fun c s => { s with cell := c }⟩

section
variable (cfg : Config) (o : Oracle)

/-- `startOomNotifier` -/
def startOomNotifier : EStateM Err Watched Unit := do
  let s ← get
  zoom inner (LinuxContainer.startOomNotifier cfg o)
  match s.cell.container.oomNotifier with
  | some _ => pure ()
  | none =>
    -- `go c.watchForOom(c.oomNotifier)`
    modify fun s => { s with watching := s.watching ++ s.cell.container.oomNotifier.toList }

/-- `LimitMemory` -/
def limitMemory (limits : MemoryLimits) : EStateM Err Watched Unit := do
  startOomNotifier cfg o
  zoom inner (setMemoryLimits o limits)

/-- The `LimitMemory` of `Restore`. -/
def restoreLimits (limits : LimitsSnapshot) : EStateM Err Watched Unit :=
  match limits.memory with
  | none => pure ()
  | some memory => limitMemory cfg o memory

end

/-- The goroutines do not change what `LimitMemory` does to the container. -/
theorem limitMemory_cell (cfg : Config) (o : Oracle) (limits : MemoryLimits) (s : Watched)
    {Q : Unit → Cell → Prop} {E : Err → Cell → Prop} :
    wp (limitMemory cfg o limits) (fun u s' => Q u s'.cell) (fun e s' => E e s'.cell) s ↔
      wp (LinuxContainer.limitMemory cfg o limits) Q E s.cell := by
  rw [limitMemory, startOomNotifier, LinuxContainer.limitMemory_eq]
  simp only [wp_bind, wp_get, wp_zoom]
  cases s.cell.container.oomNotifier with
  | some oom => rfl
  | none => rfl

/-! ## Runs -/

inductive Label where
  | limitMemory (limits : MemoryLimits)
  | restoreLimits (limits : LimitsSnapshot)
  deriving DecidableEq, Repr

def perform (cfg : Config) (o : Oracle) : Label → EStateM Err Watched Unit
  | .limitMemory limits => limitMemory cfg o limits
  | .restoreLimits limits => restoreLimits cfg o limits

/-- A call, whether it fails or not. -/
def Step (cfg : Config) (o : Oracle) (s : Watched) (l : Label) (s' : Watched) : Prop :=
  s' = final (perform cfg o l s)

/-- A container that was just made; the calls are counted from then on. -/
def new (id handle path : String) (properties : Properties) (graceTime : ℤ) (resources : Resources)
    (portPool : PortPool) : Watched where
  cell := ⟨.new id handle path properties graceTime resources, portPool, []⟩
  watching := []

/-- Some call of the log was one of `P`, with its answer. -/
def Happened (o : Oracle) (P : Call → Except Err Answer → Prop) (log : List Call) : Prop :=
  ∃ before c, before ++ [c] <+: log ∧ P c (o before c)

/-- A start of a notifier has failed. -/
def StartFailed (o : Oracle) : List Call → Prop :=
  Happened o fun c r => ∃ oom e, c = .start oom ∧ r = .error e

/-- A notifier was started and is watched. -/
def Watches (o : Oracle) (s : Watched) : Prop :=
  ∃ oom ∈ s.watching, Happened o (fun c r => c = .start oom ∧ ∃ a, r = .ok a) s.cell.log

variable {cfg : Config} {o : Oracle} {s s' : Watched} {log : List Call}

theorem happened_nil {P : Call → Except Err Answer → Prop} : ¬ Happened o P [] := by
  rintro ⟨before, c, h, -⟩
  simp at h

theorem happened_concat {P : Call → Except Err Answer → Prop} {c : Call} :
    Happened o P (log ++ [c]) ↔ Happened o P log ∨ P c (o log c) := by
  constructor
  · rintro ⟨before, c', h, hP⟩
    rcases List.prefix_concat_iff.1 h with h | h
    · obtain ⟨rfl, hc⟩ := List.append_inj' h rfl
      cases hc
      exact Or.inr hP
    · exact Or.inl ⟨before, c', h, hP⟩
  · rintro (⟨before, c', h, hP⟩ | hP)
    · exact ⟨before, c', h.trans (List.prefix_append log [c]), hP⟩
    · exact ⟨log, c, List.prefix_refl _, hP⟩

/-- Calls that are none of `P` change nothing. -/
theorem happened_append {P : Call → Except Err Answer → Prop} {l : List Call}
    (hl : ∀ c ∈ l, ∀ r, ¬ P c r) : Happened o P (log ++ l) ↔ Happened o P log := by
  induction l using List.reverseRecOn with
  | nil => rw [List.append_nil]
  | append_singleton l c ih =>
    rw [← List.append_assoc, happened_concat, ih fun c' hc' => hl c' (List.mem_append_left _ hc')]
    have hc : ¬ P c (o (log ++ l) c) := hl c (List.mem_append_right _ List.mem_cons_self) _
    exact or_iff_left hc

/-- What is known of the notifier between the calls. -/
structure Known (o : Oracle) (s : Watched) : Prop where
  fresh : s.cell.container.oomNotifier = none → s.watching = [] ∧ ¬ StartFailed o s.cell.log
  recorded : s.cell.container.oomNotifier ≠ none → (Watches o s ↔ ¬ StartFailed o s.cell.log)

theorem wp_startOomNotifier (hs : Known o s) : wp (startOomNotifier cfg o)
    (fun _ s' => Known o s' ∧ s'.cell.container.oomNotifier ≠ none ∧
      (StartFailed o s'.cell.log ↔ StartFailed o s.cell.log))
    (fun _ s' => Known o s') s := by
  rw [startOomNotifier, wp_bind, wp_get, wp_bind, wp_zoom]
  cases hc : s.cell.container.oomNotifier with
  | some oom =>
    refine wp_startOomNotifier_recorded hc ?_
    show Known o s ∧ s.cell.container.oomNotifier ≠ none ∧ _
    rw [hc]
    exact ⟨hs, nofun, Iff.rfl⟩
  | none =>
    obtain ⟨hw, hf⟩ := hs.fresh hc
    refine wp_startOomNotifier_fresh hc rfl (fun r hr => ?_) fun e he => ?_
    · -- the notifier runs, and is watched
      rw [wp_modify]
      have hf' : ¬ StartFailed o (s.cell.log ++ [.start (oomCmd cfg s.cell.container)]) := by
        rw [StartFailed, happened_concat]
        rintro (h | ⟨oom, e, -, he⟩)
        · exact hf h
        · exact nomatch hr.symm.trans he
      refine ⟨⟨nofun, fun _ => iff_of_true ?_ hf'⟩, nofun, iff_of_false hf' hf⟩
      refine ⟨oomCmd cfg s.cell.container, ?_, happened_concat.2 (Or.inr ⟨rfl, r, hr⟩)⟩
      exact List.mem_append_right _ List.mem_cons_self
    · -- it is recorded, and nobody watches
      refine ⟨nofun, fun _ => iff_of_false ?_ (not_not.2 ?_)⟩
      · rintro ⟨oom, hoom, -⟩
        have hoom' : oom ∈ s.watching := hoom
        rw [hw] at hoom'
        cases hoom'
      · exact happened_concat.2 (Or.inr ⟨_, e, rfl, he⟩)

/-- No call of the list starts a notifier. -/
def NoStart (l : List Call) : Prop := ∀ c ∈ l, ∀ oom, c ≠ .start oom

theorem startFailed_append {l : List Call} (hl : NoStart l) :
    StartFailed o (log ++ l) ↔ StartFailed o log :=
  happened_append fun c hc _ ⟨oom, _, he, _⟩ => hl c hc oom he

theorem watches_append {l : List Call} (hl : NoStart l) (hlog : s'.cell.log = s.cell.log ++ l)
    (hw : s'.watching = s.watching) : Watches o s' ↔ Watches o s := by
  unfold Watches
  rw [hw, hlog]
  exact exists_congr fun oom => and_congr_right fun _ =>
    happened_append fun c hc _ ⟨he, _⟩ => hl c hc oom he

theorem Known.append {l : List Call} (hs : Known o s) (hl : NoStart l)
    (hlog : s'.cell.log = s.cell.log ++ l) (hw : s'.watching = s.watching)
    (hoom : s'.cell.container.oomNotifier = s.cell.container.oomNotifier) : Known o s' := by
  constructor
  · rw [hoom, hlog, hw, startFailed_append hl]
    exact hs.fresh
  · rw [hoom, hlog, startFailed_append hl, watches_append hl hlog hw]
    exact hs.recorded

theorem noStart_writes {id : String} {v : String} :
    NoStart [.cgroupsSet id "memory" "memory.limit_in_bytes" v,
      .cgroupsSet id "memory" "memory.memsw.limit_in_bytes" v,
      .cgroupsSet id "memory" "memory.limit_in_bytes" v] := by
  simp [NoStart]

theorem wp_limitMemory (hs : Known o s) (limits : MemoryLimits) : wp (limitMemory cfg o limits)
    (fun _ s' => Known o s' ∧ (Watches o s' ↔ ¬ StartFailed o s.cell.log))
    (fun _ s' => Known o s') s := by
  rw [limitMemory, wp_bind]
  refine wp_mono (wp_startOomNotifier hs) ?_ fun _ _ h => h
  rintro _ s₁ ⟨hs₁, hoom, hf⟩
  rw [wp_zoom]
  have hlog : ∀ a b c : Call, s₁.cell.log ++ [a] ++ [b] ++ [c] = s₁.cell.log ++ [a, b, c] := by simp
  refine wp_setMemoryLimits rfl (fun r _ => ?_) fun e _ => ?_
  · have hrec := hs₁.recorded hoom
    rw [hf] at hrec
    refine ⟨hs₁.append noStart_writes (hlog _ _ _) rfl rfl, Iff.trans ?_ hrec⟩
    exact watches_append noStart_writes (hlog _ _ _) rfl
  · exact hs₁.append noStart_writes (hlog _ _ _) rfl rfl

theorem known_new (id handle path : String) (properties : Properties) (graceTime : ℤ)
    (resources : Resources) (portPool : PortPool) :
    Known o (new id handle path properties graceTime resources portPool) :=
  ⟨fun _ => ⟨rfl, happened_nil⟩, fun h => absurd rfl h⟩

theorem known_step (hs : Known o s) {l : Label} (h : Step cfg o s l s') : Known o s' := by
  have hlimit : ∀ limits, Known o (final (limitMemory cfg o limits s)) := fun limits =>
    wp_final (wp_mono (wp_limitMemory hs limits) (fun _ _ h => h.1) fun _ _ h => h)
  cases h
  cases l with
  | limitMemory limits => exact hlimit limits
  | restoreLimits limits =>
    show Known o (final (restoreLimits cfg o limits s))
    unfold restoreLimits
    cases limits.memory with
    | none => exact hs
    | some memory => exact hlimit memory

/-- **When a memory limit is watched.**  After any calls on a new container, a
    `LimitMemory` that succeeds leaves a notifier that was started and is watched,
    iff no start of a notifier has failed before. -/
theorem memory_watched_iff {id handle path : String} {properties : Properties} {graceTime : ℤ}
    {resources : Resources} {portPool : PortPool} {ls : List Label} {limits : MemoryLimits}
    (hr : Run (Step cfg o) (new id handle path properties graceTime resources portPool) ls s)
    (h : limitMemory cfg o limits s = .ok () s') :
    Watches o s' ↔ ¬ StartFailed o s.cell.log := by
  have hs : Known o s := hr.invariant (known_new ..) fun _ _ _ hs hstep => known_step hs hstep
  exact (wp_of_ok (wp_limitMemory hs limits) h).2

/-- A new container of the example. -/
def unlimited : Watched := new "some-id" "some-handle" "/depot/some-id" [] 0
  ⟨10000, ⟨⟨[10, 0, 0, 0], 30⟩, [], []⟩, []⟩ (.new 61001 5)

/-- The second `LimitMemory` of a container. -/
theorem memory_watched_again : ∃ s s',
    Run (Step .plain .quiet) unlimited [.limitMemory ⟨1024⟩] s ∧
      limitMemory .plain .quiet ⟨2048⟩ s = .ok () s' ∧ Watches .quiet s' := by
  have hr : Run (Step .plain .quiet) unlimited [.limitMemory ⟨1024⟩] _ := Run.nil.snoc rfl
  have hok : limitMemory .plain .quiet ⟨2048⟩
      (final (perform .plain .quiet (.limitMemory ⟨1024⟩) unlimited)) = .ok () _ := rfl
  refine ⟨_, _, hr, hok, (memory_watched_iff hr hok).2 ?_⟩
  rintro ⟨before, c, -, oom, e, -, he⟩
  cases he

/-- The start of the notifier fails once.  The next `LimitMemory` succeeds, and
    nobody watches. -/
theorem memory_unwatched_after_failure : ∃ s s',
    Run (Step .plain (.failingAt 0)) unlimited [.limitMemory ⟨1024⟩] s ∧
      limitMemory .plain (.failingAt 0) ⟨1024⟩ s = .ok () s' ∧ s'.watching = [] ∧
      ¬ Watches (.failingAt 0) s' := by
  refine ⟨_, _, Run.nil.snoc rfl, rfl, rfl, ?_⟩
  rintro ⟨oom, hoom, -⟩
  cases hoom

end Watched

/-! ## What the kernel makes of the writes -/

/-- `memory.limit_in_bytes` and `memory.memsw.limit_in_bytes` of a container. -/
structure MemoryFiles where
  limit : ℕ
  memsw : ℕ
  deriving DecidableEq, Repr

namespace MemoryFiles

/-- A write to a file of the memory subsystem, none when the kernel refuses it:
    the limit must not exceed the limit with swap. -/
def write (f : MemoryFiles) (name : String) (n : ℕ) : Option MemoryFiles :=
  if name = "memory.limit_in_bytes" then
    if n ≤ f.memsw then some { f with limit := n } else none
  else if name = "memory.memsw.limit_in_bytes" then
    if f.limit ≤ n then some { f with memsw := n } else none
  else some f

/-- The files of the container after a call. -/
def after (id : String) (f : MemoryFiles) : Call → MemoryFiles
  | .cgroupsSet id' subsystem name value =>
    if id' = id ∧ subsystem = "memory" then
      (f.write name (Nat.ofDigitChars 10 value.toList 0)).getD f
    else f
  | _ => f

/-- The files of the container after some calls. -/
def afterAll (id : String) (f : MemoryFiles) (log : List Call) : MemoryFiles :=
  log.foldl (after id) f

/-- The oracle answers writes by the rules of the kernel, and starts notifiers. -/
structure Rules (o : Oracle) (id : String) (f : MemoryFiles) : Prop where
  write : ∀ log name (n : ℕ), (∃ r, o log (.cgroupsSet id "memory" name (toString n)) = .ok r) ↔
    ((f.afterAll id log).write name n).isSome
  start : ∀ log oom, ∃ r, o log (.start oom) = .ok r

theorem afterAll_concat (id : String) (f : MemoryFiles) (log : List Call) (c : Call) :
    f.afterAll id (log ++ [c]) = (f.afterAll id log).after id c := by
  simp [afterAll]

theorem after_write (id name : String) (f : MemoryFiles) (n : ℕ) :
    f.after id (.cgroupsSet id "memory" name (toString n)) = (f.write name n).getD f := by
  rw [after, if_pos ⟨rfl, rfl⟩, Decimal.ofDigitChars_toString]

/-- **Three writes.**  The last one succeeds and leaves both files at the limit,
    whether the first one was refused or not. -/
theorem three_writes {f f₁ f₂ : MemoryFiles} {n : ℕ} (h : f.limit ≤ f.memsw)
    (h₁ : f₁ = (f.write "memory.limit_in_bytes" n).getD f)
    (h₂ : f₂ = (f₁.write "memory.memsw.limit_in_bytes" n).getD f₁) :
    f₂.write "memory.limit_in_bytes" n = some ⟨n, n⟩ := by
  have hle : f₁.limit ≤ n := by
    rw [h₁, write, if_pos rfl]
    rcases Nat.lt_or_ge f.memsw n with hn | hn
    · -- raised above the limit with swap: the write is refused
      rw [if_neg (Nat.not_le.2 hn)]
      exact Nat.le_of_lt (Nat.lt_of_le_of_lt h hn)
    · rw [if_pos hn]
      exact Nat.le_refl n
  have hsw : f₂ = { f₁ with memsw := n } := by
    rw [h₂, write, if_neg (by decide), if_pos rfl, if_pos hle]
    rfl
  rw [hsw, write, if_pos rfl, if_pos (Nat.le_refl n)]

variable {cfg : Config} {o : Oracle} {id : String} {f : MemoryFiles} {s : Cell}

theorem wp_startOomNotifier_files {Q : Unit → Cell → Prop} {E : Err → Cell → Prop}
    (hk : Rules o id f) (hQ : ∀ s', f.afterAll id s'.log = f.afterAll id s.log →
      s'.container.id = s.container.id → Q () s') : wp (startOomNotifier cfg o) Q E s := by
  cases hc : s.container.oomNotifier with
  | some oom => exact wp_startOomNotifier_recorded hc (hQ s rfl rfl)
  | none =>
    refine wp_startOomNotifier_fresh hc rfl (fun _ _ => hQ _ ?_ rfl) fun e he => ?_
    · rw [afterAll_concat]
      rfl
    · obtain ⟨r, hr⟩ := hk.start s.log (oomCmd cfg s.container)
      exact nomatch hr.symm.trans he

/-- One call of `LimitMemory`. -/
theorem wp_limitMemory (hk : Rules o id f) (hid : s.container.id = id)
    (h : (f.afterAll id s.log).limit ≤ (f.afterAll id s.log).memsw) (limits : MemoryLimits) :
    wp (limitMemory cfg o limits)
      (fun _ s' => s'.container.id = id ∧
        f.afterAll id s'.log = ⟨limits.limitInBytes.toNat, limits.limitInBytes.toNat⟩ ∧
        s'.container.currentMemoryLimits = some limits)
      (fun _ _ => False) s := by
  rw [limitMemory_eq, wp_bind]
  refine wp_startOomNotifier_files hk fun s₁ hf hid₁ => ?_
  rw [hid] at hid₁
  rw [← hf] at h
  set n := limits.limitInBytes.toNat
  let w (name : String) : Call := .cgroupsSet id "memory" name (toString n)
  -- the third write is made to files that allow it
  have hthird : (f.afterAll id (s₁.log ++ [w "memory.limit_in_bytes"] ++
      [w "memory.memsw.limit_in_bytes"])).write "memory.limit_in_bytes" n = some ⟨n, n⟩ := by
    rw [afterAll_concat, afterAll_concat, after_write, after_write]
    exact three_writes h rfl rfl
  refine wp_setMemoryLimits (w := w) (by rw [hid₁]) (fun r _ => ⟨hid₁, ?_, rfl⟩) fun e he => ?_
  · show f.afterAll id (_ ++ [w "memory.limit_in_bytes"]) = _
    rw [afterAll_concat, after_write, hthird]
    rfl
  · obtain ⟨r, hr⟩ := (hk.write _ _ _).2 (Option.isSome_of_eq_some hthird)
    exact nomatch hr.symm.trans he

/-- A call, whether it fails or not. -/
def Step (cfg : Config) (o : Oracle) (s : Cell) (limits : MemoryLimits) (s' : Cell) : Prop :=
  s' = final (limitMemory cfg o limits s)

/-- The files of the container obey the kernel's rule. -/
def Sound (id : String) (f : MemoryFiles) (s : Cell) : Prop :=
  s.container.id = id ∧ (f.afterAll id s.log).limit ≤ (f.afterAll id s.log).memsw

theorem sound_step (hk : Rules o id f) {limits : MemoryLimits} {s' : Cell} (hs : Sound id f s)
    (h : Step cfg o s limits s') : Sound id f s' := by
  rw [show s' = final (limitMemory cfg o limits s) from h]
  refine wp_final (P := Sound id f) (wp_mono (wp_limitMemory hk hs.1 hs.2 limits) ?_
    fun _ _ h => h.elim)
  rintro _ s' ⟨hid, hf, -⟩
  refine ⟨hid, ?_⟩
  rw [hf]

/-- **Both limits are set.**  By the rules of the kernel, and from files that obey
    them, after any calls of `LimitMemory` the next one succeeds, leaves both files
    at the limit, and records it. -/
theorem memory_limits_set {s₀ : Cell} {ls : List MemoryLimits} (hk : Rules o s₀.container.id f)
    (h₀ : (f.afterAll s₀.container.id s₀.log).limit ≤ (f.afterAll s₀.container.id s₀.log).memsw)
    (hr : Run (Step cfg o) s₀ ls s) (limits : MemoryLimits) :
    ∃ s', limitMemory cfg o limits s = .ok () s' ∧
      f.afterAll s₀.container.id s'.log = ⟨limits.limitInBytes.toNat, limits.limitInBytes.toNat⟩ ∧
      s'.container.currentMemoryLimits = some limits := by
  obtain ⟨hid, h⟩ : Sound s₀.container.id f s :=
    hr.invariant ⟨rfl, h₀⟩ fun _ _ _ hs hstep => sound_step hk hs hstep
  obtain ⟨_, s', hs', -, hf, hrec⟩ := wp_returns (wp_limitMemory hk hid h limits)
  exact ⟨s', hs', hf, hrec⟩

/-- The kernel: it refuses what its rules forbid, and nothing else. -/
def kernel (id : String) (f : MemoryFiles) : Oracle := fun log c =>
  match c with
  | .cgroupsSet id' subsystem name value =>
    if id' = id ∧ subsystem = "memory" ∧
        ((f.afterAll id log).write name (Nat.ofDigitChars 10 value.toList 0)) = none then
      .error (.external "invalid argument")
    else .ok {}
  | _ => .ok {}

theorem kernel_rules (id : String) (f : MemoryFiles) : Rules (kernel id f) id f := by
  refine ⟨fun log name n => ?_, fun log oom => ⟨{}, rfl⟩⟩
  simp only [kernel, true_and, Decimal.ofDigitChars_toString]
  cases (f.afterAll id log).write name n with
  | none => simp
  | some f' => simp

/-- Lowered from 1 MiB to 1 KiB, and then raised to 1 GiB. -/
theorem memory_limits_raised : ∃ s s',
    Run (Step .plain (kernel "some-id" ⟨1048576, 2097152⟩)) Watched.unlimited.cell [⟨1024⟩] s ∧
      limitMemory .plain (kernel "some-id" ⟨1048576, 2097152⟩) ⟨1073741824⟩ s = .ok () s' ∧
      afterAll "some-id" ⟨1048576, 2097152⟩ s'.log = ⟨1073741824, 1073741824⟩ ∧
      s'.container.currentMemoryLimits = some ⟨1073741824⟩ := by
  have hk : Rules _ Watched.unlimited.cell.container.id ⟨1048576, 2097152⟩ := kernel_rules _ _
  have hr : Run (Step .plain (kernel "some-id" ⟨1048576, 2097152⟩)) Watched.unlimited.cell [⟨1024⟩] _ :=
    Run.nil.snoc rfl
  obtain ⟨s', hs'⟩ := memory_limits_set hk (by decide) hr ⟨1073741824⟩
  exact ⟨_, s', hr, hs'⟩

end MemoryFiles

end LinuxContainer

end WardenLinux
