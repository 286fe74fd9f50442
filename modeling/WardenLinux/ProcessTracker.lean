/-
  The process tracker (process_tracker.go, and `Spawn` and `Unlink` of process.go),
  as one goroutine sees it: `Run`, `Restore`, `ActiveProcesses`, `UnlinkAll` and
  `unregister`.

  `Run` enters the new process in the map before it spawns it, and its error
  returns leave it there: `run_failed` says that no failed run gives back the
  tracked processes it found.  Such a process is never linked, and `UnlinkAll` waits
  for it for ever; `wp_unlinkAll` and `wp_unlinkAll_blocked` say when it returns.
  What the goroutines of `link` do among others is in `WardenLinux.Linking`; here the
  link of a process is started at once, and a process that exits is one that
  `unregister` takes out.
-/
import WardenLinux.Lib.Maps
import WardenLinux.World

namespace WardenLinux

open Fallible

/-- `warden.WindowSize` -/
structure WindowSize where
  columns : ℤ
  rows : ℤ
  deriving DecidableEq, Repr

/-- `warden.TTYSpec` -/
structure TTYSpec where
  windowSize : Option WindowSize
  deriving DecidableEq, Repr

/-- A `*Process`, with the address of the object: two processes with the same
    ID are still two. -/
structure Process where
  id : UInt32
  withTty : Bool
  addr : ℕ
  deriving DecidableEq, Repr

/-- `processTracker`: a process is filed under its own ID, and was made before
    the next one. -/
structure ProcessTracker where
  processes : AList (fun _ : UInt32 => Process)
  nextProcessID : UInt32
  /-- the number of processes made by `NewProcess` -/
  allocated : ℕ
  /-- the addresses of the processes whose channel `linked` is closed -/
  linked : List ℕ
  filed : ∀ id p, processes.lookup id = some p → p.id = id ∧ p.addr < allocated

/-- `ProcessSnapshot` -/
structure ProcessSnapshot where
  id : UInt32
  tty : Bool
  deriving DecidableEq, Repr

namespace ProcessTracker

/-- `process_tracker.New` -/
def new : ProcessTracker where
  processes := ∅
  nextProcessID := 1
  allocated := 0
  linked := []
  filed id p h := by simp at h

/-- `NewProcess` and its entry in the map. -/
def track (id : UInt32) (withTty : Bool) (t : ProcessTracker) : ProcessTracker where
  processes := t.processes.insert id ⟨id, withTty, t.allocated⟩
  nextProcessID := t.nextProcessID
  allocated := t.allocated + 1
  linked := t.linked
  filed id' p h := by
    by_cases hid : id' = id
    · subst hid
      rw [AList.lookup_insert] at h
      cases h; exact ⟨rfl, Nat.lt_succ_self _⟩
    · rw [AList.lookup_insert_ne hid] at h
      exact ⟨(t.filed id' p h).1, Nat.lt_succ_of_lt (t.filed id' p h).2⟩

/-- The locked part of `Run`: the process gets the next ID. -/
def register (withTty : Bool) : EStateM Err ProcessTracker Process := fun t =>
  let processID := t.nextProcessID
  .ok ⟨processID, withTty, t.allocated⟩
    { track processID withTty t with nextProcessID := processID + 1 }

/-- `Restore`, with the link that its goroutine starts. -/
def restore (processID : UInt32) (tty : Bool) (t : ProcessTracker) : ProcessTracker :=
  { track processID tty t with
    nextProcessID := if processID ≥ t.nextProcessID then processID + 1 else t.nextProcessID
    linked := t.allocated :: t.linked }

/-- `unregister` -/
def unregister (processID : UInt32) (t : ProcessTracker) : ProcessTracker where
  processes := t.processes.erase processID
  nextProcessID := t.nextProcessID
  allocated := t.allocated
  linked := t.linked
  filed id p h := by
    by_cases hid : id = processID
    · subst hid; rw [AList.lookup_erase] at h; cases h
    · rw [AList.lookup_erase_ne hid] at h; exact t.filed id p h

/-- `ActiveProcesses`, in the order of the map's list; the order of a Go map is
    any. -/
def activeProcesses (t : ProcessTracker) : List Process := t.processes.entries.map Sigma.snd

/-- The processes in a container's snapshot (`LinuxContainer.Snapshot`). -/
def snapshots (t : ProcessTracker) : List ProcessSnapshot :=
  t.activeProcesses.map fun p => ⟨p.id, p.withTty⟩

/-! ## Spawning -/

/-- The command of `Spawn`: `iodaemon spawn` on the process's socket, in the
    background of a shell. -/
def spawnCmd (containerPath : String) (id : UInt32) (cmd : Cmd) (tty : Option TTYSpec) : Cmd :=
  let spawnPath := pathJoin [containerPath, "bin", "iodaemon"]
  let processSock := pathJoin [containerPath, "processes", toString id.toNat ++ ".sock"]
  let ttyFlags := match tty with
    | none => []
    | some spec => "-tty" :: match spec.windowSize with
      | none => []
      | some w => ["-windowColumns=" ++ toString w.columns, "-windowRows=" ++ toString w.rows]
  { path := "bash"
    args := ["-c", spawnPath ++ " \"$@\" &", spawnPath] ++ ttyFlags ++
      ["spawn", processSock, cmd.path] ++ cmd.args
    env := cmd.env }

/-- `Spawn` up to the `ready` channel: the pipe, the start in the background
    and the first line. -/
def spawnReady (o : Oracle) (spawn : Cmd) : EStateM Err (List Call) Unit := do
  call o (.stdoutPipe spawn)
  call o (.background spawn)
  call o (.readLine spawn 0)

/-- A tracker and the log of the calls made. -/
structure Tracked where
  tracker : ProcessTracker
  log : List Call

def trackerPart : Part Tracked ProcessTracker := ⟨Tracked.tracker, fun t s => { s with tracker := t }⟩
def trackedLog : Part Tracked (List Call) := ⟨Tracked.log, fun l s => { s with log := l }⟩

/-- The command of `runLinker`. -/
def linkCmd (containerPath : String) (process : Process) : Cmd where
  path := pathJoin [containerPath, "bin", "iodaemon"]
  args := ["-tty=" ++ toString process.withTty, "link",
    pathJoin [containerPath, "processes", toString process.id.toNat ++ ".sock"]]

/-- The goroutine of `link` while its process runs: the link is started, which closes
    `linked`; when that fails, the goroutine ends and unregisters the process. -/
def link (o : Oracle) (containerPath : String) (process : Process) : EStateM Err Tracked Unit := fun s =>
  match call o (.start (linkCmd containerPath process)) s.log with
  | .ok _ log => .ok () ⟨{ s.tracker with linked := process.addr :: s.tracker.linked }, log⟩
  | .error _ log => .ok () ⟨s.tracker.unregister process.id, log⟩

/-- `Run`.  The goroutine of `link` is started between the two reads. -/
def run (o : Oracle) (containerPath : String) (cmd : Cmd) (tty : Option TTYSpec) :
    EStateM Err Tracked Process := do
  let process ← zoom trackerPart (register tty.isSome)
  let spawn := spawnCmd containerPath process.id cmd tty
  zoom trackedLog (spawnReady o spawn)
  link o containerPath process
  zoom trackedLog (call o (.readLine spawn 1))
  return process

/-! ## Unlinking -/

/-- `Unlink`: the read of `linked` blocks while it is open.  The one value of `unlinked`
    is there as long as the process runs; the error of the signal is dropped. -/
def unlink (o : Oracle) (containerPath : String) (process : Process) : EStateM Err Tracked Unit := do
  let s ← get
  ensure (process.addr ∈ s.tracker.linked) .blocked
  attempt (zoom trackedLog (call o (.interrupt (linkCmd containerPath process))))

/-- `UnlinkAll` -/
def unlinkAll (o : Oracle) (containerPath : String) : EStateM Err Tracked Unit := do
  let s ← get
  each (unlink o containerPath) s.tracker.activeProcesses

/-! ## Tracked processes -/

theorem mem_activeProcesses {t : ProcessTracker} {p : Process} :
    p ∈ t.activeProcesses ↔ t.processes.lookup p.id = some p := by
  simp only [activeProcesses, List.mem_map]
  constructor
  · rintro ⟨⟨id, q⟩, hm, rfl⟩
    have hl : t.processes.lookup id = some q := AList.mem_lookup_iff.2 hm
    rw [(t.filed id q hl).1]; exact hl
  · intro h
    exact ⟨⟨p.id, p⟩, AList.mem_lookup_iff.1 h, rfl⟩

theorem lookup_unregister {t : ProcessTracker} {processID id : UInt32} {p : Process}
    (h : (t.unregister processID).processes.lookup id = some p) :
    id ≠ processID ∧ t.processes.lookup id = some p := by
  rw [unregister] at h
  exact Maps.lookup_erase_eq_some.1 h

/-- Two trackers track the same processes. -/
def SameTracked (t t' : ProcessTracker) : Prop :=
  ∀ p, p ∈ t.activeProcesses ↔ p ∈ t'.activeProcesses

/-- What `Run` has done to the tracker before it spawns. -/
theorem register_eq (withTty : Bool) (t : ProcessTracker) :
    register withTty t = .ok ⟨t.nextProcessID, withTty, t.allocated⟩
      { track t.nextProcessID withTty t with nextProcessID := t.nextProcessID + 1 } := rfl

/-- The process under the next ID is a new object. -/
theorem register_tracks (withTty : Bool) (t : ProcessTracker) :
    let p : Process := ⟨t.nextProcessID, withTty, t.allocated⟩
    p ∈ (final (register withTty t)).activeProcesses ∧ p ∉ t.activeProcesses := by
  refine ⟨?_, fun h => ?_⟩
  · rw [mem_activeProcesses, register_eq]
    exact AList.lookup_insert _
  · exact lt_irrefl _ (t.filed _ _ (mem_activeProcesses.1 h)).2

/-- **A failed run leaves a phantom process.**  Whatever fails before the
    spawned process is ready, `Run` returns that error with a process tracked
    that it did not find. -/
theorem run_failed {o : Oracle} {containerPath : String} {cmd : Cmd} {tty : Option TTYSpec}
    {s : Tracked} {e : Err} {log : List Call}
    (h : spawnReady o (spawnCmd containerPath s.tracker.nextProcessID cmd tty) s.log =
      .error e log) :
    ∃ s', run o containerPath cmd tty s = .error e s' ∧ ¬ SameTracked s'.tracker s.tracker := by
  refine ⟨⟨final (register tty.isSome s.tracker), log⟩, ?_, fun hsame => ?_⟩
  · simp only [run, bind, EStateM.bind, zoom, trackerPart, trackedLog, register_eq, h, final]
  · obtain ⟨hin, hout⟩ := register_tracks tty.isSome s.tracker
    exact hout ((hsame _).1 hin)

/-- The shell of a container's first process cannot be started. -/
def noShell : Oracle := .failing fun | .background _ => true | _ => false

theorem run_failed_noShell :
    ∃ s', run noShell "/depot/some-id" { path := "xxx" } none ⟨new, []⟩ =
      .error (.external "oh no!") s' ∧ ¬ SameTracked s'.tracker new :=
  run_failed rfl

/-- The process with ID 1 is then tracked, as none was before. -/
theorem run_phantom_noShell :
    ∃ s', run noShell "/depot/some-id" { path := "xxx" } none ⟨new, []⟩ =
      .error (.external "oh no!") s' ∧ s'.tracker.activeProcesses = [⟨1, false, 0⟩] ∧
      new.activeProcesses = [] ∧ ¬ SameTracked s'.tracker new := by
  refine ⟨_, rfl, rfl, rfl, fun h => ?_⟩
  have hnil : (⟨1, false, 0⟩ : Process) ∈ new.activeProcesses := (h _).1 (List.mem_singleton_self _)
  cases hnil

/-! ## Linked processes -/

/-- Every tracked process is linked. -/
def AllLinked (t : ProcessTracker) : Prop := ∀ p ∈ t.activeProcesses, p.addr ∈ t.linked

theorem allLinked_new : new.AllLinked := by
  intro p hp
  cases hp

section
variable {o : Oracle} {containerPath : String} {s : Tracked} {E : Err → Tracked → Prop}

theorem wp_link {Q : Unit → Tracked → Prop} (p : Process) : wp (link o containerPath p) Q E s ↔
    wp (call o (.start (linkCmd containerPath p)))
      (fun _ log => Q () ⟨{ s.tracker with linked := p.addr :: s.tracker.linked }, log⟩)
      (fun _ log => Q () ⟨s.tracker.unregister p.id, log⟩) s.log := by
  simp only [wp, link]
  rcases call o (.start (linkCmd containerPath p)) s.log with ⟨_, log⟩ | ⟨_, log⟩ <;> rfl

/-- After the registration all other processes are old ones. -/
theorem mem_register {withTty : Bool} {t : ProcessTracker} {p : Process}
    (h : p ∈ (final (register withTty t)).activeProcesses) :
    p = ⟨t.nextProcessID, withTty, t.allocated⟩ ∨ p.id ≠ t.nextProcessID ∧ p ∈ t.activeProcesses := by
  rw [mem_activeProcesses, register_eq] at h
  rcases Maps.lookup_insert_eq_some.1 h with ⟨-, rfl⟩ | ⟨hne, hold⟩
  · exact .inl rfl
  · exact .inr ⟨hne, mem_activeProcesses.2 hold⟩

/-- **A run that becomes ready is linked**, or its process is not tracked any more. -/
theorem wp_run_linked {cmd : Cmd} {tty : Option TTYSpec} {log : List Call}
    (hready : spawnReady o (spawnCmd containerPath s.tracker.nextProcessID cmd tty) s.log = .ok () log)
    (hall : s.tracker.AllLinked) :
    wp (run o containerPath cmd tty) (fun _ s' => s'.tracker.AllLinked)
      (fun _ s' => s'.tracker.AllLinked) s := by
  have hnew : ∀ p ∈ (final (register tty.isSome s.tracker)).activeProcesses,
      p = ⟨s.tracker.nextProcessID, tty.isSome, s.tracker.allocated⟩ ∨
        p.id ≠ s.tracker.nextProcessID ∧ p.addr ∈ s.tracker.linked :=
    fun p hp => (mem_register hp).imp_right fun h => ⟨h.1, hall p h.2⟩
  have hlinked : AllLinked { final (register tty.isSome s.tracker) with
      linked := s.tracker.allocated :: s.tracker.linked } := by
    intro p hp
    rcases hnew p hp with rfl | ⟨-, hold⟩
    · exact List.mem_cons_self
    · exact List.mem_cons_of_mem _ hold
  have hgone : AllLinked ((final (register tty.isSome s.tracker)).unregister s.tracker.nextProcessID) := by
    intro p hp
    obtain ⟨hne, hold⟩ := lookup_unregister (mem_activeProcesses.1 hp)
    rcases hnew p (mem_activeProcesses.2 hold) with rfl | ⟨-, hold⟩
    · exact absurd rfl hne
    · exact hold
  rw [run, wp_bind, wp_zoom, wp_ok (register_eq _ _), wp_bind, wp_zoom]
  refine (wp_ok hready).2 ?_
  simp only [wp_bind, wp_link, wp_call, wp_zoom, wp_pure, trackerPart, trackedLog]
  exact ⟨fun _ _ => ⟨fun _ _ => hlinked, fun _ _ => hlinked⟩,
    fun _ _ => ⟨fun _ _ => hgone, fun _ _ => hgone⟩⟩

/-- **`UnlinkAll` returns** when every tracked process is linked. -/
theorem wp_unlinkAll {Q : Unit → Tracked → Prop} (hall : s.tracker.AllLinked)
    (hQ : ∀ log, Q () ⟨s.tracker, log⟩) : wp (unlinkAll o containerPath) Q E s := by
  have heach : ∀ (ps : List Process) (s : Tracked), (∀ p ∈ ps, p.addr ∈ s.tracker.linked) →
      (∀ log, Q () ⟨s.tracker, log⟩) → wp (each (unlink o containerPath) ps) Q E s := by
    intro ps
    induction ps with
    | nil => exact fun s _ hQ => hQ s.log
    | cons p ps ih =>
      intro s hps hQ
      have hrest := fun log => ih ⟨s.tracker, log⟩ (fun q hq => hps q (List.mem_cons_of_mem _ hq)) hQ
      simp only [each, unlink, wp_bind, wp_get, wp_ensure, wp_attempt, wp_zoom, wp_call, trackedLog]
      exact ⟨fun _ => ⟨fun _ _ => hrest _, fun _ _ => hrest _⟩,
        fun hn => absurd (hps p List.mem_cons_self) hn⟩
  rw [unlinkAll, wp_bind, wp_get]
  exact heach _ s hall hQ

/-- **`UnlinkAll` blocks** on a tracked process that is not linked. -/
theorem wp_unlinkAll_blocked (hn : ¬ s.tracker.AllLinked) :
    wp (unlinkAll o containerPath) (fun _ _ => False)
      (fun e s' => e = .blocked ∧ s'.tracker = s.tracker) s := by
  have heach : ∀ (ps : List Process) (s : Tracked), (∃ p ∈ ps, p.addr ∉ s.tracker.linked) →
      wp (each (unlink o containerPath) ps) (fun _ _ => False)
        (fun e s' => e = .blocked ∧ s'.tracker = s.tracker) s := by
    intro ps
    induction ps with
    | nil => exact fun s ⟨p, hp, _⟩ => absurd hp List.not_mem_nil
    | cons p ps ih =>
      rintro s ⟨q, hq, hnq⟩
      simp only [each, unlink, wp_bind, wp_get, wp_ensure, wp_attempt, wp_zoom, wp_call, trackedLog]
      refine ⟨fun hp => ?_, fun _ => ⟨trivial, trivial⟩⟩
      -- the first process is linked, so it is one of the others
      have hrest : ∃ q ∈ ps, q.addr ∉ s.tracker.linked := by
        rcases List.mem_cons.1 hq with rfl | hq
        · exact absurd hp hnq
        · exact ⟨q, hq, hnq⟩
      exact ⟨fun _ _ => ih ⟨s.tracker, _⟩ hrest, fun _ _ => ih ⟨s.tracker, _⟩ hrest⟩
  rw [unlinkAll, wp_bind, wp_get]
  refine heach _ s ?_
  simpa [AllLinked] using hn

end

end ProcessTracker

end WardenLinux
