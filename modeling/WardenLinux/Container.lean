/-
  A container (linux_container.go, resources.go, snapshot.go), as one request
  at a time sees it.

  An operation on a container works on its `Cell`: the container, the port
  pool it shares with the others, and the log of the calls made.

  * `tame_perform`: an operation moves at most one port from the pool to the
    container, and leaves what identifies it (`Evolves`).
  * `wp_restore`: what `Restore` leaves when every call succeeds, from a
    snapshot whose port mappings and network permissions can be replayed.
-/
import WardenLinux.NumberPools
import WardenLinux.ProcessIDs

namespace WardenLinux

open Fallible

/-! ## Data -/

/-- `State` -/
structure State where
  text : String
  deriving DecidableEq, Repr

def State.born : State := ⟨"born"⟩
def State.active : State := ⟨"active"⟩
def State.stopped : State := ⟨"stopped"⟩

/-- `Resources` -/
structure Resources where
  uid : UInt32
  network : Network
  ports : List UInt32
  deriving DecidableEq, Repr

/-- `Resources.AddPort` -/
def Resources.addPort (port : UInt32) (r : Resources) : Resources :=
  { r with ports := r.ports ++ [port] }

/-- `NetInSpec` -/
structure NetInSpec where
  hostPort : UInt32
  containerPort : UInt32
  deriving DecidableEq, Repr

/-- `NetOutSpec` -/
structure NetOutSpec where
  network : String
  port : UInt32
  deriving DecidableEq, Repr

/-- `LimitsSnapshot` -/
structure LimitsSnapshot where
  memory : Option MemoryLimits
  disk : Option DiskLimits
  bandwidth : Option BandwidthLimits
  cpu : Option CPULimits
  deriving DecidableEq, Repr

/-- `ContainerSnapshot`; `ResourcesSnapshot` has the fields of `Resources`. -/
structure ContainerSnapshot where
  id : String
  handle : String
  graceTime : ℤ
  state : String
  events : List String
  limits : LimitsSnapshot
  resources : Resources
  processes : List ProcessSnapshot
  netIns : List NetInSpec
  netOuts : List NetOutSpec
  properties : Properties
  deriving DecidableEq, Repr

/-- `LinuxContainer`, without its collaborators and mutexes. -/
structure LinuxContainer where
  id : String
  handle : String
  path : String
  properties : Properties
  graceTime : ℤ
  state : State
  events : List String
  resources : Resources
  processTracker : ProcessTracker
  oomNotifier : Option Cmd
  currentBandwidthLimits : Option BandwidthLimits
  currentDiskLimits : Option DiskLimits
  currentMemoryLimits : Option MemoryLimits
  currentCPULimits : Option CPULimits
  netIns : List NetInSpec
  netOuts : List NetOutSpec

/-- `warden.ResourceLimits` -/
structure ResourceLimits where
  as : Option UInt64 := none
  core : Option UInt64 := none
  cpu : Option UInt64 := none
  data : Option UInt64 := none
  fsize : Option UInt64 := none
  locks : Option UInt64 := none
  memlock : Option UInt64 := none
  msgqueue : Option UInt64 := none
  nice : Option UInt64 := none
  nofile : Option UInt64 := none
  nproc : Option UInt64 := none
  rss : Option UInt64 := none
  rtprio : Option UInt64 := none
  sigpending : Option UInt64 := none
  stack : Option UInt64 := none
  deriving DecidableEq, Repr

/-- `warden.ProcessSpec` -/
structure ProcessSpec where
  path : String
  args : List String
  env : List String
  dir : String
  privileged : Bool
  limits : ResourceLimits
  tty : Option TTYSpec
  deriving DecidableEq, Repr

/-- What the daemon is started with.  Parsing a URL and the JSON of a snapshot
    are Go's. -/
structure Config where
  binPath : String
  depotPath : String
  cgroupPath : String
  /-- `os.Getenv("PATH")` -/
  pathEnv : String
  /-- the schemes of `rootfsProviders` -/
  rootfsProviders : List String
  parseURL : String → Except Err URL
  encode : ContainerSnapshot → String
  decode : String → Except Err ContainerSnapshot

/-- A daemon with the provider for directories only. -/
def Config.plain : Config where
  binPath := "/root/path"
  depotPath := "/depot"
  cgroupPath := "/cgroups"
  pathEnv := "/bin"
  rootfsProviders := [""]
  parseURL p := .ok ⟨"", p, ""⟩
  encode s := s.id
  decode _ := .error (.external "EOF")

/-- A container, the port pool and the calls made. -/
structure Cell where
  container : LinuxContainer
  portPool : PortPool
  log : List Call

namespace Cell

def calls : Part Cell (List Call) := ⟨Cell.log, fun l s => { s with log := l }⟩
def ports : Part Cell PortPool := ⟨Cell.portPool, fun p s => { s with portPool := p }⟩

/-- The container's tracker and the calls made. -/
def tracked : Part Cell ProcessTracker.Tracked where
  get s := ⟨s.container.processTracker, s.log⟩
  set t s := { s with container := { s.container with processTracker := t.tracker }, log := t.log }

end Cell

namespace LinuxContainer

/-- `NewLinuxContainer` -/
def new (id handle path : String) (properties : Properties) (graceTime : ℤ)
    (resources : Resources) : LinuxContainer where
  id := id
  handle := handle
  path := path
  properties := properties
  graceTime := graceTime
  state := .born
  events := []
  resources := resources
  processTracker := .new
  oomNotifier := none
  currentBandwidthLimits := none
  currentDiskLimits := none
  currentMemoryLimits := none
  currentCPULimits := none
  netIns := []
  netOuts := []

/-- `Snapshot`, before it is encoded. -/
def snapshot (c : LinuxContainer) : ContainerSnapshot where
  id := c.id
  handle := c.handle
  graceTime := c.graceTime
  state := c.state.text
  events := c.events
  limits :=
    { memory := c.currentMemoryLimits
      disk := c.currentDiskLimits
      bandwidth := c.currentBandwidthLimits
      cpu := c.currentCPULimits }
  resources := c.resources
  processes := c.processTracker.snapshots
  netIns := c.netIns
  netOuts := c.netOuts
  properties := c.properties

/-! ## Operations -/

section
variable (cfg : Config) (o : Oracle)

def update (f : LinuxContainer → LinuxContainer) : EStateM Err Cell Unit :=
  modify fun s => { s with container := f s.container }

/-- `setState` -/
def setState (state : State) : EStateM Err Cell Unit := update fun c => { c with state := state }

/-- `registerEvent` -/
def registerEvent (event : String) : EStateM Err Cell Unit :=
  update fun c => { c with events := c.events ++ [event] }

def startCmd (c : LinuxContainer) : Cmd where
  path := pathJoin [c.path, "start.sh"]
  env := ["id=" ++ c.id, "container_iface_mtu=1500", "PATH=" ++ cfg.pathEnv]

/-- `Start` -/
def start : EStateM Err Cell Unit := do
  let s ← get
  zoom Cell.calls (call o (.run (startCmd cfg s.container)))
  setState .active

/-- `stopOomNotifier`; the error of the kill is dropped. -/
def stopOomNotifier : EStateM Err Cell Unit := do
  let s ← get
  match s.container.oomNotifier with
  | none => pure ()
  | some cmd => attempt (zoom Cell.calls (call o (.kill cmd)))

/-- `Stop` -/
def stop (kill : Bool) : EStateM Err Cell Unit := do
  let s ← get
  zoom Cell.calls (call o (.run
    { path := pathJoin [s.container.path, "stop.sh"], args := if kill then ["-w", "0"] else [] }))
  stopOomNotifier o
  setState .stopped

/-- `watchForOom`, once the notifier has returned without an error: the event,
    and a `Stop` whose error is dropped. -/
def watchForOom : EStateM Err Cell Unit := do
  registerEvent "out of memory"
  attempt (stop o false)

/-- `Cleanup` -/
def cleanup : EStateM Err Cell Unit := do
  stopOomNotifier o
  let s ← get
  zoom Cell.tracked (ProcessTracker.unlinkAll o s.container.path)

/-- `SubsystemPath` of the container's cgroups manager. -/
def subsystemPath (c : LinuxContainer) (subsystem : String) : String :=
  pathJoin [cfg.cgroupPath, subsystem, "instance-" ++ c.id]

/-- `startOomNotifier`: the notifier is set before it is started, and stays set
    when that fails. -/
def startOomNotifier : EStateM Err Cell Unit := do
  let s ← get
  match s.container.oomNotifier with
  | some _ => pure ()
  | none => do
    let oom : Cmd :=
      { path := pathJoin [s.container.path, "bin", "oom"]
        args := [subsystemPath cfg s.container "memory"] }
    update fun c => { c with oomNotifier := some oom }
    zoom Cell.calls (call o (.start oom))

/-- `LimitMemory`: the errors of the first two writes are dropped. -/
def limitMemory (limits : MemoryLimits) : EStateM Err Cell Unit := do
  startOomNotifier cfg o
  let s ← get
  let set (name : String) : EStateM Err Cell Unit := zoom Cell.calls
    (call o (.cgroupsSet s.container.id "memory" name (toString limits.limitInBytes.toNat)))
  attempt (set "memory.limit_in_bytes")
  attempt (set "memory.memsw.limit_in_bytes")
  set "memory.limit_in_bytes"
  update fun c => { c with currentMemoryLimits := some limits }

/-- `LimitBandwidth` -/
def limitBandwidth (limits : BandwidthLimits) : EStateM Err Cell Unit := do
  let s ← get
  zoom Cell.calls (call o (.bandwidthSetLimits s.container.id limits))
  update fun c => { c with currentBandwidthLimits := some limits }

/-- `CurrentBandwidthLimits` -/
def getBandwidthLimits (c : LinuxContainer) : BandwidthLimits :=
  c.currentBandwidthLimits.getD ⟨0, 0⟩

/-- `LimitDisk` -/
def limitDisk (limits : DiskLimits) : EStateM Err Cell Unit := do
  let s ← get
  zoom Cell.calls (call o (.quotaSetLimits s.container.resources.uid limits))
  update fun c => { c with currentDiskLimits := some limits }

/-- `LimitCPU` -/
def limitCPU (limits : CPULimits) : EStateM Err Cell Unit := do
  let s ← get
  zoom Cell.calls
    (call o (.cgroupsSet s.container.id "cpu" "cpu.shares" (toString limits.limitInShares.toNat)))
  update fun c => { c with currentCPULimits := some limits }

/-- The host port of a mapping: the one that was asked for, or one of the pool,
    which the container then holds. -/
def hostPortFor (hostPort : UInt32) : EStateM Err Cell UInt32 :=
  if hostPort = 0 then do
    let randomPort ← zoom Cell.ports PortPool.acquire
    update fun c => { c with resources := c.resources.addPort randomPort }
    return randomPort
  else return hostPort

def netInCmd (c : LinuxContainer) (hostPort containerPort : UInt32) : Cmd where
  path := pathJoin [c.path, "net.sh"]
  args := ["in"]
  env := ["HOST_PORT=" ++ toString hostPort.toNat,
    "CONTAINER_PORT=" ++ toString containerPort.toNat, "PATH=" ++ cfg.pathEnv]

/-- `NetIn` -/
def netIn (hostPort containerPort : UInt32) : EStateM Err Cell (UInt32 × UInt32) := do
  let hostPort ← hostPortFor hostPort
  let containerPort := if containerPort = 0 then hostPort else containerPort
  let s ← get
  zoom Cell.calls (call o (.run (netInCmd cfg s.container hostPort containerPort)))
  update fun c => { c with netIns := c.netIns ++ [⟨hostPort, containerPort⟩] }
  return (hostPort, containerPort)

/-- `NetOut` -/
def netOut (network : String) (port : UInt32) : EStateM Err Cell Unit := do
  ensure (port ≠ 0 ∨ network ≠ "") .netOutUnspecified
  let s ← get
  zoom Cell.calls (call o (.run
    { path := pathJoin [s.container.path, "net.sh"]
      args := ["out"]
      env := ["NETWORK=" ++ network, "PORT=" ++ (if port ≠ 0 then toString port.toNat else ""),
        "PATH=" ++ cfg.pathEnv] }))
  update fun c => { c with netOuts := c.netOuts ++ [⟨network, port⟩] }

/-- `setRLimitsEnv` -/
def rlimitsEnv (l : ResourceLimits) : List String :=
  [("AS", l.as), ("CORE", l.core), ("CPU", l.cpu), ("DATA", l.data), ("FSIZE", l.fsize),
    ("LOCKS", l.locks), ("MEMLOCK", l.memlock), ("MSGQUEUE", l.msgqueue), ("NICE", l.nice),
    ("NOFILE", l.nofile), ("NPROC", l.nproc), ("RSS", l.rss), ("RTPRIO", l.rtprio),
    ("SIGPENDING", l.sigpending), ("STACK", l.stack)].filterMap fun (name, limit) =>
      limit.map fun n => "RLIMIT_" ++ name ++ "=" ++ toString n.toNat

/-- The `wsh` command of `Run`. -/
def wshCmd (c : LinuxContainer) (spec : ProcessSpec) : Cmd where
  path := pathJoin [c.path, "bin", "wsh"]
  args := ["--socket", pathJoin [c.path, "run", "wshd.sock"],
      "--user", if spec.privileged then "root" else "vcap"] ++
    spec.env.flatMap (fun v => ["--env", v]) ++
    (if spec.dir ≠ "" then ["--dir", spec.dir] else []) ++ [spec.path] ++ spec.args
  env := rlimitsEnv spec.limits

/-- `Run` -/
def run (spec : ProcessSpec) : EStateM Err Cell Process := do
  let s ← get
  zoom Cell.tracked (ProcessTracker.run o s.container.path (wshCmd s.container spec) spec.tty)

/-- The limits that `Restore` sets again. -/
def restoreLimits (limits : LimitsSnapshot) : EStateM Err Cell Unit :=
  match limits.memory with
  | none => pure ()
  | some memory => limitMemory cfg o memory

/-- `Restore` -/
def restore (snapshot : ContainerSnapshot) : EStateM Err Cell Unit := do
  setState ⟨snapshot.state⟩
  each registerEvent snapshot.events
  restoreLimits cfg o snapshot.limits
  update fun c =>
    { c with processTracker := ProcessTracker.restoreAll snapshot.processes c.processTracker }
  let s ← get
  zoom Cell.calls (call o (.run { path := pathJoin [s.container.path, "net.sh"], args := ["setup"] }))
  each (fun n => do let _ ← netIn cfg o n.hostPort n.containerPort) snapshot.netIns
  each (fun n => netOut cfg o n.network n.port) snapshot.netOuts

end

/-! ## What an operation can do -/

/-- The operations of a client on a container, and the notice of its OOM
    notifier. -/
inductive Op where
  | stop (kill : Bool)
  | oom
  | limitMemory (limits : MemoryLimits)
  | limitBandwidth (limits : BandwidthLimits)
  | limitDisk (limits : DiskLimits)
  | limitCPU (limits : CPULimits)
  | netIn (hostPort containerPort : UInt32)
  | netOut (network : String) (port : UInt32)
  | run (spec : ProcessSpec)
  deriving DecidableEq, Repr

def perform (cfg : Config) (o : Oracle) : Op → EStateM Err Cell Unit
  | .stop kill => stop o kill
  | .oom => watchForOom o
  | .limitMemory limits => limitMemory cfg o limits
  | .limitBandwidth limits => limitBandwidth o limits
  | .limitDisk limits => limitDisk o limits
  | .limitCPU limits => limitCPU o limits
  | .netIn hostPort containerPort => do let _ ← netIn cfg o hostPort containerPort
  | .netOut network port => netOut cfg o network port
  | .run spec => do let _ ← run o spec

/-- What stays with a container for its life. -/
structure Ident where
  id : String
  handle : String
  path : String
  properties : Properties
  graceTime : ℤ
  uid : UInt32
  network : Network

def ident (c : LinuxContainer) : Ident :=
  ⟨c.id, c.handle, c.path, c.properties, c.graceTime, c.resources.uid, c.resources.network⟩

/-- A mapping or permission that `Restore` takes as it is. -/
def Replayable (netIns : List NetInSpec) (netOuts : List NetOutSpec) : Prop :=
  (∀ n ∈ netIns, n.hostPort ≠ 0 ∧ n.containerPort ≠ 0) ∧
    ∀ n ∈ netOuts, n.port ≠ 0 ∨ n.network ≠ ""

/-- What an operation may do: at most one port moves from the front of the
    pool to the container. -/
structure Evolves (s s' : Cell) : Prop where
  ident : s'.container.ident = s.container.ident
  ports : s'.portPool = s.portPool ∧ s'.container.resources.ports = s.container.resources.ports ∨
    ∃ p, s.portPool.pool = p :: s'.portPool.pool ∧ s'.portPool.start = s.portPool.start ∧
      s'.portPool.size = s.portPool.size ∧
      s'.container.resources.ports = s.container.resources.ports ++ [p]
  replayable : 0 < s.portPool.start → Replayable s.container.netIns s.container.netOuts →
    Replayable s'.container.netIns s'.container.netOuts

theorem Evolves.of_eq {s s' : Cell} (hi : s'.container.ident = s.container.ident)
    (hp : s'.portPool = s.portPool)
    (hr : s'.container.resources.ports = s.container.resources.ports)
    (hn : s'.container.netIns = s.container.netIns)
    (ho : s'.container.netOuts = s.container.netOuts) : Evolves s s' :=
  ⟨hi, Or.inl ⟨hp, hr⟩, fun _ h => by rwa [hn, ho]⟩

namespace Evolves

variable {s s' : Cell} {p : UInt32}

theorem id (h : Evolves s s') : s'.container.id = s.container.id := congrArg Ident.id h.ident

theorem handle (h : Evolves s s') : s'.container.handle = s.container.handle :=
  congrArg Ident.handle h.ident

theorem uid (h : Evolves s s') : s'.container.resources.uid = s.container.resources.uid :=
  congrArg Ident.uid h.ident

theorem network (h : Evolves s s') :
    s'.container.resources.network = s.container.resources.network :=
  congrArg Ident.network h.ident

/-- A port of the container was its own before, or free. -/
theorem taken (h : Evolves s s') (hp : p ∈ s'.container.resources.ports) :
    p ∈ s.container.resources.ports ∨ p ∈ s.portPool.pool := by
  rcases h.ports with ⟨-, hsame⟩ | ⟨q, hpool, -, -, hadd⟩
  · exact Or.inl (hsame ▸ hp)
  · rw [hadd] at hp
    rcases List.mem_append.1 hp with hp | hp
    · exact Or.inl hp
    · rw [List.mem_singleton.1 hp, hpool]
      exact Or.inr List.mem_cons_self

theorem free (h : Evolves s s') (hp : p ∈ s'.portPool.pool) : p ∈ s.portPool.pool := by
  rcases h.ports with ⟨hpool, -⟩ | ⟨q, hpool, -⟩
  · exact hpool ▸ hp
  · rw [hpool]
    exact List.mem_cons_of_mem _ hp

theorem portStart (h : Evolves s s') : s'.portPool.start = s.portPool.start := by
  rcases h.ports with ⟨hpool, -⟩ | ⟨q, -, hstart, -⟩
  · rw [hpool]
  · exact hstart

/-- A free port is not one of the container's. -/
theorem nodup (h : Evolves s s') (hnd : s.container.resources.ports.Nodup)
    (hfree : ∀ p ∈ s.container.resources.ports, p ∉ s.portPool.pool) :
    s'.container.resources.ports.Nodup := by
  rcases h.ports with ⟨-, hsame⟩ | ⟨q, hpool, -, -, hadd⟩
  · exact hsame ▸ hnd
  · rw [hadd]
    refine List.nodup_append.2 ⟨hnd, List.nodup_singleton q, fun p hp p' hp' he => ?_⟩
    rw [he, List.mem_singleton.1 hp'] at hp
    refine hfree q hp ?_
    rw [hpool]
    exact List.mem_cons_self

end Evolves

/-- An operation whose outcomes all evolve from the state before it. -/
def Tame {α : Type} (x : EStateM Err Cell α) : Prop :=
  ∀ s, wp x (fun _ s' => Evolves s s') (fun _ s' => Evolves s s') s

section
variable {cfg : Config} {o : Oracle}

theorem wp_stopOomNotifier {Q : Unit → Cell → Prop} {E : Err → Cell → Prop} {s : Cell}
    (h : ∀ log, Q () { s with log := log }) : wp (stopOomNotifier o) Q E s := by
  simp only [stopOomNotifier, wp_bind, wp_get]
  cases s.container.oomNotifier with
  | none => exact h s.log
  | some cmd =>
    simp only [wp_attempt, wp_zoom, wp_call]
    exact ⟨fun _ _ => h _, fun _ _ => h _⟩

/-- `Cleanup` makes calls only, and returns when every tracked process is linked. -/
theorem wp_cleanup {Q : Unit → Cell → Prop} {E : Err → Cell → Prop} {s : Cell}
    (hall : s.container.processTracker.AllLinked) (h : ∀ log, Q () { s with log := log }) :
    wp (cleanup o) Q E s := by
  rw [cleanup, wp_bind]
  refine wp_stopOomNotifier fun log => ?_
  rw [wp_bind, wp_get, wp_zoom]
  exact ProcessTracker.wp_unlinkAll hall h

theorem wp_cleanup_blocked {s : Cell} (hn : ¬ s.container.processTracker.AllLinked) :
    wp (cleanup o) (fun _ _ => False) (fun e s' => e = .blocked ∧ s'.container = s.container) s := by
  rw [cleanup, wp_bind]
  refine wp_stopOomNotifier fun log => ?_
  rw [wp_bind, wp_get, wp_zoom]
  refine wp_mono (ProcessTracker.wp_unlinkAll_blocked hn) (fun _ _ h => h) ?_
  rintro e t ⟨rfl, htracker⟩
  exact ⟨rfl, by simp [Cell.tracked, htracker]⟩

theorem tame_stop (kill : Bool) : Tame (stop o kill) := fun s => by
  simp only [stop, setState, update, wp_bind, wp_get, wp_zoom, wp_call]
  refine ⟨fun _ _ => wp_stopOomNotifier fun log => ?_, fun _ _ => .of_eq rfl rfl rfl rfl rfl⟩
  simp only [wp_modify]
  exact .of_eq rfl rfl rfl rfl rfl

theorem tame_watchForOom : Tame (watchForOom o) := fun s => by
  simp only [watchForOom, registerEvent, update, wp_bind, wp_modify, wp_attempt]
  have key : ∀ s' : Cell, Evolves { s with container :=
      { s.container with events := s.container.events ++ ["out of memory"] } } s' → Evolves s s' :=
    fun s' h => ⟨h.ident, h.ports, h.replayable⟩
  exact wp_mono (tame_stop false _) (fun _ s' => key s') (fun _ s' => key s')

theorem wp_startOomNotifier {Q : Unit → Cell → Prop} {E : Err → Cell → Prop} {s : Cell}
    (hQ : ∀ oom log, Q () { s with
      container := { s.container with oomNotifier := oom }, log := log })
    (hE : ¬ o.Succeeds → ∀ oom e log, E e { s with
      container := { s.container with oomNotifier := oom }, log := log }) :
    wp (startOomNotifier cfg o) Q E s := by
  simp only [startOomNotifier, wp_bind, wp_get]
  cases hc : s.container.oomNotifier with
  | some oom =>
    have h := hQ (some oom) s.log
    rw [← hc] at h
    exact h
  | none =>
    simp only [update, wp_bind, wp_modify, wp_zoom, wp_call]
    exact ⟨fun _ _ => hQ _ _, fun e he => hE (Oracle.not_succeeds he) _ e _⟩

/-- `LimitMemory` touches the notifier and the limit only. -/
theorem wp_limitMemory {Q : Unit → Cell → Prop} {E : Err → Cell → Prop} {s : Cell}
    (limits : MemoryLimits)
    (hQ : ∀ oom log, Q () { s with container := { s.container with
      oomNotifier := oom, currentMemoryLimits := some limits }, log := log })
    (hE : ¬ o.Succeeds → ∀ oom e log, E e { s with
      container := { s.container with oomNotifier := oom }, log := log }) :
    wp (limitMemory cfg o limits) Q E s := by
  rw [limitMemory, wp_bind]
  refine wp_startOomNotifier (fun oom log => ?_) hE
  simp only [update, wp_bind, wp_get, wp_attempt, wp_zoom, wp_call, wp_modify]
  -- the first two writes only lengthen the log
  refine ⟨fun _ _ => ⟨fun _ _ => ?_, fun _ _ => ?_⟩, fun _ _ => ⟨fun _ _ => ?_, fun _ _ => ?_⟩⟩
  all_goals exact ⟨fun _ _ => hQ _ _, fun e he => hE (Oracle.not_succeeds he) _ e _⟩

theorem tame_limitMemory (limits : MemoryLimits) : Tame (limitMemory cfg o limits) := fun _ =>
  wp_limitMemory limits (fun _ _ => .of_eq rfl rfl rfl rfl rfl)
    (fun _ _ _ _ => .of_eq rfl rfl rfl rfl rfl)

theorem tame_limitBandwidth (limits : BandwidthLimits) : Tame (limitBandwidth o limits) := fun s => by
  simp only [limitBandwidth, update, wp_bind, wp_get, wp_zoom, wp_call, wp_modify]
  exact ⟨fun _ _ => .of_eq rfl rfl rfl rfl rfl, fun _ _ => .of_eq rfl rfl rfl rfl rfl⟩

theorem tame_limitDisk (limits : DiskLimits) : Tame (limitDisk o limits) := fun s => by
  simp only [limitDisk, update, wp_bind, wp_get, wp_zoom, wp_call, wp_modify]
  exact ⟨fun _ _ => .of_eq rfl rfl rfl rfl rfl, fun _ _ => .of_eq rfl rfl rfl rfl rfl⟩

theorem tame_limitCPU (limits : CPULimits) : Tame (limitCPU o limits) := fun s => by
  simp only [limitCPU, update, wp_bind, wp_get, wp_zoom, wp_call, wp_modify]
  exact ⟨fun _ _ => .of_eq rfl rfl rfl rfl rfl, fun _ _ => .of_eq rfl rfl rfl rfl rfl⟩

theorem replayable_netIn {ins : List NetInSpec} {outs : List NetOutSpec} {n : NetInSpec}
    (h : Replayable ins outs) (hn : n.hostPort ≠ 0 ∧ n.containerPort ≠ 0) :
    Replayable (ins ++ [n]) outs := by
  refine ⟨fun m hm => ?_, h.2⟩
  rcases List.mem_append.1 hm with hm | hm
  · exact h.1 m hm
  · rw [List.mem_singleton.1 hm]; exact hn

theorem replayable_netOut {ins : List NetInSpec} {outs : List NetOutSpec} {n : NetOutSpec}
    (h : Replayable ins outs) (hn : n.port ≠ 0 ∨ n.network ≠ "") :
    Replayable ins (outs ++ [n]) := by
  refine ⟨h.1, fun m hm => ?_⟩
  rcases List.mem_append.1 hm with hm | hm
  · exact h.2 m hm
  · rw [List.mem_singleton.1 hm]; exact hn

theorem tame_netIn (hostPort containerPort : UInt32) :
    Tame (netIn cfg o hostPort containerPort) := fun s => by
  have hcp : ∀ h : UInt32, h ≠ 0 → (if containerPort = 0 then h else containerPort) ≠ 0 := by
    intro h hh
    split_ifs with hc
    exacts [hh, hc]
  simp only [netIn, hostPortFor, PortPool.acquire, update, wp_bind, wp_ite, wp_get, wp_zoom, wp_call,
    wp_modify, wp_pure, FreeList.Stock.wp_acquire]
  refine ⟨fun _ => ⟨fun p rest hpool hsub => ?_, fun _ => .of_eq rfl rfl rfl rfl rfl⟩, fun hne => ?_⟩
  · -- a port of the pool, which starts above 0
    have hp0 : 0 < s.portPool.start → p ≠ 0 := by
      rintro hlt rfl
      have hin := (s.portPool.inRange 0 (by rw [show s.portPool.pool = _ from hpool]; simp)).1
      exact absurd hlt (UInt32.not_lt.2 hin)
    exact ⟨fun _ _ => ⟨rfl, Or.inr ⟨p, hpool, rfl, rfl, rfl⟩,
        fun hlt h => replayable_netIn h ⟨hp0 hlt, hcp p (hp0 hlt)⟩⟩,
      fun _ _ => ⟨rfl, Or.inr ⟨p, hpool, rfl, rfl, rfl⟩, fun _ h => h⟩⟩
  · exact ⟨fun _ _ => ⟨rfl, Or.inl ⟨rfl, rfl⟩,
        fun _ h => replayable_netIn h ⟨hne, hcp hostPort hne⟩⟩,
      fun _ _ => .of_eq rfl rfl rfl rfl rfl⟩

theorem tame_netOut (network : String) (port : UInt32) : Tame (netOut cfg o network port) :=
  fun s => by
  simp only [netOut, update, wp_bind, wp_ensure, wp_get, wp_zoom, wp_call, wp_modify]
  exact ⟨fun hok => ⟨fun _ _ => ⟨rfl, Or.inl ⟨rfl, rfl⟩, fun _ h => replayable_netOut h hok⟩,
      fun _ _ => .of_eq rfl rfl rfl rfl rfl⟩,
    fun _ => .of_eq rfl rfl rfl rfl rfl⟩

/-- `Run` touches the tracker and the log only. -/
theorem tame_run (spec : ProcessSpec) : Tame (run o spec) := fun s => by
  rw [run, wp_bind, wp_get, wp_zoom]
  have same : ∀ t : ProcessTracker.Tracked, Evolves s (Cell.tracked.set t s) :=
    fun _ => .of_eq rfl rfl rfl rfl rfl
  exact wp_any (fun _ t => same t) fun _ t => same t

/-- **No operation takes more than one port**, and none touches what stays with
    the container. -/
theorem tame_perform : ∀ op : Op, Tame (perform cfg o op)
  | .stop kill => tame_stop kill
  | .oom => tame_watchForOom
  | .limitMemory limits => tame_limitMemory limits
  | .limitBandwidth limits => tame_limitBandwidth limits
  | .limitDisk limits => tame_limitDisk limits
  | .limitCPU limits => tame_limitCPU limits
  | .netIn hostPort containerPort => fun s => by
    rw [perform, wp_bind]
    exact tame_netIn hostPort containerPort s
  | .netOut network port => tame_netOut network port
  | .run spec => fun s => by
    rw [perform, wp_bind]
    exact tame_run spec s

end

/-! ## Restoring -/

/-- What `Restore` leaves of the cell `s` when every call succeeds. -/
structure Restored (snapshot : ContainerSnapshot) (s s' : Cell) : Prop where
  portPool : s'.portPool = s.portPool
  ident : s'.container.ident = s.container.ident
  ports : s'.container.resources.ports = s.container.resources.ports
  state : s'.container.state = ⟨snapshot.state⟩
  events : s'.container.events = s.container.events ++ snapshot.events
  memory : s'.container.currentMemoryLimits =
    snapshot.limits.memory.or s.container.currentMemoryLimits
  bandwidth : s'.container.currentBandwidthLimits = s.container.currentBandwidthLimits
  disk : s'.container.currentDiskLimits = s.container.currentDiskLimits
  cpu : s'.container.currentCPULimits = s.container.currentCPULimits
  processTracker : s'.container.processTracker =
    ProcessTracker.restoreAll snapshot.processes s.container.processTracker
  netIns : s'.container.netIns = s.container.netIns ++ snapshot.netIns
  netOuts : s'.container.netOuts = s.container.netOuts ++ snapshot.netOuts

section
variable {cfg : Config} {o : Oracle} {Q : Unit → Cell → Prop} {E : Err → Cell → Prop}

theorem wp_each_registerEvent : ∀ (events : List String) {s : Cell},
    Q () { s with container := { s.container with events := s.container.events ++ events } } →
      wp (each registerEvent events) Q E s
  | [], s, h => by simpa [each] using h
  | e :: es, s, h => by
    simp only [each, registerEvent, update, wp_bind, wp_modify]
    refine wp_each_registerEvent es ?_
    simpa using h

theorem wp_each_netIn (hs : o.Succeeds) : ∀ {ins : List NetInSpec} {s : Cell},
    (∀ n ∈ ins, n.hostPort ≠ 0 ∧ n.containerPort ≠ 0) →
    (∀ log, Q () { s with
      container := { s.container with netIns := s.container.netIns ++ ins }, log := log }) →
      wp (each (fun n => do let _ ← netIn cfg o n.hostPort n.containerPort) ins) Q E s
  | [], s, _, h => by simpa [each] using h s.log
  | n :: ins, s, hn, h => by
    obtain ⟨hh, hc⟩ := hn n List.mem_cons_self
    simp only [each, netIn, hostPortFor, if_neg hh, if_neg hc, update, wp_bind, wp_get, wp_zoom,
      wp_call, wp_modify, wp_pure]
    refine ⟨fun _ _ => wp_each_netIn hs (fun m hm => hn m (List.mem_cons_of_mem _ hm)) fun log => ?_,
      fun e he => absurd hs (Oracle.not_succeeds he)⟩
    simpa [Cell.calls] using h log

theorem wp_each_netOut (hs : o.Succeeds) : ∀ {outs : List NetOutSpec} {s : Cell},
    (∀ n ∈ outs, n.port ≠ 0 ∨ n.network ≠ "") →
    (∀ log, Q () { s with
      container := { s.container with netOuts := s.container.netOuts ++ outs }, log := log }) →
      wp (each (fun n => netOut cfg o n.network n.port) outs) Q E s
  | [], s, _, h => by simpa [each] using h s.log
  | n :: outs, s, hn, h => by
    simp only [each, netOut, update, wp_bind, wp_ensure, wp_get, wp_zoom, wp_call, wp_modify]
    refine ⟨fun _ => ⟨fun _ _ => wp_each_netOut hs (fun m hm => hn m (List.mem_cons_of_mem _ hm))
      fun log => ?_, fun e he => absurd hs (Oracle.not_succeeds he)⟩,
      fun hbad => absurd (hn n List.mem_cons_self) hbad⟩
    simpa [Cell.calls] using h log

theorem wp_restoreLimits (hs : o.Succeeds) {limits : LimitsSnapshot} {s : Cell}
    (h : ∀ oom log, Q () { s with container := { s.container with
      oomNotifier := oom,
      currentMemoryLimits := limits.memory.or s.container.currentMemoryLimits }, log := log }) :
    wp (restoreLimits cfg o limits) Q E s := by
  unfold restoreLimits
  cases hm : limits.memory with
  | none => rw [hm] at h; exact h _ _
  | some memory =>
    rw [hm] at h
    exact wp_limitMemory memory (fun oom log => h oom log) (fun hn => absurd hs hn)

/-- **`Restore` replays a snapshot.** -/
theorem wp_restore (cfg : Config) (hs : o.Succeeds) {snapshot : ContainerSnapshot} {s : Cell}
    (hr : Replayable snapshot.netIns snapshot.netOuts) :
    wp (restore cfg o snapshot) (fun _ s' => Restored snapshot s s') (fun _ _ => False) s := by
  simp only [restore, setState, update, wp_bind, wp_modify, wp_get, wp_zoom, wp_call]
  refine wp_each_registerEvent snapshot.events ?_
  refine wp_restoreLimits hs fun oom log => ?_
  refine ⟨fun _ _ => ?_, fun _ he => Oracle.not_succeeds he hs⟩
  refine wp_each_netIn hs hr.1 fun log₂ => wp_each_netOut hs hr.2 fun log₃ => ?_
  exact ⟨rfl, rfl, rfl, rfl, rfl, rfl, rfl, rfl, rfl, rfl, rfl, rfl⟩

end

end LinuxContainer

end WardenLinux
