/-
  The backend (linux_backend.go): the registry of containers, and `Create`,
  `Destroy`, `Lookup`, `Start` and `Stop`, one request at a time.

  A container is an object: the registry and the clients hold its address, an
  index in the list of all objects made.  The files under the snapshots path
  are part of the state.

  `create_cases`, `wp_destroy` and `wp_object` say what a request can do to the
  registry, the objects and the pools.
-/
import WardenLinux.ContainerPool

namespace WardenLinux

open Fallible

instance : Inhabited LinuxContainer :=
  ⟨.new "" "" "" [] 0 ⟨0, ⟨⟨[], 0⟩, [], []⟩, []⟩⟩

/-- `LinuxBackend` -/
structure LinuxBackend where
  pool : LinuxContainerPool
  snapshotsPath : String
  /-- every container object made, by its address -/
  heap : List LinuxContainer
  /-- `containers` -/
  containers : AList (fun _ : String => ℕ)
  /-- the files under the snapshots path -/
  snapshots : AList (fun _ : String => String)

namespace LinuxBackend

/-- `New`; the files stay from an earlier daemon. -/
def new (pool : LinuxContainerPool) (snapshotsPath : String)
    (snapshots : AList (fun _ : String => String)) : LinuxBackend :=
  ⟨pool, snapshotsPath, [], ∅, snapshots⟩

/-- The object at an address. -/
def container (b : LinuxBackend) (i : ℕ) : LinuxContainer := b.heap.getD i default

def containerPool : Part LinuxBackend LinuxContainerPool :=
  ⟨LinuxBackend.pool, fun p b => { b with pool := p }⟩

def calls : Part LinuxBackend (List Call) :=
  ⟨fun b => b.pool.log, fun l b => { b with pool := { b.pool with log := l } }⟩

/-- A container object, with what its operations reach. -/
def object (i : ℕ) : Part LinuxBackend Cell where
  get b := ⟨b.container i, b.pool.portPool, b.pool.log⟩
  set cell b := { b with
    heap := b.heap.set i cell.container
    pool := { b.pool with portPool := cell.portPool, log := cell.log } }

/-- A new object. -/
def alloc (c : LinuxContainer) : EStateM Err LinuxBackend ℕ := fun b =>
  .ok b.heap.length { b with heap := b.heap ++ [c] }

/-- `b.containers[container.Handle()] = container` -/
def register (i : ℕ) (b : LinuxBackend) : LinuxBackend :=
  { b with containers := b.containers.insert (b.container i).handle i }

/-- `Lookup` -/
def lookup (handle : String) : EStateM Err LinuxBackend ℕ := fun b =>
  match b.containers.lookup handle with
  | none => .error (.unknownHandle handle) b
  | some i => .ok i b

section
variable (cfg : Config) (o : Oracle)

/-- `Create` -/
def create (spec : ContainerSpec) : EStateM Err LinuxBackend ℕ := do
  let c ← zoom containerPool (LinuxContainerPool.create cfg o spec)
  let i ← alloc c
  zoom (object i) (LinuxContainer.start cfg o)
  modify (register i)
  return i

/-- `Destroy` -/
def destroy (handle : String) : EStateM Err LinuxBackend Unit := do
  let i ← lookup handle
  let b ← get
  zoom containerPool (LinuxContainerPool.destroy cfg o (b.container i))
  modify fun b => { b with containers := b.containers.erase (b.container i).handle }

/-! ## Stop and Start -/

/-- `saveSnapshot` -/
def saveSnapshot (i : ℕ) : EStateM Err LinuxBackend Unit := do
  let b ← get
  let c := b.container i
  if b.snapshotsPath = "" then pure ()
  else do
    zoom calls (call o (.saveFile (pathJoin [b.snapshotsPath, c.id]) (cfg.encode c.snapshot)))
    modify fun b => { b with snapshots := b.snapshots.insert c.id (cfg.encode c.snapshot) }

/-- `Stop`, with the registered containers in the order the map gives them. -/
def stop (order : List ℕ) : EStateM Err LinuxBackend Unit :=
  each (fun i => do
    zoom (object i) (LinuxContainer.cleanup o)
    attempt (saveSnapshot cfg o i)) order

/-- `restore` -/
def restore (text : String) : EStateM Err LinuxBackend ℕ := do
  let c ← zoom containerPool (LinuxContainerPool.restore cfg o text)
  let i ← alloc c
  modify (register i)
  return i

/-- The body of the loop of `restoreSnapshots`; a file that cannot be opened
    cannot be decoded. -/
def restoreEntry (name : String) : EStateM Err LinuxBackend Unit := do
  let b ← get
  zoom calls (call o (.readFile (pathJoin [b.snapshotsPath, name])))
  match b.snapshots.lookup name with
  | none => throw (.external "invalid argument")
  | some text => do let _ ← restore cfg o text

/-- `restoreSnapshots` -/
def restoreSnapshots : EStateM Err LinuxBackend Unit := do
  let b ← get
  let entries ← getD (zoom calls (ask o (.readDir b.snapshotsPath))) {}
  each (fun name => attempt (restoreEntry cfg o name)) entries.names

/-- The part of `Start` for the snapshots, when there is a path for them. -/
def startSnapshots : EStateM Err LinuxBackend Unit := do
  let b ← get
  attempt (do
    zoom calls (call o (.stat b.snapshotsPath))
    restoreSnapshots cfg o
    zoom calls (call o (.removeAll b.snapshotsPath))
    modify fun b => { b with snapshots := ∅ })
  zoom calls (call o (.mkdirAll b.snapshotsPath))

/-- The addresses of the registered containers. -/
def registered (b : LinuxBackend) : List ℕ := b.containers.entries.map Sigma.snd

/-- `Start` -/
def start : EStateM Err LinuxBackend Unit := do
  let b ← get
  if b.snapshotsPath ≠ "" then startSnapshots cfg o else pure ()
  let b ← get
  zoom calls (LinuxContainerPool.prune cfg o (b.registered.map fun i => (b.container i).id))

end

/-! ## Requests -/

/-- A request on the backend, or on a container whose address was returned
    before. -/
inductive Request where
  | create (spec : ContainerSpec)
  | destroy (handle : String)
  | container (i : ℕ) (op : LinuxContainer.Op)
  deriving DecidableEq, Repr

/-- The state after a request has run to its end. -/
def serve (cfg : Config) (o : Oracle) (b : LinuxBackend) : Request → LinuxBackend
  | .create spec => final (create cfg o spec b)
  | .destroy handle => final (destroy cfg o handle b)
  | .container i op =>
    if i < b.heap.length then final (zoom (object i) (LinuxContainer.perform cfg o op) b) else b

/-- The state after a sequence of requests. -/
def serveAll (cfg : Config) (o : Oracle) (rs : List Request) (b : LinuxBackend) : LinuxBackend :=
  rs.foldl (serve cfg o) b

/-! ## Objects -/

theorem serveAll_cons (cfg : Config) (o : Oracle) (r : Request) (rs : List Request)
    (b : LinuxBackend) : serveAll cfg o (r :: rs) b = serveAll cfg o rs (serve cfg o b r) := rfl

theorem serveAll_append (cfg : Config) (o : Oracle) (rs rs' : List Request) (b : LinuxBackend) :
    serveAll cfg o (rs ++ rs') b = serveAll cfg o rs' (serveAll cfg o rs b) :=
  List.foldl_append

theorem container_append {b b' : LinuxBackend} {c : LinuxContainer} (h : b'.heap = b.heap ++ [c])
    {i : ℕ} (hi : i < b.heap.length) : b'.container i = b.container i := by
  simp only [container, h, List.getD_eq_getElem?_getD, List.getElem?_append_left hi]

theorem container_append_self {b b' : LinuxBackend} {c : LinuxContainer}
    (h : b'.heap = b.heap ++ [c]) : b'.container b.heap.length = c := by
  simp [container, h]

/-- An object is the new one, or an old one. -/
theorem container_append_cases {b b' : LinuxBackend} {c : LinuxContainer}
    (h : b'.heap = b.heap ++ [c]) {i : ℕ} (hi : i < b'.heap.length) :
    (i = b.heap.length ∧ b'.container i = c) ∨
      i < b.heap.length ∧ b'.container i = b.container i := by
  rw [h, List.length_append, List.length_singleton] at hi
  rcases Nat.lt_or_ge i b.heap.length with hlt | hge
  · exact Or.inr ⟨hlt, container_append h hlt⟩
  · have he : i = b.heap.length := by omega
    exact Or.inl ⟨he, he ▸ container_append_self h⟩

theorem container_set_self {b : LinuxBackend} {i : ℕ} (hi : i < b.heap.length) (cell : Cell) :
    ((object i).set cell b).container i = cell.container := by
  simp [container, object, hi]

theorem container_set_ne {b : LinuxBackend} {i j : ℕ} (h : i ≠ j) (cell : Cell) :
    ((object i).set cell b).container j = b.container j := by
  simp [container, object, List.getElem?_set_ne h]

/-- An object is the one that is set, or as before. -/
theorem container_set_cases {b : LinuxBackend} {i : ℕ} (hi : i < b.heap.length) (cell : Cell)
    (j : ℕ) : j = i ∧ ((object i).set cell b).container j = cell.container ∨
      ((object i).set cell b).container j = b.container j := by
  by_cases hij : i = j
  · subst hij
    exact Or.inl ⟨rfl, container_set_self hi cell⟩
  · exact Or.inr (container_set_ne hij cell)

/-! ## What a request can do -/

/-- What a `Create` can do. -/
inductive Created (cfg : Config) (o : Oracle) (spec : ContainerSpec) (b b' : LinuxBackend) : Prop
  /-- the pool's `Create` fails -/
  | refused (e : Err) (p : LinuxContainerPool) :
      LinuxContainerPool.create cfg o spec b.pool = .error e p → b' = { b with pool := p } →
      Created cfg o spec b b'
  /-- the container is not started, and is not registered -/
  | orphaned (c : LinuxContainer) (p : LinuxContainerPool) (e : Err) (log : List Call) :
      LinuxContainerPool.create cfg o spec b.pool = .ok c p →
      o p.log (.run (LinuxContainer.startCmd cfg c)) = .error e →
      b' = { b with pool := { p with log := log }, heap := b.heap ++ [c] } → Created cfg o spec b b'
  /-- the container is started and registered -/
  | registered (c : LinuxContainer) (p : LinuxContainerPool) (r : Answer) (log : List Call) :
      LinuxContainerPool.create cfg o spec b.pool = .ok c p →
      o p.log (.run (LinuxContainer.startCmd cfg c)) = .ok r →
      b' = { b with
        pool := { p with log := log }
        heap := b.heap ++ [{ c with state := .active }]
        containers := b.containers.insert c.handle b.heap.length } → Created cfg o spec b b'

section
variable {cfg : Config} {o : Oracle} {b : LinuxBackend}

theorem set_append (b : LinuxBackend) (p : LinuxContainerPool) (c c' : LinuxContainer)
    (log : List Call) :
    (object b.heap.length).set ⟨c', p.portPool, log⟩ { b with pool := p, heap := b.heap ++ [c] } =
      { b with pool := { p with log := log }, heap := b.heap ++ [c'] } := by
  simp [object]

theorem create_cases (cfg : Config) (o : Oracle) (b : LinuxBackend) (spec : ContainerSpec) :
    Created cfg o spec b (final (create cfg o spec b)) := by
  refine wp_final (P := fun b' => Created cfg o spec b b') ?_
  simp only [create, wp_bind, wp_zoom]
  rcases hp : LinuxContainerPool.create cfg o spec b.pool with ⟨c, p⟩ | ⟨e, p⟩
  · rw [wp_ok (show LinuxContainerPool.create cfg o spec (containerPool.get b) = .ok c p from hp)]
    rw [wp_ok (show alloc c (containerPool.set p b) =
      .ok b.heap.length { b with pool := p, heap := b.heap ++ [c] } from rfl)]
    have hget : (object b.heap.length).get { b with pool := p, heap := b.heap ++ [c] } =
        ⟨c, p.portPool, p.log⟩ := by
      simp [object, container]
    rw [hget]
    simp only [LinuxContainer.start, LinuxContainer.setState, LinuxContainer.update, Cell.calls,
      wp_bind, wp_get, wp_zoom, wp_call, wp_modify, wp_pure, set_append]
    refine ⟨fun r hr => .registered c p r (p.log ++ [.run (LinuxContainer.startCmd cfg c)]) hp hr ?_,
      fun e he => .orphaned c p e _ hp he rfl⟩
    simp [register, container]
  · rw [wp_error
      (show LinuxContainerPool.create cfg o spec (containerPool.get b) = .error e p from hp)]
    exact .refused e p hp rfl

theorem wp_lookup {Q : ℕ → LinuxBackend → Prop} {E : Err → LinuxBackend → Prop} (handle : String) :
    wp (lookup handle) Q E b ↔ (∀ i, b.containers.lookup handle = some i → Q i b) ∧
      (b.containers.lookup handle = none → E (.unknownHandle handle) b) := by
  rcases h : b.containers.lookup handle with _ | i
  · rw [wp_error (show lookup handle b = .error (.unknownHandle handle) b by simp only [lookup, h])]
    simp
  · rw [wp_ok (show lookup handle b = .ok i b by simp only [lookup, h])]
    simp

/-- A `Destroy` releases the container's resources and unregisters it, or does
    nothing. -/
theorem wp_destroy {Q : Unit → LinuxBackend → Prop} {E : Err → LinuxBackend → Prop} (handle : String)
    (hQ : ∀ i log, b.containers.lookup handle = some i → Q () { b with
      pool := LinuxContainerPool.releaseAll (b.container i).resources { b.pool with log := log }
      containers := b.containers.erase (b.container i).handle })
    (hE : ∀ e log, E e { b with pool := { b.pool with log := log } }) :
    wp (destroy cfg o handle) Q E b := by
  simp only [destroy, wp_bind, wp_lookup, wp_get, wp_zoom]
  refine ⟨fun i hi => ?_, fun _ => hE _ b.pool.log⟩
  exact LinuxContainerPool.wp_destroy _ (fun log => hQ i log hi) (fun e log => hE e log)

/-- A tame operation changes its object, the ports and the log only. -/
theorem wp_object {α : Type} {x : EStateM Err Cell α} (hx : LinuxContainer.Tame x)
    {P : LinuxBackend → Prop} (i : ℕ)
    (h : ∀ cell, LinuxContainer.Evolves ((object i).get b) cell → P ((object i).set cell b)) :
    P (final (zoom (object i) x b)) := by
  refine wp_final (P := P) ?_
  rw [wp_zoom]
  exact wp_mono (hx _) (fun _ cell hc => h cell hc) (fun _ cell hc => h cell hc)

end

end LinuxBackend

end WardenLinux
