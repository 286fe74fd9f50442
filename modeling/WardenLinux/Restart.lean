/-
  A daemon that is stopped and one that is started with its snapshots.

  `restart_preserves`: when every spawn of a `Run` becomes ready and every call of
  the restart succeeds, the new daemon has the same containers, its free resources
  are those that no container holds, and `Prune` destroys what is left in the depot.
  The snapshots must have a path, the containers different IDs, and the depot known
  providers (`restart_loses`).
-/
import WardenLinux.ReadyRuns
import WardenLinux.Snapshots

namespace WardenLinux

open Fallible FreeList

namespace LinuxBackend

variable {cfg : Config} {o : Oracle}

/-! ## A restart -/

/-- What a restart of the daemon `b`, made as `b₀`, is to keep: the containers,
    and the new pools without what they hold. -/
structure Preserved (b₀ b b' : LinuxBackend) : Prop where
  handles : ∀ h, (∃ i, b'.containers.lookup h = some i) ↔ ∃ i, b.containers.lookup h = some i
  same : ∀ h i j, b.containers.lookup h = some i → b'.containers.lookup h = some j →
    Same (b.container i) (b'.container j)
  uids : ∀ u, u ∈ b'.pool.uidPool.pool ↔ u ∈ b₀.pool.uidPool.pool ∧ ∀ h, ¬ b'.Holds HasUID h u
  networks : ∀ t, t ∈ b'.pool.networkPool.pool.map Network.string ↔
    t ∈ b₀.pool.networkPool.pool.map Network.string ∧ ∀ h, ¬ b'.Holds HasNetwork h t
  ports : ∀ p, p ∈ b'.pool.portPool.pool ↔ p ∈ b₀.pool.portPool.pool ∧ ∀ h, ¬ b'.Holds HasPort h p

theorem Preserved.mem_keys {b₀ b b' : LinuxBackend} (h : Preserved b₀ b b') {k : String} {i : ℕ}
    (hk : b.containers.lookup k = some i) : k ∈ b'.containers.keys := by
  obtain ⟨j, hj⟩ := (h.handles k).2 ⟨i, hk⟩
  exact AList.mem_keys.1 (AList.lookup_isSome.1 (hj ▸ rfl))

section
variable {b₀ b b' : LinuxBackend} {cs : List LinuxContainer} (hF : b.Filed)
  (hperm : cs.Perm (b.registered.map b.container))
include hF hperm

/-- The rebuilt containers are the registered ones. -/
theorem mem_rebuilt_iff {c : LinuxContainer} :
    c ∈ cs ↔ ∃ i, b.containers.lookup c.handle = some i ∧ b.container i = c := by
  rw [hperm.mem_iff, List.mem_map]
  constructor
  · rintro ⟨i, hi, rfl⟩
    obtain ⟨k, hk⟩ := mem_registered.1 hi
    exact ⟨i, (hF k i hk).2.symm ▸ hk, rfl⟩
  · rintro ⟨i, hi, rfl⟩
    exact ⟨i, mem_registered.2 ⟨_, hi⟩, rfl⟩

/-- What they hold is what the new daemon's containers hold. -/
theorem Rebuilt.not_holds_iff (h : Rebuilt b₀.pool cs b') {R : Type} {f : Resources → R → Prop}
    {r : R} : (∀ c ∈ cs, ¬ f c.resources r) ↔ ∀ k, ¬ b'.Holds f k r := by
  constructor
  · rintro hc k ⟨i, hi, hf⟩
    obtain ⟨-, c, hcs, -, hsame⟩ := h.handles k i hi
    exact hc c hcs (hsame.resources ▸ hf)
  · intro hk c hc hf
    obtain ⟨i, hi⟩ := h.containers c hc
    obtain ⟨-, c', hc', hh, hsame⟩ := h.handles _ i hi
    obtain ⟨j, hj, rfl⟩ := (mem_rebuilt_iff hF hperm).1 hc
    obtain ⟨j', hj', rfl⟩ := (mem_rebuilt_iff hF hperm).1 hc'
    rw [hh, hj] at hj'
    cases hj'
    exact hk _ ⟨i, hi, hsame.resources.symm ▸ hf⟩

theorem Rebuilt.preserved (h : Rebuilt b₀.pool cs b') : Preserved b₀ b b' := by
  refine ⟨fun k => ⟨?_, ?_⟩, fun k i j hi hj => ?_, fun u => ?_, fun t => ?_, fun p => ?_⟩
  · rintro ⟨i, hi⟩
    obtain ⟨-, c, hc, rfl, -⟩ := h.handles k i hi
    obtain ⟨j, hj, -⟩ := (mem_rebuilt_iff hF hperm).1 hc
    exact ⟨j, hj⟩
  · rintro ⟨i, hi⟩
    have hk := (hF k i hi).2
    rw [← hk] at hi ⊢
    exact h.containers _ ((mem_rebuilt_iff hF hperm).2 ⟨i, hi, rfl⟩)
  · obtain ⟨-, c, hc, rfl, hsame⟩ := h.handles k j hj
    obtain ⟨i', hi', rfl⟩ := (mem_rebuilt_iff hF hperm).1 hc
    rw [hi] at hi'
    cases hi'
    exact hsame
  · rw [h.uids u]
    exact and_congr_right fun _ => Rebuilt.not_holds_iff hF hperm h (f := HasUID)
  · rw [h.networks t]
    exact and_congr_right fun _ => Rebuilt.not_holds_iff hF hperm h (f := HasNetwork)
  · rw [h.ports p]
    exact and_congr_right fun _ => Rebuilt.not_holds_iff hF hperm h (f := HasPort)

end

theorem Retained.files {b₀ b : LinuxBackend} (h : Retained b₀ b) (h₀ : b₀.snapshots = ∅)
    (hjson : ∀ i ∈ b.registered,
      cfg.decode (cfg.encode (b.container i).snapshot) = .ok (b.container i).snapshot)
    {order : List ℕ} (horder : order.Perm b.registered) :
    Files cfg b (saveAll cfg b order b.snapshots) := by
  have hnd : (order.map fun i => (b.container i).id).Nodup :=
    (horder.map _).nodup_iff.2 h.nodup_ids
  have hkeys : b.snapshots.keys = [] := by rw [h.snapshots, h₀]; rfl
  refine ⟨?_, fun i hi => ⟨_, lookup_saveAll hnd (horder.mem_iff.2 hi), hjson i hi⟩⟩
  refine (keys_saveAll hnd fun i _ => by simp [hkeys]).trans ?_
  rw [hkeys, List.append_nil, List.map_map]
  exact horder.map _

/-- New pools have nothing taken out of them. -/
theorem rebuilt_fresh {fuel : ℕ} {ipNet : IPNet} {networks : RealNetworkPool}
    (hn : RealNetworkPool.new fuel ipNet = some networks) (us uz ps pz : UInt32) (num num' : ℕ)
    (path : String) (files : AList (fun _ : String => String)) :
    Rebuilt (fresh us uz ps pz networks num path).pool []
      { fresh us uz ps pz networks num' path with snapshots := files } := by
  have none : ∀ c : LinuxContainer, c ∉ [] := fun _ => List.not_mem_nil
  refine ⟨fun h i hi => ?_, fun c hc => absurd hc (none c), fun u => ?_, fun t => ?_, fun p => ?_,
    nodup_fill _ _, RealNetworkPool.new_nodup hn⟩
  · simp [fresh, new] at hi
  all_goals exact ⟨fun hm => ⟨hm, fun c hc => absurd hc (none c)⟩, fun hm => hm.1⟩

/-- What `Prune` does at the end of a `Start`: of the entries of the depot it
    destroys those that are not the temporary directory nor a container's. -/
def Pruned (cfg : Config) (o : Oracle) (b : LinuxBackend) : Prop :=
  ∃ log r calls, o log (.readDir cfg.depotPath) = .ok r ∧
    b.pool.log = log ++ .readDir cfg.depotPath :: calls ∧
    DestroyLog cfg (r.names.filter fun id =>
      id ≠ "tmp" ∧ id ∉ b.registered.map fun i => (b.container i).id) calls

/-- A daemon that is made, serves requests, is stopped, and is started again
    with its files and new pools. -/
structure Scenario where
  cfg : Config
  /-- the outcomes of the calls of the requests, of `Stop` and of `Start` -/
  serving : Oracle
  stopping : Oracle
  starting : Oracle
  networks : RealNetworkPool
  uidStart : UInt32
  uidSize : UInt32
  portStart : UInt32
  portSize : UInt32
  /-- the first container number of either daemon -/
  containerNum : ℕ
  containerNum' : ℕ
  snapshotsPath : String
  requests : List Request
  /-- the order in which `Stop` finds the containers -/
  order : List ℕ

namespace Scenario

variable (S : Scenario)

def made : LinuxBackend :=
  fresh S.uidStart S.uidSize S.portStart S.portSize S.networks S.containerNum S.snapshotsPath

def served : LinuxBackend := serveAll S.cfg S.serving S.requests S.made

def files : AList (fun _ : String => String) :=
  (final (stop S.cfg S.stopping S.order S.served)).snapshots

def remade : LinuxBackend :=
  { fresh S.uidStart S.uidSize S.portStart S.portSize S.networks S.containerNum' S.snapshotsPath with
    snapshots := S.files }

def restarted : LinuxBackend := final (start S.cfg S.starting S.remade)

/-- The spawn of every `Run` becomes ready, every call of the restart succeeds, the
    JSON of the snapshots is read back as it was written, and the directory of the
    snapshots lists their files, in some order. -/
structure Smooth : Prop where
  networks : ∃ fuel ipNet, RealNetworkPool.new fuel ipNet = some S.networks
  ports : 0 < S.portStart
  ready : Transition.eachStep (serve S.cfg S.serving) (SpawnReady S.serving) S.made S.requests
  stopping : S.stopping.Succeeds
  starting : S.starting.Succeeds
  order : S.order.Perm S.served.registered
  json : ∀ i ∈ S.served.registered,
    S.cfg.decode (S.cfg.encode (S.served.container i).snapshot) = .ok (S.served.container i).snapshot
  dir : ∀ log r, S.starting log (.readDir S.snapshotsPath) = .ok r → r.names.Perm S.files.keys

/-- The depot names providers of the daemon only. -/
def KnownProviders : Prop :=
  ∀ log id r, S.starting log (.readFile (LinuxContainerPool.providerFile S.cfg id)) = .ok r →
    r.text ∈ S.cfg.rootfsProviders

theorem served_linked
    (hready : Transition.eachStep (serve S.cfg S.serving) (SpawnReady S.serving) S.made
      S.requests) :
    S.served.AllLinked :=
  linked_serveAll S.requests (allLinked_new _ _ _) hready

theorem files_eq (hs : S.stopping.Succeeds) (hlinked : S.served.AllLinked)
    (hpath : S.served.snapshotsPath ≠ "") :
    S.files = saveAll S.cfg S.served S.order S.served.snapshots := by
  obtain ⟨_, b, hstop, log, hb⟩ := wp_returns
    (wp_stop (o := S.stopping) hs S.order hpath fun i _ => hlinked i)
  rw [files, hstop, hb]
  rfl

end Scenario

/-- **A restart preserves the system**, with a path for the snapshots and for at
    most `2 ^ 55` container IDs. -/
theorem restart_preserves (S : Scenario) (hS : S.Smooth) (hpath : S.snapshotsPath ≠ "")
    (hle : S.requests.countP Request.isCreate ≤ 2 ^ 55) :
    Preserved S.made S.served S.restarted ∧
      (S.KnownProviders → start S.cfg S.starting S.remade = .ok () S.restarted ∧
        Pruned S.cfg S.starting S.restarted) := by
  obtain ⟨fuel, ipNet, hn⟩ := hS.networks
  have h : Retained S.made S.served := served_retained hn hS.ports hle
  have hF : Files S.cfg S.served S.remade.snapshots := by
    show Files S.cfg S.served S.files
    rw [S.files_eq hS.stopping (S.served_linked hS.ready) (h.snapshotsPath ▸ hpath)]
    exact h.files rfl hS.json hS.order
  obtain ⟨_, b₂, hb₂, cs, hperm, hcs⟩ := wp_returns (wp_startSnapshots hS.starting h hF
    (rebuilt_fresh hn _ _ _ _ _ _ _ _) hS.dir)
  -- `Prune` touches the log only
  have hkept : ∀ log, Preserved S.made S.served
      { b₂ with pool := { b₂.pool with log := log } } := fun log =>
    Rebuilt.preserved h.owned.filed hperm
      ⟨hcs.handles, hcs.containers, hcs.uids, hcs.networks, hcs.ports, hcs.nodup⟩
  have hstarted : ∀ {Q : Unit → LinuxBackend → Prop} {E : Err → LinuxBackend → Prop},
      wp (zoom calls (LinuxContainerPool.prune S.cfg S.starting
        (b₂.registered.map fun i => (b₂.container i).id))) Q E b₂ →
      wp (start S.cfg S.starting) Q E S.remade := by
    intro Q E hp
    simp only [start, wp_bind, wp_get]
    rw [if_pos (show S.remade.snapshotsPath ≠ "" from hpath), wp_bind, wp_ok hb₂, wp_bind, wp_get]
    exact hp
  constructor
  · refine wp_final (P := Preserved S.made S.served) (hstarted ?_)
    rw [wp_zoom]
    exact wp_any (fun _ log => hkept log) fun _ log => hkept log
  · intro hprov
    have hprune : wp (zoom calls (LinuxContainerPool.prune S.cfg S.starting
        (b₂.registered.map fun i => (b₂.container i).id))) (fun _ b₃ => Pruned S.cfg S.starting b₃)
        (fun _ _ => False) b₂ := by
      rw [wp_zoom]
      refine wp_mono (wp_prune hS.starting hprov _) (fun _ log' hlog => ?_) fun _ _ h => h
      obtain ⟨r, pruned, hr, rfl, hd⟩ := hlog
      exact ⟨_, r, pruned, hr, rfl, hd⟩
    obtain ⟨_, b₃, hb₃, hpruned⟩ := wp_returns (hstarted hprune)
    have he : S.restarted = b₃ := by rw [Scenario.restarted, hb₃, final_ok]
    rw [he]
    exact ⟨hb₃, hpruned⟩

/-! ## A restart with one container -/

/-- No call fails. The directory at the path lists the names, the depot has a
    container, the temporary directory and a left-over of the provider. -/
def depot (path : String) (names : List String) (provider : String) : Oracle := fun _ c =>
  match c with
  | .readDir p => .ok { names := if p = path then names else
      ["tmp", LinuxContainerPool.containerID 0, "stale"] }
  | .readFile _ => .ok { text := provider }
  | _ => .ok {}

theorem depot_succeeds (path : String) (names : List String) (provider : String) :
    (depot path names provider).Succeeds := by
  intro log c
  cases c <;> exact ⟨_, rfl⟩

/-- A container with a mapping, a permission, a memory limit and a process. -/
def webRequests : List Request :=
  [.create { ContainerSpec.bare with handle := "web" }, .container 0 (.netIn 0 8080),
    .container 0 (.netOut "10.0.0.0/8" 0), .container 0 (.limitMemory ⟨1024⟩),
    .container 0 (.run ⟨"ls", [], [], "", false, {}, none⟩), .container 0 (.stop false)]

def webSnapshot : ContainerSnapshot :=
  ((serveAll .plain .quiet webRequests (.new .tiny "" ∅)).container 0).snapshot

/-- A restart of a daemon with one user ID and one network. -/
def webRestart (path : String) (requests : List Request) (order : List ℕ) (names : List String)
    (provider : String) : Scenario where
  cfg := { Config.plain with decode := fun _ => .ok webSnapshot }
  serving := .quiet
  stopping := .quiet
  starting := depot path names provider
  networks := LinuxContainerPool.tiny.networkPool
  uidStart := 10000
  uidSize := 1
  portStart := 61001
  portSize := 2
  containerNum := 0
  containerNum' := 0
  snapshotsPath := path
  requests := requests
  order := order

section
variable {path provider : String} {requests : List Request} {order : List ℕ} {names : List String}

theorem webRestart_served : (webRestart path requests order names provider).served =
    serveAll (webRestart path requests order names provider).cfg .quiet requests
      (.new .tiny path ∅) :=
  congrArg _ (fresh_tiny path)

theorem webRestart_remade : (webRestart path requests order names provider).remade =
    { LinuxBackend.new .tiny path ∅ with
      snapshots := (webRestart path requests order names provider).files } :=
  congrArg (fun b => { b with
    snapshots := (webRestart path requests order names provider).files }) (fresh_tiny path)

theorem webRestart_smooth
    (horder : order = (webRestart path requests order names provider).served.registered)
    (hsnap : ∀ i ∈ order,
      ((webRestart path requests order names provider).served.container i).snapshot = webSnapshot)
    (hkeys : names = (webRestart path requests order names provider).files.keys) :
    (webRestart path requests order names provider).Smooth where
  networks := ⟨2, ⟨[10, 254, 0, 0], 30⟩, rfl⟩
  ports := show (0 : UInt32) < 61001 by decide
  ready := spawnReady_of_spawns (fun _ _ => ⟨_, rfl⟩) _ _
  stopping := fun _ _ => ⟨_, rfl⟩
  starting := depot_succeeds _ _ _
  order := .of_eq horder
  json i hi := congrArg Except.ok (hsnap i (horder ▸ hi)).symm
  dir log r hr := by
    have : r.names = names := by
      cases hr
      exact if_pos rfl
    exact .of_eq (this.trans hkeys)

end

theorem restart_preserves_web :
    let S := webRestart "/snapshots" webRequests [0] [LinuxContainerPool.containerID 0] ""
    S.Smooth ∧ S.KnownProviders ∧ S.requests.countP Request.isCreate ≤ 2 ^ 55 ∧
      Preserved S.made S.served S.restarted ∧ Pruned S.cfg S.starting S.restarted := by
  intro S
  have hS : S.Smooth := by
    refine webRestart_smooth ?_ ?_ ?_
    · rw [webRestart_served]; decide +kernel
    · rw [webRestart_served]; decide +kernel
    · rw [Scenario.files, webRestart_served]; decide +kernel
  have hprov : S.KnownProviders := fun log id r hr => by cases hr; exact List.mem_singleton_self _
  have h := restart_preserves S hS (by decide) (by decide)
  exact ⟨hS, hprov, by decide, h.1, (h.2 hprov).2⟩

/-! ## What a restart can lose -/

theorem keys_restoreEntry (name : String) (b : LinuxBackend) :
    (final (restoreEntry cfg o name b)).containers.keys.length ≤
      b.containers.keys.length + 1 := by
  refine wp_final
    (P := fun b' : LinuxBackend => b'.containers.keys.length ≤ b.containers.keys.length + 1) ?_
  simp only [restoreEntry, wp_bind, wp_get, calls, wp_zoom, wp_call]
  refine ⟨fun _ _ => ?_, fun _ _ => Nat.le_succ _⟩
  rcases b.snapshots.lookup name with _ | text
  · exact Nat.le_succ _
  · simp only [restore, wp_bind, wp_zoom]
    refine wp_any (fun c p => ?_) fun _ _ => Nat.le_succ _
    have hlen : ∀ k i, (b.containers.insert k i).keys.length ≤ b.containers.keys.length + 1 := by
      intro k i
      rw [AList.keys_insert, List.length_cons]
      exact Nat.succ_le_succ (List.length_erase_le)
    exact hlen _ _

theorem keys_restoreEntries : ∀ (names : List String) (b : LinuxBackend),
    wp (each (fun name => attempt (restoreEntry cfg o name)) names)
      (fun _ b' => b'.containers.keys.length ≤ b.containers.keys.length + names.length)
      (fun _ _ => False) b
  | [], b => Nat.le_refl _
  | name :: names, b => by
    rw [each, wp_bind, wp_ok (show attempt (restoreEntry cfg o name) b = .ok () _ from rfl)]
    refine wp_mono (keys_restoreEntries names _) (fun _ b' hb' => ?_) fun _ _ h => h
    have : (final (restoreEntry cfg o name b)).containers.keys.length ≤ _ := keys_restoreEntry name b
    rw [List.length_cons]
    omega

/-- A `Start` registers at most one container for each file that is listed. -/
theorem keys_start (hs : o.Succeeds) {b : LinuxBackend} {n : ℕ} (hb : b.containers.keys = [])
    (hdir : ∀ log r, o log (.readDir b.snapshotsPath) = .ok r → r.names.length ≤ n) :
    (final (start cfg o b)).containers.keys.length ≤ n := by
  refine wp_final (P := fun b' : LinuxBackend => b'.containers.keys.length ≤ n) ?_
  simp only [start, wp_bind, wp_get, wp_ite, startSnapshots, restoreSnapshots, wp_attempt, calls,
    wp_zoom, wp_call, wp_getD, wp_ask, wp_modify]
  refine ⟨fun _ => ⟨fun _ _ => ⟨fun r hr => ?_, fun _ he => absurd hs (Oracle.not_succeeds he)⟩,
    fun _ he => absurd hs (Oracle.not_succeeds he)⟩, fun _ => ?_⟩
  · refine wp_mono (keys_restoreEntries r.names _) (fun _ b' hb' => ?_) fun _ _ h => h.elim
    have hle : b'.containers.keys.length ≤ n := by
      refine hb'.trans ?_
      show b.containers.keys.length + _ ≤ n
      rw [hb, List.length_nil, Nat.zero_add]
      exact hdir _ r hr
    refine ⟨fun _ _ => ⟨fun _ _ => ?_, fun _ _ => hle⟩,
      fun _ he => absurd hs (Oracle.not_succeeds he)⟩
    exact wp_any (fun _ _ => hle) fun _ _ => hle
  · have hle : b.containers.keys.length ≤ n := by rw [hb]; exact Nat.zero_le n
    exact wp_any (fun _ _ => hle) fun _ _ => hle

/-- A handle whose `CleanupRootFS` fails stays registered: its directory is gone
    by then, and its user ID and network are kept. -/
def stuckCleanup : Oracle := .failing fun
  | .cleanupRootFS _ id => id = LinuxContainerPool.containerID 0
  | _ => false

def spec (handle : String) : ContainerSpec := { ContainerSpec.bare with handle := handle }

def twoNetworks : RealNetworkPool :=
  ⟨⟨[10, 254, 0, 0], 29⟩, [Network.new ⟨[10, 254, 0, 0], 30⟩, Network.new ⟨[10, 254, 0, 4], 30⟩], 2,
    by decide⟩

/-- The container of the first request. -/
def first : LinuxContainer :=
  { LinuxContainerPool.newContainer .plain (spec "a") (LinuxContainerPool.containerID 0) 10000
      (Network.new ⟨[10, 254, 0, 0], 30⟩) with state := .active }

/-- A container with the second user ID and network, and its handle. -/
def second (handle : String) (k : ℕ) : LinuxContainer :=
  LinuxContainerPool.newContainer .plain (spec handle) (LinuxContainerPool.containerID k) 10001
    (Network.new ⟨[10, 254, 0, 4], 30⟩)

/-- Containers that are created and destroyed, each with the next number. -/
def rounds : ℕ → List Request
  | 0 => []
  | n + 1 => rounds n ++ [.create (spec ""), .destroy (LinuxContainerPool.containerID (n + 1))]

/-- One container stays while `n` others come and go; then one more is created. -/
def collision (n : ℕ) : Scenario where
  cfg := { Config.plain with
    encode := ContainerSnapshot.handle
    decode := fun t => .ok (if t = "a" then first.snapshot else { second "c" 0 with state := .active }.snapshot) }
  serving := stuckCleanup
  stopping := .quiet
  starting := depot "/snapshots" [LinuxContainerPool.containerID 0] ""
  networks := twoNetworks
  uidStart := 10000
  uidSize := 2
  portStart := 61001
  portSize := 2
  containerNum := 0
  containerNum' := 7
  snapshotsPath := "/snapshots"
  requests := .create (spec "a") :: .destroy "a" :: rounds n ++ [.create (spec "c")]
  order := [n + 1, 0]

/-- The pools of its daemon when it is made. -/
def twoPool : LinuxContainerPool where
  uidPool := ⟨10000, 2, [10000, 10001], 2, by
    simp only [List.forall_mem_cons]
    exact ⟨by decide, by decide, nofun⟩⟩
  networkPool := twoNetworks
  portPool := LinuxContainerPool.tiny.portPool
  containerNum := 0
  log := []

/-- The state between two rounds. -/
def between (k : ℕ) (log : List Call) (rest : List LinuxContainer) : LinuxBackend where
  pool := { twoPool with
    uidPool := UnixUIDPool.stock.keep twoPool.uidPool [10001] (List.sublist_cons_self _ _)
    networkPool := RealNetworkPool.stock.keep twoNetworks [Network.new ⟨[10, 254, 0, 4], 30⟩]
      (List.sublist_cons_self _ _)
    containerNum := k
    log := log }
  heap := first :: rest
  containers := AList.insert "a" 0 ∅
  snapshotsPath := "/snapshots"
  snapshots := ∅

/-- A container is created from there. -/
def during (handle : String) (k : ℕ) (log : List Call) (rest : List LinuxContainer) :
    LinuxBackend :=
  { between k log rest with
    pool := { twoPool with
      uidPool := UnixUIDPool.stock.keep twoPool.uidPool [] (List.nil_sublist _)
      networkPool := RealNetworkPool.stock.keep twoNetworks [] (List.nil_sublist _)
      containerNum := k + 1
      log := log }
    heap := (between k log rest).heap ++ [{ second handle k with state := .active }]
    containers := (between k log rest).containers.insert (second handle k).handle
      (between k log rest).heap.length }

section
variable (n : ℕ) (handle : String)

theorem wp_create_stuck {s : LinuxContainerPool} {u : UInt32} {us : List UInt32} {m : Network}
    {ms : List Network} (hu : s.uidPool.pool = u :: us) (hm : s.networkPool.pool = m :: ms) :
    wp (LinuxContainerPool.create (collision n).cfg stuckCleanup (spec handle))
      (fun c p => c = LinuxContainerPool.newContainer .plain (spec handle)
          (LinuxContainerPool.containerID s.containerNum) u m ∧
        ∃ hus hms log, p = { s with
          uidPool := UnixUIDPool.stock.keep s.uidPool us hus
          networkPool := RealNetworkPool.stock.keep s.networkPool ms hms
          containerNum := s.containerNum + 1
          log := log })
      (fun _ _ => False) s := by
  simp only [LinuxContainerPool.create, LinuxContainerPool.uids, LinuxContainerPool.networks,
    LinuxContainerPool.calls, LinuxContainerPool.nextContainerID,
    LinuxContainerPool.saveRootFSProvider, LinuxContainerPool.writeBindMounts, wp_bind, wp_zoom,
    wp_onError, UnixUIDPool.acquire, RealNetworkPool.acquire, FreeList.Stock.wp_acquire, wp_get,
    wp_modify, wp_pure, wp_checked, wp_ensure, wp_ask, wp_call]
  refine ⟨fun u' us' hu' hus => ⟨fun m' ms' hm' hms => ?_, fun hm' => ?_⟩, fun hu' => ?_⟩
  · cases hu.symm.trans hu'
    cases hm.symm.trans hm'
    refine ⟨fun url hurl => ?_, fun _ he => by cases he⟩
    cases hurl
    refine ⟨fun _ => ⟨fun _ _ => ⟨fun _ _ => ⟨fun _ _ => ⟨fun _ _ => ⟨rfl, hus, hms, _, rfl⟩,
      ?_⟩, ?_⟩, ?_⟩, ?_⟩, fun hn => hn (List.mem_singleton_self _)⟩
    all_goals exact fun _ he => by cases he
  · cases hm.symm.trans hm'
  · cases hu.symm.trans hu'

theorem serve_create_stuck {b : LinuxBackend} {u : UInt32} {us : List UInt32} {m : Network}
    {ms : List Network} (hu : b.pool.uidPool.pool = u :: us)
    (hm : b.pool.networkPool.pool = m :: ms) :
    ∃ hus hms log, serve (collision n).cfg stuckCleanup b (.create (spec handle)) = { b with
      pool := { b.pool with
        uidPool := UnixUIDPool.stock.keep b.pool.uidPool us hus
        networkPool := RealNetworkPool.stock.keep b.pool.networkPool ms hms
        containerNum := b.pool.containerNum + 1
        log := log }
      heap := b.heap ++ [{ LinuxContainerPool.newContainer .plain (spec handle)
        (LinuxContainerPool.containerID b.pool.containerNum) u m with state := .active }]
      containers := b.containers.insert
        (LinuxContainerPool.handleFor (spec handle)
          (LinuxContainerPool.containerID b.pool.containerNum)) b.heap.length } := by
  obtain ⟨c', p', hpool, rfl, hus, hms, log₁, rfl⟩ := wp_returns (wp_create_stuck n handle hu hm)
  rcases create_cases (collision n).cfg stuckCleanup b (spec handle) with
    ⟨e, p, hp, -⟩ | ⟨c, p, e, _, hp, he, -⟩ | ⟨c, p, r, log', hp, -, hb⟩
  · rw [hpool] at hp; cases hp
  · cases he
  · rw [hpool] at hp
    cases hp
    exact ⟨hus, hms, log', hb⟩

theorem serve_create_between (k : ℕ) (log : List Call) (rest : List LinuxContainer) :
    ∃ log', serve (collision n).cfg stuckCleanup (between k log rest) (.create (spec handle)) =
      during handle k log' rest := by
  obtain ⟨_, _, log', h⟩ := serve_create_stuck n handle (b := between k log rest) rfl rfl
  exact ⟨log', h⟩

end

theorem containerID_ne_a (k : ℕ) : LinuxContainerPool.containerID k ≠ "a" := by
  intro h
  have hlen : 11 = "a".length := by
    simpa [LinuxContainerPool.containerID] using congrArg String.length h
  exact absurd hlen (by decide)

theorem erase_insert {α : Type} {β : α → Type} [DecidableEq α] {s : AList β} {a : α} {b : β a}
    (h : a ∉ s) : (s.insert a b).erase a = s := by
  apply AList.ext
  show List.kerase a (s.insert a b).entries = s.entries
  rw [AList.entries_insert_of_notMem h]
  exact List.kerase_cons_eq rfl

theorem wp_destroyDepot_stuck (n : ℕ) {id : String} (hid : id ≠ LinuxContainerPool.containerID 0)
    (log : List Call) :
    wp (LinuxContainerPool.destroyDepot (collision n).cfg stuckCleanup id) (fun _ _ => True)
      (fun _ _ => False) log := by
  simp only [LinuxContainerPool.destroyDepot, LinuxContainerPool.readProvider, wp_bind, wp_getD,
    wp_ask, wp_pure, wp_ensure, wp_call]
  refine ⟨fun r hr => ?_, fun _ he => by cases he⟩
  cases hr
  refine ⟨fun _ => ⟨fun _ _ => ⟨fun _ _ => trivial, fun e he => ?_⟩, fun _ he => by cases he⟩,
    fun hn => hn (List.mem_singleton_self _)⟩
  simp [stuckCleanup, Oracle.failing, hid] at he

theorem releaseAll_during (k : ℕ) (log log' : List Call) (rest : List LinuxContainer) :
    LinuxContainerPool.releaseAll (second "" k).resources
      { (during "" k log rest).pool with log := log' } = (between (k + 1) log' rest).pool := by
  have hu : (UnixUIDPool.stock.keep twoPool.uidPool [] (List.nil_sublist _)).release 10001 =
      UnixUIDPool.stock.keep twoPool.uidPool [10001] (List.sublist_cons_self _ _) :=
    dif_neg (by decide)
  have hn : (RealNetworkPool.stock.keep twoNetworks [] (List.nil_sublist _)).release
      (Network.new ⟨[10, 254, 0, 4], 30⟩) = RealNetworkPool.stock.keep twoNetworks
        [Network.new ⟨[10, 254, 0, 4], 30⟩] (List.sublist_cons_self _ _) :=
    dif_neg (by decide)
  exact congrArg₂ (fun u n => { (between (k + 1) log' rest).pool with
    uidPool := u, networkPool := n }) hu hn

theorem serve_destroy_during {n k : ℕ} (hk : 0 < k) (hlt : k < 2 ^ 55) (log : List Call)
    (rest : List LinuxContainer) : ∃ log', serve (collision n).cfg stuckCleanup
      (during "" k log rest) (.destroy (LinuxContainerPool.containerID k)) =
        between (k + 1) log' (rest ++ [{ second "" k with state := .active }]) := by
  have hid : LinuxContainerPool.containerID k ≠ LinuxContainerPool.containerID 0 := by
    intro h
    have := LinuxContainerPool.containerID_inj h
    rw [Nat.mod_eq_of_lt hlt, Nat.zero_mod] at this
    omega
  have hlookup : (during "" k log rest).containers.lookup (LinuxContainerPool.containerID k) =
      some (between k log rest).heap.length := AList.lookup_insert _
  have hobject : (during "" k log rest).container (between k log rest).heap.length =
      { second "" k with state := .active } := container_append_self rfl
  have hcontainers : (during "" k log rest).containers.erase
      ((during "" k log rest).container (between k log rest).heap.length).handle =
        (between k log rest).containers := by
    rw [hobject]
    exact erase_insert fun h => containerID_ne_a k
      (((AList.mem_insert _).1 h).resolve_right (AList.notMem_empty _))
  rw [serve]
  refine wp_final (P := fun b' : LinuxBackend =>
    ∃ log', b' = between (k + 1) log' (rest ++ [{ second "" k with state := .active }])) ?_
  simp only [destroy, wp_bind, wp_lookup, wp_get, wp_zoom, LinuxContainerPool.destroy,
    LinuxContainerPool.calls, wp_modify]
  refine ⟨fun i hi => ?_, fun hn => ?_⟩
  · rw [hlookup] at hi
    cases hi
    rw [hobject]
    refine wp_mono (wp_destroyDepot_stuck n hid _) (fun _ log' _ => ⟨log', ?_⟩) fun _ _ h => h.elim
    exact congrArg₂ (fun p cs => { between (k + 1) log'
      (rest ++ [{ second "" k with state := .active }]) with pool := p, containers := cs })
      (releaseAll_during k log log' rest) hcontainers
  · rw [hlookup] at hn; cases hn

theorem serveAll_rounds (m : ℕ) (log : List Call) : ∀ n, n < 2 ^ 55 → ∃ log' rest,
    rest.length = n ∧ serveAll (collision m).cfg stuckCleanup (rounds n) (between 1 log []) =
      between (n + 1) log' rest
  | 0, _ => ⟨log, [], rfl, rfl⟩
  | n + 1, hn => by
    obtain ⟨log', rest, hlen, hrest⟩ := serveAll_rounds m log n (Nat.lt_of_succ_lt hn)
    obtain ⟨log₁, h₁⟩ := serve_create_between m "" (n + 1) log' rest
    obtain ⟨log₂, h₂⟩ := serve_destroy_during (n := m) (Nat.succ_pos n) hn log₁ rest
    refine ⟨log₂, rest ++ [{ second "" (n + 1) with state := .active }], by simp [hlen], ?_⟩
    rw [rounds, serveAll_append, hrest, serveAll_cons, serveAll_cons, h₁]
    exact h₂

theorem serve_destroy_stuck (n : ℕ) {b : LinuxBackend} (handle : String) (i : ℕ)
    (hl : b.containers.lookup handle = some i)
    (hid : (b.container i).id = LinuxContainerPool.containerID 0) :
    ∃ log, serve (collision n).cfg stuckCleanup b (.destroy handle) =
      { b with pool := { b.pool with log := log } } := by
  rw [serve]
  refine wp_final (P := fun b' : LinuxBackend =>
    ∃ log, b' = { b with pool := { b.pool with log := log } }) ?_
  simp only [destroy, wp_bind, wp_lookup, wp_get, wp_zoom, LinuxContainerPool.destroy,
    LinuxContainerPool.calls, LinuxContainerPool.destroyDepot, wp_modify, wp_call]
  refine ⟨fun j hj => ?_, fun hn => by rw [hl] at hn; cases hn⟩
  cases hl.symm.trans hj
  refine wp_any (fun provider log => ?_) fun _ log => ⟨log, rfl⟩
  rw [wp_ensure]
  refine ⟨fun _ => ⟨fun _ _ => ⟨fun r hr => ?_, fun _ _ => ⟨_, rfl⟩⟩, fun _ _ => ⟨_, rfl⟩⟩,
    fun _ => ⟨_, rfl⟩⟩
  simp [stuckCleanup, Oracle.failing, hid] at hr

theorem collision_made (n : ℕ) : (collision n).made = .new twoPool "/snapshots" ∅ := by
  have hu : fill 10000 10002 = [10000, 10001] := by simp [fill]
  have hp : fill 61001 61003 = [61001, 61002] := by simp [fill]
  simp [Scenario.made, collision, fresh, UnixUIDPool.new, PortPool.new, twoPool,
    LinuxContainerPool.tiny, hu, hp]

theorem collision_first (n : ℕ) : ∃ log, serveAll (collision n).cfg stuckCleanup
    [.create (spec "a"), .destroy "a"] (collision n).made = between 1 log [] := by
  rw [collision_made, serveAll_cons, serveAll_cons]
  obtain ⟨_, _, log₁, h₁⟩ := serve_create_stuck n "a" (b := .new twoPool "/snapshots" ∅) rfl rfl
  rw [h₁]
  obtain ⟨log₂, h₂⟩ := serve_destroy_stuck n (b := between 1 log₁ []) "a" 0 rfl rfl
  exact ⟨log₂, h₂⟩

theorem collision_served {n : ℕ} (hn : n < 2 ^ 55) : ∃ log rest, rest.length = n ∧
    (collision n).served = during "c" (n + 1) log rest := by
  obtain ⟨log, hlog⟩ := collision_first n
  obtain ⟨log', rest, hlen, hrest⟩ := serveAll_rounds n log n hn
  obtain ⟨log₁, h₁⟩ := serve_create_between n "c" (n + 1) log' rest
  refine ⟨log₁, rest, hlen, ?_⟩
  have hrs : (collision n).requests =
    [.create (spec "a"), .destroy "a"] ++ (rounds n ++ [.create (spec "c")]) := rfl
  rw [Scenario.served, hrs, serveAll_append, serveAll_append]
  exact (congrArg _ (congrArg _ hlog)).trans ((congrArg _ hrest).trans h₁)

theorem second_wraps : second "c" (2 ^ 55) = second "c" 0 := by
  rw [second, ← Nat.zero_add (2 ^ 55), LinuxContainerPool.containerID_add]; rfl

theorem collision_ready (n : ℕ) :
    Transition.eachStep (serve (collision n).cfg (collision n).serving)
      (SpawnReady (collision n).serving) (collision n).made (collision n).requests :=
  spawnReady_of_spawns (fun _ _ => ⟨_, rfl⟩) _ _

section
variable {n : ℕ} (hn : n + 1 = 2 ^ 55)

include hn

theorem collision_registered : (collision n).served.registered = [n + 1, 0] ∧
    (collision n).served.container 0 = first ∧
    (collision n).served.container (n + 1) = { second "c" 0 with state := .active } ∧
    (collision n).served.snapshots = ∅ ∧ (collision n).served.snapshotsPath = "/snapshots" := by
  obtain ⟨log, rest, hlen, hb⟩ := collision_served (show n < 2 ^ 55 by omega)
  have hlen' : (between (n + 1) log rest).heap.length = n + 1 := congrArg Nat.succ hlen
  rw [hb]
  refine ⟨?_, rfl, ?_, rfl, rfl⟩
  · show [(between (n + 1) log rest).heap.length, 0] = _
    rw [hlen']
  · have hlast : (during "c" (n + 1) log rest).container (between (n + 1) log rest).heap.length =
        { second "c" (n + 1) with state := .active } := container_append_self rfl
    rw [hlen'] at hlast
    rw [hlast, hn, second_wraps]

theorem collision_keys : (collision n).files.keys = [LinuxContainerPool.containerID 0] := by
  obtain ⟨-, h₀, h₁, hs, hpath⟩ := collision_registered hn
  have hid : ((collision n).served.container (n + 1)).id =
      ((collision n).served.container 0).id := by rw [h₀, h₁]; rfl
  rw [Scenario.files_eq _ (fun _ _ => ⟨_, rfl⟩) (Scenario.served_linked _ (collision_ready n))
    (by rw [hpath]; decide), hs]
  show (AList.insert ((collision n).served.container 0).id _
    (AList.insert ((collision n).served.container (n + 1)).id _ ∅)).keys = _
  rw [AList.keys_insert, AList.keys_insert, hid, h₀]
  exact congrArg _ (List.erase_cons_head _ _)

theorem collision_smooth : (collision n).Smooth where
  networks := ⟨3, ⟨[10, 254, 0, 0], 29⟩, rfl⟩
  ports := show (0 : UInt32) < 61001 by decide
  ready := collision_ready n
  stopping := fun _ _ => ⟨_, rfl⟩
  starting := depot_succeeds _ _ _
  order := .of_eq (collision_registered hn).1.symm
  json i hi := by
    obtain ⟨hreg, h₀, h₁, -⟩ := collision_registered hn
    rw [hreg] at hi
    rcases List.mem_cons.1 hi with rfl | hi
    · rw [h₁]; rfl
    · rw [List.mem_singleton.1 hi, h₀]; rfl
  dir log r hr := by
    cases hr
    exact .of_eq (collision_keys hn).symm

/-- One file is left of the two containers. -/
theorem collision_loses :
    ¬ Preserved (collision n).made (collision n).served (collision n).restarted := by
  intro h
  obtain ⟨log, rest, -, hb⟩ := collision_served (show n < 2 ^ 55 by omega)
  have ha : "a" ∈ (collision n).restarted.containers.keys := h.mem_keys (i := 0) (by rw [hb]; rfl)
  have hc : "c" ∈ (collision n).restarted.containers.keys :=
    h.mem_keys (i := (between (n + 1) log rest).heap.length) (by rw [hb]; rfl)
  have hle : (collision n).restarted.containers.keys.length ≤ 1 :=
    keys_start (depot_succeeds _ _ _) rfl fun _ r hr => by cases hr; rfl
  rcases hkeys : (collision n).restarted.containers.keys with _ | ⟨k, _ | ⟨k', ks⟩⟩
  · rw [hkeys] at ha; cases ha
  · rw [hkeys, List.mem_singleton] at ha hc
    exact absurd (ha.trans hc.symm) (by decide)
  · rw [hkeys] at hle
    simp at hle

end

theorem countP_rounds (n : ℕ) : (rounds n).countP Request.isCreate = n := by
  induction n with
  | zero => rfl
  | succ n ih => rw [rounds, List.countP_append, ih]; rfl

theorem countP_collision (n : ℕ) :
    (collision n).requests.countP Request.isCreate = n + 2 := by
  show List.countP _ ([_, _] ++ (rounds n ++ [_])) = _
  rw [List.countP_append, List.countP_append, countP_rounds]
  exact Nat.add_comm 1 (n + 1)

theorem DestroyLog.run_mem {cfg : Config} {id : String} {ids : List String} {calls : List Call}
    (h : DestroyLog cfg (id :: ids) calls) :
    .run (LinuxContainerPool.destroyCmd cfg id) ∈ calls := by
  obtain ⟨provider, rest, -, rfl⟩ := h
  exact List.mem_cons_of_mem _ List.mem_cons_self

/-- A depot with an entry of a provider that the daemon does not know. -/
def unknown : Scenario := webRestart "/snapshots" [] [] [] "docker"

theorem unknown_registered : unknown.restarted.registered = [] := by
  rw [unknown, Scenario.restarted, webRestart_remade, Scenario.files, webRestart_served]
  decide +kernel

theorem unknown_not_run : .run (LinuxContainerPool.destroyCmd unknown.cfg
    (LinuxContainerPool.containerID 0)) ∉ unknown.restarted.pool.log := by
  rw [unknown, Scenario.restarted, webRestart_remade, Scenario.files, webRestart_served]
  decide +kernel

theorem unknown_destroys {log calls : List Call} {r : Answer}
    (hr : unknown.starting log (.readDir unknown.cfg.depotPath) = .ok r)
    (hd : DestroyLog unknown.cfg (r.names.filter fun id => id ≠ "tmp" ∧
      id ∉ unknown.restarted.registered.map fun i => (unknown.restarted.container i).id) calls) :
    DestroyLog unknown.cfg [LinuxContainerPool.containerID 0, "stale"] calls := by
  have hids : (["tmp", LinuxContainerPool.containerID 0, "stale"].filter fun id =>
      id ≠ "tmp" ∧ id ∉ ([] : List String)) = [LinuxContainerPool.containerID 0, "stale"] := by
    decide +kernel
  cases hr
  rw [unknown_registered] at hd
  rw [← hids]
  exact hd

/-- **What a restart can lose.** A daemon without a path for the snapshots
    restores nothing; of two containers with one ID it restores one; and `Prune`
    stops at an entry of a provider that it does not know. -/
theorem restart_loses :
    (let S := webRestart "" webRequests [0] [] ""
     S.Smooth ∧ ¬ Preserved S.made S.served S.restarted) ∧
    (let S := collision (2 ^ 55 - 1)
     S.Smooth ∧ S.snapshotsPath ≠ "" ∧ S.requests.countP Request.isCreate = 2 ^ 55 + 1 ∧
       ¬ Preserved S.made S.served S.restarted) ∧
    unknown.Smooth ∧ ¬ Pruned unknown.cfg unknown.starting unknown.restarted := by
  refine ⟨⟨webRestart_smooth ?_ ?_ ?_, fun h => ?_⟩, ⟨collision_smooth rfl, by decide, ?_,
    collision_loses rfl⟩, webRestart_smooth ?_ ?_ ?_, fun h => ?_⟩
  · rw [webRestart_served]; decide +kernel
  · rw [webRestart_served]; decide +kernel
  · rw [Scenario.files, webRestart_served]; decide +kernel
  · have hle : (webRestart "" webRequests [0] [] "").restarted.containers.keys.length ≤ 0 :=
      keys_start (depot_succeeds _ _ _) rfl fun _ r hr => by cases hr; rfl
    have hweb : "web" ∈ (webRestart "" webRequests [0] [] "").restarted.containers.keys :=
      h.mem_keys (i := 0) (by rw [webRestart_served]; decide +kernel)
    rw [List.length_eq_zero_iff.1 (Nat.le_zero.1 hle)] at hweb
    cases hweb
  · exact countP_collision _
  · rw [webRestart_served]; decide +kernel
  · rw [webRestart_served]; decide +kernel
  · rw [Scenario.files, webRestart_served]; decide +kernel
  · obtain ⟨log, r, calls, hr, hlog, hd⟩ := h
    exact unknown_not_run (hlog ▸ List.mem_append_right _ (List.mem_cons_of_mem _
      (unknown_destroys hr hd).run_mem))

end LinuxBackend

end WardenLinux
