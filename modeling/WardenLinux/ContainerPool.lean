/-
  The container pool (container_pool.go): `Create`, `Restore`, `Destroy` and
  `Prune`, as one request at a time sees them.

  * `create_cases`: what a `Create` has done to the pools of user IDs and
    networks when it returns a container and when it fails.
  * `wp_destroy`: a `Destroy` that fails has touched no pool.

  The container IDs are the last 55 bits of a counter, in 11 digits to the
  base 32 (`containerID_inj`).
-/
import WardenLinux.NetworkPool
import WardenLinux.Container

namespace WardenLinux

open Fallible

/-- `LinuxContainerPool`: its pools, the counter of `generateContainerIDs`, and
    the log of the calls made. -/
structure LinuxContainerPool where
  uidPool : UnixUIDPool
  networkPool : RealNetworkPool
  portPool : PortPool
  containerNum : ℕ
  log : List Call

namespace LinuxContainerPool

def uids : Part LinuxContainerPool UnixUIDPool := ⟨uidPool, fun p s => { s with uidPool := p }⟩
def networks : Part LinuxContainerPool RealNetworkPool :=
  ⟨networkPool, fun p s => { s with networkPool := p }⟩
def ports : Part LinuxContainerPool PortPool := ⟨portPool, fun p s => { s with portPool := p }⟩
def calls : Part LinuxContainerPool (List Call) := ⟨log, fun l s => { s with log := l }⟩

def releaseUID (uid : UInt32) (s : LinuxContainerPool) : LinuxContainerPool :=
  { s with uidPool := s.uidPool.release uid }

def releaseNetwork (network : Network) (s : LinuxContainerPool) : LinuxContainerPool :=
  { s with networkPool := s.networkPool.release network }

/-- The loop that releases the ports of a container. -/
def releasePorts (ps : List UInt32) (s : LinuxContainerPool) : LinuxContainerPool :=
  { s with portPool := ps.foldl (fun p port => p.release port) s.portPool }

/-- A pool with one user ID, one network and two ports. -/
def tiny : LinuxContainerPool where
  uidPool := ⟨10000, 1, [10000], 1, by simp⟩
  networkPool := ⟨⟨[10, 254, 0, 0], 30⟩, [Network.new ⟨[10, 254, 0, 0], 30⟩], 1, by decide⟩
  portPool := ⟨61001, 2, [61001, 61002], by simp, by simp⟩
  containerNum := 0
  log := []

/-- An operation on a container that is not registered yet. -/
def onContainer (c : LinuxContainer) (x : EStateM Err Cell Unit) :
    EStateM Err LinuxContainerPool LinuxContainer := fun s =>
  match x ⟨c, s.portPool, s.log⟩ with
  | .ok _ cell => .ok cell.container { s with portPool := cell.portPool, log := cell.log }
  | .error e cell => .error e { s with portPool := cell.portPool, log := cell.log }

theorem wp_onContainer {c : LinuxContainer} {x : EStateM Err Cell Unit} {s : LinuxContainerPool}
    {Q : LinuxContainer → LinuxContainerPool → Prop} {E : Err → LinuxContainerPool → Prop} :
    wp (onContainer c x) Q E s ↔
      wp x (fun _ cell => Q cell.container { s with portPool := cell.portPool, log := cell.log })
        (fun e cell => E e { s with portPool := cell.portPool, log := cell.log })
        ⟨c, s.portPool, s.log⟩ := by
  simp only [wp, onContainer]
  rcases x ⟨c, s.portPool, s.log⟩ with ⟨a, cell⟩ | ⟨e, cell⟩ <;> rfl

/-! ## Container IDs -/

/-- A digit of `strconv.AppendInt(_, _, 32)`. -/
def digit32 (d : ℕ) : Char := "0123456789abcdefghijklmnopqrstuv".toList.getD d '?'

/-- The body of `generateContainerIDs`.  The counter is an `int64`; only its
    last 55 bits are read. -/
def containerID (containerNum : ℕ) : String :=
  String.ofList ((List.range 11).map fun i => digit32 ((containerNum >>> (55 - (i + 1) * 5)) &&& 31))

/-- `<-p.containerIDs` -/
def nextContainerID : EStateM Err LinuxContainerPool String := do
  let s ← get
  modify fun s => { s with containerNum := s.containerNum + 1 }
  return containerID s.containerNum

theorem digit32_inj {d e : ℕ} (hd : d < 32) (he : e < 32) (h : digit32 d = digit32 e) : d = e := by
  have key : ∀ d < 32, ∀ e < 32, digit32 d = digit32 e → d = e := by decide +kernel
  exact key d hd e he h

/-- The last `n` digits tell a number up to `32 ^ n`. -/
theorem mod_pow_eq_of_digits {a b : ℕ} : ∀ {n : ℕ},
    (∀ j < n, a / 32 ^ j % 32 = b / 32 ^ j % 32) → a % 32 ^ n = b % 32 ^ n
  | 0, _ => by simp [Nat.mod_one]
  | n + 1, h => by
    rw [Nat.mod_pow_succ, Nat.mod_pow_succ, h n (Nat.lt_succ_self n),
      mod_pow_eq_of_digits fun j hj => h j (Nat.lt_succ_of_lt hj)]

/-- The digits of a container ID are the last ones of its number. -/
theorem toList_containerID (n : ℕ) :
    (containerID n).toList = (List.range 11).map fun i => digit32 (n / 32 ^ (10 - i) % 32) := by
  rw [containerID, String.toList_ofList]
  refine List.map_congr_left fun i hi => ?_
  have hlt := List.mem_range.1 hi
  have hs : 55 - (i + 1) * 5 = 5 * (10 - i) := by omega
  have e31 : (31 : ℕ) = 2 ^ 5 - 1 := rfl
  rw [hs, e31, Nat.and_two_pow_sub_one_eq_mod, Nat.shiftRight_eq_div_pow, pow_mul]
  rfl

/-- **Two container IDs agree in their last digits** only if their numbers do. -/
theorem containerID_digits_inj {a b k : ℕ} (hk : k ≤ 11)
    (h : (containerID a).toList.drop (11 - k) = (containerID b).toList.drop (11 - k)) :
    a % 32 ^ k = b % 32 ^ k := by
  rw [toList_containerID, toList_containerID, ← List.map_drop, ← List.map_drop,
    List.map_inj_left, List.range_eq_range', List.drop_range'] at h
  refine mod_pow_eq_of_digits fun j hj => ?_
  have hd := digit32_inj (Nat.mod_lt _ (by decide)) (Nat.mod_lt _ (by decide))
    (h (10 - j) (List.mem_range'_1.2 (by omega)))
  rwa [show 10 - (10 - j) = j by omega] at hd

/-- **Two container IDs are equal only if their numbers agree in 55 bits.** -/
theorem containerID_inj {a b : ℕ} (h : containerID a = containerID b) : a % 2 ^ 55 = b % 2 ^ 55 :=
  containerID_digits_inj (k := 11) (Nat.le_refl 11) (by rw [h])

/-- After `2 ^ 55` numbers the IDs come again. -/
theorem containerID_add (a : ℕ) : containerID (a + 2 ^ 55) = containerID a := by
  rw [← String.toList_inj, toList_containerID, toList_containerID]
  refine List.map_congr_left fun i hi => ?_
  have hlt := List.mem_range.1 hi
  have hpow : (2 : ℕ) ^ 55 = 32 ^ (10 - i) * (32 ^ i * 32) := by
    rw [← pow_succ, ← pow_add, show 10 - i + (i + 1) = 11 by omega]
    rfl
  rw [hpow, Nat.add_mul_div_left _ _ (Nat.pow_pos (by decide)), Nat.add_mul_mod_self_right]

/-! ## Create -/

section
variable (cfg : Config) (o : Oracle)

/-- The directory of a container in the depot. -/
def containerPath (id : String) : String := pathJoin [cfg.depotPath, id]

def createCmd (id rootfsPath : String) (uid : UInt32) (network : Network) : Cmd where
  path := pathJoin [cfg.binPath, "create.sh"]
  args := [containerPath cfg id]
  env := ["id=" ++ id, "rootfs_path=" ++ rootfsPath, "user_uid=" ++ toString uid.toNat,
    "network_host_ip=" ++ network.hostIP.string,
    "network_container_ip=" ++ network.containerIP.string, "PATH=" ++ cfg.pathEnv]

/-- The file that names the rootfs provider of a container. -/
def providerFile (id : String) : String := pathJoin [cfg.depotPath, id, "rootfs-provider"]

/-- `saveRootFSProvider` -/
def saveRootFSProvider (id provider : String) : EStateM Err (List Call) Unit := do
  call o (.mkdirAll (pathDir (providerFile cfg id)))
  call o (.writeFile (providerFile cfg id) provider)

/-- The commands of `writeBindMounts` for one mount. -/
def bindMountCmds (containerPath : String) (bm : BindMount) : List Cmd :=
  let hook := pathJoin [containerPath, "lib", "hook-child-before-pivot.sh"]
  let dstMount := pathJoin [containerPath, "mnt", bm.dstPath]
  let srcPath := match bm.origin with
    | .container => pathJoin [containerPath, "tmp", "rootfs", bm.srcPath]
    | .host => bm.srcPath
  let mode := match bm.mode with
    | .rw => "rw"
    | .ro => "ro"
  ["echo >> " ++ hook,
    "echo mkdir -p " ++ dstMount ++ " >> " ++ hook,
    "echo mount -n --bind " ++ srcPath ++ " " ++ dstMount ++ " >> " ++ hook,
    "echo mount -n --bind -o remount," ++ mode ++ " " ++ srcPath ++ " " ++ dstMount ++ " >> " ++
      hook].map fun line => { path := "bash", args := ["-c", line] }

/-- `writeBindMounts` -/
def writeBindMounts (containerPath : String) (bindMounts : List BindMount) :
    EStateM Err (List Call) Unit :=
  each (fun cmd => call o (.run cmd)) (bindMounts.flatMap (bindMountCmds containerPath))

/-- The handle of a container: the one asked for, or its ID. -/
def handleFor (spec : ContainerSpec) (id : String) : String :=
  if spec.handle ≠ "" then spec.handle else id

/-- The container that `Create` makes. -/
def newContainer (spec : ContainerSpec) (id : String) (uid : UInt32) (network : Network) :
    LinuxContainer :=
  .new id (handleFor spec id) (containerPath cfg id) spec.properties spec.graceTime ⟨uid, network, []⟩

/-- `Create` -/
def create (spec : ContainerSpec) : EStateM Err LinuxContainerPool LinuxContainer := do
  let uid ← zoom uids UnixUIDPool.acquire
  let network ← onError (zoom networks RealNetworkPool.acquire) (releaseUID uid)
  let id ← nextContainerID
  let rootfsURL ← checked (cfg.parseURL spec.rootFSPath)
  ensure (rootfsURL.scheme ∈ cfg.rootfsProviders) .unknownRootFSProvider
  let rootfs ← zoom calls (ask o (.provideRootFS rootfsURL.scheme id rootfsURL))
  onError (zoom calls (call o (.run (createCmd cfg id rootfs.text uid network))))
    (releaseNetwork network ∘ releaseUID uid)
  zoom calls (saveRootFSProvider cfg o id rootfsURL.scheme)
  zoom calls (writeBindMounts o (containerPath cfg id) spec.bindMounts)
  return newContainer cfg spec id uid network

/-! ## Restore -/

/-- `Restore` of a decoded snapshot. -/
def restoreSnapshot (snapshot : ContainerSnapshot) :
    EStateM Err LinuxContainerPool LinuxContainer := do
  let resources := snapshot.resources
  zoom uids (UnixUIDPool.remove resources.uid)
  onError (zoom networks (RealNetworkPool.remove resources.network)) (releaseUID resources.uid)
  onError (zoom ports (each PortPool.remove resources.ports))
    (releasePorts resources.ports ∘ releaseNetwork resources.network ∘ releaseUID resources.uid)
  onContainer (.new snapshot.id snapshot.handle (containerPath cfg snapshot.id) snapshot.properties
    snapshot.graceTime resources) (LinuxContainer.restore cfg o snapshot)

/-- `Restore` -/
def restore (text : String) : EStateM Err LinuxContainerPool LinuxContainer := do
  let snapshot ← checked (cfg.decode text)
  restoreSnapshot cfg o snapshot

/-! ## Destroy -/

def destroyCmd (id : String) : Cmd where
  path := pathJoin [cfg.binPath, "destroy.sh"]
  args := [containerPath cfg id]

/-- The provider of a container, the unnamed one when its file cannot be read. -/
def readProvider (id : String) : EStateM Err (List Call) String :=
  getD (do let r ← ask o (.readFile (providerFile cfg id)); return r.text) ""

/-- `destroy`: what is done in the depot. -/
def destroyDepot (id : String) : EStateM Err (List Call) Unit := do
  let rootfsProvider ← readProvider cfg o id
  ensure (rootfsProvider ∈ cfg.rootfsProviders) .unknownRootFSProvider
  call o (.run (destroyCmd cfg id))
  call o (.cleanupRootFS rootfsProvider id)

/-- The releases of `Destroy`. -/
def releaseAll (r : Resources) (s : LinuxContainerPool) : LinuxContainerPool :=
  releaseNetwork r.network (releaseUID r.uid (releasePorts r.ports s))

theorem releaseAll_uidPool (r : Resources) (s : LinuxContainerPool) :
    (releaseAll r s).uidPool = s.uidPool.release r.uid := rfl

theorem releaseAll_networkPool (r : Resources) (s : LinuxContainerPool) :
    (releaseAll r s).networkPool = s.networkPool.release r.network := rfl

theorem mem_releaseAll_portPool {r : Resources} {s : LinuxContainerPool} {q : UInt32} :
    q ∈ (releaseAll r s).portPool.pool ↔ q ∈ s.portPool.pool ∨ q ∈ r.ports ∧ s.portPool.InRange q :=
  PortPool.mem_foldl_release

/-- `Destroy` -/
def destroy (c : LinuxContainer) : EStateM Err LinuxContainerPool Unit := do
  zoom calls (destroyDepot cfg o c.id)
  modify (releaseAll c.resources)

/-- `Prune` -/
def prune (keep : List String) : EStateM Err (List Call) Unit := do
  let entries ← ask o (.readDir cfg.depotPath)
  each (fun id => if id = "tmp" ∨ id ∈ keep then pure () else destroyDepot cfg o id) entries.names

end

/-! ## What a create can do -/

/-- The user ID `u` and the network `n` were taken from the front of the pools,
    with the next container ID. -/
structure Took (s s' : LinuxContainerPool) (u : UInt32) (n : Network) : Prop where
  uids : s.uidPool.pool = u :: s'.uidPool.pool
  networks : s.networkPool.pool = n :: s'.networkPool.pool
  ports : s'.portPool = s.portPool
  num : s'.containerNum = s.containerNum + 1

/-- Everything before `create.sh` succeeds, and `create.sh` fails. -/
def CreateShFails (cfg : Config) (o : Oracle) (spec : ContainerSpec) (s : LinuxContainerPool)
    (u : UInt32) (n : Network) : Prop :=
  ∃ url rootfs e, cfg.parseURL spec.rootFSPath = .ok url ∧ url.scheme ∈ cfg.rootfsProviders ∧
    let provide : Call := .provideRootFS url.scheme (containerID s.containerNum) url
    o s.log provide = .ok rootfs ∧
    o (s.log ++ [provide]) (.run (createCmd cfg (containerID s.containerNum) rootfs.text u n)) = .error e

/-- What a `Create` that fails has done to the pools of user IDs and networks. -/
inductive CreateFailed (cfg : Config) (o : Oracle) (spec : ContainerSpec)
    (s s' : LinuxContainerPool) : Prop
  | noUID : s.uidPool.pool = [] → s' = s → CreateFailed cfg o spec s s'
  | noNetwork (u : UInt32) (us : List UInt32) : s.uidPool.pool = u :: us →
      s.networkPool.pool = [] → s'.uidPool.pool = us ++ [u] → s'.networkPool = s.networkPool →
      s'.portPool = s.portPool → s'.containerNum = s.containerNum → CreateFailed cfg o spec s s'
  | released (u : UInt32) (us : List UInt32) (n : Network) (ns : List Network) :
      s.uidPool.pool = u :: us → s.networkPool.pool = n :: ns → CreateShFails cfg o spec s u n →
      s'.uidPool.pool = us ++ [u] → s'.networkPool.pool = ns ++ [n] → s'.portPool = s.portPool →
      s'.containerNum = s.containerNum + 1 → CreateFailed cfg o spec s s'
  | leaked (u : UInt32) (n : Network) : Took s s' u n → ¬ CreateShFails cfg o spec s u n →
      CreateFailed cfg o spec s s'

section
variable {cfg : Config} {o : Oracle} {s : LinuxContainerPool}

theorem wp_each_call {Q : Unit → List Call → Prop} {E : Err → List Call → Prop} {log : List Call}
    {cs : List Cmd} (hQ : ∀ log, Q () log) (hE : ∀ e log, E e log) :
    wp (each (fun cmd => call o (.run cmd)) cs) Q E log := by
  refine wp_mono (wp_each (P := fun _ => True) trivial fun _ _ _ _ => ?_) (fun _ _ _ => hQ _)
    (fun _ _ _ => hE _ _)
  simp

/-- **What a `Create` can do**: both resources are taken and the container has
    them, or it fails. -/
theorem create_cases (spec : ContainerSpec) :
    wp (create cfg o spec)
      (fun c s' => ∃ u n, Took s s' u n ∧ c = newContainer cfg spec (containerID s.containerNum) u n)
      (fun _ s' => CreateFailed cfg o spec s s') s := by
  simp only [create, uids, wp_bind, wp_zoom, UnixUIDPool.acquire, FreeList.Stock.wp_acquire]
  refine ⟨fun u us hu hsu => ?_, fun hu => .noUID hu rfl⟩
  have hmem : u ∈ s.uidPool.pool := by rw [show s.uidPool.pool = _ from hu]; simp
  simp only [networks, wp_onError, wp_zoom, RealNetworkPool.acquire, FreeList.Stock.wp_acquire]
  refine ⟨fun n ns hn hsn => ?_, fun hn => ?_⟩
  · have hmem' : n ∈ s.networkPool.pool := by rw [show s.networkPool.pool = _ from hn]; simp
    simp only [calls, nextContainerID, wp_bind, wp_get, wp_modify, wp_pure, wp_checked, wp_ensure,
      wp_ask, wp_call]
    -- the state with both taken, after any calls
    have took : ∀ log, Took s { s with
        uidPool := UnixUIDPool.stock.keep s.uidPool us hsu,
        networkPool := RealNetworkPool.stock.keep s.networkPool ns hsn,
        containerNum := s.containerNum + 1, log := log } u n := fun log => ⟨hu, hn, rfl, rfl⟩
    refine ⟨fun url hurl => ⟨fun hscheme => ⟨fun rootfs hroot => ⟨fun r hr => ?_, fun e he => ?_⟩,
      fun e he => ?_⟩, fun hscheme => ?_⟩, fun e he => ?_⟩
    · have hno : ¬ CreateShFails cfg o spec s u n := by
        rintro ⟨url', rootfs', e', h1, -, h3, h4⟩
        rw [hurl] at h1; cases h1
        rw [hroot] at h3; cases h3
        rw [hr] at h4; cases h4
      simp only [saveRootFSProvider, writeBindMounts, wp_bind, wp_call]
      refine ⟨fun _ _ => ⟨fun _ _ => wp_each_call (fun log => ?_) (fun e log => ?_), fun _ _ => ?_⟩,
        fun _ _ => ?_⟩
      · exact ⟨u, n, took _, rfl⟩
      all_goals exact .leaked u n (took _) hno
    · exact .released u us n ns hu hn ⟨url, rootfs, e, hurl, hscheme, hroot, he⟩
        (UnixUIDPool.release_of_mem hmem rfl rfl) (RealNetworkPool.release_of_mem hmem' rfl) rfl rfl
    · refine .leaked u n (took _) ?_
      rintro ⟨url', rootfs', e', h1, -, h3, -⟩
      rw [hurl] at h1; cases h1
      rw [he] at h3; cases h3
    · refine .leaked u n (took _) ?_
      rintro ⟨url', rootfs', e', h1, h2, -⟩
      rw [hurl] at h1; cases h1
      exact hscheme h2
    · refine .leaked u n (took _) ?_
      rintro ⟨url', rootfs', e', h1, -⟩
      rw [he] at h1; cases h1
  · exact .noNetwork u us hu hn (UnixUIDPool.release_of_mem hmem rfl rfl) rfl rfl rfl

/-- A `Destroy` releases everything or nothing. -/
theorem wp_destroy {Q : Unit → LinuxContainerPool → Prop} {E : Err → LinuxContainerPool → Prop}
    (c : LinuxContainer) (hQ : ∀ log, Q () (releaseAll c.resources { s with log := log }))
    (hE : ∀ e log, E e { s with log := log }) : wp (destroy cfg o c) Q E s := by
  simp only [destroy, calls, wp_bind, wp_zoom, wp_modify]
  exact wp_any (fun _ log => hQ log) (fun e log => hE e log)

end

end LinuxContainerPool

end WardenLinux
