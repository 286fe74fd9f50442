/-
  The snapshots of a daemon that writes them as JSON.

  What is written of a container in a form of its own stays with it for its life: its
  grace time, its network and its properties.  The first and the last are the client's,
  and the network is one of the pool's.

  * `allWritable_serve`: so a request leaves every container such that its snapshot is
    read as it was written.
  * `stop_files`: after requests whose spawns become ready `Stop` leaves a file for each
    registered container, and `Restore` decodes it to the container's snapshot.
-/
import WardenLinux.Restart
import WardenLinux.SnapshotFiles

namespace WardenLinux

open Fallible LinuxBackend

namespace SnapshotFiles

/-! ## What can be written -/

/-- The properties are those of a map: every key once, and in order. -/
def Canonical (ps : Properties) : Prop := (ps.map Prod.fst).Nodup ∧ sorted ps = ps

/-- The grace time fits into its type, and the properties are a map. -/
structure Sendable (spec : ContainerSpec) : Prop where
  graceTime : -2 ^ 63 ≤ spec.graceTime ∧ spec.graceTime < 2 ^ 63
  properties : Canonical spec.properties

/-- What a container has for its life can be written. -/
structure Writable (c : LinuxContainer) : Prop where
  graceTime : -2 ^ 63 ≤ c.graceTime ∧ c.graceTime < 2 ^ 63
  network : Written c.resources.network
  properties : Canonical c.properties

theorem Writable.of_ident {c c' : LinuxContainer} (h : Writable c) (hi : c'.ident = c.ident) :
    Writable c' := by
  obtain ⟨hg, hn, hp⟩ := h
  have hgrace : c'.graceTime = c.graceTime := congrArg LinuxContainer.Ident.graceTime hi
  have hnet : c'.resources.network = c.resources.network := congrArg LinuxContainer.Ident.network hi
  have hprops : c'.properties = c.properties := congrArg LinuxContainer.Ident.properties hi
  exact ⟨hgrace ▸ hg, hnet ▸ hn, hprops ▸ hp⟩

theorem Writable.read_back {c : LinuxContainer} (h : Writable c) :
    decode (encode c.snapshot) = .ok c.snapshot := by
  have htyped : WellTyped c.snapshot := ⟨h.graceTime, h.network, h.properties.1⟩
  have hsame : sorted c.snapshot.properties = c.snapshot.properties := h.properties.2
  rw [decode, read_encode, Option.bind_some, decode_json htyped, reread, hsame]

/-- The free networks and all objects can be written. -/
structure AllWritable (b : LinuxBackend) : Prop where
  networks : ∀ n ∈ b.pool.networkPool.pool, Written n
  objects : ∀ i < b.heap.length, Writable (b.container i)

section

variable {cfg : Config} {o : Oracle} {b : LinuxBackend}

theorem networks_createFailed {spec : ContainerSpec} {p p' : LinuxContainerPool}
    (h : ∀ n ∈ p.networkPool.pool, Written n) (hp : LinuxContainerPool.CreateFailed cfg o spec p p') :
    ∀ n ∈ p'.networkPool.pool, Written n := by
  intro n hn
  cases hp with
  | noUID _ he => exact h n (he ▸ hn)
  | noNetwork u us _ _ _ hn₂ _ _ => exact h n (hn₂ ▸ hn)
  | released u us m ns _ hn₁ _ _ hn₂ _ _ =>
    -- the network goes from the front of the list to its end
    rw [hn₂] at hn
    refine h n (hn₁ ▸ ?_)
    simpa [or_comm] using hn
  | leaked u m ht _ => exact h n (ht.networks ▸ List.mem_cons_of_mem _ hn)

/-- A new object has a network of the pool. -/
theorem allWritable_append {b' : LinuxBackend} {u : UInt32} {n : Network} {c : LinuxContainer}
    {spec : ContainerSpec} {id : String} (h : AllWritable b) (hspec : Sendable spec)
    (ht : LinuxContainerPool.Took b.pool b'.pool u n) (hh : b'.heap = b.heap ++ [c])
    (hc : c.ident = (LinuxContainerPool.newContainer cfg spec id u n).ident) : AllWritable b' := by
  have hn : Written n := h.networks n (ht.networks ▸ List.mem_cons_self)
  have hnew : Writable (LinuxContainerPool.newContainer cfg spec id u n) :=
    ⟨hspec.graceTime, hn, hspec.properties⟩
  refine ⟨fun m hm => h.networks m (ht.networks ▸ List.mem_cons_of_mem _ hm), fun i hi => ?_⟩
  rcases container_append_cases hh hi with ⟨-, he⟩ | ⟨hlt, he⟩
  · exact he ▸ hnew.of_ident hc
  · exact he ▸ h.objects i hlt

theorem allWritable_create (h : AllWritable b) {spec : ContainerSpec} (hspec : Sendable spec) :
    AllWritable (final (create cfg o spec b)) := by
  have hcases := create_cases cfg o b spec
  generalize final (create cfg o spec b) = b' at hcases ⊢
  cases hcases with
  | refused e p hp he =>
    have hfail := wp_of_error (LinuxContainerPool.create_cases spec) hp
    subst he
    exact ⟨networks_createFailed h.networks hfail, h.objects⟩
  | orphaned c p e log hp _ he =>
    obtain ⟨u, n, ht, hc⟩ := wp_of_ok (LinuxContainerPool.create_cases spec) hp
    subst he
    exact allWritable_append h hspec ⟨ht.uids, ht.networks, ht.ports, ht.num⟩ rfl
      (congrArg LinuxContainer.ident hc)
  | registered c p r log hp _ he =>
    obtain ⟨u, n, ht, hc⟩ := wp_of_ok (LinuxContainerPool.create_cases spec) hp
    have hident : LinuxContainer.ident { c with state := .active } = c.ident := rfl
    subst he
    exact allWritable_append h hspec ⟨ht.uids, ht.networks, ht.ports, ht.num⟩ rfl
      (hident.trans (congrArg LinuxContainer.ident hc))

theorem allWritable_destroy (h : AllWritable b)
    (hfiled : ∀ k i, b.containers.lookup k = some i → i < b.heap.length) (handle : String) :
    AllWritable (final (destroy cfg o handle b)) := by
  refine wp_final (wp_destroy handle (fun i log hi => ⟨fun n hn => ?_, h.objects⟩)
    fun _ log => ⟨h.networks, h.objects⟩)
  have hi' := h.objects i (hfiled handle i hi)
  rw [LinuxContainerPool.releaseAll_networkPool, RealNetworkPool.release] at hn
  split at hn
  · exact h.networks n hn
  · rcases List.mem_append.1 hn with hn | hn
    · exact h.networks n hn
    · exact List.mem_singleton.1 hn ▸ hi'.network

theorem allWritable_evolves (h : AllWritable b) {i : ℕ} (hi : i < b.heap.length) {cell : Cell}
    (he : LinuxContainer.Evolves ((object i).get b) cell) :
    AllWritable ((object i).set cell b) := by
  have hlen : ((object i).set cell b).heap.length = b.heap.length := by
    simp [object]
  refine ⟨h.networks, fun j hj => ?_⟩
  rw [hlen] at hj
  rcases container_set_cases hi cell j with ⟨rfl, hje⟩ | hje
  · exact hje ▸ (h.objects j hj).of_ident he.ident
  · exact hje ▸ h.objects j hj

/-! ## Runs -/

/-- **One request.** -/
theorem allWritable_serve (h : AllWritable b) (hO : b.Owned) {r : Request}
    (hr : ∀ spec, r = .create spec → Sendable spec) : AllWritable (serve cfg o b r) := by
  cases r with
  | create spec => exact allWritable_create h (hr spec rfl)
  | destroy handle => exact allWritable_destroy h (fun k i hi => (hO.filed k i hi).1) handle
  | container i op =>
    simp only [serve]
    split_ifs with hi
    · exact wp_object (LinuxContainer.tame_perform op) i fun cell hc =>
        allWritable_evolves h hi hc
    · exact h

theorem allWritable_serveAll : ∀ (rs : List Request) {b : LinuxBackend}, AllWritable b →
    b.Owned → (∀ spec, .create spec ∈ rs → Sendable spec) →
    AllWritable (serveAll cfg o rs b)
  | [], _, h, _, _ => h
  | r :: rs, _, h, hO, hrs => by
    rw [serveAll_cons]
    refine allWritable_serveAll rs (allWritable_serve h hO fun spec hr => ?_)
      (owned_serve hO r) fun spec hs => hrs spec (List.mem_cons_of_mem _ hs)
    exact hrs spec (hr ▸ List.mem_cons_self)

end

theorem allWritable_fresh {fuel : ℕ} {ipNet : IPNet} {networks : RealNetworkPool}
    (hn : RealNetworkPool.new fuel ipNet = some networks) (us uz ps pz : UInt32) (num : ℕ)
    (path : String) : AllWritable (fresh us uz ps pz networks num path) := by
  refine ⟨fun n hmem => ?_, fun i hi => by simp [fresh, LinuxBackend.new] at hi⟩
  obtain ⟨⟨hones, hl, h4⟩, heq⟩ := (RealNetworkPool.new_ascending hn).1 n hmem
  rw [heq]
  exact written_new hl hones h4

/-- **The files of `Stop`.**  A daemon whose snapshots are JSON is made, serves requests,
    the spawn of every `Run` of which becomes ready, and is stopped: there is a file for
    each registered container and no other, and it is decoded to the container's snapshot. -/
theorem stop_files (cfg : Config) (S : Scenario) (hcfg : S.cfg = inJSON cfg)
    (hn : ∃ fuel ipNet, RealNetworkPool.new fuel ipNet = some S.networks) (hports : 0 < S.portStart)
    (hpath : S.snapshotsPath ≠ "") (hrs : ∀ spec, .create spec ∈ S.requests → Sendable spec)
    (hready : Transition.eachStep (serve S.cfg S.serving) (SpawnReady S.serving) S.made S.requests)
    (hle : S.requests.countP Request.isCreate ≤ 2 ^ 55) (hstop : S.stopping.Succeeds)
    (horder : S.order.Perm S.served.registered) : Files (inJSON cfg) S.served S.files := by
  obtain ⟨fuel, ipNet, hn⟩ := hn
  have h : Retained S.made S.served := served_retained hn hports hle
  have hall : AllWritable S.served :=
    allWritable_serveAll S.requests (allWritable_fresh hn _ _ _ _ _ _) (owned_fresh hn _ _ _ _ _ _) hrs
  have hjson : ∀ i ∈ S.served.registered, S.cfg.decode (S.cfg.encode (S.served.container i).snapshot) =
      .ok (S.served.container i).snapshot := by
    intro i hi
    obtain ⟨k, hk⟩ := mem_registered.1 hi
    rw [hcfg, inJSON_encode, inJSON_decode]
    exact (hall.objects i (h.owned.filed k i hk).1).read_back
  rw [← hcfg, S.files_eq hstop (S.served_linked hready) (h.snapshotsPath ▸ hpath)]
  exact h.files rfl hjson horder

/-- The daemon of `webRestart`, with its snapshots in JSON. -/
def webScenario : Scenario :=
  { webRestart "/snapshots" webRequests [0] [] "" with cfg := inJSON .plain }

theorem stop_files_web : webScenario.served.registered = [0] ∧
    Files (inJSON .plain) webScenario.served webScenario.files := by
  have hserved : webScenario.served =
      serveAll (inJSON .plain) .quiet webRequests (.new .tiny "/snapshots" ∅) :=
    congrArg (serveAll (inJSON .plain) .quiet webRequests) (fresh_tiny "/snapshots")
  have hreg : webScenario.served.registered = [0] := by
    rw [hserved]
    decide +kernel
  refine ⟨hreg, stop_files .plain webScenario rfl ⟨2, ⟨[10, 254, 0, 0], 30⟩, rfl⟩ (by decide) (by decide)
    (fun spec hs => ?_) (spawnReady_of_spawns (fun _ _ => ⟨_, rfl⟩) _ _) (by decide)
    (fun _ _ => ⟨_, rfl⟩) (.of_eq hreg.symm)⟩
  have hspec : spec = { ContainerSpec.bare with handle := "web" } := by
    simpa [webScenario, webRestart, webRequests] using hs
  subst hspec
  exact ⟨by decide, by decide, rfl⟩

end SnapshotFiles

end WardenLinux
