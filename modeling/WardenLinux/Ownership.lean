/-
  Exclusive ownership of the pooled resources.

  `served_owned`: from fresh pools, whatever requests are served and whatever
  their calls return, no user ID, network or port is held by two registered
  containers, and none that is held is free.  A failed request may lose
  resources; it never gives one out twice.
-/
import WardenLinux.Backend

namespace WardenLinux

open Fallible FreeList

namespace LinuxBackend

/-- The container registered under `h` holds `r`, where `f` says which part of
    its resources is meant. -/
def Holds {R : Type} (b : LinuxBackend) (f : Resources → R → Prop) (h : String) (r : R) : Prop :=
  ∃ i, b.containers.lookup h = some i ∧ f (b.container i).resources r

/-- A container is registered under its own handle. -/
def Filed (b : LinuxBackend) : Prop :=
  ∀ h i, b.containers.lookup h = some i → i < b.heap.length ∧ (b.container i).handle = h

def HasUID (r : Resources) (u : UInt32) : Prop := r.uid = u
def HasNetwork (r : Resources) (t : IP × ℕ) : Prop := r.network.string = t
def HasPort (r : Resources) (p : UInt32) : Prop := p ∈ r.ports

/-- **Exclusive ownership.**  The owners are the handles of the registry, and a
    network is told by its subnet. -/
structure Owned (b : LinuxBackend) : Prop where
  filed : b.Filed
  uids : Exclusive b.pool.uidPool.pool (b.Holds HasUID)
  networks : Exclusive (b.pool.networkPool.pool.map Network.string) (b.Holds HasNetwork)
  ports : Exclusive b.pool.portPool.pool (b.Holds HasPort)

variable {cfg : Config} {o : Oracle} {b b' : LinuxBackend} {R : Type} {f : Resources → R → Prop}

/-! ## The registry -/

theorem holds_congr (hc : b'.containers = b.containers)
    (hr : ∀ h i, b.containers.lookup h = some i →
      (b'.container i).resources = (b.container i).resources) :
    ∀ h (r : R), b'.Holds f h r → b.Holds f h r := by
  rintro h r ⟨i, hi, hf⟩
  rw [hc] at hi
  exact ⟨i, hi, hr h i hi ▸ hf⟩

/-- A new object under a handle: its own resources, and what the other handles
    held. -/
theorem holds_insert {c : LinuxContainer} (hF : b.Filed) (hh : b'.heap = b.heap ++ [c])
    (hc : b'.containers = b.containers.insert c.handle b.heap.length) {h : String} {r : R}
    (hr : b'.Holds f h r) : b.Holds f h r ∨ h = c.handle ∧ f c.resources r := by
  obtain ⟨i, hi, hf⟩ := hr
  rw [hc] at hi
  rcases Maps.lookup_insert_eq_some.1 hi with ⟨rfl, rfl⟩ | ⟨-, hi⟩
  · rw [container_append_self hh] at hf
    exact Or.inr ⟨rfl, hf⟩
  · rw [container_append hh (hF h i hi).1] at hf
    exact Or.inl ⟨i, hi, hf⟩

theorem filed_append {c : LinuxContainer} (hF : b.Filed) (hh : b'.heap = b.heap ++ [c])
    (hc : b'.containers = b.containers) : b'.Filed := by
  intro h i hi
  rw [hc] at hi
  obtain ⟨hlt, he⟩ := hF h i hi
  rw [container_append hh hlt]
  exact ⟨by simp only [hh, List.length_append]; omega, he⟩

theorem filed_insert {c : LinuxContainer} (hF : b.Filed) (hh : b'.heap = b.heap ++ [c])
    (hc : b'.containers = b.containers.insert c.handle b.heap.length) : b'.Filed := by
  intro h i hi
  rw [hc] at hi
  rcases Maps.lookup_insert_eq_some.1 hi with ⟨rfl, rfl⟩ | ⟨-, hi⟩
  · exact ⟨by simp [hh], by rw [container_append_self hh]⟩
  · obtain ⟨hlt, he⟩ := hF h i hi
    rw [container_append hh hlt]
    exact ⟨by simp only [hh, List.length_append]; omega, he⟩

theorem holds_erase (hh : b'.heap = b.heap) {k : String} (hc : b'.containers = b.containers.erase k)
    {h : String} {r : R} (hr : b'.Holds f h r) : b.Holds f h r ∧ h ≠ k := by
  obtain ⟨i, hi, hf⟩ := hr
  rw [hc] at hi
  obtain ⟨hne, hi⟩ := Maps.lookup_erase_eq_some.1 hi
  refine ⟨⟨i, hi, ?_⟩, hne⟩
  rwa [container, hh] at hf

theorem filed_erase (hF : b.Filed) (hh : b'.heap = b.heap) {k : String}
    (hc : b'.containers = b.containers.erase k) : b'.Filed := by
  intro h i hi
  rw [hc] at hi
  rw [container, hh]
  exact hF h i (Maps.lookup_erase_eq_some.1 hi).2

/-! ## Steps -/

/-- A `Create` refused by the pool may lose resources from the lists. -/
theorem owned_refused (h : b.Owned) {spec : ContainerSpec} {p : LinuxContainerPool}
    (hp : LinuxContainerPool.CreateFailed cfg o spec b.pool p) : Owned { b with pool := p } := by
  have same : ∀ {R : Type} {f : Resources → R → Prop} h r,
      ({ b with pool := p } : LinuxBackend).Holds f h r → b.Holds f h r := fun _ _ hr => hr
  obtain ⟨hF, hu, hn, hq⟩ := h
  cases hp with
  | noUID _ he => subst he; exact ⟨hF, hu, hn, hq⟩
  | noNetwork u us hu₁ _ hu₂ hn₂ hp₂ _ =>
    refine ⟨hF, ?_, ?_, ?_⟩
    · simp only [hu₂]; rw [hu₁] at hu; exact hu.rotate.drop same
    · simp only [hn₂]; exact hn.drop same
    · simp only [hp₂]; exact hq.drop same
  | released u us n ns hu₁ hn₁ _ hu₂ hn₂ hp₂ _ =>
    refine ⟨hF, ?_, ?_, ?_⟩
    · simp only [hu₂]; rw [hu₁] at hu; exact hu.rotate.drop same
    · simp only [hn₂, List.map_append, List.map_singleton]
      rw [hn₁] at hn; exact hn.rotate.drop same
    · simp only [hp₂]; exact hq.drop same
  | leaked u n ht _ =>
    refine ⟨hF, ?_, ?_, ?_⟩
    · rw [ht.uids] at hu; exact (hu.shrink (List.sublist_cons_self _ _)).drop same
    · rw [ht.networks] at hn; exact (hn.shrink (List.sublist_cons_self _ _)).drop same
    · simp only [ht.ports]; exact hq.drop same

/-- A container that is not registered keeps what it was given. -/
theorem owned_orphaned (h : b.Owned) {u : UInt32} {n : Network} {c : LinuxContainer}
    (ht : LinuxContainerPool.Took b.pool b'.pool u n) (hh : b'.heap = b.heap ++ [c])
    (hc : b'.containers = b.containers) : b'.Owned := by
  have same : ∀ {R : Type} {f : Resources → R → Prop} k r, b'.Holds f k r → b.Holds f k r :=
    fun k r => holds_congr hc (fun k i hi => by rw [container_append hh (h.filed k i hi).1]) k r
  refine ⟨filed_append h.filed hh hc, ?_, ?_, ?_⟩
  · exact ((ht.uids ▸ h.uids).shrink (List.sublist_cons_self _ _)).drop same
  · have hn := h.networks
    rw [ht.networks, List.map_cons] at hn
    exact (hn.shrink (List.sublist_cons_self _ _)).drop same
  · rw [ht.ports]; exact h.ports.drop same

theorem owned_registered (h : b.Owned) {u : UInt32} {n : Network} {c : LinuxContainer}
    (ht : LinuxContainerPool.Took b.pool b'.pool u n) (hr : c.resources = ⟨u, n, []⟩)
    (hh : b'.heap = b.heap ++ [c])
    (hc : b'.containers = b.containers.insert c.handle b.heap.length) : b'.Owned := by
  have split : ∀ {R : Type} {f : Resources → R → Prop} k r, b'.Holds f k r →
      b.Holds f k r ∨ k = c.handle ∧ f ⟨u, n, []⟩ r :=
    fun k r hold => hr ▸ holds_insert h.filed hh hc hold
  refine ⟨filed_insert h.filed hh hc, ?_, ?_, ?_⟩
  · have hu := h.uids
    rw [ht.uids] at hu
    exact hu.give fun k r hold => (split k r hold).imp_right fun h' => ⟨h'.1, h'.2.symm⟩
  · have hn := h.networks
    rw [ht.networks, List.map_cons] at hn
    exact hn.give fun k r hold => (split k r hold).imp_right fun h' => ⟨h'.1, h'.2.symm⟩
  · rw [ht.ports]
    refine h.ports.drop fun k r hold => (split k r hold).elim id fun h' => ?_
    exact absurd h'.2 List.not_mem_nil

theorem owned_create (h : b.Owned) (spec : ContainerSpec) :
    (final (create cfg o spec b)).Owned := by
  have hcases := create_cases cfg o b spec
  generalize final (create cfg o spec b) = b' at hcases ⊢
  cases hcases with
  | refused e p hp he =>
    have hfail := wp_of_error (LinuxContainerPool.create_cases spec) hp
    rw [he]
    exact owned_refused h hfail
  | orphaned c p e log hp _ he =>
    obtain ⟨u, n, ht, -⟩ := wp_of_ok (LinuxContainerPool.create_cases spec) hp
    subst he
    exact owned_orphaned h (u := u) (n := n) ⟨ht.uids, ht.networks, ht.ports, ht.num⟩ rfl rfl
  | registered c p r log hp _ he =>
    obtain ⟨u, n, ht, hc⟩ := wp_of_ok (LinuxContainerPool.create_cases spec) hp
    subst he
    exact owned_registered h (u := u) (n := n) (c := { c with state := .active })
      ⟨ht.uids, ht.networks, ht.ports, ht.num⟩ (by rw [hc]; rfl) rfl rfl

/-- The resources of a container go back when it is unregistered. -/
theorem owned_destroyed (h : b.Owned) {handle : String} {i : ℕ} {log : List Call}
    (hi : b.containers.lookup handle = some i)
    (hp : b'.pool = LinuxContainerPool.releaseAll (b.container i).resources { b.pool with log := log })
    (hh : b'.heap = b.heap) (hc : b'.containers = b.containers.erase handle) : b'.Owned := by
  have hold : ∀ {R : Type} {f : Resources → R → Prop} {r : R}, f (b.container i).resources r →
      b.Holds f handle r := fun hf => ⟨i, hi, hf⟩
  have left : ∀ {R : Type} {f : Resources → R → Prop} k r, b'.Holds f k r →
      b.Holds f k r ∧ k ≠ handle := fun k r => holds_erase hh hc
  refine ⟨filed_erase h.filed hh hc, ?_, ?_, ?_⟩
  · rw [hp, LinuxContainerPool.releaseAll_uidPool]
    exact h.uids.putBack (hold rfl) (UnixUIDPool.release_cases _ _) left
  · rw [hp, LinuxContainerPool.releaseAll_networkPool]
    exact h.networks.putBack (hold rfl) (RealNetworkPool.release_cases _ _) left
  · refine h.ports.retire handle b'.pool.portPool.nodup (fun r hr => ?_) left
    rw [hp] at hr
    exact (LinuxContainerPool.mem_releaseAll_portPool.1 hr).imp_right fun hr => hold hr.1

theorem owned_destroy (h : b.Owned) (handle : String) :
    (final (destroy cfg o handle b)).Owned := by
  refine wp_final (P := Owned) (wp_destroy handle (fun i log hi => ?_) fun _ log => ?_)
  · rw [(h.filed handle i hi).2]
    exact owned_destroyed h hi rfl rfl rfl
  · exact ⟨h.filed, h.uids, h.networks, h.ports⟩

/-- An operation may move one free port to its container. -/
theorem owned_evolves (h : b.Owned) {i : ℕ} (hi : i < b.heap.length) {cell : Cell}
    (he : LinuxContainer.Evolves ((object i).get b) cell) : ((object i).set cell b).Owned := by
  -- what another object has, and what this one has now
  have split : ∀ {R : Type} {f : Resources → R → Prop} k r, ((object i).set cell b).Holds f k r →
      b.Holds f k r ∨ b.containers.lookup k = some i ∧ f cell.container.resources r := by
    rintro R f k r ⟨j, hj, hf⟩
    rcases container_set_cases hi cell j with ⟨rfl, hje⟩ | hje
    · exact Or.inr ⟨hj, hje ▸ hf⟩
    · exact Or.inl ⟨j, hj, hje ▸ hf⟩
  refine ⟨fun k j hj => ?_, ?_, ?_, ?_⟩
  · obtain ⟨hlt, hk⟩ := h.filed k j hj
    refine ⟨by simpa [object] using hlt, ?_⟩
    rcases container_set_cases hi cell j with ⟨rfl, hje⟩ | hje
    · rw [hje]
      exact he.handle.trans hk
    · rw [hje, hk]
  · refine h.uids.drop fun k r hr => (split k r hr).elim id ?_
    rintro ⟨hk, hf⟩
    exact ⟨i, hk, he.uid.symm.trans hf⟩
  · refine h.networks.drop fun k r hr => (split k r hr).elim id ?_
    rintro ⟨hk, hf⟩
    exact ⟨i, hk, (congrArg Network.string he.network).symm.trans hf⟩
  · rcases he.ports with ⟨hpool, hsame⟩ | ⟨p, hpool, -, -, hadd⟩
    · have hpool' : ((object i).set cell b).pool.portPool = b.pool.portPool := hpool
      rw [hpool']
      refine h.ports.drop fun k r hr => (split k r hr).elim id ?_
      rintro ⟨hk, hf⟩
      rw [HasPort, hsame] at hf
      exact ⟨i, hk, hf⟩
    · have hpool' : b.pool.portPool.pool = p :: cell.portPool.pool := hpool
      have hports := h.ports
      rw [hpool'] at hports
      refine hports.give (o := (b.container i).handle) fun k r hr => (split k r hr).elim Or.inl ?_
      rintro ⟨hk, hf⟩
      rw [HasPort, hadd] at hf
      rcases List.mem_append.1 hf with hf | hf
      · exact Or.inl ⟨i, hk, hf⟩
      · exact Or.inr ⟨(h.filed k i hk).2.symm, List.mem_singleton.1 hf⟩

theorem owned_serve (h : b.Owned) : ∀ r : Request, (serve cfg o b r).Owned
  | .create spec => owned_create h spec
  | .destroy handle => owned_destroy h handle
  | .container i op => by
    simp only [serve]
    split_ifs with hi
    · exact wp_object (LinuxContainer.tame_perform op) i fun cell hc => owned_evolves h hi hc
    · exact h

/-- A daemon with new pools and no container. -/
def fresh (uidStart uidSize portStart portSize : UInt32) (networks : RealNetworkPool)
    (containerNum : ℕ) (snapshotsPath : String) : LinuxBackend :=
  .new ⟨.new uidStart uidSize, networks, .new portStart portSize, containerNum, []⟩ snapshotsPath ∅

theorem fresh_tiny (path : String) :
    fresh 10000 1 61001 2 LinuxContainerPool.tiny.networkPool 0 path = .new .tiny path ∅ := by
  have h1 : fill 10000 10001 = [10000] := by simp [fill]
  have h2 : fill 61001 61003 = [61001, 61002] := by simp [fill]
  simp [fresh, UnixUIDPool.new, PortPool.new, LinuxContainerPool.tiny, h1, h2]

theorem owned_fresh {fuel : ℕ} {ipNet : IPNet} {networks : RealNetworkPool}
    (hn : RealNetworkPool.new fuel ipNet = some networks) (us uz ps pz : UInt32) (num : ℕ)
    (path : String) : (fresh us uz ps pz networks num path).Owned := by
  have none : ∀ {R : Type} {f : Resources → R → Prop} k r,
      ¬ (fresh us uz ps pz networks num path).Holds f k r := by
    rintro R f k r ⟨i, hi, -⟩
    simp [fresh, new] at hi
  refine ⟨fun k i hi => by simp [fresh, new] at hi, ?_, ?_, ?_⟩
  · exact .fresh (nodup_fill _ _) none
  · exact .fresh (RealNetworkPool.new_nodup hn) none
  · exact .fresh (nodup_fill _ _) none

/-- **Exclusive ownership.**  In every state that requests lead to, whatever
    their calls return, no user ID, subnet or port has two owners and none that
    is owned is free. -/
theorem served_owned {fuel : ℕ} {ipNet : IPNet} {networks : RealNetworkPool}
    (hn : RealNetworkPool.new fuel ipNet = some networks) (us uz ps pz : UInt32) (num : ℕ)
    (path : String) (rs : List Request) :
    (serveAll cfg o rs (fresh us uz ps pz networks num path)).Owned := by
  have run : ∀ (rs : List Request) (b : LinuxBackend), b.Owned → (serveAll cfg o rs b).Owned := by
    intro rs
    induction rs with
    | nil => exact fun _ h => h
    | cons r rs ih => exact fun b h => ih _ (owned_serve h r)
  exact run rs _ (owned_fresh hn us uz ps pz num path)

theorem served_owned_two :
    ∃ networks, RealNetworkPool.new 3 ⟨[10, 254, 0, 0], 29⟩ = some networks ∧
      (serveAll .plain .quiet [.create .bare, .container 0 (.netIn 0 8080), .create .bare,
        .destroy "web", .create { ContainerSpec.bare with handle := "web" }, .destroy "web"]
        (fresh 10000 2 61001 2 networks 0 "")).Owned :=
  ⟨_, rfl, served_owned (show RealNetworkPool.new 3 ⟨[10, 254, 0, 0], 29⟩ = some _ from rfl)
    _ _ _ _ _ _ _⟩

end LinuxBackend

end WardenLinux
