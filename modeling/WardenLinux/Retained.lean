/-
  What the containers of a daemon hold comes from its new pools.

  `served_retained`: in every state that requests lead to, the objects hold
  user IDs, networks and ports of the pools the daemon was started with, their
  mappings and permissions can be replayed, and, for the first `2 ^ 55`
  `Create` requests, no two objects have the same ID.
-/
import WardenLinux.Ownership

namespace WardenLinux

open Fallible FreeList

namespace LinuxBackend

/-- The resources are among those of the pools. -/
structure Within (p₀ : LinuxContainerPool) (r : Resources) : Prop where
  uid : r.uid ∈ p₀.uidPool.pool
  network : r.network.string ∈ p₀.networkPool.pool.map Network.string
  ports : ∀ p ∈ r.ports, p ∈ p₀.portPool.pool

/-- The free resources are among those of the pools. -/
structure FreeWithin (p₀ p : LinuxContainerPool) : Prop where
  uids : ∀ u ∈ p.uidPool.pool, u ∈ p₀.uidPool.pool
  networks : ∀ t ∈ p.networkPool.pool.map Network.string, t ∈ p₀.networkPool.pool.map Network.string
  ports : ∀ q ∈ p.portPool.pool, q ∈ p₀.portPool.pool
  start : p.portPool.start = p₀.portPool.start

/-- The objects of `b` come from the daemon `b₀`. -/
structure Retained (b₀ b : LinuxBackend) : Prop where
  owned : b.Owned
  free : FreeWithin b₀.pool b.pool
  objects : ∀ i < b.heap.length, Within b₀.pool (b.container i).resources
  replayable : ∀ i < b.heap.length,
    LinuxContainer.Replayable (b.container i).netIns (b.container i).netOuts
  nodup : ∀ h i, b.containers.lookup h = some i → (b.container i).resources.ports.Nodup
  ids : ∀ i < b.heap.length, ∃ k, b₀.pool.containerNum ≤ k ∧ k < b.pool.containerNum ∧
    (b.container i).id = LinuxContainerPool.containerID k
  distinct : ∀ i < b.heap.length, ∀ j < b.heap.length, (b.container i).id = (b.container j).id → i = j
  num : b₀.pool.containerNum ≤ b.pool.containerNum
  snapshots : b.snapshots = b₀.snapshots
  snapshotsPath : b.snapshotsPath = b₀.snapshotsPath

variable {cfg : Config} {o : Oracle} {b₀ b b' : LinuxBackend}

/-! ## Create -/

/-- What is taken is of the pools, and so is what is left. -/
theorem FreeWithin.took {p₀ p p' : LinuxContainerPool} {u : UInt32} {n : Network}
    (h : FreeWithin p₀ p) (ht : LinuxContainerPool.Took p p' u n) :
    FreeWithin p₀ p' ∧ Within p₀ ⟨u, n, []⟩ := by
  refine ⟨⟨fun v hv => h.uids v ?_, fun t htt => h.networks t ?_, ?_, ?_⟩,
    ⟨h.uids u ?_, h.networks n.string ?_, fun p hp => by cases hp⟩⟩
  · rw [ht.uids]; exact List.mem_cons_of_mem _ hv
  · rw [ht.networks]; exact List.mem_cons_of_mem _ htt
  · rw [ht.ports]; exact h.ports
  · rw [ht.ports]; exact h.start
  · rw [ht.uids]; exact List.mem_cons_self
  · rw [ht.networks]; exact List.mem_map_of_mem List.mem_cons_self

/-- Only the lists of user IDs and networks, the counter and the log change. -/
theorem freeWithin_createFailed {spec : ContainerSpec} {p₀ p p' : LinuxContainerPool}
    (h : FreeWithin p₀ p) (hp : LinuxContainerPool.CreateFailed cfg o spec p p') :
    FreeWithin p₀ p' ∧ p.containerNum ≤ p'.containerNum ∧ p'.containerNum ≤ p.containerNum + 1 := by
  have back : ∀ {α : Type} {l : List α} {x : α} {q : List α}, (∀ y ∈ x :: l, y ∈ q) →
      ∀ y ∈ l ++ [x], y ∈ q := fun hq y hy => hq y (by
    simpa [or_comm] using hy)
  obtain ⟨hu, hn, hq, hs⟩ := h
  cases hp with
  | noUID _ he => subst he; exact ⟨⟨hu, hn, hq, hs⟩, le_rfl, Nat.le_succ _⟩
  | noNetwork u us hu₁ _ hu₂ hn₂ hp₂ hnum =>
    refine ⟨⟨?_, ?_, ?_, ?_⟩, hnum.ge, by omega⟩
    · rw [hu₂]; rw [hu₁] at hu; exact back hu
    · rw [hn₂]; exact hn
    · rw [hp₂]; exact hq
    · rw [hp₂]; exact hs
  | released u us n ns hu₁ hn₁ _ hu₂ hn₂ hp₂ hnum =>
    refine ⟨⟨?_, ?_, ?_, ?_⟩, by omega, hnum.le⟩
    · rw [hu₂]; rw [hu₁] at hu; exact back hu
    · rw [hn₂, List.map_append, List.map_singleton]; rw [hn₁] at hn; exact back hn
    · rw [hp₂]; exact hq
    · rw [hp₂]; exact hs
  | leaked u n ht _ =>
    exact ⟨(FreeWithin.took ⟨hu, hn, hq, hs⟩ ht).1, by rw [ht.num]; omega, ht.num.le⟩

/-- A new object has what was taken from the pools, and the next ID. -/
theorem retained_append (h : Retained b₀ b) {u : UInt32} {n : Network} {c : LinuxContainer}
    (hO : b'.Owned) (ht : LinuxContainerPool.Took b.pool b'.pool u n)
    (hlt : b.pool.containerNum < b₀.pool.containerNum + 2 ^ 55) (hh : b'.heap = b.heap ++ [c])
    (hc : ∀ k i, b'.containers.lookup k = some i → b.containers.lookup k = some i ∨ i = b.heap.length)
    (hres : c.resources = ⟨u, n, []⟩)
    (hid : c.id = LinuxContainerPool.containerID b.pool.containerNum)
    (hin : c.netIns = []) (hout : c.netOuts = []) (hsn : b'.snapshots = b.snapshots)
    (hsp : b'.snapshotsPath = b.snapshotsPath) : Retained b₀ b' := by
  have obj := fun i (hi : i < b'.heap.length) => container_append_cases hh hi
  obtain ⟨hfree, hwithin⟩ := h.free.took ht
  -- the new ID is not that of an old object
  have new : ∀ i < b.heap.length, (b.container i).id ≠ c.id := by
    intro i hi he
    obtain ⟨k, hk₁, hk₂, hk⟩ := h.ids i hi
    rw [hid, hk] at he
    have := LinuxContainerPool.containerID_inj he
    omega
  refine ⟨hO, hfree, fun i hi => ?_, fun i hi => ?_, fun k i hi => ?_, fun i hi => ?_,
    fun i hi j hj he => ?_, ?_, hsn.trans h.snapshots, hsp.trans h.snapshotsPath⟩
  · rcases obj i hi with ⟨-, he⟩ | ⟨hlt, he⟩
    · rw [he, hres]; exact hwithin
    · rw [he]; exact h.objects i hlt
  · rcases obj i hi with ⟨-, he⟩ | ⟨hlt, he⟩
    · rw [he, hin, hout]; exact ⟨by simp, by simp⟩
    · rw [he]; exact h.replayable i hlt
  · rcases hc k i hi with hi' | rfl
    · rw [container_append hh (h.owned.filed k i hi').1]
      exact h.nodup k i hi'
    · rw [container_append_self hh, hres]
      exact List.nodup_nil
  · rcases obj i hi with ⟨-, he⟩ | ⟨hlt, he⟩
    · exact ⟨b.pool.containerNum, h.num, by rw [ht.num]; omega, he ▸ hid⟩
    · obtain ⟨k, hk₁, hk₂, hk⟩ := h.ids i hlt
      exact ⟨k, hk₁, by rw [ht.num]; omega, he ▸ hk⟩
  · rcases obj i hi with ⟨hi', hie⟩ | ⟨hi', hie⟩ <;> rcases obj j hj with ⟨hj', hje⟩ | ⟨hj', hje⟩ <;>
      rw [hie, hje] at he
    · rw [hi', hj']
    · exact absurd he.symm (new j hj')
    · exact absurd he (new i hi')
    · exact h.distinct i hi' j hj' he
  · rw [ht.num]; exact h.num.trans (Nat.le_succ _)

theorem retained_create (h : Retained b₀ b) (spec : ContainerSpec)
    (hlt : b.pool.containerNum < b₀.pool.containerNum + 2 ^ 55) :
    Retained b₀ (final (create cfg o spec b)) := by
  have hO : (final (create cfg o spec b)).Owned := owned_create h.owned spec
  have hcases := create_cases cfg o b spec
  generalize final (create cfg o spec b) = b' at hO hcases ⊢
  cases hcases with
  | refused e p hp he =>
    have hfail := wp_of_error (LinuxContainerPool.create_cases spec) hp
    obtain ⟨hfree, hle, -⟩ := freeWithin_createFailed h.free hfail
    subst he
    exact ⟨hO, hfree, h.objects, h.replayable, h.nodup,
      fun i hi => (h.ids i hi).imp fun k hk => ⟨hk.1, lt_of_lt_of_le hk.2.1 hle, hk.2.2⟩,
      h.distinct, h.num.trans hle, h.snapshots, h.snapshotsPath⟩
  | orphaned c p e log hp _ he =>
    obtain ⟨u, n, ht, hc⟩ := wp_of_ok (LinuxContainerPool.create_cases spec) hp
    subst he
    exact retained_append h (c := c) hO ⟨ht.uids, ht.networks, ht.ports, ht.num⟩ hlt rfl
      (fun k i hi => Or.inl hi) (by rw [hc]; rfl) (by rw [hc]; rfl) (by rw [hc]; rfl) (by rw [hc]; rfl)
      rfl rfl
  | registered c p r log hp _ he =>
    obtain ⟨u, n, ht, hc⟩ := wp_of_ok (LinuxContainerPool.create_cases spec) hp
    subst he
    refine retained_append h (c := { c with state := .active }) hO
      ⟨ht.uids, ht.networks, ht.ports, ht.num⟩ hlt rfl (fun k i hi => ?_) (by rw [hc]; rfl)
      (by rw [hc]; rfl) (by rw [hc]; rfl) (by rw [hc]; rfl) rfl rfl
    rcases Maps.lookup_insert_eq_some.1 hi with ⟨-, he⟩ | ⟨-, hi⟩
    · exact Or.inr he
    · exact Or.inl hi

/-! ## The other requests -/

theorem freeWithin_releaseAll {p₀ p : LinuxContainerPool} {r : Resources} (h : FreeWithin p₀ p)
    (hr : Within p₀ r) : FreeWithin p₀ (LinuxContainerPool.releaseAll r p) := by
  refine ⟨fun u hu => ?_, fun t ht => ?_, fun q hq => ?_, ?_⟩
  · rw [LinuxContainerPool.releaseAll_uidPool] at hu
    rcases UnixUIDPool.release_cases r.uid p.uidPool with heq | heq <;> rw [heq] at hu
    · rcases List.mem_append.1 hu with hu | hu
      · exact h.uids u hu
      · exact (List.mem_singleton.1 hu) ▸ hr.uid
    · exact h.uids u hu
  · rw [LinuxContainerPool.releaseAll_networkPool] at ht
    rcases RealNetworkPool.release_cases r.network p.networkPool with heq | heq <;> rw [heq] at ht
    · rcases List.mem_append.1 ht with ht | ht
      · exact h.networks t ht
      · exact (List.mem_singleton.1 ht) ▸ hr.network
    · exact h.networks t ht
  · rcases LinuxContainerPool.mem_releaseAll_portPool.1 hq with hq | hq
    · exact h.ports q hq
    · exact hr.ports q hq.1
  · exact (PortPool.foldl_release_start r.ports p.portPool).trans h.start

theorem retained_destroy (h : Retained b₀ b) (handle : String) :
    Retained b₀ (final (destroy cfg o handle b)) := by
  have hO : (final (destroy cfg o handle b)).Owned := owned_destroy h.owned handle
  revert hO
  refine wp_final (P := fun b' => b'.Owned → Retained b₀ b')
    (wp_destroy handle (fun i log hi hO => ?_) fun _ log hO => ?_)
  · have hfree : FreeWithin b₀.pool { b.pool with log := log } :=
      ⟨h.free.uids, h.free.networks, h.free.ports, h.free.start⟩
    have hlt := (h.owned.filed handle i hi).1
    refine ⟨hO, freeWithin_releaseAll hfree (h.objects i hlt), h.objects, h.replayable,
      fun k j hj => h.nodup k j (Maps.lookup_erase_eq_some.1 hj).2, h.ids, h.distinct, h.num,
      h.snapshots, h.snapshotsPath⟩
  · exact ⟨hO, ⟨h.free.uids, h.free.networks, h.free.ports, h.free.start⟩, h.objects, h.replayable,
      h.nodup, h.ids, h.distinct, h.num, h.snapshots, h.snapshotsPath⟩

theorem retained_evolves (h : Retained b₀ b) (hstart : 0 < b₀.pool.portPool.start) {i : ℕ}
    (hi : i < b.heap.length) {cell : Cell} (he : LinuxContainer.Evolves ((object i).get b) cell) :
    Retained b₀ ((object i).set cell b) := by
  have hO := owned_evolves h.owned hi he
  have obj := container_set_cases hi cell
  have hids : ∀ j, (((object i).set cell b).container j).id = (b.container j).id := by
    intro j
    rcases obj j with ⟨rfl, hj⟩ | hj <;> rw [hj]
    exact he.id
  have hlen : ((object i).set cell b).heap.length = b.heap.length := by simp [object]
  refine ⟨hO, ⟨h.free.uids, h.free.networks, fun q hq => h.free.ports q (he.free hq),
    he.portStart.trans h.free.start⟩, fun j hj => ?_, fun j hj => ?_, fun k j hj => ?_,
    fun j hj => ?_, fun j hj k hk => ?_, h.num, h.snapshots, h.snapshotsPath⟩
  · rw [hlen] at hj
    rcases obj j with ⟨rfl, hje⟩ | hje
    · rw [hje]
      refine ⟨he.uid ▸ (h.objects j hj).uid, he.network ▸ (h.objects j hj).network, fun p hp => ?_⟩
      rcases he.taken hp with hp | hp
      · exact (h.objects j hj).ports p hp
      · exact h.free.ports p hp
    · rw [hje]; exact h.objects j hj
  · rw [hlen] at hj
    rcases obj j with ⟨rfl, hje⟩ | hje
    · rw [hje]
      exact he.replayable (lt_of_lt_of_eq hstart h.free.start.symm) (h.replayable j hj)
    · rw [hje]; exact h.replayable j hj
  · have hj' : b.containers.lookup k = some j := hj
    rcases obj j with ⟨rfl, hje⟩ | hje
    · rw [hje]
      exact he.nodup (h.nodup k j hj') fun p hp => h.owned.ports.notFree k p ⟨j, hj', hp⟩
    · rw [hje]; exact h.nodup k j hj'
  · rw [hlen] at hj
    rw [hids]; exact h.ids j hj
  · rw [hlen] at hj hk
    rw [hids, hids]; exact h.distinct j hj k hk

/-! ## Runs -/

def Request.isCreate : Request → Bool
  | .create _ => true
  | _ => false

theorem retained_serve (h : Retained b₀ b) (hstart : 0 < b₀.pool.portPool.start) (r : Request)
    (hlt : r.isCreate = true → b.pool.containerNum < b₀.pool.containerNum + 2 ^ 55) :
    Retained b₀ (serve cfg o b r) := by
  cases r with
  | create spec => exact retained_create h spec (hlt rfl)
  | destroy handle => exact retained_destroy h handle
  | container i op =>
    simp only [serve]
    split_ifs with hi
    · exact wp_object (LinuxContainer.tame_perform op) i fun cell hc => retained_evolves h hstart hi hc
    · exact h

/-- A request draws at most one ID, and only a `Create` does. -/
theorem serve_num (h : Retained b₀ b) (r : Request) : (serve cfg o b r).pool.containerNum ≤
    b.pool.containerNum + if r.isCreate = true then 1 else 0 := by
  cases r with
  | create spec =>
    simp only [serve, Request.isCreate, if_true]
    have hcases := create_cases cfg o b spec
    generalize final (create cfg o spec b) = b' at hcases ⊢
    cases hcases with
    | refused e p hp he =>
      have hfail := wp_of_error (LinuxContainerPool.create_cases spec) hp
      subst he
      exact (freeWithin_createFailed h.free hfail).2.2
    | orphaned c p e log hp _ he | registered c p e log hp _ he =>
      obtain ⟨u, n, ht, -⟩ := wp_of_ok (LinuxContainerPool.create_cases spec) hp
      subst he
      exact ht.num.le
  | destroy handle =>
    simp only [serve]
    exact wp_final (P := fun b' => b'.pool.containerNum ≤ b.pool.containerNum + 0)
      (wp_destroy handle (fun _ _ _ => le_rfl) fun _ _ => le_rfl)
  | container i op =>
    by_cases hi : i < b.heap.length
    · simp only [serve, if_pos hi]
      exact wp_object (P := fun b' => b'.pool.containerNum ≤ b.pool.containerNum + 0)
        (LinuxContainer.tame_perform op) i fun _ _ => le_rfl
    · simp only [serve, if_neg hi]
      exact le_rfl

theorem retained_serveAll (hstart : 0 < b₀.pool.portPool.start) : ∀ (rs : List Request)
    {b : LinuxBackend}, Retained b₀ b →
    b.pool.containerNum + rs.countP Request.isCreate ≤ b₀.pool.containerNum + 2 ^ 55 →
    Retained b₀ (serveAll cfg o rs b)
  | [], _, h, _ => h
  | r :: rs, b, h, hle => by
    rw [List.countP_cons] at hle
    have hnum : (serve cfg o b r).pool.containerNum ≤ _ := serve_num h r
    refine retained_serveAll hstart rs (retained_serve h hstart r fun hr => ?_) ?_
    · rw [if_pos hr] at hle; omega
    · omega

/-- **What the objects hold.**  From a new daemon, for at most `2 ^ 55` `Create`
    requests. -/
theorem served_retained {fuel : ℕ} {ipNet : IPNet} {networks : RealNetworkPool}
    (hn : RealNetworkPool.new fuel ipNet = some networks) {us uz ps pz : UInt32} {num : ℕ}
    {path : String} {rs : List Request} (hstart : 0 < ps)
    (hle : rs.countP Request.isCreate ≤ 2 ^ 55) :
    Retained (fresh us uz ps pz networks num path)
      (serveAll cfg o rs (fresh us uz ps pz networks num path)) := by
  have none : ∀ {P : ℕ → Prop}, ∀ i < (fresh us uz ps pz networks num path).heap.length, P i :=
    fun i hi => by simp [fresh, new] at hi
  refine retained_serveAll hstart rs ⟨owned_fresh hn us uz ps pz num path,
    ⟨fun _ h => h, fun _ h => h, fun _ h => h, rfl⟩, none, none, fun h i hi => ?_, none, none,
    le_rfl, rfl, rfl⟩ (Nat.add_le_add_left hle _)
  simp [fresh, new] at hi

end LinuxBackend

end WardenLinux
