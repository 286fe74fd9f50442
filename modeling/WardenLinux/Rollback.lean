/-
  What a `Create` or a `Restore` that fails leaves in the pools.

  Both take resources one after the other and undo this on some of their error
  returns only.

  * `create_error_iff`: a `Create` that fails leaves the free user IDs and
    networks as they were iff it got no user ID or no network, or `create.sh`
    failed.  The error returns around `create.sh` keep both.
  * `restore_error_iff`: a `Restore` that fails leaves the pools as they were
    iff a user ID or network was taken, or a port was and no port of the
    snapshot is held by anyone.  The return after `container.Restore` keeps
    everything, and the one after a taken port frees the ports of others.
-/
import WardenLinux.ContainerPool

namespace WardenLinux

open Fallible

namespace LinuxContainerPool

variable {cfg : Config} {o : Oracle} {s s' : LinuxContainerPool} {e : Err}

/-- The same user IDs, subnets and ports are free. -/
structure SameFree (s s' : LinuxContainerPool) : Prop where
  uids : ∀ u, u ∈ s'.uidPool.pool ↔ u ∈ s.uidPool.pool
  networks : ∀ t, t ∈ s'.networkPool.pool.map Network.string ↔
    t ∈ s.networkPool.pool.map Network.string
  ports : ∀ p, p ∈ s'.portPool.pool ↔ p ∈ s.portPool.pool

theorem SameFree.of_perm (hu : s'.uidPool.pool.Perm s.uidPool.pool)
    (hn : (s'.networkPool.pool.map Network.string).Perm (s.networkPool.pool.map Network.string))
    (hp : ∀ p, p ∈ s'.portPool.pool ↔ p ∈ s.portPool.pool) : SameFree s s' :=
  ⟨fun _ => hu.mem_iff, fun _ => hn.mem_iff, hp⟩

/-! ## Create -/

/-- The inputs on which `Create`, when it fails, has undone what it did.  The
    last case is that of free lists with repetitions. -/
def CreateRollsBack (cfg : Config) (o : Oracle) (spec : ContainerSpec) (s : LinuxContainerPool) :
    Prop :=
  s.uidPool.pool = [] ∨ s.networkPool.pool = [] ∨
    ∃ u us n ns, s.uidPool.pool = u :: us ∧ s.networkPool.pool = n :: ns ∧
      (CreateShFails cfg o spec s u n ∨ u ∈ us ∧ n.string ∈ ns.map Network.string)

theorem sameFree_took {u : UInt32} {n : Network} (h : Took s s' u n) :
    SameFree s s' ↔
      u ∈ s'.uidPool.pool ∧ n.string ∈ s'.networkPool.pool.map Network.string := by
  constructor
  · rintro ⟨hu, hn, -⟩
    exact ⟨(hu u).2 (by rw [h.uids]; simp), (hn _).2 (by rw [h.networks]; simp)⟩
  · rintro ⟨hu, hn⟩
    refine ⟨fun u' => ?_, fun t => ?_, fun p => by rw [h.ports]⟩
    · rw [h.uids, List.mem_cons]
      exact ⟨Or.inr, fun h' => h'.elim (fun he => he ▸ hu) id⟩
    · rw [h.networks, List.map_cons, List.mem_cons]
      exact ⟨Or.inr, fun h' => h'.elim (fun he => he ▸ hn) id⟩

/-- **When a failed `Create` leaks nothing.** -/
theorem create_error_iff {spec : ContainerSpec} (h : create cfg o spec s = .error e s') :
    SameFree s s' ↔ CreateRollsBack cfg o spec s := by
  rcases wp_of_error (create_cases spec) h with
    ⟨hu, rfl⟩ | ⟨u, us, hu, hn, hu', hn', hp, -⟩ | ⟨u, us, n, ns, hu, hn, hsh, hu', hn', hp, -⟩ |
    ⟨u, n, ht, hno⟩
  · exact iff_of_true (.of_perm (.refl _) (.refl _) fun _ => Iff.rfl) (Or.inl hu)
  · refine iff_of_true (.of_perm ?_ (by rw [hn']) fun p => by rw [hp]) (Or.inr (Or.inl hn))
    rw [hu', hu]
    exact List.perm_append_singleton u us
  · refine iff_of_true (.of_perm ?_ ?_ fun p => by rw [hp])
      (Or.inr (Or.inr ⟨u, us, n, ns, hu, hn, Or.inl hsh⟩))
    · rw [hu', hu]; exact List.perm_append_singleton u us
    · rw [hn', hn]; exact (List.perm_append_singleton n ns).map _
  · rw [sameFree_took ht]
    constructor
    · exact fun hdup => Or.inr (Or.inr ⟨u, _, n, _, ht.uids, ht.networks, Or.inr hdup⟩)
    · rintro (hu | hn | ⟨u', us, n', ns, hu, hn, hcase⟩)
      · rw [ht.uids] at hu; cases hu
      · rw [ht.networks] at hn; cases hn
      · rw [ht.uids] at hu; rw [ht.networks] at hn
        cases hu; cases hn
        exact hcase.elim (fun hsh => absurd hsh hno) id

/-- No command can be run. -/
def noCommand : Oracle := .failing fun | .run _ => true | _ => false

theorem create_error_noCommand :
    ∃ s', create .plain noCommand .bare tiny = .error (.external "oh no!") s' ∧
      SameFree tiny s' := by
  have h : create .plain noCommand .bare tiny = .error (.external "oh no!") _ := rfl
  exact ⟨_, h, (create_error_iff h).2 (Or.inr (Or.inr ⟨_, _, _, _, rfl, rfl,
    Or.inl ⟨⟨"", "/rootfs", ""⟩, {}, .external "oh no!", rfl, by decide, rfl, rfl⟩⟩))⟩

/-- No rootfs can be provided. -/
def noRootFS : Oracle := .failing fun | .provideRootFS .. => true | _ => false

/-- When the rootfs cannot be provided, the user ID and the network are gone. -/
theorem create_leaks_noRootFS :
    ∃ s', create .plain noRootFS .bare tiny = .error (.external "oh no!") s' ∧
      tiny.uidPool.pool = [10000] ∧ s'.uidPool.pool = [] ∧
      tiny.networkPool.pool.length = 1 ∧ s'.networkPool.pool = [] ∧ ¬ SameFree tiny s' := by
  refine ⟨_, rfl, rfl, rfl, rfl, rfl, fun h => ?_⟩
  have hu := (h.uids 10000).2 (List.mem_singleton_self _)
  cases hu

/-! ## Restore -/

/-- The snapshots on which `Restore`, when it fails, has undone what it did. -/
def RestoreRollsBack (r : Resources) (s : LinuxContainerPool) : Prop :=
  r.uid ∉ s.uidPool.pool ∨ r.network.string ∉ s.networkPool.pool.map Network.string ∨
    ¬ (r.ports.Nodup ∧ ∀ p ∈ r.ports, p ∈ s.portPool.pool) ∧
      ∀ p ∈ r.ports, s.portPool.InRange p → p ∈ s.portPool.pool

/-- A user ID that was removed is released again. -/
theorem uids_put_back {p : UnixUIDPool} {uid : UInt32} {us : List UInt32}
    (hsu : us.Sublist p.pool) (hus : p.pool.Perm (uid :: us)) :
    ((UnixUIDPool.stock.keep p us hsu).release uid).pool.Perm p.pool := by
  have hrel : ((UnixUIDPool.stock.keep p us hsu).release uid).pool = us ++ [uid] :=
    UnixUIDPool.release_of_mem (hus.mem_iff.2 List.mem_cons_self) rfl rfl
  rw [hrel]
  exact (List.perm_append_singleton _ _).trans hus.symm

/-- A network that was removed is released again, as the one that the snapshot has. -/
theorem networks_put_back {p : RealNetworkPool} {n network : Network} {ns : List Network}
    (hsn : ns.Sublist p.pool) (hparsed : RealNetworkPool.Parsed network.ipNet)
    (hstr : n.string = network.string) (hns : p.pool.Perm (n :: ns)) :
    (((RealNetworkPool.stock.keep p ns hsn).release network).pool.map Network.string).Perm
      (p.pool.map Network.string) := by
  have hrel : ((RealNetworkPool.stock.keep p ns hsn).release network).pool = ns ++ [network] := by
    rw [RealNetworkPool.release_pool, if_pos]
    · rfl
    · exact RealNetworkPool.contains_of_string hparsed hstr
        (p.contained n (hns.mem_iff.2 List.mem_cons_self))
  rw [hrel, List.map_append, List.map_singleton, ← hstr]
  exact (List.perm_append_singleton _ _).trans (hns.symm.map Network.string)

/-- Every port of the snapshot is released, whether it was removed or not. -/
theorem mem_ports_put_back {p p' : PortPool} {ports : List UInt32} (hst : p'.start = p.start)
    (hsz : p'.size = p.size) (hsub : ∀ q ∈ p'.pool, q ∈ p.pool)
    (hkeep : ∀ q ∈ p.pool, q ∈ p'.pool ∨ q ∈ ports) (q : UInt32) :
    q ∈ (ports.foldl (fun p port => p.release port) p').pool ↔
      q ∈ p.pool ∨ q ∈ ports ∧ p.InRange q := by
  have hin : p'.InRange q ↔ p.InRange q := by
    rw [PortPool.InRange, PortPool.InRange, hst, hsz]
  rw [PortPool.mem_foldl_release, hin]
  constructor
  · exact fun h => h.imp_left (hsub q)
  · rintro (h | h)
    · exact (hkeep q h).imp_right fun h' => ⟨h', p.inRange q h⟩
    · exact Or.inr h

theorem restoreSnapshot_error (snapshot : ContainerSnapshot)
    (hparsed : RealNetworkPool.Parsed snapshot.resources.network.ipNet) :
    wp (restoreSnapshot cfg o snapshot) (fun _ _ => True)
      (fun _ s' => (RestoreRollsBack snapshot.resources s → SameFree s s') ∧
        (s.uidPool.pool.Nodup → SameFree s s' → RestoreRollsBack snapshot.resources s)) s := by
  have yes : ∀ {s'}, SameFree s s' → RestoreRollsBack snapshot.resources s →
      (RestoreRollsBack snapshot.resources s → SameFree s s') ∧
        (s.uidPool.pool.Nodup → SameFree s s' → RestoreRollsBack snapshot.resources s) :=
    fun h h' => ⟨fun _ => h, fun _ _ => h'⟩
  simp only [restoreSnapshot, uids, networks, ports, wp_bind, wp_zoom, wp_onError]
  refine UnixUIDPool.wp_remove (fun us hsu hus => ?_) (fun hu => ?_)
  swap
  · exact yes (.of_perm (.refl _) (.refl _) fun _ => Iff.rfl) (Or.inl hu)
  have huid : snapshot.resources.uid ∈ s.uidPool.pool := hus.mem_iff.2 List.mem_cons_self
  refine RealNetworkPool.wp_remove (fun n ns hsn hstr hns => ?_) (fun hn => ?_)
  swap
  · exact yes (.of_perm (uids_put_back hsu hus) (.refl _) fun _ => Iff.rfl) (Or.inr (Or.inl hn))
  have hnet : snapshot.resources.network.string ∈ s.networkPool.pool.map Network.string :=
    List.mem_map.2 ⟨n, hns.mem_iff.2 List.mem_cons_self, hstr⟩
  refine wp_mono (PortPool.wp_removeAll snapshot.resources.ports) (fun _ p' hok => ?_)
    (fun _ p' hbad => ?_)
  · -- nothing is undone from here on
    rw [wp_onContainer]
    refine wp_any (fun _ _ => trivial) fun _ cell => ⟨?_, fun hnd hsame => ?_⟩
    · rintro (hu | hn | ⟨hports, -⟩)
      exacts [absurd huid hu, absurd hnet hn, absurd hok.1 hports]
    · have hu : snapshot.resources.uid ∈ us := (hsame.uids _).2 huid
      exact absurd hu (List.nodup_cons.1 (hus.nodup_iff.1 hnd)).1
  · obtain ⟨hports, hst, hsz, hsub, hkeep⟩ := hbad
    have hmem := mem_ports_put_back hst hsz hsub hkeep
    refine ⟨?_, fun _ hsame => Or.inr (Or.inr ⟨hports, fun q hq hr => ?_⟩)⟩
    · rintro (hu | hn | ⟨-, hfree⟩)
      · exact absurd huid hu
      · exact absurd hnet hn
      · refine .of_perm (uids_put_back hsu hus) (networks_put_back hsn hparsed hstr hns)
          fun q => (hmem q).trans ?_
        exact ⟨fun h => h.elim id fun h' => hfree q h'.1 h'.2, Or.inl⟩
    · exact (hsame.ports q).1 ((hmem q).2 (Or.inr ⟨hq, hr⟩))

/-- **When a failed `Restore` leaves the pools as they were.**  The condition
    is enough in every state, and needed when no user ID is listed twice. -/
theorem restore_error_iff {text : String} {snapshot : ContainerSnapshot}
    (hd : cfg.decode text = .ok snapshot)
    (hparsed : RealNetworkPool.Parsed snapshot.resources.network.ipNet)
    (h : restore cfg o text s = .error e s') :
    (RestoreRollsBack snapshot.resources s → SameFree s s') ∧
      (s.uidPool.pool.Nodup → SameFree s s' → RestoreRollsBack snapshot.resources s) := by
  have key : wp (restore cfg o text) (fun _ _ => True)
      (fun _ s' => (RestoreRollsBack snapshot.resources s → SameFree s s') ∧
        (s.uidPool.pool.Nodup → SameFree s s' → RestoreRollsBack snapshot.resources s)) s := by
    rw [restore, hd, wp_bind, wp_checked]
    refine ⟨fun _ he => ?_, fun _ he => by cases he⟩
    cases he
    exact restoreSnapshot_error snapshot hparsed
  have hs' := wp_of_error key h
  exact hs'

/-- The snapshot of a container with the user ID and the network of `tiny`. -/
def tinySnapshot (ports : List UInt32) : ContainerSnapshot where
  id := "some-id"
  handle := "some-handle"
  graceTime := 0
  state := "active"
  events := []
  limits := ⟨none, none, none, none⟩
  resources := ⟨10000, Network.new ⟨[10, 254, 0, 0], 30⟩, ports⟩
  processes := []
  netIns := []
  netOuts := []
  properties := []

/-- A daemon that finds this snapshot in every file. -/
def Config.reading (snapshot : ContainerSnapshot) : Config :=
  { Config.plain with decode := fun _ => .ok snapshot }

theorem restore_error_repeated :
    ∃ s', restore (Config.reading (tinySnapshot [61001, 61001])) .quiet "" tiny =
        .error (.portTaken 61001) s' ∧ SameFree tiny s' := by
  have h : restore (Config.reading (tinySnapshot [61001, 61001])) .quiet "" tiny =
    .error (.portTaken 61001) _ := rfl
  refine ⟨_, h, (restore_error_iff rfl (Or.inl rfl) h).1 (Or.inr (Or.inr ⟨?_, ?_⟩))⟩
  · simp [tinySnapshot]
  · simp [tinySnapshot, tiny]

/-- A port that another container holds becomes free. -/
theorem restore_frees_held :
    ∃ s', restore (Config.reading (tinySnapshot [61001])) .quiet ""
          { tiny with portPool := ⟨61001, 2, [61002], by simp, by simp⟩ } =
        .error (.portTaken 61001) s' ∧
      s'.portPool.pool = [61002, 61001] ∧
      ¬ SameFree { tiny with portPool := ⟨61001, 2, [61002], by simp, by simp⟩ } s' := by
  refine ⟨_, rfl, rfl, fun h => ?_⟩
  have hp := (h.ports 61001).1 (List.mem_append_right _ (List.mem_singleton_self _))
  simp at hp

end LinuxContainerPool

end WardenLinux
