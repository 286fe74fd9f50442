/-
  The files of the snapshots: what `Stop` writes and what `Start` makes of it.

  `Stop` writes a file for every container (`wp_stop`).  `Start` restores them
  in any order: after each one, the containers so far are rebuilt and their
  resources are taken (`Rebuilt`, `wp_restoreEntry`).  `Prune` then destroys the
  entries of the depot that belong to no container (`wp_prune`).
-/
import WardenLinux.Retained

namespace WardenLinux

open Fallible FreeList

namespace LinuxBackend

variable {cfg : Config} {o : Oracle}

/-! ## Stop -/

/-- The files of the given objects, added to those of `files`. -/
def saveAll (cfg : Config) (b : LinuxBackend) (order : List ℕ)
    (files : AList (fun _ : String => String)) : AList (fun _ : String => String) :=
  order.foldl (fun files i => files.insert (b.container i).id (cfg.encode (b.container i).snapshot))
    files

theorem saveAll_cons (cfg : Config) (b : LinuxBackend) (i : ℕ) (order : List ℕ)
    (files : AList (fun _ : String => String)) : saveAll cfg b (i :: order) files =
      saveAll cfg b order
        (files.insert (b.container i).id (cfg.encode (b.container i).snapshot)) := rfl

theorem object_set_log (b : LinuxBackend) (i : ℕ) (log : List Call) :
    (object i).set { (object i).get b with log := log } b =
      { b with pool := { b.pool with log := log } } := by
  have hheap : b.heap.set i (b.container i) = b.heap := by
    rcases lt_or_ge i b.heap.length with hi | hi
    · have hget : b.container i = b.heap[i] := by simp [container, hi]
      rw [hget, List.set_getElem_self]
    · exact List.set_eq_of_length_le hi
  simp [object, hheap]

/-- **`Stop` writes every snapshot**, and changes nothing else, when there is no process
    that `Cleanup` waits for. -/
theorem wp_stop (hs : o.Succeeds) : ∀ (order : List ℕ) {b : LinuxBackend}, b.snapshotsPath ≠ "" →
    (∀ i ∈ order, (b.container i).processTracker.AllLinked) →
    wp (stop cfg o order) (fun _ b' => ∃ log, b' = { b with
      pool := { b.pool with log := log }, snapshots := saveAll cfg b order b.snapshots })
      (fun _ _ => False) b
  | [], b, _, _ => ⟨b.pool.log, rfl⟩
  | i :: order, b, hpath, hlinked => by
    simp only [stop, each, wp_bind, wp_zoom]
    refine LinuxContainer.wp_cleanup (hlinked i List.mem_cons_self) fun log => ?_
    simp only [object_set_log, wp_attempt, saveSnapshot, wp_bind, wp_get]
    rw [if_neg hpath]
    simp only [calls, wp_bind, wp_zoom, wp_call, wp_modify]
    refine ⟨fun _ _ => ?_, fun _ he => absurd hs (Oracle.not_succeeds he)⟩
    refine wp_mono (wp_stop hs order hpath fun j hj => hlinked j (List.mem_cons_of_mem _ hj))
      (fun _ b' hb' => ?_) (fun _ _ h => h)
    obtain ⟨log', rfl⟩ := hb'
    exact ⟨log', rfl⟩

theorem lookup_saveAll {b : LinuxBackend} {i : ℕ} : ∀ {order : List ℕ}
    {files : AList (fun _ : String => String)}, (order.map fun i => (b.container i).id).Nodup →
    i ∈ order → (saveAll cfg b order files).lookup (b.container i).id =
      some (cfg.encode (b.container i).snapshot)
  | j :: order, files, hnd, hi => by
    rw [List.map_cons, List.nodup_cons] at hnd
    rw [saveAll_cons]
    by_cases hm : i ∈ order
    · exact lookup_saveAll hnd.2 hm
    · have he : i = j := (List.mem_cons.1 hi).resolve_right hm
      subst he
      have keep : ∀ (order : List ℕ) (files : AList (fun _ : String => String)),
          (b.container i).id ∉ order.map (fun i => (b.container i).id) →
          (saveAll cfg b order files).lookup (b.container i).id =
            files.lookup (b.container i).id := by
        intro order
        induction order with
        | nil => exact fun _ _ => rfl
        | cons k order ih =>
          intro files hk
          rw [List.map_cons, List.mem_cons, not_or] at hk
          exact (ih _ hk.2).trans (AList.lookup_insert_ne hk.1)
      exact (keep order _ hnd.1).trans (AList.lookup_insert files)

theorem keys_saveAll {b : LinuxBackend} : ∀ {order : List ℕ}
    {files : AList (fun _ : String => String)}, (order.map fun i => (b.container i).id).Nodup →
    (∀ i ∈ order, (b.container i).id ∉ files.keys) →
    (saveAll cfg b order files).keys.Perm ((order.map fun i => (b.container i).id) ++ files.keys)
  | [], files, _, _ => .refl _
  | i :: order, files, hnd, hnew => by
    rw [List.map_cons, List.nodup_cons] at hnd
    have hkeys : (files.insert (b.container i).id (cfg.encode (b.container i).snapshot)).keys =
        (b.container i).id :: files.keys := by
      rw [AList.keys_insert, List.erase_of_not_mem (hnew i List.mem_cons_self)]
    rw [saveAll_cons]
    refine (keys_saveAll hnd.2 fun j hj => ?_).trans ?_
    · rw [hkeys, List.mem_cons, not_or]
      exact ⟨fun he => hnd.1 (he ▸ List.mem_map_of_mem hj), hnew j (List.mem_cons_of_mem _ hj)⟩
    · rw [hkeys]
      exact List.perm_middle

/-! ## The containers so far -/

/-- The part of a container that a restart keeps. -/
structure Same (c c' : LinuxContainer) : Prop where
  id : c'.id = c.id
  handle : c'.handle = c.handle
  graceTime : c'.graceTime = c.graceTime
  properties : c'.properties = c.properties
  state : c'.state = c.state
  events : c'.events = c.events
  resources : c'.resources = c.resources
  netIns : c'.netIns = c.netIns
  netOuts : c'.netOuts = c.netOuts
  processes : ∀ p, p ∈ c'.processTracker.snapshots ↔ p ∈ c.processTracker.snapshots
  memory : c'.currentMemoryLimits = c.currentMemoryLimits

/-- The resources are taken out of the pools. -/
structure Removed (r : Resources) (s s' : LinuxContainerPool) : Prop where
  uids : s.uidPool.pool.Perm (r.uid :: s'.uidPool.pool)
  networks : (s.networkPool.pool.map Network.string).Perm
    (r.network.string :: s'.networkPool.pool.map Network.string)
  ports : ∀ p, p ∈ s'.portPool.pool ↔ p ∈ s.portPool.pool ∧ p ∉ r.ports

/-- A container that is restored from its snapshot. -/
theorem same_of_restored {c : LinuxContainer} {path : String} {p : PortPool} {log : List Call}
    {cell : Cell} (h : LinuxContainer.Restored c.snapshot
      ⟨.new c.id c.handle path c.properties c.graceTime c.resources, p, log⟩ cell) :
    Same c cell.container where
  id := congrArg LinuxContainer.Ident.id h.ident
  handle := congrArg LinuxContainer.Ident.handle h.ident
  graceTime := congrArg LinuxContainer.Ident.graceTime h.ident
  properties := congrArg LinuxContainer.Ident.properties h.ident
  state := h.state
  events := h.events
  resources := by
    have hu : cell.container.resources.uid = c.resources.uid :=
      congrArg LinuxContainer.Ident.uid h.ident
    have hn : cell.container.resources.network = c.resources.network :=
      congrArg LinuxContainer.Ident.network h.ident
    have hp : cell.container.resources.ports = c.resources.ports := h.ports
    rcases hr : cell.container.resources with ⟨u, n, ps⟩
    rw [hr] at hu hn hp
    simp only at hu hn hp
    rw [hu, hn, hp]
  netIns := h.netIns
  netOuts := h.netOuts
  processes q := by
    rw [h.processTracker]
    have none : ∀ r, r ∉ ProcessTracker.new.snapshots := fun _ => List.not_mem_nil
    refine (ProcessTracker.mem_snapshots_restoreAll _ (ProcessTracker.nodup_snapshots _)
      fun r hr => absurd hr (none r)).trans ?_
    exact ⟨fun hq => hq.resolve_right (none q), Or.inl⟩
  memory := h.memory.trans (Option.or_none)

theorem wp_restoreSnapshot (hs : o.Succeeds) {c : LinuxContainer} {s : LinuxContainerPool}
    (hw : Within s c.resources) (hnd : c.resources.ports.Nodup)
    (hr : LinuxContainer.Replayable c.netIns c.netOuts) :
    wp (LinuxContainerPool.restoreSnapshot cfg o c.snapshot)
      (fun c' s' => Same c c' ∧ Removed c.resources s s') (fun _ _ => False) s := by
  simp only [LinuxContainerPool.restoreSnapshot, LinuxContainerPool.uids, wp_bind, wp_zoom]
  refine UnixUIDPool.wp_remove (fun us hsu hu => ?_) fun hu => hu hw.uid
  simp only [LinuxContainerPool.networks, wp_onError, wp_zoom]
  refine RealNetworkPool.wp_remove (fun n ns hsn hn hperm => ?_) fun hn => hn hw.network
  simp only [LinuxContainerPool.ports]
  refine wp_mono (PortPool.wp_removeAll c.resources.ports) (fun _ p' hp' => ?_) fun _ _ hbad => ?_
  · rw [LinuxContainerPool.wp_onContainer]
    refine wp_mono (LinuxContainer.wp_restore cfg hs hr) (fun _ cell hc => ?_) fun _ _ h => h
    refine ⟨same_of_restored hc, hu, ?_, fun p => ?_⟩
    · have hmap := hperm.map Network.string
      rw [List.map_cons, hn] at hmap
      exact hmap
    · rw [show cell.portPool = p' from hc.portPool]
      exact hp'.2.2.2 p
  · exact hbad.1 ⟨hnd, hw.ports⟩

/-- The containers `cs` are rebuilt, and what they hold is taken out of the new
    pools. -/
structure Rebuilt (p₀ : LinuxContainerPool) (cs : List LinuxContainer) (b : LinuxBackend) :
    Prop where
  handles : ∀ h i, b.containers.lookup h = some i →
    i < b.heap.length ∧ ∃ c ∈ cs, c.handle = h ∧ Same c (b.container i)
  containers : ∀ c ∈ cs, ∃ i, b.containers.lookup c.handle = some i
  uids : ∀ u, u ∈ b.pool.uidPool.pool ↔
    u ∈ p₀.uidPool.pool ∧ ∀ c ∈ cs, c.resources.uid ≠ u
  networks : ∀ t, t ∈ b.pool.networkPool.pool.map Network.string ↔
    t ∈ p₀.networkPool.pool.map Network.string ∧ ∀ c ∈ cs, c.resources.network.string ≠ t
  ports : ∀ p, p ∈ b.pool.portPool.pool ↔
    p ∈ p₀.portPool.pool ∧ ∀ c ∈ cs, p ∉ c.resources.ports
  nodup : b.pool.uidPool.pool.Nodup ∧ (b.pool.networkPool.pool.map Network.string).Nodup

/-- A container that can be restored after `cs`. -/
structure Fresh (p₀ : LinuxContainerPool) (cs : List LinuxContainer) (c : LinuxContainer) :
    Prop where
  within : Within p₀ c.resources
  nodup : c.resources.ports.Nodup
  replayable : LinuxContainer.Replayable c.netIns c.netOuts
  uid : ∀ c' ∈ cs, c'.resources.uid ≠ c.resources.uid
  network : ∀ c' ∈ cs, c'.resources.network.string ≠ c.resources.network.string
  ports : ∀ c' ∈ cs, ∀ p ∈ c.resources.ports, p ∉ c'.resources.ports

/-- What is left of a list without repetitions when one entry is taken out. -/
theorem mem_of_perm_cons {α : Type} {l l' : List α} {a : α} (h : l.Perm (a :: l')) (hnd : l.Nodup)
    (x : α) : x ∈ l' ↔ x ∈ l ∧ a ≠ x := by
  have hnd' := List.nodup_cons.1 (h.nodup_iff.1 hnd)
  rw [h.mem_iff, List.mem_cons]
  constructor
  · exact fun hx => ⟨Or.inr hx, fun he => hnd'.1 (he ▸ hx)⟩
  · rintro ⟨rfl | hx, hne⟩
    · exact absurd rfl hne
    · exact hx

theorem Rebuilt.snoc {p₀ : LinuxContainerPool} {cs : List LinuxContainer} {b : LinuxBackend}
    (h : Rebuilt p₀ cs b) {c c' : LinuxContainer} {s' : LinuxContainerPool}
    (hc : Same c c') (hr : Removed c.resources b.pool s') :
    Rebuilt p₀ (cs ++ [c]) { b with
      pool := s', heap := b.heap ++ [c'],
      containers := b.containers.insert c'.handle b.heap.length } := by
  have snoc : ∀ {P : LinuxContainer → Prop}, (∀ x ∈ cs ++ [c], P x) ↔ (∀ x ∈ cs, P x) ∧ P c := by
    simp [or_imp, forall_and]
  refine ⟨fun k i hi => ?_, fun x hx => ?_, fun u => ?_, fun t => ?_, fun p => ?_, ?_, ?_⟩
  · rcases Maps.lookup_insert_eq_some.1 hi with ⟨rfl, rfl⟩ | ⟨-, hi⟩
    · refine ⟨by simp, c, by simp, hc.handle.symm, ?_⟩
      rw [container_append_self rfl]; exact hc
    · obtain ⟨hlt, x, hx, hxk, hsame⟩ := h.handles k i hi
      refine ⟨by simp only [List.length_append]; omega, x, List.mem_append_left _ hx, hxk, ?_⟩
      rw [container_append rfl hlt]; exact hsame
  · by_cases hk : x.handle = c'.handle
    · exact ⟨_, by rw [hk]; exact AList.lookup_insert _⟩
    · rcases List.mem_append.1 hx with hx | hx
      · obtain ⟨i, hi⟩ := h.containers x hx
        exact ⟨i, by rw [← hi]; exact AList.lookup_insert_ne hk⟩
      · rw [List.mem_singleton.1 hx, hc.handle] at hk
        exact absurd rfl hk
  · rw [snoc, ← and_assoc, ← h.uids u]
    exact mem_of_perm_cons hr.uids h.nodup.1 u
  · rw [snoc, ← and_assoc, ← h.networks t]
    exact mem_of_perm_cons hr.networks h.nodup.2 t
  · rw [snoc, ← and_assoc, ← h.ports p]
    exact hr.ports p
  · exact (List.nodup_cons.1 (hr.uids.nodup_iff.1 h.nodup.1)).2
  · exact (List.nodup_cons.1 (hr.networks.nodup_iff.1 h.nodup.2)).2

/-- **One snapshot.** -/
theorem wp_restoreEntry (hs : o.Succeeds) {p₀ : LinuxContainerPool} {cs : List LinuxContainer}
    {b : LinuxBackend} {c : LinuxContainer} {text : String} (h : Rebuilt p₀ cs b)
    (hf : Fresh p₀ cs c) (htext : b.snapshots.lookup c.id = some text)
    (hdec : cfg.decode text = .ok c.snapshot) :
    wp (restoreEntry cfg o c.id)
      (fun _ b' => Rebuilt p₀ (cs ++ [c]) b' ∧ b'.snapshots = b.snapshots ∧
        b'.snapshotsPath = b.snapshotsPath) (fun _ _ => False) b := by
  simp only [restoreEntry, wp_bind, wp_get, calls, wp_zoom, wp_call]
  refine ⟨fun _ _ => ?_, fun _ he => Oracle.not_succeeds he hs⟩
  rw [htext]
  simp only [restore, LinuxContainerPool.restore, containerPool, wp_bind, wp_zoom, wp_checked, hdec]
  refine ⟨fun snapshot he => ?_, fun _ he => by cases he⟩
  cases he
  have hw : Within b.pool c.resources := by
    refine ⟨(h.uids _).2 ⟨hf.within.uid, hf.uid⟩, (h.networks _).2 ⟨hf.within.network, hf.network⟩,
      fun p hp => (h.ports p).2 ⟨hf.within.ports p hp, fun c' hc' => hf.ports c' hc' p hp⟩⟩
  refine wp_mono (wp_restoreSnapshot hs (c := c) ⟨hw.uid, hw.network, hw.ports⟩ hf.nodup
    hf.replayable) (fun c' s' hc' => ?_) fun _ _ h => h
  obtain ⟨hsame, hrem⟩ := hc'
  have hrem' : Removed c.resources b.pool s' := ⟨hrem.uids, hrem.networks, hrem.ports⟩
  rw [wp_ok (show alloc c' { b with pool := s' } =
    .ok b.heap.length { b with pool := s', heap := b.heap ++ [c'] } from rfl)]
  simp only [wp_modify, wp_pure, register]
  rw [container_append_self (b := { b with pool := s' }) (c := c') rfl]
  exact ⟨h.snoc hsame hrem', trivial, trivial⟩

/-- **All snapshots**, in the order in which the directory lists them. -/
theorem wp_restoreEntries (hs : o.Succeeds) {p₀ : LinuxContainerPool} : ∀ (cs : List LinuxContainer)
    {done : List LinuxContainer} {b : LinuxBackend}, Rebuilt p₀ done b →
    (∀ l c r, done ++ cs = l ++ c :: r → Fresh p₀ l c) →
    (∀ c ∈ cs, ∃ text, b.snapshots.lookup c.id = some text ∧ cfg.decode text = .ok c.snapshot) →
    wp (each (fun name => attempt (restoreEntry cfg o name)) (cs.map LinuxContainer.id))
      (fun _ b' => Rebuilt p₀ (done ++ cs) b') (fun _ _ => False) b
  | [], done, b, h, _, _ => by simpa [each] using h
  | c :: cs, done, b, h, hf, htext => by
    obtain ⟨text, hl, hd⟩ := htext c List.mem_cons_self
    simp only [List.map_cons, each, wp_bind, wp_attempt]
    refine wp_mono (wp_restoreEntry hs h (hf done c cs rfl) hl hd) (fun _ b' hb' => ?_)
      fun _ _ h => h.elim
    obtain ⟨hb', hfiles, -⟩ := hb'
    have ih := wp_restoreEntries hs cs hb' (by simpa using hf)
      (by rw [hfiles]; exact fun c hc => htext c (List.mem_cons_of_mem _ hc))
    simpa using ih

/-! ## Prune -/

/-- The calls that destroy the depot entries `ids`, one after the other. -/
def DestroyLog (cfg : Config) : List String → List Call → Prop
  | [], calls => calls = []
  | id :: ids, calls => ∃ provider rest, DestroyLog cfg ids rest ∧
      calls = .readFile (LinuxContainerPool.providerFile cfg id) ::
        .run (LinuxContainerPool.destroyCmd cfg id) :: .cleanupRootFS provider id :: rest

theorem wp_prune (hs : o.Succeeds)
    (hprov : ∀ log id r, o log (.readFile (LinuxContainerPool.providerFile cfg id)) = .ok r →
      r.text ∈ cfg.rootfsProviders) (keep : List String) {log : List Call} :
    wp (LinuxContainerPool.prune cfg o keep)
      (fun _ log' => ∃ r calls, o log (.readDir cfg.depotPath) = .ok r ∧
        log' = log ++ .readDir cfg.depotPath :: calls ∧
        DestroyLog cfg (r.names.filter fun id => id ≠ "tmp" ∧ id ∉ keep) calls)
      (fun _ _ => False) log := by
  have all : ∀ (ids : List String) {log : List Call},
      wp (each (fun id => if id = "tmp" ∨ id ∈ keep then pure ()
        else LinuxContainerPool.destroyDepot cfg o id) ids)
        (fun _ log' => ∃ calls, log' = log ++ calls ∧
          DestroyLog cfg (ids.filter fun id => id ≠ "tmp" ∧ id ∉ keep) calls)
        (fun _ _ => False) log := by
    intro ids
    induction ids with
    | nil => intro log; exact ⟨[], by simp, rfl⟩
    | cons id ids ih =>
      intro log
      rw [each, wp_bind]
      by_cases hk : id = "tmp" ∨ id ∈ keep
      · rw [if_pos hk, wp_pure, List.filter_cons_of_neg (by simpa [or_iff_not_imp_left] using hk)]
        exact ih
      · have hk' : id ≠ "tmp" ∧ id ∉ keep := not_or.1 hk
        rw [if_neg hk, List.filter_cons_of_pos (by simpa using hk')]
        simp only [LinuxContainerPool.destroyDepot, LinuxContainerPool.readProvider, wp_bind,
          wp_getD, wp_ask, wp_pure, wp_ensure, wp_call]
        refine ⟨fun r hr => ⟨fun _ => ⟨fun _ _ => ⟨fun _ _ => ?_, fun _ he => ?_⟩, fun _ he => ?_⟩,
          fun hn => hn (hprov _ _ _ hr)⟩, fun _ he => absurd hs (Oracle.not_succeeds he)⟩
        · refine wp_mono ih (fun _ log' hlog => ?_) fun _ _ h => h
          obtain ⟨calls, rfl, hd⟩ := hlog
          exact ⟨.readFile _ :: .run _ :: .cleanupRootFS r.text id :: calls, by simp, r.text, calls,
            hd, rfl⟩
        · exact Oracle.not_succeeds he hs
        · exact Oracle.not_succeeds he hs
  simp only [LinuxContainerPool.prune, wp_bind, wp_ask]
  refine ⟨fun r hr => wp_mono (all r.names) (fun _ log' hlog => ?_) fun _ _ h => h,
    fun _ he => Oracle.not_succeeds he hs⟩
  obtain ⟨calls, rfl, hd⟩ := hlog
  exact ⟨r, calls, hr, by simp, hd⟩

/-! ## The registered containers -/

/-- Two containers have nothing in common. -/
structure Apart (c c' : LinuxContainer) : Prop where
  uid : c.resources.uid ≠ c'.resources.uid
  network : c.resources.network.string ≠ c'.resources.network.string
  ports : ∀ p ∈ c.resources.ports, p ∉ c'.resources.ports

theorem Apart.symm {c c' : LinuxContainer} (h : Apart c c') : Apart c' c :=
  ⟨h.uid.symm, h.network.symm, fun p hp hp' => h.ports p hp' hp⟩

theorem mem_registered {b : LinuxBackend} {i : ℕ} :
    i ∈ b.registered ↔ ∃ h, b.containers.lookup h = some i := by
  simp only [registered, List.mem_map]
  constructor
  · rintro ⟨e, he, rfl⟩
    exact ⟨e.1, (List.mem_dlookup_iff b.containers.nodupKeys).2 he⟩
  · rintro ⟨h, hi⟩
    exact ⟨⟨h, i⟩, (List.mem_dlookup_iff b.containers.nodupKeys).1 hi, rfl⟩

/-- Registered containers have different handles. -/
theorem pairwise_registered {b : LinuxBackend} {R : ℕ → ℕ → Prop}
    (hR : ∀ h h' i j, b.containers.lookup h = some i → b.containers.lookup h' = some j → h ≠ h' →
      R i j) : b.registered.Pairwise R := by
  have hkeys : b.containers.entries.Pairwise fun e e' => e.1 ≠ e'.1 :=
    List.pairwise_map.1 b.containers.nodupKeys
  rw [registered, List.pairwise_map]
  refine hkeys.imp_of_mem fun {e e'} he he' hne => ?_
  exact hR e.1 e'.1 e.2 e'.2 ((List.mem_dlookup_iff b.containers.nodupKeys).2 he)
    ((List.mem_dlookup_iff b.containers.nodupKeys).2 he') hne

theorem Retained.apart {b₀ b : LinuxBackend} (h : Retained b₀ b) :
    (b.registered.map b.container).Pairwise Apart := by
  rw [List.pairwise_map]
  refine pairwise_registered fun k k' i j hi hj hne => ⟨fun he => ?_, fun he => ?_, ?_⟩
  · exact hne (h.owned.uids.one k k' _ ⟨i, hi, rfl⟩ ⟨j, hj, he.symm⟩)
  · exact hne (h.owned.networks.one k k' _ ⟨i, hi, rfl⟩ ⟨j, hj, he.symm⟩)
  · exact fun p hp hp' => hne (h.owned.ports.one k k' p ⟨i, hi, hp⟩ ⟨j, hj, hp'⟩)

theorem Retained.nodup_ids {b₀ b : LinuxBackend} (h : Retained b₀ b) :
    (b.registered.map fun i => (b.container i).id).Nodup := by
  rw [List.Nodup, List.pairwise_map]
  refine pairwise_registered fun k k' i j hi hj hne he => hne ?_
  obtain ⟨hlt, hk⟩ := h.owned.filed k i hi
  obtain ⟨hlt', hk'⟩ := h.owned.filed k' j hj
  rw [← hk, ← hk', h.distinct i hlt j hlt' he]

/-- In whatever order the containers are restored, each is fresh after the ones
    before it. -/
theorem Retained.fresh {b₀ b : LinuxBackend} (h : Retained b₀ b) {cs : List LinuxContainer}
    (hperm : cs.Perm (b.registered.map b.container)) {l r : List LinuxContainer} {c : LinuxContainer}
    (hcs : cs = l ++ c :: r) : Fresh b₀.pool l c := by
  have hapart : cs.Pairwise Apart := (hperm.pairwise_iff fun h => h.symm).2 h.apart
  rw [hcs, List.pairwise_append] at hapart
  have before : ∀ c' ∈ l, Apart c' c := fun c' hc' => hapart.2.2 c' hc' c List.mem_cons_self
  have hc : c ∈ b.registered.map b.container := hperm.mem_iff.1 (by simp [hcs])
  obtain ⟨i, hi, rfl⟩ := List.mem_map.1 hc
  obtain ⟨k, hk⟩ := mem_registered.1 hi
  have hlt := (h.owned.filed k i hk).1
  exact ⟨h.objects i hlt, h.nodup k i hk, h.replayable i hlt, fun c' hc' => (before c' hc').uid,
    fun c' hc' => (before c' hc').network, fun c' hc' p hp hp' => (before c' hc').ports p hp' hp⟩

/-! ## Start -/

/-- The files of the containers that `b` has registered, as `Stop` leaves them. -/
structure Files (cfg : Config) (b : LinuxBackend) (files : AList (fun _ : String => String)) :
    Prop where
  keys : files.keys.Perm ((b.registered.map b.container).map LinuxContainer.id)
  text : ∀ i ∈ b.registered, ∃ text, files.lookup (b.container i).id = some text ∧
    cfg.decode text = .ok (b.container i).snapshot

/-- **`Start` restores every container.** -/
theorem wp_startSnapshots (hs : o.Succeeds) {b₀ b b₁ : LinuxBackend} (h : Retained b₀ b)
    (hfiles : Files cfg b b₁.snapshots) (h₁ : Rebuilt b₀.pool [] b₁)
    (hdir : ∀ log r, o log (.readDir b₁.snapshotsPath) = .ok r → r.names.Perm b₁.snapshots.keys) :
    wp (startSnapshots cfg o)
      (fun _ b' => ∃ cs, cs.Perm (b.registered.map b.container) ∧ Rebuilt b₀.pool cs b')
      (fun _ _ => False) b₁ := by
  simp only [startSnapshots, restoreSnapshots, wp_bind, wp_get, wp_attempt, calls, wp_zoom, wp_call,
    wp_getD, wp_ask, wp_modify]
  refine ⟨fun _ _ => ⟨fun r hr => ?_, fun _ he => absurd hs (Oracle.not_succeeds he)⟩,
    fun _ he => absurd hs (Oracle.not_succeeds he)⟩
  -- the containers in the order in which the directory lists their files
  have hnames := (hdir _ r hr).trans hfiles.keys
  obtain ⟨cs, hcs, hperm⟩ :=
    (congrFun (congrFun (List.eq_map_comp_perm LinuxContainer.id) r.names) _).mpr hnames
  rw [hcs]
  refine wp_mono (wp_restoreEntries hs cs
    ⟨h₁.handles, h₁.containers, h₁.uids, h₁.networks, h₁.ports, h₁.nodup⟩ ?_ ?_) ?_ fun _ _ h => h.elim
  · exact fun l c r hlcr => h.fresh hperm hlcr
  · intro c hc
    obtain ⟨i, hi, rfl⟩ := List.mem_map.1 (hperm.mem_iff.1 hc)
    exact hfiles.text i hi
  · intro _ b' hb'
    refine ⟨fun _ _ => ⟨fun _ _ => ⟨cs, hperm, ?_⟩, fun _ he => Oracle.not_succeeds he hs⟩,
      fun _ he => absurd hs (Oracle.not_succeeds he)⟩
    exact ⟨hb'.handles, hb'.containers, hb'.uids, hb'.networks, hb'.ports, hb'.nodup⟩

end LinuxBackend

end WardenLinux
