/-
  The process IDs of a container over its life: runs, exits and restarts of
  the daemon.

  The next ID is not saved.  A restart makes a new tracker and restores the
  processes that were tracked, which puts the next ID just above the highest
  of them (`restoreAll_next`).  So an ID comes back when the process with the
  highest one had ended before the restart (`id_reused`), and does not
  otherwise (`given_nodup`).
-/
import WardenLinux.Lib.Transition
import WardenLinux.ProcessTracker

namespace WardenLinux

open Fallible Transition

namespace ProcessTracker

/-- The loop of `LinuxContainer.Restore` over the processes of a snapshot. -/
def restoreAll : List ProcessSnapshot → ProcessTracker → ProcessTracker
  | [], t => t
  | p :: ps, t => restoreAll ps (restore p.id p.tty t)

/-! ## The life of a container's processes -/

/-- A tracker, and the IDs that runs of its container were given. -/
structure Life where
  tracker : ProcessTracker
  given : List UInt32

inductive LifeEvent where
  /-- `processTracker.Run`; its spawn does not touch the tracker -/
  | run (tty : Bool)
  /-- the process has ended and is unregistered -/
  | exit (id : UInt32)
  /-- the daemon restarts from a snapshot of the tracked processes -/
  | restart (snapshots : List ProcessSnapshot)
  deriving DecidableEq, Repr

/-- A snapshot lists the tracked processes in any order. -/
inductive LifeStep : Life → LifeEvent → Life → Prop
  | run (s : Life) (tty : Bool) :
      LifeStep s (.run tty)
        ⟨final (register tty s.tracker), s.given ++ [s.tracker.nextProcessID]⟩
  | exit (s : Life) (id : UInt32) : LifeStep s (.exit id) ⟨unregister id s.tracker, s.given⟩
  | restart (s : Life) (ps : List ProcessSnapshot) : ps.Perm s.tracker.snapshots →
      LifeStep s (.restart ps) ⟨restoreAll ps new, s.given⟩

/-- A new container. -/
def Life.new : Life := ⟨ProcessTracker.new, []⟩

/-- Some tracked process has an ID as high as every one given so far. -/
def Life.HighestTracked (s : Life) : Prop :=
  ∀ id ∈ s.given, ∃ p ∈ s.tracker.activeProcesses, id ≤ p.id

/-- The condition on the steps: the process with the highest ID is still there
    at a restart. -/
def RestartsKeepHighest (s : Life) : LifeEvent → Prop
  | .restart _ => s.HighestTracked
  | _ => True

instance (s : Life) : Decidable s.HighestTracked :=
  List.decidableBAll (fun id => ∃ p ∈ s.tracker.activeProcesses, id ≤ p.id) s.given

instance (s : Life) : (e : LifeEvent) → Decidable (RestartsKeepHighest s e)
  | .restart _ => inferInstanceAs (Decidable s.HighestTracked)
  | .run _ | .exit _ => inferInstanceAs (Decidable True)

/-! ## What a step does to the next ID -/

theorem new_next : new.nextProcessID.toNat = 1 := rfl

theorem mem_active_track {id : UInt32} {tty : Bool} {t : ProcessTracker} {p : Process}
    (h : p ∈ (track id tty t).activeProcesses) : p.id = id ∨ p ∈ t.activeProcesses := by
  rw [mem_activeProcesses, track] at h
  rcases Maps.lookup_insert_eq_some.1 h with ⟨hid, -⟩ | ⟨-, h⟩
  · exact Or.inl hid
  · exact Or.inr (mem_activeProcesses.2 h)

theorem mem_active_unregister {id : UInt32} {t : ProcessTracker} {p : Process}
    (h : p ∈ (unregister id t).activeProcesses) : p ∈ t.activeProcesses := by
  rw [mem_activeProcesses] at h ⊢
  exact (lookup_unregister h).2

theorem mem_active_restoreAll {p : Process} : ∀ (ps : List ProcessSnapshot) {t : ProcessTracker},
    p ∈ (restoreAll ps t).activeProcesses → (∃ q ∈ ps, p.id = q.id) ∨ p ∈ t.activeProcesses
  | [], _, h => Or.inr h
  | q :: ps, t, h => by
    rcases mem_active_restoreAll ps h with ⟨q', hq', he⟩ | h
    · exact Or.inl ⟨q', List.mem_cons_of_mem _ hq', he⟩
    · have h' : p ∈ (track q.id q.tty t).activeProcesses := h
      rcases mem_active_track h' with he | h'
      · exact Or.inl ⟨q, List.mem_cons_self, he⟩
      · exact Or.inr h'

theorem restore_next {id : UInt32} (tty : Bool) (t : ProcessTracker) (h : id.toNat + 1 < 2 ^ 32) :
    (restore id tty t).nextProcessID.toNat = max t.nextProcessID.toNat (id.toNat + 1) := by
  have hadd : (id + 1).toNat = id.toNat + 1 := by
    rw [UInt32.toNat_add]; simp; omega
  unfold restore
  by_cases hge : id ≥ t.nextProcessID
  · have := UInt32.le_iff_toNat_le.1 hge
    simp only [hge, if_true, hadd]; omega
  · have := UInt32.lt_iff_toNat_lt.1 (UInt32.not_le.1 hge)
    simp only [hge, if_false]; omega

/-- **The next ID after a restart** is above every restored one, and no higher
    than it must be. -/
theorem restoreAll_next {N : ℕ} (hN : N + 1 < 2 ^ 32) :
    ∀ (ps : List ProcessSnapshot) {t : ProcessTracker}, (∀ q ∈ ps, q.id.toNat ≤ N) →
      t.nextProcessID.toNat ≤ N + 1 →
      (restoreAll ps t).nextProcessID.toNat ≤ N + 1 ∧
        t.nextProcessID.toNat ≤ (restoreAll ps t).nextProcessID.toNat ∧
        ∀ q ∈ ps, q.id.toNat + 1 ≤ (restoreAll ps t).nextProcessID.toNat
  | [], t, _, ht => ⟨ht, le_rfl, by simp⟩
  | q :: ps, t, hq, ht => by
    have hqN := hq q List.mem_cons_self
    have hr := restore_next q.tty t (show q.id.toNat + 1 < 2 ^ 32 by omega)
    obtain ⟨h1, h2, h3⟩ := restoreAll_next hN ps (t := restore q.id q.tty t)
      (fun q' hq' => hq q' (List.mem_cons_of_mem _ hq')) (by rw [hr]; omega)
    rw [hr] at h2
    refine ⟨h1, ?_, fun q' hq' => ?_⟩
    · simp only [restoreAll]; omega
    · rcases List.mem_cons.1 hq' with rfl | hq'
      · simp only [restoreAll]; omega
      · exact h3 q' hq'

/-! ## No ID twice -/

/-- The IDs given are `1, …, n`, and the next one is `n + 1`. -/
structure Life.Counting (s : Life) : Prop where
  nodup : s.given.Nodup
  range : ∀ id ∈ s.given, 1 ≤ id.toNat ∧ id.toNat ≤ s.given.length
  all : ∀ n, 1 ≤ n → n ≤ s.given.length → ∃ id ∈ s.given, id.toNat = n
  next : s.tracker.nextProcessID.toNat = s.given.length + 1
  tracked : ∀ p ∈ s.tracker.activeProcesses, p.id.toNat ≤ s.given.length

theorem counting_new : Life.new.Counting where
  nodup := List.nodup_nil
  range := by simp [Life.new]
  all n h₁ h₂ := by simp only [Life.new, List.length_nil] at h₂; omega
  next := rfl
  tracked p hp := by cases hp

theorem counting_run {s : Life} (h : s.Counting) (tty : Bool) (hlt : s.given.length + 2 < 2 ^ 32) :
    Life.Counting ⟨final (register tty s.tracker), s.given ++ [s.tracker.nextProcessID]⟩ := by
  have hnext := h.next
  have hnew : ∀ id ∈ s.given, id ≠ s.tracker.nextProcessID := by
    rintro id hid rfl
    have := (h.range _ hid).2; omega
  refine ⟨?_, fun id hid => ?_, fun n h₁ h₂ => ?_, ?_, fun p hp => ?_⟩
  · rw [List.nodup_append]
    refine ⟨h.nodup, List.nodup_singleton _, fun a ha b hb => ?_⟩
    rw [List.mem_singleton.1 hb]; exact hnew a ha
  · rw [List.length_append, List.length_singleton]
    rcases List.mem_append.1 hid with hid | hid
    · have := h.range id hid; omega
    · rw [List.mem_singleton.1 hid]; omega
  · rw [List.length_append, List.length_singleton] at h₂
    by_cases hn : n ≤ s.given.length
    · obtain ⟨id, hid, he⟩ := h.all n h₁ hn
      exact ⟨id, List.mem_append_left _ hid, he⟩
    · exact ⟨_, List.mem_append_right _ (List.mem_singleton_self _), by omega⟩
  · have hadd : (s.tracker.nextProcessID + 1).toNat = s.tracker.nextProcessID.toNat + 1 := by
      rw [UInt32.toNat_add, hnext]; simp; omega
    simp only [register_eq, final_ok, hadd, hnext, List.length_append, List.length_singleton]
  · rw [List.length_append, List.length_singleton]
    have hp' : p ∈ (track s.tracker.nextProcessID tty s.tracker).activeProcesses := hp
    rcases mem_active_track hp' with he | hp'
    · rw [he]; omega
    · have := h.tracked p hp'; omega

theorem counting_restart {s : Life} (h : s.Counting) (hh : s.HighestTracked)
    (hlt : s.given.length + 1 < 2 ^ 32) {ps : List ProcessSnapshot}
    (hps : ps.Perm s.tracker.snapshots) : Life.Counting ⟨restoreAll ps new, s.given⟩ := by
  have hle : ∀ q ∈ ps, q.id.toNat ≤ s.given.length := by
    intro q hq
    obtain ⟨p, hp, rfl⟩ := List.mem_map.1 (hps.mem_iff.1 hq)
    exact h.tracked p hp
  obtain ⟨h1, h2, h3⟩ := restoreAll_next hlt ps hle (t := new) (by rw [new_next]; omega)
  rw [new_next] at h2
  refine ⟨h.nodup, h.range, h.all, ?_, fun p hp => ?_⟩
  · by_cases hne : s.given = []
    · simp only [hne, List.length_nil] at h1 ⊢
      omega
    · -- the highest process was restored
      obtain ⟨id, hid, htop⟩ := h.all _ (List.length_pos_iff.2 hne) le_rfl
      obtain ⟨p, hp, hge⟩ := hh id hid
      have hin : (⟨p.id, p.withTty⟩ : ProcessSnapshot) ∈ ps :=
        hps.mem_iff.2 (List.mem_map.2 ⟨p, hp, rfl⟩)
      have := h3 _ hin
      have hge' := UInt32.le_iff_toNat_le.1 hge
      simp only at this ⊢; omega
  · rcases mem_active_restoreAll ps hp with ⟨q, hq, he⟩ | hp
    · rw [he]; exact hle q hq
    · cases hp

/-- **Process IDs are not reused** in a life in which, at every restart, the
    process with the highest ID given so far is still tracked, as long as
    fewer than `2 ^ 32 - 1` processes are run. -/
theorem given_nodup {ls : List LifeEvent} {s : Life}
    (h : Run (guarded RestartsKeepHighest LifeStep) Life.new ls s)
    (hlt : s.given.length < 2 ^ 32 - 1) : s.given.Nodup := by
  have key : s.given.length < 2 ^ 32 - 1 → s.Counting := by
    refine h.invariant (I := fun s => s.given.length < 2 ^ 32 - 1 → s.Counting)
      (fun _ => counting_new) ?_
    rintro s l s' ih ⟨hok, hstep⟩ hlt'
    cases hstep with
    | run tty =>
      rw [List.length_append, List.length_singleton] at hlt'
      exact counting_run (ih (by omega)) tty (by omega)
    | exit id =>
      obtain ⟨h1, h2, h3, h4, h5⟩ := ih hlt'
      exact ⟨h1, h2, h3, h4, fun p hp => h5 p (mem_active_unregister hp)⟩
    | restart ps hps =>
      exact counting_restart (ih hlt') hok (by simp only at hlt'; omega) hps
  exact (key hlt).nodup

theorem given_nodup_restart :
    ∃ s, Run (guarded RestartsKeepHighest LifeStep) Life.new
        [.run false, .run true, .restart [⟨2, true⟩, ⟨1, false⟩], .run false] s ∧
      s.given = [1, 2, 3] ∧ s.given.Nodup := by
  have h₀ : Run (guarded RestartsKeepHighest LifeStep) Life.new [] Life.new := .nil
  have h := ((h₀.snoc
    (l := .run false) ⟨by decide, .run _ _⟩).snoc (l := .run true) ⟨by decide, .run _ _⟩).snoc
    (l := .restart [⟨2, true⟩, ⟨1, false⟩]) ⟨by decide, .restart _ _ (by decide)⟩
  have h' := h.snoc (l := .run false) ⟨by decide, .run _ _⟩
  exact ⟨_, h', rfl, given_nodup h' (by decide)⟩

/-- The condition is needed: after a restart that breaks it, the next process
    gets an ID that was given before. -/
theorem restart_reuses {s : Life} (h : s.Counting) (hlt : s.given.length < 2 ^ 32 - 1)
    (hh : ¬ s.HighestTracked) {ps : List ProcessSnapshot} (hps : ps.Perm s.tracker.snapshots) :
    (restoreAll ps new).nextProcessID ∈ s.given := by
  simp only [Life.HighestTracked, not_forall, not_exists, not_and, UInt32.not_le] at hh
  obtain ⟨id, hid, hlow⟩ := hh
  have hr := h.range id hid
  have hle : ∀ q ∈ ps, q.id.toNat ≤ id.toNat - 1 := by
    intro q hq
    obtain ⟨p, hp, rfl⟩ := List.mem_map.1 (hps.mem_iff.1 hq)
    have := UInt32.lt_iff_toNat_lt.1 (hlow p hp)
    simp only; omega
  obtain ⟨h1, h2, -⟩ := restoreAll_next (by omega) ps hle (t := new) (by rw [new_next]; omega)
  rw [new_next] at h2
  obtain ⟨id', hid', he⟩ := h.all _ h2 (by omega)
  rwa [← UInt32.toNat_inj.1 he]

/-- Two processes are run, the second one ends, the daemon restarts: the third
    process gets the ID of the second, and so its socket. -/
theorem id_reused :
    ∃ s, Run LifeStep Life.new
        [.run false, .run false, .exit 2, .restart [⟨1, false⟩], .run false] s ∧
      s.given = [1, 2, 2] ∧ s.given.length < 2 ^ 32 - 1 ∧ ¬ s.given.Nodup := by
  have h₀ : Run LifeStep Life.new [] Life.new := .nil
  have h := (((h₀.snoc (.run _ false)).snoc (.run _ false)).snoc (.exit _ 2)).snoc
    (.restart _ [⟨1, false⟩] (by decide))
  exact ⟨_, h.snoc (.run _ false), rfl, by decide, by decide⟩

/-! ## The processes after a restart -/

theorem mem_snapshots {t : ProcessTracker} {p : ProcessSnapshot} :
    p ∈ t.snapshots ↔ ∃ q, t.processes.lookup p.id = some q ∧ q.withTty = p.tty := by
  simp only [snapshots, List.mem_map]
  constructor
  · rintro ⟨q, hq, rfl⟩
    exact ⟨q, mem_activeProcesses.1 hq, rfl⟩
  · rintro ⟨q, hq, ht⟩
    have hid := (t.filed _ _ hq).1
    refine ⟨q, mem_activeProcesses.2 (hid ▸ hq), ?_⟩
    rw [hid, ht]

theorem nodup_snapshots (t : ProcessTracker) : (t.snapshots.map ProcessSnapshot.id).Nodup := by
  have hkeys : t.snapshots.map ProcessSnapshot.id = t.processes.keys := by
    simp only [snapshots, activeProcesses, List.map_map, AList.keys, List.keys]
    refine List.map_congr_left fun e he => ?_
    have hl : t.processes.lookup e.1 = some e.2 :=
      (List.mem_dlookup_iff t.processes.nodupKeys).2 he
    exact (t.filed _ _ hl).1
  rw [hkeys]
  exact t.processes.keys_nodup

theorem mem_snapshots_restore {id : UInt32} {tty : Bool} {t : ProcessTracker} {p : ProcessSnapshot} :
    p ∈ (restore id tty t).snapshots ↔ p = ⟨id, tty⟩ ∨ p ∈ t.snapshots ∧ p.id ≠ id := by
  obtain ⟨pid, ptty⟩ := p
  have hp : (restore id tty t).processes = t.processes.insert id ⟨id, tty, t.allocated⟩ := rfl
  rw [mem_snapshots, mem_snapshots, hp]
  by_cases hid : pid = id
  · subst hid
    simp [AList.lookup_insert, eq_comm]
  · simp [AList.lookup_insert_ne hid, hid]

/-- **A restart tracks the same processes.** -/
theorem mem_snapshots_restoreAll {p : ProcessSnapshot} : ∀ (ps : List ProcessSnapshot)
    {t : ProcessTracker}, (ps.map ProcessSnapshot.id).Nodup →
    (∀ q ∈ t.snapshots, q.id ∉ ps.map ProcessSnapshot.id) →
    (p ∈ (restoreAll ps t).snapshots ↔ p ∈ ps ∨ p ∈ t.snapshots)
  | [], t, _, _ => by simp [restoreAll]
  | q :: ps, t, hnd, hnew => by
    rw [List.map_cons, List.nodup_cons] at hnd
    have hq : ∀ r ∈ t.snapshots, r.id ≠ q.id := fun r hr he => hnew r hr (by simp [he])
    rw [restoreAll, mem_snapshots_restoreAll ps hnd.2 fun r hr => ?_, mem_snapshots_restore,
      List.mem_cons]
    · constructor
      · rintro (h | h | h)
        exacts [Or.inl (Or.inr h), Or.inl (Or.inl h), Or.inr h.1]
      · rintro ((h | h) | h)
        exacts [Or.inr (Or.inl h), Or.inl h, Or.inr (Or.inr ⟨h, hq p h⟩)]
    · rcases mem_snapshots_restore.1 hr with rfl | ⟨hr, -⟩
      · exact hnd.1
      · exact fun hm => hnew r hr (List.mem_cons_of_mem _ hm)

end ProcessTracker

end WardenLinux
