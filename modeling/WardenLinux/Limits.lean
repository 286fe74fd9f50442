/-
  The limits of a container over restarts of the daemon.

  `Snapshot` writes four kinds of limits and `Restore` sets one of them again,
  so that a restart forgets the others (`restarts_limits`).  `limits_survive_iff`
  says for which containers nothing is lost.
-/
import WardenLinux.Container

namespace WardenLinux

open Fallible

namespace LinuxContainer

variable {cfg : Config} {o : Oracle}

/-- `Restarts n c c'`: after `n` restarts the container `c` has become `c'`,
    each time a fresh container restored from the snapshot of the last one. -/
inductive Restarts (cfg : Config) (o : Oracle) : ℕ → LinuxContainer → LinuxContainer → Prop
  | zero (c : LinuxContainer) : Restarts cfg o 0 c c
  | succ {n : ℕ} {c c₁ : LinuxContainer} {path : String} {s s' : Cell} : Restarts cfg o n c c₁ →
      s.container = new c₁.id c₁.handle path c₁.properties c₁.graceTime c₁.resources →
      restore cfg o c₁.snapshot s = .ok () s' → Restarts cfg o (n + 1) c s'.container

/-- The loops over mappings and permissions leave the limits alone. -/
theorem wp_each_limits {β : Type} {f : β → EStateM Err Cell Unit} {l : LimitsSnapshot} {s : Cell}
    (hf : ∀ b s, wp (f b) (fun _ s' => s'.container.snapshot.limits = s.container.snapshot.limits)
      (fun _ s' => s'.container.snapshot.limits = s.container.snapshot.limits) s)
    (hs : s.container.snapshot.limits = l) (bs : List β) :
    wp (each f bs) (fun _ s' => s'.container.snapshot.limits = l) (fun _ _ => True) s := by
  refine wp_mono (wp_each (P := fun s' : Cell => s'.container.snapshot.limits = l) hs
    fun b _ s₁ h₁ => ?_) (fun _ _ h => h) (fun _ _ _ => trivial)
  exact wp_mono (hf b s₁) (fun _ _ h => h.trans h₁) (fun _ _ h => h.trans h₁)

theorem wp_netIn_limits (n : NetInSpec) (s : Cell) :
    wp (do let _ ← netIn cfg o n.hostPort n.containerPort)
      (fun _ s' => s'.container.snapshot.limits = s.container.snapshot.limits)
      (fun _ s' => s'.container.snapshot.limits = s.container.snapshot.limits) s := by
  simp only [netIn, hostPortFor, PortPool.acquire, update, wp_bind, wp_ite, wp_get, wp_zoom, wp_call,
    wp_modify, wp_pure, FreeList.Stock.wp_acquire]
  exact ⟨fun _ => ⟨fun _ _ _ _ => ⟨fun _ _ => rfl, fun _ _ => rfl⟩, fun _ => rfl⟩,
    fun _ => ⟨fun _ _ => rfl, fun _ _ => rfl⟩⟩

theorem wp_netOut_limits (n : NetOutSpec) (s : Cell) :
    wp (netOut cfg o n.network n.port)
      (fun _ s' => s'.container.snapshot.limits = s.container.snapshot.limits)
      (fun _ s' => s'.container.snapshot.limits = s.container.snapshot.limits) s := by
  simp only [netOut, update, wp_bind, wp_ensure, wp_get, wp_zoom, wp_call, wp_modify]
  exact ⟨fun _ => ⟨fun _ _ => rfl, fun _ _ => rfl⟩, fun _ => trivial⟩

/-- A restored container has the memory limit of the snapshot, and the other
    limits it had before. -/
theorem wp_restore_limits (snapshot : ContainerSnapshot) (s : Cell) :
    wp (restore cfg o snapshot)
      (fun _ s' => s'.container.snapshot.limits = { s.container.snapshot.limits with
        memory := snapshot.limits.memory.or s.container.currentMemoryLimits })
      (fun _ _ => True) s := by
  simp only [restore, setState, update, wp_bind, wp_modify, wp_get, wp_zoom, wp_call]
  refine wp_each_registerEvent snapshot.events ?_
  have rest : ∀ s₁ : Cell, s₁.container.snapshot.limits = { s.container.snapshot.limits with
        memory := snapshot.limits.memory.or s.container.currentMemoryLimits } →
      wp (each (fun n => do let _ ← netIn cfg o n.hostPort n.containerPort) snapshot.netIns)
        (fun _ s₂ => wp (each (fun n => netOut cfg o n.network n.port) snapshot.netOuts)
          (fun _ s' => s'.container.snapshot.limits = { s.container.snapshot.limits with
            memory := snapshot.limits.memory.or s.container.currentMemoryLimits })
          (fun _ _ => True) s₂)
        (fun _ _ => True) s₁ := fun s₁ h₁ =>
    wp_mono (wp_each_limits wp_netIn_limits h₁ snapshot.netIns)
      (fun _ _ h₂ => wp_each_limits wp_netOut_limits h₂ snapshot.netOuts) (fun _ _ h => h)
  unfold restoreLimits
  cases hm : snapshot.limits.memory with
  | none => exact ⟨fun _ _ => by rw [hm] at rest; exact rest _ rfl, fun _ _ => trivial⟩
  | some memory =>
    refine wp_limitMemory memory (fun oom log => ?_) (fun _ _ _ _ => trivial)
    exact ⟨fun _ _ => by rw [hm] at rest; exact rest _ rfl, fun _ _ => trivial⟩

/-- **A restart keeps the memory limit and forgets the others.** -/
theorem restarts_limits {n : ℕ} {c c' : LinuxContainer} (h : Restarts cfg o (n + 1) c c') :
    c'.snapshot.limits = ⟨c.currentMemoryLimits, none, none, none⟩ := by
  have key : ∀ {m : ℕ} {c c' : LinuxContainer}, Restarts cfg o m c c' →
      c'.currentMemoryLimits = c.currentMemoryLimits ∧
        (0 < m → c'.snapshot.limits = ⟨c.currentMemoryLimits, none, none, none⟩) := by
    intro m c c' h
    induction h with
    | zero c => exact ⟨rfl, fun h => absurd h (lt_irrefl 0)⟩
    | @succ n c c₁ path s s' _ hnew hres ih =>
      have hl := wp_of_ok (wp_restore_limits c₁.snapshot s) hres
      rw [hnew] at hl
      have hl' : s'.container.snapshot.limits = ⟨c.currentMemoryLimits, none, none, none⟩ := by
        rw [hl, ← ih.1]
        simp [snapshot, new]
      exact ⟨congrArg LimitsSnapshot.memory hl', fun _ => hl'⟩
  exact (key h).2 (Nat.succ_pos n)

/-- **Limits survive restarts** iff the container has no bandwidth, disk or CPU
    limit. -/
theorem limits_survive_iff {n : ℕ} {c c' : LinuxContainer} (h : Restarts cfg o (n + 1) c c') :
    (c'.snapshot.limits = c.snapshot.limits ∧ c'.getBandwidthLimits = c.getBandwidthLimits) ↔
      c.currentBandwidthLimits = none ∧ c.currentDiskLimits = none ∧ c.currentCPULimits = none := by
  have hl := restarts_limits h
  have hb : c'.currentBandwidthLimits = none := congrArg LimitsSnapshot.bandwidth hl
  rw [hl]
  constructor
  · rintro ⟨he, -⟩
    exact ⟨(congrArg LimitsSnapshot.bandwidth he).symm, (congrArg LimitsSnapshot.disk he).symm,
      (congrArg LimitsSnapshot.cpu he).symm⟩
  · rintro ⟨h₁, h₂, h₃⟩
    simp [snapshot, getBandwidthLimits, hb, h₁, h₂, h₃]

/-- A container with a memory limit. -/
def limitedMemory : LinuxContainer :=
  { new "some-id" "some-handle" "/depot/some-id" [] 0 ⟨10000, ⟨⟨[10, 0, 0, 0], 30⟩, [], []⟩, []⟩ with
    currentMemoryLimits := some ⟨1024⟩ }

/-- A fresh container for a restore of it. -/
def freshCell : Cell :=
  ⟨new "some-id" "some-handle" "/depot/some-id" [] 0 limitedMemory.resources, .new 61001 5, []⟩

theorem limits_survive_memory :
    ∃ c', Restarts .plain .quiet 1 limitedMemory c' ∧
      c'.snapshot.limits = limitedMemory.snapshot.limits ∧
      c'.getBandwidthLimits = limitedMemory.getBandwidthLimits := by
  have h : Restarts .plain .quiet 1 limitedMemory _ :=
    .succ (s := freshCell) (.zero limitedMemory) rfl rfl
  exact ⟨_, h, (limits_survive_iff h).2 ⟨rfl, rfl, rfl⟩⟩

/-- A bandwidth limit that was set is gone after one restart. -/
theorem limits_lost :
    ∃ s c', limitBandwidth .quiet ⟨1024, 2048⟩ ⟨limitedMemory, .new 61001 5, []⟩ = .ok () s ∧
      Restarts .plain .quiet 1 s.container c' ∧
      s.container.snapshot.limits.bandwidth = some ⟨1024, 2048⟩ ∧
      c'.snapshot.limits.bandwidth = none ∧
      s.container.getBandwidthLimits = ⟨1024, 2048⟩ ∧ c'.getBandwidthLimits = ⟨0, 0⟩ :=
  ⟨_, _, rfl, .succ (s := freshCell) (.zero _) rfl rfl, rfl, rfl, rfl, rfl⟩

/-- With every call succeeding a container whose mappings and permissions can
    be replayed is restored any number of times. -/
theorem restarts_exist (hs : o.Succeeds) (ports : PortPool) {c : LinuxContainer}
    (hr : Replayable c.netIns c.netOuts) :
    ∀ n, ∃ c', Restarts cfg o n c c' ∧ Replayable c'.netIns c'.netOuts
  | 0 => ⟨c, .zero c, hr⟩
  | n + 1 => by
    obtain ⟨c₁, h₁, hr₁⟩ := restarts_exist hs ports hr n
    obtain ⟨_, s', hres, hR⟩ := wp_returns (wp_restore cfg hs
      (s := ⟨new c₁.id c₁.handle c₁.path c₁.properties c₁.graceTime c₁.resources, ports, []⟩)
      (show Replayable c₁.snapshot.netIns c₁.snapshot.netOuts from hr₁))
    refine ⟨s'.container, .succ h₁ rfl hres, ?_⟩
    rw [hR.netIns, hR.netOuts]
    exact hr₁

end LinuxContainer

end WardenLinux
