/-
  Requests whose spawned processes become ready.

  A `Run` whose spawn fails leaves a process that is tracked and never linked, for
  which `Cleanup` waits for ever (`wp_cleanup_blocked`, and `stop_blocked` for the
  daemon).  No other request makes such a process: `linked_serveAll`.
-/
import WardenLinux.Backend
import WardenLinux.Lib.Transition

namespace WardenLinux

open Fallible Transition

namespace LinuxContainer

/-- An operation that does not touch the process tracker. -/
def KeepsTracker {α : Type} (x : EStateM Err Cell α) : Prop :=
  ∀ s, wp x (fun _ s' => s'.container.processTracker = s.container.processTracker)
    (fun _ s' => s'.container.processTracker = s.container.processTracker) s

section
variable {cfg : Config} {o : Oracle}

theorem keepsTracker_stop (kill : Bool) : KeepsTracker (stop o kill) := fun s => by
  simp only [stop, setState, update, wp_bind, wp_get, wp_zoom, wp_call]
  exact ⟨fun _ _ => wp_stopOomNotifier fun log => rfl, fun _ _ => rfl⟩

theorem keepsTracker_watchForOom : KeepsTracker (watchForOom o) := fun s => by
  simp only [watchForOom, registerEvent, update, wp_bind, wp_modify, wp_attempt]
  exact keepsTracker_stop false _

theorem keepsTracker_netIn (hostPort containerPort : UInt32) :
    KeepsTracker (netIn cfg o hostPort containerPort) := fun s => by
  simp only [netIn, hostPortFor, PortPool.acquire, update, wp_bind, wp_ite, wp_get, wp_zoom, wp_call,
    wp_modify, wp_pure, FreeList.Stock.wp_acquire]
  exact ⟨fun _ => ⟨fun _ _ _ _ => ⟨fun _ _ => rfl, fun _ _ => rfl⟩, fun _ => rfl⟩,
    fun _ => ⟨fun _ _ => rfl, fun _ _ => rfl⟩⟩

theorem keepsTracker_perform : ∀ op : Op, (∀ spec, op ≠ .run spec) → KeepsTracker (perform cfg o op)
  | .stop kill, _ => keepsTracker_stop kill
  | .oom, _ => keepsTracker_watchForOom
  | .limitMemory limits, _ => fun _ => wp_limitMemory limits (fun _ _ => rfl) fun _ _ _ _ => rfl
  | .limitBandwidth limits, _ => fun s => by
    simp only [perform, limitBandwidth, update, wp_bind, wp_get, wp_zoom, wp_call, wp_modify]
    exact ⟨fun _ _ => rfl, fun _ _ => rfl⟩
  | .limitDisk limits, _ => fun s => by
    simp only [perform, limitDisk, update, wp_bind, wp_get, wp_zoom, wp_call, wp_modify]
    exact ⟨fun _ _ => rfl, fun _ _ => rfl⟩
  | .limitCPU limits, _ => fun s => by
    simp only [perform, limitCPU, update, wp_bind, wp_get, wp_zoom, wp_call, wp_modify]
    exact ⟨fun _ _ => rfl, fun _ _ => rfl⟩
  | .netIn hostPort containerPort, _ => fun s => by
    rw [perform, wp_bind]
    exact keepsTracker_netIn hostPort containerPort s
  | .netOut network port, _ => fun s => by
    simp only [perform, netOut, update, wp_bind, wp_ensure, wp_get, wp_zoom, wp_call, wp_modify]
    exact ⟨fun _ => ⟨fun _ _ => rfl, fun _ _ => rfl⟩, fun _ => trivial⟩
  | .run spec, hop => absurd rfl (hop spec)

/-- The spawn of a `Run` in the cell becomes ready. -/
def SpawnReady (o : Oracle) (s : Cell) (spec : ProcessSpec) : Prop :=
  ∃ log, ProcessTracker.spawnReady o (ProcessTracker.spawnCmd s.container.path
    s.container.processTracker.nextProcessID (wshCmd s.container spec) spec.tty) s.log = .ok () log

/-- **An operation leaves every process linked**, if its spawn becomes ready. -/
theorem linked_perform {s : Cell} (op : Op) (hready : ∀ spec, op = .run spec → SpawnReady o s spec)
    (hall : s.container.processTracker.AllLinked) :
    wp (perform cfg o op) (fun _ s' => s'.container.processTracker.AllLinked)
      (fun _ s' => s'.container.processTracker.AllLinked) s := by
  by_cases hop : ∃ spec, op = .run spec
  · obtain ⟨spec, rfl⟩ := hop
    obtain ⟨log, hlog⟩ := hready spec rfl
    rw [perform, wp_bind, run, wp_bind, wp_get, wp_zoom]
    exact ProcessTracker.wp_run_linked (s := Cell.tracked.get s) hlog hall
  · exact wp_mono (keepsTracker_perform op (fun spec h => hop ⟨spec, h⟩) s)
      (fun _ s' hs => hs ▸ hall) fun _ s' hs => hs ▸ hall

end

end LinuxContainer

namespace LinuxBackend

variable {cfg : Config} {o : Oracle} {b : LinuxBackend}

/-- If the request is a `Run`, its spawn becomes ready. -/
def SpawnReady (o : Oracle) (b : LinuxBackend) (r : Request) : Prop :=
  ∀ i spec, r = .container i (.run spec) → LinuxContainer.SpawnReady o ((object i).get b) spec

/-- Every tracked process of every object is linked. -/
def AllLinked (b : LinuxBackend) : Prop := ∀ i, (b.container i).processTracker.AllLinked

theorem allLinked_of_le {i : ℕ} (hi : b.heap.length ≤ i) :
    (b.container i).processTracker.AllLinked := by
  have hdefault : b.container i = default := by simp [container, hi]
  rw [hdefault]
  exact ProcessTracker.allLinked_new

theorem allLinked_append {b' : LinuxBackend} {c : LinuxContainer} (h : b.AllLinked)
    (hh : b'.heap = b.heap ++ [c]) (hc : c.processTracker = .new) : b'.AllLinked := by
  intro i
  rcases Nat.lt_or_ge i b'.heap.length with hi | hi
  · rcases container_append_cases hh hi with ⟨-, he⟩ | ⟨-, he⟩
    · rw [he, hc]
      exact ProcessTracker.allLinked_new
    · rw [he]
      exact h i
  · exact allLinked_of_le hi

/-- **One request.** -/
theorem linked_serve (h : b.AllLinked) {r : Request} (hr : SpawnReady o b r) :
    (serve cfg o b r).AllLinked := by
  cases r with
  | create spec =>
    have hcases := create_cases cfg o b spec
    simp only [serve]
    generalize final (create cfg o spec b) = b' at hcases ⊢
    cases hcases with
    | refused e p _ he => exact he ▸ h
    | orphaned c p e log hp _ he =>
      obtain ⟨u, n, -, hc⟩ := wp_of_ok (LinuxContainerPool.create_cases spec) hp
      subst he
      exact allLinked_append h rfl (by rw [hc]; rfl)
    | registered c p r log hp _ he =>
      obtain ⟨u, n, -, hc⟩ := wp_of_ok (LinuxContainerPool.create_cases spec) hp
      subst he
      exact allLinked_append h rfl (by rw [hc]; rfl)
  | destroy handle =>
    exact wp_final (P := AllLinked) (wp_destroy handle (fun _ _ _ => h) fun _ _ => h)
  | container i op =>
    simp only [serve]
    split_ifs with hi
    · refine wp_final (P := AllLinked) ?_
      have hset : ∀ cell : Cell, cell.container.processTracker.AllLinked →
          ((object i).set cell b).AllLinked := by
        intro cell hcell j
        rcases container_set_cases hi cell j with ⟨-, hje⟩ | hje
        · exact hje ▸ hcell
        · exact hje ▸ h j
      rw [wp_zoom]
      exact wp_mono (LinuxContainer.linked_perform op (fun spec hop => hr i spec (by rw [hop])) (h i))
        (fun _ cell => hset cell) fun _ cell => hset cell
    · exact h

/-- **All requests.** -/
theorem linked_serveAll : ∀ (rs : List Request) {b : LinuxBackend}, b.AllLinked →
    eachStep (serve cfg o) (SpawnReady o) b rs → (serveAll cfg o rs b).AllLinked
  | [], _, h, _ => h
  | r :: rs, _, h, hready => by
    rw [serveAll_cons]
    exact linked_serveAll rs (linked_serve h hready.1) hready.2

theorem allLinked_new (pool : LinuxContainerPool) (path : String)
    (files : AList (fun _ : String => String)) : (new pool path files).AllLinked :=
  fun _ => allLinked_of_le (Nat.zero_le _)

/-- When no spawn fails, every `Run` becomes ready. -/
theorem spawnReady_of_spawns
    (ho : ∀ spawn log, ∃ log', ProcessTracker.spawnReady o spawn log = .ok () log') :
    ∀ (rs : List Request) (b : LinuxBackend), eachStep (serve cfg o) (SpawnReady o) b rs
  | [], _ => trivial
  | r :: rs, b => ⟨fun _ _ _ => ho _ _, spawnReady_of_spawns ho rs (serve cfg o b r)⟩

/-- **`Stop` never returns** once it comes to a container with a process that is not
    linked, and saves nothing more. -/
theorem stop_blocked {i : ℕ} (order : List ℕ) (hn : ¬ (b.container i).processTracker.AllLinked) :
    wp (stop cfg o (i :: order)) (fun _ _ => False)
      (fun e b' => e = .blocked ∧ b'.snapshots = b.snapshots) b := by
  rw [stop, each, wp_bind, wp_bind, wp_zoom]
  refine wp_mono (LinuxContainer.wp_cleanup_blocked hn) (fun _ _ h => h.elim) ?_
  rintro e cell ⟨rfl, -⟩
  exact ⟨rfl, rfl⟩

end LinuxBackend

end WardenLinux
