/-
  What an operation on a container that fails leaves behind (linux_container.go).

  Of all operations only `NetIn` does something to the mappings, the limits or the ports
  before its last point of failure: it takes a port from the pool and gives it to the
  container before `net.sh` is run.

  `failed_unchanged_iff`: a failed operation changes nothing, unless it was a
  `NetIn` that had taken a port.
-/
import WardenLinux.Container

namespace WardenLinux

open Fallible

namespace LinuxContainer

/-- `Start`, or an operation on a container that was started. -/
inductive Request where
  | start
  | op (op : Op)
  deriving DecidableEq, Repr

def serve (cfg : Config) (o : Oracle) : Request → EStateM Err Cell Unit
  | .start => start cfg o
  | .op op => perform cfg o op

/-- The container's state, mappings, permissions, limits and ports, and the free
    ports, are as before. -/
structure Unchanged (s s' : Cell) : Prop where
  state : s'.container.state = s.container.state
  netIns : s'.container.netIns = s.container.netIns
  netOuts : s'.container.netOuts = s.container.netOuts
  limits : s'.container.snapshot.limits = s.container.snapshot.limits
  ports : s'.container.resources.ports = s.container.resources.ports
  free : ∀ port, port ∈ s'.portPool.pool ↔ port ∈ s.portPool.pool

/-- The request takes a port from the pool. -/
def Request.TakesPort (s : Cell) : Request → Prop
  | op (.netIn hostPort _) => hostPort = 0 ∧ s.portPool.pool ≠ []
  | _ => False

variable {cfg : Config} {o : Oracle} {s : Cell}

/-- Only the log is longer. -/
theorem unchanged_log (s : Cell) (log : List Call) : Unchanged s { s with log := log } :=
  ⟨rfl, rfl, rfl, rfl, rfl, fun _ => Iff.rfl⟩

/-- An operation that makes one call first and fails only there. -/
theorem wp_call_then {x : EStateM Err Cell Unit} (c : Call)
    (hx : ∀ s, wp x (fun _ _ => True) (fun _ _ => False) s) :
    wp (do zoom Cell.calls (call o c); x) (fun _ _ => True) (fun _ s' => Unchanged s s') s := by
  simp only [wp_bind, wp_zoom, wp_call]
  refine ⟨fun _ _ => ?_, fun _ _ => unchanged_log s _⟩
  exact wp_mono (hx _) (fun _ _ h => h) (fun _ _ h => h.elim)

theorem wp_update_succeeds (f : LinuxContainer → LinuxContainer) (s : Cell) :
    wp (update f) (fun _ _ => True) (fun _ _ => False) s := trivial

theorem wp_start_failed : wp (start cfg o) (fun _ _ => True) (fun _ s' => Unchanged s s') s := by
  rw [start, wp_bind, wp_get]
  exact wp_call_then _ (wp_update_succeeds _)

theorem wp_stop_failed (kill : Bool) :
    wp (stop o kill) (fun _ _ => True) (fun _ s' => Unchanged s s') s := by
  rw [stop, wp_bind, wp_get]
  refine wp_call_then _ fun s => ?_
  rw [wp_bind]
  exact wp_stopOomNotifier fun log => wp_update_succeeds _ _

/-- The error of its `Stop` is dropped. -/
theorem wp_watchForOom_failed :
    wp (watchForOom o) (fun _ _ => True) (fun _ s' => Unchanged s s') s := by
  rw [watchForOom, wp_bind, registerEvent, update, wp_modify, wp_attempt]
  exact wp_any (fun _ _ => trivial) fun _ _ => trivial

theorem wp_limitMemory_failed (limits : MemoryLimits) :
    wp (limitMemory cfg o limits) (fun _ _ => True) (fun _ s' => Unchanged s s') s :=
  wp_limitMemory limits (fun _ _ => trivial) fun _ _ _ _ =>
    ⟨rfl, rfl, rfl, rfl, rfl, fun _ => Iff.rfl⟩

theorem wp_limitBandwidth_failed (limits : BandwidthLimits) :
    wp (limitBandwidth o limits) (fun _ _ => True) (fun _ s' => Unchanged s s') s := by
  rw [limitBandwidth, wp_bind, wp_get]
  exact wp_call_then _ (wp_update_succeeds _)

theorem wp_limitDisk_failed (limits : DiskLimits) :
    wp (limitDisk o limits) (fun _ _ => True) (fun _ s' => Unchanged s s') s := by
  rw [limitDisk, wp_bind, wp_get]
  exact wp_call_then _ (wp_update_succeeds _)

theorem wp_limitCPU_failed (limits : CPULimits) :
    wp (limitCPU o limits) (fun _ _ => True) (fun _ s' => Unchanged s s') s := by
  rw [limitCPU, wp_bind, wp_get]
  exact wp_call_then _ (wp_update_succeeds _)

theorem wp_netOut_failed (network : String) (port : UInt32) :
    wp (netOut cfg o network port) (fun _ _ => True) (fun _ s' => Unchanged s s') s := by
  rw [netOut, wp_bind, wp_ensure]
  refine ⟨fun _ => ?_, fun _ => unchanged_log s s.log⟩
  rw [wp_bind, wp_get]
  exact wp_call_then _ (wp_update_succeeds _)

theorem wp_run_failed (spec : ProcessSpec) :
    wp (run o spec) (fun _ _ => True) (fun _ s' => Unchanged s s') s := by
  rw [run, wp_bind, wp_get, wp_zoom]
  exact wp_any (fun _ _ => trivial) fun _ _ => ⟨rfl, rfl, rfl, rfl, rfl, fun _ => Iff.rfl⟩

/-- A `NetIn` that fails has kept the port that it took. -/
theorem wp_netIn_failed (hostPort containerPort : UInt32) :
    wp (netIn cfg o hostPort containerPort) (fun _ _ => True)
      (fun _ s' => Unchanged s s' ↔ ¬ (hostPort = 0 ∧ s.portPool.pool ≠ [])) s := by
  simp only [netIn, hostPortFor, PortPool.acquire, update, wp_bind, wp_ite, wp_get, wp_zoom,
    wp_call, wp_modify, wp_pure, FreeList.Stock.wp_acquire]
  refine ⟨fun h0 => ⟨fun port rest hpool _ => ⟨fun _ _ => trivial, fun _ _ => ?_⟩,
    fun hempty => ?_⟩, fun h0 => ⟨fun _ _ => trivial, fun _ _ => ?_⟩⟩
  · -- `net.sh` fails after the port went to the container
    have hne : s.portPool.pool ≠ [] := by
      intro he
      have hpool' : s.portPool.pool = port :: rest := hpool
      rw [he] at hpool'
      cases hpool'
    refine iff_of_false (fun hu => ?_) (fun hn => hn ⟨h0, hne⟩)
    have hports : s.container.resources.ports ++ [port] = s.container.resources.ports := hu.ports
    simp at hports
  · exact iff_of_true (unchanged_log s s.log) fun hn => hn.2 hempty
  · exact iff_of_true (unchanged_log s _) fun hn => h0 hn.1

/-- **When a failed operation changes nothing**: iff it has not taken a port. -/
theorem failed_unchanged_iff {r : Request} {e : Err} {s' : Cell}
    (h : serve cfg o r s = .error e s') : Unchanged s s' ↔ ¬ r.TakesPort s := by
  have key : wp (serve cfg o r) (fun _ _ => True)
      (fun _ s' => Unchanged s s' ↔ ¬ r.TakesPort s) s := by
    have harmless : ∀ {x : EStateM Err Cell Unit}, ¬ r.TakesPort s →
        wp x (fun _ _ => True) (fun _ s' => Unchanged s s') s →
        wp x (fun _ _ => True) (fun _ s' => Unchanged s s' ↔ ¬ r.TakesPort s) s :=
      fun hr hx => wp_mono hx (fun _ _ h => h) fun _ _ hu => iff_of_true hu hr
    cases r with
    | start => exact harmless not_false wp_start_failed
    | op op =>
      rw [serve]
      cases op with
      | stop kill => exact harmless not_false (wp_stop_failed kill)
      | oom => exact harmless not_false wp_watchForOom_failed
      | limitMemory limits => exact harmless not_false (wp_limitMemory_failed limits)
      | limitBandwidth limits => exact harmless not_false (wp_limitBandwidth_failed limits)
      | limitDisk limits => exact harmless not_false (wp_limitDisk_failed limits)
      | limitCPU limits => exact harmless not_false (wp_limitCPU_failed limits)
      | netIn hostPort containerPort =>
        rw [perform, wp_bind]
        exact wp_netIn_failed hostPort containerPort
      | netOut network port => exact harmless not_false (wp_netOut_failed network port)
      | run spec =>
        refine harmless not_false ?_
        rw [perform, wp_bind]
        exact wp_run_failed spec
  exact (wp_of_error key h :)

/-- A container with one free port. -/
def onePort : Cell where
  container := new "some-id" "some-handle" "/depot/some-id" [] 0
    ⟨10000, ⟨⟨[10, 0, 0, 0], 30⟩, [], []⟩, []⟩
  portPool := ⟨61001, 1, [61001], by simp, by simp⟩
  log := []

/-- Every command fails. -/
def runsFail : Oracle := .failing fun
  | .run _ => true
  | _ => false

/-- A `Stop` that fails leaves a container with a free port as it was. -/
theorem failed_stop_unchanged : ∃ e s',
    serve .plain runsFail (.op (.stop false)) onePort = .error e s' ∧ Unchanged onePort s' := by
  refine ⟨.external "oh no!", _, rfl, ?_⟩
  have hfail : serve .plain runsFail (.op (.stop false)) onePort = .error (.external "oh no!") _ := rfl
  exact (failed_unchanged_iff hfail).2 not_false

/-- A `NetIn` without a host port whose `net.sh` fails: the free port is lost. -/
theorem failed_netIn_keeps_port : ∃ e s',
    serve .plain runsFail (.op (.netIn 0 8080)) onePort = .error e s' ∧
      s'.container.resources.ports = [61001] ∧ s'.portPool.pool = [] ∧ ¬ Unchanged onePort s' := by
  refine ⟨.external "oh no!", _, rfl, rfl, rfl, fun hu => ?_⟩
  exact absurd hu.ports (by decide)

end LinuxContainer

end WardenLinux
