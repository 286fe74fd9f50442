/-
  What the daemon asks of the outside, and the requests it serves
  (garden/warden).

  Every external command, file operation and call of a rootfs provider or of a
  resource manager is a `Call`.  Its outcome is chosen by an `Oracle`, which
  may let it depend on all calls made before: a statement for every oracle is
  one for every choice of success and failure.  `call` asks the oracle and
  records the call, so that a log tells what was run.
-/
import WardenLinux.Lib.Fallible
import WardenLinux.Network

namespace WardenLinux

open Fallible

/-! ## Errors -/

/-- The errors the daemon makes itself, and those it gets from a call. -/
inductive Err where
  /-- `uid_pool.PoolExhaustedError` -/
  | uidPoolExhausted
  /-- `UIDTakenError` -/
  | uidTaken (uid : UInt32)
  /-- `network_pool.PoolExhaustedError` -/
  | networkPoolExhausted
  /-- `NetworkTakenError` -/
  | networkTaken (network : Network)
  /-- `port_pool.PoolExhaustedError` -/
  | portPoolExhausted
  /-- `PortTakenError` -/
  | portTaken (port : UInt32)
  /-- `ErrUnknownRootFSProvider` -/
  | unknownRootFSProvider
  /-- `UnknownHandleError` -/
  | unknownHandle (handle : String)
  /-- the error of `NetOut` without a network and a port -/
  | netOutUnspecified
  /-- an error of a call -/
  | external (text : String)
  /-- no error: what was called never returns, and nothing after it is done -/
  | blocked
  deriving DecidableEq, Repr

/-! ## Paths (Go's `path`) -/

/-- The elements of `path.Clean`, the last one first: empty elements and `.`
    are dropped, `..` takes back the element before it, and at the root it
    stays there. -/
def cleanElems (rooted : Bool) : List String → List String → List String
  | out, [] => out
  | out, s :: ss =>
    if s = "" ∨ s = "." then cleanElems rooted out ss
    else if s = ".." then
      match out with
      | [] => cleanElems rooted (if rooted then [] else [".."]) ss
      | o :: os => cleanElems rooted (if o = ".." then ".." :: o :: os else os) ss
    else cleanElems rooted (s :: out) ss

/-- `path.Clean` -/
def pathClean (p : String) : String :=
  let rooted := p.startsWith "/"
  let body := "/".intercalate (cleanElems rooted [] (p.splitOn "/")).reverse
  if rooted then "/" ++ body else if body = "" then "." else body

/-- `path.Join` -/
def pathJoin (elems : List String) : String :=
  match elems.filter (· ≠ "") with
  | [] => ""
  | es => pathClean ("/".intercalate es)

/-- `path.Dir` -/
def pathDir (p : String) : String :=
  match (p.splitOn "/").dropLast with
  | [] => "."
  | es => pathClean ("/".intercalate es ++ "/")

/-! ## Limits -/

/-- `warden.BandwidthLimits` -/
structure BandwidthLimits where
  rateInBytesPerSecond : UInt64
  burstRateInBytesPerSecond : UInt64
  deriving DecidableEq, Repr

/-- `warden.DiskLimits` -/
structure DiskLimits where
  blockSoft : UInt64
  blockHard : UInt64
  inodeSoft : UInt64
  inodeHard : UInt64
  byteSoft : UInt64
  byteHard : UInt64
  deriving DecidableEq, Repr

/-- `warden.MemoryLimits` -/
structure MemoryLimits where
  limitInBytes : UInt64
  deriving DecidableEq, Repr

/-- `warden.CPULimits` -/
structure CPULimits where
  limitInShares : UInt64
  deriving DecidableEq, Repr

/-! ## Requests -/

/-- `warden.BindMountMode`; every other number is read as `ro`. -/
inductive BindMountMode where
  | ro
  | rw
  deriving DecidableEq, Repr

/-- `warden.BindMountOrigin`; every other number is read as `host`. -/
inductive BindMountOrigin where
  | host
  | container
  deriving DecidableEq, Repr

/-- `warden.BindMount` -/
structure BindMount where
  srcPath : String
  dstPath : String
  mode : BindMountMode
  origin : BindMountOrigin
  deriving DecidableEq, Repr

/-- `warden.Properties` -/
abbrev Properties := List (String × String)

/-- `warden.ContainerSpec`, without the field `Network`, which nothing reads.
    The grace time is in nanoseconds. -/
structure ContainerSpec where
  handle : String
  graceTime : ℤ
  rootFSPath : String
  bindMounts : List BindMount
  properties : Properties
  deriving DecidableEq, Repr

/-- A request without a handle. -/
def ContainerSpec.bare : ContainerSpec := ⟨"", 0, "/rootfs", [], []⟩

/-- The parts of a `url.URL` that the rootfs providers read. -/
structure URL where
  scheme : String
  path : String
  fragment : String
  deriving DecidableEq, Repr

/-! ## Calls -/

/-- `exec.Cmd` -/
structure Cmd where
  path : String
  args : List String := []
  env : List String := []
  deriving DecidableEq, Repr

inductive Call where
  /-- `runner.Run` -/
  | run (cmd : Cmd)
  /-- `runner.Start` -/
  | start (cmd : Cmd)
  /-- `runner.Kill` -/
  | kill (cmd : Cmd)
  /-- `runner.Signal` with an interrupt -/
  | interrupt (cmd : Cmd)
  /-- `cmd.StdoutPipe` -/
  | stdoutPipe (cmd : Cmd)
  /-- `runner.Background` -/
  | background (cmd : Cmd)
  /-- the wait for a line of a command's output, counted from 0 -/
  | readLine (cmd : Cmd) (n : ℕ)
  /-- `provider.ProvideRootFS`, of the provider registered for the scheme -/
  | provideRootFS (scheme id : String) (url : URL)
  /-- `provider.CleanupRootFS` -/
  | cleanupRootFS (scheme id : String)
  /-- `ioutil.ReadFile` -/
  | readFile (path : String)
  /-- `ioutil.WriteFile` -/
  | writeFile (path content : String)
  /-- `os.MkdirAll` -/
  | mkdirAll (path : String)
  /-- `ioutil.ReadDir` -/
  | readDir (path : String)
  /-- `os.Stat` -/
  | stat (path : String)
  /-- `os.RemoveAll` -/
  | removeAll (path : String)
  /-- `os.Create`, with what is then written and the `Close` -/
  | saveFile (path content : String)
  /-- `cgroupsManager.Set` of the container with this ID -/
  | cgroupsSet (id subsystem name value : String)
  /-- `bandwidthManager.SetLimits` -/
  | bandwidthSetLimits (id : String) (limits : BandwidthLimits)
  /-- `quotaManager.SetLimits` -/
  | quotaSetLimits (uid : UInt32) (limits : DiskLimits)
  deriving DecidableEq, Repr

/-- What a call that succeeds may return: a path or the content of a file, the
    names in a directory. -/
structure Answer where
  text : String := ""
  names : List String := []
  deriving DecidableEq, Repr

/-- The outcome of a call after the given calls. -/
abbrev Oracle := List Call → Call → Except Err Answer

/-- Make a call. -/
def ask (o : Oracle) (c : Call) : EStateM Err (List Call) Answer := fun log =>
  match o log c with
  | .ok r => .ok r (log ++ [c])
  | .error e => .error e (log ++ [c])

/-- Make a call for its effect. -/
def call (o : Oracle) (c : Call) : EStateM Err (List Call) Unit := do
  let _ ← ask o c

section
variable {o : Oracle} {c : Call} {log : List Call} {E : Err → List Call → Prop}

@[simp] theorem wp_ask {Q : Answer → List Call → Prop} :
    wp (ask o c) Q E log ↔
      (∀ r, o log c = .ok r → Q r (log ++ [c])) ∧ (∀ e, o log c = .error e → E e (log ++ [c])) := by
  rcases h : o log c with e | r
  · have hc : ask o c log = .error e (log ++ [c]) := by simp only [ask, h]
    rw [wp_error hc]; simp
  · have hc : ask o c log = .ok r (log ++ [c]) := by simp only [ask, h]
    rw [wp_ok hc]; simp

@[simp] theorem wp_call {Q : Unit → List Call → Prop} :
    wp (call o c) Q E log ↔
      (∀ r, o log c = .ok r → Q () (log ++ [c])) ∧
        (∀ e, o log c = .error e → E e (log ++ [c])) := by
  simp only [call, wp_bind, wp_ask, wp_pure]

end

/-- The calls with `bad` fail, the others succeed. -/
def Oracle.failing (bad : Call → Bool) : Oracle := fun _ c =>
  if bad c then .error (.external "oh no!") else .ok {}

/-- The call with the given number fails, the others succeed. -/
def Oracle.failingAt (n : ℕ) : Oracle := fun log _ =>
  if log.length = n then .error (.external "oh no!") else .ok {}

/-- No call fails. -/
def Oracle.quiet : Oracle := .failing fun _ => false

/-- Every call succeeds. -/
def Oracle.Succeeds (o : Oracle) : Prop := ∀ log c, ∃ r, o log c = .ok r

theorem Oracle.not_succeeds {o : Oracle} {log : List Call} {c : Call} {e : Err}
    (h : o log c = .error e) : ¬ o.Succeeds := fun hs => by
  obtain ⟨r, hr⟩ := hs log c
  rw [h] at hr; cases hr

end WardenLinux
