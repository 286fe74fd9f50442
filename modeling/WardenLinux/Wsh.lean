/-
  The way of a process specification into the container: the arguments that
  `Run` gives to `wsh` (linux_container.go), the options of `wsh` (wsh.c), the
  request it sends (msg.c), and what the child of `wshd` makes of it (wshd.c).

  `run_delivers_iff`: the process is executed with the path, the arguments, the
  environment, the user and the directory of the specification iff the path does
  not begin with `-`.

  The options are parsed with two counters, of which the second is what is left
  of the arguments (`getoptFrom`).  The strings are packed into a buffer and read
  back (`export_import`), and the environment is extended in place (`envAdd`).
-/
import Mathlib.Data.List.ReduceOption
import WardenLinux.Lib.CString
import WardenLinux.Rlimits

namespace WardenLinux

open CString

namespace Wsh

/-! ## Options -/

/-- `wsh_t` -/
structure Options where
  argv : List CStr := []
  environmentVariables : List CStr := []
  socketPath : Option CStr := none
  user : Option CStr := none
  dir : Option CStr := none

/-- What comes of `wsh__getopt`: the options, the return of -1 with which
    `main` exits, or a failed assertion. -/
inductive Getopt where
  | ok (w : Options)
  | exit
  | abort

def dash : UInt8 := '-'.toNat.toUInt8

/-- The inner loop of `--rsh`: `[-46dn] [-l username] [-t timeout]`.  Without a
    result the option is invalid. -/
def rshLoop (argv : List CStr) (i : ℕ) (j : ℤ) (w : Options) : Option (ℕ × ℤ × Options) :=
  if h : i < argv.length then
    let arg := argv[i]
    if arg.char 0 ≠ dash then some (i, j, w)
    else if j ≥ 1 ∧ arg.strlen = 2 ∧ arg.char 1 ∈ (CStr.lit "46dn").bytes then
      rshLoop argv (i + 1) (j - 1) w
    else if j ≥ 2 ∧ arg.strlen = 2 ∧ arg.char 1 = 'l'.toNat.toUInt8 then
      rshLoop argv (i + 2) (j - 2) { w with user := argv[i + 1]? }
    else if j ≥ 2 ∧ arg.strlen = 2 ∧ arg.char 1 = 't'.toNat.toUInt8 then
      rshLoop argv (i + 2) (j - 2) w
    else none
  else some (i, j, w)
termination_by argv.length - i

theorem rshLoop_le {argv : List CStr} {i i' : ℕ} {j j' : ℤ} {w w' : Options}
    (h : rshLoop argv i j w = some (i', j', w')) : i ≤ i' := by
  fun_induction rshLoop argv i j w with
  | case1 i j w hi arg hd => cases h; exact le_rfl
  | case2 i j w hi arg hd hc ih => exact (Nat.le_succ i).trans (ih h)
  | case3 i j w hi arg hd hc hl ih => exact (Nat.le_add_right i 2).trans (ih h)
  | case4 i j w hi arg hd hc hl ht ih => exact (Nat.le_add_right i 2).trans (ih h)
  | case5 => cases h
  | case6 => cases h; exact le_rfl

/-- The loop of `wsh__getopt`; `j` is what is left of the arguments. -/
def getoptLoop (argv : List CStr) (i : ℕ) (j : ℤ) (w : Options) : Getopt :=
  if h : i < argv.length then
    let arg := argv[i]
    if arg.char 0 ≠ dash then .ok { w with argv := argv.drop i }
    else if j ≥ 1 ∧ (arg = .lit "-h" ∨ arg = .lit "--help") then .exit
    else if j ≥ 2 ∧ arg = .lit "--socket" then
      getoptLoop argv (i + 2) (j - 2) { w with socketPath := argv[i + 1]? }
    else if j ≥ 2 ∧ arg = .lit "--user" then
      getoptLoop argv (i + 2) (j - 2) { w with user := argv[i + 1]? }
    else if j ≥ 2 ∧ arg = .lit "--dir" then
      getoptLoop argv (i + 2) (j - 2) { w with dir := argv[i + 1]? }
    else if j ≥ 2 ∧ arg = .lit "--env" then
      getoptLoop argv (i + 2) (j - 2)
        { w with environmentVariables := w.environmentVariables ++ argv[i + 1]?.toList }
    else if j ≥ 1 ∧ arg = .lit "--rsh" then
      match h' : rshLoop argv (i + 1) (j - 1) w with
      | none => .exit
      | some (i', j', w') =>
        -- the host is skipped
        if i' < argv.length then getoptLoop argv (i' + 1) (j' - 1) w' else .abort
    else .exit
  else .ok { w with argv := argv.drop i }
termination_by argv.length - i
decreasing_by
  all_goals try omega
  have hle := rshLoop_le h'
  omega

/-- `wsh__getopt` -/
def wshGetopt (argv : List CStr) : Getopt := getoptLoop argv 1 (argv.length - 1) {}

/-! ## The request -/

/-- `msg__array_t` -/
structure MsgArray where
  count : ℕ
  buf : List UInt8

/-- The size of the buffer. -/
def msgArraySize : ℕ := 8 * 1024

/-- The loop of `msg_array_import`, with the offset. -/
def importLoop (off : ℕ) (buf : List UInt8) : List CStr → Option (List UInt8)
  | [] => some buf
  | s :: ptr =>
    if msgArraySize - off < s.strlen + 1 then none
    else importLoop (off + s.strlen + 1) (memcpy buf off s.bytes) ptr

/-- `msg_array_import`; without a result there is too much data. -/
def msgArrayImport (ptr : List CStr) : Option MsgArray := do
  let buf ← importLoop 0 (List.replicate msgArraySize 0) ptr
  return ⟨ptr.length, buf⟩

/-- The loop of `msg_array_export`, with the offset and what is left of
    `count`. -/
def exportLoop (buf : List UInt8) (off : ℕ) : ℕ → Option (List CStr)
  | 0 => some []
  | count + 1 => do
    let s ← read buf off
    let ptr ← exportLoop buf (off + s.strlen + 1) count
    return s :: ptr

/-- `msg_array_export` -/
def msgArrayExport (a : MsgArray) : Option (List CStr) := exportLoop a.buf 0 a.count

/-- `snprintf(buf, size, "%s", s)` into a zeroed buffer, with the assertion that
    the string fits. -/
def snprintf (size : ℕ) (s : CStr) : Option (List UInt8) :=
  if s.strlen < size then some (memcpy (List.replicate size 0) 0 s.bytes) else none

/-- `msg_user_import` and `msg_dir_import` -/
def msgStringImport (size : ℕ) : Option CStr → Option (List UInt8)
  | none => some (List.replicate size 0)
  | some s => snprintf size s

/-- `msg_request_t`, without its version -/
structure Request where
  tty : Bool
  arg : MsgArray
  env : MsgArray
  rlim : List Rlim
  user : List UInt8
  dir : List UInt8

/-- The request that `main` sends. -/
def request (tty : Bool) (environ : List String) (w : Options) : Option Request := do
  let dir ← msgStringImport 1024 w.dir
  let arg ← msgArrayImport w.argv
  let env ← msgArrayImport w.environmentVariables
  let rlim ← msgRlimitImport environ
  let user ← msgStringImport 32 w.user
  return { tty, arg, env, rlim, user, dir }

/-! ## The child -/

/-- `struct passwd` of pwd.h, as far as the child uses it -/
structure Passwd where
  name : CStr
  uid : UInt16
  gid : UInt16
  dir : CStr
  shell : CStr
  deriving DecidableEq

/-- The users of the container, and which calls of the child succeed. -/
structure Os where
  getpwnam : CStr → Option Passwd
  setrlimit : Rlim → Bool
  setgid : UInt32 → Bool
  setuid : UInt32 → Bool
  chdir : CStr → Bool

/-- The pointers to strings, and the null pointer that ends them. -/
def nullTerminated (ptr : List CStr) : List (Option CStr) := ptr.map some ++ [none]

/-- The strings up to the null pointer. -/
def pointers (ptr : List (Option CStr)) : List CStr := (ptr.takeWhile Option.isSome).reduceOption

/-- `env__add`: `envp` ends with a null pointer, or is one. -/
def envAdd (envp : Option (List (Option CStr))) (key value : CStr) : List (Option CStr) :=
  let buf := (key.append (.lit "=")).append value
  match envp with
  | none => [some buf, none]
  | some envp =>
    let envplen := envp.idxOf none + 1
    ((envp ++ [none]).set (envplen - 1) (some buf)).set envplen none

/-- `child_setup_environment` -/
def childSetupEnvironment (os : Os) (pw : Passwd) (extra : Option (List (Option CStr))) :
    Option (List (Option CStr)) :=
  if os.chdir pw.dir then
    let envp := envAdd extra (.lit "HOME") pw.dir
    let envp := envAdd envp (.lit "USER") pw.name
    if pw.uid = 0 then
      some (envAdd envp (.lit "PATH")
        (.lit "/usr/local/sbin:/usr/local/bin:/usr/sbin:/usr/bin:/sbin:/bin"))
    else some (envAdd envp (.lit "PATH") (.lit "/usr/local/bin:/usr/bin:/bin"))
  else none

/-- What is executed, by whom, and after which changes of the directory. -/
structure Exec where
  argv : List CStr
  envp : List CStr
  uid : UInt32
  gid : UInt32
  chdirs : List CStr
  deriving DecidableEq

/-- The command; without one, the shell of the user. -/
def childArgv (pw : Passwd) (arg : MsgArray) : Option (List CStr) :=
  if arg.count ≠ 0 then msgArrayExport arg
  else some [if pw.shell.strlen ≠ 0 then pw.shell else .lit "/bin/sh"]

/-- The variables of the request; without any, a null pointer. -/
def childExtra (env : MsgArray) : Option (Option (List (Option CStr))) :=
  if env.count ≠ 0 then (msgArrayExport env).map fun ptr => some (nullTerminated ptr) else some none

/-- `child_fork`, in the child, up to `execvpe`.  Without a result the child
    exits. -/
def childFork (os : Os) (req : Request) : Option Exec := do
  let name ← read req.user 0
  let pw ← os.getpwnam (if name.strlen = 0 then .lit "root" else name)
  let argv ← childArgv pw req.arg
  guard (req.rlim.all os.setrlimit)
  guard (os.setgid pw.gid.toUInt32 && os.setuid pw.uid.toUInt32)
  let extra ← childExtra req.env
  let envp ← childSetupEnvironment os pw extra
  let dir ← read req.dir 0
  guard (dir.strlen = 0 || os.chdir dir)
  return {
    argv
    envp := pointers envp
    uid := pw.uid.toUInt32
    gid := pw.gid.toUInt32
    chdirs := pw.dir :: if dir.strlen = 0 then [] else [dir] }

/-- What is executed in the container for the arguments of `wsh`. -/
def deliver (os : Os) (tty : Bool) (environ : List String) (argv : List CStr) : Option Exec :=
  match wshGetopt argv with
  | .ok w => do
    let req ← request tty environ w
    childFork os req
  | .exit | .abort => none

/-! ## The specification -/

/-- The part of `warden.ProcessSpec` that goes into the container as strings. -/
structure Spec where
  path : CStr
  args : List CStr
  env : List CStr
  dir : CStr
  privileged : Bool

/-- The user of a process. -/
def Spec.user (spec : Spec) : CStr := if spec.privileged then .lit "root" else .lit "vcap"

/-- The arguments that `Run` gives to `wsh`. -/
def runArgs (sockPath : CStr) (spec : Spec) : List CStr :=
  [.lit "--socket", sockPath, .lit "--user", spec.user] ++
    spec.env.flatMap (fun envVar => [.lit "--env", envVar]) ++
    (if spec.dir ≠ .lit "" then [.lit "--dir", spec.dir] else []) ++ [spec.path] ++ spec.args

/-! ## Packing -/

/-- The strings fit a buffer. -/
def Fits (ptr : List CStr) : Prop := (packed ptr).length ≤ msgArraySize

theorem importLoop_zeros (ptr : List CStr) (pre : List UInt8) {k : ℕ}
    (hsize : pre.length + k = msgArraySize) (hfits : (packed ptr).length ≤ k) :
    importLoop pre.length (pre ++ List.replicate k 0) ptr =
      some (pre ++ (packed ptr ++ List.replicate (k - (packed ptr).length) 0)) := by
  induction ptr generalizing pre k with
  | nil => rfl
  | cons s ptr ih =>
    simp only [packed_cons, List.length_append, List.length_cons] at hfits
    -- the string and its NUL, which is there already
    obtain ⟨k', rfl⟩ : ∃ k', k = s.bytes.length + (k' + 1) := ⟨k - s.bytes.length - 1, by omega⟩
    have hbuf : memcpy (pre ++ List.replicate (s.bytes.length + (k' + 1)) 0) pre.length s.bytes =
        (pre ++ s.bytes ++ [0]) ++ List.replicate k' 0 := by
      rw [memcpy_zeros, Nat.add_sub_cancel_left, List.replicate_succ]
      simp
    have hoff : pre.length + s.strlen + 1 = (pre ++ s.bytes ++ [0]).length := by
      simp [CStr.strlen, Nat.add_assoc]
    rw [importLoop, if_neg (by simp only [CStr.strlen]; omega), hbuf, hoff,
      ih _ (by rw [← hoff, CStr.strlen]; omega) (by omega)]
    simp only [packed_cons, List.append_assoc, List.cons_append, List.nil_append,
      List.length_append, List.length_cons]
    congr 6
    omega

theorem exportLoop_packed (ptr : List CStr) (pre post : List UInt8) :
    exportLoop (pre ++ (packed ptr ++ post)) pre.length ptr.length = some ptr := by
  induction ptr generalizing pre with
  | nil => rfl
  | cons s ptr ih =>
    have hbuf : pre ++ (packed (s :: ptr) ++ post) =
        (pre ++ s.bytes ++ [0]) ++ (packed ptr ++ post) := by simp
    have hread : read (pre ++ (packed (s :: ptr) ++ post)) pre.length = some s := by
      rw [packed_cons, List.append_assoc, List.cons_append]
      exact read_append pre s _
    have hoff : pre.length + s.strlen + 1 = (pre ++ s.bytes ++ [0]).length := by
      simp [CStr.strlen, Nat.add_assoc]
    rw [List.length_cons, exportLoop, hread]
    simp only [Option.bind_eq_bind, Option.bind_some]
    rw [hoff, hbuf, ih]
    rfl

/-- What is packed is unpacked. -/
theorem export_import {ptr : List CStr} (h : Fits ptr) :
    ∃ a, msgArrayImport ptr = some a ∧ a.count = ptr.length ∧ msgArrayExport a = some ptr := by
  have himport := importLoop_zeros ptr [] (k := msgArraySize) (by simp) h
  simp only [List.nil_append, List.length_nil] at himport
  refine ⟨⟨ptr.length, _⟩, by rw [msgArrayImport, himport]; rfl, rfl, ?_⟩
  exact exportLoop_packed ptr [] _

theorem read_snprintf {size : ℕ} {s : CStr} (h : s.strlen < size) :
    ∃ buf, snprintf size s = some buf ∧ read buf 0 = some s := by
  refine ⟨_, if_pos h, ?_⟩
  obtain ⟨k, rfl⟩ : ∃ k, size = s.bytes.length + (k + 1) :=
    ⟨size - s.bytes.length - 1, by rw [CStr.strlen] at h; omega⟩
  have hbuf := memcpy_zeros [] s.bytes (s.bytes.length + (k + 1))
  rw [Nat.add_sub_cancel_left, List.replicate_succ] at hbuf
  exact hbuf ▸ read_append [] s _

/-! ## Parsing -/

section
variable (pre : List CStr) (v : CStr) (rest : List CStr) (w : Options)

/-- The loop at the end of `pre`; the second counter is what is left. -/
def getoptFrom : Getopt := getoptLoop (pre ++ rest) pre.length rest.length w

theorem length_option (opt : CStr) : ((opt :: v :: rest).length : ℤ) = rest.length + 2 := by
  simp only [List.length_cons]
  omega

theorem getoptFrom_socket :
    getoptFrom pre (.lit "--socket" :: v :: rest) w =
      getoptFrom (pre ++ [.lit "--socket", v]) rest { w with socketPath := some v } := by
  rw [getoptFrom, length_option, getoptLoop]
  simp +decide [getoptFrom]

theorem getoptFrom_user :
    getoptFrom pre (.lit "--user" :: v :: rest) w =
      getoptFrom (pre ++ [.lit "--user", v]) rest { w with user := some v } := by
  rw [getoptFrom, length_option, getoptLoop]
  simp +decide [getoptFrom]

theorem getoptFrom_dir :
    getoptFrom pre (.lit "--dir" :: v :: rest) w =
      getoptFrom (pre ++ [.lit "--dir", v]) rest { w with dir := some v } := by
  rw [getoptFrom, length_option, getoptLoop]
  simp +decide [getoptFrom]

theorem getoptFrom_env :
    getoptFrom pre (.lit "--env" :: v :: rest) w =
      getoptFrom (pre ++ [.lit "--env", v]) rest
        { w with environmentVariables := w.environmentVariables ++ [v] } := by
  rw [getoptFrom, length_option, getoptLoop]
  simp +decide [getoptFrom]

theorem getoptFrom_envs (env : List CStr) :
    ∃ pre', getoptFrom pre (env.flatMap (fun e => [.lit "--env", e]) ++ rest) w =
      getoptFrom pre' rest { w with environmentVariables := w.environmentVariables ++ env } := by
  induction env generalizing pre w with
  | nil => exact ⟨pre, by simp⟩
  | cons e env ih =>
    rw [List.flatMap_cons, List.append_assoc, List.cons_append, List.cons_append, List.nil_append,
      getoptFrom_env]
    obtain ⟨pre', h⟩ := ih (pre ++ [.lit "--env", e])
      { w with environmentVariables := w.environmentVariables ++ [e] }
    exact ⟨pre', by rw [h]; simp⟩

variable {pre v rest w}

/-- What is not an option begins the command. -/
theorem getoptFrom_command (hv : v.char 0 ≠ dash) :
    getoptFrom pre (v :: rest) w = .ok { w with argv := v :: rest } := by
  rw [getoptFrom, getoptLoop]
  simp [hv]

theorem getoptLoop_length {argv : List CStr} {i : ℕ} {j : ℤ} {w w' : Options}
    (h : getoptLoop argv i j w = .ok w') : w'.argv.length ≤ argv.length - i := by
  fun_induction getoptLoop argv i j w with
  | case1 => cases h; simp
  | case2 => cases h
  | case3 i j w hi arg _ _ _ ih => exact (ih h).trans (by omega)
  | case4 i j w hi arg _ _ _ _ ih => exact (ih h).trans (by omega)
  | case5 i j w hi arg _ _ _ _ _ ih => exact (ih h).trans (by omega)
  | case6 i j w hi arg _ _ _ _ _ _ ih => exact (ih h).trans (by omega)
  | case7 => cases h
  | case8 i j w hi arg _ _ _ _ _ _ _ i' j' w' hr _ ih =>
    have := rshLoop_le hr
    exact (ih h).trans (by omega)
  | case9 => cases h
  | case10 => cases h
  | case11 => cases h; simp

theorem getoptLoop_option {argv : List CStr} {i : ℕ} {j : ℤ} {w w' : Options}
    (hi : i < argv.length) (hv : argv[i].char 0 = dash) (h : getoptLoop argv i j w = .ok w') :
    (1 < j ∨ i + 1 < argv.length) ∧ w'.argv.length ≤ argv.length - (i + 1) := by
  fun_induction getoptLoop argv i j w with
  | case1 i j w _ arg hd => exact absurd hv hd
  | case2 => cases h
  | case3 i j w _ arg _ _ hc _ => exact ⟨.inl hc.1, (getoptLoop_length h).trans (by omega)⟩
  | case4 i j w _ arg _ _ _ hc _ => exact ⟨.inl hc.1, (getoptLoop_length h).trans (by omega)⟩
  | case5 i j w _ arg _ _ _ _ hc _ => exact ⟨.inl hc.1, (getoptLoop_length h).trans (by omega)⟩
  | case6 i j w _ arg _ _ _ _ _ hc _ => exact ⟨.inl hc.1, (getoptLoop_length h).trans (by omega)⟩
  | case7 => cases h
  | case8 i j w _ arg _ _ _ _ _ _ _ i' j' w' hr hi' _ =>
    have := rshLoop_le hr
    exact ⟨.inr (by omega), (getoptLoop_length h).trans (by omega)⟩
  | case9 => cases h
  | case10 => cases h
  | case11 i j w hn => exact absurd hi hn

/-- An option is no part of the command, and is not the last argument. -/
theorem getoptFrom_option {w' : Options} (hv : v.char 0 = dash)
    (h : getoptFrom pre (v :: rest) w = .ok w') : rest ≠ [] ∧ w'.argv.length ≤ rest.length := by
  obtain ⟨hj, hlen⟩ := getoptLoop_option (by simp) (by simpa using hv) h
  simp only [List.length_append, List.length_cons] at hj hlen
  exact ⟨by rintro rfl; simp at hj, by omega⟩

end

/-! ## The environment -/

theorem pointers_nullTerminated (ptr : List CStr) : pointers (nullTerminated ptr) = ptr := by
  rw [pointers, nullTerminated, List.takeWhile_append_of_pos (by simp)]
  induction ptr with
  | nil => rfl
  | cons p ptr ih => rw [List.map_cons, List.cons_append, List.reduceOption_cons_of_some, ih]

/-- `key=value` -/
def binding (key value : CStr) : CStr := (key.append (.lit "=")).append value

theorem envAdd_nullTerminated (ptr : List CStr) (key value : CStr) :
    envAdd (some (nullTerminated ptr)) key value = nullTerminated (ptr ++ [binding key value]) := by
  have hidx : (nullTerminated ptr).idxOf none = (ptr.map some).length := by
    rw [nullTerminated, List.idxOf_append_of_notMem (by simp)]
    simp
  simp only [envAdd, hidx]
  simp [nullTerminated, binding]

/-- `PATH` of a user -/
def searchPath (uid : UInt16) : CStr :=
  if uid = 0 then .lit "/usr/local/sbin:/usr/local/bin:/usr/sbin:/usr/bin:/sbin:/bin"
  else .lit "/usr/local/bin:/usr/bin:/bin"

/-- `HOME`, `USER` and `PATH` of a user -/
def userEnv (pw : Passwd) : List CStr :=
  [binding (.lit "HOME") pw.dir, binding (.lit "USER") pw.name,
    binding (.lit "PATH") (searchPath pw.uid)]

/-- No environment at all is a null pointer. -/
theorem childSetupEnvironment_eq {os : Os} {pw : Passwd} (env : List CStr)
    (hdir : os.chdir pw.dir = true) :
    childSetupEnvironment os pw (if env = [] then none else some (nullTerminated env)) =
      some (nullTerminated (env ++ userEnv pw)) := by
  have hhome : envAdd (if env = [] then none else some (nullTerminated env))
      (.lit "HOME") pw.dir = nullTerminated (env ++ [binding (.lit "HOME") pw.dir]) := by
    cases env with
    | nil => rfl
    | cons e env => exact envAdd_nullTerminated (e :: env) _ _
  rw [childSetupEnvironment, if_pos hdir]
  simp only [hhome, envAdd_nullTerminated, userEnv, searchPath]
  split <;> simp

/-! ## Delivery -/

/-- Setting limits, identity and directory succeeds. -/
structure Os.Obeys (os : Os) : Prop where
  setrlimit : ∀ r, os.setrlimit r = true
  setgid : ∀ g, os.setgid g = true
  setuid : ∀ u, os.setuid u = true
  chdir : ∀ d, os.chdir d = true

/-- What is to be executed for a specification. -/
def Spec.exec (spec : Spec) (pw : Passwd) : Exec where
  argv := spec.path :: spec.args
  envp := spec.env ++ userEnv pw
  uid := pw.uid.toUInt32
  gid := pw.gid.toUInt32
  chdirs := pw.dir :: if spec.dir = .lit "" then [] else [spec.dir]

/-- The options of a specification, but for the command. -/
def Spec.options (spec : Spec) (sockPath : CStr) : Options where
  environmentVariables := spec.env
  socketPath := some sockPath
  user := some spec.user
  dir := if spec.dir = .lit "" then none else some spec.dir

/-- `wsh` reads the arguments of `Run` up to the path. -/
theorem wshGetopt_run (argv₀ sockPath : CStr) (spec : Spec) :
    ∃ pre, wshGetopt (argv₀ :: runArgs sockPath spec) =
      getoptFrom pre (spec.path :: spec.args) (spec.options sockPath) := by
  have h₀ : wshGetopt (argv₀ :: runArgs sockPath spec) =
      getoptFrom [argv₀] (runArgs sockPath spec) {} := by
    simp [wshGetopt, getoptFrom]
  obtain ⟨pre, henvs⟩ := getoptFrom_envs
    ([argv₀] ++ [.lit "--socket", sockPath] ++ [.lit "--user", spec.user])
    ((if spec.dir ≠ .lit "" then [.lit "--dir", spec.dir] else []) ++ (spec.path :: spec.args))
    { socketPath := some sockPath, user := some spec.user } spec.env
  rw [h₀, runArgs]
  simp only [List.append_assoc, List.cons_append, List.nil_append,
    getoptFrom_socket, getoptFrom_user] at henvs ⊢
  rw [henvs]
  by_cases hdir : spec.dir = .lit ""
  · exact ⟨pre, by simp [hdir, Spec.options]⟩
  · refine ⟨pre ++ [.lit "--dir", spec.dir], ?_⟩
    rw [if_pos hdir, List.cons_append, List.cons_append, List.nil_append, getoptFrom_dir]
    simp [hdir, Spec.options]

section
variable {os : Os} {tty : Bool} {environ : List String} {limits : ResourceLimits} {spec : Spec}
  {sockPath : CStr} {pw : Passwd}

/-- The directory is sent as it is; none is the empty one. -/
theorem read_dir (sockPath : CStr) (hdir : spec.dir.strlen < 1024) :
    ∃ buf, msgStringImport 1024 (spec.options sockPath).dir = some buf ∧
      read buf 0 = some spec.dir := by
  rw [Spec.options]
  split
  · rename_i hempty
    exact hempty ▸ read_snprintf hdir
  · exact read_snprintf hdir

theorem childFork_command {req : Request} (hname : read req.user 0 = some spec.user)
    (hargc : req.arg.count = (spec.path :: spec.args).length)
    (hargv : msgArrayExport req.arg = some (spec.path :: spec.args))
    (henvc : req.env.count = spec.env.length) (henvp : msgArrayExport req.env = some spec.env)
    (hdir : read req.dir 0 = some spec.dir) (hos : os.Obeys)
    (hpw : os.getpwnam spec.user = some pw) : childFork os req = some (spec.exec pw) := by
  have huser : spec.user.strlen ≠ 0 := by unfold Spec.user; split <;> decide
  have hextra : childExtra req.env =
      some (if spec.env = [] then none else some (nullTerminated spec.env)) := by
    rw [childExtra, henvc, henvp]
    cases spec.env <;> rfl
  have hempty : spec.dir.strlen = 0 ↔ spec.dir = .lit "" := CStr.strlen_eq_zero
  simp [childFork, hname, huser, hpw, childArgv, hargc, hargv, hextra, hdir, hos.setrlimit,
    hos.setgid, hos.setuid, hos.chdir, childSetupEnvironment_eq, pointers_nullTerminated, Spec.exec,
    hempty]

theorem deliver_command (hargs : Fits (spec.path :: spec.args)) (henv : Fits spec.env)
    (hdir : spec.dir.strlen < 1024)
    (hlimits : environ.filter isRlimit = LinuxContainer.rlimitsEnv limits) (hos : os.Obeys)
    (hpw : os.getpwnam spec.user = some pw) :
    (request tty environ { spec.options sockPath with argv := spec.path :: spec.args }).bind
      (childFork os) = some (spec.exec pw) := by
  obtain ⟨arg, harg, hargc, hargv⟩ := export_import hargs
  obtain ⟨env, henv, henvc, henvp⟩ := export_import henv
  have hshort : spec.user.strlen < 32 := by unfold Spec.user; split <;> decide
  obtain ⟨user, huser, hname⟩ := read_snprintf hshort
  obtain ⟨dir, hdir, hread⟩ := read_dir sockPath hdir
  have hreq : request tty environ { spec.options sockPath with argv := spec.path :: spec.args } =
      some { tty, arg, env, rlim := received limits, user, dir } := by
    simp only [request, hdir, harg, rlimits_arrive hlimits]
    simp [Spec.options, msgStringImport, henv, huser]
  rw [hreq]
  exact childFork_command hname hargc hargv henvc henvp hread hos hpw

theorem exportLoop_length {buf : List UInt8} {off count : ℕ} {ptr : List CStr}
    (h : exportLoop buf off count = some ptr) : ptr.length = count := by
  induction count generalizing off ptr with
  | zero => cases h; rfl
  | succ count ih =>
    simp only [exportLoop, Option.bind_eq_bind, Option.bind_eq_some_iff, Option.pure_def,
      Option.some.injEq] at h
    obtain ⟨s, -, rest, hrest, rfl⟩ := h
    rw [List.length_cons, ih hrest]

theorem childFork_length {req : Request} {x : Exec} (h : childFork os req = some x) :
    x.argv.length ≤ max req.arg.count 1 := by
  simp only [childFork, Option.bind_eq_bind, Option.bind_eq_some_iff, Option.pure_def,
    Option.some.injEq] at h
  obtain ⟨name, -, pw, -, argv, hargv, -, -, -, -, -, -, envp, -, dir, -, -, -, rfl⟩ := h
  unfold childArgv at hargv
  split at hargv
  · exact (exportLoop_length hargv).le.trans (le_max_left _ _)
  · cases hargv; exact le_max_right _ _

theorem request_count {w : Options} {req : Request} (h : request tty environ w = some req) :
    req.arg.count = w.argv.length := by
  simp only [request, msgArrayImport, Option.bind_eq_bind, Option.bind_eq_some_iff,
    Option.pure_def, Option.some.injEq] at h
  obtain ⟨dir, -, arg, ⟨buf, -, rfl⟩, env, -, rlim, -, user, -, rfl⟩ := h
  rfl

/-- **Delivery of a process specification.** -/
theorem run_delivers_iff (argv₀ : CStr) (hargs : Fits (spec.path :: spec.args))
    (henv : Fits spec.env) (hdir : spec.dir.strlen < 1024)
    (hlimits : environ.filter isRlimit = LinuxContainer.rlimitsEnv limits) (hos : os.Obeys)
    (hpw : os.getpwnam spec.user = some pw) :
    deliver os tty environ (argv₀ :: runArgs sockPath spec) = some (spec.exec pw) ↔
      spec.path.char 0 ≠ dash := by
  obtain ⟨pre, hparse⟩ := wshGetopt_run argv₀ sockPath spec
  rw [deliver, hparse]
  constructor
  · -- an option of the path's place leaves a shorter command
    intro h hpath
    cases hw : getoptFrom pre (spec.path :: spec.args) (spec.options sockPath) with
    | exit => simp [hw] at h
    | abort => simp [hw] at h
    | ok w =>
      obtain ⟨hne, hlen⟩ := getoptFrom_option hpath hw
      simp only [hw, Option.bind_eq_bind, Option.bind_eq_some_iff] at h
      obtain ⟨req, hreq, hfork⟩ := h
      have hargv := childFork_length hfork
      rw [request_count hreq, Spec.exec, List.length_cons] at hargv
      have := List.length_pos_iff.2 hne
      omega
  · intro hpath
    rw [getoptFrom_command hpath]
    exact deliver_command hargs henv hdir hlimits hos hpw

end

/-- The users of a container, where every call succeeds. -/
def stockOs : Os where
  getpwnam name :=
    if name = .lit "root" then some ⟨name, 0, 0, .lit "/root", .lit "/bin/bash"⟩
    else if name = .lit "vcap" then some ⟨name, 10001, 10001, .lit "/home/vcap", .lit ""⟩
    else none
  setrlimit _ := true
  setgid _ := true
  setuid _ := true
  chdir _ := true

/-- Values that look like options, and an empty argument. -/
theorem run_delivers_echo :
    let spec : Spec := ⟨.lit "echo", [.lit "--user", .lit ""], [.lit "--dir"], .lit "-h", false⟩
    deliver stockOs true [] (.lit "wsh" :: runArgs (.lit "wshd.sock") spec) =
      some (spec.exec ⟨.lit "vcap", 10001, 10001, .lit "/home/vcap", .lit ""⟩) := by
  intro spec
  have hlimits : ([] : List String).filter isRlimit = LinuxContainer.rlimitsEnv {} := rfl
  refine (run_delivers_iff (.lit "wsh") ?_ ?_ ?_ hlimits ⟨?_, ?_, ?_, ?_⟩ ?_).2 ?_
  · unfold Fits; decide
  · unfold Fits; decide
  · decide
  · exact fun _ => rfl
  · exact fun _ => rfl
  · exact fun _ => rfl
  · exact fun _ => rfl
  · decide
  · decide

/-! ## The command of `Run` -/

/-- What `execve` makes of a string. -/
def cstr (s : String) : CStr := upToNul s.toUTF8.data.toList

/-- A process specification as bytes. -/
def ofProcessSpec (spec : ProcessSpec) : Spec where
  path := cstr spec.path
  args := spec.args.map cstr
  env := spec.env.map cstr
  dir := cstr spec.dir
  privileged := spec.privileged

theorem cstr_lit {s : String} (h : 0 ∉ s.toUTF8.data.toList) : cstr s = .lit s h := by
  apply CStr.ext
  exact List.takeWhile_eq_self_iff.2 fun c hc => by simpa using fun h' : c = 0 => h (h' ▸ hc)

theorem cstr_eq_empty {s : String} (h : 0 ∉ s.toUTF8.data.toList) : cstr s = .lit "" ↔ s = "" := by
  constructor
  · intro hs
    rw [cstr_lit h] at hs
    exact String.toByteArray_inj.1 (ByteArray.ext (Array.toList_inj.1 (congrArg CStr.bytes hs)))
  · rintro rfl
    exact cstr_lit h

/-- The arguments of `Run` are those of the specification's bytes. -/
theorem wshCmd_args (c : LinuxContainer) (spec : ProcessSpec)
    (hdir : 0 ∉ spec.dir.toUTF8.data.toList) :
    (LinuxContainer.wshCmd c spec).args.map cstr =
      runArgs (cstr (pathJoin [c.path, "run", "wshd.sock"])) (ofProcessSpec spec) := by
  have hlit : cstr "--socket" = .lit "--socket" ∧ cstr "--user" = .lit "--user" ∧
      cstr "--env" = .lit "--env" ∧ cstr "--dir" = .lit "--dir" := by decide
  have huser : cstr (if spec.privileged then "root" else "vcap") = (ofProcessSpec spec).user := by
    rw [Spec.user, ofProcessSpec]
    split <;> decide
  have hd : (cstr spec.dir = .lit "") ↔ spec.dir = "" := cstr_eq_empty hdir
  rw [LinuxContainer.wshCmd, runArgs]
  simp only [List.map_append, List.map_flatMap, List.map_cons, List.map_nil, hlit, huser,
    List.flatMap_map, ofProcessSpec, ne_eq, hd]
  split <;> simp [hlit]

end Wsh

end WardenLinux
