/-
  The resource limits of a process, from the environment that `Run` gives to
  `wsh` (`setRLimitsEnv`) to the list that `wsh` sends (`msg_rlimit_import`,
  msg.c).

  The two sides agree on the names.  They do not agree on the numbers: the Go
  side prints an unsigned number, and the C side scans a signed one, which
  saturates (`rlimits_arrive`).  `rlimits_arrive_iff`: the limits arrive
  unchanged iff all of them are below `2 ^ 63`.
-/
import WardenLinux.Container
import WardenLinux.Lib.Decimal

namespace WardenLinux

namespace Wsh

/-! ## The table -/

/-- The limits that the table has. -/
inductive Rlimit where
  | as | core | cpu | data | fsize | locks | memlock | msgqueue | nice | nofile | nproc | rss
  | rtprio | sigpending | stack
  deriving DecidableEq, Repr

/-- `struct rlimit`, with the limit it is for. -/
structure Rlim where
  id : Rlimit
  cur : UInt64
  max : UInt64
  deriving DecidableEq, Repr

/-- `RLIM_INFINITY` -/
def rlimInfinity : UInt64 := 0xffffffffffffffff

/-- A line of the table: `_R(X, Y, Z)` is `{ X, #X, { Y, Z } }`. -/
structure RlimitEntry where
  id : Rlimit
  name : String
  cur : UInt64
  max : UInt64

/-- `rlimits` -/
def rlimits : List RlimitEntry :=
  [⟨.as, "RLIMIT_AS", rlimInfinity, rlimInfinity⟩,
    ⟨.core, "RLIMIT_CORE", 0, 0⟩,
    ⟨.cpu, "RLIMIT_CPU", rlimInfinity, rlimInfinity⟩,
    ⟨.data, "RLIMIT_DATA", rlimInfinity, rlimInfinity⟩,
    ⟨.fsize, "RLIMIT_FSIZE", rlimInfinity, rlimInfinity⟩,
    ⟨.locks, "RLIMIT_LOCKS", rlimInfinity, rlimInfinity⟩,
    ⟨.memlock, "RLIMIT_MEMLOCK", 65536, 65536⟩,
    ⟨.msgqueue, "RLIMIT_MSGQUEUE", 819200, 819200⟩,
    ⟨.nice, "RLIMIT_NICE", 0, 0⟩,
    ⟨.nofile, "RLIMIT_NOFILE", 1024, 1024⟩,
    ⟨.nproc, "RLIMIT_NPROC", 1024, 1024⟩,
    ⟨.rss, "RLIMIT_RSS", rlimInfinity, rlimInfinity⟩,
    ⟨.rtprio, "RLIMIT_RTPRIO", 0, 0⟩,
    ⟨.sigpending, "RLIMIT_SIGPENDING", 1024, 1024⟩,
    ⟨.stack, "RLIMIT_STACK", 8192 * 1024, 8192 * 1024⟩]

/-! ## msg_rlimit_import -/

/-- `getenv` -/
def getenv (env : List String) (name : String) : Option (List Char) :=
  env.findSome? fun e => e.toList.dropPrefix? (name ++ "=").toList

/-- `isspace` -/
def isspace (c : Char) : Bool := c ∈ [' ', '\t', '\n', '\x0b', '\x0c', '\r']

/-- `LONG_MAX` -/
def longMax : ℕ := 2 ^ 63 - 1

/-- A `%ld` of `sscanf`: the number and the rest, or no match.  A number that
    is too large becomes the largest, as in glibc. -/
def scanLong (s : List Char) : Option (ℤ × List Char) :=
  let s := s.dropWhile isspace
  let (negative, s) := match s with
    | '-' :: s => (true, s)
    | '+' :: s => (false, s)
    | s => (false, s)
  let digits := s.takeWhile Char.isDigit
  let n := Nat.ofDigitChars 10 digits 0
  if digits = [] then none
  else some (if negative then max (-(longMax + 1 : ℤ)) (-n) else min longMax n,
    s.dropWhile Char.isDigit)

/-- `sscanf(value, "%ld %ld", &rlim.rlim_cur, &rlim.rlim_max)` and what is made
    of its result. -/
def scanRlimit (id : Rlimit) (value : List Char) : Option Rlim := do
  let (cur, rest) ← scanLong value
  match scanLong rest with
  | none => return ⟨id, .ofInt cur, .ofInt cur⟩
  | some (max, _) => return ⟨id, .ofInt cur, .ofInt max⟩

/-- `msg_rlimit_import`; `none` is the error `EINVAL`. -/
def msgRlimitImport (env : List String) : Option (List Rlim) :=
  rlimits.mapM fun e =>
    match getenv env e.name with
    | none => some ⟨e.id, e.cur, e.max⟩
    | some value => scanRlimit e.id value

/-! ## The numbers -/

/-- The digits of a number are scanned as the number, up to the largest. -/
theorem scanLong_toDigits (n : ℕ) :
    scanLong (Nat.toDigits 10 n) = some (((min longMax n : ℕ) : ℤ), []) := by
  obtain ⟨c, cs, hcs, hc⟩ := Decimal.exists_digit n
  have hspace : isspace c = false := by
    rw [Bool.eq_false_iff]
    intro h
    simp only [isspace, decide_eq_true_eq, List.mem_cons, List.not_mem_nil, or_false] at h
    rcases h with rfl | rfl | rfl | rfl | rfl | rfl <;> cases hc
  have hminus : c ≠ '-' := by rintro rfl; cases hc
  have hplus : c ≠ '+' := by rintro rfl; cases hc
  have hdigits : ∀ d ∈ c :: cs, d.isDigit = true := fun d hd => Decimal.isDigit_of_mem (hcs ▸ hd)
  have hall : (c :: cs).takeWhile Char.isDigit = c :: cs := List.takeWhile_eq_self_iff.2 hdigits
  have hrest : (c :: cs).dropWhile Char.isDigit = [] := List.dropWhile_eq_nil_iff.2 hdigits
  have hn : Nat.ofDigitChars 10 (c :: cs) 0 = n := hcs ▸ Nat.ofDigitChars_ten_toDigits
  have hsign : (match c :: cs with
      | '-' :: s => (true, s)
      | '+' :: s => (false, s)
      | s => (false, s)) = (false, c :: cs) := by
    split
    · next h => exact absurd (List.cons.inj h).1 hminus
    · next h => exact absurd (List.cons.inj h).1 hplus
    · rfl
  simp only [scanLong, hcs, List.dropWhile_cons_of_neg (Bool.eq_false_iff.1 hspace), hsign, hall,
    hrest, hn]
  simp

theorem scanLong_nil : scanLong [] = none := rfl

/-- What a `long` makes of a number. -/
def saturate (n : UInt64) : UInt64 := .ofNat (min longMax n.toNat)

theorem saturate_eq_iff {n : UInt64} : saturate n = n ↔ n.toNat < 2 ^ 63 := by
  have hlt := n.toNat_lt
  rw [← UInt64.toNat_inj, saturate, UInt64.toNat_ofNat', longMax]
  omega

theorem scanRlimit_toDigits (id : Rlimit) (n : UInt64) :
    scanRlimit id (Nat.toDigits 10 n.toNat) = some ⟨id, saturate n, saturate n⟩ := by
  have hcast : UInt64.ofInt ((min longMax n.toNat : ℕ) : ℤ) = saturate n := by
    apply UInt64.toNat_inj.1
    simp only [UInt64.ofInt, saturate, UInt64.toNat_ofNat']
    omega
  simp only [scanRlimit, scanLong_toDigits, scanLong_nil, Option.bind_eq_bind, Option.bind_some,
    Option.pure_def, hcast]

/-! ## The names -/

/-- A variable of the environment: a name without `=`, and a value. -/
theorem dropPrefix?_variable {a b : List Char} (ha : '=' ∉ a) (hb : '=' ∉ b) (x : List Char) :
    (a ++ '=' :: x).dropPrefix? (b ++ "=".toList) = if a = b then some x else none := by
  change (a ++ '=' :: x).dropPrefix? (b ++ ['=']) = _
  split_ifs with hab
  · subst hab
    rw [List.dropPrefix?_eq_some_iff]
    exact ⟨a ++ ['='], by simp, by simp⟩
  · rw [Option.eq_none_iff_forall_ne_some]
    intro y hy
    obtain ⟨p, hp, he⟩ := List.dropPrefix?_eq_some_iff.1 hy
    rw [beq_iff_eq] at he
    subst he
    refine hab ?_
    have htake := congrArg (List.takeWhile (· ≠ '=')) hp
    have hself : ∀ {l : List Char}, '=' ∉ l → ∀ r, (l ++ '=' :: r).takeWhile (· ≠ '=') = l := by
      intro l hl r
      rw [List.takeWhile_append_of_pos (fun c hc => by simpa using fun he : c = '=' => hl (he ▸ hc))]
      simp
    rwa [hself ha, List.append_assoc, List.singleton_append, hself hb] at htake

/-- What a limit is set to. -/
def given (l : ResourceLimits) : Rlimit → Option UInt64
  | .as => l.as
  | .core => l.core
  | .cpu => l.cpu
  | .data => l.data
  | .fsize => l.fsize
  | .locks => l.locks
  | .memlock => l.memlock
  | .msgqueue => l.msgqueue
  | .nice => l.nice
  | .nofile => l.nofile
  | .nproc => l.nproc
  | .rss => l.rss
  | .rtprio => l.rtprio
  | .sigpending => l.sigpending
  | .stack => l.stack

/-- What `setRLimitsEnv` writes for a limit of the table. -/
def setting (l : ResourceLimits) (e : RlimitEntry) : Option String :=
  (given l e.id).map fun n => e.name ++ "=" ++ toString n.toNat

/-- Both sides have the same names, in the same order. -/
theorem rlimitsEnv_eq (l : ResourceLimits) :
    LinuxContainer.rlimitsEnv l = rlimits.filterMap (setting l) := by
  rfl

theorem toList_setting (name : String) (n : UInt64) :
    (name ++ "=" ++ toString n.toNat).toList = name.toList ++ '=' :: Nat.toDigits 10 n.toNat := by
  simp

theorem getenv_cons (s : String) (env : List String) (name : String) :
    getenv (s :: env) name =
      (s.toList.dropPrefix? (name ++ "=").toList).or (getenv env name) := by
  simp only [getenv, List.findSome?_cons]
  cases s.toList.dropPrefix? (name ++ "=").toList <;> rfl

/-- `getenv` finds the limit with the name. -/
theorem getenv_settings (l : ResourceLimits) {name : String} (hname : '=' ∉ name.toList)
    (es : List RlimitEntry) (hes : ∀ e ∈ es, '=' ∉ e.name.toList) :
    getenv (es.filterMap (setting l)) name = es.findSome? fun e =>
      if e.name = name then (given l e.id).map fun n => Nat.toDigits 10 n.toNat else none := by
  induction es with
  | nil => rfl
  | cons e es ih =>
    have ih := ih fun e' he' => hes e' (List.mem_cons_of_mem _ he')
    rw [List.findSome?_cons]
    cases hn : given l e.id with
    | none =>
      rw [List.filterMap_cons_none (by simp [setting, hn]), ih]
      simp
    | some n =>
      have hset : setting l e = some (e.name ++ "=" ++ toString n.toNat) := by rw [setting, hn]; rfl
      rw [List.filterMap_cons_some hset, getenv_cons, ih, toList_setting,
        String.toList_append, dropPrefix?_variable (hes e List.mem_cons_self) hname]
      by_cases he : e.name = name
      · simp [he]
      · simp [he, String.toList_inj]

/-- Other variables do not matter. -/
theorem getenv_filter {p : String → Bool} {name : String}
    (hp : ∀ s : String, (name ++ "=").toList <+: s.toList → p s = true) (env : List String) :
    getenv (env.filter p) name = getenv env name := by
  induction env with
  | nil => rfl
  | cons s env ih =>
    cases hs : p s with
    | true => rw [List.filter_cons_of_pos hs, getenv_cons, getenv_cons, ih]
    | false =>
      have hnone : s.toList.dropPrefix? (name ++ "=").toList = none := by
        rw [Option.eq_none_iff_forall_ne_some]
        intro y hy
        obtain ⟨q, hq, he⟩ := List.dropPrefix?_eq_some_iff.1 hy
        rw [beq_iff_eq] at he
        rw [hp s ⟨y, by rw [hq, he]⟩] at hs
        cases hs
      rw [List.filter_cons_of_neg (by simp [hs]), getenv_cons, hnone, ih]
      rfl

/-! ## The limits -/

/-- A variable of a limit. -/
def isRlimit (s : String) : Bool := "RLIMIT_".toList.isPrefixOf s.toList

/-- The list that the process is to get: what is given, and the defaults. -/
def wanted (l : ResourceLimits) : List Rlim :=
  rlimits.map fun e => ⟨e.id, (given l e.id).getD e.cur, (given l e.id).getD e.max⟩

/-- The list that it gets. -/
def received (l : ResourceLimits) : List Rlim :=
  rlimits.map fun e =>
    ⟨e.id, ((given l e.id).map saturate).getD e.cur, ((given l e.id).map saturate).getD e.max⟩

theorem rlimits_names : (rlimits.map RlimitEntry.name).Nodup := by decide

theorem rlimits_wf : ∀ e ∈ rlimits, '=' ∉ e.name.toList ∧ "RLIMIT_".toList <+: e.name.toList := by
  decide

theorem findSome?_name {β : Type} (f : RlimitEntry → Option β) {e : RlimitEntry}
    {es : List RlimitEntry} (hnd : (es.map RlimitEntry.name).Nodup) (he : e ∈ es) :
    (es.findSome? fun e' => if e'.name = e.name then f e' else none) = f e := by
  induction es with
  | nil => cases he
  | cons e' es ih =>
    rw [List.map_cons, List.nodup_cons] at hnd
    rw [List.findSome?_cons]
    rcases List.mem_cons.1 he with rfl | he
    · rw [if_pos rfl]
      cases hf : f e with
      | some b => rfl
      | none =>
        -- no other line has the name
        refine List.findSome?_eq_none_iff.2 fun e' he' => if_neg fun heq => hnd.1 ?_
        exact heq ▸ List.mem_map_of_mem he'
    · have hne : e'.name ≠ e.name := fun heq => hnd.1 (heq ▸ List.mem_map_of_mem he)
      rw [if_neg hne]
      exact ih hnd.2 he

/-- The environment of `wsh` has what `setRLimitsEnv` has written, and no other
    variable of a limit. -/
theorem getenv_name {env : List String} {l : ResourceLimits}
    (henv : env.filter isRlimit = LinuxContainer.rlimitsEnv l) {e : RlimitEntry} (he : e ∈ rlimits) :
    getenv env e.name = (given l e.id).map fun n => Nat.toDigits 10 n.toNat := by
  have hp : ∀ s : String, (e.name ++ "=").toList <+: s.toList → isRlimit s = true := by
    intro s hs
    rw [String.toList_append] at hs
    exact List.isPrefixOf_iff_prefix.2
      ((rlimits_wf e he).2.trans ((List.prefix_append _ _).trans hs))
  rw [← getenv_filter hp env, henv, rlimitsEnv_eq,
    getenv_settings l (rlimits_wf e he).1 rlimits fun e' he' => (rlimits_wf e' he').1]
  exact findSome?_name _ rlimits_names he

theorem mapM_eq_map {α β : Type} {f : α → Option β} {g : α → β} {l : List α}
    (h : ∀ a ∈ l, f a = some (g a)) : l.mapM f = some (l.map g) := by
  induction l with
  | nil => rfl
  | cons a l ih =>
    rw [List.mapM_cons, h a List.mem_cons_self, ih fun b hb => h b (List.mem_cons_of_mem _ hb)]
    rfl

/-- **What arrives.**  A limit that is given becomes both values, as a `long`. -/
theorem rlimits_arrive {env : List String} {l : ResourceLimits}
    (henv : env.filter isRlimit = LinuxContainer.rlimitsEnv l) :
    msgRlimitImport env = some (received l) := by
  refine mapM_eq_map fun e he => ?_
  rw [getenv_name henv he]
  cases given l e.id with
  | none => rfl
  | some n => exact scanRlimit_toDigits e.id n

/-- **The limits arrive unchanged iff they are below `2 ^ 63`.** -/
theorem rlimits_arrive_iff {env : List String} {l : ResourceLimits}
    (henv : env.filter isRlimit = LinuxContainer.rlimitsEnv l) :
    msgRlimitImport env = some (wanted l) ↔ ∀ id n, given l id = some n → n.toNat < 2 ^ 63 := by
  rw [rlimits_arrive henv, Option.some.injEq, received, wanted, List.map_inj_left]
  constructor
  · intro h id n hn
    obtain ⟨e, he, rfl⟩ : ∃ e ∈ rlimits, e.id = id := by cases id <;> simp [rlimits]
    have := congrArg Rlim.cur (h e he)
    simpa [hn, saturate_eq_iff] using this
  · intro h e _
    cases hn : given l e.id with
    | none => rfl
    | some n => simp [saturate_eq_iff.2 (h _ n hn)]

/-- The limit that means no limit arrives as another number. -/
def unlimited : ResourceLimits := { as := some rlimInfinity }

theorem rlimits_infinity :
    msgRlimitImport (LinuxContainer.rlimitsEnv unlimited) ≠ some (wanted unlimited) := by
  decide +kernel

theorem rlimits_arrive_files :
    let l : ResourceLimits := { nofile := some 4096, core := some 0 }
    msgRlimitImport ("PWD=/" :: LinuxContainer.rlimitsEnv l) = some (wanted l) := by
  intro l
  refine (rlimits_arrive_iff (by decide +kernel)).2 fun id n hn => ?_
  cases id <;> simp [given, l] at hn <;> subst hn <;> decide

end Wsh

end WardenLinux
