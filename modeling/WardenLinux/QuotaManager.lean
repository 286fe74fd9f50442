/-
  The quota manager (quota_manager.go) and the records it reads (repquota.c).

  `repquota` prints the user ID and the eight numbers of a `struct dqblk`; the
  two readers of the manager scan the first eight of these nine fields, those
  that they do not want into a variable of 32 bits.

  * `fscanf_fields_iff`: a line of numbers is scanned without an error iff every
    number fits its target.
  * `quota_decoded_iff`: when the readers return what the record says.

  `SetLimits` rounds a number of bytes up to one of blocks, in 64 bits.

  * `quotas_rounded_up_iff`: when `setquota` is given the least number of blocks that
    has the bytes.
-/
import Mathlib.Order.Bounds.Basic
import WardenLinux.Lib.Decimal
import WardenLinux.World

namespace WardenLinux

/-! ## repquota -/

/-- `struct dqblk` -/
structure Dqblk where
  curspace : UInt64
  bsoftlimit : UInt64
  bhardlimit : UInt64
  btime : UInt64
  curinodes : UInt64
  isoftlimit : UInt64
  ihardlimit : UInt64
  itime : UInt64
  deriving DecidableEq, Repr

/-- A `%d` or `%llu` of `printf`. -/
def printNumber (n : ℤ) : List Char := (if n < 0 then ['-'] else []) ++ Nat.toDigits 10 n.natAbs

/-- `printf("%llu %llu %llu %llu ", ...)`, with what ends it. -/
def printInfo (current soft hard time : UInt64) (last : Char) : List Char :=
  printNumber current.toNat ++ ' ' :: (printNumber soft.toNat ++ ' ' ::
    (printNumber hard.toNat ++ ' ' :: (printNumber time.toNat ++ [last])))

/-- `print_quota_usage` -/
def printQuotaUsage (uid : ℤ) (q : Dqblk) : List Char :=
  printNumber uid ++ ' ' ::
    (printInfo q.curspace q.bsoftlimit q.bhardlimit q.btime ' ' ++
      printInfo q.curinodes q.isoftlimit q.ihardlimit q.itime '\n')

/-- The output of `repquota` for a user; `atoi` makes an `int` of the user ID. -/
def repquota (uid : UInt32) (q : Dqblk) : List Char := printQuotaUsage uid.toInt32.toInt q

/-! ## fmt.Fscanf -/

/-- `SkipSpace`: a newline that the format does not have is an error. -/
def skipSpace : List Char → Except Err (List Char)
  | [] => .ok []
  | c :: cs =>
    if c = '\n' then .error (.external "unexpected newline")
    else if c = ' ' ∨ c = '\t' ∨ c = '\r' then skipSpace cs
    else .ok (c :: cs)

/-- A `%d` into an unsigned variable of the given width. -/
def scanUint (bits : ℕ) (input : List Char) : Except Err (ℕ × List Char) := do
  let input ← skipSpace input
  match Decimal.scan input with
  | none => .error (.external (if input = [] then "unexpected EOF" else "expected integer"))
  | some (n, rest) =>
    if n < 2 ^ bits then .ok (n, rest)
    else .error (.external "unsigned integer overflow on token")

/-- A variable that a number is scanned into: its width, and what it changes. -/
structure Target (α : Type) where
  bits : ℕ
  store : ℕ → α → α

/-- `fmt.Fscanf` with a `%d` for each of the variables, which keep what was
    stored before an error. -/
def fscanf {α : Type} : List (Target α) → List Char → α → α × Option Err
  | [], _, out => (out, none)
  | t :: ts, input, out =>
    match scanUint t.bits input with
    | .error e => (out, some e)
    | .ok (n, rest) => fscanf ts rest (t.store n out)

/-! ## The manager -/

/-- `warden.ContainerDiskStat` -/
structure ContainerDiskStat where
  bytesUsed : UInt64
  inodesUsed : UInt64
  deriving DecidableEq, Repr

/-- `LinuxQuotaManager` -/
structure LinuxQuotaManager where
  enabled : Bool
  binPath : String
  mountPoint : String
  deriving DecidableEq, Repr

namespace LinuxQuotaManager

/-- `var skip uint32` -/
def skip {α : Type} : Target α := ⟨32, fun _ out => out⟩

/-- A field of 64 bits. -/
def field {α : Type} (set : UInt64 → α → α) : Target α := ⟨64, fun n => set n.toUInt64⟩

/-- What `GetLimits` scans. -/
def limitTargets : List (Target DiskLimits) :=
  [skip, skip, field fun n l => { l with blockSoft := n },
    field fun n l => { l with blockHard := n }, skip, skip,
    field fun n l => { l with inodeSoft := n }, field fun n l => { l with inodeHard := n }]

/-- What `GetUsage` scans. -/
def usageTargets : List (Target ContainerDiskStat) :=
  [skip, field fun n u => { u with bytesUsed := n }, skip, skip, skip,
    field fun n u => { u with inodesUsed := n }, skip, skip]

def repquotaCmd (m : LinuxQuotaManager) (uid : UInt32) : Cmd where
  path := pathJoin [m.binPath, "repquota"]
  args := [m.mountPoint, toString uid.toNat]

section
variable {α : Type}

/-- The body of both readers: `os.Pipe`, `runner.Start` with the output of the
    command, and `fmt.Fscanf`. -/
def read (m : LinuxQuotaManager) (targets : List (Target α)) (zero : α) (pipe : Except Err Unit)
    (start : Cmd → Except Err (List Char)) (uid : UInt32) : α × Option Err :=
  if !m.enabled then (zero, none)
  else match pipe with
    | .error e => (zero, some e)
    | .ok _ =>
      match start (m.repquotaCmd uid) with
      | .error e => (zero, some e)
      | .ok output => fscanf targets output zero

end

section
variable (m : LinuxQuotaManager) (pipe : Except Err Unit) (start : Cmd → Except Err (List Char))
  (uid : UInt32)

/-- `GetLimits` -/
def getLimits : DiskLimits × Option Err :=
  m.read limitTargets ⟨0, 0, 0, 0, 0, 0⟩ pipe start uid

/-- `GetUsage` -/
def getUsage : ContainerDiskStat × Option Err := m.read usageTargets ⟨0, 0⟩ pipe start uid

end

end LinuxQuotaManager

/-! ## Scanning a line -/

/-- Numbers with a space after each of them. -/
def fields : List ℕ → List Char
  | [] => []
  | n :: ns => Nat.toDigits 10 n ++ ' ' :: fields ns

/-- A number after at most one space is scanned iff it fits. -/
theorem scanUint_digits (bits n : ℕ) (rest : List Char) {lead : List Char}
    (hlead : lead = [] ∨ lead = [' ']) :
    scanUint bits (lead ++ (Nat.toDigits 10 n ++ ' ' :: rest)) =
      if n < 2 ^ bits then .ok (n, ' ' :: rest)
      else .error (.external "unsigned integer overflow on token") := by
  have hskip : ∀ tail, skipSpace (Nat.toDigits 10 n ++ tail) = .ok (Nat.toDigits 10 n ++ tail) := by
    intro tail
    obtain ⟨c, cs, hcs, hc⟩ := Decimal.exists_digit n
    have hne : ∀ d : Char, d.isDigit = false → c ≠ d := by
      rintro d hd rfl
      rw [hc] at hd
      cases hd
    rw [hcs, List.cons_append, skipSpace, if_neg (hne _ rfl), if_neg]
    rintro (h | h | h)
    exacts [hne _ rfl h, hne _ rfl h, hne _ rfl h]
  have hlead' : ∀ tail, skipSpace (lead ++ (Nat.toDigits 10 n ++ tail)) =
      .ok (Nat.toDigits 10 n ++ tail) := by
    intro tail
    rcases hlead with rfl | rfl
    · exact hskip tail
    · rw [List.singleton_append, skipSpace, if_neg (by decide), if_pos (by decide)]
      exact hskip tail
  have hrest : ∀ c ∈ (' ' :: rest).head?, c.isDigit = false := by
    rintro c ⟨⟩
    rfl
  have hscan := Decimal.scan_digits hrest n
  simp only [scanUint, hlead', bind, Except.bind, hscan]

/-- What the targets make of numbers that all fit. -/
def storeAll {α : Type} : List (Target α) → List ℕ → α → α
  | t :: ts, n :: ns, out => storeAll ts ns (t.store n out)
  | _, _, out => out

/-- **A line is scanned iff every number fits its target.** -/
theorem fscanf_fields_iff {α : Type} {rest : List Char} {ts : List (Target α)} :
    ∀ {ns : List ℕ} {lead : List Char} {out : α}, lead = [] ∨ lead = [' '] →
      ts.length = ns.length →
      ((∀ p ∈ ts.zip ns, p.2 < 2 ^ p.1.bits) →
        fscanf ts (lead ++ (fields ns ++ rest)) out = (storeAll ts ns out, none)) ∧
      ((fscanf ts (lead ++ (fields ns ++ rest)) out).2 = none →
        ∀ p ∈ ts.zip ns, p.2 < 2 ^ p.1.bits) := by
  induction ts with
  | nil =>
    intro ns lead out _ _
    exact ⟨fun _ => rfl, fun _ => by simp⟩
  | cons t ts ih =>
    intro ns lead out hlead hlen
    cases ns with
    | nil => cases hlen
    | cons n ns =>
      have hlen' : ts.length = ns.length := Nat.succ.inj hlen
      have hinput : lead ++ (fields (n :: ns) ++ rest) =
          lead ++ (Nat.toDigits 10 n ++ ' ' :: (fields ns ++ rest)) := by
        rw [fields, List.append_assoc, List.cons_append]
      have hscan := scanUint_digits t.bits n (fields ns ++ rest) hlead
      -- the rest of the line, after the space that is left
      obtain ⟨hfits, hnone⟩ := @ih ns [' '] (t.store n out) (Or.inr rfl) hlen'
      rw [hinput, fscanf, hscan]
      by_cases hn : n < 2 ^ t.bits
      · rw [if_pos hn]
        refine ⟨fun h => ?_, fun h p hp => ?_⟩
        · exact hfits fun p hp => h p (List.mem_cons_of_mem _ hp)
        · rcases List.mem_cons.1 hp with rfl | hp
          · exact hn
          · exact hnone h p hp
      · rw [if_neg hn]
        exact ⟨fun h => absurd (h (t, n) List.mem_cons_self) hn, nofun⟩

/-! ## Records -/

/-- The limits that a record says. -/
def Dqblk.limits (q : Dqblk) : DiskLimits where
  blockSoft := q.bsoftlimit
  blockHard := q.bhardlimit
  inodeSoft := q.isoftlimit
  inodeHard := q.ihardlimit
  byteSoft := 0
  byteHard := 0

/-- The usage that a record says. -/
def Dqblk.usage (q : Dqblk) : ContainerDiskStat := ⟨q.curspace, q.curinodes⟩

/-- The fields of a record that are scanned. -/
def Dqblk.scanned (uid : UInt32) (q : Dqblk) : List ℕ :=
  [uid.toNat, q.curspace.toNat, q.bsoftlimit.toNat, q.bhardlimit.toNat, q.btime.toNat,
    q.curinodes.toNat, q.isoftlimit.toNat, q.ihardlimit.toNat]

theorem printNumber_natCast (n : ℕ) : printNumber n = Nat.toDigits 10 n := by
  rw [printNumber, if_neg (Int.not_lt.2 (Int.natCast_nonneg n)), Int.natAbs_natCast,
    List.nil_append]

theorem toInt32_toInt {uid : UInt32} (h : uid.toNat < 2 ^ 31) : uid.toInt32.toInt = uid.toNat := by
  rw [Int32.toInt, UInt32.toBitVec_toInt32, BitVec.toInt_eq_toNat_of_lt]
  · rfl
  · show 2 * uid.toNat < 2 ^ 32
    omega

/-- A record is its scanned fields, the inode grace time and a newline. -/
theorem repquota_fields {uid : UInt32} (h : uid.toNat < 2 ^ 31) (q : Dqblk) :
    repquota uid q = fields (q.scanned uid) ++ (Nat.toDigits 10 q.itime.toNat ++ ['\n']) := by
  simp only [repquota, printQuotaUsage, printInfo, toInt32_toInt h, printNumber_natCast,
    Dqblk.scanned, fields, List.append_assoc, List.cons_append, List.nil_append]

namespace LinuxQuotaManager

variable {m : LinuxQuotaManager} {pipe : Except Err Unit} {start : Cmd → Except Err (List Char)}
  {uid : UInt32} {q : Dqblk}

/-- What a reader makes of a record. -/
theorem read_record {α : Type} {targets : List (Target α)} {zero : α} (hen : m.enabled = true)
    (hp : pipe = .ok ()) (hs : start (m.repquotaCmd uid) = .ok (repquota uid q))
    (hu : uid.toNat < 2 ^ 31) (hlen : targets.length = 8) :
    m.read targets zero pipe start uid = (storeAll targets (q.scanned uid) zero, none) ↔
      ∀ p ∈ targets.zip (q.scanned uid), p.2 < 2 ^ p.1.bits := by
  obtain ⟨hfits, hnone⟩ := @fscanf_fields_iff α (Nat.toDigits 10 q.itime.toNat ++ ['\n']) targets
    (q.scanned uid) [] zero (Or.inl rfl) hlen
  rw [List.nil_append, ← repquota_fields hu] at hfits hnone
  have hread : m.read targets zero pipe start uid = fscanf targets (repquota uid q) zero := by
    simp [read, hen, hp, hs]
  rw [hread]
  exact ⟨fun h => hnone (by rw [h]), hfits⟩

theorem storeAll_limits (uid : UInt32) (q : Dqblk) :
    storeAll limitTargets (q.scanned uid) ⟨0, 0, 0, 0, 0, 0⟩ = q.limits := by
  simp [storeAll, limitTargets, Dqblk.scanned, skip, field, Dqblk.limits]

theorem storeAll_usage (uid : UInt32) (q : Dqblk) :
    storeAll usageTargets (q.scanned uid) ⟨0, 0⟩ = q.usage := by
  simp [storeAll, usageTargets, Dqblk.scanned, skip, field, Dqblk.usage]

theorem limits_fit_iff (hu : uid.toNat < 2 ^ 31) :
    (∀ p ∈ limitTargets.zip (q.scanned uid), p.2 < 2 ^ p.1.bits) ↔
      q.curspace.toNat < 2 ^ 32 ∧ q.btime.toNat < 2 ^ 32 ∧ q.curinodes.toNat < 2 ^ 32 := by
  have h64 : ∀ n : UInt64, n.toNat < 2 ^ 64 := fun n => n.toNat_lt
  have h32 : uid.toNat < 2 ^ 32 := by omega
  simp only [limitTargets, Dqblk.scanned, List.zip_cons_cons, List.zip_nil_right,
    List.forall_mem_cons, skip, field, h64, h32, true_and, and_true, List.not_mem_nil,
    false_imp_iff, implies_true]

theorem usage_fits_iff (hu : uid.toNat < 2 ^ 31) :
    (∀ p ∈ usageTargets.zip (q.scanned uid), p.2 < 2 ^ p.1.bits) ↔
      q.bsoftlimit.toNat < 2 ^ 32 ∧ q.bhardlimit.toNat < 2 ^ 32 ∧ q.btime.toNat < 2 ^ 32 ∧
        q.isoftlimit.toNat < 2 ^ 32 ∧ q.ihardlimit.toNat < 2 ^ 32 := by
  have h64 : ∀ n : UInt64, n.toNat < 2 ^ 64 := fun n => n.toNat_lt
  have h32 : uid.toNat < 2 ^ 32 := by omega
  simp only [usageTargets, Dqblk.scanned, List.zip_cons_cons, List.zip_nil_right,
    List.forall_mem_cons, skip, field, h64, h32, true_and, and_true, List.not_mem_nil,
    false_imp_iff, implies_true]

/-- **When a record is decoded**: iff every field that a reader skips fits 32 bits. -/
theorem quota_decoded_iff (hen : m.enabled = true) (hp : pipe = .ok ())
    (hs : start (m.repquotaCmd uid) = .ok (repquota uid q)) (hu : uid.toNat < 2 ^ 31) :
    (m.getLimits pipe start uid = (q.limits, none) ↔
      q.curspace.toNat < 2 ^ 32 ∧ q.btime.toNat < 2 ^ 32 ∧ q.curinodes.toNat < 2 ^ 32) ∧
    (m.getUsage pipe start uid = (q.usage, none) ↔
      q.bsoftlimit.toNat < 2 ^ 32 ∧ q.bhardlimit.toNat < 2 ^ 32 ∧ q.btime.toNat < 2 ^ 32 ∧
        q.isoftlimit.toNat < 2 ^ 32 ∧ q.ihardlimit.toNat < 2 ^ 32) := by
  constructor
  · rw [← limits_fit_iff hu, ← storeAll_limits uid q]
    exact read_record hen hp hs hu rfl
  · rw [← usage_fits_iff hu, ← storeAll_usage uid q]
    exact read_record hen hp hs hu rfl

/-- A manager whose `repquota` prints the given record. -/
def printing (uid : UInt32) (q : Dqblk) : Cmd → Except Err (List Char) :=
  fun _ => .ok (repquota uid q)

def someManager : LinuxQuotaManager := ⟨true, "/root/path", "/some/mount/point"⟩

theorem quota_decoded_small :
    someManager.getLimits (.ok ()) (printing 1234 ⟨111, 222, 333, 444, 555, 666, 777, 888⟩) 1234 =
        (⟨222, 333, 666, 777, 0, 0⟩, none) ∧
      someManager.getUsage (.ok ()) (printing 1234 ⟨111, 222, 333, 444, 555, 666, 777, 888⟩) 1234 =
        (⟨111, 555⟩, none) := by
  have hs : printing 1234 ⟨111, 222, 333, 444, 555, 666, 777, 888⟩ (someManager.repquotaCmd 1234) =
      .ok (repquota 1234 ⟨111, 222, 333, 444, 555, 666, 777, 888⟩) := rfl
  obtain ⟨hl, hu⟩ := quota_decoded_iff rfl rfl hs (by decide)
  exact ⟨hl.2 (by decide), hu.2 (by decide)⟩

/-- A user of 4 GiB: `GetLimits` fails on a field that it only skips. -/
theorem quota_large_usage_fails :
    (someManager.getLimits (.ok ())
      (printing 1234 ⟨4294967296, 0, 0, 0, 1, 0, 0, 0⟩) 1234).2 ≠ none := by
  decide

/-! ## SetLimits -/

/-- `QUOTA_BLOCK_SIZE` -/
def quotaBlockSize : UInt64 := 1024

/-- The blocks of a limit, from its bytes if they are given. -/
def blocksOf (bytes blocks : UInt64) : UInt64 :=
  if bytes ≠ 0 then (bytes + quotaBlockSize - 1) / quotaBlockSize else blocks

/-- The command of `SetLimits` -/
def setquotaCmd (m : LinuxQuotaManager) (uid : UInt32) (limits : DiskLimits) : Cmd where
  path := "setquota"
  args :=
    ["-u", toString uid.toNat, toString (blocksOf limits.byteSoft limits.blockSoft).toNat,
      toString (blocksOf limits.byteHard limits.blockHard).toNat, toString limits.inodeSoft.toNat,
      toString limits.inodeHard.toNat, m.mountPoint]

/-- `SetLimits`: the command that it runs, whose error it returns. -/
def setLimits (m : LinuxQuotaManager) (uid : UInt32) (limits : DiskLimits) : Option Cmd :=
  if !m.enabled then none else some (m.setquotaCmd uid limits)

/-- A limit in blocks: the least with the bytes, or the one that is given if there are none. -/
def RoundedUp (bytes given blocks : ℕ) : Prop :=
  if bytes ≠ 0 then IsLeast {b : ℕ | bytes ≤ 1024 * b} blocks else blocks = given

/-- What a command should give to `setquota`. -/
structure Rounded (limits : DiskLimits) (uid : UInt32) (mountPoint : String) (soft hard : ℕ)
    (cmd : Cmd) : Prop where
  path : cmd.path = "setquota"
  args : cmd.args = ["-u", toString uid.toNat, toString soft, toString hard,
    toString limits.inodeSoft.toNat, toString limits.inodeHard.toNat, mountPoint]
  softBlocks : RoundedUp limits.byteSoft.toNat limits.blockSoft.toNat soft
  hardBlocks : RoundedUp limits.byteHard.toNat limits.blockHard.toNat hard
  le : limits.byteSoft ≠ 0 → limits.byteHard ≠ 0 → limits.byteSoft ≤ limits.byteHard → soft ≤ hard

theorem isLeast_iff {bytes blocks : ℕ} :
    IsLeast {b : ℕ | bytes ≤ 1024 * b} blocks ↔ blocks = (bytes + 1023) / 1024 := by
  have hmem : (bytes + 1023) / 1024 ∈ {b : ℕ | bytes ≤ 1024 * b} := by
    show bytes ≤ 1024 * ((bytes + 1023) / 1024)
    omega
  constructor
  · intro h
    have hle := h.2 hmem
    have hge : bytes ≤ 1024 * blocks := h.1
    omega
  · rintro rfl
    refine ⟨hmem, fun b (hb : bytes ≤ 1024 * b) => ?_⟩
    omega

/-- **A limit is rounded up** iff the sum does not leave the 64 bits. -/
theorem roundedUp_iff (bytes blocks : UInt64) :
    RoundedUp bytes.toNat blocks.toNat (blocksOf bytes blocks).toNat ↔
      bytes.toNat ≤ 2 ^ 64 - 1024 := by
  have hlt := bytes.toNat_lt
  by_cases hzero : bytes = 0
  · subst hzero
    simp [RoundedUp, blocksOf]
  · have hpos : bytes.toNat ≠ 0 := fun h => hzero (UInt64.toNat_inj.1 h)
    have hblocks : (blocksOf bytes blocks).toNat =
        (2 ^ 64 - 1 + (bytes.toNat + 1024) % 2 ^ 64) % 2 ^ 64 / 1024 := by
      rw [blocksOf, if_pos hzero, UInt64.toNat_div, UInt64.toNat_sub, UInt64.toNat_add]
      rfl
    rw [RoundedUp, if_pos hpos, isLeast_iff, hblocks]
    omega

theorem RoundedUp.mono {bytes₁ given₁ blocks₁ bytes₂ given₂ blocks₂ : ℕ}
    (h₁ : RoundedUp bytes₁ given₁ blocks₁) (h₂ : RoundedUp bytes₂ given₂ blocks₂)
    (hne₁ : bytes₁ ≠ 0) (hne₂ : bytes₂ ≠ 0) (hle : bytes₁ ≤ bytes₂) : blocks₁ ≤ blocks₂ := by
  rw [RoundedUp, if_pos hne₁] at h₁
  rw [RoundedUp, if_pos hne₂] at h₂
  exact h₁.2 (hle.trans h₂.1)

/-- **Byte quotas are rounded up** iff they leave room for the sum in 64 bits. -/
theorem quotas_rounded_up_iff (hen : m.enabled = true) (limits : DiskLimits) :
    (∃ cmd soft hard, m.setLimits uid limits = some cmd ∧
        Rounded limits uid m.mountPoint soft hard cmd) ↔
      limits.byteSoft.toNat ≤ 2 ^ 64 - 1024 ∧ limits.byteHard.toNat ≤ 2 ^ 64 - 1024 := by
  have hset : m.setLimits uid limits = some (m.setquotaCmd uid limits) := by
    rw [setLimits, hen]
    rfl
  rw [← roundedUp_iff limits.byteSoft limits.blockSoft,
    ← roundedUp_iff limits.byteHard limits.blockHard, hset]
  constructor
  · rintro ⟨cmd, soft, hard, hcmd, h⟩
    cases hcmd
    -- the numbers are those of the texts
    have hargs := h.args
    simp only [setquotaCmd, List.cons.injEq, true_and] at hargs
    have hsoft := Decimal.toString_inj hargs.1
    have hhard := Decimal.toString_inj hargs.2.1
    exact ⟨hsoft ▸ h.softBlocks, hhard ▸ h.hardBlocks⟩
  · rintro ⟨hsoft, hhard⟩
    refine ⟨_, _, _, rfl, rfl, rfl, hsoft, hhard, fun hs hh hle => ?_⟩
    exact hsoft.mono hhard (fun h => hs (UInt64.toNat_inj.1 h)) (fun h => hh (UInt64.toNat_inj.1 h))
      (UInt64.le_iff_toNat_le.1 hle)

/-- Two thousand bytes are two blocks, and 2049 are three. -/
theorem quotas_rounded_up_small :
    ∃ cmd soft hard, someManager.setLimits 1234 ⟨0, 0, 11, 22, 2000, 2049⟩ = some cmd ∧
      Rounded ⟨0, 0, 11, 22, 2000, 2049⟩ 1234 "/some/mount/point" soft hard cmd :=
  (quotas_rounded_up_iff rfl _).2 (by decide)

/-- The largest number of bytes is no block, which is no limit. -/
theorem largest_quota_vanishes :
    (someManager.setLimits 1234 ⟨0, 0, 0, 0, 0, 18446744073709551615⟩).map Cmd.args =
      some ["-u", "1234", "0", "0", "0", "0", "/some/mount/point"] := by
  decide

end LinuxQuotaManager

end WardenLinux
