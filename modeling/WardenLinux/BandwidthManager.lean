/-
  The bandwidth manager (bandwidth_manager.go) and net_rate.sh, which it runs.

  `SetLimits` gives the script the rate in bits and the burst, and `GetLimits` reads
  them back from what `tc` prints, a number with or without a suffix.  In Go `^` is
  the exclusive or: a suffix M multiplies by 1026 and G by 1027.

  * `netRate_setLimits`: what `tc` is given.
  * `rates_of_reports`: what is read from a report.
  * `limits_read_back_iff`: when the limits that were set are read back.
-/
import WardenLinux.Lib.Decimal
import WardenLinux.Lib.Pattern
import WardenLinux.World

namespace WardenLinux

open Pattern

/-- `warden.ContainerBandwidthStat` -/
structure ContainerBandwidthStat where
  inRate : UInt64 := 0
  inBurst : UInt64 := 0
  outRate : UInt64 := 0
  outBurst : UInt64 := 0
  deriving DecidableEq, Repr

/-- `ContainerBandwidthManager` -/
structure ContainerBandwidthManager where
  containerPath : String
  containerID : String
  deriving DecidableEq, Repr

/-! ## The patterns -/

/-- `[0-9a-f]` -/
def isHex (c : Char) : Bool := c.isDigit || ('a' ≤ c && c ≤ 'f')

/-- `[KMG]` -/
def isUnit (c : Char) : Bool := c == 'K' || c == 'M' || c == 'G'

/-- `(\d+)([KMG]?)bit burst (\d+)([KMG]?)b`, the end of both patterns -/
def ratePattern : List (Item Char) :=
  [.run Char.isDigit true, .opt isUnit, .lit "bit burst ".toList, .run Char.isDigit true,
    .opt isUnit, .lit "b".toList]

/-- `IN_RATE_PATTERN` -/
def inRatePattern : List (Item Char) :=
  [.lit "qdisc tbf ".toList, .run isHex false, .lit ": root refcnt ".toList,
    .run Char.isDigit false, .lit " rate ".toList] ++ ratePattern

/-- `OUT_RATE_PATTERN` -/
def outRatePattern : List (Item Char) :=
  [.lit "police 0x".toList, .run isHex false, .lit " rate ".toList] ++ ratePattern

/-! ## The manager -/

/-- `strconv.ParseUint(s, 10, 0)`; the patterns leave only numbers that are too large. -/
def parseUint (s : List Char) : Except Err UInt64 :=
  match Decimal.parse 64 s with
  | some n => .ok n.toUInt64
  | none => .error (.external "value out of range")

/-- `convertUnits`, with `^` as it is in Go. -/
def convertUnits (num : UInt64) (unit : List Char) : UInt64 :=
  match unit with
  | ['K'] => num * 1024
  | ['M'] => num * (1024 ^^^ 2)
  | ['G'] => num * (1024 ^^^ 3)
  | _ => num

/-- What is read from the output of `tc`: the rate, in bytes, and the burst. -/
def rates (pattern : List (Item Char)) (out : List Char) : Except Err (Option (UInt64 × UInt64)) :=
  match find pattern out with
  | some [rate, rateUnit, burst, burstUnit] => do
    let rate ← parseUint rate
    let burst ← parseUint burst
    return some (convertUnits rate rateUnit / 8, convertUnits burst burstUnit)
  | _ => return none

namespace ContainerBandwidthStat

def setIn (limits : ContainerBandwidthStat) : Option (UInt64 × UInt64) → ContainerBandwidthStat
  | some (rate, burst) => { limits with inRate := rate, inBurst := burst }
  | none => limits

def setOut (limits : ContainerBandwidthStat) : Option (UInt64 × UInt64) → ContainerBandwidthStat
  | some (rate, burst) => { limits with outRate := rate, outBurst := burst }
  | none => limits

end ContainerBandwidthStat

namespace ContainerBandwidthManager

/-- The command of `SetLimits`; the product is one of 64 bits. -/
def setLimitsCmd (m : ContainerBandwidthManager) (limits : BandwidthLimits) : Cmd where
  path := pathJoin [m.containerPath, "net_rate.sh"]
  env :=
    ["BURST=" ++ toString limits.burstRateInBytesPerSecond.toNat,
      "RATE=" ++ toString (limits.rateInBytesPerSecond * 8).toNat]

/-- The commands of `GetLimits` -/
def infoCmd (m : ContainerBandwidthManager) (action : String) : Cmd where
  path := pathJoin [m.containerPath, "net.sh"]
  args := [action]
  env := ["ID=" ++ m.containerID]

def egress (m : ContainerBandwidthManager) : Cmd := m.infoCmd "get_egress_info"

def ingress (m : ContainerBandwidthManager) : Cmd := m.infoCmd "get_ingress_info"

/-- `GetLimits`; `run` gives the output of a command. -/
def getLimits (m : ContainerBandwidthManager) (run : Cmd → Except Err (List Char)) :
    ContainerBandwidthStat × Option Err :=
  match run m.egress with
  | .error err => ({}, some err)
  | .ok egressOut =>
    match rates inRatePattern egressOut with
    | .error err => ({}, some err)
    | .ok matched =>
      let limits := ContainerBandwidthStat.setIn {} matched
      match run m.ingress with
      | .error err => (limits, some err)
      | .ok ingressOut =>
        match rates outRatePattern ingressOut with
        | .error err => (limits, some err)
        | .ok matched => (limits.setOut matched, none)

end ContainerBandwidthManager

/-! ## net_rate.sh -/

/-- `$name`, none when it is not set. -/
def getenv (name : String) (env : List String) : Option (List Char) :=
  env.findSome? fun e =>
    if name.toList ++ ['='] <+: e.toList then
      some (e.toList.drop (name.toList ++ ['=']).length) else none

/-- What `tc` is given: `rate ${RATE}bit burst ${BURST}`. -/
structure TcArgs where
  rate : List Char
  burst : List Char
  deriving DecidableEq, Repr

/-- What net_rate.sh gives to `tc`, none when it exits before. -/
def netRate (env : List String) : Option TcArgs := do
  let rate ← getenv "RATE" env
  guard (rate ≠ [])
  let burst ← getenv "BURST" env
  guard (burst ≠ [])
  return ⟨rate, burst⟩

theorem getenv_cons_self {name key : String} (hkey : key.toList = name.toList ++ ['=']) (n : ℕ)
    (env : List String) :
    getenv name ((key ++ toString n) :: env) = some (Nat.toDigits 10 n) := by
  have htext : (key ++ toString n).toList = name.toList ++ ['='] ++ Nat.toDigits 10 n := by
    rw [String.toList_append, hkey]
    exact congrArg _ Nat.toList_repr
  rw [getenv, List.findSome?_cons, htext, if_pos (List.prefix_append _ _), List.drop_left]

/-- **What `tc` is given**: the rate in bits, of which 64 are left, and the burst. -/
theorem netRate_setLimits (m : ContainerBandwidthManager) (limits : BandwidthLimits) :
    netRate (m.setLimitsCmd limits).env =
      some ⟨Nat.toDigits 10 (limits.rateInBytesPerSecond * 8).toNat,
        Nat.toDigits 10 limits.burstRateInBytesPerSecond.toNat⟩ := by
  have hburst : getenv "BURST" (m.setLimitsCmd limits).env =
      some (Nat.toDigits 10 limits.burstRateInBytesPerSecond.toNat) :=
    getenv_cons_self (by simp) _ _
  have hrate : getenv "RATE" (m.setLimitsCmd limits).env =
      some (Nat.toDigits 10 (limits.rateInBytesPerSecond * 8).toNat) := by
    rw [getenv, ContainerBandwidthManager.setLimitsCmd, List.findSome?_cons, if_neg]
    · exact getenv_cons_self (by simp) _ []
    · rw [String.toList_append]
      simp
  rw [netRate, hrate, hburst]
  simp [Nat.toDigits_ne_nil, guard]

/-! ## Reports -/

/-- The suffix of a number. -/
inductive Suffix where
  | none | K | M | G
  deriving DecidableEq, Repr

namespace Suffix

def text : Suffix → List Char
  | none => []
  | K => ['K']
  | M => ['M']
  | G => ['G']

/-- What it stands for. -/
def factor : Suffix → ℕ
  | none => 1
  | K => 1024
  | M => 1024 ^ 2
  | G => 1024 ^ 3

end Suffix

/-- A number as `tc` prints it. -/
structure Amount where
  digits : List Char
  suffix : Suffix
  ne_nil : digits ≠ [] := by decide
  isDigit : digits.all Char.isDigit = true := by decide

namespace Amount

/-- The number in front of the suffix. -/
def number (a : Amount) : ℕ := Nat.ofDigitChars 10 a.digits 0

def value (a : Amount) : ℕ := a.number * a.suffix.factor

/-- What the groups capture of a rate and a burst. -/
def groups (rate burst : Amount) : List (List Char) :=
  [rate.digits, rate.suffix.text, burst.digits, burst.suffix.text]

/-- The suffix is one that `convertUnits` knows, or does not matter. -/
def Converted (a : Amount) : Prop :=
  a.suffix = .none ∨ a.suffix = .K ∨ a.number = 0

instance (a : Amount) : Decidable a.Converted := inferInstanceAs (Decidable (_ ∨ _))

end Amount

/-- An output that reports a rate and a burst: its first text of the pattern's shape is about
    them. -/
def Reports (pattern : List (Item Char)) (rate burst : Amount) (out : List Char) : Prop :=
  ∃ before line after, out = before ++ (line ++ after) ∧
    First pattern (Amount.groups rate burst) before line after

theorem isUnit_of_isDigit {c : Char} (hc : c.isDigit = true) : isUnit c = false := by
  by_contra h
  simp only [isUnit, Bool.not_eq_false, Bool.or_eq_true, beq_iff_eq] at h
  rcases h with (rfl | rfl) | rfl <;> nomatch hc

/-- A number ends at its suffix, or at what comes after it. -/
theorem not_starts_unit {c d : Char} {t : List Char} {p : List (Item Char)}
    (hd : d.isDigit = false) (hc : c.isDigit = true) :
    starts (.opt isUnit :: .lit (d :: t) :: p) c = false := by
  rw [starts, isUnit_of_isDigit hc, Bool.false_or]
  exact not_starts_lit hd hc

theorem ratePattern_determinate : Determinate ratePattern :=
  ⟨fun _ => not_starts_unit rfl, fun _ => not_starts_lit rfl, fun _ => not_starts_unit rfl,
    fun _ => not_starts_lit rfl, trivial⟩

theorem inRatePattern_determinate : Determinate inRatePattern :=
  ⟨fun _ => not_starts_lit rfl, fun _ => not_starts_lit rfl, ratePattern_determinate⟩

theorem outRatePattern_determinate : Determinate outRatePattern :=
  ⟨fun _ => not_starts_lit rfl, ratePattern_determinate⟩

/-! ## What is read back -/

namespace Suffix

/-- What `convertUnits` multiplies by. -/
def multiplier : Suffix → ℕ
  | none => 1
  | K => 1024
  | M => 1026
  | G => 1027

theorem multiplier_le (u : Suffix) : u.multiplier ≤ u.factor := by
  cases u <;> decide

theorem one_le_factor (u : Suffix) : 1 ≤ u.factor := by
  cases u <;> decide

end Suffix

theorem convertUnits_text (num : UInt64) (u : Suffix) :
    convertUnits num u.text = num * u.multiplier.toUInt64 := by
  cases u with
  | none => exact (UInt64.mul_one num).symm
  | K => rfl
  | M => rfl
  | G => rfl

namespace Amount
variable {a : Amount}

theorem number_le_value : a.number ≤ a.value :=
  Nat.le_mul_of_pos_right _ a.suffix.one_le_factor

theorem parseUint_digits (h : a.value < 2 ^ 64) : parseUint a.digits = .ok a.number.toUInt64 := by
  have hlt : Nat.ofDigitChars 10 a.digits 0 < 2 ^ 64 := number_le_value.trans_lt h
  rw [parseUint, Decimal.parse, if_pos ⟨a.ne_nil, a.isDigit⟩, if_pos hlt]
  rfl

/-- What a number is converted to. -/
def converted (a : Amount) : UInt64 := convertUnits a.number.toUInt64 a.suffix.text

/-- The product of `convertUnits` does not overflow: what the suffix stands for is more. -/
theorem toNat_converted (h : a.value < 2 ^ 64) :
    a.converted.toNat = a.number * a.suffix.multiplier := by
  have hle : a.number * a.suffix.multiplier ≤ a.value :=
    Nat.mul_le_mul_left _ a.suffix.multiplier_le
  have hmul : a.suffix.multiplier < 2 ^ 64 := by
    cases a.suffix <;> decide
  rw [converted, convertUnits_text, UInt64.toNat_mul, UInt64.toNat_ofNat', UInt64.toNat_ofNat',
    Nat.mod_eq_of_lt (number_le_value.trans_lt h), Nat.mod_eq_of_lt hmul,
    Nat.mod_eq_of_lt (hle.trans_lt h)]

/-- **A number is converted to what it stands for**, but for a suffix M or G. -/
theorem toNat_converted_eq_iff (h : a.value < 2 ^ 64) :
    a.converted.toNat = a.value ↔ a.Converted := by
  rw [toNat_converted h, value, Converted]
  cases a.suffix with
  | none => simp [Suffix.multiplier, Suffix.factor]
  | K => simp [Suffix.multiplier, Suffix.factor]
  | M =>
    simp only [Suffix.multiplier, Suffix.factor, reduceCtorEq, false_or]
    omega
  | G =>
    simp only [Suffix.multiplier, Suffix.factor, reduceCtorEq, false_or]
    omega

theorem burst_eq_iff {burst : UInt64} (h : a.value = burst.toNat) :
    a.converted = burst ↔ a.Converted := by
  rw [← UInt64.toNat_inj, ← h]
  exact toNat_converted_eq_iff (h ▸ burst.toNat_lt)

/-- The eighth part of a number, with the bits that were lost. -/
theorem rate_eq_iff {rate : UInt64} (h : a.value = (rate * 8).toNat) :
    a.converted / 8 = rate ↔ rate.toNat < 2 ^ 61 ∧ a.Converted := by
  have hlt : a.value < 2 ^ 64 := h ▸ (rate * 8).toNat_lt
  have hbits : a.value = rate.toNat * 8 % 2 ^ 64 := by
    rw [h, UInt64.toNat_mul]
    rfl
  have hle : a.converted.toNat ≤ a.value := by
    rw [toNat_converted hlt]
    exact Nat.mul_le_mul_left _ a.suffix.multiplier_le
  rw [← toNat_converted_eq_iff hlt, ← UInt64.toNat_inj, UInt64.toNat_div,
    show (8 : UInt64).toNat = 8 from rfl]
  -- no more than what is lost of the rate is left out by the division
  omega

end Amount

theorem rates_of_reports {pattern : List (Item Char)} (hp : Determinate pattern)
    {rate burst : Amount} {out : List Char} (h : Reports pattern rate burst out)
    (hrate : rate.value < 2 ^ 64) (hburst : burst.value < 2 ^ 64) :
    rates pattern out = .ok (some (rate.converted / 8, burst.converted)) := by
  rw [rates, (find_iff hp).2 h]
  simp only [Amount.groups, Amount.parseUint_digits hrate, Amount.parseUint_digits hburst]
  rfl

/-- What `tc` was given, in a report. -/
structure TcArgs.Reported (tc : TcArgs) (rate burst : Amount) : Prop where
  rate : rate.value = Nat.ofDigitChars 10 tc.rate 0
  burst : burst.value = Nat.ofDigitChars 10 tc.burst 0

namespace ContainerBandwidthManager
variable (m : ContainerBandwidthManager) (limits : BandwidthLimits)
  (run : Cmd → Except Err (List Char)) {tc : TcArgs} {egressOut ingressOut : List Char}
  {inRate inBurst outRate outBurst : Amount}

/-- What `GetLimits` should return. -/
def expected : ContainerBandwidthStat × Option Err :=
  (⟨limits.rateInBytesPerSecond, limits.burstRateInBytesPerSecond,
    limits.rateInBytesPerSecond, limits.burstRateInBytesPerSecond⟩, none)

theorem reported_values (htc : netRate (m.setLimitsCmd limits).env = some tc) {rate burst : Amount}
    (h : tc.Reported rate burst) :
    rate.value = (limits.rateInBytesPerSecond * 8).toNat ∧
      burst.value = limits.burstRateInBytesPerSecond.toNat := by
  rw [netRate_setLimits, Option.some.injEq] at htc
  subst htc
  exact ⟨h.rate.trans Nat.ofDigitChars_ten_toDigits, h.burst.trans Nat.ofDigitChars_ten_toDigits⟩

/-- **The limits are read back** iff the rate in bits has no more than 64 of them, and no
    number but 0 is reported with a suffix M or G. -/
theorem limits_read_back_iff (htc : netRate (m.setLimitsCmd limits).env = some tc)
    (hegress : run m.egress = .ok egressOut) (hingress : run m.ingress = .ok ingressOut)
    (hin : Reports inRatePattern inRate inBurst egressOut)
    (hout : Reports outRatePattern outRate outBurst ingressOut)
    (hinTc : tc.Reported inRate inBurst) (houtTc : tc.Reported outRate outBurst) :
    m.getLimits run = expected limits ↔
      limits.rateInBytesPerSecond.toNat < 2 ^ 61 ∧
        (inRate.Converted ∧ inBurst.Converted) ∧ outRate.Converted ∧ outBurst.Converted := by
  obtain ⟨hinRate, hinBurst⟩ := m.reported_values limits htc hinTc
  obtain ⟨houtRate, houtBurst⟩ := m.reported_values limits htc houtTc
  have hinRates := rates_of_reports inRatePattern_determinate hin (hinRate ▸ UInt64.toNat_lt _)
    (hinBurst ▸ UInt64.toNat_lt _)
  have houtRates := rates_of_reports outRatePattern_determinate hout (houtRate ▸ UInt64.toNat_lt _)
    (houtBurst ▸ UInt64.toNat_lt _)
  have hget : m.getLimits run =
      (⟨inRate.converted / 8, inBurst.converted, outRate.converted / 8, outBurst.converted⟩,
        none) := by
    simp only [getLimits, hegress, hingress, hinRates, houtRates]
    rfl
  rw [hget, expected, Prod.mk.injEq, ContainerBandwidthStat.mk.injEq, Amount.rate_eq_iff hinRate,
    Amount.burst_eq_iff hinBurst, Amount.rate_eq_iff houtRate, Amount.burst_eq_iff houtBurst]
  tauto

end ContainerBandwidthManager

/-! ## What `tc` prints -/

theorem matches_suffix {p : List (Item Char)} {gs : List (List Char)} {w : List Char}
    (h : Matches p gs w) (u : Suffix) :
    Matches (.opt isUnit :: p) (u.text :: gs) (u.text ++ w) := by
  cases u with
  | none => exact .none h
  | K => exact .some rfl h
  | M => exact .some rfl h
  | G => exact .some rfl h

/-- The end of a line. -/
def rateText (rate burst : Amount) : List Char :=
  rate.digits ++ (rate.suffix.text ++ ("bit burst ".toList ++
    (burst.digits ++ (burst.suffix.text ++ ("b".toList ++ [])))))

theorem matches_rateText (rate burst : Amount) :
    Matches ratePattern (Amount.groups rate burst) (rateText rate burst) :=
  have hburst := List.all_eq_true.1 burst.isDigit
  have hrate := List.all_eq_true.1 rate.isDigit
  .run rate.ne_nil hrate (matches_suffix (.lit
    (.run burst.ne_nil hburst (matches_suffix (.lit .nil) burst.suffix))) rate.suffix)

def inLine (rate burst : Amount) : List Char :=
  "qdisc tbf ".toList ++ ("8001".toList ++ (": root refcnt ".toList ++ ("2".toList ++
    (" rate ".toList ++ rateText rate burst))))

def outLine (rate burst : Amount) : List Char :=
  "police 0x".toList ++ ("1".toList ++ (" rate ".toList ++ rateText rate burst))

/-- The output of net.sh, with what `tc` prints after a rate and a burst. -/
def tcShow (rate burst : Amount) (cmd : Cmd) : Except Err (List Char) :=
  if cmd.args = ["get_egress_info"] then .ok (inLine rate burst ++ " lat 25.0ms\n".toList)
  else .ok (outLine rate burst ++ " mtu 2Kb action drop\n".toList)

theorem reports_inLine (rate burst : Amount) (after : List Char) :
    Reports inRatePattern rate burst (inLine rate burst ++ after) := by
  refine ⟨[], inLine rate burst, after, rfl, ?_, fun b c hbc hne => ?_⟩
  · exact .lit (.run (by decide) (List.all_eq_true.1 (by decide)) (.lit (.run (by decide)
      (List.all_eq_true.1 (by decide)) (.lit (matches_rateText rate burst)))))
  · exact absurd (List.append_eq_nil_iff.1 hbc.symm).2 hne

theorem reports_outLine (rate burst : Amount) (after : List Char) :
    Reports outRatePattern rate burst (outLine rate burst ++ after) := by
  refine ⟨[], outLine rate burst, after, rfl, ?_, fun b c hbc hne => ?_⟩
  · exact .lit (.run (by decide) (List.all_eq_true.1 (by decide))
      (.lit (matches_rateText rate burst)))
  · exact absurd (List.append_eq_nil_iff.1 hbc.symm).2 hne

namespace ContainerBandwidthManager

/-- A rate of 125000 bytes and a burst of ten kibibytes. -/
theorem ten_kibibytes_read_back :
    (ContainerBandwidthManager.mk "/containers/a" "a").getLimits
        (tcShow ⟨['1', '0', '0', '0', '0', '0', '0'], .none, by decide, by decide⟩
          ⟨['1', '0'], .K, by decide, by decide⟩) =
      expected ⟨125000, 10240⟩ :=
  (limits_read_back_iff _ _ _ (netRate_setLimits _ _) rfl rfl (reports_inLine _ _ _)
    (reports_outLine _ _ _) ⟨by decide +kernel, by decide +kernel⟩
    ⟨by decide +kernel, by decide +kernel⟩).2 (by decide)

/-- A mebibyte, reported as 1Mb, is read as 1026 bytes; of 2^61 bytes, no bit is given to `tc`. -/
theorem mebibyte_read_as_1026 :
    let m := ContainerBandwidthManager.mk "/containers/a" "a"
    let rate : Amount := ⟨['8'], .M, by decide, by decide⟩
    let burst : Amount := ⟨['1'], .M, by decide, by decide⟩
    (∃ tc, netRate (m.setLimitsCmd ⟨1048576, 1048576⟩).env = some tc ∧ tc.Reported rate burst) ∧
    (∃ out, tcShow rate burst m.egress = .ok out ∧ Reports inRatePattern rate burst out) ∧
    (∃ out, tcShow rate burst m.ingress = .ok out ∧ Reports outRatePattern rate burst out) ∧
    m.getLimits (tcShow rate burst) = (⟨1026, 1026, 1026, 1026⟩, none) ∧
    netRate (m.setLimitsCmd ⟨2305843009213693952, 1⟩).env = some ⟨['0'], ['1']⟩ := by
  refine ⟨⟨_, netRate_setLimits _ _, ?_, ?_⟩, ⟨_, rfl, reports_inLine _ _ _⟩,
    ⟨_, rfl, reports_outLine _ _ _⟩, ?_, netRate_setLimits _ _⟩
  · decide +kernel
  · decide +kernel
  · decide +kernel

end ContainerBandwidthManager

end WardenLinux
