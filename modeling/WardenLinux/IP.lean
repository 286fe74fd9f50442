/-
  IP addresses and networks: the part of Go's `net` package the pools use, and
  `inc` (network.go, network_pool.go).

  An address is its bytes, 4 for IPv4 and 16 for IPv6; an IPv4 address may
  also stand in its 16-byte form, after the prefix `v4InV6Prefix`.  A network
  is an address and the length of its mask, as `net.ParseCIDR` returns it.

  * `val_inc`: `inc` adds one to the address read as a big-endian number, and
    wraps around at its length.
  * `val_mask`: a mask rounds the address, read as a number, down to a multiple
    of a power of two.
-/
import Mathlib.Data.Nat.Digits.Lemmas
import Mathlib.Data.List.Basic
import Mathlib.Tactic.IntervalCases

namespace WardenLinux

/-- `net.IP` -/
abbrev IP := List UInt8

/-- The first 12 bytes of an IPv4 address in 16-byte form. -/
def v4InV6Prefix : List UInt8 := [0, 0, 0, 0, 0, 0, 0, 0, 0, 0, 255, 255]

/-- `IP.To4`: the 4-byte form of an IPv4 address, none for an IPv6 one. -/
def IP.to4 (ip : IP) : Option IP :=
  if ip.length = 4 then some ip
  else if ip.length = 16 ∧ ip.take 12 = v4InV6Prefix then some (ip.drop 12)
  else none

/-- `net.ParseIP(ip.String())`: the same address, in 16-byte form. -/
def IP.reparse (ip : IP) : IP :=
  match ip.to4 with
  | some v4 => v4InV6Prefix ++ v4
  | none => ip

/-- The loop of `inc`, from the last byte on: `ip[j]++`, and stop unless the
    byte became zero. -/
def incLow : List UInt8 → List UInt8
  | [] => []
  | b :: bs => if b + 1 > 0 then (b + 1) :: bs else (b + 1) :: incLow bs

/-- `inc` -/
def inc (ip : IP) : IP := (incLow ip.reverse).reverse

/-- `ip.Mask(net.CIDRMask(n, 8 * len(ip)))` -/
def IP.mask : ℕ → IP → IP
  | _, [] => []
  | n, b :: bs => if 8 ≤ n then b :: IP.mask (n - 8) bs
      else (b &&& ~~~((255 : UInt8) >>> n.toUInt8)) :: IP.mask 0 bs

/-- `net.IPNet` with the mask given by its length. -/
structure IPNet where
  ip : IP
  ones : ℕ
  deriving DecidableEq, Repr

/-- The network of `net.ParseCIDR(ip.String() + "/n")`. -/
def parseCIDR (ip : IP) (n : ℕ) : IPNet :=
  ⟨IP.mask n (ip.to4.getD ip), n⟩

/-- `networkNumberAndMask`: an IPv4 network in 16-byte form drops the first 12
    bytes of its number and of its mask; bytes that are no address have no
    number. -/
def IPNet.numberAndMask (n : IPNet) : IP × ℕ :=
  match n.ip.to4 with
  | some v4 => (v4, if n.ip.length = 4 then n.ones else n.ones - 96)
  | none => if n.ip.length = 16 then (n.ip, n.ones) else ([], 0)

/-- `IPNet.String`: the text is the number, a slash and the length of the mask,
    and stands here for this pair. -/
def IPNet.string (n : IPNet) : IP × ℕ := n.numberAndMask

/-- The 16-bit groups of an address. -/
def IP.groups : IP → List ℕ
  | a :: b :: rest => (a.toNat * 256 + b.toNat) :: IP.groups rest
  | _ => []

/-- The first longest run of zero groups: where it starts and how long it is. -/
def longestZeros (gs : List ℕ) : ℕ × ℕ :=
  (List.range gs.length).foldl (fun best i =>
    let n := ((gs.drop i).takeWhile (· = 0)).length
    if n > best.2 then (i, n) else best) (0, 0)

/-- `IP.String`: dotted decimal, or groups in hexadecimal with one run of two
    or more zero groups left out. -/
def IP.string (ip : IP) : String :=
  let hex (gs : List ℕ) := ":".intercalate (gs.map fun g => String.ofList (Nat.toDigits 16 g))
  match ip.to4 with
  | some v4 => ".".intercalate (v4.map fun b => toString b.toNat)
  | none =>
    let gs := ip.groups
    let (i, n) := longestZeros gs
    if ip.length = 0 then "<nil>"
    else if ip.length ≠ 16 then
      "?" ++ String.join (ip.map fun b =>
        String.ofList [Nat.digitChar (b.toNat / 16), Nat.digitChar (b.toNat % 16)])
    else if n ≤ 1 then hex gs
    else hex (gs.take i) ++ "::" ++ hex (gs.drop (i + n))

/-- `IPNet.Contains` -/
def IPNet.contains (n : IPNet) (ip : IP) : Bool :=
  let nn := n.numberAndMask.1
  let m := n.numberAndMask.2
  let x := ip.to4.getD ip
  x.length = nn.length ∧ IP.mask m nn = IP.mask m x

/-! ## Addresses as numbers -/

/-- An address read as a big-endian number. -/
def IP.val (ip : IP) : ℕ := Nat.ofDigits 256 (ip.reverse.map UInt8.toNat)

theorem incLow_length : ∀ bs : List UInt8, (incLow bs).length = bs.length
  | [] => rfl
  | b :: bs => by
    unfold incLow
    split_ifs
    · rfl
    · simp [incLow_length bs]

theorem inc_length (ip : IP) : (inc ip).length = ip.length := by
  simp [inc, incLow_length]

theorem digits_lt (bs : List UInt8) : Nat.ofDigits 256 (bs.map UInt8.toNat) < 256 ^ bs.length := by
  have h := Nat.ofDigits_lt_base_pow_length (b := 256) (l := bs.map UInt8.toNat) (by norm_num)
    (fun x hx => by
      obtain ⟨b, -, rfl⟩ := List.mem_map.1 hx
      exact b.toNat_lt)
  simpa using h

theorem val_lt (ip : IP) : ip.val < 256 ^ ip.length := by
  simpa [IP.val] using digits_lt ip.reverse

theorem digits_incLow : ∀ bs : List UInt8,
    Nat.ofDigits 256 ((incLow bs).map UInt8.toNat) =
      (Nat.ofDigits 256 (bs.map UInt8.toNat) + 1) % 256 ^ bs.length
  | [] => by simp [incLow]
  | b :: bs => by
    have hlt := digits_lt bs
    have hb := b.toNat_lt
    have ih := digits_incLow bs
    simp only [incLow]
    split_ifs with h
    · -- the byte does not wrap, and the bytes above it stay
      have hne : b.toNat ≠ 255 := by
        intro he
        have : b = 255 := UInt8.toNat_inj.1 he
        subst this
        exact absurd h (by decide)
      have hadd : (b + 1).toNat = b.toNat + 1 := by
        rw [UInt8.toNat_add]; simp; omega
      simp only [List.map_cons, Nat.ofDigits_cons, List.length_cons, hadd, pow_succ]
      rw [Nat.mod_eq_of_lt]
      · omega
      · omega
    · -- the byte wraps to zero and carries
      have hz : b + 1 = 0 := by
        by_contra hne
        exact h (by
          rw [gt_iff_lt, UInt8.lt_iff_toNat_lt]
          exact Nat.pos_of_ne_zero fun h0 => hne (UInt8.toNat_inj.1 h0))
      have hb255 : b.toNat = 255 := by
        have := congrArg UInt8.toNat hz
        rw [UInt8.toNat_add] at this; simp at this; omega
      simp only [List.map_cons, Nat.ofDigits_cons, List.length_cons, hz, ih, hb255, pow_succ]
      have hm : 256 ^ bs.length * 256 = 256 * 256 ^ bs.length := Nat.mul_comm _ _
      rw [hm, show 255 + 256 * Nat.ofDigits 256 (bs.map UInt8.toNat) + 1 =
        256 * (Nat.ofDigits 256 (bs.map UInt8.toNat) + 1) by ring, Nat.mul_mod_mul_left]
      simp

/-- **`inc` adds one**, modulo the size of the address space. -/
theorem val_inc (ip : IP) : (inc ip).val = (ip.val + 1) % 256 ^ ip.length := by
  have := digits_incLow ip.reverse
  simpa [IP.val, inc] using this

theorem val_append (a b : IP) : IP.val (a ++ b) = a.val * 256 ^ b.length + b.val := by
  simp only [IP.val, List.reverse_append, List.map_append, Nat.ofDigits_append, List.length_map,
    List.length_reverse]
  ring

theorem val_cons (b : UInt8) (bs : IP) :
    IP.val (b :: bs) = b.toNat * 256 ^ bs.length + IP.val bs := by
  have h := val_append [b] bs
  simpa [IP.val] using h

theorem val_inj : ∀ {a b : IP}, a.length = b.length → a.val = b.val → a = b
  | [], [], _, _ => rfl
  | x :: a, y :: b, hl, hv => by
    have hl' : a.length = b.length := by simpa using hl
    rw [val_cons, val_cons, hl'] at hv
    have ha := val_lt a
    have hb := val_lt b
    rw [hl'] at ha
    have hpos : 0 < 256 ^ b.length := Nat.pow_pos (by decide)
    have hx : x.toNat = y.toNat := by
      have h₁ := congrArg (· / 256 ^ b.length) hv
      simp only [Nat.mul_comm _ (256 ^ b.length), Nat.mul_add_div hpos, Nat.div_eq_of_lt ha,
        Nat.div_eq_of_lt hb, Nat.add_zero] at h₁
      exact h₁
    rw [hx] at hv
    rw [UInt8.toNat_inj.1 hx, val_inj hl' (Nat.add_left_cancel hv)]

/-- The IPv4 address with a given number. -/
def v4 (n : ℕ) : IP := [(n / 2 ^ 24).toUInt8, (n / 2 ^ 16).toUInt8, (n / 2 ^ 8).toUInt8, n.toUInt8]

theorem v4_length (n : ℕ) : (v4 n).length = 4 := rfl

theorem val_v4 {n : ℕ} (h : n < 2 ^ 32) : (v4 n).val = n := by
  simp [v4, IP.val, Nat.ofDigits_cons]
  omega

/-! ## Subnets -/

theorem to4_of_length {ip : IP} (h : ip.length = 4) : ip.to4 = some ip := by
  simp [IP.to4, h]

/-- A 16-byte address is an IPv4 one iff its upper 12 bytes are the prefix. -/
theorem to4_append {v4 : IP} (h : v4.length = 4) (p : List UInt8) (hp : p.length = 12) :
    IP.to4 (p ++ v4) = if p = v4InV6Prefix then some v4 else none := by
  have h12 : (p ++ v4).take 12 = p := by rw [← hp]; simp
  have hd : (p ++ v4).drop 12 = v4 := by rw [← hp]; simp
  simp [IP.to4, h, hp, h12, hd]

theorem mask_length : ∀ (n : ℕ) (ip : IP), (IP.mask n ip).length = ip.length
  | _, [] => rfl
  | n, b :: bs => by
    unfold IP.mask
    split_ifs <;> simp [mask_length _ bs]

theorem mask_zero : ∀ ip : IP, IP.mask 0 ip = List.replicate ip.length 0
  | [] => rfl
  | b :: bs => by
    have h : ~~~((255 : UInt8) >>> Nat.toUInt8 0) = 0 := by decide
    rw [IP.mask, if_neg (by omega), h, mask_zero bs]
    simp [List.replicate_succ]

theorem mask30 (a b c d : UInt8) (bs : List UInt8) :
    IP.mask 30 (a :: b :: c :: d :: bs) =
      a :: b :: c :: (d &&& 252) :: List.replicate bs.length 0 := by
  have h : ~~~((255 : UInt8) >>> 6) = 252 := by decide
  simp [IP.mask, h, mask_zero]

theorem byte_mask {n : ℕ} (hn : n < 8) (b : UInt8) :
    (b &&& ~~~((255 : UInt8) >>> n.toUInt8)).toNat = b.toNat / 2 ^ (8 - n) * 2 ^ (8 - n) := by
  have key : ∀ n < 8, ∀ m < 256, m &&& (~~~((255 : UInt8) >>> n.toUInt8)).toNat =
      m / 2 ^ (8 - n) * 2 ^ (8 - n) := by decide +kernel
  rw [UInt8.toNat_and]
  exact key n hn b.toNat b.toNat_lt

/-- **A mask rounds down**, to a multiple of the size of the network. -/
theorem val_mask : ∀ (n : ℕ) (ip : IP), n ≤ 8 * ip.length →
    (IP.mask n ip).val = ip.val / 2 ^ (8 * ip.length - n) * 2 ^ (8 * ip.length - n)
  | n, [], _ => by simp [IP.mask, IP.val]
  | n, b :: bs, h => by
    rw [List.length_cons] at h ⊢
    have hlt := val_lt bs
    have h256 : (256 : ℕ) ^ bs.length = 2 ^ (8 * bs.length) := by rw [pow_mul]; norm_num
    unfold IP.mask
    split_ifs with h8
    · -- the first byte stays
      have ih := val_mask (n - 8) bs (by omega)
      rw [val_cons, val_cons, mask_length, ih,
        show 8 * (bs.length + 1) - n = 8 * bs.length - (n - 8) by omega]
      set k := 8 * bs.length - (n - 8) with hk
      have hdvd : 2 ^ k ∣ 256 ^ bs.length := by
        rw [h256]
        exact pow_dvd_pow 2 (by omega)
      obtain ⟨c, hc⟩ := hdvd
      rw [hc, ← Nat.mul_assoc, Nat.mul_comm b.toNat, Nat.mul_assoc, Nat.mul_add_div (by positivity)]
      rw [Nat.add_mul, Nat.mul_comm (2 ^ k)]
    · -- the mask ends in the first byte
      rw [val_cons, val_cons, mask_length, byte_mask (by omega), mask_zero]
      have hz : IP.val (List.replicate bs.length 0) = 0 := by
        have h := val_mask 0 bs (Nat.zero_le _)
        rw [mask_zero, Nat.sub_zero, ← h256, Nat.div_eq_of_lt hlt, Nat.zero_mul] at h
        exact h
      have hsplit : 8 * (bs.length + 1) - n = (8 - n) + 8 * bs.length := by omega
      rw [hz, hsplit, Nat.pow_add, ← h256, Nat.mul_comm (2 ^ (8 - n)), ← Nat.div_div_eq_div_mul,
        Nat.mul_comm b.toNat, Nat.mul_add_div (by positivity), Nat.div_eq_of_lt hlt,
        Nat.add_zero, Nat.add_zero, Nat.mul_assoc, Nat.mul_comm (2 ^ (8 - n))]

theorem mask_eq_self_iff {n : ℕ} {ip : IP} (h : n ≤ 8 * ip.length) :
    IP.mask n ip = ip ↔ 2 ^ (8 * ip.length - n) ∣ ip.val := by
  have hv := val_mask n ip h
  constructor
  · intro he
    rw [he] at hv
    exact ⟨_, hv.trans (Nat.mul_comm _ _)⟩
  · intro hd
    rw [Nat.div_mul_cancel hd] at hv
    exact val_inj (mask_length n ip) hv

theorem mask_eq_iff {n : ℕ} {a b : IP} (h : n ≤ 8 * a.length) (hl : a.length = b.length) :
    IP.mask n a = IP.mask n b ↔
      a.val / 2 ^ (8 * a.length - n) = b.val / 2 ^ (8 * a.length - n) := by
  have ha := val_mask n a h
  have hb := val_mask n b (hl ▸ h)
  rw [← hl] at hb
  constructor
  · intro he
    rw [he, hb] at ha
    exact (Nat.eq_of_mul_eq_mul_right (Nat.pow_pos (by decide)) ha).symm
  · intro he
    rw [he, ← hb] at ha
    exact val_inj (by rw [mask_length, mask_length, hl]) ha

/-- A /30 mask rounds an IPv4 address down to a multiple of 4. -/
theorem val_mask30 {ip : IP} (h : ip.length = 4) : (IP.mask 30 ip).val = ip.val / 4 * 4 := by
  have hv := val_mask 30 ip (by omega)
  rw [h] at hv
  exact hv

/-- The /30 of a 16-byte address is not an IPv4 address. -/
theorem to4_mask30 {ip : IP} (h : ip.length = 16) : (IP.mask 30 ip).to4 = none := by
  match ip, h with
  | a :: b :: c :: d :: bs, h =>
    have hbs : bs.length = 12 := by simpa using h
    rw [mask30, hbs]
    simp [IP.to4, v4InV6Prefix, List.replicate]

end WardenLinux
