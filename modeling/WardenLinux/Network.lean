/-
  The networks of containers (network.go) and the subnets of a pool's range
  (`nextSubnet`, network_pool.go).

  `nextSubnet_carry`: the subnet after an IPv4 /30 is the next /30; after the
  last one of the address space comes an IPv6 network, which no IPv4 range
  contains (`contains_length`).  `nextSubnet_v6`: the /30 of an IPv6 range is its own
  successor.
-/
import WardenLinux.IP

namespace WardenLinux

/-- `network.Network` -/
structure Network where
  ipNet : IPNet
  hostIP : IP
  containerIP : IP
  deriving DecidableEq, Repr

namespace Network

/-- `nextIP` -/
def nextIP (ip : IP) : IP := inc ip.reparse

/-- `network.New` -/
def new (ipNet : IPNet) : Network where
  ipNet := ipNet
  hostIP := nextIP ipNet.ip
  containerIP := nextIP (nextIP ipNet.ip)

theorem hostIP_new (ipNet : IPNet) : (new ipNet).hostIP = nextIP ipNet.ip := rfl

theorem containerIP_new (ipNet : IPNet) : (new ipNet).containerIP = nextIP (nextIP ipNet.ip) := rfl

/-- `Network.String` -/
def string (n : Network) : IP × ℕ := n.ipNet.string

/-- `Network.IP` -/
def ip (n : Network) : IP := n.ipNet.ip

end Network

/-- `nextSubnet` -/
def nextSubnet (ipNet : IPNet) : IPNet :=
  parseCIDR (inc (inc (inc (inc ipNet.ip.reparse)))) 30

/-! ## The subnets of a range -/

theorem val_inc4 {ip : IP} (h : ip.val + 4 < 256 ^ ip.length) :
    (inc (inc (inc (inc ip)))).val = ip.val + 4 := by
  simp only [val_inc, inc_length]
  rw [Nat.mod_eq_of_lt (a := ip.val + 1) (by omega), Nat.mod_eq_of_lt (a := ip.val + 1 + 1) (by omega),
    Nat.mod_eq_of_lt (a := ip.val + 1 + 1 + 1) (by omega), Nat.mod_eq_of_lt (by omega)]

theorem prefix_val : IP.val v4InV6Prefix = 65535 := by decide +kernel

theorem reparse_v4 {ip : IP} (h : ip.length = 4) : ip.reparse = v4InV6Prefix ++ ip := by
  simp [IP.reparse, to4_of_length h]

theorem val_reparse_v4 {ip : IP} (h : ip.length = 4) :
    IP.val ip.reparse = 65535 * 2 ^ 32 + ip.val := by
  rw [reparse_v4 h, val_append, prefix_val, h]
  norm_num

/-- A 16-byte address above the first IPv4 one: its last 4 bytes while there is
    no carry out of them, and an IPv6 address after that. -/
theorem to4_of_val {w : IP} {m : ℕ} (hl : w.length = 16) (hv : w.val = 65535 * 2 ^ 32 + m) :
    (m < 2 ^ 32 → w.to4 = some (v4 m)) ∧ (2 ^ 32 ≤ m → w.to4 = none) := by
  have hdl : (w.drop 12).length = 4 := by simp [hl]
  have htl : (w.take 12).length = 12 := by simp [hl]
  have hsplit : w.val = IP.val (w.take 12) * 2 ^ 32 + IP.val (w.drop 12) := by
    conv_lhs => rw [← List.take_append_drop 12 w]
    rw [val_append, hdl]
    norm_num
  have hto4 : w.to4 = if w.take 12 = v4InV6Prefix then some (w.drop 12) else none := by
    conv_lhs => rw [← List.take_append_drop 12 w]
    exact to4_append hdl _ htl
  have hdlt := val_lt (w.drop 12)
  rw [hdl] at hdlt
  rw [hto4]
  constructor
  · intro hm
    have ht : w.take 12 = v4InV6Prefix := by
      refine val_inj (htl.trans rfl) ?_
      rw [prefix_val]
      omega
    have hd : w.drop 12 = v4 m := by
      refine val_inj hdl ?_
      rw [val_v4 hm]
      rw [ht, prefix_val] at hsplit
      omega
    rw [if_pos ht, hd]
  · intro hm
    refine if_neg fun ht => ?_
    rw [ht, prefix_val] at hsplit
    omega

/-- `nextIP` of an IPv4 address other than the last one. -/
theorem to4_nextIP {ip w : IP} (h : ip.to4 = some w) (hl : w.length = 4)
    (hlt : w.val + 1 < 2 ^ 32) : (Network.nextIP ip).to4 = some (v4 (w.val + 1)) := by
  have hr : ip.reparse = w.reparse := by simp [IP.reparse, h, to4_of_length hl]
  have h16 : w.reparse.length = 16 := by simp [reparse_v4 hl, v4InV6Prefix, hl]
  refine (to4_of_val (by rw [Network.nextIP, inc_length, hr, h16]) ?_).1 hlt
  rw [Network.nextIP, hr, val_inc, h16, val_reparse_v4 hl, Nat.mod_eq_of_lt (by omega)]
  omega

/-- **The next /30.**  Four steps up from an IPv4 /30 is the next one, and after
    the last one an IPv6 network. -/
theorem nextSubnet_carry {n : IPNet} (hl : n.ip.length = 4) (h4 : n.ip.val % 4 = 0) :
    (n.ip.val + 4 < 2 ^ 32 → nextSubnet n = ⟨v4 (n.ip.val + 4), 30⟩) ∧
      (2 ^ 32 ≤ n.ip.val + 4 → (nextSubnet n).ip.length = 16 ∧ (nextSubnet n).ip.to4 = none) := by
  have hlt := val_lt n.ip
  rw [hl] at hlt
  set w : IP := inc (inc (inc (inc n.ip.reparse))) with hw
  have h16 : n.ip.reparse.length = 16 := by simp [reparse_v4 hl, v4InV6Prefix, hl]
  have hwl : w.length = 16 := by simp only [hw, inc_length, h16]
  have hwv : w.val = 65535 * 2 ^ 32 + (n.ip.val + 4) := by
    rw [hw, val_inc4, val_reparse_v4 hl]
    · omega
    · rw [val_reparse_v4 hl, h16]
      omega
  obtain ⟨hin, hout⟩ := to4_of_val hwl hwv
  have hip : nextSubnet n = ⟨IP.mask 30 (w.to4.getD w), 30⟩ := by
    simp only [nextSubnet, parseCIDR, hw]
  rw [hip]
  constructor
  · intro h
    have hmask : IP.mask 30 (v4 (n.ip.val + 4)) = v4 (n.ip.val + 4) := by
      refine val_inj (mask_length ..) ?_
      rw [val_mask30 (v4_length _), val_v4 h]
      omega
    rw [hin h, Option.getD_some, hmask]
  · intro h
    rw [hout h, Option.getD_none]
    exact ⟨by rw [mask_length, hwl], to4_mask30 hwl⟩

theorem nextSubnet_v4 {n : IPNet} (hl : n.ip.length = 4) (h4 : n.ip.val % 4 = 0) :
    (nextSubnet n).ones = 30 ∧
      (((nextSubnet n).ip.length = 4 ∧ (nextSubnet n).ip.val = n.ip.val + 4) ∨
        (nextSubnet n).ip.length = 16 ∧ (nextSubnet n).ip.to4 = none) := by
  obtain ⟨hin, hout⟩ := nextSubnet_carry hl h4
  refine ⟨rfl, ?_⟩
  rcases Nat.lt_or_ge (n.ip.val + 4) (2 ^ 32) with h | h
  · rw [hin h]
    exact Or.inl ⟨v4_length _, val_v4 h⟩
  · exact Or.inr (hout h)

/-- **An IPv6 /30 is its own successor**: four addresses further up is still
    inside it. -/
theorem nextSubnet_v6 {ip : IP} (h : ip.length = 16) :
    nextSubnet ⟨IP.mask 30 ip, 30⟩ = ⟨IP.mask 30 ip, 30⟩ := by
  have hto4 := to4_mask30 h
  match ip, h with
  | a :: b :: c :: d :: bs, h =>
    have hbs : bs.length = 12 := by simpa using h
    have h252 : d &&& 252 &&& 252 = d &&& 252 := by rw [UInt8.and_assoc]; rfl
    simp only [nextSubnet, IP.reparse, hto4, parseCIDR]
    rw [mask30, hbs]
    have hinc : inc (inc (inc (inc (a :: b :: c :: (d &&& 252) :: List.replicate 12 0)))) =
        a :: b :: c :: (d &&& 252) :: (List.replicate 11 0 ++ [4]) := by
      simp [inc, incLow, List.replicate]
    rw [hinc]
    have hto4' : IP.to4 (a :: b :: c :: (d &&& 252) :: (List.replicate 11 0 ++ [4])) = none := by
      simp [IP.to4, v4InV6Prefix, List.replicate]
    rw [hto4', Option.getD_none, mask30, h252]
    simp

end WardenLinux
