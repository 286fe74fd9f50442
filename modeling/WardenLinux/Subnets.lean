/-
  What `New` of the network pool makes of a range (network_pool.go, network.go).

  * `new_tiles`: a masked IPv4 range of at least 4 addresses is cut into its
    /30s.
  * `new_ends_iff`: when the loop of `New` ends, for every range that
    `net.ParseCIDR` returns.  An IPv6 range whose address is one of a /30 makes
    the loop take the same subnet again and again.
-/
import WardenLinux.NetworkPool

namespace WardenLinux

namespace RealNetworkPool

/-- `InitialSize` -/
def initialSize (p : RealNetworkPool) : ℕ := p.initialPoolSize

/-- A masked IPv4 range is an interval of addresses. -/
theorem contains_v4_iff {ip x : IP} {p : ℕ} (hl : ip.length = 4) (hp : p ≤ 32)
    (hm : IP.mask p ip = ip) : IPNet.contains ⟨ip, p⟩ x = true ↔
      ∃ w, x.to4 = some w ∧ ip.val ≤ w.val ∧ w.val < ip.val + 2 ^ (32 - p) := by
  have hnum : IPNet.numberAndMask ⟨ip, p⟩ = (ip, p) := by
    simp [IPNet.numberAndMask, to4_of_length hl, hl]
  have hp' : p ≤ 8 * ip.length := by omega
  have hbits : 8 * ip.length - p = 32 - p := by rw [hl]
  obtain ⟨c, hc⟩ := (mask_eq_self_iff hp').1 hm
  rw [hbits] at hc
  have hpos : 0 < 2 ^ (32 - p) := by positivity
  -- an address of the range has the same number of whole networks below it
  have key : ∀ w : IP, w.length = 4 → (IP.mask p ip = IP.mask p w ↔
      ip.val ≤ w.val ∧ w.val < ip.val + 2 ^ (32 - p)) := by
    intro w hw
    rw [mask_eq_iff hp' (hl.trans hw.symm), hbits, hc, Nat.mul_div_cancel_left c hpos, eq_comm,
      Nat.div_eq_iff hpos, Nat.mul_comm c]
    omega
  simp only [IPNet.contains, hnum, decide_eq_true_eq]
  rcases hx : x.to4 with _ | w
  · refine iff_of_false (fun h => ?_) (by simp)
    have hx4 : x.length = 4 := h.1.trans hl
    rw [to4_of_length hx4] at hx
    cases hx
  · have hw := to4_length hx
    rw [Option.getD_some, key w hw, hw, hl]
    simp

/-! ## IPv4 ranges -/

/-- The network of the /30 at the address `a`: the host and the container have
    the two addresses after it, which are in the subnet and below its broadcast
    address. -/
structure Tile (n : Network) (a : ℕ) : Prop where
  ipNet : n.ipNet = ⟨v4 a, 30⟩
  host : n.hostIP.to4 = some (v4 (a + 1))
  container : n.containerIP.to4 = some (v4 (a + 2))
  hostInside : n.ipNet.contains n.hostIP = true
  containerInside : n.ipNet.contains n.containerIP = true
  hostNotBroadcast : n.hostIP.to4 ≠ some (v4 (a + 3))
  containerNotBroadcast : n.containerIP.to4 ≠ some (v4 (a + 3))

/-- The addresses of the /30 at `a`. -/
theorem contains_tile_iff {a : ℕ} {x : IP} (h4 : a % 4 = 0) (ha : a < 2 ^ 32) :
    IPNet.contains ⟨v4 a, 30⟩ x = true ↔ ∃ w, x.to4 = some w ∧ a ≤ w.val ∧ w.val < a + 4 := by
  have hm : IP.mask 30 (v4 a) = v4 a := by
    refine val_inj (mask_length ..) ?_
    rw [val_mask30 (v4_length a), val_v4 ha]
    omega
  have h := contains_v4_iff (x := x) (v4_length a) (by omega) hm
  rwa [val_v4 ha] at h

theorem v4_inj {a b : ℕ} (ha : a < 2 ^ 32) (hb : b < 2 ^ 32) (h : v4 a = v4 b) : a = b := by
  rw [← val_v4 ha, h, val_v4 hb]

/-- The host and the container have the two addresses in the middle. -/
theorem tile_of {n : Network} {a : ℕ} (h4 : a % 4 = 0) (ha : a < 2 ^ 32)
    (hnet : n.ipNet = ⟨v4 a, 30⟩) (hhost : n.hostIP.to4 = some (v4 (a + 1)))
    (hcont : n.containerIP.to4 = some (v4 (a + 2))) : Tile n a := by
  have hmiddle : ∀ {x : IP} {b : ℕ}, x.to4 = some (v4 b) → a < b → b < a + 3 →
      n.ipNet.contains x = true ∧ x.to4 ≠ some (v4 (a + 3)) := by
    intro x b hx hab hb
    rw [hnet, contains_tile_iff h4 ha, hx]
    refine ⟨⟨_, rfl, ?_⟩, fun he => ?_⟩
    · rw [val_v4 (by omega)]
      omega
    · have := v4_inj (by omega) (by omega) (Option.some.inj he)
      omega
  obtain ⟨hhostIn, hhostNot⟩ := hmiddle hhost (by omega) (by omega)
  obtain ⟨hcontIn, hcontNot⟩ := hmiddle hcont (by omega) (by omega)
  exact ⟨hnet, hhost, hcont, hhostIn, hcontIn, hhostNot, hcontNot⟩

theorem tile_new {a : ℕ} (h4 : a % 4 = 0) (ha : a < 2 ^ 32) : Tile (Network.new ⟨v4 a, 30⟩) a := by
  have hhost : (Network.nextIP (v4 a)).to4 = some (v4 (a + 1)) := by
    have h := to4_nextIP (to4_of_length (v4_length a)) (v4_length a) (by rw [val_v4 ha]; omega)
    rwa [val_v4 ha] at h
  have hcont : (Network.nextIP (Network.nextIP (v4 a))).to4 = some (v4 (a + 2)) := by
    have h1 : a + 1 < 2 ^ 32 := by omega
    have h := to4_nextIP hhost (v4_length _) (by rw [val_v4 h1]; omega)
    rwa [val_v4 h1] at h
  refine tile_of h4 ha rfl ?_ ?_
  · rw [Network.hostIP_new, hhost]
  · rw [Network.containerIP_new, hcont]

/-- The first `k` /30s from the address `a` on. -/
def tiles (a k : ℕ) : List Network :=
  (List.range k).map fun i => Network.new ⟨v4 (a + 4 * i), 30⟩

section
variable {a k : ℕ} (h4 : a % 4 = 0) (ha : a + 4 * k ≤ 2 ^ 32)
include h4 ha

theorem tiles_forall : List.Forall₂ Tile (tiles a k) ((List.range k).map (a + 4 * ·)) := by
  rw [tiles, List.forall₂_map_left_iff, List.forall₂_map_right_iff, List.forall₂_same]
  intro i hi
  rw [List.mem_range] at hi
  exact tile_new (by omega) (by omega)

theorem tiles_pairwise : (tiles a k).Pairwise fun m n => m.ip.val < n.ip.val ∧
    ∀ x, ¬ (m.ipNet.contains x = true ∧ n.ipNet.contains x = true) := by
  rw [tiles, List.pairwise_map]
  refine List.pairwise_lt_range.imp_of_mem fun {i j} hi hj hij => ?_
  rw [List.mem_range] at hi hj
  constructor
  · show (v4 _).val < (v4 _).val
    rw [val_v4 (by omega), val_v4 (by omega)]
    omega
  · rintro x ⟨hxi, hxj⟩
    obtain ⟨w, hw, -, hwi⟩ := (contains_tile_iff (by omega) (by omega)).1 hxi
    obtain ⟨w', hw', hwj, -⟩ := (contains_tile_iff (by omega) (by omega)).1 hxj
    rw [hw] at hw'
    cases hw'
    omega

theorem tiles_inside {n : Network} (hn : n ∈ tiles a k) {x : IP}
    (hx : n.ipNet.contains x = true) :
    ∃ w, x.to4 = some w ∧ a ≤ w.val ∧ w.val < a + 4 * k := by
  obtain ⟨i, hi, rfl⟩ := List.mem_map.1 hn
  rw [List.mem_range] at hi
  obtain ⟨w, hw, h1, h2⟩ := (contains_tile_iff (by omega) (by omega)).1 hx
  exact ⟨w, hw, by omega, by omega⟩

theorem tiles_cover {m : IPNet} (hm : V4 m) (hlo : a ≤ m.ip.val) (hhi : m.ip.val < a + 4 * k) :
    m ∈ (tiles a k).map Network.ipNet := by
  obtain ⟨hones, hml, hm4⟩ := hm
  -- the subnet whose number is its distance from the start
  refine List.mem_map.2 ⟨_, List.mem_map.2 ⟨(m.ip.val - a) / 4, ?_, rfl⟩, ?_⟩
  · rw [List.mem_range]
    omega
  · show (⟨v4 _, 30⟩ : IPNet) = m
    have hip : v4 (a + 4 * ((m.ip.val - a) / 4)) = m.ip := by
      refine val_inj (by rw [v4_length, hml]) ?_
      rw [val_v4 (by omega)]
      omega
    rw [hip, ← hones]

end

theorem subnets_inside {r subnet : IPNet} {fuel : ℕ} (h : r.contains subnet.ip = true) :
    subnets r (fuel + 1) subnet =
      (subnets r fuel (nextSubnet subnet)).map (Network.new subnet :: ·) := if_pos h

theorem subnets_outside {r subnet : IPNet} {fuel : ℕ} (h : ¬ r.contains subnet.ip = true) :
    subnets r (fuel + 1) subnet = some [] := if_neg h

/-- The loop of `New` over the rest of an interval, from one of its /30s on. -/
theorem subnets_tile {r : IPNet} {lo hi : ℕ} (hr : ∀ x, r.contains x = true ↔
    ∃ w, x.to4 = some w ∧ lo ≤ w.val ∧ w.val < hi) (hhi : hi ≤ 2 ^ 32) (fuel : ℕ) :
    ∀ k a : ℕ, lo ≤ a → a % 4 = 0 → a + 4 * (k + 1) = hi →
      subnets r (fuel + (k + 2)) ⟨v4 a, 30⟩ = some (tiles a (k + 1)) := by
  intro k
  induction k with
  | zero =>
    intro a hlo h4 ha
    have hval : (v4 a).val = a := val_v4 (by omega)
    have hin : r.contains (v4 a) = true :=
      (hr _).2 ⟨v4 a, to4_of_length (v4_length a), by omega, by omega⟩
    obtain ⟨hnext, hend⟩ :=
      nextSubnet_carry (n := ⟨v4 a, 30⟩) (v4_length a) (by rw [hval]; exact h4)
    rw [hval] at hnext hend
    -- what comes after the last subnet is not in the range
    have hout : ¬ r.contains (nextSubnet ⟨v4 a, 30⟩).ip = true := by
      rw [hr]
      rintro ⟨w, hw, -, hlt⟩
      rcases Nat.lt_or_ge (a + 4) (2 ^ 32) with h | h
      · rw [hnext h, to4_of_length (v4_length _)] at hw
        cases hw
        rw [val_v4 h] at hlt
        omega
      · rw [(hend h).2] at hw
        cases hw
    show subnets r (fuel + 1 + 1) ⟨v4 a, 30⟩ = _
    rw [subnets_inside hin, subnets_outside hout]
    rfl
  | succ k ih =>
    intro a hlo h4 ha
    have hval : (v4 a).val = a := val_v4 (by omega)
    have hin : r.contains (v4 a) = true :=
      (hr _).2 ⟨v4 a, to4_of_length (v4_length a), by omega, by omega⟩
    have hnext : nextSubnet ⟨v4 a, 30⟩ = ⟨v4 (a + 4), 30⟩ := by
      have h := (nextSubnet_carry (n := ⟨v4 a, 30⟩) (v4_length a) (by rw [hval]; exact h4)).1
      rw [hval] at h
      exact h (by omega)
    show subnets r (fuel + (k + 2) + 1) ⟨v4 a, 30⟩ = _
    rw [subnets_inside hin, hnext, ih (a + 4) (by omega) (by omega) (by omega), tiles, tiles,
      List.range_succ_eq_map (n := k + 1), List.map_cons, List.map_map, Option.map_some]
    refine congrArg some (congrArg _ (List.map_congr_left fun i _ => ?_))
    show Network.new ⟨v4 (a + 4 + 4 * i), 30⟩ = Network.new ⟨v4 (a + 4 * (i + 1)), 30⟩
    rw [show a + 4 + 4 * i = a + 4 * (i + 1) by ring]

/-- The pool of a range whose subnets are listed. -/
theorem new_of_subnets {r : IPNet} {fuel : ℕ} {l : List Network}
    (h : subnets r fuel (parseCIDR r.ip 30) = some l) :
    ∃ hc, new fuel r = some ⟨r, l, l.length, hc⟩ := by
  refine ⟨subnets_contained h, ?_⟩
  unfold new
  split
  next h' => rw [h] at h'; cases h'
  next l' h' =>
    rw [h] at h'
    cases h'
    rfl

/-- A masked range starts at a multiple of its size. -/
theorem range_aligned {ip : IP} {p : ℕ} (hl : ip.length = 4) (hm : IP.mask p ip = ip)
    (hp : p ≤ 30) : ip.val % 4 = 0 ∧ ip.val + 2 ^ (32 - p) ≤ 2 ^ 32 := by
  have hlt := val_lt ip
  obtain ⟨c, hc⟩ := (mask_eq_self_iff (by omega)).1 hm
  rw [hl] at hlt hc
  have h32 : 2 ^ 32 = 2 ^ (32 - p) * 2 ^ p := by
    rw [← Nat.pow_add, show 32 - p + p = 32 by omega]
  have hc' : ip.val = 2 ^ (32 - p) * c := hc
  have hlt' : 2 ^ (32 - p) * c < 2 ^ (32 - p) * 2 ^ p := by
    rw [← hc', ← h32]
    exact hlt
  have hcp : c + 1 ≤ 2 ^ p := Nat.lt_of_mul_lt_mul_left hlt'
  constructor
  · rw [hc', show 32 - p = 2 + (30 - p) by omega, Nat.pow_add, Nat.mul_assoc]
    exact Nat.mul_mod_right 4 _
  · calc ip.val + 2 ^ (32 - p) = 2 ^ (32 - p) * (c + 1) := by rw [hc', Nat.mul_add, Nat.mul_one]
      _ ≤ 2 ^ (32 - p) * 2 ^ p := Nat.mul_le_mul_left _ hcp
      _ = 2 ^ 32 := h32.symm

/-- **The pool tiles its range.**  `New` of a masked IPv4 range of at least four
    addresses ends, with the /30s of the range: one for every fourth address in
    ascending order, with the addresses of a tile, disjoint, inside the range,
    and none left out. -/
theorem new_tiles {ip : IP} {p : ℕ} (hl : ip.length = 4) (hm : IP.mask p ip = ip) (hp : p ≤ 30) :
    ∃ pool : RealNetworkPool,
      (∀ fuel, new (fuel + (2 ^ (30 - p) + 1)) ⟨ip, p⟩ = some pool) ∧
      pool.initialSize = 2 ^ (30 - p) ∧
      List.Forall₂ Tile pool.pool ((List.range (2 ^ (30 - p))).map (ip.val + 4 * ·)) ∧
      pool.pool.Pairwise (fun m n => m.ip.val < n.ip.val ∧
        ∀ x, ¬ (m.ipNet.contains x = true ∧ n.ipNet.contains x = true)) ∧
      (∀ n ∈ pool.pool, ∀ x, n.ipNet.contains x = true → IPNet.contains ⟨ip, p⟩ x = true) ∧
      ∀ m, V4 m → IPNet.contains ⟨ip, p⟩ m.ip = true → m ∈ pool.pool.map Network.ipNet := by
  have hr : ∀ x, IPNet.contains ⟨ip, p⟩ x = true ↔
      ∃ w, x.to4 = some w ∧ ip.val ≤ w.val ∧ w.val < ip.val + 2 ^ (32 - p) :=
    fun x => contains_v4_iff hl (by omega) hm
  obtain ⟨h4, hhi⟩ := range_aligned hl hm hp
  have hsize : 2 ^ (32 - p) = 4 * 2 ^ (30 - p) := by
    rw [show 32 - p = 2 + (30 - p) by omega, Nat.pow_add]
  obtain ⟨k, hk⟩ : ∃ k, 2 ^ (30 - p) = k + 1 :=
    Nat.exists_eq_succ_of_ne_zero (Nat.pow_pos (show 0 < 2 by decide)).ne'
  rw [hk] at hsize ⊢
  have hstart : parseCIDR ip 30 = ⟨v4 ip.val, 30⟩ := by
    have hmask : IP.mask 30 ip = v4 ip.val := by
      refine val_inj (by rw [mask_length, hl, v4_length]) ?_
      rw [val_mask30 hl, val_v4 (by omega)]
      omega
    rw [parseCIDR, to4_of_length hl, Option.getD_some, hmask]
  have hwalk : ∀ fuel, subnets ⟨ip, p⟩ (fuel + (k + 2)) (parseCIDR ip 30) =
      some (tiles ip.val (k + 1)) := by
    intro fuel
    rw [hstart]
    exact subnets_tile hr hhi fuel k ip.val (Nat.le_refl _) h4 (by omega)
  have hfit : ip.val + 4 * (k + 1) ≤ 2 ^ 32 := by omega
  obtain ⟨hc, -⟩ := new_of_subnets (hwalk 0)
  refine ⟨⟨⟨ip, p⟩, tiles ip.val (k + 1), k + 1, hc⟩, fun fuel => ?_, rfl, tiles_forall h4 hfit,
    tiles_pairwise h4 hfit, fun n hn x hx => ?_, fun m hm hin => ?_⟩
  · obtain ⟨_, hnew⟩ := new_of_subnets (hwalk fuel)
    have hlen : (tiles ip.val (k + 1)).length = k + 1 := by
      rw [tiles, List.length_map, List.length_range]
    simp only [hlen] at hnew
    exact hnew
  · rw [hr, hsize]
    exact tiles_inside h4 hfit hn hx
  · obtain ⟨w, hw, h1, h2⟩ := (hr m.ip).1 hin
    rw [to4_of_length hm.2.1] at hw
    cases hw
    exact tiles_cover h4 hfit hm h1 (by omega)

/-- The last /22 of the address space is cut into 256 subnets. -/
theorem new_tiles_last_slash22 :
    ∃ pool : RealNetworkPool, new 257 ⟨[255, 255, 252, 0], 22⟩ = some pool ∧
      pool.initialSize = 256 ∧
      List.Forall₂ Tile pool.pool ((List.range 256).map (IP.val [255, 255, 252, 0] + 4 * ·)) := by
  obtain ⟨pool, hnew, hsize, htiles, -⟩ :=
    @new_tiles [255, 255, 252, 0] 22 rfl (by decide) (by decide)
  exact ⟨pool, hnew 0, hsize, htiles⟩

/-! ## All ranges -/

/-- The ranges that `net.ParseCIDR` returns. -/
def FromCIDR (n : IPNet) : Prop :=
  (n.ip.length = 4 ∧ n.ones ≤ 32 ∨ n.ip.length = 16 ∧ n.ones ≤ 128) ∧ IP.mask n.ones n.ip = n.ip

instance (n : IPNet) : Decidable (FromCIDR n) := inferInstanceAs (Decidable (_ ∧ _))

/-- In an IPv4 range every step of the loop goes up, and ends at the latest at
    the end of the address space. -/
theorem subnets_v4_ends {r : IPNet} (h4 : r.numberAndMask.1.length = 4) : ∀ (d : ℕ) (n : IPNet),
    V4 n → 2 ^ 32 - n.ip.val ≤ d → ∃ fuel l, subnets r fuel n = some l := by
  intro d
  induction d with
  | zero =>
    intro n hn hd
    have hlt := val_lt n.ip
    rw [hn.2.1] at hlt
    omega
  | succ d ih =>
    intro n hn hd
    obtain ⟨-, hl, hv⟩ := hn
    obtain ⟨hnext, hend⟩ := nextSubnet_carry hl hv
    by_cases hc : r.contains n.ip = true
    · rcases Nat.lt_or_ge (n.ip.val + 4) (2 ^ 32) with h | h
      · have hval := val_v4 h
        obtain ⟨fuel, l, hs⟩ := ih (nextSubnet n)
          (by rw [hnext h]; exact ⟨rfl, v4_length _, by rw [hval]; omega⟩)
          (by rw [hnext h, hval]; omega)
        exact ⟨fuel + 1, Network.new n :: l, by rw [subnets_inside hc, hs]; rfl⟩
      · have hout : ¬ r.contains (nextSubnet n).ip = true := fun hc' => by
          have hlen := contains_length hc'
          rw [(hend h).2, Option.getD_none, (hend h).1, h4] at hlen
          omega
        exact ⟨2, [Network.new n], by rw [subnets_inside hc, subnets_outside hout]; rfl⟩
    · exact ⟨1, [], subnets_outside hc⟩

/-- The first subnet of an IPv6 range is in it iff it is the range's own
    address. -/
theorem contains_start_v6 {n : IPNet} (hn : FromCIDR n) (h6 : n.ip.to4 = none) :
    n.contains (IP.mask 30 n.ip) = true ↔ IP.mask 30 n.ip = n.ip := by
  obtain ⟨hlen, hm⟩ := hn
  have h16 : n.ip.length = 16 ∧ n.ones ≤ 128 := by
    rcases hlen with ⟨h, -⟩ | h
    · rw [to4_of_length h] at h6
      cases h6
    · exact h
  have hnum : n.numberAndMask = (n.ip, n.ones) := by simp [IPNet.numberAndMask, h6, h16.1]
  have hl30 := mask_length 30 n.ip
  simp only [IPNet.contains, hnum, to4_mask30 h16.1, Option.getD_none, hl30, true_and,
    decide_eq_true_eq, hm]
  constructor
  · intro h
    rcases Nat.le_total n.ones 30 with hle | hle
    · -- the address is masked by fewer bits already
      rw [mask_eq_self_iff (by omega)] at hm ⊢
      exact (pow_dvd_pow 2 (by omega)).trans hm
    · -- the first 30 bits are masked by more bits
      have hself : IP.mask n.ones (IP.mask 30 n.ip) = IP.mask 30 n.ip := by
        rw [mask_eq_self_iff (by omega), hl30, val_mask 30 n.ip (by omega)]
        exact Dvd.dvd.mul_left (pow_dvd_pow 2 (by omega)) _
      rw [← hself, ← h]
  · intro h
    rw [h, hm]

/-- **When building the pool ends.**  The loop of `New` ends for every IPv4
    range, and for an IPv6 range iff its address has a bit set after the first
    30 (and then the pool is empty). -/
theorem new_ends_iff {n : IPNet} (hn : FromCIDR n) :
    (∃ fuel p, new fuel n = some p) ↔ n.ip.to4 ≠ none ∨ IP.mask 30 n.ip ≠ n.ip := by
  rcases h6 : n.ip.to4 with _ | w
  · have hp : parseCIDR n.ip 30 = ⟨IP.mask 30 n.ip, 30⟩ := by rw [parseCIDR, h6, Option.getD_none]
    have h16 : n.ip.length = 16 := by
      rcases hn.1 with ⟨h, -⟩ | ⟨h, -⟩
      · rw [to4_of_length h] at h6
        cases h6
      · exact h
    simp only [ne_eq, not_true_eq_false, false_or]
    rw [← contains_start_v6 hn h6]
    constructor
    · rintro ⟨fuel, p, hnew⟩ hc
      have hnone : subnets n fuel (parseCIDR n.ip 30) = none := by
        rw [hp]
        exact subnets_fixed (nextSubnet_v6 h16) hc fuel
      unfold new at hnew
      split at hnew
      · cases hnew
      next h => rw [hnone] at h; cases h
    · intro hc
      have hs : subnets n 1 (parseCIDR n.ip 30) = some [] := by
        rw [hp]
        exact subnets_outside hc
      obtain ⟨hcont, hnew⟩ := new_of_subnets hs
      exact ⟨1, _, hnew⟩
  · refine iff_of_true ?_ (Or.inl (Option.some_ne_none w))
    have hw := to4_length h6
    have h4 : n.numberAndMask.1.length = 4 := by simp [IPNet.numberAndMask, h6, hw]
    obtain ⟨fuel, l, hs⟩ := subnets_v4_ends h4 _ (parseCIDR n.ip 30)
      (v4_of_parse (by rw [h6]; exact hw)) (Nat.le_refl _)
    obtain ⟨hcont, hnew⟩ := new_of_subnets hs
    exact ⟨fuel, _, hnew⟩

/-- The loop ends for the single address 10.0.0.0/32. -/
theorem new_ends_single : FromCIDR ⟨[10, 0, 0, 0], 32⟩ ∧
    ∃ fuel p, new fuel ⟨[10, 0, 0, 0], 32⟩ = some p :=
  ⟨by decide, (new_ends_iff (by decide)).2 (Or.inl (by decide))⟩

/-- fd00::/8 -/
def uniqueLocal : IPNet := ⟨0xfd :: List.replicate 15 0, 8⟩

/-- The loop does not end for fd00::/8. -/
theorem new_uniqueLocal_loops :
    FromCIDR uniqueLocal ∧ ¬ ∃ fuel p, new fuel uniqueLocal = some p := by
  have hp : parseCIDR uniqueLocal.ip 30 = ⟨IP.mask 30 uniqueLocal.ip, 30⟩ := by decide
  refine ⟨by decide, ?_⟩
  rintro ⟨fuel, p, hnew⟩
  unfold new at hnew
  split at hnew
  · cases hnew
  next h =>
    rw [hp, subnets_fixed (nextSubnet_v6 rfl) (by decide) fuel] at h
    cases h

end RealNetworkPool

end WardenLinux
