/-
  The pool of /30 networks (network_pool.go).

  `New` walks over the subnets of its range.  The walk need not end (an IPv6
  /30 is its own successor), so it is run with a bound on its length and `new`
  returns a pool only when it ends within the bound.

  `new_ascending`: the subnets of a new pool are IPv4 /30s in ascending order;
  hence `new_nodup`, no subnet is listed twice.
-/
import WardenLinux.NumberPools

namespace WardenLinux

open Fallible FreeList

/-- `RealNetworkPool`; its free list holds networks of its range only. -/
structure RealNetworkPool where
  ipNet : IPNet
  pool : List Network
  initialPoolSize : ℕ
  contained : ∀ n ∈ pool, ipNet.contains n.ip = true

namespace RealNetworkPool

/-- The loop of `New`, for at most `fuel` subnets. -/
def subnets (ipNet : IPNet) : ℕ → IPNet → Option (List Network)
  | 0, _ => none
  | fuel + 1, subnet =>
    if ipNet.contains subnet.ip then
      (subnets ipNet fuel (nextSubnet subnet)).map (Network.new subnet :: ·)
    else some []

theorem subnets_contained {ipNet : IPNet} : ∀ {fuel : ℕ} {subnet : IPNet} {l : List Network},
    subnets ipNet fuel subnet = some l → ∀ n ∈ l, ipNet.contains n.ip = true
  | 0, _, _, h => by simp [subnets] at h
  | fuel + 1, subnet, l, h => by
    unfold subnets at h
    split_ifs at h with hc
    · obtain ⟨l', hl', rfl⟩ := Option.map_eq_some_iff.1 h
      intro n hn
      rcases List.mem_cons.1 hn with rfl | hn
      · exact hc
      · exact subnets_contained hl' n hn
    · cases h; simp

/-- `network_pool.New`, none while the loop has not ended. -/
def new (fuel : ℕ) (ipNet : IPNet) : Option RealNetworkPool :=
  match h : subnets ipNet fuel (parseCIDR ipNet.ip 30) with
  | none => none
  | some l => some { ipNet, pool := l, initialPoolSize := l.length, contained := subnets_contained h }

/-- The free list. -/
def stock : Stock RealNetworkPool Network where
  list := pool
  keep p l h := { p with pool := l, contained := fun n hn => p.contained n (h.subset hn) }

/-- `Acquire` -/
def acquire : EStateM Err RealNetworkPool Network := stock.acquire .networkPoolExhausted

/-- `Remove`: the first free network with the same text. -/
def remove (network : Network) : EStateM Err RealNetworkPool Unit :=
  stock.remove (fun existing => existing.string == network.string) (.networkTaken network)

/-- `Release`: a network outside the range is ignored; a free one is listed
    again. -/
def release (network : Network) (p : RealNetworkPool) : RealNetworkPool :=
  if h : ¬ p.ipNet.contains network.ip then p
  else { p with
    pool := p.pool ++ [network]
    contained := fun n hn => by
      rcases List.mem_append.1 hn with hn | hn
      · exact p.contained n hn
      · rw [List.mem_singleton.1 hn]
        simpa using h }

@[simp] theorem release_ipNet (network : Network) (p : RealNetworkPool) :
    (release network p).ipNet = p.ipNet := by
  unfold release; split <;> rfl

theorem release_pool (network : Network) (p : RealNetworkPool) :
    (release network p).pool =
      if p.ipNet.contains network.ip then p.pool ++ [network] else p.pool := by
  unfold release
  by_cases h : p.ipNet.contains network.ip = true
  · rw [dif_neg (not_not.2 h), if_pos h]
  · rw [dif_pos h, if_neg h]

theorem release_cases (network : Network) (p : RealNetworkPool) :
    (release network p).pool.map Network.string = p.pool.map Network.string ++ [network.string] ∨
      (release network p).pool.map Network.string = p.pool.map Network.string := by
  rw [release_pool]
  split_ifs
  exacts [Or.inl List.map_append, Or.inr rfl]

/-- What was taken from a pool is back in it after a `Release`. -/
theorem release_of_mem {n : Network} {p q : RealNetworkPool} (h : n ∈ q.pool)
    (hi : p.ipNet = q.ipNet) : (release n p).pool = p.pool ++ [n] := by
  rw [release_pool, if_pos]
  rw [hi]; exact q.contained n h

theorem acquire_ok {n : Network} {p p' : RealNetworkPool} (h : acquire p = .ok n p') :
    p.pool = n :: p'.pool ∧ p'.ipNet = p.ipNet := by
  obtain ⟨rest, hsub, hl, rfl⟩ := stock.acquire_ok h
  exact ⟨hl, rfl⟩

/-- `Remove` takes one network with the given text out of the list, or fails
    without a change. -/
theorem wp_remove {Q : Unit → RealNetworkPool → Prop} {E : Err → RealNetworkPool → Prop}
    {p : RealNetworkPool} {network : Network}
    (hQ : ∀ n rest h, n.string = network.string → p.pool.Perm (n :: rest) → Q () (stock.keep p rest h))
    (hE : network.string ∉ p.pool.map Network.string → E (.networkTaken network) p) :
    wp (remove network) Q E p := by
  rw [remove, Stock.wp_remove]
  refine ⟨fun rest hr h => ?_, fun hr => hE fun hn => ?_⟩
  · obtain ⟨n, hn, hp⟩ := removeFirst_perm hr
    exact hQ n rest h (beq_iff_eq.1 hn) hp
  · obtain ⟨n, hn, he⟩ := List.mem_map.1 hn
    have := removeFirst_eq_none.1 hr n hn
    rw [beq_eq_false_iff_ne] at this
    exact this he

/-- The number of a network, whichever form its address has, is IPv4 or IPv6. -/
theorem to4_length {ip v4 : IP} (h : ip.to4 = some v4) : v4.length = 4 := by
  unfold IP.to4 at h
  split_ifs at h with h1 h2
  · cases h; exact h1
  · cases h; simp [h2.1]

/-- A network as `net.ParseCIDR` returns it, also in `UnmarshalJSON`. -/
def Parsed (n : IPNet) : Prop := n.ip.length = 4 ∨ n.ip.length = 16

theorem numberAndMask_parsed {n : IPNet} (h : Parsed n) : n.numberAndMask.1 = n.ip.to4.getD n.ip := by
  unfold IPNet.numberAndMask
  rcases hto4 : n.ip.to4 with _ | v4
  · have h16 : n.ip.length = 16 := by
      rcases h with h | h
      · rw [to4_of_length h] at hto4; cases hto4
      · exact h
    simp [h16]
  · rfl

/-- Whether a range contains a network shows in its text. -/
theorem contains_of_string {r : IPNet} {n m : Network} (hm : Parsed m.ipNet)
    (he : n.string = m.string) (hn : r.contains n.ip = true) : r.contains m.ip = true := by
  have he' : n.ipNet.numberAndMask.1 = m.ip.to4.getD m.ip :=
    (congrArg Prod.fst he).trans (numberAndMask_parsed hm)
  have hlen : (m.ip.to4.getD m.ip).length ≠ 0 := by
    rcases hto4 : m.ip.to4 with _ | v4
    · rcases hm with h | h
      · exact absurd (show m.ip.to4 = some m.ip from to4_of_length h) (by rw [hto4]; simp)
      · rw [Option.getD_none, show m.ip.length = 16 from h]; omega
    · rw [Option.getD_some, to4_length hto4]; omega
  have hp : Parsed n.ipNet := by
    unfold IPNet.numberAndMask at he'
    unfold Parsed
    rcases hto4 : n.ipNet.ip.to4 with _ | v4
    · rw [hto4] at he'
      simp only at he'
      split_ifs at he' with h16
      · exact Or.inr h16
      · rw [← he'] at hlen; simp at hlen
    · unfold IP.to4 at hto4
      split_ifs at hto4 with h4 h16
      exacts [Or.inl h4, Or.inr h16.1]
  have hcanon : n.ip.to4.getD n.ip = m.ip.to4.getD m.ip :=
    (numberAndMask_parsed hp).symm.trans he'
  unfold IPNet.contains at hn ⊢
  rwa [hcanon] at hn

/-! ## New pools -/

/-- The IPv4 /30s. -/
def V4 (n : IPNet) : Prop := n.ones = 30 ∧ n.ip.length = 4 ∧ n.ip.val % 4 = 0

theorem v4_string {n : IPNet} (h : V4 n) : n.string = (n.ip, 30) := by
  simp [IPNet.string, IPNet.numberAndMask, to4_of_length h.2.1, h.2.1, h.1]

/-- A range contains addresses of its own family only. -/
theorem contains_length {n : IPNet} {ip : IP} (h : n.contains ip = true) :
    (ip.to4.getD ip).length = n.numberAndMask.1.length := by
  simp only [IPNet.contains, decide_eq_true_eq] at h
  exact h.1

theorem v4_of_parse {ip : IP} (h : (ip.to4.getD ip).length = 4) : V4 (parseCIDR ip 30) := by
  refine ⟨rfl, by simp [parseCIDR, mask_length, h], ?_⟩
  simp only [parseCIDR]
  rw [val_mask30 h]; omega

/-- In an IPv4 range the loop lists /30s in ascending order. -/
theorem subnets_ascending {ipNet : IPNet} (h4 : ipNet.numberAndMask.1.length = 4) :
    ∀ {fuel : ℕ} {subnet : IPNet} {l : List Network}, V4 subnet →
      subnets ipNet fuel subnet = some l →
      (∀ n ∈ l, V4 n.ipNet ∧ n = Network.new n.ipNet ∧ subnet.ip.val ≤ n.ipNet.ip.val) ∧
        l.Pairwise (fun a b => a.ipNet.ip.val < b.ipNet.ip.val)
  | 0, _, _, _, h => by simp [subnets] at h
  | fuel + 1, subnet, l, hv, h => by
    unfold subnets at h
    split_ifs at h with hc
    · obtain ⟨l', hl', rfl⟩ := Option.map_eq_some_iff.1 h
      obtain ⟨hones, hnext⟩ := nextSubnet_v4 hv.2.1 hv.2.2
      have key : (∀ n ∈ l', V4 n.ipNet ∧ n = Network.new n.ipNet ∧
          subnet.ip.val < n.ipNet.ip.val) ∧ l'.Pairwise fun a b => a.ipNet.ip.val < b.ipNet.ip.val := by
        rcases hnext with ⟨hl, hval⟩ | ⟨hl, hto4⟩
        · obtain ⟨h1, h2⟩ := subnets_ascending h4 ⟨hones, hl, by have := hv.2.2; omega⟩ hl'
          refine ⟨fun n hn => ?_, h2⟩
          obtain ⟨ha, hb, hle⟩ := h1 n hn
          exact ⟨ha, hb, by omega⟩
        · -- past the end of the address space the next network is not in the range
          have hnc : ¬ ipNet.contains (nextSubnet subnet).ip = true := fun hc' => by
            have := contains_length hc'
            rw [hto4, Option.getD_none, hl, h4] at this
            omega
          cases fuel with
          | zero => simp [subnets] at hl'
          | succ fuel =>
            unfold subnets at hl'
            rw [if_neg hnc] at hl'
            cases hl'; simp
      refine ⟨fun n hn => ?_, List.pairwise_cons.2 ⟨fun n hn => (key.1 n hn).2.2, key.2⟩⟩
      rcases List.mem_cons.1 hn with rfl | hn
      · exact ⟨hv, rfl, le_rfl⟩
      · obtain ⟨ha, hb, hlt⟩ := key.1 n hn
        exact ⟨ha, hb, hlt.le⟩
    · cases h; simp

/-- The loop does not end in a subnet that is its own successor. -/
theorem subnets_fixed {ipNet subnet : IPNet} (h : nextSubnet subnet = subnet)
    (hc : ipNet.contains subnet.ip = true) : ∀ fuel, subnets ipNet fuel subnet = none
  | 0 => rfl
  | fuel + 1 => by
    unfold subnets
    rw [if_pos hc, h, subnets_fixed h hc fuel]
    rfl

/-- The walk of `New` ends with ascending IPv4 /30s, or at once. -/
theorem subnets_parse {ipNet : IPNet} {fuel : ℕ} {l : List Network}
    (h : subnets ipNet fuel (parseCIDR ipNet.ip 30) = some l) :
    (∀ n ∈ l, V4 n.ipNet ∧ n = Network.new n.ipNet) ∧
      l.Pairwise (fun a b => a.ipNet.ip.val < b.ipNet.ip.val) := by
  rcases hto4 : ipNet.ip.to4 with _ | v4
  · have hp : parseCIDR ipNet.ip 30 = ⟨IP.mask 30 ipNet.ip, 30⟩ := by simp [parseCIDR, hto4]
    rw [hp] at h
    -- outside IPv4 the loop does not end once it has begun
    have hnc : ¬ ipNet.contains (IP.mask 30 ipNet.ip) = true := by
      intro hc
      have hfix : nextSubnet ⟨IP.mask 30 ipNet.ip, 30⟩ = ⟨IP.mask 30 ipNet.ip, 30⟩ := by
        by_cases h16 : ipNet.ip.length = 16
        · exact nextSubnet_v6 h16
        · have hlen := contains_length hc
          simp only [IPNet.numberAndMask, hto4, if_neg h16, List.length_nil,
            List.length_eq_zero_iff] at hlen
          have hnil : ipNet.ip = [] := by
            rcases hm : (IP.mask 30 ipNet.ip).to4 with _ | w
            · rw [hm, Option.getD_none] at hlen
              have := mask_length 30 ipNet.ip
              rw [hlen] at this
              exact List.length_eq_zero_iff.1 this.symm
            · have := to4_length hm
              rw [hm, Option.getD_some] at hlen
              rw [hlen] at this; simp at this
          rw [hnil]; decide
      rw [subnets_fixed hfix hc fuel] at h
      cases h
    cases fuel with
    | zero => simp [subnets] at h
    | succ fuel =>
      unfold subnets at h
      rw [if_neg hnc] at h
      cases h; simp
  · have h4 : ipNet.numberAndMask.1.length = 4 := by
      simp [IPNet.numberAndMask, hto4, to4_length hto4]
    have hv : V4 (parseCIDR ipNet.ip 30) := v4_of_parse (by rw [hto4]; exact to4_length hto4)
    obtain ⟨h1, h2⟩ := subnets_ascending h4 hv h
    exact ⟨fun n hn => ⟨(h1 n hn).1, (h1 n hn).2.1⟩, h2⟩

theorem new_ascending {fuel : ℕ} {ipNet : IPNet} {p : RealNetworkPool}
    (h : new fuel ipNet = some p) :
    (∀ n ∈ p.pool, V4 n.ipNet ∧ n = Network.new n.ipNet) ∧
      p.pool.Pairwise (fun a b => a.ipNet.ip.val < b.ipNet.ip.val) := by
  unfold new at h
  split at h
  · cases h
  next l hl => cases h; exact subnets_parse hl

/-- **A new pool lists every subnet once.** -/
theorem new_nodup {fuel : ℕ} {ipNet : IPNet} {p : RealNetworkPool} (h : new fuel ipNet = some p) :
    (p.pool.map Network.string).Nodup := by
  obtain ⟨h1, h2⟩ := new_ascending h
  rw [List.Nodup, List.pairwise_map]
  refine h2.imp_of_mem fun {a b} ha hb hlt he => ?_
  rw [Network.string, Network.string, v4_string (h1 a ha).1, v4_string (h1 b hb).1] at he
  rw [(Prod.mk.inj he).1] at hlt
  exact lt_irrefl _ hlt

end RealNetworkPool

end WardenLinux
