/-
  The pools of user IDs (unix_uid_pool.go) and of ports (port_pool.go).

  Both hand out the numbers of a range `[start, start + size)`, where the sum
  is one of 32-bit numbers: a range that reaches `2 ^ 32` is empty.  A free
  list holds numbers of the range only; the port pool also lists no number
  twice, since its `Release` looks before it appends, as that of the UID pool
  does not.
-/
import WardenLinux.Lib.FreeList
import WardenLinux.World

namespace WardenLinux

open Fallible FreeList

/-- The loop of both constructors: `for i := start; i < stop; i++`. -/
def fill (i stop : UInt32) : List UInt32 :=
  if i < stop then i :: fill (i + 1) stop else []
termination_by stop.toNat - i.toNat
decreasing_by
  rename_i h
  have hlt := UInt32.lt_iff_toNat_lt.1 h
  have hstop := stop.toNat_lt
  rw [UInt32.toNat_add]
  simp; omega

theorem toNat_succ {i stop : UInt32} (h : i < stop) : (i + 1).toNat = i.toNat + 1 := by
  have hlt := UInt32.lt_iff_toNat_lt.1 h
  have hstop := stop.toNat_lt
  rw [UInt32.toNat_add]
  simp; omega

/-- The end of a range is the sum when it is below `2 ^ 32`. -/
theorem toNat_stop {start size : UInt32} (h : start.toNat + size.toNat < 2 ^ 32) :
    (start + size).toNat = start.toNat + size.toNat := by
  rw [UInt32.toNat_add, Nat.mod_eq_of_lt h]

/-- The loop counts up to its end. -/
theorem map_toNat_fill (i stop : UInt32) :
    (fill i stop).map UInt32.toNat = List.range' i.toNat (stop.toNat - i.toNat) := by
  fun_induction fill i stop with
  | case1 i h ih =>
    have hlt := UInt32.lt_iff_toNat_lt.1 h
    obtain ⟨k, hk⟩ : ∃ k, stop.toNat - i.toNat = k + 1 := ⟨stop.toNat - i.toNat - 1, by omega⟩
    have hk' : stop.toNat - (i + 1).toNat = k := by rw [toNat_succ h]; omega
    rw [List.map_cons, ih, hk', hk, toNat_succ h, List.range'_succ]
  | case2 i h =>
    rw [UInt32.lt_iff_toNat_lt] at h
    have hz : stop.toNat - i.toNat = 0 := by omega
    rw [hz, List.range'_zero, List.map_nil]

theorem mem_fill (i stop : UInt32) (n : UInt32) : n ∈ fill i stop ↔ i ≤ n ∧ n < stop := by
  have hinj : Function.Injective UInt32.toNat := fun _ _ => UInt32.toNat_inj.1
  rw [← List.mem_map_of_injective hinj, map_toNat_fill, List.mem_range'_1,
    UInt32.le_iff_toNat_le, UInt32.lt_iff_toNat_lt]
  omega

theorem nodup_fill (i stop : UInt32) : (fill i stop).Nodup := by
  refine List.Nodup.of_map UInt32.toNat ?_
  rw [map_toNat_fill]
  exact List.nodup_range'

/-! ## User IDs -/

/-- `UnixUIDPool`; its free list holds numbers of its range only. -/
structure UnixUIDPool where
  start : UInt32
  size : UInt32
  pool : List UInt32
  initialPoolSize : ℕ
  inRange : ∀ u ∈ pool, start ≤ u ∧ u < start + size

namespace UnixUIDPool

variable {p : UnixUIDPool} {E : Err → UnixUIDPool → Prop}

/-- `uid_pool.New` -/
def new (start size : UInt32) : UnixUIDPool where
  start := start
  size := size
  pool := fill start (start + size)
  initialPoolSize := (fill start (start + size)).length
  inRange u hu := (mem_fill _ _ u).1 hu

/-- The free list. -/
def stock : Stock UnixUIDPool UInt32 where
  list := pool
  keep p l h := { p with pool := l, inRange := fun u hu => p.inRange u (h.subset hu) }

/-- `Acquire` -/
def acquire : EStateM Err UnixUIDPool UInt32 := stock.acquire .uidPoolExhausted

/-- `Remove` -/
def remove (uid : UInt32) : EStateM Err UnixUIDPool Unit := stock.remove (· == uid) (.uidTaken uid)

/-- `Release`: a number outside the range is ignored; a free one is listed
    again. -/
def release (uid : UInt32) (p : UnixUIDPool) : UnixUIDPool :=
  if h : uid < p.start ∨ uid ≥ p.start + p.size then p
  else { p with
    pool := p.pool ++ [uid]
    inRange := fun u hu => by
      rcases List.mem_append.1 hu with hu | hu
      · exact p.inRange u hu
      · rw [List.mem_singleton.1 hu]
        simpa [not_or] using h }

/-- The pool with its errors and its `Release`. -/
def calls : Pool Err UnixUIDPool UInt32 where
  toStock := stock
  exhausted := .uidPoolExhausted
  taken := .uidTaken
  release := release

theorem acquire_ok {uid : UInt32} {p' : UnixUIDPool} (h : acquire p = .ok uid p') :
    p.pool = uid :: p'.pool ∧ p'.start = p.start ∧ p'.size = p.size := by
  obtain ⟨rest, hsub, hl, rfl⟩ := stock.acquire_ok h
  exact ⟨hl, rfl, rfl⟩

/-- `Remove` takes one entry out of the list, or fails without a change. -/
theorem wp_remove {Q : Unit → UnixUIDPool → Prop} {uid : UInt32}
    (hQ : ∀ rest h, p.pool.Perm (uid :: rest) → Q () (stock.keep p rest h))
    (hE : uid ∉ p.pool → E (.uidTaken uid) p) : wp (remove uid) Q E p := by
  rw [remove, Stock.wp_remove]
  refine ⟨fun rest hr h => ?_, fun hr => hE fun hu => ?_⟩
  · obtain ⟨a, ha, hp⟩ := removeFirst_perm hr
    rw [beq_iff_eq] at ha
    subst ha
    exact hQ rest h hp
  · simpa using removeFirst_eq_none.1 hr uid hu

/-- The pool after a `Release`: the number is listed iff it is in the range. -/
theorem release_pool (uid : UInt32) (p : UnixUIDPool) :
    (release uid p).pool =
      if p.start ≤ uid ∧ uid < p.start + p.size then p.pool ++ [uid] else p.pool := by
  unfold release
  by_cases h : uid < p.start ∨ uid ≥ p.start + p.size
  · have hn : ¬ (p.start ≤ uid ∧ uid < p.start + p.size) := by
      rcases h with h | h
      · exact fun hc => absurd h (UInt32.not_lt.2 hc.1)
      · exact fun hc => absurd hc.2 (UInt32.not_lt.2 h)
    rw [dif_pos h, if_neg hn]
  · have hn : p.start ≤ uid ∧ uid < p.start + p.size := by simpa [not_or] using h
    rw [dif_neg h, if_pos hn]

theorem release_cases (uid : UInt32) (p : UnixUIDPool) :
    (release uid p).pool = p.pool ++ [uid] ∨ (release uid p).pool = p.pool := by
  rw [release_pool]
  split_ifs
  exacts [Or.inl rfl, Or.inr rfl]

@[simp] theorem release_start (uid : UInt32) (p : UnixUIDPool) :
    (release uid p).start = p.start := by
  unfold release; split <;> rfl

@[simp] theorem release_size (uid : UInt32) (p : UnixUIDPool) : (release uid p).size = p.size := by
  unfold release; split <;> rfl

/-- What was taken from a pool is back in it after a `Release`. -/
theorem release_of_mem {uid : UInt32} {p q : UnixUIDPool} (h : uid ∈ q.pool)
    (hs : p.start = q.start) (hz : p.size = q.size) : (release uid p).pool = p.pool ++ [uid] := by
  rw [release_pool, if_pos]
  rw [hs, hz]; exact q.inRange uid h

end UnixUIDPool

/-! ## Ports -/

/-- `PortPool`; its free list holds numbers of its range only, each once. -/
structure PortPool where
  start : UInt32
  size : UInt32
  pool : List UInt32
  inRange : ∀ n ∈ pool, start ≤ n ∧ n < start + size
  nodup : pool.Nodup

namespace PortPool

/-- `port_pool.New` -/
def new (start size : UInt32) : PortPool where
  start := start
  size := size
  pool := fill start (start + size)
  inRange n hn := (mem_fill _ _ n).1 hn
  nodup := nodup_fill _ _

/-- The free list. -/
def stock : Stock PortPool UInt32 where
  list := pool
  keep p l h := { p with
    pool := l
    inRange := fun n hn => p.inRange n (h.subset hn)
    nodup := p.nodup.sublist h }

/-- `Acquire` -/
def acquire : EStateM Err PortPool UInt32 := stock.acquire .portPoolExhausted

/-- `Remove` -/
def remove (port : UInt32) : EStateM Err PortPool Unit := stock.remove (· == port) (.portTaken port)

/-- `Release`: a number outside the range and a free one are ignored. -/
def release (port : UInt32) (p : PortPool) : PortPool :=
  if h : port < p.start ∨ port ≥ p.start + p.size then p
  else if hm : port ∈ p.pool then p
  else { p with
    pool := p.pool ++ [port]
    inRange := fun n hn => by
      rcases List.mem_append.1 hn with hn | hn
      · exact p.inRange n hn
      · rw [List.mem_singleton.1 hn]
        simpa [not_or] using h
    nodup := by
      rw [List.nodup_append]
      refine ⟨p.nodup, List.nodup_singleton port, fun a ha b hb => ?_⟩
      rw [List.mem_singleton.1 hb]
      exact fun he => hm (he ▸ ha) }

/-- The pool with its errors and its `Release`. -/
def calls : Pool Err PortPool UInt32 where
  toStock := stock
  exhausted := .portPoolExhausted
  taken := .portTaken
  release := release

/-- A number of the range. -/
def InRange (p : PortPool) (port : UInt32) : Prop := p.start ≤ port ∧ port < p.start + p.size

instance (p : PortPool) (port : UInt32) : Decidable (p.InRange port) :=
  inferInstanceAs (Decidable (_ ∧ _))

theorem acquire_ok {port : UInt32} {p p' : PortPool} (h : acquire p = .ok port p') :
    p.pool = port :: p'.pool ∧ p'.start = p.start ∧ p'.size = p.size := by
  obtain ⟨rest, hsub, hl, rfl⟩ := stock.acquire_ok h
  exact ⟨hl, rfl, rfl⟩

theorem release_cases (port : UInt32) (p : PortPool) :
    (release port p).pool = p.pool ++ [port] ∨ (release port p).pool = p.pool := by
  unfold release
  split_ifs
  exacts [Or.inr rfl, Or.inr rfl, Or.inl rfl]

theorem not_inRange {p : PortPool} {port : UInt32} :
    (port < p.start ∨ port ≥ p.start + p.size) ↔ ¬ p.InRange port := by
  rw [InRange, not_and_or, UInt32.not_le, UInt32.not_lt]

@[simp] theorem release_start (port : UInt32) (p : PortPool) :
    (release port p).start = p.start := by
  unfold release; split_ifs <;> rfl

@[simp] theorem release_size (port : UInt32) (p : PortPool) : (release port p).size = p.size := by
  unfold release; split_ifs <;> rfl

/-- The free ports after a `Release`. -/
theorem mem_release {port n : UInt32} {p : PortPool} :
    n ∈ (release port p).pool ↔ n ∈ p.pool ∨ n = port ∧ p.InRange port := by
  unfold release
  split_ifs with h hm
  · rw [not_inRange] at h
    simp [h]
  · constructor
    · exact Or.inl
    · rintro (h' | ⟨rfl, -⟩)
      exacts [h', hm]
  · rw [not_inRange, not_not] at h
    simp [h]

@[simp] theorem foldl_release_start : ∀ (ps : List UInt32) (p : PortPool),
    (ps.foldl (fun p port => release port p) p).start = p.start
  | [], _ => rfl
  | port :: ps, p => by rw [List.foldl_cons, foldl_release_start, release_start]

/-- The free ports after the release of several. -/
theorem mem_foldl_release {n : UInt32} : ∀ {ps : List UInt32} {p : PortPool},
    n ∈ (ps.foldl (fun p port => release port p) p).pool ↔ n ∈ p.pool ∨ n ∈ ps ∧ p.InRange n
  | [], p => by simp
  | port :: ps, p => by
    have hr : ∀ m, (release port p).InRange m ↔ p.InRange m := fun m => by
      rw [InRange, InRange, release_start, release_size]
    rw [List.foldl_cons, mem_foldl_release, mem_release, hr, List.mem_cons]
    constructor
    · rintro ((h | ⟨rfl, h⟩) | ⟨h, h'⟩)
      exacts [Or.inl h, Or.inr ⟨Or.inl rfl, h⟩, Or.inr ⟨Or.inr h, h'⟩]
    · rintro (h | ⟨rfl | h, h'⟩)
      exacts [Or.inl (Or.inl h), Or.inl (Or.inr ⟨rfl, h'⟩), Or.inr ⟨h, h'⟩]

/-- `Remove` makes a free port taken, or fails without a change. -/
theorem wp_remove {Q : Unit → PortPool → Prop} {E : Err → PortPool → Prop} {p : PortPool}
    {port : UInt32}
    (hQ : ∀ p' : PortPool, p'.start = p.start → p'.size = p.size → port ∈ p.pool →
      (∀ n, n ∈ p'.pool ↔ n ∈ p.pool ∧ n ≠ port) → Q () p')
    (hE : port ∉ p.pool → E (.portTaken port) p) : wp (remove port) Q E p := by
  rw [remove, Stock.wp_remove]
  refine ⟨fun rest hr h => ?_, fun hr => hE fun hu => ?_⟩
  · obtain ⟨a, ha, hp⟩ := removeFirst_perm hr
    rw [beq_iff_eq] at ha
    subst ha
    have hp' : p.pool.Perm (a :: rest) := hp
    obtain ⟨hnot, -⟩ := List.nodup_cons.1 (hp'.nodup_iff.1 p.nodup)
    refine hQ _ rfl rfl (hp'.mem_iff.2 List.mem_cons_self) fun n => ?_
    show n ∈ rest ↔ _
    rw [hp'.mem_iff, List.mem_cons]
    constructor
    · exact fun hn => ⟨Or.inr hn, fun he => hnot (he ▸ hn)⟩
    · rintro ⟨he | hn, hne⟩
      exacts [absurd he hne, hn]
  · simpa using removeFirst_eq_none.1 hr port hu

/-- What the removal of several ports leaves: when it fails some of them are
    taken out and stay out. -/
theorem wp_removeAll {p : PortPool} : ∀ ps : List UInt32, wp (each remove ps)
    (fun _ p' => (ps.Nodup ∧ ∀ n ∈ ps, n ∈ p.pool) ∧ p'.start = p.start ∧ p'.size = p.size ∧
      ∀ n, n ∈ p'.pool ↔ n ∈ p.pool ∧ n ∉ ps)
    (fun _ p' => ¬ (ps.Nodup ∧ ∀ n ∈ ps, n ∈ p.pool) ∧ p'.start = p.start ∧ p'.size = p.size ∧
      (∀ n ∈ p'.pool, n ∈ p.pool) ∧ ∀ n ∈ p.pool, n ∈ p'.pool ∨ n ∈ ps) p
  | [] => by simp [each]
  | port :: ps => by
    rw [each, wp_bind]
    refine wp_remove (fun p₁ hst hsz hport hmem => ?_) (fun hport => ?_)
    · -- the rest of the list is removed from the pool without `port`
      refine wp_mono (wp_removeAll (p := p₁) ps) (fun _ p' => ?_) (fun _ p' => ?_)
      · rintro ⟨⟨hnd, hin⟩, hst', hsz', hmem'⟩
        have hnot : port ∉ ps := fun h => ((hmem port).1 (hin port h)).2 rfl
        refine ⟨⟨List.nodup_cons.2 ⟨hnot, hnd⟩, fun n hn => ?_⟩, hst'.trans hst, hsz'.trans hsz,
          fun n => ?_⟩
        · rcases List.mem_cons.1 hn with rfl | hn
          · exact hport
          · exact ((hmem n).1 (hin n hn)).1
        · rw [hmem' n, hmem n, List.mem_cons, not_or, and_assoc]
      · rintro ⟨hbad, hst', hsz', hsub, hkeep⟩
        refine ⟨?_, hst'.trans hst, hsz'.trans hsz, fun n hn => ((hmem n).1 (hsub n hn)).1,
          fun n hn => ?_⟩
        · rintro ⟨hnd, hin⟩
          obtain ⟨hnot, hnd'⟩ := List.nodup_cons.1 hnd
          exact hbad ⟨hnd', fun n hn =>
            (hmem n).2 ⟨hin n (List.mem_cons_of_mem _ hn), fun he => hnot (he ▸ hn)⟩⟩
        · by_cases he : n = port
          · exact Or.inr (he ▸ List.mem_cons_self)
          · rcases hkeep n ((hmem n).2 ⟨hn, he⟩) with h | h
            exacts [Or.inl h, Or.inr (List.mem_cons_of_mem _ h)]
    · exact ⟨fun h => hport (h.2 port List.mem_cons_self), rfl, rfl, fun _ hn => hn,
        fun _ hn => Or.inl hn⟩

end PortPool

end WardenLinux
