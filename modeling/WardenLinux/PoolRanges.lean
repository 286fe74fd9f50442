/-
  The ranges of the pools of numbers (port_pool.go, unix_uid_pool.go).

  `Covers P s₀ start size`: a new pool `s₀` lists the numbers
  `start, …, start + size - 1` in this order, and after any calls the `Release`
  of one of them that was handed out makes it free.

  Both constructors and both `Release`s compare with `start + size`, a sum of
  32-bit numbers.  It is `0` for a range that ends at `2 ^ 32`: the list is
  empty then, and every number is outside of the range.  Short of that both
  pools cover their range (`pools_cover_iff`).
-/
import WardenLinux.Lib.Transition
import WardenLinux.NumberPools

namespace WardenLinux

open FreeList Transition

variable {σ : Type} {P : Pool Err σ UInt32} {s₀ : σ} {start size : UInt32}

/-- A new pool has all numbers of a range, in order, and a number of the range
    that was handed out is free once it is released. -/
def Covers (P : Pool Err σ UInt32) (s₀ : σ) (start size : UInt32) : Prop :=
  (P.list s₀).map UInt32.toNat = List.range' start.toNat size.toNat ∧
    ∀ es s n, Run P.Step s₀ es s → n.toNat ∈ List.range' start.toNat size.toNat →
      (∃ e ∈ es, e.Yields n) → n ∈ P.list (P.release n s)

theorem Covers.length_list (h : Covers P s₀ start size) : (P.list s₀).length = size.toNat := by
  rw [← List.length_map UInt32.toNat, h.1, List.length_range']

/-! ## The list of a new pool -/

/-- The numbers of a range that ends below `2 ^ 32`, as the code compares. -/
theorem mem_range_iff (h : start.toNat + size.toNat < 2 ^ 32) {n : UInt32} :
    n.toNat ∈ List.range' start.toNat size.toNat ↔ start ≤ n ∧ n < start + size := by
  rw [List.mem_range'_1, UInt32.le_iff_toNat_le, UInt32.lt_iff_toNat_lt, toNat_stop h]

/-- The loop lists a whole range exactly when the range ends below `2 ^ 32`. -/
theorem fill_eq_range_iff : (fill start (start + size)).map UInt32.toNat =
    List.range' start.toNat size.toNat ↔ start.toNat + size.toNat < 2 ^ 32 := by
  constructor
  · intro h
    by_cases hz : size.toNat = 0
    · rw [hz]
      exact start.toNat_lt
    -- the last number of the range is below the sum the loop compares with
    · have hlast : start.toNat + size.toNat - 1 ∈ List.range' start.toNat size.toNat := by
        rw [List.mem_range'_1]
        omega
      rw [← h] at hlast
      obtain ⟨n, hn, hlast⟩ := List.mem_map.1 hlast
      obtain ⟨-, hlt⟩ := (mem_fill _ _ n).1 hn
      rw [UInt32.lt_iff_toNat_lt, UInt32.toNat_add] at hlt
      have hbound := n.toNat_lt
      omega
  · intro h
    rw [map_toNat_fill, toNat_stop h, Nat.add_sub_cancel_left]

/-! ## Calls -/

/-- A pool whose range no call changes, that lists what the loop makes and takes back
    what is in its range, covers it exactly when the range ends below `2 ^ 32`. -/
theorem covers_iff (range : σ → UInt32 × UInt32)
    (hkeep : ∀ s l hsub, range (P.keep s l hsub) = range s)
    (hrelease : ∀ n s, range (P.release n s) = range s)
    (hput : ∀ n s, (range s).1 ≤ n ∧ n < (range s).1 + (range s).2 → n ∈ P.list (P.release n s))
    (hnew : range s₀ = (start, size)) (hlist : P.list s₀ = fill start (start + size)) :
    Covers P s₀ start size ↔ start.toNat + size.toNat < 2 ^ 32 := by
  rw [Covers, hlist, fill_eq_range_iff]
  refine ⟨fun h => h.1, fun h => ⟨h, fun es s n hr hn _ => hput n s ?_⟩⟩
  rw [Pool.run_frame hr range hkeep hrelease, hnew]
  exact (mem_range_iff h).1 hn

theorem UnixUIDPool.covers_new (start size : UInt32) :
    Covers calls (new start size) start size ↔ start.toNat + size.toNat < 2 ^ 32 := by
  refine covers_iff (fun p => (p.start, p.size)) (fun _ _ _ => rfl) (fun uid p => ?_)
    (fun uid p huid => ?_) rfl rfl
  · exact congrArg₂ Prod.mk (release_start uid p) (release_size uid p)
  · show uid ∈ (release uid p).pool
    rw [release_pool, if_pos huid]
    exact List.mem_append_right _ List.mem_cons_self

theorem PortPool.covers_new (start size : UInt32) :
    Covers calls (new start size) start size ↔ start.toNat + size.toNat < 2 ^ 32 := by
  refine covers_iff (fun p => (p.start, p.size)) (fun _ _ _ => rfl) (fun port p => ?_)
    (fun port p hport => ?_) rfl rfl
  · exact congrArg₂ Prod.mk (release_start port p) (release_size port p)
  · exact mem_release.2 (Or.inr ⟨rfl, hport⟩)

/-- **The pools cover their ranges** exactly when the range ends below
    `2 ^ 32`. -/
theorem pools_cover_iff (start size : UInt32) :
    Covers PortPool.calls (PortPool.new start size) start size ∧
        Covers UnixUIDPool.calls (UnixUIDPool.new start size) start size ↔
      start.toNat + size.toNat < 2 ^ 32 := by
  rw [PortPool.covers_new, UnixUIDPool.covers_new, and_self]

/-- The last 32-bit number as a range of its own: neither pool lists it, and
    neither takes it back. -/
theorem last_number_uncovered :
    (4294967295 : UInt32).toNat + (1 : UInt32).toNat ≤ 2 ^ 32 ∧
      List.range' (4294967295 : UInt32).toNat (1 : UInt32).toNat = [4294967295] ∧
      ((PortPool.new 4294967295 1).pool = [] ∧
        (PortPool.release 4294967295 (PortPool.new 4294967295 1)).pool = [] ∧
        ¬ Covers PortPool.calls (PortPool.new 4294967295 1) 4294967295 1) ∧
      (UnixUIDPool.new 4294967295 1).pool = [] ∧
        (UnixUIDPool.release 4294967295 (UnixUIDPool.new 4294967295 1)).pool = [] ∧
        ¬ Covers UnixUIDPool.calls (UnixUIDPool.new 4294967295 1) 4294967295 1 := by
  have hport : (PortPool.new 4294967295 1).pool = [] := by simp [PortPool.new, fill]
  have huid : (UnixUIDPool.new 4294967295 1).pool = [] := by simp [UnixUIDPool.new, fill]
  refine ⟨by decide, by decide, ⟨hport, ?_, fun h => ?_⟩, huid, ?_, fun h => ?_⟩
  · refine List.eq_nil_iff_forall_not_mem.2 fun n hn => ?_
    rcases PortPool.mem_release.1 hn with hn | ⟨-, hn⟩
    · rw [hport] at hn
      cases hn
    · exact absurd hn.2 (by decide)
  · have hlen := h.length_list
    change (PortPool.new 4294967295 1).pool.length = 1 at hlen
    rw [hport] at hlen
    cases hlen
  · rw [UnixUIDPool.release_pool, if_neg fun hn => absurd hn.2 (by decide), huid]
  · have hlen := h.length_list
    change (UnixUIDPool.new 4294967295 1).pool.length = 1 at hlen
    rw [huid] at hlen
    cases hlen

end WardenLinux
