/-
  The port pool over whole runs (port_pool.go).

  `calls.Step p e p'`: a call of `Acquire`, `Remove` or `Release` on the pool `p` ends
  with the event `e` and leaves `p'`.  `Moves` says what each event does to the
  free list.

  * `not_free_of_out`: a port that was yielded and not released since is not
    free.
  * `yielded_or_ahead`: what was free when a port was released has been yielded
    since, or is still ahead of that port.
-/
import WardenLinux.Lib.Transition
import WardenLinux.NumberPools

namespace WardenLinux

open Fallible FreeList Transition

namespace PortPool

/-- The port was yielded and has not been released since. -/
def Out (port : UInt32) (es : List (Pool.Event UInt32)) : Prop :=
  ∃ before e after, es = before ++ e :: after ∧ e.Yields port ∧ Pool.Event.released port ∉ after

/-! ## What a call does to the free list -/

inductive Moves (p p' : PortPool) : Pool.Event UInt32 → Prop
  | acquired {port : UInt32} : p.pool = port :: p'.pool → Moves p p' (.acquired port)
  | exhausted : p' = p → Moves p p' .exhausted
  | removed {port : UInt32} {l₁ l₂ : List UInt32} : p.pool = l₁ ++ port :: l₂ →
      p'.pool = l₁ ++ l₂ → Moves p p' (.removed port)
  | taken {port : UInt32} : port ∉ p.pool → p' = p → Moves p p' (.taken port)
  | released {port : UInt32} : p'.pool = p.pool ++ [port] → Moves p p' (.released port)
  | ignored {port : UInt32} : p'.pool = p.pool → Moves p p' (.released port)

theorem acquire_error {e : Err} {p p' : PortPool} (h : acquire p = .error e p') : p' = p :=
  (stock.acquire_error h).2

theorem remove_ok {port : UInt32} {p p' : PortPool} (h : remove port p = .ok () p') :
    ∃ l₁ l₂, p.pool = l₁ ++ port :: l₂ ∧ p'.pool = l₁ ++ l₂ := by
  obtain ⟨rest, hsub, hr, rfl⟩ := stock.remove_ok h
  obtain ⟨n, l₁, l₂, hn, hl, rfl⟩ := removeFirst_split hr
  rw [beq_iff_eq] at hn
  subst hn
  exact ⟨l₁, l₂, hl, rfl⟩

theorem remove_error {port : UInt32} {e : Err} {p p' : PortPool}
    (h : remove port p = .error e p') : port ∉ p.pool ∧ p' = p := by
  obtain ⟨hno, hp⟩ := stock.remove_error h
  refine ⟨fun hport => ?_, hp⟩
  simpa using hno port hport

theorem moves_of_step {p p' : PortPool} {e : Pool.Event UInt32} (h : calls.Step p e p') :
    Moves p p' e := by
  cases h with
  | acquired hq => exact .acquired (acquire_ok hq).1
  | exhausted hq => exact .exhausted (acquire_error hq)
  | removed hq =>
    obtain ⟨l₁, l₂, hl, hl'⟩ := remove_ok hq
    exact .removed hl hl'
  | taken hq =>
    obtain ⟨hport, hp⟩ := remove_error hq
    exact .taken hport hp
  | released =>
    rcases release_cases _ p with h | h
    · exact .released h
    · exact .ignored h

/-! ## Runs -/

/-- The range of a pool does not change. -/
theorem run_range {p₀ p : PortPool} {es : List (Pool.Event UInt32)} (h : Run calls.Step p₀ es p) :
    p.start = p₀.start ∧ p.size = p₀.size :=
  ⟨Pool.run_frame h start (fun _ _ _ => rfl) release_start,
    Pool.run_frame h size (fun _ _ _ => rfl) release_size⟩

/-- A port that is yielded was free before and is not free afterwards. -/
theorem Moves.yields {p p' : PortPool} {e : Pool.Event UInt32} {port : UInt32} (h : Moves p p' e)
    (hy : e.Yields port) : port ∈ p.pool ∧ port ∉ p'.pool := by
  have hnd := p.nodup
  cases h with
  | acquired hl =>
    cases hy
    rw [hl] at hnd ⊢
    exact ⟨List.mem_cons_self, (List.nodup_cons.1 hnd).1⟩
  | removed hl hl' =>
    cases hy
    rw [hl] at hnd ⊢
    rw [hl']
    exact ⟨List.mem_append_right _ List.mem_cons_self, (List.nodup_middle.1 hnd).notMem⟩
  | exhausted => exact hy.elim
  | taken => exact hy.elim
  | released => exact hy.elim
  | ignored => exact hy.elim

/-- Only a `Release` of a port makes it free. -/
theorem Moves.free {p p' : PortPool} {e : Pool.Event UInt32} {port : UInt32} (h : Moves p p' e)
    (hport : port ∈ p'.pool) : port ∈ p.pool ∨ e = .released port := by
  cases h with
  | acquired hl => rw [hl]; exact Or.inl (List.mem_cons_of_mem _ hport)
  | removed hl hl' =>
    rw [hl'] at hport
    rw [hl]
    exact Or.inl ((List.sublist_cons_self ..).append_left _ |>.subset hport)
  | exhausted hp => exact Or.inl (hp ▸ hport)
  | taken _ hp => exact Or.inl (hp ▸ hport)
  | released hl =>
    rw [hl] at hport
    rcases List.mem_append.1 hport with hport | hport
    · exact Or.inl hport
    · rw [List.mem_singleton.1 hport]; exact Or.inr rfl
  | ignored hl => exact Or.inl (hl ▸ hport)

/-- The last event of a history in which the port is out. -/
theorem out_concat {port : UInt32} {es : List (Pool.Event UInt32)} {e : Pool.Event UInt32}
    (h : Out port (es ++ [e])) : e.Yields port ∨ Out port es ∧ e ≠ .released port := by
  obtain ⟨before, e', after, hes, hy, hno⟩ := h
  rcases List.eq_nil_or_concat after with rfl | ⟨after, e'', rfl⟩
  · obtain ⟨-, he⟩ := List.append_inj' hes rfl
    cases he
    exact Or.inl hy
  · rw [List.concat_eq_append] at hes hno
    have hes' : es ++ [e] = (before ++ e' :: after) ++ [e''] := by
      rw [hes, List.append_assoc, List.cons_append]
    obtain ⟨rfl, he⟩ := List.append_inj' hes' rfl
    cases he
    refine Or.inr ⟨⟨before, e', after, rfl, hy, fun h => ?_⟩, fun h => ?_⟩
    · exact hno (List.mem_append_left _ h)
    · exact hno (List.mem_append_right _ (h ▸ List.mem_cons_self))

/-- **What is out is not free.** -/
theorem not_free_of_out {start size : UInt32} {p : PortPool} {es : List (Pool.Event UInt32)}
    {port : UInt32} (h : Run calls.Step (new start size) es p) : Out port es → port ∉ p.pool := by
  induction h with
  | nil =>
    rintro ⟨before, e, after, hes, -⟩
    simp at hes
  | snoc _ hs ih =>
    intro hout hport
    have hm := moves_of_step hs
    rcases out_concat hout with hy | ⟨hout, hne⟩
    · exact (hm.yields hy).2 hport
    · rcases hm.free hport with hport | he
      · exact ih hout hport
      · exact hne he

/-- One call and a port `q` that is ahead of another one. -/
theorem Moves.ahead {p p' : PortPool} {e : Pool.Event UInt32} {q port : UInt32} (h : Moves p p' e)
    (hq : q ∈ p.pool) (hy : ¬ e.Yields q) (ha : port ∈ p.pool → Ahead q port p.pool) :
    q ∈ p'.pool ∧ (port ∈ p'.pool → Ahead q port p'.pool) := by
  have hnd := p.nodup
  have hnot : e.Yields port → port ∉ p'.pool := fun hp => (h.yields hp).2
  have hfree : port ∈ p'.pool → port ∈ p.pool ∨ e = .released port := h.free
  cases h with
  | acquired hl =>
    rw [hl] at hq ha
    refine ⟨(List.mem_cons.1 hq).resolve_left fun he => hy he.symm, fun hport => ?_⟩
    have ha' : Ahead q port ([] ++ _ :: p'.pool) := ha (List.mem_cons_of_mem _ hport)
    exact ha'.take (fun he => hy he.symm) fun he => hnot he.symm hport
  | removed hl hl' =>
    rw [hl] at hq ha hfree
    rw [hl'] at hnot hfree ⊢
    refine ⟨?_, fun hport => ?_⟩
    · rcases List.mem_append.1 hq with hq | hq
      · exact List.mem_append_left _ hq
      · exact List.mem_append_right _ ((List.mem_cons.1 hq).resolve_left fun he => hy he.symm)
    · have ha' := ha ((hfree hport).resolve_right nofun)
      exact ha'.take (fun he => hy he.symm) fun he => hnot he.symm hport
  | exhausted hp => subst hp; exact ⟨hq, ha⟩
  | taken _ hp => subst hp; exact ⟨hq, ha⟩
  | ignored hl => rw [hl]; exact ⟨hq, ha⟩
  | released hl =>
    rw [hl]
    refine ⟨List.mem_append_left _ hq, fun hport => ?_⟩
    rcases List.mem_append.1 hport with hport | hport
    · exact (ha hport).put
    · rw [List.mem_singleton.1 hport]
      exact .of_mem hq

/-- **Everything that was free goes first.**  Since a port was put at the end
    of the list, what was listed then has been yielded or is ahead of it. -/
theorem yielded_or_ahead {p₀ p : PortPool} {es : List (Pool.Event UInt32)} {q port : UInt32}
    (h : Run calls.Step p₀ es p) (hq : q ∈ p₀.pool) (ha : port ∈ p₀.pool → Ahead q port p₀.pool) :
    (∃ e ∈ es, e.Yields q) ∨ q ∈ p.pool ∧ (port ∈ p.pool → Ahead q port p.pool) := by
  induction h with
  | nil => exact Or.inr ⟨hq, ha⟩
  | @snoc es e p p' _ hs ih =>
    rcases ih with ⟨e', he', hy⟩ | ⟨hq', ha'⟩
    · exact Or.inl ⟨e', List.mem_append_left _ he', hy⟩
    · by_cases hy : e.Yields q
      · exact Or.inl ⟨e, List.mem_append_right _ List.mem_cons_self, hy⟩
      · exact Or.inr ((moves_of_step hs).ahead hq' hy ha')

/-- A released port is acquired after all that were free. -/
theorem yielded_before_reuse {p p' p'' : PortPool} {es : List (Pool.Event UInt32)} {q port : UInt32}
    (hnot : port ∉ p.pool) (hfree : port ∈ (release port p).pool)
    (h : Run calls.Step (release port p) es p') (hacq : acquire p' = .ok port p'') (hq : q ∈ p.pool) :
    ∃ e ∈ es, e.Yields q := by
  have hne : q ≠ port := fun he => hnot (he ▸ hq)
  have hl : (release port p).pool = p.pool ++ [port] := by
    rcases release_cases port p with h | h
    · exact h
    · exact absurd (h ▸ hfree) hnot
  have hq₀ : q ∈ (release port p).pool := hl ▸ List.mem_append_left _ hq
  have ha₀ : port ∈ (release port p).pool → Ahead q port (release port p).pool := fun _ =>
    hl ▸ .of_mem hq
  rcases yielded_or_ahead h hq₀ ha₀ with hy | ⟨-, ha⟩
  · exact hy
  · have hl' := (acquire_ok hacq).1
    have hnd := p'.nodup
    rw [hl'] at ha hnd
    exact absurd (ha List.mem_cons_self) (Ahead.not_front hnd hne)

theorem remove_ok_iff {port : UInt32} {p : PortPool} :
    (∃ p', remove port p = .ok () p') ↔ port ∈ p.pool := by
  constructor
  · rintro ⟨p', h⟩
    obtain ⟨l₁, l₂, hl, -⟩ := remove_ok h
    rw [hl]
    exact List.mem_append_right l₁ List.mem_cons_self
  · intro hport
    cases h : remove port p with
    | ok u p' => exact ⟨p', rfl⟩
    | error e p' => exact absurd hport (remove_error h).1

/-- **The discipline of the port pool.**  In every state that calls on a new pool
    lead to: the free list has no port twice and none outside of the range; the
    next call yields no port that is out; `Remove` fails exactly when the port
    is not free, and then changes nothing; and a port that a `Release` makes free
    is not acquired again before all that were free then have been yielded. -/
theorem port_pool_discipline {start size : UInt32} (hsum : start.toNat + size.toNat < 2 ^ 32)
    {es : List (Pool.Event UInt32)} {p : PortPool} (h : Run calls.Step (new start size) es p) :
    (p.pool.Nodup ∧ ∀ n ∈ p.pool,
        start.toNat ≤ n.toNat ∧ n.toNat < start.toNat + size.toNat) ∧
      (∀ e p' port, calls.Step p e p' → e.Yields port → ¬ Out port es) ∧
      (∀ port, ((∃ p', remove port p = .ok () p') ↔ port ∈ p.pool) ∧
        ∀ e p', remove port p = .error e p' → p' = p) ∧
      ∀ port, port ∉ p.pool → port ∈ (release port p).pool → ∀ es' p' p'',
        Run calls.Step (release port p) es' p' → acquire p' = .ok port p'' →
          ∀ q ∈ p.pool, ∃ e ∈ es', e.Yields q := by
  obtain ⟨hst, hsz⟩ := run_range h
  refine ⟨⟨p.nodup, fun n hn => ?_⟩, fun e p' port hs hy hout => ?_,
    fun port => ⟨remove_ok_iff, fun e p' he => (remove_error he).2⟩,
    fun port hnot hfree es' p' p'' hr hacq q hq => yielded_before_reuse hnot hfree hr hacq hq⟩
  · obtain ⟨h₁, h₂⟩ := p.inRange n hn
    rw [hst, UInt32.le_iff_toNat_le] at h₁
    rw [hst, hsz, UInt32.lt_iff_toNat_lt] at h₂
    exact ⟨h₁, toNat_stop hsum ▸ h₂⟩
  · exact not_free_of_out h hout ((moves_of_step hs).yields hy).1

/-- Of the ports 61001 and 61002 the first is acquired and released: it is not
    acquired again before 61002 has been yielded. -/
theorem port_pool_discipline_two_ports :
    ∃ p, Run calls.Step (new 61001 2) [.acquired 61001] p ∧ ∀ es' p' p'',
      Run calls.Step (release 61001 p) es' p' → acquire p' = .ok 61001 p'' →
        ∃ e ∈ es', e.Yields 61002 := by
  let two : PortPool := ⟨61001, 2, [61001, 61002], by simp, by simp⟩
  let one : PortPool := ⟨61001, 2, [61002], by simp, by simp⟩
  have hnew : new 61001 2 = two := by simp [new, fill, two]
  have hr : Run calls.Step (new 61001 2) [.acquired 61001] one :=
    Run.nil.snoc (.acquired (by rw [hnew]; rfl))
  obtain ⟨-, -, -, hreuse⟩ := port_pool_discipline (by decide) hr
  refine ⟨one, hr, fun es' p' p'' hr' hacq => ?_⟩
  exact hreuse 61001 (by decide) (by decide +kernel) es' p' p'' hr' hacq 61002 (by decide)

end PortPool

end WardenLinux
