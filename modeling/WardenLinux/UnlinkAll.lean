/-
  `UnlinkAll` waits for the channel `linked` of one process after the other and
  has the read lock all the time.  Two things keep such a channel open for
  ever: its `iodaemon link` did not start (`canLink_failed`), or the goroutine
  that would run it needs the read lock while a writer waits (`canLink_writer`).
  `unlinkAll_links`: when neither happens, some steps close the channel.
-/
import WardenLinux.Linking

namespace WardenLinux

open Transition

namespace Linking

/-! ## Every state of a careful run -/

/-- A tracked process is linked or failed, or some goroutine is on its way to
    link it; and while `UnlinkAll` has the lock, that goroutine needs no lock
    that a writer keeps from it. -/
structure Inv (s : Tracking) : Prop where
  way : ∀ id q, s.tracker.processes.lookup id = some q →
    s.settled q.addr = true ∨ s.goroutines.any (Pc.heads id) = true
  busy : ∀ p, (s.links p).busy = true →
    (s.links p).linked = true ∨ s.goroutines.any (Pc.inside p) = true
  runs : ∀ p, s.goroutines.any (Pc.runs p) = true → (s.links p).linked = true
  names : ∀ p, s.goroutines.any (Pc.names p) = true → p < s.tracker.allocated
  writers : s.goroutines.countP Pc.writes ≤ 1
  blocked : s.goroutines.any Pc.isBlocked = true → s.goroutines.any Pc.writes = true
  waits : s.goroutines.any Pc.unlinks = true → s.goroutines.any Pc.writes = true →
    ∀ p ∈ s.tracked, s.passed p = true
  loop : ∀ todo, .unlinking todo ∈ s.goroutines →
    (∀ p ∈ todo, p ∈ s.tracked) ∧ ∀ p ∈ s.tracked, s.failed p = false

section
variable {s : Tracking} {ok : Bool} {order : List ℕ} {t : ℕ} {pc : Pc} {r : Outcome} {p : ℕ}

theorem tracked_lt (h : p ∈ s.tracked) : p < s.tracker.allocated := by
  obtain ⟨q, hq, rfl⟩ := List.mem_map.1 h
  exact (s.tracker.filed _ _ (ProcessTracker.mem_activeProcesses.1 hq)).2

theorem any_of_getElem? {P : Pc → Bool} (ht : s.goroutines[t]? = some pc) (hp : P pc = true) :
    s.goroutines.any P = true := List.any_eq_true.2 ⟨pc, List.mem_of_getElem? ht, hp⟩

/-- The step of a goroutine that is not a writer leaves the others where they
    are. -/
theorem any_of_quiet {P : Pc → Bool} (hn : pc.next s ok order = some r) (hu : r.unlocks = false)
    (hP : ∀ id, P (.rlock (.link id)) = false) (h : (s.after t r).goroutines.any P = true) :
    P r.pc = true ∨ s.goroutines.any P = true := by
  simp only [Tracking.after, hu, Bool.false_eq_true, if_false, List.map_id, List.any_append,
    not_any_spawned hn hP, Bool.or_false] at h
  exact any_of_set h

theorem settled_after (ht : s.goroutines[t]? = some pc) (hn : pc.next s ok order = some r)
    (hp : p < s.tracker.allocated) (h : s.settled p = true) : (s.after t r).settled p = true := by
  have hlinks := next_links (p := p) hn fun he => by omega
  simp only [Tracking.settled, Bool.or_eq_true] at h ⊢
  rcases h with (h | h) | h
  · exact Or.inl (Or.inl (hlinks.1 h))
  · exact Or.inl (Or.inr (hlinks.2 h))
  · by_cases hc : pc.claims p = true
    · rcases next_claims hn hc with h | h | h'
      · exact Or.inl (Or.inl h)
      · exact Or.inl (Or.inr h)
      · exact Or.inr (any_after_of (grant_claims p) ht h fun _ => Or.inl h')
    · exact Or.inr (any_after_of (grant_claims p) ht h fun h' => absurd h' hc)

theorem settled_of_claims (ht : s.goroutines[t]? = some pc) (hc : r.pc.claims p = true) :
    (s.after t r).settled p = true := by
  simp only [Tracking.settled, Tracking.claimed, any_after (grant_claims p), Bool.or_eq_true]
  obtain ⟨hlt, -⟩ := List.getElem?_eq_some_iff.1 ht
  exact Or.inr (Or.inl (List.any_eq_true.2 ⟨r.pc, List.mem_set hlt r.pc, hc⟩))

/-- While no writer has the lock, who has the read lock finds what it looks for. -/
theorem passed_after (ht : s.goroutines[t]? = some pc) (hn : pc.next s ok order = some r)
    (hw : pc.writes = false) (hp : p < s.tracker.allocated) (h : s.passed p = true) :
    (s.after t r).passed p = true := by
  obtain ⟨htr, hu⟩ := next_tracker hn hw
  simp only [Tracking.passed, Bool.or_eq_true] at h ⊢
  rcases h with h | h
  · exact Or.inl (settled_after ht hn hp h)
  by_cases hc : pc.finds s.tracker p = true
  · -- the step is the lookup
    left
    cases moves_of_next hn with
    | gone hq => simp [Pc.finds, hq] at hc
    | find hq =>
      refine settled_of_claims ht ?_
      simpa [Pc.finds, hq, Tracking.goto, Pc.claims] using hc
    | _ => cases hc
  · right
    simp only [Tracking.after, hu, htr, Bool.false_eq_true, if_false, List.map_id, List.any_append,
      Bool.or_eq_true]
    exact Or.inl (any_set_of ht h fun h' => absurd h' hc)

theorem Inv.way_after (h : Inv s) (ht : s.goroutines[t]? = some pc)
    (hn : pc.next s ok order = some r) (id : UInt32) (q : Process)
    (hq : r.tracker.processes.lookup id = some q) :
    (s.after t r).settled q.addr = true ∨ (s.after t r).goroutines.any (Pc.heads id) = true := by
  rcases next_lookup hn hq with hq | hnew
  · rcases h.way id q hq with hs | hh
    · exact Or.inl (settled_after ht hn (s.tracker.filed _ _ hq).2 hs)
    · by_cases hpc : pc.heads id = true
      · rcases next_heads hn hq hpc with hc | hc
        · exact Or.inl (settled_of_claims ht hc)
        · exact Or.inr (any_after_of (grant_heads id) ht hh fun _ => hc)
      · exact Or.inr (any_after_of (grant_heads id) ht hh fun hc => absurd hc hpc)
  · right
    rw [any_after (grant_heads id), Bool.or_eq_true]
    obtain ⟨hlt, -⟩ := List.getElem?_eq_some_iff.1 ht
    rcases hnew with hc | hc
    · exact Or.inl (List.any_eq_true.2 ⟨r.pc, List.mem_set hlt r.pc, hc⟩)
    · exact Or.inr hc

theorem Inv.links_after (h : Inv s) (ht : s.goroutines[t]? = some pc)
    (hn : pc.next s ok order = some r) (p : ℕ) :
    ((r.links p).busy = true →
      (r.links p).linked = true ∨ (s.after t r).goroutines.any (Pc.inside p) = true) ∧
    ((s.after t r).goroutines.any (Pc.runs p) = true → (r.links p).linked = true) := by
  constructor
  · intro hb
    rcases next_busy hn hb with hi | ⟨hb', hi⟩ | hl
    · right
      rw [any_after (grant_inside p), Bool.or_eq_true]
      obtain ⟨hlt, -⟩ := List.getElem?_eq_some_iff.1 ht
      exact Or.inl (List.any_eq_true.2 ⟨r.pc, List.mem_set hlt r.pc, hi⟩)
    · rcases h.busy p hb' with hl | hin
      · exact Or.inl ((next_links hn fun _ he => by simp [he] at hb).1 hl)
      · refine Or.inr (any_after_of (grant_inside p) ht hin fun hc => ?_)
        rw [hi] at hc; cases hc
    · exact Or.inl hl
  · intro hr
    rcases any_of_after (grant_runs p) hr with hr | hr | hr
    · exact next_runs hn hr
    · rw [not_any_spawned hn fun _ => rfl] at hr; cases hr
    · have hlt : p < s.tracker.allocated := h.names p (by
        obtain ⟨g, hg, hgr⟩ := List.any_eq_true.1 hr
        exact List.any_eq_true.2 ⟨g, hg, names_of_runs hgr⟩)
      exact (next_links hn fun he => by omega).1 (h.runs p hr)

/-- After the lock of a writer nobody waits for it, and nobody is in the loop
    of `UnlinkAll`. -/
theorem Inv.unlocked (h : Inv s) (ht : s.goroutines[t]? = some pc)
    (hn : pc.next s ok order = some r) (hw : pc.writes = true) :
    (s.after t r).goroutines.any Pc.writes = false ∧
      (s.after t r).goroutines.any Pc.isBlocked = false ∧
      ∀ todo, .unlinking todo ∉ (s.after t r).goroutines := by
  obtain ⟨hu, hr, hw', hloop, -⟩ := next_unlocks hn hw
  have hcount := countP_after grant_writes (fun _ => rfl) ht hn
  have hone := h.writers
  refine ⟨?_, ?_, fun todo hm => ?_⟩
  · rw [if_pos hw, if_neg (by simp [hw'])] at hcount
    rw [List.any_eq_false]
    exact fun g hg => List.countP_eq_zero.1 (by omega) g hg
  · have hnew : r.spawned.any Pc.isBlocked = false := not_any_spawned hn fun _ => rfl
    simp only [Tracking.after, hu, if_true, List.any_append, hnew, Bool.or_false, List.any_map]
    rw [List.any_eq_false]
    intro g _ hb
    cases g <;> cases hb
  · simp only [Tracking.after, hu, if_true, List.mem_append, List.mem_map] at hm
    rcases hm with ⟨g, hg, he⟩ | hm
    · cases grant_unlinking he
      rcases List.mem_or_eq_of_mem_set hg with hg | hg
      · have hreads : s.goroutines.any Pc.reads = true := List.any_eq_true.2 ⟨_, hg, rfl⟩
        rw [hr] at hreads; cases hreads
      · exact hloop todo hg.symm
    · obtain ⟨id, hid⟩ := next_spawned hn hm
      cases hid

theorem Inv.writers_after (h : Inv s) (ht : s.goroutines[t]? = some pc)
    (hn : pc.next s ok order = some r) : (s.after t r).goroutines.countP Pc.writes ≤ 1 := by
  have hcount := countP_after grant_writes (fun _ => rfl) ht hn
  have hone := h.writers
  by_cases hw : r.pc.writes = true
  · have : s.goroutines.countP Pc.writes = 0 := List.countP_eq_zero.2 fun g hg =>
      List.any_eq_false.1 (next_writes hn hw).1 g hg
    split_ifs at hcount <;> omega
  · rw [if_neg hw] at hcount
    omega

theorem Inv.names_after (h : Inv s) (ht : s.goroutines[t]? = some pc)
    (hn : pc.next s ok order = some r) (p : ℕ)
    (hp : (s.after t r).goroutines.any (Pc.names p) = true) : p < r.tracker.allocated := by
  have hle : s.tracker.allocated ≤ r.tracker.allocated := by
    by_cases hw : pc.writes = true
    · exact (next_unlocks hn hw).2.2.2.2
    · rw [(next_tracker hn (by simpa using hw)).1]
  refine lt_of_lt_of_le ?_ hle
  rcases any_of_after (grant_names p) hp with hp | hp | hp
  · rcases next_names hn hp with hp | hp
    · exact h.names p (any_of_getElem? ht hp)
    · exact hp
  · rw [not_any_spawned hn fun _ => rfl] at hp; cases hp
  · exact h.names p hp

theorem Inv.blocked_after (h : Inv s) (ht : s.goroutines[t]? = some pc)
    (hn : pc.next s ok order = some r)
    (hb : (s.after t r).goroutines.any Pc.isBlocked = true) :
    (s.after t r).goroutines.any Pc.writes = true := by
  by_cases hw : pc.writes = true
  · rw [(h.unlocked ht hn hw).2.1] at hb; cases hb
  · rw [Bool.not_eq_true] at hw
    have hany : s.goroutines.any Pc.writes = true := by
      rcases any_of_quiet hn (next_tracker hn hw).2 (fun _ => rfl) hb with hb | hb
      · exact (next_isBlocked hn hb).1
      · exact h.blocked hb
    exact any_after_of grant_writes ht hany fun hc => by rw [hw] at hc; cases hc

theorem Inv.waits_after (h : Inv s) (ht : s.goroutines[t]? = some pc)
    (hn : pc.next s ok order = some r)
    (hg : ∀ w, pc = .lock w → s.goroutines.any Pc.unlinks = true →
      ∀ p ∈ s.tracked, s.passed p = true)
    (hunlinks : (s.after t r).goroutines.any Pc.unlinks = true)
    (hwrites : (s.after t r).goroutines.any Pc.writes = true) :
    ∀ p ∈ (s.after t r).tracked, (s.after t r).passed p = true := by
  intro p hp
  by_cases hw : pc.writes = true
  · rw [(h.unlocked ht hn hw).1] at hwrites; cases hwrites
  rw [Bool.not_eq_true] at hw
  obtain ⟨htr, hu⟩ := next_tracker hn hw
  have hp' : p ∈ s.tracked := by simpa only [Tracking.tracked, Tracking.after, htr] using hp
  refine passed_after ht hn hw (tracked_lt hp') ?_
  rcases any_of_quiet hn hu (fun _ => rfl) hwrites with hnew | hold
  · -- the step is the one at which the writer starts to wait
    obtain ⟨-, w, rfl⟩ := next_writes hn hnew
    rcases any_of_quiet hn hu (fun _ => rfl) hunlinks with hun | hun
    · revert hnew hun
      cases r.pc <;> simp [Pc.writes, Pc.unlinks]
    · exact hg w rfl hun p hp'
  · rcases any_of_quiet hn hu (fun _ => rfl) hunlinks with hun | hun
    · rcases next_unlinks hn hun with hun | ⟨hno, -⟩
      · exact h.waits (any_of_getElem? ht hun) hold p hp'
      · rw [hno] at hold; cases hold
    · exact h.waits hun hold p hp'

theorem Inv.loop_after (h : Inv s) (ht : s.goroutines[t]? = some pc)
    (hn : pc.next s ok order = some r) (hg : Careful s (.go t ok order)) (todo : List ℕ)
    (hm : .unlinking todo ∈ (s.after t r).goroutines) :
    (∀ p ∈ todo, p ∈ (s.after t r).tracked) ∧
      ∀ p ∈ (s.after t r).tracked, (s.after t r).failed p = false := by
  by_cases hw : pc.writes = true
  · exact absurd hm ((h.unlocked ht hn hw).2.2 todo)
  rw [Bool.not_eq_true] at hw
  obtain ⟨htr, hu⟩ := next_tracker hn hw
  have htracked : (s.after t r).tracked = s.tracked := by
    simp only [Tracking.tracked, Tracking.after, htr]
  have before : s.goroutines.any Pc.unlinks = true ∧ (∀ p ∈ todo, p ∈ s.tracked) ∧
      ∀ p ∈ s.tracked, s.failed p = false := by
    have old : ∀ {todo'}, .unlinking todo' ∈ s.goroutines → s.goroutines.any Pc.unlinks = true :=
      fun hm => List.any_eq_true.2 ⟨_, hm, rfl⟩
    simp only [Tracking.after, hu, Bool.false_eq_true, if_false, List.map_id, List.mem_append] at hm
    rcases hm with hm | hm
    · rcases List.mem_or_eq_of_mem_set hm with hm | hm
      · exact ⟨old hm, h.loop todo hm⟩
      · rcases next_unlinking hn hm.symm with ⟨rfl, hperm⟩ | ⟨p, rfl⟩
        · have hun : s.goroutines.any Pc.unlinks = true := any_of_getElem? ht rfl
          exact ⟨hun, fun p hp => hperm.subset hp, hg hun _ ht⟩
        · have hm' := List.mem_of_getElem? ht
          obtain ⟨h1, h2⟩ := h.loop _ hm'
          exact ⟨old hm', fun q hq => h1 q (List.mem_cons_of_mem p hq), h2⟩
    · obtain ⟨id, hid⟩ := next_spawned hn hm
      cases hid
  obtain ⟨hun, hsub, hfail⟩ := before
  rw [htracked]
  refine ⟨hsub, fun p hp => ?_⟩
  by_contra hf
  simp only [Tracking.failed, Bool.not_eq_false, Bool.and_eq_true, Bool.not_eq_true'] at hf
  have hrun : pc.runs p = true → (s.links p).linked = true := fun hr =>
    h.runs p (any_of_getElem? ht hr)
  rcases next_failed hn hrun hf.1 hf.2 with hf | ⟨id, rfl, rfl, hran⟩
  · rw [hfail p hp] at hf; cases hf
  · rcases hg hun _ ht hp with hc | hc
    · rw [hran] at hc; cases hc
    · cases hc

theorem Inv.go (h : Inv s) (ht : s.goroutines[t]? = some pc) (hn : pc.next s ok order = some r)
    (hg : Careful s (.go t ok order)) : Inv (s.after t r) where
  way := h.way_after ht hn
  busy p := (h.links_after ht hn p).1
  runs p := (h.links_after ht hn p).2
  names := h.names_after ht hn
  writers := h.writers_after ht hn
  blocked := h.blocked_after ht hn
  waits := h.waits_after ht hn (by rintro w rfl hun; exact hg hun _ ht)
  loop := h.loop_after ht hn hg

/-- A call starts before its lock. -/
theorem Inv.call (h : Inv s) {l : Label} (hl : l.entry = some pc) :
    Inv { s with goroutines := s.goroutines ++ [pc] } := by
  have more : ∀ {P : Pc → Bool}, s.goroutines.any P = true →
      (s.goroutines ++ [pc]).any P = true := fun hP => by simp [List.any_append, hP]
  have hpc : (∃ w, pc = .lock w) ∨ ∃ r, pc = .rlock r := by
    cases l <;> cases hl <;> simp
  have same : ∀ {P : Pc → Bool}, P pc = false →
      ((s.goroutines ++ [pc]).any P = true ↔ s.goroutines.any P = true) := fun hP => by
    simp [List.any_append, hP]
  have none : pc.writes = false ∧ pc.isBlocked = false ∧ pc.unlinks = false ∧
      (∀ p, pc.runs p = false ∧ pc.names p = false) ∧ ∀ todo, pc ≠ .unlinking todo := by
    rcases hpc with ⟨w, rfl⟩ | ⟨r, rfl⟩ <;>
      exact ⟨rfl, rfl, rfl, fun _ => ⟨rfl, rfl⟩, fun _ h => by cases h⟩
  obtain ⟨hw, hb, hu, hp, hloop⟩ := none
  have settled : ∀ p, s.settled p = true →
      Tracking.settled { s with goroutines := s.goroutines ++ [pc] } p = true := by
    intro p hs
    simp only [Tracking.settled, Bool.or_eq_true] at hs ⊢
    exact hs.imp_right more
  have passed : ∀ p, s.passed p = true →
      Tracking.passed { s with goroutines := s.goroutines ++ [pc] } p = true := by
    intro p hs
    simp only [Tracking.passed, Bool.or_eq_true] at hs ⊢
    exact hs.imp (settled p) more
  refine ⟨fun id q hq => (h.way id q hq).imp (settled _) more,
    fun p hb => (h.busy p hb).imp_right more, fun p hr => h.runs p ((same (hp p).1).1 hr),
    fun p hr => h.names p ((same (hp p).2).1 hr), ?_, fun hb' => more (h.blocked ((same hb).1 hb')),
    fun hu' hw' p hp => passed p (h.waits ((same hu).1 hu') ((same hw).1 hw') p hp), ?_⟩
  · simpa [List.countP_append, hw] using h.writers
  · intro todo hm
    rcases List.mem_append.1 hm with hm | hm
    · exact h.loop todo hm
    · exact absurd (List.mem_singleton.1 hm).symm (hloop todo)

theorem Inv.step {l : Label} {s' : Tracking} (h : Inv s) (hs : guarded Careful Step s l s') :
    Inv s' := by
  obtain ⟨hg, hs⟩ := hs
  rcases step_cases hs with ⟨pc, hl, rfl⟩ | ⟨t, ok, order, pc, r, rfl, ht, hn, rfl⟩
  · exact h.call hl
  · exact h.go ht hn hg

theorem inv_new : Inv .new where
  way id q h := by simp [Tracking.new, ProcessTracker.new] at h
  busy p h := by cases h
  runs p h := by cases h
  names p h := by cases h
  writers := Nat.zero_le 1
  blocked h := by cases h
  waits h := by cases h
  loop todo h := by cases h

/-! ## Some steps close the channel -/

theorem CanLink.head {l : Label} {s' : Tracking} (hs : Go s l s') (h : CanLink s' p) :
    CanLink s p := by
  obtain ⟨s'', hl, hp⟩ := h
  exact ⟨s'', .head hs hl, hp⟩

theorem go_after (ht : s.goroutines[t]? = some pc) (hn : pc.next s ok order = some r) :
    Go s (.go t ok order) (s.after t r) := ⟨rfl, by simp [Step, step, ht, hn]⟩

theorem mem_after (ht : s.goroutines[t]? = some pc) (hu : r.unlocks = false) :
    r.pc ∈ (s.after t r).goroutines := by
  obtain ⟨hlt, -⟩ := List.getElem?_eq_some_iff.1 ht
  simp only [Tracking.after, hu, Bool.false_eq_true, if_false, List.map_id, List.mem_append]
  exact Or.inl (List.mem_set hlt r.pc)

/-- The link was not run, and who has locked `waitingLinks` is going to. -/
structure Linkable (s : Tracking) (p : ℕ) : Prop where
  ran : (s.links p).ran = false
  busy : (s.links p).busy = true → s.goroutines.any (Pc.inside p) = true

theorem Linkable.after (h : Linkable s p) (ht : s.goroutines[t]? = some pc)
    (hl : r.links = s.links) (hpc : pc.inside p = false) : Linkable (s.after t r) p := by
  refine ⟨by simpa only [Tracking.after, hl] using h.ran, fun hb => ?_⟩
  have hb' : (s.links p).busy = true := by simpa only [Tracking.after, hl] using hb
  exact any_after_of (grant_inside p) ht (h.busy hb') fun hc => by rw [hpc] at hc; cases hc

theorem canLink_start {id : UInt32} (hm : .start id p ∈ s.goroutines)
    (hran : (s.links p).ran = false) : CanLink s p := by
  obtain ⟨t, ht⟩ := List.mem_iff_getElem?.1 hm
  have hn : Pc.next s true [] (.start id p) =
      some (s.relink (.started id p) p { s.links p with linked := true }) := by
    simp [Pc.next, hran]
  exact ⟨_, .single (go_after ht hn), by simp [Tracking.after, Tracking.relink]⟩

theorem canLink_mutex {id : UInt32} (hm : .linkMutex id p ∈ s.goroutines) (h : Linkable s p) :
    CanLink s p := by
  by_cases hb : (s.links p).busy = true
  · obtain ⟨g, hg, hgp⟩ := List.any_eq_true.1 (h.busy hb)
    cases g with
    | start i q =>
      simp only [Pc.inside, decide_eq_true_eq] at hgp
      exact canLink_start (hgp ▸ hg) h.ran
    | _ => cases hgp
  · obtain ⟨t, ht⟩ := List.mem_iff_getElem?.1 hm
    have hn : Pc.next s true [] (.linkMutex id p) =
        some (s.relink (.start id p) p { s.links p with busy := true }) := by
      simp [Pc.next, hb]
    refine .head (go_after ht hn) (canLink_start (mem_after ht rfl) ?_)
    simpa [Tracking.after, Tracking.relink] using h.ran

theorem canLink_reading {id : UInt32} {q : Process} (hm : .reading (.link id) ∈ s.goroutines)
    (hq : s.tracker.processes.lookup id = some q) (h : Linkable s q.addr) : CanLink s q.addr := by
  obtain ⟨t, ht⟩ := List.mem_iff_getElem?.1 hm
  have hn : Pc.next s true [] (.reading (.link id)) = some (s.goto (.linkMutex id q.addr)) := by
    simp [Pc.next, hq]
  exact .head (go_after ht hn) (canLink_mutex (mem_after ht rfl) (h.after ht rfl rfl))

theorem canLink_rlock {id : UInt32} {q : Process} (hm : .rlock (.link id) ∈ s.goroutines)
    (hno : s.goroutines.any Pc.writes = false) (hq : s.tracker.processes.lookup id = some q)
    (h : Linkable s q.addr) : CanLink s q.addr := by
  obtain ⟨t, ht⟩ := List.mem_iff_getElem?.1 hm
  have hn : Pc.next s true [] (.rlock (.link id)) = some (s.goto (.reading (.link id))) := by
    simp only [Pc.next, hno, Bool.false_eq_true, if_false]
  exact .head (go_after ht hn) (canLink_reading (mem_after ht rfl) hq (h.after ht rfl rfl))

theorem canLink_spawning {id : UInt32} {q : Process} (hm : .spawning id ∈ s.goroutines)
    (hno : s.goroutines.any Pc.writes = false) (hq : s.tracker.processes.lookup id = some q)
    (h : Linkable s q.addr) : CanLink s q.addr := by
  obtain ⟨t, ht⟩ := List.mem_iff_getElem?.1 hm
  have hn : Pc.next s true [] (.spawning id) =
      some { s.goto .done with spawned := [.rlock (.link id)] } := rfl
  refine .head (go_after ht hn) (canLink_rlock ?_ ?_ hq (h.after ht rfl rfl))
  · simp [Tracking.after]
  · rw [Bool.eq_false_iff]
    intro hw
    rcases any_of_after grant_writes hw with hw | hw | hw
    · cases hw
    · rw [not_any_spawned hn fun _ => rfl] at hw; cases hw
    · rw [hno] at hw; cases hw

/-- A goroutine that has found the process links it. -/
theorem canLink_claimed (hc : s.claimed p = true) (hlink : Linkable s p) : CanLink s p := by
  obtain ⟨g, hg, hgp⟩ := List.any_eq_true.1 hc
  cases g with
  | linkMutex i q =>
    simp only [Pc.claims, decide_eq_true_eq] at hgp
    exact canLink_mutex (hgp ▸ hg) hlink
  | start i q =>
    simp only [Pc.claims, decide_eq_true_eq] at hgp
    exact canLink_start (hgp ▸ hg) hlink.ran
  | _ => cases hgp

/-- A goroutine that has the read lock finds the process, and links it. -/
theorem canLink_finds (hf : s.goroutines.any (Pc.finds s.tracker p) = true) (hlink : Linkable s p) :
    CanLink s p := by
  obtain ⟨g, hg, hgp⟩ := List.any_eq_true.1 hf
  cases g with
  | reading r =>
    cases r with
    | link id =>
      obtain ⟨q, hq, ha⟩ := (Option.any_eq_true _ _).1 hgp
      obtain rfl : q.addr = p := of_decide_eq_true ha
      exact canLink_reading hg hq hlink
    | _ => cases hgp
  | _ => cases hgp

/-- A goroutine on its way to the lookup gets there when no writer waits. -/
theorem Inv.canLink_heads (h : Inv s) (hno : s.goroutines.any Pc.writes = false) {id : UInt32}
    {q : Process} (hheads : s.goroutines.any (Pc.heads id) = true)
    (hlookup : s.tracker.processes.lookup id = some q) (hlink : Linkable s q.addr) :
    CanLink s q.addr := by
  obtain ⟨g, hg, hgq⟩ := List.any_eq_true.1 hheads
  cases g with
  | spawning i =>
    simp only [Pc.heads, decide_eq_true_eq] at hgq
    exact canLink_spawning (hgq ▸ hg) hno hlookup hlink
  | rlock r =>
    simp only [Pc.heads, decide_eq_true_eq] at hgq
    exact canLink_rlock (hgq ▸ hg) hno hlookup hlink
  | blocked r =>
    have hb : s.goroutines.any Pc.isBlocked = true := List.any_eq_true.2 ⟨_, hg, rfl⟩
    rw [h.blocked hb] at hno
    cases hno
  | reading r =>
    simp only [Pc.heads, decide_eq_true_eq] at hgq
    exact canLink_reading (hgq ▸ hg) hlookup hlink
  | _ => cases hgq

/-- The process that `UnlinkAll` waits for can be linked. -/
theorem Inv.canLink (h : Inv s) {rest : List ℕ} (hm : .unlinking (p :: rest) ∈ s.goroutines) :
    CanLink s p := by
  by_cases hl : (s.links p).linked = true
  · exact ⟨s, .refl s, hl⟩
  obtain ⟨hsub, hfail⟩ := h.loop _ hm
  have hp : p ∈ s.tracked := hsub p List.mem_cons_self
  have hlink : Linkable s p := by
    refine ⟨?_, fun hb => (h.busy p hb).resolve_left hl⟩
    simpa [Tracking.failed, hl] using hfail p hp
  by_cases hc : s.claimed p = true
  · exact canLink_claimed hc hlink
  by_cases hf : s.goroutines.any (Pc.finds s.tracker p) = true
  · exact canLink_finds hf hlink
  -- nobody has found it or is about to, so that no writer waits, and the way to the lookup is free
  · have hns : s.settled p = false := by simp [Tracking.settled, hl, hc, hlink.ran]
    have hno : s.goroutines.any Pc.writes = false := by
      rw [Bool.eq_false_iff]
      intro hw
      have hpassed := h.waits (List.any_eq_true.2 ⟨_, hm, rfl⟩) hw p hp
      simp only [Tracking.passed, hns, Bool.false_or] at hpassed
      exact hf hpassed
    obtain ⟨q, hq, rfl⟩ := List.mem_map.1 hp
    have hlookup := ProcessTracker.mem_activeProcesses.1 hq
    have hheads := (h.way _ q hlookup).resolve_left (by simp [hns])
    exact h.canLink_heads hno hheads hlookup hlink

/-! ## Deadlocks -/

theorem CanLink.not_of {I : Tracking → Prop} (hs : I s)
    (hI : ∀ s, I s → (s.links p).linked = false)
    (hstep : ∀ s t ok order pc r, I s → s.goroutines[t]? = some pc → pc.next s ok order = some r →
      I (s.after t r)) : ¬ CanLink s p := by
  rintro ⟨s', ⟨ls, hrun⟩, hl⟩
  have h := hrun.invariant (I := I) hs fun s l s' hIs hgo => by
    obtain ⟨hl, hgo⟩ := hgo
    rcases step_cases hgo with ⟨pc, hl', -⟩ | ⟨t, ok, order, pc, r, rfl, ht, hn, rfl⟩
    · rw [hl] at hl'; cases hl'
    · exact hstep s t ok order pc r hIs ht hn
  rw [hI s' h] at hl
  cases hl

/-- A link that did not start is not started again. -/
theorem canLink_failed (hf : s.failed p = true) (hp : p < s.tracker.allocated) : ¬ CanLink s p := by
  refine CanLink.not_of (I := fun s => s.failed p = true ∧ p < s.tracker.allocated) ⟨hf, hp⟩
    (fun s h => ?_) fun s t ok order pc r h ht hn => ?_
  · simp only [Tracking.failed, Bool.and_eq_true, Bool.not_eq_true'] at h
    exact h.1.2
  · obtain ⟨hf, hp⟩ := h
    simp only [Tracking.failed, Bool.and_eq_true, Bool.not_eq_true'] at hf ⊢
    refine ⟨⟨(next_links hn fun he => by omega).2 hf.1, ?_⟩, ?_⟩
    · rw [Bool.eq_false_iff]
      intro hl
      rcases next_linked hn hl with hl | ⟨id, -, hran, -⟩
      · rw [hf.2] at hl; cases hl
      · rw [hf.1] at hran; cases hran
    · by_cases hw : pc.writes = true
      · exact lt_of_lt_of_le hp (next_unlocks hn hw).2.2.2.2
      · simp only [Tracking.after, (next_tracker hn (by simpa using hw)).1]
        exact hp

/-- A goroutine of `link` that has the read lock. -/
def Pc.looks : Pc → Bool
  | reading (.link _) => true
  | _ => false

/-- `UnlinkAll` waits for a process that no goroutine has found, and a writer
    waits for `UnlinkAll`. -/
structure Cycle (s : Tracking) (p : ℕ) (rest : List ℕ) : Prop where
  linked : (s.links p).linked = false
  unlinking : .unlinking (p :: rest) ∈ s.goroutines
  writes : s.goroutines.any Pc.writes = true
  claims : s.goroutines.any (Pc.claims p) = false
  looks : s.goroutines.any Pc.looks = false

theorem next_claimed (h : pc.next s ok order = some r) (hp : r.pc.claims p = true) :
    pc.claims p = true ∨ pc.looks = true := by
  cases moves_of_next h with
  | find _ => exact Or.inr rfl
  | enter _ => exact Or.inl hp
  | _ => cases hp

theorem next_looks (h : pc.next s ok order = some r) (hp : r.pc.looks = true) :
    s.goroutines.any Pc.writes = false := by
  cases moves_of_next h with
  | read hno => exact hno
  | _ => cases hp

theorem Cycle.after {rest : List ℕ} (h : Cycle s p rest) (ht : s.goroutines[t]? = some pc)
    (hn : pc.next s ok order = some r) : Cycle (s.after t r) p rest := by
  have hw : pc.writes = false := by
    rw [Bool.eq_false_iff]
    intro hw
    have hreads : s.goroutines.any Pc.reads = true := List.any_eq_true.2 ⟨_, h.unlinking, rfl⟩
    rw [(next_unlocks hn hw).2.1] at hreads
    cases hreads
  have hne : pc ≠ .unlinking (p :: rest) := by
    rintro rfl
    simp [Pc.next, h.linked] at hn
  have hu := (next_tracker hn hw).2
  refine ⟨?_, ?_, ?_, ?_, ?_⟩
  · rw [Bool.eq_false_iff]
    intro hl
    rcases next_linked hn hl with hl | ⟨id, rfl, -⟩
    · rw [h.linked] at hl; cases hl
    · have := any_of_getElem? (P := Pc.claims p) ht (by simp [Pc.claims])
      rw [h.claims] at this; cases this
  · obtain ⟨t', ht'⟩ := List.mem_iff_getElem?.1 h.unlinking
    have hne' : t ≠ t' := by
      rintro rfl
      rw [ht] at ht'
      exact hne (Option.some.inj ht')
    simp only [Tracking.after, hu, Bool.false_eq_true, if_false, List.map_id, List.mem_append]
    left
    rw [List.mem_iff_getElem?]
    exact ⟨t', by rw [List.getElem?_set_ne hne', ht']⟩
  · exact any_after_of grant_writes ht h.writes fun hc => by rw [hw] at hc; cases hc
  · rw [Bool.eq_false_iff]
    intro hc
    rcases any_of_quiet hn hu (fun _ => rfl) hc with hc | hc
    · rcases next_claimed hn hc with hc | hc
      · have := any_of_getElem? ht hc
        rw [h.claims] at this; cases this
      · have := any_of_getElem? ht hc
        rw [h.looks] at this; cases this
    · rw [h.claims] at hc; cases hc
  · rw [Bool.eq_false_iff]
    intro hc
    rcases any_of_quiet hn hu (fun _ => rfl) hc with hc | hc
    · have := h.writes
      rw [next_looks hn hc] at this; cases this
    · rw [h.looks] at hc; cases hc

/-- While a writer waits, nobody finds the process. -/
theorem canLink_writer {rest : List ℕ} (h : Cycle s p rest) : ¬ CanLink s p :=
  CanLink.not_of (I := fun s => Cycle s p rest) h (fun _ h => h.linked)
    fun _ _ _ _ _ _ h ht hn => h.after ht hn

end

/-- **`UnlinkAll` does not deadlock** when it starts its loop with no failed link
    tracked, and until it is through no tracked link fails and no writer starts to
    wait while a link has still to get the lock: in every state, some steps close
    the channel it waits for. -/
theorem unlinkAll_links {ls : List Label} {s : Tracking} (hr : Run (guarded Careful Step) .new ls s)
    {p : ℕ} {rest : List ℕ} (hp : .unlinking (p :: rest) ∈ s.goroutines) : CanLink s p :=
  Inv.canLink (hr.invariant inv_new fun _ _ _ h hs => h.step hs) hp

/-- A process is run, and the goroutine of its `link` is started. -/
def runs : List Label := [.run false, .go 0 true [], .go 0 true [], .go 0 true []]

theorem unlinkAll_links_run :
    ∃ s, Run (guarded Careful Step) .new
        (runs ++ [.unlinkAll, .go 2 true [], .go 2 true [0], .go 1 true []]) s ∧
      .unlinking [0] ∈ s.goroutines ∧ (s.links 0).linked = false ∧ CanLink s 0 := by
  obtain ⟨s, hr, hs, hl⟩ : ∃ s, Run (fun s l s' => (if Careful s l then step s l else none) = some s')
      .new (runs ++ [.unlinkAll, .go 2 true [], .go 2 true [0], .go 1 true []]) s ∧
      .unlinking [0] ∈ s.goroutines ∧ (s.links 0).linked = false := exists_run (by decide +kernel)
  have hr' : Run (guarded Careful Step) .new _ s :=
    hr.mono fun s l s' h => by split_ifs at h with hg; exact ⟨hg, h⟩
  exact ⟨s, hr', hs, hl, unlinkAll_links hr' hs⟩

/-- Both deadlocks: the link has failed and is still tracked; the goroutine of
    the link is kept out by another `Run`. -/
theorem unlinkAll_deadlocks :
    (∃ s, Run Step .new (runs ++ [.go 1 true [], .go 1 true [], .go 1 true [], .go 1 false [],
        .unlinkAll, .go 2 true [], .go 2 true [0]]) s ∧
      .unlinking [0] ∈ s.goroutines ∧ ¬ CanLink s 0) ∧
    ∃ s, Run Step .new (runs ++ [.unlinkAll, .go 2 true [], .go 2 true [0], .run false,
        .go 3 true [], .go 1 true []]) s ∧
      .unlinking [0] ∈ s.goroutines ∧ ¬ CanLink s 0 := by
  constructor
  · obtain ⟨s, hr, hs, hf, hp⟩ : ∃ s, Run Step .new (runs ++ [.go 1 true [], .go 1 true [],
        .go 1 true [], .go 1 false [], .unlinkAll, .go 2 true [], .go 2 true [0]]) s ∧
        .unlinking [0] ∈ s.goroutines ∧ s.failed 0 = true ∧ 0 < s.tracker.allocated :=
      exists_run (by decide +kernel)
    exact ⟨s, hr, hs, canLink_failed hf hp⟩
  · obtain ⟨s, hr, hl, hs, hw, hc, hk⟩ : ∃ s, Run Step .new (runs ++ [.unlinkAll, .go 2 true [],
        .go 2 true [0], .run false, .go 3 true [], .go 1 true []]) s ∧
        (s.links 0).linked = false ∧ .unlinking [0] ∈ s.goroutines ∧
        s.goroutines.any Pc.writes = true ∧ s.goroutines.any (Pc.claims 0) = false ∧
        s.goroutines.any Pc.looks = false := exists_run (by decide +kernel)
    exact ⟨s, hr, hs, canLink_writer ⟨hl, hs, hw, hc, hk⟩⟩

end Linking

end WardenLinux
