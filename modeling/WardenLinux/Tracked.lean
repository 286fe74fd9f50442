/-
  How long a process is tracked (process_tracker.go): the goroutines of
  `WardenLinux.Linking`, and calls of `Unlink` on one process.

  `unregister` deletes what the map has under the ID, which need not be the
  process whose link has ended: between the two ends of two links of one process,
  `Restore` can enter another under its ID.  `Pc.cites` are the goroutines that
  will unregister an ID, and `Apart` says that `Restore` comes when there is none.

  * `tracked_until_link_ends`: then an entry stays until its own link has ended.
  * `stale_unregister`: otherwise it can be deleted while its link runs.
-/
import WardenLinux.Linking

namespace WardenLinux

open Transition

namespace Linking

/-! ## Runs -/

/-- A step of the tracker, or an `Unlink` of the process at an address. -/
inductive Event where
  | tracker (l : Label)
  | unlink (p : ℕ)
  deriving DecidableEq, Repr

/-- `Unlink`, as in the loop of `UnlinkAll`: it waits for `linked`. -/
def Tracking.unlink (s : Tracking) (p : ℕ) : Tracking :=
  { s with links := Function.update s.links p { s.links p with unlinked := false } }

def perform (s : Tracking) : Event → Option Tracking
  | .tracker l => step s l
  | .unlink p => if (s.links p).linked then some (s.unlink p) else none

def Performs (s : Tracking) (e : Event) (s' : Tracking) : Prop := perform s e = some s'

/-- The goroutine will unregister the ID. -/
def Pc.cites (id : UInt32) : Pc → Bool
  | linkMutex i _ | start i _ | started i _ => i = id
  | lock w | waiting w => w = .unregister id
  | _ => false

/-- The counter does not wrap. -/
def Pc.allowed (s : Tracking) : Pc → Prop
  | waiting (.run _) => s.tracker.nextProcessID + 1 ≠ 0
  | waiting (.restore id _) => id + 1 ≠ 0
  | _ => True

instance (s : Tracking) : (pc : Pc) → Decidable (pc.allowed s)
  | .waiting (.run _) => inferInstanceAs (Decidable (_ ≠ _))
  | .waiting (.restore _ _) => inferInstanceAs (Decidable (_ ≠ _))
  | .waiting (.unregister _) | .rlock _ | .blocked _ | .reading _ | .lock _ | .spawning _
  | .linkMutex _ _ | .start _ _ | .started _ _ | .unlinking _ | .done => isTrue trivial

/-- `Restore` is called with an ID that is not tracked, and the counter does not
    wrap. -/
def Allowed (s : Tracking) : Event → Prop
  | .tracker (.restore id _) => s.tracker.processes.lookup id = none
  | .tracker (.go t _ _) => ∀ pc ∈ s.goroutines[t]?, pc.allowed s
  | _ => True

instance (s : Tracking) : (e : Event) → Decidable (Allowed s e)
  | .tracker (.restore id _) => inferInstanceAs (Decidable (s.tracker.processes.lookup id = none))
  | .tracker (.go t _ _) => inferInstanceAs (Decidable (∀ pc ∈ s.goroutines[t]?, pc.allowed s))
  | .tracker (.run _) | .tracker (.attach _) | .tracker .unlinkAll | .unlink _ => isTrue trivial

def Pc.apart (s : Tracking) : Pc → Prop
  | waiting (.restore id _) =>
    s.tracker.processes.lookup id = none ∧ s.goroutines.any (cites id) = false
  | _ => True

instance (s : Tracking) : (pc : Pc) → Decidable (pc.apart s)
  | .waiting (.restore _ _) => inferInstanceAs (Decidable (_ ∧ _))
  | .waiting (.run _) | .waiting (.unregister _) | .rlock _ | .blocked _ | .reading _ | .lock _
  | .spawning _ | .linkMutex _ _ | .start _ _ | .started _ _ | .unlinking _
  | .done => isTrue trivial

/-- When `Restore` has the lock, its ID is still not tracked, and no goroutine will
    unregister it. -/
def Apart (s : Tracking) : Event → Prop
  | .tracker (.go t _ _) => ∀ pc ∈ s.goroutines[t]?, pc.apart s
  | _ => True

instance (s : Tracking) : (e : Event) → Decidable (Apart s e)
  | .tracker (.go t _ _) => inferInstanceAs (Decidable (∀ pc ∈ s.goroutines[t]?, pc.apart s))
  | .tracker (.run _) | .tracker (.attach _) | .tracker (.restore _ _) | .tracker .unlinkAll
  | .unlink _ => isTrue trivial

/-! ## What is known -/

/-- What is known where a goroutine is. -/
def Pc.Fits (s : Tracking) : Pc → Prop
  | linkMutex id p | start id p | started id p =>
    id < s.tracker.nextProcessID ∧ p < s.tracker.allocated ∧
      ∀ q, s.tracker.processes.lookup id = some q → q.addr = p
  | lock (.unregister id) | waiting (.unregister id) =>
    id < s.tracker.nextProcessID ∧
      ∀ q, s.tracker.processes.lookup id = some q → (s.links q.addr).ran = true
  | _ => True

structure Known (s : Tracking) : Prop where
  below : ∀ id q, s.tracker.processes.lookup id = some q → id < s.tracker.nextProcessID
  fits : ∀ g ∈ s.goroutines, g.Fits s
  tracked : ∀ p, p < s.tracker.allocated → (s.links p).ran = true ∨
    ∃ id q, s.tracker.processes.lookup id = some q ∧ q.addr = p
  /-- the goroutine that has locked `waitingLinks` -/
  locked : ∀ p, s.goroutines.countP (Pc.inside p) + s.goroutines.countP (Pc.runs p) =
    (s.links p).busy.toNat
  /-- a link that has started and not ended runs -/
  linked : ∀ p, (s.links p).linked = true →
    (s.links p).ran = true ∨ s.goroutines.any (Pc.runs p) = true

/-- What a step does to the tracker. -/
inductive Shift (s : Tracking) (pc : Pc) (r : Outcome) : Prop
  | track {id : UInt32} {tty : Bool} : s.tracker.processes.lookup id = none →
      s.goroutines.any (Pc.cites id) = false →
      r.tracker.processes = s.tracker.processes.insert id ⟨id, tty, s.tracker.allocated⟩ →
      r.tracker.allocated = s.tracker.allocated + 1 →
      s.tracker.nextProcessID ≤ r.tracker.nextProcessID → id < r.tracker.nextProcessID →
      r.links = Function.update s.links s.tracker.allocated {} → pc.writes = true →
      (r.pc = .spawning id ∨ r.pc = .done) → Shift s pc r
  | erase {id : UInt32} : pc = .waiting (.unregister id) →
      r = { pc := .done, tracker := s.tracker.unregister id, links := s.links, unlocks := true } →
      Shift s pc r
  | stay : pc.writes = false → r.tracker = s.tracker → Shift s pc r

theorem lt_add_one_of_ne {n : UInt32} (h : n + 1 ≠ 0) : n < n + 1 := by
  rw [UInt32.lt_iff_toNat_lt, UInt32.toNat_add]
  have hne : (n + 1).toNat ≠ 0 := fun h0 => h (UInt32.toNat_inj.1 h0)
  rw [UInt32.toNat_add] at hne
  have hlt := n.toNat_lt
  simp only [UInt32.reduceToNat] at hne ⊢
  omega

theorem restore_next (t : ProcessTracker) {id : UInt32} (tty : Bool) (h : id + 1 ≠ 0) :
    t.nextProcessID ≤ (t.restore id tty).nextProcessID ∧ id < (t.restore id tty).nextProcessID := by
  show t.nextProcessID ≤ (if id ≥ t.nextProcessID then id + 1 else t.nextProcessID) ∧
    id < (if id ≥ t.nextProcessID then id + 1 else t.nextProcessID)
  split
  · exact ⟨UInt32.le_of_lt (UInt32.lt_of_le_of_lt ‹_› (lt_add_one_of_ne h)), lt_add_one_of_ne h⟩
  · exact ⟨UInt32.le_refl _, UInt32.not_le.1 ‹_›⟩

section
variable {s : Tracking} {ok : Bool} {order : List ℕ} {t : ℕ} {pc : Pc} {r : Outcome} {p : ℕ}

theorem Known.fresh (h : Known s) : s.tracker.processes.lookup s.tracker.nextProcessID = none := by
  cases hq : s.tracker.processes.lookup s.tracker.nextProcessID with
  | none => rfl
  | some q => exact absurd (h.below _ q hq) (UInt32.lt_irrefl _)

theorem Known.cites_lt (h : Known s) {id : UInt32} (hid : s.goroutines.any (Pc.cites id) = true) :
    id < s.tracker.nextProcessID := by
  obtain ⟨g, hg, hc⟩ := List.any_eq_true.1 hid
  have hfits := h.fits g hg
  cases g with
  | linkMutex i | start i | started i =>
    cases of_decide_eq_true hc
    exact hfits.1
  | lock w | waiting w =>
    cases of_decide_eq_true hc
    exact hfits.1
  | _ => cases hc

theorem shift_of_next (h : Known s)
    (hn : pc.next s ok order = some r) (hallowed : pc.allowed s) (hapart : pc.apart s) :
    Shift s pc r := by
  cases moves_of_next hn with
  | run =>
    refine .track h.fresh ?_ rfl rfl ?_ ?_ rfl rfl (.inl rfl)
    · rw [Bool.eq_false_iff]
      exact fun hc => UInt32.lt_irrefl _ (h.cites_lt hc)
    · exact UInt32.le_of_lt (lt_add_one_of_ne hallowed)
    · exact lt_add_one_of_ne hallowed
  | @restore id tty =>
    obtain ⟨hnone, hcites⟩ := hapart
    obtain ⟨hle, hlt⟩ := restore_next s.tracker tty hallowed
    exact .track hnone hcites rfl rfl hle hlt rfl rfl (.inr rfl)
  | unregister => exact .erase rfl rfl
  | _ => exact .stay rfl rfl

theorem grant_fits {g : Pc} : g.grant.Fits s ↔ g.Fits s := by
  cases g <;> rfl

/-- The goroutines after a step. -/
theorem fits_after {s' : Tracking} (hn : pc.next s ok order = some r) (hpc : r.pc.Fits s')
    (hold : ∀ g ∈ s.goroutines, g.Fits s') : ∀ g ∈ (s.after t r).goroutines, g.Fits s' := by
  intro g hg
  rcases List.mem_append.1 hg with hg | hg
  · obtain ⟨g₀, hg₀, rfl⟩ := List.mem_map.1 hg
    have hfits : g₀.Fits s' := by
      rcases List.mem_or_eq_of_mem_set hg₀ with hg₀ | rfl
      · exact hold g₀ hg₀
      · exact hpc
    split
    · exact grant_fits.2 hfits
    · exact hfits
  · obtain ⟨id, rfl⟩ := next_spawned hn hg
    trivial

/-- What a goroutine needs of the step of another. -/
theorem Pc.Fits.mono {s' : Tracking} {g : Pc} (h : g.Fits s)
    (hnext : s.tracker.nextProcessID ≤ s'.tracker.nextProcessID)
    (hallocated : s.tracker.allocated ≤ s'.tracker.allocated)
    (hlookup : ∀ id q, g.cites id = true → s'.tracker.processes.lookup id = some q →
      s.tracker.processes.lookup id = some q)
    (hran : ∀ p, p < s.tracker.allocated → (s.links p).ran = true → (s'.links p).ran = true) :
    g.Fits s' := by
  have hunregister : ∀ {id}, g.cites id = true → (id < s.tracker.nextProcessID ∧
      ∀ q, s.tracker.processes.lookup id = some q → (s.links q.addr).ran = true) →
      id < s'.tracker.nextProcessID ∧
      ∀ q, s'.tracker.processes.lookup id = some q → (s'.links q.addr).ran = true := by
    rintro id hcites ⟨hlt, hq⟩
    refine ⟨UInt32.lt_of_lt_of_le hlt hnext, fun q hq' => ?_⟩
    have hq₀ := hlookup id q hcites hq'
    exact hran _ (s.tracker.filed id q hq₀).2 (hq q hq₀)
  cases g with
  | linkMutex id p | start id p | started id p =>
    obtain ⟨hlt, hp, hq⟩ := h
    refine ⟨UInt32.lt_of_lt_of_le hlt hnext, Nat.lt_of_lt_of_le hp hallocated, fun q hq' => ?_⟩
    exact hq q (hlookup id q (decide_eq_true rfl) hq')
  | lock w | waiting w =>
    cases w with
    | unregister id => exact hunregister (decide_eq_true rfl) h
    | run | restore => trivial
  | _ => trivial

/-- Where the goroutine is after its step. -/
theorem Known.fits_next (h : Known s) (ht : s.goroutines[t]? = some pc)
    (hn : pc.next s ok order = some r) : r.pc.Fits (s.after t r) := by
  have hfits := h.fits pc (List.mem_of_getElem? ht)
  cases moves_of_next hn with
  | @find id q hq =>
    refine ⟨h.below id q hq, (s.tracker.filed id q hq).2, fun q' hq' => ?_⟩
    cases hq.symm.trans hq'
    rfl
  | enter | link => exact hfits
  | @skip id p hran =>
    refine ⟨hfits.1, fun q hq => ?_⟩
    rw [hfits.2.2 q hq]
    simp [Tracking.after, Tracking.relink, hran]
  | fail | exit =>
    refine ⟨hfits.1, fun q hq => ?_⟩
    rw [hfits.2.2 q hq]
    simp [Tracking.after, Tracking.relink]
  | @wait w =>
    cases w with
    | unregister => exact hfits
    | run | restore => trivial
  | _ => trivial

/-- A link that has ended stays so, but for a new process. -/
theorem ran_next (hn : pc.next s ok order = some r) (hp : p < s.tracker.allocated)
    (hran : (s.links p).ran = true) : (r.links p).ran = true :=
  (next_links hn fun he => absurd he (Nat.ne_of_lt hp)).2 hran

theorem Known.fits_others (h : Known s) (hn : pc.next s ok order = some r) (hshift : Shift s pc r)
    {g : Pc} (hg : g ∈ s.goroutines) : g.Fits (s.after t r) := by
  have hran : ∀ p, p < s.tracker.allocated → (s.links p).ran = true → (r.links p).ran = true :=
    fun p hp => ran_next hn hp
  cases hshift with
  | @track id tty hnone hcites hprocesses hallocated hnext hid hlinks hw hpc =>
    refine (h.fits g hg).mono hnext (by simp [Tracking.after, hallocated]) ?_ hran
    intro id' q hg' hq
    have hne : id' ≠ id := by
      rintro rfl
      exact List.any_eq_false.1 hcites g hg hg'
    rwa [Tracking.after, hprocesses, AList.lookup_insert_ne hne] at hq
  | @erase id hpc hr =>
    subst hr
    refine (h.fits g hg).mono (UInt32.le_refl _) (Nat.le_refl _) ?_ hran
    exact fun id' q _ hq => (ProcessTracker.lookup_unregister hq).2
  | stay hw htracker =>
    refine (h.fits g hg).mono ?_ ?_ ?_ hran <;> simp [Tracking.after, htracker]

theorem Known.below_after (h : Known s) (hshift : Shift s pc r) (id : UInt32) (q : Process)
    (hq : r.tracker.processes.lookup id = some q) : id < r.tracker.nextProcessID := by
  cases hshift with
  | @track id' tty _ _ hprocesses _ hnext hid _ _ _ =>
    rcases eq_or_ne id id' with rfl | hne
    · exact hid
    · rw [hprocesses, AList.lookup_insert_ne hne] at hq
      exact UInt32.lt_of_lt_of_le (h.below id q hq) hnext
  | erase _ hr =>
    subst hr
    exact h.below id q (ProcessTracker.lookup_unregister hq).2
  | stay _ htracker =>
    rw [htracker] at hq ⊢
    exact h.below id q hq

/-- An entry stays until its link has ended. -/
theorem Known.entry_after (h : Known s) (ht : s.goroutines[t]? = some pc) (hshift : Shift s pc r)
    {id : UInt32} {q : Process} (hq : s.tracker.processes.lookup id = some q) :
    (s.links q.addr).ran = true ∨ r.tracker.processes.lookup id = some q := by
  cases hshift with
  | @track id' tty hnone _ hprocesses _ _ _ _ _ _ =>
    right
    have hne : id ≠ id' := by
      rintro rfl
      cases hnone.symm.trans hq
    rwa [hprocesses, AList.lookup_insert_ne hne]
  | @erase id' hpc hr =>
    subst hpc hr
    rcases eq_or_ne id id' with rfl | hne
    · exact .inl ((h.fits _ (List.mem_of_getElem? ht)).2 q hq)
    · exact .inr ((AList.lookup_erase_ne hne).trans hq)
  | stay _ htracker =>
    right
    rwa [htracker]

theorem Known.tracked_after (h : Known s) (ht : s.goroutines[t]? = some pc)
    (hn : pc.next s ok order = some r) (hshift : Shift s pc r) (p : ℕ)
    (hp : p < r.tracker.allocated) : (r.links p).ran = true ∨
      ∃ id q, r.tracker.processes.lookup id = some q ∧ q.addr = p := by
  have hold : p < s.tracker.allocated → (r.links p).ran = true ∨
      ∃ id q, r.tracker.processes.lookup id = some q ∧ q.addr = p := by
    intro hp
    rcases h.tracked p hp with hran | ⟨id, q, hq, rfl⟩
    · exact .inl (ran_next hn hp hran)
    · rcases h.entry_after ht hshift hq with hran | hq'
      · exact .inl (ran_next hn hp hran)
      · exact .inr ⟨id, q, hq', rfl⟩
  cases hshift with
  | @track id tty _ _ hprocesses hallocated _ _ _ _ _ =>
    rcases Nat.lt_or_ge p s.tracker.allocated with hlt | hge
    · exact hold hlt
    · refine .inr ⟨id, _, by rw [hprocesses, AList.lookup_insert], ?_⟩
      show s.tracker.allocated = p
      omega
  | erase _ hr =>
    subst hr
    exact hold hp
  | stay _ htracker => exact hold (htracker ▸ hp)

/-- A step that locks or unlocks `waitingLinks`. -/
theorem next_locked (hn : pc.next s ok order = some r)
    (hbusy : pc.inside p = true ∨ pc.runs p = true → (s.links p).busy = true)
    (hnew : (s.links s.tracker.allocated).busy = false) :
    (r.links p).busy.toNat + (if pc.inside p = true then 1 else 0) +
      (if pc.runs p = true then 1 else 0) = (s.links p).busy.toNat +
      (if r.pc.inside p = true then 1 else 0) + if r.pc.runs p = true then 1 else 0 := by
  cases relinks_of_next hn p with
  | same hl hpc hpc' => simp [hl, holds_eq_false hpc, holds_eq_false hpc']
  | new he hl hpc hpc' =>
    subst he
    simp [hl, hnew, holds_eq_false hpc, holds_eq_false hpc']
  | enter hpc hpc' hfree hl => simp [hpc, hpc', hfree, hl, Pc.inside, Pc.runs]
  | link hpc hpc' _ _ hl => simp [hpc, hpc', hl, Pc.inside, Pc.runs]
  | unlink hpc hpc' _ hl => simp [hpc, hpc', hl, Pc.inside, Pc.runs]
  | skip hpc hpc' _ hl | fail hpc hpc' _ _ hl | exit hpc hpc' _ hl =>
    have hb : (s.links p).busy = true := hbusy (by simp [hpc, Pc.inside, Pc.runs])
    simp [hpc, hpc', hb, hl, Pc.inside, Pc.runs]

theorem Known.names_lt (h : Known s) {g : Pc} (hg : g ∈ s.goroutines)
    (hp : g.inside p = true ∨ g.runs p = true) : p < s.tracker.allocated := by
  have hfits := h.fits g hg
  cases g with
  | start id q | started id q =>
    have hq : q = p := by simpa [Pc.inside, Pc.runs] using hp
    exact hq ▸ hfits.2.1
  | _ => rcases hp with hp | hp <;> cases hp

theorem Known.free_new (h : Known s) : (s.links s.tracker.allocated).busy = false := by
  have hinside : s.goroutines.countP (Pc.inside s.tracker.allocated) = 0 :=
    List.countP_eq_zero.2 fun g hg hp => Nat.lt_irrefl _ (h.names_lt hg (.inl hp))
  have hruns : s.goroutines.countP (Pc.runs s.tracker.allocated) = 0 :=
    List.countP_eq_zero.2 fun g hg hp => Nat.lt_irrefl _ (h.names_lt hg (.inr hp))
  have hlocked := h.locked s.tracker.allocated
  rw [hinside, hruns] at hlocked
  exact Bool.toNat_eq_zero.1 hlocked.symm

theorem Known.locked_after (h : Known s) (ht : s.goroutines[t]? = some pc)
    (hn : pc.next s ok order = some r) (p : ℕ) :
    (s.after t r).goroutines.countP (Pc.inside p) + (s.after t r).goroutines.countP (Pc.runs p) =
      (r.links p).busy.toNat := by
  have hle : ∀ P : Pc → Bool, (if P pc = true then 1 else 0) ≤ s.goroutines.countP P := by
    intro P
    split
    · exact List.countP_pos_iff.2 ⟨pc, List.mem_of_getElem? ht, ‹_›⟩
    · exact Nat.zero_le _
  have hinside := hle (Pc.inside p)
  have hruns := hle (Pc.runs p)
  have hlocked := h.locked p
  have hbusy : pc.inside p = true ∨ pc.runs p = true → (s.links p).busy = true := by
    intro hpc
    cases hb : (s.links p).busy with
    | true => rfl
    | false =>
      rw [hb, Bool.toNat_false] at hlocked
      rcases hpc with hpc | hpc
      · rw [if_pos hpc] at hinside
        omega
      · rw [if_pos hpc] at hruns
        omega
  have hbalance := next_locked hn hbusy h.free_new
  rw [countP_after (grant_inside p) (fun _ => rfl) ht hn,
    countP_after (grant_runs p) (fun _ => rfl) ht hn]
  omega

/-- A link that runs ends, or goes on. -/
theorem next_ended (hn : pc.next s ok order = some r) (hp : pc.runs p = true) :
    (r.links p).ran = true := by
  cases moves_of_next hn with
  | exit =>
    cases of_decide_eq_true hp
    simp [Tracking.relink]
  | _ => cases hp

theorem Known.linked_after (h : Known s) (ht : s.goroutines[t]? = some pc)
    (hn : pc.next s ok order = some r) (p : ℕ) (hp : (r.links p).linked = true) :
    (r.links p).ran = true ∨ (s.after t r).goroutines.any (Pc.runs p) = true := by
  rcases next_linked hn hp with hl | ⟨id, -, -, hpc⟩
  · rcases h.linked p hl with hran | hruns
    · exact .inl ((next_links hn fun _ he => by simp [he] at hp).2 hran)
    · by_cases hpc : pc.runs p = true
      · exact .inl (next_ended hn hpc)
      · exact .inr (any_after_of (grant_runs p) ht hruns fun hc => absurd hc hpc)
  · -- the link has just started
    rw [any_after (grant_runs p), Bool.or_eq_true]
    obtain ⟨hlt, -⟩ := List.getElem?_eq_some_iff.1 ht
    exact .inr (.inl (List.any_eq_true.2 ⟨r.pc, List.mem_set hlt r.pc, by simp [hpc, Pc.runs]⟩))

theorem Known.go (h : Known s) (ht : s.goroutines[t]? = some pc) (hn : pc.next s ok order = some r)
    (hallowed : pc.allowed s) (hapart : pc.apart s) : Known (s.after t r) := by
  have hshift := shift_of_next h hn hallowed hapart
  exact {
    below := h.below_after hshift
    fits := fits_after hn (h.fits_next ht hn) fun g hg => h.fits_others hn hshift hg
    tracked := h.tracked_after ht hn hshift
    locked := h.locked_after ht hn
    linked := h.linked_after ht hn }

theorem Known.call (h : Known s) {l : Label} (hl : l.entry = some pc) :
    Known { s with goroutines := s.goroutines ++ [pc] } := by
  have hpc : pc.Fits s ∧ ∀ p, pc.inside p = false ∧ pc.runs p = false := by
    cases l <;> cases hl <;> exact ⟨trivial, fun _ => ⟨rfl, rfl⟩⟩
  refine ⟨h.below, fun g hg => ?_, h.tracked, fun p => ?_, fun p hp => ?_⟩
  · rcases List.mem_append.1 hg with hg | hg
    · exact h.fits g hg
    · cases List.mem_singleton.1 hg
      exact hpc.1
  · simpa [List.countP_append, hpc.2 p] using h.locked p
  · simpa [hpc.2 p] using h.linked p hp

theorem unlink_links (s : Tracking) (p q : ℕ) : (s.unlink p).links q =
    { s.links q with unlinked := (s.links q).unlinked && decide (q ≠ p) } := by
  show Function.update s.links p _ q = _
  rcases eq_or_ne q p with rfl | hne
  · simp
  · simp [hne]

theorem Known.unlink (h : Known s) (p : ℕ) : Known (s.unlink p) := by
  refine ⟨h.below, fun g hg => ?_, fun q hq => ?_, fun q => ?_, fun q => ?_⟩
  · refine (h.fits g hg).mono (UInt32.le_refl _) (Nat.le_refl _) (fun _ _ _ => id) fun q _ => ?_
    rw [unlink_links]
    exact id
  · rw [unlink_links]
    exact h.tracked q hq
  · rw [unlink_links]
    exact h.locked q
  · rw [unlink_links]
    exact h.linked q

end

/-! ## Entries -/

/-- An `Unlink` has taken the value while the link ran. -/
def Tracking.interrupted (s : Tracking) (p : ℕ) : Prop :=
  (s.links p).linked = true ∧ (s.links p).unlinked = false ∧ (s.links p).ran = false

instance (s : Tracking) (p : ℕ) : Decidable (s.interrupted p) := inferInstanceAs (Decidable (_ ∧ _))

section
variable {s s' : Tracking} {e : Event} {p : ℕ}

theorem performs_cases (h : Performs s e s') :
    (∃ l pc, e = .tracker l ∧ l.entry = some pc ∧
      s' = { s with goroutines := s.goroutines ++ [pc] }) ∨
    (∃ t ok order pc r, e = .tracker (.go t ok order) ∧ s.goroutines[t]? = some pc ∧
      pc.next s ok order = some r ∧ s' = s.after t r) ∨
    ∃ p, s' = s.unlink p := by
  cases e with
  | tracker l =>
    rcases step_cases h with ⟨pc, hl, rfl⟩ | ⟨t, ok, order, pc, r, rfl, hstep⟩
    · exact .inl ⟨l, pc, rfl, hl, rfl⟩
    · exact .inr (.inl ⟨t, ok, order, pc, r, rfl, hstep⟩)
  | unlink p =>
    refine .inr (.inr ⟨p, ?_⟩)
    simp only [Performs, perform] at h
    split at h
    · exact (Option.some.inj h).symm
    · cases h

theorem known_new : Known .new where
  below id q h := by simp [Tracking.new, ProcessTracker.new] at h
  fits g hg := by cases hg
  tracked p hp := by cases hp
  locked p := rfl
  linked p hp := by cases hp

theorem known_step (h : Known s) (hs : guarded Apart (guarded Allowed Performs) s e s') :
    Known s' := by
  obtain ⟨hapart, hallowed, hs⟩ := hs
  rcases performs_cases hs with
    ⟨l, pc, -, hl, rfl⟩ | ⟨t, ok, order, pc, r, rfl, ht, hn, rfl⟩ | ⟨p, rfl⟩
  · exact h.call hl
  · exact h.go ht hn (hallowed pc ht) (hapart pc ht)
  · exact h.unlink p

/-- The link of an entry that a step deletes has ended. -/
theorem entry_step (h : Known s) (hs : guarded Apart (guarded Allowed Performs) s e s')
    {id : UInt32} {q : Process} (hq : s.tracker.processes.lookup id = some q)
    (hq' : s'.tracker.processes.lookup id ≠ some q) : (s.links q.addr).ran = true := by
  obtain ⟨hapart, hallowed, hs⟩ := hs
  rcases performs_cases hs with
    ⟨l, pc, -, -, rfl⟩ | ⟨t, ok, order, pc, r, rfl, ht, hn, rfl⟩ | ⟨p, rfl⟩
  · exact absurd hq hq'
  · have hshift := shift_of_next h hn (hallowed pc ht) (hapart pc ht)
    exact (h.entry_after ht hshift hq).resolve_right hq'
  · exact absurd hq hq'

theorem Known.interrupted_runs (h : Known s) (hp : s.interrupted p) :
    s.goroutines.any (Pc.runs p) = true := by
  obtain ⟨hlinked, -, hran⟩ := hp
  rcases h.linked p hlinked with hran' | hruns
  · exact absurd (hran.symm.trans hran') Bool.false_ne_true
  · exact hruns

/-- Nobody gets past `waitingLinks` of an interrupted process. -/
theorem Known.interrupted_inside (h : Known s) (hp : s.interrupted p) {g : Pc}
    (hg : g ∈ s.goroutines) : g.inside p = false := by
  rw [Bool.eq_false_iff]
  intro hin
  obtain ⟨g', hg', hrun⟩ := List.any_eq_true.1 (h.interrupted_runs hp)
  have hone : 0 < s.goroutines.countP (Pc.inside p) := List.countP_pos_iff.2 ⟨g, hg, hin⟩
  have htwo : 0 < s.goroutines.countP (Pc.runs p) := List.countP_pos_iff.2 ⟨g', hg', hrun⟩
  have hlocked := h.locked p
  have hle := Bool.toNat_le (s.links p).busy
  omega

theorem Known.interrupted_lt (h : Known s) (hp : s.interrupted p) : p < s.tracker.allocated := by
  obtain ⟨g, hg, hrun⟩ := List.any_eq_true.1 (h.interrupted_runs hp)
  exact h.names_lt hg (.inr hrun)

theorem interrupted_step (h : Known s) (hs : Performs s e s') (hp : s.interrupted p) :
    s'.interrupted p := by
  rcases performs_cases hs with
    ⟨l, pc, -, -, rfl⟩ | ⟨t, ok, order, pc, r, rfl, ht, hn, rfl⟩ | ⟨q, rfl⟩
  · exact hp
  · have hin := h.interrupted_inside hp (List.mem_of_getElem? ht)
    obtain ⟨hlinked, hunlinked, hran⟩ := hp
    show (r.links p).linked = true ∧ (r.links p).unlinked = false ∧ (r.links p).ran = false
    cases relinks_of_next hn p with
    | same hl => rw [hl]; exact ⟨hlinked, hunlinked, hran⟩
    | enter _ _ _ hl => rw [hl]; exact ⟨hlinked, hunlinked, hran⟩
    | unlink _ _ _ hl => rw [hl]; exact ⟨hlinked, rfl, hran⟩
    | exit _ _ hvalue => exact absurd (hunlinked.symm.trans hvalue) Bool.false_ne_true
    | skip hpc | link hpc | fail hpc => simp [hpc, Pc.inside] at hin
    | new hnew => exact absurd hnew (Nat.ne_of_lt (h.interrupted_lt ⟨hlinked, hunlinked, hran⟩))
  · obtain ⟨hlinked, hunlinked, hran⟩ := hp
    refine ⟨?_, ?_, ?_⟩
    · rwa [unlink_links]
    · rw [unlink_links, hunlinked]
      rfl
    · rwa [unlink_links]

theorem Known.interrupted_tracked (h : Known s) (hp : s.interrupted p) : p ∈ s.tracked := by
  rcases h.tracked p (h.interrupted_lt hp) with hran | ⟨id, q, hq, rfl⟩
  · exact absurd (hp.2.2.symm.trans hran) Bool.false_ne_true
  · refine List.mem_map.2 ⟨q, ProcessTracker.mem_activeProcesses.2 ?_, rfl⟩
    rwa [(s.tracker.filed id q hq).1]

/-- **A process stays tracked until its own link has ended**, when `Restore` takes no
    ID that a goroutine will unregister: an entry is deleted when its link has
    ended, the ID that `Run` gives next is not tracked, and an interrupted process
    is tracked from then on. -/
theorem tracked_until_link_ends {es : List Event}
    (h : Run (guarded Apart (guarded Allowed Performs)) .new es s) :
    (∀ e s' id q, guarded Apart (guarded Allowed Performs) s e s' →
      s.tracker.processes.lookup id = some q → s'.tracker.processes.lookup id ≠ some q →
      (s.links q.addr).ran = true) ∧
    s.tracker.processes.lookup s.tracker.nextProcessID = none ∧
    ∀ p, s.interrupted p → ∀ s', Leads (guarded Apart (guarded Allowed Performs)) s s' →
      p ∈ s'.tracked := by
  have hk : Known s := h.invariant known_new fun _ _ _ => known_step
  refine ⟨fun e s' id q hs hq hq' => entry_step hk hs hq hq', hk.fresh, ?_⟩
  rintro p hp s' ⟨es', h'⟩
  have hinv := h'.invariant (I := fun s => Known s ∧ s.interrupted p) ⟨hk, hp⟩
    fun _ _ _ hi hs => ⟨known_step hi.1 hs, interrupted_step hi.1 hs.2.2 hi.2⟩
  exact hinv.1.interrupted_tracked hinv.2

end

/-- A process is run, and its link is started. -/
def runLinked : List Event :=
  ([.run false, .go 0 true [], .go 0 true [], .go 0 true [], .go 1 true [], .go 1 true [],
    .go 1 true [], .go 1 true []] : List Label).map .tracker

theorem tracked_until_link_ends_unlink :
    ∃ s, Run (guarded Apart (guarded Allowed Performs)) .new (runLinked ++ [.unlink 0]) s ∧
      s.interrupted 0 ∧
      ∀ s', Leads (guarded Apart (guarded Allowed Performs)) s s' → 0 ∈ s'.tracked := by
  obtain ⟨s, hrun, hp⟩ : ∃ s, Run (guarded (fun s e => Apart s e ∧ Allowed s e) Performs) .new
      (runLinked ++ [.unlink 0]) s ∧ s.interrupted 0 := exists_guarded_run (by decide +kernel)
  have hrun' : Run (guarded Apart (guarded Allowed Performs)) .new (runLinked ++ [.unlink 0]) s :=
    hrun.mono fun _ _ _ hs => ⟨hs.1.1, hs.1.2, hs.2⟩
  exact ⟨s, hrun', hp, fun s' hs' => (tracked_until_link_ends hrun').2.2 0 hp s' hs'⟩

/-- Another link waits for the first, which ends and is unregistered; then the ID
    is restored, the new process is linked and interrupted, and the other link goes
    on to its `unregister`. -/
def restored : List Event :=
  ([.attach 1, .go 2 true [], .go 2 true [], .go 3 true [], .go 3 true [], .go 1 true [],
    .go 1 true [], .go 1 true [], .restore 1 false, .go 4 true [], .go 4 true [], .go 5 true [],
    .go 5 true [], .go 5 true [], .go 5 true [], .go 3 true [], .go 3 true [],
    .go 3 true []] : List Label).map .tracker ++ [.unlink 1]

/-- **A link of the old process unregisters the new one**, which is interrupted. -/
theorem stale_unregister :
    ∃ s s', Run (guarded Allowed Performs) .new (runLinked ++ restored) s ∧
      guarded Allowed Performs s (.tracker (.go 3 true [])) s' ∧
      s.tracker.processes.lookup 1 = some ⟨1, false, 1⟩ ∧ s.interrupted 1 ∧
      s'.tracker.processes.lookup 1 = none ∧ s'.interrupted 1 ∧ 1 ∉ s'.tracked := by
  obtain ⟨s, hrun, hallowed, hq, hp, hnext⟩ : ∃ s, Run (guarded Allowed Performs) .new
      (runLinked ++ restored) s ∧ Allowed s (.tracker (.go 3 true [])) ∧
      s.tracker.processes.lookup 1 = some ⟨1, false, 1⟩ ∧ s.interrupted 1 ∧
      ((perform s (.tracker (.go 3 true []))).any fun s' => decide
        (s'.tracker.processes.lookup 1 = none ∧ s'.interrupted 1 ∧ 1 ∉ s'.tracked)) = true :=
    exists_guarded_run (by decide +kernel)
  cases hs' : perform s (.tracker (.go 3 true [])) with
  | none => rw [hs'] at hnext; cases hnext
  | some s' =>
    rw [hs'] at hnext
    exact ⟨s, s', hrun, ⟨hallowed, hs'⟩, hq, hp, of_decide_eq_true hnext⟩

end Linking

end WardenLinux
