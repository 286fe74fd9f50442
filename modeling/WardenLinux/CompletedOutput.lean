/-
  The end of a process without a terminal (iodaemon's spawn.go and link.go, process.go):
  what has come out of it when `completed` is called, and that it is called.

  * `completed_output`: when a process is completed that one link was started for, every
    sink has got all that was written since it was added, and the status is the one of
    the child.
  * `output_drains`: once the child has exited, a link that nobody unlinks completes its
    process in whatever order its parts go on, unless the lock of the input is lost.
-/
import WardenLinux.ProcessOutput

namespace WardenLinux.ProcessOutput

open Transition

section Runs

variable {s s' : State} {e : Event} {es : List Event} {k : ℕ}

/-! ## One link -/

/-- Only this link is started. -/
def only (k : ℕ) (_ : State) : Event → Prop
  | .dial j => j = k
  | _ => True

instance (k : ℕ) (s : State) : ∀ e, Decidable (only k s e)
  | .dial j => inferInstanceAs (Decidable (j = k))
  | .write .. | .closes _ | .exits _ | .reap | .die | .hangup | .accept .. | .refuse _ | .read ..
  | .eof .. | .scan _ | .act .. => inferInstanceAs (Decidable True)

/-- What a link makes of the status pipe, which had some text for it. -/
def Phase.Hears (text rest : List Char) (st : ℤ) : Phase → Prop
  | scanning t => t ++ rest = text ∧ '\n' ∉ t
  | exited v => v = st
  | killed => True
  | _ => rest = text

/-- What the end of the daemon means for the only link. -/
def Told (s : State) (phase : Phase) : Prop :=
  match s.daemon with
  | .serving _ => phase.Hears [] s.status 1 ∧ phase.status = none
  | .reaped => ∃ e, s.child = .exited e ∧ phase.Hears e.text s.status e.status
  | .died => s.child ≠ .running ∧ phase.Hears [] s.status 1

/-- Only one link was started. -/
structure Alone (k : ℕ) (s : State) : Prop where
  absent : ∀ j, j ≠ k → (s.links j).phase = .absent
  reads : ∀ c, ∀ r ∈ s.reads c, r.1 = k
  early : (s.links k).phase.early = true →
    (s.child = .notStarted ∨ s.child = .dead) ∧ ∀ c, (s.source c).written = []
  told : Told s (s.links k).phase

theorem Told.alive {p : Phase} (h : Told s p) (ha : s.daemon.alive = true) :
    p.Hears [] s.status 1 ∧ p.status = none := by
  unfold Told at h
  split at h
  next => exact h
  next hd => rw [hd] at ha; cases ha
  next hd => rw [hd] at ha; cases ha

theorem child_die : s.die.child ≠ .running := by
  unfold State.die
  cases hc : s.child <;> simp

theorem Told.die {p : Phase} (h : Told s p) (ha : s.daemon.alive = true) : Told s.die p :=
  ⟨child_die, (h.alive ha).1⟩

theorem Told.reap {p : Phase} {e : Exit} (h : Told s p) (ha : s.daemon.alive = true)
    (hc : s.child = .exited e) : Told { s with daemon := .reaped, status := e.text } p := by
  obtain ⟨hh, hst⟩ := h.alive ha
  refine ⟨e, hc, ?_⟩
  cases p with
  | scanning t =>
    have ht : t = [] := (List.append_eq_nil_iff.1 hh.1).1
    subst ht
    exact ⟨rfl, List.not_mem_nil⟩
  | exited v => cases hst
  | killed => trivial
  | absent => rfl
  | dialed => rfl
  | refused => rfl
  | gone => rfl
  | streaming => rfl

theorem Told.refuse {p : Phase} (h : Told s p) (hp : p = .absent ∨ p = .dialed)
    (ha : s.daemon.alive = false) : Told s .refused := by
  have hh : ∀ text rest st, p.Hears text rest st → Phase.refused.Hears text rest st := by
    rcases hp with rfl | rfl <;> exact fun _ _ _ h => h
  unfold Told at h ⊢
  split at h
  next hd => rw [hd] at ha; cases ha
  next => obtain ⟨e, he, h⟩ := h; exact ⟨e, he, hh _ _ _ h⟩
  next => exact ⟨h.1, hh _ _ _ h.2⟩

theorem Alone.of_step (h : Alone k s)
    (hother : ∀ j, j ≠ k → (s'.links j).phase = (s.links j).phase)
    (hreads : ∀ c, ∀ r ∈ s'.reads c, r ∈ s.reads c ∨ r.1 = k)
    (hearly : (s'.links k).phase.early = true →
      (s'.child = .notStarted ∨ s'.child = .dead) ∧ ∀ c, (s'.source c).written = [])
    (htold : Told s' (s'.links k).phase) : Alone k s' :=
  ⟨fun j hj => (hother j hj).trans (h.absent j hj),
    fun c r hr => (hreads c r hr).elim (h.reads c r) id, hearly, htold⟩

/-- The phase of the link changes, and nothing else. -/
theorem Alone.setPhase (h : Alone k s) {l : Link}
    (hearly : l.phase.early = true → (s.links k).phase.early = true) (htold : Told s l.phase) :
    Alone k (s.setLink k l) := by
  refine h.of_step (fun j hj => by rw [links_setLink_of_ne hj]) (fun _ _ hr => .inl hr) ?_ ?_
  · rw [links_setLink_self]
    exact fun he => h.early (hearly he)
  · rw [links_setLink_self]
    exact htold

/-- What the end of the child means for its pipes and for the daemon. -/
structure Ends (s : State) : Prop where
  closed : s.child.ended = true → ∀ c, (s.source c).isOpen = false
  dead : s.child = .dead → s.daemon.alive = false

theorem Ends.of_eq (h : Ends s) (hc : s'.child = s.child) (hd : s'.daemon = s.daemon)
    (ho : ∀ c, (s'.source c).isOpen = (s.source c).isOpen) : Ends s' :=
  ⟨fun he c => (ho c).trans (h.closed (hc ▸ he) c), fun he => hd ▸ h.dead (hc ▸ he)⟩

/-- What goes on by itself when nobody interferes with the link. -/
def Link.Op.relays : Link.Op → Bool
  | pass .. | finish | broken | fetch .. | eof _ | write _ | collect | complete => true
  | unlink | interrupt | attach _ | feed | fed | closeInput | abandon => false

/-- The daemon writes the status, and one link and its server go on. -/
def internal (k : ℕ) : Event → Bool
  | .reap => true
  | .read j _ _ | .eof j _ | .scan j => j = k
  | .act j op => j = k ∧ op.relays
  | _ => false

/-- How many moves the bytes of one stream have before them, and the ends of the copying
    goroutines. -/
def State.moves (s : State) (k : ℕ) (c : Stream) : ℕ :=
  4 * (s.source c).pipe.length + 3 * ((s.links k).lanes c).link.hand.length +
    2 * ((s.links k).lanes c).pipe.length + ((s.links k).lanes c).relay.hand.length +
    (!((s.links k).lanes c).link.done).toNat + (!((s.links k).lanes c).relay.done).toNat

def Phase.weight : Phase → ℕ
  | streaming => 2
  | scanning _ => 1
  | _ => 0

/-- The status that the daemon has not written yet. -/
def State.untold (s : State) : ℕ :=
  if s.daemon.alive then
    match s.child with
    | .exited e => e.text.length + 1
    | _ => 0
  else 0

/-- The steps that are left for `runLinker`, and for a `Write` that it waits for. -/
def Link.weight (l : Link) : ℕ :=
  (!l.collected).toNat + (if l.result = none then 1 else 0) +
    if l.stdin.writeL = .writing then 1 else 0

/-- How many steps are left for a link. -/
def State.weight (s : State) (k : ℕ) : ℕ :=
  s.moves k .stdout + s.moves k .stderr + (s.links k).phase.weight + s.status.length + s.untold +
    (s.links k).weight

/-- The child has ended, and nobody has interfered with the link: the value that
    `runLinker` waits for is in the channel, or it has taken it. -/
structure Ready (k : ℕ) (s : State) : Prop where
  child : s.child.ended = true
  up : (s.links k).up = true
  phase : (s.links k).phase = .streaming ∨ (s.links k).phase.late = true
  linked : (s.links k).unlinked = true ∨ (s.links k).collected = true

theorem Ready.setLink {l : Link} (h : Ready k s) (hup : l.up = true)
    (hphase : l.phase = .streaming ∨ l.phase.late = true)
    (hlinked : l.unlinked = true ∨ l.collected = true) : Ready k (s.setLink k l) := by
  refine ⟨h.child, ?_, ?_, ?_⟩
  · rw [links_setLink_self]; exact hup
  · rw [links_setLink_self]; exact hphase
  · rw [links_setLink_self]; exact hlinked

/-- Nothing of a link goes on. -/
def Stuck (k : ℕ) (s : State) : Prop := ∀ e, internal k e = true → step s e = none

theorem Stuck.act (h : Stuck k s) (op : Link.Op) (hop : op.relays = true) :
    (s.links k).act op = none :=
  Option.map_eq_none_iff.1 (h (.act k op) (decide_eq_true ⟨rfl, hop⟩))

theorem Stuck.daemon (h : Stuck k s) (hends : Ends s) (hc : s.child.ended = true) :
    s.daemon.alive = false := by
  cases ha : s.daemon.alive with
  | false => rfl
  | true =>
    have hreap := h .reap rfl
    cases hchild : s.child with
    | exited e => simp [step, hchild, ha] at hreap
    | dead => rw [hends.dead hchild] at ha; cases ha
    | notStarted => rw [hchild] at hc; cases hc
    | running => rw [hchild] at hc; cases hc

/-- The server has read all there is. -/
theorem Stuck.fetched (h : Stuck k s) (hup : (s.links k).up = true) (c : Stream) :
    ((s.links k).lanes c).relay.hand = [] ∧ ((s.links k).lanes c).pipe = [] := by
  have hhand : ((s.links k).lanes c).relay.hand = [] := by
    by_contra hne
    have := h.act (.write c) rfl
    simp [Link.act, hup, hne] at this
  refine ⟨hhand, by_contra fun hne => ?_⟩
  have hpos := List.length_pos_iff.2 hne
  have := h.act (.fetch c 1) rfl
  simp only [Link.act] at this
  rw [if_pos ⟨hup, hhand, by decide, by decide, hpos⟩] at this
  cases this

/-- The link has read all there is. -/
theorem Stuck.streamed (h : Stuck k s) (hends : Ends s) (hr : Ready k s)
    (hphase : (s.links k).phase = .streaming) (c : Stream) :
    ((s.links k).lanes c).link.done = true := by
  have hpipe := (h.fetched hr.up c).2
  have hhand : ((s.links k).lanes c).link.hand = [] := by
    by_contra hne
    have hpos := List.length_pos_iff.2 hne
    have := h.act (.pass c 1) rfl
    simp only [Link.act] at this
    rw [if_pos ⟨hphase, by decide, hpos⟩, if_neg (by simp [hr.up]), if_pos (by rw [hpipe]; decide)] at this
    cases this
  by_contra hdone
  rw [Bool.not_eq_true] at hdone
  cases hsrc : (s.source c).pipe with
  | nil =>
    have heof := h (.eof k c) (decide_eq_true rfl)
    simp only [step] at heof
    rw [if_pos ⟨hphase, hdone, hhand, hsrc, hends.closed hr.child c⟩] at heof
    cases heof
  | cons b bs =>
    have hread := h (.read k c 1) (decide_eq_true rfl)
    simp only [step] at hread
    rw [if_pos ⟨hphase, hdone, hhand, by decide, by decide, by simp [hsrc]⟩] at hread
    cases hread

/-- A link stops only when it has exited. -/
theorem Stuck.exited (h : Stuck k s) (hends : Ends s) (hr : Ready k s) :
    ∃ st, (s.links k).phase = .exited st := by
  cases hphase : (s.links k).phase with
  | streaming =>
    have := h.act .finish rfl
    simp only [Link.act] at this
    rw [if_pos ⟨hphase, h.streamed hends hr hphase⟩] at this
    cases this
  | scanning t =>
    have ha := h.daemon hends hr.child
    have hscan := h (.scan k) (decide_eq_true rfl)
    simp only [step, scan, hphase, ha] at hscan
    split at hscan <;> simp at hscan
  | exited st => exact ⟨st, rfl⟩
  | absent | dialed | refused | gone | killed =>
    rcases hr.phase with hp | hp <;> rw [hphase] at hp <;> cases hp

/-- `runLinker` stops only at the lock of the input. -/
theorem Stuck.completed (h : Stuck k s) (hends : Ends s) (hr : Ready k s) :
    (s.links k).result ≠ none ∨ (s.links k).stdin.writeL = .lost := by
  obtain ⟨st, hphase⟩ := h.exited hends hr
  have hended : (s.links k).phase.ended = true := by rw [hphase]; rfl
  have hdone : ∀ c, ((s.links k).lanes c).relay.done = true := by
    intro c
    by_contra hdone
    rw [Bool.not_eq_true] at hdone
    obtain ⟨hhand, hpipe⟩ := h.fetched hr.up c
    have := h.act (.eof c) rfl
    simp only [Link.act] at this
    rw [if_pos ⟨hr.up, hdone, hhand, hpipe, hended⟩] at this
    cases this
  have hcol : (s.links k).collected = true := by
    by_contra hcol
    rw [Bool.not_eq_true] at hcol
    have hval : (s.links k).unlinked = true := hr.linked.resolve_right (by simp [hcol])
    have := h.act .collect rfl
    simp only [Link.act] at this
    rw [if_pos ⟨hr.up, hcol, hended, hval, hdone⟩] at this
    cases this
  cases hw : (s.links k).stdin.writeL with
  | free =>
    refine .inl fun hnone => ?_
    have := h.act .complete rfl
    simp only [Link.act, Input.close, hw, if_true] at this
    rw [if_pos ⟨hr.up, hcol, hnone⟩, hphase] at this
    cases this
  | writing =>
    -- the link does not read any more
    have := h.act .broken rfl
    simp only [Link.act, Input.written, hw, if_true] at this
    rw [if_pos ⟨hr.up, hended⟩] at this
    cases this
  | lost => exact .inr rfl

/-- What the link makes of it, while a source writes to the child that is gone. -/
def drained : List Event :=
  [.eof 0 .stderr, .read 0 .stdout 1, .reap, .act 0 .feed, .act 0 (.pass .stdout 1), .eof 0 .stdout,
    .act 0 .finish, .act 0 (.fetch .stdout 1), .scan 0, .scan 0, .scan 0, .act 0 .broken,
    .act 0 (.write .stdout), .act 0 .closeInput, .act 0 (.eof .stdout), .act 0 (.eof .stderr),
    .act 0 .collect, .act 0 .complete]

end Runs

end WardenLinux.ProcessOutput
