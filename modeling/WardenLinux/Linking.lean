/-
  The goroutines of the process tracker (process_tracker.go, process.go):
  `Run`, `Attach`, `Restore`, `link`, `unregister` and `UnlinkAll` in any order.

  The read-write mutex is the one of Go.  A writer that waits keeps new readers
  out, and when it unlocks, the readers that were kept out have the lock before
  the next writer.  `Pc.Moves` lists what a step of a goroutine can do, and
  `Relinks` what it does to one process.
-/
import WardenLinux.Lib.Transition
import WardenLinux.ProcessTracker

namespace WardenLinux

open Transition

namespace Linking

/-- The part of a `*Process` that linking uses. -/
structure Link where
  /-- `waitingLinks` is locked -/
  busy : Bool := false
  /-- `runningLink` has run -/
  ran : Bool := false
  /-- `linked` is closed -/
  linked : Bool := false
  /-- the value is in the channel `unlinked` -/
  unlinked : Bool := true
  deriving DecidableEq, Repr

/-- What a goroutine takes the read lock for. -/
inductive Reader where
  | link (id : UInt32)
  | attach (id : UInt32)
  | unlinkAll
  deriving DecidableEq, Repr

/-- What a goroutine takes the write lock for. -/
inductive Writer where
  | run (tty : Bool)
  | restore (id : UInt32) (tty : Bool)
  | unregister (id : UInt32)
  deriving DecidableEq, Repr

/-- Where a goroutine is. -/
inductive Pc where
  /-- before `RLock`, kept out by a writer, with the read lock -/
  | rlock (r : Reader)
  | blocked (r : Reader)
  | reading (r : Reader)
  /-- before `Lock`, and waiting for the readers to leave -/
  | lock (w : Writer)
  | waiting (w : Writer)
  /-- `Run` before its process is ready -/
  | spawning (id : UInt32)
  /-- `Link` of the process at an address: before `waitingLinks.Lock`, at
      `runningLink.Do`, and while `iodaemon link` runs -/
  | linkMutex (id : UInt32) (p : ℕ)
  | start (id : UInt32) (p : ℕ)
  | started (id : UInt32) (p : ℕ)
  /-- the loop of `UnlinkAll`, with the processes still to unlink -/
  | unlinking (todo : List ℕ)
  | done
  deriving DecidableEq, Repr

structure Tracking where
  tracker : ProcessTracker
  links : ℕ → Link
  goroutines : List Pc

def Tracking.new : Tracking := ⟨.new, fun _ => {}, []⟩

/-- The addresses of the tracked processes. -/
def Tracking.tracked (s : Tracking) : List ℕ := s.tracker.activeProcesses.map Process.addr

/-- A writer waits. -/
def Pc.writes : Pc → Bool
  | waiting _ => true
  | _ => false

/-- A goroutine has the read lock. -/
def Pc.reads : Pc → Bool
  | reading _ | unlinking _ => true
  | _ => false

/-- A reader that was kept out gets the lock. -/
def Pc.grant : Pc → Pc
  | blocked r => reading r
  | pc => pc

/-- What a step does: the goroutine goes on at `pc`, and starts others. -/
structure Outcome where
  pc : Pc
  tracker : ProcessTracker
  links : ℕ → Link
  spawned : List Pc := []
  /-- the write lock is given back -/
  unlocks : Bool := false

/-- The goroutine goes on, and nothing else happens. -/
def Tracking.goto (s : Tracking) (pc : Pc) : Outcome := { pc, tracker := s.tracker, links := s.links }

/-- The goroutine goes on, and the process at `p` changes. -/
def Tracking.relink (s : Tracking) (pc : Pc) (p : ℕ) (l : Link) : Outcome :=
  { pc, tracker := s.tracker, links := Function.update s.links p l }

/-- The next step of a goroutine; `ok` is the outcome of `runner.Start`, and
    `order` the order in which `UnlinkAll` finds the map. -/
def Pc.next (s : Tracking) (ok : Bool) (order : List ℕ) : Pc → Option Outcome
  | rlock r =>
    if s.goroutines.any writes then some (s.goto (blocked r)) else some (s.goto (reading r))
  | blocked _ => none
  | reading (.link id) =>
    match s.tracker.processes.lookup id with
    | none => some (s.goto done)
    | some p => some (s.goto (linkMutex id p.addr))
  | reading (.attach id) =>
    match s.tracker.processes.lookup id with
    | none => some (s.goto done)
    | some _ => some { s.goto done with spawned := [rlock (.link id)] }
  | reading .unlinkAll => if order.Perm s.tracked then some (s.goto (unlinking order)) else none
  | lock w => if s.goroutines.any writes then none else some (s.goto (waiting w))
  | waiting w =>
    if s.goroutines.any reads then none
    else match w with
      | .run tty => some
        { pc := spawning s.tracker.nextProcessID
          tracker := Fallible.final (ProcessTracker.register tty s.tracker)
          links := Function.update s.links s.tracker.allocated {}
          unlocks := true }
      | .restore id tty => some
        { pc := done
          tracker := s.tracker.restore id tty
          links := Function.update s.links s.tracker.allocated {}
          spawned := [rlock (.link id)]
          unlocks := true }
      | .unregister id => some
        { pc := done, tracker := s.tracker.unregister id, links := s.links, unlocks := true }
  | spawning id => some { s.goto done with spawned := [rlock (.link id)] }
  | linkMutex id p =>
    if (s.links p).busy then none
    else some (s.relink (start id p) p { s.links p with busy := true })
  | start id p =>
    if (s.links p).ran then
      some (s.relink (lock (.unregister id)) p { s.links p with busy := false })
    else if ok then some (s.relink (started id p) p { s.links p with linked := true })
    else some (s.relink (lock (.unregister id)) p { s.links p with ran := true, busy := false })
  | started id p =>
    -- the command exits; after an `Unlink` the value is gone, and the goroutine waits for ever
    if (s.links p).unlinked then some (s.relink (lock (.unregister id)) p
      { s.links p with unlinked := false, ran := true, busy := false })
    else none
  | unlinking [] => some (s.goto done)
  | unlinking (p :: rest) =>
    if (s.links p).linked then
      some (s.relink (unlinking rest) p { s.links p with unlinked := false })
    else none
  | done => none

/-- The state after a step of the goroutine `t`. -/
def Tracking.after (s : Tracking) (t : ℕ) (r : Outcome) : Tracking where
  tracker := r.tracker
  links := r.links
  goroutines := (s.goroutines.set t r.pc).map (if r.unlocks then Pc.grant else id) ++ r.spawned

inductive Label where
  | run (tty : Bool)
  | attach (id : UInt32)
  | restore (id : UInt32) (tty : Bool)
  | unlinkAll
  /-- a step of a goroutine -/
  | go (t : ℕ) (ok : Bool) (order : List ℕ)
  deriving DecidableEq, Repr

/-- Where a call starts. -/
def Label.entry : Label → Option Pc
  | run tty => some (.lock (.run tty))
  | attach id => some (.rlock (.attach id))
  | restore id tty => some (.lock (.restore id tty))
  | unlinkAll => some (.rlock .unlinkAll)
  | go _ _ _ => none

def step (s : Tracking) : Label → Option Tracking
  | .go t ok order => do
    let pc ← s.goroutines[t]?
    let r ← pc.next s ok order
    return s.after t r
  | l => do
    let pc ← l.entry
    return { s with goroutines := s.goroutines ++ [pc] }

def Step (s : Tracking) (l : Label) (s' : Tracking) : Prop := step s l = some s'

/-- The steps of the goroutines that there are, without new calls. -/
def Go (s : Tracking) (l : Label) (s' : Tracking) : Prop := l.entry = none ∧ Step s l s'

/-- Some steps lead to the channel `linked` of the process being closed. -/
def CanLink (s : Tracking) (p : ℕ) : Prop :=
  ∃ s', Leads Go s s' ∧ (s'.links p).linked = true

/-! ## The condition -/

/-- `UnlinkAll` has the read lock. -/
def Pc.unlinks : Pc → Bool
  | reading .unlinkAll | unlinking _ => true
  | _ => false

/-- A goroutine has found the process and is about to link it. -/
def Pc.claims (p : ℕ) : Pc → Bool
  | linkMutex _ q | start _ q => q = p
  | _ => false

def Tracking.claimed (s : Tracking) (p : ℕ) : Bool := s.goroutines.any (Pc.claims p)

/-- The link of the process is over or does not need the lock any more. -/
def Tracking.settled (s : Tracking) (p : ℕ) : Bool :=
  (s.links p).linked || (s.links p).ran || s.claimed p

/-- A goroutine of `link` with the read lock is going to find the process. -/
def Pc.finds (t : ProcessTracker) (p : ℕ) : Pc → Bool
  | reading (.link id) => (t.processes.lookup id).any (·.addr = p)
  | _ => false

/-- The link of the process does not need the lock any more, or has it. -/
def Tracking.passed (s : Tracking) (p : ℕ) : Bool :=
  s.settled p || s.goroutines.any (Pc.finds s.tracker p)

/-- The link did not start. -/
def Tracking.failed (s : Tracking) (p : ℕ) : Bool := (s.links p).ran && !(s.links p).linked

/-- The condition on the next step of a goroutine while `UnlinkAll` has the read
    lock: when it starts its loop, no tracked process has failed to link; no
    tracked process fails to link; and a writer starts to wait only when no link
    of a tracked process has still to get the lock. -/
def Pc.careful (s : Tracking) (ok : Bool) : Pc → Prop
  | reading .unlinkAll => ∀ p ∈ s.tracked, s.failed p = false
  | start _ p => p ∈ s.tracked → (s.links p).ran = true ∨ ok = true
  | lock _ => ∀ p ∈ s.tracked, s.passed p = true
  | _ => True

instance (s : Tracking) (ok : Bool) : (pc : Pc) → Decidable (pc.careful s ok)
  | .reading .unlinkAll => inferInstanceAs (Decidable (∀ p ∈ s.tracked, s.failed p = false))
  | .start _ p => inferInstanceAs (Decidable (p ∈ s.tracked → (s.links p).ran = true ∨ ok = true))
  | .lock _ => inferInstanceAs (Decidable (∀ p ∈ s.tracked, s.passed p = true))
  | .rlock _ | .blocked _ | .reading (.link _) | .reading (.attach _) | .waiting _ | .spawning _
  | .linkMutex _ _ | .started _ _ | .unlinking _ | .done => isTrue trivial

def Careful (s : Tracking) : Label → Prop
  | .go t ok _ => s.goroutines.any Pc.unlinks = true → ∀ pc ∈ s.goroutines[t]?, pc.careful s ok
  | _ => True

instance (s : Tracking) : (l : Label) → Decidable (Careful s l)
  | .go t ok _ => inferInstanceAs
      (Decidable (s.goroutines.any Pc.unlinks = true → ∀ pc ∈ s.goroutines[t]?, pc.careful s ok))
  | .run _ | .attach _ | .restore _ _ | .unlinkAll => isTrue trivial

/-! ## The goroutines after a step -/

section
variable {P : Pc → Bool} {l : List Pc} {t : ℕ} {pc pc' : Pc} {s : Tracking} {r : Outcome}

theorem any_set_of (ht : l[t]? = some pc) (h : l.any P = true) (hp : P pc = true → P pc' = true) :
    (l.set t pc').any P = true := by
  obtain ⟨g, hg, hPg⟩ := List.any_eq_true.1 h
  obtain ⟨hlt, hpc⟩ := List.getElem?_eq_some_iff.1 ht
  obtain ⟨t', hlt', rfl⟩ := List.getElem_of_mem hg
  refine List.any_eq_true.2 ?_
  by_cases he : t' = t
  · subst he
    exact ⟨pc', List.mem_set hlt pc', hp (hpc ▸ hPg)⟩
  · refine ⟨l[t'], List.mem_iff_getElem?.2 ⟨t', ?_⟩, hPg⟩
    rw [List.getElem?_set_ne (Ne.symm he)]
    exact List.getElem?_eq_getElem hlt'

theorem any_of_set (h : (l.set t pc').any P = true) : P pc' = true ∨ l.any P = true := by
  obtain ⟨g, hg, hPg⟩ := List.any_eq_true.1 h
  rcases List.mem_or_eq_of_mem_set hg with hg | rfl
  · exact Or.inr (List.any_eq_true.2 ⟨g, hg, hPg⟩)
  · exact Or.inl hPg

theorem any_after (hP : ∀ g, P (Pc.grant g) = P g) :
    (s.after t r).goroutines.any P = ((s.goroutines.set t r.pc).any P || r.spawned.any P) := by
  have hfun : (P ∘ fun g => (if r.unlocks then Pc.grant else id) g) = P := by
    funext g
    by_cases hu : r.unlocks = true <;> simp [hu, hP]
  simp only [Tracking.after, List.any_append, List.any_map, hfun]

/-- What some goroutine is doing, it is doing after the step, or the step was
    its own. -/
theorem any_after_of (hP : ∀ g, P (Pc.grant g) = P g) (ht : s.goroutines[t]? = some pc)
    (h : s.goroutines.any P = true)
    (hp : P pc = true → P r.pc = true ∨ r.spawned.any P = true) :
    (s.after t r).goroutines.any P = true := by
  rw [any_after hP, Bool.or_eq_true]
  by_cases hpc : P pc = true
  · rcases hp hpc with hr | hr
    · exact Or.inl (any_set_of ht h fun _ => hr)
    · exact Or.inr hr
  · exact Or.inl (any_set_of ht h fun h' => absurd h' hpc)

theorem any_of_after (hP : ∀ g, P (Pc.grant g) = P g) (h : (s.after t r).goroutines.any P = true) :
    P r.pc = true ∨ r.spawned.any P = true ∨ s.goroutines.any P = true := by
  rw [any_after hP, Bool.or_eq_true] at h
  rcases h with h | h
  · rcases any_of_set h with h | h
    · exact Or.inl h
    · exact Or.inr (Or.inr h)
  · exact Or.inr (Or.inl h)

end

/-! ## What a step can do -/

/-- A goroutine that is going to look the process up. -/
def Pc.heads (id : UInt32) : Pc → Bool
  | spawning i => i = id
  | rlock r | blocked r | reading r => r = .link id
  | _ => false

/-- A goroutine that has locked `waitingLinks` and is about to start the link. -/
def Pc.inside (p : ℕ) : Pc → Bool
  | start _ q => q = p
  | _ => false

/-- A goroutine that works on the process. -/
def Pc.names (p : ℕ) : Pc → Bool
  | linkMutex _ q | start _ q | started _ q => q = p
  | _ => false

/-- A goroutine whose link has started. -/
def Pc.runs (p : ℕ) : Pc → Bool
  | started _ q => q = p
  | _ => false

def Pc.isBlocked : Pc → Bool
  | blocked _ => true
  | _ => false

/-- The steps of a goroutine, one by one. -/
inductive Pc.Moves (s : Tracking) (ok : Bool) (order : List ℕ) : Pc → Outcome → Prop
  | block {r} : s.goroutines.any writes = true → Moves s ok order (rlock r) (s.goto (blocked r))
  | read {r} : s.goroutines.any writes = false → Moves s ok order (rlock r) (s.goto (reading r))
  | gone {id} : s.tracker.processes.lookup id = none →
      Moves s ok order (reading (.link id)) (s.goto done)
  | find {id q} : s.tracker.processes.lookup id = some q →
      Moves s ok order (reading (.link id)) (s.goto (linkMutex id q.addr))
  | unattached {id} : s.tracker.processes.lookup id = none →
      Moves s ok order (reading (.attach id)) (s.goto done)
  | attach {id q} : s.tracker.processes.lookup id = some q →
      Moves s ok order (reading (.attach id)) { s.goto done with spawned := [rlock (.link id)] }
  | list : order.Perm s.tracked → Moves s ok order (reading .unlinkAll) (s.goto (unlinking order))
  | wait {w} : s.goroutines.any writes = false → Moves s ok order (lock w) (s.goto (waiting w))
  | run {tty} : s.goroutines.any reads = false → Moves s ok order (waiting (.run tty))
      { pc := spawning s.tracker.nextProcessID
        tracker := Fallible.final (ProcessTracker.register tty s.tracker)
        links := Function.update s.links s.tracker.allocated {}
        unlocks := true }
  | restore {id tty} : s.goroutines.any reads = false → Moves s ok order (waiting (.restore id tty))
      { pc := done
        tracker := s.tracker.restore id tty
        links := Function.update s.links s.tracker.allocated {}
        spawned := [rlock (.link id)]
        unlocks := true }
  | unregister {id} : s.goroutines.any reads = false → Moves s ok order (waiting (.unregister id))
      { pc := done, tracker := s.tracker.unregister id, links := s.links, unlocks := true }
  | spawn {id} :
      Moves s ok order (spawning id) { s.goto done with spawned := [rlock (.link id)] }
  | enter {id p} : (s.links p).busy = false → Moves s ok order (linkMutex id p)
      (s.relink (start id p) p { s.links p with busy := true })
  | skip {id p} : (s.links p).ran = true → Moves s ok order (start id p)
      (s.relink (lock (.unregister id)) p { s.links p with busy := false })
  | link {id p} : (s.links p).ran = false → ok = true → Moves s ok order (start id p)
      (s.relink (started id p) p { s.links p with linked := true })
  | fail {id p} : (s.links p).ran = false → ok = false → Moves s ok order (start id p)
      (s.relink (lock (.unregister id)) p { s.links p with ran := true, busy := false })
  | exit {id p} : (s.links p).unlinked = true → Moves s ok order (started id p)
      (s.relink (lock (.unregister id)) p
        { s.links p with unlinked := false, ran := true, busy := false })
  | finish : Moves s ok order (unlinking []) (s.goto done)
  | unlink {p rest} : (s.links p).linked = true → Moves s ok order (unlinking (p :: rest))
      (s.relink (unlinking rest) p { s.links p with unlinked := false })

/-- A goroutine that has locked `waitingLinks` of the process. -/
def Pc.holds (p : ℕ) (g : Pc) : Bool := g.inside p || g.runs p

/-- What a step does to the process at `p`. -/
inductive Relinks (s : Tracking) (ok : Bool) (p : ℕ) (pc : Pc) (r : Outcome) : Prop
  | same : r.links p = s.links p → pc.holds p = false → r.pc.holds p = false → Relinks s ok p pc r
  | new : p = s.tracker.allocated → r.links p = {} → pc.holds p = false → r.pc.holds p = false →
      Relinks s ok p pc r
  | enter {id} : pc = .linkMutex id p → r.pc = .start id p → (s.links p).busy = false →
      r.links p = { s.links p with busy := true } → Relinks s ok p pc r
  | skip {id} : pc = .start id p → r.pc = .lock (.unregister id) → (s.links p).ran = true →
      r.links p = { s.links p with busy := false } → Relinks s ok p pc r
  | link {id} : pc = .start id p → r.pc = .started id p → (s.links p).ran = false → ok = true →
      r.links p = { s.links p with linked := true } → Relinks s ok p pc r
  | fail {id} : pc = .start id p → r.pc = .lock (.unregister id) → (s.links p).ran = false →
      ok = false → r.links p = { s.links p with ran := true, busy := false } → Relinks s ok p pc r
  | exit {id} : pc = .started id p → r.pc = .lock (.unregister id) →
      (s.links p).unlinked = true →
      r.links p = { s.links p with unlinked := false, ran := true, busy := false } →
      Relinks s ok p pc r
  | unlink {rest} : pc = .unlinking (p :: rest) → r.pc = .unlinking rest →
      (s.links p).linked = true → r.links p = { s.links p with unlinked := false } →
      Relinks s ok p pc r

section
variable {s : Tracking} {ok : Bool} {order : List ℕ} {pc : Pc} {r : Outcome}

theorem grant_claims (p : ℕ) (g : Pc) : g.grant.claims p = g.claims p := by cases g <;> rfl
theorem grant_inside (p : ℕ) (g : Pc) : g.grant.inside p = g.inside p := by cases g <;> rfl
theorem grant_runs (p : ℕ) (g : Pc) : g.grant.runs p = g.runs p := by cases g <;> rfl
theorem grant_names (p : ℕ) (g : Pc) : g.grant.names p = g.names p := by cases g <;> rfl
theorem grant_writes (g : Pc) : g.grant.writes = g.writes := by cases g <;> rfl

theorem grant_heads (id : UInt32) (g : Pc) : g.grant.heads id = g.heads id := by cases g <;> rfl

theorem names_of_runs {p : ℕ} {g : Pc} (h : g.runs p = true) : g.names p = true := by
  cases g with
  | started => exact h
  | _ => cases h

theorem grant_unlinking {g : Pc} {todo : List ℕ} (h : g.grant = .unlinking todo) :
    g = .unlinking todo := by
  cases g with
  | blocked => cases h
  | _ => exact h

theorem moves_of_next (h : pc.next s ok order = some r) : pc.Moves s ok order r := by
  revert h
  fun_cases Pc.next s ok order pc <;>
    simp only [Option.some.injEq, reduceCtorEq, false_imp_iff] <;> rintro rfl
  all_goals constructor <;> first | assumption | simp_all

theorem relinks_of_next (h : pc.next s ok order = some r) (p : ℕ) : Relinks s ok p pc r := by
  cases moves_of_next h with
  | run _ | restore _ =>
    rcases eq_or_ne p s.tracker.allocated with rfl | hne
    · exact .new rfl (Function.update_self ..) rfl rfl
    · exact .same (Function.update_of_ne hne ..) rfl rfl
  | @enter _ q hfree =>
    rcases eq_or_ne p q with rfl | hne
    · exact .enter rfl rfl hfree (Function.update_self ..)
    · exact .same (Function.update_of_ne hne ..) rfl
        (by simp [Pc.holds, Pc.inside, Pc.runs, Tracking.relink, hne.symm])
  | @skip _ q hran =>
    rcases eq_or_ne p q with rfl | hne
    · exact .skip rfl rfl hran (Function.update_self ..)
    · exact .same (Function.update_of_ne hne ..)
        (by simp [Pc.holds, Pc.inside, Pc.runs, hne.symm]) rfl
  | @link _ q hran hok =>
    rcases eq_or_ne p q with rfl | hne
    · exact .link rfl rfl hran hok (Function.update_self ..)
    · exact .same (Function.update_of_ne hne ..)
        (by simp [Pc.holds, Pc.inside, Pc.runs, hne.symm])
        (by simp [Pc.holds, Pc.inside, Pc.runs, Tracking.relink, hne.symm])
  | @fail _ q hran hok =>
    rcases eq_or_ne p q with rfl | hne
    · exact .fail rfl rfl hran hok (Function.update_self ..)
    · exact .same (Function.update_of_ne hne ..)
        (by simp [Pc.holds, Pc.inside, Pc.runs, hne.symm]) rfl
  | @exit _ q hunlinked =>
    rcases eq_or_ne p q with rfl | hne
    · exact .exit rfl rfl hunlinked (Function.update_self ..)
    · exact .same (Function.update_of_ne hne ..)
        (by simp [Pc.holds, Pc.inside, Pc.runs, hne.symm]) rfl
  | @unlink q _ hlinked =>
    rcases eq_or_ne p q with rfl | hne
    · exact .unlink rfl rfl hlinked (Function.update_self ..)
    · exact .same (Function.update_of_ne hne ..) rfl rfl
  | _ => exact .same rfl rfl rfl

theorem holds_eq_false {p : ℕ} {g : Pc} (h : g.holds p = false) :
    g.inside p = false ∧ g.runs p = false := Bool.or_eq_false_iff.1 h

/-- Only a writer changes the map and unlocks. -/
theorem next_tracker (h : pc.next s ok order = some r) (hw : pc.writes = false) :
    r.tracker = s.tracker ∧ r.unlocks = false := by
  cases moves_of_next h with
  | run _ | restore _ | unregister _ => cases hw
  | _ => exact ⟨rfl, rfl⟩

theorem next_claims {p : ℕ} (h : pc.next s ok order = some r) (hp : pc.claims p = true) :
    (r.links p).linked = true ∨ (r.links p).ran = true ∨ r.pc.claims p = true := by
  cases moves_of_next h with
  | enter _ => exact Or.inr (Or.inr hp)
  | skip _ | link _ _ | fail _ _ =>
    simp only [Pc.claims, decide_eq_true_eq] at hp
    subst hp
    simp_all [Tracking.relink]
  | _ => cases hp

theorem next_heads {id : UInt32} {q : Process} (h : pc.next s ok order = some r)
    (hq : s.tracker.processes.lookup id = some q) (hp : pc.heads id = true) :
    r.pc.claims q.addr = true ∨ r.pc.heads id = true ∨ r.spawned.any (Pc.heads id) = true := by
  cases moves_of_next h with
  | block _ | read _ => exact Or.inr (Or.inl hp)
  | gone hl =>
    simp only [Pc.heads, decide_eq_true_eq, Reader.link.injEq] at hp
    subst hp
    cases hq.symm.trans hl
  | find hl =>
    simp only [Pc.heads, decide_eq_true_eq, Reader.link.injEq] at hp
    subst hp
    cases hq.symm.trans hl
    exact Or.inl (by simp [Tracking.goto, Pc.claims])
  | spawn => exact Or.inr (Or.inr (by simpa [Pc.heads] using hp))
  | _ => cases hp

/-- `linked` stays closed and `runningLink` stays done, but for a new process. -/
theorem next_links {p : ℕ} (h : pc.next s ok order = some r)
    (hp : p = s.tracker.allocated → r.links p ≠ {}) :
    ((s.links p).linked = true → (r.links p).linked = true) ∧
      ((s.links p).ran = true → (r.links p).ran = true) := by
  cases relinks_of_next h p with
  | new he hl => exact absurd hl (hp he)
  | same hl | enter _ _ _ hl | skip _ _ _ hl | unlink _ _ _ hl => rw [hl]; exact ⟨id, id⟩
  | link _ _ _ _ hl => rw [hl]; exact ⟨fun _ => rfl, id⟩
  | fail _ _ _ _ hl | exit _ _ _ hl => rw [hl]; exact ⟨id, fun _ => rfl⟩

theorem next_busy {p : ℕ} (h : pc.next s ok order = some r)
    (hb : (r.links p).busy = true) :
    r.pc.inside p = true ∨ (s.links p).busy = true ∧ pc.inside p = false ∨
      (r.links p).linked = true := by
  cases relinks_of_next h p with
  | same hl hpc _ => exact Or.inr (Or.inl ⟨hl ▸ hb, (holds_eq_false hpc).1⟩)
  | enter _ hpc _ _ => exact Or.inl (by simp [hpc, Pc.inside])
  | link _ _ _ _ hl => exact Or.inr (Or.inr (by rw [hl]))
  | unlink hpc _ _ hl => rw [hl] at hb; subst hpc; exact Or.inr (Or.inl ⟨hb, rfl⟩)
  | new _ hl _ _ => rw [hl] at hb; cases hb
  | skip _ _ _ hl => rw [hl] at hb; cases hb
  | fail _ _ _ _ hl => rw [hl] at hb; cases hb
  | exit _ _ _ hl => rw [hl] at hb; cases hb

/-- The channel `linked` is closed when the command has started. -/
theorem next_linked {p : ℕ} (h : pc.next s ok order = some r) (hl : (r.links p).linked = true) :
    (s.links p).linked = true ∨
      ∃ id, pc = .start id p ∧ (s.links p).ran = false ∧ r.pc = .started id p := by
  cases relinks_of_next h p with
  | link hpc hpc' hran => exact Or.inr ⟨_, hpc, hran, hpc'⟩
  | new _ hnew => rw [hnew] at hl; cases hl
  | same he | enter _ _ _ he | skip _ _ _ he | fail _ _ _ _ he | exit _ _ _ he | unlink _ _ _ he =>
    rw [he] at hl
    exact Or.inl hl

/-- The goroutines that are started are those of `link`. -/
theorem next_spawned {g : Pc} (h : pc.next s ok order = some r) (hg : g ∈ r.spawned) :
    ∃ id, g = .rlock (.link id) := by
  cases moves_of_next h with
  | attach _ | restore _ | spawn => exact ⟨_, List.mem_singleton.1 hg⟩
  | _ => cases hg

theorem not_any_spawned {P : Pc → Bool} (hn : pc.next s ok order = some r)
    (hP : ∀ id, P (.rlock (.link id)) = false) : r.spawned.any P = false := by
  rw [List.any_eq_false]
  intro g hg
  obtain ⟨id, rfl⟩ := next_spawned hn hg
  simp [hP]

/-- How many goroutines are doing something after a step. -/
theorem countP_after {P : Pc → Bool} {t : ℕ} (hP : ∀ g, P (Pc.grant g) = P g)
    (hlink : ∀ id, P (.rlock (.link id)) = false) (ht : s.goroutines[t]? = some pc)
    (hn : pc.next s ok order = some r) :
    (s.after t r).goroutines.countP P = s.goroutines.countP P -
      (if P pc = true then 1 else 0) + if P r.pc = true then 1 else 0 := by
  obtain ⟨hlt, hpc⟩ := List.getElem?_eq_some_iff.1 ht
  have hspawn : r.spawned.countP P = 0 := by
    rw [List.countP_eq_zero]
    intro g hg
    obtain ⟨id, rfl⟩ := next_spawned hn hg
    simp [hlink]
  have hfun : (P ∘ if r.unlocks = true then Pc.grant else id) = P := by
    funext g
    by_cases hu : r.unlocks = true <;> simp [hu, hP]
  rw [Tracking.after, List.countP_append, hspawn, List.countP_map, hfun, List.countP_set hlt, hpc]
  simp

theorem next_runs {p : ℕ} (h : pc.next s ok order = some r) (hp : r.pc.runs p = true) :
    (r.links p).linked = true := by
  cases moves_of_next h with
  | link _ _ =>
    simp only [Tracking.relink, Pc.runs, decide_eq_true_eq] at hp
    subst hp
    simp [Tracking.relink]
  | _ => cases hp

/-- A link fails when its command does not start. -/
theorem next_failed {p : ℕ} (h : pc.next s ok order = some r)
    (hrun : pc.runs p = true → (s.links p).linked = true) (hr : (r.links p).ran = true)
    (hl : (r.links p).linked = false) : s.failed p = true ∨ ∃ id, pc = .start id p ∧ ok = false ∧
      (s.links p).ran = false := by
  cases relinks_of_next h p with
  | fail hpc _ hran hok => exact Or.inr ⟨_, hpc, hok, hran⟩
  | new _ hnew => rw [hnew] at hr; cases hr
  | link _ _ _ _ he => rw [he] at hl; cases hl
  | exit hpc _ _ he =>
    rw [he] at hl
    exact absurd (hl.symm.trans (hrun (by simp [hpc, Pc.runs]))) Bool.false_ne_true
  | same he | enter _ _ _ he | skip _ _ _ he | unlink _ _ _ he =>
    rw [he] at hr hl
    have hran : (s.links p).ran = true := hr
    have hopen : (s.links p).linked = false := hl
    exact Or.inl (by simp [Tracking.failed, hran, hopen])

theorem next_writes (h : pc.next s ok order = some r) (hp : r.pc.writes = true) :
    s.goroutines.any Pc.writes = false ∧ ∃ w, pc = .lock w := by
  cases moves_of_next h with
  | wait hno => exact ⟨hno, _, rfl⟩
  | _ => cases hp

theorem next_isBlocked (h : pc.next s ok order = some r) (hp : r.pc.isBlocked = true) :
    s.goroutines.any Pc.writes = true ∧ pc.writes = false := by
  cases moves_of_next h with
  | block hany => exact ⟨hany, rfl⟩
  | _ => cases hp

theorem next_unlinks (h : pc.next s ok order = some r) (hp : r.pc.unlinks = true) :
    pc.unlinks = true ∨ s.goroutines.any Pc.writes = false ∧ pc.writes = false := by
  cases moves_of_next h with
  | read hno => exact Or.inr ⟨hno, rfl⟩
  | list _ | unlink _ => exact Or.inl rfl
  | _ => cases hp

theorem next_unlinking {todo : List ℕ} (h : pc.next s ok order = some r)
    (hp : r.pc = .unlinking todo) :
    pc = .reading .unlinkAll ∧ todo.Perm s.tracked ∨ ∃ p, pc = .unlinking (p :: todo) := by
  cases moves_of_next h with
  | list hperm => cases hp; exact Or.inl ⟨rfl, hperm⟩
  | unlink _ => cases hp; exact Or.inr ⟨_, rfl⟩
  | _ => cases hp

theorem next_names {p : ℕ} (h : pc.next s ok order = some r) (hp : r.pc.names p = true) :
    pc.names p = true ∨ p < s.tracker.allocated := by
  cases moves_of_next h with
  | find hq =>
    simp only [Tracking.goto, Pc.names, decide_eq_true_eq] at hp
    exact Or.inr (hp ▸ (s.tracker.filed _ _ hq).2)
  | enter _ | link _ _ => exact Or.inl hp
  | _ => cases hp

theorem next_unlocks (h : pc.next s ok order = some r) (hw : pc.writes = true) :
    r.unlocks = true ∧ s.goroutines.any Pc.reads = false ∧ r.pc.writes = false ∧
      (∀ todo, r.pc ≠ .unlinking todo) ∧ s.tracker.allocated ≤ r.tracker.allocated := by
  cases moves_of_next h with
  | run hr | restore hr | unregister hr =>
    exact ⟨rfl, hr, rfl, by simp, by simp [ProcessTracker.register, ProcessTracker.track,
      ProcessTracker.restore, ProcessTracker.unregister]⟩
  | _ => cases hw

theorem next_lookup {id : UInt32} {q : Process} (h : pc.next s ok order = some r)
    (hq : r.tracker.processes.lookup id = some q) :
    s.tracker.processes.lookup id = some q ∨ r.pc.heads id = true ∨
      r.spawned.any (Pc.heads id) = true := by
  cases moves_of_next h with
  | run _ =>
    by_cases he : id = s.tracker.nextProcessID
    · exact Or.inr (Or.inl (by simp [he, Pc.heads]))
    · exact Or.inl ((AList.lookup_insert_ne he).symm.trans hq)
  | @restore i tty _ =>
    by_cases he : id = i
    · exact Or.inr (Or.inr (by simp [he, Pc.heads]))
    · exact Or.inl ((AList.lookup_insert_ne he).symm.trans hq)
  | unregister _ => exact Or.inl (ProcessTracker.lookup_unregister hq).2
  | _ => exact Or.inl hq

theorem step_cases {l : Label} {s' : Tracking} (h : step s l = some s') :
    (∃ pc, l.entry = some pc ∧ s' = { s with goroutines := s.goroutines ++ [pc] }) ∨
      ∃ t ok order pc r, l = .go t ok order ∧ s.goroutines[t]? = some pc ∧
        pc.next s ok order = some r ∧ s' = s.after t r := by
  cases l with
  | go t ok order =>
    simp only [step, Option.bind_eq_bind, Option.bind_eq_some_iff] at h
    obtain ⟨pc, ht, r, hn, hs⟩ := h
    cases hs
    exact Or.inr ⟨t, ok, order, pc, r, rfl, ht, hn, rfl⟩
  | run tty | attach id | restore id tty | unlinkAll => cases h; exact Or.inl ⟨_, rfl, rfl⟩

end

end Linking

end WardenLinux
