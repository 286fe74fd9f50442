/-
  The loop in which `wsh` copies between its own descriptors and those of the
  command (pump.c, and `pump_loop` of wsh.c).

  An iteration puts the descriptors of all pairs into the sets for `select`,
  copies once for every pair, and, when the exit status is there, reads it, copies
  once more and exits.  A step is one call of the loop; the results of `select`,
  `read` and `write` are in the labels.  A call that is interrupted is made again,
  and its label has the last result.

  `Pump.used` collects the descriptors that are passed to `FD_SET` and `FD_ISSET`.
  A pair that is closed has the descriptors -1, which `pump_add_fd` leaves out and
  `pump_pair_copy` does not.

  `fds_in_range_iff`: all descriptors are in range iff no pair is copied once it
  is closed.
-/
import Mathlib.Data.Int.Notation
import Mathlib.Logic.Function.Basic
import WardenLinux.Lib.Transition

namespace WardenLinux

open Transition

/-! ## Sets of descriptors -/

/-- `FD_SETSIZE` -/
def fdSetSize : ℤ := 1024

/-- The descriptors that a set has a bit for. -/
def InRange (fd : ℤ) : Prop := 0 ≤ fd ∧ fd < fdSetSize

instance (fd : ℤ) : Decidable (InRange fd) := inferInstanceAs (Decidable (_ ∧ _))

/-- `PUMP_READ`, `PUMP_WRITE` and `PUMP_EXCEPT` -/
inductive PumpMode where
  | read
  | write
  | except
  deriving DecidableEq, Repr

/-- `pump_t` -/
structure Pump where
  nfd : ℤ
  rfds : List ℤ
  wfds : List ℤ
  efds : List ℤ
  used : List ℤ

/-- `pump_pair_t` -/
structure PumpPair where
  rfd : ℤ
  wfd : ℤ
  deriving DecidableEq, Repr

/-- A pair after `pump_pair_close`. -/
def PumpPair.closed : PumpPair := ⟨-1, -1⟩

/-- A pair that is closed, or whose descriptors are in range. -/
def PumpPair.Ok (pp : PumpPair) : Prop := pp = .closed ∨ InRange pp.rfd ∧ InRange pp.wfd

/-- A pair is open iff its descriptor for reading is in range. -/
theorem PumpPair.Ok.open_iff {pp : PumpPair} (h : pp.Ok) : InRange pp.rfd ↔ pp ≠ .closed := by
  rcases h with rfl | h
  · decide
  · refine iff_of_true h.1 ?_
    rintro rfl
    exact absurd h.1 (by decide)

theorem PumpPair.Ok.rfd {pp : PumpPair} (h : pp.Ok) : pp.rfd < 0 ∨ InRange pp.rfd :=
  h.imp (fun h => by rw [h]; decide) And.left

theorem PumpPair.Ok.wfd {pp : PumpPair} (h : pp.Ok) : pp.wfd < 0 ∨ InRange pp.wfd :=
  h.imp (fun h => by rw [h]; decide) And.right

namespace Pump

/-- A descriptor is passed to `FD_SET` or `FD_ISSET`. -/
def use (p : Pump) (fd : ℤ) : Pump := { p with used := p.used ++ [fd] }

def fds (p : Pump) : PumpMode → List ℤ
  | .read => p.rfds
  | .write => p.wfds
  | .except => p.efds

/-- `FD_SET` -/
def fdSet (fd : ℤ) (p : Pump) : PumpMode → Pump
  | .read => { p.use fd with rfds := fd :: p.rfds }
  | .write => { p.use fd with wfds := fd :: p.wfds }
  | .except => { p.use fd with efds := fd :: p.efds }

/-- What `FD_ISSET` returns; out of range, that is what stands in the memory beside
    the set. -/
def fdIsset (p : Pump) (fd : ℤ) (stray : Bool) (mode : PumpMode) : Bool :=
  if InRange fd then decide (fd ∈ p.fds mode) else stray

/-- `pump_init` -/
def pumpInit (p : Pump) : Pump := { p with nfd := 0, rfds := [], wfds := [], efds := [] }

/-- `pump_add_fd` -/
def pumpAddFd (p : Pump) (fd : ℤ) (mode : List PumpMode) : Pump :=
  if fd < 0 then p
  else mode.foldl (fdSet fd) { p with nfd := if fd > p.nfd then fd else p.nfd }

/-- `pump_add_pair` -/
def pumpAddPair (p : Pump) (pp : PumpPair) : Pump :=
  (p.pumpAddFd pp.rfd [.read, .except]).pumpAddFd pp.wfd [.write, .except]

/-- `pump_ready`: the descriptors it uses, and what it returns -/
def pumpReady (p : Pump) (fd : ℤ) (mode : List PumpMode) (stray : Bool) : Pump × Bool :=
  (mode.foldl (fun p _ => p.use fd) p, mode.any (p.fdIsset fd stray))

/-- `pump_select`, which leaves some descriptors in the sets that it is given. -/
def pumpSelect (p : Pump) (rfds efds : List ℤ) : Pump :=
  { p with rfds := p.rfds.filter (· ∈ rfds), efds := p.efds.filter (· ∈ efds) }

/-! ## The loop -/

/-- What `read` of the exit status returns. -/
inductive Status where
  | error
  | eof
  | short
  | status (code : ℤ)
  deriving DecidableEq, Repr

/-- Where the loop is. -/
inductive Pc where
  /-- at `pump_init` -/
  | top
  /-- at `pump_pair_copy(&pp[k])` after `select` -/
  | copying (k : ℕ)
  /-- at `pump_ready` -/
  | ready
  /-- at `read` of the exit status -/
  | status
  /-- at `pump_pair_copy(&pp[k])` after the exit status -/
  | emptying (rv : Status) (k : ℕ)
  | exited (code : ℤ)
  | aborted
  deriving DecidableEq, Repr

/-- The pair that is copied next. -/
def Pc.pair : Pc → Option ℕ
  | .copying k | .emptying _ k => some k
  | _ => none

structure State where
  p : Pump
  pp : ℕ → PumpPair
  pc : Pc
  /-- what has been written for each pair -/
  written : ℕ → List UInt8

/-- What the calls of a copy return: `FD_ISSET` out of range, `read`, and `write`
    (which takes all that is left after the results listed). -/
structure Copy where
  stray : Bool := false
  read : Option (List UInt8)
  writes : List ℤ := []
  deriving DecidableEq, Repr

/-- `sizeof(buf)` -/
def bufSize : ℕ := 64 * 1024

/-- The loop around `write`: what is written, and whether that is everything. -/
def writeLoop : List UInt8 → List ℤ → List UInt8 × Bool
  | [], _ => ([], true)
  | data, [] => (data, true)
  | data, nw :: writes =>
    if nw ≤ 0 then ([], false)
    else
      let (out, ok) := writeLoop (data.drop nw.toNat) writes
      (data.take nw.toNat ++ out, ok)

/-- `pump_pair_close` -/
def State.pumpPairClose (s : State) (k : ℕ) : State :=
  { s with pp := Function.update s.pp k .closed }

def State.write (s : State) (k : ℕ) (data : List UInt8) : State :=
  { s with written := Function.update s.written k (s.written k ++ data) }

/-- `pump_pair_copy(&pp[k])`; no descriptor below 0 can be read. -/
def State.pumpPairCopy (s : State) (k : ℕ) (c : Copy) : State :=
  let rfd := (s.pp k).rfd
  let s' := { s with p := s.p.use rfd }
  if !s.p.fdIsset rfd c.stray .read then s'
  else
    match if rfd < 0 then none else c.read with
    | none | some [] => s'.pumpPairClose k
    | some data =>
      let (out, ok) := writeLoop data c.writes
      if ok then s'.write k out else (s'.write k out).pumpPairClose k

inductive Label where
  | select (rfds efds : List ℤ)
  | selectError
  | copy (c : Copy)
  | ready (stray : Bool)
  | status (rv : Status)
  deriving DecidableEq, Repr

/-- The arguments of `pump_loop`. -/
structure Loop where
  pp : ℕ → PumpPair
  pplen : ℕ
  exitStatusFd : ℤ

namespace Loop
variable (a : Loop)

/-- The sets of an iteration. -/
def prepare (p : Pump) (pp : ℕ → PumpPair) : Pump :=
  let p := (List.range a.pplen).foldl (fun p k => p.pumpAddPair (pp k)) p.pumpInit
  if 0 ≤ a.exitStatusFd then p.pumpAddFd a.exitStatusFd [.read, .except] else p

/-- The loop over the pairs, from the pair `k` on. -/
def copyFrom (k : ℕ) : Pc := if k < a.pplen then .copying k else .ready

/-- The second one, with the exits behind it. -/
def emptyFrom (rv : Status) (k : ℕ) : Pc :=
  if k < a.pplen then .emptying rv k
  else
    match rv with
    | .eof => .exited 255
    | .status code => .exited code
    | .short | .error => .aborted

def next (s : State) : Label → Option State
  | .select rfds efds =>
    match s.pc with
    | .top => some { s with p := (a.prepare s.p s.pp).pumpSelect rfds efds, pc := a.copyFrom 0 }
    | _ => none
  | .selectError =>
    match s.pc with
    | .top => some { s with p := a.prepare s.p s.pp, pc := .aborted }
    | _ => none
  | .copy c =>
    if c.read.any (bufSize < ·.length) then none
    else
      match s.pc with
      | .copying k => some { s.pumpPairCopy k c with pc := a.copyFrom (k + 1) }
      | .emptying rv k => some { s.pumpPairCopy k c with pc := a.emptyFrom rv (k + 1) }
      | _ => none
  | .ready stray =>
    match s.pc with
    | .ready =>
      let (p, rv) := s.p.pumpReady a.exitStatusFd [.read, .except] stray
      some { s with p, pc := if rv then .status else .top }
    | _ => none
  | .status rv =>
    match s.pc with
    | .status => some { s with pc := if rv = .error then .aborted else a.emptyFrom rv 0 }
    | _ => none

def Step (s : State) (l : Label) (s' : State) : Prop := a.next s l = some s'

def start : State := ⟨⟨0, [], [], [], []⟩, a.pp, .top, fun _ => []⟩

/-- All descriptors are in range at the start. -/
structure Ranged : Prop where
  pairs : ∀ k < a.pplen, InRange (a.pp k).rfd ∧ InRange (a.pp k).wfd
  exit : InRange a.exitStatusFd

end Loop

variable {a : Loop} {s s' : State} {l : Label}

/-- What a step can do. -/
inductive Moves (a : Loop) (s : State) : Label → State → Prop
  | select {rfds efds : List ℤ} : s.pc = .top → Moves a s (.select rfds efds)
      { s with p := (a.prepare s.p s.pp).pumpSelect rfds efds, pc := a.copyFrom 0 }
  | selectError : s.pc = .top →
      Moves a s .selectError { s with p := a.prepare s.p s.pp, pc := .aborted }
  | copy {c : Copy} {k : ℕ} : s.pc = .copying k → (∀ d, c.read = some d → d.length ≤ bufSize) →
      Moves a s (.copy c) { s.pumpPairCopy k c with pc := a.copyFrom (k + 1) }
  | empty {c : Copy} {rv : Status} {k : ℕ} : s.pc = .emptying rv k →
      (∀ d, c.read = some d → d.length ≤ bufSize) →
      Moves a s (.copy c) { s.pumpPairCopy k c with pc := a.emptyFrom rv (k + 1) }
  | ready {stray : Bool} : s.pc = .ready →
      Moves a s (.ready stray) { s with
        p := (s.p.pumpReady a.exitStatusFd [.read, .except] stray).1
        pc := if (s.p.pumpReady a.exitStatusFd [.read, .except] stray).2 then .status else .top }
  | status {rv : Status} : s.pc = .status →
      Moves a s (.status rv) { s with pc := if rv = .error then .aborted else a.emptyFrom rv 0 }

theorem Loop.Step.moves (h : a.Step s l s') : Moves a s l s' := by
  cases l with
  | select =>
    simp only [Loop.Step, Loop.next] at h
    split at h
    · cases h; exact .select ‹_›
    · cases h
  | selectError =>
    simp only [Loop.Step, Loop.next] at h
    split at h
    · cases h; exact .selectError ‹_›
    · cases h
  | copy c =>
    simp only [Loop.Step, Loop.next] at h
    split at h
    · cases h
    · rename_i hlong
      have hlen : ∀ d, c.read = some d → d.length ≤ bufSize := by
        intro d hd
        simpa [hd] using hlong
      split at h
      · cases h; exact .copy ‹_› hlen
      · cases h; exact .empty ‹_› hlen
      · cases h
  | ready =>
    simp only [Loop.Step, Loop.next] at h
    split at h
    · cases h; exact .ready ‹_›
    · cases h
  | status =>
    simp only [Loop.Step, Loop.next] at h
    split at h
    · cases h; exact .status ‹_›
    · cases h

/-! ## The descriptors in use -/

/-- All descriptors passed to `FD_SET` and `FD_ISSET` were in range. -/
def Safe (p : Pump) : Prop := ∀ fd ∈ p.used, InRange fd

theorem safe_use {p : Pump} {fd : ℤ} : (p.use fd).Safe ↔ p.Safe ∧ InRange fd := by
  simp [Safe, use, or_imp, forall_and]

theorem safe_fdSet {p : Pump} {fd : ℤ} (m : PumpMode) :
    (fdSet fd p m).Safe ↔ p.Safe ∧ InRange fd := by
  cases m <;> exact safe_use

theorem safe_foldl_fdSet {fd : ℤ} (hfd : InRange fd) (ms : List PumpMode) (p : Pump) :
    (ms.foldl (fdSet fd) p).Safe ↔ p.Safe := by
  induction ms generalizing p with
  | nil => rfl
  | cons m ms ih => rw [List.foldl_cons, ih, safe_fdSet, and_iff_left hfd]

/-- `pump_add_fd` takes no descriptor below 0. -/
theorem safe_pumpAddFd {p : Pump} {fd : ℤ} (h : fd < 0 ∨ InRange fd) (ms : List PumpMode) :
    (p.pumpAddFd fd ms).Safe ↔ p.Safe := by
  rw [pumpAddFd]
  split
  · rfl
  · exact safe_foldl_fdSet (h.resolve_left ‹_›) ms _

theorem safe_pumpAddPair {p : Pump} {pp : PumpPair} (h : pp.Ok) :
    (p.pumpAddPair pp).Safe ↔ p.Safe := by
  rw [pumpAddPair, safe_pumpAddFd h.wfd, safe_pumpAddFd h.rfd]

theorem safe_foldl_pumpAddPair {pp : ℕ → PumpPair} (ks : List ℕ) (p : Pump)
    (h : ∀ k ∈ ks, (pp k).Ok) :
    (ks.foldl (fun p k => p.pumpAddPair (pp k)) p).Safe ↔ p.Safe := by
  induction ks generalizing p with
  | nil => rfl
  | cons k ks ih =>
    rw [List.forall_mem_cons] at h
    rw [List.foldl_cons, ih _ h.2, safe_pumpAddPair h.1]

/-- The sets are filled without a descriptor that is out of range, whatever pairs
    are closed. -/
theorem safe_prepare {p : Pump} {pp : ℕ → PumpPair} (ha : a.Ranged)
    (h : ∀ k < a.pplen, (pp k).Ok) : (a.prepare p pp).Safe ↔ p.Safe := by
  have hpairs := safe_foldl_pumpAddPair (List.range a.pplen) p.pumpInit
    fun k hk => h k (List.mem_range.1 hk)
  rw [Loop.prepare, if_pos ha.exit.1, safe_pumpAddFd (.inr ha.exit)]
  exact hpairs

theorem safe_pumpReady {p : Pump} {fd : ℤ} (hfd : InRange fd) (ms : List PumpMode) (stray : Bool) :
    (p.pumpReady fd ms stray).1.Safe ↔ p.Safe := by
  show (ms.foldl (fun p _ => p.use fd) p).Safe ↔ p.Safe
  induction ms generalizing p with
  | nil => rfl
  | cons m ms ih => rw [List.foldl_cons, ih, safe_use, and_iff_left hfd]

/-! ## What a copy does -/

/-- A copy of the pair `k` reads. -/
def State.reads (s : State) (k : ℕ) (c : Copy) : Bool :=
  s.p.fdIsset (s.pp k).rfd c.stray .read && decide (0 ≤ (s.pp k).rfd)

/-- The ends of a copy. -/
inductive Copied (s : State) (k : ℕ) (c : Copy) : State → Prop
  | idle : s.reads k c = false → Copied s k c { s with p := s.p.use (s.pp k).rfd }
  /-- `FD_ISSET` says so of a pair that is closed -/
  | stray : s.reads k c = false → (s.pp k).rfd < 0 →
      Copied s k c (State.pumpPairClose { s with p := s.p.use (s.pp k).rfd } k)
  /-- `read` returns -1 or 0 -/
  | ended : s.reads k c = true → c.read = none ∨ c.read = some [] →
      Copied s k c (State.pumpPairClose { s with p := s.p.use (s.pp k).rfd } k)
  | moved {data : List UInt8} : s.reads k c = true → c.read = some data → data ≠ [] →
      (writeLoop data c.writes).2 = true →
      Copied s k c (State.write { s with p := s.p.use (s.pp k).rfd } k (writeLoop data c.writes).1)
  /-- `write` returns -1 or 0 -/
  | failed {data : List UInt8} : s.reads k c = true → c.read = some data → data ≠ [] →
      (writeLoop data c.writes).2 = false →
      Copied s k c
        ((State.write { s with p := s.p.use (s.pp k).rfd } k
          (writeLoop data c.writes).1).pumpPairClose k)

theorem copied_pumpPairCopy (s : State) (k : ℕ) (c : Copy) : Copied s k c (s.pumpPairCopy k c) := by
  rw [State.pumpPairCopy]
  by_cases hset : s.p.fdIsset (s.pp k).rfd c.stray .read = true
  · simp only [hset, Bool.not_true, Bool.false_eq_true, if_false]
    by_cases hrfd : (s.pp k).rfd < 0
    · simp only [hrfd, if_true]
      exact .stray (by simp [State.reads, Int.not_le.2 hrfd]) hrfd
    · have hreads : s.reads k c = true := by simp [State.reads, hset, Int.not_lt.1 hrfd]
      simp only [hrfd, if_false]
      rcases hread : c.read with _ | ⟨_ | ⟨b, bytes⟩⟩
      · exact .ended hreads (.inl hread)
      · exact .ended hreads (.inr hread)
      · by_cases hok : (writeLoop (b :: bytes) c.writes).2 = true
        · simp only [hok, if_true]
          exact .moved hreads hread (List.cons_ne_nil _ _) hok
        · simp only [hok]
          exact .failed hreads hread (List.cons_ne_nil _ _) (by simpa using hok)
  · simp only [hset, Bool.not_false, if_true]
    exact .idle (by simp [State.reads, hset])

/-- **A copy uses the descriptor of its pair**, be the pair open or not. -/
theorem pumpPairCopy_p (s : State) (k : ℕ) (c : Copy) :
    (s.pumpPairCopy k c).p = s.p.use (s.pp k).rfd := by
  have h := copied_pumpPairCopy s k c
  generalize s.pumpPairCopy k c = s' at h ⊢
  cases h <;> rfl

/-- A copy closes at most its pair. -/
theorem pumpPairCopy_pp (s : State) (k : ℕ) (c : Copy) (j : ℕ) :
    (s.pumpPairCopy k c).pp j = s.pp j ∨ j = k ∧ (s.pumpPairCopy k c).pp j = .closed := by
  have hclose : ∀ s : State, (s.pumpPairClose k).pp j = s.pp j ∨
      j = k ∧ (s.pumpPairClose k).pp j = .closed := by
    intro s
    rcases eq_or_ne j k with rfl | hj
    · exact .inr ⟨rfl, Function.update_self ..⟩
    · exact .inl (Function.update_of_ne hj ..)
  have h := copied_pumpPairCopy s k c
  generalize s.pumpPairCopy k c = s' at h ⊢
  cases h with
  | idle | moved => exact .inl rfl
  | stray | ended | failed => exact hclose _

theorem pumpPairCopy_written_of_ne (s : State) (k : ℕ) (c : Copy) {j : ℕ} (hj : j ≠ k) :
    (s.pumpPairCopy k c).written j = s.written j := by
  have h := copied_pumpPairCopy s k c
  generalize s.pumpPairCopy k c = s' at h ⊢
  cases h with
  | idle | stray | ended => rfl
  | moved => exact Function.update_of_ne hj ..
  | failed => exact Function.update_of_ne hj ..

/-! ## Runs -/

/-- What is known of the pairs: each is closed or has descriptors in range, and the
    loops stay within them. -/
structure Known (a : Loop) (s : State) : Prop where
  pairs : ∀ k < a.pplen, (s.pp k).Ok
  place : ∀ k ∈ s.pc.pair, k < a.pplen

theorem known_start (ha : a.Ranged) : Known a a.start where
  pairs k hk := .inr (ha.pairs k hk)
  place k hk := by cases hk

theorem place_copyFrom {k j : ℕ} (h : j ∈ (a.copyFrom k).pair) : j < a.pplen := by
  unfold Loop.copyFrom at h
  split at h
  · cases h; assumption
  · cases h

theorem place_emptyFrom {rv : Status} {k j : ℕ} (h : j ∈ (a.emptyFrom rv k).pair) :
    j < a.pplen := by
  unfold Loop.emptyFrom at h
  split at h
  · cases h; assumption
  · split at h <;> cases h

theorem Known.copy (h : Known a s) (k : ℕ) (c : Copy) {pc : Pc} (hpc : ∀ j ∈ pc.pair, j < a.pplen) :
    Known a { s.pumpPairCopy k c with pc } where
  pairs j hj := by
    rcases pumpPairCopy_pp s k c j with heq | ⟨-, heq⟩
    · show ((s.pumpPairCopy k c).pp j).Ok
      rw [heq]
      exact h.pairs j hj
    · exact .inl heq
  place := hpc

theorem known_step (h : Known a s) (hs : a.Step s l s') : Known a s' := by
  cases hs.moves with
  | select => exact ⟨h.pairs, fun _ => place_copyFrom⟩
  | selectError => exact ⟨h.pairs, fun _ hk => by cases hk⟩
  | copy => exact h.copy _ _ fun _ => place_copyFrom
  | empty => exact h.copy _ _ fun _ => place_emptyFrom
  | ready =>
    refine ⟨h.pairs, fun k hk => ?_⟩
    dsimp only at hk
    split at hk <;> cases hk
  | status =>
    refine ⟨h.pairs, fun k hk => ?_⟩
    dsimp only at hk
    split at hk
    · cases hk
    · exact place_emptyFrom hk

/-- A pair that is copied is open. -/
def CopiesOpen (s : State) (_ : Label) : Prop := ∀ k ∈ s.pc.pair, s.pp k ≠ .closed

instance (s : State) (l : Label) : Decidable (CopiesOpen s l) :=
  inferInstanceAs (Decidable (∀ k ∈ s.pc.pair, s.pp k ≠ .closed))

theorem safe_copy (h : Known a s) {k : ℕ} (hk : s.pc.pair = some k) (c : Copy) :
    (s.pumpPairCopy k c).p.Safe ↔ s.p.Safe ∧ CopiesOpen s l := by
  have hopen := (h.pairs k (h.place k hk)).open_iff
  rw [pumpPairCopy_p, safe_use, hopen]
  refine and_congr_right fun _ => ⟨fun hne j hj => ?_, fun hc => hc k hk⟩
  cases hk.symm.trans hj
  exact hne

/-- **A step stays in range** iff it is no copy of a closed pair. -/
theorem safe_step (ha : a.Ranged) (h : Known a s) (hs : a.Step s l s') :
    s'.p.Safe ↔ s.p.Safe ∧ CopiesOpen s l := by
  have hno : s.pc.pair = none → (s.p.Safe ∧ CopiesOpen s l ↔ s.p.Safe) := by
    intro hpc
    refine and_iff_left fun k hk => ?_
    rw [hpc] at hk
    cases hk
  cases hs.moves with
  | select hpc =>
    rw [hno (by rw [hpc]; rfl)]
    exact safe_prepare ha h.pairs
  | selectError hpc =>
    rw [hno (by rw [hpc]; rfl)]
    exact safe_prepare ha h.pairs
  | copy hpc => exact safe_copy h (by rw [hpc]; rfl) _
  | empty hpc => exact safe_copy h (by rw [hpc]; rfl) _
  | @ready stray hpc =>
    rw [hno (by rw [hpc]; rfl)]
    exact safe_pumpReady ha.exit _ stray
  | status hpc =>
    rw [hno (by rw [hpc]; rfl)]

/-- **The descriptors are in range** iff no pair is copied once it is closed. -/
theorem fds_in_range_iff (ha : a.Ranged) {ls : List Label} (h : Run a.Step a.start ls s) :
    (∀ fd ∈ s.p.used, InRange fd) ↔ Run (guarded CopiesOpen a.Step) a.start ls s :=
  h.guarded_iff (P := fun s => s.p.Safe) (known_start ha) (fun _ hfd => by cases hfd)
    (fun _ _ _ => known_step) (fun _ _ _ => safe_step ha)

/-- The call of `loop_noninteractive`, for some descriptors. -/
def noninteractive : Loop where
  pp k := [⟨0, 4⟩, ⟨5, 1⟩, ⟨6, 2⟩].getD k .closed
  pplen := 3
  exitStatusFd := 7

theorem noninteractive_ranged : noninteractive.Ranged := ⟨by decide, by decide⟩

/-- The command writes a byte and ends. -/
def oneByte : List Label :=
  [.select [5] [], .copy ⟨false, none, []⟩, .copy ⟨false, some [97], []⟩, .copy ⟨false, none, []⟩,
    .ready false, .select [7] [], .copy ⟨false, none, []⟩, .copy ⟨false, none, []⟩,
    .copy ⟨false, none, []⟩, .ready false, .status (.status 0), .copy ⟨false, none, []⟩,
    .copy ⟨false, none, []⟩, .copy ⟨false, none, []⟩]

theorem fds_in_range_one_byte :
    ∃ s, Run noninteractive.Step noninteractive.start oneByte s ∧ s.pc = .exited 0 ∧
      ∀ fd ∈ s.p.used, InRange fd := by
  have hrun : ∃ s, Run (guarded CopiesOpen noninteractive.Step) noninteractive.start oneByte s ∧
      s.pc = .exited 0 := exists_guarded_run (by decide +kernel)
  obtain ⟨s, hs, hpc⟩ := hrun
  have hrun : Run noninteractive.Step noninteractive.start oneByte s :=
    hs.mono fun _ _ _ => And.right
  exact ⟨s, hrun, hpc, (fds_in_range_iff noninteractive_ranged hrun).mpr hs⟩

/-- **The end of the input** closes its pair, and the next iteration uses -1. -/
theorem fd_used_after_end_of_input :
    noninteractive.Ranged ∧ ∃ s, Run noninteractive.Step noninteractive.start
      [.select [0] [], .copy ⟨false, some [], []⟩, .copy ⟨false, none, []⟩,
        .copy ⟨false, none, []⟩, .ready false, .select [5] [], .copy ⟨false, none, []⟩] s ∧
      -1 ∈ s.p.used ∧ ¬ InRange (-1) :=
  ⟨noninteractive_ranged, exists_run (by decide +kernel)⟩

end Pump

end WardenLinux
