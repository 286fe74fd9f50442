/-
  What `wsh` makes of the output of the command (`pump_loop` of wsh.c).

  The command writes to its output, closes it, and ends; what it has written stays
  in the kernel until the loop of `Pump` reads it.  `select` tells what is there,
  and a read returns some of it.

  After the `select` that tells of the exit status each pair is copied twice, with
  one read each time.  `Known` accounts for the output and says what is left when
  the status is read.

  `output_written_iff`: all output is written before `wsh` exits iff the last read
  of every pair returns all that the first one has left.
-/
import WardenLinux.Pump

namespace WardenLinux

open Transition

namespace Pump

/-! ## The command and the kernel -/

/-- The loop, with what the command has written to the pair `k` (`produced`), what
    of it is not yet read, whether that was the last of it, and how the command
    has ended: with a code, or by a signal. -/
structure System where
  loop : State
  produced : ℕ → List UInt8
  buffered : ℕ → List UInt8
  ended : ℕ → Bool
  exit : Option (Option ℤ)

inductive Event where
  | output (k : ℕ) (data : List UInt8)
  | close (k : ℕ)
  | exit (code : Option ℤ)
  | loop (l : Label)
  deriving DecidableEq, Repr

/-- The pairs behind the input. -/
def Loop.IsOutput (a : Loop) (k : ℕ) : Prop := k ≠ 0 ∧ k < a.pplen

instance (a : Loop) (k : ℕ) : Decidable (a.IsOutput k) := inferInstanceAs (Decidable (_ ∧ _))

/-- What is read from the pipe for the exit status: nothing, after a signal. -/
def exitStatus : Option ℤ → Status
  | none => .eof
  | some code => .status code

namespace System

/-- An output that has data or has ended. -/
def Readable (s : System) (k : ℕ) : Prop := s.buffered k ≠ [] ∨ s.ended k = true

instance (s : System) (k : ℕ) : Decidable (s.Readable k) := inferInstanceAs (Decidable (_ ∨ _))

/-- `select` tells of the outputs that can be read, and of the exit status. -/
def Tells (a : Loop) (s : System) (rfds efds : List ℤ) : Prop :=
  (∀ k < a.pplen, k ≠ 0 → s.loop.pp k ≠ .closed →
    ((s.loop.pp k).rfd ∈ rfds ↔ s.Readable k)) ∧
  (a.exitStatusFd ∈ rfds ↔ s.exit.isSome) ∧ (a.exitStatusFd ∈ efds → s.exit.isSome)

instance (a : Loop) (s : System) (rfds efds : List ℤ) : Decidable (s.Tells a rfds efds) :=
  inferInstanceAs (Decidable (_ ∧ _))

/-- A read returns some of the data, or that there will be none; writes succeed. -/
def Gives (s : System) (k : ℕ) (c : Copy) : Prop :=
  (match c.read with
  | none | some [] => s.buffered k = [] ∧ s.ended k = true
  | some data => data <+: s.buffered k) ∧ ∀ nw ∈ c.writes, 0 < nw

instance (s : System) (k : ℕ) (c : Copy) : Decidable (s.Gives k c) := by
  unfold Gives
  split <;> infer_instance

/-- The results that the kernel can give to a call of the loop. -/
def Admits (a : Loop) (s : System) : Label → Prop
  | .select rfds efds => s.Tells a rfds efds
  | .copy c => ∀ k ∈ s.loop.pc.pair, k ≠ 0 → s.loop.reads k c = true → s.Gives k c
  | .status rv => s.exit.map exitStatus = some rv
  | .selectError | .ready _ => True

instance (a : Loop) (s : System) (l : Label) : Decidable (s.Admits a l) := by
  unfold Admits
  split <;> infer_instance

/-- What is left in the kernel after a call. -/
def left (s : System) : Label → ℕ → List UInt8
  | .copy c =>
    match s.loop.pc.pair with
    | some k =>
      if s.loop.reads k c then
        Function.update s.buffered k ((s.buffered k).drop (c.read.getD []).length)
      else s.buffered
    | none => s.buffered
  | _ => s.buffered

def next (a : Loop) (s : System) : Event → Option System
  | .output k data =>
    if a.IsOutput k ∧ s.ended k = false ∧ s.exit = none then
      some { s with
        produced := Function.update s.produced k (s.produced k ++ data)
        buffered := Function.update s.buffered k (s.buffered k ++ data) }
    else none
  | .close k => some { s with ended := Function.update s.ended k true }
  | .exit code => if s.exit = none then some { s with exit := some code } else none
  | .loop l =>
    if s.Admits a l then
      (a.next s.loop l).map fun loop => { s with loop, buffered := s.left l }
    else none

def Step (a : Loop) (s : System) (e : Event) (s' : System) : Prop := s.next a e = some s'

def start (a : Loop) : System := ⟨a.start, fun _ => [], fun _ => [], fun _ => false, none⟩

variable {a : Loop} {s s' : System} {e : Event} {l : Label} {c : Copy} {k : ℕ}

/-- What an event can do. -/
inductive Happens (a : Loop) (s : System) : Event → System → Prop
  | output {k : ℕ} {data : List UInt8} : a.IsOutput k → s.ended k = false → s.exit = none →
      Happens a s (.output k data) { s with
        produced := Function.update s.produced k (s.produced k ++ data)
        buffered := Function.update s.buffered k (s.buffered k ++ data) }
  | close {k : ℕ} : Happens a s (.close k) { s with ended := Function.update s.ended k true }
  | exit {code : Option ℤ} : s.exit = none →
      Happens a s (.exit code) { s with exit := some code }
  | loop {l : Label} {loop : State} : s.Admits a l → a.Step s.loop l loop →
      Happens a s (.loop l) { s with loop, buffered := s.left l }

theorem Step.happens (h : s.Step a e s') : Happens a s e s' := by
  cases e with
  | output k data =>
    simp only [Step, next] at h
    split at h
    · rename_i hc; cases h; exact .output hc.1 hc.2.1 hc.2.2
    · cases h
  | close k => cases h; exact .close
  | exit code =>
    simp only [Step, next] at h
    split at h
    · cases h; exact .exit ‹_›
    · cases h
  | loop l =>
    simp only [Step, next] at h
    split at h
    · obtain ⟨loop, hl, rfl⟩ := Option.map_eq_some_iff.1 h
      exact .loop ‹_› hl
    · cases h

/-! ## Copies -/

/-- Writes that succeed write everything. -/
theorem writeLoop_positive (writes : List ℤ) (h : ∀ nw ∈ writes, 0 < nw) (data : List UInt8) :
    writeLoop data writes = (data, true) := by
  induction writes generalizing data with
  | nil => cases data <;> rfl
  | cons nw writes ih =>
    rw [List.forall_mem_cons] at h
    cases data with
    | nil => rfl
    | cons b bytes =>
      rw [writeLoop, if_neg (by omega), ih h.2]
      · simp only [List.take_append_drop]
      · exact List.cons_ne_nil _ _

/-- **An output that is copied**: what is read is written, and the pair is closed
    only when there is nothing more to read. -/
structure Passed (s : System) (k : ℕ) (c : Copy) : Prop where
  account : (s.loop.pumpPairCopy k c).written k ++ s.left (.copy c) k =
    s.loop.written k ++ s.buffered k
  closed : (s.loop.pumpPairCopy k c).pp k = .closed →
    (s.loop.pp k).rfd < 0 ∨ s.left (.copy c) k = [] ∧ s.ended k = true
  shorter : s.buffered k = [] → s.left (.copy c) k = []

theorem left_idle (hk : s.loop.pc.pair = some k) (h : s.loop.reads k c = false) :
    s.left (.copy c) = s.buffered := by
  simp [left, hk, h]

theorem left_read (hk : s.loop.pc.pair = some k) (h : s.loop.reads k c = true) :
    s.left (.copy c) k = (s.buffered k).drop (c.read.getD []).length := by
  simp [left, hk, h]

theorem left_of_ne (hk : s.loop.pc.pair = some k) {j : ℕ} (hj : j ≠ k) :
    s.left (.copy c) j = s.buffered j := by
  simp only [left, hk]
  split
  · exact Function.update_of_ne hj ..
  · rfl

theorem Gives.nothing (h : s.Gives k c) (hread : c.read = none ∨ c.read = some []) :
    s.buffered k = [] ∧ s.ended k = true := by
  obtain ⟨h, -⟩ := h
  rcases hread with hread | hread <;> rw [hread] at h <;> exact h

theorem Gives.some {data : List UInt8} (h : s.Gives k c) (hread : c.read = some data)
    (hne : data ≠ []) : data <+: s.buffered k := by
  obtain ⟨b, bytes, rfl⟩ := List.exists_cons_of_ne_nil hne
  obtain ⟨h, -⟩ := h
  rw [hread] at h
  exact h

theorem passed_copy (hk : s.loop.pc.pair = some k) (hk₀ : k ≠ 0) (h : s.Admits a (.copy c)) :
    s.Passed k c := by
  have hgives : s.loop.reads k c = true → s.Gives k c := h k hk hk₀
  have hcopied := copied_pumpPairCopy s.loop k c
  generalize hs : s.loop.pumpPairCopy k c = s₁ at hcopied
  cases hcopied with
  | idle hr =>
    have hleft := congrFun (left_idle hk hr) k
    refine ⟨by rw [hs, hleft], fun hcl => .inl ?_, hleft.trans⟩
    rw [hs] at hcl
    rw [show s.loop.pp k = .closed from hcl]
    decide
  | stray hr hrfd =>
    have hleft := congrFun (left_idle hk hr) k
    exact ⟨by rw [hs, hleft]; rfl, fun _ => .inl hrfd, hleft.trans⟩
  | ended hr hread =>
    obtain ⟨hbuf, hended⟩ := (hgives hr).nothing hread
    have hleft : s.left (.copy c) k = [] := by rw [left_read hk hr, hbuf, List.drop_nil]
    exact ⟨by rw [hs, hleft, hbuf]; rfl, fun _ => .inr ⟨hleft, hended⟩, fun _ => hleft⟩
  | @moved data hr hread hne =>
    obtain ⟨rest, hrest⟩ := (hgives hr).some hread hne
    have hleft : s.left (.copy c) k = rest := by
      rw [left_read hk hr, hread, ← hrest, Option.getD_some, List.drop_left' rfl]
    refine ⟨?_, fun hcl => .inl ?_, fun hbuf => ?_⟩
    · rw [hs, hleft, writeLoop_positive _ (hgives hr).2, ← hrest, ← List.append_assoc]
      exact congrArg (· ++ rest) (Function.update_self ..)
    · rw [hs] at hcl
      rw [show s.loop.pp k = .closed from hcl]
      decide
    · rw [hbuf] at hrest
      rw [hleft, (List.append_eq_nil_iff.1 hrest).2]
  | failed hr _ _ hw =>
    rw [writeLoop_positive _ (hgives hr).2] at hw
    cases hw

/-! ## Runs -/

/-- `select` has told of the exit status: all output is there, and an output that
    cannot be read has none. -/
structure Told (a : Loop) (s : System) : Prop where
  exit : s.exit.isSome
  empty : ∀ k, a.IsOutput k → s.loop.pp k ≠ .closed → (s.loop.pp k).rfd ∉ s.loop.p.rfds →
    s.buffered k = []

/-- What is known of the exit status at each place of the loop. -/
def ToldAt (a : Loop) (s : System) : Pc → Prop
  | .copying _ | .ready =>
    a.exitStatusFd ∈ s.loop.p.rfds ∨ a.exitStatusFd ∈ s.loop.p.efds → s.Told a
  | .status | .exited _ => s.Told a
  | .emptying rv _ => s.Told a ∧ ∃ code, rv = exitStatus code
  | .top | .aborted => True

structure Known (a : Loop) (s : System) : Prop where
  loop : Pump.Known a s.loop
  account : ∀ k, a.IsOutput k → s.produced k = s.loop.written k ++ s.buffered k
  closed : ∀ k, a.IsOutput k → s.loop.pp k = .closed → s.buffered k = [] ∧ s.ended k = true
  told : s.ToldAt a s.loop.pc

theorem known_start (ha : a.Ranged) : (start a).Known a where
  loop := Pump.known_start ha
  account _ _ := rfl
  closed k hk hcl := by
    have hok := (ha.pairs k hk.2).1
    rw [show a.pp k = .closed from hcl] at hok
    exact absurd hok (by decide)
  told := trivial

/-! ### The sets of an iteration -/

theorem rfds_foldl_fdSet {fd : ℤ} (ms : List PumpMode) (p : Pump) :
    p.rfds ⊆ (ms.foldl (fdSet fd) p).rfds := by
  induction ms generalizing p with
  | nil => exact fun _ => id
  | cons m ms ih =>
    refine List.Subset.trans ?_ (ih (fdSet fd p m))
    cases m with
    | read => exact List.subset_cons_self ..
    | write => exact fun _ => id
    | except => exact fun _ => id

theorem rfds_pumpAddFd (p : Pump) (fd : ℤ) (ms : List PumpMode) :
    p.rfds ⊆ (p.pumpAddFd fd ms).rfds := by
  rw [pumpAddFd]
  split
  · exact fun _ => id
  · exact rfds_foldl_fdSet ms { p with nfd := if fd > p.nfd then fd else p.nfd }

theorem rfds_pumpAddPair (p : Pump) (pp : PumpPair) : p.rfds ⊆ (p.pumpAddPair pp).rfds :=
  List.Subset.trans (rfds_pumpAddFd ..) (rfds_pumpAddFd ..)

theorem mem_rfds_pumpAddPair (p : Pump) {pp : PumpPair} (h : 0 ≤ pp.rfd) :
    pp.rfd ∈ (p.pumpAddPair pp).rfds := by
  refine rfds_pumpAddFd _ _ _ ?_
  rw [pumpAddFd, if_neg (Int.not_lt.2 h)]
  exact rfds_foldl_fdSet [.except] _ List.mem_cons_self

theorem rfds_foldl_pumpAddPair (pp : ℕ → PumpPair) (ks : List ℕ) (p : Pump) :
    p.rfds ⊆ (ks.foldl (fun p k => p.pumpAddPair (pp k)) p).rfds := by
  induction ks generalizing p with
  | nil => exact fun _ => id
  | cons k ks ih => exact List.Subset.trans (rfds_pumpAddPair p (pp k)) (ih _)

theorem mem_rfds_foldl {pp : ℕ → PumpPair} (hk : 0 ≤ (pp k).rfd) (ks : List ℕ) (p : Pump)
    (h : k ∈ ks) : (pp k).rfd ∈ (ks.foldl (fun p k => p.pumpAddPair (pp k)) p).rfds := by
  induction ks generalizing p with
  | nil => cases h
  | cons j ks ih =>
    rcases List.mem_cons.1 h with rfl | h
    · exact rfds_foldl_pumpAddPair pp ks _ (mem_rfds_pumpAddPair p hk)
    · exact ih _ h

/-- Every pair that is open is in the sets. -/
theorem mem_rfds_prepare {pp : ℕ → PumpPair} (p : Pump) (hk : k < a.pplen)
    (hrfd : 0 ≤ (pp k).rfd) : (pp k).rfd ∈ (a.prepare p pp).rfds := by
  have h := mem_rfds_foldl hrfd (List.range a.pplen) p.pumpInit (List.mem_range.2 hk)
  rw [Loop.prepare]
  split
  · exact rfds_pumpAddFd _ _ _ h
  · exact h

/-! ### Steps -/

theorem ToldAt.mono {pc : Pc} (h : s.ToldAt a pc) (hp : s'.loop.p.rfds = s.loop.p.rfds)
    (he : s'.loop.p.efds = s.loop.p.efds) (ht : s.Told a → s'.Told a) : s'.ToldAt a pc := by
  cases pc with
  | copying | ready =>
    simp only [ToldAt, hp, he] at h ⊢
    exact fun hfd => ht (h hfd)
  | status | exited => exact ht h
  | emptying => exact h.imp_left ht
  | top | aborted => trivial

theorem toldAt_copyFrom (h : s.ToldAt a .ready) (k : ℕ) : s.ToldAt a (a.copyFrom k) := by
  rw [Loop.copyFrom]
  split <;> exact h

theorem toldAt_emptyFrom (h : s.Told a) (code : Option ℤ) (k : ℕ) :
    s.ToldAt a (a.emptyFrom (exitStatus code) k) := by
  unfold Loop.emptyFrom
  split
  · exact ⟨h, code, rfl⟩
  · cases code <;> exact h

theorem Known.open_iff (h : s.Known a) (hk : k < a.pplen) :
    0 ≤ (s.loop.pp k).rfd ↔ s.loop.pp k ≠ .closed := by
  have hok := h.loop.pairs k hk
  rw [← hok.open_iff]
  exact ⟨fun h₀ => hok.rfd.resolve_left (Int.not_lt.2 h₀), And.left⟩

/-- What the copy of a pair leaves of what is known. -/
theorem Known.passed (h : s.Known a) (hk : s.loop.pc.pair = some k) (hadm : s.Admits a (.copy c))
    {j : ℕ} (hj : a.IsOutput j) :
    s.produced j = (s.loop.pumpPairCopy k c).written j ++ s.left (.copy c) j ∧
      ((s.loop.pumpPairCopy k c).pp j = .closed → s.left (.copy c) j = [] ∧ s.ended j = true) ∧
      (s.buffered j = [] → s.left (.copy c) j = []) := by
  rcases eq_or_ne j k with rfl | hne
  · have hpass := passed_copy hk hj.1 hadm
    refine ⟨(h.account j hj).trans hpass.account.symm, fun hcl => ?_, hpass.shorter⟩
    rcases hpass.closed hcl with hrfd | hleft
    · have hcl : s.loop.pp j = .closed :=
        Classical.not_not.1 fun hne => Int.not_lt.2 ((h.open_iff hj.2).2 hne) hrfd
      obtain ⟨hbuf, hended⟩ := h.closed j hj hcl
      exact ⟨hpass.shorter hbuf, hended⟩
    · exact hleft
  · rw [left_of_ne hk hne]
    refine ⟨?_, fun hcl => h.closed j hj ?_, id⟩
    · rw [pumpPairCopy_written_of_ne _ _ _ hne]
      exact h.account j hj
    · rcases pumpPairCopy_pp s.loop k c j with heq | ⟨heq, -⟩
      · exact heq ▸ hcl
      · exact absurd heq hne

theorem Known.copy (h : s.Known a) (hk : s.loop.pc.pair = some k) (hadm : s.Admits a (.copy c))
    {pc : Pc} (hloop : Pump.Known a { s.loop.pumpPairCopy k c with pc })
    (htold : ∀ s' : System, s'.loop.p.rfds = s.loop.p.rfds → s'.loop.p.efds = s.loop.p.efds →
      (s.Told a → s'.Told a) → s'.ToldAt a pc) :
    Known a { s with
      loop := { s.loop.pumpPairCopy k c with pc }, buffered := s.left (.copy c) } where
  loop := hloop
  account j hj := (h.passed hk hadm hj).1
  closed j hj hcl := (h.passed hk hadm hj).2.1 hcl
  told := by
    have hp := pumpPairCopy_p s.loop k c
    have hrfds : (s.loop.pumpPairCopy k c).p.rfds = s.loop.p.rfds := by rw [hp]; rfl
    have hefds : (s.loop.pumpPairCopy k c).p.efds = s.loop.p.efds := by rw [hp]; rfl
    refine htold _ hrfds hefds fun ht => ⟨ht.exit, ?_⟩
    intro j hj hopen hrfd
    refine (h.passed hk hadm hj).2.2 (ht.empty j hj ?_ ?_)
    · intro hcl
      rcases pumpPairCopy_pp s.loop k c j with heq | ⟨-, heq⟩
      · exact hopen (heq.trans hcl)
      · exact hopen heq
    · rcases pumpPairCopy_pp s.loop k c j with heq | ⟨-, heq⟩
      · have hr : ((s.loop.pumpPairCopy k c).pp j).rfd ∉ (s.loop.pumpPairCopy k c).p.rfds := hrfd
        rwa [heq, hrfds] at hr
      · exact absurd heq hopen

theorem Known.output (h : s.Known a) {data : List UInt8} (hended : s.ended k = false)
    (hexit : s.exit = none) :
    Known a { s with
      produced := Function.update s.produced k (s.produced k ++ data)
      buffered := Function.update s.buffered k (s.buffered k ++ data) } where
  loop := h.loop
  account j hj := by
    rcases eq_or_ne j k with rfl | hne
    · simp only [Function.update_self, h.account j hj, List.append_assoc]
    · simp only [Function.update_of_ne hne]
      exact h.account j hj
  closed j hj hcl := by
    obtain ⟨hbuf, hend⟩ := h.closed j hj hcl
    rcases eq_or_ne j k with rfl | hne
    · rw [hended] at hend
      cases hend
    · simp only [Function.update_of_ne hne]
      exact ⟨hbuf, hend⟩
  told := h.told.mono rfl rfl fun ht => by
    have := ht.exit
    rw [hexit] at this
    cases this

theorem told_select (h : s.Known a) {rfds efds : List ℤ} (htells : s.Tells a rfds efds) :
    let s' := { s with loop := { s.loop with
      p := (a.prepare s.loop.p s.loop.pp).pumpSelect rfds efds, pc := a.copyFrom 0 } }
    s'.ToldAt a .ready := by
  obtain ⟨houts, hstatus, hexcept⟩ := htells
  intro s' hfd
  have hexit : s.exit.isSome := by
    rcases hfd with hfd | hfd
    · exact hstatus.1 (of_decide_eq_true (List.mem_filter.1 hfd).2)
    · exact hexcept (of_decide_eq_true (List.mem_filter.1 hfd).2)
  refine ⟨hexit, fun k hk hopen hrfd => ?_⟩
  -- the descriptor was in the set that `select` was given
  have hset : (s.loop.pp k).rfd ∈ _ :=
    mem_rfds_prepare s.loop.p hk.2 ((h.open_iff hk.2).2 hopen)
  have hout : (s.loop.pp k).rfd ∉ rfds := fun hmem =>
    hrfd (List.mem_filter.2 ⟨hset, decide_eq_true hmem⟩)
  have hread := mt (houts k hk.2 hk.1 hopen).2 hout
  exact Classical.not_not.1 fun hne => hread (.inl hne)

theorem pumpReady_iff {p : Pump} {fd : ℤ} (hfd : InRange fd) (stray : Bool) :
    (p.pumpReady fd [.read, .except] stray).2 = true ↔ fd ∈ p.rfds ∨ fd ∈ p.efds := by
  simp only [pumpReady, fdIsset, hfd, fds, List.any_cons, List.any_nil, Bool.or_false, if_true,
    Bool.or_eq_true]
  exact or_congr decide_eq_true_iff decide_eq_true_iff

/-- **What is known is kept.** -/
theorem known_step (ha : a.Ranged) (h : s.Known a) (hs : s.Step a e s') : s'.Known a := by
  cases hs.happens with
  | output hk hended hexit => exact h.output hended hexit
  | close =>
    refine ⟨h.loop, h.account, fun j hj hcl => ?_, h.told.mono rfl rfl fun ht => ⟨ht.1, ht.2⟩⟩
    obtain ⟨hbuf, hend⟩ := h.closed j hj hcl
    refine ⟨hbuf, ?_⟩
    simp only [Function.update_apply, hend, ite_self]
  | exit => exact ⟨h.loop, h.account, h.closed, h.told.mono rfl rfl fun ht => ⟨rfl, ht.2⟩⟩
  | loop hadm hl =>
    have hloop := Pump.known_step h.loop hl
    have htold := h.told
    cases hl.moves with
    | select => exact ⟨hloop, h.account, h.closed, toldAt_copyFrom (told_select h hadm) 0⟩
    | selectError => exact ⟨hloop, h.account, h.closed, trivial⟩
    | copy hpc =>
      rw [hpc] at htold
      refine h.copy (by rw [hpc]; rfl) hadm hloop fun s' hp he ht => ?_
      exact toldAt_copyFrom (htold.mono hp he ht) _
    | empty hpc =>
      rw [hpc] at htold
      obtain ⟨ht, code, rfl⟩ := htold
      exact h.copy (by rw [hpc]; rfl) hadm hloop fun s' _ _ hs => toldAt_emptyFrom (hs ht) code _
    | @ready stray hpc =>
      rw [hpc] at htold
      refine ⟨hloop, h.account, h.closed, ?_⟩
      show ToldAt a _ (if _ then _ else _)
      split
      · have ht := htold ((pumpReady_iff ha.exit stray).1 ‹_›)
        exact ⟨ht.1, ht.2⟩
      · trivial
    | status hpc =>
      rw [hpc] at htold
      refine ⟨hloop, h.account, h.closed, ?_⟩
      obtain ⟨code, -, rfl⟩ := Option.map_eq_some_iff.1 hadm
      have hne : exitStatus code ≠ .error := by cases code <;> exact Status.noConfusion
      show ToldAt a _ (if exitStatus code = .error then _ else _)
      rw [if_neg hne]
      exact (toldAt_emptyFrom htold code 0).mono rfl rfl fun ht => ⟨ht.1, ht.2⟩

/-! ## Output that is lost -/

/-- A copy after the exit status reads all that is left of its output. -/
def ReadsRest (s : System) : Event → Prop
  | .loop (.copy c) =>
    match s.loop.pc with
    | .emptying _ k => k ≠ 0 → s.buffered k = [] ∨ c.read = some (s.buffered k)
    | _ => True
  | _ => True

instance (s : System) (e : Event) : Decidable (s.ReadsRest e) := by
  unfold ReadsRest
  split
  · split <;> infer_instance
  · infer_instance

/-- The last copy of the pair `k` has been made. -/
def Past (k : ℕ) : Pc → Prop
  | .emptying _ j => k < j
  | .exited _ => True
  | _ => False

/-- The outputs whose last copy has been made are empty. -/
def Emptied (a : Loop) (s : System) : Prop :=
  ∀ k, a.IsOutput k → Past k s.loop.pc → s.buffered k = []

theorem not_past_copyFrom (j k : ℕ) : ¬ Past j (a.copyFrom k) := by
  rw [Loop.copyFrom]
  split <;> exact id

theorem past_emptyFrom {j : ℕ} (hj : a.IsOutput j) (code : Option ℤ) (k : ℕ) :
    Past j (a.emptyFrom (exitStatus code) k) ↔ j < k := by
  unfold Loop.emptyFrom
  split
  · rfl
  · rename_i hk
    refine iff_of_true ?_ (Nat.lt_of_lt_of_le hj.2 (Nat.not_lt.1 hk))
    cases code <;> trivial

theorem Known.told_of_past (h : s.Known a) (hp : Past k s.loop.pc) : s.Told a := by
  have ht := h.told
  cases hpc : s.loop.pc with
  | emptying => rw [hpc] at ht; exact ht.1
  | exited => rw [hpc] at ht; exact ht
  | top | copying | ready | status | aborted => rw [hpc] at hp; exact hp.elim

/-- An output that is not read has nothing left. -/
theorem Known.empty_of_idle (h : s.Known a) (ht : s.Told a) (hk : a.IsOutput k)
    (hr : s.loop.reads k c = false) : s.buffered k = [] := by
  by_cases hcl : s.loop.pp k = .closed
  · exact (h.closed k hk hcl).1
  · have hok := (h.loop.pairs k hk.2).open_iff.2 hcl
    refine ht.empty k hk hcl fun hmem => ?_
    have hset : decide ((s.loop.pp k).rfd ∈ s.loop.p.fds .read) = true := decide_eq_true hmem
    rw [State.reads, fdIsset, if_pos hok, hset, decide_eq_true hok.1] at hr
    cases hr

/-- **The last copy** empties an output iff it reads all that is left. -/
theorem Known.left_eq_nil_iff (h : s.Known a) {rv : Status}
    (hpc : s.loop.pc = .emptying rv k) (hk : a.IsOutput k) (hadm : s.Admits a (.copy c)) :
    s.left (.copy c) k = [] ↔ s.buffered k = [] ∨ c.read = some (s.buffered k) := by
  have hpair : s.loop.pc.pair = some k := by rw [hpc]; rfl
  have ht : s.Told a := by
    have := h.told
    rw [hpc] at this
    exact this.1
  rcases hr : s.loop.reads k c with _ | _
  · rw [left_idle hpair hr]
    have hbuf := h.empty_of_idle ht hk hr
    exact iff_of_true hbuf (.inl hbuf)
  · have hgives := hadm k hpair hk.1 hr
    rw [left_read hpair hr]
    rcases hread : c.read with _ | data
    · have hbuf := (hgives.nothing (.inl hread)).1
      exact iff_of_true (by rw [hbuf, List.drop_nil]) (.inl hbuf)
    · by_cases hne : data = []
      · have hbuf := (hgives.nothing (.inr (hne ▸ hread))).1
        exact iff_of_true (by rw [hbuf, List.drop_nil]) (.inl hbuf)
      · obtain ⟨rest, hrest⟩ := hgives.some hread hne
        rw [← hrest, Option.getD_some, List.drop_left' rfl]
        constructor
        · rintro rfl
          exact .inr (by rw [List.append_nil])
        · rintro (hnil | heq)
          · exact (List.append_eq_nil_iff.1 hnil).2
          · exact List.self_eq_append_right.1 (Option.some.inj heq)

theorem emptied_empty (h : s.Known a) {rv : Status}
    (hpc : s.loop.pc = .emptying rv k) (hadm : s.Admits a (.copy c)) :
    Emptied a { s with
      loop := { s.loop.pumpPairCopy k c with pc := a.emptyFrom rv (k + 1) }
      buffered := s.left (.copy c) } ↔ Emptied a s ∧ s.ReadsRest (.loop (.copy c)) := by
  have hpair : s.loop.pc.pair = some k := by rw [hpc]; rfl
  have hlt : k < a.pplen := h.loop.place k hpair
  obtain ⟨code, rfl⟩ : ∃ code, rv = exitStatus code := by
    have := h.told
    rw [hpc] at this
    exact this.2
  have hrest : s.ReadsRest (.loop (.copy c)) ↔
      (k ≠ 0 → s.buffered k = [] ∨ c.read = some (s.buffered k)) := by
    simp only [ReadsRest, hpc]
  have hlast := fun h₀ : k ≠ 0 => h.left_eq_nil_iff hpc ⟨h₀, hlt⟩ hadm
  rw [hrest]
  constructor
  · intro hall
    have hall : ∀ j, a.IsOutput j → j < k + 1 → s.left (.copy c) j = [] := fun j hj hjk =>
      hall j hj ((past_emptyFrom hj code (k + 1)).2 hjk)
    refine ⟨fun j hj hp => ?_, fun h₀ => (hlast h₀).1 (hall k ⟨h₀, hlt⟩ (Nat.lt_succ_self k))⟩
    rw [hpc] at hp
    have hjk : j < k := hp
    exact left_of_ne hpair (Nat.ne_of_lt hjk) ▸ hall j hj (Nat.lt_succ_of_lt hjk)
  · rintro ⟨hall, hk⟩ j hj hp
    rcases Nat.lt_succ_iff_lt_or_eq.1 ((past_emptyFrom hj code (k + 1)).1 hp) with hjk | rfl
    · show s.left (.copy c) j = []
      rw [left_of_ne hpair (Nat.ne_of_lt hjk)]
      exact hall j hj (by rw [hpc]; exact hjk)
    · exact (hlast hj.1).2 (hk hj.1)

/-- A step that is no copy after the exit status loses nothing. -/
theorem emptied_other (hpc : ∀ j, ¬ Past j s.loop.pc)
    (hpc' : ∀ j, a.IsOutput j → ¬ Past j s'.loop.pc) (hrest : s.ReadsRest e) :
    Emptied a s' ↔ Emptied a s ∧ s.ReadsRest e :=
  iff_of_true (fun j hj hp => absurd hp (hpc' j hj)) ⟨fun j _ hp => absurd hp (hpc j), hrest⟩

theorem emptied_step (h : s.Known a) (hs : s.Step a e s') :
    Emptied a s' ↔ Emptied a s ∧ s.ReadsRest e := by
  cases hs.happens with
  | output hk hended hexit =>
    have hno : ∀ j, ¬ Past j s.loop.pc := by
      intro j hp
      have := (h.told_of_past hp).exit
      rw [hexit] at this
      cases this
    exact emptied_other hno (fun j _ => hno j) trivial
  | close => exact (and_iff_left trivial).symm
  | exit => exact (and_iff_left trivial).symm
  | loop hadm hl =>
    cases hl.moves with
    | select hpc =>
      exact emptied_other (by rw [hpc]; exact fun _ => id) (fun j _ => not_past_copyFrom j 0)
        trivial
    | selectError hpc =>
      exact emptied_other (by rw [hpc]; exact fun _ => id) (fun _ _ => id) trivial
    | copy hpc =>
      refine emptied_other (by rw [hpc]; exact fun _ => id) (fun j _ => not_past_copyFrom j _) ?_
      simp only [ReadsRest, hpc]
    | empty hpc => exact emptied_empty h hpc hadm
    | ready hpc =>
      refine emptied_other (by rw [hpc]; exact fun _ => id) (fun j _ => ?_) trivial
      show ¬ Past j (if _ then _ else _)
      split <;> exact id
    | status hpc =>
      refine emptied_other (by rw [hpc]; exact fun _ => id) (fun j hj => ?_) trivial
      obtain ⟨code, -, rfl⟩ := Option.map_eq_some_iff.1 hadm
      show ¬ Past j (if _ then _ else _)
      split
      · exact id
      · rw [past_emptyFrom hj code 0]
        exact Nat.not_lt_zero j

/-- **All output is written** before `wsh` exits iff every last copy reads what is
    left of its output. -/
theorem output_written_iff (ha : a.Ranged) {es : List Event} (h : Run (Step a) (start a) es s)
    {code : ℤ} (hexit : s.loop.pc = .exited code) :
    (∀ k, a.IsOutput k → s.loop.written k = s.produced k) ↔
      Run (guarded ReadsRest (Step a)) (start a) es s := by
  have hknown : s.Known a := h.invariant (known_start ha) fun _ _ _ => known_step ha
  rw [← h.guarded_iff (P := Emptied a) (known_start ha) (fun _ _ hp => hp.elim)
    (fun _ _ _ => known_step ha) (fun _ _ _ => emptied_step)]
  refine forall_congr' fun k => imp_congr_right fun hk => ?_
  rw [hknown.account k hk, List.self_eq_append_right, hexit]
  exact ⟨fun h _ => h, fun h => h trivial⟩

/-- The command writes three bytes and ends; they are read as `r₁`, `r₂`. -/
def threeBytes (r₁ r₂ : List UInt8) : List Event :=
  [.output 1 [97, 98, 99], .exit (some 0), .loop (.select [5, 7] []),
    .loop (.copy ⟨false, none, []⟩), .loop (.copy ⟨false, some r₁, []⟩),
    .loop (.copy ⟨false, none, []⟩), .loop (.ready false), .loop (.status (.status 0)),
    .loop (.copy ⟨false, none, []⟩), .loop (.copy ⟨false, some r₂, []⟩),
    .loop (.copy ⟨false, none, []⟩)]

theorem three_bytes_written :
    ∃ s, Run (Step noninteractive) (start noninteractive) (threeBytes [97] [98, 99]) s ∧
      s.loop.pc = .exited 0 ∧ ∀ k, noninteractive.IsOutput k → s.loop.written k = s.produced k := by
  have hrun : ∃ s, Run (guarded ReadsRest (Step noninteractive)) (start noninteractive)
      (threeBytes [97] [98, 99]) s ∧ s.loop.pc = .exited 0 := exists_guarded_run (by decide +kernel)
  obtain ⟨s, hs, hpc⟩ := hrun
  have hrun : Run (Step noninteractive) (start noninteractive) (threeBytes [97] [98, 99]) s :=
    hs.mono fun _ _ _ => And.right
  exact ⟨s, hrun, hpc, (output_written_iff noninteractive_ranged hrun hpc).mpr hs⟩

/-- **Two reads of a byte each** leave the third behind. -/
theorem third_byte_lost :
    noninteractive.Ranged ∧
      ∃ s, Run (Step noninteractive) (start noninteractive) (threeBytes [97] [98]) s ∧
        s.loop.pc = .exited 0 ∧ noninteractive.IsOutput 1 ∧ s.produced 1 = [97, 98, 99] ∧
        s.loop.written 1 = [97, 98] :=
  ⟨noninteractive_ranged, exists_run (by decide +kernel)⟩

end System

end Pump

end WardenLinux
