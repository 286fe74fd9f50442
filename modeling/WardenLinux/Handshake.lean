/-
  How the init process of a container is started: the handshake of `wshd`
  (wshd.c, barrier.c).

  The parent sets up two barriers, clones the child and prepares the container
  from the outside.  The child waits at the first barrier, prepares the container
  from the inside, executes itself in it and signals the second barrier, at which
  the parent waits.  A barrier is a pipe: each party closes the end that it does
  not use, so that it sees when the other one is gone.

  The hooks are scripts that leave no process behind.  `run` takes a script that
  was killed by a signal, or could not be executed (its process aborts), for one that
  has succeeded, since `WEXITSTATUS` is 0 then (`Exit.wexitstatus`).

  * `start_in_order`: whatever fails and whoever is killed, the calls of both
    parties are made in one order, and when the parent returns all are made.
  * `start_ends`: every run ends, and neither party is left waiting.
  * `start_agrees`: when nobody is killed, both parties come through or none.
-/
import WardenLinux.Lib.Pipes

namespace WardenLinux.Handshake

open Pipes Transition

/-! ## The programs -/

inductive Party where
  | parent
  | child
  deriving DecidableEq, Repr

instance : Fintype Party := ⟨{.parent, .child}, fun i => by cases i <;> decide⟩

/-- `barrier_parent` and `barrier_child`: who signals. -/
inductive Barrier where
  | parent
  | child
  deriving DecidableEq, Repr

instance : Fintype Barrier := ⟨{.parent, .child}, fun bar => by cases bar <;> decide⟩

/-- The calls that end the process when they fail. -/
inductive Call where
  | unListen
  | unshare
  | hookParentBeforeClone
  | setenvPid
  | hookParentAfterClone
  | hookChildBeforePivot
  | chdirRoot
  | mkdirHost
  | pivotRoot
  | chdirSlash
  | hookChildAfterPivot
  | saveToShm
  | exec
  | loadFromShm
  | mixCloexec
  | setproctitle
  | umountHost
  | setsid
  deriving DecidableEq, Repr

abbrev Code := List (Instr Party Barrier Call)

def barrierOpen (bar : Barrier) : Code := [.pipe bar]

def barrierWait (bar : Barrier) : Code :=
  [.close (.writing bar), .read bar, .close (.reading bar)]

def barrierSignal (bar : Barrier) : Code :=
  [.close (.reading bar), .write bar, .close (.writing bar)]

def parentRun : Code :=
  [.call .unListen] ++ barrierOpen .parent ++ barrierOpen .child ++
  [.call .unshare, .run .hookParentBeforeClone, .clone .child, .call .setenvPid,
    .run .hookParentAfterClone] ++
  barrierSignal .parent ++ barrierWait .child

def childRun : Code :=
  barrierWait .parent ++
  [.run .hookChildBeforePivot, .call .chdirRoot, .call .mkdirHost, .call .pivotRoot,
    .call .chdirSlash, .run .hookChildAfterPivot, .call .saveToShm, .call .exec]

/-- What is executed, up to the loop. -/
def childContinue : Code :=
  [.call .loadFromShm, .call .mixCloexec, .call .setproctitle, .call .umountHost, .call .setsid] ++
  barrierSignal .child

def prog : Party → Code
  | .parent => parentRun
  | .child => childRun ++ childContinue

abbrev State := System Party Barrier Call

/-- A run of `wshd`, from the parent alone. -/
abbrev Runs (es : List (Event Party)) (s : State) : Prop :=
  Run (fun s e s' => step prog s e = some s') (start .parent) es s

/-- A party has come to the end of its program: the parent returns, the child is
    in its loop. -/
def Through (s : State) (i : Party) : Prop :=
  ∃ p, s.procs i = some p ∧ p.alive = true ∧ p.pc = (prog i).length

def Dead (s : State) (i : Party) : Prop := ∃ p, s.procs i = some p ∧ p.alive = false

instance (s : State) (i : Party) : Decidable (Through s i) :=
  decidable_of_iff (((s.procs i).any fun p => p.alive && decide (p.pc = (prog i).length)) = true) <| by
    rw [Option.any_eq_true]
    simp [Through]

instance (s : State) (i : Party) : Decidable (Dead s i) :=
  decidable_of_iff (((s.procs i).any fun p => !p.alive) = true) <| by
    rw [Option.any_eq_true]
    simp [Dead]

variable {s s' : State} {es : List (Event Party)} {e : Event Party} {p : Proc Barrier} {n : ℕ}

/-! ## The places -/

/-- The child inherits all ends. -/
def inherited : Party → List (End Barrier)
  | .parent => []
  | .child => [.reading .child, .writing .child, .reading .parent, .writing .parent]

theorem inherits : Inherits prog inherited := by
  intro i n j hx
  obtain ⟨hn, -⟩ := List.getElem?_eq_some_iff.1 hx
  cases i with
  | parent =>
    have key : ∀ n < (prog .parent).length, ∀ j, (prog .parent)[n]? = some (.clone j) →
      inherited j = held prog inherited .parent n := by decide
    exact key n hn j hx
  | child =>
    have key : ∀ n < (prog .child).length, ∀ j, (prog .child)[n]? ≠ some (.clone j) := by decide
    exact absurd hx (key n hn j)

theorem mem_past (i : Party) {x : Instr Party Barrier Call} (hx : x ∈ past prog s i) : x ∈ prog i :=
  (past_isPrefix prog s i).subset hx

/-- Who is past the first barrier. -/
theorem parent_signalled (h : Runs es s) (hr : .read .parent ∈ past prog s .child) :
    .write .parent ∈ past prog s .parent := by
  obtain ⟨j, hw⟩ := exists_write h hr
  cases j with
  | parent => exact hw
  | child => exact absurd (mem_past _ hw) (by decide)

/-- Who is past the second one. -/
theorem child_signalled (h : Runs es s) (hr : .read .child ∈ past prog s .parent) :
    .write .child ∈ past prog s .child := by
  obtain ⟨j, hw⟩ := exists_write h hr
  cases j with
  | parent => exact absurd (mem_past _ hw) (by decide)
  | child => exact hw

/-! ## The order of the calls -/

/-- The calls of a party, from the instructions it has passed. -/
def calls (i : Party) (code : Code) : List (Party × Call) := code.flatMap (entry i)

/-- What is done to start a container. -/
def startup : List (Party × Call) := calls .parent (prog .parent) ++ calls .child (prog .child)

theorem calls_concat (i : Party) (l : Code) (x : Instr Party Barrier Call) :
    calls i (l ++ [x]) = calls i l ++ entry i x := by
  rw [calls, List.flatMap_append, List.flatMap_singleton]
  rfl

theorem calls_prefix {i : Party} {l l' : Code} (h : l <+: l') : calls i l <+: calls i l' := by
  obtain ⟨t, rfl⟩ := h
  exact ⟨calls i t, by rw [calls, calls, calls, List.flatMap_append]⟩

/-- The parent makes its calls before its signal. -/
theorem calls_of_signal (h : .write .parent ∈ past prog s .parent) :
    calls .parent (past prog s .parent) = calls .parent (prog .parent) := by
  have key : ∀ n ≤ (prog .parent).length, .write .parent ∈ (prog .parent).take n →
    calls .parent ((prog .parent).take n) = calls .parent (prog .parent) := by decide
  have hlen := (past_isPrefix prog s .parent).length_le
  rw [List.prefix_iff_eq_take.1 (past_isPrefix prog s .parent)] at h ⊢
  exact key _ hlen h

theorem calls_of_child_signal (h : .write .child ∈ past prog s .child) :
    calls .child (past prog s .child) = calls .child (prog .child) := by
  have key : ∀ n ≤ (prog .child).length, .write .child ∈ (prog .child).take n →
    calls .child ((prog .child).take n) = calls .child (prog .child) := by decide
  have hlen := (past_isPrefix prog s .child).length_le
  rw [List.prefix_iff_eq_take.1 (past_isPrefix prog s .child)] at h ⊢
  exact key _ hlen h

/-- The child makes its calls after the signal of the parent. -/
theorem read_of_calls (h : calls .child (past prog s .child) ≠ []) :
    .read .parent ∈ past prog s .child := by
  have key : ∀ n ≤ (prog .child).length, calls .child ((prog .child).take n) ≠ [] →
    .read .parent ∈ (prog .child).take n := by decide
  have hlen := (past_isPrefix prog s .child).length_le
  rw [List.prefix_iff_eq_take.1 (past_isPrefix prog s .child)] at h ⊢
  exact key _ hlen h

/-- The log is what the parent has done, and then what the child has done. -/
theorem log_eq (h : Runs es s) :
    s.log = calls .parent (past prog s .parent) ++ calls .child (past prog s .child) := by
  induction h with
  | nil => rw [past_start]; rfl
  | @snoc es e s s' hr hs ih =>
    obtain ⟨hpast, -, hlog⟩ | ⟨i, x, n, hn, hx, hpast, -, hlog, -⟩ := step_past hs
    · rw [hlog, hpast, ih]
    · rw [hlog, ih, hpast]
      cases i with
      | child =>
        rw [Function.update_self, Function.update_of_ne (by decide), calls_concat,
          List.append_assoc]
      | parent =>
        rw [Function.update_self, Function.update_of_ne (by decide), calls_concat]
        by_cases hc : calls .child (past prog s .child) = []
        · rw [hc, List.append_nil, List.append_nil]
        · -- the child goes on only after the signal, and then the parent has no calls left
          have hw := parent_signalled hr (read_of_calls hc)
          have key : ∀ n < (prog .parent).length, .write .parent ∈ (prog .parent).take n →
            ∀ x, (prog .parent)[n]? = some x → entry .parent x = [] := by decide
          rw [hn] at hw
          rw [key n (List.getElem?_eq_some_iff.1 hx).1 hw x hx, List.append_nil, List.append_nil]

/-! ## Waiting -/

/-- Who is through holds nothing. -/
theorem held_through (i : Party) : held prog inherited i (prog i).length = [] := by
  cases i <;> decide

/-- The parent waits without a write end. -/
theorem parent_waits {q : Barrier} (hx : (prog .parent)[n]? = some (.read q)) (q' : Barrier) :
    .writing q' ∉ held prog inherited .parent n := by
  have key : ∀ n < (prog .parent).length, ∀ q, (prog .parent)[n]? = some (.read q) →
    ∀ q', .writing q' ∉ held prog inherited .parent n := by decide
  exact key n (List.getElem?_eq_some_iff.1 hx).1 q hx q'

/-- The child waits for the parent, without the write end of the barrier. -/
theorem child_waits {q : Barrier} (hx : (prog .child)[n]? = some (.read q)) :
    q = .parent ∧ .writing .parent ∉ held prog inherited .child n := by
  have hn := (List.getElem?_eq_some_iff.1 hx).1
  have key : ∀ n < (prog .child).length, (prog .child)[n]? ≠ some (.read .child) := by decide
  have key' : ∀ n < (prog .child).length, (prog .child)[n]? = some (.read .parent) →
    .writing .parent ∉ held prog inherited .child n := by decide
  cases q with
  | parent => exact ⟨rfl, key' n hn hx⟩
  | child => exact absurd hx (key n hn)

/-- The parent, when nothing goes on, holds no write end. -/
theorem parent_lets_go (hk : Kept prog inherited s) (hs : Stuck prog s)
    (hp : s.procs .parent = some p) (q : Barrier) (ha : p.alive = true) :
    .writing q ∉ held prog inherited .parent p.pc := by
  rcases (hs.at_read hk hp).2 ha with hend | ⟨q', hx, -⟩
  · rw [hend, held_through]
    exact List.not_mem_nil
  · exact parent_waits hx q

/-- Where nothing goes on, nobody holds the write end of the parent's barrier. -/
theorem not_held_parent (hk : Kept prog inherited s) (hs : Stuck prog s) (hp : s.procs .child = some p)
    {q : Barrier} (hx : (prog .child)[p.pc]? = some (.read q)) : ¬ s.Held (.writing .parent) := by
  intro hheld
  obtain ⟨j, p', hp', hmem, halive⟩ := hk.holder hheld
  have ha' : p'.alive = true := halive.resolve_right (by simp [(hs.at_read hk hp').1])
  cases j with
  | parent => exact parent_lets_go hk hs hp' _ ha' hmem
  | child =>
    rw [hp, Option.some.injEq] at hp'
    subst hp'
    exact (child_waits hx).2 hmem

/-- **Nobody is left waiting**: where nothing goes on, who is alive is through. -/
theorem through_of_stuck (hk : Kept prog inherited s) (hs : Stuck prog s) {i : Party}
    (hp : s.procs i = some p) (ha : p.alive = true) : p.pc = (prog i).length := by
  rcases (hs.at_read hk hp).2 ha with hend | ⟨q, hx, -, hheld⟩
  · exact hend
  cases i with
  | child =>
    rw [(child_waits hx).1] at hheld
    exact absurd hheld (not_held_parent hk hs hp hx)
  | parent =>
    -- the write end is the child's, which waits itself, or is through
    obtain ⟨j, p', hp', hmem, halive⟩ := hk.holder hheld
    have ha' : p'.alive = true := halive.resolve_right (by simp [(hs.at_read hk hp').1])
    cases j with
    | parent => exact absurd hmem (parent_lets_go hk hs hp' _ ha')
    | child =>
      rcases (hs.at_read hk hp').2 ha' with hend' | ⟨q', hx', -, hheld'⟩
      · rw [hend', held_through] at hmem; cases hmem
      · rw [(child_waits hx').1] at hheld'
        exact absurd hheld' (not_held_parent hk hs hp' hx')

/-- A party that is through or dead, without a hook. -/
def ended (i : Party) (p : Proc Barrier) : Bool :=
  p.helper.isNone && (!p.alive || decide ((prog i).length ≤ p.pc))

/-- Nothing goes on when both have ended. -/
theorem stuck_of_ended (h : ∀ i, (s.procs i).all (ended i) = true) : Stuck prog s := by
  intro e he
  have hended {i : Party} {p : Proc Barrier} (hp : s.procs i = some p) : p.helper = none ∧
      (p.alive = true → (prog i)[p.pc]? = none) := by
    have hi := h i
    rw [hp, Option.all_some, ended, Bool.and_eq_true, Bool.or_eq_true] at hi
    refine ⟨Option.isNone_iff_eq_none.1 hi.1, fun ha => List.getElem?_eq_none_iff.2 ?_⟩
    simpa [ha] using hi.2
  cases e with
  | kill i => exact absurd rfl (he i)
  | act i | fail i =>
    cases hp : s.procs i with
    | none => simp [step, hp]
    | some p =>
      cases ha : p.alive with
      | false => simp [step, hp, ha]
      | true => simp [step, hp, (hended hp).2 ha]
  | helper i exit =>
    cases hp : s.procs i with
    | none => simp [step, hp]
    | some p => simp [step, hp, (hended hp).1]

/-! ## Failing -/

theorem past_through {i : Party} (h : Through s i) : past prog s i = prog i := by
  obtain ⟨p, hp, -, hpc⟩ := h
  rw [past_of hp, hpc, List.take_length]

theorem parent_started (h : Runs es s) : ∃ p, s.procs .parent = some p :=
  Option.isSome_iff_exists.1 (h.invariant (I := fun s => (s.procs .parent).isSome = true) rfl
    fun _ _ _ hs hstep => started_stays hs hstep)

/-- The child does not fail after its signal. -/
theorem not_dead_of_signal (h : Runs es s) (hkill : ∀ i, .kill i ∉ es)
    (hw : .write .child ∈ past prog s .child) (hp : s.procs .child = some p) : p.alive = true := by
  by_contra ha
  obtain ⟨_, _, s₁, p₁, x, -, -, -, -, -, hx, hfails⟩ :=
    exists_failure h hkill hp (Bool.eq_false_iff.2 ha)
  have key : ∀ n < (prog .child).length, .write .child ∈ (prog .child).take n →
    (prog .child)[n]?.all Instr.isClose = true := by decide
  rw [past_of hp] at hw
  have hclose := key _ (List.getElem?_eq_some_iff.1 hx).1 hw
  rw [hx, Option.all_some, hfails.not_close] at hclose
  cases hclose

/-- After its signal the parent fails at the second barrier only. -/
theorem fails_at_wait (h : Runs es s) (hkill : ∀ i, .kill i ∉ es)
    (hw : .write .parent ∈ past prog s .parent) (hp : s.procs .parent = some p)
    (ha : p.alive = false) : ∃ es₁ es₂ s₁ p₁, Runs es₁ s₁ ∧
      Run (fun s e s' => step prog s e = some s') s₁ es₂ s ∧ s₁.procs .parent = some p₁ ∧
      (prog .parent)[p₁.pc]? = some (.read .child) ∧ s₁.bytes .child = 0 ∧
      ¬ s₁.Held (.writing .child) := by
  obtain ⟨es₁, es₂, s₁, p₁, x, h₁, h₂, hp₁, ha₁, hpc, hx, hfails⟩ := exists_failure h hkill hp ha
  have key : ∀ n < (prog .parent).length, .write .parent ∈ (prog .parent).take n →
    (prog .parent)[n]?.all (fun x => x.isClose || decide (x = .read .child)) = true := by decide
  rw [past_of hp] at hw
  have hread : x = .read .child := by
    have hplace := key _ (List.getElem?_eq_some_iff.1 hx).1 hw
    rw [hx, Option.all_some, hfails.not_close, Bool.false_or] at hplace
    exact of_decide_eq_true hplace
  subst hread
  refine ⟨es₁, es₂, s₁, p₁, h₁, h₂, hp₁, hpc ▸ hx, ?_⟩
  cases hfails with
  | call hmay => cases hmay
  | endOfFile hb hheld => exact ⟨hb, hheld⟩
  | noRead hno =>
    -- the parent still has its read end
    have key' : ∀ n < (prog .parent).length, (prog .parent)[n]? = some (.read .child) →
      .reading .child ∈ held prog inherited .parent n := by decide
    rw [((kept_of_run inherits rfl h₁) _ _ hp₁).ends ha₁, hpc] at hno
    exact absurd (key' _ (List.getElem?_eq_some_iff.1 hx).1 hx) hno

/-- The parent fails at the second barrier after the child. -/
theorem child_dead_of_eof (h : Runs es s) (hp : s.procs .parent = some p)
    (hx : (prog .parent)[p.pc]? = some (.read .child)) (hb : s.bytes .child = 0)
    (hheld : ¬ s.Held (.writing .child)) : Dead s .child := by
  have hn := (List.getElem?_eq_some_iff.1 hx).1
  -- the child was cloned
  have hclone : ∀ n < (prog .parent).length, (prog .parent)[n]? = some (.read .child) →
    .clone .child ∈ (prog .parent).take n := by decide
  have hunread : ∀ n < (prog .parent).length, (prog .parent)[n]? = some (.read .child) →
    .read .child ∉ (prog .parent).take n := by decide
  replace hclone := hclone _ hn hx
  replace hunread := hunread _ hn hx
  rw [← past_of hp] at hclone hunread
  obtain ⟨c, hc⟩ := Option.isSome_iff_exists.1 (started_of_clone h hclone)
  refine ⟨c, hc, Bool.eq_false_iff.2 fun ha => ?_⟩
  -- alive, it has given its write end away, after a write that nobody has read
  have hkept := (kept_of_run inherits rfl h) _ _ hc
  have key' : ∀ n ≤ (prog .child).length, .writing .child ∉ held prog inherited .child n →
    .write .child ∈ (prog .child).take n := by decide
  have hw : .write .child ∈ past prog s .child := by
    rw [past_of hc]
    refine key' _ hkept.inside fun hmem => hheld ⟨.child, ?_⟩
    rw [hc, ← hkept.ends ha] at *
    simp [Proc.holds, hmem]
  refine absurd (bytes_pos h hw fun j => ?_) (by omega)
  cases j with
  | parent => exact hunread
  | child => exact fun hmem => absurd (mem_past _ hmem) (by decide)

/-! ## The start of a container -/

/-- **The calls are made in one order**, in every run; whoever comes through,
    all are made, those hooks counting that `run` takes for successful. -/
theorem start_in_order (h : Runs es s) :
    s.log <+: startup ∧ ∀ i, Through s i → s.log = startup := by
  have hlog := log_eq h
  -- the calls of the parent, once the child has gone on
  have hparent (hr : .read .parent ∈ past prog s .child) :
      calls .parent (past prog s .parent) = calls .parent (prog .parent) :=
    calls_of_signal (parent_signalled h hr)
  have hcalls (i : Party) := calls_prefix (i := i) (past_isPrefix prog s i)
  refine ⟨?_, fun i hi => ?_⟩
  · by_cases hc : calls .child (past prog s .child) = []
    · rw [hlog, hc, List.append_nil]
      exact (hcalls .parent).trans (List.prefix_append ..)
    · rw [hlog, hparent (read_of_calls hc)]
      exact (List.prefix_append_right_inj _).2 (hcalls .child)
  · have hall := past_through hi
    have hchild : calls .child (past prog s .child) = calls .child (prog .child) := by
      cases i with
      | child => rw [hall]
      | parent => exact calls_of_child_signal (child_signalled h (by rw [hall]; decide))
    have hr : .read .parent ∈ past prog s .child := read_of_calls (by rw [hchild]; decide)
    rw [hlog, hparent hr, hchild]
    rfl

def steps (i : Party) (n : ℕ) : List (Event Party) := List.replicate n (.act i)

def hook (i : Party) : List (Event Party) := [.helper i (.exited 0)]

/-- The parent comes to the second barrier, and the child to its first hook. -/
def halfStart : List (Event Party) :=
  steps .parent 5 ++ hook .parent ++ steps .parent 3 ++ hook .parent ++ steps .parent 3 ++ steps .child 4

/-- Every call succeeds. -/
def wholeStart : List (Event Party) :=
  halfStart ++ hook .child ++ steps .child 5 ++ hook .child ++ steps .child 10 ++ steps .parent 3

theorem start_in_order_whole : ∃ s, Runs wholeStart s ∧ Through s .parent ∧ s.log = startup := by
  obtain ⟨s, hr, ht⟩ : ∃ s, Runs wholeStart s ∧ Through s .parent :=
    exists_run (f := step prog) (P := fun s => Through s .parent) (by decide)
  exact ⟨s, hr, ht, (start_in_order hr).2 _ ht⟩

/-- **Every run ends**, and where it ends both parties are through or dead: nobody
    waits for the other one for ever. -/
theorem start_ends (h : Runs es s) :
    es.length ≤ 105 ∧ (Stuck prog s → ∀ i, s.procs i ≠ none → Through s i ∨ Dead s i) := by
  refine ⟨(length_le h).trans (by decide), fun hs i hi => ?_⟩
  obtain ⟨p, hp⟩ := Option.ne_none_iff_exists'.1 hi
  cases ha : p.alive with
  | false => exact .inr ⟨p, hp, ha⟩
  | true => exact .inl ⟨p, hp, ha, through_of_stuck (kept_of_run inherits rfl h) hs hp ha⟩

/-- The child is killed at its first hook, and the parent sees it. -/
def childKilled : List (Event Party) :=
  halfStart ++ [.kill .child, .helper .child (.signalled 9)] ++ steps .parent 2

theorem start_ends_killed : ∃ s, Runs childKilled s ∧ (∀ i, Dead s i) ∧ childKilled.length ≤ 105 ∧
    (Stuck prog s → ∀ i, s.procs i ≠ none → Through s i ∨ Dead s i) := by
  obtain ⟨s, hr, hd⟩ : ∃ s, Runs childKilled s ∧ ∀ i, Dead s i :=
    exists_run (f := step prog) (P := fun s => ∀ i, Dead s i) (by decide)
  exact ⟨s, hr, hd, start_ends hr⟩

/-- **Both or none**: when nobody is killed, the parent returns and the child is
    in its loop, or both have failed. -/
theorem start_agrees (h : Runs es s) (hkill : ∀ i, .kill i ∉ es) (hs : Stuck prog s) :
    (Through s .parent ∧ Through s .child) ∨
    (Dead s .parent ∧ (s.procs .child = none ∨ Dead s .child)) := by
  have hk := kept_of_run inherits rfl h
  obtain ⟨p, hp⟩ := parent_started h
  cases ha : p.alive with
  | true =>
    have hthrough : Through s .parent := ⟨p, hp, ha, through_of_stuck hk hs hp ha⟩
    have hw := child_signalled h (by rw [past_through hthrough]; decide)
    cases hc : s.procs .child with
    | none => rw [past_of_none hc] at hw; cases hw
    | some c =>
      have hac := not_dead_of_signal h hkill hw hc
      exact .inl ⟨hthrough, c, hc, hac, through_of_stuck hk hs hc hac⟩
  | false =>
    refine .inr ⟨⟨p, hp, ha⟩, ?_⟩
    cases hc : s.procs .child with
    | none => exact .inl rfl
    | some c =>
      refine .inr ⟨c, hc, Bool.eq_false_iff.2 fun hac => ?_⟩
      have hthrough : Through s .child := ⟨c, hc, hac, through_of_stuck hk hs hc hac⟩
      have hw := parent_signalled h (by rw [past_through hthrough]; decide)
      obtain ⟨es₁, es₂, s₁, p₁, h₁, h₂, hp₁, hx, hb, hheld⟩ := fails_at_wait h hkill hw hp ha
      obtain ⟨c', hc', hdead⟩ := dead_of_run h₂ (child_dead_of_eof h₁ hp₁ hx hb hheld)
      rw [hc, Option.some.injEq] at hc'
      rw [← hc', hac] at hdead
      cases hdead

theorem start_agrees_whole : ∃ s, Runs wholeStart s ∧ (∀ i, .kill i ∉ wholeStart) ∧ Stuck prog s ∧
    ((Through s .parent ∧ Through s .child) ∨
      (Dead s .parent ∧ (s.procs .child = none ∨ Dead s .child))) := by
  obtain ⟨s, hr, hended⟩ : ∃ s, Runs wholeStart s ∧ ∀ i, (s.procs i).all (ended i) = true :=
    exists_run (f := step prog) (P := fun s => ∀ i, (s.procs i).all (ended i) = true) (by decide)
  have hs := stuck_of_ended hended
  exact ⟨s, hr, by decide, hs, start_agrees hr (by decide) hs⟩

end WardenLinux.Handshake
