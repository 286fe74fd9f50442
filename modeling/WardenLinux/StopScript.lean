/-
  `stop.sh`: how the processes of a container are ended.

  The script lists the tasks of the container without those that match the pid of
  `wshd`, and signals them until `wshd` has no child; after the time to wait the
  signal is SIGKILL.  `grep -v` leaves out every line with the digits of the pid
  somewhere in it, and when it leaves out all of them, the script ends with an
  error (`errexit`).

  A process that ends leaves its children to `wshd`, the init process.  Processes
  can end by themselves between any two steps of the script.

  Two things are assumed.  Every process has one thread: `tasks` lists the threads, and
  a process of several is signalled through any of them that `grep` leaves in the list.
  And a process that a signal ends is gone when `kill` returns, while `kill` only sends
  the signal.

  * `stop_ends`: when no process is started, the script ends, after at most
    4 * WAIT + 11 steps, and with 0 only when nobody is left.
  * `stop_leaves_iff`: who is left are those whose pid has the digits of `wshd`'s in
    it and who did not end by themselves.
-/
import WardenLinux.Lib.Transition
import Mathlib.Data.List.Infix
import Mathlib.Data.Nat.Digits.Defs

namespace WardenLinux.StopScript

open Transition

/-! ## The script -/

/-- A process of the container other than `wshd`, of one thread, so that its pid is its
    line of `tasks`; a stubborn one does not end at SIGTERM. -/
structure Task where
  pid : ℕ
  ppid : ℕ
  stubborn : Bool
  deriving DecidableEq, Repr

/-- Where the script is: at `pgrep`, at `cat $tasks | grep -v $pid`, at `kill`, at
    `sleep`, or at its end. -/
inductive Pc where
  | check
  | list
  | signal (subTasks : List ℕ)
  | sleep
  | done (code : ℕ)
  deriving DecidableEq, Repr

/-- The pid of `wshd`, the other tasks in the order they were started, the time in
    milliseconds, and the end of the time to wait. -/
structure State where
  pid : ℕ
  tasks : List Task
  ms : ℕ
  msEnd : ℕ
  pc : Pc
  deriving DecidableEq, Repr

/-- `grep $pid` finds the digits anywhere in a line. -/
def Matches (pid line : ℕ) : Prop := Nat.toDigits 10 pid <:+: Nat.toDigits 10 line

instance (pid line : ℕ) : Decidable (Matches pid line) := inferInstanceAs (Decidable (_ <:+: _))

/-- Some processes end, and their children get the parent `pid`. -/
def bury (pid : ℕ) (dead : ℕ → Bool) (ts : List Task) : List Task :=
  (ts.filter (!dead ·.pid)).map fun t => if dead t.ppid then { t with ppid := pid } else t

/-- `kill -$signal $subTasks`, and the end of those that the signal ends -/
def kill (s : State) (subTasks : List ℕ) (term : Bool) : List Task :=
  let dies (t : Task) : Bool := decide (t.pid ∈ subTasks) && !(term && t.stubborn)
  bury s.pid (fun p => s.tasks.any fun t => t.pid = p && dies t) s.tasks

/-- The next step of the script. -/
def next (s : State) : Option (List Task × Pc) :=
  match s.pc with
  | .check => some (s.tasks, if s.tasks.any (·.ppid = s.pid) then .list else .done 0)
  | .list =>
    let subTasks := (s.pid :: s.tasks.map Task.pid).filter fun p => ¬ Matches s.pid p
    -- without a line the status of `grep` is 1
    some (s.tasks, if subTasks = [] then .done 1 else .signal subTasks)
  | .signal subTasks => some (kill s subTasks (decide (s.ms ≤ s.msEnd)), .sleep)
  | .sleep => some (s.tasks, .check)
  | .done _ => none

/-- A step of the script that takes some time, a process that ends by itself, or one
    that is started. -/
inductive Event where
  | script (ms : ℕ)
  | exits (pid : ℕ)
  | forks (t : Task)
  deriving DecidableEq, Repr

def step (s : State) : Event → Option State
  | .script ms =>
    if s.pc = .sleep ∧ ms < 1000 then none
    else (next s).map fun (tasks, pc) => { s with tasks, pc, ms := s.ms + ms }
  | .exits pid => if pid = s.pid then none else some { s with tasks := bury s.pid (· = pid) s.tasks }
  | .forks t =>
    if t.ppid ∈ s.pid :: s.tasks.map Task.pid ∧ t.pid ∉ s.pid :: s.tasks.map Task.pid then
      some { s with tasks := s.tasks ++ [t] }
    else none

/-- A parent is `wshd` or a process that was started before. -/
def Rooted (pid : ℕ) : List ℕ → List Task → Prop
  | _, [] => True
  | known, t :: ts => (t.ppid = pid ∨ t.ppid ∈ known) ∧ Rooted pid (t.pid :: known) ts

instance (pid : ℕ) : ∀ known ts, Decidable (Rooted pid known ts)
  | _, [] => inferInstanceAs (Decidable True)
  | known, t :: ts =>
    have := instDecidableRooted pid (t.pid :: known) ts
    inferInstanceAs (Decidable (_ ∧ _))

/-- The script begins with `wait` seconds before SIGKILL. -/
def start (pid : ℕ) (ts : List Task) (ms wait : ℕ) : State := ⟨pid, ts, ms, ms + wait * 1000, .check⟩

/-- No process is started. -/
def quiet (_ : State) : Event → Prop
  | .forks _ => False
  | _ => True

instance (s : State) : ∀ e, Decidable (quiet s e)
  | .forks _ => inferInstanceAs (Decidable False)
  | .script _ => inferInstanceAs (Decidable True)
  | .exits _ => inferInstanceAs (Decidable True)

def Event.isScript : Event → Bool
  | .script _ => true
  | _ => false

abbrev Step (s : State) (e : Event) (s' : State) : Prop := step s e = some s'

/-! ## Processes that end -/

variable {pid : ℕ} {ts : List Task} {s s' : State} {e : Event} {es : List Event}

theorem mem_bury {dead : ℕ → Bool} {p : ℕ} :
    p ∈ (bury pid dead ts).map Task.pid ↔ p ∈ ts.map Task.pid ∧ dead p = false := by
  have hpid : ∀ t : Task, (if dead t.ppid then { t with ppid := pid } else t).pid = t.pid := by
    intro t; split <;> rfl
  simp only [bury, List.map_map, List.mem_map, List.mem_filter, Function.comp_apply, hpid]
  constructor
  · rintro ⟨t, ⟨ht, hd⟩, rfl⟩
    exact ⟨⟨t, ht, rfl⟩, by simpa using hd⟩
  · rintro ⟨⟨t, ht, rfl⟩, hd⟩
    exact ⟨t, ⟨ht, by simpa using hd⟩, rfl⟩

/-- The others still have a parent. -/
theorem rooted_bury {dead : ℕ → Bool} : ∀ {ts : List Task} {known known' : List ℕ},
    Rooted pid known ts → (∀ p ∈ known, dead p = false → p ∈ known') →
    Rooted pid known' (bury pid dead ts) := by
  intro ts
  induction ts with
  | nil => intro _ _ _ _; trivial
  | cons t ts ih =>
    rintro known known' ⟨hp, ht⟩ hk
    cases hd : dead t.pid with
    | true =>
      have hb : bury pid dead (t :: ts) = bury pid dead ts := by simp [bury, hd]
      rw [hb]
      refine ih ht fun p hp hpd => ?_
      rcases List.mem_cons.1 hp with rfl | hp
      · rw [hd] at hpd; cases hpd
      · exact hk p hp hpd
    | false =>
      have hb : bury pid dead (t :: ts) =
          (if dead t.ppid then { t with ppid := pid } else t) :: bury pid dead ts := by
        simp [bury, hd]
      rw [hb]
      have hrest : ∀ p ∈ t.pid :: known, dead p = false → p ∈ t.pid :: known' := by
        intro p hp hpd
        rcases List.mem_cons.1 hp with rfl | hp
        · exact List.mem_cons_self
        · exact List.mem_cons_of_mem _ (hk p hp hpd)
      cases hpp : dead t.ppid with
      | true => exact ⟨.inl rfl, ih ht hrest⟩
      | false => exact ⟨hp.imp_right (hk _ · hpp), ih ht hrest⟩

/-- `pgrep` finds a child as long as there is a process. -/
theorem exists_child (h : Rooted pid [] ts) (hts : ts ≠ []) : ts.any (·.ppid = pid) = true := by
  obtain ⟨t, us, rfl⟩ := List.exists_cons_of_ne_nil hts
  have ht : t.ppid = pid := h.1.resolve_right List.not_mem_nil
  simp [ht]

/-! ## The steps of the script -/

/-- The pids of the tasks. -/
def State.pids (s : State) : List ℕ := s.tasks.map Task.pid

/-- `grep -v` leaves out all pids there are. -/
def AllMatch (s : State) : Prop := ∀ p ∈ s.pids, Matches s.pid p

/-- What the script knows about the pids where it is. -/
def Known (pid : ℕ) (pids : List ℕ) : Pc → Prop
  | .signal subTasks =>
    (∀ p ∈ subTasks, ¬ Matches pid p) ∧ ∀ p ∈ pids, ¬ Matches pid p → p ∈ subTasks
  | .done code => code = 0 ∧ pids = [] ∨ code = 1 ∧ ∀ p ∈ pids, Matches pid p
  | _ => True

/-- The processes have parents, and the script knows what it should. -/
structure Good (s : State) : Prop where
  rooted : Rooted s.pid [] s.tasks
  known : Known s.pid s.pids s.pc

/-- Fewer processes keep what is known. -/
theorem Known.of_subset {pids pids' : List ℕ} {pc : Pc} (h : Known pid pids pc)
    (hsub : pids' ⊆ pids) : Known pid pids' pc := by
  cases pc with
  | signal subTasks => exact ⟨h.1, fun p hp => h.2 p (hsub hp)⟩
  | done code =>
    refine h.imp (fun h => ⟨h.1, ?_⟩) fun h => ⟨h.1, fun p hp => h.2 p (hsub hp)⟩
    exact List.subset_nil.1 (h.2 ▸ hsub)
  | check => trivial
  | list => trivial
  | sleep => trivial

theorem mem_kill {subTasks : List ℕ} {term : Bool} {p : ℕ} :
    p ∈ (kill s subTasks term).map Task.pid ↔ p ∈ s.pids ∧
      (p ∈ subTasks → ∀ t ∈ s.tasks, t.pid = p → term = true ∧ t.stubborn = true) := by
  rw [kill, mem_bury]
  refine and_congr_right fun _ => ?_
  simp only [List.any_eq_false, Bool.and_eq_true, decide_eq_true_eq, Bool.not_eq_true']
  grind

theorem rooted_kill {subTasks : List ℕ} {term : Bool} (h : Rooted s.pid [] s.tasks) :
    Rooted s.pid [] (kill s subTasks term) := by
  unfold kill
  exact rooted_bury h fun p hp => absurd hp List.not_mem_nil

/-- What a step of the script makes of the processes: they keep their parents, none is
    added, and those whose pid matches are spared. -/
theorem next_spec (hg : Good s) {pc : Pc} (h : next s = some (ts, pc)) :
    Rooted s.pid [] ts ∧ Known s.pid (ts.map Task.pid) pc ∧ ts.map Task.pid ⊆ s.pids ∧
      ∀ p ∈ s.pids, Matches s.pid p → p ∈ ts.map Task.pid := by
  obtain ⟨hr, hk⟩ := hg
  cases hpc : s.pc with
  | check =>
    simp only [next, hpc, Option.some.injEq, Prod.mk.injEq] at h
    obtain ⟨rfl, rfl⟩ := h
    refine ⟨hr, ?_, fun _ h => h, fun _ h _ => h⟩
    split
    · trivial
    · next hn =>
      refine .inl ⟨rfl, ?_⟩
      rw [List.map_eq_nil_iff]
      by_contra hts
      exact hn (exists_child hr hts)
  | list =>
    simp only [next, hpc, Option.some.injEq, Prod.mk.injEq] at h
    obtain ⟨rfl, rfl⟩ := h
    refine ⟨hr, ?_, fun _ h => h, fun _ h _ => h⟩
    split
    · next hn =>
      refine .inr ⟨rfl, fun p hp => ?_⟩
      have := List.filter_eq_nil_iff.1 hn p (List.mem_cons_of_mem _ hp)
      simpa using this
    · refine ⟨fun p hp => by simpa using (List.mem_filter.1 hp).2, fun p hp hm => ?_⟩
      exact List.mem_filter.2 ⟨List.mem_cons_of_mem _ hp, by simpa using hm⟩
  | signal subTasks =>
    simp only [next, hpc, Option.some.injEq, Prod.mk.injEq] at h
    obtain ⟨rfl, rfl⟩ := h
    rw [hpc] at hk
    refine ⟨rooted_kill hr, trivial, fun p hp => (mem_kill.1 hp).1, fun p hp hm => ?_⟩
    exact mem_kill.2 ⟨hp, fun hsub => absurd hm (hk.1 p hsub)⟩
  | sleep =>
    simp only [next, hpc, Option.some.injEq, Prod.mk.injEq] at h
    obtain ⟨rfl, rfl⟩ := h
    exact ⟨hr, trivial, fun _ h => h, fun _ h _ => h⟩
  | done code => simp [next, hpc] at h

theorem step_script {ms : ℕ} (h : Step s (.script ms) s') :
    (s.pc = .sleep → 1000 ≤ ms) ∧ ∃ ts pc, next s = some (ts, pc) ∧
      s' = { s with tasks := ts, pc := pc, ms := s.ms + ms } := by
  simp only [Step, step] at h
  split at h
  · cases h
  · next hms =>
    obtain ⟨⟨ts, pc⟩, hn, rfl⟩ := Option.map_eq_some_iff.1 h
    exact ⟨fun hpc => by_contra fun hlt => hms ⟨hpc, by omega⟩, ts, pc, hn, rfl⟩

theorem step_exits {p : ℕ} (h : Step s (.exits p) s') :
    s' = { s with tasks := bury s.pid (· = p) s.tasks } := by
  simp only [Step, step] at h
  split at h
  · cases h
  · exact (Option.some.inj h).symm

theorem mem_pids_exits {p q : ℕ} (h : Step s (.exits p) s') :
    q ∈ s'.pids ↔ q ∈ s.pids ∧ q ≠ p := by
  rw [step_exits h, State.pids, mem_bury, decide_eq_false_iff_not]
  rfl

/-- What a step changes when no process is started. -/
structure Effect (s : State) (e : Event) (s' : State) : Prop where
  pid : s'.pid = s.pid
  sub : ∀ p ∈ s'.pids, p ∈ s.pids ∧ e ≠ .exits p
  keep : ∀ p ∈ s.pids, Matches s.pid p → e ≠ .exits p → p ∈ s'.pids

theorem effect_of_step (hg : Good s) (h : guarded quiet Step s e s') : Good s' ∧ Effect s e s' := by
  obtain ⟨hq, h⟩ := h
  cases e with
  | script ms =>
    obtain ⟨-, ts, pc, hn, rfl⟩ := step_script h
    obtain ⟨hr, hk, hsub, hkeep⟩ := next_spec hg hn
    exact ⟨⟨hr, hk⟩, rfl, fun p hp => ⟨hsub hp, by simp⟩, fun p hp hm _ => hkeep p hp hm⟩
  | exits p =>
    have hmem : ∀ q, q ∈ s'.pids ↔ q ∈ s.pids ∧ q ≠ p := fun q => mem_pids_exits h
    have hs := step_exits h
    have hknown : Known s.pid s'.pids s.pc := hg.known.of_subset fun q hq => ((hmem q).1 hq).1
    refine ⟨⟨?_, ?_⟩, by rw [hs], ?_, ?_⟩
    · have hr : Rooted s.pid [] (bury s.pid (· = p) s.tasks) := rooted_bury hg.rooted fun q hq => absurd hq List.not_mem_nil
      rw [hs]; exact hr
    · rw [hs] at hknown ⊢; exact hknown
    · intro q hq
      exact ⟨((hmem q).1 hq).1, fun he => ((hmem q).1 hq).2 (Event.exits.inj he).symm⟩
    · intro q hq _ hne
      exact (hmem q).2 ⟨hq, fun he => hne (he ▸ rfl)⟩
  | forks t => exact hq.elim

theorem good_start {ms wait : ℕ} (h : Rooted pid [] ts) : Good (start pid ts ms wait) :=
  ⟨h, trivial⟩

/-! ## How long it takes -/

/-- How many more rounds there are before one with SIGKILL is over. -/
def rounds (s : State) : ℕ := (s.msEnd + 1000 - s.ms) / 1000

open Classical in
/-- How many more steps the script can take when it is somewhere with some rounds left:
    when all pids match, it only comes to the next `grep`. -/
noncomputable def weight (all : Prop) (rounds : ℕ) : Pc → ℕ
  | .check => if all then 3 else 4 * (rounds + 1) + 3
  | .list => if all then 2 else 4 * (rounds + 1) + 2
  | .signal _ => if all then 5 else 4 * (rounds + 1) + 1
  | .sleep => if all then 4 else 4 * (max rounds 1 + 1)
  | .done _ => 0

noncomputable def fuel (s : State) : ℕ := weight (AllMatch s) (rounds s) s.pc

theorem weight_mono {all all' : Prop} {r r' : ℕ} (h : all → all') (hr : r' ≤ r) (pc : Pc) :
    weight all' r' pc ≤ weight all r pc := by
  cases pc <;> simp only [weight] <;> grind

theorem allMatch_of_subset (hpid : s'.pid = s.pid) (hsub : s'.pids ⊆ s.pids)
    (h : AllMatch s) : AllMatch s' := by
  intro p hp
  rw [hpid]
  exact h p (hsub hp)

/-- A process that ends does not make it longer. -/
theorem fuel_exits {p : ℕ} (h : Step s (.exits p) s') : fuel s' ≤ fuel s := by
  have hsub : s'.pids ⊆ s.pids := fun q hq => ((mem_pids_exits h).1 hq).1
  have hs := step_exits h
  have hrounds : rounds s' = rounds s := by rw [hs]; rfl
  have hpc : s'.pc = s.pc := by rw [hs]
  rw [fuel, fuel, hpc]
  exact weight_mono (allMatch_of_subset (by rw [hs]) hsub) hrounds.le _

/-- After SIGKILL only those are left whose pid matches. -/
theorem allMatch_kill {subTasks : List ℕ} (hk : Known s.pid s.pids (.signal subTasks))
    (hpid : s'.pid = s.pid) (htasks : s'.tasks = kill s subTasks false) : AllMatch s' := by
  intro p hp
  rw [State.pids, htasks] at hp
  obtain ⟨hp, hsub⟩ := mem_kill.1 hp
  rw [hpid]
  by_contra hm
  obtain ⟨t, ht, rfl⟩ := List.mem_map.1 hp
  exact absurd (hsub (hk.2 _ hp hm) t ht rfl).1 (by decide)

theorem matches_self (pid : ℕ) : Matches pid pid := List.infix_rfl

/-- Every step of the script uses some of it up. -/
theorem fuel_script {ms : ℕ} (hg : Good s) (h : Step s (.script ms) s') : fuel s' < fuel s := by
  obtain ⟨hms, ts, pc, hn, hs⟩ := step_script h
  obtain ⟨-, -, hsub, -⟩ := next_spec hg hn
  have hpc' : s'.pc = pc := by rw [hs]
  have hrounds : rounds s' ≤ rounds s := by
    simp only [hs, rounds]
    omega
  have hall : AllMatch s → AllMatch s' :=
    allMatch_of_subset (by rw [hs]) (by rw [hs]; exact hsub)
  rw [fuel, fuel, hpc']
  cases hpc : s.pc with
  | check =>
    simp only [next, hpc, Option.some.injEq, Prod.mk.injEq] at hn
    obtain ⟨rfl, rfl⟩ := hn
    split <;> simp only [weight] <;> grind
  | list =>
    simp only [next, hpc, Option.some.injEq, Prod.mk.injEq] at hn
    obtain ⟨rfl, rfl⟩ := hn
    split
    · simp only [weight]
      grind
    · next hne =>
      -- a pid that is listed does not match
      have hnot : ¬ AllMatch s := by
        intro hm
        refine hne (List.filter_eq_nil_iff.2 fun p hp => ?_)
        rcases List.mem_cons.1 hp with rfl | hp
        · simpa using matches_self _
        · simpa using hm p hp
      simp only [weight, if_neg hnot]
      grind
  | signal subTasks =>
    simp only [next, hpc, Option.some.injEq, Prod.mk.injEq] at hn
    obtain ⟨rfl, rfl⟩ := hn
    by_cases hle : s.ms ≤ s.msEnd
    · have hpos : 1 ≤ rounds s := by simp only [rounds]; omega
      simp only [weight]
      grind
    · have hm : AllMatch s' := by
        refine allMatch_kill (by rw [← hpc]; exact hg.known) (by rw [hs]) ?_
        rw [hs, decide_eq_false hle]
      simp only [weight, if_pos hm]
      grind
  | sleep =>
    simp only [next, hpc, Option.some.injEq, Prod.mk.injEq] at hn
    obtain ⟨rfl, rfl⟩ := hn
    have hround : rounds s' ≤ rounds s - 1 := by
      have := hms hpc
      simp only [hs, rounds]
      omega
    simp only [weight]
    grind
  | done code => simp [next, hpc] at hn

theorem fuel_start (pid : ℕ) (ts : List Task) (ms wait : ℕ) :
    fuel (start pid ts ms wait) ≤ 4 * wait + 11 := by
  have hrounds : rounds (start pid ts ms wait) = wait + 1 := by
    simp only [rounds, start]
    omega
  rw [fuel, hrounds]
  calc weight (AllMatch (start pid ts ms wait)) (wait + 1) .check
      ≤ weight False (wait + 1) .check := weight_mono False.elim le_rfl _
    _ = 4 * wait + 11 := by simp only [weight, if_false]; omega

/-! ## Whole runs -/

section Runs

variable {ms wait : ℕ}

theorem good_of_run (hts : Rooted pid [] ts)
    (h : Run (guarded quiet Step) (start pid ts ms wait) es s) : Good s :=
  h.invariant (good_start hts) fun _ _ _ hg hs => (effect_of_step hg hs).1

theorem pid_of_run (hts : Rooted pid [] ts)
    (h : Run (guarded quiet Step) (start pid ts ms wait) es s) : s.pid = pid := by
  refine (h.invariant (I := fun s => Good s ∧ s.pid = pid) ⟨good_start hts, rfl⟩ ?_).2
  rintro s e s' ⟨hg, hp⟩ hs
  obtain ⟨hg', he⟩ := effect_of_step hg hs
  exact ⟨hg', he.pid.trans hp⟩

/-- The steps it took and those it can still take. -/
theorem steps_add_fuel (hts : Rooted pid [] ts)
    (h : Run (guarded quiet Step) (start pid ts ms wait) es s) :
    es.countP Event.isScript + fuel s ≤ 4 * wait + 11 := by
  induction h with
  | nil => simpa using fuel_start pid ts ms wait
  | @snoc es e s s' hr hs ih =>
    rw [List.countP_append]
    cases e with
    | script m =>
      have := fuel_script (good_of_run hts hr) hs.2
      simp only [List.countP_singleton, Event.isScript, if_true]
      omega
    | exits p =>
      have := fuel_exits hs.2
      simp only [List.countP_singleton, Event.isScript, Bool.false_eq_true, if_false]
      omega
    | forks t => exact hs.1.elim

/-- Until its end the script can go on. -/
theorem exists_step (h : ∀ code, s.pc ≠ .done code) : ∃ m s', Step s (.script m) s' := by
  refine ⟨1000, ?_⟩
  simp only [Step, step, Nat.lt_irrefl, and_false, if_false]
  cases hpc : s.pc with
  | done code => exact absurd hpc (h code)
  | check => simp [next, hpc]
  | list => simp [next, hpc]
  | signal subTasks => simp [next, hpc]
  | sleep => simp [next, hpc]

/-- Who is left when nobody is started. -/
theorem left_of_run (hts : Rooted pid [] ts)
    (h : Run (guarded quiet Step) (start pid ts ms wait) es s) (p : ℕ) :
    (p ∈ s.pids → p ∈ ts.map Task.pid ∧ .exits p ∉ es) ∧
      (p ∈ ts.map Task.pid → Matches pid p → .exits p ∉ es → p ∈ s.pids) := by
  induction h with
  | nil => exact ⟨fun hp => ⟨hp, List.not_mem_nil⟩, fun hp _ _ => hp⟩
  | @snoc es e s s' hr hs ih =>
    obtain ⟨-, he⟩ := effect_of_step (good_of_run hts hr) hs
    have hpid := pid_of_run hts hr
    simp only [List.mem_append, List.mem_singleton, not_or]
    constructor
    · intro hp
      obtain ⟨hp, hne⟩ := he.sub p hp
      exact ⟨(ih.1 hp).1, (ih.1 hp).2, hne.symm⟩
    · rintro hp hm ⟨hes, hne⟩
      exact he.keep p (ih.2 hp hm hes) (hpid.symm ▸ hm) (Ne.symm hne)

/-- **The script ends.**  When no process is started, and all have one thread and end at
    once at SIGKILL, it takes at most 4 * WAIT + 11 steps, and goes on until it ends: with
    0 when nobody is left, or with 1 when everybody who is left has a pid that matches. -/
theorem stop_ends (hts : Rooted pid [] ts)
    (h : Run (guarded quiet Step) (start pid ts ms wait) es s) :
    es.countP Event.isScript ≤ 4 * wait + 11 ∧
      ((∃ m s', Step s (.script m) s') ∨ s.pc = .done 0 ∧ s.tasks = [] ∨
        s.pc = .done 1 ∧ ∀ t ∈ s.tasks, Matches pid t.pid) := by
  refine ⟨(Nat.le_add_right _ _).trans (steps_add_fuel hts h), ?_⟩
  by_cases hd : ∃ code, s.pc = .done code
  · obtain ⟨code, hpc⟩ := hd
    have hk := (good_of_run hts h).known
    rw [hpc, pid_of_run hts h] at hk
    rcases hk with ⟨rfl, hnil⟩ | ⟨rfl, hm⟩
    · exact .inr (.inl ⟨hpc, List.map_eq_nil_iff.1 hnil⟩)
    · exact .inr (.inr ⟨hpc, fun t ht => hm _ (List.mem_map_of_mem ht)⟩)
  · exact .inl (exists_step fun code hpc => hd ⟨code, hpc⟩)

/-- Two processes, of which the second one has the digits of 12 in its pid. -/
def twoTasks : List Task := [⟨34, 12, true⟩, ⟨123, 34, false⟩]

/-- SIGKILL in the first round, and nobody to signal in the second one. -/
def twoRounds : List Event :=
  [.script 1, .script 0, .script 0, .script 1000, .script 0, .script 0]

theorem stop_ends_killed : ∃ s, Run (guarded quiet Step) (start 12 twoTasks 0 0) twoRounds s ∧
    s.tasks = [⟨123, 12, false⟩] ∧
    ((∃ m s', Step s (.script m) s') ∨ s.pc = .done 0 ∧ s.tasks = [] ∨
      s.pc = .done 1 ∧ ∀ t ∈ s.tasks, Matches 12 t.pid) := by
  obtain ⟨s, hr, hs⟩ : ∃ s, Run (guarded quiet Step) (start 12 twoTasks 0 0) twoRounds s ∧
      s.tasks = [⟨123, 12, false⟩] := exists_guarded_run (by decide +kernel)
  exact ⟨s, hr, hs, (stop_ends (by decide) hr).2⟩

/-- **Who is left.**  When the script has ended, a process the container had, all having
    one thread, is left iff its pid has the digits of `wshd`'s in it and it did not end by
    itself. -/
theorem stop_leaves_iff (hts : Rooted pid [] ts)
    (h : Run (guarded quiet Step) (start pid ts ms wait) es s) {code : ℕ} (hpc : s.pc = .done code)
    {t : Task} (ht : t ∈ ts) :
    t.pid ∈ s.pids ↔ Matches pid t.pid ∧ .exits t.pid ∉ es := by
  have hk := (good_of_run hts h).known
  rw [hpc, pid_of_run hts h] at hk
  constructor
  · intro hp
    refine ⟨?_, ((left_of_run hts h _).1 hp).2⟩
    rcases hk with ⟨-, hnil⟩ | ⟨-, hm⟩
    · rw [hnil] at hp; cases hp
    · exact hm _ hp
  · rintro ⟨hm, hes⟩
    exact (left_of_run hts h _).2 (List.mem_map_of_mem ht) hm hes

theorem stop_leaves_iff_killed : ∃ s,
    Run (guarded quiet Step) (start 12 twoTasks 0 0) twoRounds s ∧ s.pc = .done 1 ∧
    (123 ∈ s.pids ↔ Matches 12 123 ∧ .exits 123 ∉ twoRounds) := by
  obtain ⟨s, hr, hs⟩ : ∃ s, Run (guarded quiet Step) (start 12 twoTasks 0 0) twoRounds s ∧
      s.pc = .done 1 := exists_guarded_run (by decide +kernel)
  exact ⟨s, hr, hs, stop_leaves_iff (t := ⟨123, 34, false⟩) (by decide) hr hs (by decide)⟩

end Runs

end WardenLinux.StopScript
