/-
  The descriptors of `wshd` and of the commands that it starts (wshd.c).

  All descriptors that `wshd` opens get the flag close-on-exec, so that a command
  has only its input and its two outputs.  The copy of the status pipe that
  `child_pid_to_fd_add` makes does not: `dup` gives a descriptor without the flag.

  `wshd` closes 0, 1 and 2 and gets 0 for its signals; the connection of a client
  is 1 then, and the first pipe begins at 2, which is why `dup2` in `child_fork`
  overwrites nothing that it still needs (`Top`).

  * `wshd_descriptors`: between requests `wshd` has its two descriptors and one for
    each command that is not reaped, and no other.
  * `command_descriptors`: a command has its own input and outputs, and the status
    pipes of the commands that were not reaped when it was started.
  * `status_open_iff`: after a command is reaped, its status pipe has no end as
    long as a command runs that was started before that.  Processes that a command
    leaves behind have its descriptors too; they are not modelled, and can only keep the
    pipe open for longer.
-/
import WardenLinux.Lib.Descriptors
import WardenLinux.Lib.Transition
import WardenLinux.PidTable

namespace WardenLinux.StatusPipes

open Descriptors Descriptors.Table Transition

/-! ## A request -/

/-- What a descriptor is for: the socket, the signals, or a file of the request
    `r`, namely its connection, an end of its pipe `i` or of its terminal. -/
inductive File where
  | standard (n : ℕ)
  | socket
  | signalfd
  | connection (r : ℕ)
  | reading (r i : ℕ)
  | writing (r i : ℕ)
  | master (r : ℕ)
  | slave (r : ℕ)
  deriving DecidableEq, Repr

/-- The descriptors of the child of `child_fork`, once it has executed the
    command. -/
def childFork (t : Table File) (input output error : ℕ) : Table File :=
  (((t.dup2 input 0).dup2 output 1).dup2 error 2).exec

/-- A command: its descriptors, and the copy of its status pipe. -/
abbrev Forked := Table File × ℕ

/-- The end of both handlers: the descriptors are sent, the command is started, its
    status pipe is kept, and the rest is closed.  Without a result `dup` fails. -/
def finish (t : Table File) (sent : Bool) (input output error status : ℕ) (close : List ℕ) :
    Option (Table File × Option Forked) :=
  if sent then
    (t.dup status).map fun (n, t') => (t'.closeAll close, some (childFork t input output error, n))
  else some (t.closeAll close, none)

/-- `child_handle_interactive` -/
def childHandleInteractive (t : Table File) (fd r : ℕ) (sent : Bool) :
    Option (Table File × Option Forked) :=
  let (p₁, t) := t.allocPair (.reading r 1) (.writing r 1)
  let (p₀, t) := t.allocPair (.master r) (.slave r)
  finish t sent p₀.2 p₀.2 p₀.2 p₁.2 [p₀.1, p₀.2, p₁.1, p₁.2, fd]

/-- `child_handle_noninteractive` -/
def childHandleNoninteractive (t : Table File) (fd r : ℕ) (sent : Bool) :
    Option (Table File × Option Forked) :=
  let (p₀, t) := t.allocPair (.reading r 0) (.writing r 0)
  let (p₁, t) := t.allocPair (.reading r 1) (.writing r 1)
  let (p₂, t) := t.allocPair (.reading r 2) (.writing r 2)
  let (p₃, t) := t.allocPair (.reading r 3) (.writing r 3)
  finish t sent p₀.1 p₁.2 p₂.2 p₃.2 [p₀.1, p₀.2, p₁.1, p₁.2, p₂.1, p₂.2, p₃.1, p₃.2, fd]

/-- `child_accept`, for a whole request -/
def childAccept (t : Table File) (r : ℕ) (tty sent : Bool) : Option (Table File × Option Forked) :=
  let (fd, t) := t.allocCloexec (.connection r)
  if tty then childHandleInteractive t fd r sent else childHandleNoninteractive t fd r sent

/-- `child_accept`, for a client that closes without a request -/
def childAcceptEmpty (t : Table File) (r : ℕ) : Table File :=
  let (fd, t) := t.allocCloexec (.connection r)
  t.close fd

/-! ### What a request leaves -/

/-- The write end of the status pipe. -/
def status (r : ℕ) (tty : Bool) : File := .writing r (if tty then 1 else 3)

/-- The input and the outputs of a command. -/
def stdio (r : ℕ) (tty : Bool) : ℕ → File
  | 0 => if tty then .slave r else .reading r 0
  | n => if tty then .slave r else .writing r n

/-- 0 is taken, 1 and 2 are free. -/
structure Top (t : Table File) : Prop where
  zero : t.get 0 ≠ none
  one : t.get 1 = none
  two : t.get 2 = none

variable {t t₁ : Table File} {ns ps : List ℕ} {f g h : File} {i o e st r : ℕ} {tty : Bool}

/-- What a command has. -/
structure Executed (t : Table File) (r : ℕ) (tty : Bool) (c : Table File) : Prop where
  own : ∀ n < 3, c.get n = some ⟨stdio r tty n, false⟩
  others : ∀ m, 3 ≤ m → c.get m = (t.get m).filter (!·.cloexec)

/-- The child keeps what has no flag. -/
theorem get_childFork (hop : Opened t ns t₁) {m : ℕ} (hm : 3 ≤ m) :
    (childFork t₁ i o e).get m = (t.get m).filter (!·.cloexec) := by
  rw [childFork, get_exec, get_dup2_of_ne _ _ (by omega), get_dup2_of_ne _ _ (by omega),
    get_dup2_of_ne _ _ (by omega)]
  by_cases hmem : m ∈ ns
  · obtain ⟨f, hf⟩ := hop.cloexec m hmem
    rw [hf, hop.free m hmem]
    rfl
  · rw [hop.other m hmem]

/-- The three copies are those of the three descriptors. -/
theorem get_childFork_own (hi : t₁.get i = some ⟨f, true⟩) (ho : t₁.get o = some ⟨g, true⟩)
    (he : t₁.get e = some ⟨h, true⟩) (hi0 : i ≠ 0) (ho3 : 3 ≤ o) (he3 : 3 ≤ e) :
    (childFork t₁ i o e).get 0 = some ⟨f, false⟩ ∧ (childFork t₁ i o e).get 1 = some ⟨g, false⟩ ∧
      (childFork t₁ i o e).get 2 = some ⟨h, false⟩ := by
  refine ⟨?_, ?_, ?_⟩
  · rw [childFork, get_exec, get_dup2_of_ne _ _ (by omega), get_dup2_of_ne _ _ (by omega), get_dup2,
      if_neg hi0, hi]
    rfl
  · rw [childFork, get_exec, get_dup2_of_ne _ _ (by omega), get_dup2, if_neg (by omega),
      get_dup2_of_ne _ _ (by omega), ho]
    rfl
  · rw [childFork, get_exec, get_dup2, if_neg (by omega), get_dup2_of_ne _ _ (by omega),
      get_dup2_of_ne _ _ (by omega), he]
    rfl

/-- Everything that was opened is closed, and the copy is left. -/
theorem finish_sent (hop : Opened t ns t₁) (hps : ∀ m, m ∈ ps ↔ m ∈ ns)
    (hst : t₁.get st = some ⟨f, true⟩) :
    ∃ n t', finish t₁ true i o e st ps = some (t', some (childFork t₁ i o e, n)) ∧
      t₁.get n = none ∧ t.get n = none ∧
      ∀ m, t'.get m = if m = n then some ⟨f, false⟩ else t.get m := by
  have hfree := get_lowest t₁
  have hnot := hop.not_mem hfree
  refine ⟨t₁.lowest, _, by rw [finish, if_pos rfl, dup, hst]; rfl, hfree, ?_, fun m => ?_⟩
  · rw [← hop.other _ hnot]
    exact hfree
  · show ((t₁.alloc ⟨f, false⟩).2.closeAll ps).get m = _
    have hget : (t₁.alloc ⟨f, false⟩).2.get m = if m = t₁.lowest then some ⟨f, false⟩ else t₁.get m :=
      get_alloc t₁ m _
    rw [get_closeAll, hget]
    by_cases hmem : m ∈ ns
    · have hne : m ≠ t₁.lowest := fun h => hnot (h ▸ hmem)
      rw [if_pos ((hps m).2 hmem), if_neg hne, hop.free m hmem]
    · rw [if_neg (mt (hps m).1 hmem), hop.other m hmem]

theorem finish_unsent (hop : Opened t ns t₁) (hps : ∀ m, m ∈ ps ↔ m ∈ ns) :
    ∃ t', finish t₁ false i o e st ps = some (t', none) ∧ ∀ m, t'.get m = t.get m := by
  exact ⟨_, rfl, hop.get_closeAll hps⟩

/-- **A request**: `wshd` keeps the status pipe, as a copy without the flag, if it
    could send the descriptors, and nothing else. -/
structure Accepted (t : Table File) (r : ℕ) (tty : Bool) (t' : Table File) (c : Table File) (n : ℕ) :
    Prop where
  ge : 3 ≤ n
  free : t.get n = none
  get : ∀ m, t'.get m = if m = n then some ⟨status r tty, false⟩ else t.get m
  executed : Executed t r tty c

/-- Both handlers end alike. -/
theorem accepted_of_opened (hop : Opened t ns t₁) (hps : ∀ m, m ∈ ps ↔ m ∈ ns)
    (hst : t₁.get st = some ⟨status r tty, true⟩) (htaken : ∀ k < 3, t₁.get k ≠ none)
    (hi : t₁.get i = some ⟨stdio r tty 0, true⟩) (ho : t₁.get o = some ⟨stdio r tty 1, true⟩)
    (he : t₁.get e = some ⟨stdio r tty 2, true⟩) (hi0 : i ≠ 0) (ho3 : 3 ≤ o) (he3 : 3 ≤ e) :
    (∃ n t' c, finish t₁ true i o e st ps = some (t', some (c, n)) ∧ Accepted t r tty t' c n) ∧
    ∃ t', finish t₁ false i o e st ps = some (t', none) ∧ ∀ m, t'.get m = t.get m := by
  refine ⟨?_, finish_unsent hop hps⟩
  obtain ⟨n, t', hok, hfree₁, hfree, hget⟩ := finish_sent (i := i) (o := o) (e := e) hop hps hst
  obtain ⟨h₀, h₁, h₂⟩ := get_childFork_own hi ho he hi0 ho3 he3
  refine ⟨n, t', _, hok, ?_, hfree, hget, fun k hk => ?_, fun m hm => get_childFork hop hm⟩
  · exact Nat.le_of_not_lt fun hlt => htaken n hlt hfree₁
  · match k, hk with
    | 0, _ => exact h₀
    | 1, _ => exact h₁
    | 2, _ => exact h₂

/-- The connection is 1. -/
theorem opened_connection (h : Top t) {fd : ℕ} (hfd : t.allocCloexec (.connection r) = (fd, t₁)) :
    Opened t [fd] t₁ ∧ t₁.get 0 ≠ none ∧ t₁.get 1 ≠ none ∧ t₁.get 2 = none := by
  have hlow : t.lowest = 1 := by
    refine lowest_eq (fun k hk => ?_) h.one
    rw [Nat.lt_one_iff.1 hk]
    exact h.zero
  have hone : t.lowest = fd := congrArg Prod.fst hfd
  have hget := get_allocCloexec t (.connection r)
  rw [hfd] at hget
  refine ⟨(Opened.refl t).cons (f := .connection r) (hone ▸ get_lowest t) (hone ▸ hget), ?_⟩
  rw [hlow] at hget
  refine ⟨?_, ?_, ?_⟩
  · rw [hget]; exact h.zero
  · rw [hget]; exact Option.some_ne_none _
  · rw [hget]; exact h.two

/-- The first pipe begins at 2. -/
theorem first_pair {p : ℕ × ℕ} {t₂ : Table File} (h0 : t₁.get 0 ≠ none) (h1 : t₁.get 1 ≠ none)
    (h2 : t₁.get 2 = none) (hp : Pair t₁ f g p t₂) : p.1 = 2 ∧ ∀ k < 3, t₂.get k ≠ none := by
  have htwo : p.1 = 2 := by
    refine hp.fst.trans (lowest_eq (fun k hk => ?_) h2)
    match k, hk with
    | 0, _ => exact h0
    | 1, _ => exact h1
  refine ⟨htwo, fun k hk => ?_⟩
  match k, hk with
  | 0, _ => rw [hp.keeps h0]; exact h0
  | 1, _ => rw [hp.keeps h1]; exact h1
  | 2, _ => rw [← htwo, hp.get_fst]; exact Option.some_ne_none _

theorem accepted_interactive (h : Top t) (r : ℕ) :
    (∃ n t' c, childAccept t r true true = some (t', some (c, n)) ∧ Accepted t r true t' c n) ∧
    ∃ t', childAccept t r true false = some (t', none) ∧ ∀ m, t'.get m = t.get m := by
  rcases hfd : t.allocCloexec (.connection r) with ⟨fd, t₁⟩
  rcases hA₁ : t₁.allocPair (.reading r 1) (.writing r 1) with ⟨p₁, t₂⟩
  rcases hA₀ : t₂.allocPair (.master r) (.slave r) with ⟨p₀, t₃⟩
  obtain ⟨hop, h0, h1, h2⟩ := opened_connection h hfd
  have hp₁ := pair_of_allocPair hA₁
  have hp₀ := pair_of_allocPair hA₀
  obtain ⟨-, htaken⟩ := first_pair h0 h1 h2 hp₁
  obtain ⟨-, hge⟩ := hp₀.ge htaken
  simp only [childAccept, hfd, childHandleInteractive, hA₁, hA₀, if_true]
  refine accepted_of_opened ((hop.pair hp₁).pair hp₀) (fun m => ?_) (hp₀.still hp₁.get_snd)
    (hp₀.taken htaken) hp₀.get_snd hp₀.get_snd hp₀.get_snd (by omega) hge hge
  simp only [List.mem_cons, List.not_mem_nil, or_false]
  grind

theorem accepted_noninteractive (h : Top t) (r : ℕ) :
    (∃ n t' c, childAccept t r false true = some (t', some (c, n)) ∧ Accepted t r false t' c n) ∧
    ∃ t', childAccept t r false false = some (t', none) ∧ ∀ m, t'.get m = t.get m := by
  rcases hfd : t.allocCloexec (.connection r) with ⟨fd, t₁⟩
  rcases hA₀ : t₁.allocPair (.reading r 0) (.writing r 0) with ⟨p₀, t₂⟩
  rcases hA₁ : t₂.allocPair (.reading r 1) (.writing r 1) with ⟨p₁, t₃⟩
  rcases hA₂ : t₃.allocPair (.reading r 2) (.writing r 2) with ⟨p₂, t₄⟩
  rcases hA₃ : t₄.allocPair (.reading r 3) (.writing r 3) with ⟨p₃, t₅⟩
  obtain ⟨hop, h0, h1, h2⟩ := opened_connection h hfd
  have hp₀ := pair_of_allocPair hA₀
  have hp₁ := pair_of_allocPair hA₁
  have hp₂ := pair_of_allocPair hA₂
  have hp₃ := pair_of_allocPair hA₃
  obtain ⟨htwo, htaken₂⟩ := first_pair h0 h1 h2 hp₀
  have htaken₃ := hp₁.taken htaken₂
  have htaken₄ := hp₂.taken htaken₃
  simp only [childAccept, hfd, childHandleNoninteractive, hA₀, hA₁, hA₂, hA₃, Bool.false_eq_true,
    if_false]
  refine accepted_of_opened ((((hop.pair hp₀).pair hp₁).pair hp₂).pair hp₃) (fun m => ?_) hp₃.get_snd
    (hp₃.taken htaken₄) (hp₃.still (hp₂.still (hp₁.still hp₀.get_fst)))
    (hp₃.still (hp₂.still hp₁.get_snd)) (hp₃.still hp₂.get_snd) (by omega) (hp₁.ge htaken₂).2
    (hp₂.ge htaken₃).2
  simp only [List.mem_cons, List.not_mem_nil, or_false]
  grind

/-- **What a request leaves.** -/
theorem childAccept_spec (h : Top t) (r : ℕ) (tty : Bool) :
    (∃ n t' c, childAccept t r tty true = some (t', some (c, n)) ∧ Accepted t r tty t' c n) ∧
    ∃ t', childAccept t r tty false = some (t', none) ∧ ∀ m, t'.get m = t.get m := by
  cases tty with
  | true => exact accepted_interactive h r
  | false => exact accepted_noninteractive h r

theorem childAcceptEmpty_get (h : Top t) (r m : ℕ) : (childAcceptEmpty t r).get m = t.get m := by
  rcases hfd : t.allocCloexec (.connection r) with ⟨fd, t₁⟩
  obtain ⟨hop, -⟩ := opened_connection h hfd
  simp only [childAcceptEmpty, hfd]
  exact hop.get_closeAll (fun m => Iff.rfl) m

/-! ## The loop -/

/-- A command: what it was started with, the copy of its status pipe in `wshd`, the
    commands that were not reaped then, and whether it runs and is reaped. -/
structure Command where
  pid : ℕ
  tty : Bool
  fds : Table File
  fd : ℕ
  earlier : List ℕ
  running : Bool
  reaped : Bool

/-- `wshd`, and the commands in the order of the requests. -/
structure State where
  fds : Table File
  w : Wshd
  commands : List Command

/-- A client comes, without a request or with one, and is still there for the
    answer; a command ends; a child is reaped. -/
inductive Event where
  | connect
  | request (tty sent : Bool) (pid : ℕ)
  | exit (pid : ℕ)
  | sigchld (pid : ℕ)
  deriving DecidableEq, Repr

def Command.exit (pid : ℕ) (c : Command) : Command :=
  if c.pid = pid ∧ c.reaped = false then { c with running := false } else c

def Command.reap (pid : ℕ) (c : Command) : Command :=
  if c.pid = pid ∧ c.reaped = false then { c with reaped := true } else c

/-- The commands that are not reaped. -/
def unreaped (cs : List Command) : List ℕ :=
  (List.range cs.length).filter fun r => cs[r]?.any (!·.reaped)

def State.handle (s : State) : Event → Option State
  | .connect => some { s with fds := childAcceptEmpty s.fds s.commands.length }
  | .request tty sent pid =>
    match childAccept s.fds s.commands.length tty sent with
    | none => none
    | some (fds, none) => some { s with fds }
    | some (fds, some (c, n)) =>
      match s.w.childPidToFdAdd pid (some n) with
      | .error _ => none
      | .ok w =>
        some ⟨fds, w, s.commands ++ [⟨pid, tty, c, n, unreaped s.commands, true, false⟩]⟩
  | .exit pid => some { s with commands := s.commands.map (Command.exit pid) }
  | .sigchld pid =>
    let (w, fd) := s.w.childPidToFdRemove pid
    -- processes can be reparented, so a pid may not map to an fd
    some ⟨(fd.map s.fds.close).getD s.fds, w, s.commands.map (Command.reap pid)⟩

/-- A pid is not that of another child, and a child is reaped after its end. -/
def State.Permits (s : State) : Event → Prop
  | .connect | .exit _ => True
  | .request _ _ pid => pid ∉ s.w.pidToFd.map Prod.fst
  | .sigchld pid => ∀ c ∈ s.commands, c.pid = pid → c.reaped = false → c.running = false

instance (s : State) (e : Event) : Decidable (s.Permits e) := by
  unfold State.Permits
  split <;> infer_instance

def Step (s : State) (e : Event) (s' : State) : Prop := s.Permits e ∧ s.handle e = some s'

/-- What `wshd` has before its loop: 0, 1 and 2, and the socket above them. -/
def inherited (k : ℕ) : Table File :=
  Table.put ⟨[some ⟨.standard 0, false⟩, some ⟨.standard 1, false⟩, some ⟨.standard 2, false⟩]⟩ (k + 3)
    (some ⟨.socket, true⟩)

/-- The beginning of `child_loop`. -/
def start (k : ℕ) : State where
  fds := (((inherited k).closeAll [0, 1, 2]).alloc ⟨.signalfd, true⟩).2
  w := ⟨[], []⟩
  commands := []

/-! ## What is known -/

variable {s s' : State} {k : ℕ} {cs : List Command} {c : Command}

/-- The descriptors of `wshd`: its own, and one for each command not reaped. -/
def Keeps (k : ℕ) (cs : List Command) (n : ℕ) (e : Entry File) : Prop :=
  (n = 0 ∧ e = ⟨.signalfd, true⟩) ∨ (n = k + 3 ∧ e = ⟨.socket, true⟩) ∨
  ∃ r c, cs[r]? = some c ∧ c.reaped = false ∧ c.fd = n ∧ e = ⟨status r c.tty, false⟩

/-- What the command `r` was started with. -/
structure Started (cs : List Command) (r : ℕ) (c : Command) : Prop where
  ge : 3 ≤ c.fd
  own : ∀ n < 3, c.fds.get n = some ⟨stdio r c.tty n, false⟩
  others : ∀ m, 3 ≤ m → ∀ e, c.fds.get m = some e ↔
    ∃ r' ∈ c.earlier, ∃ c', cs[r']? = some c' ∧ c'.fd = m ∧ e = ⟨status r' c'.tty, false⟩
  earlier : ∀ r' ∈ c.earlier, r' < r

/-- What is known in every state. -/
structure Known (k : ℕ) (s : State) : Prop where
  fds : ∀ n e, s.fds.get n = some e ↔ Keeps k s.commands n e
  table : s.w.pidToFd = (s.commands.filter (!·.reaped)).map fun c => (c.pid, c.fd)
  pids : s.commands.Pairwise fun c c' => c.reaped = false → c'.reaped = false → c.pid ≠ c'.pid
  started : ∀ r c, s.commands[r]? = some c → Started s.commands r c

theorem Known.top (h : Known k s) : Top s.fds := by
  have hnone {n : ℕ} (h0 : n ≠ 0) (h3 : n < 3) : s.fds.get n = none := by
    rw [Option.eq_none_iff_forall_ne_some]
    intro e he
    rcases (h.fds n e).1 he with ⟨hn, -⟩ | ⟨hn, -⟩ | ⟨r, c, hc, -, hn, -⟩
    · exact h0 hn
    · omega
    · have hge := (h.started r c hc).ge
      omega
  refine ⟨?_, hnone (by omega) (by omega), hnone (by omega) (by omega)⟩
  rw [(h.fds 0 _).2 (.inl ⟨rfl, rfl⟩)]
  exact Option.some_ne_none _

theorem get_start (k n : ℕ) : (start k).fds.get n =
    if n = 0 then some ⟨.signalfd, true⟩ else if n = k + 3 then some ⟨.socket, true⟩ else none := by
  set t := (inherited k).closeAll [0, 1, 2] with ht
  have hget : ∀ m, t.get m = if m = k + 3 then some ⟨.socket, true⟩ else none := by
    intro m
    rw [ht, get_closeAll, inherited, get_put]
    by_cases hm : m = k + 3
    · rw [if_pos hm, if_pos hm, if_neg (by simp; omega)]
    · rw [if_neg hm, if_neg hm]
      rcases m with _ | _ | _ | m
      · rfl
      · rfl
      · rfl
      · rfl
  have hlow : t.lowest = 0 := lowest_eq (fun k hk => absurd hk (Nat.not_lt_zero k)) (by
    rw [hget, if_neg (by omega)])
  show (t.alloc ⟨.signalfd, true⟩).2.get n = _
  rw [get_alloc]
  show (if n = t.lowest then _ else _) = _
  rw [hlow, hget]

theorem known_start (k : ℕ) : Known k (start k) where
  fds n e := by
    rw [get_start]
    have hno : ∀ (r : ℕ) (c : Command), (start k).commands[r]? ≠ some c := fun r c hc => by cases hc
    constructor
    · intro hget
      split_ifs at hget with h0 h3
      · exact .inl ⟨h0, (Option.some.inj hget).symm⟩
      · exact .inr (.inl ⟨h3, (Option.some.inj hget).symm⟩)
    · rintro (⟨rfl, rfl⟩ | ⟨rfl, rfl⟩ | ⟨r, c, hc, -⟩)
      · rfl
      · rw [if_neg (by omega), if_pos rfl]
      · exact absurd hc (hno r c)
  table := rfl
  pids := .nil
  started r c hc := by cases hc

/-! ### Requests -/

/-- The same descriptors, and the same commands. -/
theorem Known.of_get (h : Known k s) {t : Table File} (ht : ∀ m, t.get m = s.fds.get m) :
    Known k { s with fds := t } :=
  ⟨fun n e => by rw [ht]; exact h.fds n e, h.table, h.pids, h.started⟩

theorem Started.append (h : Started cs r c) (hr : r ≤ cs.length) (cs' : List Command) :
    Started (cs ++ cs') r c := by
  refine ⟨h.ge, h.own, fun m hm e => (h.others m hm e).trans ?_, h.earlier⟩
  refine exists_congr fun r' => and_congr_right fun hr' => ?_
  rw [List.getElem?_append_left (Nat.lt_of_lt_of_le (h.earlier r' hr') hr)]

theorem mem_unreaped : r ∈ unreaped cs ↔ ∃ c, cs[r]? = some c ∧ c.reaped = false := by
  rw [unreaped, List.mem_filter, List.mem_range, Option.any_eq_true]
  constructor
  · rintro ⟨-, c, hc, hreaped⟩
    exact ⟨c, hc, by simpa using hreaped⟩
  · rintro ⟨c, hc, hreaped⟩
    exact ⟨(List.getElem?_eq_some_iff.1 hc).1, c, hc, by simp [hreaped]⟩

/-- A new command has what `wshd` keeps without the flag. -/
theorem Known.started_new (h : Known k s) {pid n : ℕ} {t : Table File} (hn : 3 ≤ n)
    (hex : Executed s.fds s.commands.length tty t) :
    Started s.commands s.commands.length ⟨pid, tty, t, n, unreaped s.commands, true, false⟩ := by
  refine ⟨hn, hex.own, fun m hm e => ?_, fun r' hr' => ?_⟩
  · rw [hex.others m hm, Option.filter_eq_some_iff, h.fds]
    constructor
    · rintro ⟨hkeeps, hflag⟩
      rcases hkeeps with ⟨-, rfl⟩ | ⟨-, rfl⟩ | ⟨r, c, hc, hreaped, hfd, rfl⟩
      · cases hflag
      · cases hflag
      · exact ⟨r, mem_unreaped.2 ⟨c, hc, hreaped⟩, c, hc, hfd, rfl⟩
    · rintro ⟨r, hr, c, hc, hfd, rfl⟩
      obtain ⟨c', hc', hreaped⟩ := mem_unreaped.1 hr
      rw [hc, Option.some.injEq] at hc'
      exact ⟨.inr (.inr ⟨r, c, hc, hc' ▸ hreaped, hfd, rfl⟩), rfl⟩
  · obtain ⟨c, hc, -⟩ := mem_unreaped.1 hr'
    exact (List.getElem?_eq_some_iff.1 hc).1

theorem getElem?_concat_iff {c' : Command} :
    (cs ++ [c])[r]? = some c' ↔ cs[r]? = some c' ∨ (r = cs.length ∧ c' = c) := by
  rcases Nat.lt_trichotomy r cs.length with hlt | rfl | hgt
  · rw [List.getElem?_append_left hlt]
    exact (or_iff_left fun h => Nat.ne_of_lt hlt h.1).symm
  · rw [List.getElem?_concat_length, List.getElem?_eq_none (Nat.le_refl _), Option.some.injEq]
    simp [eq_comm]
  · rw [List.getElem?_eq_none (by rw [List.length_append]; exact hgt),
      List.getElem?_eq_none (Nat.le_of_lt hgt)]
    simp [Nat.ne_of_gt hgt]

/-- A new command has a descriptor of its own. -/
theorem keeps_append {n : ℕ} {e : Entry File} (hc : c.reaped = false) :
    Keeps k (cs ++ [c]) n e ↔
      (n = c.fd ∧ e = ⟨status cs.length c.tty, false⟩) ∨ Keeps k cs n e := by
  constructor
  · rintro (h | h | ⟨r, c', hc', hreaped, hfd, rfl⟩)
    · exact .inr (.inl h)
    · exact .inr (.inr (.inl h))
    · rcases getElem?_concat_iff.1 hc' with hc' | ⟨rfl, rfl⟩
      · exact .inr (.inr (.inr ⟨r, c', hc', hreaped, hfd, rfl⟩))
      · exact .inl ⟨hfd.symm, rfl⟩
  · rintro (⟨rfl, rfl⟩ | h | h | ⟨r, c', hc', hreaped, hfd, rfl⟩)
    · exact .inr (.inr ⟨_, c, getElem?_concat_iff.2 (.inr ⟨rfl, rfl⟩), hc, rfl, rfl⟩)
    · exact .inl h
    · exact .inr (.inl h)
    · exact .inr (.inr ⟨r, c', getElem?_concat_iff.2 (.inl hc'), hreaped, hfd, rfl⟩)

theorem Known.append (h : Known k s) {pid n : ℕ} {t t' : Table File}
    (hpid : pid ∉ s.w.pidToFd.map Prod.fst) (hacc : Accepted s.fds s.commands.length tty t' t n) :
    Known k ⟨t', { s.w with pidToFd := s.w.pidToFd ++ [(pid, n)] },
      s.commands ++ [⟨pid, tty, t, n, unreaped s.commands, true, false⟩]⟩ where
  fds m e := by
    rw [hacc.get, keeps_append rfl]
    by_cases hm : m = n
    · subst hm
      have hno : ¬ Keeps k s.commands m e := by
        rw [← h.fds, hacc.free]
        exact fun hnone => by cases hnone
      rw [if_pos rfl, or_iff_left hno, Option.some.injEq]
      simp [eq_comm]
    · rw [if_neg hm, h.fds, or_iff_right fun h => hm h.1]
  table := by simp [h.table]
  pids := by
    rw [List.pairwise_append]
    refine ⟨h.pids, List.pairwise_singleton _ _, fun c hc c' hc' hreaped _ => ?_⟩
    rw [List.mem_singleton.1 hc']
    rintro rfl
    refine hpid ?_
    rw [h.table, List.map_map]
    exact List.mem_map.2 ⟨c, List.mem_filter.2 ⟨hc, by simp [hreaped]⟩, rfl⟩
  started r c hc := by
    rcases getElem?_concat_iff.1 hc with hc | ⟨rfl, rfl⟩
    · exact (h.started r c hc).append (Nat.le_of_lt (List.getElem?_eq_some_iff.1 hc).1) _
    · exact (h.started_new hacc.ge hacc.executed).append (Nat.le_refl _) _

/-! ### Ends of commands -/

/-- A change to `running` and `reaped` only. -/
structure Flags (g : Command → Command) : Prop where
  pid : ∀ c, (g c).pid = c.pid
  tty : ∀ c, (g c).tty = c.tty
  fds : ∀ c, (g c).fds = c.fds
  fd : ∀ c, (g c).fd = c.fd
  earlier : ∀ c, (g c).earlier = c.earlier

theorem flags_exit (pid : ℕ) : Flags (Command.exit pid) := by
  constructor <;> intro c <;> unfold Command.exit <;> split <;> rfl

theorem flags_reap (pid : ℕ) : Flags (Command.reap pid) := by
  constructor <;> intro c <;> unfold Command.reap <;> split <;> rfl

theorem Started.map {g : Command → Command} (hg : Flags g) (h : Started cs r c) :
    Started (cs.map g) r (g c) := by
  refine ⟨hg.fd c ▸ h.ge, fun n hn => by rw [hg.fds, hg.tty, h.own n hn], fun m hm e => ?_,
    fun r' hr' => h.earlier r' (hg.earlier c ▸ hr')⟩
  rw [hg.fds, h.others m hm e, hg.earlier]
  refine exists_congr fun r' => and_congr_right fun _ => ?_
  rw [List.getElem?_map]
  constructor
  · rintro ⟨c', hc', hm, he⟩
    exact ⟨g c', by rw [hc']; rfl, (hg.fd c').trans hm, by rw [hg.tty]; exact he⟩
  · rintro ⟨c', hc', hm, he⟩
    obtain ⟨c'', hc'', rfl⟩ := Option.map_eq_some_iff.1 hc'
    exact ⟨c'', hc'', (hg.fd c'').symm.trans hm, by rw [← hg.tty c'']; exact he⟩

theorem Known.started_map (h : Known k s) {g : Command → Command} (hg : Flags g) (r : ℕ) (c : Command)
    (hc : (s.commands.map g)[r]? = some c) : Started (s.commands.map g) r c := by
  rw [List.getElem?_map] at hc
  obtain ⟨c₀, hc₀, rfl⟩ := Option.map_eq_some_iff.1 hc
  exact (h.started r c₀ hc₀).map hg

/-- A command that is reaped after the change was not before. -/
theorem Known.pids_map (h : Known k s) {g : Command → Command} (hg : Flags g)
    (hreaped : ∀ c, (g c).reaped = false → c.reaped = false) :
    (s.commands.map g).Pairwise fun c c' => c.reaped = false → c'.reaped = false → c.pid ≠ c'.pid := by
  rw [List.pairwise_map]
  refine h.pids.imp fun {c c'} hne hc hc' => ?_
  rw [hg.pid, hg.pid]
  exact hne (hreaped c hc) (hreaped c' hc')

theorem keeps_map {g : Command → Command} (hg : Flags g) {n : ℕ} {e : Entry File} :
    Keeps k (cs.map g) n e ↔ (n = 0 ∧ e = ⟨.signalfd, true⟩) ∨ (n = k + 3 ∧ e = ⟨.socket, true⟩) ∨
      ∃ r c, cs[r]? = some c ∧ (g c).reaped = false ∧ c.fd = n ∧ e = ⟨status r c.tty, false⟩ := by
  refine or_congr_right (or_congr_right (exists_congr fun r => ?_))
  rw [List.getElem?_map]
  constructor
  · rintro ⟨c, hc, hrest⟩
    obtain ⟨c₀, hc₀, rfl⟩ := Option.map_eq_some_iff.1 hc
    rw [hg.fd, hg.tty] at hrest
    exact ⟨c₀, hc₀, hrest⟩
  · rintro ⟨c, hc, hrest⟩
    refine ⟨g c, by rw [hc]; rfl, ?_⟩
    rw [hg.fd, hg.tty]
    exact hrest

theorem Known.exit (h : Known k s) (pid : ℕ) :
    Known k { s with commands := s.commands.map (Command.exit pid) } := by
  have hreaped : ∀ c : Command, (c.exit pid).reaped = c.reaped := by
    intro c
    unfold Command.exit
    split <;> rfl
  have hg := flags_exit pid
  refine ⟨fun n e => ?_, ?_, h.pids_map hg fun c hc => hreaped c ▸ hc, h.started_map hg⟩
  · rw [keeps_map hg, h.fds]
    simp only [hreaped]
    rfl
  · have hcomp : ((!·.reaped) ∘ Command.exit pid) = (!·.reaped) := by
      funext c
      simp [hreaped]
    rw [h.table, List.filter_map, hcomp, List.map_map]
    refine List.map_congr_left fun c _ => ?_
    simp [hg.pid, hg.fd]

/-- Two commands with one descriptor, neither of them reaped, are one. -/
theorem Known.fd_inj (h : Known k s) {r r' : ℕ} {c c' : Command} (hc : s.commands[r]? = some c)
    (hc' : s.commands[r']? = some c') (hr : c.reaped = false) (hr' : c'.reaped = false)
    (hfd : c'.fd = c.fd) : r' = r := by
  have he := (h.fds c.fd _).2 (.inr (.inr ⟨r, c, hc, hr, rfl, rfl⟩))
  have he' := (h.fds c.fd _).2 (.inr (.inr ⟨r', c', hc', hr', hfd, rfl⟩))
  rw [he, Option.some.injEq, Entry.mk.injEq] at he'
  simp only [status, File.writing.injEq] at he'
  exact he'.1.1.symm

theorem Known.pid_inj (h : Known k s) {r r' : ℕ} {c c' : Command} (hc : s.commands[r]? = some c)
    (hc' : s.commands[r']? = some c') (hr : c.reaped = false) (hr' : c'.reaped = false)
    (hpid : c'.pid = c.pid) : r' = r := by
  obtain ⟨hlt, rfl⟩ := List.getElem?_eq_some_iff.1 hc
  obtain ⟨hlt', rfl⟩ := List.getElem?_eq_some_iff.1 hc'
  have hpair := List.pairwise_iff_getElem.1 h.pids
  rcases Nat.lt_trichotomy r' r with hlt₂ | heq | hlt₂
  · exact absurd hpid (hpair r' r hlt' hlt hlt₂ hr' hr)
  · exact heq
  · exact absurd hpid.symm (hpair r r' hlt hlt' hlt₂ hr hr')

theorem reap_reaped (pid : ℕ) (c : Command) :
    (c.reap pid).reaped = false ↔ c.reaped = false ∧ c.pid ≠ pid := by
  unfold Command.reap
  split
  · next h => simp [h.1]
  · next h => exact ⟨fun hr => ⟨hr, fun hp => h ⟨hp, hr⟩⟩, fun hr => hr.1⟩

theorem filter_reap (cs : List Command) (pid : ℕ) :
    (cs.map (Command.reap pid)).filter (!·.reaped) =
      ((cs.filter (!·.reaped)).filter (·.pid ≠ pid)).map (Command.reap pid) := by
  rw [List.filter_map, List.filter_filter]
  congr 2
  funext c
  rw [Bool.eq_iff_iff]
  simp only [Function.comp_apply, Bool.not_eq_true', Bool.and_eq_true, decide_eq_true_eq]
  rw [reap_reaped, and_comm]

theorem Known.table_pairwise (h : Known k s) :
    s.w.pidToFd.Pairwise fun e e' => e.1 ≠ e'.1 := by
  rw [h.table, List.pairwise_map, List.pairwise_filter]
  exact h.pids.imp fun {c c'} hne hc hc' => hne (by simpa using hc) (by simpa using hc')

/-- The table without the entry of a pid. -/
theorem Known.table_sigchld (h : Known k s) (pid : ℕ) :
    (s.w.childPidToFdRemove pid).1.pidToFd =
      ((s.commands.map (Command.reap pid)).filter (!·.reaped)).map fun c => (c.pid, c.fd) := by
  rw [PidTable.remove_pidToFd, PidTable.eraseP_eq_filter h.table_pairwise, h.table, List.filter_map,
    filter_reap, List.map_map]
  refine List.map_congr_left fun c _ => ?_
  simp [(flags_reap pid).pid, (flags_reap pid).fd]

/-- The descriptor of a pid in the table. -/
theorem Known.fd_sigchld (h : Known k s) (pid : ℕ) :
    (∃ (r : ℕ) (c : Command), s.commands[r]? = some c ∧ c.reaped = false ∧ c.pid = pid ∧
      (s.w.childPidToFdRemove pid).2 = some c.fd) ∨
    (∀ (r : ℕ) (c : Command), s.commands[r]? = some c → c.reaped = false → c.pid ≠ pid) ∧
      (s.w.childPidToFdRemove pid).2 = none := by
  rw [PidTable.remove_fd, h.table, List.find?_map, Option.map_map]
  cases hfind : (s.commands.filter (!·.reaped)).find?
      ((fun e : ℕ × ℕ => decide (e.1 = pid)) ∘ fun c => (c.pid, c.fd)) with
  | some c =>
    obtain ⟨hmem, hreaped⟩ := List.mem_filter.1 (List.mem_of_find?_eq_some hfind)
    obtain ⟨r, hr⟩ := List.mem_iff_getElem?.1 hmem
    exact .inl ⟨r, c, hr, by simpa using hreaped, by simpa using List.find?_some hfind, rfl⟩
  | none =>
    refine .inr ⟨fun r c hc hreaped hpid => ?_, rfl⟩
    have hmem : c ∈ s.commands.filter (!·.reaped) :=
      List.mem_filter.2 ⟨List.mem_of_getElem? hc, by rw [hreaped]; rfl⟩
    exact List.find?_eq_none.1 hfind c hmem (by simp [hpid])

theorem Known.sigchld (h : Known k s) (pid : ℕ) :
    Known k ⟨((s.w.childPidToFdRemove pid).2.map s.fds.close).getD s.fds,
      (s.w.childPidToFdRemove pid).1, s.commands.map (Command.reap pid)⟩ := by
  have hg := flags_reap pid
  refine ⟨fun n e => ?_, h.table_sigchld pid,
    h.pids_map hg fun c hc => ((reap_reaped pid c).1 hc).1, h.started_map hg⟩
  rw [keeps_map hg]
  simp only [reap_reaped]
  rcases h.fd_sigchld pid with ⟨r, c, hc, hreaped, hpid, hfd⟩ | ⟨hno, hfd⟩
  · rw [hfd, Option.map_some, Option.getD_some, get_close]
    have hkept := (h.fds c.fd _).2 (.inr (.inr ⟨r, c, hc, hreaped, rfl, rfl⟩))
    by_cases hn : n = c.fd
    · -- the descriptor was that of the status pipe, and nothing else
      subst hn
      rw [if_pos rfl]
      refine iff_of_false (fun hnone => by cases hnone) ?_
      rintro (⟨hn, -⟩ | ⟨hn, -⟩ | ⟨r', c', hc', ⟨hr', hp'⟩, hfd', -⟩)
      · have hge := (h.started r c hc).ge
        omega
      · rw [(h.fds c.fd _).2 (.inr (.inl ⟨hn, rfl⟩))] at hkept
        cases hkept
      · obtain rfl := h.fd_inj hc hc' hreaped hr' hfd'
        rw [hc, Option.some.injEq] at hc'
        exact hp' (hc' ▸ hpid)
    · rw [if_neg hn, h.fds]
      refine or_congr_right (or_congr_right (exists_congr fun r' => exists_congr fun c' =>
        and_congr_right fun hc' => ?_))
      constructor
      · rintro ⟨hr', hfd', he⟩
        refine ⟨⟨hr', fun hp' => hn ?_⟩, hfd', he⟩
        obtain rfl := h.pid_inj hc hc' hreaped hr' (hp'.trans hpid.symm)
        rw [hc, Option.some.injEq] at hc'
        rw [← hfd', hc']
      · rintro ⟨⟨hr', -⟩, hrest⟩
        exact ⟨hr', hrest⟩
  · rw [hfd, Option.map_none, Option.getD_none, h.fds]
    refine or_congr_right (or_congr_right (exists_congr fun r' => exists_congr fun c' =>
      and_congr_right fun hc' => ?_))
    exact ⟨fun hr => ⟨⟨hr.1, hno r' c' hc' hr.1⟩, hr.2⟩, fun hr => ⟨hr.1.1, hr.2⟩⟩

/-! ## Runs -/

theorem known_step {e : Event} (h : Known k s) (hs : Step s e s') : Known k s' := by
  obtain ⟨hpermits, hs⟩ := hs
  cases e with
  | connect =>
    cases hs
    exact h.of_get fun m => childAcceptEmpty_get h.top _ m
  | exit pid => cases hs; exact h.exit pid
  | sigchld pid => cases hs; exact h.sigchld pid
  | request tty sent pid =>
    obtain ⟨⟨n, t', c, hsent, hacc⟩, t'', hunsent, hget⟩ :=
      childAccept_spec h.top s.commands.length tty
    cases sent with
    | false =>
      simp only [State.handle, hunsent, Option.some.injEq] at hs
      subst hs
      exact h.of_get hget
    | true =>
      simp only [State.handle, hsent, Wshd.childPidToFdAdd, Option.some.injEq] at hs
      subst hs
      exact h.append hpermits hacc

theorem known_of_run {es : List Event} (h : Run Step (start k) es s) : Known k s :=
  h.invariant (known_start k) fun _ _ _ => known_step

/-- A command is started while another one runs, which is then killed. -/
def killed : List Event :=
  [.request false true 5, .request true true 6, .exit 5, .sigchld 5]

theorem killed_run : ∃ s, Run Step (start 0) killed s ∧ ∃ c c' : Command,
    s.commands[0]? = some c ∧ c.reaped = true ∧ s.commands[1]? = some c' ∧ c'.running = true ∧
      c'.earlier = [0] := by
  obtain ⟨s, hr, h₀, h₁⟩ : ∃ s, Run Step (start 0) killed s ∧
      (s.commands[0]?.any (fun c : Command => c.reaped) = true ∧
        s.commands[1]?.any (fun c : Command => c.running && decide (c.earlier = [0])) = true) :=
    exists_guarded_run (by decide +kernel)
  obtain ⟨c, hc, hreaped⟩ := (Option.any_eq_true _ _).1 h₀
  obtain ⟨c', hc', hrun⟩ := (Option.any_eq_true _ _).1 h₁
  rw [Bool.and_eq_true, decide_eq_true_eq] at hrun
  exact ⟨s, hr, c, c', hc, hreaped, hc', hrun⟩

/-- **`wshd` leaks nothing**: between requests it has its socket and its signals,
    and one descriptor for each command that is not reaped. -/
theorem wshd_descriptors {es : List Event} (h : Run Step (start k) es s) (n : ℕ) (e : Entry File) :
    s.fds.get n = some e ↔ Keeps k s.commands n e := (known_of_run h).fds n e

theorem wshd_descriptors_killed : ∃ s, Run Step (start 0) killed s ∧
    ∀ n e, s.fds.get n = some e ↔ Keeps 0 s.commands n e := by
  obtain ⟨s, hr, -⟩ := killed_run
  exact ⟨s, hr, wshd_descriptors hr⟩

/-- **A command has the status pipes of others**: besides its input and outputs it
    has a descriptor for each command that was not reaped when it was started, so
    it has nothing else only when there was none. -/
theorem command_descriptors {es : List Event} (h : Run Step (start k) es s)
    (hc : s.commands[r]? = some c) :
    (∀ n < 3, c.fds.get n = some ⟨stdio r c.tty n, false⟩) ∧
    (∀ m, 3 ≤ m → ∀ e, c.fds.get m = some e ↔
      ∃ r' ∈ c.earlier, ∃ c', s.commands[r']? = some c' ∧ c'.fd = m ∧
        e = ⟨status r' c'.tty, false⟩) ∧
    ((∀ m, 3 ≤ m → c.fds.get m = none) ↔ c.earlier = []) := by
  have hknown := known_of_run h
  have hstarted := hknown.started r c hc
  refine ⟨hstarted.own, hstarted.others, ?_⟩
  rw [List.eq_nil_iff_forall_not_mem]
  constructor
  · intro hnone r' hr'
    have hlt := (hstarted.earlier r' hr').trans (List.getElem?_eq_some_iff.1 hc).1
    have hc' := List.getElem?_eq_getElem hlt
    have hge := (hknown.started r' _ hc').ge
    have hsome := (hstarted.others _ hge _).2 ⟨r', hr', _, hc', rfl, rfl⟩
    rw [hnone _ hge] at hsome
    cases hsome
  · intro hnil m hm
    rw [Option.eq_none_iff_forall_ne_some]
    intro e he
    obtain ⟨r', hr', -⟩ := (hstarted.others m hm e).1 he
    exact hnil r' hr'

/-- The command that runs has the status pipe of the one that was killed. -/
theorem command_descriptors_killed : ∃ s, Run Step (start 0) killed s ∧ ∃ c c' : Command,
    s.commands[0]? = some c ∧ c.reaped = true ∧ s.commands[1]? = some c' ∧
      ∃ m, 3 ≤ m ∧ c'.fds.get m = some ⟨status 0 c.tty, false⟩ := by
  obtain ⟨s, hr, c, c', hc, hreaped, hc', -, hearlier⟩ := killed_run
  have hge := ((known_of_run hr).started 0 c hc).ge
  refine ⟨s, hr, c, c', hc, hreaped, hc', c.fd, hge, ?_⟩
  exact ((command_descriptors hr hc').2.1 c.fd hge _).2 ⟨0, by simp [hearlier], c, hc, rfl, rfl⟩

/-- `wshd` or a command holds the file, the command running with what it was started
    with; what a command has forked is left out. -/
def State.Holds (s : State) (f : File) : Prop :=
  (∃ n e, s.fds.get n = some e ∧ e.file = f) ∨
  ∃ (r : ℕ) (c : Command), s.commands[r]? = some c ∧ c.running = true ∧
    ∃ n e, c.fds.get n = some e ∧ e.file = f

theorem status_inj {r r' : ℕ} {tty tty' : Bool} (h : status r tty = status r' tty') : r = r' :=
  (File.writing.inj h).1

/-- A command does not hold its own status pipe. -/
theorem stdio_ne_status {r r' n : ℕ} {tty tty' : Bool} (hn : n < 3) (htty : r = r' → tty = tty') :
    stdio r tty n ≠ status r' tty' := by
  intro heq
  cases tty with
  | true =>
    match n, hn with
    | 0, _ | 1, _ | 2, _ => cases heq
  | false =>
    match n, hn with
    | 0, _ => cases heq
    | 1, _ | 2, _ =>
      obtain ⟨rfl, hpipe⟩ := File.writing.inj heq
      rw [← htty rfl] at hpipe
      cases hpipe

/-- **When the status pipe of a command has an end** as far as `wshd` and the commands
    hold it: it has none before the command is reaped, and none as long as a command runs
    that was started before that.  The client of a command that a signal has ended waits
    for all of them. -/
theorem status_open_iff {es : List Event} (h : Run Step (start k) es s)
    (hc : s.commands[r]? = some c) :
    s.Holds (status r c.tty) ↔ c.reaped = false ∨
      ∃ (r' : ℕ) (c' : Command), s.commands[r']? = some c' ∧ c'.running = true ∧ r ∈ c'.earlier := by
  have hknown := known_of_run h
  constructor
  · rintro (⟨n, e, he, hfile⟩ | ⟨r', c', hc', hrun, n, e, he, hfile⟩)
    · rcases (hknown.fds n e).1 he with ⟨-, rfl⟩ | ⟨-, rfl⟩ | ⟨r', c', hc', hreaped, -, rfl⟩
      · cases hfile
      · cases hfile
      · cases status_inj hfile
        rw [hc, Option.some.injEq] at hc'
        exact .inl (hc' ▸ hreaped)
    · have hstarted := hknown.started r' c' hc'
      by_cases hn : n < 3
      · rw [hstarted.own n hn, Option.some.injEq] at he
        subst he
        refine absurd hfile (stdio_ne_status hn ?_)
        rintro rfl
        rw [hc, Option.some.injEq] at hc'
        rw [hc']
      · obtain ⟨r'', hr'', c'', -, -, rfl⟩ := (hstarted.others n (Nat.le_of_not_lt hn) e).1 he
        cases status_inj hfile
        exact .inr ⟨r', c', hc', hrun, hr''⟩
  · rintro (hreaped | ⟨r', c', hc', hrun, hr⟩)
    · exact .inl ⟨c.fd, _, (hknown.fds _ _).2 (.inr (.inr ⟨r, c, hc, hreaped, rfl, rfl⟩)), rfl⟩
    · have hge := (hknown.started r c hc).ge
      exact .inr ⟨r', c', hc', hrun, c.fd, _,
        ((hknown.started r' c' hc').others _ hge _).2 ⟨r, hr, c, hc, rfl, rfl⟩, rfl⟩

/-- The client of the command that was killed is not told. -/
theorem status_open_iff_killed : ∃ s, Run Step (start 0) killed s ∧ ∃ c : Command,
    s.commands[0]? = some c ∧ c.reaped = true ∧ s.Holds (status 0 c.tty) := by
  obtain ⟨s, hr, c, c', hc, hreaped, hc', hrun, hearlier⟩ := killed_run
  exact ⟨s, hr, c, hc, hreaped,
    (status_open_iff hr hc).2 (.inr ⟨1, c', hc', hrun, by simp [hearlier]⟩)⟩

end WardenLinux.StatusPipes
