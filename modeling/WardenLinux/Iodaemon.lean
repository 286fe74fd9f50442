/-
  The accept loop of `iodaemon spawn` (spawn.go, input.go), while the child runs.

  A link gets three descriptors and then sends its input.  The descriptors of a
  terminal are one file, which plays two roles: the end of the input closes it,
  and then it is no longer there to be sent.

  `decodeLoop_daemon` and `acceptPass_daemon` say what a link does to the daemon;
  `daemon_goes_on_iff`: the daemon goes on and can send the descriptors iff no
  link is gone before it gets them, none ends the input of a terminal, and no
  write to the input blocks.
-/
import Mathlib.Logic.Basic

namespace WardenLinux

namespace Iodaemon

/-! ## The daemon -/

/-- The files that the daemon opens and that its loop uses. -/
inductive File where
  | pty
  | stdinPipe
  | stdoutPipe
  | stderrPipe
  | statusPipe
  deriving DecidableEq, Repr

structure Daemon where
  stdinW : File
  stdoutR : File
  stderrR : File
  statusR : File
  closed : List File
  started : Bool
  deriving DecidableEq

/-- The descriptors when the listener is ready. -/
def setUp (withTty : Bool) : Daemon where
  stdinW := if withTty then .pty else .stdinPipe
  stdoutR := if withTty then .pty else .stdoutPipe
  stderrR := .stderrPipe
  statusR := .statusPipe
  closed := []
  started := false

namespace Daemon

/-- `Fd`, which is -1 for a file that is closed. -/
def fd (d : Daemon) (f : File) : Option File := if f ∈ d.closed then none else some f

/-- `Close`, which fails for a file that is closed. -/
def close (d : Daemon) (f : File) : Option Daemon :=
  if f ∈ d.closed then none else some { d with closed := f :: d.closed }

/-- `syscall.UnixRights` -/
def rights (d : Daemon) : List (Option File) := [d.fd d.stdoutR, d.fd d.stderrR, d.fd d.statusR]

/-- The three descriptors can be sent. -/
def CanSend (d : Daemon) : Prop := ∀ r ∈ d.rights, r.isSome

instance (d : Daemon) : Decidable d.CanSend := inferInstanceAs (Decidable (∀ r ∈ d.rights, _))

end Daemon

structure WindowSize where
  columns : Int
  rows : Int
  deriving DecidableEq, Repr

structure Input where
  data : List UInt8 := []
  eof : Bool := false
  windowSize : Option WindowSize := none
  deriving DecidableEq, Repr

/-- What comes of writing to the child's input: it may also have been left by all
    readers, or be full with nobody reading. -/
inductive Written where
  | done
  | failed
  | blocked
  deriving DecidableEq, Repr

/-- An input that is decoded, with what comes of writing its data. -/
structure Message where
  input : Input
  written : Written := .done
  deriving DecidableEq, Repr

/-- Where a pass of a loop ends: at the next one, out of the loop, in `fatal`, or
    in a write. -/
inductive Outcome where
  | accepting (d : Daemon)
  | returned
  | fatal
  | blocked
  deriving DecidableEq

/-- The loop over the inputs; decoding fails after the last one, be it that the
    client has gone or that what it sent is no input.  The size of a window has
    no influence on the loop, and neither has the failure to set it. -/
def decodeLoop (d : Daemon) : List Message → Outcome
  | [] => .accepting d
  | m :: ms =>
    if m.input.windowSize.isSome then decodeLoop d ms
    else if m.input.eof then
      match d.close d.stdinW with
      | some d => decodeLoop d ms
      | none => .accepting d
    else if (d.fd d.stdinW).isNone then .accepting d
    else
      match m.written with
      | .done => decodeLoop d ms
      | .failed => .accepting d
      | .blocked => .blocked

/-- What `Accept` and `cmd.Start` return, whether the client is gone when the
    descriptors are sent, and the inputs that can be decoded. -/
structure Connection where
  accepted : Bool
  gone : Bool
  start : Bool
  messages : List Message

/-- A pass of the accept loop. -/
def acceptPass (d : Daemon) (c : Connection) : Outcome :=
  if !c.accepted then .fatal
  else if c.gone ∨ ¬ d.CanSend then .returned
  else if !d.started ∧ !c.start then .fatal
  else decodeLoop { d with started := true } c.messages

/-- The accept loop, over some connections. -/
def acceptLoop (d : Daemon) : List Connection → Outcome
  | [] => .accepting d
  | c :: cs =>
    match acceptPass d c with
    | .accepting d => acceptLoop d cs
    | o => o

/-! ## Links -/

/-- A link: whether it is gone before the descriptors are sent, and its inputs. -/
structure Link where
  gone : Bool
  messages : List Message

def Link.connection (l : Link) : Connection where
  accepted := true
  gone := l.gone
  start := true
  messages := l.messages

/-- The input is closed: an end of the input comes before a write that fails or
    blocks. -/
def closes : List Message → Bool
  | [] => false
  | m :: ms =>
    if m.input.windowSize.isSome then closes ms
    else if m.input.eof then true
    else
      match m.written with
      | .done => closes ms
      | .failed | .blocked => false

/-- A write blocks before the input is closed. -/
def blocks : List Message → Bool
  | [] => false
  | m :: ms =>
    if m.input.windowSize.isSome then blocks ms
    else if m.input.eof then false
    else
      match m.written with
      | .done => blocks ms
      | .failed => false
      | .blocked => true

/-- The states of the daemon: only the input is ever closed. -/
def daemon (withTty shut started : Bool) : Daemon :=
  { setUp withTty with
    closed := if shut then [(setUp withTty).stdinW] else []
    started }

theorem daemon_canSend (withTty shut started : Bool) :
    (daemon withTty shut started).CanSend ↔ ¬ (withTty = true ∧ shut = true) := by
  revert withTty shut started
  decide

theorem daemon_close (withTty shut started : Bool) :
    (daemon withTty shut started).close (daemon withTty shut started).stdinW =
      if shut then none else some (daemon withTty true started) := by
  revert withTty shut started
  decide

theorem daemon_fd (withTty shut started : Bool) :
    ((daemon withTty shut started).fd (daemon withTty shut started).stdinW).isNone = shut := by
  revert withTty shut started
  decide

/-- **What the inputs of a link do** to the daemon. -/
theorem decodeLoop_daemon (withTty shut started : Bool) (ms : List Message) :
    decodeLoop (daemon withTty shut started) ms =
      if shut = false ∧ blocks ms then .blocked
      else .accepting (daemon withTty (shut || closes ms) started) := by
  induction ms generalizing shut with
  | nil => cases shut <;> rfl
  | cons m ms ih =>
    rw [decodeLoop, closes, blocks, daemon_close, daemon_fd]
    cases m.input.windowSize.isSome with
    | true => exact ih shut
    | false =>
      cases m.input.eof with
      | true =>
        cases shut with
        | true => rfl
        | false => simp [ih]
      | false =>
        cases shut with
        | true => rfl
        | false => cases m.written <;> simp [ih]

/-- **What a link does** to the daemon. -/
theorem acceptPass_daemon (withTty shut started : Bool) (l : Link) :
    acceptPass (daemon withTty shut started) l.connection =
      if l.gone = true ∨ withTty = true ∧ shut = true then .returned
      else if shut = false ∧ blocks l.messages then .blocked
      else .accepting (daemon withTty (shut || closes l.messages) true) := by
  have hsend := daemon_canSend withTty shut started
  simp only [acceptPass, Link.connection, hsend, not_not, Bool.not_true, Bool.false_eq_true,
    if_false, and_false]
  rw [← decodeLoop_daemon]
  rfl

/-! ## Runs -/

/-- No link is gone before the descriptors are sent, none closes the input of a
    terminal, and none blocks in a write to the input, unless it is closed before,
    by an earlier link or from the start (`shut`). -/
def Harmless (withTty shut : Bool) (links : List Link) : Prop :=
  ∀ pre l post, links = pre ++ l :: post →
    l.gone = false ∧ (withTty = true → closes l.messages = false) ∧
      (blocks l.messages = true → shut = true ∨ ∃ p ∈ pre, closes p.messages = true)

theorem harmless_cons {withTty shut : Bool} {l : Link} {links : List Link} :
    Harmless withTty shut (l :: links) ↔
      (l.gone = false ∧ (withTty = true → closes l.messages = false) ∧
        (blocks l.messages = true → shut = true)) ∧
      Harmless withTty (shut || closes l.messages) links := by
  constructor
  · intro h
    obtain ⟨hgone, htty, hblocks⟩ := h [] l links rfl
    refine ⟨⟨hgone, htty, fun hb => ?_⟩, ?_⟩
    · simpa using hblocks hb
    · rintro pre k post rfl
      obtain ⟨hgone, htty, hblocks⟩ := h (l :: pre) k post rfl
      refine ⟨hgone, htty, fun hb => ?_⟩
      simpa [or_assoc] using hblocks hb
  · rintro ⟨⟨hgone, htty, hblocks⟩, h⟩ pre k post heq
    cases pre with
    | nil =>
      obtain ⟨rfl, rfl⟩ := List.cons.inj heq
      exact ⟨hgone, htty, fun hb => .inl (hblocks hb)⟩
    | cons k' pre =>
      obtain ⟨rfl, rfl⟩ := List.cons.inj heq
      obtain ⟨hgone, htty, hblocks⟩ := h pre k post rfl
      refine ⟨hgone, htty, fun hb => ?_⟩
      simpa [or_assoc] using hblocks hb

/-- The daemon is accepting after the links, and can send the descriptors. -/
def GoesOn (d : Daemon) (links : List Link) : Prop :=
  ∃ d', acceptLoop d (links.map Link.connection) = .accepting d' ∧ d'.CanSend

/-- A terminal that is closed cannot be sent. -/
theorem not_goesOn_closed {withTty shut : Bool} (h : withTty = true ∧ shut = true)
    (started : Bool) (links : List Link) : ¬ GoesOn (daemon withTty shut started) links := by
  rintro ⟨d, hloop, hsend⟩
  cases links with
  | nil =>
    cases hloop
    exact (daemon_canSend ..).mp hsend h
  | cons l links =>
    rw [List.map_cons, acceptLoop, acceptPass_daemon, if_pos (.inr h)] at hloop
    cases hloop

theorem goesOn_cons {withTty shut : Bool} (started : Bool) (hopen : ¬ (withTty = true ∧ shut = true))
    (l : Link) (links : List Link) :
    GoesOn (daemon withTty shut started) (l :: links) ↔
      (l.gone = false ∧ (blocks l.messages = true → shut = true)) ∧
      GoesOn (daemon withTty (shut || closes l.messages) true) links := by
  rw [GoesOn, List.map_cons, acceptLoop, acceptPass_daemon]
  by_cases hgone : l.gone = true
  · simp [hgone]
  rw [if_neg (not_or.mpr ⟨hgone, hopen⟩)]
  by_cases hblocks : shut = false ∧ blocks l.messages = true
  · simp [hblocks]
  · rw [if_neg hblocks]
    refine (and_iff_right ⟨by simpa using hgone, fun hb => ?_⟩).symm
    exact (Bool.eq_false_or_eq_true shut).resolve_right fun hs => hblocks ⟨hs, hb⟩

theorem goesOn_iff (withTty : Bool) (links : List Link) : ∀ shut started : Bool,
    ¬ (withTty = true ∧ shut = true) →
      (GoesOn (daemon withTty shut started) links ↔ Harmless withTty shut links) := by
  induction links with
  | nil =>
    intro shut started hopen
    refine iff_of_true ⟨_, rfl, (daemon_canSend ..).mpr hopen⟩ ?_
    rintro pre l post h
    simp at h
  | cons l links ih =>
    intro shut started hopen
    rw [goesOn_cons started hopen, harmless_cons]
    by_cases hcloses : withTty = true ∧ closes l.messages = true
    · -- the terminal is closed now
      refine iff_of_false (fun h => not_goesOn_closed ?_ _ _ h.2) fun h => ?_
      · exact ⟨hcloses.1, by rw [hcloses.2, Bool.or_true]⟩
      · exact absurd (h.1.2.1 hcloses.1) (by rw [hcloses.2]; exact Bool.noConfusion)
    · rw [ih _ true (by grind)]
      grind

/-- **The daemon goes on** accepting, and can send the descriptors, iff the links
    are harmless. -/
theorem daemon_goes_on_iff (withTty : Bool) (links : List Link) :
    GoesOn (setUp withTty) links ↔ Harmless withTty false links :=
  goesOn_iff withTty links false false (by simp)

/-- A link that is gone before the descriptors are sent. -/
def goneLink : Link := ⟨true, []⟩

/-- **One link that is gone** ends the daemon, with and without a terminal. -/
theorem daemon_returned :
    acceptLoop (setUp false) ([goneLink].map Link.connection) = .returned ∧
      acceptLoop (setUp true) ([goneLink].map Link.connection) = .returned := by
  decide

-- After the end of the input of a terminal, the next link ends the daemon.
example : acceptLoop (setUp true)
    ([⟨false, [⟨{ eof := true }, .done⟩]⟩, ⟨false, []⟩].map Link.connection) = .returned := by
  decide

end Iodaemon

end WardenLinux
