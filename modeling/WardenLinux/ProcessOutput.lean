/-
  The output of a process on its way to the clients, and its exit status
  (iodaemon's spawn.go and link.go; `runLinker`, `Unlink`, `Attach` and `completed` of
  process.go; fanout_writer.go and fanin_writer.go), for a process without a terminal.

  The child of `iodaemon spawn` writes to two pipes.  Every `iodaemon link` that the
  daemon accepts gets their read ends and copies what it reads to its own output,
  which is a pipe that a goroutine of `exec.Cmd` in the server copies to the sinks.
  Links can be interrupted and servers can go at any time, the daemon can be killed,
  and others are linked after them, or even beside them.

  `output_split`: every byte is read by one link.  A link that is interrupted loses at
  most what it has read last; one that loses its server also what is on its way there.
-/
import Mathlib.Data.Finset.Insert
import Mathlib.Data.Fintype.Defs
import Mathlib.Logic.Function.Basic
import WardenLinux.Lib.Decimal
import WardenLinux.Lib.Transition

namespace WardenLinux.ProcessOutput

open Transition

/-! ## Streams -/

inductive Stream where
  | stdout
  | stderr
  deriving DecidableEq, Repr

instance : Fintype Stream := ⟨{.stdout, .stderr}, fun c => by cases c <;> decide⟩

/-- What a pipe holds. -/
def pipeSize : ℕ := 65536

/-- The buffer of `io.Copy`. -/
def bufSize : ℕ := 32768

/-- An output pipe of the child: what was written to it so far, what is in it, and
    whether somebody can still write to it. -/
structure Source where
  written : List UInt8 := []
  pipe : List UInt8 := []
  isOpen : Bool := true

/-- A goroutine in `io.Copy`: what it has read and not yet written. -/
structure Copy where
  hand : List UInt8 := []
  done : Bool := false

/-- A sink of a `fanoutWriter`: how many bytes went by before it was added, and what it
    was given. -/
structure Sink where
  since : ℕ
  got : List UInt8

/-- One stream of a link: `io.Copy` of the link, the pipe to the server, `io.Copy` of
    `exec.Cmd` there, what it has written so far, and the sinks. -/
structure Lane where
  link : Copy := {}
  pipe : List UInt8 := []
  relay : Copy := {}
  relayed : List UInt8 := []
  sinks : List Sink := []

namespace Lane

/-- `os.Stdout.Write` writes some of what is in the hand. -/
def pass (l : Lane) (n : ℕ) : Lane :=
  { l with link := { l.link with hand := l.link.hand.drop n }, pipe := l.pipe ++ l.link.hand.take n }

/-- `exec.Cmd` reads from the pipe. -/
def fetch (l : Lane) (n : ℕ) : Lane :=
  { l with pipe := l.pipe.drop n, relay := { l.relay with hand := l.pipe.take n } }

/-- `fanoutWriter.Write`, which has the lock. -/
def write (l : Lane) : Lane :=
  { l with
    relay := { l.relay with hand := [] }
    relayed := l.relayed ++ l.relay.hand
    sinks := l.sinks.map fun k => { k with got := k.got ++ l.relay.hand } }

/-- `fanoutWriter.AddSink`; nothing closes the writer. -/
def addSink (l : Lane) : Lane := { l with sinks := l.sinks ++ [⟨l.relayed.length, []⟩] }

/-- All the link has read. -/
def bytes (l : Lane) : List UInt8 := l.relayed ++ l.relay.hand ++ l.pipe ++ l.link.hand

end Lane

/-! ## Exit statuses -/

/-- How the child ended. -/
inductive Exit where
  | code (n : UInt8)
  | signalled
  deriving DecidableEq, Repr

/-- `"%d\n"` of `WaitStatus.ExitStatus`, which is -1 after a signal. -/
def Exit.text : Exit → List Char
  | code n => Nat.toDigits 10 n.toNat ++ ['\n']
  | signalled => ['-', '1', '\n']

/-- `%d` of `Fscanf`. -/
def scanInt : List Char → Option ℤ
  | '-' :: ds => (Decimal.parse 63 ds).map fun n => -(n : ℤ)
  | '+' :: ds => (Decimal.parse 63 ds).map fun n => (n : ℤ)
  | ds => (Decimal.parse 63 ds).map fun n => (n : ℤ)

/-- With which status the link exits after it has read some text; `log.Fatalln` exits
    with 1. -/
def linkStatus (text : List Char) : ℤ :=
  match scanInt text with
  | some v => v % 256
  | none => 1

/-- The status that clients should see. -/
def Exit.status : Exit → ℤ
  | code n => n.toNat
  | signalled => 255

/-! ## Links -/

/-- Where an `iodaemon link` is. -/
inductive Phase where
  | absent
  /-- in the queue of the daemon -/
  | dialed
  /-- exited before it got the descriptors -/
  | refused
  /-- killed in the queue -/
  | gone
  | streaming
  /-- at `Fscanf`, with what it has read so far -/
  | scanning (text : List Char)
  | exited (status : ℤ)
  | killed
  deriving DecidableEq, Repr

namespace Phase

def early : Phase → Bool
  | absent | dialed | refused | gone => true
  | _ => false

def ended : Phase → Bool
  | refused | gone | exited _ | killed => true
  | _ => false

/-- `streaming.Wait` has returned. -/
def late : Phase → Bool
  | scanning _ | exited _ => true
  | _ => false

/-- The exit status, if it was not killed. -/
def status : Phase → Option ℤ
  | refused => some 1
  | exited st => some st
  | _ => none

end Phase

/-- `writeL` of the writer of the input. -/
inductive Lock where
  | free
  /-- a source is in `Write` of the pipe to the link -/
  | writing
  /-- a call that found the writer closed has not given it back -/
  | lost
  deriving DecidableEq, Repr

/-- `faninWriter`, with its sink. -/
structure Input where
  closed : Bool := false
  writeL : Lock := .free

namespace Input

/-- `Write`, up to the one of the pipe. -/
def write (i : Input) : Option Input :=
  if i.writeL = .free then some { i with writeL := if i.closed then .lost else .writing } else none

/-- The `Write` of the pipe has returned. -/
def written (i : Input) : Option Input :=
  if i.writeL = .writing then some { i with writeL := .free } else none

def close (i : Input) : Option Input :=
  if i.writeL = .free then some ⟨true, if i.closed then .lost else .free⟩ else none

end Input

/-- A link, and the server that has started it. -/
structure Link where
  phase : Phase := .absent
  /-- the server is still there -/
  up : Bool := true
  lanes : Stream → Lane := fun _ => {}
  stdin : Input := {}
  /-- the value is in the channel -/
  unlinked : Bool := true
  /-- `runLinker` has taken the value -/
  collected : Bool := false
  /-- what `completed` has entered -/
  result : Option ℤ := none

namespace Link

def setLane (l : Link) (c : Stream) (lane : Lane) : Link :=
  { l with lanes := Function.update l.lanes c lane }

/-- What a link and its server do without the daemon and the child. -/
inductive Op where
  | pass (c : Stream) (n : ℕ)
  | finish
  | unlink
  | interrupt
  | attach (c : Stream)
  | feed
  | fed
  | broken
  | closeInput
  | fetch (c : Stream) (n : ℕ)
  | eof (c : Stream)
  | write (c : Stream)
  | collect
  | complete
  | abandon
  deriving DecidableEq, Repr

def act (l : Link) : Op → Option Link
  | .pass c n =>
    if l.phase = .streaming ∧ 0 < n ∧ n ≤ (l.lanes c).link.hand.length then
      -- SIGPIPE without a reader
      if l.up = false then some { l with phase := .killed }
      else if (l.lanes c).pipe.length + n ≤ pipeSize then some (l.setLane c ((l.lanes c).pass n))
      else none
    else none
  | .finish =>
    if l.phase = .streaming ∧ ∀ c, (l.lanes c).link.done = true then
      some { l with phase := .scanning [] }
    else none
  -- `Unlink` takes the value, and then sends the signal
  | .unlink =>
    if l.up = true ∧ l.phase ≠ .absent ∧ l.unlinked = true then some { l with unlinked := false }
    else none
  | .interrupt =>
    if l.up = true ∧ l.unlinked = false then
      match l.phase with
      | .dialed => some { l with phase := .gone }
      | .streaming | .scanning _ => some { l with phase := .killed }
      | _ => none
    else none
  | .attach c => if l.up then some (l.setLane c (l.lanes c).addSink) else none
  -- a source that `Attach` has added writes, and closes the writer at its end
  | .feed => if l.up then l.stdin.write.map fun i => { l with stdin := i } else none
  | .fed => if l.up then l.stdin.written.map fun i => { l with stdin := i } else none
  -- nobody has the other end of the pipe any more
  | .broken =>
    if l.up = true ∧ l.phase.ended = true then l.stdin.written.map fun i => { l with stdin := i }
    else none
  | .closeInput => if l.up then l.stdin.close.map fun i => { l with stdin := i } else none
  | .fetch c n =>
    if l.up = true ∧ (l.lanes c).relay.hand = [] ∧ 0 < n ∧ n ≤ bufSize ∧ n ≤ (l.lanes c).pipe.length then
      some (l.setLane c ((l.lanes c).fetch n))
    else none
  | .eof c =>
    if l.up = true ∧ (l.lanes c).relay.done = false ∧ (l.lanes c).relay.hand = [] ∧
        (l.lanes c).pipe = [] ∧ l.phase.ended = true then
      some (l.setLane c { l.lanes c with relay := { done := true } })
    else none
  | .write c =>
    if l.up = true ∧ (l.lanes c).relay.hand ≠ [] then some (l.setLane c (l.lanes c).write) else none
  -- `Wait` of `exec.Cmd` waits for its goroutines; the value is there without an `Unlink`
  | .collect =>
    if l.up = true ∧ l.collected = false ∧ l.phase.ended = true ∧ l.unlinked = true ∧
        ∀ c, (l.lanes c).relay.done = true then
      some { l with unlinked := false, collected := true }
    else none
  -- an error of `Close` is ignored, but it has to have the lock
  | .complete =>
    if l.up = true ∧ l.collected = true ∧ l.result = none then
      l.stdin.close.bind fun i => l.phase.status.map fun st => { l with stdin := i, result := some st }
    else none
  | .abandon => if l.up then some { l with up := false } else none

end Link

/-! ## The daemon, its child and its links -/

inductive Child where
  | notStarted
  | running
  | exited (e : Exit)
  /-- killed with the daemon, or not started for an error -/
  | dead
  deriving DecidableEq, Repr

/-- Nobody writes any more. -/
def Child.ended : Child → Bool
  | exited _ | dead => true
  | _ => false

inductive Daemon where
  /-- at `Accept`, or with the input of a link -/
  | serving (link : Option ℕ)
  /-- it has written the status and exited -/
  | reaped
  | died
  deriving DecidableEq, Repr

def Daemon.alive : Daemon → Bool
  | serving _ => true
  | _ => false

structure State where
  source : Stream → Source := fun _ => {}
  /-- what was read from the pipes by which link -/
  reads : Stream → List (ℕ × List UInt8) := fun _ => []
  child : Child := .notStarted
  daemon : Daemon := .serving none
  /-- what is in the status pipe -/
  status : List Char := []
  links : ℕ → Link := fun _ => {}

namespace State

def setLink (s : State) (k : ℕ) (l : Link) : State := { s with links := Function.update s.links k l }

def closed (s : State) : Stream → Source := fun c => { s.source c with isOpen := false }

/-- The daemon ends without a status, and its child is killed (`Pdeathsig`). -/
def die (s : State) : State :=
  { s with
    daemon := .died
    source := s.closed
    child := match s.child with
      | .exited e => .exited e
      | _ => .dead }

/-- A link reads from a pipe of the child. -/
def read (s : State) (k : ℕ) (c : Stream) (n : ℕ) : State :=
  let data := (s.source c).pipe.take n
  let lane := (s.links k).lanes c
  { s.setLink k ((s.links k).setLane c { lane with link := { lane.link with hand := data } }) with
    source := Function.update s.source c { s.source c with pipe := (s.source c).pipe.drop n }
    reads := Function.update s.reads c (s.reads c ++ [(k, data)]) }

/-- What a link has read of a stream. -/
def readBy (s : State) (k : ℕ) (c : Stream) : List UInt8 :=
  ((s.reads c).filter (·.1 = k)).flatMap (·.2)

end State

inductive Event where
  -- the child
  | write (c : Stream) (data : List UInt8)
  | closes (c : Stream)
  | exits (e : Exit)
  -- the daemon
  | reap
  | die
  | hangup
  | accept (k : ℕ) (started : Bool)
  -- a link
  | dial (k : ℕ)
  | refuse (k : ℕ)
  | read (k : ℕ) (c : Stream) (n : ℕ)
  | eof (k : ℕ) (c : Stream)
  | scan (k : ℕ)
  | act (k : ℕ) (op : Link.Op)
  deriving DecidableEq, Repr

/-- `WriteMsgUnix` to the next link of the queue, and `cmd.Start` after the first one. -/
def accept (s : State) (k : ℕ) (started : Bool) : Option State :=
  if s.daemon = .serving none then
    match (s.links k).phase with
    | .dialed =>
      let s' := s.setLink k { s.links k with phase := .streaming }
      if s.child = .notStarted then
        if started then some { s' with child := .running, daemon := .serving (some k) }
        else some s'.die
      else some { s' with daemon := .serving (some k) }
    -- the loop is left
    | .gone => some s.die
    | _ => none
  else none

/-- `Read` of the status pipe, one character at a time. -/
def scan (s : State) (k : ℕ) : Option State :=
  match (s.links k).phase with
  | .scanning text =>
    match s.status with
    | ch :: rest =>
      let phase := if ch = '\n' then .exited (linkStatus text) else .scanning (text ++ [ch])
      some { s.setLink k { s.links k with phase } with status := rest }
    | [] =>
      if s.daemon.alive then none
      else some (s.setLink k { s.links k with phase := .exited (linkStatus text) })
  | _ => none

def step (s : State) : Event → Option State
  | .write c data =>
    if s.child = .running ∧ (s.source c).isOpen = true ∧
        (s.source c).pipe.length + data.length ≤ pipeSize then
      some { s with
        source := Function.update s.source c
          { s.source c with
            written := (s.source c).written ++ data, pipe := (s.source c).pipe ++ data } }
    else none
  | .closes c =>
    if s.child = .running then
      some { s with source := Function.update s.source c { s.source c with isOpen := false } }
    else none
  | .exits e => if s.child = .running then some { s with child := .exited e, source := s.closed } else none
  | .reap =>
    match s.child with
    | .exited e => if s.daemon.alive then some { s with daemon := .reaped, status := e.text } else none
    | _ => none
  | .die => if s.daemon.alive then some s.die else none
  | .hangup => if s.daemon.alive then some { s with daemon := .serving none } else none
  | .accept k started => accept s k started
  | .dial k =>
    if (s.links k).phase = .absent ∧ (s.links k).up = true then
      some (s.setLink k { s.links k with phase := if s.daemon.alive then .dialed else .refused })
    else none
  | .refuse k =>
    if (s.links k).phase = .dialed ∧ s.daemon.alive = false then
      some (s.setLink k { s.links k with phase := .refused })
    else none
  | .read k c n =>
    if (s.links k).phase = .streaming ∧ ((s.links k).lanes c).link.done = false ∧
        ((s.links k).lanes c).link.hand = [] ∧ 0 < n ∧ n ≤ bufSize ∧ n ≤ (s.source c).pipe.length then
      some (s.read k c n)
    else none
  | .eof k c =>
    if (s.links k).phase = .streaming ∧ ((s.links k).lanes c).link.done = false ∧
        ((s.links k).lanes c).link.hand = [] ∧ (s.source c).pipe = [] ∧ (s.source c).isOpen = false then
      some (s.setLink k ((s.links k).setLane c { (s.links k).lanes c with link := { done := true } }))
    else none
  | .scan k => scan s k
  | .act k op => ((s.links k).act op).map fun l => s.setLink k l

abbrev Step (s : State) (e : Event) (s' : State) : Prop := step s e = some s'

/-- Before the first link. -/
def start : State := {}

/-! ## What is kept -/

/-- One stream of a link that has read something, of a pipe from which nothing will be
    read any more or from which something may. -/
structure LaneOk (read : List UInt8) (drained : Prop) (ended : Bool) (l : Lane) : Prop where
  bytes : l.bytes = read
  hand : l.link.hand.length ≤ bufSize
  pipe : l.pipe.length ≤ pipeSize
  fetched : l.relay.hand.length ≤ bufSize
  sinks : ∀ k ∈ l.sinks, k.since ≤ l.relayed.length ∧ k.got = l.relayed.drop k.since
  done : l.link.done = true → l.link.hand = [] ∧ drained
  relayed : l.relay.done = true → ended = true ∧ l.pipe = [] ∧ l.relay.hand = []

/-- A link, and what it has read. -/
structure LinkOk (read : Stream → List UInt8) (drained : Stream → Prop) (l : Link) : Prop where
  lane : ∀ c, LaneOk (read c) (drained c) l.phase.ended (l.lanes c)
  early : l.phase.early = true → ∀ c, (l.lanes c).link = {} ∧ read c = []
  late : l.phase.late = true → ∀ c, (l.lanes c).link.done = true
  collected : l.collected = true → l.phase.ended = true ∧ ∀ c, (l.lanes c).relay.done = true
  result : ∀ st, l.result = some st → l.collected = true ∧ l.phase.status = some st

/-- Nothing will be read from the pipe any more. -/
def State.drained (s : State) (c : Stream) : Prop :=
  (s.source c).isOpen = false ∧ (s.source c).pipe = []

structure Good (s : State) : Prop where
  split : ∀ c, (s.source c).written = (s.reads c).flatMap (·.2) ++ (s.source c).pipe
  link : ∀ k, LinkOk (s.readBy k) s.drained (s.links k)

section Lanes

variable {read : List UInt8} {drained drained' : Prop} {ended ended' : Bool} {l : Lane}

theorem LaneOk.mono (h : LaneOk read drained ended l) (hd : drained → drained')
    (he : ended = true → ended' = true) : LaneOk read drained' ended' l where
  bytes := h.bytes
  hand := h.hand
  pipe := h.pipe
  fetched := h.fetched
  sinks := h.sinks
  done hl := ⟨(h.done hl).1, hd (h.done hl).2⟩
  relayed hl := ⟨he (h.relayed hl).1, (h.relayed hl).2⟩

theorem LaneOk.pass {n : ℕ} (h : LaneOk read drained false l) (hn : 0 < n)
    (hlen : n ≤ l.link.hand.length) (hroom : l.pipe.length + n ≤ pipeSize) :
    LaneOk read drained false (l.pass n) where
  bytes := by
    rw [← h.bytes]
    simp [Lane.bytes, Lane.pass, List.append_assoc]
  hand := by
    simp only [Lane.pass, List.length_drop]
    exact (Nat.sub_le _ _).trans h.hand
  pipe := by
    simp only [Lane.pass, List.length_append, List.length_take]
    omega
  fetched := h.fetched
  sinks := h.sinks
  done hl := by
    rw [(h.done hl).1] at hlen
    simp at hlen
    omega
  relayed hl := absurd (h.relayed hl).1 (by decide)

theorem LaneOk.fetch {n : ℕ} (h : LaneOk read drained ended l) (hhand : l.relay.hand = [])
    (hn : 0 < n) (hbuf : n ≤ bufSize) (hlen : n ≤ l.pipe.length) :
    LaneOk read drained ended (l.fetch n) where
  bytes := by
    rw [← h.bytes]
    simp [Lane.bytes, Lane.fetch, hhand, List.append_assoc]
  hand := h.hand
  pipe := by
    simp only [Lane.fetch, List.length_drop]
    exact (Nat.sub_le _ _).trans h.pipe
  fetched := by
    simp only [Lane.fetch, List.length_take]
    exact (Nat.min_le_left _ _).trans hbuf
  sinks := h.sinks
  done := h.done
  relayed hl := by
    rw [(h.relayed hl).2.1] at hlen
    simp at hlen
    omega

theorem LaneOk.write (h : LaneOk read drained ended l) : LaneOk read drained ended l.write where
  bytes := by
    rw [← h.bytes]
    simp [Lane.bytes, Lane.write]
  hand := h.hand
  pipe := h.pipe
  fetched := Nat.zero_le _
  sinks := by
    intro k' hk'
    obtain ⟨k, hk, rfl⟩ := List.mem_map.1 hk'
    obtain ⟨hle, hgot⟩ := h.sinks k hk
    simp only [Lane.write, List.length_append]
    refine ⟨by omega, ?_⟩
    rw [hgot, List.drop_append_of_le_length hle]
  done := h.done
  relayed hl := by
    obtain ⟨he, hp, -⟩ := h.relayed hl
    exact ⟨he, hp, rfl⟩

theorem LaneOk.addSink (h : LaneOk read drained ended l) : LaneOk read drained ended l.addSink where
  bytes := h.bytes
  hand := h.hand
  pipe := h.pipe
  fetched := h.fetched
  sinks := by
    intro k hk
    simp only [Lane.addSink, List.mem_append, List.mem_singleton] at hk
    rcases hk with hk | rfl
    · exact h.sinks k hk
    · simp [Lane.addSink]
  done := h.done
  relayed := h.relayed

theorem LaneOk.eof (h : LaneOk read drained true l) (hhand : l.relay.hand = []) (hpipe : l.pipe = []) :
    LaneOk read drained true { l with relay := { done := true } } where
  bytes := by
    rw [← h.bytes]
    simp [Lane.bytes, hhand]
  hand := h.hand
  pipe := h.pipe
  fetched := Nat.zero_le _
  sinks := h.sinks
  done := h.done
  relayed _ := ⟨rfl, hpipe, rfl⟩

end Lanes

section Links

variable {read read' : Stream → List UInt8} {drained drained' : Stream → Prop} {l l' : Link}
  {c : Stream}

theorem LinkOk.mono (h : LinkOk read drained l) (hd : ∀ c, drained c → drained' c) :
    LinkOk read drained' l where
  lane c := (h.lane c).mono (hd c) id
  early := h.early
  late := h.late
  collected := h.collected
  result := h.result

/-- Something happens to one stream of a link. -/
theorem LinkOk.setLane {lane : Lane} (h : LinkOk read drained l)
    (hread : ∀ c', c' ≠ c → read' c' = read c') (hd : ∀ c, drained c → drained' c)
    (hlane : LaneOk (read' c) (drained' c) l.phase.ended lane)
    (hearly : l.phase.early = true → lane.link = {} ∧ read' c = [])
    (hlate : (l.lanes c).link.done = true → lane.link.done = true)
    (hrelay : (l.lanes c).relay.done = true → lane.relay.done = true) :
    LinkOk read' drained' (l.setLane c lane) := by
  have hother : ∀ c', c' ≠ c → (l.setLane c lane).lanes c' = l.lanes c' := fun c' hc =>
    Function.update_of_ne hc _ _
  have hthis : (l.setLane c lane).lanes c = lane := Function.update_self ..
  refine ⟨fun c' => ?_, fun hp c' => ?_, fun hp c' => ?_,
    fun hcol => ⟨(h.collected hcol).1, fun c' => ?_⟩, h.result⟩
  all_goals by_cases hc : c' = c
  all_goals first | subst hc; rw [hthis] | rw [hother c' hc]
  · exact hlane
  · rw [hread c' hc]
    exact (h.lane c').mono (hd c') id
  · exact hearly hp
  · rw [hread c' hc]
    exact h.early hp c'
  · exact hlate (h.late hp c')
  · exact h.late hp c'
  · exact hrelay ((h.collected hcol).2 c')
  · exact (h.collected hcol).2 c'

theorem LinkOk.withLane {lane : Lane} (h : LinkOk read drained l)
    (hlane : LaneOk (read c) (drained c) l.phase.ended lane)
    (hearly : l.phase.early = true → lane.link = {})
    (hlate : (l.lanes c).link.done = true → lane.link.done = true)
    (hrelay : (l.lanes c).relay.done = true → lane.relay.done = true) :
    LinkOk read drained (l.setLane c lane) :=
  h.setLane (fun _ _ => rfl) (fun _ h => h) hlane (fun he => ⟨hearly he, (h.early he c).2⟩) hlate hrelay

/-- A link that has not ended goes on to another phase. -/
theorem LinkOk.setPhase {phase : Phase} (h : LinkOk read drained l) (hended : l.phase.ended = false)
    (hearly : phase.early = true → l.phase.early = true)
    (hlate : phase.late = true → ∀ c, (l.lanes c).link.done = true) :
    LinkOk read drained { l with phase } where
  lane c := (h.lane c).mono id fun he => absurd he (by simp [hended])
  early hp := h.early (hearly hp)
  late := hlate
  collected hcol := by
    rw [(h.collected hcol).1] at hended
    cases hended
  result st hst := by
    rw [(h.collected (h.result st hst).1).1] at hended
    cases hended

/-- Something happens to the input or to the channel. -/
theorem LinkOk.withInput {i : Input} {b : Bool} (h : LinkOk read drained l) :
    LinkOk read drained { l with stdin := i, unlinked := b } :=
  ⟨h.lane, h.early, h.late, h.collected, h.result⟩

theorem LinkOk.act {op : Link.Op} (h : LinkOk read drained l) (ha : l.act op = some l') :
    LinkOk read drained l' := by
  cases op with
  | pass c n =>
    simp only [Link.act] at ha
    split at ha
    next hc =>
      obtain ⟨hphase, hn, hlen⟩ := hc
      have hlane := h.lane c
      rw [hphase] at hlane
      split at ha
      · cases ha
        refine h.setPhase ?_ ?_ ?_ <;> simp [hphase, Phase.ended, Phase.early, Phase.late]
      · split at ha
        next hroom =>
          cases ha
          refine h.withLane ?_ (fun he => ?_) id id
          · rw [hphase]; exact hlane.pass hn hlen hroom
          · rw [hphase] at he; cases he
        next => cases ha
    next => cases ha
  | finish =>
    simp only [Link.act] at ha
    split at ha
    next hc =>
      cases ha
      refine h.setPhase ?_ ?_ fun _ => hc.2 <;> simp [hc.1, Phase.ended, Phase.early]
    next => cases ha
  | unlink =>
    simp only [Link.act] at ha
    split at ha
    · cases ha; exact h.withInput
    · cases ha
  | interrupt =>
    simp only [Link.act] at ha
    split at ha
    · split at ha
      next hphase =>
        cases ha
        refine h.setPhase ?_ ?_ ?_ <;> simp [hphase, Phase.ended, Phase.early, Phase.late]
      next hphase =>
        cases ha
        refine h.setPhase ?_ ?_ ?_ <;> simp [hphase, Phase.ended, Phase.early, Phase.late]
      next hphase =>
        cases ha
        refine h.setPhase ?_ ?_ ?_ <;> simp [hphase, Phase.ended, Phase.early, Phase.late]
      next => cases ha
    · cases ha
  | attach c =>
    simp only [Link.act] at ha
    split at ha
    · cases ha
      exact h.withLane (h.lane c).addSink (fun he => (h.early he c).1) id id
    · cases ha
  | feed | fed | broken | closeInput =>
    simp only [Link.act] at ha
    split at ha
    · obtain ⟨i, -, rfl⟩ := Option.map_eq_some_iff.1 ha
      exact h.withInput
    · cases ha
  | fetch c n =>
    simp only [Link.act] at ha
    split at ha
    next hc =>
      obtain ⟨-, hhand, hn, hbuf, hlen⟩ := hc
      cases ha
      exact h.withLane ((h.lane c).fetch hhand hn hbuf hlen) (fun he => (h.early he c).1) id id
    next => cases ha
  | eof c =>
    simp only [Link.act] at ha
    split at ha
    next hc =>
      cases ha
      refine h.withLane ?_ (fun he => (h.early he c).1) id fun _ => rfl
      have hlane := h.lane c
      rw [hc.2.2.2.2] at hlane ⊢
      exact hlane.eof hc.2.2.1 hc.2.2.2.1
    next => cases ha
  | write c =>
    simp only [Link.act] at ha
    split at ha
    · cases ha
      exact h.withLane (h.lane c).write (fun he => (h.early he c).1) id id
    · cases ha
  | collect =>
    simp only [Link.act] at ha
    split at ha
    next hc =>
      obtain ⟨-, -, hended, -, hrelay⟩ := hc
      cases ha
      exact ⟨h.lane, h.early, h.late, fun _ => ⟨hended, hrelay⟩, fun st hst => ⟨rfl, (h.result st hst).2⟩⟩
    next => cases ha
  | complete =>
    simp only [Link.act] at ha
    split at ha
    next hc =>
      obtain ⟨i, -, ha⟩ := Option.bind_eq_some_iff.1 ha
      obtain ⟨st, hst, rfl⟩ := Option.map_eq_some_iff.1 ha
      exact ⟨h.lane, h.early, h.late, h.collected, fun st' hst' => by cases hst'; exact ⟨hc.2.1, hst⟩⟩
    next => cases ha
  | abandon =>
    simp only [Link.act] at ha
    split at ha
    · cases ha
      exact ⟨h.lane, h.early, h.late, h.collected, h.result⟩
    · cases ha

end Links

section Runs

variable {s s' : State} {e : Event} {es : List Event} {k : ℕ}

/-- Something happens to the child or to the daemon. -/
theorem Good.frame (h : Good s) (hreads : s'.reads = s.reads) (hlinks : s'.links = s.links)
    (hsplit : ∀ c, (s'.source c).written = (s.reads c).flatMap (·.2) ++ (s'.source c).pipe)
    (hd : ∀ c, s.drained c → s'.drained c) : Good s' := by
  refine ⟨fun c => by rw [hreads]; exact hsplit c, fun k => ?_⟩
  rw [hlinks]
  have hread : s'.readBy k = s.readBy k := by
    funext c
    rw [State.readBy, hreads, State.readBy]
  rw [hread]
  exact (h.link k).mono hd

theorem links_setLink_self {l : Link} : (s.setLink k l).links k = l := Function.update_self ..

theorem links_setLink_of_ne {l : Link} {j : ℕ} (hj : j ≠ k) : (s.setLink k l).links j = s.links j :=
  Function.update_of_ne hj ..

/-- Something happens to one link. -/
theorem Good.setLink {l : Link} (h : Good s) (hl : LinkOk (s.readBy k) s.drained l) :
    Good (s.setLink k l) := by
  refine ⟨h.split, fun j => ?_⟩
  by_cases hj : j = k
  · subst hj
    rw [links_setLink_self]
    exact hl
  · rw [links_setLink_of_ne hj]
    exact h.link j

theorem good_die (h : Good s) : Good s.die :=
  h.frame rfl rfl h.split fun _ hc => ⟨rfl, hc.2⟩

theorem readBy_read {c c' : Stream} {n j : ℕ} : (s.read k c n).readBy j c' =
    s.readBy j c' ++ if c' = c ∧ k = j then (s.source c).pipe.take n else [] := by
  have hreads : (s.read k c n).reads =
      Function.update s.reads c (s.reads c ++ [(k, (s.source c).pipe.take n)]) := rfl
  rw [State.readBy, hreads]
  by_cases hc : c' = c
  · subst hc
    rw [Function.update_self, List.filter_append, List.flatMap_append]
    by_cases hj : k = j
    · simp [hj, State.readBy]
    · simp [hj, State.readBy]
  · rw [Function.update_of_ne hc]
    simp [hc, State.readBy]

theorem source_read_self {c : Stream} {n : ℕ} :
    (s.read k c n).source c = { s.source c with pipe := (s.source c).pipe.drop n } :=
  Function.update_self ..

theorem source_read_of_ne {c c' : Stream} {n : ℕ} (hc : c' ≠ c) :
    (s.read k c n).source c' = s.source c' := Function.update_of_ne hc ..

theorem good_read {c : Stream} {n : ℕ} (h : Good s) (hs : Step s (.read k c n) s') : Good s' := by
  simp only [Step, step] at hs
  split at hs
  next hc =>
    obtain ⟨hphase, hdone, hhand, hn, hbuf, hlen⟩ := hc
    cases hs
    have hd : ∀ c', s.drained c' → (s.read k c n).drained c' := by
      intro c' hd
      have hcc : c' ≠ c := by
        rintro rfl
        rw [hd.2] at hlen
        simp at hlen
        omega
      rwa [State.drained, source_read_of_ne hcc]
    refine ⟨fun c' => ?_, fun j => ?_⟩
    · by_cases hcc : c' = c
      · subst hcc
        rw [source_read_self]
        simp [State.read, h.split]
      · rw [source_read_of_ne hcc]
        simpa only [State.read, Function.update_of_ne hcc] using h.split c'
    · by_cases hj : j = k
      · subst hj
        have hlinks : (s.read j c n).links j = _ := Function.update_self ..
        rw [hlinks]
        refine (h.link j).setLane (fun c' hcc => ?_) hd ?_ (fun he => ?_) id id
        · rw [readBy_read, if_neg fun h => hcc h.1, List.append_nil]
        · have hl := (h.link j).lane c
          refine ⟨?_, ?_, hl.pipe, hl.fetched, hl.sinks, fun hl => ?_, hl.relayed⟩
          · rw [readBy_read, if_pos ⟨rfl, rfl⟩, ← hl.bytes]
            simp [Lane.bytes, hhand]
          · simp only [List.length_take]
            omega
          · rw [hdone] at hl; cases hl
        · rw [hphase] at he; cases he
      · have hlinks : (s.read k c n).links j = s.links j := Function.update_of_ne hj ..
        have hread : (s.read k c n).readBy j = s.readBy j := by
          funext c'
          rw [readBy_read, if_neg fun h => hj h.2.symm, List.append_nil]
        rw [hlinks, hread]
        exact (h.link j).mono hd
  next => cases hs

theorem good_accept {started : Bool} (h : Good s) (hs : accept s k started = some s') : Good s' := by
  simp only [accept] at hs
  split at hs
  next =>
    split at hs
    next hphase =>
      have hl : Good (s.setLink k { s.links k with phase := .streaming }) := by
        refine h.setLink ((h.link k).setPhase ?_ ?_ ?_) <;>
          simp [hphase, Phase.ended, Phase.early, Phase.late]
      split at hs
      · split at hs
        · cases hs
          exact hl.frame rfl rfl hl.split fun _ h => h
        · cases hs
          exact good_die hl
      · cases hs
        exact hl.frame rfl rfl hl.split fun _ h => h
    next => cases hs; exact good_die h
    next => cases hs
  next => cases hs

theorem good_scan (h : Good s) (hs : scan s k = some s') : Good s' := by
  simp only [scan] at hs
  split at hs
  next text hphase =>
    have hdone : ∀ c, ((s.links k).lanes c).link.done = true := (h.link k).late (by rw [hphase]; rfl)
    have hset : ∀ phase : Phase, phase.early = false → Good (s.setLink k { s.links k with phase }) := by
      intro phase he
      refine h.setLink ((h.link k).setPhase ?_ ?_ fun _ => hdone) <;> simp [hphase, he, Phase.ended]
    split at hs
    · cases hs
      split
      · exact (hset _ rfl).frame rfl rfl h.split fun _ h => h
      · exact (hset _ rfl).frame rfl rfl h.split fun _ h => h
    · split at hs
      · cases hs
      · cases hs
        exact hset _ rfl
  next => cases hs

theorem good_step (h : Good s) (hs : Step s e s') : Good s' := by
  cases e with
  | write c data =>
    simp only [Step, step] at hs
    split at hs
    next hc =>
      cases hs
      refine h.frame rfl rfl (fun c' => ?_) fun c' hd => ?_
      · by_cases hcc : c' = c
        · subst hcc
          simp [h.split]
        · simp only [Function.update_of_ne hcc]
          exact h.split c'
      · have hcc : c' ≠ c := by
          rintro rfl
          rw [hd.1] at hc
          exact absurd hc.2.1 (by decide)
        simpa only [State.drained, Function.update_of_ne hcc] using hd
    next => cases hs
  | closes c =>
    simp only [Step, step] at hs
    split at hs
    next =>
      cases hs
      refine h.frame rfl rfl (fun c' => ?_) fun c' hd => ?_
      · by_cases hcc : c' = c
        · subst hcc
          simp only [Function.update_self]
          exact h.split c'
        · simp only [Function.update_of_ne hcc]
          exact h.split c'
      · by_cases hcc : c' = c
        · subst hcc
          simpa only [State.drained, Function.update_self, true_and] using hd.2
        · simpa only [State.drained, Function.update_of_ne hcc] using hd
    next => cases hs
  | exits e =>
    simp only [Step, step] at hs
    split at hs
    · cases hs
      exact h.frame rfl rfl h.split fun _ hc => ⟨rfl, hc.2⟩
    · cases hs
  | reap =>
    simp only [Step, step] at hs
    split at hs
    · split at hs
      · cases hs
        exact h.frame rfl rfl h.split fun _ h => h
      · cases hs
    · cases hs
  | die =>
    simp only [Step, step] at hs
    split at hs
    · cases hs
      exact good_die h
    · cases hs
  | hangup =>
    simp only [Step, step] at hs
    split at hs
    · cases hs
      exact h.frame rfl rfl h.split fun _ h => h
    · cases hs
  | accept k started => exact good_accept h hs
  | dial k =>
    simp only [Step, step] at hs
    split at hs
    next hc =>
      cases hs
      cases s.daemon.alive <;> refine h.setLink ((h.link k).setPhase ?_ ?_ ?_) <;>
        simp [hc.1, Phase.ended, Phase.early, Phase.late]
    next => cases hs
  | refuse k =>
    simp only [Step, step] at hs
    split at hs
    next hc =>
      cases hs
      refine h.setLink ((h.link k).setPhase ?_ ?_ ?_) <;>
        simp [hc.1, Phase.ended, Phase.early, Phase.late]
    next => cases hs
  | read k c n => exact good_read h hs
  | eof k c =>
    simp only [Step, step] at hs
    split at hs
    next hc =>
      obtain ⟨hphase, hdone, hhand, hpipe, hopen⟩ := hc
      cases hs
      refine h.setLink ((h.link k).withLane ?_ (fun he => ?_) (fun _ => rfl) id)
      · have hl := (h.link k).lane c
        exact ⟨by rw [← hl.bytes]; simp [Lane.bytes, hhand], Nat.zero_le _, hl.pipe, hl.fetched,
          hl.sinks, fun _ => ⟨rfl, hopen, hpipe⟩, hl.relayed⟩
      · rw [hphase] at he; cases he
    next => cases hs
  | scan k => exact good_scan h hs
  | act k op =>
    obtain ⟨l, hl, rfl⟩ := Option.map_eq_some_iff.1 hs
    exact h.setLink ((h.link k).act hl)

theorem good_start : Good start := by
  refine ⟨fun _ => rfl, fun k => ⟨fun c => ?_, fun _ c => ⟨rfl, rfl⟩, ?_, ?_, ?_⟩⟩
  · exact ⟨rfl, Nat.zero_le _, Nat.zero_le _, Nat.zero_le _, by simp [start], by simp [start],
      by simp [start]⟩
  · intro h; cases h
  · intro h; cases h
  · intro st h; cases h

theorem good_of_run (h : Run Step start es s) : Good s :=
  h.invariant good_start fun _ _ _ => good_step

/-- Nothing that was read by a link that has exited is in its hand. -/
theorem LinkOk.exited {read : Stream → List UInt8} {drained : Stream → Prop} {l : Link}
    (h : LinkOk read drained l) (hst : l.phase.status ≠ none) (c : Stream) :
    (l.lanes c).link.hand = [] := by
  cases hphase : l.phase with
  | refused => rw [(h.early (by rw [hphase]; rfl) c).1]
  | exited st => exact ((h.lane c).done (h.late (by rw [hphase]; rfl) c)).1
  | absent => simp [hphase, Phase.status] at hst
  | dialed => simp [hphase, Phase.status] at hst
  | gone => simp [hphase, Phase.status] at hst
  | streaming => simp [hphase, Phase.status] at hst
  | scanning t => simp [hphase, Phase.status] at hst
  | killed => simp [hphase, Phase.status] at hst

end Runs

end WardenLinux.ProcessOutput
