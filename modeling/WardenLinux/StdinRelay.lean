/-
  The input of the child (input.go, link.go, spawn.go), across links.

  A link encodes its input with gob, which sends no field that is zero, and the
  daemon decodes every message into a variable of its own.  Here a write to the
  input succeeds as long as it is open; `relayLoop` and `serve` are `decodeLoop` and
  `acceptLoop` with the bytes that are written.

  * `decode_encode`: what is decoded is what was encoded.
  * `serve_outcome`: the daemon does what its accept loop does.
  * `stdin_relayed`: the bytes are those of the writes before the first end of the
    input.
-/
import WardenLinux.Iodaemon

namespace WardenLinux

namespace Iodaemon

/-! ## inputWriter -/

/-- The methods of `inputWriter`. -/
inductive InputCall where
  | write (d : List UInt8)
  | close
  | setWindowSize (cols rows : Int)
  deriving DecidableEq, Repr

namespace InputCall

/-- What is encoded. -/
def input : InputCall → Input
  | write d => { data := d }
  | close => { eof := true }
  | setWindowSize cols rows => { windowSize := some { columns := cols, rows } }

/-- The data of a write. -/
def data : InputCall → List UInt8
  | write d => d
  | close | setWindowSize .. => []

def isWindowSize : InputCall → Bool
  | setWindowSize .. => true
  | write _ | close => false

end InputCall

/-! ## gob -/

/-- The fields of an input that are sent. -/
structure Encoded where
  data : Option (List UInt8)
  eof : Option Bool
  windowSize : Option (Option Int × Option Int)
  deriving DecidableEq, Repr

def nonzero {α : Type} [DecidableEq α] (zero a : α) : Option α := if a = zero then none else some a

/-- `Encode`; a pointer is sent as what it points to, unless it is nil. -/
def encode (i : Input) : Encoded where
  data := nonzero [] i.data
  eof := nonzero false i.eof
  windowSize := i.windowSize.map fun w => (nonzero 0 w.columns, nonzero 0 w.rows)

/-- `Decode`, which leaves the fields of its target that were not sent. -/
def decode (e : Encoded) (target : Input) : Input where
  data := e.data.getD target.data
  eof := e.eof.getD target.eof
  windowSize :=
    match e.windowSize with
    | none => target.windowSize
    | some (columns, rows) =>
      let w := target.windowSize.getD ⟨0, 0⟩
      some ⟨columns.getD w.columns, rows.getD w.rows⟩

theorem nonzero_getD {α : Type} [DecidableEq α] (zero a : α) : (nonzero zero a).getD zero = a := by
  rw [nonzero]
  split
  · next h => exact h.symm
  · rfl

/-- **An input is decoded** as it was encoded, into a variable that is new. -/
theorem decode_encode (i : Input) : decode (encode i) {} = i := by
  obtain ⟨data, eof, windowSize⟩ := i
  rw [decode, Input.mk.injEq]
  refine ⟨nonzero_getD [] data, nonzero_getD false eof, ?_⟩
  cases windowSize with
  | none => rfl
  | some w =>
    exact congrArg some (WindowSize.mk.injEq .. ▸
      ⟨nonzero_getD 0 w.columns, nonzero_getD 0 w.rows⟩)

/-! ## The loops -/

/-- The loop over the inputs, with what is written to the child's input. -/
def relayLoop (d : Daemon) : List Encoded → Outcome × List UInt8
  | [] => (.accepting d, [])
  | e :: es =>
    let input := decode e {}
    if input.windowSize.isSome then relayLoop d es
    else if input.eof then
      match d.close d.stdinW with
      | some d => relayLoop d es
      | none => (.accepting d, [])
    else if (d.fd d.stdinW).isNone then (.accepting d, [])
    else ((relayLoop d es).1, input.data ++ (relayLoop d es).2)

/-- The accept loop, over links that get their descriptors where these can be sent. -/
def serve (d : Daemon) : List (List Encoded) → Outcome × List UInt8
  | [] => (.accepting d, [])
  | es :: links =>
    if ¬ d.CanSend then (.returned, [])
    else
      match relayLoop { d with started := true } es with
      | (.accepting d, bytes) => ((serve d links).1, bytes ++ (serve d links).2)
      | (o, bytes) => (o, bytes)

/-- The input that a message is decoded to. -/
def message (e : Encoded) : Message := ⟨decode e {}, .done⟩

theorem relayLoop_outcome (d : Daemon) (es : List Encoded) :
    (relayLoop d es).1 = decodeLoop d (es.map message) := by
  induction es generalizing d with
  | nil => rfl
  | cons e es ih =>
    rw [List.map_cons, message, relayLoop]
    generalize decode e {} = input
    rw [decodeLoop]
    obtain ⟨data, eof, windowSize⟩ := input
    cases windowSize with
    | some w => exact ih d
    | none =>
      cases eof with
      | true =>
        simp only [Option.isSome_none, Bool.false_eq_true, if_false, if_true]
        cases d.close d.stdinW with
        | none => rfl
        | some d' => exact ih d'
      | false =>
        simp only [Option.isSome_none, Bool.false_eq_true, if_false]
        split
        · rfl
        · exact ih d

/-- **The daemon does what its accept loop does.** -/
theorem serve_outcome (d : Daemon) (links : List (List Encoded)) :
    (serve d links).1 =
      acceptLoop d (links.map fun es => Link.connection ⟨false, es.map message⟩) := by
  induction links generalizing d with
  | nil => rfl
  | cons es links ih =>
    rw [serve, List.map_cons, acceptLoop, acceptPass]
    by_cases hsend : d.CanSend
    · have hout := relayLoop_outcome { d with started := true } es
      simp only [Link.connection, hsend, not_true_eq_false, if_false, ← hout, or_false,
        Bool.false_eq_true, Bool.not_true, and_false]
      cases relayLoop { d with started := true } es with
      | mk o bytes =>
        cases o with
        | accepting d' => exact ih d'
        | returned => rfl
        | fatal => rfl
        | blocked => rfl
    · simp [Link.connection, hsend]

/-! ## The bytes -/

/-- The data of the writes before the first end of the input. -/
def beforeClose (calls : List InputCall) : List UInt8 :=
  (calls.takeWhile (· ≠ .close)).flatMap InputCall.data

/-- The input has been closed before, or it is not. -/
def bytes (shut : Bool) (calls : List InputCall) : List UInt8 :=
  if shut then [] else beforeClose calls

theorem beforeClose_cons (c : InputCall) (calls : List InputCall) :
    beforeClose (c :: calls) = c.data ++ bytes (c == .close) calls := by
  cases c with
  | close => rfl
  | write d => rfl
  | setWindowSize cols rows => rfl

theorem bytes_append (shut : Bool) (calls rest : List InputCall) :
    bytes shut (calls ++ rest) =
      bytes shut calls ++ bytes (shut || calls.contains .close) rest := by
  induction calls generalizing shut with
  | nil => cases shut <;> rfl
  | cons c calls ih =>
    cases shut with
    | true => rfl
    | false =>
      have hcons : ∀ calls, bytes false (c :: calls) = c.data ++ bytes (c == .close) calls :=
        beforeClose_cons c
      rw [List.cons_append, hcons, hcons, ih, List.append_assoc, List.contains_cons,
        Bool.false_or, BEq.comm]

theorem bytes_close (shut : Bool) (rest : List InputCall) : bytes shut (.close :: rest) = [] := by
  cases shut <;> rfl

def send (c : InputCall) : Encoded := encode c.input

/-- What the calls of a link do to the daemon, and what they write. -/
theorem relayLoop_daemon (withTty shut started : Bool) (calls : List InputCall) :
    relayLoop (daemon withTty shut started) (calls.map send) =
      (.accepting (daemon withTty (shut || calls.contains .close) started), bytes shut calls) := by
  induction calls generalizing shut with
  | nil => cases shut <;> rfl
  | cons c calls ih =>
    rw [List.map_cons, relayLoop, send, decode_encode, daemon_close, daemon_fd]
    cases c with
    | setWindowSize cols rows => cases shut <;> exact ih _
    | close =>
      cases shut with
      | true => rfl
      | false => exact ih true
    | write d =>
      cases shut with
      | true => rfl
      | false =>
        have ih := ih false
        simp only [InputCall.input, Option.isSome_none, Bool.false_eq_true, if_false, ih]
        rfl

theorem serve_daemon (withTty shut started : Bool) (links : List (List InputCall)) :
    (serve (daemon withTty shut started) (links.map (·.map send))).2 =
      bytes shut links.flatten := by
  induction links generalizing shut started with
  | nil => cases shut <;> rfl
  | cons calls links ih =>
    rw [List.map_cons, serve, List.flatten_cons, bytes_append]
    by_cases hsend : (daemon withTty shut started).CanSend
    · have hrelay := relayLoop_daemon withTty shut true calls
      rw [if_neg (not_not_intro hsend)]
      simp only [show { daemon withTty shut started with started := true } =
        daemon withTty shut true from rfl, hrelay]
      exact congrArg _ (ih _ true)
    · -- only a terminal that is closed cannot be sent
      rw [daemon_canSend, not_not] at hsend
      rw [if_pos (by rw [daemon_canSend, not_not]; exact hsend), hsend.2]
      rfl

/-! ## Faithful relaying -/

/-- What the daemon writes to the input of the child, over the calls of some links. -/
def relayed (withTty : Bool) (links : List (List InputCall)) : List UInt8 :=
  (serve (setUp withTty) (links.map (·.map send))).2

theorem relayed_eq (withTty : Bool) (links : List (List InputCall)) :
    relayed withTty links = beforeClose links.flatten :=
  serve_daemon withTty false false links

theorem beforeClose_filter (calls : List InputCall) :
    beforeClose (calls.filter (! ·.isWindowSize)) = beforeClose calls := by
  induction calls with
  | nil => rfl
  | cons c calls ih =>
    cases c with
    | close => rfl
    | write d => exact congrArg (d ++ ·) ih
    | setWindowSize cols rows => exact ih

/-- **The input is relayed**: the child is written the data of all writes before the first
    end of the input, in their order; the sizes of windows change nothing, and nothing that
    comes after an end of the input does. -/
theorem stdin_relayed (withTty : Bool) (links : List (List InputCall)) :
    relayed withTty links = (links.flatten.takeWhile (· ≠ .close)).flatMap InputCall.data ∧
      relayed withTty (links.map (List.filter (! ·.isWindowSize))) = relayed withTty links ∧
      ∀ pre calls late post, relayed withTty (pre ++ (calls ++ .close :: late) :: post) =
        relayed withTty (pre ++ [calls]) := by
  refine ⟨relayed_eq withTty links, ?_, ?_⟩
  · rw [relayed_eq, relayed_eq, ← List.filter_flatten, beforeClose_filter]
  · intro pre calls late post
    have hall : (pre ++ (calls ++ .close :: late) :: post).flatten =
        (pre ++ [calls]).flatten ++ .close :: (late ++ post.flatten) := by simp
    rw [relayed_eq, relayed_eq, hall]
    refine (bytes_append false _ _).trans ?_
    rw [bytes_close, List.append_nil]
    rfl

end Iodaemon

end WardenLinux
