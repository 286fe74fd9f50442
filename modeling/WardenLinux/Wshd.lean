/-
  The init process of a container: the loop of `wshd` over its clients and
  children (wshd.c, un.c).

  A client sends some bytes, in any chunks, and closes.  `un_recv_fds` puts the
  chunks together up to the size of a request (`unRecvFds_visit`), and
  `child_accept` checks how many bytes there are.

  `init_survives_iff`: the loop goes on over all clients and children iff every
  client has sent nothing or a whole request.
-/
import WardenLinux.Wsh

namespace WardenLinux

/-- `wshd_t`: the children with the descriptor for their exit status, and the
    requests they were forked for. -/
structure Wshd where
  pidToFd : List (ℕ × ℕ)
  forked : List (List UInt8)
  deriving DecidableEq

namespace Wshd

/-! ## Receiving -/

/-- `sizeof(msg_request_t)`: the version, the flag for the terminal, arguments,
    environment, limits, user and directory. -/
def sizeofRequest : ℕ :=
  4 + 4 + (4 + Wsh.msgArraySize) + (4 + Wsh.msgArraySize) + (8 + 16 * 24) + 32 + 1024

/-- What a call of `recvmsg` or `recv` returns: some bytes, an interruption
    (`EINTR`, `EAGAIN`) or another error.  After the last of them the client has
    closed. -/
inductive Received where
  | data (bytes : List UInt8)
  | interrupted
  | failed
  deriving DecidableEq

/-- The loop around `recvmsg`; without a result it returns -1. -/
def recvFirst (datalen : ℕ) : List Received → Option (List UInt8 × List Received)
  | [] => some ([], [])
  | .data bytes :: rest => some (bytes.take datalen, rest)
  | .interrupted :: rest => recvFirst datalen rest
  | .failed :: _ => none

/-- The loop around `recv`. -/
def recvRest (datalen : ℕ) (data : List UInt8) : List Received → List UInt8
  | .data (b :: bytes) :: rest =>
    if data.length < datalen then
      recvRest datalen (data ++ (b :: bytes).take (datalen - data.length)) rest
    else data
  | [] | .data [] :: _ | .interrupted :: _ | .failed :: _ => data

/-- `un_recv_fds` without descriptors: the bytes received, or -1. -/
def unRecvFds (datalen : ℕ) (received : List Received) : Option (List UInt8) :=
  match recvFirst datalen received with
  | none => none
  | some ([], _) => some []
  | some (data, rest) => some (recvRest datalen data rest)

/-! ## Accepting -/

/-- How the process ends. -/
inductive Death where
  | exit (code : ℕ)
  | abort
  deriving DecidableEq

/-- A connection: what is received, and the outcomes of the calls made for it. -/
structure Connection where
  received : List Received
  accept : Bool := true
  pipe : Bool := true
  openpty : Bool := true
  sendmsg : Bool := true
  fork : Option ℕ
  dup : Option ℕ

/-- `child_pid_to_fd_add` -/
def childPidToFdAdd (w : Wshd) (pid : ℕ) (dup : Option ℕ) : Except Death Wshd :=
  match dup with
  | none => .error .abort
  | some fd => .ok { w with pidToFd := w.pidToFd ++ [(pid, fd)] }

/-- `child_pid_to_fd_remove` -/
def childPidToFdRemove (w : Wshd) (pid : ℕ) : Wshd × Option ℕ :=
  match w.pidToFd.findIdx? (·.1 = pid) with
  | none => (w, none)
  | some i => ({ w with pidToFd := w.pidToFd.eraseIdx i }, (w.pidToFd[i]?).map Prod.snd)

/-- `child_fork`, in the parent, with the assertion on its result. -/
def childFork (c : Connection) (w : Wshd) (req : List UInt8) : Except Death Wshd := do
  match c.fork with
  | none => .error (.exit 1)
  | some 0 => .error .abort
  | some pid => childPidToFdAdd { w with forked := w.forked ++ [req] } pid c.dup

/-- `child_handle_interactive`: a client that is gone is no error. -/
def childHandleInteractive (c : Connection) (w : Wshd) (req : List UInt8) : Except Death Wshd :=
  if !c.pipe then .error .abort
  else if !c.openpty then .error .abort
  else if !c.sendmsg then .ok w
  else childFork c w req

/-- `child_handle_noninteractive` -/
def childHandleNoninteractive (c : Connection) (w : Wshd) (req : List UInt8) : Except Death Wshd :=
  if !c.pipe then .error .abort
  else if !c.sendmsg then .ok w
  else childFork c w req

/-- `req.tty` -/
def tty (req : List UInt8) : Bool := ((req.drop 4).take 4).any (· ≠ 0)

/-- `child_accept` -/
def childAccept (c : Connection) (w : Wshd) : Except Death Wshd :=
  if !c.accept then .error .abort
  else
    match unRecvFds sizeofRequest c.received with
    | none => .error (.exit 255)
    | some data =>
      if data.length = 0 then .ok w
      else if data.length ≠ sizeofRequest then .error .abort
      else if tty data then childHandleInteractive c w data
      else childHandleNoninteractive c w data

/-- What `select` reports: a client, or children that have ended. -/
inductive Event where
  | connection (c : Connection)
  | sigchld (pids : List ℕ)

/-- A pass of `child_loop`. -/
def childLoopPass (w : Wshd) : Event → Except Death Wshd
  | .connection c => childAccept c w
  | .sigchld pids => .ok (pids.foldl (fun w pid => (childPidToFdRemove w pid).1) w)

/-- `child_loop`, over some events. -/
def childLoop (w : Wshd) : List Event → Except Death Wshd
  | [] => .ok w
  | e :: es => do
    let w ← childLoopPass w e
    childLoop w es

/-! ## Clients -/

/-- A client that sends some bytes of a request, in chunks, and closes. -/
structure Client where
  request : List UInt8
  size : request.length = sizeofRequest
  chunks : List (List UInt8)
  nonempty : ∀ c ∈ chunks, c ≠ []
  sent : chunks.flatten <+: request

def Client.bytes (cl : Client) : List UInt8 := cl.chunks.flatten

/-- The client has sent nothing or a whole request. -/
def Client.Whole (cl : Client) : Prop := cl.bytes.length = 0 ∨ cl.bytes.length = sizeofRequest

theorem Client.length_le (cl : Client) : cl.bytes.length ≤ sizeofRequest :=
  cl.size ▸ cl.sent.length_le

/-- A client, the interruptions before its first bytes, whether it is still there
    for the answer, and the numbers its child and descriptor get. -/
structure Visit where
  client : Client
  interruptions : ℕ
  sendmsg : Bool
  pid : ℕ
  fd : ℕ

def Visit.connection (v : Visit) : Connection where
  received := List.replicate v.interruptions .interrupted ++ v.client.chunks.map .data
  sendmsg := v.sendmsg
  fork := some (v.pid + 1)
  dup := some v.fd

theorem recvFirst_interrupted (datalen k : ℕ) (received : List Received) :
    recvFirst datalen (List.replicate k .interrupted ++ received) = recvFirst datalen received := by
  induction k with
  | zero => rfl
  | succ k ih => rw [List.replicate_succ, List.cons_append, recvFirst, ih]

theorem recvRest_chunks {datalen : ℕ} (chunks : List (List UInt8)) (data : List UInt8)
    (hne : ∀ c ∈ chunks, c ≠ []) (hlen : data.length + chunks.flatten.length ≤ datalen) :
    recvRest datalen data (chunks.map .data) = data ++ chunks.flatten := by
  induction chunks generalizing data with
  | nil => rw [List.map_nil, recvRest, List.flatten_nil, List.append_nil]
  | cons c chunks ih =>
    obtain ⟨b, bytes, rfl⟩ := List.exists_cons_of_ne_nil (hne c List.mem_cons_self)
    simp only [List.flatten_cons, List.length_append, List.length_cons] at hlen
    have htake : (b :: bytes).take (datalen - data.length) = b :: bytes :=
      List.take_of_length_le (by rw [List.length_cons]; omega)
    rw [List.map_cons, recvRest, if_pos (by omega), htake, List.flatten_cons, ← List.append_assoc]
    apply ih
    · intro c hc
      exact hne c (List.mem_cons_of_mem _ hc)
    · rw [List.length_append, List.length_cons]
      omega

/-- **The chunks are put together.** -/
theorem unRecvFds_visit (v : Visit) :
    unRecvFds sizeofRequest v.connection.received = some v.client.bytes := by
  have hlen := v.client.length_le
  rw [unRecvFds, Visit.connection, recvFirst_interrupted, Client.bytes] at *
  rcases hc : v.client.chunks with _ | ⟨c, chunks⟩
  · rfl
  · have hne := v.client.nonempty
    rw [hc] at hne hlen
    obtain ⟨b, bytes, rfl⟩ := List.exists_cons_of_ne_nil (hne c List.mem_cons_self)
    rw [List.flatten_cons, List.length_append] at hlen
    have htake : (b :: bytes).take sizeofRequest = b :: bytes :=
      List.take_of_length_le (by omega)
    rw [List.map_cons, recvFirst, htake]
    exact congrArg some (recvRest_chunks chunks _
      (fun c hc => hne c (List.mem_cons_of_mem _ hc)) hlen)

/-- The request a child is forked for. -/
def Visit.served (v : Visit) : List (List UInt8) :=
  if v.client.bytes.length = sizeofRequest ∧ v.sendmsg then [v.client.bytes] else []

theorem childHandle_visit (v : Visit) (w : Wshd) (req : List UInt8) :
    childHandleInteractive v.connection w req =
        (if v.sendmsg then childFork v.connection w req else .ok w) ∧
      childHandleNoninteractive v.connection w req =
        (if v.sendmsg then childFork v.connection w req else .ok w) := by
  cases hs : v.sendmsg <;>
    simp [childHandleInteractive, childHandleNoninteractive, Visit.connection, hs]

/-- A whole client is served. -/
theorem childAccept_whole {v : Visit} (h : v.client.Whole) (w : Wshd) :
    ∃ w', childAccept v.connection w = .ok w' ∧ w'.forked = w.forked ++ v.served := by
  have haccept : v.connection.accept = true := rfl
  obtain ⟨hinter, hnon⟩ := childHandle_visit v w v.client.bytes
  simp only [childAccept, haccept, unRecvFds_visit, hinter, hnon, ite_self, Visit.served,
    Bool.not_true, Bool.false_eq_true, if_false]
  rcases h with hnone | hall
  · have hnot : v.client.bytes.length ≠ sizeofRequest := by rw [hnone]; decide
    refine ⟨w, if_pos hnone, ?_⟩
    rw [if_neg fun h => hnot h.1, List.append_nil]
  · have hsome : v.client.bytes.length ≠ 0 := by rw [hall]; decide
    rw [if_neg hsome, if_neg (not_not.mpr hall)]
    cases hsend : v.sendmsg with
    | false => exact ⟨w, rfl, by simp⟩
    | true => exact ⟨_, rfl, by simp [hall]⟩

/-- Any other ends the process: the assertion on the number of bytes fails. -/
theorem childAccept_part {v : Visit} (h : ¬ v.client.Whole) (w : Wshd) :
    childAccept v.connection w = .error .abort := by
  obtain ⟨hnone, hall⟩ := not_or.mp h
  have haccept : v.connection.accept = true := rfl
  simp only [childAccept, haccept, unRecvFds_visit]
  simp [hnone, hall]

/-! ## Runs -/

/-- What happens at the loop: a client comes, or children end. -/
inductive Arrival where
  | visit (v : Visit)
  | sigchld (pids : List ℕ)

def Arrival.event : Arrival → Event
  | .visit v => .connection v.connection
  | .sigchld pids => .sigchld pids

def Arrival.Whole : Arrival → Prop
  | .visit v => v.client.Whole
  | .sigchld _ => True

def Arrival.served : Arrival → List (List UInt8)
  | .visit v => v.served
  | .sigchld _ => []

theorem childPidToFdRemove_forked (w : Wshd) (pid : ℕ) :
    (childPidToFdRemove w pid).1.forked = w.forked := by
  rw [childPidToFdRemove]
  split <;> rfl

theorem foldl_remove_forked (pids : List ℕ) (w : Wshd) :
    (pids.foldl (fun w pid => (childPidToFdRemove w pid).1) w).forked = w.forked := by
  induction pids generalizing w with
  | nil => rfl
  | cons pid pids ih => rw [List.foldl_cons, ih, childPidToFdRemove_forked]

theorem childLoopPass_whole {a : Arrival} (h : a.Whole) (w : Wshd) :
    ∃ w', childLoopPass w a.event = .ok w' ∧ w'.forked = w.forked ++ a.served := by
  cases a with
  | visit v => exact childAccept_whole h w
  | sigchld pids =>
    exact ⟨_, rfl, by rw [foldl_remove_forked, Arrival.served, List.append_nil]⟩

theorem childLoopPass_part {a : Arrival} (h : ¬ a.Whole) (w : Wshd) :
    childLoopPass w a.event = .error .abort := by
  cases a with
  | visit v => exact childAccept_part h w
  | sigchld pids => exact absurd trivial h

theorem childLoop_whole (as : List Arrival) (w : Wshd) (h : ∀ a ∈ as, a.Whole) :
    ∃ w', childLoop w (as.map Arrival.event) = .ok w' ∧
      w'.forked = w.forked ++ as.flatMap Arrival.served := by
  induction as generalizing w with
  | nil => exact ⟨w, rfl, (List.append_nil _).symm⟩
  | cons a as ih =>
    obtain ⟨ha, has⟩ := List.forall_mem_cons.mp h
    obtain ⟨w₁, hpass, hforked⟩ := childLoopPass_whole ha w
    obtain ⟨w', hloop, hforked'⟩ := ih w₁ has
    refine ⟨w', ?_, ?_⟩
    · rw [List.map_cons, childLoop, hpass]
      exact hloop
    · rw [hforked', hforked, List.append_assoc, List.flatMap_cons]

theorem childLoop_part (as : List Arrival) (w : Wshd) (h : ¬ ∀ a ∈ as, a.Whole) :
    childLoop w (as.map Arrival.event) = .error .abort := by
  induction as generalizing w with
  | nil => exact absurd (List.forall_mem_nil _) h
  | cons a as ih =>
    rw [List.map_cons, childLoop]
    by_cases ha : a.Whole
    · obtain ⟨w₁, hpass, -⟩ := childLoopPass_whole ha w
      rw [hpass]
      exact ih w₁ fun has => h (List.forall_mem_cons.mpr ⟨ha, has⟩)
    · rw [childLoopPass_part ha]
      rfl

/-- **The init process goes on** iff each client has sent nothing or a whole
    request; a child has then been forked for every request whose client was still
    there. -/
theorem init_survives_iff (w : Wshd) (as : List Arrival) :
    ((∃ w', childLoop w (as.map Arrival.event) = .ok w') ↔ ∀ a ∈ as, a.Whole) ∧
      ∀ w', childLoop w (as.map Arrival.event) = .ok w' →
        w'.forked = w.forked ++ as.flatMap Arrival.served := by
  by_cases h : ∀ a ∈ as, a.Whole
  · obtain ⟨w₁, hloop, hforked⟩ := childLoop_whole as w h
    refine ⟨iff_of_true ⟨w₁, hloop⟩ h, fun w' hw => ?_⟩
    obtain rfl := Except.ok.inj (hloop.symm.trans hw)
    exact hforked
  · simp [childLoop_part as w h, h]

/-- A client that sends the first byte of a request and closes. -/
def firstByte : Visit where
  client := {
    request := 1 :: List.replicate (sizeofRequest - 1) 0
    size := by rw [List.length_cons, List.length_replicate]; rfl
    chunks := [[1]]
    nonempty := List.forall_mem_singleton.mpr (List.cons_ne_nil 1 [])
    sent := ⟨_, rfl⟩ }
  interruptions := 0
  sendmsg := true
  pid := 1
  fd := 3

/-- **One byte** of a request ends the process. -/
theorem init_aborted :
    childLoop ⟨[], []⟩ ([Arrival.visit firstByte].map Arrival.event) = .error .abort := rfl

end Wshd

end WardenLinux
