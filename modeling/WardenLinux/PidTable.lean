/-
  The table of the children of `wshd`, with the descriptors for their exit
  statuses (wshd.c).

  The table is an array that `realloc` makes longer and shorter.  `PidTable.of`
  is the array that holds a list: on it, `child_pid_to_fd_add` and
  `child_pid_to_fd_remove` do what `Wshd` has them do to the list
  (`childPidToFdAdd_of`, `childPidToFdRemove_of`), and no assertion fails.

  Each request has a pipe of its own, and the child's status goes into it.  A
  number is used again once it is free, be it a pid or a descriptor.

  `exit_statuses_delivered`: over any requests and ends of children, the table is
  that of the children not yet reaped, and the pipe of each request has got the
  status of its own child.
-/
import WardenLinux.Lib.Transition
import WardenLinux.Wshd

namespace WardenLinux

open Transition

/-! ## The array -/

/-- `pid_to_fd`, which may be NULL, and `pid_to_fd_len` -/
structure PidTable where
  pidToFd : Option (List (ℕ × ℕ))
  pidToFdLen : ℕ
  deriving DecidableEq

namespace PidTable

/-- `realloc` to `n` entries, with `junk` in memory that is new. -/
def realloc (p : Option (List (ℕ × ℕ))) (n : ℕ) (junk : ℕ × ℕ) : Option (List (ℕ × ℕ)) :=
  if n = 0 then none else some ((p.getD [] ++ List.replicate n junk).take n)

/-- `memmove` of `n` entries from `src` to `dst` -/
def memmove (b : List (ℕ × ℕ)) (dst src n : ℕ) : List (ℕ × ℕ) :=
  b.take dst ++ (b.drop src).take n ++ b.drop (dst + n)

/-- `child_pid_to_fd_add`; without a result it aborts. -/
def childPidToFdAdd (w : PidTable) (pid : ℕ) (dup : Option ℕ) (junk : ℕ × ℕ) : Option PidTable :=
  match dup, realloc w.pidToFd (w.pidToFdLen + 1) junk with
  | some fd, some b => some ⟨some (b.set w.pidToFdLen (pid, fd)), w.pidToFdLen + 1⟩
  | _, _ => none

/-- `child_pid_to_fd_remove`; without a result an assertion fails. -/
def childPidToFdRemove (w : PidTable) (pid : ℕ) : Option (PidTable × ℤ) :=
  let b := w.pidToFd.getD []
  let len := w.pidToFdLen
  match (b.take len).findIdx? (·.1 = pid) with
  | none => some (w, -1)
  | some i =>
    let fd := (b.getD i (0, 0)).2
    -- the tail is moved if there is one
    let b := if i + 1 < len then memmove b i (i + 1) (len - i - 1) else b
    let p := realloc (some b) (len - 1) (0, 0)
    if p.isSome = decide (len - 1 ≠ 0) then some (⟨p, len - 1⟩, fd) else none

/-- The array that holds a list. -/
def of (es : List (ℕ × ℕ)) : PidTable := ⟨if es = [] then none else some es, es.length⟩

theorem of_getD (es : List (ℕ × ℕ)) : (of es).pidToFd.getD [] = es := by
  cases es <;> rfl

theorem of_eq {es : List (ℕ × ℕ)} {n : ℕ} (hn : es.length = n) (h : es ≠ []) :
    (⟨some es, n⟩ : PidTable) = of es := by
  rw [of, if_neg h, hn]

/-- **An entry is added** at the end. -/
theorem childPidToFdAdd_of (es : List (ℕ × ℕ)) (pid fd : ℕ) (junk : ℕ × ℕ) :
    (of es).childPidToFdAdd pid (some fd) junk = some (of (es ++ [(pid, fd)])) := by
  have hmem : ((of es).pidToFd.getD [] ++ List.replicate (es.length + 1) junk).take
      (es.length + 1) = es ++ [junk] := by
    rw [of_getD, List.take_append, List.take_of_length_le (Nat.le_succ _)]
    simp
  have hset : (es ++ [junk]).set es.length (pid, fd) = es ++ [(pid, fd)] := by simp
  simp only [childPidToFdAdd, realloc, show (of es).pidToFdLen = es.length from rfl, hmem,
    Nat.succ_ne_zero, if_false, hset]
  exact congrArg some (of_eq (by simp) (by simp))

/-- What `memmove` and `realloc` leave of a list that loses an entry. -/
theorem take_memmove {es : List (ℕ × ℕ)} {i : ℕ} (hi : i < es.length) :
    (if i + 1 < es.length then memmove es i (i + 1) (es.length - i - 1) else es).take
      (es.length - 1) = es.eraseIdx i := by
  rw [List.eraseIdx_eq_take_drop_succ]
  split
  · have htail : (es.drop (i + 1)).take (es.length - i - 1) = es.drop (i + 1) :=
      List.take_of_length_le (by rw [List.length_drop]; omega)
    rw [memmove, htail]
    refine List.take_left' ?_
    rw [List.length_append, List.length_take, List.length_drop]
    omega
  · have hlast : i = es.length - 1 := by omega
    rw [List.drop_eq_nil_of_le (by omega), List.append_nil, hlast]

/-- A shorter array holds the beginning of the list. -/
theorem realloc_of {b : List (ℕ × ℕ)} {n : ℕ} (hn : n ≤ b.length) (junk : ℕ × ℕ) :
    realloc (some b) n junk = (of (b.take n)).pidToFd := by
  have hmem : (b ++ List.replicate n junk).take n = b.take n := List.take_append_of_le_length hn
  cases n with
  | zero => simp [realloc, of]
  | succ n =>
    have hne : b.take (n + 1) ≠ [] := by
      intro h
      have := congrArg List.length h
      rw [List.length_take, Nat.min_eq_left hn] at this
      cases this
    rw [realloc, if_neg (Nat.succ_ne_zero n), of, if_neg hne, Option.getD_some, hmem]

theorem isSome_of (es : List (ℕ × ℕ)) : (of es).pidToFd.isSome = decide (es.length ≠ 0) := by
  cases es <;> rfl

/-- The result for a descriptor that may be there. -/
def fdOf : Option ℕ → ℤ
  | none => -1
  | some fd => fd

/-- **An entry is removed**, and the others move up. -/
theorem childPidToFdRemove_of (w : Wshd) (pid : ℕ) :
    (of w.pidToFd).childPidToFdRemove pid =
      some (of (w.childPidToFdRemove pid).1.pidToFd, fdOf (w.childPidToFdRemove pid).2) := by
  have hlen : (of w.pidToFd).pidToFdLen = w.pidToFd.length := rfl
  rw [childPidToFdRemove, Wshd.childPidToFdRemove]
  simp only [of_getD, hlen, List.take_length]
  cases hfind : w.pidToFd.findIdx? (·.1 = pid) with
  | none => rfl
  | some i =>
    have hi : i < w.pidToFd.length := (List.findIdx?_eq_some_iff_getElem.1 hfind).1
    have hshort : (w.pidToFd.eraseIdx i).length = w.pidToFd.length - 1 :=
      List.length_eraseIdx_of_lt hi
    have hmem : realloc (some (if i + 1 < w.pidToFd.length then
        memmove w.pidToFd i (i + 1) (w.pidToFd.length - i - 1) else w.pidToFd))
        (w.pidToFd.length - 1) (0, 0) = (of (w.pidToFd.eraseIdx i)).pidToFd := by
      rw [← take_memmove hi]
      refine realloc_of ?_ _
      split
      · rw [memmove, List.length_append, List.length_append, List.length_take, List.length_take,
          List.length_drop, List.length_drop]
        omega
      · exact Nat.sub_le ..
    dsimp only
    rw [hmem, if_pos (by rw [isSome_of, hshort]), ← hshort, List.getD_eq_getElem?_getD,
      List.getElem?_eq_getElem hi]
    rfl

/-! ## Requests and their children -/

/-- `status` of `waitpid` -/
inductive Ended where
  | exited (exitstatus : ℕ)
  | signaled
  deriving DecidableEq, Repr

/-- The child of a request: its pid, the descriptor for its status, and how it has
    ended, once it is reaped. -/
structure Child where
  pid : ℕ
  fd : ℕ
  ended : Option Ended
  deriving DecidableEq, Repr

/-- The table, the request whose pipe a descriptor is for, what was written to the
    pipe of a request, and the children, in the order of the requests. -/
structure State where
  table : PidTable
  fds : ℤ → Option ℕ
  pipes : ℕ → List ℕ
  children : List Child

/-- `write` -/
def State.write (s : State) (fd : ℤ) (exitstatus : ℕ) : State :=
  match s.fds fd with
  | some r => { s with pipes := Function.update s.pipes r (s.pipes r ++ [exitstatus]) }
  | none => s

/-- `close` -/
def State.close (s : State) (fd : ℤ) : State := { s with fds := Function.update s.fds fd none }

/-- A child with this pid is reaped. -/
def Child.reap (pid : ℕ) (status : Ended) (c : Child) : Child :=
  if c.pid = pid ∧ c.ended = none then { c with ended := some status } else c

/-- A pass of the loop in `child_handle_sigchld`. -/
def State.reap (s : State) (pid : ℕ) (status : Ended) : Option State :=
  match s.table.childPidToFdRemove pid with
  | none => none
  | some (table, fd) =>
    let s := { s with table, children := s.children.map (Child.reap pid status) }
    -- processes can be reparented, so a pid may not map to an fd
    if fd = -1 then some s
    else
      match status with
      | .exited exitstatus => some ((s.write fd exitstatus).close fd)
      | .signaled => some (s.close fd)

/-- `child_handle_sigchld`, for what `waitpid` returns. -/
def State.childHandleSigchld (s : State) : List (ℕ × Ended) → Option State
  | [] => some s
  | (pid, status) :: rest => (s.reap pid status).bind fun s => childHandleSigchld s rest

inductive Event where
  /-- a child is forked for a request, and `dup` returns `fd` -/
  | request (pid fd : ℕ) (junk : ℕ × ℕ)
  | sigchld (reaped : List (ℕ × Ended))

def State.handle (s : State) : Event → Option State
  | .request pid fd junk =>
    (s.table.childPidToFdAdd pid (some fd) junk).map fun table =>
      { s with
        table
        fds := Function.update s.fds fd (some s.children.length)
        children := s.children ++ [⟨pid, fd, none⟩] }
  | .sigchld reaped => s.childHandleSigchld reaped

/-- The entries of the table. -/
def entries (w : PidTable) : List (ℕ × ℕ) := w.pidToFd.getD []

/-- A child gets a pid that is not in the table, and `dup` a descriptor that is not
    in use. -/
def State.Permits (s : State) : Event → Prop
  | .request pid fd _ => pid ∉ s.table.entries.map Prod.fst ∧ s.fds fd = none
  | .sigchld _ => True

instance (s : State) (e : Event) : Decidable (s.Permits e) := by
  unfold State.Permits
  split <;> infer_instance

def Step (s : State) (e : Event) (s' : State) : Prop := s.Permits e ∧ s.handle e = some s'

def start : State := ⟨⟨none, 0⟩, fun _ => none, fun _ => [], []⟩

/-! ## Reaping -/

/-- The children that are added and not yet reaped. -/
def outstanding (cs : List Child) : List Child := cs.filter (·.ended = none)

def Child.entry (c : Child) : ℕ × ℕ := (c.pid, c.fd)

/-- What the pipe of a request has got. -/
def Child.received (c : Child) : List ℕ :=
  match c.ended with
  | some (.exited exitstatus) => [exitstatus]
  | some .signaled | none => []

/-- What is known in every state: the table holds the children not yet reaped,
    their pids differ, the descriptors are for their pipes, and each pipe has got
    the status of its own child. -/
structure Known (s : State) : Prop where
  table : s.table = of ((outstanding s.children).map Child.entry)
  pids : s.children.Pairwise fun c c' => c.ended = none → c'.ended = none → c.pid ≠ c'.pid
  fds : ∀ fd r, s.fds fd = some r ↔
    ∃ c, s.children[r]? = some c ∧ c.ended = none ∧ (c.fd : ℤ) = fd
  pipes : ∀ r, s.pipes r = (s.children[r]?.map Child.received).getD []

theorem Known.entries_eq (h : Known s) :
    s.table.entries = (outstanding s.children).map Child.entry := by
  rw [entries, h.table, of_getD]

theorem known_start : Known start where
  table := rfl
  pids := .nil
  fds fd r := by simp [start]
  pipes r := rfl

theorem remove_pidToFd (w : Wshd) (pid : ℕ) :
    (w.childPidToFdRemove pid).1.pidToFd = w.pidToFd.eraseP (·.1 = pid) := by
  rw [Wshd.childPidToFdRemove, List.eraseP_eq_eraseIdx]
  cases w.pidToFd.findIdx? (·.1 = pid) <;> rfl

theorem remove_fd (w : Wshd) (pid : ℕ) :
    (w.childPidToFdRemove pid).2 = (w.pidToFd.find? (·.1 = pid)).map Prod.snd := by
  rw [Wshd.childPidToFdRemove, List.find?_eq_bind_findIdx?_getElem?]
  cases w.pidToFd.findIdx? (·.1 = pid) <;> rfl

/-- With pids that differ, the first entry of a pid is the only one. -/
theorem eraseP_eq_filter {es : List (ℕ × ℕ)} (h : es.Pairwise fun e e' => e.1 ≠ e'.1) (pid : ℕ) :
    es.eraseP (·.1 = pid) = es.filter (·.1 ≠ pid) := by
  induction h with
  | nil => rfl
  | @cons e es hne _ ih =>
    by_cases he : e.1 = pid
    · have hrest : es.filter (·.1 ≠ pid) = es := by
        rw [List.filter_eq_self]
        intro e' he'
        exact decide_eq_true (he ▸ (hne e' he').symm)
      rw [List.eraseP_cons_of_pos (by simpa using he), List.filter_cons_of_neg (by simpa using he),
        hrest]
    · rw [List.eraseP_cons_of_neg (by simpa using he), List.filter_cons_of_pos (by simpa using he),
        ih]

theorem outstanding_reap (cs : List Child) (pid : ℕ) (status : Ended) :
    outstanding (cs.map (Child.reap pid status)) = (outstanding cs).filter (·.pid ≠ pid) := by
  induction cs with
  | nil => rfl
  | cons c cs ih =>
    rw [outstanding] at ih ⊢
    by_cases hend : c.ended = none
    · by_cases hpid : c.pid = pid
      · simp [outstanding, Child.reap, hend, hpid] at ih ⊢
        exact ih
      · simp [outstanding, Child.reap, hend, hpid] at ih ⊢
        exact ih
    · simp [outstanding, Child.reap, hend] at ih ⊢
      exact ih

variable {s s' : State}

theorem Known.entries_pairwise (h : Known s) :
    ((outstanding s.children).map Child.entry).Pairwise fun e e' => e.1 ≠ e'.1 := by
  rw [List.pairwise_map, outstanding, List.pairwise_filter]
  refine h.pids.imp fun {c c'} hne hc hc' => ?_
  exact hne (of_decide_eq_true hc) (of_decide_eq_true hc')

/-- Two children with one pid, neither of them reaped, are one. -/
theorem Known.pid_inj (h : Known s) {r r' : ℕ} {c c' : Child} (hc : s.children[r]? = some c)
    (hc' : s.children[r']? = some c') (hend : c.ended = none) (hend' : c'.ended = none)
    (hpid : c.pid = c'.pid) : r = r' := by
  obtain ⟨hr, rfl⟩ := List.getElem?_eq_some_iff.1 hc
  obtain ⟨hr', rfl⟩ := List.getElem?_eq_some_iff.1 hc'
  have hpair := List.pairwise_iff_getElem.1 h.pids
  rcases Nat.lt_trichotomy r r' with hlt | heq | hlt
  · exact absurd hpid (hpair r r' hr hr' hlt hend hend')
  · exact heq
  · exact absurd hpid.symm (hpair r' r hr' hr hlt hend' hend)

/-- **What a removal does** to the table. -/
theorem Known.remove (h : Known s) (pid : ℕ) :
    s.table.childPidToFdRemove pid =
      some (of (((outstanding s.children).filter (·.pid ≠ pid)).map Child.entry),
        fdOf (((outstanding s.children).find? (·.pid = pid)).map Child.fd)) := by
  have hspec := childPidToFdRemove_of ⟨(outstanding s.children).map Child.entry, []⟩ pid
  rw [remove_pidToFd, remove_fd, eraseP_eq_filter h.entries_pairwise, List.filter_map,
    List.find?_map, Option.map_map] at hspec
  rw [h.table]
  exact hspec

theorem reap_pairwise (h : Known s) (pid : ℕ) (status : Ended) :
    (s.children.map (Child.reap pid status)).Pairwise
      fun c c' => c.ended = none → c'.ended = none → c.pid ≠ c'.pid := by
  have hreap : ∀ c : Child, (c.reap pid status).pid = c.pid ∧
      ((c.reap pid status).ended = none → c.ended = none) := by
    intro c
    unfold Child.reap
    split
    · exact ⟨rfl, fun h => by cases h⟩
    · exact ⟨rfl, id⟩
  rw [List.pairwise_map]
  refine h.pids.imp fun {c c'} hne hc hc' => ?_
  rw [(hreap c).1, (hreap c').1]
  exact hne ((hreap c).2 hc) ((hreap c').2 hc')

/-- **A pid that no child has** is reaped without an effect. -/
theorem Known.reap_unknown (h : Known s) {pid : ℕ} (status : Ended)
    (hno : (outstanding s.children).find? (·.pid = pid) = none) :
    ∃ s', s.reap pid status = some s' ∧ Known s' := by
  have hnone : ∀ c ∈ s.children, c.ended = none → c.pid ≠ pid := by
    intro c hc hend
    have := List.find?_eq_none.1 hno c (List.mem_filter.2 ⟨hc, decide_eq_true hend⟩)
    simpa using this
  have hsame : s.children.map (Child.reap pid status) = s.children := by
    conv_rhs => rw [← List.map_id s.children]
    refine List.map_congr_left fun c hc => ?_
    exact if_neg fun ⟨hpid, hend⟩ => hnone c hc hend hpid
  rw [State.reap, h.remove, hno]
  simp only [Option.map_none, fdOf, if_true, hsame]
  refine ⟨_, rfl, ?_, h.pids, h.fds, h.pipes⟩
  rw [← outstanding_reap s.children pid status, hsame]

/-- What reaping the child of the request `r` makes of the children. -/
theorem Known.reap_children (h : Known s) {r : ℕ} {c : Child} (hc : s.children[r]? = some c)
    (hend : c.ended = none) (status : Ended) (r' : ℕ) :
    (s.children.map (Child.reap c.pid status))[r']? =
      if r' = r then some { c with ended := some status } else s.children[r']? := by
  rw [List.getElem?_map]
  split
  · rename_i heq
    rw [heq, hc, Option.map_some, Child.reap, if_pos ⟨rfl, hend⟩]
  · rename_i hne
    cases hc' : s.children[r']? with
    | none => rfl
    | some c' =>
      rw [Option.map_some, Child.reap, if_neg]
      rintro ⟨hpid, hend'⟩
      exact hne (h.pid_inj hc' hc hend' hend hpid)

/-- **The descriptor of one child changes** with the child: it is opened for a new one, or
    closed when the child has ended. -/
theorem fds_update {children children' : ℕ → Option Child} {fds : ℤ → Option ℕ} {r : ℕ} {c : Child}
    (hfds : ∀ fd r, fds fd = some r ↔ ∃ c, children r = some c ∧ c.ended = none ∧ (c.fd : ℤ) = fd)
    (hchildren : ∀ r', children' r' = if r' = r then some c else children r')
    (hold : ∀ c', children r = some c' → c'.ended = none → c'.fd = c.fd)
    (hfree : ∀ r', fds c.fd = some r' → r' = r) (fd : ℤ) (r' : ℕ) :
    Function.update fds c.fd (if c.ended = none then some r else none) fd = some r' ↔
      ∃ c, children' r' = some c ∧ c.ended = none ∧ (c.fd : ℤ) = fd := by
  rcases eq_or_ne r' r with rfl | hr
  · have hc : children' r' = some c := by rw [hchildren, if_pos rfl]
    rcases eq_or_ne fd c.fd with rfl | hfd
    · rw [Function.update_self, hc]
      by_cases hend : c.ended = none
      · exact iff_of_true (if_pos hend) ⟨c, rfl, hend, rfl⟩
      · rw [if_neg hend]
        refine iff_of_false (fun h => by cases h) ?_
        rintro ⟨c', ⟨⟩, hend', -⟩
        exact hend hend'
    · -- neither the child before nor the one now has this descriptor
      rw [Function.update_of_ne hfd, hfds, hc]
      refine iff_of_false ?_ ?_
      · rintro ⟨c', hc', hend', rfl⟩
        exact hfd (congrArg _ (hold c' hc' hend'))
      · rintro ⟨c', ⟨⟩, -, rfl⟩
        exact hfd rfl
  · have hc : children' r' = children r' := by rw [hchildren, if_neg hr]
    rw [hc, ← hfds]
    rcases eq_or_ne fd c.fd with rfl | hfd
    · rw [Function.update_self]
      refine iff_of_false ?_ fun h => hr (hfree r' h)
      split
      · exact fun h => hr (Option.some.inj h).symm
      · exact fun h => by cases h
    · rw [Function.update_of_ne hfd]

theorem Known.reaped (h : Known s) {r : ℕ} {c : Child} (hc : s.children[r]? = some c)
    (hend : c.ended = none) (status : Ended) {pipes : ℕ → List ℕ}
    (hr : pipes r = Child.received { c with ended := some status })
    (hne : ∀ r' ≠ r, pipes r' = s.pipes r') :
    Known {
      table := of (((outstanding s.children).filter (·.pid ≠ c.pid)).map Child.entry)
      fds := Function.update s.fds c.fd none
      pipes
      children := s.children.map (Child.reap c.pid status) } where
  table := by rw [outstanding_reap]
  pids := reap_pairwise h c.pid status
  fds fd r' := by
    have hopen : s.fds c.fd = some r := (h.fds c.fd r).2 ⟨c, hc, hend, rfl⟩
    refine fds_update (c := { c with ended := some status }) h.fds
      (h.reap_children hc hend status) (fun c' hc' _ => ?_) (fun r' hr' => ?_) fd r'
    · cases hc.symm.trans hc'
      rfl
    · exact Option.some.inj (hr'.symm.trans hopen)
  pipes r' := by
    simp only [h.reap_children hc hend status]
    split
    · rename_i heq
      rw [heq, hr]
      rfl
    · rename_i hne'
      rw [hne r' hne', h.pipes]

/-- **The child of a request is reaped**: its status goes into its own pipe. -/
theorem Known.reap_child (h : Known s) {pid : ℕ} (status : Ended) {c : Child}
    (hfind : (outstanding s.children).find? (·.pid = pid) = some c) :
    ∃ s', s.reap pid status = some s' ∧ Known s' := by
  have hmem := List.mem_of_find?_eq_some hfind
  obtain ⟨hcs, hend⟩ := List.mem_filter.1 hmem
  have hend : c.ended = none := of_decide_eq_true hend
  have hpid : c.pid = pid := of_decide_eq_true (List.find?_some hfind :)
  subst hpid
  obtain ⟨r, hr⟩ := List.mem_iff_getElem?.1 hcs
  have hopen : s.fds c.fd = some r := (h.fds c.fd r).2 ⟨c, hr, hend, rfl⟩
  have hempty : s.pipes r = [] := by
    rw [h.pipes, hr, Option.map_some, Option.getD_some, Child.received, hend]
  have hfd : ¬ ((c.fd : ℤ) = -1) := by omega
  rw [State.reap, h.remove, hfind]
  simp only [Option.map_some, fdOf, hfd, if_false]
  cases status with
  | exited exitstatus =>
    refine ⟨_, rfl, ?_⟩
    simp only [State.write, hopen]
    refine h.reaped hr hend (.exited exitstatus) ?_ fun r' hne => Function.update_of_ne hne ..
    show Function.update s.pipes r (s.pipes r ++ [exitstatus]) r = [exitstatus]
    rw [Function.update_self, hempty, List.nil_append]
  | signaled => exact ⟨_, rfl, h.reaped hr hend .signaled hempty fun _ _ => rfl⟩

theorem Known.reap (h : Known s) (pid : ℕ) (status : Ended) :
    ∃ s', s.reap pid status = some s' ∧ Known s' := by
  cases hfind : (outstanding s.children).find? (·.pid = pid) with
  | none => exact h.reap_unknown status hfind
  | some c => exact h.reap_child status hfind

theorem Known.childHandleSigchld (reaped : List (ℕ × Ended)) :
    ∀ {s : State}, Known s → ∃ s', s.childHandleSigchld reaped = some s' ∧ Known s' := by
  induction reaped with
  | nil => exact fun {s} h => ⟨s, rfl, h⟩
  | cons x reaped ih =>
    intro s h
    obtain ⟨s₁, hreap, h₁⟩ := h.reap x.1 x.2
    obtain ⟨s', hrest, h'⟩ := ih h₁
    exact ⟨s', by rw [State.childHandleSigchld, hreap]; exact hrest, h'⟩

/-! ## Requests -/

theorem getElem?_snoc (cs : List Child) (c : Child) (r : ℕ) :
    (cs ++ [c])[r]? = if r = cs.length then some c else cs[r]? := by
  rcases Nat.lt_trichotomy r cs.length with hlt | heq | hgt
  · rw [if_neg (Nat.ne_of_lt hlt), List.getElem?_append_left hlt]
  · rw [if_pos heq, heq, List.getElem?_concat_length]
  · rw [if_neg (Nat.ne_of_gt hgt), List.getElem?_eq_none (Nat.le_of_lt hgt),
      List.getElem?_eq_none (by rw [List.length_append]; exact hgt)]

theorem Known.request (h : Known s) {pid fd : ℕ} (junk : ℕ × ℕ)
    (hpid : pid ∉ s.table.entries.map Prod.fst) (hfd : s.fds fd = none) :
    ∃ s', s.handle (.request pid fd junk) = some s' ∧ Known s' := by
  have hnew : ∀ c ∈ s.children, c.ended = none → c.pid ≠ pid := by
    rintro c hc hend rfl
    refine hpid ?_
    rw [h.entries_eq, List.map_map]
    exact List.mem_map.2 ⟨c, List.mem_filter.2 ⟨hc, decide_eq_true hend⟩, rfl⟩
  simp only [State.handle, h.table, childPidToFdAdd_of, Option.map_some]
  refine ⟨_, rfl, ?_, ?_, fun fd' r => ?_, fun r => ?_⟩
  · simp [outstanding, Child.entry]
  · rw [List.pairwise_append]
    refine ⟨h.pids, List.pairwise_singleton _ _, fun c hc c' hc' hend _ => ?_⟩
    rw [List.mem_singleton.1 hc']
    exact hnew c hc hend
  · -- the descriptor was not in use, and there was no such request
    refine fds_update (c := ⟨pid, fd, none⟩) h.fds (getElem?_snoc s.children _) (fun c' hc' => ?_)
      (fun r hr => ?_) fd' r
    · rw [List.getElem?_eq_none (Nat.le_refl _)] at hc'
      cases hc'
    · rw [hfd] at hr
      cases hr
  · simp only [getElem?_snoc, h.pipes]
    split
    · rename_i heq
      rw [heq, List.getElem?_eq_none (Nat.le_refl _)]
      rfl
    · rfl

/-! ## Runs -/

/-- No assertion fails. -/
theorem Known.handle (h : Known s) {e : Event} (he : s.Permits e) :
    ∃ s', s.handle e = some s' ∧ Known s' := by
  cases e with
  | request pid fd junk => exact h.request junk he.1 he.2
  | sigchld reaped => exact Known.childHandleSigchld reaped h

theorem known_step {e : Event} (h : Known s) (hs : Step s e s') : Known s' := by
  obtain ⟨s₁, hs₁, h₁⟩ := h.handle hs.1
  cases hs₁.symm.trans hs.2
  exact h₁

/-- The pipe of a request has got the status of its child, when that has exited,
    and nothing else; then the descriptor is closed, and before it is open. -/
def State.Delivered (s : State) (r : ℕ) (c : Child) : Prop :=
  match c.ended with
  | none => s.pipes r = [] ∧ s.fds c.fd = some r
  | some (.exited exitstatus) => s.pipes r = [exitstatus] ∧ ∀ fd, s.fds fd ≠ some r
  | some .signaled => s.pipes r = [] ∧ ∀ fd, s.fds fd ≠ some r

theorem Known.delivered (h : Known s) {r : ℕ} {c : Child} (hc : s.children[r]? = some c) :
    s.Delivered r c := by
  have hpipe : s.pipes r = c.received := by rw [h.pipes, hc]; rfl
  have hclosed : c.ended ≠ none → ∀ fd, s.fds fd ≠ some r := by
    intro hend fd hfd
    obtain ⟨c', hc', hend', -⟩ := (h.fds fd r).1 hfd
    cases hc.symm.trans hc'
    exact hend hend'
  unfold State.Delivered
  unfold Child.received at hpipe
  split
  · rename_i hend
    rw [hend] at hpipe
    exact ⟨hpipe, (h.fds c.fd r).2 ⟨c, hc, hend, rfl⟩⟩
  · rename_i hend
    rw [hend] at hpipe
    exact ⟨hpipe, hclosed (by rw [hend]; exact Option.some_ne_none _)⟩
  · rename_i hend
    rw [hend] at hpipe
    exact ⟨hpipe, hclosed (by rw [hend]; exact Option.some_ne_none _)⟩

/-- The descriptor that a removal returns. -/
theorem Known.fd_of_pid (h : Known s) (pid : ℕ) :
    let fd := fdOf (((outstanding s.children).find? (·.pid = pid)).map Child.fd)
    (∀ fd', (pid, fd') ∈ s.table.entries → fd = fd') ∧
      (pid ∉ s.table.entries.map Prod.fst → fd = -1) := by
  rw [h.entries_eq]
  cases hfind : (outstanding s.children).find? (·.pid = pid) with
  | none =>
    refine ⟨fun fd' hmem => ?_, fun _ => rfl⟩
    obtain ⟨c, hc, heq⟩ := List.mem_map.1 hmem
    exact absurd (decide_eq_true (congrArg Prod.fst heq)) (List.find?_eq_none.1 hfind c hc)
  | some c =>
    have hc := List.mem_of_find?_eq_some hfind
    have hpid : c.pid = pid := of_decide_eq_true (List.find?_some hfind :)
    constructor
    · intro fd' hmem
      obtain ⟨c', hc', heq⟩ := List.mem_map.1 hmem
      obtain ⟨hcs, hend⟩ := List.mem_filter.1 hc
      obtain ⟨hcs', hend'⟩ := List.mem_filter.1 hc'
      obtain ⟨r, hr⟩ := List.mem_iff_getElem?.1 hcs
      obtain ⟨r', hr'⟩ := List.mem_iff_getElem?.1 hcs'
      have hrr := h.pid_inj hr hr' (of_decide_eq_true hend) (of_decide_eq_true hend')
        (hpid.trans (congrArg Prod.fst heq).symm)
      rw [hrr] at hr
      cases hr.symm.trans hr'
      exact congrArg (fun e : ℕ × ℕ => (e.2 : ℤ)) heq
    · intro hno
      refine absurd ?_ hno
      rw [List.map_map]
      exact List.mem_map.2 ⟨c, hc, hpid⟩

/-- **Exit statuses go to the right client.**  After any requests and ends of
    children no assertion fails next; the table has an entry for each child not yet
    reaped; a removal returns the descriptor of its pid, or -1, and leaves all other
    entries in their order; and every request has got the status of its child. -/
theorem exit_statuses_delivered {es : List Event} (h : Run Step start es s) :
    (∀ e, s.Permits e → ∃ s', Step s e s') ∧
    s.table.pidToFdLen = (outstanding s.children).length ∧
    s.table.entries = (outstanding s.children).map Child.entry ∧
    (∀ pid, ∃ w' fd, s.table.childPidToFdRemove pid = some (w', fd) ∧
      w'.entries = s.table.entries.filter (·.1 ≠ pid) ∧
      w'.pidToFdLen = w'.entries.length ∧
      (∀ fd', (pid, fd') ∈ s.table.entries → fd = fd') ∧
      (pid ∉ s.table.entries.map Prod.fst → fd = -1)) ∧
    ∀ r c, s.children[r]? = some c → s.Delivered r c := by
  have hknown : Known s := h.invariant known_start fun _ _ _ => known_step
  have hentries := hknown.entries_eq
  refine ⟨fun e he => ?_, ?_, hentries, fun pid => ?_, fun r c => hknown.delivered⟩
  · obtain ⟨s', hs', -⟩ := hknown.handle he
    exact ⟨s', he, hs'⟩
  · rw [hknown.table]
    exact List.length_map ..
  · refine ⟨_, _, hknown.remove pid, ?_, ?_, hknown.fd_of_pid pid⟩
    · rw [hentries, entries, of_getD, List.filter_map]
      rfl
    · rw [entries, of_getD]
      rfl

/-- A pid and a descriptor are used twice, and a process is reaped that was never
    added. -/
def usedAgain : List Event :=
  [.request 5 10 (0, 0), .request 6 11 (7, 7), .sigchld [(9, .exited 1), (5, .exited 3)],
    .request 5 10 (0, 0), .sigchld [(5, .exited 4), (6, .signaled)]]

theorem exit_statuses_delivered_used_again :
    ∃ s, Run Step start usedAgain s ∧
      (s.pipes 0 = [3] ∧ s.pipes 1 = [] ∧ s.pipes 2 = [4] ∧ s.table.pidToFdLen = 0) ∧
      s.Delivered 2 ⟨5, 10, some (.exited 4)⟩ := by
  have hrun : ∃ s, Run Step start usedAgain s ∧
      ((s.pipes 0 = [3] ∧ s.pipes 1 = [] ∧ s.pipes 2 = [4] ∧ s.table.pidToFdLen = 0) ∧
        s.children[2]? = some ⟨5, 10, some (.exited 4)⟩) :=
    exists_guarded_run (by decide +kernel)
  obtain ⟨s, hs, hpipes, hc⟩ := hrun
  exact ⟨s, hs, hpipes, (exit_statuses_delivered hs).2.2.2.2 2 _ hc⟩

end PidTable

end WardenLinux
