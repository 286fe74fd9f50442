/-
  `NetIn` and `Destroy` on one container at the same time (linux_container.go,
  resources.go, container_pool.go, linux_backend.go), where every command
  succeeds.

  A port is in one of four places: it is free, taken by a `NetIn` that has not
  added it yet, held by the container and still to be released, or added after
  `Destroy` has read the ports of the container (`Shift` says what a step
  moves).

  `ports_returned`: when all calls have returned, every port is free again if no
  port was added after `Destroy` had read them, and only then.
-/
import Mathlib.Data.List.Perm.Basic
import WardenLinux.ContainerPool
import WardenLinux.Lib.Transition

namespace WardenLinux

open Fallible FreeList Transition

namespace Mapping

/-! ## Steps -/

/-- Where a call of `NetIn(0, containerPort)` is. -/
inductive NetIn where
  /-- `portPool.Acquire` -/
  | acquire (containerPort : UInt32)
  /-- `resources.AddPort` -/
  | addPort (port containerPort : UInt32)
  /-- `net.sh` -/
  | netSh (spec : NetInSpec)
  /-- the append to `netIns` -/
  | record (spec : NetInSpec)
  | returned (spec : NetInSpec)
  /-- the error of an exhausted pool -/
  | exhausted
  deriving DecidableEq

/-- Where the `Destroy` is, with the ports that it has read. -/
inductive Destroy where
  | lookup
  | destroySh
  | cleanupRootFS
  /-- the slice that the loop ranges over -/
  | readPorts
  | release (read rest : List UInt32)
  | unregister (read : List UInt32)
  | returned (read : List UInt32)
  /-- the container is not registered -/
  | unknownHandle
  deriving DecidableEq

/-- The port pool, the container, and the calls on it. -/
structure State where
  portPool : PortPool
  ports : List UInt32
  netIns : List NetInSpec
  registered : Bool
  calls : List NetIn
  destroy : Destroy

/-- The next step of a `NetIn`. -/
def NetIn.next (s : State) : NetIn → Option (NetIn × State)
  | .acquire containerPort =>
    match PortPool.acquire s.portPool with
    | .ok port pool => some (.addPort port containerPort, { s with portPool := pool })
    | .error _ _ => some (.exhausted, s)
  | .addPort port containerPort =>
    some (.netSh ⟨port, if containerPort = 0 then port else containerPort⟩,
      { s with ports := s.ports ++ [port] })
  | .netSh spec => some (.record spec, s)
  | .record spec => some (.returned spec, { s with netIns := s.netIns ++ [spec] })
  | .returned _ | .exhausted => none

/-- The next step of the `Destroy`.  The user ID and the network are released
    after the ports. -/
def Destroy.next (s : State) : Destroy → Option State
  | .lookup =>
    if s.registered then some { s with destroy := .destroySh }
    else some { s with destroy := .unknownHandle }
  | .destroySh => some { s with destroy := .cleanupRootFS }
  | .cleanupRootFS => some { s with destroy := .readPorts }
  | .readPorts => some { s with destroy := .release s.ports s.ports }
  | .release read (port :: rest) =>
    some { s with portPool := s.portPool.release port, destroy := .release read rest }
  | .release read [] => some { s with destroy := .unregister read }
  | .unregister read => some { s with registered := false, destroy := .returned read }
  | .returned _ | .unknownHandle => none

inductive Label where
  /-- a call of `NetIn` begins -/
  | netIn (containerPort : UInt32)
  /-- a `NetIn` takes a step -/
  | call (t : ℕ)
  /-- the `Destroy` takes a step -/
  | destroy
  deriving DecidableEq

def step (s : State) : Label → Option State
  | .netIn containerPort => some { s with calls := s.calls ++ [.acquire containerPort] }
  | .call t => do
    let c ← s.calls[t]?
    let (c', s') ← c.next s
    return { s' with calls := s.calls.set t c' }
  | .destroy => s.destroy.next s

def Step (s : State) (l : Label) (s' : State) : Prop := step s l = some s'

/-- A container with its ports, before any of the calls. -/
def begin (portPool : PortPool) (ports : List UInt32) : State :=
  ⟨portPool, ports, [], true, [], .lookup⟩

/-- All calls have returned. -/
def State.Returned (s : State) : Prop :=
  (∃ read, s.destroy = .returned read) ∧
    ∀ c ∈ s.calls, (∃ spec, c = .returned spec) ∨ c = .exhausted

/-! ## Places -/

/-- The ports that the `Destroy` has read, once it has. -/
def Destroy.read : Destroy → Option (List UInt32)
  | .release read _ | .unregister read | .returned read => some read
  | .lookup | .destroySh | .cleanupRootFS | .readPorts | .unknownHandle => none

/-- The port that a `NetIn` has acquired and not added. -/
def NetIn.port : NetIn → Option UInt32
  | .addPort port _ => some port
  | .acquire _ | .netSh _ | .record _ | .returned _ | .exhausted => none

/-- A port is added only before the `Destroy` reads the ports. -/
def InTime (s : State) : Label → Prop
  | .call t => ∀ c ∈ s.calls[t]?, c.port.isSome → s.destroy.read = none
  | .netIn _ | .destroy => True

instance (s : State) : DecidablePred (InTime s)
  | .call t =>
    inferInstanceAs (Decidable (∀ c ∈ s.calls[t]?, c.port.isSome → s.destroy.read = none))
  | .netIn _ | .destroy => isTrue trivial

namespace State
variable (s : State)

def free : List UInt32 := s.portPool.pool

def taken : List UInt32 := s.calls.filterMap NetIn.port

def held : List UInt32 :=
  match s.destroy with
  | .lookup | .destroySh | .cleanupRootFS | .readPorts | .unknownHandle => s.ports
  | .release _ rest => rest
  | .unregister _ | .returned _ => []

def lost : List UInt32 :=
  match s.destroy.read with
  | none => []
  | some read => s.ports.drop read.length

def places : List UInt32 := s.free ++ s.taken ++ s.held ++ s.lost

/-- What was read is still there. -/
def ReadLe : Prop := ∀ read ∈ s.destroy.read, read.length ≤ s.ports.length

end State

/-- What a step moves. -/
inductive Shift (s : State) (l : Label) (s' : State) : Prop
  | same : InTime s l → s'.portPool = s.portPool → s'.taken = s.taken → s'.held = s.held →
      s'.lost = s.lost → Shift s l s'
  | acquire (p : UInt32) : InTime s l → s.free = p :: s'.free →
      s'.portPool.start = s.portPool.start → s'.portPool.size = s.portPool.size →
      s'.taken.Perm (p :: s.taken) → s'.held = s.held → s'.lost = s.lost → Shift s l s'
  | add (p : UInt32) : InTime s l → s'.portPool = s.portPool → s.taken.Perm (p :: s'.taken) →
      s'.held = s.held ++ [p] → s'.lost = s.lost → Shift s l s'
  | lose (p : UInt32) : ¬ InTime s l → s'.portPool = s.portPool → s.taken.Perm (p :: s'.taken) →
      s'.held = s.held → s'.lost = s.lost ++ [p] → Shift s l s'
  | release (p : UInt32) : InTime s l → s'.portPool = s.portPool.release p → s'.taken = s.taken →
      s.held = p :: s'.held → s'.lost = s.lost → Shift s l s'

theorem filterMap_set {f : NetIn → Option UInt32} {cs : List NetIn} {t : ℕ} {c : NetIn}
    (h : cs[t]? = some c) (c' : NetIn) :
    ∃ a b, cs.filterMap f = a ++ (f c).toList ++ b ∧
      (cs.set t c').filterMap f = a ++ (f c').toList ++ b := by
  obtain ⟨hlt, hc⟩ := List.getElem?_eq_some_iff.1 h
  obtain ⟨a, b, heq, -, hset⟩ : ∃ a b, cs = a ++ cs[t] :: b ∧ a.length = t ∧
      cs.set t c' = a ++ c' :: b := List.exists_of_set hlt
  refine ⟨a.filterMap f, b.filterMap f, ?_, ?_⟩
  · rw [heq, hc, List.filterMap_append, List.append_assoc]
    cases hf : f c <;> simp [hf]
  · rw [hset, List.filterMap_append, List.append_assoc]
    cases hf : f c' <;> simp [hf]

section
variable {s s' : State} {l : Label} {t : ℕ} {c : NetIn}

theorem taken_set (h : s.calls[t]? = some c) {c' : NetIn} (hp : c'.port = c.port) :
    (s.calls.set t c').filterMap NetIn.port = s.taken := by
  obtain ⟨a, b, hold, hnew⟩ := filterMap_set (f := NetIn.port) h c'
  rw [hnew, hp, ← hold, State.taken]

/-- The acquisition of a port. -/
theorem taken_acquire (h : s.calls[t]? = some c) {c' : NetIn} {p : UInt32} (hc : c.port = none)
    (hp : c'.port = some p) : ((s.calls.set t c').filterMap NetIn.port).Perm (p :: s.taken) := by
  obtain ⟨a, b, hold, hnew⟩ := filterMap_set (f := NetIn.port) h c'
  rw [hnew, hp, State.taken, hold, hc]
  simp

/-- The addition of a port. -/
theorem taken_add (h : s.calls[t]? = some c) (c' : NetIn) {p : UInt32} (hc : c.port = some p)
    (hp : c'.port = none) : s.taken.Perm (p :: (s.calls.set t c').filterMap NetIn.port) := by
  obtain ⟨a, b, hold, hnew⟩ := filterMap_set (f := NetIn.port) h c'
  rw [hnew, hp, State.taken, hold, hc]
  simp

/-- A step of a `NetIn` other than the addition of its port. -/
theorem inTime_of_port (h : s.calls[t]? = some c) (hc : c.port = none) : InTime s (.call t) := by
  intro c' hc' hsome
  rw [h] at hc'; cases hc'
  rw [hc] at hsome; cases hsome

/-- The addition of a port, before or after the `Destroy` has read the ports. -/
theorem shift_addPort {port containerPort : UInt32} {spec : NetInSpec} (hread : s.ReadLe)
    (h : s.calls[t]? = some (.addPort port containerPort)) :
    Shift s (.call t)
      { s with ports := s.ports ++ [port], calls := s.calls.set t (.netSh spec) } := by
  have htaken := taken_add h (.netSh spec) rfl rfl
  cases hd : s.destroy.read with
  | none =>
    have hheld : ∀ calls, State.held { s with ports := s.ports ++ [port], calls := calls } =
        s.held ++ [port] := by
      intro calls
      unfold State.held
      cases hs : s.destroy <;> rw [hs] at hd <;> first | rfl | cases hd
    refine .add port (fun _ _ _ => hd) rfl htaken (hheld _) ?_
    simp only [State.lost, hd]
  | some read =>
    have hheld : ∀ calls, State.held { s with ports := s.ports ++ [port], calls := calls } =
        s.held := by
      intro calls
      unfold State.held
      cases hs : s.destroy <;> rw [hs] at hd <;> first | rfl | cases hd
    refine .lose port (fun hin => ?_) rfl htaken (hheld _) ?_
    · rw [hin _ h rfl] at hd; cases hd
    · simp only [State.lost, hd]
      exact List.drop_append_of_le_length (hread read hd)

theorem shift_netIn (hread : s.ReadLe) (hc : s.calls[t]? = some c) {c' : NetIn} {s₁ : State}
    (h : c.next s = some (c', s₁)) : Shift s (.call t) { s₁ with calls := s.calls.set t c' } := by
  cases c with
  | acquire containerPort =>
    simp only [NetIn.next] at h
    split at h
    · rename_i port pool hacq
      obtain ⟨hpool, hstart, hsize⟩ := PortPool.acquire_ok hacq
      cases h
      exact .acquire port (inTime_of_port hc rfl) hpool hstart hsize (taken_acquire hc rfl rfl) rfl
        rfl
    · cases h
      exact .same (inTime_of_port hc rfl) rfl (taken_set hc rfl) rfl rfl
  | addPort port containerPort =>
    cases h
    exact shift_addPort hread hc
  | netSh spec => cases h; exact .same (inTime_of_port hc rfl) rfl (taken_set hc rfl) rfl rfl
  | record spec => cases h; exact .same (inTime_of_port hc rfl) rfl (taken_set hc rfl) rfl rfl
  | returned spec => cases h
  | exhausted => cases h

theorem shift_destroy (h : s.destroy.next s = some s') : Shift s .destroy s' := by
  have hheld (d : Destroy) (hd : s.destroy = d) : s.held = State.held { s with destroy := d } := by
    rw [← hd]
  have hlost (d : Destroy) (hd : s.destroy = d) : s.lost = State.lost { s with destroy := d } := by
    rw [← hd]
  cases hd : s.destroy with
  | lookup =>
    rw [hd, Destroy.next] at h
    split at h <;> cases h <;> exact .same trivial rfl rfl (hheld _ hd).symm (hlost _ hd).symm
  | destroySh =>
    rw [hd] at h; cases h
    exact .same trivial rfl rfl (hheld _ hd).symm (hlost _ hd).symm
  | cleanupRootFS =>
    rw [hd] at h; cases h
    exact .same trivial rfl rfl (hheld _ hd).symm (hlost _ hd).symm
  | readPorts =>
    rw [hd] at h; cases h
    refine .same trivial rfl rfl (hheld _ hd).symm ?_
    rw [hlost _ hd]
    exact List.drop_length
  | release read rest =>
    cases rest with
    | nil =>
      rw [hd] at h; cases h
      exact .same trivial rfl rfl (hheld _ hd).symm (hlost _ hd).symm
    | cons port rest =>
      rw [hd] at h; cases h
      exact .release port trivial rfl rfl (hheld _ hd) (hlost _ hd).symm
  | unregister read =>
    rw [hd] at h; cases h
    exact .same trivial rfl rfl (hheld _ hd).symm (hlost _ hd).symm
  | returned read => rw [hd] at h; cases h
  | unknownHandle => rw [hd] at h; cases h

/-- **What a step can do.** -/
theorem shift_of_step (hread : s.ReadLe) (h : Step s l s') : Shift s l s' := by
  cases l with
  | netIn containerPort =>
    cases h
    refine .same trivial rfl ?_ rfl rfl
    simp [State.taken, NetIn.port]
  | call t =>
    simp only [Step, step, Option.bind_eq_bind, Option.bind_eq_some_iff, Option.pure_def,
      Option.some.injEq] at h
    obtain ⟨c, hc, ⟨c', s₁⟩, hnext, rfl⟩ := h
    exact shift_netIn hread hc hnext
  | destroy => exact shift_destroy h

/-- Ports are only added, and read when the `Destroy` reads them. -/
theorem step_ports (h : Step s l s') :
    (∃ added, s'.ports = s.ports ++ added) ∧
      (s'.destroy.read = s.destroy.read ∨ s'.destroy.read = some s.ports) := by
  cases l with
  | netIn containerPort => cases h; exact ⟨⟨[], by simp⟩, .inl rfl⟩
  | call t =>
    simp only [Step, step, Option.bind_eq_bind, Option.bind_eq_some_iff, Option.pure_def,
      Option.some.injEq] at h
    obtain ⟨c, -, ⟨c', s₁⟩, hnext, rfl⟩ := h
    cases c with
    | acquire containerPort =>
      simp only [NetIn.next] at hnext
      split at hnext <;> cases hnext <;> exact ⟨⟨[], by simp⟩, .inl rfl⟩
    | addPort port containerPort => cases hnext; exact ⟨⟨[port], rfl⟩, .inl rfl⟩
    | netSh spec => cases hnext; exact ⟨⟨[], by simp⟩, .inl rfl⟩
    | record spec => cases hnext; exact ⟨⟨[], by simp⟩, .inl rfl⟩
    | returned spec => cases hnext
    | exhausted => cases hnext
  | destroy =>
    have hnext : s.destroy.next s = some s' := h
    cases hd : s.destroy with
    | lookup =>
      rw [hd, Destroy.next] at hnext
      split at hnext <;> cases hnext <;> exact ⟨⟨[], by simp⟩, .inl rfl⟩
    | release read rest =>
      rw [hd] at hnext
      cases rest <;> cases hnext <;> exact ⟨⟨[], by simp⟩, .inl rfl⟩
    | readPorts => rw [hd] at hnext; cases hnext; exact ⟨⟨[], by simp⟩, .inr rfl⟩
    | destroySh => rw [hd] at hnext; cases hnext; exact ⟨⟨[], by simp⟩, .inl rfl⟩
    | cleanupRootFS => rw [hd] at hnext; cases hnext; exact ⟨⟨[], by simp⟩, .inl rfl⟩
    | unregister read => rw [hd] at hnext; cases hnext; exact ⟨⟨[], by simp⟩, .inl rfl⟩
    | returned read => rw [hd] at hnext; cases hnext
    | unknownHandle => rw [hd] at hnext; cases hnext

theorem readLe_step (hread : s.ReadLe) (h : Step s l s') : s'.ReadLe := by
  obtain ⟨⟨added, hports⟩, hsame | hnew⟩ := step_ports h
  · intro read hr
    have := hread read (hsame ▸ hr)
    rw [hports, List.length_append]
    omega
  · intro read hr
    rw [hnew] at hr; cases hr
    rw [hports, List.length_append]
    omega

end

/-! ## The invariant -/

/-- Every port of the range is in a place, none is in more places than before,
    and those taken or lost are of the range. -/
structure Inv (s₀ s : State) : Prop where
  start : s.portPool.start = s₀.portPool.start
  size : s.portPool.size = s₀.portPool.size
  read : s.ReadLe
  covers : ∀ p, s₀.portPool.InRange p → p ∈ s₀.free ∨ p ∈ s₀.ports → p ∈ s.places
  count : ∀ p, s.places.count p ≤ (s₀.free ++ s₀.ports).count p
  range : ∀ p, p ∈ s.taken ∨ p ∈ s.lost → s₀.portPool.InRange p

section
variable {s₀ s s' : State} {l : Label}

theorem inv_begin (portPool : PortPool) (ports : List UInt32) :
    Inv (begin portPool ports) (begin portPool ports) where
  start := rfl
  size := rfl
  read := nofun
  covers p _ h := by simpa [State.places, State.free, State.taken, State.held, State.lost, begin,
    Destroy.read] using h
  count p := by simp [State.places, State.free, State.taken, State.held, State.lost, begin,
    Destroy.read]
  range p h := by simp [State.taken, State.lost, begin, Destroy.read] at h

theorem Inv.inRange (hi : Inv s₀ s) {p : UInt32} :
    s.portPool.InRange p ↔ s₀.portPool.InRange p := by
  rw [PortPool.InRange, PortPool.InRange, hi.start, hi.size]

theorem mem_places {p : UInt32} :
    p ∈ s.places ↔ p ∈ s.free ∨ p ∈ s.taken ∨ p ∈ s.held ∨ p ∈ s.lost := by
  simp only [State.places, List.mem_append, or_assoc]

theorem count_places {p : UInt32} :
    s.places.count p = s.free.count p + s.taken.count p + s.held.count p + s.lost.count p := by
  simp only [State.places, List.count_append]

theorem Shift.range (h : Shift s l s') :
    s'.portPool.start = s.portPool.start ∧ s'.portPool.size = s.portPool.size := by
  cases h with
  | same _ hpool => simp [hpool]
  | acquire p _ _ hstart hsize => exact ⟨hstart, hsize⟩
  | add p _ hpool => simp [hpool]
  | lose p _ hpool => simp [hpool]
  | release p _ hpool => simp [hpool]

/-- A step moves a port from one place to another, or releases one. -/
theorem Shift.places (h : Shift s l s') :
    s'.places.Perm s.places ∨ ∃ p, s'.portPool = s.portPool.release p ∧ s'.taken = s.taken ∧
      s.held = p :: s'.held ∧ s'.lost = s.lost := by
  cases h with
  | same _ hpool htaken hheld hlost =>
    have hfree : s'.free = s.free := congrArg PortPool.pool hpool
    rw [State.places, hfree, htaken, hheld, hlost]
    exact .inl (.refl _)
  | acquire p _ hfree _ _ htaken hheld hlost =>
    refine .inl (List.perm_iff_count.2 fun q => ?_)
    simp only [count_places, hfree, htaken.count_eq, hheld, hlost, List.count_cons]
    omega
  | add p _ hpool htaken hheld hlost =>
    have hfree : s'.free = s.free := congrArg PortPool.pool hpool
    refine .inl (List.perm_iff_count.2 fun q => ?_)
    simp only [count_places, hfree, htaken.count_eq, hheld, hlost, List.count_cons,
      List.count_append, List.count_nil]
    omega
  | lose p _ hpool htaken hheld hlost =>
    have hfree : s'.free = s.free := congrArg PortPool.pool hpool
    refine .inl (List.perm_iff_count.2 fun q => ?_)
    simp only [count_places, hfree, htaken.count_eq, hheld, hlost, List.count_cons,
      List.count_append, List.count_nil]
    omega
  | release p _ hpool htaken hheld hlost => exact .inr ⟨p, hpool, htaken, hheld, hlost⟩

/-- What is taken or lost was free or taken, or lost before. -/
theorem Shift.outside (h : Shift s l s') {q : UInt32} (hq : q ∈ s'.taken ∨ q ∈ s'.lost) :
    q ∈ s.free ∨ q ∈ s.taken ∨ q ∈ s.lost := by
  cases h with
  | same _ _ htaken _ hlost => exact .inr (by rwa [htaken, hlost] at hq)
  | acquire p _ hfree _ _ htaken _ hlost =>
    rw [htaken.mem_iff, List.mem_cons, hlost] at hq
    rw [hfree, List.mem_cons]
    tauto
  | add p _ _ htaken _ hlost =>
    rw [hlost] at hq
    rw [htaken.mem_iff, List.mem_cons]
    tauto
  | lose p _ _ htaken _ hlost =>
    rw [hlost, List.mem_append, List.mem_singleton] at hq
    rw [htaken.mem_iff, List.mem_cons]
    tauto
  | release p _ _ htaken _ hlost => exact .inr (by rwa [htaken, hlost] at hq)

/-- **A step keeps every port in a place.** -/
theorem Inv.step (hi : Inv s₀ s) (h : Step s l s') : Inv s₀ s' := by
  have hshift := shift_of_step hi.read h
  refine ⟨hshift.range.1.trans hi.start, hshift.range.2.trans hi.size, readLe_step hi.read h,
    fun q hq h => ?_, fun q => ?_, fun q hq => ?_⟩
  · have hold := hi.covers q hq h
    rcases hshift.places with hperm | ⟨p, hpool, htaken, hheld, hlost⟩
    · exact hperm.mem_iff.2 hold
    · rw [mem_places, hheld, List.mem_cons] at hold
      rw [mem_places, State.free, hpool, PortPool.mem_release, htaken, hlost]
      rcases hold with hfree | ht | (rfl | hh) | hl
      · exact .inl (.inl hfree)
      · exact .inr (.inl ht)
      · exact .inl (.inr ⟨rfl, hi.inRange.2 hq⟩)
      · exact .inr (.inr (.inl hh))
      · exact .inr (.inr (.inr hl))
  · refine le_trans ?_ (hi.count q)
    rcases hshift.places with hperm | ⟨p, hpool, htaken, hheld, hlost⟩
    · exact (hperm.count_eq q).le
    · rw [count_places, count_places, State.free, State.free, hpool, htaken, hheld, hlost,
        List.count_cons]
      rcases PortPool.release_cases p s.portPool with heq | heq <;> rw [heq]
      · rw [List.count_append, List.count_singleton]
        omega
      · omega
  · rcases hshift.outside hq with hfree | hout
    · exact hi.inRange.1 (s.portPool.inRange q hfree)
    · exact hi.range q hout

/-- **A port is lost** in just those steps that are not in time. -/
theorem lost_step (hread : s.ReadLe) (h : Step s l s') :
    s'.lost = [] ↔ s.lost = [] ∧ InTime s l := by
  cases shift_of_step hread h with
  | same hin _ _ _ heq => simp [heq, hin]
  | acquire p hin _ _ _ _ _ heq => simp [heq, hin]
  | add p hin _ _ _ heq => simp [heq, hin]
  | lose p hnot _ _ _ heq => simp [heq, hnot]
  | release p hin _ _ _ heq => simp [heq, hin]

/-- All that was free or held by the container is free. -/
def Freed (s₀ s : State) : Prop :=
  ∀ p, s₀.portPool.InRange p → p ∈ s₀.free ∨ p ∈ s₀.ports → p ∈ s.free

theorem Inv.freed (hi : Inv s₀ s) (hend : s.Returned) (hlost : s.lost = []) : Freed s₀ s := by
  intro p hp h
  obtain ⟨⟨read, hd⟩, hcalls⟩ := hend
  have htaken : s.taken = [] := by
    rw [State.taken, List.filterMap_eq_nil_iff]
    intro c hc
    rcases hcalls c hc with ⟨spec, rfl⟩ | rfl <;> rfl
  have hheld : s.held = [] := by rw [State.held, hd]
  have := hi.covers p hp h
  rw [mem_places, htaken, hheld, hlost] at this
  simpa using this

theorem Inv.lost_eq_nil (hi : Inv s₀ s) (hnd : (s₀.free ++ s₀.ports).Nodup) (hf : Freed s₀ s) :
    s.lost = [] := by
  refine List.eq_nil_iff_forall_not_mem.2 fun p hp => ?_
  have hcount := hi.count p
  have hone := List.nodup_iff_count_le_one.1 hnd p
  have hlost := List.count_pos_iff.2 hp
  rw [count_places] at hcount
  -- it was free or held, hence is free as well as lost
  have hmem : p ∈ s₀.free ++ s₀.ports := List.count_pos_iff.1 (by omega)
  have hfree := List.count_pos_iff.2 (hf p (hi.range p (.inr hp)) (List.mem_append.1 hmem))
  omega

end

/-- **Ports are not lost** when calls of `NetIn` and a `Destroy` overlap, if every
    port is added before the `Destroy` reads the ports; and only then, where each
    port was in one place. -/
theorem ports_returned {portPool : PortPool} {ports : List UInt32} {ls : List Label} {s : State}
    (hr : Run Step (begin portPool ports) ls s) (hend : s.Returned) :
    (Run (guarded InTime Step) (begin portPool ports) ls s → Freed (begin portPool ports) s) ∧
    ((portPool.pool ++ ports).Nodup → Freed (begin portPool ports) s →
      Run (guarded InTime Step) (begin portPool ports) ls s) := by
  have hi₀ := inv_begin portPool ports
  have hi : Inv (begin portPool ports) s := hr.invariant hi₀ fun _ _ _ => Inv.step
  have hrun : s.lost = [] ↔ Run (guarded InTime Step) (begin portPool ports) ls s :=
    hr.guarded_iff (P := fun s => s.lost = []) hi₀ rfl (fun _ _ _ => Inv.step)
      fun _ _ _ hi => lost_step hi.read
  exact ⟨fun h => hi.freed hend (hrun.2 h), fun hnd hf => hrun.1 (hi.lost_eq_nil hnd hf)⟩

/-- Two free ports. -/
def twoPorts : PortPool := LinuxContainerPool.tiny.portPool

/-- A `NetIn` that has returned its port. -/
theorem returned_one {s : State} {read : List UInt32} {spec : NetInSpec}
    (hd : s.destroy = .returned read) (hc : s.calls = [.returned spec]) : s.Returned := by
  refine ⟨⟨read, hd⟩, fun c hmem => .inl ⟨spec, ?_⟩⟩
  rw [hc] at hmem
  exact List.mem_singleton.1 hmem

/-- **A port is lost**: it is acquired before the `Destroy` and added after it. -/
theorem port_lost :
    ∃ ls s, Run Step (begin twoPorts []) ls s ∧ s.Returned ∧ ¬ Freed (begin twoPorts []) s := by
  have h : ∃ s, Run Step (begin twoPorts [])
      ([.netIn 8080, .call 0] ++ List.replicate 6 .destroy ++ List.replicate 3 (.call 0)) s ∧
      s.destroy = .returned [] ∧ s.calls = [.returned ⟨61001, 8080⟩] ∧ 61001 ∉ s.portPool.pool :=
    exists_run (by decide +kernel)
  obtain ⟨s, hr, hd, hc, hlost⟩ := h
  refine ⟨_, s, hr, returned_one hd hc, fun hf => hlost (hf 61001 ?_ (.inl ?_))⟩
  · exact ⟨by decide, by decide⟩
  · exact List.mem_cons_self

/-- A `NetIn` that acquires its port during the `Destroy`, and adds it in time. -/
def overlapping : List Label :=
  [.destroy, .netIn 8080, .call 0, .destroy, .call 0, .destroy, .destroy, .call 0, .destroy,
    .destroy, .call 0, .destroy, .destroy]

theorem ports_returned_one :
    ∃ ls s, Run (guarded InTime Step) (begin twoPorts [61003]) ls s ∧ s.netIns = [⟨61001, 8080⟩] ∧
      Freed (begin twoPorts [61003]) s := by
  have h : ∃ s, Run (guarded InTime Step) (begin twoPorts [61003]) overlapping s ∧
      s.destroy = .returned [61003, 61001] ∧ s.calls = [.returned ⟨61001, 8080⟩] ∧
      s.netIns = [⟨61001, 8080⟩] := exists_guarded_run (by decide +kernel)
  obtain ⟨s, hr, hd, hc, hn⟩ := h
  have hr' : Run Step (begin twoPorts [61003]) _ s := hr.mono fun _ _ _ h => h.2
  exact ⟨_, s, hr, hn, (ports_returned hr' (returned_one hd hc)).1 hr⟩

end Mapping

end WardenLinux
