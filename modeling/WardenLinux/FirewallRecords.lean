/-
  What the daemon records of the firewall's scripts.

  `NetIn` and `NetOut` (linux_container.go) run net.sh and, when it has succeeded,
  append to a list of the container, in a critical section of its own.  Calls may
  overlap, so that a list can have another order than the scripts, and lacks those
  of the calls that have yet to append.

  * `wp_netIn_books`, `wp_netOut_books`: a call runs its script and records it, or
    records nothing.
  * `Daemon`, `Move`: the tables and the lists, with the steps of the calls in any
    order.  `netIn_moves`, `netOut_moves`: a call is two of them.
  * `recorded_run`: the lists and the calls under way have, after every run, what
    the policy has of a container.
-/
import WardenLinux.FirewallRuns

namespace WardenLinux

open Fallible Function Netfilter Transition

namespace Firewall

/-! ## The scripts of a call -/

/-- The commands among some calls. -/
def scripts (calls : List Call) : List Cmd :=
  calls.filterMap fun
    | .run cmd => some cmd
    | _ => none

/-- The calls made between two states run scripts for the actions. -/
def Made (as : List Action) (s s' : Cell) : Prop :=
  ∃ calls, s'.log = s.log ++ calls ∧ List.Forall₂ Action.Runs as (scripts calls)

/-- What a container has recorded. -/
structure Books where
  netIns : List NetInSpec
  netOuts : List NetOutSpec

def Books.of (c : LinuxContainer) : Books := ⟨c.netIns, c.netOuts⟩

/-- The appends of `NetIn` and `NetOut`. -/
def Books.record : Action → Books → Books
  | .netIn n, b => { b with netIns := b.netIns ++ [n] }
  | .netOut n, b => { b with netOuts := b.netOuts ++ [n] }
  | .setup, b => b
  | .teardown, b => b

/-- The mapping of an action. -/
def Action.mapped : Action → Option NetInSpec
  | .netIn n => some n
  | _ => none

/-- The permission of an action. -/
def Action.permitted : Action → Option NetOutSpec
  | .netOut n => some n
  | _ => none

theorem Books.netIns_record (a : Action) (b : Books) :
    (b.record a).netIns = b.netIns ++ a.mapped.toList := by
  cases a <;> simp [Books.record, Action.mapped]

theorem Books.netOuts_record (a : Action) (b : Books) :
    (b.record a).netOuts = b.netOuts ++ a.permitted.toList := by
  cases a <;> simp [Books.record, Action.permitted]

section
variable {cfg : Config} {o : Oracle} {s s' s'' : Cell} {as as' : List Action}

theorem Made.trans (h : Made as s s') (h' : Made as' s' s'') : Made (as ++ as') s s'' := by
  obtain ⟨calls, hl, hc⟩ := h
  obtain ⟨calls', hl', hc'⟩ := h'
  refine ⟨calls ++ calls', by rw [hl', hl, List.append_assoc], ?_⟩
  rw [scripts, List.filterMap_append]
  exact List.rel_append hc hc'

theorem made_nil {calls : List Call} (hl : s'.log = s.log ++ calls) (hc : scripts calls = []) :
    Made [] s s' := ⟨calls, hl, hc ▸ .nil⟩

theorem made_run {a : Action} {cmd : Cmd} (hl : s'.log = s.log ++ [.run cmd]) (ha : a.Runs cmd) :
    Made [a] s s' := ⟨[.run cmd], hl, .cons ha .nil⟩

/-- **`NetIn`** runs net.sh and then records the mapping it returns, of the ports
    that are asked for unless they are 0; when it fails it has recorded nothing. -/
theorem wp_netIn_books (hostPort containerPort : UInt32) :
    wp (LinuxContainer.netIn cfg o hostPort containerPort)
      (fun r s' => Made [.netIn ⟨r.1, r.2⟩] s s' ∧
        Books.of s'.container = (Books.of s.container).record (.netIn ⟨r.1, r.2⟩) ∧
        (hostPort ≠ 0 → r.1 = hostPort) ∧ (containerPort ≠ 0 → r.2 = containerPort))
      (fun _ s' => Books.of s'.container = Books.of s.container) s := by
  have hmade : ∀ (r : UInt32 × UInt32) (s' : Cell) (c : LinuxContainer),
      s'.log = s.log ++ [.run (LinuxContainer.netInCmd cfg c r.1 r.2)] →
      Made [.netIn ⟨r.1, r.2⟩] s s' := fun r s' c hl => made_run hl ⟨rfl, cfg.pathEnv, rfl⟩
  simp only [LinuxContainer.netIn, LinuxContainer.hostPortFor, PortPool.acquire,
    LinuxContainer.update, wp_bind, wp_ite, wp_get, wp_zoom, FreeList.Stock.wp_acquire, wp_call,
    wp_modify, wp_pure]
  refine ⟨fun hp => ⟨fun a rest _ _ => ⟨fun _ _ => ?_, fun _ _ => rfl⟩, fun _ => rfl⟩,
    fun hp => ⟨fun _ _ => ?_, fun _ _ => rfl⟩⟩
  · exact ⟨hmade (_, _) _ _ rfl, rfl, fun hne => absurd hp hne, fun hne => if_neg hne⟩
  · exact ⟨hmade (_, _) _ _ rfl, rfl, fun _ => trivial, fun hne => if_neg hne⟩

/-- **`NetOut`** of a network that is one word runs net.sh and then records the
    permission; when it fails it has recorded nothing. -/
theorem wp_netOut_books (n : NetOutSpec) (hword : oneWord n.network = true) :
    wp (LinuxContainer.netOut cfg o n.network n.port)
      (fun _ s' => Made [.netOut n] s s' ∧
        Books.of s'.container = (Books.of s.container).record (.netOut n))
      (fun _ s' => Books.of s'.container = Books.of s.container) s := by
  simp only [LinuxContainer.netOut, LinuxContainer.update, wp_bind, wp_ensure, wp_get, wp_zoom,
    wp_call, wp_modify]
  exact ⟨fun _ => ⟨fun _ _ => ⟨made_run rfl ⟨hword, rfl, cfg.pathEnv, rfl⟩, rfl⟩, fun _ _ => rfl⟩,
    fun _ => trivial⟩

end

/-! ## The daemon -/

/-- The tables, what the containers have recorded, and the calls of `NetIn` and
    `NetOut` whose script has succeeded and that have yet to record it. -/
structure Daemon (σ τ : Type) where
  tables : Tables σ τ
  books : InstanceID → Books
  calls : List (InstanceID × Action)

/-- A script, or the append of a call. -/
inductive Move where
  | event (e : Event)
  | record (id : InstanceID) (a : Action)
  deriving DecidableEq

/-- The scripts among some moves. -/
def events (ms : List Move) : List Event :=
  ms.filterMap fun
    | .event e => some e
    | .record _ _ => none

section
variable {σ τ : Type} {N : Iptables σ τ} {h : Host} {d : Depot h} {S S' S₀ : Daemon σ τ}

/-- What an event is to the records: a daemon that starts has no calls under way, a
    container that is set up is a new one, and the call of a script that has
    succeeded goes on. -/
def Booked (S S' : Daemon σ τ) : Event → Prop
  | .boot => S'.calls = []
  | .script id .setup true =>
    S'.books = update S.books id ⟨[], []⟩ ∧ S'.calls = S.calls.filter (·.1 ≠ id)
  | .script _ .teardown true => S'.books = S.books ∧ S'.calls = S.calls
  | .script id (.netIn n) true => S'.books = S.books ∧ S'.calls = (id, .netIn n) :: S.calls
  | .script id (.netOut n) true => S'.books = S.books ∧ S'.calls = (id, .netOut n) :: S.calls
  | .script _ _ false => S'.books = S.books ∧ S'.calls = S.calls

def Move.Step (N : Iptables σ τ) (h : Host) (d : Depot h) (S : Daemon σ τ) :
    Move → Daemon σ τ → Prop
  | .event e, S' => Firewall.Step N h d S.tables e S'.tables ∧ Booked S S' e
  | .record id a, S' => (id, a) ∈ S.calls ∧ S' =
      { S with
        books := update S.books id ((S.books id).record a)
        calls := S.calls.erase (id, a) }

/-- The daemon starts, and a run of scripts, records and restarts follows. -/
def Works (N : Iptables σ τ) (h : Host) (d : Depot h) (T₀ : Tables σ τ) (ms : List Move)
    (S : Daemon σ τ) : Prop :=
  ∃ S₁ : Daemon σ τ, daemonSetup N h T₀ = .ok () S₁.tables ∧ S₁.calls = [] ∧
    Run (Move.Step N h d) S₁ ms S

theorem Works.append {T₀ : Tables σ τ} {ms ms' : List Move} (hw : Works N h d T₀ ms S)
    (hr : Run (Move.Step N h d) S ms' S') : Works N h d T₀ (ms ++ ms') S' := by
  obtain ⟨S₁, hboot, hcalls, hrun⟩ := hw
  exact ⟨S₁, hboot, hcalls, hrun.append hr⟩

theorem events_concat (ms : List Move) (m : Move) :
    events (ms ++ [m]) = events ms ++ events [m] := List.filterMap_append

theorem run_events {ms : List Move} (hr : Run (Move.Step N h d) S₀ ms S) :
    Run (Firewall.Step N h d) S₀.tables (events ms) S.tables := by
  induction hr with
  | nil => exact .nil
  | @snoc ms m S S' _ hs ih =>
    rw [events_concat]
    cases m with
    | event e => exact ih.snoc hs.1
    | record id a =>
      obtain ⟨-, rfl⟩ := hs
      rw [show events [.record id a] = [] from rfl, List.append_nil]
      exact ih

theorem Works.reaches {T₀ : Tables σ τ} {ms : List Move} (hr : Works N h d T₀ ms S) :
    Reaches N h d T₀ (events ms) S.tables := by
  obtain ⟨S₁, hboot, -, hrun⟩ := hr
  exact ⟨S₁.tables, hboot, run_events hrun⟩

/-! ### A call is two moves -/

/-- The commands run by one container, with success. -/
def Executes (N : Iptables σ τ) (h : Host) (c : EtcConfig) :
    Tables σ τ → List Cmd → Tables σ τ → Prop :=
  Run fun T cmd T' => Skeleton.netSh N h c cmd T = .ok () T'

theorem executes_run {T T' : Tables σ τ} {id : InstanceID} {as : List Action} {cmds : List Cmd}
    (hcmds : List.Forall₂ Action.Runs as cmds) (hr : Executes N h (d.etc id) T cmds T') :
    Run (Firewall.Step N h d) T (as.map (Event.script id · true)) T' := by
  induction hr generalizing as with
  | nil =>
    cases hcmds
    exact .nil
  | snoc _ hs ih =>
    have htake := List.forall₂_take_append _ _ _ hcmds
    have hdrop := List.forall₂_drop_append _ _ _ hcmds
    rw [← List.take_append_drop _ as, List.map_append]
    cases hd : as.drop _ with
    | nil =>
      rw [hd] at hdrop
      cases hdrop
    | cons a as' =>
      rw [hd] at hdrop
      cases hdrop with
      | cons ha hnil =>
        cases hnil
        exact (ih htake).snoc ⟨_, ha, hs⟩

/-- A script of `NetIn` or `NetOut`, and its record. -/
theorem call_moves {T' : Tables σ τ} {id : InstanceID} {a : Action} {s s' : Cell}
    {calls : List Call} (ha : a ≠ .setup ∧ a ≠ .teardown) (hbooks : S.books id = .of s.container)
    (hmade : Made [a] s s') (hrec : Books.of s'.container = (Books.of s.container).record a)
    (hl : s'.log = s.log ++ calls) (hex : Executes N h (d.etc id) S.tables (scripts calls) T') :
    Run (Move.Step N h d) S [.event (.script id a true), .record id a]
      ⟨T', update S.books id (.of s'.container), S.calls⟩ := by
  obtain ⟨calls', hl', hc⟩ := hmade
  rw [hl, List.append_right_inj] at hl'
  subst hl'
  have hstep := (executes_run hc hex).of_single
  have hbooked : Booked S ⟨T', S.books, (id, a) :: S.calls⟩ (.script id a true) := by
    cases a with
    | setup => exact absurd rfl ha.1
    | teardown => exact absurd rfl ha.2
    | netIn _ | netOut _ => exact ⟨rfl, rfl⟩
  have hscript : Move.Step N h d S (.event (.script id a true))
      ⟨T', S.books, (id, a) :: S.calls⟩ := ⟨hstep, hbooked⟩
  have hrecord : Move.Step N h d ⟨T', S.books, (id, a) :: S.calls⟩ (.record id a)
      ⟨T', update S.books id (.of s'.container), S.calls⟩ :=
    ⟨List.mem_cons_self, by rw [List.erase_cons_head, hbooks, ← hrec]⟩
  exact (Run.nil.snoc hscript).snoc hrecord

/-- **A call of `NetIn`** that returns, with its script run on the tables. -/
theorem netIn_moves {cfg : Config} {o : Oracle} {T' : Tables σ τ} {id : InstanceID} {s s' : Cell}
    {hostPort containerPort : UInt32} {r : UInt32 × UInt32} {calls : List Call}
    (hbooks : S.books id = .of s.container)
    (hok : LinuxContainer.netIn cfg o hostPort containerPort s = .ok r s')
    (hl : s'.log = s.log ++ calls) (hex : Executes N h (d.etc id) S.tables (scripts calls) T') :
    Run (Move.Step N h d) S [.event (.script id (.netIn ⟨r.1, r.2⟩) true),
        .record id (.netIn ⟨r.1, r.2⟩)]
      ⟨T', update S.books id (.of s'.container), S.calls⟩ := by
  obtain ⟨hmade, hrec, -⟩ := wp_of_ok (wp_netIn_books hostPort containerPort) hok
  exact call_moves ⟨nofun, nofun⟩ hbooks hmade hrec hl hex

/-- **A call of `NetOut`** that returns, with its script run on the tables. -/
theorem netOut_moves {cfg : Config} {o : Oracle} {T' : Tables σ τ} {id : InstanceID} {s s' : Cell}
    {n : NetOutSpec} {calls : List Call} (hword : oneWord n.network = true)
    (hbooks : S.books id = .of s.container)
    (hok : LinuxContainer.netOut cfg o n.network n.port s = .ok () s')
    (hl : s'.log = s.log ++ calls) (hex : Executes N h (d.etc id) S.tables (scripts calls) T') :
    Run (Move.Step N h d) S [.event (.script id (.netOut n) true), .record id (.netOut n)]
      ⟨T', update S.books id (.of s'.container), S.calls⟩ := by
  obtain ⟨hmade, hrec⟩ := wp_of_ok (wp_netOut_books n hword) hok
  exact call_moves ⟨nofun, nofun⟩ hbooks hmade hrec hl hex

/-! ### Calls that get through -/

section
variable {own : OwnRules} {allow deny : List IPNet} {T₀ : Tables σ τ} {cfg : Config}
  {o : Oracle} {id : InstanceID} {ms : List Move} {s s' : Cell}

/-- The actions can be taken one after the other. -/
def AcceptsAll (N : Iptables σ τ) (d : Depot h) (id : InstanceID) : Policy → List Action → Prop
  | _, [] => True
  | P, a :: as => P.Accepts N id a ∧ AcceptsAll N d id (P.act d id a) as

/-- Scripts whose actions can be taken get through. -/
theorem exists_executes (hN : N.Lawful h) (id : InstanceID) : ∀ {P : Policy} {T : Tables σ τ}
    {as : List Action} {cmds : List Cmd}, Enforces N h own P T → P.OfDepot d →
    List.Forall₂ Action.Runs as cmds → AcceptsAll N d id P as →
    ∃ T', Executes N h (d.etc id) T cmds T'
  | _, T, [], _, _, _, .nil, _ => ⟨T, .nil⟩
  | P, T, a :: as, _, hE, hd, .cons (b := cmd) hcmd hcmds, hacc => by
    have hact : wp (Skeleton.netSh N h (d.etc id) cmd)
        (fun _ T' => Enforces N h own (P.act d id a) T') (fun _ _ => False) T :=
      wp_mono (wp_act hN hE hd a hcmd) (fun _ _ h => h) fun _ _ hfail => hfail.2 hacc.1
    obtain ⟨_, T₁, hok, hE₁⟩ := wp_returns hact
    obtain ⟨T', hex⟩ := exists_executes hN id hE₁ (ofDepot_act hd a) hcmds hacc.2
    exact ⟨T', (Run.nil.snoc hok : Run _ T ([] ++ [cmd]) T₁).append hex⟩

/-- A call of `NetIn` for a mapping that iptables takes. -/
theorem Works.netIn (hN : N.Lawful h) (hf : Flags N h allow deny) (hT : Startable N h own T₀)
    (hw : Works N h d T₀ ms S) {hostPort containerPort : UInt32} {r : UInt32 × UInt32}
    (hbooks : S.books id = .of s.container)
    (hok : LinuxContainer.netIn cfg o hostPort containerPort s = .ok r s')
    (ha : (policy d allow deny (events ms)).Accepts N id (.netIn ⟨r.1, r.2⟩)) :
    ∃ T', Works N h d T₀ (ms ++ [.event (.script id (.netIn ⟨r.1, r.2⟩) true),
        .record id (.netIn ⟨r.1, r.2⟩)])
      ⟨T', update S.books id (.of s'.container), S.calls⟩ := by
  obtain ⟨hE, hd⟩ := hw.reaches.enforces hN hf hT
  obtain ⟨⟨calls, hl, hc⟩, -⟩ := wp_of_ok (wp_netIn_books hostPort containerPort) hok
  obtain ⟨T', hex⟩ := exists_executes hN id hE hd hc ⟨ha, trivial⟩
  exact ⟨T', hw.append (netIn_moves hbooks hok hl hex)⟩

/-- A call of `NetOut` for a permission that iptables takes. -/
theorem Works.netOut (hN : N.Lawful h) (hf : Flags N h allow deny) (hT : Startable N h own T₀)
    (hw : Works N h d T₀ ms S) {n : NetOutSpec} (hbooks : S.books id = .of s.container)
    (hok : LinuxContainer.netOut cfg o n.network n.port s = .ok () s')
    (ha : (policy d allow deny (events ms)).Accepts N id (.netOut n)) :
    ∃ T', Works N h d T₀ (ms ++ [.event (.script id (.netOut n) true), .record id (.netOut n)])
      ⟨T', update S.books id (.of s'.container), S.calls⟩ := by
  obtain ⟨hE, hd⟩ := hw.reaches.enforces hN hf hT
  have hword : oneWord n.network = true := ha.2.2.1
  obtain ⟨⟨calls, hl, hc⟩, -⟩ := wp_of_ok (wp_netOut_books n hword) hok
  obtain ⟨T', hex⟩ := exists_executes hN id hE hd hc ⟨ha, trivial⟩
  exact ⟨T', hw.append (netOut_moves hword hbooks hok hl hex)⟩

end

/-! ### What is recorded -/

/-- What calls have yet to record of a container, where `pick` has what a record
    adds. -/
def pending {β : Type} (pick : Action → Option β) (calls : List (InstanceID × Action))
    (id : InstanceID) : List β :=
  calls.filterMap fun c => if c.1 = id then pick c.2 else none

/-- What the policy has of a container is recorded, or about to be. -/
def Recorded (P : Policy) (S : Daemon σ τ) : Prop :=
  ∀ s ∈ P.sites,
    s.netIns.Perm ((S.books s.config.id).netIns ++ pending Action.mapped S.calls s.config.id) ∧
    s.netOuts.Perm ((S.books s.config.id).netOuts ++ pending Action.permitted S.calls s.config.id)

section
variable {β : Type} {pick : Action → Option β} {calls : List (InstanceID × Action)}
  {id id' : InstanceID} {a : Action}

theorem pending_cons_self :
    pending pick ((id, a) :: calls) id = (pick a).toList ++ pending pick calls id := by
  cases h : pick a <;> simp [pending, h]

theorem pending_cons_ne (hne : id' ≠ id) :
    pending pick ((id, a) :: calls) id' = pending pick calls id' := by
  simp [pending, Ne.symm hne]

/-- The calls of a container that is new are those of another one. -/
theorem pending_filter_self : pending pick (calls.filter (·.1 ≠ id)) id = [] := by
  refine List.filterMap_eq_nil_iff.2 fun c hc => if_neg ?_
  simpa using (List.mem_filter.1 hc).2

theorem pending_filter_ne (hne : id' ≠ id) :
    pending pick (calls.filter (·.1 ≠ id)) id' = pending pick calls id' := by
  rw [pending, pending, List.filterMap_filter]
  refine List.filterMap_congr fun c _ => ?_
  by_cases hc : c.1 = id
  · simp [hc, Ne.symm hne]
  · simp [hc]

theorem pending_erase (hmem : (id, a) ∈ calls) :
    (pending pick calls id').Perm (pending pick ((id, a) :: calls.erase (id, a)) id') :=
  (List.perm_cons_erase hmem).filterMap _

theorem pending_erase_ne (hne : id' ≠ id) (hmem : (id, a) ∈ calls) :
    (pending pick calls id').Perm (pending pick (calls.erase (id, a)) id') := by
  have h : (pending pick calls id').Perm (pending pick ((id, a) :: calls.erase (id, a)) id') :=
    pending_erase hmem
  rwa [pending_cons_ne hne] at h

/-- A call of the container is under way. -/
theorem perm_called {l recorded : List β} (h : l.Perm (recorded ++ pending pick calls id)) :
    (l ++ (pick a).toList).Perm (recorded ++ pending pick ((id, a) :: calls) id) := by
  refine (h.append_right _).trans ?_
  rw [pending_cons_self, List.append_assoc]
  exact List.perm_append_comm.append_left _

/-- A call of the container is recorded. -/
theorem perm_recorded {l recorded : List β} (h : l.Perm (recorded ++ pending pick calls id))
    (hmem : (id, a) ∈ calls) :
    l.Perm (recorded ++ (pick a).toList ++ pending pick (calls.erase (id, a)) id) := by
  rw [List.append_assoc, ← pending_cons_self]
  exact h.trans ((pending_erase hmem).append_left _)

end

/-- A script does nothing to what is recorded, or about to be, of other containers. -/
theorem booked_other {id id' : InstanceID} {a : Action} (hb : Booked S S' (.script id a true))
    (hne : id' ≠ id) : S'.books id' = S.books id' ∧
      ∀ {β : Type} (pick : Action → Option β), pending pick S'.calls id' = pending pick S.calls id' := by
  cases a with
  | setup =>
    obtain ⟨hbooks, hcalls⟩ := hb
    rw [hbooks, hcalls]
    exact ⟨update_of_ne hne _ _, fun _ => pending_filter_ne hne⟩
  | teardown =>
    obtain ⟨hbooks, hcalls⟩ := hb
    rw [hbooks, hcalls]
    exact ⟨rfl, fun _ => rfl⟩
  | netIn n | netOut n =>
    obtain ⟨hbooks, hcalls⟩ := hb
    rw [hbooks, hcalls]
    exact ⟨rfl, fun _ => pending_cons_ne hne⟩

theorem recorded_script {P : Policy} (hrec : Recorded P S) {id : InstanceID} {a : Action}
    (hb : Booked S S' (.script id a true)) : Recorded (P.act d id a) S' := by
  intro s hs
  cases origin_of_mem hs with
  | setup =>
    obtain ⟨hbooks, hcalls⟩ := hb
    rw [d.own, hbooks, hcalls, update_self, pending_filter_self, pending_filter_self]
    exact ⟨.nil, .nil⟩
  | other hmem hne =>
    obtain ⟨hbooks, hpending⟩ := booked_other hb hne
    rw [hbooks, hpending, hpending]
    exact hrec s hmem
  | @mapped m s hmem hid =>
    subst hid
    obtain ⟨hbooks, hcalls⟩ := hb
    obtain ⟨hins, houts⟩ := hrec s hmem
    rw [hbooks, hcalls]
    exact ⟨perm_called (a := .netIn m) hins, pending_cons_self ▸ houts⟩
  | @permitted o s hmem hid =>
    subst hid
    obtain ⟨hbooks, hcalls⟩ := hb
    obtain ⟨hins, houts⟩ := hrec s hmem
    rw [hbooks, hcalls]
    exact ⟨pending_cons_self ▸ hins, perm_called (a := .netOut o) houts⟩

/-- A record moves from the calls to the lists. -/
theorem recorded_record {P : Policy} (hrec : Recorded P S) {id : InstanceID} {a : Action}
    (hmem : (id, a) ∈ S.calls) : Recorded P { S with
      books := update S.books id ((S.books id).record a)
      calls := S.calls.erase (id, a) } := by
  intro s hs
  obtain ⟨hins, houts⟩ := hrec s hs
  by_cases hid : s.config.id = id
  · subst hid
    simp only [update_self, Books.netIns_record, Books.netOuts_record]
    exact ⟨perm_recorded hins hmem, perm_recorded houts hmem⟩
  · simp only [update_of_ne hid]
    exact ⟨hins.trans ((pending_erase_ne hid hmem).append_left _),
      houts.trans ((pending_erase_ne hid hmem).append_left _)⟩

/-- **What the policy has of a container is recorded, or about to be**, after every
    run. -/
theorem recorded_run {allow deny : List IPNet} {ms : List Move}
    (hr : Run (Move.Step N h d) S₀ ms S) : Recorded (policy d allow deny (events ms)) S := by
  induction hr with
  | nil => exact List.forall_mem_nil _
  | @snoc ms m S S' _ hs ih =>
    rw [events_concat]
    cases m with
    | record id a =>
      obtain ⟨hmem, rfl⟩ := hs
      rw [show events [.record id a] = [] from rfl, List.append_nil]
      exact recorded_record ih hmem
    | event e =>
      rw [show events [.event e] = [e] from rfl, policy_concat]
      rcases e with _ | ⟨id, a, _ | _⟩
      · exact List.forall_mem_nil _
      · obtain ⟨hbooks, hcalls⟩ : S'.books = S.books ∧ S'.calls = S.calls := by
          cases a <;> exact hs.2
        intro s hs
        rw [hbooks, hcalls]
        exact ih s hs
      · exact recorded_script ih hs.2

/-- The lists of a daemon whose calls have returned. -/
theorem Works.perm {T₀ : Tables σ τ} {allow deny : List IPNet} {ms : List Move}
    (hr : Works N h d T₀ ms S) (hquiet : S.calls = []) {s : Site}
    (hs : s ∈ (policy d allow deny (events ms)).sites) :
    s.netIns.Perm (S.books s.config.id).netIns ∧ s.netOuts.Perm (S.books s.config.id).netOuts := by
  obtain ⟨S₁, -, -, hrun⟩ := hr
  obtain ⟨hins, houts⟩ := recorded_run hrun s hs
  rw [hquiet, pending, List.filterMap_nil, List.append_nil] at hins houts
  exact ⟨hins, houts⟩

end

end Firewall

end WardenLinux
