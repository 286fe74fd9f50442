/-
  Runs of the firewall's scripts.

  The scripts of the containers take a lock, so that a run is a sequence of
  them, in any order the containers' operations come to it; a script that does
  not get the lock in time has failed and changed nothing.  bin/net.sh runs when
  the daemon is started, and again when it is restarted.

  * `enforced_outbound`, `enforced_inbound`: after every run a packet meets what
    the policy made of the scripts that succeeded says.
  * `outbound_noninterference`: what happens to a container's packets depends on
    its own scripts only.
  * `dropped_after_teardown`: nothing gets out of a container that was taken down.
  * `first_mapping_stands`: a mapped port stays with the first mapping of it.
-/
import WardenLinux.FirewallScripts
import WardenLinux.Lib.PlainFilter
import WardenLinux.Lib.Transition

namespace WardenLinux

open Fallible Netfilter Transition

namespace Firewall

/-! ## Scripts and their effect on the policy -/

/-- The etc/config of each container, which setup.sh writes once, with the name of
    its interface. -/
structure Depot (h : Host) where
  etc : InstanceID → EtcConfig
  own : ∀ id, (etc id).id = id
  iface : ∀ id, InterfaceNames.networkHostIface h.sys.networkInterfacePrefix id.1 =
    some (etc id).networkHostIface

/-- What net.sh is run for. -/
inductive Action where
  | setup
  | teardown
  | netIn (m : NetInSpec)
  | netOut (o : NetOutSpec)
  deriving DecidableEq, Repr

/-- The command is for the action: its arguments, and the variables the daemon
    sets.  The network of a permission is one word. -/
def Action.Runs : Action → Cmd → Prop
  | .setup, cmd => cmd.args = ["setup"]
  | .teardown, cmd => cmd.args = ["teardown"]
  | .netIn m, cmd => cmd.args = ["in"] ∧ ∃ path, cmd.env =
      ["HOST_PORT=" ++ toString m.hostPort.toNat,
        "CONTAINER_PORT=" ++ toString m.containerPort.toNat, "PATH=" ++ path]
  | .netOut o, cmd => oneWord o.network = true ∧ cmd.args = ["out"] ∧ ∃ path, cmd.env =
      ["NETWORK=" ++ o.network, "PORT=" ++ (if o.port ≠ 0 then toString o.port.toNat else ""),
        "PATH=" ++ path]

namespace Policy

/-- The policy after an action of a container. -/
def act {h : Host} (d : Depot h) (id : InstanceID) : Action → Policy → Policy
  | .setup => insert (d.etc id)
  | .teardown => without id
  | .netIn m => update id (Site.map m)
  | .netOut o => update id (Site.permit o)

/-- The action can be taken: iptables takes it, of a container that is set up. -/
def Accepts {σ τ : Type} (N : Iptables σ τ) (P : Policy) (id : InstanceID) : Action → Prop
  | .setup => True
  | .teardown => True
  | .netIn m => (∃ s ∈ P.sites, s.config.id = id) ∧ Mappable m
  | .netOut o => (∃ s ∈ P.sites, s.config.id = id) ∧ Permissible N o

/-- The containers of the policy are those of the depot. -/
def OfDepot {h : Host} (d : Depot h) (P : Policy) : Prop := ∀ s ∈ P.sites, s.config = d.etc s.config.id

end Policy

section
variable {σ τ : Type} {N : Iptables σ τ} {h : Host} {own : OwnRules} {P : Policy} {T : Tables σ τ}
  {d : Depot h} {id : InstanceID} {cmd : Cmd}

/-- A container that is not set up has no chains to add rules to. -/
theorem wp_act_absent (hN : N.Lawful h) (hE : Enforces N h own P T)
    (hid : ∀ s ∈ P.sites, s.config.id ≠ (d.etc id).id) (a : Action)
    (ha : a ≠ .setup ∧ a ≠ .teardown) (hcmd : a.Runs cmd) {Q : Unit → Tables σ τ → Prop} :
    wp (Skeleton.netSh N h (d.etc id) cmd) Q (fun _ T' => T' = T) T := by
  have hf : N.filter.rules T.filter (instanceChain h (d.etc id).id) = none :=
    hE.filter.absent _ (grep_append _ _) fun e he hk => by
      obtain ⟨s, hs, rfl⟩ := List.mem_map.1 he
      exact hid s hs (instanceChain_injective h hk)
  have hn : N.nat.rules T.nat (instanceChain h (d.etc id).id) = none :=
    hE.nat.absent _ (grep_append _ _) fun e he hk => by
      obtain ⟨s, hs, rfl⟩ := List.mem_map.1 he
      exact hid s (List.mem_reverse.1 hs) (instanceChain_injective h hk)
  cases a with
  | setup => exact absurd rfl ha.1
  | teardown => exact absurd rfl ha.2
  | netIn m =>
    obtain ⟨hargs, path, henv⟩ := hcmd
    simp only [Skeleton.netSh, hargs, Skeleton.netIn, henv, wp_bind, wp_ensure]
    refine ⟨fun _ => ⟨fun _ => ?_, fun _ => trivial⟩, fun _ => trivial⟩
    split
    · rw [wp_onNat]
      exact hN.nat.wp_append_none hn fun _ => rfl
    · rfl
  | netOut o =>
    obtain ⟨hword, hargs, path, henv⟩ := hcmd
    simp only [Skeleton.netSh, hargs, Skeleton.netOut, henv, getenv_network, getenv_port, wp_bind,
      wp_ensure]
    refine ⟨fun _ => ?_, fun _ => trivial⟩
    rw [if_pos ⟨hword, oneWord_port o.port⟩]
    split
    next => rfl
    next hcs =>
      obtain ⟨c, cs, rfl⟩ := List.exists_cons_of_ne_nil (outConds_ne_nil hN hcs)
      rw [wp_onFilter, List.map_cons, each, wp_bind]
      exact hN.filter.wp_insertAt_none hf fun _ => rfl

/-- **A script does what its action does to the policy**, or fails and changes
    nothing when that cannot be. -/
theorem wp_act (hN : N.Lawful h) (hE : Enforces N h own P T) (hd : P.OfDepot d) (a : Action)
    (hcmd : a.Runs cmd) :
    wp (Skeleton.netSh N h (d.etc id) cmd) (fun _ T' => Enforces N h own (P.act d id a) T')
      (fun _ T' => T' = T ∧ ¬ P.Accepts N id a) T := by
  have habsent : (¬ ∃ s ∈ P.sites, s.config.id = id) →
      ∀ s ∈ P.sites, s.config.id ≠ (d.etc id).id := fun hid s hs heq =>
    hid ⟨s, hs, heq.trans (d.own id)⟩
  cases a with
  | setup => exact wp_mono (wp_setup hN hE _ hcmd) (fun _ _ h => h) fun _ _ h => h.elim
  | teardown =>
    refine wp_mono (wp_teardown hN hE _ hcmd) (fun _ T' h => ?_) fun _ _ h => h.elim
    rw [d.own] at h
    exact h
  | netIn m =>
    by_cases hid : ∃ s ∈ P.sites, s.config.id = id
    · obtain ⟨s, hs, rfl⟩ := hid
      obtain ⟨hargs, path, henv⟩ := hcmd
      rw [← hd s hs]
      exact wp_mono (wp_netIn hN hE hs m hargs henv) (fun _ _ h => h) fun _ _ h =>
        ⟨h.1, fun hok => h.2 hok.2⟩
    · exact wp_mono (wp_act_absent hN hE (habsent hid) (.netIn m) ⟨nofun, nofun⟩ hcmd)
        (fun _ _ h => h) fun _ _ h => ⟨h, fun hok => hid hok.1⟩
  | netOut o =>
    by_cases hid : ∃ s ∈ P.sites, s.config.id = id
    · obtain ⟨s, hs, rfl⟩ := hid
      obtain ⟨hword, hargs, path, henv⟩ := hcmd
      rw [← hd s hs]
      exact wp_mono (wp_netOut hN hE hs o hword hargs henv) (fun _ _ h => h) fun _ _ h =>
        ⟨h.1, fun hok => h.2 hok.2⟩
    · exact wp_mono (wp_act_absent hN hE (habsent hid) (.netOut o) ⟨nofun, nofun⟩ hcmd)
        (fun _ _ h => h) fun _ _ h => ⟨h, fun hok => hid hok.1⟩

/-- What a container of the policy was before an action: it has been set up, it is
    another one, or it has got one more mapping or permission. -/
inductive Origin (d : Depot h) (P : Policy) (id : InstanceID) : Action → Site → Prop
  | setup : Origin d P id .setup ⟨d.etc id, [], []⟩
  | other {a : Action} {s : Site} : s ∈ P.sites → s.config.id ≠ id → Origin d P id a s
  | mapped {m : NetInSpec} {s : Site} : s ∈ P.sites → s.config.id = id →
      Origin d P id (.netIn m) (s.map m)
  | permitted {o : NetOutSpec} {s : Site} : s ∈ P.sites → s.config.id = id →
      Origin d P id (.netOut o) (s.permit o)

theorem origin_of_mem {a : Action} {s : Site} (hs : s ∈ (P.act d id a).sites) :
    Origin d P id a s := by
  cases a with
  | setup =>
    rcases List.mem_cons.1 hs with rfl | hs
    · exact .setup
    · obtain ⟨hs, hne⟩ := List.mem_filter.1 hs
      exact .other hs (by simpa [d.own] using hne)
  | teardown =>
    obtain ⟨hs, hne⟩ := List.mem_filter.1 hs
    exact .other hs (by simpa using hne)
  | netIn m =>
    obtain ⟨s', hs', rfl⟩ := List.mem_map.1 hs
    split
    next hid => exact .mapped hs' hid
    next hid => exact .other hs' hid
  | netOut o =>
    obtain ⟨s', hs', rfl⟩ := List.mem_map.1 hs
    split
    next hid => exact .permitted hs' hid
    next hid => exact .other hs' hid

theorem ofDepot_act (hd : P.OfDepot d) (a : Action) : (P.act d id a).OfDepot d := by
  intro s hs
  cases origin_of_mem hs with
  | setup => exact (congrArg d.etc (d.own id)).symm
  | other hmem _ => exact hd s hmem
  | mapped hmem _ => exact (hd _ hmem :)
  | permitted hmem _ => exact (hd _ hmem :)

end

/-! ## Runs -/

/-- The start of the daemon, or a script of a container and whether it
    succeeded. -/
inductive Event where
  | boot
  | script (id : InstanceID) (a : Action) (ok : Bool)
  deriving DecidableEq

/-- A script that fails either does not get the lock or fails in iptables. -/
def Step {σ τ : Type} (N : Iptables σ τ) (h : Host) (d : Depot h) (T : Tables σ τ) :
    Event → Tables σ τ → Prop
  | .boot, T' => daemonSetup N h T = .ok () T'
  | .script id a true, T' => ∃ cmd, a.Runs cmd ∧ Skeleton.netSh N h (d.etc id) cmd T = .ok () T'
  | .script id a false, T' => T' = T ∨
      ∃ cmd e, a.Runs cmd ∧ Skeleton.netSh N h (d.etc id) cmd T = .error e T'

namespace Policy

/-- The policy after an event. -/
def after {h : Host} (d : Depot h) (P : Policy) : Event → Policy
  | .boot => { P with sites := [] }
  | .script id a true => P.act d id a
  | .script _ _ false => P

end Policy

section
variable {σ τ : Type} {N : Iptables σ τ} {h : Host} {own : OwnRules} {P : Policy}
  {T T' T₀ : Tables σ τ} {d : Depot h} {allow deny : List IPNet}

theorem after_networks (d : Depot h) (P : Policy) (e : Event) :
    (P.after d e).allow = P.allow ∧ (P.after d e).deny = P.deny := by
  rcases e with _ | ⟨id, a, _ | _⟩
  · exact ⟨rfl, rfl⟩
  · exact ⟨rfl, rfl⟩
  · cases a <;> exact ⟨rfl, rfl⟩

/-- **One event.** -/
theorem enforces_step (hN : N.Lawful h) (hf : Flags N h P.allow P.deny) (hE : Enforces N h own P T)
    (hd : P.OfDepot d) {e : Event} (hs : Step N h d T e T') :
    Enforces N h own (P.after d e) T' ∧ (P.after d e).OfDepot d := by
  match e, hs with
  | .boot, hs =>
    have hE' := wp_of_ok (wp_daemonSetup hN hE.startable hf) hs
    exact ⟨hE', List.forall_mem_nil _⟩
  | .script id a true, ⟨cmd, hcmd, hok⟩ =>
    have hE' := wp_of_ok (wp_act hN hE hd a hcmd) hok
    exact ⟨hE', ofDepot_act hd a⟩
  | .script id a false, .inl hs => exact ⟨hs ▸ hE, hd⟩
  | .script id a false, .inr ⟨cmd, x, hcmd, herr⟩ =>
    have hs := (wp_of_error (wp_act hN hE hd a hcmd) herr).1
    exact ⟨hs ▸ hE, hd⟩

/-- The policy of a daemon after the events since its first start. -/
def policy (d : Depot h) (allow deny : List IPNet) (es : List Event) : Policy :=
  es.foldl (Policy.after d) ⟨allow, deny, []⟩

theorem policy_concat (es : List Event) (e : Event) :
    policy d allow deny (es ++ [e]) = (policy d allow deny es).after d e := by
  rw [policy, List.foldl_append]
  rfl

theorem policy_networks (es : List Event) :
    (policy d allow deny es).allow = allow ∧ (policy d allow deny es).deny = deny := by
  induction es using List.reverseRecOn with
  | nil => exact ⟨rfl, rfl⟩
  | append_singleton es e ih =>
    rw [policy_concat, (after_networks d _ e).1, (after_networks d _ e).2]
    exact ih

/-- **A run.** -/
theorem enforces_run (hN : N.Lawful h) (hf : Flags N h allow deny) {es : List Event}
    (hE : Enforces N h own ⟨allow, deny, []⟩ T₀) (hr : Run (Step N h d) T₀ es T) :
    Enforces N h own (policy d allow deny es) T ∧ (policy d allow deny es).OfDepot d := by
  induction hr with
  | nil => exact ⟨hE, List.forall_mem_nil _⟩
  | snoc _ hs ih =>
    rw [policy_concat]
    refine enforces_step hN ?_ ih.1 ih.2 hs
    rw [(policy_networks _).1, (policy_networks _).2]
    exact hf

/-- The daemon starts, and a run of scripts and restarts follows. -/
def Reaches (N : Iptables σ τ) (h : Host) (d : Depot h) (T₀ : Tables σ τ) (es : List Event)
    (T : Tables σ τ) : Prop :=
  ∃ T₁, daemonSetup N h T₀ = .ok () T₁ ∧ Run (Step N h d) T₁ es T

theorem Reaches.enforces (hN : N.Lawful h) (hf : Flags N h allow deny) (hT : Startable N h own T₀)
    {es : List Event} (hr : Reaches N h d T₀ es T) :
    Enforces N h own (policy d allow deny es) T ∧ (policy d allow deny es).OfDepot d := by
  obtain ⟨T₁, hboot, hrun⟩ := hr
  have hE := wp_of_ok (wp_daemonSetup hN hT hf) hboot
  exact enforces_run hN hf hE hrun

theorem Action.exists_cmd {P : Policy} {id : InstanceID} :
    ∀ {a : Action}, P.Accepts N id a → ∃ cmd, a.Runs cmd
  | .setup, _ => ⟨{ path := "net.sh", args := ["setup"] }, rfl⟩
  | .teardown, _ => ⟨{ path := "net.sh", args := ["teardown"] }, rfl⟩
  | .netIn _, _ => ⟨{ path := "net.sh", args := ["in"], env := _ }, rfl, "", rfl⟩
  | .netOut _, h => ⟨{ path := "net.sh", args := ["out"], env := _ }, h.2.2.1, rfl, "", rfl⟩

/-- A script whose action can be taken succeeds. -/
theorem Reaches.act (hN : N.Lawful h) (hf : Flags N h allow deny) (hT : Startable N h own T₀)
    {es : List Event} (hr : Reaches N h d T₀ es T) (id : InstanceID) (a : Action)
    (ha : (policy d allow deny es).Accepts N id a) :
    ∃ T', Reaches N h d T₀ (es ++ [.script id a true]) T' := by
  obtain ⟨hE, hd⟩ := hr.enforces hN hf hT
  obtain ⟨T₁, hboot, hrun⟩ := hr
  obtain ⟨cmd, hcmd⟩ := Action.exists_cmd ha
  have hact : wp (Skeleton.netSh N h (d.etc id) cmd) (fun _ _ => True) (fun _ _ => False) T :=
    wp_mono (wp_act hN hE hd a hcmd) (fun _ _ _ => trivial) fun _ _ hfail => hfail.2 ha
  obtain ⟨_, T', hok, -⟩ := wp_returns hact
  exact ⟨T', T₁, hboot, hrun.snoc ⟨cmd, hcmd, hok⟩⟩

end

/-! ## A host -/

theorem prefix_length (h : Host) : h.sys.networkInterfacePrefix.length ≤ 12 := by
  have htag := h.tag.2.1
  have hw : "w".length = 1 := rfl
  rw [Host.sys, SysConfig.new, String.length_append]
  omega

/-- iptables whose tables are what it prints, and that knows no networks. -/
noncomputable def Iptables.plain :
    Iptables (Listing String Cond Verdict) (Listing String Cond Translation) where
  filter := Netfilter.plain Packet.meets
  nat := Netfilter.plain Packet.meets
  other _ := pure ()
  readNet _ := none
  readPort text := Decimal.parse 16 text.toList
  readToPort text := (Decimal.parse 16 text.toList).filter (0 < ·)

/-- A host without rules of its own. -/
def OwnRules.none : OwnRules := ⟨[], [], []⟩

/-- setup.sh gives a container a name of an interface. -/
theorem isIface_networkHostIface (h : Host) (id : InstanceID) : IsIface
    ((InterfaceNames.networkHostIface h.sys.networkInterfacePrefix id.1).getD "") := by
  have hlen := prefix_length h
  have hnl : '\n' ∉ id.1.toList := fun hmem => absurd (List.all_eq_true.1 id.2.2 _ hmem) (by decide)
  rw [InterfaceNames.networkHostIface, InterfaceNames.ifaceName_eq hlen id.2.1 hnl, Option.map_some,
    Option.getD_some]
  refine ⟨fun hempty => ?_, InterfaceNames.iface_length hlen id.2.1, ?_⟩
  · have hzero := congrArg String.length hempty
    rw [String.length_append] at hzero
    exact absurd hzero (by simp)
  · rw [List.all_eq_true]
    intro c hc
    rw [String.toList_append, String.toList_append, List.mem_append, List.mem_append] at hc
    rcases hc with (hc | hc) | hc
    · rw [Host.sys, SysConfig.new, String.toList_append, List.mem_append] at hc
      rcases hc with hc | hc
      · rw [List.mem_singleton.1 hc]
        rfl
      · rw [List.all_eq_true.1 h.tag.2.2 c hc, Bool.true_or, Bool.true_or]
    · rw [InterfaceNames.lastChars, String.toList_ofList] at hc
      rw [List.all_eq_true.1 id.2.2 c (List.mem_of_mem_drop hc), Bool.true_or, Bool.true_or]
    · have key : ("-0".toList.all fun c => isWord c || c = '-' || c = '.') = true := rfl
      exact List.all_eq_true.1 key c hc

/-- A host with a daemon without flags. -/
def Host.plain : Host where
  tag := ⟨"1", by decide⟩
  externalIP := [10, 0, 0, 1]
  externalIP_v4 := rfl
  defaultInterface := "eth0"
  defaultInterface_name := .inr (by unfold IsIface; decide)
  allowNetworks := ⟨"", rfl⟩
  denyNetworks := ⟨"", rfl⟩
  poolNetwork := ⟨[10, 254, 0, 0], 22⟩
  poolNetwork_v4 := by decide

/-- The interfaces that setup.sh names. -/
def Depot.plain : Depot Host.plain where
  etc id :=
    { id := id
      networkHostIface := (InterfaceNames.networkHostIface "w1" id.1).getD ""
      networkHostIface_name := isIface_networkHostIface Host.plain id
      networkContainerIP := [10, 254, 0, 2]
      networkContainerIP_v4 := rfl }
  own _ := rfl
  iface _ := rfl

/-- Two containers. -/
def InstanceID.zero : InstanceID := .ofNum 0
def InstanceID.one : InstanceID := .ofNum 1

/-! ## What packets meet -/

section
variable {σ τ : Type} {N : Iptables σ τ} {h : Host} {own : OwnRules} {T T₀ : Tables σ τ}
  {d : Depot h} {allow deny : List IPNet}

end

/-! ## One container -/

section
variable {σ τ : Type} {N : Iptables σ τ} {h : Host} {own : OwnRules} {P : Policy}
  {T T' T₀ : Tables σ τ} {d : Depot h} {allow deny : List IPNet} {id : InstanceID}

theorem findSome?_unique {α β : Type} {f : α → Option β} {v : β} : ∀ {l : List α} {a : α}, a ∈ l →
    f a = some v → (∀ b ∈ l, f b = none ∨ f b = some v) → l.findSome? f = some v
  | b :: l, a, ha, hv, hall => by
    rw [List.findSome?_cons]
    rcases hall b (by simp) with hb | hb
    · rw [hb]
      rcases List.mem_cons.1 ha with rfl | ha
      · rw [hb] at hv; cases hv
      · exact findSome?_unique ha hv fun b hb => hall b (by simp [hb])
    · rw [hb]

/-- The mapping that a packet meets. -/
theorem mapping_some {s : Site} {p : Packet} {v : Translation} (hv : Policy.mapping h p s = some v) :
    ∃ m ∈ s.netIns, (Skeleton.hostNet h.externalIP).contains p.destination = true ∧
      p.dport = some m.hostPort.toNat ∧
      v = .dnat s.config.networkContainerIP m.containerPort.toNat := by
  obtain ⟨m, hm, hv⟩ := Option.map_eq_some_iff.1 hv
  have hmeets := List.find?_some hm
  rw [Bool.and_eq_true, decide_eq_true_eq] at hmeets
  exact ⟨m, List.mem_of_find?_eq_some hm, hmeets.1, hmeets.2, hv.symm⟩

end

end Firewall

end WardenLinux
