/-
  The scripts of the firewall keep the tables and the policy together, on every
  iptables that does what they rely on.

  * `wp_daemonSetup`: bin/net.sh leaves the policy without containers, whatever
    containers the tables were about before.
  * `wp_setup`, `wp_teardown`: skeleton/net.sh sets a container up and takes it
    out, and leaves the others.
  * `wp_netOut`, `wp_netIn`: it adds a permission or a mapping to those the
    container has, or fails and changes nothing.
-/
import WardenLinux.Firewall

namespace WardenLinux

open Fallible Function Netfilter

namespace Firewall

/-! ## The scripts -/

section
variable {σ τ : Type} {N : Iptables σ τ} {h : Host} {own : OwnRules} {P : Policy} {T : Tables σ τ}

@[simp] theorem wp_onFilter {Q : Unit → Tables σ τ → Prop} {E : Exit → Tables σ τ → Prop}
    (x : EStateM Netfilter.Error σ Unit) : wp (onFilter x) Q E T ↔
      wp x (fun a t => Q a { T with filter := t })
        (fun e t => E (.iptables e) { T with filter := t }) T.filter := by
  simp only [wp, onFilter]
  rcases x T.filter with ⟨a, t⟩ | ⟨e, t⟩ <;> rfl

@[simp] theorem wp_onNat {Q : Unit → Tables σ τ → Prop} {E : Exit → Tables σ τ → Prop}
    (x : EStateM Netfilter.Error τ Unit) : wp (onNat x) Q E T ↔
      wp x (fun a t => Q a { T with nat := t })
        (fun e t => E (.iptables e) { T with nat := t }) T.nat := by
  simp only [wp, onNat]
  rcases x T.nat with ⟨a, t⟩ | ⟨e, t⟩ <;> rfl

theorem framed_filter (h : Host) : (filterDispatch h).Framed [Bin.inboundRule h] [dropRule] where
  foreign r hr c hc := by
    simp only [List.singleton_append, List.mem_cons, List.not_mem_nil, or_false] at hr
    rcases hr with rfl | rfl <;> cases hc
  kept r hr i := by
    simp only [List.singleton_append, List.mem_cons, List.not_mem_nil, or_false] at hr
    rcases hr with rfl | rfl <;> rfl
  placed := rfl

theorem framed_nat (h : Host) : (natDispatch h).Framed [] [] where
  foreign := List.forall_mem_nil _
  kept := List.forall_mem_nil _
  placed := rfl

/-- The base chains are none of the daemon's. -/
theorem ne_chain {c tag rest : String} (hc : c.toList.head? ≠ some 'w') :
    c ≠ "w-" ++ tag ++ rest := by
  rintro rfl
  rw [String.toList_append, String.toList_append] at hc
  exact hc rfl

theorem isInst_base {c : String} (hc : c.toList.head? ≠ some 'w') (h : Host) :
    grep h.sys.filterInstancePrefix c = false := by
  rw [← Bool.not_eq_true, grep, List.isPrefixOf_iff_prefix]
  rintro ⟨rest, hrest⟩
  have hc' : c = "w-" ++ h.tag.1 ++ ("-instance-" ++ String.ofList rest) := by
    rw [← String.toList_inj, ← hrest, Host.sys, SysConfig.new]
    simp [String.toList_append]
  exact ne_chain hc hc'

/-! ### The names and rules that iptables takes -/

theorem head_chain (tag rest : String) : ("w-" ++ tag ++ rest).toList.head? = some 'w' := by
  rw [String.toList_append, String.toList_append]
  rfl

theorem head_of_isInst {c : String} (hc : grep h.sys.filterInstancePrefix c = true) :
    c.toList.head? = some 'w' := by
  by_contra hw
  rw [isInst_base hw h] at hc
  cases hc

theorem filter_not_builtin (hN : N.Lawful h) {c : String} (hc : c.toList.head? = some 'w') :
    ¬ N.filter.Builtin c := fun hb => by
  have hmem := hN.filter_builtin c hb
  simp only [List.mem_cons, List.not_mem_nil, or_false] at hmem
  rcases hmem with rfl | rfl | rfl <;> exact absurd hc (by decide)

theorem nat_not_builtin (hN : N.Lawful h) {c : String} (hc : c.toList.head? = some 'w') :
    ¬ N.nat.Builtin c := fun hb => by
  have hmem := hN.nat_builtin c hb
  simp only [List.mem_cons, List.not_mem_nil, or_false] at hmem
  rcases hmem with rfl | rfl | rfl | rfl <;> exact absurd hc (by decide)

theorem all_of_isWord {l : List Char} (hl : l.all isWord = true) :
    l.all (fun c => isWord c || c = '-') = true := by
  rw [List.all_eq_true] at hl ⊢
  exact fun c hc => by rw [hl c hc, Bool.true_or]

/-- The tag leaves 21 characters for the rest of a name. -/
theorem isName_chain (h : Host) {rest : String} (hrest : rest.length ≤ 21)
    (hall : rest.toList.all (fun c => isWord c || c = '-') = true) :
    IsName ("w-" ++ h.tag.1 ++ rest) := by
  refine ⟨?_, ?_, ?_⟩
  · rw [String.append_assoc]
    exact grep_append _ _
  · have htag := h.tag.2.1
    have hw : "w-".length = 2 := rfl
    rw [String.length_append, String.length_append]
    omega
  · rw [String.toList_append, String.toList_append, List.all_append, List.all_append, hall,
      all_of_isWord h.tag.2.2]
    rfl

theorem isName_instance (h : Host) (id : InstanceID) : IsName (instanceChain h id) := by
  have hlen : ("-instance-" ++ id.1).length = 21 := by
    rw [String.length_append, id.2.1]
    rfl
  have hall : ("-instance-" ++ id.1).toList.all (fun c => isWord c || c = '-') = true := by
    rw [String.toList_append, List.all_append, all_of_isWord id.2.2]
    rfl
  have := isName_chain h hlen.le hall
  rw [← String.append_assoc] at this
  exact this

theorem isName_forward (h : Host) : IsName h.sys.filterForwardChain :=
  isName_chain h (by decide) (by decide)

theorem isName_default (h : Host) : IsName h.sys.filterDefaultChain :=
  isName_chain h (by decide) (by decide)

theorem isName_prerouting (h : Host) : IsName h.sys.natPreroutingChain :=
  isName_chain h (by decide) (by decide)

theorem isName_postrouting (h : Host) : IsName h.sys.natPostroutingChain :=
  isName_chain h (by decide) (by decide)

theorem fits_filter (hN : N.Lawful h) : (filterDispatch h).Fits N.filter where
  name i := hN.filter_name _ (isName_instance h i)
  builtin _ hc := filter_not_builtin hN (head_of_isInst hc)
  base i r hr := by
    obtain rfl := List.mem_singleton.1 hr
    exact hN.filter_takes _ _ (.base i)
  entry c := hN.filter_takes _ _ (.entry c)

theorem fits_nat (hN : N.Lawful h) : (natDispatch h).Fits N.nat where
  name i := hN.nat_name _ (isName_instance h i)
  builtin _ hc := nat_not_builtin hN (head_of_isInst hc)
  base _ := List.forall_mem_nil _
  entry c := hN.nat_takes _ _ (.entry c)

namespace Policy

/-- The policy without a container. -/
def without (id : InstanceID) (P : Policy) : Policy :=
  { P with sites := P.sites.filter fun s => s.config.id ≠ id }

/-- The policy with a container that is new. -/
def insert (c : EtcConfig) (P : Policy) : Policy :=
  { P with sites := ⟨c, [], []⟩ :: (P.without c.id).sites }

/-- The policy with something mapped or permitted for a container. -/
def update (id : InstanceID) (f : Site → Site) (P : Policy) : Policy :=
  { P with sites := P.sites.map fun s => if s.config.id = id then f s else s }

end Policy

/-- What the policy is about besides the containers is kept with the chains
    around theirs. -/
theorem Enforces.of_holds {P' : Policy} {T' : Tables σ τ} (hE : Enforces N h own P T)
    (hallow : P'.allow = P.allow) (hdeny : P'.deny = P.deny)
    (hf : (filterDispatch h).Holds [Bin.inboundRule h] [dropRule]
      (P'.sites.map fun s => (s.config, s.outRules N)) (N.filter.rules T'.filter))
    (hfs : (filterDispatch h).Same (N.filter.rules T.filter) (N.filter.rules T'.filter))
    (hn : (natDispatch h).Holds [] [] (P'.sites.reverse.map fun s => (s.config, s.inRules h))
      (N.nat.rules T'.nat))
    (hns : (natDispatch h).Same (N.nat.rules T.nat) (N.nat.rules T'.nat))
    (hr : ∀ s ∈ P'.sites, ∀ o ∈ s.netOuts, Permissible N o) : Enforces N h own P' T' where
  filter := hf
  default := by
    rw [hallow, hdeny, hfs _ (forward_ne_default h).symm (isInst_default h)]
    exact hE.default
  forward := by
    rw [hfs "FORWARD" (ne_chain (by decide)) (isInst_base (by decide) h)]
    exact hE.forward
  isOwn := hE.isOwn
  nat := hn
  prerouting := by
    rw [hns "PREROUTING" (ne_chain (by decide)) (isInst_base (by decide) h)]
    exact hE.prerouting
  output := by
    rw [hns "OUTPUT" (ne_chain (by decide)) (isInst_base (by decide) h)]
    exact hE.output
  postrouting := by
    rw [hns "POSTROUTING" (ne_chain (by decide)) (isInst_base (by decide) h)]
    exact hE.postrouting
  permissible := hr

section
variable {ν : Type} (D : Dispatch InstanceID EtcConfig String Cond ν) (sites : List Site)
  (rules : Site → List (Rule String Cond ν)) (id : InstanceID)

theorem without_map (hD : D.key = EtcConfig.id) :
    D.without id (sites.map fun s => (s.config, rules s)) =
      (sites.filter fun s => s.config.id ≠ id).map fun s => (s.config, rules s) := by
  rw [Dispatch.without, List.filter_map, hD]
  rfl

/-- The rules of the one container with the ID replaced. -/
theorem replace_map (hD : D.key = EtcConfig.id) {s : Site} (hs : s ∈ sites) (hid : s.config.id = id)
    (hd : (sites.map fun s => s.config.id).Nodup) (f : Site → Site)
    (hf : ∀ s, (f s).config = s.config) :
    D.replace id (rules (f s)) (sites.map fun s => (s.config, rules s)) =
      (sites.map fun s => if s.config.id = id then f s else s).map fun s => (s.config, rules s) := by
  rw [Dispatch.replace, List.map_map, List.map_map, hD]
  refine List.map_congr_left fun s' hs' => ?_
  simp only [Function.comp_apply]
  by_cases hid' : s'.config.id = id
  · obtain rfl := List.inj_on_of_nodup_map hd hs' hs (hid'.trans hid.symm)
    simp only [hid', if_true, hf]
  · simp only [hid', if_false]

end

theorem defaultRules_target (allow deny : List IPNet) :
    ∀ r ∈ defaultRules allow deny, r.target.chain? = none := by
  intro r hr
  simp only [defaultRules, List.mem_append, List.mem_singleton, List.mem_map] at hr
  rcases hr with (rfl | ⟨_, _, rfl⟩) | ⟨_, _, rfl⟩ <;> rfl

/-- **net.sh setup** of a container leaves the others, and nothing mapped or
    permitted for it. -/
theorem wp_setup (hN : N.Lawful h) (hE : Enforces N h own P T) (c : EtcConfig) {cmd : Cmd}
    (hcmd : cmd.args = ["setup"]) : wp (Skeleton.netSh N h c cmd)
      (fun _ T' => Enforces N h own (P.insert c) T') (fun _ _ => False) T := by
  simp only [Skeleton.netSh, hcmd, wp_bind, wp_onFilter, wp_onNat, Skeleton.setupFilter,
    Skeleton.setupNat]
  have hbase : ∀ r ∈ (filterDispatch h).base, ∀ c', r.target.chain? = some c' →
      c' ≠ (filterDispatch h).chain ∧ ¬ N.filter.Builtin c' ∧
        Leaf (N.filter.rules T.filter) c' := by
    intro r hr c' hc'
    rw [filterDispatch, List.mem_singleton] at hr
    subst hr
    cases hc'
    exact ⟨(forward_ne_default h).symm, filter_not_builtin hN (head_chain _ _), _, hE.default,
      defaultRules_target P.allow P.deny⟩
  refine wp_mono (Dispatch.wp_setup hN.filter (fits_filter hN) hE.filter (framed_filter h) c hbase)
    ?_ fun _ _ he => he
  rintro _ t ⟨hf, hfs⟩
  refine wp_mono (Dispatch.wp_setup hN.nat (fits_nat hN) hE.nat (framed_nat h) c
    (List.forall_mem_nil _)) ?_ fun _ _ he => he
  rintro _ u ⟨hn, hns⟩
  refine hE.of_holds rfl rfl ?_ hfs ?_ hns fun s hs o ho => ?_
  · rw [without_map _ _ _ _ rfl] at hf
    exact hf
  · rw [without_map _ _ _ _ rfl, List.filter_reverse] at hn
    simp only [Policy.insert, List.reverse_cons, List.map_append]
    exact hn
  · rcases List.mem_cons.1 hs with rfl | hs
    · cases ho
    · exact hE.permissible s (List.mem_filter.1 hs).1 o ho

/-- **net.sh teardown** of a container leaves the others. -/
theorem wp_teardown (hN : N.Lawful h) (hE : Enforces N h own P T) (c : EtcConfig) {cmd : Cmd}
    (hcmd : cmd.args = ["teardown"]) : wp (Skeleton.netSh N h c cmd)
      (fun _ T' => Enforces N h own (P.without c.id) T') (fun _ _ => False) T := by
  simp only [Skeleton.netSh, hcmd, wp_bind, wp_onFilter, wp_onNat, Skeleton.teardownFilter,
    Skeleton.teardownNat]
  refine wp_mono (Dispatch.wp_teardown hN.filter (fits_filter hN) hE.filter (framed_filter h) c.id)
    ?_ fun _ _ he => he
  rintro _ t ⟨hf, hfs⟩
  refine wp_mono (Dispatch.wp_teardown hN.nat (fits_nat hN) hE.nat (framed_nat h) c.id)
    ?_ fun _ _ he => he
  rintro _ u ⟨hn, hns⟩
  refine hE.of_holds rfl rfl ?_ hfs ?_ hns fun s hs o ho =>
    hE.permissible s (List.mem_filter.1 hs).1 o ho
  · rw [without_map _ _ _ _ rfl] at hf
    exact hf
  · rw [without_map _ _ _ _ rfl, List.filter_reverse] at hn
    exact hn

/-! ### The environment of a command -/

theorem getenv_cons (name value : String) (env : List String) :
    Skeleton.getenv name ((name ++ "=" ++ value) :: env) = value := by
  have hdrop : ((name ++ "=" ++ value).toList.drop (name.length + 1)) = value.toList := by
    rw [String.toList_append, String.toList_append]
    exact List.drop_left' (by rw [List.length_append, String.length_toList]; rfl)
  rw [Skeleton.getenv, List.find?_cons_of_pos (grep_append _ _)]
  simp only [hdrop, String.ofList_toList]

theorem getenv_skip {name v : String} (hv : grep (name ++ "=") v = false) (env : List String) :
    Skeleton.getenv name (v :: env) = Skeleton.getenv name env := by
  rw [Skeleton.getenv, List.find?_cons_of_neg (by simp [hv])]
  rfl

theorem grep_toList (a b v : String) :
    grep a (b ++ v) = a.toList.isPrefixOf (b.toList ++ v.toList) := by
  rw [grep, String.toList_append]

theorem getenv_network (network port path : String) :
    Skeleton.getenv "NETWORK" ["NETWORK=" ++ network, "PORT=" ++ port, "PATH=" ++ path] = network :=
  getenv_cons "NETWORK" network _

theorem getenv_port (network port path : String) :
    Skeleton.getenv "PORT" ["NETWORK=" ++ network, "PORT=" ++ port, "PATH=" ++ path] = port := by
  rw [getenv_skip (by rw [grep_toList]; rfl)]
  exact getenv_cons "PORT" port _

theorem getenv_hostPort (hostPort containerPort path : String) :
    Skeleton.getenv "HOST_PORT"
      ["HOST_PORT=" ++ hostPort, "CONTAINER_PORT=" ++ containerPort, "PATH=" ++ path] = hostPort :=
  getenv_cons "HOST_PORT" hostPort _

theorem getenv_containerPort (hostPort containerPort path : String) :
    Skeleton.getenv "CONTAINER_PORT"
      ["HOST_PORT=" ++ hostPort, "CONTAINER_PORT=" ++ containerPort, "PATH=" ++ path] =
        containerPort := by
  rw [getenv_skip (by rw [grep_toList]; rfl)]
  exact getenv_cons "CONTAINER_PORT" containerPort _

theorem oneWord_toString (n : ℕ) : oneWord (toString n) = true := by
  rw [oneWord, show (toString n).toList = Nat.toDigits 10 n from Nat.toList_repr,
    List.all_eq_true]
  intro c hc
  have hdigit := Decimal.isDigit_of_mem hc
  have hne : ∀ c' : Char, c'.isDigit = false → c ≠ c' := by
    rintro _ hc' rfl
    rw [hdigit] at hc'
    cases hc'
  simp [isBlank, isPattern, hne]

/-! ### Mappings and permissions -/

def Site.permit (o : NetOutSpec) (s : Site) : Site := { s with netOuts := s.netOuts ++ [o] }

def Site.map (m : NetInSpec) (s : Site) : Site := { s with netIns := s.netIns ++ [m] }

theorem outRules_permit (N : Iptables σ τ) (s : Site) (o : NetOutSpec) :
    (s.permit o).outRules N = permitRules N o ++ s.outRules N := by
  simp [Site.permit, Site.outRules]

theorem inRules_map (h : Host) (m : NetInSpec) (s : Site) : (s.map m).inRules h =
    s.inRules h ++ [Skeleton.inRule h s.config m.hostPort.toNat m.containerPort.toNat] := by
  simp [Site.map, Site.inRules]

theorem foreign_outRules (N : Iptables σ τ) (h : Host) (s : Site) :
    (filterDispatch h).Foreign (s.outRules N) := by
  intro r hr c hc
  rw [outRules_ret N s r hr] at hc
  cases hc

theorem foreign_inRules (h : Host) (s : Site) : (natDispatch h).Foreign (s.inRules h) := by
  intro r hr c hc
  rw [Site.inRules, List.mem_map] at hr
  obtain ⟨m, -, rfl⟩ := hr
  cases hc

/-- An update that keeps the rules of one table. -/
theorem update_map {ν : Type} (rules : Site → List (Rule String Cond ν)) (f : Site → Site)
    (hf : ∀ s, (f s).config = s.config ∧ rules (f s) = rules s) (id : InstanceID)
    (sites : List Site) :
    ((sites.map fun s => if s.config.id = id then f s else s).map fun s => (s.config, rules s)) =
      sites.map fun s => (s.config, rules s) := by
  rw [List.map_map]
  refine List.map_congr_left fun s _ => ?_
  simp only [Function.comp_apply]
  split
  · rw [(hf s).1, (hf s).2]
  · rfl

theorem Enforces.distinct (hE : Enforces N h own P T) :
    (P.sites.map fun s => s.config.id).Nodup := by
  have := hE.filter.distinct
  rw [List.map_map] at this
  exact this

/-- What `PORT` is set to is one word. -/
theorem oneWord_port (port : UInt32) :
    oneWord (if port ≠ 0 then toString port.toNat else "") = true := by
  split
  · exact oneWord_toString _
  · rfl

/-- **net.sh out** of a network that is one word adds the permission, or changes
    nothing if iptables does not take it. -/
theorem wp_netOut (hN : N.Lawful h) (hE : Enforces N h own P T) {s : Site} (hs : s ∈ P.sites)
    (o : NetOutSpec) (hword : oneWord o.network = true) {cmd : Cmd} {path : String}
    (hargs : cmd.args = ["out"])
    (henv : cmd.env = ["NETWORK=" ++ o.network,
      "PORT=" ++ (if o.port ≠ 0 then toString o.port.toNat else ""), "PATH=" ++ path]) :
    wp (Skeleton.netSh N h s.config cmd)
      (fun _ T' => Enforces N h own (P.update s.config.id (Site.permit o)) T')
      (fun _ T' => T' = T ∧ ¬ Permissible N o) T := by
  simp only [Skeleton.netSh, hargs, Skeleton.netOut, henv, getenv_network, getenv_port, wp_bind,
    wp_ensure]
  refine ⟨fun hspecified => ?_, fun hunspecified => ⟨trivial, fun hok => hunspecified ?_⟩⟩
  swap
  · rcases hok.1 with hn | hp
    · exact .inl hn
    · exact .inr (by rw [if_pos hp]; exact toString_ne_empty _)
  rw [if_pos ⟨hword, oneWord_port o.port⟩]
  cases hc : Skeleton.outConds N o.network (if o.port ≠ 0 then toString o.port.toNat else "") with
  | none => exact ⟨rfl, fun hok => by have := hok.2.2; rw [outSpecConds, hc] at this; cases this⟩
  | some cs =>
    have hc : outSpecConds N o = some cs := hc
    have hok : Permissible N o := by
      refine ⟨hspecified.imp_right fun hp h0 => hp ?_, hword, by rw [hc]; rfl⟩
      rw [if_neg (not_not.2 h0)]
    have hl : N.filter.rules T.filter (instanceChain h s.config.id) =
        some (s.outRules N ++ (filterDispatch h).base) :=
      hE.filter.chains _ (List.mem_map_of_mem hs)
    rw [wp_onFilter]
    refine hN.filter.wp_each_insert hl (fun r hr => ?_) fun t ht => ?_
    · obtain ⟨c, hmem, rfl⟩ := List.mem_map.1 hr
      exact ⟨hN.filter_takes _ _ (.permission _ hc hmem), rfl⟩
    have hrules : (cs.map fun c => (⟨c, .ret⟩ : FilterRule)).reverse = permitRules N o := by
      rw [permitRules, hc, Option.getD_some, List.map_reverse]
    rw [hrules, ← List.append_assoc, ← outRules_permit] at ht
    have hrep := hE.filter.replaced (List.mem_map_of_mem hs) (foreign_outRules N h (s.permit o))
    refine hE.of_holds rfl rfl ?_ ?_ ?_ (fun _ _ _ => rfl) ?_
    · rw [ht]
      exact replace_map (filterDispatch h) P.sites (Site.outRules N) s.config.id rfl hs rfl
        hE.distinct (Site.permit o) (fun _ => rfl) ▸ hrep
    · rw [ht]
      exact Dispatch.same_update_inst (D := filterDispatch h) _ _
    · rw [Policy.update, ← List.map_reverse,
        update_map (Site.inRules h) (Site.permit o) fun _ => ⟨rfl, rfl⟩]
      exact hE.nat
    · intro s' hs' o' ho'
      obtain ⟨s'', hs'', rfl⟩ := List.mem_map.1 hs'
      split at ho'
      · rcases List.mem_append.1 ho' with ho' | ho'
        · exact hE.permissible s'' hs'' o' ho'
        · rw [List.mem_singleton.1 ho']
          exact hok
      · exact hE.permissible s'' hs'' o' ho'

/-- **net.sh in** adds the mapping, or changes nothing if iptables does not take
    it. -/
theorem wp_netIn (hN : N.Lawful h) (hE : Enforces N h own P T) {s : Site} (hs : s ∈ P.sites)
    (m : NetInSpec) {cmd : Cmd} {path : String} (hargs : cmd.args = ["in"])
    (henv : cmd.env = ["HOST_PORT=" ++ toString m.hostPort.toNat,
      "CONTAINER_PORT=" ++ toString m.containerPort.toNat, "PATH=" ++ path]) :
    wp (Skeleton.netSh N h s.config cmd)
      (fun _ T' => Enforces N h own (P.update s.config.id (Site.map m)) T')
      (fun _ T' => T' = T ∧ ¬ Mappable m) T := by
  simp only [Skeleton.netSh, hargs, Skeleton.netIn, henv, getenv_hostPort, getenv_containerPort,
    wp_bind, wp_ensure]
  refine ⟨fun _ => ⟨fun _ => ?_, fun he => absurd (toString_ne_empty _) he⟩,
    fun he => absurd (toString_ne_empty _) he⟩
  rw [hN.readPort, hN.readToPort]
  by_cases hh : m.hostPort.toNat < 65536
  swap
  · rw [if_neg hh]
    exact ⟨rfl, fun hok => hh hok.1⟩
  by_cases hp : 0 < m.containerPort.toNat ∧ m.containerPort.toNat < 65536
  swap
  · rw [if_pos hh, if_neg hp]
    refine ⟨rfl, fun hok => hp ⟨Nat.pos_of_ne_zero fun h0 => hok.2.2 ?_, hok.2.1⟩⟩
    exact UInt32.toNat_inj.1 h0
  rw [if_pos hh, if_pos hp, wp_onNat]
  have hs' := List.mem_reverse.2 hs
  have hl : N.nat.rules T.nat (instanceChain h s.config.id) = some (s.inRules h) :=
    (hE.nat.chains _ (List.mem_map_of_mem hs')).trans (congrArg some (List.append_nil _))
  refine hN.nat.wp_append hl (.of_none (hN.nat_takes _ _ (.mapping _ hh hp)) rfl)
    fun t ht => ?_
  rw [← inRules_map] at ht
  have hbase : (s.map m).inRules h ++ (natDispatch h).base = (s.map m).inRules h :=
    List.append_nil _
  have hrep := hE.nat.replaced (List.mem_map_of_mem hs') (foreign_inRules h (s.map m))
  rw [hbase] at hrep
  have hd : (P.sites.reverse.map fun s => s.config.id).Nodup := by
    rw [List.map_reverse, List.nodup_reverse]
    exact hE.distinct
  refine hE.of_holds rfl rfl ?_ (fun _ _ _ => rfl) ?_ ?_ ?_
  · rw [Policy.update, update_map (Site.outRules N) (Site.map m) fun _ => ⟨rfl, rfl⟩]
    exact hE.filter
  · have hlive := replace_map (natDispatch h) P.sites.reverse (Site.inRules h) s.config.id rfl hs'
      rfl hd (Site.map m) (fun _ => rfl)
    rw [Policy.update, ← List.map_reverse, ← hlive, ht]
    exact hrep
  · rw [ht]
    exact Dispatch.same_update_inst (D := natDispatch h) _ _
  · intro s' hs' o ho
    obtain ⟨s'', hs'', rfl⟩ := List.mem_map.1 hs'
    split at ho <;> exact hE.permissible s'' hs'' o ho

end

/-! ## bin/net.sh -/

section
variable {σ τ : Type} {N : Iptables σ τ} {h : Host} {own : OwnRules} {P : Policy} {T : Tables σ τ}

/-- The tables before the daemon is set up: the base chains are there, with the
    host's own rules, and nothing refers to the chains of containers but the
    daemon's. -/
structure Startable (N : Iptables σ τ) (h : Host) (own : OwnRules) (T : Tables σ τ) : Prop where
  filter : (filterDispatch h).Clean (N.filter.rules T.filter)
  forward : ∃ rs, N.filter.rules T.filter "FORWARD" = some rs ∧
    rs.filter (Bin.isOwn h) = own.forward
  nat : (natDispatch h).Clean (N.nat.rules T.nat)
  prerouting : ∃ rs, N.nat.rules T.nat "PREROUTING" = some rs ∧
    Bound h (Bin.preroutingRule h) own.prerouting rs
  output : ∃ rs, N.nat.rules T.nat "OUTPUT" = some rs ∧ Bound h (Bin.outputRule h) own.output rs
  postrouting : (N.nat.rules T.nat "POSTROUTING").isSome

/-- A daemon that is running can be started again. -/
theorem Enforces.startable (hE : Enforces N h own P T) : Startable N h own T where
  filter := hE.filter.clean (framed_filter h) fun _ => grep_append _ _
  forward := by
    refine ⟨_, hE.forward, ?_⟩
    have hfound : grep h.sys.filterForwardChain h.sys.filterForwardChain = true :=
      (congrArg (grep _) (String.append_empty).symm).trans (grep_append _ _)
    rw [List.filter_append, List.filter_eq_self.2 hE.isOwn]
    simp [Bin.isOwn, Bin.forwardRule, jumpsTo, hfound]
  nat := hE.nat.clean (framed_nat h) fun _ => grep_append _ _
  prerouting := by
    obtain ⟨rs, hl, -, hb⟩ := hE.prerouting
    exact ⟨rs, hl, hb⟩
  output := by
    obtain ⟨rs, hl, -, hb⟩ := hE.output
    exact ⟨rs, hl, hb⟩
  postrouting := hE.postrouting

/-- The networks of a flag, as iptables reads them. -/
def networks (N : Iptables σ τ) (text : PlainText) : Option (List IPNet) :=
  ((words text.1).mapM N.readNet).map List.flatten

/-- The flags of the daemon are networks to iptables, and the host has a default
    route. -/
structure Flags (N : Iptables σ τ) (h : Host) (allow deny : List IPNet) : Prop where
  allow : networks N h.allowNetworks = some allow
  deny : networks N h.denyNetworks = some deny
  routed : h.defaultInterface ≠ ""

theorem wp_teardownDeprecatedRules (hN : N.Lawful h) {s : σ} {rs : List FilterRule}
    (hl : N.filter.rules s "FORWARD" = some rs) :
    wp (Bin.teardownDeprecatedRules N) (fun _ s' =>
      Thinner (N.filter.rules s) (N.filter.rules s') ∧ N.filter.rules s' "FORWARD" =
        some (rs.filter fun r => !jumpsTo (grep "warden-dispatch") r)) (fun _ _ => False) s := by
  rw [Bin.teardownDeprecatedRules, wp_bind]
  refine wp_mono (takesOut_deleteRules hN.filter _ _ s _) ?_ fun _ _ he => he
  rintro _ s₁ ⟨h₁, hs₁⟩
  rw [← hs₁ "FORWARD" (by decide)] at hl
  rw [wp_bind]
  refine hN.filter.wp_deleteRules hl fun s₂ hs₂ => ?_
  have h₂ : Thinner (N.filter.rules s₁) (N.filter.rules s₂) := by
    rw [hs₂]
    exact thinner_update hl (List.filter_subset_self _)
  rw [wp_bind]
  refine wp_mono (takesOut_flush hN.filter _ s₂ _) ?_ fun _ _ he => he
  rintro _ s₃ ⟨h₃, hs₃⟩
  refine wp_mono (takesOut_deleteChain hN.filter _ s₃ _) ?_ fun _ _ he => he
  rintro _ s₄ ⟨h₄, hs₄⟩
  refine ⟨((h₁.trans h₂).trans h₃).trans h₄, ?_⟩
  rw [hs₄ "FORWARD" (by decide), hs₃ "FORWARD" (by decide), hs₂, update_self]

/-- The daemon's tables without containers, before its chains are made. -/
def Bare (N : Iptables σ τ) (h : Host) (own : OwnRules) (s : σ) : Prop :=
  (filterDispatch h).Vacant (N.filter.rules s) ∧ N.filter.rules s "FORWARD" = some own.forward

theorem Bare.takesOut {x : EStateM Netfilter.Error σ Unit} {c : String} (hx : TakesOut N.filter x c)
    (hc : "FORWARD" ≠ c) {s : σ} (hs : Bare N h own s) :
    wp x (fun _ s' => Bare N h own s') (fun _ _ => False) s := by
  refine wp_mono (hx s _) ?_ fun _ _ he => he
  rintro _ s' ⟨hthin, hs'⟩
  refine ⟨hs.1.thinner hthin, ?_⟩
  rw [hs' _ hc]
  exact hs.2

theorem wp_teardownFilter (hN : N.Lawful h) (hT : Startable N h own T) :
    wp (Bin.teardownFilter N h) (fun _ s => Bare N h own s) (fun _ _ => False) T.filter := by
  obtain ⟨rs, hl, hrs⟩ := hT.forward
  rw [Bin.teardownFilter, wp_bind]
  refine wp_mono (wp_teardownDeprecatedRules hN hl) ?_ fun _ _ he => he
  rintro _ s₁ ⟨h₁, hl₁⟩
  rw [wp_bind]
  refine wp_mono (Dispatch.wp_teardownAll hN.filter (fits_filter hN) (hT.filter.thinner h₁)) ?_
    fun _ _ he => he
  rintro _ s₂ ⟨h₂, _, hs₂⟩
  rw [← hs₂ "FORWARD" (ne_chain (by decide)) (isInst_base (by decide) h)] at hl₁
  rw [wp_bind]
  refine hN.filter.wp_deleteRules hl₁ fun s₃ hs₃ => ?_
  have hown : ((rs.filter fun r => !jumpsTo (grep "warden-dispatch") r).filter fun r =>
      !jumpsTo (grep h.sys.filterForwardChain) r) = own.forward := by
    rw [List.filter_filter, ← hrs]
    exact List.filter_congr fun r _ => Bool.and_comm _ _
  have hbare : Bare N h own s₃ := by
    rw [Bare, hs₃]
    exact ⟨h₂.thinner (thinner_update hl₁ (List.filter_subset_self _)),
      (update_self _ _ _).trans (congrArg some hown)⟩
  rw [wp_bind]
  refine wp_mono (hbare.takesOut (takesOut_flush hN.filter _) (ne_chain (by decide)))
    (fun _ s₄ h₄ => ?_) fun _ _ he => he
  exact h₄.takesOut (takesOut_flush hN.filter _) (ne_chain (by decide))

/-- The filter table of a daemon without containers. -/
structure FilterSetUp (N : Iptables σ τ) (h : Host) (own : OwnRules)
    (allow deny : List IPNet) (s : σ) : Prop where
  holds : (filterDispatch h).Holds [Bin.inboundRule h] [dropRule] [] (N.filter.rules s)
  default : N.filter.rules s h.sys.filterDefaultChain = some (defaultRules allow deny)
  forward : N.filter.rules s "FORWARD" = some (own.forward ++ [Bin.forwardRule h])

theorem foreign_of_none {ν : Type} {D : Dispatch InstanceID EtcConfig String Cond ν}
    {rs : List (Rule String Cond ν)} (hrs : ∀ r ∈ rs, r.target.chain? = none) : D.Foreign rs := by
  intro r hr c hc
  rw [hrs r hr] at hc
  cases hc

/-- The default chain is filled with the rules of the networks. -/
theorem wp_networkRules (hN : N.Lawful h) {target : Target String Verdict} {text : PlainText}
    {ns : List IPNet} (hns : networks N text = some ns)
    (ht : target = .ret ∨ target = .verdict .drop) {s : σ}
    {rs : List FilterRule} (hl : N.filter.rules s h.sys.filterDefaultChain = some rs)
    {Q : Unit → σ → Prop} {E : Netfilter.Error → σ → Prop}
    (hQ : ∀ s', N.filter.rules s' = update (N.filter.rules s) h.sys.filterDefaultChain
      (some (rs ++ ns.map fun n => ⟨{ destination := some n }, target⟩)) → Q () s') :
    wp (Bin.networkRules N h target text) Q E s := by
  obtain ⟨nss, hnss, rfl⟩ := Option.map_eq_some_iff.1 hns
  clear hns
  rw [Bin.networkRules]
  generalize words text.1 = ws at hnss
  induction ws generalizing nss rs s with
  | nil =>
    rw [List.mapM_nil] at hnss
    cases hnss
    refine hQ s ?_
    rw [List.flatten_nil, List.map_nil, List.append_nil, ← hl, update_eq_self]
  | cons w ws ih =>
    rw [List.mapM_cons] at hnss
    obtain ⟨nets, hnets, hnss⟩ := Option.bind_eq_some_iff.1 hnss
    obtain ⟨nss', hnss', hnss⟩ := Option.bind_eq_some_iff.1 hnss
    cases hnss
    rw [each, wp_bind, hnets]
    refine hN.filter.wp_each_append hl (fun r hr s' rs' _ _ => ?_) fun s₁ hs₁ => ?_
    · obtain ⟨n, hn, rfl⟩ := List.mem_map.1 hr
      refine .of_none (hN.filter_takes _ _ (.network hnets hn ht)) ?_
      rcases ht with rfl | rfl <;> rfl
    refine ih (by rw [hs₁, update_self]) nss' (fun s' hs' => hQ s' ?_) hnss'
    rw [hs', hs₁, update_idem, List.append_assoc, ← List.map_append, List.flatten_cons]

/-- The table that setup_filter makes of one that has no containers. -/
theorem FilterSetUp.of_table {allow deny : List IPNet} {t : Table String Cond Verdict} {s : σ}
    (hv : (filterDispatch h).Vacant t) (hF : t "FORWARD" = some own.forward)
    (hs : N.filter.rules s =
      update (update (update (update t
        h.sys.filterForwardChain (some [dropRule]))
        h.sys.filterDefaultChain (some (defaultRules allow deny)))
        "FORWARD" (some (own.forward ++ [Bin.forwardRule h])))
        h.sys.filterForwardChain (some [Bin.inboundRule h, dropRule])) :
    FilterSetUp N h own allow deny s := by
  have hfd := forward_ne_default h
  have hFf : "FORWARD" ≠ h.sys.filterForwardChain := ne_chain (by decide)
  have hFd : "FORWARD" ≠ h.sys.filterDefaultChain := ne_chain (by decide)
  refine ⟨Dispatch.Vacant.holds ?_ (by rw [hs]; exact update_self _ _ _), ?_, ?_⟩
  · rw [hs]
    have hdefault := foreign_of_none (D := filterDispatch h) (defaultRules_target allow deny)
    have hforward : (filterDispatch h).Foreign (own.forward ++ [Bin.forwardRule h]) :=
      Dispatch.Foreign.concat (hv.others _ _ hF hFf) fun c hc => by
        cases hc
        exact isInst_forward h
    exact (((hv.update (isInst_forward h) (.inl rfl)).update (isInst_default h) (.inr hdefault)).update
      (isInst_base (by decide) h) (.inr hforward)).update (isInst_forward h) (.inl rfl)
  · rw [hs, update_of_ne hfd.symm, update_of_ne hFd.symm, update_self]
  · rw [hs, update_of_ne hFf, update_self]

theorem wp_setupFilter (hN : N.Lawful h) (hT : Startable N h own T) {allow deny : List IPNet}
    (hf : Flags N h allow deny) :
    wp (Bin.setupFilter N h) (fun _ s => FilterSetUp N h own allow deny s) (fun _ _ => False)
      T.filter := by
  have hfd := forward_ne_default h
  have hFf : "FORWARD" ≠ h.sys.filterForwardChain := ne_chain (by decide)
  have hFd : "FORWARD" ≠ h.sys.filterDefaultChain := ne_chain (by decide)
  have hnf := isName_forward h
  have hnd := isName_default h
  rw [Bin.setupFilter, wp_bind]
  refine wp_mono (wp_teardownFilter hN hT) ?_ fun _ _ he => he
  rintro _ s ⟨hv, hF⟩
  rw [wp_bind]
  refine hN.filter.wp_newOrFlush (hN.filter_name _ hnf) fun s₁ hs₁ => ?_
  rw [wp_bind]
  refine hN.filter.wp_append (by rw [hs₁, update_self])
    (.of_none (hN.filter_takes _ _ .drop) rfl) fun s₂ hs₂ => ?_
  rw [hs₁, update_idem] at hs₂
  rw [wp_bind]
  refine hN.filter.wp_newOrFlush (hN.filter_name _ hnd) fun s₃ hs₃ => ?_
  rw [wp_bind]
  refine hN.filter.wp_append (by rw [hs₃, update_self])
    (.of_none (hN.filter_takes _ _ .established) rfl) fun s₄ hs₄ => ?_
  rw [hs₃, update_idem] at hs₄
  rw [wp_bind]
  refine wp_networkRules hN hf.allow (.inl rfl) (by rw [hs₄, update_self]) fun s₅ hs₅ => ?_
  rw [hs₄, update_idem] at hs₅
  rw [wp_bind]
  refine wp_networkRules hN hf.deny (.inr rfl) (by rw [hs₅, update_self]) fun s₆ hs₆ => ?_
  -- the table is the bare one with the two chains written
  have hs₆ : N.filter.rules s₆ =
      update (update (N.filter.rules s) h.sys.filterForwardChain (some [dropRule]))
        h.sys.filterDefaultChain (some (defaultRules allow deny)) := by
    rw [hs₆, hs₅, update_idem, hs₂]
    rfl
  have hforward : N.filter.rules s₆ h.sys.filterForwardChain = some [dropRule] := by
    rw [hs₆, update_of_ne hfd, update_self]
  have hF₆ : N.filter.rules s₆ "FORWARD" = some own.forward := by
    rw [hs₆, update_of_ne hFd, update_of_ne hFf, hF]
  have hleaf : Leaf (N.filter.rules s₆) h.sys.filterForwardChain :=
    ⟨_, hforward, by simp [dropRule, Target.chain?]⟩
  rw [wp_bind]
  refine hN.filter.wp_append hF₆ ⟨hN.filter_takes _ _ .forward, fun c hc => ?_⟩ fun s₇ hs₇ => ?_
  · cases hc
    exact ⟨hleaf.isSome, filter_not_builtin hN (head_chain _ _), hleaf.not_leads hFf.symm⟩
  have hiface : IsIface h.defaultInterface := h.defaultInterface_name.resolve_left hf.routed
  rw [if_neg hf.routed]
  refine hN.filter.wp_insertAt (by rw [hs₇, update_of_ne hFf.symm]; exact hforward) (Nat.zero_le _)
    (.of_none (hN.filter_takes _ _ (.inbound hiface)) rfl) fun s₈ hs₈ => ?_
  exact .of_table hv hF (by rw [hs₈, hs₇, hs₆]; rfl)

/-! ### The nat table -/

/-- The chains of the nat table that setup_nat starts from. -/
structure NatBare (N : Iptables σ τ) (h : Host) (own : OwnRules) (s : τ) : Prop where
  vacant : (natDispatch h).Vacant (N.nat.rules s)
  prerouting : ∃ rs, N.nat.rules s "PREROUTING" = some rs ∧
    Bound h (Bin.preroutingRule h) own.prerouting rs
  output : ∃ rs, N.nat.rules s "OUTPUT" = some rs ∧ Bound h (Bin.outputRule h) own.output rs
  postrouting : (N.nat.rules s "POSTROUTING").isSome

/-- Chains that are none of the base chains may be written. -/
theorem NatBare.of_same {s s' : τ} (hs : NatBare N h own s)
    (hv : (natDispatch h).Vacant (N.nat.rules s')) {c : String} (hc : c.toList.head? = some 'w')
    (hsame : ∀ c', c' ≠ c → N.nat.rules s' c' = N.nat.rules s c') : NatBare N h own s' := by
  have hne : ∀ b : String, b.toList.head? ≠ some 'w' → N.nat.rules s' b = N.nat.rules s b :=
    fun b hb => hsame b fun hbc => hb (hbc ▸ hc)
  exact ⟨hv, by rw [hne "PREROUTING" (by decide)]; exact hs.prerouting,
    by rw [hne "OUTPUT" (by decide)]; exact hs.output,
    by rw [hne "POSTROUTING" (by decide)]; exact hs.postrouting⟩

/-- A rule that is appended unless it is there. -/
theorem wp_appendUnless (hN : N.Lawful h) {s : τ} {c : String} {rs : List NatRule}
    {found : NatRule → Bool} {r : NatRule} {Q : Unit → τ → Prop} {E : Netfilter.Error → τ → Prop}
    (hl : N.nat.rules s c = some rs) (hr : N.nat.Addable s c r)
    (hQ : ∀ s' rs', N.nat.rules s' c = some rs' → rs.any found = true ∧ rs' = rs ∨ rs' = rs ++ [r] →
      (∀ c', c' ≠ c → N.nat.rules s' c' = N.nat.rules s c') → Q () s') :
    wp (Bin.appendUnless N found c r) Q E s := by
  rw [Bin.appendUnless, wp_bind, wp_get, hl]
  cases hf : rs.any found with
  | true =>
    rw [if_pos (by simp [hf])]
    exact hQ s rs hl (.inl ⟨hf, rfl⟩) fun _ _ => rfl
  | false =>
    rw [if_neg (by simp [hf])]
    refine hN.nat.wp_append hl hr fun s' hs' => hQ s' _ (by rw [hs', update_self]) (.inr rfl)
      fun c' hc' => ?_
    rw [hs', update_of_ne hc']

/-- The rule that binds the prerouting chain is appended unless it is there; in
    the end it is. -/
theorem wp_bindChain (hN : N.Lawful h) {s : τ} {c : String} {rs own' : List NatRule} {r : NatRule}
    {Q : Unit → τ → Prop} {E : Netfilter.Error → τ → Prop} (hl : N.nat.rules s c = some rs)
    (hb : Bound h r own' rs) (hw : NatWrites h c r) (ht : r.target = .jump h.sys.natPreroutingChain)
    (hc : c.toList.head? ≠ some 'w') (hleaf : Leaf (N.nat.rules s) h.sys.natPreroutingChain)
    (hforeign : (natDispatch h).Foreign rs)
    (hQ : ∀ s' rs', N.nat.rules s' c = some rs' → r ∈ rs' → Bound h r own' rs' →
      (natDispatch h).Foreign rs' →
      (∀ c', c' ≠ c → N.nat.rules s' c' = N.nat.rules s c') → Q () s') :
    wp (Bin.appendUnless N (jumpsTo (grepWord h.sys.natPreroutingChain)) c r) Q E s := by
  have hadd : N.nat.Addable s c r := by
    refine ⟨hN.nat_takes _ _ hw, fun c' hc' => ?_⟩
    rw [ht] at hc'
    cases hc'
    exact ⟨hleaf.isSome, nat_not_builtin hN (head_chain _ _),
      hleaf.not_leads (ne_chain hc).symm⟩
  refine wp_appendUnless hN hl hadd fun s' rs' hl' hcase hs' => ?_
  rcases hcase with ⟨hany, rfl⟩ | rfl
  · obtain ⟨r', hr', hfound⟩ := List.any_eq_true.1 hany
    have hr : r ∈ rs' := by
      rcases hb.rules r' hr' with rfl | hown
      · exact hr'
      · rw [hb.own r' hown] at hfound
        cases hfound
    exact hQ s' rs' hl' hr hb hforeign hs'
  · refine hQ s' _ hl' (by simp) ⟨fun r' hr' => ?_, hb.own⟩ ?_ hs'
    · rcases List.mem_append.1 hr' with hr' | hr'
      · exact hb.rules r' hr'
      · exact .inl (List.mem_singleton.1 hr')
    · refine hforeign.concat fun c' hc' => ?_
      rw [ht] at hc'
      cases hc'
      exact isInst_prerouting h

/-- A chain that is flushed, if it is there, and made, if it is not. -/
theorem wp_attempt_newChain (hN : N.Lawful h) {s : τ} {c : String} {Q : Unit → τ → Prop}
    {E : Netfilter.Error → τ → Prop} (hn : IsName c)
    (hl : N.nat.rules s c = none ∨ N.nat.rules s c = some [])
    (hQ : ∀ s', N.nat.rules s' c = some [] →
      (∀ c', c' ≠ c → N.nat.rules s' c' = N.nat.rules s c') → Q () s') :
    wp (attempt (N.nat.newChain c)) Q E s := by
  rw [wp_attempt]
  rcases hl with hl | hl
  · refine hN.nat.wp_newChain (hN.nat_name _ hn) hl fun s' hs' => hQ s' (by rw [hs', update_self])
      fun c' hc' => ?_
    rw [hs', update_of_ne hc']
  · exact hN.nat.wp_newChain_exists (Option.isSome_of_eq_some hl) fun _ => hQ s hl fun _ _ => rfl

theorem wp_attempt_flush (hN : N.Lawful h) {s : τ} {c : String} {Q : Unit → τ → Prop}
    {E : Netfilter.Error → τ → Prop}
    (hQ : ∀ s', N.nat.rules s' c = none ∨ N.nat.rules s' c = some [] →
      Thinner (N.nat.rules s) (N.nat.rules s') →
      (∀ c', c' ≠ c → N.nat.rules s' c' = N.nat.rules s c') → Q () s') :
    wp (attempt (N.nat.flush c)) Q E s := by
  rw [wp_attempt]
  cases hl : N.nat.rules s c with
  | none => exact hN.nat.wp_flush_none hl fun _ => hQ s (.inl hl) (.refl _) fun _ _ => rfl
  | some rs =>
    refine hN.nat.wp_flush hl fun s' hs' => hQ s' (.inr (by rw [hs', update_self])) ?_
      fun c' hc' => by rw [hs', update_of_ne hc']
    rw [hs']
    exact thinner_update hl (List.nil_subset _)

theorem prerouting_ne_postrouting (h : Host) :
    h.sys.natPreroutingChain ≠ h.sys.natPostroutingChain := by
  rw [Host.sys, SysConfig.new, Ne, String.append_right_inj]
  decide

theorem isInst_postrouting (h : Host) :
    grep h.sys.natInstancePrefix h.sys.natPostroutingChain = false := by
  rw [Host.sys, SysConfig.new, grep_append_left]
  decide

theorem wp_teardownNat (hN : N.Lawful h) (hT : Startable N h own T) {Q : Unit → τ → Prop}
    {E : Netfilter.Error → τ → Prop}
    (hQ : ∀ s, NatBare N h own s →
      (N.nat.rules s h.sys.natPreroutingChain = none ∨
        N.nat.rules s h.sys.natPreroutingChain = some []) →
      (N.nat.rules s h.sys.natPostroutingChain = none ∨
        N.nat.rules s h.sys.natPostroutingChain = some []) → Q () s) :
    wp (Bin.teardownNat N h) Q E T.nat := by
  rw [Bin.teardownNat, wp_bind]
  refine wp_mono (Dispatch.wp_teardownAll hN.nat (fits_nat hN) hT.nat) ?_ fun _ _ he => he
  rintro _ s₁ ⟨hv₁, _, hs₁⟩
  have hbase : ∀ b : String, b.toList.head? ≠ some 'w' → N.nat.rules s₁ b = N.nat.rules T.nat b :=
    fun b hb => hs₁ b (ne_chain hb) (isInst_base hb h)
  have h₁ : NatBare N h own s₁ :=
    ⟨hv₁, by rw [hbase "PREROUTING" (by decide)]; exact hT.prerouting,
      by rw [hbase "OUTPUT" (by decide)]; exact hT.output,
      by rw [hbase "POSTROUTING" (by decide)]; exact hT.postrouting⟩
  rw [wp_bind]
  refine wp_attempt_flush hN fun s₂ hl₂ hthin₂ hs₂ => ?_
  have h₂ := h₁.of_same (h₁.vacant.thinner hthin₂) (head_chain _ _) hs₂
  refine wp_attempt_flush hN fun s₃ hl₃ hthin₃ hs₃ => ?_
  refine hQ s₃ (h₂.of_same (h₂.vacant.thinner hthin₃) (head_chain _ _) hs₃) ?_ hl₃
  rw [hs₃ _ (prerouting_ne_postrouting h)]
  exact hl₂

/-- The nat table of a daemon without containers. -/
structure NatSetUp (N : Iptables σ τ) (h : Host) (own : OwnRules) (s : τ) : Prop where
  vacant : (natDispatch h).Vacant (N.nat.rules s)
  chain : N.nat.rules s h.sys.natPreroutingChain = some []
  prerouting : ∃ rs, N.nat.rules s "PREROUTING" = some rs ∧ Bin.preroutingRule h ∈ rs ∧
    Bound h (Bin.preroutingRule h) own.prerouting rs
  output : ∃ rs, N.nat.rules s "OUTPUT" = some rs ∧ Bin.outputRule h ∈ rs ∧
    Bound h (Bin.outputRule h) own.output rs
  postrouting : (N.nat.rules s "POSTROUTING").isSome

/-- A chain of the nat table written that packets do not meet before they are
    routed. -/
theorem NatSetUp.write {s s' : τ} (hs : NatSetUp N h own s) {c : String} (hpre : "PREROUTING" ≠ c)
    (hout : "OUTPUT" ≠ c) (hchain : h.sys.natPreroutingChain ≠ c)
    (hc : grep h.sys.natInstancePrefix c = false) {rs : List NatRule}
    (hl : N.nat.rules s' c = some rs) (hrs : (natDispatch h).Foreign rs)
    (hsame : ∀ c', c' ≠ c → N.nat.rules s' c' = N.nat.rules s c') : NatSetUp N h own s' where
  vacant := hs.vacant.write hc hl (.inr hrs) hsame
  chain := by rw [hsame _ hchain]; exact hs.chain
  prerouting := by rw [hsame _ hpre]; exact hs.prerouting
  output := by rw [hsame _ hout]; exact hs.output
  postrouting := by
    by_cases hpost : "POSTROUTING" = c
    · rw [hpost, hl]; rfl
    · rw [hsame _ hpost]; exact hs.postrouting

/-- The rules that bind the prerouting chain. -/
theorem wp_bindChains (hN : N.Lawful h) {s : τ} (hs : NatBare N h own s)
    (hl : N.nat.rules s h.sys.natPreroutingChain = some []) {Q : Unit → τ → Prop}
    {E : Netfilter.Error → τ → Prop}
    (hQ : ∀ s', NatSetUp N h own s' → N.nat.rules s' h.sys.natPostroutingChain =
      N.nat.rules s h.sys.natPostroutingChain → Q () s') :
    wp (do
      Bin.appendUnless N (jumpsTo (grepWord h.sys.natPreroutingChain)) "PREROUTING"
        (Bin.preroutingRule h)
      Bin.appendUnless N (jumpsTo (grepWord h.sys.natPreroutingChain)) "OUTPUT"
        (Bin.outputRule h)) Q E s := by
  obtain ⟨rs, hrs, hb⟩ := hs.prerouting
  rw [wp_bind]
  refine wp_bindChain hN hrs hb .prerouting rfl (by decide) (leaf_nil hl)
    (hs.vacant.others _ _ hrs (ne_chain (by decide))) fun s₁ rs₁ hl₁ hr₁ hb₁ hf₁ hs₁ => ?_
  have hv₁ := hs.vacant.write (isInst_base (by decide) h) hl₁ (.inr hf₁) hs₁
  have hchain₁ : N.nat.rules s₁ h.sys.natPreroutingChain = some [] := by
    rw [hs₁ h.sys.natPreroutingChain (ne_chain (by decide)).symm]; exact hl
  obtain ⟨ro, hro, hbo⟩ := hs.output
  rw [← hs₁ "OUTPUT" (by decide)] at hro
  refine wp_bindChain hN hro hbo .output rfl (by decide) (leaf_nil hchain₁)
    (hv₁.others _ _ hro (ne_chain (by decide))) fun s₂ rs₂ hl₂ hr₂ hb₂ hf₂ hs₂ => ?_
  refine hQ s₂ ⟨hv₁.write (isInst_base (by decide) h) hl₂ (.inr hf₂) hs₂, ?_,
    ⟨rs₁, ?_, hr₁, hb₁⟩, ⟨rs₂, hl₂, hr₂, hb₂⟩, ?_⟩ ?_
  · rw [hs₂ h.sys.natPreroutingChain (ne_chain (by decide)).symm]; exact hchain₁
  · rw [hs₂ "PREROUTING" (by decide)]; exact hl₁
  · rw [hs₂ "POSTROUTING" (by decide), hs₁ "POSTROUTING" (by decide)]
    exact hs.postrouting
  · rw [hs₂ h.sys.natPostroutingChain (ne_chain (by decide)).symm,
      hs₁ h.sys.natPostroutingChain (ne_chain (by decide)).symm]

theorem wp_setupNat (hN : N.Lawful h) (hT : Startable N h own T) :
    wp (Bin.setupNat N h) (fun _ s => NatSetUp N h own s) (fun _ _ => False) T.nat := by
  rw [Bin.setupNat, wp_bind]
  refine wp_teardownNat hN hT fun s hs hpre hpost => ?_
  rw [wp_bind]
  refine wp_attempt_newChain hN (isName_prerouting h) hpre fun s₁ hl₁ hs₁ => ?_
  have h₁ := hs.of_same (hs.vacant.write (isInst_prerouting h) hl₁ (.inl rfl) hs₁) (head_chain _ _) hs₁
  rw [← hs₁ _ (prerouting_ne_postrouting h).symm] at hpost
  have hbind := fun {Q E} => wp_bindChains (Q := Q) (E := E) hN h₁ hl₁
  simp only [wp_bind] at hbind ⊢
  refine hbind fun s₂ h₂ hpost₂ => ?_
  rw [← hpost₂] at hpost
  refine wp_attempt_newChain hN (isName_postrouting h) hpost fun s₃ hl₃ hs₃ => ?_
  have hP : ∀ {c : String}, c.toList.head? ≠ some 'w' → c ≠ h.sys.natPostroutingChain := ne_chain
  have h₃ := h₂.write (hP (by decide)) (hP (by decide)) (prerouting_ne_postrouting h)
    (isInst_postrouting h) hl₃ (List.forall_mem_nil _) hs₃
  obtain ⟨rp, hrp⟩ := Option.isSome_iff_exists.1 h₃.postrouting
  refine wp_appendUnless hN hrp ⟨hN.nat_takes _ _ .postrouting, fun c hc => ?_⟩
    fun s₄ rp' hl₄ hcase₄ hs₄ => ?_
  · cases hc
    exact ⟨(leaf_nil hl₃).isSome, nat_not_builtin hN (head_chain _ _),
      (leaf_nil hl₃).not_leads (hP (by decide)).symm⟩
  have h₄ : NatSetUp N h own s₄ := by
    refine h₃.write (by decide) (by decide) (ne_chain (by decide)).symm (isInst_base (by decide) h)
      hl₄ ?_ hs₄
    have hrp := h₃.vacant.others _ _ hrp (ne_chain (by decide))
    rcases hcase₄ with ⟨-, rfl⟩ | rfl
    · exact hrp
    · exact hrp.concat fun c hc => by cases hc; exact isInst_postrouting h
  have hl₄' : N.nat.rules s₄ h.sys.natPostroutingChain = some [] := by
    rw [hs₄ _ (hP (by decide)).symm]
    exact hl₃
  refine wp_appendUnless hN hl₄' (.of_none (hN.nat_takes _ _ .snat) rfl)
    fun s₅ rs₅ hl₅ hcase₅ hs₅ => ?_
  refine h₄.write (hP (by decide)) (hP (by decide)) (prerouting_ne_postrouting h)
    (isInst_postrouting h) hl₅ ?_ hs₅
  rcases hcase₅ with ⟨hany, -⟩ | rfl
  · cases hany
  · exact Dispatch.Foreign.concat (List.forall_mem_nil _) fun c hc => by cases hc

/-- **bin/net.sh setup** leaves the policy of the daemon's flags, without
    containers. -/
theorem wp_daemonSetup (hN : N.Lawful h) (hT : Startable N h own T) {allow deny : List IPNet}
    (hf : Flags N h allow deny) : wp (daemonSetup N h)
      (fun _ T' => Enforces N h own ⟨allow, deny, []⟩ T') (fun _ _ => False) T := by
  have hnat := wp_setupNat hN hT
  rw [daemonSetup, wp_bind, wp_onFilter]
  refine wp_mono (wp_setupFilter hN hT hf) (fun _ s hs => ?_) fun _ _ he => he
  rw [wp_onNat]
  refine wp_mono hnat (fun _ u hu => ?_) fun _ _ he => he
  exact
    { filter := hs.holds
      default := hs.default
      forward := hs.forward
      isOwn := fun r hr => by
        obtain ⟨rs, -, hrs⟩ := hT.forward
        exact (List.mem_filter.1 (hrs ▸ hr)).2
      nat := hu.vacant.holds hu.chain
      prerouting := hu.prerouting
      output := hu.output
      postrouting := hu.postrouting
      permissible := List.forall_mem_nil _ }

end

end Firewall

end WardenLinux
