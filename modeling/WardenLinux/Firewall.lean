/-
  The firewall of the containers: bin/net.sh, which the daemon runs when it is
  set up, and skeleton/net.sh, which it runs for each container.

  The chains are named after the daemon's tag (sysconfig/config.go).  Packets
  from the containers' interfaces come from FORWARD into the forward chain,
  which has an entry for each container; its own chain has the permissions of
  `NetOut` in front of a goto to the default chain.  In the nat table the
  prerouting chain, to which PREROUTING and OUTPUT jump, jumps to a chain for
  each container, which has the port mappings of `NetIn`.

  iptables is a parameter of the scripts (`Iptables`); what they rely on is
  `Iptables.Lawful`.

  * `Policy`: what the firewall is for, as a function of the networks the
    daemon was started with and of the containers that are set up.
  * `Enforces`: the tables hold a policy.
  * `fate_forward`, `fate_prerouting`, `fate_output`: a packet that goes through
    the tables meets what the policy says.
-/
import WardenLinux.Container
import WardenLinux.InterfaceNames
import WardenLinux.Lib.Decimal
import WardenLinux.Lib.Dispatch
import WardenLinux.Lib.Words

namespace WardenLinux

open Fallible Netfilter

namespace Firewall

/-! ## Names -/

/-- `sysconfig.Config`, without the path of the cgroups. -/
structure SysConfig where
  networkInterfacePrefix : String
  filterForwardChain : String
  filterDefaultChain : String
  filterInstancePrefix : String
  natPreroutingChain : String
  natPostroutingChain : String
  natInstancePrefix : String
  deriving DecidableEq, Repr

/-- `sysconfig.NewConfig` -/
def SysConfig.new (tag : String) : SysConfig where
  networkInterfacePrefix := "w" ++ tag
  filterForwardChain := "w-" ++ tag ++ "-forward"
  filterDefaultChain := "w-" ++ tag ++ "-default"
  filterInstancePrefix := "w-" ++ tag ++ "-instance-"
  natPreroutingChain := "w-" ++ tag ++ "-prerouting"
  natPostroutingChain := "w-" ++ tag ++ "-postrouting"
  natInstancePrefix := "w-" ++ tag ++ "-instance-"

/-- `\w` of grep -/
def isWord (c : Char) : Bool := c.isAlphanum || c = '_'

/-- The tag of a daemon: word characters, so few that iptables takes the names of
    the chains with it. -/
def Tag := { tag : String // tag.length ≤ 5 ∧ tag.toList.all isWord = true }

/-- The ID of a container, with which its chains are named. -/
def InstanceID := { id : String // id.length = 11 ∧ id.toList.all isWord = true }
  deriving DecidableEq

/-- The ID of a container is one. -/
def InstanceID.ofNum (n : ℕ) : InstanceID :=
  ⟨LinuxContainerPool.containerID n, InterfaceNames.containerID_length n, by
    have key : InterfaceNames.digits.all isWord = true := by decide
    rw [List.all_eq_true] at key ⊢
    exact fun c hc => key c (InterfaceNames.mem_digits hc)⟩

/-- `grep` finds a name that starts with the text. -/
def grep (text name : String) : Bool := text.toList.isPrefixOf name.toList

/-- `\b` between two texts -/
def boundary (before after : List Char) : Bool :=
  before.getLast?.any isWord != after.head?.any isWord

/-- `grep` with the text and `\b` finds a name that starts with the text, up to
    the end of a word. -/
def grepWord (text name : String) : Bool :=
  grep text name && boundary text.toList (name.toList.drop text.toList.length)

/-! ## Packets and rules -/

/-- The name of an interface, or with a `+` all names that start like it. -/
inductive Iface where
  | named (name : String)
  | starting (text : String)
  deriving DecidableEq, Repr

def Iface.is (name : String) : Iface → Bool
  | .named n => name = n
  | .starting text => grep text name

structure Packet where
  inIface : String
  outIface : String
  source : IP
  destination : IP
  /-- the destination port, of a TCP packet -/
  dport : Option ℕ
  /-- of an established connection, or related to one -/
  established : Bool
  /-- whether it meets an option that the scripts do not use -/
  others : String → Bool

/-- The options of a rule; those that are not given hold of every packet. -/
structure Cond where
  inIface : Option Iface := none
  outIface : Option Iface := none
  source : Option IPNet := none
  destination : Option IPNet := none
  /-- `--protocol tcp --destination-port` -/
  dport : Option ℕ := none
  /-- `--ctstate ESTABLISHED,RELATED` -/
  established : Bool := false
  /-- options that the scripts do not use, of rules of the host's own -/
  others : List String := []
  deriving DecidableEq, Repr

def Packet.meets (p : Packet) (c : Cond) : Bool :=
  c.inIface.all (Iface.is p.inIface) && c.outIface.all (Iface.is p.outIface) &&
    c.source.all (IPNet.contains · p.source) &&
    c.destination.all (IPNet.contains · p.destination) &&
    c.dport.all (fun port => p.dport = some port) && (!c.established || p.established) &&
    c.others.all p.others

/-- What is done with packets in the filter table. -/
inductive Verdict where
  | accept
  | drop
  | other (target : String)
  deriving DecidableEq, Repr

/-- What is done with packets in the nat table. -/
inductive Translation where
  | dnat (ip : IP) (port : ℕ)
  | snat (ip : IP)
  | other (target : String)
  deriving DecidableEq, Repr

abbrev FilterRule := Rule String Cond Verdict
abbrev NatRule := Rule String Cond Translation

/-- A rule that jumps to a chain the text finds. -/
def jumpsTo {ν : Type} (find : String → Bool) (r : Rule String Cond ν) : Bool :=
  match r.target with
  | .jump c => find c
  | _ => false

/-- A rule that goes to a chain the text finds. -/
def goesTo {ν : Type} (find : String → Bool) (r : Rule String Cond ν) : Bool :=
  match r.target with
  | .goto c => find c
  | _ => false

/-! ## Words of the shell -/

/-- The characters of `IFS` -/
def isBlank (c : Char) : Bool := c = ' ' || c = '\t' || c = '\n'

/-- The characters that make a word a pattern. -/
def isPattern (c : Char) : Bool := c = '*' || c = '?' || c = '[' || c = '\\'

/-- A text without patterns: where it is not quoted, the shell only splits it. -/
def PlainText := { text : String // text.toList.all (fun c => !isPattern c) = true }

/-- The words of a text that is not quoted and has no patterns. -/
def words (text : String) : List String := (Words.words isBlank text.toList).map .ofList

/-- A text that the shell leaves as it is where it is not quoted: one word, and
    no pattern. -/
def oneWord (text : String) : Bool := text.toList.all fun c => !isBlank c && !isPattern c

/-! ## Configuration -/

/-- The name of an interface: at most 15 characters, and no `+` in it. -/
def IsIface (name : String) : Prop :=
  name ≠ "" ∧ name.length ≤ 15 ∧
    name.toList.all (fun c => isWord c || c = '-' || c = '.') = true

/-- What the scripts know of the host, which has a route to 8.8.8.8. -/
structure Host where
  tag : Tag
  /-- `external_ip` -/
  externalIP : IP
  externalIP_v4 : externalIP.length = 4
  /-- `default_interface`, empty without a default route -/
  defaultInterface : String
  defaultInterface_name : defaultInterface = "" ∨ IsIface defaultInterface
  /-- `ALLOW_NETWORKS` -/
  allowNetworks : PlainText
  /-- `DENY_NETWORKS` -/
  denyNetworks : PlainText
  /-- `POOL_NETWORK` -/
  poolNetwork : IPNet
  poolNetwork_v4 : poolNetwork.ip.length = 4 ∧ poolNetwork.ones ≤ 32

def Host.sys (h : Host) : SysConfig := .new h.tag.1

/-- What net.sh reads from etc/config. -/
structure EtcConfig where
  id : InstanceID
  networkHostIface : String
  networkHostIface_name : IsIface networkHostIface
  networkContainerIP : IP
  networkContainerIP_v4 : networkContainerIP.length = 4
  deriving DecidableEq

/-- `filter_instance_chain`, and `nat_instance_chain`, which has the same name -/
def instanceChain (h : Host) (id : InstanceID) : String := h.sys.filterInstancePrefix ++ id.1

/-! ## iptables -/

/-- The tables of the kernel. -/
structure Tables (σ τ : Type) where
  filter : σ
  nat : τ

/-- iptables, on the tables `filter` and `nat`, and how it reads its arguments. -/
structure Iptables (σ τ : Type) where
  filter : PacketFilter σ String Cond Verdict Packet
  nat : PacketFilter τ String Cond Translation Packet
  /-- any other command line -/
  other : List String → EStateM Netfilter.Error (Tables σ τ) Unit
  /-- the networks of a word after `--destination` -/
  readNet : String → Option (List IPNet)
  /-- the port of a word after `--destination-port` -/
  readPort : String → Option ℕ
  /-- the port of an address after `--to-destination` -/
  readToPort : String → Option ℕ

section
variable {σ τ : Type} (N : Iptables σ τ)

/-! ## Names differ -/

theorem grep_append (text rest : String) : grep text (text ++ rest) = true := by
  rw [grep, String.toList_append, List.isPrefixOf_iff_prefix]
  exact List.prefix_append _ _

theorem grep_append_left (a b c : String) : grep (a ++ b) (a ++ c) = grep b c := by
  rw [Bool.eq_iff_iff, grep, grep, List.isPrefixOf_iff_prefix, List.isPrefixOf_iff_prefix,
    String.toList_append, String.toList_append, List.prefix_append_right_inj]

theorem instanceChain_injective (h : Host) : Function.Injective (instanceChain h) := by
  intro i j hij
  exact Subtype.ext ((String.append_right_inj _).1 hij)

/-- The pattern of a container's chain finds it and no other one. -/
theorem grepWord_instanceChain (h : Host) (i j : InstanceID) :
    grepWord (instanceChain h i) (instanceChain h j) = true ↔ j = i := by
  have hlen : i.1.toList.length = j.1.toList.length := by
    rw [String.length_toList, String.length_toList, i.2.1, j.2.1]
  constructor
  · intro hg
    rw [grepWord, Bool.and_eq_true, instanceChain, instanceChain, grep_append_left, grep,
      List.isPrefixOf_iff_prefix] at hg
    exact Subtype.ext (String.toList_inj.1 (hg.1.eq_of_length hlen).symm)
  · rintro rfl
    -- the ID is not empty and ends in a character of a word
    have hne : j.1.toList ≠ [] := by
      intro h
      have := j.2.1
      rw [← String.length_toList, h] at this
      cases this
    have hlast : (instanceChain h j).toList.getLast?.any isWord = true := by
      rw [instanceChain, String.toList_append, List.getLast?_append,
        List.getLast?_eq_some_getLast hne]
      exact List.all_eq_true.1 j.2.2 _ (List.getLast_mem hne)
    rw [grepWord, List.drop_length, boundary, hlast]
    have hself : grep (instanceChain h j) (instanceChain h j) = true := by
      rw [grep, List.isPrefixOf_iff_prefix]
    rw [hself]
    rfl

theorem isInst_forward (h : Host) :
    grep h.sys.filterInstancePrefix h.sys.filterForwardChain = false := by
  rw [Host.sys, SysConfig.new, grep_append_left]
  decide

theorem isInst_default (h : Host) :
    grep h.sys.filterInstancePrefix h.sys.filterDefaultChain = false := by
  rw [Host.sys, SysConfig.new, grep_append_left]
  decide

theorem isInst_prerouting (h : Host) :
    grep h.sys.natInstancePrefix h.sys.natPreroutingChain = false := by
  rw [Host.sys, SysConfig.new, grep_append_left]
  decide

theorem forward_ne_default (h : Host) :
    h.sys.filterForwardChain ≠ h.sys.filterDefaultChain := by
  rw [Host.sys, SysConfig.new, Ne, String.append_right_inj]
  decide

/-! ## The chains of containers -/

/-- The forward chain. -/
def filterDispatch (h : Host) : Dispatch InstanceID EtcConfig String Cond Verdict where
  chain := h.sys.filterForwardChain
  key := EtcConfig.id
  inst := instanceChain h
  isInst := grep h.sys.filterInstancePrefix
  entry c := ⟨{ inIface := some (.named c.networkHostIface) }, .goto (instanceChain h c.id)⟩
  base := [⟨{}, .goto h.sys.filterDefaultChain⟩]
  place := some 1
  refers id := goesTo (grepWord (instanceChain h id))
  refersAny := goesTo (grep h.sys.filterInstancePrefix)
  inst_injective := instanceChain_injective h
  isInst_inst _ := grep_append _ _
  isInst_chain := isInst_forward h
  entry_target _ := rfl
  refers_entry i c := grepWord_instanceChain h i c.id
  base_target r hr c hc := by
    rw [List.mem_singleton] at hr
    subst hr
    cases hc
    exact isInst_default h

/-- The prerouting chain. -/
def natDispatch (h : Host) : Dispatch InstanceID EtcConfig String Cond Translation where
  chain := h.sys.natPreroutingChain
  key := EtcConfig.id
  inst := instanceChain h
  isInst := grep h.sys.natInstancePrefix
  entry c := ⟨{}, .jump (instanceChain h c.id)⟩
  base := []
  place := none
  refers id := jumpsTo (grepWord (instanceChain h id))
  refersAny := jumpsTo (grep h.sys.natInstancePrefix)
  inst_injective := instanceChain_injective h
  isInst_inst _ := grep_append _ _
  isInst_chain := isInst_prerouting h
  entry_target _ := rfl
  refers_entry i c := grepWord_instanceChain h i c.id
  base_target := List.forall_mem_nil _

/-! ## bin/net.sh -/

namespace Bin

/-- The rule of FORWARD for the packets from the containers. -/
def forwardRule (h : Host) : FilterRule :=
  ⟨{ inIface := some (.starting h.sys.networkInterfacePrefix) }, .jump h.sys.filterForwardChain⟩

/-- A rule of FORWARD that is the host's own. -/
def isOwn (h : Host) (r : FilterRule) : Bool :=
  !jumpsTo (grep "warden-dispatch") r && !jumpsTo (grep h.sys.filterForwardChain) r

/-- The rule of the forward chain for the packets to the containers. -/
def inboundRule (h : Host) : FilterRule :=
  ⟨{ inIface := some (.named h.defaultInterface) }, .verdict .accept⟩

/-- The rule of PREROUTING for the packets to the host. -/
def preroutingRule (h : Host) : NatRule := ⟨{}, .jump h.sys.natPreroutingChain⟩

/-- The rule of OUTPUT for the packets of the host to itself. -/
def outputRule (h : Host) : NatRule :=
  ⟨{ outIface := some (.named "lo") }, .jump h.sys.natPreroutingChain⟩

/-- The rule of POSTROUTING for the packets from the containers. -/
def postroutingRule (h : Host) : NatRule := ⟨{}, .jump h.sys.natPostroutingChain⟩

def snatRule (h : Host) : NatRule :=
  ⟨{ source := some h.poolNetwork }, .verdict (.snat h.externalIP)⟩

def isSNAT (r : NatRule) : Bool :=
  match r.target with
  | .verdict (.snat _) => true
  | _ => false

/-- `teardown_deprecated_rules` -/
def teardownDeprecatedRules : EStateM Netfilter.Error σ Unit := do
  N.filter.deleteRules "INPUT" (jumpsTo (grep "warden-dispatch"))
  N.filter.deleteRules "FORWARD" (jumpsTo (grep "warden-dispatch"))
  attempt (N.filter.flush "warden-dispatch")
  attempt (N.filter.deleteChain "warden-dispatch")

/-- `teardown_filter` -/
def teardownFilter (h : Host) : EStateM Netfilter.Error σ Unit := do
  teardownDeprecatedRules N
  (filterDispatch h).teardownAll N.filter
  N.filter.deleteRules "FORWARD" (jumpsTo (grep h.sys.filterForwardChain))
  attempt (N.filter.flush h.sys.filterForwardChain)
  attempt (N.filter.flush h.sys.filterDefaultChain)

/-- The rules of the default chain for the networks of a flag: iptables adds a
    rule for each network that a word names. -/
def networkRules (h : Host) (target : Target String Verdict) (networks : PlainText) :
    EStateM Netfilter.Error σ Unit :=
  each (fun n => match N.readNet n with
    | none => throw .argument
    | some nets => each (N.filter.append h.sys.filterDefaultChain)
        (nets.map fun net => ⟨{ destination := some net }, target⟩))
    (words networks.1)

/-- `setup_filter`; without a default interface `-i` takes the next word, and the
    rest of the last command cannot be read. -/
def setupFilter (h : Host) : EStateM Netfilter.Error σ Unit := do
  teardownFilter N h
  N.filter.newOrFlush h.sys.filterForwardChain
  N.filter.append h.sys.filterForwardChain ⟨{}, .verdict .drop⟩
  N.filter.newOrFlush h.sys.filterDefaultChain
  N.filter.append h.sys.filterDefaultChain ⟨{ established := true }, .verdict .accept⟩
  networkRules N h .ret h.allowNetworks
  networkRules N h (.verdict .drop) h.denyNetworks
  N.filter.append "FORWARD" (forwardRule h)
  if h.defaultInterface = "" then throw .argument
  else N.filter.insertAt h.sys.filterForwardChain 0 (inboundRule h)

/-- `teardown_nat` -/
def teardownNat (h : Host) : EStateM Netfilter.Error τ Unit := do
  (natDispatch h).teardownAll N.nat
  attempt (N.nat.flush h.sys.natPreroutingChain)
  attempt (N.nat.flush h.sys.natPostroutingChain)

/-- A rule appended to a chain unless `grep -q` finds one there. -/
def appendUnless (found : NatRule → Bool) (c : String) (r : NatRule) :
    EStateM Netfilter.Error τ Unit := do
  let t ← get
  if (N.nat.rules t c).any (List.any · found) then pure () else N.nat.append c r

/-- `setup_nat` -/
def setupNat (h : Host) : EStateM Netfilter.Error τ Unit := do
  teardownNat N h
  attempt (N.nat.newChain h.sys.natPreroutingChain)
  appendUnless N (jumpsTo (grepWord h.sys.natPreroutingChain)) "PREROUTING" (preroutingRule h)
  appendUnless N (jumpsTo (grepWord h.sys.natPreroutingChain)) "OUTPUT" (outputRule h)
  attempt (N.nat.newChain h.sys.natPostroutingChain)
  appendUnless N (jumpsTo (grepWord h.sys.natPostroutingChain)) "POSTROUTING" (postroutingRule h)
  appendUnless N isSNAT h.sys.natPostroutingChain (snatRule h)

end Bin

/-! ## skeleton/net.sh -/

/-- How a script fails. -/
inductive Exit where
  | iptables (e : Netfilter.Error)
  /-- "Please specify .." -/
  | specify (what : String)
  | unknownCommand (command : String)
  deriving DecidableEq, Repr

/-- Commands on the filter table. -/
def onFilter (x : EStateM Netfilter.Error σ Unit) : EStateM Exit (Tables σ τ) Unit := fun T =>
  match x T.filter with
  | .ok a t => .ok a { T with filter := t }
  | .error e t => .error (.iptables e) { T with filter := t }

/-- Commands on the nat table. -/
def onNat (x : EStateM Netfilter.Error τ Unit) : EStateM Exit (Tables σ τ) Unit := fun T =>
  match x T.nat with
  | .ok a t => .ok a { T with nat := t }
  | .error e t => .error (.iptables e) { T with nat := t }

/-- A command line of some other form. -/
def other (args : List String) : EStateM Exit (Tables σ τ) Unit := fun T =>
  match N.other args T with
  | .ok a T' => .ok a T'
  | .error e T' => .error (.iptables e) T'

/-- bin/net.sh setup -/
def daemonSetup (h : Host) : EStateM Exit (Tables σ τ) Unit := do
  onFilter (Bin.setupFilter N h)
  onNat (Bin.setupNat N h)

namespace Skeleton

/-- `teardown_filter` -/
def teardownFilter (h : Host) (c : EtcConfig) : EStateM Netfilter.Error σ Unit :=
  (filterDispatch h).teardown N.filter c.id

/-- `setup_filter` -/
def setupFilter (h : Host) (c : EtcConfig) : EStateM Netfilter.Error σ Unit :=
  (filterDispatch h).setup N.filter c

/-- `teardown_nat` -/
def teardownNat (h : Host) (c : EtcConfig) : EStateM Netfilter.Error τ Unit :=
  (natDispatch h).teardown N.nat c.id

/-- `setup_nat` -/
def setupNat (h : Host) (c : EtcConfig) : EStateM Netfilter.Error τ Unit :=
  (natDispatch h).setup N.nat c

/-- The value of a variable, empty if it is not set. -/
def getenv (name : String) (env : List String) : String :=
  match env.find? (grep (name ++ "=")) with
  | none => ""
  | some v => .ofList (v.toList.drop (name.length + 1))

/-- One address, as a network. -/
def hostNet (ip : IP) : IPNet := ⟨ip, 8 * ip.length⟩

/-- A port mapping. -/
def inRule (h : Host) (c : EtcConfig) (hostPort containerPort : ℕ) : NatRule :=
  ⟨{ destination := some (hostNet h.externalIP), dport := some hostPort },
    .verdict (.dnat c.networkContainerIP containerPort)⟩

/-- net.sh in -/
def netIn (h : Host) (c : EtcConfig) (env : List String) : EStateM Exit (Tables σ τ) Unit := do
  ensure (getenv "HOST_PORT" env ≠ "") (.specify "HOST_PORT")
  ensure (getenv "CONTAINER_PORT" env ≠ "") (.specify "CONTAINER_PORT")
  match N.readPort (getenv "HOST_PORT" env), N.readToPort (getenv "CONTAINER_PORT" env) with
  | some hostPort, some containerPort =>
    onNat (N.nat.append (instanceChain h c.id) (inRule h c hostPort containerPort))
  | _, _ => throw (.iptables .argument)

/-- The options of a permission, as the shell makes words of them. -/
def outOpts (network port : String) : List String :=
  (if network = "" then [] else "--destination" :: words network) ++
    if port = "" then [] else ["--protocol", "tcp", "--destination-port"] ++ words port

/-- The destinations of a permission whose network is one word, as iptables reads
    them. -/
def outDestinations (network : String) : Option (List (Option IPNet)) :=
  if network = "" then some [none] else (N.readNet network).map (List.map some)

/-- Its port. -/
def outPort (port : String) : Option (Option ℕ) :=
  if port = "" then some none else (N.readPort port).map some

/-- The options of the rules of a permission, one for each destination. -/
def outConds (network port : String) : Option (List Cond) :=
  match outDestinations N network, outPort N port with
  | some destinations, some dport =>
    some (destinations.map fun d => { destination := d, dport := dport })
  | _, _ => none

/-- net.sh out: iptables puts a rule in front for each destination.  The options
    are not quoted, so that a network of several words makes another command
    line. -/
def netOut (h : Host) (c : EtcConfig) (env : List String) : EStateM Exit (Tables σ τ) Unit := do
  ensure (getenv "NETWORK" env ≠ "" ∨ getenv "PORT" env ≠ "") (.specify "NETWORK and/or PORT")
  if oneWord (getenv "NETWORK" env) ∧ oneWord (getenv "PORT" env) then
    match outConds N (getenv "NETWORK" env) (getenv "PORT" env) with
    | none => throw (.iptables .argument)
    | some conds => onFilter (each (N.filter.insertAt (instanceChain h c.id) 0)
        (conds.map (⟨·, .ret⟩)))
  else
    other N (["-w", "-I", instanceChain h c.id, "1"] ++
      outOpts (getenv "NETWORK" env) (getenv "PORT" env) ++ ["--jump", "RETURN"])

/-- skeleton/net.sh, with the etc/config beside it. -/
def netSh (h : Host) (c : EtcConfig) (cmd : Cmd) : EStateM Exit (Tables σ τ) Unit :=
  match cmd.args with
  | "setup" :: _ => do
    onFilter (setupFilter N h c)
    onNat (setupNat N h c)
  | "teardown" :: _ => do
    onFilter (teardownFilter N h c)
    onNat (teardownNat N h c)
  | "in" :: _ => netIn N h c cmd.env
  | "out" :: _ => netOut N h c cmd.env
  | "get_ingress_info" :: _ => ensure (getenv "ID" cmd.env ≠ "") (.specify "container ID")
  | "get_egress_info" :: _ => ensure (getenv "ID" cmd.env ≠ "") (.specify "container ID")
  | command :: _ => throw (.unknownCommand command)
  | [] => throw (.unknownCommand "")

end Skeleton

end

/-! ## What the scripts rely on -/

/-- The names of chains that iptables takes of the scripts. -/
def IsName (c : String) : Prop :=
  grep "w-" c = true ∧ c.length ≤ 28 ∧ c.toList.all (fun c => isWord c || c = '-') = true

/-- The rules that the scripts write into the filter table. -/
inductive FilterWrites {σ τ : Type} (N : Iptables σ τ) (h : Host) : String → FilterRule → Prop
  | forward : FilterWrites N h "FORWARD" (Bin.forwardRule h)
  | inbound : IsIface h.defaultInterface →
      FilterWrites N h h.sys.filterForwardChain (Bin.inboundRule h)
  | drop : FilterWrites N h h.sys.filterForwardChain ⟨{}, .verdict .drop⟩
  | entry (c : EtcConfig) :
      FilterWrites N h h.sys.filterForwardChain ((filterDispatch h).entry c)
  | established :
      FilterWrites N h h.sys.filterDefaultChain ⟨{ established := true }, .verdict .accept⟩
  | network {w : String} {nets : List IPNet} {n : IPNet} {target : Target String Verdict} :
      N.readNet w = some nets → n ∈ nets → target = .ret ∨ target = .verdict .drop →
      FilterWrites N h h.sys.filterDefaultChain ⟨{ destination := some n }, target⟩
  | base (id : InstanceID) :
      FilterWrites N h (instanceChain h id) ⟨{}, .goto h.sys.filterDefaultChain⟩
  | permission (id : InstanceID) {network port : String} {conds : List Cond} {c : Cond} :
      Skeleton.outConds N network port = some conds → c ∈ conds →
      FilterWrites N h (instanceChain h id) ⟨c, .ret⟩

/-- The rules that the scripts write into the nat table. -/
inductive NatWrites (h : Host) : String → NatRule → Prop
  | prerouting : NatWrites h "PREROUTING" (Bin.preroutingRule h)
  | output : NatWrites h "OUTPUT" (Bin.outputRule h)
  | postrouting : NatWrites h "POSTROUTING" (Bin.postroutingRule h)
  | snat : NatWrites h h.sys.natPostroutingChain (Bin.snatRule h)
  | entry (c : EtcConfig) : NatWrites h h.sys.natPreroutingChain ((natDispatch h).entry c)
  | mapping (c : EtcConfig) {hostPort containerPort : ℕ} : hostPort < 65536 →
      0 < containerPort ∧ containerPort < 65536 →
      NatWrites h (instanceChain h c.id) (Skeleton.inRule h c hostPort containerPort)

/-- What the scripts rely on: the laws of both tables, options that mean what
    they say, names of chains of up to 28 characters, the rules that they write,
    words that name a network if any, and ports that are read from their
    decimal digits. -/
structure Iptables.Lawful {σ τ : Type} (N : Iptables σ τ) (h : Host) : Prop where
  filter : N.filter.Lawful
  nat : N.nat.Lawful
  filter_holds : N.filter.holds = Packet.meets
  nat_holds : N.nat.holds = Packet.meets
  filter_builtin : ∀ c, N.filter.Builtin c → c ∈ ["INPUT", "FORWARD", "OUTPUT"]
  nat_builtin : ∀ c, N.nat.Builtin c → c ∈ ["PREROUTING", "INPUT", "OUTPUT", "POSTROUTING"]
  filter_name : ∀ c, IsName c → N.filter.Name c
  nat_name : ∀ c, IsName c → N.nat.Name c
  filter_takes : ∀ c r, FilterWrites N h c r → N.filter.Takes c r
  nat_takes : ∀ c r, NatWrites h c r → N.nat.Takes c r
  readNet : ∀ w, N.readNet w ≠ some []
  readPort : ∀ n, N.readPort (toString n) = if n < 65536 then some n else none
  readToPort : ∀ n, N.readToPort (toString n) = if 0 < n ∧ n < 65536 then some n else none

/-! ## What the firewall is for -/

/-- A container that is set up, with what was mapped and permitted, the oldest
    first. -/
structure Site where
  config : EtcConfig
  netIns : List NetInSpec
  netOuts : List NetOutSpec
  deriving DecidableEq

/-- The networks the daemon was started with, and the containers that are set
    up, the newest first. -/
structure Policy where
  allow : List IPNet
  deny : List IPNet
  sites : List Site

section
variable {σ τ : Type} (N : Iptables σ τ)

namespace Policy

/-- The mapping of a container that a packet to a port of the host meets. -/
def mapping (h : Host) (p : Packet) (s : Site) : Option Translation :=
  (s.netIns.find? fun m => (Skeleton.hostNet h.externalIP).contains p.destination &&
    p.dport = some m.hostPort.toNat).map fun m =>
      .dnat s.config.networkContainerIP m.containerPort.toNat

/-- **Where a packet to the host goes**: to the container that was set up first
    among those that have its port mapped. -/
def inbound (h : Host) (P : Policy) (p : Packet) : Option Translation :=
  P.sites.reverse.findSome? (mapping h p)

end Policy

/-! ## Tables that enforce it -/

/-- A permission as iptables takes it. -/
def outSpecConds (o : NetOutSpec) : Option (List Cond) :=
  Skeleton.outConds N o.network (if o.port ≠ 0 then toString o.port.toNat else "")

/-- The network is one word, and iptables takes the permission. -/
def Permissible (o : NetOutSpec) : Prop :=
  (o.network ≠ "" ∨ o.port ≠ 0) ∧ oneWord o.network = true ∧ (outSpecConds N o).isSome

/-- iptables takes the mapping. -/
def Mappable (m : NetInSpec) : Prop :=
  m.hostPort.toNat < 65536 ∧ m.containerPort.toNat < 65536 ∧ m.containerPort ≠ 0

/-- The rules of a permission, the last one first. -/
def permitRules (o : NetOutSpec) : List FilterRule :=
  ((outSpecConds N o).getD []).reverse.map (⟨·, .ret⟩)

def Site.outRules (s : Site) : List FilterRule := s.netOuts.reverse.flatMap (permitRules N)

def Site.inRules (h : Host) (s : Site) : List NatRule :=
  s.netIns.map fun m => Skeleton.inRule h s.config m.hostPort.toNat m.containerPort.toNat

def dropRule : FilterRule := ⟨{}, .verdict .drop⟩

/-- The default chain. -/
def defaultRules (allow deny : List IPNet) : List FilterRule :=
  [⟨{ established := true }, .verdict .accept⟩] ++
    (allow.map fun n => ⟨{ destination := some n }, .ret⟩) ++
    deny.map fun n => ⟨{ destination := some n }, .verdict .drop⟩

/-- The host's own rules in the chains that the daemon adds a rule to. -/
structure OwnRules where
  forward : List FilterRule
  prerouting : List NatRule
  output : List NatRule

/-- A chain with the host's own rules and one rule of the daemon, the only one
    that `grep -q` finds there. -/
structure Bound (h : Host) (r : NatRule) (own rs : List NatRule) : Prop where
  rules : ∀ r' ∈ rs, r' = r ∨ r' ∈ own
  own : ∀ r' ∈ own, jumpsTo (grepWord h.sys.natPreroutingChain) r' = false

/-- The tables enforce the policy, beside the host's own rules. -/
structure Enforces (h : Host) (own : OwnRules) (P : Policy) (T : Tables σ τ) : Prop where
  filter : (filterDispatch h).Holds [Bin.inboundRule h] [dropRule]
    (P.sites.map fun s => (s.config, s.outRules N)) (N.filter.rules T.filter)
  default : N.filter.rules T.filter h.sys.filterDefaultChain = some (defaultRules P.allow P.deny)
  forward : N.filter.rules T.filter "FORWARD" = some (own.forward ++ [Bin.forwardRule h])
  isOwn : ∀ r ∈ own.forward, Bin.isOwn h r = true
  nat : (natDispatch h).Holds [] [] (P.sites.reverse.map fun s => (s.config, s.inRules h))
    (N.nat.rules T.nat)
  prerouting : ∃ rs, N.nat.rules T.nat "PREROUTING" = some rs ∧ Bin.preroutingRule h ∈ rs ∧
    Bound h (Bin.preroutingRule h) own.prerouting rs
  output : ∃ rs, N.nat.rules T.nat "OUTPUT" = some rs ∧ Bin.outputRule h ∈ rs ∧
    Bound h (Bin.outputRule h) own.output rs
  postrouting : (N.nat.rules T.nat "POSTROUTING").isSome
  permissible : ∀ s ∈ P.sites, ∀ o ∈ s.netOuts, Permissible N o

end

/-! ## Packets through the tables -/

section
variable {σ τ : Type} {N : Iptables σ τ} {h : Host} {own : OwnRules} {P : Policy} {T : Tables σ τ}
  {p : Packet}

theorem toString_ne_empty (n : ℕ) : toString n ≠ "" := fun hn => by
  have : (toString n).toList = [] := by rw [hn]; rfl
  rw [show (toString n).toList = Nat.toDigits 10 n from Nat.toList_repr] at this
  exact Nat.toDigits_ne_nil this

/-- A permission is at least one rule. -/
theorem outConds_ne_nil (hN : N.Lawful h) {network port : String} {cs : List Cond}
    (hcs : Skeleton.outConds N network port = some cs) : cs ≠ [] := by
  rw [Skeleton.outConds] at hcs
  split at hcs
  next ds q hd hq =>
    cases hcs
    rw [Ne, List.map_eq_nil_iff]
    rintro rfl
    rw [Skeleton.outDestinations] at hd
    split_ifs at hd
    · cases hd
    · obtain ⟨ns, hns, hnil⟩ := Option.map_eq_some_iff.1 hd
      rw [List.map_eq_nil_iff] at hnil
      exact hN.readNet network (hnil ▸ hns)
  next => cases hcs

theorem outRules_ret (N : Iptables σ τ) (s : Site) : ∀ r ∈ s.outRules N, r.target = .ret := by
  intro r hr
  obtain ⟨o, -, hr⟩ := List.mem_flatMap.1 hr
  obtain ⟨c, -, rfl⟩ := List.mem_map.1 hr
  rfl

end

end Firewall

end WardenLinux
