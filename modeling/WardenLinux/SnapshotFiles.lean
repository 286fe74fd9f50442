/-
  The files of snapshots as JSON (`Snapshot` of linux_container.go, snapshot.go,
  `MarshalJSON` and `UnmarshalJSON` of network.go, and `Restore` of container_pool.go).

  `json` is the value that Go encodes, with its fields in the order of the structures;
  a slice that is nil is null, and the members of a map are in the order of their keys.
  Properties are the entries of a map that was made: a nil map, which Go prints as null,
  is not told from an empty one.  Only the texts of IPv4 addresses are parsed.

  * `snapshot_round_trip`: a snapshot is read as it was written.
  * `restore_cut_off`: a file that was cut off between two of its characters is not
    restored.
-/
import WardenLinux.Backend
import WardenLinux.Lib.Json

namespace WardenLinux

open Json Fallible

namespace SnapshotFiles

/-! ## Encoding -/

def member (name : String) (v : Value) : List Char × Value := (name.toList, v)

def memoryLimits (l : MemoryLimits) : Value :=
  .obj [member "LimitInBytes" (number l.limitInBytes.toNat)]

def cpuLimits (l : CPULimits) : Value :=
  .obj [member "LimitInShares" (number l.limitInShares.toNat)]

def bandwidthLimits (l : BandwidthLimits) : Value :=
  .obj [member "RateInBytesPerSecond" (number l.rateInBytesPerSecond.toNat),
    member "BurstRateInBytesPerSecond" (number l.burstRateInBytesPerSecond.toNat)]

def diskLimits (l : DiskLimits) : Value :=
  .obj [member "BlockSoft" (number l.blockSoft.toNat), member "BlockHard" (number l.blockHard.toNat),
    member "InodeSoft" (number l.inodeSoft.toNat), member "InodeHard" (number l.inodeHard.toNat),
    member "ByteSoft" (number l.byteSoft.toNat), member "ByteHard" (number l.byteHard.toNat)]

def limits (l : LimitsSnapshot) : Value :=
  .obj [member "Memory" (pointer memoryLimits l.memory), member "Disk" (pointer diskLimits l.disk),
    member "Bandwidth" (pointer bandwidthLimits l.bandwidth), member "CPU" (pointer cpuLimits l.cpu)]

/-- The text of `IPNet.String`. -/
def cidr (n : Network) : String :=
  if n.string.1 = [] then "<nil>" else n.string.1.string ++ "/" ++ toString n.string.2

/-- `MarshalText` of an address -/
def marshalText (ip : IP) : String := if ip = [] then "" else ip.string

/-- `MarshalJSON` -/
def marshalJSON (n : Network) : Value :=
  .obj [member "ContainerIP" (text (marshalText n.containerIP)),
    member "HostIP" (text (marshalText n.hostIP)), member "IPNet" (text (cidr n))]

def resources (r : Resources) : Value :=
  .obj [member "UID" (number r.uid.toNat), member "Network" (marshalJSON r.network),
    member "Ports" (.arr (r.ports.map fun p => number p.toNat))]

def processSnapshot (p : ProcessSnapshot) : Value :=
  .obj [member "ID" (number p.id.toNat), member "TTY" (.bool p.tty)]

def netInSpec (s : NetInSpec) : Value :=
  .obj [member "HostPort" (number s.hostPort.toNat), member "ContainerPort" (number s.containerPort.toNat)]

def netOutSpec (s : NetOutSpec) : Value :=
  .obj [member "Network" (text s.network), member "Port" (number s.port.toNat)]

/-- The entries of a map in the order of the keys. -/
def sorted (ps : Properties) : Properties := ps.insertionSort fun a b => a.1 ≤ b.1

/-- A map that was made; without entries it is an empty object. -/
def properties (ps : Properties) : Value :=
  .obj ((sorted ps).map fun p => member p.1 (text p.2))

def json (s : ContainerSnapshot) : Value :=
  .obj [member "ID" (text s.id), member "Handle" (text s.handle), member "GraceTime" (integer s.graceTime),
    member "State" (text s.state), member "Events" (.arr (s.events.map text)),
    member "Limits" (limits s.limits), member "Resources" (resources s.resources),
    member "Processes" (.arr (s.processes.map processSnapshot)),
    member "NetIns" (slice netInSpec s.netIns), member "NetOuts" (slice netOutSpec s.netOuts),
    member "Properties" (properties s.properties)]

/-- `json.NewEncoder(out).Encode(snapshot)` -/
def encode (s : ContainerSnapshot) : String := String.ofList (print (json s) ++ ['\n'])

/-! ## Decoding -/

/-- One number of a dotted address. -/
def octet (s : List Char) : Option (UInt8 × List Char) :=
  (Decimal.scan s).bind fun p => if p.1 ≤ 255 then some (p.1.toUInt8, p.2) else none

def dot : List Char → Option (List Char)
  | '.' :: s => some s
  | _ => none

/-- `net.ParseIP` of a dotted address -/
def parseIP (s : List Char) : Option IP := do
  let (a, s) ← octet s
  let (b, s) ← octet (← dot s)
  let (c, s) ← octet (← dot s)
  let (d, s) ← octet (← dot s)
  if s = [] then some (v4InV6Prefix ++ [a, b, c, d]) else none

/-- `net.ParseCIDR` of a dotted address and a length -/
def parseCIDRText (s : List Char) : Option IPNet := do
  let ip ← parseIP (s.takeWhile (· ≠ '/'))
  let n ← match s.dropWhile (· ≠ '/') with
    | _ :: mask => Decimal.parse 24 mask
    | [] => none
  if n ≤ 32 then some (parseCIDR ip n) else none

/-- An address, by its `UnmarshalText`. -/
def decodeIP : Value → IP → Option IP
  | .str s, _ => if s = [] then some [] else parseIP s
  | .null, _ => some []
  | _, _ => none

def memoryFields : List (Json.Field MemoryLimits) :=
  [⟨"LimitInBytes", fun v l => (decodeUint64 v l.limitInBytes).map fun n => { l with limitInBytes := n }⟩]

def cpuFields : List (Json.Field CPULimits) :=
  [⟨"LimitInShares", fun v l => (decodeUint64 v l.limitInShares).map fun n => { l with limitInShares := n }⟩]

def bandwidthFields : List (Json.Field BandwidthLimits) :=
  [⟨"RateInBytesPerSecond", fun v l =>
      (decodeUint64 v l.rateInBytesPerSecond).map fun n => { l with rateInBytesPerSecond := n }⟩,
    ⟨"BurstRateInBytesPerSecond", fun v l =>
      (decodeUint64 v l.burstRateInBytesPerSecond).map fun n => { l with burstRateInBytesPerSecond := n }⟩]

def diskFields : List (Json.Field DiskLimits) :=
  [⟨"BlockSoft", fun v l => (decodeUint64 v l.blockSoft).map fun n => { l with blockSoft := n }⟩,
    ⟨"BlockHard", fun v l => (decodeUint64 v l.blockHard).map fun n => { l with blockHard := n }⟩,
    ⟨"InodeSoft", fun v l => (decodeUint64 v l.inodeSoft).map fun n => { l with inodeSoft := n }⟩,
    ⟨"InodeHard", fun v l => (decodeUint64 v l.inodeHard).map fun n => { l with inodeHard := n }⟩,
    ⟨"ByteSoft", fun v l => (decodeUint64 v l.byteSoft).map fun n => { l with byteSoft := n }⟩,
    ⟨"ByteHard", fun v l => (decodeUint64 v l.byteHard).map fun n => { l with byteHard := n }⟩]

def limitsFields : List (Json.Field LimitsSnapshot) :=
  [⟨"Memory", fun v l =>
      (decodePointer (decodeStruct memoryFields) ⟨0⟩ v l.memory).map fun m => { l with memory := m }⟩,
    ⟨"Disk", fun v l =>
      (decodePointer (decodeStruct diskFields) ⟨0, 0, 0, 0, 0, 0⟩ v l.disk).map fun d => { l with disk := d }⟩,
    ⟨"Bandwidth", fun v l =>
      (decodePointer (decodeStruct bandwidthFields) ⟨0, 0⟩ v l.bandwidth).map fun b => { l with bandwidth := b }⟩,
    ⟨"CPU", fun v l => (decodePointer (decodeStruct cpuFields) ⟨0⟩ v l.cpu).map fun c => { l with cpu := c }⟩]

/-- The structure that `UnmarshalJSON` decodes into first. -/
structure Addresses where
  ipNet : String
  hostIP : IP
  containerIP : IP

def addressFields : List (Json.Field Addresses) :=
  [⟨"ContainerIP", fun v a => (decodeIP v a.containerIP).map fun ip => { a with containerIP := ip }⟩,
    ⟨"HostIP", fun v a => (decodeIP v a.hostIP).map fun ip => { a with hostIP := ip }⟩,
    ⟨"IPNet", fun v a => (decodeText v a.ipNet).map fun t => { a with ipNet := t }⟩]

/-- A nil network. -/
def noNetwork : Network := ⟨⟨[], 0⟩, [], []⟩

/-- `UnmarshalJSON` -/
def unmarshalJSON : Value → Network → Option Network
  | .null, _ => some noNetwork
  | v, _ => (decodeStruct addressFields v ⟨"", [], []⟩).bind fun a =>
      (parseCIDRText a.ipNet.toList).map fun n => ⟨n, a.hostIP, a.containerIP⟩

def resourcesFields : List (Json.Field Resources) :=
  [⟨"UID", fun v r => (decodeUint32 v r.uid).map fun n => { r with uid := n }⟩,
    ⟨"Network", fun v r => (unmarshalJSON v r.network).map fun n => { r with network := n }⟩,
    ⟨"Ports", fun v r => (decodeSlice decodeUint32 0 v r.ports).map fun ps => { r with ports := ps }⟩]

def processFields : List (Json.Field ProcessSnapshot) :=
  [⟨"ID", fun v p => (decodeUint32 v p.id).map fun n => { p with id := n }⟩,
    ⟨"TTY", fun v p => (decodeBool v p.tty).map fun b => { p with tty := b }⟩]

def netInFields : List (Json.Field NetInSpec) :=
  [⟨"HostPort", fun v s => (decodeUint32 v s.hostPort).map fun n => { s with hostPort := n }⟩,
    ⟨"ContainerPort", fun v s => (decodeUint32 v s.containerPort).map fun n => { s with containerPort := n }⟩]

def netOutFields : List (Json.Field NetOutSpec) :=
  [⟨"Network", fun v s => (decodeText v s.network).map fun t => { s with network := t }⟩,
    ⟨"Port", fun v s => (decodeUint32 v s.port).map fun n => { s with port := n }⟩]

/-- An entry of a map, in the place of the one with its key if there is one. -/
def insert (ps : Properties) (k v : String) : Properties :=
  if ps.any (·.1 = k) then ps.map fun p => if p.1 = k then (k, v) else p else ps ++ [(k, v)]

def decodeProperties : Value → Properties → Option Properties
  | .obj ms, ps => ms.foldlM (fun ps m =>
      (decodeText m.2 "").map fun v => insert ps (String.ofList m.1) v) ps
  | .null, _ => some []
  | _, _ => none

def snapshotFields : List (Json.Field ContainerSnapshot) :=
  [⟨"ID", fun v s => (decodeText v s.id).map fun t => { s with id := t }⟩,
    ⟨"Handle", fun v s => (decodeText v s.handle).map fun t => { s with handle := t }⟩,
    ⟨"GraceTime", fun v s => (decodeInt64 v s.graceTime).map fun n => { s with graceTime := n }⟩,
    ⟨"State", fun v s => (decodeText v s.state).map fun t => { s with state := t }⟩,
    ⟨"Events", fun v s => (decodeSlice decodeText "" v s.events).map fun es => { s with events := es }⟩,
    ⟨"Limits", fun v s => (decodeStruct limitsFields v s.limits).map fun l => { s with limits := l }⟩,
    ⟨"Resources", fun v s =>
      (decodeStruct resourcesFields v s.resources).map fun r => { s with resources := r }⟩,
    ⟨"Processes", fun v s => (decodeSlice (decodeStruct processFields) ⟨0, false⟩ v s.processes).map
      fun ps => { s with processes := ps }⟩,
    ⟨"NetIns", fun v s => (decodeSlice (decodeStruct netInFields) ⟨0, 0⟩ v s.netIns).map
      fun ns => { s with netIns := ns }⟩,
    ⟨"NetOuts", fun v s => (decodeSlice (decodeStruct netOutFields) ⟨"", 0⟩ v s.netOuts).map
      fun ns => { s with netOuts := ns }⟩,
    ⟨"Properties", fun v s => (decodeProperties v s.properties).map fun ps => { s with properties := ps }⟩]

/-- The zero value of a snapshot. -/
def zero : ContainerSnapshot where
  id := ""
  handle := ""
  graceTime := 0
  state := ""
  events := []
  limits := ⟨none, none, none, none⟩
  resources := ⟨0, noNetwork, []⟩
  processes := []
  netIns := []
  netOuts := []
  properties := []

/-- `json.NewDecoder(snapshot).Decode(&containerSnapshot)` -/
def decode (t : String) : Except Err ContainerSnapshot :=
  match (read t.toList).bind fun p => decodeStruct snapshotFields p.1 zero with
  | some s => .ok s
  | none => .error (.external "json")

/-! ## Structures -/

theorem decode_memoryLimits (l old : MemoryLimits) :
    decodeStruct memoryFields (memoryLimits l) old = some l :=
  (decodeStruct_members (by decide) [number _] old).trans (by simp [memoryFields])

theorem decode_cpuLimits (l old : CPULimits) : decodeStruct cpuFields (cpuLimits l) old = some l :=
  (decodeStruct_members (by decide) [number _] old).trans (by simp [cpuFields])

theorem decode_bandwidthLimits (l old : BandwidthLimits) :
    decodeStruct bandwidthFields (bandwidthLimits l) old = some l :=
  (decodeStruct_members (by decide) [number _, number _] old).trans (by simp [bandwidthFields])

theorem decode_diskLimits (l old : DiskLimits) : decodeStruct diskFields (diskLimits l) old = some l :=
  (decodeStruct_members (by decide) [number _, number _, number _, number _, number _, number _]
    old).trans (by simp [diskFields])

theorem decode_processSnapshot (p old : ProcessSnapshot) :
    decodeStruct processFields (processSnapshot p) old = some p :=
  (decodeStruct_members (by decide) [number _, .bool _] old).trans (by simp [processFields, decodeBool])

theorem decode_netInSpec (s old : NetInSpec) : decodeStruct netInFields (netInSpec s) old = some s :=
  (decodeStruct_members (by decide) [number _, number _] old).trans (by simp [netInFields])

theorem decode_netOutSpec (s old : NetOutSpec) : decodeStruct netOutFields (netOutSpec s) old = some s :=
  (decodeStruct_members (by decide) [text _, number _] old).trans (by simp [netOutFields])

theorem decode_limits (l old : LimitsSnapshot) : decodeStruct limitsFields (limits l) old = some l := by
  refine (decodeStruct_members (by decide) [pointer memoryLimits _, pointer diskLimits _,
    pointer bandwidthLimits _, pointer cpuLimits _] old).trans ?_
  simp [limitsFields, decodePointer_pointer decode_memoryLimits fun _ => Value.noConfusion,
    decodePointer_pointer decode_diskLimits fun _ => Value.noConfusion,
    decodePointer_pointer decode_bandwidthLimits fun _ => Value.noConfusion,
    decodePointer_pointer decode_cpuLimits fun _ => Value.noConfusion]

/-! ## Addresses -/

/-- A network as a pool makes it and `UnmarshalJSON` reads it: that of an IPv4 address
    in 4 bytes, with its addresses in 16. -/
structure Written (n : Network) : Prop where
  length : n.ipNet.ip.length = 4
  ones : n.ipNet.ones ≤ 32
  masked : IP.mask n.ipNet.ones n.ipNet.ip = n.ipNet.ip
  hostIP : ∃ v4 : IP, v4.length = 4 ∧ n.hostIP = v4InV6Prefix ++ v4
  containerIP : ∃ v4 : IP, v4.length = 4 ∧ n.containerIP = v4InV6Prefix ++ v4

theorem octet_digits (b : UInt8) {rest : List Char} (hrest : ∀ c ∈ rest.head?, c.isDigit = false) :
    octet (Nat.toDigits 10 b.toNat ++ rest) = some (b, rest) := by
  have hb : b.toNat ≤ 255 := Nat.le_of_lt_succ b.toNat_lt
  rw [octet, Decimal.scan_digits hrest, Option.bind_some, if_pos hb]
  simp

/-- The text of an IPv4 address. -/
def dotted (a b c d : UInt8) : List Char :=
  Nat.toDigits 10 a.toNat ++ '.' :: (Nat.toDigits 10 b.toNat ++ '.' :: (Nat.toDigits 10 c.toNat ++
    '.' :: Nat.toDigits 10 d.toNat))

theorem parseIP_dotted (a b c d : UInt8) :
    parseIP (dotted a b c d) = some (v4InV6Prefix ++ [a, b, c, d]) := by
  have hdot : ∀ (s : List Char), ∀ x ∈ ('.' :: s).head?, x.isDigit = false := by
    rintro s x ⟨⟩
    rfl
  have hd : octet (Nat.toDigits 10 d.toNat) = some (d, []) := by
    have h := @octet_digits d [] fun x hx => by cases hx
    rwa [List.append_nil] at h
  simp [parseIP, dotted, octet_digits _ (hdot _), dot, hd]

theorem not_slash_of_mem_dotted {a b c d : UInt8} {x : Char} (h : x ∈ dotted a b c d) : x ≠ '/' := by
  have hdigit : ∀ (u : UInt8), x ∈ Nat.toDigits 10 u.toNat → x ≠ '/' := by
    rintro u hx rfl
    exact absurd (Decimal.isDigit_of_mem hx) (by decide)
  simp only [dotted, List.mem_append, List.mem_cons] at h
  rcases h with h | rfl | h | rfl | h | rfl | h
  · exact hdigit a h
  · decide
  · exact hdigit b h
  · decide
  · exact hdigit c h
  · decide
  · exact hdigit d h

theorem string_v4 {ip : IP} {a b c d : UInt8} (h : ip.to4 = some [a, b, c, d]) :
    ip.string.toList = dotted a b c d := by
  simp [IP.string, h, dotted, String.intercalate_cons_cons, String.intercalate_singleton]

theorem exists_bytes {v4 : IP} (h : v4.length = 4) : ∃ a b c d, v4 = [a, b, c, d] := by
  match v4, h with
  | [a, b, c, d], _ => exact ⟨a, b, c, d, rfl⟩

theorem dotted_ne_nil (a b c d : UInt8) : dotted a b c d ≠ [] := by simp [dotted]

/-- An address in 16 bytes is read as it was. -/
theorem decodeIP_marshalText {ip : IP} (h : ∃ v4 : IP, v4.length = 4 ∧ ip = v4InV6Prefix ++ v4)
    (old : IP) : decodeIP (text (marshalText ip)) old = some ip := by
  obtain ⟨v4, hl, rfl⟩ := h
  have hto4 : IP.to4 (v4InV6Prefix ++ v4) = some v4 := by rw [to4_append hl _ rfl, if_pos rfl]
  obtain ⟨a, b, c, d, rfl⟩ := exists_bytes hl
  rw [marshalText, if_neg (by simp [v4InV6Prefix]), text, string_v4 hto4, decodeIP,
    if_neg (dotted_ne_nil a b c d), parseIP_dotted]

/-- A network is read from its text. -/
theorem parseCIDRText_cidr {n : Network} (h : Written n) : parseCIDRText (cidr n).toList = some n.ipNet := by
  have hto4 := to4_of_length h.length
  have hstring : n.string = (n.ipNet.ip, n.ipNet.ones) := by
    rw [Network.string, IPNet.string, IPNet.numberAndMask, hto4]
    simp [h.length]
  obtain ⟨a, b, c, d, hip⟩ := exists_bytes h.length
  have htext : (cidr n).toList = dotted a b c d ++ '/' :: Nat.toDigits 10 n.ipNet.ones := by
    rw [cidr, hstring, if_neg (by simp [hip]), String.toList_append, String.toList_append,
      string_v4 (hto4.trans (congrArg some hip))]
    simp
  have hall : ∀ x ∈ dotted a b c d, (decide (x ≠ '/')) = true := fun x hx =>
    decide_eq_true (not_slash_of_mem_dotted hx)
  have hslash : ∀ x ∈ ('/' :: Nat.toDigits 10 n.ipNet.ones).head?, (decide (x ≠ '/')) = false := by
    rintro x ⟨⟩
    rfl
  have hones : Decimal.parse 24 (Nat.toDigits 10 n.ipNet.ones) = some n.ipNet.ones :=
    Decimal.parse_digits (h.ones.trans_lt (by decide))
  have hcidr : parseCIDR (v4InV6Prefix ++ [a, b, c, d]) n.ipNet.ones = n.ipNet := by
    rw [parseCIDR, to4_append rfl _ rfl, if_pos rfl, Option.getD_some, ← hip, h.masked]
  rw [parseCIDRText, htext, Words.takeWhile_run hall hslash, Words.dropWhile_run hall hslash,
    parseIP_dotted]
  simp [hones, h.ones, hcidr]

theorem unmarshalJSON_marshalJSON {n : Network} (h : Written n) (old : Network) :
    unmarshalJSON (marshalJSON n) old = some n := by
  have haddr : decodeStruct addressFields (marshalJSON n) ⟨"", [], []⟩ =
      some ⟨cidr n, n.hostIP, n.containerIP⟩ := by
    refine (decodeStruct_members (by decide) [text _, text _, text _] _).trans ?_
    simp [addressFields, decodeIP_marshalText h.hostIP, decodeIP_marshalText h.containerIP]
  have hparse := parseCIDRText_cidr h
  rw [marshalJSON, unmarshalJSON, ← marshalJSON, haddr, Option.bind_some, hparse]
  · rfl
  · exact Value.noConfusion

/-- The networks of the pools. -/
theorem written_new {n : IPNet} (hl : n.ip.length = 4) (hones : n.ones = 30) (h4 : n.ip.val % 4 = 0) :
    Written (Network.new n) := by
  have hlt := val_lt n.ip
  rw [hl] at hlt
  have hnext : ∀ {ip w : IP}, ip.to4 = some w → w.length = 4 → w.val + 1 < 2 ^ 32 →
      (Network.nextIP ip).to4 = some (v4 (w.val + 1)) ∧
        ∃ v4 : IP, v4.length = 4 ∧ Network.nextIP ip = v4InV6Prefix ++ v4 := by
    intro ip w hw hwl hwlt
    have hto4 := to4_nextIP hw hwl hwlt
    have h16 : (Network.nextIP ip).length = 16 := by
      rw [Network.nextIP, inc_length, IP.reparse, hw]
      simp [v4InV6Prefix, hwl]
    have htake : (Network.nextIP ip).take 12 = v4InV6Prefix := by
      by_contra hne
      rw [IP.to4, if_neg (by omega), if_neg fun h => hne h.2] at hto4
      cases hto4
    refine ⟨hto4, (Network.nextIP ip).drop 12, by simp [h16], ?_⟩
    rw [← htake, List.take_append_drop]
  obtain ⟨hhost, hhost'⟩ := hnext (to4_of_length hl) hl (by omega)
  obtain ⟨-, hcontainer⟩ := hnext hhost (v4_length _) (by rw [val_v4 (by omega)]; omega)
  refine ⟨hl, hones.trans_le (by decide), ?_, hhost', hcontainer⟩
  show IP.mask n.ones n.ip = n.ip
  rw [hones, mask_eq_self_iff (by omega), hl]
  exact Nat.dvd_of_mod_eq_zero h4

/-! ## Snapshots -/

theorem decode_resources {r : Resources} (h : Written r.network) (old : Resources) :
    decodeStruct resourcesFields (resources r) old = some r := by
  refine (decodeStruct_members (by decide) [number _, marshalJSON _, .arr _] old).trans ?_
  simp [resourcesFields, unmarshalJSON_marshalJSON h,
    decodeSlice_map fun p : UInt32 => decodeUint32_number p 0]

theorem insert_new {ps : Properties} {k v : String} (h : k ∉ ps.map Prod.fst) :
    insert ps k v = ps ++ [(k, v)] := by
  rw [insert, if_neg]
  intro hany
  obtain ⟨p, hp, hk⟩ := List.any_eq_true.1 hany
  exact h (of_decide_eq_true hk ▸ List.mem_map_of_mem hp)

/-- The entries of a map come one after the other. -/
theorem decode_entries : ∀ (l ps : Properties), ((ps ++ l).map Prod.fst).Nodup →
    decodeProperties (.obj (l.map fun p => member p.1 (text p.2))) ps = some (ps ++ l) := by
  intro l
  induction l with
  | nil => intro ps _; simp [decodeProperties]
  | cons p l ih =>
    intro ps hnd
    have hsplit : ps ++ p :: l = (ps ++ [p]) ++ l := by simp
    have hnew : p.1 ∉ ps.map Prod.fst := by
      rw [List.map_append, List.map_cons, List.nodup_append] at hnd
      exact fun hp => hnd.2.2 _ hp _ List.mem_cons_self rfl
    have ih' := ih (ps ++ [p]) (hsplit ▸ hnd)
    rw [decodeProperties] at ih' ⊢
    rw [List.map_cons, List.foldlM_cons, hsplit, ← ih']
    simp [member, insert_new hnew]

theorem decode_properties {ps : Properties} (h : (ps.map Prod.fst).Nodup) :
    decodeProperties (properties ps) [] = some (sorted ps) := by
  have hperm : (sorted ps).Perm ps := List.perm_insertionSort _ ps
  exact decode_entries (sorted ps) [] ((hperm.map Prod.fst).nodup_iff.2 h)

/-- What a snapshot is read as: the same, with the entries of the map in the order of
    the keys. -/
def reread (s : ContainerSnapshot) : ContainerSnapshot := { s with properties := sorted s.properties }

/-- A snapshot whose values are of their types, with an IPv4 network. -/
structure WellTyped (s : ContainerSnapshot) : Prop where
  graceTime : -2 ^ 63 ≤ s.graceTime ∧ s.graceTime < 2 ^ 63
  network : Written s.resources.network
  properties : (s.properties.map Prod.fst).Nodup

theorem decode_json {s : ContainerSnapshot} (h : WellTyped s) :
    decodeStruct snapshotFields (json s) zero = some (reread s) := by
  refine (decodeStruct_members (by decide) [text _, text _, integer _, text _, .arr _, limits _,
    resources _, .arr _, slice _ _, slice _ _, properties _] zero).trans ?_
  simp [snapshotFields, decodeInt64_integer h.graceTime.1 h.graceTime.2,
    decodeSlice_map fun e => decodeText_text e "", decode_limits, decode_resources h.network,
    decodeSlice_map fun p => decode_processSnapshot p ⟨0, false⟩,
    decodeSlice_slice fun n => decode_netInSpec n ⟨0, 0⟩,
    decodeSlice_slice fun n => decode_netOutSpec n ⟨"", 0⟩,
    decode_properties h.properties, reread, zero]

theorem valid_json (s : ContainerSnapshot) : Valid (json s) := by
  have hmemory : ∀ l, Valid (memoryLimits l) := fun l => by
    simp [memoryLimits, Valid, ValidFields, member]
  have hdisk : ∀ l, Valid (diskLimits l) := fun l => by simp [diskLimits, Valid, ValidFields, member]
  have hbandwidth : ∀ l, Valid (bandwidthLimits l) := fun l => by
    simp [bandwidthLimits, Valid, ValidFields, member]
  have hcpu : ∀ l, Valid (cpuLimits l) := fun l => by simp [cpuLimits, Valid, ValidFields, member]
  have hlimits : Valid (limits s.limits) := by
    simp [limits, Valid, ValidFields, member, valid_pointer hmemory, valid_pointer hdisk,
      valid_pointer hbandwidth, valid_pointer hcpu]
  have hresources : Valid (resources s.resources) := by
    simp [resources, marshalJSON, Valid, ValidFields, member,
      validItems_map fun p : UInt32 => valid_number p.toNat]
  have hprocesses : ValidItems (s.processes.map processSnapshot) :=
    validItems_map (fun p => by simp [processSnapshot, Valid, ValidFields, member]) _
  have hnetIns : Valid (slice netInSpec s.netIns) :=
    valid_slice (fun n => by simp [netInSpec, Valid, ValidFields, member]) _
  have hnetOuts : Valid (slice netOutSpec s.netOuts) :=
    valid_slice (fun n => by simp [netOutSpec, Valid, ValidFields, member]) _
  have hproperties : Valid (properties s.properties) := validFields_map (fun p => valid_text p.2) _
  simp only [json, Valid, ValidFields, member, valid_text, valid_integer, hlimits, hresources, hprocesses,
    hnetIns, hnetOuts, hproperties, validItems_map valid_text, and_self]

theorem toList_encode (s : ContainerSnapshot) : (encode s).toList = print (json s) ++ ['\n'] :=
  String.toList_ofList

theorem read_encode (s : ContainerSnapshot) : read (encode s).toList = some (json s, ['\n']) := by
  rw [toList_encode]
  refine read_print (valid_json s) ?_
  rintro c ⟨⟩
  rfl

/-- **A snapshot is read as it was written.** -/
theorem snapshot_round_trip (s : ContainerSnapshot) (h : WellTyped s) :
    decode (encode s) = .ok (reread s) := by
  rw [decode, read_encode, Option.bind_some, decode_json h]

/-- A snapshot with limits, a port, a mapping and two properties. -/
def webFile : ContainerSnapshot where
  id := "some-id"
  handle := "web"
  graceTime := 300000000000
  state := "active"
  events := ["out of \"memory\""]
  limits := ⟨some ⟨1024⟩, none, none, some ⟨2⟩⟩
  resources := ⟨10000, Network.new ⟨[10, 254, 0, 0], 30⟩, [61001]⟩
  processes := [⟨1, true⟩]
  netIns := [⟨61001, 8080⟩]
  netOuts := []
  properties := [("owner", "me"), ("color", "red")]

theorem snapshot_round_trip_web : WellTyped webFile ∧
    decode (encode webFile) = .ok { webFile with properties := [("color", "red"), ("owner", "me")] } := by
  have h : WellTyped webFile :=
    ⟨by decide, written_new (by decide) rfl (by decide), by decide⟩
  have hsorted : sorted webFile.properties = [("color", "red"), ("owner", "me")] := by decide
  refine ⟨h, (snapshot_round_trip webFile h).trans ?_⟩
  rw [reread, hsorted]

/-! ## Files that are cut off -/

theorem decode_cut_off {s : ContainerSnapshot} {p q : List Char} (h : p ++ q = print (json s))
    (hq : q ≠ []) : decode (String.ofList p) = .error (.external "json") := by
  have hnone : ((read p).bind fun r => decodeStruct snapshotFields r.1 zero) = none := by
    cases hread : read p with
    | none => rfl
    | some r =>
      obtain ⟨v, rest⟩ := r
      have hnum : v.isNum = true := by
        by_contra hnum
        exact read_of_isPrefix (valid_json s) h hq v rest (Bool.eq_false_iff.2 hnum) hread
      -- a number is no structure
      cases v with
      | num lit => rfl
      | _ => cases hnum
  rw [decode, String.toList_ofList, hnone]

/-- The daemon whose snapshots are JSON. -/
def inJSON (cfg : Config) : Config := { cfg with encode := encode, decode := decode }

theorem inJSON_encode (cfg : Config) : (inJSON cfg).encode = encode := rfl

theorem inJSON_decode (cfg : Config) : (inJSON cfg).decode = decode := rfl

/-- **A file that is cut off between two characters is not restored**: when more than the
    end of its line is missing, nothing is taken from the pools and no container is registered. -/
theorem restore_cut_off (cfg : Config) (o : Oracle) (s : ContainerSnapshot) (p q : List Char)
    (h : p ++ q = (encode s).toList) (hq : 2 ≤ q.length) (b : LinuxBackend) :
    LinuxBackend.restore (inJSON cfg) o (String.ofList p) b = .error (.external "json") b := by
  have hne : q ≠ [] := List.ne_nil_of_length_pos (by omega)
  have hsplit : p ++ q.dropLast ++ [q.getLast hne] = print (json s) ++ ['\n'] := by
    rw [List.append_assoc, List.dropLast_append_getLast, h, toList_encode]
  have hcut : q.dropLast ≠ [] := by
    intro hnil
    have hlen := congrArg List.length hnil
    rw [List.length_dropLast, List.length_nil] at hlen
    omega
  have hdec := decode_cut_off (List.append_inj_left' hsplit rfl) hcut
  simp only [LinuxBackend.restore, LinuxContainerPool.restore, inJSON_decode, hdec]
  rfl

/-- Without the last brace. -/
theorem restore_cut_off_web :
    LinuxBackend.restore (inJSON .plain) .quiet (String.ofList (print (json webFile)).dropLast)
      (.new .tiny "" ∅) = .error (.external "json") (.new .tiny "" ∅) := by
  have hne : print (json webFile) ≠ [] := List.cons_ne_nil _ _
  refine restore_cut_off .plain .quiet webFile _ [(print (json webFile)).getLast hne, '\n'] ?_ le_rfl _
  rw [toList_encode, List.append_cons, List.dropLast_append_getLast]

end SnapshotFiles

end WardenLinux
