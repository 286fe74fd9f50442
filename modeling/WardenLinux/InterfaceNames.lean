/-
  The names of the network interfaces (setup.sh), after the container ID
  (`generateContainerIDs` of container_pool.go).

  setup.sh takes as many of the last digits of the ID as the 15 characters of a name
  leave.

  * `networkHostIface_eq`: the name is the prefix, these digits and `-0`.
  * `ids_and_ifaces_differ`: the IDs of a run, and the names after them, are not the same
    unless as many numbers apart as their digits can tell.
-/
import WardenLinux.ContainerPool
import Mathlib.Data.List.DropRight

namespace WardenLinux

namespace InterfaceNames

open LinuxContainerPool

/-! ## setup.sh -/

/-- `tail -c`; a minus sign is ignored. -/
def tailBytes (n : ℤ) (s : List Char) : List Char := s.drop (s.length - n.natAbs)

/-- `$(..)` drops the newlines at the end. -/
def substitute (s : List Char) : List Char := s.rdropWhile (· = '\n')

/-- `max_id_len` -/
def maxIdLen (ifaceNamePrefix : String) : ℤ := 16 - ifaceNamePrefix.length - 2

/-- `iface_name`; a here-string ends in a newline.  `expr` fails when it prints 0, which ends
    the script. -/
def ifaceName (ifaceNamePrefix id : String) : Option String :=
  if maxIdLen ifaceNamePrefix = 0 then none
  else some (.ofList (substitute (tailBytes (maxIdLen ifaceNamePrefix) (id.toList ++ ['\n']))))

/-- `network_host_iface` -/
def networkHostIface (ifaceNamePrefix id : String) : Option String :=
  (ifaceName ifaceNamePrefix id).map fun name => ifaceNamePrefix ++ name ++ "-0"

/-! ## Digits -/

/-- The last characters of a text. -/
def lastChars (k : ℕ) (s : String) : String := .ofList (s.toList.drop (s.length - k))

/-- `0-9` and `a-v` -/
def digits : List Char := "0123456789abcdefghijklmnopqrstuv".toList

/-- The IDs of a run of `generateContainerIDs`. -/
def ids (start : ℕ) (i : ℕ) : String := containerID (start + i)

theorem digit32_mem {d : ℕ} (hd : d < 32) : digit32 d ∈ digits := by
  have key : ∀ d < 32, digit32 d ∈ digits := by decide +kernel
  exact key d hd

theorem containerID_length (n : ℕ) : (containerID n).length = 11 := by
  rw [← String.length_toList, toList_containerID, List.length_map, List.length_range]

theorem mem_digits {n : ℕ} {c : Char} (hc : c ∈ (containerID n).toList) : c ∈ digits := by
  rw [toList_containerID, List.mem_map] at hc
  obtain ⟨i, -, rfl⟩ := hc
  exact digit32_mem (Nat.mod_lt _ (by decide))

theorem mod_ne {a b d : ℕ} (hlt : a < b) (hd : b - a < d) : a % d ≠ b % d := by
  intro h
  have := Nat.le_of_dvd (by omega) ((Nat.modEq_iff_dvd' hlt.le).1 h)
  omega

/-- **The last digits of two IDs differ** unless as many numbers apart as they can tell. -/
theorem lastChars_ne {k : ℕ} (hk : k ≤ 11) {a b : ℕ} (hlt : a < b) (hd : b - a < 32 ^ k) :
    lastChars k (containerID a) ≠ lastChars k (containerID b) := by
  intro h
  have h := String.ofList_injective h
  rw [containerID_length, containerID_length] at h
  exact mod_ne hlt hd (containerID_digits_inj hk h)

/-! ## Names -/

/-- A text without newlines, in a here-string and substituted. -/
theorem substitute_newline {s : List Char} (hs : '\n' ∉ s) : substitute (s ++ ['\n']) = s := by
  rw [substitute, List.rdropWhile_concat_pos _ _ _ (by simp), List.rdropWhile_eq_self_iff]
  intro hne h
  exact hs (of_decide_eq_true h ▸ List.getLast_mem hne)

/-- The characters of the ID that are left beside a prefix of some length. -/
def idLen (l : ℕ) : ℕ := min 11 (13 - l)

theorem ifaceName_eq {p id : String} (hp : p.length ≤ 12) (hid : id.length = 11)
    (hnl : '\n' ∉ id.toList) : ifaceName p id = some (lastChars (idLen p.length) id) := by
  have hlen : id.toList.length = 11 := by rw [String.length_toList, hid]
  have hmax : (maxIdLen p).natAbs = 14 - p.length := by
    rw [maxIdLen]
    omega
  have hpos : maxIdLen p ≠ 0 := by
    rw [maxIdLen]
    omega
  have hdrop : id.toList.length + 1 - (14 - p.length) = 11 - idLen p.length := by
    rw [hlen, idLen]
    omega
  rw [ifaceName, if_neg hpos, tailBytes, hmax, List.length_append, List.length_singleton, hdrop,
    List.drop_append_of_le_length (by omega), substitute_newline, lastChars, hid]
  exact fun hmem => hnl (List.mem_of_mem_drop hmem)

theorem ifaceName_containerID {p : String} (hp : p.length ≤ 12) (n : ℕ) :
    ifaceName p (containerID n) = some (lastChars (idLen p.length) (containerID n)) :=
  ifaceName_eq hp (containerID_length n) fun hmem => absurd (mem_digits hmem) (by decide)

/-- **The name of an interface**: the prefix, the last digits of the ID and `-0`. -/
theorem networkHostIface_eq {p : String} (hp : p.length ≤ 12) (n : ℕ) :
    networkHostIface p (containerID n) =
      some (p ++ lastChars (idLen p.length) (containerID n) ++ "-0") := by
  rw [networkHostIface, ifaceName_containerID hp, Option.map_some]

theorem lastChars_length (k : ℕ) {id : String} (hid : id.length = 11) :
    (lastChars k id).length = min k 11 := by
  rw [lastChars, String.length_ofList, List.length_drop, String.length_toList, hid]
  omega

theorem iface_length {p id : String} (hp : p.length ≤ 12) (hid : id.length = 11) :
    (p ++ lastChars (idLen p.length) id ++ "-0").length ≤ 15 := by
  rw [String.length_append, String.length_append, lastChars_length _ hid, idLen,
    show "-0".length = 2 from rfl]
  omega

theorem iface_ne {p : String} (hp : p.length ≤ 12) {a b : ℕ} (hlt : a < b)
    (hd : b - a < 32 ^ idLen p.length) :
    networkHostIface p (containerID a) ≠ networkHostIface p (containerID b) := by
  rw [networkHostIface_eq hp, networkHostIface_eq hp]
  intro h
  refine lastChars_ne (Nat.min_le_left _ _) hlt hd ?_
  rw [Option.some.injEq, String.append_left_inj, String.append_right_inj] at h
  exact h

/-- **Container IDs and interface names differ**: an ID has 11 digits; the last ones of two
    IDs of a run differ unless as many numbers apart as they can tell, and so do the names
    of the interfaces, which have at most 15 characters. -/
theorem ids_and_ifaces_differ (start : ℕ) :
    (∀ i, (ids start i).length = 11 ∧ ∀ c ∈ (ids start i).toList, c ∈ digits) ∧
    (∀ k ≤ 11, ∀ i j, i < j → j - i < 32 ^ k →
      lastChars k (ids start i) ≠ lastChars k (ids start j)) ∧
    (∀ i j, i < j → j - i < 2 ^ 55 → ids start i ≠ ids start j) ∧
    ∀ p : String, p.length ≤ 12 →
      (∀ i, networkHostIface p (ids start i) =
          some (p ++ lastChars (min 11 (13 - p.length)) (ids start i) ++ "-0") ∧
        (p ++ lastChars (min 11 (13 - p.length)) (ids start i) ++ "-0").length ≤ 15) ∧
      ∀ i j, i < j → j - i < 32 ^ min 11 (13 - p.length) →
        networkHostIface p (ids start i) ≠ networkHostIface p (ids start j) := by
  have hlt : ∀ {i j : ℕ}, i < j → start + i < start + j := fun h => Nat.add_lt_add_left h start
  have hdist : ∀ {i j d : ℕ}, j - i < d → start + j - (start + i) < d := by
    intro i j d h
    rwa [Nat.add_sub_add_left]
  refine ⟨fun i => ⟨containerID_length _, fun c => mem_digits⟩, ?_, ?_, fun p hp => ⟨?_, ?_⟩⟩
  · intro k hk i j hij hd
    exact lastChars_ne hk (hlt hij) (hdist hd)
  · intro i j hij hd h
    exact mod_ne (hlt hij) (hdist hd) (containerID_inj h)
  · intro i
    exact ⟨networkHostIface_eq hp _, iface_length hp (containerID_length _)⟩
  · intro i j hij hd
    exact iface_ne hp (hlt hij) (hdist hd)

end InterfaceNames

end WardenLinux
