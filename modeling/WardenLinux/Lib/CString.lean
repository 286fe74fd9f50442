/-
  Strings and buffers of C.

  * `CStr`: the bytes of a string, without the NUL that ends it.
  * `memcpy`: bytes are copied into a buffer.
  * `read`: the string at a place of a buffer.  Without a NUL from there on it
    is not defined.
  * `strchr`: the place of a byte in the string at a place of a buffer.
  * `packed`: strings one after the other, each with its NUL.
-/
import WardenLinux.Lib.Words

namespace CString

/-- A string of C. -/
structure CStr where
  bytes : List UInt8
  nulFree : 0 ∉ bytes
  deriving DecidableEq

namespace CStr

@[ext] theorem ext {s t : CStr} (h : s.bytes = t.bytes) : s = t := by
  cases s; cases t; cases h; rfl

/-- `strlen` -/
def strlen (s : CStr) : ℕ := s.bytes.length

/-- The string of a literal. -/
def lit (s : String) (h : 0 ∉ s.toUTF8.data.toList := by decide) : CStr := ⟨s.toUTF8.data.toList, h⟩

theorem strlen_eq_zero {s : CStr} : s.strlen = 0 ↔ s = lit "" := by
  rw [strlen, List.length_eq_zero_iff]
  exact ⟨fun h => CStr.ext (h.trans (by decide)), fun h => h ▸ by decide⟩

/-- `s[k]`, for `k` up to the length -/
def char (s : CStr) (k : ℕ) : UInt8 := s.bytes.getD k 0

/-- Two strings, one after the other. -/
def append (s t : CStr) : CStr := ⟨s.bytes ++ t.bytes, by simp [s.nulFree, t.nulFree]⟩

end CStr

/-- `memcpy(buf + off, src, strlen(src))` -/
def memcpy (buf : List UInt8) (off : ℕ) (src : List UInt8) : List UInt8 :=
  buf.take off ++ src ++ buf.drop (off + src.length)

theorem memcpy_zeros (pre src : List UInt8) (k : ℕ) :
    memcpy (pre ++ List.replicate k 0) pre.length src =
      (pre ++ src) ++ List.replicate (k - src.length) 0 := by
  rw [memcpy, List.take_left', List.drop_append, List.drop_eq_nil_of_le (Nat.le_add_right _ _)]
  · simp [List.append_assoc]
  · rfl

/-- The bytes up to the first NUL. -/
def upToNul (bytes : List UInt8) : CStr :=
  ⟨bytes.takeWhile (· ≠ 0), fun h => by simpa using List.mem_takeWhile_imp h⟩

theorem upToNul_append (s : CStr) (post : List UInt8) : upToNul (s.bytes ++ 0 :: post) = s := by
  apply CStr.ext
  show (s.bytes ++ 0 :: post).takeWhile (· ≠ 0) = s.bytes
  refine Words.takeWhile_run (fun c hc => ?_) fun c hc => ?_
  · simpa using fun h : c = 0 => s.nulFree (h ▸ hc)
  · cases hc
    rfl

/-- There is a NUL iff the string ends before the bytes do. -/
theorem strlen_upToNul_lt {bytes : List UInt8} :
    (upToNul bytes).strlen < bytes.length ↔ 0 ∈ bytes := by
  show (bytes.takeWhile (· ≠ 0)).length < bytes.length ↔ 0 ∈ bytes
  induction bytes with
  | nil => simp
  | cons b bytes ih =>
    by_cases hb : b = 0
    · simp [hb]
    · rw [List.takeWhile_cons_of_pos (by simpa using hb), List.length_cons, List.length_cons,
        Nat.add_lt_add_iff_right, ih, List.mem_cons, or_iff_right (Ne.symm hb)]

/-- The string that starts at a place. -/
def read (buf : List UInt8) (off : ℕ) : Option CStr :=
  if 0 ∈ buf.drop off then some (upToNul (buf.drop off)) else none

theorem read_append (pre : List UInt8) (s : CStr) (post : List UInt8) :
    read (pre ++ (s.bytes ++ 0 :: post)) pre.length = some s := by
  rw [read, List.drop_left' rfl, if_pos (by simp), upToNul_append]

/-- `strchr(buf + off, c)`, for a byte other than NUL -/
def strchr (buf : List UInt8) (off : ℕ) (c : UInt8) : Option ℕ :=
  ((upToNul (buf.drop off)).bytes.idxOf? c).map (off + ·)

theorem strchr_append (pre : List UInt8) {s : CStr} {c : UInt8} (hc : c ≠ 0) (hs : c ∉ s.bytes)
    (post : List UInt8) :
    strchr (pre ++ (s.bytes ++ c :: post)) pre.length c = some (pre.length + s.strlen) := by
  have htake : (s.bytes ++ c :: post).takeWhile (· ≠ 0) =
      s.bytes ++ c :: post.takeWhile (· ≠ 0) := by
    rw [List.takeWhile_append_of_pos fun b hb => by simpa using fun h : b = 0 => s.nulFree (h ▸ hb),
      List.takeWhile_cons_of_pos (by simpa using hc)]
  have hidx : (s.bytes ++ c :: post.takeWhile (· ≠ 0)).idxOf? c = some s.bytes.length := by
    have hnone : s.bytes.findIdx? (· == c) = none := by
      rw [List.findIdx?_eq_none_iff]
      exact fun b hb => beq_false_of_ne fun h => hs (h ▸ hb)
    rw [List.idxOf?, List.findIdx?_append, hnone, List.findIdx?_cons]
    simp
  rw [strchr, List.drop_left' rfl]
  show (((s.bytes ++ c :: post).takeWhile (· ≠ 0)).idxOf? c).map _ = _
  rw [htake, hidx]
  rfl

theorem strchr_eq_none (pre : List UInt8) {s : CStr} {c : UInt8} (hs : c ∉ s.bytes)
    (post : List UInt8) : strchr (pre ++ (s.bytes ++ 0 :: post)) pre.length c = none := by
  have hidx : s.bytes.idxOf? c = none := by
    rw [List.idxOf?, List.findIdx?_eq_none_iff]
    exact fun b hb => beq_false_of_ne fun h => hs (h ▸ hb)
  rw [strchr, List.drop_left' rfl, upToNul_append, hidx, Option.map_none]

/-- Strings one after the other. -/
def packed (strs : List CStr) : List UInt8 := strs.flatMap fun s => s.bytes ++ [0]

@[simp] theorem packed_nil : packed [] = [] := rfl

@[simp] theorem packed_cons (s : CStr) (strs : List CStr) :
    packed (s :: strs) = s.bytes ++ 0 :: packed strs := by
  simp [packed]

theorem packed_snoc (strs : List CStr) (s : CStr) :
    packed (strs ++ [s]) = packed strs ++ (s.bytes ++ [0]) := by
  simp [packed]

end CString
