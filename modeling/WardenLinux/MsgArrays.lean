/-
  Arrays of strings in messages (msg.c), with every access to the buffer.

  `importTraced` and `exportTraced` are `msg_array_import` and `msg_array_export` in
  the terms of C: the difference to the size is one of `size_t`, an array that is
  refused leaves a buffer too, and a string that has no NUL is read past the end.

  * `import_refines` and `exportLoop_iff`: they do what `msgArrayImport` and
    `msgArrayExport` do.
  * `arrays_fit_or_refused`: an array is imported iff its strings and their NULs fit,
    with all accesses inside the buffer, and exported as it was.
-/
import WardenLinux.Wsh

namespace WardenLinux

namespace Wsh

open CString

/-! ## Accesses -/

/-- Some bytes of a buffer, from a place on, that are read or written. -/
structure Access where
  off : ℕ
  len : ℕ
  deriving DecidableEq, Repr

/-- The bytes are of the buffer. -/
def Access.Inside (a : Access) : Prop := a.off + a.len ≤ msgArraySize

instance (a : Access) : Decidable a.Inside := inferInstanceAs (Decidable (_ ≤ _))

/-- A difference of `size_t` -/
def sizeSub (a b : ℕ) : ℕ := (2 ^ 64 + a - b) % 2 ^ 64

/-- What an import returns, the buffer that it leaves, and what it has written. -/
structure Imported where
  ret : ℤ
  buf : List UInt8
  writes : List Access

/-- The loop of `msg_array_import`, with the offset. -/
def importLoopTraced (off : ℕ) (buf : List UInt8) : List CStr → Imported
  | [] => ⟨0, buf, []⟩
  | s :: ptr =>
    if sizeSub msgArraySize off < s.strlen + 1 then ⟨-1, buf, []⟩
    else
      let rest := importLoopTraced (off + s.strlen + 1) (memcpy buf off s.bytes) ptr
      { rest with writes := ⟨off, s.strlen⟩ :: rest.writes }

/-- `msg_array_import`; `memset` writes the whole buffer. -/
def importTraced (ptr : List CStr) : Imported :=
  let r := importLoopTraced 0 (List.replicate msgArraySize 0) ptr
  { r with writes := ⟨0, msgArraySize⟩ :: r.writes }

/-- The loop of `msg_array_export`: the strings, and what `strlen` has read. -/
def exportLoopTraced (buf : List UInt8) (off : ℕ) : ℕ → List CStr × List Access
  | 0 => ([], [])
  | count + 1 =>
    let s := upToNul (buf.drop off)
    let rest := exportLoopTraced buf (off + s.strlen + 1) count
    (s :: rest.1, ⟨off, s.strlen + 1⟩ :: rest.2)

/-- `msg_array_export` -/
def exportTraced (a : MsgArray) : List CStr × List Access := exportLoopTraced a.buf 0 a.count

/-! ## Import -/

theorem sizeSub_eq {off : ℕ} (h : off ≤ msgArraySize) :
    sizeSub msgArraySize off = msgArraySize - off := by
  rw [sizeSub, msgArraySize] at *
  omega

/-- The offset stays inside the buffer: what is imported, and when. -/
theorem importLoopTraced_spec (ptr : List CStr) {off : ℕ} (hoff : off ≤ msgArraySize)
    (buf : List UInt8) :
    ((importLoopTraced off buf ptr).ret = 0 ↔
      off + (ptr.map fun s => s.strlen + 1).sum ≤ msgArraySize) ∧
    ∀ w ∈ (importLoopTraced off buf ptr).writes, w.Inside := by
  induction ptr generalizing off buf with
  | nil => simp [importLoopTraced, hoff]
  | cons s ptr ih =>
    rw [importLoopTraced, sizeSub_eq hoff, List.map_cons, List.sum_cons]
    split
    · next hlt =>
      refine ⟨iff_of_false (by simp) ?_, by simp⟩
      omega
    · next hge =>
      obtain ⟨hret, hwrites⟩ :=
        @ih (off + s.strlen + 1) (by omega) (memcpy buf off s.bytes)
      refine ⟨hret.trans (by omega), ?_⟩
      rw [List.forall_mem_cons]
      refine ⟨?_, hwrites⟩
      show off + s.strlen ≤ msgArraySize
      omega

/-- **The loop is the one that is refused** when the strings do not fit. -/
theorem importLoop_refines (ptr : List CStr) {off : ℕ} (hoff : off ≤ msgArraySize)
    (buf : List UInt8) :
    importLoop off buf ptr =
      if (importLoopTraced off buf ptr).ret = 0 then some (importLoopTraced off buf ptr).buf
      else none := by
  induction ptr generalizing off buf with
  | nil => rfl
  | cons s ptr ih =>
    rw [importLoop, importLoopTraced, sizeSub_eq hoff]
    split
    · rfl
    · next hge => exact ih (by omega) _

theorem import_refines (ptr : List CStr) :
    msgArrayImport ptr =
      if (importTraced ptr).ret = 0 then some ⟨ptr.length, (importTraced ptr).buf⟩ else none := by
  rw [msgArrayImport, importLoop_refines ptr (Nat.zero_le _)]
  by_cases h : (importLoopTraced 0 (List.replicate msgArraySize 0) ptr).ret = 0
  · rw [if_pos h, if_pos (show (importTraced ptr).ret = 0 from h)]
    rfl
  · rw [if_neg h, if_neg (show (importTraced ptr).ret ≠ 0 from h)]
    rfl

/-! ## Export -/

/-- `strlen` reads inside the buffer iff there is a NUL. -/
theorem read_inside_iff {buf : List UInt8} (hbuf : buf.length = msgArraySize) (off : ℕ) :
    Access.Inside ⟨off, (upToNul (buf.drop off)).strlen + 1⟩ ↔ 0 ∈ buf.drop off := by
  rw [← strlen_upToNul_lt, List.length_drop, hbuf]
  show off + ((upToNul (buf.drop off)).strlen + 1) ≤ msgArraySize ↔ _
  omega

/-- **The strings are exported** iff every read is inside the buffer. -/
theorem exportLoop_iff {buf : List UInt8} (hbuf : buf.length = msgArraySize) (count : ℕ) {off : ℕ}
    {strs : List CStr} :
    exportLoop buf off count = some strs ↔
      (∀ a ∈ (exportLoopTraced buf off count).2, a.Inside) ∧
        (exportLoopTraced buf off count).1 = strs := by
  induction count generalizing off strs with
  | zero => simp [exportLoop, exportLoopTraced]
  | succ count ih =>
    rw [exportLoop, exportLoopTraced, CString.read, List.forall_mem_cons, read_inside_iff hbuf]
    by_cases hnul : 0 ∈ buf.drop off
    · simp only [hnul, if_true, Option.bind_eq_bind, Option.bind_some, true_and]
      constructor
      · intro h
        obtain ⟨rest, hrest, hstrs⟩ := Option.bind_eq_some_iff.1 h
        obtain ⟨hreads, rfl⟩ := ih.1 hrest
        exact ⟨hreads, Option.some.inj hstrs⟩
      · rintro ⟨hreads, rfl⟩
        rw [ih.2 ⟨hreads, rfl⟩]
        rfl
    · simp [hnul]

/-! ## Arrays -/

theorem length_packed (ptr : List CStr) :
    (packed ptr).length = (ptr.map fun s => s.strlen + 1).sum := by
  induction ptr with
  | nil => rfl
  | cons s ptr ih =>
    rw [packed_cons, List.length_append, List.length_cons, ih, List.map_cons, List.sum_cons,
      CStr.strlen]
    omega

/-- What is imported is a buffer of its size, and exported as it was. -/
theorem export_of_import {ptr : List CStr} (h : (importTraced ptr).ret = 0) :
    (importTraced ptr).buf.length = msgArraySize ∧
      exportLoop (importTraced ptr).buf 0 ptr.length = some ptr := by
  have hfits : (packed ptr).length ≤ msgArraySize := by
    have hsum := (importLoopTraced_spec ptr (Nat.zero_le _) (List.replicate msgArraySize 0)).1.1 h
    rwa [Nat.zero_add, ← length_packed] at hsum
  have hret : (importLoopTraced 0 (List.replicate msgArraySize 0) ptr).ret = 0 := h
  have himport := importLoop_zeros ptr [] (k := msgArraySize) (Nat.zero_add _) hfits
  rw [List.nil_append, List.length_nil, importLoop_refines ptr (Nat.zero_le _), if_pos hret,
    Option.some.injEq, List.nil_append] at himport
  have hbuf : (importTraced ptr).buf =
      packed ptr ++ List.replicate (msgArraySize - (packed ptr).length) 0 := himport
  rw [hbuf, List.length_append, List.length_replicate]
  exact ⟨Nat.add_sub_cancel' hfits, exportLoop_packed ptr [] _⟩

/-- **Arrays fit or are refused**: an import returns 0 iff the strings, each with its NUL, fit
    the buffer, and writes only there; an export of the result reads only there, and gives
    the same strings. -/
theorem arrays_fit_or_refused (ptr : List CStr) :
    ((importTraced ptr).ret = 0 ↔ (ptr.map fun s => s.strlen + 1).sum ≤ 8192) ∧
      (∀ w ∈ (importTraced ptr).writes, w.Inside) ∧
      ((importTraced ptr).ret = 0 →
        (∀ a ∈ (exportTraced ⟨ptr.length, (importTraced ptr).buf⟩).2, a.Inside) ∧
          (exportTraced ⟨ptr.length, (importTraced ptr).buf⟩).1 = ptr) := by
  obtain ⟨hret, hwrites⟩ := importLoopTraced_spec ptr (Nat.zero_le _)
    (List.replicate msgArraySize 0)
  rw [Nat.zero_add] at hret
  refine ⟨hret, ?_, fun h => ?_⟩
  · refine List.forall_mem_cons.2 ⟨?_, hwrites⟩
    exact Nat.le_of_eq (Nat.zero_add msgArraySize)
  · obtain ⟨hlen, hexport⟩ := export_of_import h
    exact (exportLoop_iff hlen ptr.length).1 hexport

end Wsh

end WardenLinux
