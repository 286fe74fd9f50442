/-
  The lookup of a user in `/etc/passwd` (pwd.c, pwd.h).

  A line is read into a buffer, and `_GETPWNAM_NEXT` makes strings of its fields
  by writing a NUL over the colon, or over the newline, behind each of them.
  `getpwnamLine_other`, `getpwnamLine_found` and `getpwnamLine_end` say what becomes of a
  line.

  `getpwnam_finds_iff`: the lookup finds the first entry of a name iff a newline
  comes after it and its numbers are below 2^16: without a newline the last field
  has no end, and `struct passwd` has 16 bits for a number.
-/
import WardenLinux.Wsh

namespace WardenLinux

open CString

namespace Pwd

/-! ## `getpwnam` -/

/-- `struct passwd` -/
structure Passwd extends Wsh.Passwd where
  passwd : CStr
  gecos : CStr
  deriving DecidableEq

def colon : UInt8 := 58

def newline : UInt8 := 10

/-- `_GETPWNAM_NEXT(p, q)`; without a result it jumps to `done`. -/
def getpwnamNext (buf : List UInt8) (p : ℕ) (q : Option ℕ) : Option (List UInt8 × ℕ × ℕ) :=
  let p := q.elim p (· + 1)
  -- the newline is searched for in the last iteration
  match (strchr buf p colon).or (strchr buf p newline) with
  | some q => some (buf.set q 0, p, q)
  | none => none

def isspace (b : UInt8) : Bool := b == 32 || (9 ≤ b && b ≤ 13)

def isdigit (b : UInt8) : Bool := 48 ≤ b && b ≤ 57

/-- The number of some digits. -/
def decimal (digits : List UInt8) : ℕ := digits.foldl (fun n d => 10 * n + (d.toNat - 48)) 0

/-- `strtol(s, NULL, 10)` -/
def strtol (s : CStr) : ℤ :=
  match s.bytes.dropWhile isspace with
  | 45 :: s => max (-(decimal (s.takeWhile isdigit))) (-2 ^ 63)
  | 43 :: s | s => min (decimal (s.takeWhile isdigit)) (2 ^ 63 - 1)

/-- `atoi`, which returns an `int` -/
def atoi (s : CStr) : ℤ := (strtol s).bmod (2 ^ 32)

/-- The conversion to `uint16_t` -/
def toUint16 (n : ℤ) : UInt16 := .ofNat (n % 2 ^ 16).toNat

/-- The string that a pointer into the buffer points to. -/
def str (buf : List UInt8) (p : ℕ) : CStr := upToNul (buf.drop p)

/-- The fields after the name, which is at `name`. -/
def getpwnamFields (buf : List UInt8) (name q : ℕ) : Option Passwd := do
  let (buf, passwd, q) ← getpwnamNext buf name (some q)
  let (buf, p, q) ← getpwnamNext buf passwd (some q)
  let uid := toUint16 (atoi (str buf p))
  let (buf, p, q) ← getpwnamNext buf p (some q)
  let gid := toUint16 (atoi (str buf p))
  let (buf, gecos, q) ← getpwnamNext buf p (some q)
  let (buf, dir, q) ← getpwnamNext buf gecos (some q)
  let (buf, shell, _) ← getpwnamNext buf dir (some q)
  return {
    name := str buf name
    passwd := str buf passwd
    uid
    gid
    gecos := str buf gecos
    dir := str buf dir
    shell := str buf shell }

/-- Where the body of the loop ends. -/
inductive Outcome where
  | found (pw : Passwd)
  | continue (buf : List UInt8)
  | done

/-- The body of the loop, for a line in the buffer. -/
def getpwnamLine (buf : List UInt8) (name : CStr) : Outcome :=
  match getpwnamNext buf 0 none with
  | none => .done
  | some (buf, p, q) =>
    if str buf p ≠ name then .continue buf
    else
      match getpwnamFields buf p q with
      | some pw => .found pw
      | none => .done

/-- `sizeof(buf)` -/
def bufSize : ℕ := 1024

/-- What the calls of `fgets` read, one after the other, `line` being read: up to a
    newline, and no more than there is room for besides the NUL. -/
def fgets (line : List UInt8) : List UInt8 → List (List UInt8)
  | [] => if line = [] then [] else [line]
  | b :: bytes =>
    if b = newline ∨ line.length + 2 = bufSize then (line ++ [b]) :: fgets [] bytes
    else fgets (line ++ [b]) bytes

/-- The loop over the lines. -/
def getpwnamLoop (buf : List UInt8) (name : CStr) : List (List UInt8) → Option Passwd
  | [] => none
  | line :: lines =>
    match getpwnamLine (memcpy buf 0 (line ++ [0])) name with
    | .found pw => some pw
    | .continue buf => getpwnamLoop buf name lines
    | .done => none

/-- `getpwnam`, with what is left in its buffer from before, and the content of the
    file, if it can be opened. -/
def getpwnam (buf : List UInt8) (file : Option (List UInt8)) (name : CStr) : Option Passwd :=
  match file with
  | none => none
  | some content => getpwnamLoop buf name (fgets [] content)

/-! ## Entries -/

/-- A field of a line. -/
def Plain (f : CStr) : Prop := colon ∉ f.bytes ∧ newline ∉ f.bytes

instance (f : CStr) : Decidable (Plain f) := inferInstanceAs (Decidable (_ ∧ _))

/-- A decimal below 2^31. -/
def IsNumber (f : CStr) : Prop :=
  f.bytes ≠ [] ∧ f.bytes.all isdigit = true ∧ decimal f.bytes < 2 ^ 31

instance (f : CStr) : Decidable (IsNumber f) := inferInstanceAs (Decidable (_ ∧ _))

/-- The bytes of a line, without a newline. -/
def line : List CStr → List UInt8
  | [] => []
  | [f] => f.bytes
  | f :: fs => f.bytes ++ colon :: line fs

/-- The seven fields of a line. -/
structure Entry where
  name : CStr
  passwd : CStr
  uid : CStr
  gid : CStr
  gecos : CStr
  dir : CStr
  shell : CStr
  plain : ∀ f ∈ [name, passwd, uid, gid, gecos, dir, shell], Plain f
  uidNumber : IsNumber uid
  gidNumber : IsNumber gid
  short : (line [name, passwd, uid, gid, gecos, dir, shell]).length < 1023

def Entry.line (e : Entry) : List UInt8 :=
  Pwd.line [e.name, e.passwd, e.uid, e.gid, e.gecos, e.dir, e.shell]

/-- The lines of a file, and whether a newline comes after the last one. -/
structure File where
  entries : List Entry
  newline : Bool

def content (final : Bool) : List Entry → List UInt8
  | [] => []
  | [e] => e.line ++ if final then [newline] else []
  | e :: es => e.line ++ newline :: content final es

/-! ## Fields -/

theorem set_append (pre : List UInt8) (f : CStr) (c : UInt8) (post : List UInt8) :
    (pre ++ (f.bytes ++ c :: post)).set (pre.length + f.strlen) 0 =
      pre ++ (f.bytes ++ 0 :: post) := by
  rw [List.set_append_right _ _ (Nat.le_add_right ..), Nat.add_sub_cancel_left,
    CStr.strlen, List.set_append_right _ _ (Nat.le_refl _), Nat.sub_self, List.set_cons_zero]

theorem str_append (pre : List UInt8) (f : CStr) (post : List UInt8) :
    str (pre ++ (f.bytes ++ 0 :: post)) pre.length = f := by
  rw [str, List.drop_left' rfl, upToNul_append]

section
variable (fs : List CStr) {f : CStr} (hf : Plain f) (post : List UInt8) {p : ℕ} {q : Option ℕ}
  (hp : q.elim p (· + 1) = (packed fs).length)
include hp

theorem getpwnamNext_eq (c : UInt8)
    (h : (strchr (packed fs ++ (f.bytes ++ c :: post)) (packed fs).length colon).or
      (strchr (packed fs ++ (f.bytes ++ c :: post)) (packed fs).length newline) =
        some ((packed fs).length + f.strlen)) :
    getpwnamNext (packed fs ++ (f.bytes ++ c :: post)) p q =
      some (packed (fs ++ [f]) ++ post, (packed fs).length, (packed fs).length + f.strlen) := by
  simp only [getpwnamNext, hp, h, set_append]
  rw [packed_snoc]
  simp

include hf

/-- **A field** behind some others, with a colon behind it. -/
theorem getpwnamNext_colon :
    getpwnamNext (packed fs ++ (f.bytes ++ colon :: post)) p q =
      some (packed (fs ++ [f]) ++ post, (packed fs).length, (packed fs).length + f.strlen) := by
  refine getpwnamNext_eq fs post hp colon ?_
  rw [strchr_append _ (by decide) hf.1]
  rfl

/-- **The last field**, with a newline behind it. -/
theorem getpwnamNext_newline :
    getpwnamNext (packed fs ++ (f.bytes ++ newline :: 0 :: post)) p q =
      some (packed (fs ++ [f]) ++ 0 :: post, (packed fs).length,
        (packed fs).length + f.strlen) := by
  refine getpwnamNext_eq fs (0 :: post) hp newline ?_
  have hcolon : strchr (packed fs ++ (f.bytes ++ newline :: 0 :: post)) (packed fs).length colon =
      none := by
    have := strchr_eq_none (packed fs) (s := f.append ⟨[newline], by decide⟩) (c := colon)
      (by simpa [CStr.append, hf.1] using by decide) post
    simpa [CStr.append] using this
  rw [hcolon, strchr_append _ (by decide) hf.2, Option.none_or]

/-- **The last field without a newline** has no end. -/
theorem getpwnamNext_end : getpwnamNext (packed fs ++ (f.bytes ++ 0 :: post)) p q = none := by
  simp only [getpwnamNext, hp, strchr_eq_none _ hf.1, strchr_eq_none _ hf.2, Option.or_none]

end

/-! ## Lines -/

theorem length_packed_snoc (fs : List CStr) (f : CStr) :
    (packed fs).length + f.strlen + 1 = (packed (fs ++ [f])).length := by
  rw [packed_snoc, List.length_append, List.length_append, CStr.strlen, Nat.add_assoc]
  rfl

theorem str_packed (fs : List CStr) (f : CStr) (gs : List CStr) (post : List UInt8) :
    str (packed (fs ++ f :: gs) ++ post) (packed fs).length = f := by
  have hbuf : packed (fs ++ f :: gs) ++ post =
      packed fs ++ (f.bytes ++ 0 :: (packed gs ++ post)) := by
    simp [packed]
  rw [hbuf, str_append]

/-- What `getpwnam` makes of an entry. -/
def Entry.read (e : Entry) : Passwd where
  name := e.name
  passwd := e.passwd
  uid := toUint16 (atoi e.uid)
  gid := toUint16 (atoi e.gid)
  gecos := e.gecos
  dir := e.dir
  shell := e.shell

/-- A line in the buffer, some of its fields being strings already. -/
def buffer (fs gs : List CStr) (tail : List UInt8) : List UInt8 := packed fs ++ (line gs ++ tail)

theorem getpwnamNext_buffer (fs : List CStr) {f : CStr} (hf : Plain f) (g : CStr) (gs : List CStr)
    (tail : List UInt8) {p : ℕ} {q : Option ℕ} (hp : q.elim p (· + 1) = (packed fs).length) :
    getpwnamNext (buffer fs (f :: g :: gs) tail) p q =
      some (buffer (fs ++ [f]) (g :: gs) tail, (packed fs).length,
        (packed fs).length + f.strlen) := by
  have hbuf : buffer fs (f :: g :: gs) tail =
      packed fs ++ (f.bytes ++ colon :: (line (g :: gs) ++ tail)) := by
    simp [buffer, line]
  rw [hbuf, getpwnamNext_colon fs hf _ hp]
  rfl

/-- The field behind the field `f₀`. -/
theorem getpwnamNext_behind (fs : List CStr) (f₀ : CStr) {f : CStr} (hf : Plain f) (g : CStr)
    (gs : List CStr) (tail : List UInt8) (p : ℕ) :
    getpwnamNext (buffer (fs ++ [f₀]) (f :: g :: gs) tail) p
        (some ((packed fs).length + f₀.strlen)) =
      some (buffer (fs ++ [f₀, f]) (g :: gs) tail, (packed (fs ++ [f₀])).length,
        (packed (fs ++ [f₀])).length + f.strlen) := by
  rw [getpwnamNext_buffer (fs ++ [f₀]) hf g gs tail
    (q := some ((packed fs).length + f₀.strlen)) (length_packed_snoc fs f₀), List.append_assoc]
  rfl

namespace Entry
variable (e : Entry) (tail : List UInt8)

/-- The fields of an entry, up to the last one. -/
theorem getpwnamFields_eq :
    getpwnamFields (buffer [e.name] [e.passwd, e.uid, e.gid, e.gecos, e.dir, e.shell] tail) 0
        ((packed []).length + e.name.strlen) =
      (getpwnamNext (buffer [e.name, e.passwd, e.uid, e.gid, e.gecos, e.dir] [e.shell] tail)
          (packed [e.name, e.passwd, e.uid, e.gid, e.gecos]).length
          (some ((packed [e.name, e.passwd, e.uid, e.gid, e.gecos]).length + e.dir.strlen))).map
        fun (buf, shell, _) => {
          name := str buf 0
          passwd := str buf (packed [e.name]).length
          uid := toUint16 (atoi e.uid)
          gid := toUint16 (atoi e.gid)
          gecos := str buf (packed [e.name, e.passwd, e.uid, e.gid]).length
          dir := str buf (packed [e.name, e.passwd, e.uid, e.gid, e.gecos]).length
          shell := str buf shell } := by
  have hplain := e.plain
  simp only [List.forall_mem_cons] at hplain
  obtain ⟨-, hpasswd, huid, hgid, hgecos, hdir, -⟩ := hplain
  have h₁ := getpwnamNext_behind [] e.name hpasswd e.uid [e.gid, e.gecos, e.dir, e.shell] tail
  have h₂ := getpwnamNext_behind [e.name] e.passwd huid e.gid [e.gecos, e.dir, e.shell] tail
  have h₃ := getpwnamNext_behind [e.name, e.passwd] e.uid hgid e.gecos [e.dir, e.shell] tail
  have h₄ := getpwnamNext_behind [e.name, e.passwd, e.uid] e.gid hgecos e.dir [e.shell] tail
  have h₅ := getpwnamNext_behind [e.name, e.passwd, e.uid, e.gid] e.gecos hdir e.shell [] tail
  have hatuid := str_packed [e.name, e.passwd] e.uid []
    (Pwd.line [e.gid, e.gecos, e.dir, e.shell] ++ tail)
  have hatgid := str_packed [e.name, e.passwd, e.uid] e.gid []
    (Pwd.line [e.gecos, e.dir, e.shell] ++ tail)
  simp only [List.cons_append, List.nil_append] at h₁ h₂ h₃ h₄ h₅ hatuid hatgid
  rw [getpwnamFields]
  simp only [h₁, h₂, h₃, h₄, h₅, Option.bind_eq_bind, Option.bind_some]
  simp only [buffer, hatuid, hatgid]
  cases getpwnamNext _ _ _ <;> rfl

theorem line_append : e.line ++ tail =
    buffer [] [e.name, e.passwd, e.uid, e.gid, e.gecos, e.dir, e.shell] tail := rfl

/-- The name of an entry. -/
theorem getpwnamNext_name : getpwnamNext (e.line ++ tail) 0 none =
    some (buffer [e.name] [e.passwd, e.uid, e.gid, e.gecos, e.dir, e.shell] tail, 0,
      (packed []).length + e.name.strlen) := by
  have hname : Plain e.name := e.plain e.name List.mem_cons_self
  rw [line_append, getpwnamNext_buffer [] hname e.passwd [e.uid, e.gid, e.gecos, e.dir, e.shell]
    tail rfl]
  rfl

/-- **A line of another name** is passed over. -/
theorem getpwnamLine_other {name : CStr} (hname : e.name ≠ name) :
    ∃ buf, getpwnamLine (e.line ++ tail) name = .continue buf := by
  have hstr := str_packed [] e.name []
    (Pwd.line [e.passwd, e.uid, e.gid, e.gecos, e.dir, e.shell] ++ tail)
  simp only [getpwnamLine, getpwnamNext_name, buffer]
  exact ⟨_, if_pos fun h => hname (hstr.symm.trans h)⟩

theorem getpwnamLine_eq :
    getpwnamLine (e.line ++ tail) e.name =
      match getpwnamFields (buffer [e.name] [e.passwd, e.uid, e.gid, e.gecos, e.dir, e.shell] tail)
        0 ((packed []).length + e.name.strlen) with
      | some pw => .found pw
      | none => .done := by
  have hstr := str_packed [] e.name []
    (Pwd.line [e.passwd, e.uid, e.gid, e.gecos, e.dir, e.shell] ++ tail)
  simp only [getpwnamLine, getpwnamNext_name]
  exact if_neg (not_not_intro hstr)

/-- **The line of a name**, with a newline behind it. -/
theorem getpwnamLine_found (junk : List UInt8) :
    getpwnamLine (e.line ++ newline :: 0 :: junk) e.name = .found e.read := by
  have hshell : Plain e.shell := e.plain e.shell (by simp)
  have hlast := getpwnamNext_newline [e.name, e.passwd, e.uid, e.gid, e.gecos, e.dir] hshell junk
    (p := (packed [e.name, e.passwd, e.uid, e.gid, e.gecos]).length)
    (q := some ((packed [e.name, e.passwd, e.uid, e.gid, e.gecos]).length + e.dir.strlen))
    (length_packed_snoc [e.name, e.passwd, e.uid, e.gid, e.gecos] e.dir)
  have hbuf : buffer [e.name, e.passwd, e.uid, e.gid, e.gecos, e.dir] [e.shell]
      (newline :: 0 :: junk) = packed [e.name, e.passwd, e.uid, e.gid, e.gecos, e.dir] ++
        (e.shell.bytes ++ newline :: 0 :: junk) := rfl
  rw [getpwnamLine_eq, getpwnamFields_eq, hbuf, hlast, Option.map_some]
  dsimp only [List.cons_append, List.nil_append]
  have hname := str_packed [] e.name [e.passwd, e.uid, e.gid, e.gecos, e.dir, e.shell] (0 :: junk)
  have hpasswd := str_packed [e.name] e.passwd [e.uid, e.gid, e.gecos, e.dir, e.shell] (0 :: junk)
  have hgecos := str_packed [e.name, e.passwd, e.uid, e.gid] e.gecos [e.dir, e.shell] (0 :: junk)
  have hdir := str_packed [e.name, e.passwd, e.uid, e.gid, e.gecos] e.dir [e.shell] (0 :: junk)
  have hsh := str_packed [e.name, e.passwd, e.uid, e.gid, e.gecos, e.dir] e.shell [] (0 :: junk)
  dsimp only [List.cons_append, List.nil_append] at hname hpasswd hgecos hdir hsh
  rw [hpasswd, hgecos, hdir, hsh, show str _ 0 = e.name from hname]
  rfl

/-- **The line of a name**, without a newline. -/
theorem getpwnamLine_end (junk : List UInt8) :
    getpwnamLine (e.line ++ 0 :: junk) e.name = .done := by
  have hshell : Plain e.shell := e.plain e.shell (by simp)
  have hlast := getpwnamNext_end [e.name, e.passwd, e.uid, e.gid, e.gecos, e.dir] hshell junk
    (p := (packed [e.name, e.passwd, e.uid, e.gid, e.gecos]).length)
    (q := some ((packed [e.name, e.passwd, e.uid, e.gid, e.gecos]).length + e.dir.strlen))
    (length_packed_snoc [e.name, e.passwd, e.uid, e.gid, e.gecos] e.dir)
  have hbuf : buffer [e.name, e.passwd, e.uid, e.gid, e.gecos, e.dir] [e.shell] (0 :: junk) =
      packed [e.name, e.passwd, e.uid, e.gid, e.gecos, e.dir] ++ (e.shell.bytes ++ 0 :: junk) := rfl
  rw [getpwnamLine_eq, getpwnamFields_eq, hbuf, hlast]
  rfl

end Entry

/-! ## Files -/

/-- What is read of the lines of a file. -/
theorem fgets_line {bytes : List UInt8} (hnl : newline ∉ bytes) (acc : List UInt8)
    (hlen : acc.length + bytes.length < 1023) (rest : List UInt8) :
    fgets acc (bytes ++ rest) = fgets (acc ++ bytes) rest := by
  induction bytes generalizing acc with
  | nil => rw [List.append_nil, List.nil_append]
  | cons b bytes ih =>
    rw [List.mem_cons, not_or] at hnl
    rw [List.length_cons] at hlen
    have hgo : ¬ (b = newline ∨ acc.length + 2 = bufSize) := by
      rintro (h | h)
      · exact hnl.1 h.symm
      · rw [bufSize] at h
        omega
    rw [List.cons_append, fgets, if_neg hgo, ih hnl.2 (acc ++ [b]) (by simp; omega),
      List.append_assoc]
    rfl

theorem Entry.newline_not_mem (e : Entry) : newline ∉ e.line := by
  have h := e.plain
  simp only [List.forall_mem_cons] at h
  obtain ⟨h₁, h₂, h₃, h₄, h₅, h₆, h₇, -⟩ := h
  have hc : newline ≠ colon := by decide
  simp [Entry.line, Pwd.line, h₁.2, h₂.2, h₃.2, h₄.2, h₅.2, h₆.2, h₇.2, hc]

theorem Entry.length_line (e : Entry) : ([] : List UInt8).length + e.line.length < 1023 := by
  rw [List.length_nil, Nat.zero_add]
  exact e.short

theorem fgets_newline (e : Entry) (rest : List UInt8) :
    fgets [] (e.line ++ newline :: rest) = (e.line ++ [newline]) :: fgets [] rest := by
  rw [fgets_line e.newline_not_mem [] e.length_line, List.nil_append, fgets,
    if_pos (.inl rfl)]

theorem fgets_end (e : Entry) : fgets [] e.line = [e.line] := by
  have h := fgets_line e.newline_not_mem [] e.length_line []
  rw [List.append_nil, List.nil_append] at h
  have hne : e.line ≠ [] := by simp [Entry.line, Pwd.line]
  rw [h, fgets, if_neg hne]

/-- The entry that the lookup stops at, and whether it is found. -/
def lookup (final : Bool) (name : CStr) : List Entry → Option Passwd
  | [] => none
  | e :: es =>
    if e.name = name then if final = true ∨ es ≠ [] then some e.read else none
    else lookup final name es

theorem memcpy_line (buf line : List UInt8) :
    ∃ junk, memcpy buf 0 (line ++ [0]) = line ++ 0 :: junk :=
  ⟨buf.drop (0 + (line ++ [0]).length), by simp [memcpy]⟩

section
variable (buf : List UInt8) (name : CStr) (e : Entry)

theorem getpwnamLoop_newline {lines : List (List UInt8)} {r : Option Passwd}
    (h : ∀ buf, getpwnamLoop buf name lines = r) :
    getpwnamLoop buf name ((e.line ++ [newline]) :: lines) =
      if e.name = name then some e.read else r := by
  obtain ⟨junk, hmem⟩ := memcpy_line buf (e.line ++ [newline])
  have hbuf : memcpy buf 0 (e.line ++ [newline] ++ [0]) = e.line ++ newline :: 0 :: junk := by
    rw [hmem, List.append_assoc]
    rfl
  rw [getpwnamLoop, hbuf]
  by_cases hname : e.name = name
  · rw [if_pos hname, ← hname, e.getpwnamLine_found]
  · obtain ⟨buf', hother⟩ := e.getpwnamLine_other (newline :: 0 :: junk) hname
    rw [if_neg hname, hother]
    exact h buf'

theorem getpwnamLoop_end : getpwnamLoop buf name [e.line] = none := by
  obtain ⟨junk, hbuf⟩ := memcpy_line buf e.line
  rw [getpwnamLoop, hbuf]
  by_cases hname : e.name = name
  · rw [← hname, e.getpwnamLine_end]
  · obtain ⟨buf', hother⟩ := e.getpwnamLine_other (0 :: junk) hname
    rw [hother]
    rfl

end

theorem getpwnamLoop_content (final : Bool) (name : CStr) (es : List Entry) (buf : List UInt8) :
    getpwnamLoop buf name (fgets [] (content final es)) = lookup final name es := by
  induction es generalizing buf with
  | nil => rfl
  | cons e es ih =>
    cases es with
    | nil =>
      cases final with
      | true =>
        rw [content, if_pos rfl, fgets_newline, getpwnamLoop_newline buf name e fun _ => rfl]
        rfl
      | false =>
        rw [content, if_neg Bool.false_ne_true, List.append_nil, fgets_end, getpwnamLoop_end]
        simp [lookup]
    | cons e' es =>
      have hcontent : content final (e :: e' :: es) =
          e.line ++ newline :: content final (e' :: es) := rfl
      rw [hcontent, fgets_newline, getpwnamLoop_newline buf name e ih]
      simp [lookup]

/-! ## Numbers -/

theorem isdigit_iff {d : UInt8} : isdigit d = true ↔ 48 ≤ d.toNat ∧ d.toNat ≤ 57 := by
  rw [isdigit, Bool.and_eq_true, decide_eq_true_iff, decide_eq_true_iff, UInt8.le_iff_toNat_le,
    UInt8.le_iff_toNat_le]
  rfl

theorem isspace_of_digit {d : UInt8} (h : isdigit d = true) : isspace d = false := by
  rw [isdigit_iff] at h
  have hblank : d ≠ 32 := by rintro rfl; exact absurd h (by decide)
  have hcontrol : ¬ d ≤ 13 := by
    rw [UInt8.le_iff_toNat_le]
    exact fun hle => absurd (Nat.le_trans h.1 hle) (by decide)
  simp [isspace, hblank, hcontrol]

theorem atoi_number {f : CStr} (h : IsNumber f) : atoi f = decimal f.bytes := by
  obtain ⟨hne, hall, hlt⟩ := h
  have hdigits : ∀ d ∈ f.bytes, isdigit d = true := List.all_eq_true.1 hall
  obtain ⟨d, ds, hf⟩ := List.exists_cons_of_ne_nil hne
  have hd : isdigit d = true := hdigits d (hf ▸ List.mem_cons_self)
  have htake : f.bytes.takeWhile isdigit = f.bytes := List.takeWhile_eq_self_iff.2 hdigits
  have hspace : f.bytes.dropWhile isspace = f.bytes := by
    rw [hf, List.dropWhile_cons_of_neg (by rw [isspace_of_digit hd]; exact Bool.false_ne_true)]
  have hstrtol : strtol f = decimal f.bytes := by
    have hsign : d ≠ 45 ∧ d ≠ 43 := by
      constructor <;> (rintro rfl; exact absurd hd (by decide))
    rw [hf] at htake hspace hlt
    rw [strtol, hf, hspace]
    split
    · rename_i heq; exact absurd (List.cons.inj heq).1 hsign.1
    · rename_i heq; exact absurd (List.cons.inj heq).1 hsign.2
    · rw [htake]
      omega
  rw [atoi, hstrtol]
  exact Int.bmod_eq_of_le (by omega) (by omega)

theorem toNat_toUint16 (n : ℕ) : (toUint16 n).toNat = n % 2 ^ 16 := by
  rw [toUint16, UInt16.toNat_ofNat']
  omega

/-! ## The first entry of a name -/

/-- The fields of an entry, with its numbers in decimal. -/
structure Passwd.Is (pw : Passwd) (e : Entry) : Prop where
  name : pw.name = e.name
  passwd : pw.passwd = e.passwd
  uid : pw.uid.toNat = decimal e.uid.bytes
  gid : pw.gid.toNat = decimal e.gid.bytes
  gecos : pw.gecos = e.gecos
  dir : pw.dir = e.dir
  shell : pw.shell = e.shell

theorem Entry.read_is_iff (e : Entry) :
    e.read.Is e ↔ decimal e.uid.bytes < 2 ^ 16 ∧ decimal e.gid.bytes < 2 ^ 16 := by
  have hnum : ∀ {f : CStr}, IsNumber f →
      ((toUint16 (atoi f)).toNat = decimal f.bytes ↔ decimal f.bytes < 2 ^ 16) := by
    intro f hf
    rw [atoi_number hf, toNat_toUint16]
    exact Nat.mod_eq_iff_lt (by decide)
  constructor
  · intro h
    exact ⟨(hnum e.uidNumber).1 h.uid, (hnum e.gidNumber).1 h.gid⟩
  · rintro ⟨huid, hgid⟩
    exact ⟨rfl, rfl, (hnum e.uidNumber).2 huid, (hnum e.gidNumber).2 hgid, rfl, rfl, rfl⟩

/-- The first entry of a name, and those behind it. -/
def First (es : List Entry) (name : CStr) (e : Entry) (post : List Entry) : Prop :=
  ∃ pre, es = pre ++ e :: post ∧ (∀ e' ∈ pre, e'.name ≠ name) ∧ e.name = name

theorem lookup_first {es : List Entry} {name : CStr} {e : Entry} {post : List Entry} (final : Bool)
    (h : First es name e post) :
    lookup final name es = if final = true ∨ post ≠ [] then some e.read else none := by
  obtain ⟨pre, rfl, hpre, rfl⟩ := h
  induction pre with
  | nil => rw [List.nil_append, lookup, if_pos rfl]
  | cons e' pre ih =>
    rw [List.forall_mem_cons] at hpre
    rw [List.cons_append, lookup, if_neg hpre.1, ih hpre.2]

theorem first_or_none (es : List Entry) (name : CStr) :
    (∀ e ∈ es, e.name ≠ name) ∨ ∃ e post, First es name e post := by
  induction es with
  | nil => exact .inl (List.forall_mem_nil _)
  | cons e es ih =>
    by_cases hname : e.name = name
    · exact .inr ⟨e, es, [], rfl, List.forall_mem_nil _, hname⟩
    · rcases ih with hno | ⟨e', post, pre, rfl, hpre, hname'⟩
      · exact .inl (List.forall_mem_cons.2 ⟨hname, hno⟩)
      · exact .inr ⟨e', post, e :: pre, rfl, List.forall_mem_cons.2 ⟨hname, hpre⟩, hname'⟩

theorem lookup_none {es : List Entry} {name : CStr} (final : Bool) (h : ∀ e ∈ es, e.name ≠ name) :
    lookup final name es = none := by
  induction es with
  | nil => rfl
  | cons e es ih =>
    rw [List.forall_mem_cons] at h
    rw [lookup, if_neg h.1, ih h.2]

theorem First.mem {es : List Entry} {name : CStr} {e : Entry} {post : List Entry}
    (h : First es name e post) : e ∈ es ∧ e.name = name := by
  obtain ⟨pre, rfl, -, hname⟩ := h
  exact ⟨by simp, hname⟩

theorem First.unique {es : List Entry} {name : CStr} {e e' : Entry} {post post' : List Entry}
    (h : First es name e post) (h' : First es name e' post') : e = e' ∧ post = post' := by
  obtain ⟨pre, rfl, hpre, hname⟩ := h
  obtain ⟨pre', heq, hpre', hname'⟩ := h'
  induction pre generalizing pre' with
  | nil =>
    cases pre' with
    | nil => exact List.cons.inj heq
    | cons x pre' =>
      obtain ⟨rfl, -⟩ := List.cons.inj heq
      exact absurd hname (hpre' e List.mem_cons_self)
  | cons y pre ih =>
    rw [List.forall_mem_cons] at hpre
    cases pre' with
    | nil =>
      obtain ⟨rfl, -⟩ := List.cons.inj heq
      exact absurd hname' hpre.1
    | cons x pre' =>
      exact ih hpre.2 pre' (List.cons.inj heq).2 (List.forall_mem_cons.1 hpre').2

/-- The lookup returns the first entry of a name, and nothing exactly when there is
    none. -/
def Finds (buf : List UInt8) (f : File) (name : CStr) : Prop :=
  (getpwnam buf (some (content f.newline f.entries)) name = none ↔
    ∀ e ∈ f.entries, e.name ≠ name) ∧
  ∀ pw, getpwnam buf (some (content f.newline f.entries)) name = some pw →
    ∃ e post, First f.entries name e post ∧ pw.Is e

/-- **The lookup finds the first entry** of a name iff a newline comes after it and
    its numbers have no more than 16 bits. -/
theorem getpwnam_finds_iff (buf : List UInt8) (f : File) (name : CStr) :
    Finds buf f name ↔ ∀ e post, First f.entries name e post →
      (f.newline = true ∨ post ≠ []) ∧
        decimal e.uid.bytes < 2 ^ 16 ∧ decimal e.gid.bytes < 2 ^ 16 := by
  have hget : getpwnam buf (some (content f.newline f.entries)) name =
      lookup f.newline name f.entries := getpwnamLoop_content ..
  rw [Finds, hget]
  rcases first_or_none f.entries name with hno | ⟨e, post, hfirst⟩
  · rw [lookup_none _ hno]
    refine iff_of_true ⟨iff_of_true rfl hno, fun _ h => by cases h⟩ fun e post h => ?_
    exact absurd h.mem.2 (hno e h.mem.1)
  · rw [lookup_first _ hfirst]
    by_cases hend : f.newline = true ∨ post ≠ []
    · rw [if_pos hend]
      constructor
      · rintro ⟨-, his⟩ e' post' hfirst'
        obtain ⟨rfl, rfl⟩ := hfirst.unique hfirst'
        obtain ⟨e', post', hfirst', h⟩ := his e.read rfl
        obtain ⟨rfl, -⟩ := hfirst.unique hfirst'
        exact ⟨hend, e.read_is_iff.1 h⟩
      · intro h
        refine ⟨iff_of_false (Option.some_ne_none _) fun hno => hno e hfirst.mem.1 hfirst.mem.2, ?_⟩
        rintro pw ⟨⟩
        exact ⟨e, post, hfirst, e.read_is_iff.2 (h e post hfirst).2⟩
    · rw [if_neg hend]
      refine iff_of_false (fun h => ?_) fun h => hend (h e post hfirst).1
      exact h.1.1 rfl e hfirst.mem.1 hfirst.mem.2

theorem nulFree_blank : 0 ∉ "".toUTF8.data.toList := by decide

theorem nulFree_shell : 0 ∉ "/bin/sh".toUTF8.data.toList := by decide

def blank : CStr := .lit "" nulFree_blank

def shell : CStr := .lit "/bin/sh" nulFree_shell

theorem nulFree_root : 0 ∉ "root".toUTF8.data.toList := by decide

def root : CStr := .lit "root" nulFree_root

/-- A user with all fields given. -/
def user (name uid gid : CStr) (h : Plain name ∧ Plain uid ∧ Plain gid := by decide)
    (hnum : IsNumber uid ∧ IsNumber gid := by decide)
    (hlen : (line [name, .lit "x", uid, gid, blank, .lit "/", shell]).length < 1023 := by
      decide) : Entry where
  name := name
  passwd := .lit "x"
  uid := uid
  gid := gid
  gecos := blank
  dir := .lit "/"
  shell := shell
  plain := by
    simp only [List.forall_mem_cons]
    exact ⟨h.1, by decide, h.2.1, h.2.2, by decide, by decide, by decide, List.forall_mem_nil _⟩
  uidNumber := hnum.1
  gidNumber := hnum.2
  short := hlen

/-- A file with root, and a user whose number has 17 bits. -/
def twoUsers (newline : Bool) : File :=
  ⟨[user (.lit "app") (.lit "65536") (.lit "100"), user root (.lit "0") (.lit "0")], newline⟩

/-- **A user becomes root, and root is not found** in the last line without a
    newline. -/
theorem getpwnam_app_is_root :
    (¬ Finds [] (twoUsers true) (.lit "app") ∧
      (getpwnam [] (some (content true (twoUsers true).entries)) (.lit "app")).map (·.uid) =
        some 0) ∧
    ¬ Finds [] (twoUsers false) root ∧
      getpwnam [] (some (content false (twoUsers false).entries)) root = none := by
  have happ : (getpwnam [] (some (content true (twoUsers true).entries)) (.lit "app")).map (·.uid) =
      some 0 := by decide +kernel
  have hroot : getpwnam [] (some (content false (twoUsers false).entries)) root = none := by
    decide +kernel
  refine ⟨⟨fun h => ?_, happ⟩, fun h => ?_, hroot⟩
  · obtain ⟨pw, hpw, huid⟩ := Option.map_eq_some_iff.1 happ
    obtain ⟨e, post, hfirst, his⟩ := h.2 pw hpw
    obtain ⟨hmem, hname⟩ := hfirst.mem
    have hnum := his.uid
    rw [huid] at hnum
    simp only [twoUsers, List.mem_cons, List.not_mem_nil, or_false] at hmem
    rcases hmem with rfl | rfl
    · exact absurd hnum (by decide)
    · exact absurd hname (by decide)
  · exact h.1.1 hroot (user root (.lit "0") (.lit "0")) (by simp [twoUsers]) rfl

end Pwd

end WardenLinux
