/-
  JSON as a text.

  `print` writes a value without blanks, as Go's `encoding/json` does.  `read` takes the
  first value of a text: a machine that goes from one character to the next, with the
  arrays and objects that are open on a stack, and ends with the value; what comes
  after it is not looked at.

  * `run_print`: what is written is read, with whatever comes after it.
  * `run_append`: what was read, if it is not a number, is read from every longer text.
  * `read_of_isPrefix`: so a text that is cut off is not read.
-/
import Mathlib.Algebra.Group.Int.Defs
import Mathlib.Data.List.Basic
import WardenLinux.Lib.Decimal

namespace Json

/-- A value; a number is what is written. -/
inductive Value where
  | null
  | bool (b : Bool)
  | num (lit : List Char)
  | str (s : List Char)
  | arr (vs : List Value)
  | obj (fs : List (List Char × Value))

/-! ## Writing -/

def hexDigit (n : ℕ) : Char := Nat.digitChar n

/-- Four hexadecimal digits. -/
def hex4 (n : ℕ) : List Char :=
  [hexDigit (n / 4096 % 16), hexDigit (n / 256 % 16), hexDigit (n / 16 % 16), hexDigit (n % 16)]

/-- The characters that are written by their number: control characters, those that
    HTML would look at, and two that JavaScript takes for ends of lines. -/
def numbered (c : Char) : Bool :=
  c.toNat < 32 || c = '<' || c = '>' || c = '&' || c.toNat = 0x2028 || c.toNat = 0x2029

def escape (c : Char) : List Char :=
  if c = '"' ∨ c = '\\' then ['\\', c]
  else if c = '\n' then ['\\', 'n']
  else if c = '\r' then ['\\', 'r']
  else if numbered c then '\\' :: 'u' :: hex4 c.toNat
  else [c]

def quote (s : List Char) : List Char := '"' :: (s.flatMap escape ++ ['"'])

mutual

def print : Value → List Char
  | .null => "null".toList
  | .bool true => "true".toList
  | .bool false => "false".toList
  | .num lit => lit
  | .str s => quote s
  | .arr [] => ['[', ']']
  | .arr (v :: vs) => '[' :: (print v ++ printItems vs)
  | .obj [] => ['{', '}']
  | .obj ((k, v) :: fs) => '{' :: (quote k ++ ':' :: (print v ++ printFields fs))

/-- The other items of an array, and its end. -/
def printItems : List Value → List Char
  | [] => [']']
  | v :: vs => ',' :: (print v ++ printItems vs)

def printFields : List (List Char × Value) → List Char
  | [] => ['}']
  | (k, v) :: fs => ',' :: (quote k ++ ':' :: (print v ++ printFields fs))

end

/-! ## Reading -/

def space (c : Char) : Bool := c = ' ' || c = '\t' || c = '\n' || c = '\r'

/-- The characters of numbers. -/
def numeric (c : Char) : Bool := c.isDigit || c = '-' || c = '+' || c = '.' || c = 'e' || c = 'E'

/-- Some digits, and what comes after them. -/
def dropDigits (s : List Char) : Option (List Char) :=
  match s with
  | c :: _ => if c.isDigit then some (s.dropWhile Char.isDigit) else none
  | [] => none

def dropExponent : List Char → Option (List Char)
  | c :: s => if c = 'e' ∨ c = 'E' then
      match s with
      | '+' :: s => dropDigits s
      | '-' :: s => dropDigits s
      | s => dropDigits s
    else some (c :: s)
  | [] => some []

def dropFraction : List Char → Option (List Char)
  | '.' :: s => dropDigits s
  | s => some s

/-- A number begins with 0 only if it is its only digit before the point. -/
def dropInteger : List Char → Option (List Char)
  | '0' :: s => some s
  | s => dropDigits s

def dropSign : List Char → List Char
  | '-' :: s => s
  | s => s

def isNumber (lit : List Char) : Bool :=
  (((dropInteger (dropSign lit)).bind dropFraction).bind dropExponent) = some []

def hexValue (c : Char) : Option ℕ :=
  if c.isDigit then some (c.toNat - 48)
  else if 'a' ≤ c ∧ c ≤ 'f' then some (c.toNat - 87)
  else if 'A' ≤ c ∧ c ≤ 'F' then some (c.toNat - 55)
  else none

def highSurrogate (n : ℕ) : Bool := 0xD800 ≤ n && n < 0xDC00

def lowSurrogate (n : ℕ) : Bool := 0xDC00 ≤ n && n < 0xE000

/-- Where one is in a string: a high surrogate waits for the low one. -/
inductive Escape where
  | none
  | backslash
  | hex (digits n : ℕ)
  | high (h : ℕ)
  | highBackslash (h : ℕ)
  | highHex (h digits n : ℕ)
  deriving DecidableEq

/-- What stands for a surrogate without its other half. -/
def replacement : Char := Char.ofNat 0xFFFD

/-- The character with a number after what there is, or a surrogate to wait for. -/
def numberChar (s : List Char) (n : ℕ) : List Char × Escape :=
  if highSurrogate n then (s, .high n)
  else if lowSurrogate n then (s ++ [replacement], .none)
  else (s ++ [Char.ofNat n], .none)

/-- The second half of a pair, or something else. -/
def pairChar (s : List Char) (h n : ℕ) : List Char × Escape :=
  if lowSurrogate n then (s ++ [Char.ofNat (0x10000 + (h - 0xD800) * 1024 + (n - 0xDC00))], .none)
  else numberChar (s ++ [replacement]) n

/-- The character after a backslash. -/
def backslashed (s : List Char) (c : Char) : Option (List Char × Escape) :=
  if c = '"' ∨ c = '\\' ∨ c = '/' then some (s ++ [c], .none)
  else if c = 'b' then some (s ++ ['\x08'], .none)
  else if c = 'f' then some (s ++ ['\x0c'], .none)
  else if c = 'n' then some (s ++ ['\n'], .none)
  else if c = 'r' then some (s ++ ['\r'], .none)
  else if c = 't' then some (s ++ ['\t'], .none)
  else if c = 'u' then some (s, .hex 0 0)
  else none

/-- A character of a string that is not its end. -/
def plain (s : List Char) (c : Char) : Option (List Char × Escape) :=
  if c = '\\' then some (s, .backslash)
  else if c.toNat < 32 then none
  else some (s ++ [c], .none)

/-- One more character of a string, with what there is of it; the quote that ends it is
    none of them. -/
def stringStep (s : List Char) (c : Char) : Escape → Option (List Char × Escape)
  | .none => plain s c
  | .backslash => backslashed s c
  | .hex d n => (hexValue c).map fun v =>
      if d = 3 then numberChar s (n * 16 + v) else (s, .hex (d + 1) (n * 16 + v))
  | .high h => if c = '\\' then some (s, .highBackslash h) else plain (s ++ [replacement]) c
  | .highBackslash h =>
    if c = 'u' then some (s, .highHex h 0 0) else backslashed (s ++ [replacement]) c
  | .highHex h d n => (hexValue c).map fun v =>
      if d = 3 then pairChar s h (n * 16 + v) else (s, .highHex h (d + 1) (n * 16 + v))

/-- A quote is escaped. -/
def Escape.quotes : Escape → Bool
  | backslash | highBackslash _ => true
  | _ => false

/-- A string ends, but not in the middle of an escape. -/
def stringEnd (s : List Char) : Escape → Option (List Char)
  | .none => some s
  | .high _ => some (s ++ [replacement])
  | _ => none

/-- An array or an object that is open, with what there is of it. -/
inductive Frame where
  | arr (done : List Value)
  | obj (done : List (List Char × Value)) (key : List Char)

/-- What the machine waits for. -/
inductive State where
  /-- a value, or the end of an array that has just begun -/
  | value (k : List Frame) (first : Bool)
  /-- a key, or the end of an object that has just begun -/
  | key (k : List Frame) (done : List (List Char × Value)) (first : Bool)
  | colon (k : List Frame) (done : List (List Char × Value)) (key : List Char)
  /-- what comes after a value -/
  | after (k : List Frame) (v : Value)
  /-- the rest of a string, which is a value, or a key after some fields -/
  | str (k : List Frame) (fields : Option (List (List Char × Value))) (s : List Char) (e : Escape)
  | num (k : List Frame) (lit : List Char)
  | word (k : List Frame) (rest : List Char) (v : Value)

/-- A value begins. -/
def begin (k : List Frame) (c : Char) : Option State :=
  if c = '"' then some (.str k none [] .none)
  else if c = '{' then some (.key k [] true)
  else if c = '[' then some (.value (.arr [] :: k) true)
  else if c = 'n' then some (.word k "ull".toList .null)
  else if c = 't' then some (.word k "rue".toList (.bool true))
  else if c = 'f' then some (.word k "alse".toList (.bool false))
  else if c = '-' ∨ c.isDigit then some (.num k [c])
  else none

/-- A value has ended in an array or an object. -/
def next (k : List Frame) (v : Value) (c : Char) : Frame → Option State
  | .arr done =>
    if c = ',' then some (.value (.arr (done ++ [v]) :: k) false)
    else if c = ']' then some (.after k (.arr (done ++ [v])))
    else none
  | .obj done key =>
    if c = ',' then some (.key k (done ++ [(key, v)]) false)
    else if c = '}' then some (.after k (.obj (done ++ [(key, v)])))
    else none

def afterValue (k : List Frame) (v : Value) (c : Char) : Option State :=
  match k with
  | f :: k => if space c then some (.after (f :: k) v) else next k v c f
  | [] => none

/-- A string has ended. -/
def endString (k : List Frame) (s : List Char) : Option (List (List Char × Value)) → State
  | none => .after k (.str s)
  | some done => .colon k done s

def step : State → Char → Option State
  | .value k first, c =>
    if space c then some (.value k first)
    else if first ∧ c = ']' then
      match k with
      | .arr [] :: k => some (.after k (.arr []))
      | _ => none
    else begin k c
  | .key k done first, c =>
    if space c then some (.key k done first)
    else if c = '"' then some (.str k (some done) [] .none)
    else if first ∧ c = '}' then some (.after k (.obj []))
    else none
  | .colon k done key, c =>
    if space c then some (.colon k done key)
    else if c = ':' then some (.value (.obj done key :: k) false)
    else none
  | .after k v, c => afterValue k v c
  | .str k fields s e, c =>
    if c = '"' ∧ e.quotes = false then
      (stringEnd s e).map fun s => endString k s fields
    else (stringStep s c e).map fun p => .str k fields p.1 p.2
  | .num k lit, c =>
    if numeric c then some (.num k (lit ++ [c]))
    else if isNumber lit then afterValue k (.num lit) c
    else none
  | .word k rest v, c =>
    match rest with
    | r :: rest => if c = r then some (if rest = [] then .after k v else .word k rest v) else none
    | [] => none

/-- The value that is whole before a character, or before the end of the text; a number
    that stands alone ends where no character of a number comes. -/
def whole : State → Option Char → Option Value
  | .after [] v, _ => some v
  | .num [] lit, c => if c.all (!numeric ·) && isNumber lit then some (.num lit) else none
  | _, _ => none

def run (σ : State) : List Char → Option (Value × List Char)
  | [] => (whole σ none).map fun v => (v, [])
  | c :: s =>
    match whole σ (some c) with
    | some v => some (v, c :: s)
    | none => (step σ c).bind fun σ' => run σ' s

/-- The first value of a text, and what comes after it. -/
def read (s : List Char) : Option (Value × List Char) := run (.value [] false) s

/-! ## What is written is read -/

section

variable {k : List Frame} {b : Bool} {fields : Option (List (List Char × Value))}
  {done : List (List Char × Value)} {s t : List Char} {c : Char} {σ : State}

theorem run_cons (h : whole σ (some c) = none) :
    run σ (c :: s) = (step σ c).bind fun σ' => run σ' s := by
  rw [run, h]

theorem run_str : run (.str k fields s .none) (c :: t) =
    if c = '"' then run (endString k s fields) t
    else (plain s c).bind fun p => run (.str k fields p.1 p.2) t := by
  rw [run_cons rfl, step]
  by_cases hc : c = '"'
  · rw [if_pos ⟨hc, rfl⟩, if_pos hc]
    rfl
  · rw [if_neg fun h => hc h.1, if_neg hc, stringStep, Option.bind_map]
    rfl

theorem hexValue_hexDigit : ∀ n < 16, hexValue (hexDigit n) = some n := by decide

theorem hexDigit_ne_quote : ∀ n < 16, hexDigit n ≠ '"' := by decide

theorem run_hex {d n v : ℕ} (hv : v < 16) : run (.str k fields s (.hex d n)) (hexDigit v :: t) =
    if d = 3 then run (.str k fields (numberChar s (n * 16 + v)).1 (numberChar s (n * 16 + v)).2) t
    else run (.str k fields s (.hex (d + 1) (n * 16 + v))) t := by
  rw [run_cons rfl, step, if_neg fun h => hexDigit_ne_quote v hv h.1, stringStep,
    hexValue_hexDigit v hv]
  split
  · simp
  · simp

/-- Four digits give the character with the number. -/
theorem run_hex4 {n : ℕ} (hn : n < 65536) (hh : highSurrogate n = false) (hl : lowSurrogate n = false) :
    run (.str k fields s (.hex 0 0)) (hex4 n ++ t) =
      run (.str k fields (s ++ [Char.ofNat n]) .none) t := by
  have hmod : ∀ m, m % 16 < 16 := fun m => Nat.mod_lt _ (by decide)
  have hval : (((0 * 16 + n / 4096 % 16) * 16 + n / 256 % 16) * 16 + n / 16 % 16) * 16 + n % 16 = n := by
    omega
  simp only [hex4, List.cons_append, List.nil_append, run_hex (hmod _), Nat.reduceAdd, Nat.reduceEqDiff,
    if_false, if_true, hval]
  rw [numberChar, if_neg (by simp [hh]), if_neg (by simp [hl])]

theorem run_escape (c : Char) : run (.str k fields s .none) (escape c ++ t) =
    run (.str k fields (s ++ [c]) .none) t := by
  unfold escape
  split
  next hc =>
    have hback : run (.str k fields s .none) ('\\' :: c :: t) = run (.str k fields s .backslash) (c :: t) := by
      rw [run_str, if_neg (by decide)]; rfl
    rw [List.cons_append, List.cons_append, List.nil_append, hback, run_cons rfl, step,
      if_neg fun h => absurd h.2 (by decide), stringStep, backslashed,
      if_pos (by tauto)]
    rfl
  next hc =>
    rw [not_or] at hc
    split
    next hn => subst hn; rfl
    next hn =>
      split
      next hr => subst hr; rfl
      next hr =>
        split
        next hnum =>
          have hu : run (.str k fields s .none) ('\\' :: 'u' :: (hex4 c.toNat ++ t)) =
              run (.str k fields s (.hex 0 0)) (hex4 c.toNat ++ t) := rfl
          have hsmall : c.toNat < 65536 ∧ highSurrogate c.toNat = false ∧ lowSurrogate c.toNat = false := by
            simp only [numbered, Bool.or_eq_true, decide_eq_true_eq] at hnum
            rcases hnum with ((((h | h) | h) | h) | h) | h
            · simp [highSurrogate, lowSurrogate]; omega
            all_goals first | subst h; decide | simp [h, highSurrogate, lowSurrogate]
          rw [List.cons_append, List.cons_append, hu, run_hex4 hsmall.1 hsmall.2.1 hsmall.2.2,
            Char.ofNat_toNat]
        next hnum =>
          have hlt : ¬ c.toNat < 32 := by
            intro h
            simp [numbered, h] at hnum
          rw [List.cons_append, List.nil_append, run_str, if_neg hc.1, plain, if_neg hc.2, if_neg hlt]
          rfl

theorem run_string : ∀ (s' s : List Char), run (.str k fields s .none) (s'.flatMap escape ++ '"' :: t) =
    run (endString k (s ++ s') fields) t := by
  intro s'
  induction s' with
  | nil =>
    intro s
    rw [List.flatMap_nil, List.nil_append, List.append_nil, run_str, if_pos rfl]
  | cons c s' ih =>
    intro s
    rw [List.flatMap_cons, List.append_assoc, run_escape, ih, List.append_assoc]
    rfl

theorem run_quote_value : run (.value k b) (quote s ++ t) = run (.after k (.str s)) t := by
  have hbegin : run (.value k b) ('"' :: (s.flatMap escape ++ '"' :: t)) =
      run (.str k none [] .none) (s.flatMap escape ++ '"' :: t) := by
    rw [run_cons rfl]
    cases b <;> rfl
  rw [quote, List.cons_append, List.append_assoc, List.singleton_append, hbegin, run_string]
  rfl

theorem run_quote_key : run (.key k done b) (quote s ++ t) = run (.colon k done s) t := by
  have hbegin : run (.key k done b) ('"' :: (s.flatMap escape ++ '"' :: t)) =
      run (.str k (some done) [] .none) (s.flatMap escape ++ '"' :: t) := by
    rw [run_cons rfl]
    rfl
  rw [quote, List.cons_append, List.append_assoc, List.singleton_append, hbegin, run_string]
  rfl

/-- A text that does not go on with a number. -/
def Stops (t : List Char) : Prop := ∀ c ∈ t.head?, numeric c = false

/-- A number as it is written. -/
def ValidNum (lit : List Char) : Prop :=
  (∃ c s, lit = c :: s ∧ (c = '-' ∨ c.isDigit = true) ∧ ∀ d ∈ s, numeric d = true) ∧ isNumber lit = true

theorem run_num_digits : ∀ (ds lit : List Char), (∀ d ∈ ds, numeric d = true) →
    run (.num k lit) (ds ++ t) = run (.num k (lit ++ ds)) t := by
  intro ds
  induction ds with
  | nil => intro lit _; rw [List.nil_append, List.append_nil]
  | cons d ds ih =>
    intro lit hds
    have hd := hds d List.mem_cons_self
    have hwhole : whole (.num k lit) (some d) = none := by
      cases k with
      | nil => simp [whole, hd]
      | cons f k => rfl
    rw [List.cons_append, run_cons hwhole, step, if_pos hd, Option.bind_some,
      ih _ fun e he => hds e (List.mem_cons_of_mem _ he), List.append_assoc]
    rfl

theorem step_num {lit : List Char} : step (.num k lit) c =
    if numeric c then some (.num k (lit ++ [c]))
    else if isNumber lit then afterValue k (.num lit) c
    else none := rfl

theorem whole_num {lit : List Char} {o : Option Char} (hlit : isNumber lit = true)
    (ho : o.all (!numeric ·) = true) : whole (.num k lit) o = whole (.after k (.num lit)) o := by
  cases k with
  | nil => exact if_pos (by rw [ho, hlit]; rfl)
  | cons f k => rfl

/-- A number ends where no character of a number comes. -/
theorem run_num_end {lit : List Char} (hlit : isNumber lit = true) (ht : Stops t) :
    run (.num k lit) t = run (.after k (.num lit)) t := by
  cases t with
  | nil => rw [run, run, whole_num hlit rfl]
  | cons c t =>
    have hc : numeric c = false := ht c rfl
    have hwhole : whole (.num k lit) (some c) = whole (.after k (.num lit)) (some c) :=
      whole_num hlit (by simp [hc])
    have hstep : step (.num k lit) c = step (.after k (.num lit)) c := by
      rw [step_num, if_neg (by simp [hc]), if_pos hlit]
      rfl
    rw [run, run, hwhole, hstep]

theorem begin_num (hc : c = '-' ∨ c.isDigit = true) : begin k c = some (.num k [c]) := by
  have hne : ∀ d : Char, d ≠ '-' → d.isDigit = false → c ≠ d := by
    rintro d hd hd' rfl
    rcases hc with hc | hc
    · exact hd hc
    · rw [hd'] at hc; cases hc
  unfold begin
  rw [if_neg (hne _ (by decide) (by decide)), if_neg (hne _ (by decide) (by decide)),
    if_neg (hne _ (by decide) (by decide)), if_neg (hne _ (by decide) (by decide)),
    if_neg (hne _ (by decide) (by decide)), if_neg (hne _ (by decide) (by decide)), if_pos hc]

/-- The first character of a value. -/
theorem run_value_cons (hs : space c = false) (hc : c ≠ ']') :
    run (.value k b) (c :: t) = (begin k c).bind fun σ => run σ t := by
  have hstep : step (.value k b) c = begin k c := by
    simp only [step, hs, hc, and_false, Bool.false_eq_true, if_false]
  rw [run_cons rfl, hstep]

theorem run_num {lit : List Char} (hlit : ValidNum lit) (ht : Stops t) :
    run (.value k b) (lit ++ t) = run (.after k (.num lit)) t := by
  obtain ⟨⟨c, ds, rfl, hc, hds⟩, hnum⟩ := hlit
  have hne : ∀ d : Char, d ≠ '-' → d.isDigit = false → c ≠ d := by
    rintro d hd hd' rfl
    rcases hc with hc | hc
    · exact hd hc
    · rw [hd'] at hc; cases hc
  have hspace : space c = false := by
    simp [space, hne ' ' (by decide) (by decide), hne '\t' (by decide) (by decide),
      hne '\n' (by decide) (by decide), hne '\r' (by decide) (by decide)]
  rw [List.cons_append, run_value_cons hspace (hne _ (by decide) (by decide)), begin_num hc,
    Option.bind_some, run_num_digits ds [c] hds]
  exact run_num_end hnum ht

mutual

/-- The numbers of a value are numbers. -/
def Valid : Value → Prop
  | .num lit => ValidNum lit
  | .arr vs => ValidItems vs
  | .obj fs => ValidFields fs
  | _ => True

def ValidItems : List Value → Prop
  | [] => True
  | v :: vs => Valid v ∧ ValidItems vs

def ValidFields : List (List Char × Value) → Prop
  | [] => True
  | (_, v) :: fs => Valid v ∧ ValidFields fs

end

theorem stops_cons (h : numeric c = false) : Stops (c :: t) := by
  intro d hd
  cases hd
  exact h

theorem stops_items (vs : List Value) : Stops (printItems vs ++ t) := by
  cases vs with
  | nil => rw [printItems]; exact stops_cons (by decide)
  | cons v vs => rw [printItems]; exact stops_cons (by decide)

theorem stops_fields (fs : List (List Char × Value)) : Stops (printFields fs ++ t) := by
  cases fs with
  | nil => rw [printFields]; exact stops_cons (by decide)
  | cons f fs => rw [printFields]; exact stops_cons (by decide)

/-- A key and the colon after it. -/
theorem run_key : run (.key k done b) (quote s ++ ':' :: t) = run (.value (.obj done s :: k) false) t := by
  rw [run_quote_key, run_cons rfl]
  rfl

mutual

/-- **What is written is read**, whatever comes after it. -/
theorem run_print : ∀ (v : Value), Valid v → ∀ (k : List Frame) (b : Bool) (t : List Char), Stops t →
    run (.value k b) (print v ++ t) = run (.after k v) t
  | .null, _, k, b, t, _ => by rw [print]; cases b <;> rfl
  | .bool true, _, k, b, t, _ => by rw [print]; cases b <;> rfl
  | .bool false, _, k, b, t, _ => by rw [print]; cases b <;> rfl
  | .num lit, hv, k, b, t, ht => by rw [print]; exact run_num hv ht
  | .str s, _, k, b, t, _ => by rw [print]; exact run_quote_value
  | .arr [], _, k, b, t, _ => by rw [print]; cases b <;> rfl
  | .arr (v :: vs), hv, k, b, t, _ => by
    obtain ⟨hv, hvs⟩ := hv
    rw [print, List.cons_append, List.append_assoc, run_value_cons (by decide) (by decide)]
    exact (run_print v hv (.arr [] :: k) true _ (stops_items vs)).trans (run_items vs hvs k [] v t)
  | .obj [], _, k, b, t, _ => by rw [print]; cases b <;> rfl
  | .obj ((key, v) :: fs), hv, k, b, t, _ => by
    obtain ⟨hv, hfs⟩ := hv
    rw [print, List.cons_append, List.append_assoc, List.cons_append, List.append_assoc,
      run_value_cons (by decide) (by decide)]
    refine (run_key (b := true)).trans ?_
    exact (run_print v hv (.obj [] key :: k) false _ (stops_fields fs)).trans (run_fields fs hfs k [] key v t)

theorem run_items : ∀ (vs : List Value), ValidItems vs → ∀ (k : List Frame) (done : List Value)
    (v : Value) (t : List Char), run (.after (.arr done :: k) v) (printItems vs ++ t) =
      run (.after k (.arr (done ++ v :: vs))) t
  | [], _, k, done, v, t => by
    rw [printItems, List.singleton_append, run_cons rfl]
    rfl
  | w :: ws, hvs, k, done, v, t => by
    obtain ⟨hw, hws⟩ := hvs
    rw [printItems, List.cons_append, List.append_assoc, run_cons rfl]
    refine (run_print w hw (.arr (done ++ [v]) :: k) false _ (stops_items ws)).trans ?_
    rw [run_items ws hws, List.append_assoc]
    rfl

theorem run_fields : ∀ (fs : List (List Char × Value)), ValidFields fs → ∀ (k : List Frame)
    (done : List (List Char × Value)) (key : List Char) (v : Value) (t : List Char),
    run (.after (.obj done key :: k) v) (printFields fs ++ t) =
      run (.after k (.obj (done ++ (key, v) :: fs))) t
  | [], _, k, done, key, v, t => by
    rw [printFields, List.singleton_append, run_cons rfl]
    rfl
  | (key', w) :: fs, hfs, k, done, key, v, t => by
    obtain ⟨hw, hfs⟩ := hfs
    rw [printFields, List.cons_append, List.append_assoc, List.cons_append, List.append_assoc, run_cons rfl]
    refine (run_key (b := false)).trans ?_
    refine (run_print w hw (.obj (done ++ [(key, v)]) key' :: k) false _ (stops_fields fs)).trans ?_
    rw [run_fields fs hfs, List.append_assoc]
    rfl

end

theorem read_print {v : Value} (hv : Valid v) (ht : Stops t) : read (print v ++ t) = some (v, t) := by
  rw [read, run_print v hv [] false t ht]
  cases t <;> rfl

/-! ## Texts that are cut off -/

/-- A number can go on where the text ends. -/
def Value.isNum : Value → Bool
  | num _ => true
  | _ => false

theorem whole_isNum {v : Value} {o : Option Char} (h : whole σ none = some v) (hv : v.isNum = false) :
    whole σ o = some v := by
  unfold whole at h ⊢
  split at h
  · exact h
  · split at h
    · cases h; cases hv
    · cases h
  · cases h

/-- What was read is read from every longer text. -/
theorem run_append {v : Value} {r : List Char} (q : List Char) (hv : v.isNum = false) :
    ∀ {p : List Char} {σ : State}, run σ p = some (v, r) → run σ (p ++ q) = some (v, r ++ q) := by
  intro p
  induction p with
  | nil =>
    intro σ h
    obtain ⟨w, hw, he⟩ := Option.map_eq_some_iff.1 h
    cases he
    have hq : ∀ o, whole σ o = some v := fun o => whole_isNum hw hv
    cases q with
    | nil => simp [run, hq]
    | cons c q => simp [run, hq]
  | cons c p ih =>
    intro σ h
    rw [run] at h
    rw [List.cons_append, run]
    split at h
    · cases h; rfl
    · obtain ⟨σ', hσ, hr⟩ := Option.bind_eq_some_iff.1 h
      rw [hσ]
      exact ih hr

/-- **A text that is cut off is not read.** -/
theorem read_of_isPrefix {v : Value} (hv : Valid v) {p q : List Char}
    (h : p ++ q = print v) (hq : q ≠ []) (w : Value) (r : List Char) (hw : w.isNum = false) :
    read p ≠ some (w, r) := by
  intro hp
  have hlong : read (p ++ q) = some (w, r ++ q) := run_append q hw hp
  have hall : read (print v ++ []) = some (v, []) := read_print hv fun c hc => by cases hc
  rw [h, ← List.append_nil (print v), hall] at hlong
  obtain ⟨-, hnil⟩ := Prod.mk.inj (Option.some.inj hlong)
  exact hq (List.append_eq_nil_iff.1 hnil.symm).2

end

/-! ## Numbers -/

/-- Only 0 begins with 0. -/
theorem digits_zero : ∀ (n : ℕ) {cs : List Char}, Nat.toDigits 10 n = '0' :: cs → cs = [] := by
  intro n
  induction n using Nat.strong_induction_on with
  | _ n ih =>
    intro cs h
    by_cases hn : n < 10
    · rw [Nat.toDigits_of_lt_base hn] at h
      exact (List.cons.inj h).2.symm
    · obtain ⟨c, ds, hds, -⟩ := Decimal.exists_digit (n / 10)
      have hsplit := Nat.toDigits_of_base_le (b := 10) (by decide) (Nat.le_of_not_lt hn)
      rw [hsplit, hds] at h
      -- the first digit is the one of the tenth, which is not 0
      obtain ⟨rfl, -⟩ := List.cons.inj h
      have hnil := ih (n / 10) (by omega) hds
      subst hnil
      have hzero : n / 10 = 0 := by
        have hval := congrArg (fun l => Nat.ofDigitChars 10 l 0) hds
        simp only [Nat.ofDigitChars_ten_toDigits] at hval
        rw [hval]
        decide
      omega

theorem drop_digits (n : ℕ) : ((dropInteger (Nat.toDigits 10 n)).bind dropFraction).bind dropExponent =
    some [] := by
  have hall : ∀ c ∈ Nat.toDigits 10 n, c.isDigit = true := fun c => Decimal.isDigit_of_mem
  obtain ⟨c, cs, hds, hc⟩ := Decimal.exists_digit n
  have hint : dropInteger (Nat.toDigits 10 n) = some [] := by
    by_cases h0 : c = '0'
    · subst h0
      rw [hds, digits_zero n hds]
      rfl
    · rw [hds] at hall ⊢
      have hdrop : dropInteger (c :: cs) = dropDigits (c :: cs) := by
        rw [dropInteger]
        rintro s ⟨⟩
        exact h0 rfl
      rw [hdrop, dropDigits, if_pos hc, List.dropWhile_eq_nil_iff.2 hall]
  rw [hint]
  rfl

theorem numeric_of_isDigit {c : Char} (h : c.isDigit = true) : numeric c = true := by
  simp [numeric, h]

theorem validNum_digits (n : ℕ) : ValidNum (Nat.toDigits 10 n) := by
  obtain ⟨c, cs, hds, hc⟩ := Decimal.exists_digit n
  have hmem : ∀ d ∈ cs, numeric d = true := fun d hd =>
    numeric_of_isDigit (Decimal.isDigit_of_mem (n := n) (hds ▸ List.mem_cons_of_mem _ hd))
  refine ⟨⟨c, cs, hds, .inr hc, hmem⟩, ?_⟩
  have hsign : dropSign (Nat.toDigits 10 n) = Nat.toDigits 10 n := by
    rw [hds, dropSign]
    rintro s ⟨⟩
    exact absurd hc (by decide)
  rw [isNumber, hsign, drop_digits]
  rfl

theorem validNum_neg (n : ℕ) : ValidNum ('-' :: Nat.toDigits 10 n) := by
  refine ⟨⟨'-', _, rfl, .inl rfl, fun d hd => numeric_of_isDigit (Decimal.isDigit_of_mem hd)⟩, ?_⟩
  rw [isNumber, dropSign, drop_digits]
  rfl

theorem validItems_map {α : Type} {f : α → Value} (h : ∀ a, Valid (f a)) (l : List α) :
    ValidItems (l.map f) := by
  induction l with
  | nil => trivial
  | cons a l ih => exact ⟨h a, ih⟩

theorem validFields_map {α : Type} {f : α → List Char × Value} (h : ∀ a, Valid (f a).2) (l : List α) :
    ValidFields (l.map f) := by
  induction l with
  | nil => trivial
  | cons a l ih => exact ⟨h a, ih⟩

/-! ## Values of Go -/

def text (s : String) : Value := .str s.toList

def number (n : ℕ) : Value := .num (Nat.toDigits 10 n)

def integer : ℤ → Value
  | .ofNat n => number n
  | .negSucc n => .num ('-' :: Nat.toDigits 10 (n + 1))

/-- A slice that is nil when it is empty. -/
def slice {α : Type} (f : α → Value) : List α → Value
  | [] => .null
  | a :: l => .arr ((a :: l).map f)

def pointer {α : Type} (f : α → Value) : Option α → Value
  | none => .null
  | some a => f a

/-- A field of a structure: its name, and how it is decoded. -/
structure Field (σ : Type) where
  name : String
  set : Value → σ → Option σ

/-- The members of an object in the order of the fields. -/
def members {σ : Type} (fields : List (Field σ)) (vs : List Value) : List (List Char × Value) :=
  (fields.zip vs).map fun p => (p.1.name.toList, p.2)

/-! A value is decoded into something that is there: what it does not say stays as it is. -/

def decodeText : Value → String → Option String
  | .str s, _ => some (String.ofList s)
  | .null, old => some old
  | _, _ => none

def decodeBool : Value → Bool → Option Bool
  | .bool b, _ => some b
  | .null, old => some old
  | _, _ => none

def decodeNumber {α : Type} (f : List Char → Option α) : Value → α → Option α
  | .num lit, _ => f lit
  | .null, old => some old
  | _, _ => none

def decodeUint32 : Value → UInt32 → Option UInt32 :=
  decodeNumber fun lit => (Decimal.parse 32 lit).map UInt32.ofNat

def decodeUint64 : Value → UInt64 → Option UInt64 :=
  decodeNumber fun lit => (Decimal.parse 64 lit).map UInt64.ofNat

/-- An integer of 64 bits with a sign. -/
def parseInt : List Char → Option ℤ
  | '-' :: ds => (Decimal.parse 64 ds).bind fun n => if n ≤ 2 ^ 63 then some (-n) else none
  | ds => (Decimal.parse 63 ds).map Int.ofNat

def decodeInt64 : Value → ℤ → Option ℤ := decodeNumber parseInt

/-- The field for a key: the one of that name, or else the first that differs only in
    upper and lower case. -/
def findField {σ : Type} (fields : List (Field σ)) (key : List Char) : Option (Field σ) :=
  (fields.find? fun f => f.name.toList = key).or
    (fields.find? fun f => f.name.toList.map Char.toLower = key.map Char.toLower)

/-- One member of an object, unless the structure has no field for it. -/
def decodeMember {σ : Type} (fields : List (Field σ)) (s : σ) (m : List Char × Value) : Option σ :=
  match findField fields m.1 with
  | some f => f.set m.2 s
  | none => some s

def decodeStruct {σ : Type} (fields : List (Field σ)) : Value → σ → Option σ
  | .obj ms, s => ms.foldlM (decodeMember fields) s
  | .null, s => some s
  | _, _ => none

/-- The items of an array, each decoded into `zero`. -/
def decodeSlice {α : Type} (f : Value → α → Option α) (zero : α) : Value → List α → Option (List α)
  | .arr vs, _ => vs.mapM fun v => f v zero
  | .null, _ => some []
  | _, _ => none

/-- What a pointer points to, `zero` if it was nil. -/
def decodePointer {α : Type} (f : Value → α → Option α) (zero : α) : Value → Option α → Option (Option α)
  | .null, _ => some none
  | v, old => (f v (old.getD zero)).map some

section

variable {α σ : Type} {fields : List (Field σ)}

theorem findField_name (hn : (fields.map Field.name).Nodup) {f : Field σ} (hf : f ∈ fields) :
    findField fields f.name.toList = some f := by
  have hfind : (fields.find? fun g => g.name.toList = f.name.toList) = some f := by
    induction fields with
    | nil => cases hf
    | cons g fields ih =>
      rw [List.map_cons, List.nodup_cons] at hn
      rcases List.mem_cons.1 hf with rfl | hf
      · exact List.find?_cons_of_pos (by simp)
      · have hne : g.name ≠ f.name := fun h => hn.1 (h ▸ List.mem_map_of_mem hf)
        rw [List.find?_cons_of_neg (by simpa using fun h => hne (String.toList_inj.1 h))]
        exact ih hn.2 hf
  rw [findField, hfind]
  rfl

/-- An object with a member for each field sets one after the other. -/
theorem decodeStruct_members (hn : (fields.map Field.name).Nodup) (vs : List Value) (s : σ) :
    decodeStruct fields (.obj (members fields vs)) s =
      (fields.zip vs).foldlM (fun s p => p.1.set p.2 s) s := by
  have hall : ∀ (ps : List (Field σ × Value)), (∀ p ∈ ps, p.1 ∈ fields) → ∀ s,
      (ps.map fun p => (p.1.name.toList, p.2)).foldlM (decodeMember fields) s =
        ps.foldlM (fun s p => p.1.set p.2 s) s := by
    intro ps
    induction ps with
    | nil => intro _ _; rfl
    | cons p ps ih =>
      intro hps s
      have hp : decodeMember fields s (p.1.name.toList, p.2) = p.1.set p.2 s := by
        rw [decodeMember, findField_name hn (hps p List.mem_cons_self)]
      rw [List.map_cons, List.foldlM_cons, List.foldlM_cons, hp]
      congr 1
      funext s'
      exact ih (fun q hq => hps q (List.mem_cons_of_mem _ hq)) s'
  exact hall _ (fun p hp => (List.of_mem_zip hp).1) s

/-- Items that are decoded one by one. -/
theorem decodeSlice_map {f : Value → α → Option α} {zero : α} {g : α → Value}
    (h : ∀ a, f (g a) zero = some a) (l old : List α) :
    decodeSlice f zero (.arr (l.map g)) old = some l := by
  rw [decodeSlice]
  induction l with
  | nil => rfl
  | cons a l ih =>
    rw [List.map_cons, List.mapM_cons, h a, ih]
    rfl

theorem decodeSlice_slice {f : Value → α → Option α} {zero : α} {g : α → Value}
    (h : ∀ a, f (g a) zero = some a) (l old : List α) :
    decodeSlice f zero (slice g l) old = some l := by
  cases l with
  | nil => rfl
  | cons a l => exact decodeSlice_map h (a :: l) old

theorem decodePointer_pointer {f : Value → α → Option α} {zero : α} {g : α → Value}
    (h : ∀ a old, f (g a) old = some a) (hg : ∀ a, g a ≠ .null) (o old : Option α) :
    decodePointer f zero (pointer g o) old = some o := by
  cases o with
  | none => rfl
  | some a =>
    rw [pointer, decodePointer, h]
    · rfl
    · exact hg a

end

@[simp]
theorem valid_text (s : String) : Valid (text s) := trivial

@[simp]
theorem valid_number (n : ℕ) : Valid (number n) := validNum_digits n

theorem valid_integer (n : ℤ) : Valid (integer n) := by
  cases n with
  | ofNat n => exact validNum_digits n
  | negSucc n => exact validNum_neg (n + 1)

theorem valid_slice {α : Type} {f : α → Value} (h : ∀ a, Valid (f a)) (l : List α) :
    Valid (slice f l) := by
  cases l with
  | nil => trivial
  | cons a l => exact validItems_map h (a :: l)

theorem valid_pointer {α : Type} {f : α → Value} (h : ∀ a, Valid (f a)) (o : Option α) :
    Valid (pointer f o) := by
  cases o with
  | none => trivial
  | some a => exact h a

@[simp]
theorem decodeText_text (s old : String) : decodeText (text s) old = some s := by
  rw [text, decodeText, String.ofList_toList]

@[simp]
theorem decodeUint32_number (n old : UInt32) : decodeUint32 (number n.toNat) old = some n := by
  rw [decodeUint32, number, decodeNumber, Decimal.parse_digits n.toNat_lt, Option.map_some,
    UInt32.ofNat_toNat]

@[simp]
theorem decodeUint64_number (n old : UInt64) : decodeUint64 (number n.toNat) old = some n := by
  rw [decodeUint64, number, decodeNumber, Decimal.parse_digits n.toNat_lt, Option.map_some,
    UInt64.ofNat_toNat]

theorem decodeInt64_integer {n : ℤ} (hl : -2 ^ 63 ≤ n) (hu : n < 2 ^ 63) (old : ℤ) :
    decodeInt64 (integer n) old = some n := by
  cases n with
  | ofNat n =>
    have hn : n < 2 ^ 63 := by
      rw [Int.ofNat_eq_natCast] at hu
      omega
    obtain ⟨c, cs, hds, hc⟩ := Decimal.exists_digit n
    have hparse : parseInt (Nat.toDigits 10 n) = (Decimal.parse 63 (Nat.toDigits 10 n)).map Int.ofNat := by
      rw [hds, parseInt]
      rintro s ⟨⟩
      exact absurd hc (by decide)
    rw [integer, number, decodeInt64, decodeNumber, hparse, Decimal.parse_digits hn]
    rfl
  | negSucc n =>
    have hn : n + 1 ≤ 2 ^ 63 := by omega
    rw [integer, decodeInt64, decodeNumber, parseInt, Decimal.parse_digits (by omega), Option.bind_some,
      if_pos hn]
    rfl

end Json
