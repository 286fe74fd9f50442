/-
  The statistics of a cgroup (`parseMemoryStat` and `parseCPUStat` of
  linux_container.go).

  The text is read word by word, and two words in a row are a name and its value.
  `tokens_text` gives the words of lines with a name and a value each, and
  `parseLoop_lines` what becomes of them.  The scanner stops at a word that does
  not fit its buffer, without an error that anybody looks at.

  `stats_parsed`: with words that fit, each field has the value of the last line
  with its name and a valid value.
-/
import Mathlib.Algebra.Ring.Nat
import Mathlib.Data.List.Induction
import Mathlib.Data.List.Nodup
import WardenLinux.Lib.Decimal
import WardenLinux.Lib.Words

namespace WardenLinux

open Words

namespace CgroupStats

/-! ## The scanner -/

/-- `isSpace` of bufio -/
def isSpace (c : Char) : Bool :=
  c == ' ' || ('\t' ≤ c && c ≤ '\r') || c == '\u0085' || c == '\u00a0' ||
    ('\u2000' ≤ c && c ≤ '\u200a') || c == '\u1680' || c == '\u180e' || c == '\u2028' ||
    c == '\u2029' || c == '\u202f' || c == '\u205f' || c == '\u3000'

/-- `MaxScanTokenSize` -/
def maxScanTokenSize : ℕ := 64 * 1024

/-- The size of a word in bytes. -/
def size (word : List Char) : ℕ := (word.map Char.utf8Size).sum

/-- What `Scan` with `ScanWords` finds in a text: it stops at a word that fills the
    buffer. -/
def tokens (text : List Char) : List (List Char) :=
  (words isSpace text).takeWhile (size · < maxScanTokenSize)

/-- `strconv.ParseUint(s, 10, 0)` -/
def parseUint (s : List Char) : Option UInt64 := (Decimal.parse 64 s).map .ofNat

/-- The loop over the words, in pairs; `assign` is the body of the switch. -/
def parseLoop {σ : Type} (assign : List Char → UInt64 → σ → σ) : List (List Char) → σ → σ
  | field :: text :: rest, stat =>
    match parseUint text with
    | none => parseLoop assign rest stat
    | some value => parseLoop assign rest (assign field value stat)
  | [_], stat => stat
  | [], stat => stat

/-! ## Memory -/

/-- `warden.ContainerMemoryStat` -/
structure ContainerMemoryStat where
  cache : UInt64 := 0
  rss : UInt64 := 0
  mappedFile : UInt64 := 0
  pgpgin : UInt64 := 0
  pgpgout : UInt64 := 0
  swap : UInt64 := 0
  pgfault : UInt64 := 0
  pgmajfault : UInt64 := 0
  inactiveAnon : UInt64 := 0
  activeAnon : UInt64 := 0
  inactiveFile : UInt64 := 0
  activeFile : UInt64 := 0
  unevictable : UInt64 := 0
  hierarchicalMemoryLimit : UInt64 := 0
  hierarchicalMemswLimit : UInt64 := 0
  totalCache : UInt64 := 0
  totalRss : UInt64 := 0
  totalMappedFile : UInt64 := 0
  totalPgpgin : UInt64 := 0
  totalPgpgout : UInt64 := 0
  totalSwap : UInt64 := 0
  totalPgfault : UInt64 := 0
  totalPgmajfault : UInt64 := 0
  totalInactiveAnon : UInt64 := 0
  totalActiveAnon : UInt64 := 0
  totalInactiveFile : UInt64 := 0
  totalActiveFile : UInt64 := 0
  totalUnevictable : UInt64 := 0
  deriving DecidableEq, Repr

/-- The cases of the switch. -/
inductive MemoryField where
  | cache
  | rss
  | mappedFile
  | pgpgin
  | pgpgout
  | swap
  | pgfault
  | pgmajfault
  | inactiveAnon
  | activeAnon
  | inactiveFile
  | activeFile
  | unevictable
  | hierarchicalMemoryLimit
  | hierarchicalMemswLimit
  | totalCache
  | totalRss
  | totalMappedFile
  | totalPgpgin
  | totalPgpgout
  | totalSwap
  | totalPgfault
  | totalPgmajfault
  | totalInactiveAnon
  | totalActiveAnon
  | totalInactiveFile
  | totalActiveFile
  | totalUnevictable
  deriving DecidableEq, Repr

namespace MemoryField

/-- The names of the cases. -/
def name : MemoryField → String
  | .cache => "cache"
  | .rss => "rss"
  | .mappedFile => "mapped_file"
  | .pgpgin => "pgpgin"
  | .pgpgout => "pgpgout"
  | .swap => "swap"
  | .pgfault => "pgfault"
  | .pgmajfault => "pgmajfault"
  | .inactiveAnon => "inactive_anon"
  | .activeAnon => "active_anon"
  | .inactiveFile => "inactive_file"
  | .activeFile => "active_file"
  | .unevictable => "unevictable"
  | .hierarchicalMemoryLimit => "hierarchical_memory_limit"
  | .hierarchicalMemswLimit => "hierarchical_memsw_limit"
  | .totalCache => "total_cache"
  | .totalRss => "total_rss"
  | .totalMappedFile => "total_mapped_file"
  | .totalPgpgin => "total_pgpgin"
  | .totalPgpgout => "total_pgpgout"
  | .totalSwap => "total_swap"
  | .totalPgfault => "total_pgfault"
  | .totalPgmajfault => "total_pgmajfault"
  | .totalInactiveAnon => "total_inactive_anon"
  | .totalActiveAnon => "total_active_anon"
  | .totalInactiveFile => "total_inactive_file"
  | .totalActiveFile => "total_active_file"
  | .totalUnevictable => "total_unevictable"

/-- The bodies of the cases. -/
def set (value : UInt64) (stat : ContainerMemoryStat) : MemoryField → ContainerMemoryStat
  | .cache => { stat with cache := value }
  | .rss => { stat with rss := value }
  | .mappedFile => { stat with mappedFile := value }
  | .pgpgin => { stat with pgpgin := value }
  | .pgpgout => { stat with pgpgout := value }
  | .swap => { stat with swap := value }
  | .pgfault => { stat with pgfault := value }
  | .pgmajfault => { stat with pgmajfault := value }
  | .inactiveAnon => { stat with inactiveAnon := value }
  | .activeAnon => { stat with activeAnon := value }
  | .inactiveFile => { stat with inactiveFile := value }
  | .activeFile => { stat with activeFile := value }
  | .unevictable => { stat with unevictable := value }
  | .hierarchicalMemoryLimit => { stat with hierarchicalMemoryLimit := value }
  | .hierarchicalMemswLimit => { stat with hierarchicalMemswLimit := value }
  | .totalCache => { stat with totalCache := value }
  | .totalRss => { stat with totalRss := value }
  | .totalMappedFile => { stat with totalMappedFile := value }
  | .totalPgpgin => { stat with totalPgpgin := value }
  | .totalPgpgout => { stat with totalPgpgout := value }
  | .totalSwap => { stat with totalSwap := value }
  | .totalPgfault => { stat with totalPgfault := value }
  | .totalPgmajfault => { stat with totalPgmajfault := value }
  | .totalInactiveAnon => { stat with totalInactiveAnon := value }
  | .totalActiveAnon => { stat with totalActiveAnon := value }
  | .totalInactiveFile => { stat with totalInactiveFile := value }
  | .totalActiveFile => { stat with totalActiveFile := value }
  | .totalUnevictable => { stat with totalUnevictable := value }

/-- The fields of a statistic. -/
def get (stat : ContainerMemoryStat) : MemoryField → UInt64
  | .cache => stat.cache
  | .rss => stat.rss
  | .mappedFile => stat.mappedFile
  | .pgpgin => stat.pgpgin
  | .pgpgout => stat.pgpgout
  | .swap => stat.swap
  | .pgfault => stat.pgfault
  | .pgmajfault => stat.pgmajfault
  | .inactiveAnon => stat.inactiveAnon
  | .activeAnon => stat.activeAnon
  | .inactiveFile => stat.inactiveFile
  | .activeFile => stat.activeFile
  | .unevictable => stat.unevictable
  | .hierarchicalMemoryLimit => stat.hierarchicalMemoryLimit
  | .hierarchicalMemswLimit => stat.hierarchicalMemswLimit
  | .totalCache => stat.totalCache
  | .totalRss => stat.totalRss
  | .totalMappedFile => stat.totalMappedFile
  | .totalPgpgin => stat.totalPgpgin
  | .totalPgpgout => stat.totalPgpgout
  | .totalSwap => stat.totalSwap
  | .totalPgfault => stat.totalPgfault
  | .totalPgmajfault => stat.totalPgmajfault
  | .totalInactiveAnon => stat.totalInactiveAnon
  | .totalActiveAnon => stat.totalActiveAnon
  | .totalInactiveFile => stat.totalInactiveFile
  | .totalActiveFile => stat.totalActiveFile
  | .totalUnevictable => stat.totalUnevictable

def all : List MemoryField :=
  [.cache, .rss, .mappedFile, .pgpgin, .pgpgout, .swap, .pgfault, .pgmajfault, .inactiveAnon,
    .activeAnon, .inactiveFile, .activeFile, .unevictable, .hierarchicalMemoryLimit,
    .hierarchicalMemswLimit, .totalCache, .totalRss, .totalMappedFile, .totalPgpgin,
    .totalPgpgout, .totalSwap, .totalPgfault, .totalPgmajfault, .totalInactiveAnon,
    .totalActiveAnon, .totalInactiveFile, .totalActiveFile, .totalUnevictable]

theorem mem_all (f : MemoryField) : f ∈ all := by
  cases f <;> decide

/-- **Each case sets its own field** and no other. -/
theorem get_set (f g : MemoryField) (value : UInt64) (stat : ContainerMemoryStat) :
    f.get (g.set value stat) = if g = f then value else f.get stat := by
  cases g <;> cases f <;> rfl

theorem nodup_names : (all.map name).Nodup := by
  simp [all, name]

theorem name_inj {f g : MemoryField} (h : g.name.toList = f.name.toList) : g = f :=
  List.inj_on_of_nodup_map nodup_names g.mem_all f.mem_all (String.toList_inj.1 h)

end MemoryField

/-- The switch of `parseMemoryStat` -/
def assignMemory (field : List Char) (value : UInt64) (stat : ContainerMemoryStat) :
    ContainerMemoryStat :=
  match MemoryField.all.find? (·.name.toList = field) with
  | some f => f.set value stat
  | none => stat

/-- `parseMemoryStat` -/
def parseMemoryStat (contents : List Char) : ContainerMemoryStat :=
  parseLoop assignMemory (tokens contents) {}

/-- The switch sets the field of its name and no other. -/
theorem get_assignMemory (f : MemoryField) (field : List Char) (value : UInt64)
    (stat : ContainerMemoryStat) :
    f.get (assignMemory field value stat) =
      if field = f.name.toList then value else f.get stat := by
  unfold assignMemory
  split
  · rename_i g hfind
    have hname : g.name.toList = field := of_decide_eq_true (List.find?_some hfind :)
    rw [MemoryField.get_set, ← hname]
    exact if_congr ⟨fun h => h ▸ rfl, MemoryField.name_inj⟩ rfl rfl
  · rename_i hnone
    have hne := List.find?_eq_none.1 hnone f f.mem_all
    rw [if_neg fun h => hne (decide_eq_true h.symm)]

/-! ## Processor time -/

/-- `warden.ContainerCPUStat` -/
structure ContainerCPUStat where
  usage : UInt64 := 0
  user : UInt64 := 0
  system : UInt64 := 0
  deriving DecidableEq, Repr

/-- The switch of `parseCPUStat` -/
def assignCPU (field : List Char) (value : UInt64) (stat : ContainerCPUStat) : ContainerCPUStat :=
  if field = "user".toList then { stat with user := value }
  else if field = "system".toList then { stat with system := value }
  else stat

/-- `strings.Trim(s, "\n")` -/
def trimNewlines (s : List Char) : List Char :=
  ((s.dropWhile (· == '\n')).reverse.dropWhile (· == '\n')).reverse

/-- `parseCPUStat` -/
def parseCPUStat (usage statContents : List Char) : ContainerCPUStat :=
  match parseUint (trimNewlines usage) with
  | none => {}
  | some cpuUsage => parseLoop assignCPU (tokens statContents) { usage := cpuUsage }

/-! ## Lines -/

/-- A name and a value. -/
abbrev Line := List Char × List Char

/-- Lines one after the other; the last one may be without a newline. -/
def text (final : Bool) : List Line → List Char
  | [] => []
  | [l] => l.1 ++ ' ' :: (l.2 ++ if final then ['\n'] else [])
  | l :: ls => l.1 ++ ' ' :: (l.2 ++ '\n' :: text final ls)

/-- The words of lines. -/
theorem words_text (final : Bool) {ls : List Line}
    (h : ∀ l ∈ ls, IsWord isSpace l.1 ∧ IsWord isSpace l.2) :
    words isSpace (text final ls) = ls.flatMap fun l => [l.1, l.2] := by
  induction ls with
  | nil => rfl
  | cons l ls ih =>
    rw [List.forall_mem_cons] at h
    obtain ⟨⟨hname, hvalue⟩, hls⟩ := h
    cases ls with
    | nil =>
      rw [text, words_cons hname rfl]
      cases final with
      | true => rw [if_pos rfl, words_cons hvalue rfl]; rfl
      | false =>
        rw [if_neg Bool.false_ne_true, List.append_nil, words_singleton hvalue]
        rfl
    | cons l' ls =>
      have htext : text final (l :: l' :: ls) =
          l.1 ++ ' ' :: (l.2 ++ '\n' :: text final (l' :: ls)) := rfl
      rw [htext, words_cons hname rfl, words_cons hvalue rfl, ih hls]
      rfl

/-- A line whose words fit the buffer. -/
structure Fits (l : Line) : Prop where
  name : IsWord isSpace l.1
  value : IsWord isSpace l.2
  nameSize : size l.1 < maxScanTokenSize
  valueSize : size l.2 < maxScanTokenSize

instance (l : Line) : Decidable (Fits l) :=
  decidable_of_iff (IsWord isSpace l.1 ∧ IsWord isSpace l.2 ∧ size l.1 < maxScanTokenSize ∧
    size l.2 < maxScanTokenSize) ⟨fun ⟨h₁, h₂, h₃, h₄⟩ => ⟨h₁, h₂, h₃, h₄⟩,
      fun ⟨h₁, h₂, h₃, h₄⟩ => ⟨h₁, h₂, h₃, h₄⟩⟩

theorem tokens_text (final : Bool) {ls : List Line} (h : ∀ l ∈ ls, Fits l) :
    tokens (text final ls) = ls.flatMap fun l => [l.1, l.2] := by
  rw [tokens, words_text final fun l hl => ⟨(h l hl).name, (h l hl).value⟩,
    List.takeWhile_eq_self_iff]
  intro w hw
  obtain ⟨l, hl, hw⟩ := List.mem_flatMap.1 hw
  simp only [List.mem_cons, List.not_mem_nil, or_false] at hw
  rcases hw with rfl | rfl
  · exact decide_eq_true (h l hl).nameSize
  · exact decide_eq_true (h l hl).valueSize

section
variable {σ : Type} (assign : List Char → UInt64 → σ → σ)

/-- What a line does. -/
def step (stat : σ) (l : Line) : σ :=
  match parseUint l.2 with
  | none => stat
  | some value => assign l.1 value stat

/-- **The words are paired** as the lines have them. -/
theorem parseLoop_lines (ls : List Line) (stat : σ) :
    parseLoop assign (ls.flatMap fun l => [l.1, l.2]) stat = ls.foldl (step assign) stat := by
  induction ls generalizing stat with
  | nil => rfl
  | cons l ls ih =>
    rw [List.flatMap_cons, List.foldl_cons, ← ih, step]
    show parseLoop assign (l.1 :: l.2 :: ls.flatMap fun l => [l.1, l.2]) stat = _
    rw [parseLoop]
    cases parseUint l.2 <;> rfl

end

/-- The value of the last line with a name and a valid value, or 0. -/
def lastValid (name : String) (ls : List Line) : UInt64 :=
  ((ls.filterMap fun l => if l.1 = name.toList then parseUint l.2 else none).getLast?).getD 0

/-- A field that the switch sets for one name has the last value of that name. -/
theorem get_foldl {σ : Type} {assign : List Char → UInt64 → σ → σ} {get : σ → UInt64}
    {name : String} (hget : ∀ field value stat, get (assign field value stat) =
      if field = name.toList then value else get stat)
    {stat : σ} (hzero : get stat = 0) (ls : List Line) :
    get (ls.foldl (step assign) stat) = lastValid name ls := by
  induction ls using List.reverseRecOn with
  | nil => exact hzero
  | append_singleton ls l ih =>
    rw [List.foldl_append, List.foldl_cons, List.foldl_nil, step, lastValid, List.filterMap_append,
      List.filterMap_cons, List.filterMap_nil]
    cases hv : parseUint l.2 with
    | none =>
      simp only [ite_self, List.append_nil]
      exact ih
    | some value =>
      rw [hget]
      split
      · rw [List.getLast?_concat, Option.getD_some]
      · rw [List.append_nil]
        exact ih

theorem get_assignCPU (field : List Char) (value : UInt64) (stat : ContainerCPUStat) :
    (assignCPU field value stat).usage = stat.usage ∧
      (assignCPU field value stat).user = (if field = "user".toList then value else stat.user) ∧
      (assignCPU field value stat).system =
        if field = "system".toList then value else stat.system := by
  have hne : "user".toList ≠ "system".toList := by decide +kernel
  unfold assignCPU
  split
  · rename_i hfield
    refine ⟨rfl, rfl, ?_⟩
    rw [if_neg fun h => hne (hfield.symm.trans h)]
  · split <;> exact ⟨rfl, rfl, rfl⟩

theorem usage_foldl (ls : List Line) (stat : ContainerCPUStat) :
    (ls.foldl (step assignCPU) stat).usage = stat.usage := by
  induction ls generalizing stat with
  | nil => rfl
  | cons l ls ih =>
    rw [List.foldl_cons, ih, step]
    split
    · rfl
    · exact (get_assignCPU ..).1

/-- **Each field has the last valid value** of its name, when all words fit. -/
theorem stats_parsed (final : Bool) {ls : List Line} (h : ∀ l ∈ ls, Fits l) :
    (∀ f : MemoryField, f.get (parseMemoryStat (text final ls)) = lastValid f.name ls) ∧
      ∀ usage cpuUsage, parseUint (trimNewlines usage) = some cpuUsage →
        (parseCPUStat usage (text final ls)).usage = cpuUsage ∧
        (parseCPUStat usage (text final ls)).user = lastValid "user" ls ∧
        (parseCPUStat usage (text final ls)).system = lastValid "system" ls := by
  constructor
  · intro f
    rw [parseMemoryStat, tokens_text final h, parseLoop_lines]
    refine @get_foldl _ assignMemory f.get f.name (get_assignMemory f) {} ?_ ls
    cases f <;> rfl
  · intro usage cpuUsage husage
    rw [parseCPUStat, husage]
    dsimp only
    rw [tokens_text final h, parseLoop_lines]
    refine ⟨usage_foldl ls _, ?_, ?_⟩
    · exact get_foldl (fun field value stat => (get_assignCPU field value stat).2.1) rfl ls
    · exact get_foldl (fun field value stat => (get_assignCPU field value stat).2.2) rfl ls

/-- Lines out of order, with a name twice, a name that is not known, and a value
    that is no number. -/
def mixed : List Line :=
  [("rss".toList, "5".toList), ("cache".toList, "1".toList), ("x".toList, "9".toList),
    ("cache".toList, "-".toList), ("rss".toList, "6".toList)]

theorem stats_parsed_mixed :
    (parseMemoryStat (text true mixed)).cache = 1 ∧
      (parseMemoryStat (text true mixed)).rss = 6 := by
  have hfits : ∀ l ∈ mixed, Fits l := by decide +kernel
  have h := (stats_parsed true hfits).1
  exact ⟨(h .cache).trans (by decide +kernel), (h .rss).trans (by decide +kernel)⟩

theorem size_replicate (n : ℕ) : size (List.replicate n 'x') = n := by
  induction n with
  | zero => rfl
  | succ n ih =>
    rw [size] at ih ⊢
    rw [List.replicate_succ, List.map_cons, List.sum_cons, ih, Nat.add_comm]
    rfl

theorem isWord_replicate (n : ℕ) : IsWord isSpace (List.replicate (n + 1) 'x') := by
  refine ⟨List.cons_ne_nil _ _, fun c hc => ?_⟩
  rw [List.eq_of_mem_replicate hc]
  decide +kernel

/-- **A name that does not fit** hides the lines behind it. -/
theorem long_name_hides :
    let ls : List Line := [(List.replicate 65536 'x', ['1']), ("cache".toList, ['7'])]
    (∀ l ∈ ls, IsWord isSpace l.1 ∧ IsWord isSpace l.2) ∧ lastValid "cache" ls = 7 ∧
      (parseMemoryStat (text true ls)).cache = 0 := by
  intro ls
  have hwords : ∀ l ∈ ls, IsWord isSpace l.1 ∧ IsWord isSpace l.2 := by
    rw [List.forall_mem_cons, List.forall_mem_singleton]
    exact ⟨⟨isWord_replicate 65535, by decide +kernel⟩, by decide +kernel⟩
  have hne : List.replicate 65536 'x' ≠ "cache".toList := by
    intro h
    have hlen := congrArg List.length h
    rw [List.length_replicate] at hlen
    exact absurd hlen (by decide +kernel)
  have hsize : ¬ decide (size (List.replicate 65536 'x') < maxScanTokenSize) = true := by
    rw [size_replicate]
    decide
  refine ⟨hwords, ?_, ?_⟩
  · rw [lastValid, List.filterMap_cons, if_neg hne]
    decide +kernel
  · rw [parseMemoryStat, tokens, words_text true hwords, List.flatMap_cons, List.cons_append,
      List.takeWhile_cons_of_neg (p := fun w => decide (size w < maxScanTokenSize)) hsize]
    rfl

end CgroupStats

end WardenLinux
