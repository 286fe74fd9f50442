/-
  Layers fetched by several requests at a time (repository_fetcher.go,
  `fetchLayer`, `fetching` and `doneFetching`).

  A call of `fetchLayer` goes through the points of `Pc`; every access to the
  map, the mutex, a channel, the registry or the graph is a step of its own, and
  the steps of the calls interleave.  A channel is its place in `channels`, with
  whether it is closed.

  `fetchLayer_exclusive`: at most one call at a time has a layer, a layer is
  registered once, no missing or closed channel is closed, and a channel that is
  waited for is closed or has an owner.

  The proof is an assertion at each point (`Fine`), that the steps of a call
  establish (`Fine.moves`) and those of the others keep (`Fine.frame`).
-/
import Mathlib.Data.List.Nodup
import WardenLinux.Lib.Threads
import WardenLinux.Lib.Transition

namespace WardenLinux

open Transition

namespace DockerRepositoryFetcher

/-! ## Steps -/

/-- What the calls share: the fields of `DockerRepositoryFetcher`, the channels
    made, the layers that exist, and those that were registered.  A mutex is
    held by a call. -/
structure Shared where
  fetchingLayers : String → Option ℕ
  fetchingMutex : Option ℕ
  channels : List Bool
  graph : List String
  registered : List String

/-- The outcome of a step: its success, its failure, the image that was parsed,
    or a failure of `Register` after which the image exists. -/
inductive Reply where
  | done
  | error
  | image (id : String)
  | stored
  deriving DecidableEq

/-- Where a call of `fetchLayer` is: what it does next. -/
inductive Pc where
  /-- `fetching`: `Lock` -/
  | lock
  /-- the lookup, and the making of the channel -/
  | lookup
  /-- `Unlock`, return `true` -/
  | acquired
  /-- `Unlock` -/
  | found (ch : ℕ)
  /-- `<-fetching`, return `false` -/
  | blocked (ch : ℕ)
  /-- `graph.Exists` -/
  | exist
  /-- `GetRemoteImageJSON` -/
  | json
  /-- `NewImgJSON` -/
  | parse
  /-- `GetRemoteImageLayer` -/
  | getLayer (imgID : String)
  /-- `graph.Register` -/
  | register (imgID : String)
  /-- `doneFetching`: `Lock`; the call will return an error or none -/
  | doneLock (err : Bool)
  /-- `close` -/
  | close (err : Bool)
  /-- `delete` -/
  | delete (err : Bool)
  /-- `Unlock` -/
  | unlock (err : Bool)
  | returned (err : Bool)
  /-- a missing or closed channel was closed -/
  | panicked
  deriving DecidableEq

/-- The next step of the call `i`, for the layer. -/
def Pc.next (i : ℕ) (layerID : String) (r : Reply) (s : Shared) : Pc → Option (Pc × Shared)
  | .lock =>
    if s.fetchingMutex = none then some (.lookup, { s with fetchingMutex := some i }) else none
  | .lookup =>
    match s.fetchingLayers layerID with
    | none => some (.acquired, { s with
        fetchingLayers := Function.update s.fetchingLayers layerID (some s.channels.length)
        channels := s.channels ++ [false] })
    | some ch => some (.found ch, s)
  | .acquired => some (.exist, { s with fetchingMutex := none })
  | .found ch => some (.blocked ch, { s with fetchingMutex := none })
  | .blocked ch => if s.channels[ch]? = some true then some (.lock, s) else none
  | .exist => if layerID ∈ s.graph then some (.doneLock false, s) else some (.json, s)
  | .json =>
    match r with
    | .done => some (.parse, s)
    | .error => some (.doneLock true, s)
    | _ => none
  | .parse =>
    match r with
    | .image imgID => some (.getLayer imgID, s)
    | .error => some (.doneLock true, s)
    | _ => none
  | .getLayer imgID =>
    match r with
    | .done => some (.register imgID, s)
    | .error => some (.doneLock true, s)
    | _ => none
  | .register imgID =>
    match r with
    | .done => some (.doneLock false, { s with
        graph := s.graph ++ [imgID]
        registered := s.registered ++ [imgID] })
    | .error => some (.doneLock true, s)
    | .stored => some (.doneLock true, { s with graph := s.graph ++ [imgID] })
    | _ => none
  | .doneLock err =>
    if s.fetchingMutex = none then some (.close err, { s with fetchingMutex := some i }) else none
  | .close err =>
    match s.fetchingLayers layerID with
    | none => some (.panicked, s)
    | some ch =>
      if s.channels[ch]? = some false then
        some (.delete err, { s with channels := s.channels.set ch true })
      else some (.panicked, s)
  | .delete err => some (.unlock err, { s with
      fetchingLayers := Function.update s.fetchingLayers layerID none })
  | .unlock err => some (.returned err, { s with fetchingMutex := none })
  | .returned _ | .panicked => none

/-- A call of `fetchLayer`. -/
structure FetchLayer where
  layerID : String
  pc : Pc
  deriving DecidableEq

/-- The fetcher and the calls made on it. -/
structure Fetcher where
  shared : Shared
  calls : ℕ → Option FetchLayer

/-- The call `i` is `c` now. -/
def Fetcher.put (s : Fetcher) (shared : Shared) (i : ℕ) (c : FetchLayer) : Fetcher :=
  ⟨shared, Threads.set s.calls i c⟩

inductive Label where
  /-- a call of `fetchLayer` begins -/
  | call (i : ℕ) (layerID : String)
  /-- a call takes its next step -/
  | step (i : ℕ) (r : Reply)
  deriving DecidableEq

def Fetcher.step (s : Fetcher) : Label → Option Fetcher
  | .call i layerID =>
    match s.calls i with
    | none => some (s.put s.shared i ⟨layerID, .lock⟩)
    | some _ => none
  | .step i r =>
    match s.calls i with
    | none => none
    | some c => (c.pc.next i c.layerID r s.shared).map fun (pc, shared) =>
        s.put shared i ⟨c.layerID, pc⟩

def Step (s : Fetcher) (l : Label) (s' : Fetcher) : Prop := s.step l = some s'

/-- The registry returns the JSON of the layer that is asked for. -/
def Honest (s : Fetcher) : Label → Prop
  | .step i (.image imgID) => ∀ c ∈ s.calls i, imgID = c.layerID
  | .call _ _ | .step _ .done | .step _ .error | .step _ .stored => True

instance (s : Fetcher) : DecidablePred (Honest s)
  | .step i (.image imgID) => inferInstanceAs (Decidable (∀ c ∈ s.calls i, imgID = c.layerID))
  | .call _ _ | .step _ .done | .step _ .error | .step _ .stored => isTrue trivial

/-- `New`, with a graph. -/
def new (graph : List String) : Fetcher where
  shared := ⟨fun _ => none, none, [], graph, []⟩
  calls _ := none

/-- What a step of the call `i` for a layer can do. -/
inductive Pc.Moves (i : ℕ) (l : String) (s : Shared) : Pc → Pc → Shared → Prop
  | lock : s.fetchingMutex = none → Moves i l s .lock .lookup { s with fetchingMutex := some i }
  | make : s.fetchingLayers l = none → Moves i l s .lookup .acquired { s with
      fetchingLayers := Function.update s.fetchingLayers l (some s.channels.length)
      channels := s.channels ++ [false] }
  | find {ch} : s.fetchingLayers l = some ch → Moves i l s .lookup (.found ch) s
  | unlockAcquired : Moves i l s .acquired .exist { s with fetchingMutex := none }
  | unlockFound {ch} : Moves i l s (.found ch) (.blocked ch) { s with fetchingMutex := none }
  | wake {ch} : s.channels[ch]? = some true → Moves i l s (.blocked ch) .lock s
  | existing : l ∈ s.graph → Moves i l s .exist (.doneLock false) s
  | missing : l ∉ s.graph → Moves i l s .exist .json s
  | json : Moves i l s .json .parse s
  | jsonFails : Moves i l s .json (.doneLock true) s
  | parse : Moves i l s .parse (.getLayer l) s
  | parseFails : Moves i l s .parse (.doneLock true) s
  | getLayer {imgID} : Moves i l s (.getLayer imgID) (.register imgID) s
  | getLayerFails {imgID} : Moves i l s (.getLayer imgID) (.doneLock true) s
  | register {imgID} : Moves i l s (.register imgID) (.doneLock false) { s with
      graph := s.graph ++ [imgID]
      registered := s.registered ++ [imgID] }
  | registerFails {imgID} : Moves i l s (.register imgID) (.doneLock true) s
  | registerStores {imgID} :
      Moves i l s (.register imgID) (.doneLock true) { s with graph := s.graph ++ [imgID] }
  | doneLock {err} : s.fetchingMutex = none →
      Moves i l s (.doneLock err) (.close err) { s with fetchingMutex := some i }
  | closeMissing {err} : s.fetchingLayers l = none → Moves i l s (.close err) .panicked s
  | closeClosed {err ch} : s.fetchingLayers l = some ch → s.channels[ch]? ≠ some false →
      Moves i l s (.close err) .panicked s
  | close {err ch} : s.fetchingLayers l = some ch → s.channels[ch]? = some false →
      Moves i l s (.close err) (.delete err) { s with channels := s.channels.set ch true }
  | delete {err} : Moves i l s (.delete err) (.unlock err) { s with
      fetchingLayers := Function.update s.fetchingLayers l none }
  | unlock {err} : Moves i l s (.unlock err) (.returned err) { s with fetchingMutex := none }

theorem Pc.moves_of_next {i : ℕ} {l : String} {r : Reply} {s s' : Shared} {pc pc' : Pc}
    (hr : ∀ imgID, r = .image imgID → imgID = l) (h : pc.next i l r s = some (pc', s')) :
    pc.Moves i l s pc' s' := by
  cases pc with
  | lock =>
    simp only [next, Option.ite_none_right_eq_some, Option.some.injEq, Prod.mk.injEq] at h
    obtain ⟨hm, rfl, rfl⟩ := h
    exact .lock hm
  | lookup =>
    simp only [next] at h
    split at h
    · cases h; exact .make ‹_›
    · cases h; exact .find ‹_›
  | acquired => cases h; exact .unlockAcquired
  | found ch => cases h; exact .unlockFound
  | blocked ch =>
    simp only [next, Option.ite_none_right_eq_some, Option.some.injEq, Prod.mk.injEq] at h
    obtain ⟨hc, rfl, rfl⟩ := h
    exact .wake hc
  | exist =>
    simp only [next] at h
    split at h
    · cases h; exact .existing ‹_›
    · cases h; exact .missing ‹_›
  | json =>
    cases r <;> cases h
    · exact .json
    · exact .jsonFails
  | parse =>
    cases r with
    | image imgID => cases h; exact hr imgID rfl ▸ .parse
    | error => cases h; exact .parseFails
    | done => cases h
    | stored => cases h
  | getLayer imgID =>
    cases r <;> cases h
    · exact .getLayer
    · exact .getLayerFails
  | register imgID =>
    cases r <;> cases h
    · exact .register
    · exact .registerFails
    · exact .registerStores
  | doneLock err =>
    simp only [next, Option.ite_none_right_eq_some, Option.some.injEq, Prod.mk.injEq] at h
    obtain ⟨hm, rfl, rfl⟩ := h
    exact .doneLock hm
  | close err =>
    simp only [next] at h
    split at h
    · cases h; exact .closeMissing ‹_›
    · split at h
      · cases h; exact .close ‹_› ‹_›
      · cases h; exact .closeClosed ‹_› ‹_›
  | delete err => cases h; exact .delete
  | unlock err => cases h; exact .unlock
  | returned err => cases h
  | panicked => cases h

/-! ## Assertions -/

/-- From the making of the channel to its deletion. -/
def Pc.owns : Pc → Bool
  | .acquired | .exist | .json | .parse | .getLayer _ | .register _ | .doneLock _ | .close _
  | .delete _ => true
  | .lock | .lookup | .found _ | .blocked _ | .unlock _ | .returned _ | .panicked => false

/-- The layer is in the map, with a channel that is closed or not. -/
def Shared.Has (s : Shared) (l : String) (closed : Bool) : Prop :=
  ∃ ch, s.fetchingLayers l = some ch ∧ s.channels[ch]? = some closed

/-- A channel to wait for is closed, or the current one of the layer. -/
def Shared.Wakes (s : Shared) (l : String) (ch : ℕ) : Prop :=
  s.channels[ch]? = some true ∨ s.fetchingLayers l = some ch

/-- The assertion at each point of a call. -/
def Fine (s : Shared) (i : ℕ) (l : String) : Pc → Prop
  | .lock => True
  | .lookup => s.fetchingMutex = some i
  | .acquired => s.fetchingMutex = some i ∧ s.Has l false
  | .found ch => s.fetchingMutex = some i ∧ s.Wakes l ch
  | .blocked ch => s.Wakes l ch
  | .exist => s.Has l false
  | .json | .parse => s.Has l false ∧ l ∉ s.graph
  | .getLayer imgID | .register imgID => s.Has l false ∧ l ∉ s.graph ∧ imgID = l
  | .doneLock err => s.Has l false ∧ (err = false → l ∈ s.graph)
  | .close err => s.fetchingMutex = some i ∧ s.Has l false ∧ (err = false → l ∈ s.graph)
  | .delete err => s.fetchingMutex = some i ∧ s.Has l true ∧ (err = false → l ∈ s.graph)
  | .unlock err => s.fetchingMutex = some i ∧ (err = false → l ∈ s.graph)
  | .returned err => err = false → l ∈ s.graph
  | .panicked => False

section
variable {s s' : Shared} {i j : ℕ} {l l' : String} {pc pc' : Pc}

/-- The layer of an owner is in the map. -/
theorem Fine.has (h : Fine s i l pc) (ho : pc.owns = true) : ∃ closed, s.Has l closed := by
  cases pc with
  | acquired => exact ⟨_, h.2⟩
  | exist => exact ⟨_, h⟩
  | json => exact ⟨_, h.1⟩
  | parse => exact ⟨_, h.1⟩
  | getLayer => exact ⟨_, h.1⟩
  | register => exact ⟨_, h.1⟩
  | doneLock => exact ⟨_, h.1⟩
  | close => exact ⟨_, h.2.1⟩
  | delete => exact ⟨_, h.2.1⟩
  | lock => cases ho
  | lookup => cases ho
  | found => cases ho
  | blocked => cases ho
  | unlock => cases ho
  | returned => cases ho
  | panicked => cases ho

/-- **A step establishes the next assertion.** -/
theorem Fine.moves (hf : Fine s i l pc) (h : pc.Moves i l s pc' s') : Fine s' i l pc' := by
  cases h with
  | lock => exact rfl
  | make => exact ⟨hf, s.channels.length, by simp, by simp⟩
  | find hch => exact ⟨hf, .inr hch⟩
  | unlockAcquired => exact hf.2
  | unlockFound => exact hf.2
  | wake => trivial
  | existing hl => exact ⟨hf, fun _ => hl⟩
  | missing hl => exact ⟨hf, hl⟩
  | json => exact hf
  | jsonFails => exact ⟨hf.1, nofun⟩
  | parse => exact ⟨hf.1, hf.2, rfl⟩
  | parseFails => exact ⟨hf.1, nofun⟩
  | getLayer => exact hf
  | getLayerFails => exact ⟨hf.1, nofun⟩
  | register =>
    obtain ⟨hhas, -, rfl⟩ := hf
    exact ⟨hhas, fun _ => by simp⟩
  | registerFails => exact ⟨hf.1, nofun⟩
  | registerStores => exact ⟨hf.1, nofun⟩
  | doneLock => exact ⟨rfl, hf⟩
  | closeMissing hnone =>
    obtain ⟨-, ⟨ch, hch, -⟩, -⟩ := hf
    rw [hnone] at hch; cases hch
  | closeClosed hsome hopen =>
    obtain ⟨-, ⟨ch, hch, hfalse⟩, -⟩ := hf
    rw [hsome] at hch; cases hch
    exact hopen hfalse
  | @close _ ch hsome hopen =>
    obtain ⟨hm, -, hl⟩ := hf
    have hlt : ch < s.channels.length := (List.getElem?_eq_some_iff.1 hopen).1
    exact ⟨hm, ⟨ch, hsome, by simp [hlt]⟩, hl⟩
  | delete => exact ⟨hf.1, hf.2.2⟩
  | unlock => exact hf.2

/-! ## Interference -/

/-- What a step of another call keeps of the map and its channels. -/
theorem Shared.Has.frame {closed : Bool} (hf : Fine s i l pc) (h : pc.Moves i l s pc' s')
    (hinj : ∀ l₁ l₂ ch, s.fetchingLayers l₁ = some ch → s.fetchingLayers l₂ = some ch → l₁ = l₂)
    (hne : l' = l → pc.owns = false) (hh : s.Has l' closed) : s'.Has l' closed := by
  obtain ⟨ch, hch, hclosed⟩ := hh
  have hlt : ch < s.channels.length := (List.getElem?_eq_some_iff.1 hclosed).1
  cases h with
  | make hnone =>
    have : l' ≠ l := by rintro rfl; rw [hnone] at hch; cases hch
    exact ⟨ch, by simp [this, hch], by simp [List.getElem?_append_left hlt, hclosed]⟩
  | @close _ ch' hsome =>
    have : ch' ≠ ch := by
      rintro rfl
      exact absurd (hne (hinj _ _ _ hch hsome)) (by simp [Pc.owns])
    exact ⟨ch, hch, by simp [this, hclosed]⟩
  | delete =>
    have : l' ≠ l := fun heq => absurd (hne heq) (by simp [Pc.owns])
    exact ⟨ch, by simp [this, hch], hclosed⟩
  | _ => exact ⟨ch, hch, hclosed⟩

theorem Shared.Wakes.frame {ch : ℕ} (hf : Fine s i l pc) (h : pc.Moves i l s pc' s')
    (hw : s.Wakes l' ch) : s'.Wakes l' ch := by
  cases h with
  | make hnone =>
    rcases hw with hclosed | hch
    · have hlt : ch < s.channels.length := (List.getElem?_eq_some_iff.1 hclosed).1
      exact .inl (by simp [List.getElem?_append_left hlt, hclosed])
    · have : l' ≠ l := by rintro rfl; rw [hnone] at hch; cases hch
      exact .inr (by simp [this, hch])
  | @close _ ch' _ hopen =>
    rcases hw with hclosed | hch
    · have : ch' ≠ ch := by rintro rfl; rw [hclosed] at hopen; cases hopen
      exact .inl (by simp [this, hclosed])
    · exact .inr hch
  | delete =>
    -- the channel that is deleted was closed
    obtain ⟨-, ⟨ch', hch', hclosed⟩, -⟩ := hf
    rcases hw with hc | hch
    · exact .inl hc
    · by_cases heq : l' = l
      · rw [heq, hch'] at hch; cases hch
        exact .inl hclosed
      · exact .inr (by simp [heq, hch])
  | _ => exact hw

/-- The mutex stays with the call that holds it. -/
theorem Fine.mutex (hf : Fine s i l pc) (h : pc.Moves i l s pc' s') (hij : j ≠ i)
    (hm : s.fetchingMutex = some j) : s'.fetchingMutex = some j := by
  have hout {P : Prop} (h : s.fetchingMutex = some i) : P := by
    rw [hm] at h; cases h; exact (hij rfl).elim
  cases h with
  | lock hnone => rw [hm] at hnone; cases hnone
  | doneLock hnone => rw [hm] at hnone; cases hnone
  | unlockAcquired => exact hout hf.1
  | unlockFound => exact hout hf.1
  | unlock => exact hout hf.1
  | _ => exact hm

theorem Pc.Moves.graph_mono (h : pc.Moves i l s pc' s') (hl : l' ∈ s.graph) : l' ∈ s'.graph := by
  cases h with
  | register => exact List.mem_append_left _ hl
  | registerStores => exact List.mem_append_left _ hl
  | _ => exact hl

/-- Only an owner adds its layer. -/
theorem Fine.absent (hf : Fine s i l pc) (h : pc.Moves i l s pc' s') (hne : l' = l → pc.owns = false)
    (hl : l' ∉ s.graph) : l' ∉ s'.graph := by
  have hother {imgID : String} (himg : imgID = l) (ho : pc.owns = true) : l' ∉ s.graph ++ [imgID] := by
    simp only [List.mem_append, List.mem_singleton, hl, false_or]
    rintro rfl
    rw [hne himg] at ho; cases ho
  cases h with
  | register => exact hother hf.2.2 rfl
  | registerStores => exact hother hf.2.2 rfl
  | _ => exact hl

/-- **A step of another call keeps the assertion.** -/
theorem Fine.frame {qc : Pc} (hf : Fine s i l pc) (h : pc.Moves i l s pc' s')
    (hinj : ∀ l₁ l₂ ch, s.fetchingLayers l₁ = some ch → s.fetchingLayers l₂ = some ch → l₁ = l₂)
    (hij : j ≠ i) (hne : qc.owns = true → l' = l → pc.owns = false) (hq : Fine s j l' qc) :
    Fine s' j l' qc := by
  have hmutex := hf.mutex h hij
  have hhas (ho : qc.owns = true) (closed : Bool) (hh : s.Has l' closed) : s'.Has l' closed :=
    hh.frame hf h hinj (hne ho)
  have hwakes (ch : ℕ) (hw : s.Wakes l' ch) : s'.Wakes l' ch := hw.frame hf h
  have habsent (ho : qc.owns = true) (hl : l' ∉ s.graph) : l' ∉ s'.graph := hf.absent h (hne ho) hl
  have hmono (err : Bool) (hl : err = false → l' ∈ s.graph) (he : err = false) : l' ∈ s'.graph :=
    h.graph_mono (hl he)
  cases qc with
  | lock => trivial
  | lookup => exact hmutex hq
  | acquired => exact ⟨hmutex hq.1, hhas rfl _ hq.2⟩
  | found ch => exact ⟨hmutex hq.1, hwakes ch hq.2⟩
  | blocked ch => exact hwakes ch hq
  | exist => exact hhas rfl _ hq
  | json => exact ⟨hhas rfl _ hq.1, habsent rfl hq.2⟩
  | parse => exact ⟨hhas rfl _ hq.1, habsent rfl hq.2⟩
  | getLayer => exact ⟨hhas rfl _ hq.1, habsent rfl hq.2.1, hq.2.2⟩
  | register => exact ⟨hhas rfl _ hq.1, habsent rfl hq.2.1, hq.2.2⟩
  | doneLock err => exact ⟨hhas rfl _ hq.1, hmono err hq.2⟩
  | close err => exact ⟨hmutex hq.1, hhas rfl _ hq.2.1, hmono err hq.2.2⟩
  | delete err => exact ⟨hmutex hq.1, hhas rfl _ hq.2.1, hmono err hq.2.2⟩
  | unlock err => exact ⟨hmutex hq.1, hmono err hq.2⟩
  | returned err => exact hmono err hq
  | panicked => exact hq

end

/-! ## The invariant -/

/-- The calls are fine; a layer has one owner, and a layer in the map has one;
    no two layers share a channel; what was registered exists, and was
    registered once. -/
structure Inv (s : Fetcher) : Prop where
  fine : ∀ {i c}, s.calls i = some c → Fine s.shared i c.layerID c.pc
  unique : ∀ {i j c c'}, s.calls i = some c → s.calls j = some c' → c.pc.owns = true →
    c'.pc.owns = true → c.layerID = c'.layerID → i = j
  owned : ∀ {l ch}, s.shared.fetchingLayers l = some ch →
    ∃ i c, s.calls i = some c ∧ c.layerID = l ∧ c.pc.owns = true
  inj : ∀ l l' ch, s.shared.fetchingLayers l = some ch → s.shared.fetchingLayers l' = some ch → l = l'
  once : s.shared.registered.Nodup
  exist : ∀ l ∈ s.shared.registered, l ∈ s.shared.graph

theorem inv_new (graph : List String) : Inv (new graph) where
  fine := nofun
  unique := nofun
  owned := nofun
  inj := nofun
  once := List.nodup_nil
  exist := nofun

/-- **What a step can do.** -/
theorem step_cases {s s' : Fetcher} {lab : Label} (hon : Honest s lab) (h : Step s lab s') :
    (∃ i l, lab = .call i l ∧ s.calls i = none ∧
      s' = s.put s.shared i ⟨l, .lock⟩) ∨
    ∃ i r c pc sh, lab = .step i r ∧ s.calls i = some c ∧ c.pc.Moves i c.layerID s.shared pc sh ∧
      s' = s.put sh i ⟨c.layerID, pc⟩ := by
  cases lab with
  | call i l =>
    simp only [Step, Fetcher.step] at h
    split at h
    · cases h; exact .inl ⟨i, l, rfl, ‹_›, rfl⟩
    · cases h
  | step i r =>
    simp only [Step, Fetcher.step] at h
    split at h
    · cases h
    · rename_i c hc
      obtain ⟨⟨pc, sh⟩, hnext, rfl⟩ := Option.map_eq_some_iff.1 h
      have himg : ∀ imgID, r = .image imgID → imgID = c.layerID := by
        rintro imgID rfl
        exact hon c hc
      exact .inr ⟨i, r, c, pc, sh, rfl, hc, Pc.moves_of_next himg hnext, rfl⟩

section
variable {s : Shared} {i : ℕ} {l : String} {pc pc' : Pc} {s' : Shared}

/-- What a step does to the map: nothing, or a layer gets an owner, or its owner
    gives it back. -/
theorem Fine.layers (hf : Fine s i l pc) (h : pc.Moves i l s pc' s') :
    (pc'.owns = pc.owns ∧ s'.fetchingLayers = s.fetchingLayers) ∨
    (pc'.owns = true ∧ s.fetchingLayers l = none ∧
      s'.fetchingLayers = Function.update s.fetchingLayers l (some s.channels.length)) ∨
    (pc.owns = true ∧ pc'.owns = false ∧
      s'.fetchingLayers = Function.update s.fetchingLayers l none) := by
  cases h with
  | make hnone => exact .inr (.inl ⟨rfl, hnone, rfl⟩)
  | delete => exact .inr (.inr ⟨rfl, rfl, rfl⟩)
  | closeMissing hnone => exact (hf.moves (.closeMissing hnone)).elim
  | closeClosed hsome hopen => exact (hf.moves (.closeClosed hsome hopen)).elim
  | _ => exact .inl ⟨rfl, rfl⟩

/-- What a step registers is the layer of its call, which did not exist. -/
theorem Fine.registers (hf : Fine s i l pc) (h : pc.Moves i l s pc' s') :
    s'.registered = s.registered ∨
      s'.registered = s.registered ++ [l] ∧ l ∉ s.graph ∧ l ∈ s'.graph := by
  cases h with
  | register =>
    obtain ⟨-, habs, rfl⟩ := hf
    exact .inr ⟨rfl, habs, by simp⟩
  | _ => exact .inl rfl

end

section
variable {s : Fetcher} {i j : ℕ} {l : String} {c c' : FetchLayer} {pc : Pc} {sh : Shared}

/-- **The beginning of a call keeps the invariant.** -/
theorem Inv.call (hi : Inv s) (hnone : s.calls i = none) : Inv (s.put s.shared i ⟨l, .lock⟩) where
  fine {j c} hc := by
    rcases Threads.set_cases hc with ⟨rfl, rfl⟩ | ⟨-, hc⟩
    · trivial
    · exact hi.fine hc
  unique {j k c c'} hc hc' ho ho' hl := by
    rcases Threads.set_cases hc with ⟨rfl, rfl⟩ | ⟨-, hc⟩
    · cases ho
    rcases Threads.set_cases hc' with ⟨rfl, rfl⟩ | ⟨-, hc'⟩
    · cases ho'
    exact hi.unique hc hc' ho ho' hl
  owned {l ch} hch := by
    obtain ⟨j, c, hc, hl, ho⟩ := hi.owned hch
    have hj : j ≠ i := by rintro rfl; rw [hnone] at hc; cases hc
    exact ⟨j, c, (Threads.set_of_ne hj).trans hc, hl, ho⟩
  inj := hi.inj
  once := hi.once
  exist := hi.exist

/-- The channel of a layer in the map was made. -/
theorem Inv.made (hi : Inv s) {ch : ℕ} (hch : s.shared.fetchingLayers l = some ch) :
    ch < s.shared.channels.length := by
  obtain ⟨i, c, hc, rfl, ho⟩ := hi.owned hch
  obtain ⟨closed, ch', hch', hclosed⟩ := (hi.fine hc).has ho
  rw [hch] at hch'; cases hch'
  exact (List.getElem?_eq_some_iff.1 hclosed).1

variable (hi : Inv s) (hc : s.calls i = some c) (hm : c.pc.Moves i c.layerID s.shared pc sh)
include hi hc hm

theorem Inv.moves_fine (hc' : (s.put sh i ⟨c.layerID, pc⟩).calls j = some c') :
    Fine sh j c'.layerID c'.pc := by
  rcases Threads.set_cases hc' with ⟨rfl, rfl⟩ | ⟨hj, hc'⟩
  · exact (hi.fine hc).moves hm
  · refine (hi.fine hc).frame hm hi.inj hj (fun ho hl => ?_) (hi.fine hc')
    cases hown : c.pc.owns with
    | false => rfl
    | true => exact (hj (hi.unique hc' hc ho hown hl)).elim

theorem Inv.moves_unique (hj : j ≠ i) (hc' : s.calls j = some c') (ho : pc.owns = true)
    (ho' : c'.pc.owns = true) : c.layerID ≠ c'.layerID := by
  intro hl
  rcases (hi.fine hc).layers hm with ⟨heq, -⟩ | ⟨-, hnone, -⟩ | ⟨-, hno, -⟩
  · exact hj (hi.unique hc' hc ho' (heq ▸ ho) hl.symm)
  · obtain ⟨closed, ch, hch, -⟩ := (hi.fine hc').has ho'
    rw [← hl, hnone] at hch; cases hch
  · rw [ho] at hno; cases hno

theorem Inv.moves_owned {ch : ℕ} (hch : sh.fetchingLayers l = some ch) :
    ∃ j c', (s.put sh i ⟨c.layerID, pc⟩).calls j = some c' ∧ c'.layerID = l ∧
      c'.pc.owns = true := by
  -- the owner before the step still is one, unless it is this call and gives up
  have hold (hch : s.shared.fetchingLayers l = some ch)
      (ho : c.layerID = l → c.pc.owns = true → pc.owns = true) :
      ∃ j c', (s.put sh i ⟨c.layerID, pc⟩).calls j = some c' ∧ c'.layerID = l ∧
        c'.pc.owns = true := by
    obtain ⟨j, c', hc', hl, hown⟩ := hi.owned hch
    rcases eq_or_ne j i with rfl | hj
    · rw [hc] at hc'; cases hc'
      exact ⟨j, _, Threads.set_self, hl, ho hl hown⟩
    · exact ⟨j, c', (Threads.set_of_ne hj).trans hc', hl, hown⟩
  rcases (hi.fine hc).layers hm with ⟨heq, hsame⟩ | ⟨ho, -, hmake⟩ | ⟨-, -, hdelete⟩
  · exact hold (hsame ▸ hch) fun _ hown => heq.trans hown
  · rcases eq_or_ne l c.layerID with rfl | hl
    · exact ⟨i, _, Threads.set_self, rfl, ho⟩
    · rw [hmake, Function.update_of_ne hl] at hch
      exact hold hch fun hl' => (hl hl'.symm).elim
  · rcases eq_or_ne l c.layerID with rfl | hl
    · rw [hdelete, Function.update_self] at hch; cases hch
    · rw [hdelete, Function.update_of_ne hl] at hch
      exact hold hch fun hl' => (hl hl'.symm).elim

theorem Inv.moves_inj {l₁ l₂ : String} {ch : ℕ} (h₁ : sh.fetchingLayers l₁ = some ch)
    (h₂ : sh.fetchingLayers l₂ = some ch) : l₁ = l₂ := by
  rcases (hi.fine hc).layers hm with ⟨-, hsame⟩ | ⟨-, -, hmake⟩ | ⟨-, -, hdelete⟩
  · exact hi.inj _ _ _ (hsame ▸ h₁) (hsame ▸ h₂)
  · -- the channel made is no other layer's
    have hnew {l} (hl : l ≠ c.layerID) (h : sh.fetchingLayers l = some s.shared.channels.length) :
        False := by
      rw [hmake, Function.update_of_ne hl] at h
      exact Nat.lt_irrefl _ (hi.made h)
    have hlen : sh.fetchingLayers c.layerID = some s.shared.channels.length := by
      rw [hmake, Function.update_self]
    by_cases hl₁ : l₁ = c.layerID <;> by_cases hl₂ : l₂ = c.layerID
    · exact hl₁.trans hl₂.symm
    · rw [hl₁, hlen] at h₁; cases h₁
      exact (hnew hl₂ h₂).elim
    · rw [hl₂, hlen] at h₂; cases h₂
      exact (hnew hl₁ h₁).elim
    · rw [hmake, Function.update_of_ne hl₁] at h₁
      rw [hmake, Function.update_of_ne hl₂] at h₂
      exact hi.inj _ _ _ h₁ h₂
  · have hold {l} (h : sh.fetchingLayers l = some ch) : s.shared.fetchingLayers l = some ch := by
      rcases eq_or_ne l c.layerID with rfl | hl
      · rw [hdelete, Function.update_self] at h; cases h
      · rwa [hdelete, Function.update_of_ne hl] at h
    exact hi.inj _ _ _ (hold h₁) (hold h₂)

/-- **A step of a call keeps the invariant.** -/
theorem Inv.moves : Inv (s.put sh i ⟨c.layerID, pc⟩) where
  fine := hi.moves_fine hc hm
  unique {j k c₁ c₂} h₁ h₂ ho₁ ho₂ hl := by
    rcases Threads.set_cases h₁ with ⟨rfl, rfl⟩ | ⟨hj, hc₁⟩ <;>
      rcases Threads.set_cases h₂ with ⟨rfl, rfl⟩ | ⟨hk, hc₂⟩
    · rfl
    · exact (hi.moves_unique hc hm hk hc₂ ho₁ ho₂ hl).elim
    · exact (hi.moves_unique hc hm hj hc₁ ho₂ ho₁ hl.symm).elim
    · exact hi.unique hc₁ hc₂ ho₁ ho₂ hl
  owned := hi.moves_owned hc hm
  inj _ _ _ := hi.moves_inj hc hm
  once := by
    rcases (hi.fine hc).registers hm with heq | ⟨heq, habs, -⟩
    · exact heq ▸ hi.once
    · show sh.registered.Nodup
      rw [heq, ← List.concat_eq_append]
      exact hi.once.concat fun hmem => habs (hi.exist _ hmem)
  exist l hl := by
    rcases (hi.fine hc).registers hm with heq | ⟨heq, -, hnew⟩
    · exact hm.graph_mono (hi.exist l (heq ▸ hl))
    · rcases List.mem_append.1 (heq ▸ hl) with hl | hl
      · exact hm.graph_mono (hi.exist l hl)
      · exact List.mem_singleton.1 hl ▸ hnew

end

theorem Inv.step {s s' : Fetcher} {lab : Label} (hi : Inv s) (h : guarded Honest Step s lab s') :
    Inv s' := by
  rcases step_cases h.1 h.2 with ⟨i, l, -, hnone, rfl⟩ | ⟨i, r, c, pc, sh, -, hc, hm, rfl⟩
  · exact hi.call hnone
  · exact hi.moves hc hm

theorem inv_of_run {graph : List String} {ls : List Label} {s : Fetcher}
    (h : Run (guarded Honest Step) (new graph) ls s) : Inv s :=
  h.invariant (inv_new graph) fun _ _ _ => Inv.step

/-- **Layers are fetched by one call at a time**, in any interleaving of any
    calls and with any failures. -/
theorem fetchLayer_exclusive {graph : List String} {ls : List Label} {s : Fetcher}
    (h : Run (guarded Honest Step) (new graph) ls s) :
    (∀ i j c c', s.calls i = some c → s.calls j = some c' → c.pc.owns = true →
      c'.pc.owns = true → c.layerID = c'.layerID → i = j) ∧
    s.shared.registered.Nodup ∧
    (∀ i c, s.calls i = some c → c.pc ≠ .panicked) ∧
    (∀ i l ch, s.calls i = some ⟨l, .blocked ch⟩ → s.shared.channels[ch]? = some true ∨
      s.shared.fetchingLayers l = some ch ∧
        ∃ j c, s.calls j = some c ∧ c.layerID = l ∧ c.pc.owns = true) := by
  have hi := inv_of_run h
  refine ⟨fun i j c c' hc hc' => hi.unique hc hc', hi.once, ?_, ?_⟩
  · rintro i ⟨l, pc⟩ hc rfl
    exact hi.fine hc
  · intro i l ch hc
    rcases hi.fine hc with hclosed | hch
    · exact .inl hclosed
    · exact .inr ⟨hch, hi.owned hch⟩

/-- A call fails while another waits for it; the other one then fetches the
    layer. -/
theorem fetchLayer_exclusive_retry :
    ∃ ls s, Run (guarded Honest Step) (new ["base"]) ls s ∧
      s.calls 0 = some ⟨"layer", .returned true⟩ ∧ s.calls 1 = some ⟨"layer", .returned false⟩ ∧
      s.shared.registered = ["layer"] ∧ s.shared.registered.Nodup := by
  have h : ∃ s, Run (guarded Honest Step) (new ["base"])
      ([.call 0 "layer", .call 1 "layer"] ++ List.replicate 3 (.step 0 .done) ++
        List.replicate 3 (.step 1 .done) ++ List.replicate 2 (.step 0 .error) ++
        List.replicate 4 (.step 0 .done) ++ List.replicate 6 (.step 1 .done) ++
        [.step 1 (.image "layer")] ++ List.replicate 6 (.step 1 .done)) s ∧
      s.calls 0 = some ⟨"layer", .returned true⟩ ∧ s.calls 1 = some ⟨"layer", .returned false⟩ ∧
      s.shared.registered = ["layer"] := exists_guarded_run (by decide +kernel)
  obtain ⟨s, hr, h₀, h₁, hreg⟩ := h
  exact ⟨_, s, hr, h₀, h₁, hreg, (fetchLayer_exclusive hr).2.1⟩

end DockerRepositoryFetcher

end WardenLinux
