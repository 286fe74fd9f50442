/-
  Images fetched by several requests at a time (repository_fetcher.go, `Fetch`
  and `fetchFromEndpoint`).

  A `Fetch` tries the endpoints in turn.  It asks for the history of the image
  and fetches the layers from the last one to the first; each of them is a call
  of `fetchLayer` in the fetcher that all share.  What an endpoint that fails has
  given so far stays in the graph.

  `fetched_complete`: with each layer the graph contains all its ancestors, and
  an image that is returned is there with all its layers.
-/
import WardenLinux.RepositoryFetcher

namespace WardenLinux

open Transition

namespace DockerRepositoryFetcher

/-! ## Steps -/

/-- The outcome of a step of `Fetch`: what the registry returns, an error, or
    the call of `fetchLayer` that begins. -/
inductive FetchReply where
  | repositoryData (endpoints : List String)
  | tags (tagsList : List (String × String))
  | history (history : List String)
  | error
  | call (i : ℕ)
  | done
  deriving DecidableEq

/-- Where a `Fetch` is. -/
inductive FetchPc where
  /-- `GetRepositoryData` -/
  | repositoryData (tag : String)
  /-- `GetRemoteTags`, and the lookup of the tag -/
  | remoteTags (tag : String) (endpoints : List String)
  /-- the loop over the endpoints, with those not tried yet -/
  | nextEndpoint (imgID : String) (rest : List String)
  /-- `GetRemoteHistory` -/
  | remoteHistory (imgID endpoint : String) (rest : List String)
  /-- the loop over the history, with the first `n` layers not fetched yet -/
  | layers (imgID : String) (rest history : List String) (n : ℕ)
  /-- in `fetchLayer` of the layer `n`, the call `i` -/
  | layer (imgID : String) (rest history : List String) (n i : ℕ)
  /-- the image, or an error -/
  | returned (imgID : Option String)
  deriving DecidableEq

/-- The fetcher, the calls of `Fetch`, and the histories that the endpoints
    returned, each with its endpoint and image. -/
structure Images where
  fetcher : Fetcher
  fetches : ℕ → Option FetchPc
  histories : List (String × String × List String)

/-- The next step of a `Fetch`. -/
def FetchPc.next (r : FetchReply) (f : Fetcher) (histories : List (String × String × List String)) :
    FetchPc → Option (FetchPc × Fetcher × List (String × String × List String))
  | .repositoryData tag =>
    match r with
    | .repositoryData endpoints => some (.remoteTags tag endpoints, f, histories)
    | .error => some (.returned none, f, histories)
    | _ => none
  | .remoteTags tag endpoints =>
    match r with
    | .tags tagsList =>
      match tagsList.lookup tag with
      | some imgID => some (.nextEndpoint imgID endpoints, f, histories)
      | none => some (.returned none, f, histories)
    | .error => some (.returned none, f, histories)
    | _ => none
  | .nextEndpoint _ [] => some (.returned none, f, histories)
  | .nextEndpoint imgID (endpoint :: rest) => some (.remoteHistory imgID endpoint rest, f, histories)
  | .remoteHistory imgID endpoint rest =>
    match r with
    | .history history =>
      some (.layers imgID rest history history.length, f,
        histories ++ [(endpoint, imgID, history)])
    | .error => some (.nextEndpoint imgID rest, f, histories)
    | _ => none
  | .layers imgID _ _ 0 => some (.returned (some imgID), f, histories)
  | .layers imgID rest history (n + 1) =>
    match r, history[n]? with
    | .call i, some layerID =>
      (f.step (.call i layerID)).map fun f => (.layer imgID rest history n i, f, histories)
    | _, _ => none
  | .layer imgID rest history n i =>
    match (f.calls i).map FetchLayer.pc with
    | some (.returned false) => some (.layers imgID rest history n, f, histories)
    | some (.returned true) => some (.nextEndpoint imgID rest, f, histories)
    | _ => none
  | .returned _ => none

inductive FetchLabel where
  /-- a `Fetch` of a tag begins -/
  | fetch (k : ℕ) (tag : String)
  /-- a `Fetch` takes a step of its own -/
  | advance (k : ℕ) (r : FetchReply)
  /-- a call of `fetchLayer` takes a step -/
  | layer (i : ℕ) (r : Reply)
  deriving DecidableEq

def Images.step (s : Images) : FetchLabel → Option Images
  | .fetch k tag =>
    match s.fetches k with
    | none => some { s with fetches := Threads.set s.fetches k (.repositoryData tag) }
    | some _ => none
  | .advance k r =>
    match s.fetches k with
    | none => none
    | some pc => (pc.next r s.fetcher s.histories).map fun (pc, f, histories) =>
        ⟨f, Threads.set s.fetches k pc, histories⟩
  | .layer i r => (s.fetcher.step (.step i r)).map fun f => { s with fetcher := f }

def ImageStep (s : Images) (l : FetchLabel) (s' : Images) : Prop := s.step l = some s'

def newImages (graph : List String) : Images := ⟨new graph, fun _ => none, []⟩

/-! ## Histories -/

section
variable (ancestors : String → List String)

/-- The history of an ancestor is the corresponding suffix. -/
def Consistent : Prop := ∀ l pre a post, ancestors l = pre ++ a :: post → ancestors a = post

/-- With each layer, all its ancestors. -/
def Closed (graph : List String) : Prop := ∀ l ∈ graph, ∀ a ∈ ancestors l, a ∈ graph

/-- The history of an image that is asked for is the image and its ancestors. -/
def FetchPc.Answered (history : List String) : FetchPc → Prop
  | .remoteHistory imgID _ _ => history = imgID :: ancestors imgID
  | .repositoryData _ | .remoteTags _ _ | .nextEndpoint _ _ | .layers _ _ _ _ | .layer _ _ _ _ _
  | .returned _ => True

/-- The registry returns the JSON of the layer and the history of the image that
    it is asked for. -/
def Truthful (s : Images) : FetchLabel → Prop
  | .layer i r => Honest s.fetcher (.step i r)
  | .advance k (.history history) => ∀ pc ∈ s.fetches k, pc.Answered ancestors history
  | .fetch _ _ | .advance _ (.repositoryData _) | .advance _ (.tags _) | .advance _ .error
  | .advance _ (.call _) | .advance _ .done => True

instance (history : List String) : DecidablePred (FetchPc.Answered ancestors history)
  | .remoteHistory imgID _ _ => inferInstanceAs (Decidable (history = imgID :: ancestors imgID))
  | .repositoryData _ | .remoteTags _ _ | .nextEndpoint _ _ | .layers _ _ _ _ | .layer _ _ _ _ _
  | .returned _ => isTrue trivial

instance (s : Images) : DecidablePred (Truthful ancestors s)
  | .layer i r => inferInstanceAs (Decidable (Honest s.fetcher (.step i r)))
  | .advance k (.history history) =>
    inferInstanceAs (Decidable (∀ pc ∈ s.fetches k, pc.Answered ancestors history))
  | .fetch _ _ | .advance _ (.repositoryData _) | .advance _ (.tags _) | .advance _ .error
  | .advance _ (.call _) | .advance _ .done => isTrue trivial

variable {ancestors}

/-- What comes after a layer in a history are its ancestors. -/
theorem Consistent.drop (h : Consistent ancestors) {imgID : String} {n : ℕ} {l : String}
    (hl : (imgID :: ancestors imgID)[n]? = some l) :
    (imgID :: ancestors imgID).drop (n + 1) = ancestors l := by
  cases n with
  | zero => cases hl; rfl
  | succ n =>
    rw [List.getElem?_cons_succ] at hl
    obtain ⟨hlt, rfl⟩ := List.getElem?_eq_some_iff.1 hl
    rw [List.drop_succ_cons]
    refine (h imgID ((ancestors imgID).take n) _ _ ?_).symm
    rw [← List.drop_eq_getElem_cons hlt, List.take_append_drop]

end

/-! ## The invariant -/

/-- The assertion at each point of a `Fetch`: the layers from `n` on are there. -/
def FetchFine (f : Fetcher) (histories : List (String × String × List String)) : FetchPc → Prop
  | .layers imgID _ history n =>
    (∃ e, (e, imgID, history) ∈ histories) ∧ ∀ l ∈ history.drop n, l ∈ f.shared.graph
  | .layer imgID _ history n i =>
    (∃ e, (e, imgID, history) ∈ histories) ∧ (∀ l ∈ history.drop (n + 1), l ∈ f.shared.graph) ∧
      ∃ c, f.calls i = some c ∧ history[n]? = some c.layerID
  | .returned (some imgID) =>
    ∃ e history, (e, imgID, history) ∈ histories ∧ ∀ l ∈ history, l ∈ f.shared.graph
  | .repositoryData _ | .remoteTags _ _ | .nextEndpoint _ _ | .remoteHistory _ _ _
  | .returned none => True

/-- The graph is closed, and the ancestors of a layer that is being fetched are
    there. -/
structure Kept (ancestors : String → List String) (s : Images) : Prop where
  inv : Inv s.fetcher
  closed : Closed ancestors s.fetcher.shared.graph
  calls : ∀ {i c}, s.fetcher.calls i = some c → ∀ a ∈ ancestors c.layerID, a ∈ s.fetcher.shared.graph
  fetches : ∀ {k pc}, s.fetches k = some pc → FetchFine s.fetcher s.histories pc
  histories : ∀ {e imgID history}, (e, imgID, history) ∈ s.histories →
    history = imgID :: ancestors imgID

theorem kept_new {ancestors : String → List String} {graph : List String}
    (h : Closed ancestors graph) : Kept ancestors (newImages graph) where
  inv := inv_new graph
  closed := h
  calls := nofun
  fetches := nofun
  histories := nofun

/-- The graph has grown, and the calls go on. -/
structure Later (f f' : Fetcher) : Prop where
  graph : ∀ l ∈ f.shared.graph, l ∈ f'.shared.graph
  calls : ∀ {i c}, f.calls i = some c → ∃ c', f'.calls i = some c' ∧ c'.layerID = c.layerID

theorem later_put {f : Fetcher} {sh : Shared} {i : ℕ} {c : FetchLayer}
    (hgraph : ∀ l ∈ f.shared.graph, l ∈ sh.graph)
    (hc : ∀ c', f.calls i = some c' → c.layerID = c'.layerID) : Later f (f.put sh i c) where
  graph := hgraph
  calls {j c'} hc' := by
    rcases eq_or_ne j i with rfl | hj
    · exact ⟨c, Threads.set_self, hc c' hc'⟩
    · exact ⟨c', (Threads.set_of_ne hj).trans hc', rfl⟩

section
variable {f f' : Fetcher} {histories histories' : List (String × String × List String)}

theorem FetchFine.mono {pc : FetchPc} (h : FetchFine f histories pc) (hl : Later f f')
    (hh : ∀ x ∈ histories, x ∈ histories') : FetchFine f' histories' pc := by
  cases pc with
  | layers imgID rest history n =>
    obtain ⟨⟨e, he⟩, hdrop⟩ := h
    exact ⟨⟨e, hh _ he⟩, fun l hmem => hl.graph l (hdrop l hmem)⟩
  | layer imgID rest history n i =>
    obtain ⟨⟨e, he⟩, hdrop, c, hc, hn⟩ := h
    obtain ⟨c', hc', hid⟩ := hl.calls hc
    exact ⟨⟨e, hh _ he⟩, fun l hmem => hl.graph l (hdrop l hmem), c', hc', hid ▸ hn⟩
  | returned imgID =>
    cases imgID with
    | none => trivial
    | some imgID =>
      obtain ⟨e, history, he, hmem⟩ := h
      exact ⟨e, history, hh _ he, fun l hl' => hl.graph l (hmem l hl')⟩
  | repositoryData => trivial
  | remoteTags => trivial
  | nextEndpoint => trivial
  | remoteHistory => trivial

end

/-- What a step adds to the graph is the layer of its call. -/
theorem Fine.grows {s s' : Shared} {i : ℕ} {l : String} {pc pc' : Pc} (hf : Fine s i l pc)
    (h : pc.Moves i l s pc' s') : s'.graph = s.graph ∨ s'.graph = s.graph ++ [l] := by
  cases h with
  | register => exact .inr (by rw [hf.2.2])
  | registerStores => exact .inr (by rw [hf.2.2])
  | _ => exact .inl rfl

section
variable {ancestors : String → List String} {s : Images} {i k : ℕ}

/-- A `Fetch` begins, or has taken a step. -/
theorem Kept.put {pc : FetchPc} (h : Kept ancestors s) (hpc : FetchFine s.fetcher s.histories pc) :
    Kept ancestors ⟨s.fetcher, Threads.set s.fetches k pc, s.histories⟩ where
  inv := h.inv
  closed := h.closed
  calls := h.calls
  fetches hq := by
    rcases Threads.set_cases hq with ⟨rfl, rfl⟩ | ⟨-, hq⟩
    · exact hpc
    · exact h.fetches hq
  histories := h.histories

/-- An endpoint has returned a history. -/
theorem Kept.record {e imgID : String} {history : List String} (h : Kept ancestors s)
    (hh : history = imgID :: ancestors imgID) :
    Kept ancestors { s with histories := s.histories ++ [(e, imgID, history)] } where
  inv := h.inv
  closed := h.closed
  calls := h.calls
  fetches hq := (h.fetches hq).mono ⟨fun _ hl => hl, fun hc => ⟨_, hc, rfl⟩⟩
    fun _ => List.mem_append_left _
  histories hmem := by
    rcases List.mem_append.1 hmem with hmem | hmem
    · exact h.histories hmem
    · cases List.mem_singleton.1 hmem
      exact hh

/-- A call of `fetchLayer` begins. -/
theorem Kept.begin {l : String} (h : Kept ancestors s) (hnone : s.fetcher.calls i = none)
    (hl : ∀ a ∈ ancestors l, a ∈ s.fetcher.shared.graph) :
    Kept ancestors { s with fetcher := s.fetcher.put s.fetcher.shared i ⟨l, .lock⟩ } where
  inv := h.inv.call hnone
  closed := h.closed
  calls hc := by
    rcases Threads.set_cases hc with ⟨rfl, rfl⟩ | ⟨-, hc⟩
    · exact hl
    · exact h.calls hc
  fetches hq := (h.fetches hq).mono
    (later_put (fun _ hl => hl) fun c' hc' => by rw [hnone] at hc'; cases hc') fun _ hx => hx
  histories := h.histories

/-- **A call of `fetchLayer` takes a step**: the parents come first. -/
theorem Kept.moves {c : FetchLayer} {pc : Pc} {sh : Shared} (h : Kept ancestors s)
    (hc : s.fetcher.calls i = some c) (hm : c.pc.Moves i c.layerID s.fetcher.shared pc sh) :
    Kept ancestors { s with fetcher := s.fetcher.put sh i ⟨c.layerID, pc⟩ } where
  inv := h.inv.moves hc hm
  closed l hl a ha := by
    refine hm.graph_mono ?_
    rcases (h.inv.fine hc).grows hm with heq | heq
    · exact h.closed l (heq ▸ hl) a ha
    · rcases List.mem_append.1 (heq ▸ hl) with hl | hl
      · exact h.closed l hl a ha
      · exact h.calls hc a (List.mem_singleton.1 hl ▸ ha)
  calls hc' a ha := by
    refine hm.graph_mono ?_
    rcases Threads.set_cases hc' with ⟨rfl, rfl⟩ | ⟨-, hc'⟩
    · exact h.calls hc a ha
    · exact h.calls hc' a ha
  fetches hq := (h.fetches hq).mono
    (later_put (fun _ => hm.graph_mono) fun c' hc' => by rw [hc] at hc'; cases hc'; rfl)
    fun _ hx => hx
  histories := h.histories

/-- A layer was fetched: it is there, with those after it. -/
theorem Kept.fetched {imgID : String} {rest history : List String} {n : ℕ} (h : Kept ancestors s)
    (hpc : s.fetches k = some (.layer imgID rest history n i))
    (hret : (s.fetcher.calls i).map FetchLayer.pc = some (.returned false)) :
    FetchFine s.fetcher s.histories (.layers imgID rest history n) := by
  obtain ⟨he, hdrop, c, hc, hn⟩ := h.fetches hpc
  have hfine := h.inv.fine hc
  rw [hc, Option.map_some, Option.some.injEq] at hret
  rw [hret] at hfine
  refine ⟨he, fun l hl => ?_⟩
  obtain ⟨hlt, hget⟩ := List.getElem?_eq_some_iff.1 hn
  rw [List.drop_eq_getElem_cons hlt, hget] at hl
  rcases List.mem_cons.1 hl with rfl | hl
  · exact hfine rfl
  · exact hdrop l hl

/-- The next layer of an image is begun: those after it in the history, its
    ancestors, have been fetched. -/
theorem Kept.next_layer {pc' : FetchPc} {imgID : String} {rest history : List String} {n : ℕ}
    {r : FetchReply} {f' : Fetcher} {histories' : List (String × String × List String)}
    (hcon : Consistent ancestors) (h : Kept ancestors s)
    (hpc : s.fetches k = some (.layers imgID rest history (n + 1)))
    (hn : (FetchPc.layers imgID rest history (n + 1)).next r s.fetcher s.histories =
      some (pc', f', histories')) :
    Kept ancestors ⟨f', Threads.set s.fetches k pc', histories'⟩ := by
  obtain ⟨⟨e, he⟩, hdrop⟩ := h.fetches hpc
  simp only [FetchPc.next] at hn
  split at hn
  · rename_i i l hl
    obtain ⟨f, hf, heq⟩ := Option.map_eq_some_iff.1 hn
    cases heq
    simp only [Fetcher.step] at hf
    split at hf
    · rename_i hnone
      cases hf
      have hanc : history.drop (n + 1) = ancestors l := by
        have hh := h.histories he
        rw [hh] at hl ⊢
        exact hcon.drop hl
      exact (h.begin hnone (hanc ▸ hdrop)).put
        ⟨⟨e, he⟩, hdrop, ⟨l, .lock⟩, Threads.set_self, hl⟩
    · cases hf
  · cases hn

/-- **A `Fetch` takes a step of its own.** -/
theorem Kept.advance {pc pc' : FetchPc} {r : FetchReply} {f' : Fetcher}
    {histories' : List (String × String × List String)} (hcon : Consistent ancestors)
    (h : Kept ancestors s) (hpc : s.fetches k = some pc)
    (htruth : Truthful ancestors s (.advance k r))
    (hn : pc.next r s.fetcher s.histories = some (pc', f', histories')) :
    Kept ancestors ⟨f', Threads.set s.fetches k pc', histories'⟩ := by
  cases pc with
  | repositoryData tag => cases r <;> cases hn <;> exact h.put trivial
  | remoteTags tag endpoints =>
    cases r with
    | tags tagsList =>
      simp only [FetchPc.next] at hn
      split at hn <;> cases hn <;> exact h.put trivial
    | error => cases hn; exact h.put trivial
    | _ => cases hn
  | nextEndpoint imgID rest => cases rest <;> cases hn <;> exact h.put trivial
  | remoteHistory imgID endpoint rest =>
    cases r with
    | history history =>
      cases hn
      exact (h.record (htruth _ hpc)).put ⟨⟨endpoint, by simp⟩, by simp⟩
    | error => cases hn; exact h.put trivial
    | _ => cases hn
  | layers imgID rest history n =>
    cases n with
    | zero =>
      obtain ⟨⟨e, he⟩, hdrop⟩ := h.fetches hpc
      cases hn
      exact h.put ⟨e, history, he, by simpa using hdrop⟩
    | succ n => exact h.next_layer hcon hpc hn
  | layer imgID rest history n i =>
    simp only [FetchPc.next] at hn
    split at hn
    · rename_i hret
      cases hn
      exact h.put (h.fetched hpc hret)
    · cases hn; exact h.put trivial
    · cases hn
  | returned => cases hn

theorem Kept.step {s' : Images} {l : FetchLabel} (hcon : Consistent ancestors) (h : Kept ancestors s)
    (hs : guarded (Truthful ancestors) ImageStep s l s') : Kept ancestors s' := by
  obtain ⟨htruth, hs⟩ := hs
  cases l with
  | fetch k tag =>
    simp only [ImageStep, Images.step] at hs
    split at hs
    · cases hs; exact h.put trivial
    · cases hs
  | advance k r =>
    simp only [ImageStep, Images.step] at hs
    split at hs
    · cases hs
    · rename_i pc hpc
      obtain ⟨⟨pc', f', histories'⟩, hn, rfl⟩ := Option.map_eq_some_iff.1 hs
      exact h.advance hcon hpc htruth hn
  | layer i r =>
    obtain ⟨f, hf, rfl⟩ := Option.map_eq_some_iff.1 hs
    rcases step_cases htruth hf with ⟨i, l, hlab, -⟩ | ⟨i, r, c, pc, sh, -, hc, hm, rfl⟩
    · cases hlab
    · exact h.moves hc hm

end

/-- **Images are complete and parents come first**, for any number of requests,
    in any interleaving and with any failures. -/
theorem fetched_complete {ancestors : String → List String} (hcon : Consistent ancestors)
    {graph : List String} (hgraph : Closed ancestors graph) {ls : List FetchLabel} {s : Images}
    (h : Run (guarded (Truthful ancestors) ImageStep) (newImages graph) ls s) :
    Closed ancestors s.fetcher.shared.graph ∧
    ∀ k imgID, s.fetches k = some (.returned (some imgID)) →
      (∃ endpoint history, (endpoint, imgID, history) ∈ s.histories) ∧
      ∀ endpoint history, (endpoint, imgID, history) ∈ s.histories →
        ∀ l ∈ history, l ∈ s.fetcher.shared.graph := by
  have hk : Kept ancestors s := h.invariant (kept_new hgraph) fun _ _ _ h hs => h.step hcon hs
  refine ⟨hk.closed, fun k imgID hret => ?_⟩
  obtain ⟨e, history, he, hmem⟩ := hk.fetches hret
  refine ⟨⟨e, history, he⟩, fun e' history' he' l hl => hmem l ?_⟩
  rw [hk.histories he', ← hk.histories he] at hl
  exact hl

/-- An image with one parent. -/
def oneParent (l : String) : List String := if l = "img" then ["base"] else []

theorem oneParent_consistent : Consistent oneParent := by
  intro l pre a post h
  by_cases hl : l = "img"
  · obtain ⟨rfl, rfl, rfl⟩ : pre = [] ∧ a = "base" ∧ post = [] := by
      cases pre <;> simp_all [oneParent]
    decide
  · simp [oneParent, hl] at h

/-- The steps of a call that downloads its layer. -/
def download (i : ℕ) (layerID : String) : List FetchLabel :=
  List.replicate 5 (.layer i .done) ++ [.layer i (.image layerID)] ++
    List.replicate 6 (.layer i .done)

/-- The first endpoint fails after the parent, and the second one goes on. -/
theorem fetched_complete_endpoints :
    ∃ ls s, Run (guarded (Truthful oneParent) ImageStep) (newImages []) ls s ∧
      s.fetches 0 = some (.returned (some "img")) ∧ s.fetcher.shared.graph = ["base", "img"] ∧
      ∃ endpoint history, (endpoint, "img", history) ∈ s.histories ∧
        ∀ l ∈ history, l ∈ s.fetcher.shared.graph := by
  have h : ∃ s, Run (guarded (Truthful oneParent) ImageStep) (newImages [])
      ([.fetch 0 "latest", .advance 0 (.repositoryData ["one", "two"]),
        .advance 0 (.tags [("latest", "img")]), .advance 0 .done,
        .advance 0 (.history ["img", "base"]), .advance 0 (.call 0)] ++ download 0 "base" ++
        [.advance 0 .done, .advance 0 (.call 1)] ++ List.replicate 4 (.layer 1 .done) ++
        [.layer 1 .error] ++ List.replicate 4 (.layer 1 .done) ++
        [.advance 0 .done, .advance 0 .done, .advance 0 (.history ["img", "base"]),
          .advance 0 (.call 2)] ++ List.replicate 8 (.layer 2 .done) ++
        [.advance 0 .done, .advance 0 (.call 3)] ++ download 3 "img" ++
        [.advance 0 .done, .advance 0 .done]) s ∧
      s.fetches 0 = some (.returned (some "img")) ∧ s.fetcher.shared.graph = ["base", "img"] :=
    exists_guarded_run (by decide +kernel)
  obtain ⟨s, hr, hret, hg⟩ := h
  obtain ⟨⟨e, history, he⟩, hall⟩ :=
    (fetched_complete oneParent_consistent (by simp [Closed]) hr).2 0 "img" hret
  exact ⟨_, s, hr, hret, hg, e, history, he, hall e history he⟩

end DockerRepositoryFetcher

end WardenLinux
