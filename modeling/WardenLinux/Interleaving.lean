/-
  Requests that run at the same time: the steps of `Destroy`, `Create` and
  `NetIn` in any order.

  A step is what a request does under one lock, or one external call.  Each
  user ID and each network is in one place: in the list of the pool, with a
  request that has acquired it, or with an object whose resource no `Destroy`
  has put back (`Kind.Holds`).  `Pc.Moves` lists the steps; a step moves one of
  a kind at most (`next_uids`, `next_networks`).
-/
import WardenLinux.Lib.Transition
import WardenLinux.Ownership

namespace WardenLinux

open Fallible FreeList Transition

namespace Interleaving

/-- Where a request is. -/
inductive Pc where
  /-- `Destroy` before its lookup -/
  | lookup (handle : String)
  /-- `Destroy` of an object: the provider and `destroy.sh`, `CleanupRootFS`, the
      releases, the unregistration, the end -/
  | destroySh (i : ℕ)
  | cleanup (i : ℕ)
  | releasePorts (i : ℕ) (rest : List UInt32)
  | releaseUID (i : ℕ)
  | releaseNetwork (i : ℕ)
  | unregister (i : ℕ)
  | destroyed (i : ℕ)
  /-- `Create`: the two acquisitions, what stands before `create.sh`, `create.sh`,
      what stands after it, `start.sh`, the registration, the end -/
  | acquireUID (spec : ContainerSpec)
  | acquireNetwork (spec : ContainerSpec) (u : UInt32)
  | provide (spec : ContainerSpec) (u : UInt32) (n : Network)
  | createSh (spec : ContainerSpec) (id : String) (u : UInt32) (n : Network)
  | save (spec : ContainerSpec) (id : String) (u : UInt32) (n : Network)
  | start (i : ℕ)
  | register (i : ℕ)
  | created (i : ℕ)
  /-- the releases on the error paths of `Create` -/
  | undoUID (u : UInt32)
  | undoBoth (u : UInt32) (n : Network)
  | undoNetwork (n : Network)
  /-- `NetIn`: the acquisition, the port added to the container, the end -/
  | acquirePort (i : ℕ)
  | addPort (i : ℕ) (p : UInt32)
  | mapped
  | failed
  deriving DecidableEq, Repr

def update (i : ℕ) (f : LinuxContainer → LinuxContainer) (b : LinuxBackend) : LinuxBackend :=
  { b with heap := b.heap.set i (f (b.container i)) }

/-- The next step of a request; `ok` is the outcome of the external calls in
    it. -/
def Pc.next (cfg : Config) (ok : Bool) (b : LinuxBackend) : Pc → Option (Pc × LinuxBackend)
  | lookup handle =>
    match b.containers.lookup handle with
    | none => some (failed, b)
    | some i => some (destroySh i, b)
  | destroySh i => some (if ok then cleanup i else failed, b)
  | cleanup i => some (if ok then releasePorts i (b.container i).resources.ports else failed, b)
  | releasePorts i [] => some (releaseUID i, b)
  | releasePorts i (p :: ps) =>
    some (releasePorts i ps, { b with pool := b.pool.releasePorts [p] })
  | releaseUID i =>
    some (releaseNetwork i, { b with pool := b.pool.releaseUID (b.container i).resources.uid })
  | releaseNetwork i =>
    some (unregister i, { b with pool := b.pool.releaseNetwork (b.container i).resources.network })
  | unregister i =>
    some (destroyed i, { b with containers := b.containers.erase (b.container i).handle })
  | acquireUID spec =>
    match UnixUIDPool.acquire b.pool.uidPool with
    | .ok u p => some (acquireNetwork spec u, { b with pool := { b.pool with uidPool := p } })
    | .error _ _ => some (failed, b)
  | acquireNetwork spec u =>
    match RealNetworkPool.acquire b.pool.networkPool with
    | .ok n p => some (provide spec u n, { b with pool := { b.pool with networkPool := p } })
    | .error _ _ => some (undoUID u, b)
  | provide spec u n =>
    some (if ok then createSh spec (LinuxContainerPool.containerID b.pool.containerNum) u n else failed,
      { b with pool := { b.pool with containerNum := b.pool.containerNum + 1 } })
  | createSh spec id u n => some (if ok then save spec id u n else undoBoth u n, b)
  | save spec id u n =>
    if ok then some (start b.heap.length,
      { b with heap := b.heap ++ [LinuxContainerPool.newContainer cfg spec id u n] })
    else some (failed, b)
  | start i =>
    if ok then some (register i, update i (fun c => { c with state := .active }) b)
    else some (failed, b)
  | register i => some (created i, b.register i)
  | undoUID u => some (failed, { b with pool := b.pool.releaseUID u })
  | undoBoth u n => some (undoNetwork n, { b with pool := b.pool.releaseUID u })
  | undoNetwork n => some (failed, { b with pool := b.pool.releaseNetwork n })
  | acquirePort i =>
    match PortPool.acquire b.pool.portPool with
    | .ok p pool => some (addPort i p, { b with pool := { b.pool with portPool := pool } })
    | .error _ _ => some (failed, b)
  | addPort i p =>
    some (mapped, update i (fun c => { c with resources := c.resources.addPort p }) b)
  | destroyed _ | created _ | mapped | failed => none

/-- The places where a request can fail and leave everything as it is. -/
def Pc.stops : Pc → Bool
  | lookup _ | destroySh _ | cleanup _ | acquireUID _ | save _ _ _ _ | start _ | acquirePort _ => true
  | _ => false

/-- The steps of a request, one by one. -/
inductive Pc.Moves (cfg : Config) (ok : Bool) (b : LinuxBackend) : Pc → Pc → LinuxBackend → Prop
  | stop {pc} : pc.stops = true → Moves cfg ok b pc failed b
  | find {handle i} : b.containers.lookup handle = some i →
      Moves cfg ok b (lookup handle) (destroySh i) b
  | destroySh {i} : Moves cfg ok b (destroySh i) (cleanup i) b
  | cleanup {i} : ok = true →
      Moves cfg ok b (cleanup i) (releasePorts i (b.container i).resources.ports) b
  | ported {i} : Moves cfg ok b (releasePorts i []) (releaseUID i) b
  | releasePort {i p ps} : Moves cfg ok b (releasePorts i (p :: ps)) (releasePorts i ps)
      { b with pool := b.pool.releasePorts [p] }
  | releaseUID {i} : Moves cfg ok b (releaseUID i) (releaseNetwork i)
      { b with pool := b.pool.releaseUID (b.container i).resources.uid }
  | releaseNetwork {i} : Moves cfg ok b (releaseNetwork i) (unregister i)
      { b with pool := b.pool.releaseNetwork (b.container i).resources.network }
  | unregister {i} : Moves cfg ok b (unregister i) (destroyed i)
      { b with containers := b.containers.erase (b.container i).handle }
  | acquireUID {spec u p} : UnixUIDPool.acquire b.pool.uidPool = .ok u p →
      Moves cfg ok b (acquireUID spec) (acquireNetwork spec u)
        { b with pool := { b.pool with uidPool := p } }
  | acquireNetwork {spec u n p} : RealNetworkPool.acquire b.pool.networkPool = .ok n p →
      Moves cfg ok b (acquireNetwork spec u) (provide spec u n)
        { b with pool := { b.pool with networkPool := p } }
  | noNetwork {spec u} : Moves cfg ok b (acquireNetwork spec u) (undoUID u) b
  | provide {spec u n} : Moves cfg ok b (provide spec u n)
      (createSh spec (LinuxContainerPool.containerID b.pool.containerNum) u n)
      { b with pool := { b.pool with containerNum := b.pool.containerNum + 1 } }
  | noRootfs {spec u n} : Moves cfg ok b (provide spec u n) failed
      { b with pool := { b.pool with containerNum := b.pool.containerNum + 1 } }
  | createSh {spec id u n} : Moves cfg ok b (createSh spec id u n) (save spec id u n) b
  | notCreated {spec id u n} : Moves cfg ok b (createSh spec id u n) (undoBoth u n) b
  | save {spec id u n} : Moves cfg ok b (save spec id u n) (start b.heap.length)
      { b with heap := b.heap ++ [LinuxContainerPool.newContainer cfg spec id u n] }
  | start {i} : Moves cfg ok b (start i) (register i)
      (update i (fun c => { c with state := .active }) b)
  | register {i} : Moves cfg ok b (register i) (created i) (b.register i)
  | undoUID {u} : Moves cfg ok b (undoUID u) failed { b with pool := b.pool.releaseUID u }
  | undoBoth {u n} : Moves cfg ok b (undoBoth u n) (undoNetwork n)
      { b with pool := b.pool.releaseUID u }
  | undoNetwork {n} : Moves cfg ok b (undoNetwork n) failed
      { b with pool := b.pool.releaseNetwork n }
  | acquirePort {i p pool} : PortPool.acquire b.pool.portPool = .ok p pool →
      Moves cfg ok b (acquirePort i) (addPort i p) { b with pool := { b.pool with portPool := pool } }
  | addPort {i p} : Moves cfg ok b (addPort i p) mapped
      (update i (fun c => { c with resources := c.resources.addPort p }) b)

theorem moves_of_next {cfg : Config} {ok : Bool} {b b' : LinuxBackend} {pc pc' : Pc}
    (h : pc.next cfg ok b = some (pc', b')) : pc.Moves cfg ok b pc' b' := by
  cases pc with
  | lookup handle =>
    rw [Pc.next] at h
    split at h
    · cases h; exact .stop rfl
    · cases h; exact .find ‹_›
  | destroySh i =>
    cases ok with
    | false => cases h; exact .stop rfl
    | true => cases h; exact .destroySh
  | cleanup i =>
    cases ok with
    | false => cases h; exact .stop rfl
    | true => cases h; exact .cleanup rfl
  | releasePorts i rest =>
    cases rest with
    | nil => cases h; exact .ported
    | cons p ps => cases h; exact .releasePort
  | releaseUID i => cases h; exact .releaseUID
  | releaseNetwork i => cases h; exact .releaseNetwork
  | unregister i => cases h; exact .unregister
  | acquireUID spec =>
    rw [Pc.next] at h
    split at h
    · cases h; exact .acquireUID ‹_›
    · cases h; exact .stop rfl
  | acquireNetwork spec u =>
    rw [Pc.next] at h
    split at h
    · cases h; exact .acquireNetwork ‹_›
    · cases h; exact .noNetwork
  | provide spec u n =>
    cases ok with
    | false => cases h; exact .noRootfs
    | true => cases h; exact .provide
  | createSh spec id u n =>
    cases ok with
    | false => cases h; exact .notCreated
    | true => cases h; exact .createSh
  | save spec id u n =>
    cases ok with
    | false => cases h; exact .stop rfl
    | true => cases h; exact .save
  | start i =>
    cases ok with
    | false => cases h; exact .stop rfl
    | true => cases h; exact .start
  | register i => cases h; exact .register
  | undoUID u => cases h; exact .undoUID
  | undoBoth u n => cases h; exact .undoBoth
  | undoNetwork n => cases h; exact .undoNetwork
  | acquirePort i =>
    rw [Pc.next] at h
    split at h
    · cases h; exact .acquirePort ‹_›
    · cases h; exact .stop rfl
  | addPort i p => cases h; exact .addPort
  | destroyed i | created i | mapped | failed => cases h

/-- A backend and the requests it has received, each where it is now. -/
structure Daemon where
  backend : LinuxBackend
  threads : List Pc

inductive Label where
  | destroy (handle : String)
  | create (spec : ContainerSpec)
  | netIn (i : ℕ)
  /-- a step of a request -/
  | run (t : ℕ) (ok : Bool)
  deriving DecidableEq, Repr

def step (cfg : Config) (s : Daemon) : Label → Option Daemon
  | .destroy handle => some { s with threads := s.threads ++ [.lookup handle] }
  | .create spec => some { s with threads := s.threads ++ [.acquireUID spec] }
  | .netIn i =>
    if i < s.backend.heap.length then some { s with threads := s.threads ++ [.acquirePort i] } else none
  | .run t ok => do
    let pc ← s.threads[t]?
    let (pc', b) ← pc.next cfg ok s.backend
    return ⟨b, s.threads.set t pc'⟩

def Step (cfg : Config) (s : Daemon) (l : Label) (s' : Daemon) : Prop := step cfg s l = some s'

/-- How far a `Destroy` is in its releases, and of which object. -/
def Pc.stage : Pc → Option (ℕ × ℕ)
  | releasePorts i _ => some (i, 1)
  | releaseUID i => some (i, 2)
  | releaseNetwork i => some (i, 3)
  | unregister i => some (i, 4)
  | destroyed i => some (i, 5)
  | _ => none

/-- A `Destroy` of the object that has reached the stage `k`: 1 is past
    `CleanupRootFS`, 3 past the release of the user ID, 4 past that of the
    network, 5 the end. -/
def Pc.past (k i : ℕ) (pc : Pc) : Bool :=
  match pc.stage with
  | some (j, m) => j = i ∧ k ≤ m
  | none => false

/-- The object whose `CleanupRootFS` is the next step. -/
def Pc.cleaning : Pc → Option ℕ
  | cleanup i => some i
  | _ => none

/-- The condition on a step: `CleanupRootFS` of a container succeeds for a
    `Destroy` only if it has not for another one. -/
def CleansOnce (s : Daemon) : Label → Prop
  | .run t true => ∀ i ∈ s.threads[t]?.bind Pc.cleaning, ∀ pc ∈ s.threads, pc.past 1 i = false
  | _ => True

instance (s : Daemon) : (l : Label) → Decidable (CleansOnce s l)
  | .run t true => inferInstanceAs
      (Decidable (∀ i ∈ s.threads[t]?.bind Pc.cleaning, ∀ pc ∈ s.threads, pc.past 1 i = false))
  | .run _ false | .destroy _ | .create _ | .netIn _ => isTrue trivial

/-! ## Who holds what

The two kinds of resources behave alike: a `Create` takes one from the list,
gives it back or puts it into an object, and a `Destroy` puts it back from
there. -/

/-- The user ID that a `Create` has and no object has yet. -/
def Pc.uid : Pc → Option UInt32
  | acquireNetwork _ u | provide _ u _ | createSh _ _ u _ | save _ _ u _ | undoUID u
  | undoBoth u _ => some u
  | _ => none

/-- The network that a `Create` has and no object has yet. -/
def Pc.network : Pc → Option Network
  | provide _ _ n | createSh _ _ _ n | save _ _ _ n | undoBoth _ n | undoNetwork n => some n
  | _ => none

/-- A kind of resource: the free ones, the one of a container and the one of a
    request, and the stage at which a `Destroy` has put it back. -/
structure Kind (R : Type) where
  free : LinuxBackend → List R
  res : Resources → R
  held : Pc → Option R
  stage : ℕ

def uidKind : Kind UInt32 where
  free b := b.pool.uidPool.pool
  res r := r.uid
  held := Pc.uid
  stage := 3

def networkKind : Kind (IP × ℕ) where
  free b := b.pool.networkPool.pool.map Network.string
  res r := r.network.string
  held pc := pc.network.map Network.string
  stage := 4

namespace Kind

variable {R : Type} (K : Kind R)

/-- The owners are the requests (on the left) and the objects whose resource no
    `Destroy` has put back. -/
def Holds (s : Daemon) : ℕ ⊕ ℕ → R → Prop
  | .inl t, r => ∃ pc, s.threads[t]? = some pc ∧ K.held pc = some r
  | .inr i, r => i < s.backend.heap.length ∧ K.res (s.backend.container i).resources = r ∧
      ∀ pc ∈ s.threads, pc.past K.stage i = false

def SameObjects (b b' : LinuxBackend) : Prop :=
  b'.heap.length = b.heap.length ∧
    ∀ i, K.res (b'.container i).resources = K.res (b.container i).resources

/-- What a step of a request can do to the resources of a kind. -/
inductive Move (b b' : LinuxBackend) (pc pc' : Pc) : Prop
  | keep : K.free b' = K.free b → (∀ r, K.held pc' = some r → K.held pc = some r) →
      K.SameObjects b b' → Move b b' pc pc'
  | take (r : R) : K.free b = r :: K.free b' → K.held pc' = some r → K.SameObjects b b' →
      Move b b' pc pc'
  | giveBack (r : R) : K.held pc = some r → K.held pc' = none →
      K.free b' = K.free b ++ [r] ∨ K.free b' = K.free b → K.SameObjects b b' → Move b b' pc pc'
  | alloc (c : LinuxContainer) : b'.heap = b.heap ++ [c] → K.held pc = some (K.res c.resources) →
      K.held pc' = none → K.free b' = K.free b → Move b b' pc pc'
  | release (i : ℕ) : pc.past K.stage i = false → pc.past 1 i = true →
      pc'.past K.stage i = true → K.held pc' = none →
      K.free b' = K.free b ++ [K.res (b.container i).resources] ∨ K.free b' = K.free b →
      K.SameObjects b b' → Move b b' pc pc'

end Kind

/-- The object a request works on. -/
def Pc.object : Pc → Option ℕ
  | destroySh i | cleanup i | releasePorts i _ | releaseUID i | releaseNetwork i | unregister i
  | destroyed i | start i | register i | created i | acquirePort i | addPort i _ => some i
  | _ => none

theorem past_iff {k i : ℕ} {pc : Pc} : pc.past k i = true ↔ ∃ m, pc.stage = some (i, m) ∧ k ≤ m := by
  unfold Pc.past
  rcases pc.stage with _ | ⟨j, m⟩
  · simp
  · simp only [Bool.decide_and, Bool.and_eq_true, decide_eq_true_eq, Option.some.injEq, Prod.mk.injEq]
    constructor
    · rintro ⟨rfl, h⟩; exact ⟨m, ⟨rfl, rfl⟩, h⟩
    · rintro ⟨m', ⟨rfl, rfl⟩, h⟩; exact ⟨rfl, h⟩

theorem past_anti {k k' i : ℕ} {pc : Pc} (hk : k' ≤ k) (h : pc.past k i = true) :
    pc.past k' i = true := by
  obtain ⟨m, hm, hle⟩ := past_iff.1 h
  exact past_iff.2 ⟨m, hm, hk.trans hle⟩

theorem object_of_past {k i : ℕ} {pc : Pc} (h : pc.past k i = true) : pc.object = some i := by
  obtain ⟨m, hm, -⟩ := past_iff.1 h
  cases pc <;> simp_all [Pc.stage, Pc.object]

section
variable {s : Daemon} {t : ℕ} {pc pc' : Pc}

theorem getElem?_set_cases {l : List Pc} {t t' : ℕ} {pc' q : Pc} (h : (l.set t pc')[t']? = some q) :
    t' = t ∧ q = pc' ∨ t' ≠ t ∧ l[t']? = some q := by
  by_cases he : t = t'
  · subst he
    rw [List.getElem?_set] at h
    split_ifs at h with h1 h2
    · cases h; exact Or.inl ⟨rfl, rfl⟩
    · exact absurd rfl h1
  · rw [List.getElem?_set_ne he] at h
    exact Or.inr ⟨fun h' => he h'.symm, h⟩

theorem mem_set_self (ht : s.threads[t]? = some pc) : pc' ∈ s.threads.set t pc' := by
  obtain ⟨hlt, -⟩ := List.getElem?_eq_some_iff.1 ht
  exact List.mem_set hlt pc'

/-- A stage that nobody has reached after a step was not reached before it. -/
theorem notPast_of_set {k i : ℕ} (ht : s.threads[t]? = some pc)
    (hmono : pc.past k i = true → pc'.past k i = true)
    (h : ∀ q ∈ s.threads.set t pc', q.past k i = false) : ∀ q ∈ s.threads, q.past k i = false := by
  intro q hq
  obtain ⟨t', hlt, rfl⟩ := List.getElem_of_mem hq
  by_cases he : t' = t
  · subst he
    have hpc : s.threads[t'] = pc := Option.some.inj ((List.getElem?_eq_getElem hlt).symm.trans ht)
    rw [hpc]
    by_contra hp
    rw [Bool.not_eq_false] at hp
    have := h pc' (mem_set_self ht)
    rw [hmono hp] at this; cases this
  · refine h _ (List.mem_iff_getElem?.2 ⟨t', ?_⟩)
    rw [List.getElem?_set_ne (Ne.symm he)]
    exact List.getElem?_eq_getElem hlt

end

/-- At most one `Destroy` of a container is past `CleanupRootFS`. -/
def OneDestroys (s : Daemon) : Prop :=
  ∀ (t t' : ℕ) (pc pc' : Pc) (i : ℕ), s.threads[t]? = some pc → s.threads[t']? = some pc' →
    pc.past 1 i = true → pc'.past 1 i = true → t = t'

/-- A request names objects that exist. -/
def Refers (s : Daemon) : Prop :=
  ∀ pc ∈ s.threads, ∀ i, pc.object = some i → i < s.backend.heap.length

section
variable {R : Type} {K : Kind R} {s : Daemon} {t : ℕ} {pc pc' : Pc} {b' : LinuxBackend}

/-- Where a holder after a step comes from: another request, this one, or an
    object whose resource is still out. -/
theorem holds_cases (ht : s.threads[t]? = some pc)
    (hmono : ∀ i, pc.past K.stage i = true → pc'.past K.stage i = true) {o : ℕ ⊕ ℕ} {r : R}
    (h : K.Holds ⟨b', s.threads.set t pc'⟩ o r) :
    (o = .inl t ∧ K.held pc' = some r) ∨ (∃ t', o = .inl t' ∧ t' ≠ t ∧ K.Holds s o r) ∨
      ∃ i, o = .inr i ∧ i < b'.heap.length ∧ K.res (b'.container i).resources = r ∧
        pc'.past K.stage i = false ∧ ∀ q ∈ s.threads, q.past K.stage i = false := by
  cases o with
  | inl t' =>
    obtain ⟨q, hq, hr⟩ := h
    rcases getElem?_set_cases hq with ⟨rfl, rfl⟩ | ⟨hne, hq⟩
    · exact Or.inl ⟨rfl, hr⟩
    · exact Or.inr (Or.inl ⟨t', rfl, hne, q, hq, hr⟩)
  | inr i =>
    obtain ⟨hlt, hr, hp⟩ := h
    exact Or.inr (Or.inr ⟨i, rfl, hlt, hr, hp pc' (mem_set_self ht),
      notPast_of_set ht (hmono i) hp⟩)

/-- The holders when the objects are as before. -/
theorem holds_same (ht : s.threads[t]? = some pc)
    (hmono : ∀ i, pc.past K.stage i = true → pc'.past K.stage i = true)
    (hobj : K.SameObjects s.backend b') {o : ℕ ⊕ ℕ} {r : R}
    (h : K.Holds ⟨b', s.threads.set t pc'⟩ o r) :
    (o = .inl t ∧ K.held pc' = some r) ∨ K.Holds s o r ∧ o ≠ .inl t ∧
      ∀ i, o = .inr i → pc'.past K.stage i = false := by
  rcases holds_cases ht hmono h with h | ⟨t', rfl, hne, h⟩ | ⟨i, rfl, hlt, hr, hp', hp⟩
  · exact Or.inl h
  · refine Or.inr ⟨h, fun he => hne (Sum.inl.inj he), fun i hi => by cases hi⟩
  · refine Or.inr ⟨⟨hobj.1 ▸ hlt, (hobj.2 i).symm.trans hr, hp⟩, by simp, fun j hj => ?_⟩
    cases hj; exact hp'

/-- Nobody has put back what a request is about to: such a request would be this one. -/
theorem OneDestroys.not_past {stage i : ℕ} (hone : OneDestroys s) (hstage : 1 ≤ stage)
    (ht : s.threads[t]? = some pc) (hpast₁ : pc.past 1 i = true) (hpast : pc.past stage i = false) :
    ∀ q ∈ s.threads, q.past stage i = false := by
  intro q hq
  obtain ⟨t', ht'⟩ := List.mem_iff_getElem?.1 hq
  by_contra hp
  rw [Bool.not_eq_false] at hp
  have he := hone t t' pc q i ht ht' hpast₁ (past_anti hstage hp)
  subst he
  rw [ht] at ht'
  cases ht'
  rw [hp] at hpast
  cases hpast

/-- **A step keeps ownership exclusive**, when no other `Destroy` of the same
    container is past its cleanup. -/
theorem exclusive_move (hE : Exclusive (K.free s.backend) (K.Holds s)) (hone : OneDestroys s)
    (href : Refers s) (hstage : 1 ≤ K.stage) (ht : s.threads[t]? = some pc)
    (hmono : ∀ i, pc.past K.stage i = true → pc'.past K.stage i = true)
    (hm : K.Move s.backend b' pc pc') :
    Exclusive (K.free b') (K.Holds ⟨b', s.threads.set t pc'⟩) := by
  cases hm with
  | keep hfree hheld hobj =>
    rw [hfree]
    refine hE.drop fun o r h => ?_
    rcases holds_same ht hmono hobj h with ⟨rfl, hr⟩ | ⟨h, -⟩
    · exact ⟨pc, ht, hheld r hr⟩
    · exact h
  | take r hfree hheld hobj =>
    rw [hfree] at hE
    refine hE.give (o := .inl t) fun o r' h => ?_
    rcases holds_same ht hmono hobj h with ⟨rfl, hr⟩ | ⟨h, -⟩
    · exact Or.inr ⟨rfl, Option.some.inj (hr.symm.trans hheld)⟩
    · exact Or.inl h
  | giveBack r hheld hheld' hfree hobj =>
    have hold : K.Holds s (.inl t) r := ⟨pc, ht, hheld⟩
    have left : ∀ o r', K.Holds ⟨b', s.threads.set t pc'⟩ o r' → K.Holds s o r' ∧ o ≠ .inl t := by
      intro o r' h
      rcases holds_same ht hmono hobj h with ⟨-, hr⟩ | ⟨h, hne, -⟩
      · rw [hheld'] at hr; cases hr
      · exact ⟨h, hne⟩
    exact hE.putBack hold hfree left
  | alloc c hheap hheld hheld' hfree =>
    rw [hfree]
    refine hE.transfer (.inl t) (.inr s.backend.heap.length) fun o r h => ?_
    rcases holds_cases ht hmono h with ⟨-, hr⟩ | ⟨t', rfl, hne, h⟩ | ⟨i, rfl, hlt, hr, -, hp⟩
    · rw [hheld'] at hr; cases hr
    · exact Or.inl ⟨h, fun he => hne (Sum.inl.inj he)⟩
    · rcases LinuxBackend.container_append_cases hheap hlt with ⟨rfl, hi⟩ | ⟨hlt, hi⟩ <;>
        rw [hi] at hr
      · exact Or.inr ⟨rfl, pc, ht, hr ▸ hheld⟩
      · exact Or.inl ⟨⟨hlt, hr, hp⟩, by simp⟩
  | release i hpast hpast₁ hpast' hheld' hfree hobj =>
    have hnone := hone.not_past hstage ht hpast₁ hpast
    have hlt : i < s.backend.heap.length :=
      href pc (List.mem_of_getElem? ht) i (object_of_past hpast₁)
    have hold : K.Holds s (.inr i) (K.res (s.backend.container i).resources) := ⟨hlt, rfl, hnone⟩
    have left : ∀ o r', K.Holds ⟨b', s.threads.set t pc'⟩ o r' → K.Holds s o r' ∧ o ≠ .inr i := by
      intro o r' h
      rcases holds_same ht hmono hobj h with ⟨-, hr⟩ | ⟨h, -, hne⟩
      · rw [hheld'] at hr; cases hr
      · refine ⟨h, fun he => ?_⟩
        have := hne i he
        rw [hpast'] at this; cases this
    exact hE.putBack hold hfree left

end

/-! ## What a step of a request does -/

section
variable {R : Type} {cfg : Config} {ok : Bool} {b b' : LinuxBackend} {pc pc' : Pc}

theorem Kind.SameObjects.refl (K : Kind R) (h : b'.heap = b.heap) : K.SameObjects b b' :=
  ⟨by rw [h], fun i => by rw [LinuxBackend.container, h]; rfl⟩

theorem container_update (i j : ℕ) (f : LinuxContainer → LinuxContainer) (b : LinuxBackend) :
    (update i f b).container j = b.container j ∨
      i = j ∧ (update i f b).container j = f (b.container j) := by
  unfold update LinuxBackend.container
  rw [List.getD_eq_getElem?_getD, List.getElem?_set]
  split_ifs with h1 h2
  · exact Or.inr ⟨h1, by rw [h1]; rfl⟩
  · exact Or.inl (by simp [List.getD_eq_getElem?_getD, ← h1, Nat.le_of_not_lt h2])
  · exact Or.inl (List.getD_eq_getElem?_getD).symm

theorem update_sameObjects (K : Kind R) {i : ℕ} {f : LinuxContainer → LinuxContainer}
    (hf : ∀ c, K.res (f c).resources = K.res c.resources) : K.SameObjects b (update i f b) := by
  refine ⟨by simp [update], fun j => ?_⟩
  rcases container_update i j f b with h | ⟨-, h⟩
  · rw [h]
  · rw [h, hf]

/-- A step that touches neither the lists of a kind nor an object, and after
    which the request holds no more than before. -/
theorem Kind.Move.idle {K : Kind R} (hfree : K.free b' = K.free b) (hheap : b'.heap = b.heap)
    (hheld : K.held pc' = none ∨ K.held pc' = K.held pc) : K.Move b b' pc pc' := by
  refine .keep hfree (fun r hr => ?_) (.refl K hheap)
  rcases hheld with h | h
  · rw [h] at hr; cases hr
  · exact h ▸ hr

theorem next_uids (h : pc.next cfg ok b = some (pc', b')) : uidKind.Move b b' pc pc' := by
  cases moves_of_next h with
  | @releaseUID i =>
    exact .release i (by simp [Pc.past, Pc.stage, uidKind]) (by simp [Pc.past, Pc.stage])
      (by simp [Pc.past, Pc.stage, uidKind]) rfl (UnixUIDPool.release_cases _ _) (.refl _ rfl)
  | @acquireUID spec u p hu => exact .take u (UnixUIDPool.acquire_ok hu).1 rfl (.refl _ rfl)
  | undoUID | undoBoth =>
    exact .giveBack _ rfl rfl (UnixUIDPool.release_cases _ _) (.refl _ rfl)
  | save => exact .alloc _ rfl rfl rfl rfl
  | start | addPort => exact .keep rfl nofun (update_sameObjects _ fun _ => rfl)
  | acquireNetwork | noNetwork | provide | createSh | notCreated =>
    exact .idle rfl rfl (Or.inr rfl)
  | _ => exact .idle rfl rfl (Or.inl rfl)

theorem next_networks (h : pc.next cfg ok b = some (pc', b')) : networkKind.Move b b' pc pc' := by
  cases moves_of_next h with
  | @releaseNetwork i =>
    exact .release i (by simp [Pc.past, Pc.stage, networkKind]) (by simp [Pc.past, Pc.stage])
      (by simp [Pc.past, Pc.stage, networkKind]) rfl (RealNetworkPool.release_cases _ _) (.refl _ rfl)
  | @acquireNetwork spec u n p hn =>
    refine .take n.string ?_ rfl (.refl _ rfl)
    simp [networkKind, (RealNetworkPool.acquire_ok hn).1]
  | undoNetwork => exact .giveBack _ rfl rfl (RealNetworkPool.release_cases _ _) (.refl _ rfl)
  | save => exact .alloc _ rfl rfl rfl rfl
  | start | addPort => exact .keep rfl nofun (update_sameObjects _ fun _ => rfl)
  | provide | createSh | notCreated | undoBoth => exact .idle rfl rfl (Or.inr rfl)
  | _ => exact .idle rfl rfl (Or.inl rfl)

/-- A `Destroy` in its releases goes on, in the same object. -/
theorem next_past {k i : ℕ} (h : pc.next cfg ok b = some (pc', b')) (hp : pc.past k i = true) :
    pc'.past k i = true := by
  obtain ⟨m, hm, hk⟩ := past_iff.1 hp
  cases pc with
  | releasePorts j rest =>
    cases hm
    cases rest <;> cases h
    · exact past_iff.2 ⟨2, rfl, by omega⟩
    · exact past_iff.2 ⟨1, rfl, hk⟩
  | releaseUID j => cases hm; cases h; exact past_iff.2 ⟨3, rfl, by omega⟩
  | releaseNetwork j => cases hm; cases h; exact past_iff.2 ⟨4, rfl, by omega⟩
  | unregister j => cases hm; cases h; exact past_iff.2 ⟨5, rfl, by omega⟩
  | destroyed j => cases h
  | _ => cases hm

/-- Only a `CleanupRootFS` that succeeds brings a request to the releases. -/
theorem next_enters {i : ℕ} (h : pc.next cfg ok b = some (pc', b')) (hp : pc'.past 1 i = true) :
    pc.past 1 i = true ∨ pc = .cleanup i ∧ ok = true := by
  obtain ⟨m, hm, -⟩ := past_iff.1 hp
  cases moves_of_next h with
  | cleanup hok => cases hm; exact Or.inr ⟨rfl, hok⟩
  | ported | releasePort => cases hm; exact Or.inl (past_iff.2 ⟨1, rfl, le_rfl⟩)
  | releaseUID | releaseNetwork | unregister =>
    cases hm
    exact Or.inl (past_iff.2 ⟨_, rfl, by omega⟩)
  | _ => cases hm

/-- The registry names objects that exist. -/
def Registry (b : LinuxBackend) : Prop :=
  ∀ h i, b.containers.lookup h = some i → i < b.heap.length

theorem next_refs (h : pc.next cfg ok b = some (pc', b')) (hr : Registry b)
    (ho : ∀ i, pc.object = some i → i < b.heap.length) :
    b.heap.length ≤ b'.heap.length ∧ Registry b' ∧
      ∀ i, pc'.object = some i → i < b'.heap.length := by
  have none : ∀ {q : Pc} {n : ℕ}, q.object = none → ∀ i, q.object = some i → i < n := by
    intro q n hq i hi
    rw [hq] at hi
    cases hi
  cases moves_of_next h with
  | find hi =>
    refine ⟨le_rfl, hr, fun j hj => ?_⟩
    cases hj
    exact hr _ _ hi
  | save =>
    refine ⟨by simp, fun k j hj => ?_, fun j hj => by cases hj; simp⟩
    have := hr k j hj
    simp only [List.length_append]; omega
  | @register i =>
    refine ⟨le_rfl, fun k j hj => ?_, ho⟩
    simp only [LinuxBackend.register] at hj ⊢
    rcases Maps.lookup_insert_eq_some.1 hj with ⟨-, rfl⟩ | ⟨-, hj⟩
    · exact ho _ rfl
    · exact hr k j hj
  | @unregister i =>
    refine ⟨le_rfl, fun k j hj => ?_, ho⟩
    exact hr k j (Maps.lookup_erase_eq_some.1 hj).2
  | start => simpa [update, Registry] using ⟨hr, ho⟩
  | addPort => simpa [update, Registry, Pc.object] using hr
  | destroySh | cleanup | ported | releasePort | releaseUID | releaseNetwork | acquirePort =>
    exact ⟨le_rfl, hr, ho⟩
  | _ => exact ⟨le_rfl, hr, none rfl⟩

/-- The pools would list these again. -/
structure Fits (p : LinuxContainerPool) (u : Option UInt32) (n : Option Network) : Prop where
  uid : ∀ v, u = some v → p.uidPool.start ≤ v ∧ v < p.uidPool.start + p.uidPool.size
  network : ∀ m, n = some m → p.networkPool.ipNet.contains m.ip = true

def ObjectsFit (b : LinuxBackend) : Prop :=
  ∀ i < b.heap.length, Fits b.pool (some (b.container i).resources.uid)
    (some (b.container i).resources.network)

/-- The ranges of the pools stay. -/
structure SameRanges (p p' : LinuxContainerPool) : Prop where
  start : p'.uidPool.start = p.uidPool.start
  size : p'.uidPool.size = p.uidPool.size
  ipNet : p'.networkPool.ipNet = p.networkPool.ipNet

theorem SameRanges.refl (p : LinuxContainerPool) : SameRanges p p := ⟨rfl, rfl, rfl⟩

theorem Fits.mono {p p' : LinuxContainerPool} {u : Option UInt32} {n : Option Network}
    (hs : SameRanges p p') (h : Fits p u n) : Fits p' u n := by
  refine ⟨fun v hv => ?_, fun m hm => ?_⟩
  · rw [hs.start, hs.size]; exact h.uid v hv
  · rw [hs.ipNet]; exact h.network m hm

theorem Fits.none (p : LinuxContainerPool) : Fits p none none :=
  ⟨fun _ h => (nomatch h), fun _ h => (nomatch h)⟩

theorem ObjectsFit.mono (h : ObjectsFit b) (hs : SameRanges b.pool b'.pool)
    (hh : b'.heap = b.heap) : ObjectsFit b' := by
  intro i hi
  rw [LinuxBackend.container, hh]
  exact (h i (hh ▸ hi)).mono hs

theorem ObjectsFit.update (h : ObjectsFit b) {i : ℕ} {f : LinuxContainer → LinuxContainer}
    (hu : ∀ c, (f c).resources.uid = c.resources.uid)
    (hn : ∀ c, (f c).resources.network = c.resources.network) : ObjectsFit (update i f b) := by
  intro j hj
  have hj' : j < b.heap.length := by simpa [Interleaving.update] using hj
  rcases container_update i j f b with he | ⟨-, he⟩
  · rw [he]; exact h j hj'
  · rw [he, hu, hn]; exact h j hj'

theorem next_fits (h : pc.next cfg ok b = some (pc', b')) (hc : ObjectsFit b)
    (hp : Fits b.pool pc.uid pc.network) :
    SameRanges b.pool b'.pool ∧ ObjectsFit b' ∧ Fits b'.pool pc'.uid pc'.network := by
  have rel : ∀ u, SameRanges b.pool (b.pool.releaseUID u) := fun u =>
    ⟨UnixUIDPool.release_start _ _, UnixUIDPool.release_size _ _, rfl⟩
  have reln : ∀ n, SameRanges b.pool (b.pool.releaseNetwork n) := fun n =>
    ⟨rfl, rfl, RealNetworkPool.release_ipNet _ _⟩
  cases moves_of_next h with
  | @acquireUID spec u p hu =>
    obtain ⟨hl, hs, hz⟩ := UnixUIDPool.acquire_ok hu
    have same : SameRanges b.pool { b.pool with uidPool := p } := ⟨hs, hz, rfl⟩
    refine ⟨same, hc.mono same rfl, fun v hv => ?_, nofun⟩
    cases hv
    simp only [hs, hz]
    exact b.pool.uidPool.inRange u (by simp [hl])
  | @acquireNetwork spec u n p hn =>
    obtain ⟨hl, hi⟩ := RealNetworkPool.acquire_ok hn
    have same : SameRanges b.pool { b.pool with networkPool := p } := ⟨rfl, rfl, hi⟩
    refine ⟨same, hc.mono same rfl, hp.uid, fun m hm => ?_⟩
    cases hm
    simp only [hi]
    exact b.pool.networkPool.contained n (by simp [hl])
  | save =>
    refine ⟨.refl _, fun i hi => ?_, .none _⟩
    rcases LinuxBackend.container_append_cases rfl hi with ⟨-, he⟩ | ⟨hlt, he⟩ <;> rw [he]
    · exact hp
    · exact hc i hlt
  | start | addPort => exact ⟨.refl _, hc.update (fun _ => rfl) fun _ => rfl, .none _⟩
  | provide => exact ⟨⟨rfl, rfl, rfl⟩, hc.mono ⟨rfl, rfl, rfl⟩ rfl, ⟨hp.uid, hp.network⟩⟩
  | noRootfs | ported | releasePort | acquirePort =>
    exact ⟨⟨rfl, rfl, rfl⟩, hc.mono ⟨rfl, rfl, rfl⟩ rfl, .none _⟩
  | noNetwork | createSh | notCreated => exact ⟨.refl _, hc, hp⟩
  | undoUID | releaseUID => exact ⟨rel _, hc.mono (rel _) rfl, .none _⟩
  | undoBoth => exact ⟨rel _, hc.mono (rel _) rfl, ⟨nofun, hp.network⟩⟩
  | undoNetwork | releaseNetwork => exact ⟨reln _, hc.mono (reln _) rfl, .none _⟩
  | _ => exact ⟨.refl _, hc, .none _⟩

end

end Interleaving

end WardenLinux
