/-
  Runs of the daemon in which requests overlap.

  Between the lookup of a `Destroy` and its unregistration other requests run,
  so that two of them can destroy the same container and release its user ID
  and its network twice (`released_twice`).  `released_once`: this takes two
  requests that both get past `CleanupRootFS` of one container.
-/
import WardenLinux.Interleaving

namespace WardenLinux

open Fallible FreeList Transition

namespace Interleaving

/-! ## Runs -/

/-- What holds in every state of a run in which a container is cleaned up once. -/
structure Inv (s : Daemon) : Prop where
  registry : Registry s.backend
  refers : Refers s
  one : OneDestroys s
  uids : Exclusive (uidKind.free s.backend) (uidKind.Holds s)
  networks : Exclusive (networkKind.free s.backend) (networkKind.Holds s)
  objects : ObjectsFit s.backend
  requests : ∀ pc ∈ s.threads, Fits s.backend.pool pc.uid pc.network

section
variable {R : Type} {cfg : Config} {s s' : Daemon} {t : ℕ} {ok : Bool} {pc pc' : Pc}
  {b' : LinuxBackend}

theorem getElem?_append_cases {l : List Pc} {t : ℕ} {pc q : Pc} (h : (l ++ [pc])[t]? = some q) :
    l[t]? = some q ∨ q = pc := by
  rcases lt_or_ge t l.length with hlt | hge
  · rw [List.getElem?_append_left hlt] at h; exact Or.inl h
  · rw [List.getElem?_append_right hge, List.getElem?_singleton] at h
    split_ifs at h
    cases h; exact Or.inr rfl

theorem holds_spawn {K : Kind R} (hheld : K.held pc = none) {o : ℕ ⊕ ℕ} {r : R}
    (h : K.Holds { s with threads := s.threads ++ [pc] } o r) : K.Holds s o r := by
  cases o with
  | inl t =>
    obtain ⟨q, hq, hr⟩ := h
    rcases getElem?_append_cases hq with hq | rfl
    · exact ⟨q, hq, hr⟩
    · rw [hheld] at hr; cases hr
  | inr i =>
    obtain ⟨hlt, hr, hp⟩ := h
    exact ⟨hlt, hr, fun q hq => hp q (List.mem_append_left _ hq)⟩

/-- A new request holds nothing and has released nothing. -/
theorem Inv.spawn (h : Inv s) (hstage : pc.stage = none) (huid : pc.uid = none)
    (hnetwork : pc.network = none) (hobject : ∀ i, pc.object = some i → i < s.backend.heap.length) :
    Inv { s with threads := s.threads ++ [pc] } := by
  have mem : ∀ {P : Pc → Prop}, (∀ q ∈ s.threads, P q) → P pc → ∀ q ∈ s.threads ++ [pc], P q := by
    intro P hP hpc q hq
    rcases List.mem_append.1 hq with hq | hq
    · exact hP q hq
    · exact (List.mem_singleton.1 hq) ▸ hpc
  have notPast : ∀ {i}, pc.past 1 i = true → False := by
    intro i hp
    obtain ⟨m, hm, -⟩ := past_iff.1 hp
    rw [hstage] at hm; cases hm
  refine ⟨h.registry, mem h.refers hobject, ?_, h.uids.drop fun o r => holds_spawn huid,
    h.networks.drop fun o r => holds_spawn ?_, h.objects, mem h.requests ?_⟩
  · intro t t' q q' i ht ht' hp hp'
    rcases getElem?_append_cases ht with ht | rfl
    · rcases getElem?_append_cases ht' with ht' | rfl
      · exact h.one t t' q q' i ht ht' hp hp'
      · exact (notPast hp').elim
    · exact (notPast hp).elim
  · simp [networkKind, hnetwork]
  · rw [huid, hnetwork]; exact .none _

/-- A step of a request. -/
theorem Inv.run (h : Inv s) (ht : s.threads[t]? = some pc)
    (hn : pc.next cfg ok s.backend = some (pc', b'))
    (hg : ok = true → ∀ i, pc = .cleanup i → ∀ q ∈ s.threads, q.past 1 i = false) :
    Inv ⟨b', s.threads.set t pc'⟩ := by
  have hmem := List.mem_of_getElem? ht
  obtain ⟨hlen, hreg, hobj⟩ := next_refs hn h.registry (h.refers pc hmem)
  obtain ⟨hsame, hfit, hpc⟩ := next_fits hn h.objects (h.requests pc hmem)
  have mem : ∀ {P : Pc → Prop}, (∀ q ∈ s.threads, P q) → P pc' → ∀ q ∈ s.threads.set t pc', P q :=
    fun hP hpc q hq => (List.mem_or_eq_of_mem_set hq).elim (hP q) fun he => he ▸ hpc
  -- who is past its cleanup now was before, or is the one request that gets there
  have origin : ∀ t₁ q i, (s.threads.set t pc')[t₁]? = some q → q.past 1 i = true →
      (∃ q₀, s.threads[t₁]? = some q₀ ∧ q₀.past 1 i = true) ∨
        t₁ = t ∧ ∀ q ∈ s.threads, q.past 1 i = false := by
    intro t₁ q i hq hp
    rcases getElem?_set_cases hq with ⟨rfl, rfl⟩ | ⟨-, hq⟩
    · rcases next_enters hn hp with hp | ⟨he, hok⟩
      · exact Or.inl ⟨pc, ht, hp⟩
      · exact Or.inr ⟨rfl, hg hok i he⟩
    · exact Or.inl ⟨q, hq, hp⟩
  refine ⟨hreg, ?_, ?_, ?_, ?_, hfit, mem (fun q hq => (h.requests q hq).mono hsame) hpc⟩
  · exact mem (P := fun q => ∀ i, q.object = some i → i < b'.heap.length)
      (fun q hq i hi => lt_of_lt_of_le (h.refers q hq i hi) hlen) hobj
  · intro t₁ t₂ q₁ q₂ i h₁ h₂ hp₁ hp₂
    rcases origin t₁ q₁ i h₁ hp₁ with ⟨p₁, g₁, hp₁⟩ | ⟨rfl, hnone⟩ <;>
      rcases origin t₂ q₂ i h₂ hp₂ with ⟨p₂, g₂, hp₂⟩ | ⟨rfl, hnone'⟩
    · exact h.one t₁ t₂ p₁ p₂ i g₁ g₂ hp₁ hp₂
    · rw [hnone' p₁ (List.mem_of_getElem? g₁)] at hp₁; cases hp₁
    · rw [hnone p₂ (List.mem_of_getElem? g₂)] at hp₂; cases hp₂
    · rfl
  · exact exclusive_move h.uids h.one h.refers (by decide) ht (fun i => next_past hn) (next_uids hn)
  · exact exclusive_move h.networks h.one h.refers (by decide) ht (fun i => next_past hn)
      (next_networks hn)

/-- What a step of the daemon can be. -/
theorem step_cases {l : Label} (h : step cfg s l = some s') :
    (∃ pc : Pc, pc.stage = none ∧ pc.uid = none ∧ pc.network = none ∧
        (∀ i, pc.object = some i → i < s.backend.heap.length) ∧
        s' = { s with threads := s.threads ++ [pc] }) ∨
      ∃ t ok pc pc' b', l = .run t ok ∧ s.threads[t]? = some pc ∧
        pc.next cfg ok s.backend = some (pc', b') ∧ s' = ⟨b', s.threads.set t pc'⟩ := by
  cases l with
  | destroy handle =>
    cases h; exact Or.inl ⟨.lookup handle, rfl, rfl, rfl, (fun i hi => by cases hi), rfl⟩
  | create spec =>
    cases h; exact Or.inl ⟨.acquireUID spec, rfl, rfl, rfl, (fun i hi => by cases hi), rfl⟩
  | netIn i =>
    simp only [step] at h
    split_ifs at h with hi
    cases h
    exact Or.inl ⟨.acquirePort i, rfl, rfl, rfl, fun j hj => by cases hj; exact hi, rfl⟩
  | run t ok =>
    simp only [step, Option.bind_eq_bind, Option.bind_eq_some_iff] at h
    obtain ⟨pc, ht, ⟨pc', b'⟩, hn, hs⟩ := h
    cases hs
    exact Or.inr ⟨t, ok, pc, pc', b', rfl, ht, hn, rfl⟩

theorem Inv.step (h : Inv s) {l : Label} (hs : guarded CleansOnce (Step cfg) s l s') : Inv s' := by
  obtain ⟨hg, hs⟩ := hs
  rcases step_cases hs with ⟨pc, h1, h2, h3, h4, rfl⟩ | ⟨t, ok, pc, pc', b', rfl, ht, hn, rfl⟩
  · exact h.spawn h1 h2 h3 h4
  · refine h.run ht hn ?_
    rintro rfl i rfl
    exact hg i (by simp [ht, Pc.cleaning])

theorem inv_fresh {fuel : ℕ} {ipNet : IPNet} {networks : RealNetworkPool}
    (hn : RealNetworkPool.new fuel ipNet = some networks) (us uz ps pz : UInt32) (num : ℕ)
    (path : String) : Inv ⟨.fresh us uz ps pz networks num path, []⟩ := by
  have none : ∀ {R : Type} {K : Kind R} o r,
      ¬ K.Holds ⟨.fresh us uz ps pz networks num path, []⟩ o r := by
    rintro R K (t | i) r h
    · obtain ⟨pc, hpc, -⟩ := h; simp at hpc
    · exact absurd h.1 (by simp [LinuxBackend.fresh, LinuxBackend.new])
  refine ⟨fun h i hi => by simp [LinuxBackend.fresh, LinuxBackend.new] at hi, by simp [Refers],
    fun t t' pc pc' i ht => by simp at ht, .fresh (nodup_fill _ _) none,
    .fresh (RealNetworkPool.new_nodup hn) none, fun i hi => ?_, by simp⟩
  simp [LinuxBackend.fresh, LinuxBackend.new] at hi

end

/-! ## One request at a time -/

section
variable {cfg : Config} {o : Oracle} {b b' : LinuxBackend} {threads : List Pc} {pc : Pc}

/-- A step of the newest request. -/
theorem step_last (pc' : Pc) (h : pc.next cfg true b = some (pc', b')) :
    Step cfg ⟨b, threads ++ [pc]⟩ (.run threads.length true) ⟨b', threads ++ [pc']⟩ := by
  simp [Step, step, h]

theorem leads_releasePorts {i : ℕ} : ∀ {rest : List UInt32} {b : LinuxBackend},
    Leads (Step cfg) ⟨b, threads ++ [.releasePorts i rest]⟩
      ⟨{ b with pool := b.pool.releasePorts rest }, threads ++ [.releaseUID i]⟩
  | [], _ => .single (step_last _ rfl)
  | _ :: _, _ => .head (step_last _ rfl) leads_releasePorts

/-- **Refinement.**  A `Destroy` that nothing interrupts does what `destroy`
    does, calls that are logged apart. -/
theorem destroy_alone (threads : List Pc) (handle : String) :
    wp (LinuxBackend.destroy cfg o handle)
      (fun _ b' => ∃ i, Leads (Step cfg) ⟨b, threads⟩
        ⟨{ b' with pool := { b'.pool with log := b.pool.log } }, threads ++ [.destroyed i]⟩)
      (fun _ _ => True) b := by
  refine LinuxBackend.wp_destroy handle (fun i log hi => ⟨i, ?_⟩) fun _ _ => trivial
  have hspawn : Step cfg ⟨b, threads⟩ (.destroy handle) ⟨b, threads ++ [.lookup handle]⟩ := rfl
  have hlookup : Pc.next cfg true b (.lookup handle) = some (.destroySh i, b) := by
    simp only [Pc.next, hi]
  refine .head hspawn (.head (step_last _ hlookup) ?_)
  refine .head (step_last (.cleanup i) rfl) ?_
  refine .head (step_last (.releasePorts i (b.container i).resources.ports) rfl) ?_
  refine leads_releasePorts.trans ?_
  refine .head (step_last (.releaseNetwork i) rfl) ?_
  refine .head (step_last (.unregister i) rfl) ?_
  exact .single (step_last (.destroyed i) rfl)

end

/-! ## Released once -/

/-- How many requests have put back the resource that an object has of a
    kind. -/
def Kind.released {R : Type} (K : Kind R) (i : ℕ) (s : Daemon) : ℕ :=
  s.threads.countP (Pc.past K.stage i)

theorem countP_le_one {α : Type} {p : α → Bool} : ∀ {l : List α},
    (∀ (t t' : ℕ) (a a' : α), l[t]? = some a → l[t']? = some a' → p a = true → p a' = true →
      t = t') →
      l.countP p ≤ 1
  | [], _ => by simp
  | x :: l, h => by
    have ih := countP_le_one (p := p) (l := l) fun t t' a a' ht ht' ha ha' =>
      Nat.succ.inj (h (t + 1) (t' + 1) a a' (by simpa) (by simpa) ha ha')
    rw [List.countP_cons]
    split_ifs with hx
    · have : l.countP p = 0 := by
        rw [List.countP_eq_zero]
        intro a ha hp
        obtain ⟨t, ht⟩ := List.mem_iff_getElem?.1 ha
        exact absurd (h 0 (t + 1) x a rfl (by simpa) hx hp) (by omega)
      omega
    · exact ih

theorem Inv.released_le {s : Daemon} (h : Inv s) {R : Type} (K : Kind R) (hk : 1 ≤ K.stage)
    (i : ℕ) : K.released i s ≤ 1 :=
  countP_le_one fun t t' pc pc' ht ht' hp hp' =>
    h.one t t' pc pc' i ht ht' (past_anti hk hp) (past_anti hk hp')

theorem released_pos {s : Daemon} {R : Type} {K : Kind R} (hk : K.stage ≤ 5) {i : ℕ}
    (h : .destroyed i ∈ s.threads) : 1 ≤ K.released i s :=
  List.one_le_countP_iff.2 ⟨.destroyed i, h, past_iff.2 ⟨5, rfl, hk⟩⟩

/-- **Concurrent requests.**  In every state of a run in which `CleanupRootFS`
    of a container succeeds for one `Destroy` only: no user ID and no network is
    listed twice, held twice, or held and listed; the ones of a container are put
    back once at most, and once if a `Destroy` of it has ended; and to put them
    back lists them. -/
theorem released_once {cfg : Config} {fuel : ℕ} {ipNet : IPNet} {networks : RealNetworkPool}
    {us uz ps pz : UInt32} {num : ℕ} {path : String} {ls : List Label} {s : Daemon}
    (hn : RealNetworkPool.new fuel ipNet = some networks)
    (hr : Run (guarded CleansOnce (Step cfg)) ⟨.fresh us uz ps pz networks num path, []⟩ ls s) :
    Exclusive (uidKind.free s.backend) (uidKind.Holds s) ∧
      Exclusive (networkKind.free s.backend) (networkKind.Holds s) ∧
      (∀ i, uidKind.released i s ≤ 1 ∧ networkKind.released i s ≤ 1) ∧
      (∀ i, .destroyed i ∈ s.threads → uidKind.released i s = 1 ∧ networkKind.released i s = 1) ∧
      (∀ t ok i s', s.threads[t]? = some (.releaseUID i) → Step cfg s (.run t ok) s' →
        uidKind.free s'.backend =
          uidKind.free s.backend ++ [(s.backend.container i).resources.uid]) ∧
      ∀ t ok i s', s.threads[t]? = some (.releaseNetwork i) → Step cfg s (.run t ok) s' →
        networkKind.free s'.backend =
          networkKind.free s.backend ++ [(s.backend.container i).resources.network.string] := by
  have h : Inv s := hr.invariant (inv_fresh hn us uz ps pz num path) fun _ _ _ h hs => h.step hs
  have hle : ∀ i, uidKind.released i s ≤ 1 ∧ networkKind.released i s ≤ 1 := fun i =>
    ⟨h.released_le uidKind (by decide) i, h.released_le networkKind (by decide) i⟩
  refine ⟨h.uids, h.networks, hle, fun i hi => ⟨?_, ?_⟩, ?_, ?_⟩
  · exact le_antisymm (hle i).1 (released_pos (by decide) hi)
  · exact le_antisymm (hle i).2 (released_pos (by decide) hi)
  · intro t ok i s' ht hs
    have hfit := (h.objects i (h.refers _ (List.mem_of_getElem? ht) i rfl)).uid _ rfl
    simp only [Step, step, ht, Option.bind_eq_bind, Option.bind_some, Pc.next] at hs
    cases hs
    exact (UnixUIDPool.release_pool _ _).trans (if_pos hfit)
  · intro t ok i s' ht hs
    have hfit := (h.objects i (h.refers _ (List.mem_of_getElem? ht) i rfl)).network _ rfl
    simp only [Step, step, ht, Option.bind_eq_bind, Option.bind_some, Pc.next] at hs
    cases hs
    simp only [networkKind, LinuxContainerPool.releaseNetwork, RealNetworkPool.release_pool,
      if_pos hfit, List.map_append, List.map_singleton]

/-- The next `n` steps of a request, without an error. -/
def steps (t n : ℕ) : List Label := List.replicate n (.run t true)

def web : ContainerSpec := { ContainerSpec.bare with handle := "web" }

/-- A container is created, and two requests to destroy it run `destroy.sh`. -/
def bothDestroy : List Label :=
  .create web :: steps 0 7 ++ [.destroy "web", .destroy "web"] ++ steps 1 2 ++ steps 2 2

theorem released_once_web :
    ∃ s, Run (guarded CleansOnce (Step .plain))
        ⟨.fresh 10000 1 61001 2 LinuxContainerPool.tiny.networkPool 0 "", []⟩
        (bothDestroy ++ [.run 1 true, .run 2 false] ++ steps 1 4) s ∧
      .destroyed 0 ∈ s.threads ∧ uidKind.released 0 s = 1 := by
  obtain ⟨s, hr, hs⟩ : ∃ s, Run (fun s l s' => (if CleansOnce s l then step .plain s l else none) =
      some s') ⟨.new .tiny "" ∅, []⟩ (bothDestroy ++ [.run 1 true, .run 2 false] ++ steps 1 4) s ∧
      .destroyed 0 ∈ s.threads := exists_run (by decide +kernel)
  rw [← LinuxBackend.fresh_tiny] at hr
  have hr' : Run (guarded CleansOnce (Step .plain)) _ _ s :=
    hr.mono fun s l s' h => by split_ifs at h with hg; exact ⟨hg, h⟩
  have hn : RealNetworkPool.new 2 ⟨[10, 254, 0, 0], 30⟩ =
    some LinuxContainerPool.tiny.networkPool := rfl
  exact ⟨s, hr', hs, ((released_once hn hr').2.2.2.1 0 hs).1⟩

/-- When both get past `CleanupRootFS`, the user ID and the network are listed
    twice; the next two containers share them. -/
theorem released_twice :
    (∃ s, Run (Step .plain) ⟨.new .tiny "" ∅, []⟩
        (bothDestroy ++ [.run 1 true, .run 2 true] ++ steps 1 4 ++ steps 2 4) s ∧
      uidKind.released 0 s = 2 ∧ s.backend.pool.uidPool.pool = [10000, 10000] ∧
      ¬ (networkKind.free s.backend).Nodup) ∧
    ∃ s, Run (Step .plain) ⟨.new .tiny "" ∅, []⟩
        (bothDestroy ++ [.run 1 true, .run 2 true] ++ steps 1 4 ++ steps 2 4 ++
          [.create .bare, .create web] ++ steps 3 7 ++ steps 4 7) s ∧
      s.backend.registered = [2, 1] ∧
      (s.backend.container 1).resources = (s.backend.container 2).resources :=
  ⟨exists_run (by decide +kernel), exists_run (by decide +kernel)⟩

end Interleaving

end WardenLinux
