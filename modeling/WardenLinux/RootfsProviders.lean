/-
  The provider that made a rootfs, and the provider that is asked to clean it
  up (container_pool.go, `saveRootFSProvider`, `destroy` and `Prune`).

  The name of the provider is kept in a file of the container's directory.
  `destroy.sh` removes the directory, and a file that cannot be read stands for
  the provider without a name.  A `Depot` says what the file contains after the
  calls of a log.

  `cleaned_by_maker_iff`: every cleanup goes to the provider that made the rootfs
  iff that is the one without a name, or there is none without a name, or no
  `destroy.sh` succeeds once the file is gone.
-/
import WardenLinux.ContainerPool

namespace WardenLinux

open Fallible

namespace LinuxContainerPool

/-! ## The depot -/

/-- The file that names the provider of a container, after the calls of a log.
    A `destroy.sh` that fails may have removed it. -/
structure Depot (cfg : Config) (o : Oracle) (id : String) where
  provider : List Call → Option String
  write : ∀ {log t r}, o log (.writeFile (providerFile cfg id) t) = .ok r →
    provider (log ++ [.writeFile (providerFile cfg id) t]) = some t
  destroy : ∀ {log r}, o log (.run (destroyCmd cfg id)) = .ok r →
    provider (log ++ [.run (destroyCmd cfg id)]) = none
  destroyFails : ∀ {log e}, o log (.run (destroyCmd cfg id)) = .error e →
    provider (log ++ [.run (destroyCmd cfg id)]) = provider log ∨
      provider (log ++ [.run (destroyCmd cfg id)]) = none
  other : ∀ {log c}, c ≠ .run (destroyCmd cfg id) →
    (∀ t, c ≠ .writeFile (providerFile cfg id) t) → provider (log ++ [c]) = provider log
  read : ∀ {log t}, provider log = some t →
    ∃ r, o log (.readFile (providerFile cfg id)) = .ok r ∧ r.text = t
  readFails : ∀ {log}, provider log = none →
    ∃ e, o log (.readFile (providerFile cfg id)) = .error e
  /-- the names in the depot are plain -/
  names : ∀ {log r name}, o log (.readDir cfg.depotPath) = .ok r → name ∈ r.names →
    containerPath cfg name = containerPath cfg id → name = id

/-- The call `c` was made after the calls `pre`, and those of `start`. -/
def Made (start log pre : List Call) (c : Call) : Prop := start <+: pre ∧ pre ++ [c] <+: log

theorem made_concat {start log pre : List Call} {c c' : Call} (h : start <+: log) :
    Made start (log ++ [c']) pre c ↔ Made start log pre c ∨ pre = log ∧ c = c' := by
  rw [Made, Made, List.prefix_concat_iff]
  constructor
  · rintro ⟨hpre, heq | hlog⟩
    · obtain ⟨rfl, hc⟩ := List.append_inj' heq rfl
      exact .inr ⟨rfl, List.singleton_inj.1 hc⟩
    · exact .inl ⟨hpre, hlog⟩
  · rintro (⟨hpre, hlog⟩ | ⟨rfl, rfl⟩)
    · exact ⟨hpre, .inr hlog⟩
    · exact ⟨h, .inl rfl⟩

section
variable {cfg : Config} {o : Oracle} {id : String} (d : Depot cfg o id) (start : List Call)
  (scheme : String) (log : List Call)

/-- Every cleanup goes to the provider of the scheme. -/
def CleanedBy (id : String) : Prop :=
  ∀ pre scheme', Made start log pre (.cleanupRootFS scheme' id) → scheme' = scheme

/-- No `destroy.sh` succeeds once the file is gone. -/
def Depot.DestroyedWithFile : Prop :=
  ∀ pre, Made start log pre (.run (destroyCmd cfg id)) → d.provider pre = none →
    ∃ e, o pre (.run (destroyCmd cfg id)) = .error e

/-- The condition for the cleanups to go to the provider of the scheme. -/
def Depot.Named : Prop :=
  scheme = "" ∨ "" ∉ cfg.rootfsProviders ∨ d.DestroyedWithFile start log

variable {d start scheme log}

theorem cleanedBy_concat {c : Call} (h : start <+: log) :
    CleanedBy start scheme (log ++ [c]) id ↔
      CleanedBy start scheme log id ∧ ∀ scheme', c = .cleanupRootFS scheme' id → scheme' = scheme := by
  simp only [CleanedBy, made_concat h]
  constructor
  · intro hall
    exact ⟨fun pre s hm => hall pre s (.inl hm), fun s hs => hall log s (.inr ⟨rfl, hs.symm⟩)⟩
  · rintro ⟨hall, hlast⟩ pre s (hm | ⟨-, hs⟩)
    · exact hall pre s hm
    · exact hlast s hs.symm

theorem destroyedWithFile_concat {c : Call} (h : start <+: log) :
    d.DestroyedWithFile start (log ++ [c]) ↔
      d.DestroyedWithFile start log ∧ (c = .run (destroyCmd cfg id) → d.provider log = none →
        ∃ e, o log (.run (destroyCmd cfg id)) = .error e) := by
  simp only [Depot.DestroyedWithFile, made_concat h]
  constructor
  · intro hall
    exact ⟨fun pre hm => hall pre (.inl hm), fun hc => hall log (.inr ⟨rfl, hc.symm⟩)⟩
  · rintro ⟨hall, hlast⟩ pre (hm | ⟨rfl, hc⟩)
    · exact hall pre hm
    · exact hlast hc.symm

/-! ## The attempts -/

/-- The file names the scheme as long as it is there, and the cleanups are right
    iff the condition holds. -/
structure Inv (d : Depot cfg o id) (start : List Call) (scheme : String) (log : List Call) :
    Prop where
  since : start <+: log
  file : d.provider log = some scheme ∨ d.provider log = none
  named : CleanedBy start scheme log id ↔ d.Named start scheme log

theorem inv_start (h : d.provider start = some scheme) : Inv d start scheme start := by
  have hnone : ∀ pre c, ¬ Made start start pre c := by
    intro pre c hm
    have := (hm.1.length_le).trans_lt (Nat.lt_of_lt_of_le (by simp) hm.2.length_le)
    exact this.false
  refine ⟨List.prefix_rfl, .inl h, ?_⟩
  exact ⟨fun _ => .inr (.inr fun pre hm => (hnone _ _ hm).elim), fun _ pre s hm => (hnone _ _ hm).elim⟩

/-- A call that has nothing to do with the container. -/
theorem Inv.other {c : Call} (h : Inv d start scheme log) (hc : c ≠ .run (destroyCmd cfg id))
    (hw : ∀ t, c ≠ .writeFile (providerFile cfg id) t) (hk : ∀ s, c ≠ .cleanupRootFS s id) :
    Inv d start scheme (log ++ [c]) where
  since := h.since.trans (List.prefix_append _ _)
  file := by rw [d.other hc hw]; exact h.file
  named := by
    simp only [Depot.Named, cleanedBy_concat h.since, destroyedWithFile_concat h.since]
    simpa [hc, hk, Depot.Named] using h.named

theorem Inv.destroyFails {e : Err} (h : Inv d start scheme log)
    (he : o log (.run (destroyCmd cfg id)) = .error e) :
    Inv d start scheme (log ++ [.run (destroyCmd cfg id)]) where
  since := h.since.trans (List.prefix_append _ _)
  file := by
    rcases d.destroyFails he with hkept | hgone
    · rw [hkept]; exact h.file
    · exact .inr hgone
  named := by
    simp only [Depot.Named, cleanedBy_concat h.since, destroyedWithFile_concat h.since]
    simpa [he, Depot.Named] using h.named

/-- A `destroy.sh` that succeeds, and the cleanup after it. -/
theorem Inv.destroy {p : String} {r : Answer} (h : Inv d start scheme log)
    (hr : o log (.run (destroyCmd cfg id)) = .ok r) (hp : p ∈ cfg.rootfsProviders)
    (hread : d.provider log = some p ∨ d.provider log = none ∧ p = "") :
    Inv d start scheme (log ++ [.run (destroyCmd cfg id)] ++ [.cleanupRootFS p id]) where
  since := h.since.trans ((List.prefix_append _ _).trans (List.prefix_append _ _))
  file := by
    rw [d.other (by simp) (by simp), d.destroy hr]
    exact .inr rfl
  named := by
    have hsince := h.since.trans (List.prefix_append log [Call.run (destroyCmd cfg id)])
    have := h.named
    simp only [Depot.Named, cleanedBy_concat hsince, cleanedBy_concat h.since,
      destroyedWithFile_concat hsince, destroyedWithFile_concat h.since] at this ⊢
    rcases hread with hsome | ⟨hnone, rfl⟩
    · -- the file is there: it names the scheme
      obtain rfl : p = scheme := by
        rcases h.file with hf | hf
        · exact Option.some.inj (hsome.symm.trans hf)
        · rw [hf] at hsome; cases hsome
      simpa [hsome] using this
    · -- the file is gone: the provider without a name is asked
      by_cases hs : scheme = ""
      · simpa [hs] using this
      · simp [hs, hnone, hr, hp, Ne.symm hs]

theorem wp_readProvider (h : Inv d start scheme log) {Q : String → List Call → Prop}
    {E : Err → List Call → Prop}
    (hQ : ∀ p log, Inv d start scheme log →
      (d.provider log = some p ∨ d.provider log = none ∧ p = "") → Q p log) :
    wp (readProvider cfg o id) Q E log := by
  have hread := h.other (c := .readFile (providerFile cfg id)) (by simp) (by simp) (by simp)
  have hkept : d.provider (log ++ [.readFile (providerFile cfg id)]) = d.provider log :=
    d.other (by simp) (by simp)
  simp only [readProvider, wp_getD, wp_bind, wp_ask, wp_pure]
  constructor
  · intro r hr
    refine hQ _ _ hread (.inl ?_)
    cases hf : d.provider log with
    | none =>
      obtain ⟨e, he⟩ := d.readFails hf
      rw [hr] at he; cases he
    | some t =>
      obtain ⟨r', hr', ht⟩ := d.read hf
      rw [hr] at hr'; cases hr'
      rw [hkept, hf, ht]
  · intro e he
    refine hQ _ _ hread (.inr ⟨?_, rfl⟩)
    cases hf : d.provider log with
    | none => rw [hkept, hf]
    | some t =>
      obtain ⟨r', hr', -⟩ := d.read hf
      rw [he] at hr'; cases hr'

theorem wp_destroyDepot (h : Inv d start scheme log) :
    wp (destroyDepot cfg o id) (fun _ => Inv d start scheme) (fun _ => Inv d start scheme) log := by
  rw [destroyDepot, wp_bind]
  refine wp_readProvider h fun p log h hread => ?_
  simp only [wp_bind, wp_ensure, wp_call]
  refine ⟨fun hp => ⟨fun r hr => ?_, fun e he => h.destroyFails he⟩, fun _ => h⟩
  exact ⟨fun _ _ => h.destroy hr hp hread, fun _ _ => h.destroy hr hp hread⟩

/-- The depot of another container. -/
theorem wp_destroyDepot_ne {id' : String} (hne : id' ≠ id)
    (hpath : containerPath cfg id' ≠ containerPath cfg id) (h : Inv d start scheme log) :
    wp (destroyDepot cfg o id') (fun _ => Inv d start scheme) (fun _ => Inv d start scheme) log := by
  have hcmd : Call.run (destroyCmd cfg id') ≠ .run (destroyCmd cfg id) := by
    simpa [destroyCmd] using hpath
  have hread {log} (h : Inv d start scheme log) :
      Inv d start scheme (log ++ [.readFile (providerFile cfg id')]) :=
    h.other (by simp) (by simp) (by simp)
  have hdestroy {log} (h : Inv d start scheme log) :
      Inv d start scheme (log ++ [.run (destroyCmd cfg id')]) := h.other hcmd (by simp) (by simp)
  have hclean {log p} (h : Inv d start scheme log) :
      Inv d start scheme (log ++ [.cleanupRootFS p id']) :=
    h.other (by simp) (by simp) (by simp [hne])
  simp only [destroyDepot, readProvider, wp_getD, wp_bind, wp_ask, wp_pure, wp_ensure, wp_call]
  exact ⟨fun _ _ => ⟨fun _ => ⟨fun _ _ => ⟨fun _ _ => hclean (hdestroy (hread h)),
      fun _ _ => hclean (hdestroy (hread h))⟩, fun _ _ => hdestroy (hread h)⟩, fun _ => hread h⟩,
    fun _ _ => ⟨fun _ => ⟨fun _ _ => ⟨fun _ _ => hclean (hdestroy (hread h)),
      fun _ _ => hclean (hdestroy (hread h))⟩, fun _ _ => hdestroy (hread h)⟩, fun _ => hread h⟩⟩

theorem wp_prune (keep : List String) (h : Inv d start scheme log) :
    wp (prune cfg o keep) (fun _ => Inv d start scheme) (fun _ => Inv d start scheme) log := by
  have hdir := h.other (c := .readDir cfg.depotPath) (by simp) (by simp) (by simp)
  simp only [prune, wp_bind, wp_ask]
  refine ⟨fun r hr => wp_each hdir fun name hname log h => ?_, fun _ _ => hdir⟩
  rw [wp_ite]
  refine ⟨fun _ => h, fun _ => ?_⟩
  by_cases hid : name = id
  · exact hid ▸ wp_destroyDepot h
  · exact wp_destroyDepot_ne hid (fun hpath => hid (d.names hr hname hpath)) h

end

/-- An attempt to remove a container: its `Destroy`, with the resources that it
    has by then, or a `Prune`. -/
inductive Attempt where
  | destroy (resources : Resources)
  | prune (keep : List String)

/-- The state after an attempt. -/
def Attempt.run (cfg : Config) (o : Oracle) (c : LinuxContainer) (s : LinuxContainerPool) :
    Attempt → LinuxContainerPool
  | .destroy resources => final (LinuxContainerPool.destroy cfg o { c with resources } s)
  | .prune keep => final (zoom calls (LinuxContainerPool.prune cfg o keep) s)

section
variable {cfg : Config} {o : Oracle} {spec : ContainerSpec} {s : LinuxContainerPool} {id : String}
  {d : Depot cfg o id} {start : List Call} {scheme : String}

theorem Attempt.run_inv {c : LinuxContainer} (hid : c.id = id) (a : Attempt)
    (h : Inv d start scheme s.log) : Inv d start scheme (a.run cfg o c s).log := by
  subst hid
  cases a with
  | destroy resources =>
    refine wp_final (P := fun s : LinuxContainerPool => Inv d start scheme s.log) ?_
    simp only [LinuxContainerPool.destroy, calls, wp_bind, wp_zoom, wp_modify]
    exact wp_destroyDepot h
  | prune keep =>
    refine wp_final (P := fun s : LinuxContainerPool => Inv d start scheme s.log) ?_
    rw [wp_zoom]
    exact wp_prune keep h

theorem runs_inv {c : LinuxContainer} (hid : c.id = id) (attempts : List Attempt)
    (h : Inv d start scheme s.log) :
    Inv d start scheme (attempts.foldl (Attempt.run cfg o c) s).log := by
  induction attempts generalizing s with
  | nil => exact h
  | cons a attempts ih => exact ih (a.run_inv hid h)

/-- The commands of the bind mounts leave the file alone. -/
theorem wp_bindMounts {path : String} {bindMounts : List BindMount} {log : List Call}
    (h : d.provider log = some scheme) :
    wp (writeBindMounts o path bindMounts) (fun _ log => d.provider log = some scheme)
      (fun _ _ => True) log := by
  refine wp_mono (wp_each h fun cmd hcmd log h => ?_) (fun _ _ h => h) (fun _ _ _ => trivial)
  obtain ⟨bm, -, hcmd⟩ := List.mem_flatMap.1 hcmd
  obtain ⟨line, -, rfl⟩ := List.mem_map.1 hcmd
  have hkept : d.provider (log ++ [.run { path := "bash", args := ["-c", line] }]) = some scheme := by
    rw [d.other (by simp [destroyCmd]) (by simp), h]
  simp [hkept]

/-- A container is created with its provider in the file. -/
theorem create_provider {url : URL} (d : Depot cfg o (containerID s.containerNum))
    (hurl : cfg.parseURL spec.rootFSPath = .ok url) :
    wp (create cfg o spec)
      (fun c s' => c.id = containerID s.containerNum ∧ d.provider s'.log = some url.scheme)
      (fun _ _ => True) s := by
  simp only [create, uids, networks, calls, wp_bind, wp_zoom, wp_onError, UnixUIDPool.acquire,
    RealNetworkPool.acquire, FreeList.Stock.wp_acquire, nextContainerID, wp_get, wp_modify, wp_pure,
    wp_checked, wp_ensure, wp_ask, wp_call, saveRootFSProvider]
  refine ⟨fun u us hu hsu => ⟨fun n ns hn hsn => ⟨fun url' hurl' => ?_, fun _ _ => trivial⟩,
    fun _ => trivial⟩, fun _ => trivial⟩
  obtain rfl : url = url' := by rw [hurl] at hurl'; cases hurl'; rfl
  refine ⟨fun _ => ⟨fun rootfs _ => ⟨fun _ _ => ⟨fun _ _ => ⟨fun r hr => ?_, fun _ _ => trivial⟩,
    fun _ _ => trivial⟩, fun _ _ => trivial⟩, fun _ _ => trivial⟩, fun _ => trivial⟩
  exact wp_mono (wp_bindMounts (d.write hr)) (fun _ _ h => ⟨rfl, h⟩) fun _ _ _ => trivial

/-- **The provider that made a rootfs cleans it up**, in any attempts to destroy
    or prune the container, iff the cleanups never depend on a file that is
    gone. -/
theorem cleaned_by_maker_iff {url : URL} {c : LinuxContainer} {s₁ : LinuxContainerPool}
    (hurl : cfg.parseURL spec.rootFSPath = .ok url) (hc : create cfg o spec s = .ok c s₁)
    (d : Depot cfg o c.id) (attempts : List Attempt) :
    let s₂ := attempts.foldl (Attempt.run cfg o c) s₁
    CleanedBy s₁.log url.scheme s₂.log c.id ↔
      url.scheme = "" ∨ "" ∉ cfg.rootfsProviders ∨ d.DestroyedWithFile s₁.log s₂.log := by
  intro s₂
  have hid : c.id = containerID s.containerNum := by
    obtain ⟨u, n, -, rfl⟩ := wp_of_ok (create_cases spec) hc
    rfl
  have hfile : d.provider s₁.log = some url.scheme := by
    obtain ⟨id, handle, path, properties, grace, state, events, resources, tracker, oom⟩ := c
    cases hid
    exact (wp_of_ok (create_provider d hurl) hc).2
  exact (runs_inv rfl attempts (inv_start hfile)).named

end

/-! ## A container of another provider -/

/-- The provider's file after some calls, where every `destroy.sh` succeeds. -/
def fileAfter (cfg : Config) (id : String) (log : List Call) : Option String :=
  log.foldl (fun file c =>
    match c with
    | .writeFile p t => if p = providerFile cfg id then some t else file
    | .run cmd => if cmd = destroyCmd cfg id then none else file
    | _ => file) none

/-- The rootfs cannot be cleaned up; nothing else fails. -/
def busyRootfs (cfg : Config) (id : String) : Oracle := fun log c =>
  match c with
  | .readFile p =>
    if p = providerFile cfg id then
      match fileAfter cfg id log with
      | some t => .ok { text := t }
      | none => .error (.external "no such file or directory")
    else .ok {}
  | .cleanupRootFS _ _ => .error (.external "device or resource busy")
  | _ => .ok {}

/-- The depot of this oracle. -/
def busyDepot (cfg : Config) (id : String) : Depot cfg (busyRootfs cfg id) id where
  provider := fileAfter cfg id
  write _ := by simp [fileAfter]
  destroy _ := by simp [fileAfter]
  destroyFails h := by cases h
  other {log c} hc hw := by
    rw [fileAfter, List.foldl_append]
    cases c <;> simp_all [fileAfter]
  read {log t} h := ⟨{ text := t }, by simp only [busyRootfs, if_true, h], rfl⟩
  readFails h := ⟨.external "no such file or directory", by simp only [busyRootfs, if_true, h]⟩
  names h hmem := by cases h; cases hmem

/-- A daemon with providers for the schemes. -/
def Config.providing (schemes : List String) : Config :=
  { Config.plain with
    rootfsProviders := schemes
    parseURL := fun _ => .ok ⟨"docker", "/busybox", ""⟩ }

theorem dockerURL {schemes : List String} (text : String) :
    (Config.providing schemes).parseURL text = .ok ⟨"docker", "/busybox", ""⟩ := rfl

/-- The calls of a `Destroy` there. -/
theorem busy_destroy {cfg : Config} {c : LinuxContainer} {p : String} {s : LinuxContainerPool}
    (hp : (fileAfter cfg c.id s.log).getD "" = p) (hmem : p ∈ cfg.rootfsProviders)
    (resources : Resources) :
    ((Attempt.destroy resources).run cfg (busyRootfs cfg c.id) c s).log =
      s.log ++ [.readFile (providerFile cfg c.id), .run (destroyCmd cfg c.id),
        .cleanupRootFS p c.id] := by
  refine wp_final (P := fun s' : LinuxContainerPool => s'.log = _) ?_
  simp only [LinuxContainerPool.destroy, calls, destroyDepot, readProvider, wp_bind, wp_zoom, wp_getD,
    wp_ask, wp_pure, wp_ensure, wp_call, wp_modify, busyRootfs, if_true]
  cases hf : fileAfter cfg c.id s.log <;> simp_all

theorem not_cleanedBy {start rest : List Call} {id scheme : String} (scheme' : String)
    (hmem : Call.cleanupRootFS scheme' id ∈ rest) (hne : scheme' ≠ scheme) :
    ¬ CleanedBy start scheme (start ++ rest) id := by
  intro h
  obtain ⟨pre, post, rfl⟩ := List.append_of_mem hmem
  exact hne (h (start ++ pre) scheme' ⟨List.prefix_append _ _, ⟨post, by simp⟩⟩)

/-- The ID of the container that is created first. -/
def firstID : String := containerID tiny.containerNum

/-- The attempts to destroy a container, once more after the first. -/
def twice (c : LinuxContainer) : List Attempt := [.destroy c.resources, .destroy c.resources]

/-- **Another provider is asked**: after a cleanup that failed, the `Destroy` that
    is tried again asks the provider without a name. -/
theorem cleaned_by_another :
    let cfg := Config.providing ["", "docker"]
    let o := busyRootfs cfg firstID
    ∃ c s₁, create cfg o .bare tiny = .ok c s₁ ∧ c.id = firstID ∧
      ¬ CleanedBy s₁.log "docker" ((twice c).foldl (Attempt.run cfg o c) s₁).log c.id := by
  intro cfg o
  have hwp : wp (create cfg o .bare) (fun c _ => c.id = firstID) (fun _ _ => False) tiny := by
    decide +kernel
  obtain ⟨c, s₁, hc, hid⟩ := wp_returns hwp
  have hfile : fileAfter cfg c.id s₁.log = some "docker" :=
    hid ▸ (wp_of_ok (create_provider (busyDepot cfg firstID) (dockerURL _)) hc).2
  refine ⟨c, s₁, hc, hid, ?_⟩
  simp only [twice, List.foldl_cons, List.foldl_nil, o, ← hid]
  -- the first attempt removes the file
  have hfirst : ((Attempt.destroy c.resources).run cfg (busyRootfs cfg c.id) c s₁).log = _ :=
    busy_destroy (by rw [hfile, Option.getD_some]) (by decide) c.resources
  have hgone : fileAfter cfg c.id
      ((Attempt.destroy c.resources).run cfg (busyRootfs cfg c.id) c s₁).log = none := by
    rw [hfirst]
    simp [fileAfter]
  rw [busy_destroy (by rw [hgone, Option.getD_none]) (by decide) c.resources, hfirst,
    List.append_assoc]
  exact not_cleanedBy "" (by simp) (by decide)

/-- Without such a provider the second `Destroy` fails. -/
theorem cleaned_by_docker :
    let cfg := Config.providing ["docker"]
    let o := busyRootfs cfg firstID
    ∃ c s₁, create cfg o .bare tiny = .ok c s₁ ∧
      CleanedBy s₁.log "docker" ((twice c).foldl (Attempt.run cfg o c) s₁).log c.id := by
  intro cfg o
  have hwp : wp (create cfg o .bare) (fun c _ => c.id = firstID) (fun _ _ => False) tiny := by
    decide +kernel
  obtain ⟨c, s₁, hc, hid⟩ := wp_returns hwp
  refine ⟨c, s₁, hc, ?_⟩
  exact (cleaned_by_maker_iff (dockerURL _) hc (hid ▸ busyDepot cfg firstID) (twice c)).2
    (.inr (.inl (by decide)))

end LinuxContainerPool

end WardenLinux
