/-
  Containers that nobody can destroy any more.

  A container that the pool made must be found under its handle until it is
  destroyed.  A `Create` breaks this in two ways: when the container cannot be
  started it is returned to nobody, and when its handle is in use it takes the
  place of the container there.  `noOrphan_iff`: these are the only ways.
-/
import WardenLinux.Lib.Transition
import WardenLinux.Ownership

namespace WardenLinux

open Fallible Transition

namespace LinuxBackend

/-- A backend, and the containers that the pool's `Create` returned and that no
    `Destroy` of the pool has succeeded on since. -/
structure Traced where
  backend : LinuxBackend
  live : List ℕ

/-- A request, and what it does to the live containers. -/
def Traced.serve (cfg : Config) (o : Oracle) (t : Traced) (r : Request) : Traced where
  backend := t.backend.serve cfg o r
  live := match r with
    | .create spec =>
      match LinuxContainerPool.create cfg o spec t.backend.pool with
      | .ok _ _ => t.live ++ [t.backend.heap.length]
      | .error _ _ => t.live
    | .destroy handle =>
      match destroy cfg o handle t.backend with
      | .ok _ _ => t.live.filter fun i => t.backend.containers.lookup handle ≠ some i
      | .error _ _ => t.live
    | .container _ _ => t.live

/-- Every live container is found by `Lookup` of its handle. -/
def NoOrphan (t : Traced) : Prop :=
  ∀ i ∈ t.live, lookup (t.backend.container i).handle t.backend = .ok i t.backend

/-- The condition on a request: a container that the pool makes is one that can
    be started, and its handle is not in use. -/
def KeepsAll (cfg : Config) (o : Oracle) (t : Traced) : Request → Prop
  | .create spec => ∀ c p, LinuxContainerPool.create cfg o spec t.backend.pool = .ok c p →
      (∃ r, o p.log (.run (LinuxContainer.startCmd cfg c)) = .ok r) ∧
        t.backend.containers.lookup c.handle = none
  | _ => True

variable {cfg : Config} {o : Oracle} {t : Traced}

theorem lookup_eq_ok {b : LinuxBackend} {h : String} {i : ℕ} :
    lookup h b = .ok i b ↔ b.containers.lookup h = some i := by
  unfold lookup
  rcases b.containers.lookup h with _ | j <;> simp

/-- The registered containers are live, and live containers are objects. -/
structure Traced.Inv (t : Traced) : Prop where
  filed : t.backend.Filed
  objects : ∀ i ∈ t.live, i < t.backend.heap.length
  live : ∀ h i, t.backend.containers.lookup h = some i → i ∈ t.live

/-! ## Create -/

theorem inv_append {t t' : Traced} (hI : t.Inv) {c : LinuxContainer}
    (hh : t'.backend.heap = t.backend.heap ++ [c])
    (hl : t'.live = t.live ++ [t.backend.heap.length])
    (hc : t'.backend.containers = t.backend.containers ∨
      t'.backend.containers = t.backend.containers.insert c.handle t.backend.heap.length) :
    t'.Inv := by
  have hlen : t'.backend.heap.length = t.backend.heap.length + 1 := by simp [hh]
  refine ⟨?_, fun i hi => ?_, fun h i hi => ?_⟩
  · rcases hc with hc | hc
    exacts [filed_append hI.filed hh hc, filed_insert hI.filed hh hc]
  · rw [hl] at hi
    rcases List.mem_append.1 hi with hi | hi
    · have := hI.objects i hi; omega
    · rw [List.mem_singleton.1 hi]; omega
  · rw [hl]
    rcases hc with hc | hc
    · rw [hc] at hi
      exact List.mem_append_left _ (hI.live h i hi)
    · rw [hc] at hi
      rcases Maps.lookup_insert_eq_some.1 hi with ⟨-, rfl⟩ | ⟨-, hi⟩
      · exact List.mem_append_right _ List.mem_cons_self
      · exact List.mem_append_left _ (hI.live h i hi)

/-- A container that is not registered is an orphan. -/
theorem orphan_of_unregistered {t t' : Traced} (hI : t.Inv)
    (hl : t'.live = t.live ++ [t.backend.heap.length])
    (hc : t'.backend.containers = t.backend.containers) : ¬ NoOrphan t' := by
  intro hN
  have h := hN t.backend.heap.length (by rw [hl]; simp)
  rw [lookup_eq_ok, hc] at h
  exact absurd (hI.filed _ _ h).1 (lt_irrefl _)

theorem noOrphan_insert {t t' : Traced} (hI : t.Inv) (hN : NoOrphan t) {c : LinuxContainer}
    (hh : t'.backend.heap = t.backend.heap ++ [c])
    (hl : t'.live = t.live ++ [t.backend.heap.length])
    (hc : t'.backend.containers = t.backend.containers.insert c.handle t.backend.heap.length) :
    NoOrphan t' ↔ t.backend.containers.lookup c.handle = none := by
  constructor
  · intro hN'
    by_contra hne
    obtain ⟨i, hi⟩ := Option.ne_none_iff_exists'.1 hne
    have hlive := hI.live _ i hi
    obtain ⟨hlt, he⟩ := hI.filed _ i hi
    -- the container with this handle would have to be the new one
    have h := hN' i (by rw [hl]; exact List.mem_append_left _ hlive)
    rw [lookup_eq_ok, container_append hh hlt, he, hc, AList.lookup_insert] at h
    cases h
    exact lt_irrefl _ hlt
  · intro hfree i hi
    rw [lookup_eq_ok]
    rw [hl] at hi
    rcases List.mem_append.1 hi with hi | hi
    · have hold := lookup_eq_ok.1 (hN i hi)
      have hne : (t.backend.container i).handle ≠ c.handle := by
        intro he
        rw [he, hfree] at hold; cases hold
      rw [container_append hh (hI.objects i hi), hc, AList.lookup_insert_ne hne, hold]
    · rw [List.mem_singleton.1 hi, container_append_self hh, hc, AList.lookup_insert]

/-- A request that changes neither the registry, the live containers nor a
    handle. -/
theorem serve_same {t t' : Traced} (hI : t.Inv) (hl : t'.live = t.live)
    (hh : t'.backend.heap.length = t.backend.heap.length)
    (hcon : ∀ i, (t'.backend.container i).handle = (t.backend.container i).handle)
    (hc : t'.backend.containers = t.backend.containers) : t'.Inv ∧ (NoOrphan t → NoOrphan t') := by
  refine ⟨⟨fun h i hi => ?_, fun i hi => ?_, fun h i hi => ?_⟩, fun hN i hi => ?_⟩
  · rw [hc] at hi; rw [hh, hcon]; exact hI.filed h i hi
  · rw [hl] at hi; rw [hh]; exact hI.objects i hi
  · rw [hc] at hi; rw [hl]; exact hI.live h i hi
  · rw [hl] at hi
    rw [lookup_eq_ok, hc, hcon]
    exact lookup_eq_ok.1 (hN i hi)

/-- What a `Create` does to a traced backend, and when it leaves no orphan. -/
theorem serve_create (hI : t.Inv) (spec : ContainerSpec) :
    (t.serve cfg o (.create spec)).Inv ∧
      (NoOrphan t → (NoOrphan (t.serve cfg o (.create spec)) ↔ KeepsAll cfg o t (.create spec))) := by
  have hcases := create_cases cfg o t.backend spec
  have hb : (t.serve cfg o (.create spec)).backend = final (create cfg o spec t.backend) := rfl
  rw [← hb] at hcases
  cases hcases with
  | refused e p hp he =>
    have hl : (t.serve cfg o (.create spec)).live = t.live := by simp only [Traced.serve, hp]
    have hh : (t.serve cfg o (.create spec)).backend.heap = t.backend.heap := by rw [he]
    have hc : (t.serve cfg o (.create spec)).backend.containers = t.backend.containers := by rw [he]
    obtain ⟨hI', hN'⟩ := serve_same hI hl (by rw [hh]) (fun i => by rw [container, hh, container]) hc
    refine ⟨hI', fun hN => iff_of_true (hN' hN) ?_⟩
    intro c p hok
    rw [hp] at hok; cases hok
  | orphaned c p e log hp hstart he =>
    have hl : (t.serve cfg o (.create spec)).live = t.live ++ [t.backend.heap.length] := by
      simp only [Traced.serve, hp]
    have hh : (t.serve cfg o (.create spec)).backend.heap = t.backend.heap ++ [c] := by rw [he]
    have hc : (t.serve cfg o (.create spec)).backend.containers = t.backend.containers := by rw [he]
    refine ⟨inv_append hI hh hl (Or.inl hc), fun _ => iff_of_false ?_ fun hk => ?_⟩
    · exact orphan_of_unregistered hI hl hc
    · obtain ⟨⟨r, hr⟩, -⟩ := hk c p hp
      rw [hstart] at hr; cases hr
  | registered c p r log hp hstart he =>
    have hl : (t.serve cfg o (.create spec)).live = t.live ++ [t.backend.heap.length] := by
      simp only [Traced.serve, hp]
    have hh : (t.serve cfg o (.create spec)).backend.heap =
      t.backend.heap ++ [{ c with state := .active }] := by rw [he]
    have hc : (t.serve cfg o (.create spec)).backend.containers =
      t.backend.containers.insert c.handle t.backend.heap.length := by rw [he]
    refine ⟨inv_append hI hh hl (Or.inr hc), fun hN => ?_⟩
    rw [noOrphan_insert hI hN hh hl hc]
    constructor
    · intro hfree c' p' hok
      rw [hp] at hok; cases hok
      exact ⟨⟨r, hstart⟩, hfree⟩
    · exact fun hk => (hk c p hp).2

/-! ## Destroy and the rest -/

/-- A container is taken out of the registry and destroyed. -/
theorem inv_erase {t t' : Traced} (hI : t.Inv) {handle : String} {i : ℕ}
    (hi : t.backend.containers.lookup handle = some i)
    (hl : ∀ j, j ∈ t'.live ↔ j ∈ t.live ∧ j ≠ i) (hh : t'.backend.heap = t.backend.heap)
    (hc : t'.backend.containers = t.backend.containers.erase handle) : t'.Inv := by
  refine ⟨filed_erase hI.filed hh hc, fun j hj => ?_, fun h j hj => ?_⟩
  · rw [hh]; exact hI.objects j ((hl j).1 hj).1
  · rw [hc] at hj
    obtain ⟨hne, hj⟩ := Maps.lookup_erase_eq_some.1 hj
    refine (hl j).2 ⟨hI.live h j hj, ?_⟩
    rintro rfl
    exact hne ((hI.filed h j hj).2.symm.trans (hI.filed handle j hi).2)

theorem noOrphan_erase {t t' : Traced} (hN : NoOrphan t) {handle : String} {i : ℕ}
    (hi : t.backend.containers.lookup handle = some i)
    (hl : ∀ j, j ∈ t'.live ↔ j ∈ t.live ∧ j ≠ i) (hh : t'.backend.heap = t.backend.heap)
    (hc : t'.backend.containers = t.backend.containers.erase handle) : NoOrphan t' := by
  intro j hj
  obtain ⟨hj, hne⟩ := (hl j).1 hj
  have hold := lookup_eq_ok.1 (hN j hj)
  have hcon : t'.backend.container j = t.backend.container j := by rw [container, hh, container]
  rw [lookup_eq_ok, hcon, hc]
  refine Maps.lookup_erase_eq_some.2 ⟨fun he => ?_, hold⟩
  rw [he, hi] at hold
  exact hne (Option.some.inj hold).symm

theorem serve_destroy (hI : t.Inv) (handle : String) :
    (t.serve cfg o (.destroy handle)).Inv ∧
      (NoOrphan t → NoOrphan (t.serve cfg o (.destroy handle))) := by
  have key : wp (destroy cfg o handle) _ _ t.backend := wp_destroy handle
    (Q := fun _ b' => ∃ i, t.backend.containers.lookup handle = some i ∧ b'.heap = t.backend.heap ∧
      b'.containers = t.backend.containers.erase (t.backend.container i).handle)
    (E := fun _ b' => b'.heap = t.backend.heap ∧ b'.containers = t.backend.containers)
    (fun i _ hi => ⟨i, hi, rfl, rfl⟩) (fun _ _ => ⟨rfl, rfl⟩)
  rcases hd : destroy cfg o handle t.backend with ⟨_, b'⟩ | ⟨e, b'⟩
  · obtain ⟨i, hi, hh, hc⟩ := wp_of_ok key hd
    have hb : (t.serve cfg o (.destroy handle)).backend = b' := by
      simp only [Traced.serve, serve, hd, final_ok]
    have hl : ∀ j, j ∈ (t.serve cfg o (.destroy handle)).live ↔ j ∈ t.live ∧ j ≠ i := fun j => by
      simp only [Traced.serve, hd, List.mem_filter, hi, ne_eq, Option.some.injEq, decide_eq_true_eq]
      exact and_congr_right fun _ => ⟨fun h he => h he.symm, fun h he => h he.symm⟩
    obtain ⟨-, hhandle⟩ := hI.filed handle i hi
    rw [hhandle] at hc
    rw [← hb] at hh hc
    exact ⟨inv_erase hI hi hl hh hc, fun hN => noOrphan_erase hN hi hl hh hc⟩
  · obtain ⟨hh, hc⟩ := wp_of_error key hd
    have hb : (t.serve cfg o (.destroy handle)).backend = b' := by
      simp only [Traced.serve, serve, hd, final_error]
    rw [← hb] at hh hc
    refine serve_same hI (by simp only [Traced.serve, hd]) (by rw [hh]) (fun i => ?_) hc
    rw [container, hh, container]

theorem serve_container (hI : t.Inv) (i : ℕ) (op : LinuxContainer.Op) :
    (t.serve cfg o (.container i op)).Inv ∧
      (NoOrphan t → NoOrphan (t.serve cfg o (.container i op))) := by
  have key : ((t.backend.serve cfg o (.container i op)).heap.length = t.backend.heap.length ∧
      ∀ j, ((t.backend.serve cfg o (.container i op)).container j).handle =
        (t.backend.container j).handle) ∧
      (t.backend.serve cfg o (.container i op)).containers = t.backend.containers := by
    simp only [serve]
    split_ifs with hi
    · refine wp_object (P := fun b' => (b'.heap.length = t.backend.heap.length ∧
        ∀ j, (b'.container j).handle = (t.backend.container j).handle) ∧
        b'.containers = t.backend.containers) (LinuxContainer.tame_perform op) i fun cell hc =>
          ⟨⟨by simp [object], fun j => ?_⟩, rfl⟩
      by_cases hij : i = j
      · subst hij
        rw [container_set_self hi]
        exact congrArg LinuxContainer.Ident.handle hc.ident
      · rw [container_set_ne hij]
    · exact ⟨⟨rfl, fun _ => rfl⟩, rfl⟩
  exact serve_same hI rfl key.1.1 key.1.2 key.2

/-! ## Runs -/

theorem serve_inv (hI : t.Inv) : ∀ r : Request, (t.serve cfg o r).Inv
  | .create spec => (serve_create hI spec).1
  | .destroy handle => (serve_destroy hI handle).1
  | .container i op => (serve_container hI i op).1

theorem serve_noOrphan_iff (hI : t.Inv) (hN : NoOrphan t) :
    ∀ r : Request, NoOrphan (t.serve cfg o r) ↔ KeepsAll cfg o t r
  | .create spec => (serve_create hI spec).2 hN
  | .destroy handle => iff_of_true ((serve_destroy hI handle).2 hN) trivial
  | .container i op => iff_of_true ((serve_container hI i op).2 hN) trivial

/-- **No orphaned container.**  From a backend without containers, every state
    that a sequence of requests leads through is without orphans iff every
    container made could be started and its handle was not in use. -/
theorem noOrphan_iff (pool : LinuxContainerPool) (path : String)
    (snapshots : AList (fun _ : String => String)) (rs : List Request) :
    throughout (Traced.serve cfg o) NoOrphan ⟨.new pool path snapshots, []⟩ rs ↔
      eachStep (Traced.serve cfg o) (KeepsAll cfg o) ⟨.new pool path snapshots, []⟩ rs := by
  refine throughout_iff (I := Traced.Inv) (fun _ r hI => serve_inv hI r)
    (fun _ r hI hN => serve_noOrphan_iff hI hN r) ⟨?_, ?_, ?_⟩ ?_
  · intro h i hi; simp [new] at hi
  · intro i hi; cases hi
  · intro h i hi; simp [new] at hi
  · intro i hi; cases hi

/-- A container whose `start.sh` fails, the fifth call of its `Create`, is in
    no registry. -/
theorem orphan_unstarted :
    let t := Traced.serve .plain (.failingAt 4) ⟨.new .tiny "" ∅, []⟩ (.create .bare)
    t.live = [0] ∧ lookup (t.backend.container 0).handle t.backend =
      .error (.unknownHandle (t.backend.container 0).handle) t.backend ∧ ¬ NoOrphan t := by
  intro t
  have h : lookup (t.backend.container 0).handle t.backend =
    .error (.unknownHandle (t.backend.container 0).handle) t.backend := rfl
  refine ⟨rfl, h, fun hN => ?_⟩
  have h' := hN 0 (List.mem_singleton_self 0)
  rw [h] at h'
  cases h'

end LinuxBackend

end WardenLinux
