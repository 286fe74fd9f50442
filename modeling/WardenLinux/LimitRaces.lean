/-
  Calls of one limiting operation at the same time (linux_container.go,
  `LimitBandwidth`, `LimitDisk`, `LimitMemory` and `LimitCPU`), every step
  succeeding.

  An operation writes its settings one after the other and then records the
  limit under a mutex (`Limiting`, and `Performs` for what the container does).
  Only the record is under the mutex, so that limits are applied in one order
  and may be recorded in another.

  `recorded_in_order`: when all calls have returned, the recorded limit is the one
  applied last, if no call that wrote last recorded while another was between its
  writes and its record.  `recorded_other_of_overtaken`: without that, and with no
  write to come, another limit is recorded.
-/
import Mathlib.Logic.Function.Basic
import WardenLinux.Container
import WardenLinux.Lib.Transition

namespace WardenLinux

open Fallible Transition

/-! ## Operations -/

/-- What a limit is written to. -/
inductive Setting where
  | bandwidth
  | quota
  | memoryLimit
  | memorySwap
  | cpuShares
  deriving DecidableEq, Repr

/-- A limiting operation: the settings that it writes, the last of them being the
    one that counts, the calls that write them, and the record. -/
structure Limiting (α : Type) where
  writes : List Setting
  main : Setting
  ends : writes.getLast? = some main
  write : LinuxContainer → α → Setting → Call
  record : α → LinuxContainer → LinuxContainer

namespace Limiting

def bandwidth : Limiting BandwidthLimits where
  writes := [.bandwidth]
  main := .bandwidth
  ends := rfl
  write c limits _ := .bandwidthSetLimits c.id limits
  record limits c := { c with currentBandwidthLimits := some limits }

def disk : Limiting DiskLimits where
  writes := [.quota]
  main := .quota
  ends := rfl
  write c limits _ := .quotaSetLimits c.resources.uid limits
  record limits c := { c with currentDiskLimits := some limits }

/-- The limit is written before and after the one with swap. -/
def memory : Limiting MemoryLimits where
  writes := [.memoryLimit, .memorySwap, .memoryLimit]
  main := .memoryLimit
  ends := rfl
  write c limits x := .cgroupsSet c.id "memory"
    (if x = .memorySwap then "memory.memsw.limit_in_bytes" else "memory.limit_in_bytes")
    (toString limits.limitInBytes.toNat)
  record limits c := { c with currentMemoryLimits := some limits }

def cpu : Limiting CPULimits where
  writes := [.cpuShares]
  main := .cpuShares
  ends := rfl
  write c limits _ := .cgroupsSet c.id "cpu" "cpu.shares" (toString limits.limitInShares.toNat)
  record limits c := { c with currentCPULimits := some limits }

/-- The operation of a container makes the writes in order, after what is needed
    for the notifier, and then records the limit. -/
def Performs {α : Type} (op : Limiting α) (x : α → EStateM Err Cell Unit) : Prop :=
  ∀ limits s, wp (x limits)
    (fun _ s' => (∃ before, s'.log = s.log ++ before ++ op.writes.map (op.write s.container limits)) ∧
      ∃ oomNotifier, s'.container = op.record limits { s.container with oomNotifier })
    (fun _ _ => False) s

section
variable {cfg : Config} {o : Oracle}

theorem bandwidth_performs (ho : o.Succeeds) :
    bandwidth.Performs (LinuxContainer.limitBandwidth o) := by
  intro limits s
  simp only [LinuxContainer.limitBandwidth, LinuxContainer.update, Cell.calls, wp_bind, wp_get,
    wp_zoom, wp_call, wp_modify]
  exact ⟨fun _ _ => ⟨⟨[], by simp [bandwidth]⟩, _, rfl⟩, fun _ he => Oracle.not_succeeds he ho⟩

theorem disk_performs (ho : o.Succeeds) : disk.Performs (LinuxContainer.limitDisk o) := by
  intro limits s
  simp only [LinuxContainer.limitDisk, LinuxContainer.update, Cell.calls, wp_bind, wp_get, wp_zoom,
    wp_call, wp_modify]
  exact ⟨fun _ _ => ⟨⟨[], by simp [disk]⟩, _, rfl⟩, fun _ he => Oracle.not_succeeds he ho⟩

theorem cpu_performs (ho : o.Succeeds) : cpu.Performs (LinuxContainer.limitCPU o) := by
  intro limits s
  simp only [LinuxContainer.limitCPU, LinuxContainer.update, Cell.calls, wp_bind, wp_get, wp_zoom,
    wp_call, wp_modify]
  exact ⟨fun _ _ => ⟨⟨[], by simp [cpu]⟩, _, rfl⟩, fun _ he => Oracle.not_succeeds he ho⟩

/-- The notifier makes calls of its own. -/
theorem wp_startOomNotifier_log {Q : Unit → Cell → Prop} {E : Err → Cell → Prop} {s : Cell}
    (ho : o.Succeeds) (hQ : ∀ oomNotifier before, Q () { s with
      container := { s.container with oomNotifier }, log := s.log ++ before }) :
    wp (LinuxContainer.startOomNotifier cfg o) Q E s := by
  simp only [LinuxContainer.startOomNotifier, wp_bind, wp_get]
  cases hoom : s.container.oomNotifier with
  | some oom =>
    have h := hQ (some oom) []
    rw [← hoom, List.append_nil] at h
    exact h
  | none =>
    simp only [LinuxContainer.update, Cell.calls, wp_bind, wp_modify, wp_zoom, wp_call]
    exact ⟨fun _ _ => hQ _ _, fun _ he => (Oracle.not_succeeds he ho).elim⟩

theorem memory_performs (ho : o.Succeeds) :
    memory.Performs (LinuxContainer.limitMemory cfg o) := by
  intro limits s
  have hno {log : List Call} {c : Call} {e : Err} {P : Prop} (he : o log c = .error e) : P :=
    (Oracle.not_succeeds he ho).elim
  rw [LinuxContainer.limitMemory, wp_bind]
  refine wp_startOomNotifier_log ho fun oom before => ?_
  simp only [LinuxContainer.update, Cell.calls, wp_bind, wp_get, wp_attempt, wp_zoom, wp_call,
    wp_modify]
  refine ⟨fun _ _ => ⟨fun _ _ => ⟨fun _ _ => ⟨⟨before, ?_⟩, oom, rfl⟩, fun _ => hno⟩, fun _ => hno⟩,
    fun _ => hno⟩
  simp [memory]

end

end Limiting

/-! ## Calls -/

namespace LimitRace

variable {α : Type}

/-- Where a call is: before the writes that are left, and then the record, or at
    its end. -/
inductive Pc where
  | apply (rest : List Setting)
  | returned
  deriving DecidableEq

structure LimitCall (α : Type) where
  limit : α
  pc : Pc
  deriving DecidableEq

/-- The settings, the limit that was applied last and the call that applied it,
    the recorded limit, and the calls. -/
structure State (α : Type) where
  settings : Setting → Option α
  applied : Option α
  applier : Option ℕ
  recorded : Option α
  calls : List (LimitCall α)

/-- The next step of a call. -/
def step (s : State α) (i : ℕ) : Option (State α) := do
  let c ← s.calls[i]?
  match c.pc with
  | .apply (x :: rest) => some { s with
      settings := Function.update s.settings x (some c.limit)
      applied := some c.limit
      applier := some i
      calls := s.calls.set i ⟨c.limit, .apply rest⟩ }
  | .apply [] => some { s with
      recorded := some c.limit
      calls := s.calls.set i ⟨c.limit, .returned⟩ }
  | .returned => none

def Step (s : State α) (i : ℕ) (s' : State α) : Prop := step s i = some s'

/-- Calls with the given limits, under a limit that is both applied and
    recorded. -/
def start (op : Limiting α) (current : Option α) (limits : List α) : State α where
  settings _ := current
  applied := current
  applier := none
  recorded := current
  calls := limits.map fun limit => ⟨limit, .apply op.writes⟩

def State.Returned (s : State α) : Prop := ∀ c ∈ s.calls, c.pc = .returned

instance (s : State α) : Decidable s.Returned :=
  inferInstanceAs (Decidable (∀ c ∈ s.calls, c.pc = .returned))

/-- The call has made its writes, and not yet recorded. -/
def State.Recording (s : State α) (i : ℕ) : Prop :=
  (s.calls[i]?).map LimitCall.pc = some (.apply [])

instance (s : State α) (i : ℕ) : Decidable (s.Recording i) := inferInstanceAs (Decidable (_ = _))

/-- A call that was the last to write records only when no other call is between its
    writes and its record. -/
def InOrder (s : State α) (i : ℕ) : Prop :=
  s.applier = some i → s.Recording i → ∀ j < s.calls.length, j ≠ i → ¬ s.Recording j

instance (s : State α) : DecidablePred (InOrder s) := fun i => inferInstanceAs (Decidable
  (s.applier = some i → s.Recording i → ∀ j < s.calls.length, j ≠ i → ¬ s.Recording j))

section
variable {s s' s₀ : State α} {i j : ℕ} {is : List ℕ}

/-- **What a step can do.** -/
theorem step_cases (h : Step s i s') :
    ∃ limit, (∃ x rest, s.calls[i]? = some ⟨limit, .apply (x :: rest)⟩ ∧ s' = { s with
        settings := Function.update s.settings x (some limit)
        applied := some limit
        applier := some i
        calls := s.calls.set i ⟨limit, .apply rest⟩ }) ∨
      s.calls[i]? = some ⟨limit, .apply []⟩ ∧ s' = { s with
        recorded := some limit
        calls := s.calls.set i ⟨limit, .returned⟩ } := by
  simp only [Step, step, Option.bind_eq_bind, Option.bind_eq_some_iff] at h
  obtain ⟨⟨limit, pc⟩, hc, h⟩ := h
  refine ⟨limit, ?_⟩
  match pc, h with
  | .apply (x :: rest), h => cases h; exact .inl ⟨x, rest, hc, rfl⟩
  | .apply [], h => cases h; exact .inr ⟨hc, rfl⟩
  | .returned, h => cases h

theorem State.Recording.lt (h : s.Recording i) : i < s.calls.length := by
  obtain ⟨c, hc, -⟩ := Option.map_eq_some_iff.1 h
  exact (List.getElem?_eq_some_iff.1 hc).1

/-- The calls after a step of one of them. -/
theorem recording_set {c : LimitCall α} (hi : i < s.calls.length) (hs : s'.calls = s.calls.set i c) :
    s'.Recording j ↔ if j = i then c.pc = .apply [] else s.Recording j := by
  rw [State.Recording, hs]
  split_ifs with hj
  · subst hj
    rw [List.getElem?_set_self hi]
    simp
  · rw [List.getElem?_set_ne (Ne.symm hj)]
    rfl

/-! ## The order of writes and records -/

/-- The limit applied last is that of the call that wrote last. -/
def Attributed (s : State α) : Prop := ∀ i ∈ s.applier, ∃ c ∈ s.calls[i]?, s.applied = some c.limit

theorem attributed_start (op : Limiting α) (current : Option α) (limits : List α) :
    Attributed (start op current limits) := by
  intro i hi
  cases hi

theorem Attributed.step (ha : Attributed s) (h : Step s i s') : Attributed s' := by
  obtain ⟨limit, ⟨x, rest, hc, rfl⟩ | ⟨hc, rfl⟩⟩ := step_cases h
  · rintro _ ⟨⟩
    exact ⟨_, List.getElem?_set_self (List.getElem?_eq_some_iff.1 hc).1, rfl⟩
  · intro k hk
    obtain ⟨c, hck, happ⟩ := ha k hk
    rcases eq_or_ne k i with rfl | hne
    · rw [hc] at hck
      cases hck
      exact ⟨_, List.getElem?_set_self (List.getElem?_eq_some_iff.1 hc).1, happ⟩
    · exact ⟨c, by rw [List.getElem?_set_ne hne.symm]; exact hck, happ⟩

/-- Once the call that wrote last has recorded, its limit is the recorded one, and no
    call is left between its writes and its record. -/
def Settled (s : State α) : Prop :=
  (∃ i ∈ s.applier, ∃ c ∈ s.calls[i]?, c.pc ≠ .returned) ∨
    s.recorded = s.applied ∧ ∀ j, ¬ s.Recording j

theorem settled_start (op : Limiting α) (current : Option α) (limits : List α) :
    Settled (start op current limits) := by
  refine .inr ⟨rfl, fun j hj => ?_⟩
  obtain ⟨c, hc, hpc⟩ := Option.map_eq_some_iff.1 hj
  obtain ⟨limit, -, rfl⟩ := List.mem_map.1 (List.mem_of_getElem? hc)
  -- every operation writes something
  have hends := op.ends
  rw [show op.writes = [] from Pc.apply.inj hpc] at hends
  cases hends

/-- **One step in order.** -/
theorem Settled.step (hs : Settled s) (ha : Attributed s) (hin : InOrder s i) (h : Step s i s') :
    Settled s' := by
  obtain ⟨limit, ⟨x, rest, hc, rfl⟩ | ⟨hc, rfl⟩⟩ := step_cases h
  · -- whoever writes is the last to have written, and has not recorded
    exact .inl ⟨i, rfl, _, List.getElem?_set_self (List.getElem?_eq_some_iff.1 hc).1, Pc.noConfusion⟩
  · have hlt := (List.getElem?_eq_some_iff.1 hc).1
    have hrec : s.Recording i := by rw [State.Recording, hc]; rfl
    rcases hs with ⟨k, hk, c, hck, hpc⟩ | ⟨-, hnone⟩
    · rcases eq_or_ne k i with rfl | hne
      · -- the last to write records: nobody else is about to
        refine .inr ⟨?_, fun j => ?_⟩
        · obtain ⟨d, hd, happ⟩ := ha k hk
          rw [hc] at hd
          cases hd
          exact happ.symm
        · rw [recording_set hlt rfl]
          split_ifs with hj
          · exact not_false
          · exact fun hr => hin hk hrec j hr.lt hj hr
      · exact .inl ⟨k, hk, c, by rw [List.getElem?_set_ne hne.symm]; exact hck, hpc⟩
    · exact (hnone i hrec).elim

theorem Settled.recorded_eq (hs : Settled s) (hret : s.Returned) : s.recorded = s.applied := by
  rcases hs with ⟨i, -, c, hc, hpc⟩ | ⟨heq, -⟩
  · exact absurd (hret c (List.mem_of_getElem? hc)) hpc
  · exact heq

/-! ## Overtaken calls -/

theorem map_limit_step (h : Step s i s') :
    s'.calls.map LimitCall.limit = s.calls.map LimitCall.limit := by
  have hset : ∀ {limit : α} {pc pc' : Pc}, s.calls[i]? = some ⟨limit, pc⟩ →
      (s.calls.set i ⟨limit, pc'⟩).map LimitCall.limit = s.calls.map LimitCall.limit := by
    intro limit pc pc' hc
    refine List.ext_getElem? fun j => ?_
    rw [List.getElem?_map, List.getElem?_map]
    rcases eq_or_ne j i with rfl | hne
    · rw [List.getElem?_set_self (List.getElem?_eq_some_iff.1 hc).1, hc]
      rfl
    · rw [List.getElem?_set_ne hne.symm]
  obtain ⟨limit, ⟨x, rest, hc, rfl⟩ | ⟨hc, rfl⟩⟩ := step_cases h
  · exact hset hc
  · exact hset hc

/-- No write is left, the call `i` wrote last and has recorded, and another call has
    recorded after it or is still to record. -/
structure Overtaken (i : ℕ) (s : State α) : Prop where
  idle : ∀ c ∈ s.calls, c.pc = .apply [] ∨ c.pc = .returned
  last : ∃ limit, s.calls[i]? = some ⟨limit, .returned⟩ ∧ s.applied = some limit
  other : (∃ j ≠ i, s.Recording j) ∨ ∃ j ≠ i, ∃ c ∈ s.calls[j]?, s.recorded = some c.limit

theorem Overtaken.step (ho : Overtaken i s) (h : Step s j s') : Overtaken i s' := by
  obtain ⟨last, hlast, happ⟩ := ho.last
  obtain ⟨limit, ⟨x, rest, hc, rfl⟩ | ⟨hc, rfl⟩⟩ := step_cases h
  · rcases ho.idle _ (List.mem_of_getElem? hc) with hpc | hpc
    · cases hpc
    · cases hpc
  · have hji : j ≠ i := by
      rintro rfl
      rw [hlast] at hc
      cases hc
    refine ⟨fun c hmem => ?_, ⟨last, by rwa [List.getElem?_set_ne hji], happ⟩, .inr ⟨j, hji, ?_⟩⟩
    · rcases List.mem_or_eq_of_mem_set hmem with hmem | rfl
      · exact ho.idle c hmem
      · exact .inr rfl
    · exact ⟨_, List.getElem?_set_self (List.getElem?_eq_some_iff.1 hc).1, rfl⟩

/-- **An overtaken call leaves its limit**: when no write is left, and the call that wrote
    last records before another one, then of different limits another one is recorded in
    the end. -/
theorem recorded_other_of_overtaken {op : Limiting α} {current : Option α} {limits : List α}
    {js : List ℕ} {t : State α} (hnd : limits.Nodup) (hr₀ : Run Step (start op current limits) is s)
    (h : Step s i s') (hin : ¬ InOrder s i)
    (hidle : ∀ c ∈ s.calls, c.pc = .apply [] ∨ c.pc = .returned) (hr : Run Step s' js t)
    (hret : t.Returned) : t.recorded ≠ t.applied := by
  simp only [InOrder, not_forall, not_not] at hin
  obtain ⟨hi, hrec, j, -, hji, hj⟩ := hin
  have ho : Overtaken i s' := by
    obtain ⟨limit, ⟨x, rest, hc, rfl⟩ | ⟨hc, rfl⟩⟩ := step_cases h
    · rw [State.Recording, hc] at hrec
      cases hrec
    · have hlt := (List.getElem?_eq_some_iff.1 hc).1
      have ha : Attributed s :=
        hr₀.invariant (attributed_start op current limits) fun _ _ _ ha hs => ha.step hs
      obtain ⟨c, hc', happ⟩ := ha i hi
      rw [hc] at hc'
      cases hc'
      refine ⟨fun c hmem => ?_, ⟨limit, List.getElem?_set_self hlt, happ⟩, .inl ⟨j, hji, ?_⟩⟩
      · rcases List.mem_or_eq_of_mem_set hmem with hmem | rfl
        · exact hidle c hmem
        · exact .inr rfl
      · rw [recording_set hlt rfl, if_neg hji]
        exact hj
  have ht : Overtaken i t := hr.invariant ho fun _ _ _ ho hs => ho.step hs
  have hlimits : t.calls.map LimitCall.limit = limits := by
    have hall := ((hr₀.snoc h).append hr).frame (fun s => s.calls.map LimitCall.limit)
      fun _ _ _ => map_limit_step
    rw [hall, start, List.map_map]
    exact List.map_id _
  obtain ⟨last, hlast, happ⟩ := ht.last
  rcases ht.other with ⟨k, -, hk⟩ | ⟨k, hki, c, hck, hrecd⟩
  · obtain ⟨c, hc, hpc⟩ := Option.map_eq_some_iff.1 hk
    rw [hret c (List.mem_of_getElem? hc)] at hpc
    cases hpc
  · -- the limits of two calls are different
    rw [hrecd, happ]
    intro heq
    have hlt : k < (t.calls.map LimitCall.limit).length := by
      rw [List.length_map]
      exact (List.getElem?_eq_some_iff.1 hck).1
    refine hki ((List.getElem?_inj hlt (hlimits.symm ▸ hnd)).1 ?_)
    rw [List.getElem?_map, List.getElem?_map, hck, hlast]
    exact heq

/-! ## The limit applied last -/

/-- Between its first and its last write a call may have left another limit in
    the setting that counts. -/
structure Inv (op : Limiting α) (s : State α) : Prop where
  suffix : ∀ c ∈ s.calls, ∀ rest, c.pc = .apply rest → rest <:+ op.writes
  enforced : s.settings op.main = s.applied ∨
    ∃ c ∈ s.calls, ∃ x rest, c.pc = .apply (x :: rest)

theorem inv_start (op : Limiting α) (current : Option α) (limits : List α) :
    Inv op (start op current limits) where
  suffix c hc rest hpc := by
    obtain ⟨limit, -, rfl⟩ := List.mem_map.1 hc
    cases hpc
    exact List.suffix_rfl
  enforced := .inl rfl

theorem Inv.step {op : Limiting α} (hi : Inv op s) (h : Step s i s') : Inv op s' := by
  obtain ⟨limit, ⟨x, rest, hc, rfl⟩ | ⟨hc, rfl⟩⟩ := step_cases h
  · have hlt := (List.getElem?_eq_some_iff.1 hc).1
    have hsuf : x :: rest <:+ op.writes := hi.suffix _ (List.mem_of_getElem? hc) _ rfl
    refine ⟨fun c hc' rest' hpc => ?_, ?_⟩
    · rcases List.mem_or_eq_of_mem_set hc' with hc' | rfl
      · exact hi.suffix c hc' rest' hpc
      · cases hpc
        exact (List.suffix_cons x rest).trans hsuf
    · cases rest with
      | nil =>
        -- the last write is to the setting that counts
        have hx : op.main = x := by
          obtain ⟨pre, hpre⟩ := hsuf
          have := op.ends
          rw [← hpre, List.getLast?_append] at this
          simpa using this.symm
        exact .inl (by simp [hx])
      | cons y rest =>
        exact .inr ⟨_, List.mem_iff_getElem?.2 ⟨i, List.getElem?_set_self hlt⟩, y, rest, rfl⟩
  · have hlt := (List.getElem?_eq_some_iff.1 hc).1
    refine ⟨fun c hc' rest' hpc => ?_, ?_⟩
    · rcases List.mem_or_eq_of_mem_set hc' with hc' | rfl
      · exact hi.suffix c hc' rest' hpc
      · cases hpc
    · rcases hi.enforced with heq | ⟨c, hmem, x, rest, hpc⟩
      · exact .inl heq
      · refine .inr ⟨c, ?_, x, rest, hpc⟩
        obtain ⟨j, hj⟩ := List.mem_iff_getElem?.1 hmem
        have hne : i ≠ j := by
          rintro rfl
          rw [hc] at hj; cases hj
          cases hpc
        exact List.mem_iff_getElem?.2 ⟨j, by rw [List.getElem?_set_ne hne, hj]⟩

end

/-- **The recorded limit is the enforced limit** once all calls have returned, in every
    run in which a call that wrote last records only when no other call is between its
    writes and its record. -/
theorem recorded_in_order {op : Limiting α} {current : Option α} {limits : List α} {is : List ℕ}
    {s : State α} (hr : Run (guarded InOrder Step) (start op current limits) is s)
    (hret : s.Returned) : s.recorded = s.applied ∧ s.settings op.main = s.applied := by
  have hset : Attributed s ∧ Settled s :=
    hr.invariant (I := fun s => Attributed s ∧ Settled s)
      ⟨attributed_start op current limits, settled_start op current limits⟩
      fun _ _ _ ho hs => ⟨ho.1.step hs.2, ho.2.step ho.1 hs.1 hs.2⟩
  have hinv : Inv op s := hr.invariant (inv_start op current limits) fun _ _ _ hi hs => hi.step hs.2
  refine ⟨hset.2.recorded_eq hret, ?_⟩
  rcases hinv.enforced with heq | ⟨c, hc, x, rest, hpc⟩
  · exact heq
  · rw [hret c hc] at hpc; cases hpc

theorem recorded_in_order_memory :
    ∃ is s, Run (guarded InOrder Step) (start Limiting.memory none [⟨4096⟩, ⟨8192⟩]) is s ∧
      s.Returned ∧ s.settings .memoryLimit = some ⟨8192⟩ ∧ s.recorded = some ⟨8192⟩ := by
  have h : ∃ s, Run (guarded InOrder Step) (start Limiting.memory none [⟨4096⟩, ⟨8192⟩])
      [0, 1, 0, 1, 0, 0, 1, 1] s ∧ s.Returned ∧
      s.settings .memoryLimit = some ⟨8192⟩ := exists_guarded_run (by decide +kernel)
  obtain ⟨s, hr, hret, hset⟩ := h
  obtain ⟨hrec, henf⟩ := recorded_in_order hr hret
  refine ⟨_, s, hr, hret, hset, ?_⟩
  rw [hrec, ← henf]
  exact hset

/-- **Another limit is recorded**: two limits are applied in one order and
    recorded in the other. -/
theorem recorded_other :
    ∃ is s, Run Step (start Limiting.cpu none [⟨1024⟩, ⟨512⟩]) is s ∧ s.Returned ∧
      s.applied = some ⟨512⟩ ∧ s.recorded = some ⟨1024⟩ :=
  ⟨[0, 1, 1, 0], exists_run (by decide +kernel)⟩

end LimitRace

end WardenLinux
