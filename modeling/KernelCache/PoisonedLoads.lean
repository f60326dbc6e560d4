/-
# KernelCache.PoisonedLoads — what `load` refuses.

An artifact that is invalidated, corrupt or retired is to be out of use for good.  Lookups skip it and
leases are refused; `KernelCache::load` never asks.  It finds the record and promotes it to the device:
a record that is there already is a success at once, and otherwise only the bytes and the loader have a
say.  `load_refused_iff` is the whole list of what makes it fail, and the lifecycle is not on it.
-/
import KernelCache.Draining
import KernelCache.LastCopy
import KernelCache.Sequential

namespace KernelCache

open Foundation (Bytes Prog Runs Pool Event)
open Foundation.Prog (sect perform)

/-! ## What a load works on -/

namespace Impl

/-- The bytes `ensure_bytes` comes back with. -/
def loadBytes (env : Env) (s : Impl) (p : Nat) : Result Bytes :=
  if (s.records p).bytes ≠ [] then .ok (s.records p).bytes
  else if env.cfg.persistenceOpen then (s.store.get (s.records p).id).map StoredArtifact.bytes
  else .error bytesAbsent

/-- How many sections `ensure_bytes` takes to come back with bytes. -/
def fetchSections (s : Impl) (p : Nat) : Nat := if (s.records p).bytes ≠ [] then 1 else 3

/-- What makes a load fail: the record is not on the device, and its bytes are not to be had or the
loader of its backend, if it has one, turns them down. -/
structure LoadFails (env : Env) (s : Impl) (p : Nat) : Prop where
  offDevice : (s.records p).tier ≠ .deviceResident
  refused : (∃ code message, s.loadBytes env p = .error (.error code message)) ∨
    ∃ bytes, s.loadBytes env p = .ok bytes ∧
      ∀ loader, (findBackend env.backends (s.records p).key).bind KernelBackend.loader = some loader →
        ∃ code message, loader.load (s.tick + 2 + s.fetchSections p) (s.records p).key bytes {} =
          .error (.error code message)

/-- What a load would change of the record is as it was. -/
structure SameResidency (s s' : Impl) (p : Nat) : Prop where
  nativeHandle : (s'.records p).nativeHandle = (s.records p).nativeHandle
  tier : (s'.records p).tier = (s.records p).tier
  loadGeneration : (s'.records p).loadGeneration = (s.records p).loadGeneration
  deviceFootprint : (s'.records p).deviceFootprint = (s.records p).deviceFootprint

end Impl

/-- `load` refuses: it returns an error, and the record stays where it was. -/
def RefusesLoad (env : Env) (s : Impl) (id : ArtifactId) (p : Nat) : Prop :=
  ∃ code message s', (loadOp env id).run (exec env) s = some (.error (.error code message), s') ∧
    s.SameResidency s' p

/-! ## A load alone -/

section Alone

variable {env : Env} {s : Impl} {p : Nat}

/-- Keeping the bytes of a reload moves nothing. -/
theorem Impl.SameResidency.of_reloaded {s s' : Impl} {bytes : Bytes}
    (h : s'.records p = (s.records p).reloaded bytes) : s.SameResidency s' p := by
  constructor
  all_goals
    rw [h]
    rfl

/-- `ensure_bytes` alone always returns. -/
theorem ensureBytes_alone (env : Env) (s : Impl) (p : Nat) :
    ∃ s₁, (ensureBytes env p).run (exec env) s = some (s.loadBytes env p, s₁) ∧
      s.SameResidency s₁ p ∧ (s₁.records p).key = (s.records p).key ∧
      ∀ bytes, s.loadBytes env p = .ok bytes → s₁.tick = s.tick + s.fetchSections p := by
  unfold ensureBytes Impl.loadBytes Impl.fetchSections
  have hread : (sect (.readBytes p) fun s : Impl => (s.records p).bytes).run (exec env) s =
      some ((s.records p).bytes, { s with tick := s.tick + 1 }) := rfl
  rw [Prog.bind_eq, Prog.run_then hread]
  by_cases hbytes : (s.records p).bytes = []
  · rw [if_neg (by simp [hbytes]), if_neg (not_not.mpr hbytes), if_neg (not_not.mpr hbytes)]
    by_cases hopen : env.cfg.persistenceOpen = true
    · have hreload : (sect (.reload p) fun s : Impl => s.store.get (s.records p).id).run (exec env)
          { s with tick := s.tick + 1 } =
          some (s.store.get (s.records p).id, { s with tick := s.tick + 2 }) := rfl
      rw [if_pos hopen, if_pos hopen, Prog.bind_eq, Prog.run_then hreload]
      cases hget : s.store.get (s.records p).id with
      | error e => exact ⟨_, rfl, ⟨rfl, rfl, rfl, rfl⟩, rfl, fun bytes h => by cases h⟩
      | ok a =>
        have hrec : (s.modify p fun r => r.reloaded a.bytes).records p =
            (s.records p).reloaded a.bytes := by
          rw [Impl.modify_records, if_pos rfl]
        exact ⟨_, rfl, .of_reloaded hrec, (congrArg ArtifactRecord.key hrec).trans rfl,
          fun bytes _ => rfl⟩
    · rw [if_neg hopen, if_neg hopen]
      exact ⟨_, rfl, ⟨rfl, rfl, rfl, rfl⟩, rfl, fun bytes h => by cases h⟩
  · rw [if_pos (by simp [hbytes]), if_pos hbytes, if_pos hbytes]
    exact ⟨_, rfl, ⟨rfl, rfl, rfl, rfl⟩, rfl, fun bytes _ => rfl⟩

theorem Impl.SameResidency.trans {s s₁ s₂ : Impl} (h : s.SameResidency s₁ p)
    (h' : s₁.SameResidency s₂ p) : s.SameResidency s₂ p :=
  ⟨h'.nativeHandle.trans h.nativeHandle, h'.tier.trans h.tier,
    h'.loadGeneration.trans h.loadGeneration, h'.deviceFootprint.trans h.deviceFootprint⟩

theorem Impl.SameResidency.of_records {s s' : Impl} (h : s'.records = s.records) :
    s.SameResidency s' p := by
  constructor
  all_goals rw [h]

/-- A call of the loader leaves the records alone. -/
theorem loadModule_records (env : Env) (s : Impl) (p : Nat) (bytes : Bytes)
    (device : DeviceDescriptor) : (s.loadModule env p bytes device).2.records = s.records := by
  unfold Impl.loadModule
  split
  · rfl
  · split <;> rfl

/-- The loader answers with an error, if there is one. -/
theorem loadModule_error_iff {bytes : Bytes} {device : DeviceDescriptor} :
    (∃ code message, (s.loadModule env p bytes device).1 = .error (.error code message)) ↔
      ∀ loader, (findBackend env.backends (s.records p).key).bind KernelBackend.loader = some loader →
        ∃ code message,
          loader.load s.tick (s.records p).key bytes device = .error (.error code message) := by
  unfold Impl.loadModule
  cases (findBackend env.backends (s.records p).key).bind KernelBackend.loader with
  | none => exact ⟨fun _ loader h => (by cases h), fun _ => ⟨_, _, rfl⟩⟩
  | some loader =>
    dsimp only
    constructor
    · rintro ⟨code, message, h⟩ loader' heq
      obtain rfl := Option.some.inj heq
      cases hload : loader.load s.tick (s.records p).key bytes device with
      | error e =>
        rw [hload] at h
        cases h
        exact ⟨code, message, rfl⟩
      | ok handle =>
        rw [hload] at h
        cases h
    · intro h
      obtain ⟨code, message, hload⟩ := h loader rfl
      rw [hload]
      exact ⟨code, message, rfl⟩

/-- A device promotion alone returns an error exactly if the bytes are not to be had, or the loader
turns them down. -/
theorem promoteToDevice_refused_iff :
    (∃ code message s', (promoteToDevice env p {}).run (exec env) s =
        some (.error (.error code message), s') ∧ s.SameResidency s' p) ↔
      (∃ code message, s.loadBytes env p = .error (.error code message)) ∨
      ∃ bytes, s.loadBytes env p = .ok bytes ∧
        ∀ loader, (findBackend env.backends (s.records p).key).bind KernelBackend.loader = some loader →
          ∃ code message, loader.load (s.tick + s.fetchSections p) (s.records p).key bytes {} =
            .error (.error code message) := by
  obtain ⟨s₁, hensure, hsame, hkey, htick⟩ := ensureBytes_alone env s p
  unfold promoteToDevice
  rw [Prog.bind_eq, Prog.run_then hensure]
  cases hbytes : s.loadBytes env p with
  | error e =>
    constructor
    · rintro ⟨code, message, s', hrun, -⟩
      cases hrun
      exact .inl ⟨code, message, rfl⟩
    · rintro (⟨code, message, he⟩ | ⟨bytes, he, -⟩)
      · cases he
        exact ⟨code, message, s₁, rfl, hsame⟩
      · cases he
  | ok bytes =>
    have hiff := @loadModule_error_iff env s₁ p bytes {}
    rw [hkey, htick bytes hbytes] at hiff
    have hload : (sect (.loadModule p bytes {}) fun s : Impl => (s.loadModule env p bytes {}).1).run
        (exec env) s₁ = some ((s₁.loadModule env p bytes {}).1,
          { (s₁.loadModule env p bytes {}).2 with tick := s₁.tick + 1 }) := rfl
    have hrecords := loadModule_records env s₁ p bytes {}
    dsimp only
    rw [Prog.bind_eq, Prog.run_then hload]
    constructor
    · rintro ⟨code, message, s', hrun, -⟩
      refine .inr ⟨bytes, rfl, hiff.mp ?_⟩
      cases hres : (s₁.loadModule env p bytes {}).1 with
      | error e =>
        rw [hres] at hrun
        cases hrun
        exact ⟨code, message, rfl⟩
      | ok out =>
        rw [hres] at hrun
        dsimp only at hrun
        rw [Prog.bind_eq, Prog.run_of_bind] at hrun
        obtain ⟨_, s₂, -, hrun⟩ := hrun
        rw [Prog.bind_eq, Prog.run_of_bind] at hrun
        obtain ⟨_, s₃, -, hrun⟩ := hrun
        cases evictToFit_error hrun
    · rintro (⟨code, message, he⟩ | ⟨bytes', he, hrefused⟩)
      · cases he
      · cases he
        obtain ⟨code, message, hres⟩ := hiff.mpr hrefused
        rw [hres]
        exact ⟨code, message, _, rfl, hsame.trans (.of_records hrecords)⟩

end Alone

/-- **Loads are refused for want of bytes or of a willing loader.** Whatever the lifecycle state of the
record and whatever its flags, a load returns an error and leaves the record where it was exactly if the
record is not on the device, and its bytes are neither at hand nor to be had from the store or the loader
of its backend turns them down. -/
theorem load_refused_iff {env : Env} {s : Impl} {id : ArtifactId} {p : Nat}
    (hid : s.byId.lookup id = some p) : RefusesLoad env s id p ↔ s.LoadFails env p := by
  have hfind : (sect (.find id) fun s : Impl => s.byId.lookup id).run (exec env) s =
      some (some p, { s with tick := s.tick + 1 }) := by
    rw [← hid]
    rfl
  have hread : (sect (.readTier p) fun s : Impl => (s.records p).tier).run (exec env)
      { s with tick := s.tick + 1 } = some ((s.records p).tier, { s with tick := s.tick + 2 }) := rfl
  obtain ⟨rest, hrun, herror, hdone⟩ : ∃ rest : Result Unit → Op (Result ArtifactHandle),
      (loadOp env id).run (exec env) s =
        (Prog.bind (if ResidencyTier.deviceResident.rank ≤ (s.records p).tier.rank
          then .ret (.ok ()) else promoteToDevice env p {}) rest).run (exec env)
            { s with tick := s.tick + 2 } ∧
      (∀ e, rest (.error e) = .ret (.error e)) ∧
      rest (.ok ()) = (sect (.readHandle p) fun s : Impl => (s.records p).handle).bind
        fun h => .ret (.ok h) := by
    unfold loadOp
    rw [Prog.bind_eq, Prog.run_then hfind]
    dsimp only
    unfold promoteToTier
    rw [if_neg (by decide), Prog.bind_eq, Prog.bind_eq, Prog.bind_assoc, Prog.run_then hread]
    exact ⟨_, rfl, fun _ => rfl, rfl⟩
  unfold RefusesLoad
  rw [hrun]
  by_cases htier : (s.records p).tier = .deviceResident
  · rw [htier, if_pos le_rfl, Prog.ret_bind, hdone]
    constructor
    · rintro ⟨code, message, s', h, -⟩
      cases h
    · exact fun h => absurd htier h.offDevice
  · have hrank : ¬ ResidencyTier.deviceResident.rank ≤ (s.records p).tier.rank := by
      intro hle
      cases htiers : (s.records p).tier with
      | deviceResident => exact htier htiers
      | _ =>
        rw [htiers] at hle
        revert hle
        decide
    rw [if_neg hrank]
    -- the two sections before the promotion only read
    have hahead : s.SameResidency { s with tick := s.tick + 2 } p := .of_records rfl
    have hback : Impl.SameResidency { s with tick := s.tick + 2 } s p := .of_records rfl
    have hiff := @promoteToDevice_refused_iff env { s with tick := s.tick + 2 } p
    constructor
    · rintro ⟨code, message, s', h, hsame⟩
      rw [Prog.run_of_bind] at h
      obtain ⟨promoted, s₁, hpromote, h⟩ := h
      cases promoted with
      | error e =>
        rw [herror] at h
        cases h
        exact ⟨htier, hiff.mp ⟨code, message, s', hpromote, hback.trans hsame⟩⟩
      | ok _ =>
        rw [hdone, Prog.run_of_bind] at h
        obtain ⟨_, s₂, -, h⟩ := h
        cases h
    · intro h
      obtain ⟨code, message, s', hpromote, hsame⟩ := hiff.mpr h.refused
      refine ⟨code, message, s', ?_, hahead.trans hsame⟩
      rw [Prog.run_then hpromote, herror]
      rfl

/-- Without a backend there is no loader, and an invalidated artifact is refused. -/
theorem load_refused_without_loader : ∃ calls s, Sequence {} {} calls s ∧
    (s.records 0).invalidated = true ∧ RefusesLoad {} s sampleArtifact.id 0 := by
  have hinvalidate : ∃ a s, ((Operation.invalidate { target := .all }).prog {}).run (exec {})
      putState = some (a, s) := ⟨_, _, rfl⟩
  obtain ⟨a, s, hrun⟩ := hinvalidate
  have hreached := putState_sequence.call hrun
  cases hrun
  refine ⟨_, _, hreached, rfl, (load_refused_iff rfl).mpr ⟨ResidencyTier.noConfusion, ?_⟩⟩
  exact .inr ⟨[1], rfl, fun loader hloader => by cases hloader⟩

/-- **Invalidated artifacts are loaded.** An artifact is put and then everything is invalidated.  A load
of it succeeds: the record goes to the device under a new load generation, invalidated as it is. -/
theorem invalidated_load : ∃ calls s s' h, Sequence oneRoundEnv {} calls s ∧
    s.byId.lookup sampleArtifact.id = some 0 ∧ (s.records 0).invalidated = true ∧
    (loadOp oneRoundEnv sampleArtifact.id).run (exec oneRoundEnv) s = some (.ok h, s') ∧
    (s.records 0).tier ≠ .deviceResident ∧ (s'.records 0).tier = .deviceResident ∧
    (s'.records 0).loadGeneration ≠ (s.records 0).loadGeneration ∧
    (s'.records 0).invalidated = true := by
  have hput : ((Operation.put sampleArtifact [1]).prog oneRoundEnv).run (exec oneRoundEnv) (Impl.initial {}) =
      some (.id ⟨⟨1, 7⟩⟩, putState) := rfl
  have hinvalidate : ∃ a s, ((Operation.invalidate { target := .all }).prog oneRoundEnv).run
      (exec oneRoundEnv) putState = some (a, s) := ⟨_, _, rfl⟩
  obtain ⟨a, s, hrun⟩ := hinvalidate
  have hreached := Sequence.call (.call .fresh hput) hrun
  cases hrun
  refine ⟨_, _, _, _, hreached, rfl, rfl, rfl, ?_⟩
  exact ⟨ResidencyTier.noConfusion, rfl, by decide, rfl⟩

end KernelCache
