/-
# KernelCache.Tiers — a record's tier and its module.

Five sections write a record's tier, four its handle, and only the sections of eviction and unloading
write both from what they find.  A build writes the tier a second time after it has stored the
artifact, and a promotion to host memory writes it after it has read the bytes; by then another
thread may have put a module on the device.  `tier_agrees_iff` names the three sections that can
separate the two and shows that nothing else does.
-/
import KernelCache.Records
import KernelCache.Sequential

namespace KernelCache

open Foundation (Prog Runs Pool Event)

/-! ## One step -/

/-- A record has a module exactly when its tier says so. -/
def ArtifactRecord.TierAgrees (r : ArtifactRecord) : Prop :=
  r.nativeHandle ≠ none ↔ r.tier = .deviceResident

/-- Every record has a module exactly when its tier says so. -/
def Impl.TierAgrees (s : Impl) : Prop := ∀ p < s.nextRecord, (s.records p).TierAgrees

/-- The section separates no tier from its module: what is lowered to a stored copy or to host memory
is not on the device, and a loader that succeeds returns a module. -/
def Step.keepsTiers (s : Impl) : Step → Prop
  | .markPersisted o => ∀ p, s.byId.lookup o.id = some p → (s.records p).tier ≠ .deviceResident
  | .commitHost p => p < s.nextRecord → (s.records p).tier ≠ .deviceResident
  | .commitDevice p handle _ => p < s.nextRecord → handle ≠ none
  | _ => True

namespace ArtifactRecord

/-- A record without a module in a tier off the device. -/
theorem tierAgrees_of_none {r : ArtifactRecord} (hhandle : r.nativeHandle = none)
    (htier : r.tier ≠ .deviceResident) : r.TierAgrees :=
  ⟨fun h => absurd hhandle h, fun h => absurd h htier⟩

theorem TierAgrees.handle_eq {r : ArtifactRecord} (h : r.TierAgrees)
    (htier : r.tier ≠ .deviceResident) : r.nativeHandle = none := by
  by_contra hne
  exact htier (h.mp hne)

theorem TierAgrees.congr {r r' : ArtifactRecord} (h : r.TierAgrees)
    (hhandle : r'.nativeHandle = r.nativeHandle) (htier : r'.tier = r.tier) : r'.TierAgrees := by
  unfold TierAgrees
  rw [hhandle, htier]
  exact h

theorem evictCommit_tierAgrees (r : ArtifactRecord) : r.evictCommit.TierAgrees := by
  unfold evictCommit
  split <;> exact tierAgrees_of_none rfl r.fallbackTier_ne.1

theorem persisted_tierAgrees {r : ArtifactRecord} (h : r.TierAgrees) :
    r.persisted.TierAgrees ↔ r.tier ≠ .deviceResident := by
  constructor
  · intro hafter htier
    have hhandle : r.persisted.nativeHandle ≠ none := h.mpr htier
    cases hafter.mp hhandle
  · intro htier
    exact tierAgrees_of_none (h.handle_eq htier) ResidencyTier.noConfusion

theorem promoteHost_tierAgrees {r : ArtifactRecord} (h : r.TierAgrees) :
    r.promoteHost.TierAgrees ↔ r.tier ≠ .deviceResident := by
  constructor
  · intro hafter htier
    have hhandle : r.promoteHost.nativeHandle ≠ none := h.mpr htier
    cases hafter.mp hhandle
  · intro htier
    exact tierAgrees_of_none (h.handle_eq htier) ResidencyTier.noConfusion

theorem promoteDevice_tierAgrees (r : ArtifactRecord) (handle : LoadedModuleHandle)
    (footprint : UInt64 × Bool) :
    (r.promoteDevice handle footprint).TierAgrees ↔ handle ≠ none :=
  ⟨fun h => h.mpr rfl, fun h => ⟨fun _ => rfl, fun _ => h⟩⟩

/-- The changes that cannot separate a tier from its module. -/
theorem Updates.tierAgrees {p : Nat} {l : Step} {r r' : ArtifactRecord} (h : Updates p r l r')
    (hr : r.TierAgrees) : r'.TierAgrees ∨ (∃ o, l = .markPersisted o) ∨ l = .commitHost p ∨
      ∃ handle footprint, l = .commitDevice p handle footprint := by
  cases h with
  | persisted o => exact .inr (.inl ⟨o, rfl⟩)
  | promoteHost => exact .inr (.inr (.inl rfl))
  | promoteDevice handle footprint => exact .inr (.inr (.inr ⟨handle, footprint, rfl⟩))
  | evictCommit => exact .inl r.evictCommit_tierAgrees
  | unloaded => exact .inl (tierAgrees_of_none rfl r.fallbackTier_ne.1)
  | validatedBy res =>
    refine .inl ?_
    unfold ArtifactRecord.validatedBy
    split <;> exact hr.congr rfl rfl
  | _ => exact .inl (hr.congr rfl rfl)

end ArtifactRecord

/-- Records start out without a module, off the device. -/
theorem Step.offers_tierAgrees {env : Env} {s : Impl} {l : Step} {r : ArtifactRecord}
    (h : r ∈ l.offers env s) : r.TierAgrees := by
  cases l with
  | publish fence o =>
    obtain rfl := List.mem_singleton.mp h
    exact ArtifactRecord.tierAgrees_of_none rfl ResidencyTier.noConfusion
  | put desc bytes =>
    obtain rfl := List.mem_singleton.mp h
    exact ArtifactRecord.tierAgrees_of_none rfl ResidencyTier.noConfusion
  | recoverInsert artifacts =>
    obtain ⟨a, -, rfl⟩ := List.mem_map.mp h
    exact ArtifactRecord.tierAgrees_of_none rfl ResidencyTier.noConfusion
  | _ => cases h

/-- **One step.** From a state in which tiers and modules agree, they agree after a section exactly
when it separates none. -/
theorem exec_tierAgrees {env : Env} {l : Step} {s s' : Impl} (h : exec env l s = some s')
    (hl : l.Proper) (hs : s.Sound) (hagrees : s.TierAgrees) : s'.TierAgrees ↔ l.keepsTiers s := by
  have hone : ∀ p {f : ArtifactRecord → ArtifactRecord}, l.inserts = false →
      (l.effect env s).records = (s.modify p f).records →
      (s'.TierAgrees ↔ (p < s.nextRecord → (f (s.records p)).TierAgrees)) :=
    fun _ _ => exec_every_rewritten h hagrees
  cases l with
  | markPersisted o =>
    cases hid : s.byId.lookup o.id with
    | none =>
      have hsame : s'.TierAgrees := by
        obtain ⟨-, rfl⟩ := exec_eq_some.mp h
        simp only [Step.effect, Impl.markPersisted, hid]
        exact hagrees
      refine ⟨fun _ p hp => ?_, fun _ => hsame⟩
      rw [hid] at hp
      cases hp
    | some p =>
      have heffect : ((Step.markPersisted o).effect env s).records =
          (s.modify p ArtifactRecord.persisted).records := by
        simp only [Step.effect, Impl.markPersisted, hid]
        rfl
      have hlt := (hs.bound _ p hid).1
      rw [hone p rfl heffect, ArtifactRecord.persisted_tierAgrees (hagrees p hlt)]
      constructor
      · intro htier q hq
        obtain rfl := Option.some.inj (hid.symm.trans hq)
        exact htier hlt
      · intro htier _
        exact htier p hid
  | commitHost p =>
    rw [hone p rfl rfl]
    constructor
    · intro htier hp
      exact (ArtifactRecord.promoteHost_tierAgrees (hagrees p hp)).mp (htier hp)
    · intro htier hp
      exact (ArtifactRecord.promoteHost_tierAgrees (hagrees p hp)).mpr (htier hp)
  | commitDevice p handle footprint =>
    rw [hone p (f := fun r => r.promoteDevice handle footprint) rfl rfl,
      ArtifactRecord.promoteDevice_tierAgrees]
    rfl
  | _ =>
    refine ⟨fun _ => trivial, fun _ => ?_⟩
    apply exec_every h hl hagrees
    · intro p r r' hupd hr
      rcases hupd.tierAgrees hr with hafter | ⟨o, ho⟩ | hhost | ⟨handle, footprint, hdevice⟩
      · exact hafter
      · cases ho
      · cases hhost
      · cases hdevice
    · exact fun r hr => (Step.offers_tierAgrees hr).congr rfl rfl

/-! ## Every run -/

/-- **Tier and module agree.** In every interleaved run, a record has a module exactly when its tier
is `DeviceResident`, in every state between two sections, if and only if no section of the run
separates a tier from its module: no build marks as persisted a record that is on the device by then,
no promotion to host memory commits on such a record, and no loader returns a null module. -/
theorem tier_agrees_iff {env : Env} {store : FilePersistenceStore} {tr : List (Event Step Impl)}
    {pool : Pool Step Impl Answer} (h : CacheRuns env store tr pool) :
    ((∀ e ∈ tr, e.before.TierAgrees ∧ e.after.TierAgrees) ∧ pool.shared.TierAgrees) ↔
      ∀ e ∈ tr, e.label.keepsTiers e.before := by
  have hinit : (Impl.initial store).TierAgrees := Impl.initial_every _ store
  refine Runs.invariant_iff hinit h fun e he hagrees => ?_
  exact exec_tierAgrees (h.event_step e he) (runs_proper h e he) ((runs_sound h).1 e he).1 hagrees

/-- The sections that touch a tier but not the module behind it, or commit a null module. -/
def Step.separates : Step → Bool
  | .markPersisted _ | .commitHost _ => true
  | .commitDevice _ handle _ => handle.isNone
  | _ => false

theorem Step.keepsTiers_of_not_separates {s : Impl} {l : Step} (h : l.separates = false) :
    l.keepsTiers s := by
  cases l with
  | markPersisted o => cases h
  | commitHost p => cases h
  | commitDevice p handle footprint =>
    rintro - rfl
    cases h
  | _ => exact trivial

/-- An artifact put and loaded. -/
theorem tier_agrees_iff_sample : ∃ tr pool, CacheRuns stubEnv {} tr pool ∧
    (∀ e ∈ tr, e.label.keepsTiers e.before) ∧ pool.shared.TierAgrees ∧ 0 < pool.shared.nextRecord ∧
    (pool.shared.records 0).tier = .deviceResident := by
  have hplay : ∃ tr pool, play stubEnv {} [.start (.put sampleArtifact [1]), .step 0,
        .start (.load ⟨⟨1, 7⟩⟩), .step 1, .step 1, .step 1, .step 1, .step 1] = some (tr, pool) ∧
      (tr.all fun e => !e.label.separates) = true ∧ 0 < pool.shared.nextRecord ∧
      (pool.shared.records 0).tier = .deviceResident :=
    ⟨_, _, rfl, rfl, Nat.zero_lt_one, rfl⟩
  obtain ⟨tr, pool, hplay, hkinds, hlt, htier⟩ := hplay
  have hruns := CacheRuns.of_play hplay
  have hkeeps : ∀ e ∈ tr, e.label.keepsTiers e.before := by
    intro e he
    have hkind := List.all_eq_true.mp hkinds e he
    exact Step.keepsTiers_of_not_separates (by simpa using hkind)
  exact ⟨tr, pool, hruns, hkeeps, ((tier_agrees_iff hruns).mpr hkeeps).2, hlt, htier⟩

/-- **Tier and module can part.** An acquire into host memory has read the bytes; a load puts a module
on the device; the acquire commits, and the record is `HostResident` with a module. -/
theorem tier_parts : ∃ tr pool, CacheRuns stubEnv {} tr pool ∧ 0 < pool.shared.nextRecord ∧
    (pool.shared.records 0).tier = .hostResident ∧ (pool.shared.records 0).nativeHandle = some 0 := by
  have hput : CacheRuns stubEnv {} [⟨0, .put sampleArtifact [1], Impl.initial {}, putState⟩]
      ⟨putState, [.ret (.id ⟨⟨1, 7⟩⟩)]⟩ :=
    Runs.refl.complete (p := (Operation.put sampleArtifact [1]).prog stubEnv) ⟨_, rfl⟩ rfl
  have hlooked := lookupImpl_traced stubEnv 1 { key := ({} : KernelCompatibilityKey).finalize }
    (s := putState) rfl rfl
  simp only [KernelCompatibilityKey.finalize_finalize,
    putState_lookup (s := putState) rfl rfl rfl rfl {}] at hlooked
  have hfound := (hput.spawn (p := (Operation.acquire {}).prog stubEnv) ⟨_, rfl⟩).advance (i := 1)
    (by rw [← Prog.bind_assoc]; rfl) hlooked
  simp only [acquireDecided, ArtifactRecord.hitResult_isHit, if_true] at hfound
  -- the acquire finds the record and reads its tier and its bytes
  have hread := ((hfound.step (i := 1) rfl rfl).step (i := 1) rfl rfl).step (i := 1) rfl rfl
  -- a load runs up to its commit
  have hloaded := (((((hread.spawn (p := (Operation.load ⟨⟨1, 7⟩⟩).prog stubEnv) ⟨_, rfl⟩).step
    (i := 2) rfl rfl).step (i := 2) rfl rfl).step (i := 2) rfl rfl).step (i := 2) rfl rfl).step
    (i := 2) rfl rfl
  exact ⟨_, _, hloaded.step (i := 1) rfl rfl, Nat.zero_lt_one, rfl, rfl⟩

end KernelCache
