/-
# KernelCache.Draining — what the last release leaves on a record.

`on_lease_release` counts the lease down, retires the record if it is poisoned, and does nothing else.
Two things a drained record should not have any more are therefore still there.  The state: a lease
moves a record to `InUse`, and no section moves it back, although the whitelist has edges out
(`in_use_iff`).  The module: an invalidation leaves it to the last release to retire the device state,
and the release changes only the lifecycle state (`drained_iff`).

Both theorems are equivalences.  The property holds in every state of a run exactly when none of the
sections named beside it finds the record it acts on in the wrong condition.
-/
import KernelCache.Records
import KernelCache.Sequential

namespace KernelCache

open Foundation (Prog Runs Pool Event)

/-! ## In use -/

/-- A record in state `InUse` is leased. -/
def ArtifactRecord.UsedInUse (r : ArtifactRecord) : Prop := r.state = .inUse → 0 < r.leaseCount

/-- The section takes no last lease from a healthy record that is `InUse`. -/
def Step.keepsInUse (s : Impl) : Step → Prop
  | .onLeaseRelease p => p < s.nextRecord → (s.records p).state = .inUse →
      (s.records p).leaseCount ≤ 1 → (s.records p).invalidated = true ∨ (s.records p).corrupt = true
  | _ => True

namespace ArtifactState

/-- A move to a state other than `InUse` does not lead there. -/
theorem tryMove_ne_inUse {s t : ArtifactState} (ht : t ≠ .inUse) (h : s.tryMove t = .inUse) :
    s = .inUse := by
  rcases s.tryMove_eq_or t with heq | ⟨-, heq⟩
  · rw [← heq]
    exact h
  · exact absurd (heq.symm.trans h) ht

end ArtifactState

namespace ArtifactRecord

/-- A change that keeps the lease count and moves the state, if at all, to another one. -/
theorem UsedInUse.moved {r r' : ArtifactRecord} (h : r.UsedInUse) {t : ArtifactState}
    (ht : t ≠ .inUse) (hstate : r'.state = r.state ∨ r'.state = r.state.tryMove t)
    (hcount : r'.leaseCount = r.leaseCount) : r'.UsedInUse := by
  intro huse
  rw [hcount]
  apply h
  rcases hstate with heq | heq
  · rw [← heq]
    exact huse
  · exact ArtifactState.tryMove_ne_inUse ht (heq.symm.trans huse)

theorem UsedInUse.evictCommit {r : ArtifactRecord} (h : r.UsedInUse) :
    r.evictCommit.UsedInUse := by
  unfold ArtifactRecord.evictCommit
  split
  · exact h.moved (t := .evictedDevice) ArtifactState.noConfusion (.inr rfl) rfl
  · exact h.moved (t := .evictedHost) ArtifactState.noConfusion (.inr rfl) rfl
  · exact h.moved (t := .evictedHost) ArtifactState.noConfusion (.inl rfl) rfl

theorem released_usedInUse (r : ArtifactRecord) : r.released.UsedInUse ↔
    (r.state = .inUse → r.leaseCount ≤ 1 → r.invalidated = true ∨ r.corrupt = true) := by
  have hcount : r.released.leaseCount = r.leaseCount - 1 := rfl
  have hstate : r.released.state = if r.leaseCount - 1 == 0 && (r.invalidated || r.corrupt)
      then r.state.tryMove .retired else r.state := rfl
  unfold UsedInUse
  rw [hcount, hstate]
  constructor
  · intro h huse hlast
    by_contra hhealthy
    have hzero : ¬ ((r.leaseCount - 1 == 0 && (r.invalidated || r.corrupt)) = true) := by
      simp only [Bool.and_eq_true, Bool.or_eq_true]
      exact fun h => hhealthy h.2
    rw [if_neg hzero] at h
    have hpos := h huse
    omega
  · intro h huse
    split at huse
    · have hin := ArtifactState.tryMove_ne_inUse ArtifactState.noConfusion huse
      rw [hin] at huse
      cases huse
    · rename_i hkept
      by_contra hzero
      apply hkept
      have hflags := h huse (by omega)
      have hcount' : (r.leaseCount - 1 == 0) = true := beq_iff_eq.mpr (by omega)
      rw [hcount', Bool.true_and, Bool.or_eq_true]
      exact hflags

/-- The changes, a release aside, that keep a record in use only while it is leased. -/
theorem Updates.usedInUse {p : Nat} {l : Step} {r r' : ArtifactRecord} (h : Updates p r l r')
    (hr : r.UsedInUse) : r'.UsedInUse ∨ l = .onLeaseRelease p := by
  have hother : ∀ t : ArtifactState, t ≠ .inUse →
      r'.state = r.state ∨ r'.state = r.state.tryMove t → r'.leaseCount = r.leaseCount →
      r'.UsedInUse ∨ l = .onLeaseRelease p :=
    fun t ht hstate hcount => .inl (hr.moved ht hstate hcount)
  cases h with
  | released => exact .inr rfl
  | leased now pin hlease => exact .inl fun _ => Nat.succ_pos _
  | promoteDevice handle footprint =>
    exact hother .residentDevice ArtifactState.noConfusion (.inr rfl) rfl
  | promoteHost => exact hother .residentHost ArtifactState.noConfusion (.inr rfl) rfl
  | evictBegin id force => exact hother .evictionPending ArtifactState.noConfusion (.inr rfl) rfl
  | unloaded => exact hother .evictedDevice ArtifactState.noConfusion (.inr rfl) rfl
  | evictCommit => exact .inl hr.evictCommit
  | invalidate req =>
    refine hother .invalidated ArtifactState.noConfusion ?_ rfl
    unfold ArtifactRecord.invalidate
    dsimp only
    split
    · exact .inr rfl
    · exact .inl rfl
  | validatedBy res =>
    cases res with
    | error e => exact hother .corrupt ArtifactState.noConfusion (.inr rfl) rfl
    | ok vd =>
      by_cases hpassed : vd.allPassed = true
      · exact hother .valid ArtifactState.noConfusion (.inr (if_pos hpassed)) rfl
      · exact hother .corrupt ArtifactState.noConfusion (.inr (if_neg hpassed)) rfl
  | _ => exact hother .valid ArtifactState.noConfusion (.inl rfl) rfl

end ArtifactRecord

/-- No record starts out in use. -/
theorem Step.offers_usedInUse {env : Env} {s : Impl} {l : Step} {r : ArtifactRecord}
    (h : r ∈ l.offers env s) : r.state ≠ .inUse := by
  cases l with
  | publish fence o =>
    obtain rfl := List.mem_singleton.mp h
    exact ArtifactState.noConfusion
  | put desc bytes =>
    obtain rfl := List.mem_singleton.mp h
    exact ArtifactState.noConfusion
  | recoverInsert artifacts =>
    obtain ⟨a, -, rfl⟩ := List.mem_map.mp h
    exact ArtifactState.noConfusion
  | _ => cases h

/-- The sections of a release that count a lease down. -/
def Step.isRelease : Step → Bool
  | .onLeaseRelease _ => true
  | _ => false

theorem Step.keepsInUse_of_not_release {s : Impl} {l : Step} (h : l.isRelease = false) :
    l.keepsInUse s := by
  cases l with
  | onLeaseRelease p => cases h
  | _ => exact trivial

/-- **In use, one step.** -/
theorem exec_usedInUse {env : Env} {l : Step} {s s' : Impl} (h : exec env l s = some s')
    (hl : l.Proper) (hs : s.Every ArtifactRecord.UsedInUse) :
    s'.Every ArtifactRecord.UsedInUse ↔ l.keepsInUse s := by
  by_cases hrelease : ∃ p, l = .onLeaseRelease p
  · obtain ⟨p, rfl⟩ := hrelease
    rw [exec_every_rewritten h hs (p := p) rfl rfl, ArtifactRecord.released_usedInUse]
    exact Iff.rfl
  · have hkept : l.keepsInUse s := by
      apply Step.keepsInUse_of_not_release
      cases l with
      | onLeaseRelease p => exact absurd ⟨p, rfl⟩ hrelease
      | _ => rfl
    refine ⟨fun _ => hkept, fun _ => ?_⟩
    apply exec_every h hl hs
    · intro p r r' hupd hr
      exact (hupd.usedInUse hr).resolve_right fun heq => hrelease ⟨p, heq⟩
    · intro r hr huse
      exact absurd (show r.state = .inUse from huse) (Step.offers_usedInUse hr)

/-- **In use means leased.** In every interleaved run, every record in state `InUse` is leased, in
every state between two sections, if and only if no release takes the last lease from a record that is
`InUse` and neither invalidated nor corrupt. -/
theorem in_use_iff {env : Env} {store : FilePersistenceStore} {tr : List (Event Step Impl)}
    {pool : Pool Step Impl Answer} (h : CacheRuns env store tr pool) :
    ((∀ e ∈ tr, e.before.Every ArtifactRecord.UsedInUse ∧ e.after.Every ArtifactRecord.UsedInUse) ∧
      pool.shared.Every ArtifactRecord.UsedInUse) ↔ ∀ e ∈ tr, e.label.keepsInUse e.before := by
  refine Runs.invariant_iff (Impl.initial_every _ store) h fun e he hused => ?_
  exact exec_usedInUse (h.event_step e he) (runs_proper h e he) hused

/-- An artifact put and leased. -/
theorem in_use_iff_sample : ∃ tr pool, CacheRuns {} {} tr pool ∧
    (∀ e ∈ tr, e.label.keepsInUse e.before) ∧ pool.shared.Every ArtifactRecord.UsedInUse ∧
    0 < pool.shared.nextRecord ∧ (pool.shared.records 0).state = .inUse := by
  have hrun : ∃ lease, ((Operation.acquire {}).prog {}).traced (exec {}) 1 putState = some lease ∧
      (lease.1.all fun e => !e.label.isRelease) = true ∧ 0 < lease.2.2.nextRecord ∧
      (lease.2.2.records 0).state = .inUse := by
    have hfirst := acquireImpl_traced {} 1 {} defaultKey_wellFormed (s := putState) rfl
      (putState_lookup rfl rfl rfl rfl {})
    simp only [Operation.prog, Prog.bind_eq, Prog.traced_bind, hfirst]
    exact ⟨_, rfl, rfl, Nat.zero_lt_one, rfl⟩
  obtain ⟨⟨tr, a, s⟩, hlease, hother, hlt, hstate⟩ := hrun
  have hruns := putState_runs.complete ⟨_, rfl⟩ hlease
  have hkeeps : ∀ e ∈ ([⟨0, .put sampleArtifact [1], Impl.initial {}, putState⟩] ++ tr),
      e.label.keepsInUse e.before := by
    intro e he
    rcases List.mem_append.mp he with hput | hacquire
    · obtain rfl := List.mem_singleton.mp hput
      exact trivial
    · have hno := List.all_eq_true.mp hother e hacquire
      exact Step.keepsInUse_of_not_release (by simpa using hno)
  exact ⟨_, _, hruns, hkeeps, ((in_use_iff hruns).mpr hkeeps).2, hlt, hstate⟩

/-- **Left in use.** Put an artifact, lease it, release the lease: the record is still `InUse`. -/
theorem left_in_use : ∃ calls s, Sequence {} {} calls s ∧ calls.map Call.op =
      [.put sampleArtifact [1], .acquire {}, .release 0] ∧ 0 < s.nextRecord ∧
    (s.records 0).state = .inUse ∧ (s.records 0).leaseCount = 0 := by
  have hrun : ∃ lease, ((Operation.acquire {}).prog {}).run (exec {}) putState = some lease ∧
      ∃ freed, ((Operation.release 0).prog {}).run (exec {}) lease.2 = some freed ∧
        0 < freed.2.nextRecord ∧ (freed.2.records 0).state = .inUse ∧
        (freed.2.records 0).leaseCount = 0 := by
    have hfirst := acquireImpl_traced {} 1 {} defaultKey_wellFormed (s := putState) rfl
      (putState_lookup rfl rfl rfl rfl {})
    simp only [Operation.prog, Prog.bind_eq, Prog.run_eq_traced 1, Prog.traced_bind, hfirst]
    exact ⟨_, rfl, _, rfl, Nat.zero_lt_one, rfl, rfl⟩
  obtain ⟨lease, hlease, freed, hfreed, hlt, hstate, hcount⟩ := hrun
  exact ⟨_, _, (putState_sequence.call hlease).call hfreed, rfl, hlt, hstate, hcount⟩

/-! ## Unloaded -/

/-- A record without a device module. -/
structure ArtifactRecord.Unloaded (r : ArtifactRecord) : Prop where
  nativeHandle : r.nativeHandle = none
  deviceFootprint : r.deviceFootprint = 0
  tier : r.tier ≠ .deviceResident

/-- An invalidated record that is not leased is unloaded. -/
def ArtifactRecord.Drained (r : ArtifactRecord) : Prop :=
  r.invalidated = true → r.leaseCount = 0 → r.Unloaded

/-- The section leaves no device module behind on a record it invalidates, drains or promotes. -/
def Step.drains (s : Impl) : Step → Prop
  | .invalidate req => ∀ p < s.nextRecord,
      req.selects (s.records p).id (s.records p) = true → (s.records p).leaseCount = 0 →
        (s.records p).Unloaded
  | .onLeaseRelease p => p < s.nextRecord → (s.records p).invalidated = true →
      (s.records p).leaseCount ≤ 1 → (s.records p).Unloaded
  | .commitDevice p _ _ => p < s.nextRecord → (s.records p).invalidated = true →
      (s.records p).leaseCount ≠ 0
  | _ => True

namespace ArtifactRecord

/-- `Unloaded` reads three fields. -/
theorem Unloaded.congr {r r' : ArtifactRecord} (h : r.Unloaded)
    (hhandle : r'.nativeHandle = r.nativeHandle)
    (hfootprint : r'.deviceFootprint = r.deviceFootprint) (htier : r'.tier = r.tier) :
    r'.Unloaded where
  nativeHandle := hhandle.trans h.nativeHandle
  deviceFootprint := hfootprint.trans h.deviceFootprint
  tier := by
    rw [htier]
    exact h.tier

/-- `Drained` reads five fields. -/
theorem Drained.congr {r r' : ArtifactRecord} (h : r.Drained)
    (hinvalidated : r'.invalidated = r.invalidated) (hcount : r'.leaseCount = r.leaseCount)
    (hhandle : r'.nativeHandle = r.nativeHandle)
    (hfootprint : r'.deviceFootprint = r.deviceFootprint) (htier : r'.tier = r.tier) :
    r'.Drained := by
  intro hinv hzero
  rw [hinvalidated] at hinv
  rw [hcount] at hzero
  exact (h hinv hzero).congr hhandle hfootprint htier

theorem evictCommit_unloaded (r : ArtifactRecord) : r.evictCommit.Unloaded := by
  unfold evictCommit
  split <;> exact ⟨rfl, rfl, r.fallbackTier_ne.1⟩

theorem unloaded_unloaded (r : ArtifactRecord) : r.unloaded.Unloaded :=
  ⟨rfl, rfl, r.fallbackTier_ne.1⟩

theorem released_drained (r : ArtifactRecord) :
    r.released.Drained ↔ (r.invalidated = true → r.leaseCount ≤ 1 → r.Unloaded) := by
  constructor
  · intro h hinv hlast
    have hzero : r.released.leaseCount = 0 := by
      show r.leaseCount - 1 = 0
      omega
    exact (h hinv hzero).congr rfl rfl rfl
  · intro h hinv hzero
    have hlast : r.leaseCount - 1 = 0 := hzero
    exact (h hinv (by omega)).congr rfl rfl rfl

theorem promoteDevice_drained (r : ArtifactRecord) (handle : LoadedModuleHandle)
    (footprint : UInt64 × Bool) :
    (r.promoteDevice handle footprint).Drained ↔ (r.invalidated = true → r.leaseCount ≠ 0) :=
  ⟨fun h hinv hzero => (h hinv hzero).tier rfl, fun h hinv hzero => absurd hzero (h hinv)⟩

theorem struck_drained (r : ArtifactRecord) :
    r.struck.Drained ↔ (r.leaseCount = 0 → r.Unloaded) := by
  have hstruck : r.struck.invalidated = true ∧ r.struck.leaseCount = r.leaseCount ∧
      r.struck.nativeHandle = r.nativeHandle ∧ r.struck.deviceFootprint = r.deviceFootprint ∧
      r.struck.tier = r.tier := by
    unfold struck
    split
    · rename_i hinv
      exact ⟨hinv, rfl, rfl, rfl, rfl⟩
    · exact ⟨rfl, rfl, rfl, rfl, rfl⟩
  obtain ⟨hinv, hcount, hhandle, hfootprint, htier⟩ := hstruck
  constructor
  · intro h hzero
    exact (h hinv (hcount.trans hzero)).congr hhandle.symm hfootprint.symm htier.symm
  · intro h _ hzero
    exact (h (hcount.symm.trans hzero)).congr hhandle hfootprint htier

/-- The changes that leave no device module behind on an idle record. -/
theorem Updates.drained {p : Nat} {l : Step} {r r' : ArtifactRecord} (h : Updates p r l r')
    (hr : r.Drained) : r'.Drained ∨ (∃ req, l = .invalidate req) ∨ l = .onLeaseRelease p ∨
      ∃ handle footprint, l = .commitDevice p handle footprint := by
  cases h with
  | invalidate req => exact .inr (.inl ⟨req, rfl⟩)
  | released => exact .inr (.inr (.inl rfl))
  | promoteDevice handle footprint => exact .inr (.inr (.inr ⟨handle, footprint, rfl⟩))
  | evictCommit => exact .inl fun _ _ => r.evictCommit_unloaded
  | unloaded => exact .inl fun _ _ => r.unloaded_unloaded
  | leased now pin hlease => exact .inl fun _ hzero => absurd hzero (Nat.succ_ne_zero _)
  | persisted o =>
    refine .inl fun hinv hzero => ?_
    have hun := hr hinv hzero
    exact ⟨hun.nativeHandle, hun.deviceFootprint, ResidencyTier.noConfusion⟩
  | promoteHost =>
    refine .inl fun hinv hzero => ?_
    have hun := hr hinv hzero
    exact ⟨hun.nativeHandle, hun.deviceFootprint, ResidencyTier.noConfusion⟩
  | validatedBy res =>
    refine .inl ?_
    unfold ArtifactRecord.validatedBy
    split <;> exact hr.congr rfl rfl rfl rfl rfl
  | _ => exact .inl (hr.congr rfl rfl rfl rfl rfl)

end ArtifactRecord

/-- No record starts out invalidated. -/
theorem Step.offers_drained {env : Env} {s : Impl} {l : Step} {r : ArtifactRecord}
    (h : r ∈ l.offers env s) : r.Drained := by
  have hfresh : r.invalidated = false := by
    cases l with
    | publish fence o =>
      obtain rfl := List.mem_singleton.mp h
      rfl
    | put desc bytes =>
      obtain rfl := List.mem_singleton.mp h
      rfl
    | recoverInsert artifacts =>
      obtain ⟨a, -, rfl⟩ := List.mem_map.mp h
      rfl
    | _ => cases h
  intro hinv
  rw [hfresh] at hinv
  cases hinv

/-- **Drained, one step.** -/
theorem exec_drained {env : Env} {l : Step} {s s' : Impl} (h : exec env l s = some s')
    (hl : l.Proper) (hs : s.Sound) (hdrained : s.Every ArtifactRecord.Drained) :
    s'.Every ArtifactRecord.Drained ↔ l.drains s := by
  cases l with
  | invalidate req =>
    rw [exec_every_invalidate h hs hdrained]
    simp only [ArtifactRecord.struck_drained]
    exact Iff.rfl
  | onLeaseRelease p =>
    rw [exec_every_rewritten h hdrained (p := p) rfl rfl, ArtifactRecord.released_drained]
    exact Iff.rfl
  | commitDevice p handle footprint =>
    rw [exec_every_rewritten h hdrained (p := p)
      (f := fun r => r.promoteDevice handle footprint) rfl rfl,
      ArtifactRecord.promoteDevice_drained]
    exact Iff.rfl
  | _ =>
    refine ⟨fun _ => trivial, fun _ => ?_⟩
    apply exec_every h hl hdrained
    · intro p r r' hupd hr
      rcases hupd.drained hr with hafter | ⟨req, hreq⟩ | hrelease | ⟨handle, footprint, hdevice⟩
      · exact hafter
      · cases hreq
      · cases hrelease
      · cases hdevice
    · exact fun r hr => (Step.offers_drained hr).congr rfl rfl rfl rfl rfl

/-- **Drained means unloaded.** In every interleaved run, every invalidated record without leases has
no device module, in every state between two sections, if and only if no invalidation selects an idle
record that is loaded, no release takes the last lease from an invalidated record that is loaded, and
no module is committed to an invalidated record without leases. -/
theorem drained_iff {env : Env} {store : FilePersistenceStore} {tr : List (Event Step Impl)}
    {pool : Pool Step Impl Answer} (h : CacheRuns env store tr pool) :
    ((∀ e ∈ tr, e.before.Every ArtifactRecord.Drained ∧ e.after.Every ArtifactRecord.Drained) ∧
      pool.shared.Every ArtifactRecord.Drained) ↔ ∀ e ∈ tr, e.label.drains e.before := by
  refine Runs.invariant_iff (Impl.initial_every _ store) h fun e he hdrained => ?_
  exact exec_drained (h.event_step e he) (runs_proper h e he) ((runs_sound h).1 e he).1 hdrained

/-- An artifact put and invalidated before anything has loaded it. -/
theorem drained_iff_sample : ∃ tr pool, CacheRuns stubEnv {} tr pool ∧
    (∀ e ∈ tr, e.label.drains e.before) ∧ pool.shared.Every ArtifactRecord.Drained ∧
    0 < pool.shared.nextRecord ∧ (pool.shared.records 0).invalidated = true := by
  have hplay : ∃ s₁ s₂ s₃, play stubEnv {} [.start (.put sampleArtifact [1]), .step 0,
        .start (.invalidate { target := .all }), .step 1, .step 1] =
          some ([⟨0, .put sampleArtifact [1], Impl.initial {}, s₁⟩,
            ⟨1, .invalidate { target := .all }, s₁, s₂⟩, ⟨1, .recordEvent, s₂, s₃⟩],
            ⟨s₃, [.ret (.id ⟨⟨1, 7⟩⟩), .ret (.outcomes _)]⟩) ∧ s₁.nextRecord = 1 ∧
      (s₁.records 0).Unloaded ∧ 0 < s₃.nextRecord ∧ (s₃.records 0).invalidated = true :=
    ⟨_, _, _, rfl, rfl, ⟨rfl, rfl, ResidencyTier.noConfusion⟩, Nat.zero_lt_one, rfl⟩
  obtain ⟨s₁, s₂, s₃, hplay, hone, hunloaded, hlt, hinv⟩ := hplay
  have hruns := CacheRuns.of_play hplay
  have hdrains : ∀ e ∈ ([⟨0, .put sampleArtifact [1], Impl.initial {}, s₁⟩,
      ⟨1, .invalidate { target := .all }, s₁, s₂⟩, ⟨1, .recordEvent, s₂, s₃⟩] :
        List (Event Step Impl)), e.label.drains e.before := by
    simp only [List.mem_cons, List.not_mem_nil, or_false, forall_eq_or_imp, forall_eq]
    refine ⟨trivial, ?_, trivial⟩
    intro p hp _ _
    have hp' : p < s₁.nextRecord := hp
    obtain rfl : p = 0 := by omega
    exact hunloaded
  exact ⟨_, _, hruns, hdrains, ((drained_iff hruns).mpr hdrains).2, hlt, hinv⟩

/-- The stub backend, with room for one round of the device budget. -/
def oneRoundEnv : Env := { stubEnv with loopBound := 1 }

/-- **Drained but loaded.** Put an artifact, load it, invalidate it: no lease was ever taken, and the
record keeps its module, its footprint and its tier. -/
theorem drained_loaded : ∃ calls s, Sequence oneRoundEnv {} calls s ∧ calls.map Call.op =
      [.put sampleArtifact [1], .load ⟨⟨1, 7⟩⟩, .invalidate { target := .all }] ∧
    0 < s.nextRecord ∧ (s.records 0).invalidated = true ∧ (s.records 0).leaseCount = 0 ∧
    (s.records 0).nativeHandle = some 0 ∧ (s.records 0).deviceFootprint = 1 ∧
    (s.records 0).tier = .deviceResident := by
  have hrun : ∃ loaded, ((Operation.load ⟨⟨1, 7⟩⟩).prog oneRoundEnv).run (exec oneRoundEnv) putState =
        some loaded ∧
      ∃ struck, ((Operation.invalidate { target := .all }).prog oneRoundEnv).run (exec oneRoundEnv)
          loaded.2 = some struck ∧
        0 < struck.2.nextRecord ∧ (struck.2.records 0).invalidated = true ∧
        (struck.2.records 0).leaseCount = 0 ∧ (struck.2.records 0).nativeHandle = some 0 ∧
        (struck.2.records 0).deviceFootprint = 1 ∧
        (struck.2.records 0).tier = .deviceResident :=
    ⟨_, rfl, _, rfl, Nat.zero_lt_one, rfl, rfl, rfl, rfl, rfl⟩
  obtain ⟨loaded, hload, struck, hstrike, hrecord⟩ := hrun
  have hput : Sequence oneRoundEnv {}
      [⟨.put sampleArtifact [1], Impl.initial {}, .id ⟨⟨1, 7⟩⟩, putState⟩] putState :=
    .call .fresh rfl
  exact ⟨_, _, (hput.call hload).call hstrike, rfl, hrecord⟩

end KernelCache
