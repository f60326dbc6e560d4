/-
# KernelCache.LastCopy — the bytes of a record a lookup can return.

Eviction frees the host bytes of a record and keeps the record in the index.  A record without bytes
is harmless when no lookup returns it any more or when the store has a copy.  Eviction relies on the
first: it moves the record to `EvictedHost`.  From `InUse`, the state a record is left in when its
last lease is released, there is no such move, so the record stays eligible without bytes, and
without a persistent store nothing brings them back.

`Impl.HasCopy` is the invariant.  It holds of every artifact published by a build, on every run that
publishes no empty artifact, frees no bytes of an `InUse` record whose stored copy cannot be read,
and damages no stored copy the record depends on (`runs_hasCopy`).
-/
import KernelCache.LeaseSafety

namespace KernelCache

open Foundation (Bytes Prog Runs Pool Event)
open Foundation.Prog (sect perform)

/-! ## Copies -/

/-- `ensure_bytes` can reload the record's bytes. -/
def Impl.Reloadable (env : Env) (s : Impl) (p : Nat) : Prop :=
  env.cfg.persistenceOpen = true ∧ ∃ a, s.store.get (s.records p).id = .ok a

/-- The record has its bytes or can reload them. -/
def Impl.HasCopy (env : Env) (s : Impl) (p : Nat) : Prop :=
  (s.records p).bytes ≠ [] ∨ s.Reloadable env p

/-- The section loses no copy a record depends on: what is published is not empty, a record that
stays `InUse` gives up its bytes only when they can be reloaded, and a store write for a record that
has given up its bytes leaves a readable copy. -/
def Step.keepsCopies (env : Env) (s : Impl) : Step → Prop
  | .publish _ o => o.bytes ≠ []
  | .evictCommit p => (s.records p).state = .inUse → (s.records p).leasable = true →
      (s.records p).tier = .hostResident → s.Reloadable env p
  | .persist o => ∀ p, s.byId.lookup o.id = some p → (s.records p).bytes = [] →
      ∃ a, (s.persist env o).2.store.get o.id = .ok a
  | _ => True

/-! ## Steps -/

/-- What a step leaves of a stored copy. -/
theorem exec_reloadable {env : Env} {l : Step} {s s' : Impl} {p : Nat}
    (h : exec env l s = some s') (hl : l.Proper) (hs : s.Sound) (hkeeps : l.keepsCopies env s)
    (hp : p < s.nextRecord) (hbytes : (s.records p).bytes = []) (hr : s.Reloadable env p) :
    s'.Reloadable env p := by
  obtain ⟨hopen, a, ha⟩ := hr
  refine ⟨hopen, ?_⟩
  rw [(exec_evolves h hl hp).id_eq]
  by_cases hstore : l.isStore = false
  · rw [exec_store h hl hstore]
    exact ⟨a, ha⟩
  · obtain ⟨-, rfl⟩ := exec_eq_some.mp h
    cases l with
    | persist o =>
      by_cases hid : (s.records p).id = o.desc.id
      · have hbound : s.byId.lookup o.id = some p := by
          rw [← hl.2, ← hid]
          exact hs.indexed p hp
        rw [hid, hl.2]
        exact hkeeps p hbound hbytes
      · refine ⟨a, ?_⟩
        show (s.persist env o).2.store.get (s.records p).id = .ok a
        rw [← ha]
        exact FilePersistenceStore.get_put_of_ne (a := Impl.storedArtifact (env.now s.tick) o)
          _ hid s.store
    | recoverRead => exact ⟨a, ha⟩
    | _ => exact absurd rfl hstore

/-- What an eviction knows about its record: no lease can be granted any more, or it is in use. -/
def EvictsSettled (p : Nat) (s : Impl) : Prop :=
  p < s.nextRecord ∧ ((s.records p).state.isSpent = true ∨ (s.records p).state = .inUse)

theorem exec_settled {env : Env} {l : Step} {s s' : Impl} {p : Nat} (h : exec env l s = some s')
    (hl : l.Proper) (hp : EvictsSettled p s) : EvictsSettled p s' := by
  have hev := exec_evolves h hl hp.1
  refine ⟨lt_of_lt_of_le hp.1 (exec_extends h hl).next_le, ?_⟩
  rcases hp.2 with hspent | huse
  · exact .inl (hev.spent hspent)
  · rcases hev.state_eq_or with heq | ⟨hcan, htarget⟩
    · exact .inr (heq.trans huse)
    · -- from `InUse` the cache moves a record to a poisoned state only
      rw [huse] at hcan
      have hall : ∀ t : ArtifactState, canTransition .inUse t = true → t.isTarget = true →
          t.isSpent = true := by
        intro t
        cases t <;> decide
      exact .inl (hall _ hcan htarget)

theorem exec_evictBegin_settled {env : Env} {s s' : Impl} {id : ArtifactId} {force : Bool} {p : Nat}
    (h : exec env (.evictBegin id force) s = some s') (hs : s.Sound)
    (hp : (s.evictBegin id force).1 = .ok p) : EvictsSettled p s' := by
  obtain ⟨hlt, hnext, hrec⟩ := exec_evictBegin_ok h hs hp
  refine ⟨by omega, ?_⟩
  rw [hrec]
  by_cases huse : (s.records p).state = .inUse
  · right
    show (s.records p).state.tryMove .evictionPending = .inUse
    rw [huse]
    rfl
  · exact .inl (ArtifactState.spent_of_evictionPending (hs.visited p hlt) huse)

/-- **Copies, one step.** -/
theorem exec_hasCopy {env : Env} {l : Step} {s s' : Impl} {p : Nat} (h : exec env l s = some s')
    (hl : l.Proper) (hs : s.Sound) (hkeeps : l.keepsCopies env s)
    (hevicts : l.EvictsWith EvictsSettled s) (hp : p < s.nextRecord)
    (hcopy : (s.records p).leasable = true → s.HasCopy env p)
    (hleasable : (s'.records p).leasable = true) : s'.HasCopy env p := by
  have hev := exec_evolves h hl hp
  have hbefore := hev.leasable (hs.visited p hp) hleasable
  rcases exec_bytes h hl hp with hsame | hstored | ⟨rfl, htier, -⟩
  · by_cases hempty : (s.records p).bytes = []
    · rcases hcopy hbefore with hne | hreload
      · exact absurd hempty hne
      · exact .inr (exec_reloadable h hl hs hkeeps hp hempty hreload)
    · exact .inl (hsame ▸ hempty)
  · rw [hstored] at hl
    exact .inl hl
  · rcases hevicts.2 with hspent | huse
    · have hno := ArtifactState.not_eligible_of_spent (hev.spent hspent)
      simp [ArtifactRecord.leasable, hno] at hleasable
    · obtain ⟨hopen, a, ha⟩ := hkeeps huse hbefore htier
      refine .inr ⟨hopen, a, ?_⟩
      rw [hev.id_eq, exec_store h hl rfl]
      exact ha

/-! ## Runs -/

/-- The section publishes a new record, behind the pointer `p`. -/
def PublishesNew (e : Event Step Impl) (p : Nat) : Prop :=
  ∃ fence o, e.label = .publish fence o ∧ e.before.byId.lookup o.id = none ∧
    e.after.byId.lookup o.id = some p

theorem runs_settled {env : Env} {store : FilePersistenceStore} {tr : List (Event Step Impl)}
    {pool : Pool Step Impl Answer} (h : CacheRuns env store tr pool) :
    ∀ e ∈ tr, e.label.EvictsWith EvictsSettled e.before := by
  refine runs_evictions (C := fun l s _ => l.Proper ∧ s.Sound) ?_ ?_ h fun e he => ?_
  · exact fun p l s s' hp hstep hC => exec_settled hstep hC.1 hp
  · exact fun id force s s' p hstep hC hp => exec_evictBegin_settled hstep hC.2 hp
  · exact ⟨runs_proper h e he, ((runs_sound h).1 e he).1⟩

/-- **Copies, every run.** -/
theorem runs_hasCopy {env : Env} {store : FilePersistenceStore} {tr : List (Event Step Impl)}
    {pool : Pool Step Impl Answer} (h : CacheRuns env store tr pool)
    (hkeeps : ∀ e ∈ tr, e.label.keepsCopies env e.before) {e : Event Step Impl} (he : e ∈ tr)
    {p : Nat} (hnew : PublishesNew e p) :
    p < pool.shared.nextRecord ∧
      ((pool.shared.records p).leasable = true → pool.shared.HasCopy env p) := by
  obtain ⟨fence, o, hlabel, hfree, hbound⟩ := hnew
  obtain ⟨tr₁, tr₂, rfl⟩ := List.append_of_mem he
  obtain ⟨-, ts, hupto, hfrom⟩ := h.cut rfl
  have hproper : ∀ e' ∈ tr₁ ++ e :: tr₂, e'.label.Proper := runs_proper h
  -- the record starts with its bytes
  have hstart : p < e.after.nextRecord ∧
      ((e.after.records p).leasable = true → e.after.HasCopy env p) := by
    have hstep := h.event_step e he
    have hpub := hproper e he
    have hbytes := hkeeps e he
    rw [hlabel] at hstep hpub hbytes
    obtain ⟨hnext, hbound', hrec⟩ := exec_publish_new hstep hpub.2 hfree
    have hp : p = e.before.nextRecord := Option.some.inj (hbound.symm.trans hbound')
    subst hp
    refine ⟨Nat.lt_of_lt_of_eq (Nat.lt_succ_self _) hnext.symm, fun _ => .inl ?_⟩
    rw [hrec]
    exact hbytes
  -- and every later section keeps a copy
  refine (Runs.invariant (I := fun s => p < s.nextRecord ∧
    ((s.records p).leasable = true → s.HasCopy env p)) hstart hfrom fun e' he' hI => ?_).2
  have hmem : e' ∈ tr₁ ++ e :: tr₂ := List.mem_append_right _ (List.mem_cons_of_mem _ he')
  have hstep := h.event_step e' hmem
  refine ⟨lt_of_lt_of_le hI.1 (exec_extends hstep (hproper e' hmem)).next_le, ?_⟩
  exact exec_hasCopy hstep (hproper e' hmem) ((runs_sound h).1 e' hmem).1 (hkeeps e' hmem)
    (runs_settled h e' hmem) hI.1 hI.2

/-! ## Acquire -/

/-- The failure of `ensure_bytes` without a copy. -/
def bytesAbsent : Failure :=
  .error .notFound (str "bytes absent and no persistence to reload from")

/-- Some loader answers with this failure. -/
def LoaderSays (env : Env) (e : Failure) : Prop :=
  ∃ b ∈ env.backends, ∃ loader, b.loader = some loader ∧
    ∃ t key bytes device, loader.load t key bytes device = .error e

/-- `ensure_bytes` alone, with a copy at hand. -/
theorem ensureBytes_run {env : Env} {p : Nat} {s s' : Impl} {res : Result Bytes}
    (hcopy : s.HasCopy env p) (h : (ensureBytes env p).run (exec env) s = some (res, s')) :
    ∃ bytes, res = .ok bytes := by
  unfold ensureBytes at h
  rw [Prog.bind_eq, Prog.run_of_bind] at h
  obtain ⟨bytes, s₁, hread, h⟩ := h
  obtain ⟨hstep, rfl⟩ := Prog.run_sect.mp hread
  obtain ⟨-, rfl⟩ := exec_eq_some.mp hstep
  split at h
  · simp only [Prog.pure_eq, Prog.run_ret, Option.some.injEq, Prod.mk.injEq] at h
    exact ⟨_, h.1.symm⟩
  · rename_i hempty
    have hnil : (s.records p).bytes = [] := by simpa using hempty
    rcases hcopy with hne | ⟨hopen, a, ha⟩
    · exact absurd hnil hne
    · rw [if_pos hopen, Prog.bind_eq, Prog.run_of_bind] at h
      obtain ⟨got, s₂, hreload, h⟩ := h
      have hgot : got = .ok a := (Prog.run_sect.mp hreload).2.trans ha
      rw [hgot] at h
      dsimp only at h
      rw [Prog.bind_eq, Prog.run_of_bind] at h
      obtain ⟨_, s₃, -, h⟩ := h
      simp only [Prog.pure_eq, Prog.run_ret, Option.some.injEq, Prod.mk.injEq] at h
      exact ⟨_, h.1.symm⟩

/-- A budget loop fails only by an exception. -/
theorem evictRounds_error {env : Env} {tier : ResidencyTier} {n : Nat} {s s' : Impl} {e : Failure}
    (h : (evictRounds env tier n).run (exec env) s = some (.error e, s')) : e = .exception := by
  induction n generalizing s with
  | zero =>
    unfold evictRounds at h
    rw [Prog.bind_eq, Prog.run_of_bind] at h
    obtain ⟨_, s₁, hblocked, -⟩ := h
    obtain ⟨hready, -⟩ := exec_eq_some.mp (Prog.run_perform.mp hblocked)
    cases hready
  | succ n ih =>
    unfold evictRounds at h
    rw [Prog.bind_eq, Prog.run_of_bind] at h
    obtain ⟨victim, s₁, -, h⟩ := h
    cases victim with
    | none =>
      simp only [Prog.pure_eq, Prog.run_ret, Option.some.injEq, Prod.mk.injEq] at h
      cases h.1
    | some id =>
      dsimp only at h
      rw [Prog.bind_eq, Prog.run_of_bind] at h
      obtain ⟨res, s₂, -, h⟩ := h
      split at h
      · -- an exception of a loader passes through
        simp only [Prog.pure_eq, Prog.run_ret, Option.some.injEq, Prod.mk.injEq] at h
        exact (Except.error.inj h.1).symm
      · exact ih h

theorem evictToFit_error {env : Env} {tier : ResidencyTier} {s s' : Impl} {e : Failure}
    (h : (evictToFit env tier).run (exec env) s = some (.error e, s')) : e = .exception := by
  unfold evictToFit at h
  dsimp only at h
  generalize (if tier == .deviceResident then env.cfg.residency.applyDeviceBudget
    else env.cfg.residency.applyHostBudget) = apply at h
  cases apply with
  | false => cases h
  | true => exact evictRounds_error h

/-- With a copy at hand, a promotion fails for want of bytes only if a loader says so. -/
theorem promoteToTier_error {env : Env} {p : Nat} {desired : ResidencyTier}
    {device : DeviceDescriptor} {s s' : Impl} {e : Failure} (hcopy : s.HasCopy env p)
    (h : (promoteToTier env p desired device).run (exec env) s = some (.error e, s')) :
    e ≠ bytesAbsent ∨ LoaderSays env e := by
  unfold promoteToTier at h
  split at h
  · cases h
  rw [Prog.bind_eq, Prog.run_of_bind] at h
  obtain ⟨current, s₁, hread, h⟩ := h
  have hcopy₁ : s₁.HasCopy env p := by
    obtain ⟨-, rfl⟩ := exec_eq_some.mp (Prog.run_sect.mp hread).1
    exact hcopy
  split at h
  · cases h
  cases desired with
  | deviceResident =>
    unfold promoteToDevice at h
    rw [Prog.bind_eq, Prog.run_of_bind] at h
    obtain ⟨bytes, s₂, hbytes, h⟩ := h
    obtain ⟨b, rfl⟩ := ensureBytes_run hcopy₁ hbytes
    dsimp only at h
    rw [Prog.bind_eq, Prog.run_of_bind] at h
    obtain ⟨loaded, s₃, hload, h⟩ := h
    obtain ⟨-, hloaded⟩ := Prog.run_sect.mp hload
    cases loaded with
    | error e' =>
      simp only [Prog.pure_eq, Prog.run_ret, Option.some.injEq, Prod.mk.injEq] at h
      cases h.1
      unfold Impl.loadModule at hloaded
      split at hloaded
      · cases hloaded
        exact .inl (by decide)
      · rename_i loader hloader
        split at hloaded
        · rename_i e'' he''
          cases hloaded
          obtain ⟨backend, hbackend, hb⟩ := Option.bind_eq_some_iff.mp hloader
          exact .inr ⟨backend, findBackend_mem hbackend, loader, hb, _, _, _, _, he''⟩
        · cases hloaded
    | ok out =>
      dsimp only at h
      rw [Prog.bind_eq, Prog.run_of_bind] at h
      obtain ⟨_, s₄, -, h⟩ := h
      rw [Prog.bind_eq, Prog.run_of_bind] at h
      obtain ⟨_, s₅, -, h⟩ := h
      rw [evictToFit_error h]
      exact .inl (by decide)
  | hostResident =>
    unfold promoteToHost at h
    rw [Prog.bind_eq, Prog.run_of_bind] at h
    obtain ⟨bytes, s₂, hbytes, h⟩ := h
    obtain ⟨b, rfl⟩ := ensureBytes_run hcopy₁ hbytes
    dsimp only at h
    rw [Prog.bind_eq, Prog.run_of_bind] at h
    obtain ⟨_, s₃, -, h⟩ := h
    cases h
  | none => cases h
  | metadataOnly => cases h
  | persistentStorage => cases h

/-- An acquire that finds a record with a copy does not fail for want of bytes. -/
theorem acquire_error {env : Env} {request : KernelLookupRequest} {s s' : Impl} {e : Failure}
    {id : ArtifactId} {p : Nat} (hbound : s.byId.lookup id = some p) (hcopy : s.HasCopy env p)
    (hhit : (s.lookup request.key.finalize request.policy).artifact = some id)
    (h : (acquireImpl env request).run (exec env) s = some (.error e, s')) :
    e ≠ bytesAbsent ∨ LoaderSays env e := by
  rcases acquireImpl_run h with ⟨-, hres, -⟩ | ⟨-, -, hdecided⟩
  · cases hres
    exact .inl (by decide)
  generalize hr : s.lookup request.key.finalize request.policy = r at hhit hdecided
  have hisHit : r.outcome.isHit = true := by
    rw [← hr] at hhit ⊢
    exact Impl.lookup_isHit.mpr ⟨id, hhit⟩
  simp only [acquireDecided, hisHit, if_true, hhit, Option.getD_some] at hdecided
  unfold leaseRecord at hdecided
  rw [Prog.bind_eq, Prog.run_of_bind] at hdecided
  obtain ⟨found, s₁, hfind, hdecided⟩ := hdecided
  obtain ⟨hstep, hfound⟩ := Prog.run_sect.mp hfind
  have hcopy₁ : s₁.HasCopy env p := by
    obtain ⟨-, rfl⟩ := exec_eq_some.mp hstep
    exact hcopy
  rw [hfound.trans hbound] at hdecided
  dsimp only at hdecided
  rw [Prog.bind_eq, Prog.run_of_bind] at hdecided
  obtain ⟨promoted, s₂, hpromote, hdecided⟩ := hdecided
  cases promoted with
  | error e' =>
    simp only [Prog.pure_eq, Prog.run_ret, Option.some.injEq, Prod.mk.injEq] at hdecided
    cases hdecided.1
    exact promoteToTier_error hcopy₁ hpromote
  | ok _ =>
    obtain ⟨-, hlease⟩ := Prog.run_sect.mp hdecided
    unfold Impl.grantLease at hlease
    dsimp only at hlease
    split at hlease
    · cases hlease
    · cases hlease
      exact .inl (by decide)

/-- **Eviction keeps the last copy.** On every run that loses no copy a record depends on, an
artifact published by a build has its bytes or can reload them as long as a lookup can return it, and
no acquire that finds it fails for want of bytes. -/
theorem last_copy_kept {env : Env} {store : FilePersistenceStore} {tr : List (Event Step Impl)}
    {pool : Pool Step Impl Answer} (h : CacheRuns env store tr pool)
    (hkeeps : ∀ e ∈ tr, e.label.keepsCopies env e.before) {e : Event Step Impl} (he : e ∈ tr)
    {p : Nat} (hnew : PublishesNew e p) :
    ((pool.shared.snapshotOf p).healthy = true → pool.shared.HasCopy env p) ∧
    ∀ request res s',
      (pool.shared.lookup request.key.finalize request.policy).artifact =
        some (pool.shared.records p).id →
      ((Operation.acquire request).prog env).run (exec env) pool.shared = some (res, s') →
      res = .failed bytesAbsent → LoaderSays env bytesAbsent := by
  obtain ⟨hlt, hcopy⟩ := runs_hasCopy h hkeeps he hnew
  have hsound := (runs_sound h).2
  refine ⟨fun hhealthy => hcopy ?_, fun request res s' hhit hrun hres => ?_⟩
  · simp only [Impl.CandidateSnapshot.healthy, Impl.snapshotOf, Bool.and_eq_true] at hhealthy
    simp only [ArtifactRecord.leasable, Bool.and_eq_true]
    exact ⟨hhealthy.1.1, hhealthy.2⟩
  · subst hres
    obtain ⟨q, hq⟩ := hsound.hit hhit
    have hqp : q = p := Option.some.inj (hq.bound.symm.trans (hsound.indexed p hlt))
    subst hqp
    rw [Operation.prog, Prog.bind_eq, Prog.run_of_bind] at hrun
    obtain ⟨res, s'', hacquire, hret⟩ := hrun
    cases res with
    | ok lease => cases hret
    | error e' =>
      cases hret
      exact (acquire_error hq.bound (hcopy hq.leasable) hhit hacquire).resolve_left (fun h => h rfl)

/-! ## One artifact built -/

/-- The first build of the stub backend. -/
def stubOutcome : Outcome :=
  match runBuild stubEnv 1 (buildRequestOf stubEnv {}) 0 with
  | .ok o => o
  | .error _ => default

/-- A fresh cache of the stub backend after one build: the artifact has its byte and is alone. -/
theorem stub_built : ∃ tr s, CacheRuns stubEnv {} tr ⟨s, [.ret (.descriptor stubOutcome.desc)]⟩ ∧
    (∃ e ∈ tr, PublishesNew e 0) ∧ (∀ e ∈ tr, e.label.keepsCopies stubEnv e.before) ∧
    (∀ e ∈ tr, e.label.ofBuild (Impl.initial {}) stubOutcome e.before) ∧
    s.inFlight.lookup ({} : KernelCompatibilityKey).finalize.digest = none ∧
    ∃ r, s.HoldsOne stubOutcome.id r ∧ r.id = stubOutcome.id ∧
      r.key = ({} : KernelCompatibilityKey).finalize ∧ r.validated = true ∧ r.bytes = [1] ∧
      r.state = .valid ∧ r.tier = .metadataOnly ∧ r.invalidated = false ∧ r.corrupt = false ∧
      r.leaseCount = 0 ∧ r.pinCount = 0 ∧ r.nativeHandle = none ∧ r.persistent = false := by
  have hout : runBuild stubEnv 1 (buildRequestOf stubEnv {}) 0 = .ok stubOutcome := rfl
  have hkey : stubOutcome.desc.key.ensureFinalized = ({} : KernelCompatibilityKey).finalize := by
    rw [(runBuild_built hout rfl).desc_key, KernelCompatibilityKey.ensureFinalized_finalize]
    exact KernelCompatibilityKey.finalize_finalize _
  obtain ⟨tr, s, hbuild, ⟨e, he, hlabel, hbefore, hafter⟩, -, hother, s₁, hsame, -, hfree, -, hland,
      t, hs⟩ :=
    buildImpl_traced_of_new {} 0 (s := Impl.initial {}) rfl
      (Impl.initial_fencesIdle {}) (AList.lookup_empty _) hout rfl (AList.lookup_empty _) rfl
  have hnext : s₁.nextRecord = 0 := hsame.nextRecord
  have hbound : s.byId.lookup stubOutcome.id = some 0 := by
    rw [hs, ← hnext]
    exact AList.lookup_insert _
  refine ⟨tr, s, Runs.refl.complete ⟨_, rfl⟩ (build_traced hbuild),
    ⟨e, he, _, _, hlabel, ?_, hafter ▸ hbound⟩, ?_, hother, ?_, _, ⟨rfl, hbound, ?_, ?_⟩, ?_⟩
  · rw [hbefore]
    exact AList.lookup_empty _
  · intro e' he'
    have hlabel := hother e' he'
    generalize e'.label = l at hlabel
    cases l with
    | publish fence o =>
      rw [hlabel.1]
      exact List.cons_ne_nil _ _
    | evictCommit q => exact hlabel.elim
    | persist o => exact hlabel.elim
    | _ => exact trivial
  · have hdigest : buildDigest stubEnv {} = ({} : KernelCompatibilityKey).finalize.digest := by
      simp only [buildDigest, buildRequestOf, KernelCompatibilityKey.ensureFinalized_finalize]
    rw [← hdigest, hs]
    exact hland
  · have hempty : s₁.byKey.lookup stubOutcome.desc.key.ensureFinalized.digest = none := by
      rw [hsame.byKey]
      exact AList.lookup_empty _
    have hadded : s.byKey.lookup stubOutcome.desc.key.ensureFinalized.digest =
        some ((s₁.byKey.lookup stubOutcome.desc.key.ensureFinalized.digest).getD [] ++
          [stubOutcome.desc.id]) := by
      rw [hs]
      exact AList.lookup_insert _
    rw [← hkey, hadded, hempty]
    rfl
  · rw [hs]
    exact hfree
  · have hrec : s.records 0 = { makeRecord (stubEnv.now s₁.tick) stubOutcome.desc [1] with
        key := stubOutcome.desc.key.ensureFinalized } := by
      rw [hs, ← hnext]
      exact Function.update_self ..
    rw [hrec]
    exact ⟨rfl, hkey, rfl, rfl, rfl, rfl, rfl, rfl, rfl, rfl, rfl, rfl⟩

/-- A section that moves no copy keeps the copies. -/
theorem Step.keepsCopies_of {env : Env} {s : Impl} {l : Step} (h : l.movesCopies = false) :
    l.keepsCopies env s := by
  cases l with
  | publish fence o => cases h
  | evictCommit p => cases h
  | persist o => cases h
  | _ => exact trivial

/-- A valid record that is leased where it is, released and evicted can still be leased, and has its
bytes: nothing of it was in host memory. -/
theorem ArtifactRecord.evicted_inPlace {r : ArtifactRecord} (now : UInt64) (hstate : r.state = .valid)
    (htier : r.tier = .metadataOnly) (hinv : r.invalidated = false) (hcor : r.corrupt = false)
    (hleases : r.leaseCount = 0) :
    ∃ r', (r.leased now false).released.evictBegin.evictCommit = r' ∧ r'.id = r.id ∧
      r'.key = r.key ∧ r'.validated = r.validated ∧ r'.leasable = true ∧ r'.bytes = r.bytes := by
  simp only [leased, released, evictBegin, evictCommit, leasable, hstate, htier, hinv, hcor, hleases]
  refine ⟨_, rfl, rfl, rfl, rfl, ?_, rfl⟩
  dsimp only
  decide

/-- The built artifact is leased, released and evicted: it is kept, and an acquire that finds it is not
refused. -/
theorem last_copy_kept_sample : ∃ tr pool, CacheRuns stubEnv {} tr pool ∧
    (∀ e ∈ tr, e.label.keepsCopies stubEnv e.before) ∧ (∃ e ∈ tr, PublishesNew e 0) ∧
    (∃ e ∈ tr, e.label = .evictCommit 0) ∧
    (pool.shared.snapshotOf 0).healthy = true ∧ pool.shared.HasCopy stubEnv 0 ∧
    ∃ request res s', (pool.shared.lookup request.key.finalize request.policy).artifact =
        some (pool.shared.records 0).id ∧
      ((Operation.acquire request).prog stubEnv).run (exec stubEnv) pool.shared = some (res, s') ∧
      (res = .failed bytesAbsent → LoaderSays stubEnv bytesAbsent) := by
  obtain ⟨tr, s, hruns, ⟨e, he, hnew⟩, hkeeps, -, -, r, hone, hid, hkey, hvalid, hbytes, hstate,
    htier, hinv, hcor, hleases, hpins, hhandle, -⟩ := stub_built
  -- lease it where it is, release it, evict it
  have hlookup := hone.lookup hkey hvalid
    (by simp only [ArtifactRecord.leasable, hinv, hcor, hstate]; rfl) {}
  obtain ⟨tr₁, s₁, hacquire, hrw₁, hlrec, hlheld, hlabels₁⟩ := acquireImpl_traced_untiered stubEnv 1
    { desiredTier := .none } (p := 0) defaultKey_wellFormed hone.free hlookup
    (ArtifactRecord.hitResult_isHit r _) rfl (by rw [hid]; exact hone.byId) rfl
    (by rw [hone.record]; simp only [ArtifactRecord.leasable, hinv, hcor, hstate]; rfl)
  rw [hone.record] at hrw₁
  have hone₁ := hone.rewrites hrw₁
  obtain ⟨tr₂, s₂, hrelease, hrw₂, hlabels₂⟩ := release_traced stubEnv 2 hone₁.free hlrec hlheld
  rw [hone₁.record] at hrw₂
  have hone₂ := hone₁.rewrites hrw₂
  obtain ⟨tr₃, s₃, hevict, hrw₃, e₃, he₃, hlabel₃, hbefore₃, hlabels₃⟩ :=
    evict_traced stubEnv 3 (s := s₂) (p := 0) false hone₂.free hone₂.byId
    (by rw [hone₂.record]; simp [ArtifactRecord.released, ArtifactRecord.leased, hleases])
    (by rw [hone₂.record]; simp [ArtifactRecord.released, ArtifactRecord.leased, hpins])
    (by rw [hone₂.record]; exact hhandle)
  rw [hone₂.record] at hrw₃ hbefore₃
  have hone₃ := hone₂.rewrites hrw₃
  obtain ⟨r₃, hr₃, hid₃, hkey₃, hvalid₃, hleasable₃, hbytes₃⟩ :=
    r.evicted_inPlace (stubEnv.now (s.tick + 4)) hstate htier hinv hcor hleases
  rw [hr₃] at hone₃
  have hruns₃ := ((hruns.complete ⟨_, rfl⟩ (acquire_traced hacquire)).complete ⟨_, rfl⟩
    hrelease).complete ⟨_, rfl⟩ hevict
  have hkeeps₃ : ∀ e' ∈ tr ++ tr₁ ++ tr₂ ++ tr₃, e'.label.keepsCopies stubEnv e'.before := by
    refine List.forall_mem_append.mpr ⟨List.forall_mem_append.mpr ⟨List.forall_mem_append.mpr
      ⟨hkeeps, fun e' he' => Step.keepsCopies_of (hlabels₁ e' he')⟩,
      fun e' he' => Step.keepsCopies_of (hlabels₂ e' he')⟩, fun e' he' => ?_⟩
    by_cases hmoves : e'.label.movesCopies = true
    · -- the end of the eviction finds the record out of host memory
      obtain rfl := hlabels₃ e' he' hmoves
      rw [hlabel₃]
      intro _ _ hhost
      rw [hbefore₃] at hhost
      have hmeta : r.tier = .hostResident := hhost
      rw [htier] at hmeta
      cases hmeta
    · exact Step.keepsCopies_of (by simpa using hmoves)
  -- a second acquire finds it
  have hlookup₃ := hone₃.lookup (hkey₃.trans hkey) (hvalid₃.trans hvalid) hleasable₃ {}
  obtain ⟨tr₄, s₄, hagain, -⟩ := acquireImpl_traced_untiered stubEnv 4
    { desiredTier := .none } (p := 0) defaultKey_wellFormed hone₃.free hlookup₃
    (ArtifactRecord.hitResult_isHit r₃ _) rfl (by rw [hid₃, hid]; exact hone₃.byId) rfl
    (by rw [hone₃.record]; exact hleasable₃)
  have hrun : ((Operation.acquire { desiredTier := .none }).prog stubEnv).run (exec stubEnv) s₃ =
      some (.lease s₃.nextLease, s₄) := by
    rw [Prog.run_eq_traced 4, acquire_traced hagain]
    rfl
  have hart : (s₃.lookup ({} : KernelCompatibilityKey).finalize {}).artifact =
      some (s₃.records 0).id := by
    rw [hlookup₃, hone₃.record]
    rfl
  have hhealthy : (s₃.snapshotOf 0).healthy = true := by
    simp only [ArtifactRecord.leasable, Bool.and_eq_true] at hleasable₃
    simp only [Impl.CandidateSnapshot.healthy, Impl.snapshotOf, hone₃.record, Bool.and_eq_true]
    exact ⟨⟨hleasable₃.1, hvalid₃.trans hvalid⟩, hleasable₃.2⟩
  have hmem := List.mem_append_left tr₃ (List.mem_append_left tr₂ (List.mem_append_left tr₁ he))
  obtain ⟨hcopy, hacq⟩ := last_copy_kept hruns₃ hkeeps₃ hmem hnew
  exact ⟨_, _, hruns₃, hkeeps₃, ⟨e, hmem, hnew⟩, ⟨e₃, List.mem_append_right _ he₃, hlabel₃⟩, hhealthy,
    hcopy hhealthy, { desiredTier := .none }, _, _, hart, hrun,
    hacq { desiredTier := .none } _ _ hart hrun⟩

/-- An acquire into host memory that finds a record without a copy. -/
theorem acquireImpl_traced_absent (env : Env) (i : Nat) {s : Impl} (request : KernelLookupRequest)
    {r : KernelLookupResult} {id : ArtifactId} {p : Nat} (hkey : request.key.wellFormed = true)
    (hfree : s.statsHeld = false) (hr : s.lookup request.key.finalize request.policy = r)
    (hhit : r.outcome.isHit = true) (hart : r.artifact = some id)
    (hid : s.byId.lookup id = some p) (hwanted : request.desiredTier = .hostResident)
    (htier : (s.records p).tier.rank < ResidencyTier.hostResident.rank)
    (hbytes : (s.records p).bytes = []) (hclosed : env.cfg.persistenceOpen = false) :
    ∃ tr s', (acquireImpl env request).traced (exec env) i s =
      some (tr, .error bytesAbsent, s') := by
  have hrank : ¬ ResidencyTier.hostResident.rank ≤ (s.records p).tier.rank := Nat.not_le.mpr htier
  have hnone : (ResidencyTier.hostResident == ResidencyTier.none) = false := rfl
  have hlease : ∃ tr s', (leaseRecord env { request with key := request.key.finalize } id
      (str "artifact vanished")).traced (exec env) i (s.lookedUp r) =
        some (tr, .error bytesAbsent, s') := by
    simp only [leaseRecord, promoteToTier, hwanted, hnone, promoteToHost, ensureBytes, Prog.bind_eq,
      sect, Prog.bind, Prog.traced, exec, Step.ready, Step.effect, if_true, Impl.lookedUp, hid,
      hrank, hbytes, hclosed, List.isEmpty_nil, Bool.not_true, if_false, Bool.false_eq_true,
      Prog.pure_eq]
    exact ⟨_, _, rfl⟩
  obtain ⟨tr, s', hlease⟩ := hlease
  exact ⟨_, _, acquireImpl_traced_hit env i hkey hfree hr hhit hart hlease⟩

/-- A valid record without a stored copy that is leased into host memory, released and evicted can
still be leased. -/
theorem ArtifactRecord.evicted_inUse {r : ArtifactRecord} (now : UInt64) (hstate : r.state = .valid)
    (hinv : r.invalidated = false) (hcor : r.corrupt = false) (hleases : r.leaseCount = 0)
    (hpersistent : r.persistent = false) :
    ∃ r', (r.promoteHost.leased now false).released.evictBegin.evictCommit = r' ∧ r'.id = r.id ∧
      r'.key = r.key ∧ r'.validated = r.validated ∧ r'.leasable = true ∧ r'.tier = .metadataOnly ∧
      r'.bytes = [] := by
  simp only [promoteHost, leased, released, evictBegin, evictCommit, fallbackTier, leasable, hstate,
    hinv, hcor, hleases, hpersistent]
  refine ⟨_, rfl, rfl, rfl, rfl, ?_, rfl, rfl⟩
  dsimp only
  decide

/-- **Eviction can destroy the last copy.** Build an artifact without a store, lease it into host
memory, release it, evict it: the record is still in state `InUse`, so a lookup returns it, its bytes
are gone, and an acquire that may build fails instead. -/
theorem last_copy_lost : ∃ tr pool, CacheRuns stubEnv {} tr pool ∧ (∃ e ∈ tr, PublishesNew e 0) ∧
    (pool.shared.snapshotOf 0).healthy = true ∧ ¬ pool.shared.HasCopy stubEnv 0 ∧
    ∃ s', ((Operation.acquire { allowMissBuild := true }).prog stubEnv).run (exec stubEnv)
      pool.shared = some (.failed bytesAbsent, s') := by
  obtain ⟨tr, s, hruns, ⟨e, he, hnew⟩, -, -, -, r, hone, hid, hkey, hvalid, hbytes, hstate, htier,
    hinv, hcor, hleases, hpins, hhandle, hpersistent⟩ := stub_built
  -- lease it into host memory, release it, evict it
  have hlookup := hone.lookup hkey hvalid
    (by simp only [ArtifactRecord.leasable, hinv, hcor, hstate]; rfl) {}
  obtain ⟨tr₁, lease, s₁, now, hacquire, hrw₁, hlrec, hlheld⟩ := acquireImpl_traced_host stubEnv 1
    {} (s := s) (p := 0) defaultKey_wellFormed hone.free hlookup
    (ArtifactRecord.hitResult_isHit r _) rfl (by rw [hid]; exact hone.byId) rfl
    (by rw [hone.record, htier]; decide) (by rw [hone.record, hbytes]; decide)
    (by rw [hone.record]; simp only [ArtifactRecord.leasable, ArtifactRecord.promoteHost, hinv,
      hcor, hstate]; rfl)
  rw [hone.record] at hrw₁
  have hone₁ := hone.rewrites hrw₁
  obtain ⟨tr₂, s₂, hrelease, hrw₂, -⟩ := release_traced stubEnv 2 hone₁.free hlrec hlheld
  rw [hone₁.record] at hrw₂
  have hone₂ := hone₁.rewrites hrw₂
  obtain ⟨tr₃, s₃, hevict, hrw₃, -⟩ := evict_traced stubEnv 3 (s := s₂) (p := 0) false hone₂.free
    hone₂.byId (by rw [hone₂.record]; simp [ArtifactRecord.released, ArtifactRecord.leased,
      ArtifactRecord.promoteHost, hleases])
    (by rw [hone₂.record]; simp [ArtifactRecord.released, ArtifactRecord.leased,
      ArtifactRecord.promoteHost, hpins])
    (by rw [hone₂.record]; exact hhandle)
  rw [hone₂.record] at hrw₃
  have hone₃ := hone₂.rewrites hrw₃
  -- what is left of the record
  obtain ⟨r₃, hr₃, hid₃, hkey₃, hvalid₃, hleasable₃, htier₃, hbytes₃⟩ :=
    r.evicted_inUse now hstate hinv hcor hleases hpersistent
  rw [hr₃] at hone₃
  have hruns₃ := ((hruns.complete ⟨_, rfl⟩ (acquire_traced hacquire)).complete ⟨_, rfl⟩
    hrelease).complete ⟨_, rfl⟩ hevict
  have hlookup₃ := hone₃.lookup (hkey₃.trans hkey) (hvalid₃.trans hvalid) hleasable₃ {}
  obtain ⟨tr₄, s₄, hagain⟩ := acquireImpl_traced_absent stubEnv 4
    { allowMissBuild := true } (p := 0) defaultKey_wellFormed hone₃.free
    hlookup₃ (ArtifactRecord.hitResult_isHit r₃ _) rfl (by rw [hid₃, hid]; exact hone₃.byId) rfl
    (by rw [hone₃.record, htier₃]; decide) (by rw [hone₃.record, hbytes₃]) rfl
  have hmem := List.mem_append_left tr₃ (List.mem_append_left tr₂ (List.mem_append_left tr₁ he))
  refine ⟨_, _, hruns₃, ⟨e, hmem, hnew⟩, ?_, ?_, s₄, ?_⟩
  · simp only [ArtifactRecord.leasable, Bool.and_eq_true] at hleasable₃
    simp only [Impl.CandidateSnapshot.healthy, Impl.snapshotOf, hone₃.record, Bool.and_eq_true]
    exact ⟨⟨hleasable₃.1, hvalid₃.trans hvalid⟩, hleasable₃.2⟩
  · rintro (hne | ⟨hopen, -⟩)
    · exact hne (by rw [hone₃.record, hbytes₃])
    · cases hopen
  · rw [Prog.run_eq_traced 4, acquire_traced hagain]
    rfl

end KernelCache
