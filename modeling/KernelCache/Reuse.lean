/-
# KernelCache.Reuse — what a lease promises about the key it was acquired with.

The hit path checks compatibility on the snapshot it decides on, and a record's key never changes.
The miss path checks nothing: it leases whatever record the id of the built artifact is bound to.
That record is the one just built unless the id, a generation and eight bytes of a digest, was taken
before; then `build_impl` skips the insertion and says nothing.  So a lease is sound when the id of
the build is free, or bound to a compatible record (`acquire_compatible`), and a put under the
default id is enough to make it unsound (`acquire_incompatible`).
-/
import KernelCache.Sequential

namespace KernelCache

open Foundation (Prog)

/-! ## Another key -/

/-- A key that differs from the default one in its ABI version. -/
def otherKey : KernelCompatibilityKey := { abiVersion := 2 }

def otherRequest : KernelLookupRequest :=
  { key := otherKey, desiredTier := .none, allowMissBuild := true }

set_option maxRecDepth 4096 in
theorem otherKey_digest_ne :
    otherKey.finalize.digest ≠ ({} : KernelCompatibilityKey).finalize.digest := by decide +kernel

/-- It finds nothing where nothing is known under its digest: it names no operation. -/
theorem otherKey_lookup {s : Impl} (hnone : s.byKey.lookup otherKey.finalize.digest = none) :
    s.lookup otherKey.finalize {} =
      { outcome := .missRequiresBuild, notes := [str "no compatible eligible candidate"] } := by
  have hcands : s.collectCandidates otherKey.finalize = [] := by
    rw [← KernelCompatibilityKey.ensureFinalized_finalize] at hnone
    simp only [Impl.collectCandidates, hnone]
    rfl
  simp only [Impl.lookup, hcands]
  rfl

/-! ## Leases -/

/-- If an acquire of `request` in `s` has to build, then the id its artifact gets is free or bound
to a record that is compatible with the request. -/
def Impl.BuildsFresh (env : Env) (s : Impl) (request : KernelLookupRequest) : Prop :=
  (s.lookup request.key.finalize request.policy).outcome.isHit = false →
  request.allowMissBuild = true →
  ∀ o, runBuild env (s.tick + 4)
      (buildRequestOf env { request with key := request.key.finalize }) s.nextGeneration = .ok o →
    o.succeeded = true → ∀ p, s.byId.lookup o.id = some p →
      (evaluateCompatibility request.key (s.records p).key request.policy).compatible = true

/-- A key is compatible with itself as the cache stores it. -/
theorem evaluateCompatibility_self (key : KernelCompatibilityKey) (policy : CompatibilityPolicy) :
    (evaluateCompatibility key key.finalize policy).compatible = true := by
  rw [evaluateCompatibility_of_digest_eq policy (by simp)]
  rfl

/-- The record a finished build leaves under its id is compatible with the request. -/
theorem Builds.compatible {env : Env} {request : KernelLookupRequest} {s s' : Impl}
    {desc : ArtifactDescriptor} (hs : s.Sound) (h : Builds env request s (.ok desc) s')
    (hold : ∀ o, runBuild env (s.tick + 1) (buildRequestOf env request) s.nextGeneration = .ok o →
      o.succeeded = true → ∀ p, s.byId.lookup o.id = some p →
        (evaluateCompatibility request.key (s.records p).key request.policy).compatible = true) :
    ∃ p, s'.byId.lookup desc.id = some p ∧
      (evaluateCompatibility request.key (s'.records p).key request.policy).compatible = true := by
  rcases h.outcome with ⟨e, st, t, -, hres, -⟩ | ⟨o, st, t, hout, ⟨-, hres, -⟩ | ⟨hok, hres, hpub⟩⟩
  · cases hres
  · cases hres
  · cases hres
    have hbuilt := runBuild_built hout hok
    obtain ⟨p, hp, hwhose⟩ := hpub.bound
    refine ⟨p, by rw [hbuilt.desc_id]; exact hp, ?_⟩
    rcases hwhose with htaken | ⟨-, -, -, hkey, -⟩
    · have htaken' : s.byId.lookup o.id = some p := htaken
      rw [hpub.carries.key_eq p (hs.bound _ p htaken').1]
      exact hold o hout hok p htaken'
    · have hdesc : o.desc.key = request.key.finalize := by
        rw [hbuilt.desc_key]
        exact KernelCompatibilityKey.finalize_finalize request.key
      rw [hkey, hdesc, KernelCompatibilityKey.ensureFinalized_finalize]
      exact evaluateCompatibility_self request.key request.policy

/-- **Reuse is sound while ids are fresh.** In every state a history of operations reaches, an
acquire whose build (if it comes to one) gets an id that is free or bound to a compatible record
leases a record whose key is compatible with the request under its policy, on the hit path and on
the miss path. -/
theorem acquire_compatible {env : Env} {store : FilePersistenceStore} {calls : List Call} {s : Impl}
    (h : Sequence env store calls s) {request : KernelLookupRequest}
    (hfresh : s.BuildsFresh env request) {lease : Nat} {s' : Impl}
    (hrun : ((Operation.acquire request).prog env).run (exec env) s = some (.lease lease, s')) :
    (evaluateCompatibility request.key (s'.records (s'.leases lease).record).key
      request.policy).compatible = true := by
  rw [Operation.prog, Prog.bind_eq, Prog.run_of_bind] at hrun
  obtain ⟨res, s'', hacquire, hret⟩ := hrun
  have hok : res = .ok lease ∧ s'' = s' := by
    cases res with
    | ok n =>
      cases hret
      exact ⟨rfl, rfl⟩
    | error e => cases hret
  obtain ⟨rfl, rfl⟩ := hok
  rcases acquireImpl_run hacquire with ⟨-, hres, -⟩ | ⟨-, -, hdecided⟩
  · cases hres
  generalize hr : s.lookup request.key.finalize request.policy = r at hdecided
  have hlooked : (s.lookedUp r).Sound := ⟨h.sound.bound, h.sound.indexed, h.sound.visited⟩
  have hidle : (s.lookedUp r).FencesIdle := ⟨h.fencesIdle.waiting, h.fencesIdle.fresh⟩
  cases acquireDecided_run hdecided with
  | hit hhit hlease =>
    obtain ⟨p, hp, hcarries, hrec, -, -⟩ := leaseRecord_run hlooked hlease
    rw [← hr] at hhit
    obtain ⟨id, hid⟩ := Impl.lookup_isHit.mp hhit
    obtain ⟨q, hq⟩ := h.sound.hit hid
    have hpq : p = q := by
      rw [← hr, hid] at hp
      exact Option.some.inj (hp.symm.trans hq.bound)
    subst hpq
    have hcompat := hq.compatible
    rw [evaluateCompatibility_finalize] at hcompat
    rw [hrec, hcarries.key_eq p (h.sound.bound _ p hq.bound).1]
    exact hcompat
  | failed hmiss hallow e hbuild hres => cases hres
  | built hmiss hallow desc s₁ hbuild hlease =>
    have hbuilds := buildImpl_run hidle hbuild
    have hs₁ : s₁.Sound := (run_carries (buildImpl_free (covers_proper env)
      (coversBuilds_proper env) (coversFences_proper env) (coversJoin_proper env _)) hbuild).sound hlooked
    obtain ⟨p, hp, hcompat⟩ := hbuilds.compatible hlooked (by
      intro o ho hso q hq
      rw [← hr] at hmiss
      rw [evaluateCompatibility_finalize]
      exact hfresh hmiss hallow o ho hso q hq)
    obtain ⟨q, hq, hcarries, hrec, -, -⟩ := leaseRecord_run hs₁ hlease
    have hpq : p = q := Option.some.inj (hp.symm.trans hq)
    subst hpq
    rw [hrec, hcarries.key_eq p (hs₁.bound _ p hp).1]
    simpa using hcompat
  | missed hmiss hallow hres hsame => cases hres

/-- Generation 0 names what is built of the other key, so its id is free, and the record that comes of it
can be leased. -/
theorem otherKey_built {r : KernelLookupResult} : ∃ o s₁,
    runBuild stubEnv (putState.tick + 4)
        (buildRequestOf stubEnv { otherRequest with key := otherRequest.key.finalize })
        putState.nextGeneration = .ok o ∧
      putState.byId.lookup o.id = none ∧
      (buildImpl stubEnv { otherRequest with key := otherRequest.key.finalize }).run (exec stubEnv)
        (putState.lookedUp r) = some (.ok o.desc, s₁) ∧
      s₁.byId.lookup o.desc.id = some 1 ∧ s₁.statsHeld = false ∧
      (s₁.records 1).leasable = true := by
  obtain ⟨o, hout, hok, hid, hleasable⟩ : ∃ o, runBuild stubEnv ((putState.lookedUp r).tick + 1)
      (buildRequestOf stubEnv { otherRequest with key := otherRequest.key.finalize })
      (putState.lookedUp r).nextGeneration = .ok o ∧ o.succeeded = true ∧ o.id = deriveId [1] 0 ∧
        ∀ now, (makeRecord now o.desc o.bytes).leasable = true :=
    ⟨_, rfl, rfl, rfl, fun _ => rfl⟩
  have hfreeId : putState.byId.lookup o.id = none := by
    rw [hid]
    exact (AList.lookup_insert_ne (by decide)).trans (AList.lookup_empty _)
  have hseq : Sequence stubEnv {}
      [⟨.put sampleArtifact [1], Impl.initial {}, .id ⟨⟨1, 7⟩⟩, putState⟩] putState :=
    .call .fresh rfl
  have hidle := hseq.fencesIdle
  obtain ⟨tr, s₁, hbuild, -, -, -, s₀, hindex, -, hfree₀, -, -, t, hs₁⟩ := buildImpl_traced_of_new
    { otherRequest with key := otherRequest.key.finalize } 0 (s := putState.lookedUp r) rfl
    ⟨hidle.waiting, hidle.fresh⟩ (AList.lookup_empty _) hout hok hfreeId rfl
  have hnext : s₀.nextRecord = 1 := hindex.nextRecord
  refine ⟨o, s₁, hout, hfreeId, ?_, ?_, hs₁ ▸ hfree₀, ?_⟩
  · rw [Prog.run_eq_traced 0, hbuild]
    rfl
  · rw [hs₁, ← hnext]
    exact AList.lookup_insert _
  · rw [hs₁, ← hnext]
    show (Function.update s₀.records s₀.nextRecord _ s₀.nextRecord).leasable = true
    rw [Function.update_self]
    exact hleasable (stubEnv.now s₀.tick)

/-- Beside a record of another key, an acquire that misses, builds, and leases what was built. -/
theorem acquire_compatible_sample : ∃ calls s lease s', Sequence stubEnv {} calls s ∧
    s.BuildsFresh stubEnv otherRequest ∧
    (s.lookup otherKey.finalize {}).outcome.isHit = false ∧ otherRequest.allowMissBuild = true ∧
    ((Operation.acquire otherRequest).prog stubEnv).run (exec stubEnv) s =
      some (.lease lease, s') ∧ (s'.leases lease).record = 1 ∧
    (evaluateCompatibility otherKey (s'.records (s'.leases lease).record).key {}).compatible =
      true := by
  have hseq : Sequence stubEnv {}
      [⟨.put sampleArtifact [1], Impl.initial {}, .id ⟨⟨1, 7⟩⟩, putState⟩] putState :=
    .call .fresh rfl
  generalize hr : putState.lookup otherKey.finalize {} = r
  have hmiss : r.outcome.isHit = false := by
    rw [← hr, otherKey_lookup ((AList.lookup_insert_ne otherKey_digest_ne).trans (AList.lookup_empty _))]
    rfl
  obtain ⟨o, s₁, hout, hfreeId, hbuild, hbound, hfree₁, hleasable⟩ := otherKey_built (r := r)
  have hfresh : putState.BuildsFresh stubEnv otherRequest := by
    intro _ _ o' hout' _ p hp
    obtain rfl := Except.ok.inj (hout.symm.trans hout')
    rw [hfreeId] at hp
    cases hp
  obtain ⟨tr, s₂, hleased, -, -, hrecord, -⟩ := leaseRecord_traced stubEnv 0
    { otherRequest with key := otherRequest.key.finalize } (str "built artifact vanished") hbound rfl
    hfree₁ hleasable
  have hacquire := acquireImpl_run_of_built otherRequest (by decide) rfl hr hmiss rfl hbuild
    (by rw [Prog.run_eq_traced 0, hleased]; rfl)
  have hrun : ((Operation.acquire otherRequest).prog stubEnv).run (exec stubEnv) putState =
      some (.lease s₁.nextLease, s₂) := by
    rw [Operation.prog, Prog.bind_eq, Prog.run_of_bind]
    exact ⟨_, _, hacquire, rfl⟩
  exact ⟨_, _, _, _, hseq, hfresh, hr ▸ hmiss, rfl, hrun, hrecord, acquire_compatible hseq hfresh hrun⟩

/-! ## A taken id -/

/-- A fresh cache after an artifact was put under the default key and the default id. -/
def derivedState : Impl :=
  { (Impl.initial {}).insertIndexLocked (makeRecord 0
      { id := deriveId [1] 0, generation := 1, validation := allChecks } [1]) with tick := 1 }

theorem derivedState_sequence : Sequence stubEnv {}
    [⟨.put { validation := allChecks } [1], Impl.initial {}, .id (deriveId [1] 0), derivedState⟩]
    derivedState := .call .fresh rfl

theorem otherKey_incompatible :
    (evaluateCompatibility otherKey ({} : KernelCompatibilityKey).finalize {}).compatible =
      false := by
  have hne : otherKey.finalize.digest ≠
      ({} : KernelCompatibilityKey).finalize.finalize.digest := by
    rw [KernelCompatibilityKey.finalize_finalize]
    exact otherKey_digest_ne
  simp only [evaluateCompatibility, if_neg hne, KernelCompatibilityKey.finalize_toKeyFields]
  decide

/-- **Reuse is not always sound.** An artifact is put under one key with neither id nor generation;
the first build has generation 0 and produces the same bytes, so its id is the one the put derived.
An acquire of a key with another ABI version misses, builds, and leases the artifact that was put. -/
theorem acquire_incompatible : ∃ calls s lease s', Sequence stubEnv {} calls s ∧
    otherKey.wellFormed = true ∧
    ((Operation.acquire otherRequest).prog stubEnv).run (exec stubEnv) s =
      some (.lease lease, s') ∧
    (evaluateCompatibility otherKey (s'.records (s'.leases lease).record).key {}).compatible =
      false := by
  have hwf : otherKey.wellFormed = true := by decide
  have hbound : derivedState.byId.lookup (deriveId [1] 0) = some 0 := AList.lookup_insert _
  have hidle := derivedState_sequence.fencesIdle
  generalize hr : derivedState.lookup otherKey.finalize {} = r
  have hmiss : r.outcome.isHit = false := by
    rw [← hr, otherKey_lookup ((AList.lookup_insert_ne otherKey_digest_ne).trans (AList.lookup_empty _))]
    rfl
  obtain ⟨o, hout, hok, hid, hdesc⟩ : ∃ o, runBuild stubEnv ((derivedState.lookedUp r).tick + 1)
      (buildRequestOf stubEnv { otherRequest with key := otherRequest.key.finalize })
      (derivedState.lookedUp r).nextGeneration = .ok o ∧ o.succeeded = true ∧
        o.id = deriveId [1] 0 ∧ o.desc.id = deriveId [1] 0 := ⟨_, rfl, rfl, rfl, rfl⟩
  obtain ⟨s₁, hbuild, hids, hrecords, hfree⟩ := buildImpl_run_of_taken
    (s := derivedState.lookedUp r) (p := 0) rfl ⟨hidle.waiting, hidle.fresh⟩ (AList.lookup_empty _)
    hout hok (by rw [hid]; exact hbound)
  have hfound : s₁.byId.lookup o.desc.id = some 0 := by
    rw [hids, hdesc]
    exact hbound
  obtain ⟨tr, s₂, hlease, -, hrw, hleases, -⟩ := leaseRecord_traced stubEnv 0
    { otherRequest with key := otherRequest.key.finalize } (str "built artifact vanished") hfound rfl
    hfree (by rw [hrecords]; rfl)
  have hleased : (leaseRecord stubEnv { otherRequest with key := otherRequest.key.finalize }
      o.desc.id (str "built artifact vanished")).run (exec stubEnv) s₁ =
        some (.ok s₁.nextLease, s₂) := by
    rw [Prog.run_eq_traced 0, hlease]
    rfl
  have hacquire := acquireImpl_run_of_built otherRequest hwf rfl hr hmiss rfl hbuild
    hleased
  refine ⟨_, _, s₁.nextLease, s₂, derivedState_sequence, hwf, ?_, ?_⟩
  · rw [Operation.prog, Prog.bind_eq, Prog.run_of_bind]
    exact ⟨_, _, hacquire, rfl⟩
  · rw [hleases, hrw.record]
    show (evaluateCompatibility otherKey (s₁.records 0).key {}).compatible = false
    rw [hrecords]
    exact otherKey_incompatible

end KernelCache
