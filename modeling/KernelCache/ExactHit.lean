/-
# KernelCache.ExactHit — what an exact hit says about two keys.

The compatibility engine calls a candidate exact when the digests agree, and it finalizes both keys
before it compares them.  An accepted key then carries the digest of its own fields, so agreement of
digests is agreement of fields, up to a collision.  A key `finalize()` rejects keeps the digest it had
before, and none of the publication paths looks at the result of `finalize()`: a key that was
finalized, changed and published is found under the fields it no longer has.

`KernelCompatibilityKey.Owns` excludes just that.  It is kept by insertion and by every step, so it
holds of every record of a run that offers no other keys (`runs_owns`).
-/
import KernelCache.Sequential

namespace KernelCache

open Foundation (Bytes Prog Runs Pool Event)

/-! ## Keys that own their digest -/

/-- Two different byte strings with one digest. -/
def Sha256.Collides (x y : Bytes) : Prop := x ≠ y ∧ Sha256.digest x = Sha256.digest y

namespace KernelCompatibilityKey

/-- The key's lists fit their counters, and it does not carry the digest of another key: it is
accepted by `finalize()`, or no accepted key has the digest it carries. -/
structure Owns (k : KernelCompatibilityKey) : Prop where
  sized : k.toKeyFields.Sized
  digest : k.wellFormed = true ∨ ∀ k' : KernelCompatibilityKey, k'.wellFormed = true →
    k'.finalize.digest ≠ k.digest

theorem Owns.finalize {k : KernelCompatibilityKey} (h : k.Owns) : k.finalize.Owns := by
  refine ⟨?_, ?_⟩
  · rw [finalize_toKeyFields]
    exact KeyFields.sorted_sized h.sized
  · cases hwf : k.wellFormed with
    | true =>
      left
      rw [finalize_toKeyFields, KeyFields.sorted_wellFormed]
      exact hwf
    | false =>
      right
      rw [finalize_of_malformed hwf]
      refine h.digest.resolve_left ?_
      rw [hwf]
      exact Bool.false_ne_true

theorem Owns.ensureFinalized {k : KernelCompatibilityKey} (h : k.Owns) : k.ensureFinalized.Owns := by
  unfold KernelCompatibilityKey.ensureFinalized
  split
  · exact h
  · exact h.finalize

/-- **Exact means equal, for keys that own their digest.** -/
theorem Owns.fields_eq {req cand : KernelCompatibilityKey} {policy : CompatibilityPolicy}
    (hcand : cand.Owns) (hreq : req.wellFormed = true) (hsized : req.toKeyFields.Sized)
    (hcol : ¬ Sha256.Collides req.finalize.canonical cand.finalize.canonical)
    (h : (evaluateCompatibility req cand policy).reason = .exactCompatible) :
    req.toKeyFields.sorted = cand.toKeyFields.sorted := by
  cases hwf : cand.wellFormed with
  | true =>
    refine fields_eq_of_exact hreq hwf hsized hcand.sized (fun hdigest => ?_) h
    by_contra hne
    exact hcol ⟨hne, hdigest⟩
  | false =>
    -- the digest compared is the one the key brought along
    have hdigest := digest_eq_of_exact h
    have hstale : cand.finalize.digest = cand.digest := by rw [finalize_of_malformed hwf]
    rw [hstale] at hdigest
    rcases hcand.digest with hyes | hno
    · rw [hyes] at hwf
      cases hwf
    · exact absurd hdigest (hno req hreq)

end KernelCompatibilityKey

/-! ## Runs -/

/-- The section offers only records whose keys own their digest. -/
def Step.offersOwned (env : Env) (s : Impl) (l : Step) : Prop :=
  ∀ r ∈ l.offers env s, r.key.Owns

theorem exec_owns {env : Env} {l : Step} {s s' : Impl} (h : exec env l s = some s') (hl : l.Proper)
    (hoffers : l.offersOwned env s) (hs : ∀ p < s.nextRecord, (s.records p).key.Owns) :
    ∀ p < s'.nextRecord, (s'.records p).key.Owns := by
  intro p hp
  by_cases hold : p < s.nextRecord
  · rw [(exec_evolves h hl hold).key_eq]
    exact hs p hold
  · obtain ⟨r, hr, hrec⟩ := (exec_extends h hl).fresh p (Nat.le_of_not_lt hold) hp
    rw [hrec]
    exact (hoffers r hr).ensureFinalized

theorem runs_owns {env : Env} {store : FilePersistenceStore} {tr : List (Event Step Impl)}
    {pool : Pool Step Impl Answer} (h : CacheRuns env store tr pool)
    (hoffers : ∀ e ∈ tr, e.label.offersOwned env e.before) :
    ∀ p < pool.shared.nextRecord, (pool.shared.records p).key.Owns := by
  refine (Runs.invariant (I := fun s => ∀ p < s.nextRecord, (s.records p).key.Owns) ?_ h
    fun e he hI => ?_).2
  · exact fun p hp => absurd hp (Nat.not_lt_zero p)
  · exact exec_owns (h.event_step e he) (runs_proper h e he) (hoffers e he) hI

/-- **An exact hit is the requested key.** In every state reached by a run that publishes only keys
which own their digest, a lookup that reports an exact hit has chosen a record whose key agrees with
the request's on every encoded field, unless their encodings collide. -/
theorem exact_hit_identity {env : Env} {store : FilePersistenceStore} {tr : List (Event Step Impl)}
    {pool : Pool Step Impl Answer} (h : CacheRuns env store tr pool)
    (hoffers : ∀ e ∈ tr, e.label.offersOwned env e.before) {request : KernelLookupRequest}
    (hsized : request.key.toKeyFields.Sized)
    (hcol : ∀ p < pool.shared.nextRecord, ¬ Sha256.Collides request.key.finalize.canonical
      (pool.shared.records p).key.finalize.canonical)
    {r : KernelLookupResult} {s' : Impl}
    (hrun : ((Operation.lookup request).prog env).run (exec env) pool.shared =
      some (.lookup r, s'))
    (hhit : r.outcome.isHit = true) (hexact : r.decision.reason = .exactCompatible) :
    ∃ id p, r.artifact = some id ∧ pool.shared.byId.lookup id = some p ∧
      request.key.toKeyFields.sorted = (pool.shared.records p).key.toKeyFields.sorted := by
  rw [Operation.prog, Prog.bind_eq, Prog.run_of_bind] at hrun
  obtain ⟨res, s₁, hlookup, hret⟩ := hrun
  rcases lookupImpl_run hlookup with ⟨-, rfl, -⟩ | ⟨hkey, -, rfl, -⟩
  · cases hret
  have hr : pool.shared.lookup request.key.finalize request.policy = r := by
    simp only [answer, Prog.pure_eq, Prog.run_ret, Option.some.injEq, Prod.mk.injEq,
      Answer.lookup.injEq] at hret
    exact hret.1
  have hsound := (runs_sound h).2
  subst hr
  obtain ⟨id, hid⟩ := Impl.lookup_isHit.mp hhit
  obtain ⟨p, hp⟩ := hsound.hit hid
  have hlt := (hsound.bound id p hp.bound).1
  refine ⟨id, p, hid, hp.bound, ?_⟩
  have hdecided := hp.decided
  rw [evaluateCompatibility_finalize] at hdecided
  rw [hdecided] at hexact
  exact (runs_owns h hoffers p hlt).fields_eq hkey hsized (hcol p hlt) hexact

/-- A kernel compiled with these flags. -/
def flagsKey (flags : List Str) : KernelCompatibilityKey :=
  { operation := str "gemm", shape := [4], codegenFlags := flags }

theorem flagsKey_sized {flags : List Str} (h : KeyField.StrsSized flags) :
    (flagsKey flags).toKeyFields.Sized := by
  have hother : KeyField.StrSized (str "gemm") ∧ KeyField.StrSized [] ∧ KeyField.StrsSized [] ∧
      [4].length < 256 ^ 4 := by
    simp only [KeyField.StrsSized, KeyField.StrSized]
    decide
  unfold KeyFields.Sized KeyFields.fields flagsKey
  simp only [List.forall_mem_cons, List.not_mem_nil, false_imp_iff, implies_true, and_true,
    KeyField.Sized, h, hother]
  decide

theorem flags_sized : KeyField.StrsSized [str "b", str "a"] ∧ KeyField.StrsSized [str "a", str "b"] := by
  simp only [KeyField.StrsSized, KeyField.StrSized, List.forall_mem_cons]
  decide

/-- The order of the flags makes no other key. -/
theorem flagsKey_sorted : (flagsKey [str "b", str "a"]).toKeyFields.sorted =
    (flagsKey [str "a", str "b"]).toKeyFields.sorted := by decide

theorem flagsKey_finalize :
    (flagsKey [str "b", str "a"]).finalize = (flagsKey [str "a", str "b"]).finalize := by
  rw [KernelCompatibilityKey.finalize_of_wellFormed (by decide),
    KernelCompatibilityKey.finalize_of_wellFormed (by decide), flagsKey_sorted]

/-- A fresh cache after an artifact was put under a key with two flags. -/
def flagsState : Impl :=
  { (Impl.initial {}).insertIndexLocked
      (makeRecord 0 { sampleArtifact with key := flagsKey [str "b", str "a"] } [1]) with tick := 1 }

/-- A key with two flags, put, and looked up with the flags in the other order. -/
theorem exact_hit_identity_sample : ∃ tr pool r s', CacheRuns {} {} tr pool ∧
    (∀ e ∈ tr, e.label.offersOwned {} e.before) ∧
    ((Operation.lookup { key := flagsKey [str "a", str "b"] }).prog {}).run (exec {}) pool.shared =
      some (.lookup r, s') ∧
    r.outcome.isHit = true ∧ r.decision.reason = .exactCompatible ∧
    ∃ id p, r.artifact = some id ∧ pool.shared.byId.lookup id = some p ∧
      (flagsKey [str "a", str "b"]).toKeyFields.sorted =
        (pool.shared.records p).key.toKeyFields.sorted := by
  have hruns : CacheRuns {} {} [⟨0, .put { sampleArtifact with key := flagsKey [str "b", str "a"] } [1],
      Impl.initial {}, flagsState⟩] ⟨flagsState, [.ret (.id ⟨⟨1, 7⟩⟩)]⟩ :=
    Runs.refl.complete (p := (Operation.put
      { sampleArtifact with key := flagsKey [str "b", str "a"] } [1]).prog {}) ⟨_, rfl⟩ rfl
  have hkey : (flagsState.records 0).key = (flagsKey [str "a", str "b"]).finalize := flagsKey_finalize
  have hoffers : ∀ e ∈ ([⟨0, .put { sampleArtifact with key := flagsKey [str "b", str "a"] } [1],
      Impl.initial {}, flagsState⟩] : List (Event Step Impl)), e.label.offersOwned {} e.before := by
    intro e he r hr
    obtain rfl := List.mem_singleton.mp he
    obtain rfl := List.mem_singleton.mp hr
    exact ⟨(flagsKey_sized flags_sized.1), .inl (by decide)⟩
  have hcol : ∀ p < flagsState.nextRecord, ¬ Sha256.Collides
      (flagsKey [str "a", str "b"]).finalize.canonical
      (flagsState.records p).key.finalize.canonical := by
    rintro p hp ⟨hne, -⟩
    obtain rfl : p = 0 := Nat.lt_one_iff.mp hp
    refine hne ?_
    rw [hkey, KernelCompatibilityKey.finalize_finalize]
  have hlookup : flagsState.lookup (flagsKey [str "a", str "b"]).finalize {} =
      (flagsState.records 0).hitResult
        (accept .exactCompatible (str "canonical key digest matches exactly")) := by
    refine Impl.lookup_of_one ⟨⟨1, 7⟩⟩ ?_ (AList.lookup_insert _) rfl ?_ rfl
    · rw [KernelCompatibilityKey.ensureFinalized_finalize, ← flagsKey_finalize]
      exact AList.lookup_insert _
    · apply evaluateCompatibility_of_digest_eq
      rw [hkey, KernelCompatibilityKey.finalize_finalize]
  have hhit : (flagsState.lookup (flagsKey [str "a", str "b"]).finalize {}).outcome.isHit = true := by
    rw [hlookup]
    exact ArtifactRecord.hitResult_isHit _ _
  have hexact : (flagsState.lookup (flagsKey [str "a", str "b"]).finalize {}).decision.reason =
      .exactCompatible := by
    rw [hlookup]
    rfl
  have hrun := lookup_run {} { key := flagsKey [str "a", str "b"] } (by decide) (s := flagsState) rfl
  exact ⟨_, _, _, _, hruns, hoffers, hrun, hhit, hexact,
    exact_hit_identity hruns hoffers (flagsKey_sized flags_sized.2) hcol hrun hhit hexact⟩

/-! ## A stale digest -/

/-- The default key, finalized, copied and given a datatype without a layout: `finalize()` rejects
it, and it still carries the digest of the default key. -/
def staleKey : KernelCompatibilityKey :=
  { ({} : KernelCompatibilityKey).finalize with dtypes := [Datatype.f32] }

/-- A fresh cache after an artifact was put under the stale key. -/
def staleState : Impl :=
  { (Impl.initial {}).insertIndexLocked
      (makeRecord 0 { sampleArtifact with key := staleKey } [1]) with tick := 1 }

theorem staleKey_finalize_digest :
    staleKey.finalize.digest = ({} : KernelCompatibilityKey).finalize.digest := by
  have hbad : staleKey.wellFormed = false := rfl
  rw [KernelCompatibilityKey.finalize_of_malformed hbad]
  rfl

/-- **An exact hit can be another key.** A key that was finalized and then changed so that
`finalize()` rejects it is published by a put; a lookup of the key it was before reports it as an
exact hit, with other datatypes. -/
theorem exact_hit_mismatch : ∃ tr pool r s' id p, CacheRuns {} {} tr pool ∧
    ((Operation.lookup {}).prog {}).run (exec {}) pool.shared = some (.lookup r, s') ∧
    r.outcome.isHit = true ∧ r.decision.reason = .exactCompatible ∧ r.artifact = some id ∧
    pool.shared.byId.lookup id = some p ∧
    ({} : KernelCompatibilityKey).toKeyFields.sorted.dtypes = [] ∧
    (pool.shared.records p).key.toKeyFields.sorted.dtypes = [Datatype.f32] := by
  have hruns : CacheRuns {} {}
      [⟨0, .put { sampleArtifact with key := staleKey } [1], Impl.initial {}, staleState⟩]
      ⟨staleState, [.ret (.id ⟨⟨1, 7⟩⟩)]⟩ :=
    Runs.refl.complete
      (p := (Operation.put { sampleArtifact with key := staleKey } [1]).prog {}) ⟨_, rfl⟩ rfl
  have hbound : staleState.byId.lookup ⟨⟨1, 7⟩⟩ = some 0 := AList.lookup_insert _
  have hlookup : staleState.lookup ({} : KernelCompatibilityKey).finalize {} =
      (staleState.records 0).hitResult
        (accept .exactCompatible (str "canonical key digest matches exactly")) := by
    refine Impl.lookup_of_one ⟨⟨1, 7⟩⟩ ?_ hbound rfl ?_ rfl
    · rw [KernelCompatibilityKey.ensureFinalized_finalize]
      exact AList.lookup_insert _
    · apply evaluateCompatibility_of_digest_eq
      rw [KernelCompatibilityKey.finalize_finalize]
      exact staleKey_finalize_digest.symm
  refine ⟨_, _, _, _, ⟨⟨1, 7⟩⟩, 0, hruns,
    lookup_run {} {} defaultKey_wellFormed (s := staleState) rfl, ?_, ?_, ?_, hbound,
    rfl, rfl⟩
  · rw [hlookup]
    exact ArtifactRecord.hitResult_isHit _ _
  · rw [hlookup]
    rfl
  · rw [hlookup]
    rfl

end KernelCache
