/-
# KernelCache.Reversal — evicting an artifact and bringing it back (`cache.cpp`, `evict_impl`;
`lifecycle.cpp`; `examples/ex_08_evict_reload.cpp`).

The table of transitions has edges that lead from the evicted states back to `Persisted`, and nothing
attempts them.  What an eviction moves to `EvictionPending` is lost to lookups for good; only a record
in `InUse`, from where the table leads nowhere near eviction, is found again (`evict_reversible_iff`).
A record gets there by a lease taken in `Valid`.  A built artifact that nobody has used, or one that was
recovered, leased or not, does not come back (`evict_irreversible`).

An eviction of an `InUse` record changes one snapshot in its tier alone.  The first section shows that
such a change does not matter to the answer of any lookup.
-/
import KernelCache.Delivery
import KernelCache.Index
import KernelCache.LastCopy
import KernelCache.LeaseHealth
import KernelCache.Restart

namespace KernelCache

open Foundation (Bytes Prog Runs Pool Event)
open Foundation.Prog (sect perform Free Sat)
open Impl (CandidateSnapshot)

/-! ## Lookups and tiers -/

/-- The map changes a snapshot in its tier at most. -/
def Retiers (f : CandidateSnapshot → CandidateSnapshot) : Prop :=
  ∀ c, ∃ tier, f c = { c with tier := tier }

theorem judge_map {f : CandidateSnapshot → CandidateSnapshot} (hf : Retiers f)
    (key : KernelCompatibilityKey) (policy : CompatibilityPolicy) (cs : List CandidateSnapshot) :
    judge key policy (cs.map f) = (judge key policy cs).map (Prod.map f id) := by
  unfold judge
  rw [List.filterMap_map, List.map_filterMap]
  refine List.filterMap_congr fun c _ => ?_
  obtain ⟨tier, hc⟩ := hf c
  simp only [Function.comp, hc]
  split
  · rfl
  · split
    · simp [hc]
    · rfl

theorem closest_map (f : CandidateSnapshot → CandidateSnapshot) (cs : List Judged) :
    closest (cs.map (Prod.map f id)) = (closest cs).map (Prod.map f id) := by
  induction cs with
  | nil => rfl
  | cons c cs ih =>
    simp only [List.map_cons, closest, ih]
    cases closest cs with
    | none => rfl
    | some b =>
      simp only [Option.map_some, Prod.map_snd, id]
      split <;> rfl

namespace Impl

/-- Two states with the same index whose snapshots differ in tiers at most. -/
theorem lookup_artifact_eq {s s' : Impl} (hindex : s.SameIndex s')
    {f : CandidateSnapshot → CandidateSnapshot} (hf : Retiers f)
    (hsnap : ∀ q, s'.snapshotOf q = f (s.snapshotOf q)) (key : KernelCompatibilityKey)
    (policy : CompatibilityPolicy) :
    (s'.lookup key policy).artifact = (s.lookup key policy).artifact := by
  have hemit : ∀ ids, s'.emitAll ids = (s.emitAll ids).map f := by
    intro ids
    unfold emitAll
    rw [hindex.byId, List.map_filterMap]
    refine List.filterMap_congr fun id _ => ?_
    cases s.byId.lookup id with
    | none => rfl
    | some q => exact congrArg some (hsnap q)
  have hcollect : s'.collectCandidates key = (s.collectCandidates key).map f := by
    unfold collectCandidates
    rw [hindex.byKey, hindex.byOperation, hemit, hemit]
    simp only [List.isEmpty_map]
    split <;> rfl
  unfold lookup decideLookup
  rw [hcollect, judge_map hf, closest_map]
  cases closest (judge key policy (s.collectCandidates key)) with
  | none =>
    simp only [Option.map_none]
    split <;> split <;> rfl
  | some best =>
    obtain ⟨tier, hc⟩ := hf best.1
    simp only [Option.map_some, Prod.map_fst, hc]

end Impl

/-! ## What an eviction leaves -/

namespace ArtifactRecord

variable {r : ArtifactRecord}

/-- `InUse` is left by no move of an eviction. -/
theorem evicted_state (h : r.state = .inUse) : r.evictBegin.evictCommit.state = .inUse := by
  have hbegin : r.evictBegin.state = .inUse := by
    show r.state.tryMove .evictionPending = .inUse
    rw [h]
    rfl
  unfold evictCommit
  split
  · show r.evictBegin.state.tryMove .evictedDevice = .inUse
    rw [hbegin]
    rfl
  · show r.evictBegin.state.tryMove .evictedHost = .inUse
    rw [hbegin]
    rfl
  · exact hbegin

/-- An eviction frees the bytes of a record in host memory. -/
theorem evicted_bytes (r : ArtifactRecord) :
    r.evictBegin.evictCommit.bytes = if r.tier = .hostResident then [] else r.bytes := by
  have htier : r.evictBegin.tier = r.tier := rfl
  unfold evictCommit
  rw [htier]
  cases r.tier <;> rfl

/-- What an eviction never touches. -/
theorem evicted_kept (r : ArtifactRecord) :
    r.evictBegin.evictCommit.id = r.id ∧ r.evictBegin.evictCommit.key = r.key ∧
      r.evictBegin.evictCommit.generation = r.generation ∧
      r.evictBegin.evictCommit.validated = r.validated ∧
      r.evictBegin.evictCommit.invalidated = r.invalidated ∧
      r.evictBegin.evictCommit.corrupt = r.corrupt := by
  unfold evictCommit
  split <;> exact ⟨rfl, rfl, rfl, rfl, rfl, rfl⟩

end ArtifactRecord

/-! ## Acquires that find what they look for -/

section Acquire

variable {env : Env}

/-- An acquire alone that finds `id` is a lookup and the lease of `id`. -/
theorem acquireImpl_of_hit {i : Nat} {s s' : Impl} {request : KernelLookupRequest} {id : ArtifactId}
    {tr : List (Event Step Impl)} {res : Result Nat} (hkey : request.key.wellFormed = true)
    (hfree : s.statsHeld = false)
    (hart : (s.lookup request.key.finalize request.policy).artifact = some id)
    (h : (acquireImpl env request).traced (exec env) i s = some (tr, res, s')) :
    ∃ r tr₁, s.lookup request.key.finalize request.policy = r ∧
      tr = lookupEvents i s request.key.finalize r ++ tr₁ ∧
      (leaseRecord env { request with key := request.key.finalize } id
        (str "artifact vanished")).traced (exec env) i (s.lookedUp r) = some (tr₁, res, s') := by
  have hhit := Impl.lookup_isHit.mpr ⟨id, hart⟩
  rw [acquireImpl_traced env i request hkey hfree rfl] at h
  generalize s.lookup request.key.finalize request.policy = r at h hhit hart
  have hdecided : acquireDecided env { request with key := request.key.finalize } (.ok r) =
      leaseRecord env { request with key := request.key.finalize } id (str "artifact vanished") := by
    simp only [acquireDecided, hhit, hart, if_true, Option.getD_some]
  simp only [Prog.tracedThen, hdecided] at h
  obtain ⟨⟨tr₁, res₁, s₁⟩, hlease, heq⟩ := Option.map_eq_some_iff.mp h
  cases heq
  exact ⟨r, tr₁, rfl, rfl, hlease⟩

/-- All stages but those of builds. -/
def Stage.unbuilt : Stage → Prop
  | .fence | .build => False
  | _ => True

theorem walk_unbuilt : Walk (Guaranteed env (fun _ _ _ => True) fun l _ _ => l.isBuild = false)
    Stage.unbuilt := by
  refine walk_guaranteed fun l s s' _ _ _ hstage => ?_
  cases l <;> first | rfl | exact hstage.elim

/-- What is found is leased without a build. -/
theorem acquireImpl_unbuilt {i : Nat} {s s' : Impl} {request : KernelLookupRequest}
    {id : ArtifactId} {tr : List (Event Step Impl)} {res : Result Nat}
    (hkey : request.key.wellFormed = true) (hfree : s.statsHeld = false)
    (hart : (s.lookup request.key.finalize request.policy).artifact = some id)
    (h : (acquireImpl env request).traced (exec env) i s = some (tr, res, s')) :
    ∀ e ∈ tr, e.label.isBuild = false := by
  obtain ⟨r, tr₁, -, rfl, hlease⟩ := acquireImpl_of_hit hkey hfree hart h
  have hpromotes : ∀ p desired device, (promoteToTier env p desired device).Free (exec env)
      (fun _ _ _ => True) fun l _ _ => l.isBuild = false :=
    walk_unbuilt.promotes trivial trivial trivial (walk_unbuilt.evictImpl trivial trivial)
  have hfree : (leaseRecord env { request with key := request.key.finalize } id
      (str "artifact vanished")).Free (exec env) (fun _ _ _ => True)
        fun l _ _ => l.isBuild = false :=
    walk_unbuilt.leaseRecord trivial trivial hpromotes _ id _
  obtain ⟨hevents, -⟩ := Sat.traced (I := fun _ => True) hfree (fun _ _ _ _ _ _ => trivial) trivial
    trivial hlease
  intro e he
  rcases List.mem_append.mp he with hearly | hlate
  · simp only [lookupEvents, List.mem_cons, List.not_mem_nil, or_false] at hearly
    rcases hearly with rfl | rfl | rfl <;> rfl
  · exact (hevents e hlate).1

/-- `ensure_bytes` succeeds only where there is a copy. -/
theorem hasCopy_of_ensureBytes {i p : Nat} {s s' : Impl} {tr : List (Event Step Impl)} {bytes : Bytes}
    (h : (ensureBytes env p).traced (exec env) i s = some (tr, .ok bytes, s')) :
    s.HasCopy env p := by
  unfold ensureBytes at h
  obtain ⟨tr₁, now, s₁, tr₂, hread, hrest, rfl⟩ := Prog.traced_of_bind.mp h
  obtain ⟨hstep, rfl, rfl⟩ := Prog.traced_sect.mp hread
  obtain ⟨-, rfl⟩ := exec_eq_some.mp hstep
  split at hrest
  · rename_i hne
    exact .inl (by simpa using hne)
  · split at hrest
    · rename_i hopen
      obtain ⟨tr₃, got, s₂, tr₄, hreload, hlast, rfl⟩ := Prog.traced_of_bind.mp hrest
      obtain ⟨-, hgot, -⟩ := Prog.traced_sect.mp hreload
      cases got with
      | error e => cases hlast
      | ok a => exact .inr ⟨hopen, a, hgot.symm⟩
    · cases hrest

/-- A promotion to host memory from a lower tier succeeds only where there is a copy. -/
theorem hasCopy_of_promoted {i p : Nat} {device : DeviceDescriptor} {s s' : Impl}
    {tr : List (Event Step Impl)}
    (htier : (s.records p).tier.rank < ResidencyTier.hostResident.rank)
    (h : (promoteToTier env p .hostResident device).traced (exec env) i s = some (tr, .ok (), s')) :
    s.HasCopy env p := by
  unfold promoteToTier at h
  have hwanted : (ResidencyTier.hostResident == ResidencyTier.none) = false := rfl
  simp only [hwanted, Bool.false_eq_true, if_false] at h
  obtain ⟨tr₁, tier, s₁, tr₂, hread, hrest, rfl⟩ := Prog.traced_of_bind.mp h
  obtain ⟨hstep, rfl, rfl⟩ := Prog.traced_sect.mp hread
  obtain ⟨-, rfl⟩ := exec_eq_some.mp hstep
  rw [if_neg (Nat.not_le.mpr htier)] at hrest
  obtain ⟨tr₃, bytes, s₂, tr₄, hbytes, hlast, rfl⟩ := Prog.traced_of_bind.mp hrest
  cases bytes with
  | error e => cases hlast
  | ok bytes =>
    have hcopy := hasCopy_of_ensureBytes hbytes
    exact hcopy

end Acquire

/-! ## When an eviction is reversible -/

/-- The record that was evicted comes back: a lookup is a hit on its id, and an acquire leases it with
its bytes, without a build. -/
structure Reversed (env : Env) (request : KernelLookupRequest) (id : ArtifactId) (p : Nat)
    (s : Impl) : Prop where
  found : ∃ r s', ((Operation.lookup request).prog env).run (exec env) s = some (.lookup r, s') ∧
    r.outcome.isHit = true ∧ r.artifact = some id
  reloaded : ∃ tr lease s', ((Operation.acquire request).prog env).traced (exec env) 0 s =
      some (tr, .lease lease, s') ∧ (s'.leases lease).record = p ∧ (s'.records p).bytes ≠ [] ∧
    ∀ e ∈ tr, e.label.isBuild = false

/-- The state before the eviction: the record is in `InUse`, a lookup answers with it, and its bytes
stay in memory or can be read from the store. -/
structure Reversible (env : Env) (request : KernelLookupRequest) (id : ArtifactId) (p : Nat)
    (s : Impl) : Prop where
  inUse : (s.records p).state = .inUse
  accepted : request.key.wellFormed = true
  found : (s.lookup request.key.finalize request.policy).artifact = some id
  copy : ((s.records p).tier ≠ .hostResident ∧ (s.records p).bytes ≠ []) ∨ s.Reloadable env p

section Eviction

variable {env : Env}

/-- The operation `evict`, done. -/
theorem evict_traced_inv {i : Nat} {id : ArtifactId} {force : Bool} {s s' : Impl}
    {tr : List (Event Step Impl)}
    (h : ((Operation.evict id force).prog env).traced (exec env) i s = some (tr, .done, s')) :
    ∃ p, s.byId.lookup id = some p ∧ (s.records p).leaseCount = 0 ∧ (s.records p).pinCount = 0 ∧
      s.Rewrites s' p (s.records p).evictBegin.evictCommit := by
  obtain ⟨tr₁, res, s₁, tr₂, hevict, hanswer, rfl⟩ := Prog.traced_of_bind.mp h
  cases res with
  | error e => cases hanswer
  | ok u =>
    cases hanswer
    rcases evictImpl_traced hevict with ⟨p, -, hdone⟩ | ⟨hthrew, -⟩ | ⟨hno, -⟩
    · exact ⟨p, hdone⟩
    · cases hthrew
    · exact absurd rfl hno

/-- After the eviction of a record in `InUse`, lookups answer as before. -/
theorem lookup_of_evicted {s s' : Impl} {p : Nat} (hstate : (s.records p).state = .inUse)
    (hrw : s.Rewrites s' p (s.records p).evictBegin.evictCommit) (key : KernelCompatibilityKey)
    (policy : CompatibilityPolicy) :
    (s'.lookup key policy).artifact = (s.lookup key policy).artifact := by
  refine Impl.lookup_artifact_eq hrw.index
    (f := fun c => if c.record = p then { c with tier := (s'.records p).tier } else c)
    (fun c => ?_) (fun q => ?_) key policy
  · dsimp only
    split
    · exact ⟨_, rfl⟩
    · exact ⟨c.tier, rfl⟩
  · by_cases hq : q = p
    · obtain ⟨hid, hkey, hgen, hvalid, hinv, hcor⟩ := (s.records p).evicted_kept
      subst hq
      have hmine : (s.snapshotOf q).record = q := rfl
      rw [if_pos hmine]
      simp only [Impl.snapshotOf, hrw.record, hid, hkey, hgen, hvalid, hinv, hcor,
        ArtifactRecord.evicted_state hstate, hstate]
    · have hother : (s.snapshotOf q).record ≠ p := hq
      rw [if_neg hother]
      simp only [Impl.snapshotOf, hrw.others q hq]

/-- What a lookup finds after its eviction was in `InUse` before. -/
theorem inUse_of_found {s s' : Impl} {p : Nat} {id : ArtifactId} {key : KernelCompatibilityKey}
    {policy : CompatibilityPolicy} (hs : s.Sound) (hs' : s'.Sound) (hid : s.byId.lookup id = some p)
    (hrw : s.Rewrites s' p (s.records p).evictBegin.evictCommit)
    (h : (s'.lookup key policy).artifact = some id) : (s.records p).state = .inUse := by
  obtain ⟨q, hhit⟩ := hs'.hit h
  have hbound := hhit.bound
  rw [hrw.index.byId, hid] at hbound
  obtain rfl := Option.some.inj hbound
  have hlease := hhit.leasable
  rw [hrw.record] at hlease
  exact ArtifactRecord.inUse_of_evicted (hs.visited p (hs.bound id p hid).1) hlease

/-- The operation `lookup` alone names `id` exactly when the key is accepted and the decision does. -/
theorem lookup_found_iff {s : Impl} {request : KernelLookupRequest} {id : ArtifactId}
    (hfree : s.statsHeld = false) :
    (∃ r s', ((Operation.lookup request).prog env).run (exec env) s = some (.lookup r, s') ∧
        r.outcome.isHit = true ∧ r.artifact = some id) ↔
      request.key.wellFormed = true ∧
        (s.lookup request.key.finalize request.policy).artifact = some id := by
  constructor
  · rintro ⟨r, s', hrun, -, hart⟩
    obtain ⟨hkey, rfl⟩ := lookup_answer hrun
    exact ⟨hkey, hart⟩
  · rintro ⟨hkey, hart⟩
    exact ⟨_, _, lookup_run env request hkey hfree, Impl.lookup_isHit.mpr ⟨id, hart⟩, hart⟩

/-- The operation `acquire` alone, on a hit that has a copy, off the tiers in memory and in `InUse`. -/
theorem acquire_reloads {s : Impl} {request : KernelLookupRequest} {id : ArtifactId} {p : Nat}
    (hfree : s.statsHeld = false) (hkey : request.key.wellFormed = true)
    (hart : (s.lookup request.key.finalize request.policy).artifact = some id)
    (hid : s.byId.lookup id = some p) (hwanted : request.desiredTier = .hostResident)
    (htier : (s.records p).tier.rank < ResidencyTier.hostResident.rank)
    (hstate : (s.records p).state = .inUse) (hlease : (s.records p).leasable = true)
    (hcopy : s.HasCopy env p) :
    ∃ tr lease s', ((Operation.acquire request).prog env).traced (exec env) 0 s =
        some (tr, .lease lease, s') ∧ (s'.leases lease).record = p ∧ (s'.records p).bytes ≠ [] ∧
      ∀ e ∈ tr, e.label.isBuild = false := by
  have hhit := Impl.lookup_isHit.mpr ⟨id, hart⟩
  have hstays : (s.records p).state.tryMove .residentHost = (s.records p).state := by
    rw [hstate]
    rfl
  by_cases hbytes : (s.records p).bytes = []
  · obtain ⟨hopen, a, hget⟩ := hcopy.resolve_left fun hne => hne hbytes
    obtain ⟨tr, lease, s', now, hrun, hrw, hrecord, -⟩ := acquireImpl_traced_reload env 0 request hkey
      hfree rfl hhit hart hid hwanted htier hbytes hopen hget (by
        simp only [ArtifactRecord.leasable, ArtifactRecord.promoteHost, ArtifactRecord.reloaded, hstays]
        exact hlease)
    refine ⟨tr, lease, s', acquire_traced hrun, hrecord, ?_, acquireImpl_unbuilt hkey hfree hart hrun⟩
    rw [hrw.record]
    exact FilePersistenceStore.get_bytes hget
  · obtain ⟨tr, lease, s', now, hrun, hrw, hrecord, -⟩ := acquireImpl_traced_host env 0 request hkey
      hfree rfl hhit hart hid hwanted htier hbytes (by
        simp only [ArtifactRecord.leasable, ArtifactRecord.promoteHost, hstays]
        exact hlease)
    refine ⟨tr, lease, s', acquire_traced hrun, hrecord, ?_, acquireImpl_unbuilt hkey hfree hart hrun⟩
    rw [hrw.record]
    exact hbytes

/-- An acquire into host memory that leased the record behind `p` had a copy of it. -/
theorem hasCopy_of_acquired {i lease p : Nat} {s s' : Impl} {request : KernelLookupRequest}
    {id : ArtifactId} {tr : List (Event Step Impl)} (hfree : s.statsHeld = false)
    (hkey : request.key.wellFormed = true)
    (hart : (s.lookup request.key.finalize request.policy).artifact = some id)
    (hid : s.byId.lookup id = some p) (hwanted : request.desiredTier = .hostResident)
    (htier : (s.records p).tier.rank < ResidencyTier.hostResident.rank)
    (h : ((Operation.acquire request).prog env).traced (exec env) i s = some (tr, .lease lease, s')) :
    s.HasCopy env p := by
  obtain ⟨tr₁, res, s₁, tr₂, hacquire, hanswer, rfl⟩ := Prog.traced_of_bind.mp h
  cases res with
  | error e => cases hanswer
  | ok lease' =>
    cases hanswer
    obtain ⟨r, tr₃, -, -, hlease⟩ := acquireImpl_of_hit hkey hfree hart hacquire
    obtain ⟨q, s₂, s₃, tr₄, hq, -, hfind, hpromote, -⟩ := leaseRecord_granted_record hlease
    have hqp : some q = some p := hq.symm.trans hid
    obtain rfl := Option.some.inj hqp
    have hsame : s₂.records = s.records ∧ s₂.store = s.store := by
      obtain ⟨-, rfl⟩ := exec_eq_some.mp hfind
      exact ⟨rfl, rfl⟩
    have hdesired : ({ request with key := request.key.finalize } : KernelLookupRequest).desiredTier =
      .hostResident := hwanted
    rw [hdesired] at hpromote
    have hcopy := hasCopy_of_promoted (by rw [hsame.1]; exact htier) hpromote
    simp only [Impl.HasCopy, Impl.Reloadable, hsame.1, hsame.2] at hcopy
    exact hcopy

end Eviction

/-- **When an eviction is reversible.** From any state a run can reach, let `evict` of a persisted
record run alone and succeed, and after it a lookup (of the record's key, or any other) and an acquire
into host memory.  The lookup is a hit on the same id and the acquire leases the record with its bytes
and without a build, if and only if before the eviction the record was in `InUse`, the same lookup
answered with it, and its bytes stay in memory or can be read from the store. -/
theorem evict_reversible_iff {env : Env} {store : FilePersistenceStore}
    {tr : List (Event Step Impl)} {pool : Pool Step Impl Answer} (h : CacheRuns env store tr pool)
    {id : ArtifactId} {p : Nat} (hid : pool.shared.byId.lookup id = some p)
    (hpersisted : (pool.shared.records p).persistent = true) {request : KernelLookupRequest}
    (hwanted : request.desiredTier = .hostResident) {force : Bool} {i : Nat}
    {tr' : List (Event Step Impl)} {s' : Impl}
    (hevict : ((Operation.evict id force).prog env).traced (exec env) i pool.shared =
      some (tr', .done, s')) :
    Reversed env request id p s' ↔ Reversible env request id p pool.shared := by
  have hs := (runs_sound h).2
  obtain ⟨q, hq, -, -, hrw⟩ := evict_traced_inv hevict
  obtain rfl := Option.some.inj (hq.symm.trans hid)
  have hs' : s'.Sound := (Sat.traced (operation_proper env (.evict id force))
    (fun l s₁ s₂ hexec hl hI => exec_sound hexec hl hI) trivial hs hevict).2
  have hid' : s'.byId.lookup id = some q := by
    rw [hrw.index.byId]
    exact hid
  -- what the eviction left of the record
  have htier : (s'.records q).tier.rank < ResidencyTier.hostResident.rank := by
    have hfallback : (s'.records q).tier = .persistentStorage := by
      rw [hrw.record, ArtifactRecord.evictCommit_tier, ArtifactRecord.fallbackTier]
      exact if_pos hpersisted
    rw [hfallback]
    decide
  have hcopies : s'.HasCopy env q ↔ ((pool.shared.records q).tier ≠ .hostResident ∧
      (pool.shared.records q).bytes ≠ []) ∨ pool.shared.Reloadable env q := by
    simp only [Impl.HasCopy, Impl.Reloadable, hrw.record, hrw.store,
      ArtifactRecord.evicted_bytes, (ArtifactRecord.evicted_kept _).1]
    by_cases hhost : (pool.shared.records q).tier = .hostResident
    · simp [hhost]
    · simp [hhost]
  constructor
  · rintro ⟨hfound, tr₁, lease, s₁, hrun, -, -, -⟩
    obtain ⟨haccepted, hart⟩ := (lookup_found_iff hrw.free).mp hfound
    have hstate := inUse_of_found hs hs' hid hrw hart
    refine ⟨hstate, haccepted, ?_, hcopies.mp ?_⟩
    · rw [← lookup_of_evicted hstate hrw]
      exact hart
    · exact hasCopy_of_acquired hrw.free haccepted hart hid' hwanted htier hrun
  · rintro ⟨hstate, haccepted, hart, hcopy⟩
    rw [← lookup_of_evicted hstate hrw] at hart
    have hstate' : (s'.records q).state = .inUse := by
      rw [hrw.record]
      exact ArtifactRecord.evicted_state hstate
    have hlease : (s'.records q).leasable = true := by
      obtain ⟨p', hhit⟩ := hs'.hit hart
      obtain rfl := Option.some.inj (hhit.bound.symm.trans hid')
      exact hhit.leasable
    refine ⟨(lookup_found_iff hrw.free).mpr ⟨haccepted, hart⟩, ?_⟩
    exact acquire_reloads hrw.free haccepted hart hid' hwanted htier hstate' hlease
      (hcopies.mpr hcopy)

/-! ## A recovered artifact -/

/-- A backend, and an open store. -/
def openStubEnv : Env :=
  { openEnv with backends := [stubBackend], backends_nodup := stubBackend.names_nodup }

/-- What is left of a persisted artifact after its last lease. -/
structure ArtifactRecord.GivenBack (r : ArtifactRecord) (id : ArtifactId) : Prop where
  id_eq : r.id = id
  key : r.key = ({} : KernelCompatibilityKey).finalize
  inUse : r.state = .inUse
  healthy : r.validated = true ∧ r.leasable = true
  persistent : r.persistent = true
  idle : r.leaseCount = 0 ∧ r.pinCount = 0 ∧ r.nativeHandle = none
  copy : r.tier ≠ .hostResident ∧ r.bytes ≠ []

/-- A recovered artifact that is validated, leased and given back. -/
theorem recovered_givenBack : ∃ store tr s ts id r, CacheRuns openStubEnv store tr ⟨s, ts⟩ ∧
    s.HoldsOne id r ∧ r.GivenBack id := by
  obtain ⟨root, b, hscan, hkey, hbytes⟩ := sampleRoot
  obtain ⟨tr, ts, hruns, -⟩ := recoveredState_runs openStubEnv.backends_nodup hscan
  have hone := recoveredState_holdsOne root hkey
  generalize hr : ({ Impl.recoveredRecord 0 b with key := b.key.ensureFinalized } : ArtifactRecord) = r
    at hone
  have hrkey : r.key = ({} : KernelCompatibilityKey).finalize := by
    rw [← hr]
    show b.key.ensureFinalized = _
    rw [hkey]
    exact KernelCompatibilityKey.ensureFinalized_finalize _
  -- a validation that passes moves the record to `Valid`
  have hcall : ({ recoveredState root b with tick := (recoveredState root b).tick + 1 } : Impl).validateCall
      openStubEnv 0 {} = some (.ok allChecks) := by
    simp only [Impl.validateCall, hone.record, hrkey]
    rfl
  obtain ⟨tr₁, hvalidate⟩ := validate_traced openStubEnv ts.length {} hone.byId hcall
  have hvalidated := hruns.complete (p := (Operation.validate {} b.id).prog openStubEnv) ⟨_, rfl⟩
    hvalidate
  have hmodify := Impl.rewrites_modify (s := recoveredState root b) 0
    (fun r => r.validatedBy (.ok allChecks)) rfl
  rw [hone.record] at hmodify
  have hone₁ : ({ (recoveredState root b).modify 0 (fun r => r.validatedBy (.ok allChecks)) with
      tick := (recoveredState root b).tick + 3 } : Impl).HoldsOne b.id
        (r.validatedBy (.ok allChecks)) :=
    hone.rewrites ⟨hmodify.record, hmodify.others, ⟨rfl, rfl, rfl, rfl⟩, rfl, rfl⟩
  generalize ({ (recoveredState root b).modify 0 (fun r => r.validatedBy (.ok allChecks)) with
      tick := (recoveredState root b).tick + 3 } : Impl) = s₁ at hvalidated hone₁
  generalize ts ++ [Prog.ret (Answer.validation allChecks)] = ts₁ at hvalidated
  -- leased in `Valid`, it is in `InUse` from then on
  have hready : (r.validatedBy (.ok allChecks)).leasable = true := by
    rw [← hr]
    rfl
  have hrid : (r.validatedBy (.ok allChecks)).id = b.id := by
    rw [← hr]
    rfl
  have hlookup := hone₁.lookup hrkey rfl hready {}
  obtain ⟨tr₂, s₂, hacquire, hrw₂, hrecord, hheld, -⟩ := acquireImpl_traced_untiered openStubEnv
    ts₁.length { desiredTier := .none } (p := 0) defaultKey_wellFormed hone₁.free hlookup
    (ArtifactRecord.hitResult_isHit _ _) (congrArg some hrid) hone₁.byId rfl
    (by rw [hone₁.record]; exact hready)
  have hone₂ := hone₁.rewrites hrw₂
  rw [hone₁.record] at hone₂
  have hleased := hvalidated.complete
    (p := (Operation.acquire { desiredTier := .none }).prog openStubEnv) ⟨_, rfl⟩
    (acquire_traced hacquire)
  generalize ts₁ ++ [Prog.ret (answer Answer.lease (.ok s₁.nextLease))] = ts₂ at hleased
  obtain ⟨tr₃, s₃, hrelease, hrw₃, -⟩ := release_traced openStubEnv ts₂.length hone₂.free hrecord hheld
  have hone₃ := hone₂.rewrites hrw₃
  rw [hone₂.record] at hone₃
  have hreleased := hleased.complete (p := (Operation.release s₁.nextLease).prog openStubEnv)
    ⟨_, rfl⟩ hrelease
  generalize hr₃ : ((r.validatedBy (.ok allChecks)).leased (openStubEnv.now (s₁.tick + 4))
    false).released = r₃ at hone₃
  refine ⟨root, _, s₃, _, b.id, r₃, hreleased, hone₃, ?_⟩
  have hkey₃ : r₃.key = ({} : KernelCompatibilityKey).finalize := by
    rw [← hr₃]
    exact hrkey
  have hstate₃ : r₃.state = .inUse := by
    rw [← hr₃, ← hr]
    rfl
  have hflags₃ : r₃.invalidated = false ∧ r₃.corrupt = false := by
    rw [← hr₃, ← hr]
    exact ⟨rfl, rfl⟩
  have hlease₃ : r₃.leasable = true := by
    rw [ArtifactRecord.leasable, hstate₃, hflags₃.1, hflags₃.2]
    rfl
  subst hr hr₃
  refine ⟨rfl, hkey₃, hstate₃, ⟨rfl, hlease₃⟩, rfl, ⟨rfl, rfl, rfl⟩, ?_, ?_⟩
  · show ResidencyTier.persistentStorage ≠ .hostResident
    decide
  · show b.bytes ≠ []
    rw [hbytes]
    decide

/-- Evicted, it comes back. -/
theorem evict_reversible_iff_sample : ∃ store tr pool id p, CacheRuns openStubEnv store tr pool ∧
    pool.shared.byId.lookup id = some p ∧ (pool.shared.records p).persistent = true ∧
    ∃ tr' s', ((Operation.evict id false).prog openStubEnv).traced (exec openStubEnv) 0 pool.shared =
        some (tr', .done, s') ∧ Reversible openStubEnv {} id p pool.shared ∧
      Reversed openStubEnv {} id p s' := by
  obtain ⟨store, tr, s, ts, id, r, hruns, hone, hr⟩ := recovered_givenBack
  have hlookup := hone.lookup hr.key hr.healthy.1 hr.healthy.2 {}
  have hbyId := hone.byId
  have hfree := hone.free
  obtain rfl := hone.record
  have hreversible : Reversible openStubEnv {} id 0 s := by
    refine ⟨hr.inUse, defaultKey_wellFormed, ?_, .inl hr.copy⟩
    show (s.lookup ({} : KernelCompatibilityKey).finalize {}).artifact = some id
    rw [hlookup]
    exact congrArg some hr.id_eq
  obtain ⟨tr', s', hevict, -⟩ := evict_traced openStubEnv 0 false hfree hbyId hr.idle.1 hr.idle.2.1
    hr.idle.2.2
  refine ⟨store, tr, _, id, 0, hruns, hbyId, hr.persistent, tr', s', hevict, hreversible, ?_⟩
  exact (evict_reversible_iff hruns hbyId hr.persistent rfl hevict).mpr hreversible

/-- **An eviction can be final.** A recovered artifact is persisted, validated, healthy and eligible; it
is found, evicted, and a lookup of its key finds nothing. -/
theorem evict_irreversible : ∃ store tr pool id p, CacheRuns openEnv store tr pool ∧
    pool.shared.byId.lookup id = some p ∧ (pool.shared.records p).persistent = true ∧
    (pool.shared.records p).validated = true ∧ (pool.shared.records p).leasable = true ∧
    (pool.shared.lookup (pool.shared.records p).key.finalize {}).artifact = some id ∧
    ∃ tr' s', ((Operation.evict id false).prog openEnv).traced (exec openEnv) 1 pool.shared =
        some (tr', .done, s') ∧
      ¬ Reversed openEnv { key := (pool.shared.records p).key } id p s' := by
  obtain ⟨root, b, hscan, hkey, -⟩ := sampleRoot
  obtain ⟨tr, ts, hruns, -⟩ := recoveredState_runs openEnv.backends_nodup hscan
  have hone := recoveredState_holdsOne root hkey
  have hrecord := hone.record
  obtain ⟨tr', s', hevict, hrw, -⟩ := evict_traced openEnv 1 (s := recoveredState root b)
    (p := 0) false hone.free hone.byId rfl rfl rfl
  have hs := (runs_sound hruns).2
  have hs' : s'.Sound := (Sat.traced (operation_proper openEnv (.evict b.id false))
    (fun l s₁ s₂ hexec hl hI => exec_sound hexec hl hI) trivial hs hevict).2
  refine ⟨root, tr, _, b.id, 0, hruns, hone.byId, rfl, rfl, rfl, ?_, tr', s', hevict, ?_⟩
  · have hdefault : ((recoveredState root b).records 0).key =
        ({} : KernelCompatibilityKey).finalize := by
      rw [hrecord]
      show b.key.ensureFinalized = _
      rw [hkey]
      exact KernelCompatibilityKey.ensureFinalized_finalize _
    show ((recoveredState root b).lookup ((recoveredState root b).records 0).key.finalize {}).artifact =
      some b.id
    rw [hdefault, KernelCompatibilityKey.finalize_finalize]
    exact (recoveredState_lookup root hkey).1
  · rintro ⟨hfound, -⟩
    obtain ⟨-, hart⟩ := (lookup_found_iff hrw.free).mp hfound
    cases inUse_of_found hs hs' hone.byId hrw hart

end KernelCache
