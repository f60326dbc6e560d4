/-
# KernelCache.Index — the two secondary indices, and lookup as a scan.

`by_key` and `by_operation` are maintained by hand next to `by_id`.  `Indexed` says what they are:
the bucket of a digest lists the ids of the records stored under it, oldest first, and the bucket of
an operation the ids of the records for it.  With that, the candidates a lookup collects are a filter
over the records (`collectCandidates_eq`), and a lookup is a scan of the records of the CONSULTED
bucket: those under the key itself, or, only if there is none, those for its operation
(`lookup_scan`).  A poisoned record under the key hides every compatible one under another key
(`lookup_hides`).
-/
import KernelCache.Interleaving
import KernelCache.ReuseRules
import KernelCache.Sequential

namespace KernelCache

open Foundation (Bytes Prog Runs Pool Event)
open Impl (CandidateSnapshot)

/-! ## Buckets -/

namespace Impl

/-- The records that `sel` picks, oldest first. -/
def select (s : Impl) (sel : ArtifactRecord → Bool) : List Nat :=
  (List.range s.nextRecord).filter fun p => sel (s.records p)

theorem mem_select {s : Impl} {sel : ArtifactRecord → Bool} {p : Nat} :
    p ∈ s.select sel ↔ p < s.nextRecord ∧ sel (s.records p) = true := by
  simp [select]

theorem select_sorted (s : Impl) (sel : ArtifactRecord → Bool) : (s.select sel).Pairwise (· < ·) :=
  List.pairwise_lt_range.filter _

/-- The ids of the records `sel` picks. -/
def idsOf (s : Impl) (sel : ArtifactRecord → Bool) : List ArtifactId :=
  (s.select sel).map fun p => (s.records p).id

/-- The records stored under a digest. -/
def hasDigest (d : Sha256Digest) (r : ArtifactRecord) : Bool := decide (r.key.digest = d)

/-- The records for an operation. -/
def hasOperation (op : Str) (r : ArtifactRecord) : Bool := decide (r.operation = op)

/-- The secondary indices list what they should. -/
structure Indexed (s : Impl) : Prop where
  keys : ∀ d, (s.byKey.lookup d).getD [] = s.idsOf (hasDigest d)
  operations : ∀ op, (s.byOperation.lookup op).getD [] = s.idsOf (hasOperation op)

theorem initial_indexed (store : FilePersistenceStore) : (Impl.initial store).Indexed := by
  refine ⟨fun d => ?_, fun op => ?_⟩
  · have hempty : (Impl.initial store).byKey.lookup d = none := AList.lookup_empty d
    rw [hempty]
    rfl
  · have hempty : (Impl.initial store).byOperation.lookup op = none := AList.lookup_empty op
    rw [hempty]
    rfl

/-- A new record goes to the end of every selection it belongs to. -/
theorem select_insert (s : Impl) (r : ArtifactRecord) (sel : ArtifactRecord → Bool) :
    (s.insertIndexLocked r).select sel = s.select sel ++
      if sel { r with key := r.key.ensureFinalized } then [s.nextRecord] else [] := by
  have hnew : (s.insertIndexLocked r).records s.nextRecord =
      { r with key := r.key.ensureFinalized } := Function.update_self ..
  have hnext : (s.insertIndexLocked r).nextRecord = s.nextRecord + 1 := rfl
  have hfront : ((List.range s.nextRecord).filter
      fun p => sel ((s.insertIndexLocked r).records p)) = s.select sel := by
    refine List.filter_congr fun p hp => ?_
    rw [insertIndexLocked_records r (List.mem_range.mp hp)]
  rw [select, hnext, List.range_succ, List.filter_append, hfront, ← hnew]
  cases hsel : sel ((s.insertIndexLocked r).records s.nextRecord) with
  | true => simp [hsel]
  | false => simp [hsel]

theorem idsOf_insert (s : Impl) (r : ArtifactRecord) (sel : ArtifactRecord → Bool) :
    (s.insertIndexLocked r).idsOf sel =
      s.idsOf sel ++ if sel { r with key := r.key.ensureFinalized } then [r.id] else [] := by
  have hnew : ((s.insertIndexLocked r).records s.nextRecord).id = r.id := by
    simp [insertIndexLocked]
  have hids : (s.select sel).map (fun p => ((s.insertIndexLocked r).records p).id) = s.idsOf sel := by
    refine List.map_congr_left fun p hp => ?_
    rw [insertIndexLocked_records r (mem_select.mp hp).1]
  rw [idsOf, select_insert, List.map_append, hids]
  split
  · rw [List.map_singleton, hnew]
  · rfl

theorem Indexed.insert {s : Impl} (h : s.Indexed) (r : ArtifactRecord) :
    (s.insertIndexLocked r).Indexed := by
  refine ⟨fun d => ?_, fun op => ?_⟩
  · rw [idsOf_insert, ← h.keys d, insertIndexLocked_byKey]
    simp [hasDigest]
  · rw [idsOf_insert, ← h.operations op, insertIndexLocked_byOperation]
    simp [hasOperation]

/-- A selection by what never changes does not change. -/
theorem idsOf_congr {s s' : Impl} {sel : ArtifactRecord → Bool} (hnext : s'.nextRecord = s.nextRecord)
    (hrec : ∀ p < s.nextRecord, sel (s'.records p) = sel (s.records p) ∧
      (s'.records p).id = (s.records p).id) : s'.idsOf sel = s.idsOf sel := by
  have hfront : s'.select sel = s.select sel := by
    unfold select
    rw [hnext]
    exact List.filter_congr fun p hp => (hrec p (List.mem_range.mp hp)).1
  unfold idsOf
  rw [hfront]
  exact List.map_congr_left fun p hp => (hrec p (mem_select.mp hp).1).2

end Impl

/-- No change to a record moves it to another operation. -/
theorem ArtifactRecord.Updates.operation_eq {p : Nat} {l : Step} {r r' : ArtifactRecord}
    (h : Updates p r l r') : r'.operation = r.operation := by
  cases h with
  | evictCommit =>
    unfold ArtifactRecord.evictCommit
    split <;> rfl
  | validatedBy res =>
    unfold ArtifactRecord.validatedBy
    split <;> rfl
  | _ => rfl

theorem exec_operation {env : Env} {l : Step} {s s' : Impl} (h : exec env l s = some s')
    (hl : l.Proper) {p : Nat} (hp : p < s.nextRecord) :
    (s'.records p).operation = (s.records p).operation := by
  rcases exec_records h hl hp with heq | hupd
  · rw [heq]
  · exact hupd.operation_eq

/-- **The indices, one step.** -/
theorem exec_indexed {env : Env} {l : Step} {s s' : Impl} (h : exec env l s = some s')
    (hl : l.Proper) (hs : s.Indexed) : s'.Indexed := by
  by_cases hins : l.inserts = true
  · obtain ⟨-, rfl⟩ := exec_eq_some.mp h
    obtain ⟨st, hst⟩ := l.effect_inserts env s hins hl
    have hall : (s.insertAll (l.offers env s)).Indexed :=
      Impl.insertAll_induction hs fun s' r _ h _ => h.insert r
    rw [hst]
    exact ⟨hall.keys, hall.operations⟩
  · have hevolves := fun p hp => exec_evolves (p := p) h hl hp
    have hoperation := fun p hp => exec_operation (p := p) h hl hp
    have hindex : s.SameIndex s' := exec_sameIndex h (by simpa using hins)
    refine ⟨fun d => ?_, fun op => ?_⟩
    · rw [hindex.byKey, hs.keys d]
      refine (Impl.idsOf_congr hindex.nextRecord fun p hp => ?_).symm
      simp only [Impl.hasDigest, (hevolves p hp).key_eq, (hevolves p hp).id_eq, and_self]
    · rw [hindex.byOperation, hs.operations op]
      refine (Impl.idsOf_congr hindex.nextRecord fun p hp => ?_).symm
      simp only [Impl.hasOperation, hoperation p hp, (hevolves p hp).id_eq, and_self]

/-- **The indices, every run.** -/
theorem runs_indexed {env : Env} {store : FilePersistenceStore} {tr : List (Event Step Impl)}
    {pool : Pool Step Impl Answer} (h : CacheRuns env store tr pool) : pool.shared.Indexed := by
  refine (Runs.invariant (Impl.initial_indexed store) h fun e he hs => ?_).2
  exact exec_indexed (h.event_step e he) (runs_proper h e he) hs

/-! ## Candidates -/

namespace Impl

/-- The records a lookup looks at: those under the key, or, if there are none, those for its
operation. -/
def consulted (s : Impl) (key : KernelCompatibilityKey) : List Nat :=
  if (s.select (hasDigest key.digest)).isEmpty && !key.operation.isEmpty then
    s.select (hasOperation key.operation)
  else s.select (hasDigest key.digest)

theorem emitAll_idsOf {s : Impl} (hs : s.Sound) (sel : ArtifactRecord → Bool) :
    s.emitAll (s.idsOf sel) = (s.select sel).map s.snapshotOf := by
  unfold emitAll idsOf
  rw [List.filterMap_map, ← List.filterMap_eq_map]
  refine List.filterMap_congr fun p hp => ?_
  simp only [Function.comp, hs.indexed p (mem_select.mp hp).1, Option.map_some]

/-- The candidates of a lookup are the snapshots of the records it consults. -/
theorem collectCandidates_eq {s : Impl} (hs : s.Sound) (hi : s.Indexed)
    (key : KernelCompatibilityKey) :
    s.collectCandidates key.finalize = (s.consulted key.finalize).map s.snapshotOf := by
  unfold collectCandidates consulted
  rw [KernelCompatibilityKey.ensureFinalized_finalize, hi.keys, hi.operations, emitAll_idsOf hs,
    emitAll_idsOf hs]
  simp only [List.isEmpty_map]
  split <;> rfl

/-- The same as a property of a record. -/
def Consults (s : Impl) (key : KernelCompatibilityKey) (p : Nat) : Prop :=
  p < s.nextRecord ∧ ((s.records p).key.digest = key.digest ∨
    (∀ q < s.nextRecord, (s.records q).key.digest ≠ key.digest) ∧ key.operation ≠ [] ∧
      (s.records p).operation = key.operation)

theorem mem_consulted {s : Impl} {key : KernelCompatibilityKey} {p : Nat} :
    p ∈ s.consulted key ↔ s.Consults key p := by
  have hempty : s.select (hasDigest key.digest) = [] ↔
      ∀ q < s.nextRecord, (s.records q).key.digest ≠ key.digest := by
    simp [select, hasDigest, List.filter_eq_nil_iff]
  unfold consulted Consults
  by_cases hnone : s.select (hasDigest key.digest) = []
  · have hall := hempty.mp hnone
    by_cases hop : key.operation = []
    · simp only [hnone, hop, List.isEmpty_nil, Bool.not_true, Bool.and_false, Bool.false_eq_true,
        if_false, List.not_mem_nil, ne_eq, not_true_eq_false, false_and, and_false, or_false, false_iff,
        not_and]
      exact fun hp => hall p hp
    · have hcond : ((s.select (hasDigest key.digest)).isEmpty && !key.operation.isEmpty) = true := by
        simp [hnone, hop]
      rw [if_pos hcond, mem_select]
      constructor
      · rintro ⟨hp, hsel⟩
        exact ⟨hp, .inr ⟨hall, hop, of_decide_eq_true hsel⟩⟩
      · rintro ⟨hp, hkey | ⟨-, -, hsel⟩⟩
        · exact absurd hkey (hall p hp)
        · exact ⟨hp, decide_eq_true hsel⟩
  · have hcond : ((s.select (hasDigest key.digest)).isEmpty && !key.operation.isEmpty) = false := by
      simp [hnone]
    rw [hcond, if_neg (by simp), mem_select]
    constructor
    · rintro ⟨hp, hsel⟩
      exact ⟨hp, .inl (of_decide_eq_true hsel)⟩
    · rintro ⟨hp, hkey | ⟨hall, -⟩⟩
      · exact ⟨hp, decide_eq_true hkey⟩
      · exact absurd (hempty.mpr hall) hnone

/-- A record a lookup of `key` may answer with: healthy, and compatible under the policy. -/
def Serves (s : Impl) (key : KernelCompatibilityKey) (policy : CompatibilityPolicy) (p : Nat) :
    Prop :=
  (s.snapshotOf p).healthy = true ∧
    (evaluateCompatibility key (s.records p).key policy).compatible = true

/-- Healthy for a lookup: leasable and validated. -/
theorem healthy_iff (s : Impl) (p : Nat) : (s.snapshotOf p).healthy = true ↔
    (s.records p).leasable = true ∧ (s.records p).validated = true := by
  simp only [CandidateSnapshot.healthy, snapshotOf, ArtifactRecord.leasable, Bool.and_eq_true]
  constructor
  · rintro ⟨⟨hflags, hvalid⟩, helig⟩
    exact ⟨⟨hflags, helig⟩, hvalid⟩
  · rintro ⟨⟨hflags, helig⟩, hvalid⟩
    exact ⟨⟨hflags, hvalid⟩, helig⟩

/-- A healthy record that answers the key exactly serves it. -/
theorem serves_of_exact {s : Impl} {key : KernelCompatibilityKey} (policy : CompatibilityPolicy)
    {p : Nat} (hdigest : (s.records p).key.finalize.digest = key.finalize.digest)
    (hhealthy : (s.snapshotOf p).healthy = true) : s.Serves key policy p := by
  have hexact : evaluateCompatibility key (s.records p).key policy =
      accept .exactCompatible (str "canonical key digest matches exactly") :=
    evaluateCompatibility_of_digest_eq policy hdigest.symm
  refine ⟨hhealthy, ?_⟩
  rw [hexact]
  rfl

/-- How far the record is from what was asked. -/
def distanceOf (s : Impl) (key : KernelCompatibilityKey) (policy : CompatibilityPolicy) (p : Nat) :
    Nat :=
  (evaluateCompatibility key (s.records p).key policy).distance

end Impl

/-! ## The scan -/

theorem mem_judge_of_healthy {key : KernelCompatibilityKey} {policy : CompatibilityPolicy}
    {candidates : List CandidateSnapshot} {c : CandidateSnapshot} (hmem : c ∈ candidates)
    (hhealthy : c.healthy = true)
    (hcompat : (evaluateCompatibility key c.key policy).compatible = true) :
    (c, evaluateCompatibility key c.key policy) ∈ judge key policy candidates := by
  simp only [Impl.CandidateSnapshot.healthy, Bool.and_eq_true, Bool.not_eq_true'] at hhealthy
  obtain ⟨⟨⟨hinv, hcor⟩, hval⟩, helig⟩ := hhealthy
  refine List.mem_filterMap.mpr ⟨c, hmem, ?_⟩
  simp [hinv, hcor, hval, helig, hcompat]

theorem closest_isSome {cs : List Judged} (h : cs ≠ []) : (closest cs).isSome = true := by
  cases cs with
  | nil => exact absurd rfl h
  | cons c cs =>
    simp only [closest]
    split
    · rfl
    · split <;> rfl

/-- The one chosen comes before all that are as close, and none is closer. -/
theorem closest_first {cs : List Judged} {c : Judged} (h : closest cs = some c) :
    ∃ before after, cs = before ++ c :: after ∧ (∀ b ∈ before, c.2.distance < b.2.distance) ∧
      ∀ b ∈ after, c.2.distance ≤ b.2.distance := by
  induction cs generalizing c with
  | nil => cases h
  | cons a cs ih =>
    simp only [closest] at h
    cases hrest : closest cs with
    | none =>
      rw [hrest] at h
      obtain rfl := Option.some.inj h
      have hnil : cs = [] := by
        by_contra hne
        have hsome := closest_isSome hne
        rw [hrest] at hsome
        cases hsome
      subst hnil
      exact ⟨[], [], rfl, by simp, by simp⟩
    | some best =>
      rw [hrest] at h
      obtain ⟨before, after, rfl, hbefore, hafter⟩ := ih hrest
      dsimp only at h
      split at h
      · rename_i hlt
        obtain rfl := Option.some.inj h
        exact ⟨a :: before, after, rfl, List.forall_mem_cons.mpr ⟨hlt, hbefore⟩, hafter⟩
      · rename_i hge
        obtain rfl := Option.some.inj h
        refine ⟨[], _, rfl, by simp, fun b hb => ?_⟩
        rcases List.mem_append.mp hb with hfront | hback
        · have hbest := hbefore b hfront
          omega
        · rcases List.mem_cons.mp hback with rfl | htail
          · omega
          · have hbest := hafter b htail
            omega

theorem closest_le {cs : List Judged} {c : Judged} (h : closest cs = some c) {b : Judged}
    (hb : b ∈ cs) : c.2.distance ≤ b.2.distance := by
  obtain ⟨before, after, rfl, hbefore, hafter⟩ := closest_first h
  rcases List.mem_append.mp hb with hfront | hback
  · exact (hbefore b hfront).le
  · rcases List.mem_cons.mp hback with rfl | htail
    · exact le_rfl
    · exact hafter b htail

/-- **Lookup is a scan of the records it consults.** It is a hit if and only if one of them serves
the request, and it then answers with one that is closest. -/
theorem Impl.lookup_iff {s : Impl} (hs : s.Sound) (hi : s.Indexed) (key : KernelCompatibilityKey)
    (policy : CompatibilityPolicy) :
    ((s.lookup key.finalize policy).outcome.isHit = true ↔
      ∃ p, s.Consults key.finalize p ∧ s.Serves key policy p) ∧
    ∀ id, (s.lookup key.finalize policy).artifact = some id → ∃ p, s.byId.lookup id = some p ∧
      s.Consults key.finalize p ∧ s.Serves key policy p ∧
      ∀ q, s.Consults key.finalize q → s.Serves key policy q →
        s.distanceOf key policy p ≤ s.distanceOf key policy q := by
  have hcands := Impl.collectCandidates_eq hs hi key
  have hmem : ∀ p, s.Consults key.finalize p → s.snapshotOf p ∈ s.collectCandidates key.finalize := by
    intro p hp
    rw [hcands]
    exact List.mem_map_of_mem (Impl.mem_consulted.mpr hp)
  -- what serves the request is among the judged
  have hjudged : ∀ q, s.Consults key.finalize q → s.Serves key policy q →
      (s.snapshotOf q, evaluateCompatibility key (s.records q).key policy) ∈
        judge key.finalize policy (s.collectCandidates key.finalize) := by
    intro q hq hserves
    rw [← evaluateCompatibility_finalize]
    refine mem_judge_of_healthy (hmem q hq) hserves.1 ?_
    rw [evaluateCompatibility_finalize]
    exact hserves.2
  rcases decideLookup_spec key.finalize policy (s.collectCandidates key.finalize) with
    ⟨hmiss, hnone⟩ | ⟨hhit, c, hc, hart, -, hhealthy, hcompat, hbest⟩
  · have hmiss' : (s.lookup key.finalize policy).outcome.isHit = false := hmiss
    have hnone' : (s.lookup key.finalize policy).artifact = none := hnone
    rw [hmiss', hnone']
    refine ⟨iff_of_false (by simp) ?_, fun id hid => by cases hid⟩
    rintro ⟨p, hp, hserves⟩
    have hsome := closest_isSome (List.ne_nil_of_mem (hjudged p hp hserves))
    obtain ⟨b, hb⟩ := Option.isSome_iff_exists.mp hsome
    simp only [decideLookup, hb, hitOutcome_isHit] at hmiss
    cases hmiss
  · have hhit' : (s.lookup key.finalize policy).outcome.isHit = true := hhit
    have hart' : (s.lookup key.finalize policy).artifact = some c.id := hart
    rw [hcands] at hc
    obtain ⟨p, hp, rfl⟩ := List.mem_map.mp hc
    have hconsults := Impl.mem_consulted.mp hp
    rw [evaluateCompatibility_finalize] at hcompat hbest
    have hserves : s.Serves key policy p := ⟨hhealthy, hcompat⟩
    rw [hhit', hart']
    refine ⟨iff_of_true rfl ⟨p, hconsults, hserves⟩, fun id hid => ?_⟩
    obtain rfl := Option.some.inj hid
    refine ⟨p, hs.indexed p hconsults.1, hconsults, hserves, fun q hq hq' => ?_⟩
    exact closest_le hbest (hjudged q hq hq')

theorem lookup_answer {env : Env} {request : KernelLookupRequest} {s s' : Impl}
    {r : KernelLookupResult}
    (h : ((Operation.lookup request).prog env).run (exec env) s = some (.lookup r, s')) :
    request.key.wellFormed = true ∧ r = s.lookup request.key.finalize request.policy := by
  rw [Operation.prog, Prog.bind_eq, Prog.run_of_bind] at h
  obtain ⟨res, s₁, hlookup, hret⟩ := h
  rcases lookupImpl_run hlookup with ⟨-, rfl, -⟩ | ⟨hkey, -, rfl, -⟩
  · cases hret
  · simp only [answer, Prog.pure_eq, Prog.run_ret, Option.some.injEq, Prod.mk.injEq,
      Answer.lookup.injEq] at hret
    exact ⟨hkey, hret.1.symm⟩

/-- **The indexed lookup is a scan.** In every reachable state a lookup is a hit if and only if a
record under the key itself, or for its operation when no record is under the key, is validated, not
invalidated, not corrupt, in an eligible state and compatible under the policy; the one chosen is
closest among these. -/
theorem lookup_scan {env : Env} {store : FilePersistenceStore} {tr : List (Event Step Impl)}
    {pool : Pool Step Impl Answer} (h : CacheRuns env store tr pool) {request : KernelLookupRequest}
    {r : KernelLookupResult} {s' : Impl}
    (hrun : ((Operation.lookup request).prog env).run (exec env) pool.shared =
      some (.lookup r, s')) :
    (r.outcome.isHit = true ↔ ∃ p, pool.shared.Consults request.key.finalize p ∧
      pool.shared.Serves request.key request.policy p) ∧
    ∀ id, r.artifact = some id → ∃ p, pool.shared.byId.lookup id = some p ∧
      pool.shared.Consults request.key.finalize p ∧
      pool.shared.Serves request.key request.policy p ∧
      ∀ q, pool.shared.Consults request.key.finalize q →
        pool.shared.Serves request.key request.policy q →
        pool.shared.distanceOf request.key request.policy p ≤
          pool.shared.distanceOf request.key request.policy q := by
  rw [(lookup_answer hrun).2]
  exact Impl.lookup_iff (runs_sound h).2 (runs_indexed h) request.key request.policy

/-- A validated artifact of the other revision. -/
def revisedArtifact : ArtifactDescriptor :=
  { id := ⟨⟨1, 8⟩⟩, generation := 1, key := revisedKey, validation := allChecks }

/-- A cache that has the artifact of the other revision only. -/
def revisedState : Impl :=
  { (Impl.initial {}).insertIndexLocked (makeRecord 0 revisedArtifact [1]) with tick := 1 }

/-- Nothing is under the key that is looked up; the one record of its operation serves it, and is found. -/
theorem lookup_scan_sample : ∃ tr pool r s', CacheRuns {} {} tr pool ∧
    ((Operation.lookup { key := gemmKey, policy := runtimePolicy }).prog {}).run (exec {})
      pool.shared = some (.lookup r, s') ∧
    (pool.shared.records 0).key.digest ≠ gemmKey.finalize.digest ∧ r.outcome.isHit = true ∧
    ∀ id, r.artifact = some id → id = ⟨⟨1, 8⟩⟩ := by
  have hruns : CacheRuns {} {} [⟨0, .put revisedArtifact [1], Impl.initial {}, revisedState⟩]
      ⟨revisedState, [.ret (.id ⟨⟨1, 8⟩⟩)]⟩ :=
    Runs.refl.complete (p := (Operation.put revisedArtifact [1]).prog {}) ⟨_, rfl⟩ rfl
  have hkey : (revisedState.records 0).key = revisedKey.finalize := rfl
  have hother : (revisedState.records 0).key.digest ≠ gemmKey.finalize.digest := by
    rw [hkey]
    exact fun h => gemmKey_digest_ne h.symm
  have hserves : revisedState.Serves gemmKey runtimePolicy 0 := by
    refine ⟨rfl, ?_⟩
    rw [hkey, evaluateCompatibility_finalize_right, gemmKey_runtime]
    rfl
  have hconsults : revisedState.Consults gemmKey.finalize 0 := by
    refine ⟨Nat.zero_lt_one, .inr ⟨fun q hq => ?_, ?_, ?_⟩⟩
    · obtain rfl : q = 0 := Nat.lt_one_iff.mp hq
      exact hother
    · rw [KernelCompatibilityKey.finalize_toKeyFields]
      decide
    · rw [KernelCompatibilityKey.finalize_toKeyFields]
      rfl
  have hrun := lookup_run {} { key := gemmKey, policy := runtimePolicy } rfl (s := revisedState) rfl
  obtain ⟨hhit, hchosen⟩ := lookup_scan hruns hrun
  refine ⟨_, _, _, _, hruns, hrun, hother, hhit.mpr ⟨0, hconsults, hserves⟩, fun id hid => ?_⟩
  obtain ⟨p, hp, hfound, -⟩ := hchosen id hid
  obtain rfl : p = 0 := Nat.lt_one_iff.mp hfound.1
  exact ((runs_sound hruns).2.bound id 0 hp).2.symm

/-- An artifact that was never validated. -/
def uncheckedArtifact : ArtifactDescriptor := { id := ⟨⟨1, 7⟩⟩, generation := 1, key := gemmKey }

/-- **An unhealthy record under the key hides the healthy ones under compatible keys.** -/
theorem lookup_hides : ∃ tr pool r s', CacheRuns {} {} tr pool ∧
    ((Operation.lookup { key := gemmKey, policy := runtimePolicy }).prog {}).run (exec {})
      pool.shared = some (.lookup r, s') ∧ r.outcome.isHit = false ∧
    ∃ p, pool.shared.byId.lookup ⟨⟨1, 8⟩⟩ = some p ∧
      (pool.shared.records p).operation = gemmKey.operation ∧
      pool.shared.Serves gemmKey runtimePolicy p := by
  obtain ⟨s₁, s₂, hput₁, hput₂, hfree, hnext, hid, hkey₀, hunchecked, hkey₁, hop, hhealthy⟩ :
      ∃ s₁ s₂, ((Operation.put uncheckedArtifact [1]).prog {}).traced (exec {}) 0
          (Impl.initial {}) = some ([⟨0, .put uncheckedArtifact [1], Impl.initial {}, s₁⟩],
            .id ⟨⟨1, 7⟩⟩, s₁) ∧
        ((Operation.put revisedArtifact [1]).prog {}).traced (exec {}) 1 s₁ =
          some ([⟨1, .put revisedArtifact [1], s₁, s₂⟩], .id ⟨⟨1, 8⟩⟩, s₂) ∧
        s₂.statsHeld = false ∧ s₂.nextRecord = 2 ∧ s₂.byId.lookup ⟨⟨1, 8⟩⟩ = some 1 ∧
        (s₂.records 0).key = gemmKey.finalize ∧ (s₂.records 0).validated = false ∧
        (s₂.records 1).key = revisedKey.finalize ∧ (s₂.records 1).operation = gemmKey.operation ∧
        (s₂.snapshotOf 1).healthy = true :=
    ⟨_, _, rfl, rfl, rfl, rfl, rfl, rfl, rfl, rfl, rfl, rfl⟩
  have hruns₁ : CacheRuns {} {} _ ⟨s₁, [.ret (.id ⟨⟨1, 7⟩⟩)]⟩ :=
    Runs.refl.complete ⟨_, rfl⟩ hput₁
  have hruns := hruns₁.complete ⟨_, rfl⟩ hput₂
  have hlookup := lookup_run {} { key := gemmKey, policy := runtimePolicy } rfl hfree
  refine ⟨_, _, _, _, hruns, hlookup, ?_, 1, hid, hop, hhealthy, ?_⟩
  · -- the only record under the key is not healthy
    have hiff := (Impl.lookup_iff (runs_sound hruns).2 (runs_indexed hruns) gemmKey runtimePolicy).1
    by_contra hhit
    obtain ⟨p, ⟨hlt, hconsults⟩, hserves⟩ := hiff.mp (by simpa using hhit)
    rcases hconsults with hdigest | ⟨hnone, -⟩
    · have hp : p = 0 ∨ p = 1 := by
        have hlt' : p < s₂.nextRecord := hlt
        omega
      rcases hp with rfl | rfl
      · have hvalid := hserves.1
        simp [Impl.CandidateSnapshot.healthy, Impl.snapshotOf, hunchecked] at hvalid
      · have hdigest' : (s₂.records 1).key.digest = gemmKey.finalize.digest := hdigest
        rw [hkey₁] at hdigest'
        exact gemmKey_digest_ne hdigest'.symm
    · have hpos : 0 < s₂.nextRecord := by omega
      refine hnone 0 hpos ?_
      show (s₂.records 0).key.digest = _
      rw [hkey₀]
  · show (evaluateCompatibility gemmKey (s₂.records 1).key runtimePolicy).compatible = true
    rw [hkey₁, evaluateCompatibility_finalize_right, gemmKey_runtime]
    rfl

end KernelCache
