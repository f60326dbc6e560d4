/-
# KernelCache.Consistency — the three maps agree (`artifact_store.cpp`, `cache.cpp`).

`check_index_consistency` walks all three maps and collects complaints; `consistent_iff` says what it
means that there are none.  In a reachable state there are none, and moreover `by_operation` lists each
id once, under the operation of its record: `Indexed` names the contents of every bucket, and different
records have different ids (`index_consistent`).

`remove_index_locked` takes back an insertion.  That it restores the maps, and does not leave an empty
bucket where there was none or take one away, needs to know that no bucket was empty before
(`Impl.Tidy`) and that a fresh id is in none of them.
-/
import KernelCache.Index

namespace KernelCache

open Foundation (Bytes Prog Runs Pool Event)

/-! ## The check -/

namespace Impl

/-- The complaints about one bucket of `by_key`. -/
def keyIndexErrors (s : Impl) (d : Sha256Digest) (ids : List ArtifactId) : List Str :=
  ids.flatMap fun id =>
    match s.byId.lookup id with
    | none => [str "key index references unknown artifact " ++ id.toStrongId128.str]
    | some p =>
      (if (s.records p).key.ensureFinalized.digest = d then []
        else [str "key index entry disagrees with artifact key for " ++ id.toStrongId128.str]) ++
      if ids.count id = 1 then [] else [str "duplicate key-index entry for " ++ id.toStrongId128.str]

/-- The complaints about one bucket of `by_operation`. -/
def opIndexErrors (s : Impl) (op : Str) (ids : List ArtifactId) : List Str :=
  ids.flatMap fun id =>
    match s.byId.lookup id with
    | none => [str "op index references unknown artifact " ++ id.toStrongId128.str]
    | some p =>
      if (s.records p).operation ≠ op then [str "op index disagrees for " ++ id.toStrongId128.str]
      else []

/-- The complaint about an artifact that `by_key` does not list. -/
def missingErrors (s : Impl) (id : ArtifactId) (p : Nat) : List Str :=
  if s.byKey.entries.any fun e =>
      decide (e.1 = (s.records p).key.ensureFinalized.digest) && e.2.contains id then []
  else [str "artifact " ++ id.toStrongId128.str ++ str " missing from key index"]

/-- All complaints, in the order in which they are found. -/
def indexErrors (s : Impl) : List Str :=
  (s.byKey.entries.flatMap fun e => s.keyIndexErrors e.1 e.2) ++
  (s.byOperation.entries.flatMap fun e => s.opIndexErrors e.1 e.2) ++
  s.byId.entries.flatMap fun e => s.missingErrors e.1 e.2

/-- `check_index_consistency`: the answer and `*detail`, the first complaint. -/
def checkIndexConsistency (s : Impl) : Bool × Option Str := (s.indexErrors.isEmpty, s.indexErrors.head?)

theorem keyIndexErrors_eq_nil {s : Impl} {d : Sha256Digest} {ids : List ArtifactId} :
    s.keyIndexErrors d ids = [] ↔ ∀ id ∈ ids, ∃ p, s.byId.lookup id = some p ∧
      (s.records p).key.ensureFinalized.digest = d ∧ ids.count id = 1 := by
  unfold keyIndexErrors
  rw [List.flatMap_eq_nil_iff]
  refine forall₂_congr fun id _ => ?_
  cases s.byId.lookup id with
  | none => simp
  | some p => simp

theorem opIndexErrors_eq_nil {s : Impl} {op : Str} {ids : List ArtifactId} :
    s.opIndexErrors op ids = [] ↔ ∀ id ∈ ids, ∃ p, s.byId.lookup id = some p ∧
      (s.records p).operation = op := by
  unfold opIndexErrors
  rw [List.flatMap_eq_nil_iff]
  refine forall₂_congr fun id _ => ?_
  cases s.byId.lookup id with
  | none => simp
  | some p => simp

theorem missingErrors_eq_nil {s : Impl} {id : ArtifactId} {p : Nat} :
    s.missingErrors id p = [] ↔
      id ∈ (s.byKey.lookup (s.records p).key.ensureFinalized.digest).getD [] := by
  unfold missingErrors
  generalize (s.records p).key.ensureFinalized.digest = d
  have hany : (s.byKey.entries.any fun e => decide (e.1 = d) && e.2.contains id) = true ↔
      id ∈ (s.byKey.lookup d).getD [] := by
    rw [List.any_eq_true]
    constructor
    · rintro ⟨⟨d', ids⟩, hmem, hyes⟩
      rw [Bool.and_eq_true, decide_eq_true_eq, List.contains_iff_mem] at hyes
      obtain ⟨rfl, hid⟩ := hyes
      rw [AList.mem_lookup_iff.mpr hmem]
      exact hid
    · intro hid
      cases hlook : s.byKey.lookup d with
      | none =>
        rw [hlook] at hid
        cases hid
      | some ids =>
        rw [hlook] at hid
        refine ⟨⟨d, ids⟩, AList.mem_lookup_iff.mp hlook, ?_⟩
        rw [Bool.and_eq_true, decide_eq_true_eq, List.contains_iff_mem]
        exact ⟨rfl, hid⟩
  split
  · rename_i hyes
    simp [hany.mp hyes]
  · rename_i hno
    simpa using fun hid => hno (hany.mpr hid)

/-- **When the check passes.** -/
theorem consistent_iff {s : Impl} : s.checkIndexConsistency.1 = true ↔
    (∀ d ids, s.byKey.lookup d = some ids → ∀ id ∈ ids, ∃ p, s.byId.lookup id = some p ∧
      (s.records p).key.ensureFinalized.digest = d ∧ ids.count id = 1) ∧
    (∀ op ids, s.byOperation.lookup op = some ids → ∀ id ∈ ids, ∃ p, s.byId.lookup id = some p ∧
      (s.records p).operation = op) ∧
    ∀ id p, s.byId.lookup id = some p →
      id ∈ (s.byKey.lookup (s.records p).key.ensureFinalized.digest).getD [] := by
  unfold checkIndexConsistency indexErrors
  rw [List.isEmpty_iff, List.append_eq_nil_iff, List.append_eq_nil_iff, and_assoc,
    List.flatMap_eq_nil_iff, List.flatMap_eq_nil_iff, List.flatMap_eq_nil_iff]
  refine and_congr ?_ (and_congr ?_ ?_)
  · constructor
    · exact fun h d ids hlook => keyIndexErrors_eq_nil.mp (h ⟨d, ids⟩ (AList.mem_lookup_iff.mp hlook))
    · exact fun h e he => keyIndexErrors_eq_nil.mpr (h e.1 e.2 (AList.mem_lookup_iff.mpr he))
  · constructor
    · exact fun h op ids hlook => opIndexErrors_eq_nil.mp (h ⟨op, ids⟩ (AList.mem_lookup_iff.mp hlook))
    · exact fun h e he => opIndexErrors_eq_nil.mpr (h e.1 e.2 (AList.mem_lookup_iff.mpr he))
  · constructor
    · exact fun h id p hlook => missingErrors_eq_nil.mp (h ⟨id, p⟩ (AList.mem_lookup_iff.mp hlook))
    · exact fun h e he => missingErrors_eq_nil.mpr (h e.1 e.2 (AList.mem_lookup_iff.mpr he))

/-! ## What holds of the buckets -/

/-- Every record has a finalized key, as far as it can be, and no bucket is empty. -/
structure Tidy (s : Impl) : Prop where
  settled : ∀ p < s.nextRecord, (s.records p).key.ensureFinalized = (s.records p).key
  keys : ∀ d, s.byKey.lookup d ≠ some []
  operations : ∀ op, s.byOperation.lookup op ≠ some []

theorem initial_tidy (store : FilePersistenceStore) : (Impl.initial store).Tidy := by
  refine ⟨fun p hp => absurd hp (Nat.not_lt_zero p), fun d => ?_, fun op => ?_⟩
  · have hempty : (Impl.initial store).byKey.lookup d = none := AList.lookup_empty d
    rw [hempty]
    exact fun h => Option.some_ne_none _ h.symm
  · have hempty : (Impl.initial store).byOperation.lookup op = none := AList.lookup_empty op
    rw [hempty]
    exact fun h => Option.some_ne_none _ h.symm

end Impl

theorem KernelCompatibilityKey.ensureFinalized_ensureFinalized (k : KernelCompatibilityKey) :
    k.ensureFinalized.ensureFinalized = k.ensureFinalized := by
  by_cases hfinal : k.finalized = true
  · have hsame : k.ensureFinalized = k := if_pos hfinal
    rw [hsame, hsame]
  · have hnew : k.ensureFinalized = k.finalize := if_neg hfinal
    rw [hnew, KernelCompatibilityKey.ensureFinalized_finalize]

namespace Impl

theorem Tidy.insert {s : Impl} (h : s.Tidy) (r : ArtifactRecord) : (s.insertIndexLocked r).Tidy := by
  refine ⟨fun p hp => ?_, fun d => ?_, fun op => ?_⟩
  · by_cases hnew : p = s.nextRecord
    · subst hnew
      have hrec : ((s.insertIndexLocked r).records s.nextRecord).key = r.key.ensureFinalized := by
        simp [insertIndexLocked]
      rw [hrec]
      exact KernelCompatibilityKey.ensureFinalized_ensureFinalized _
    · have hold : p < s.nextRecord := by
        have hlt : p < s.nextRecord + 1 := hp
        omega
      rw [insertIndexLocked_records r hold]
      exact h.settled p hold
  · by_cases hd : d = r.key.ensureFinalized.digest
    · subst hd
      have hlook : (s.insertIndexLocked r).byKey.lookup r.key.ensureFinalized.digest =
          some ((s.byKey.lookup r.key.ensureFinalized.digest).getD [] ++ [r.id]) :=
        AList.lookup_insert _
      rw [hlook]
      simp
    · have hlook : (s.insertIndexLocked r).byKey.lookup d = s.byKey.lookup d :=
        AList.lookup_insert_ne hd
      rw [hlook]
      exact h.keys d
  · by_cases hop : op = r.operation
    · subst hop
      have hlook : (s.insertIndexLocked r).byOperation.lookup r.operation =
          some ((s.byOperation.lookup r.operation).getD [] ++ [r.id]) := AList.lookup_insert _
      rw [hlook]
      simp
    · have hlook : (s.insertIndexLocked r).byOperation.lookup op = s.byOperation.lookup op :=
        AList.lookup_insert_ne hop
      rw [hlook]
      exact h.operations op

end Impl

theorem exec_tidy {env : Env} {l : Step} {s s' : Impl} (h : exec env l s = some s')
    (hl : l.Proper) (hs : s.Tidy) : s'.Tidy := by
  by_cases hins : l.inserts = true
  · obtain ⟨-, rfl⟩ := exec_eq_some.mp h
    obtain ⟨st, hst⟩ := l.effect_inserts env s hins hl
    have hall : (s.insertAll (l.offers env s)).Tidy :=
      Impl.insertAll_induction hs fun s' r _ h _ => h.insert r
    rw [hst]
    exact ⟨hall.settled, hall.keys, hall.operations⟩
  · have hindex : s.SameIndex s' := exec_sameIndex h (by simpa using hins)
    refine ⟨fun p hp => ?_, fun d => ?_, fun op => ?_⟩
    · rw [hindex.nextRecord] at hp
      rw [(exec_evolves h hl hp).key_eq]
      exact hs.settled p hp
    · rw [hindex.byKey]
      exact hs.keys d
    · rw [hindex.byOperation]
      exact hs.operations op

theorem runs_tidy {env : Env} {store : FilePersistenceStore} {tr : List (Event Step Impl)}
    {pool : Pool Step Impl Answer} (h : CacheRuns env store tr pool) : pool.shared.Tidy := by
  refine (Runs.invariant (Impl.initial_tidy store) h fun e he hs => ?_).2
  exact exec_tidy (h.event_step e he) (runs_proper h e he) hs

namespace Impl

variable {s : Impl} (hs : s.Sound) (hi : s.Indexed)

include hs in
/-- Different records have different ids, so an id is listed once. -/
theorem count_idsOf (sel : ArtifactRecord → Bool) {id : ArtifactId} {p : Nat}
    (hp : s.byId.lookup id = some p) :
    (s.idsOf sel).count id = if sel (s.records p) then 1 else 0 := by
  have hnodup : (s.idsOf sel).Nodup := by
    refine List.Nodup.map_on ?_ ((s.select_sorted sel).imp fun h => Nat.ne_of_lt h)
    intro q hq q' hq' heq
    have hq₁ := hs.indexed q (mem_select.mp hq).1
    rw [heq, hs.indexed q' (mem_select.mp hq').1] at hq₁
    exact (Option.some.inj hq₁).symm
  obtain ⟨hbound, hid⟩ := hs.bound id p hp
  have hmem : id ∈ s.idsOf sel ↔ sel (s.records p) = true := by
    constructor
    · intro hlisted
      obtain ⟨q, hq, hqid⟩ := List.mem_map.mp hlisted
      have hlook := hs.indexed q (mem_select.mp hq).1
      rw [hqid, hp] at hlook
      rw [Option.some.inj hlook]
      exact (mem_select.mp hq).2
    · intro hsel
      exact List.mem_map.mpr ⟨p, mem_select.mpr ⟨hbound, hsel⟩, hid⟩
  split
  · rename_i hsel
    exact List.count_eq_one_of_mem hnodup (hmem.mpr hsel)
  · rename_i hsel
    exact List.count_eq_zero_of_not_mem fun hlisted => hsel (hmem.mp hlisted)

include hs in
theorem mem_idsOf_lookup {sel : ArtifactRecord → Bool} {id : ArtifactId} (h : id ∈ s.idsOf sel) :
    ∃ p, s.byId.lookup id = some p ∧ sel (s.records p) = true := by
  obtain ⟨p, hp, rfl⟩ := List.mem_map.mp h
  exact ⟨p, hs.indexed p (mem_select.mp hp).1, (mem_select.mp hp).2⟩

include hs hi in
theorem consistent_of_indexed (ht : s.Tidy) : s.checkIndexConsistency.1 = true := by
  rw [consistent_iff]
  refine ⟨fun d ids hlook id hid => ?_, fun op ids hlook id hid => ?_, fun id p hp => ?_⟩
  · have hbucket : ids = s.idsOf (hasDigest d) := by rw [← hi.keys d, hlook, Option.getD_some]
    subst hbucket
    obtain ⟨p, hp, hsel⟩ := mem_idsOf_lookup hs hid
    refine ⟨p, hp, ?_, ?_⟩
    · rw [ht.settled p (hs.bound id p hp).1]
      exact of_decide_eq_true hsel
    · rw [count_idsOf hs _ hp, if_pos hsel]
  · have hbucket : ids = s.idsOf (hasOperation op) := by
      rw [← hi.operations op, hlook, Option.getD_some]
    subst hbucket
    obtain ⟨p, hp, hsel⟩ := mem_idsOf_lookup hs hid
    exact ⟨p, hp, of_decide_eq_true hsel⟩
  · obtain ⟨hbound, hid⟩ := hs.bound id p hp
    rw [hi.keys, ht.settled p hbound]
    exact List.mem_map.mpr ⟨p, mem_select.mpr ⟨hbound, decide_eq_true rfl⟩, hid⟩

include hs hi in
/-- An id is in `by_operation` once, under the operation of its record. -/
theorem count_byOperation {id : ArtifactId} {p : Nat} (hp : s.byId.lookup id = some p) (op : Str) :
    ((s.byOperation.lookup op).getD []).count id =
      if op = (s.records p).operation then 1 else 0 := by
  rw [hi.operations op, count_idsOf hs _ hp]
  unfold hasOperation
  by_cases hop : op = (s.records p).operation
  · rw [if_pos (decide_eq_true hop.symm), if_pos hop]
  · rw [if_neg (by simpa using Ne.symm hop), if_neg hop]

end Impl

/-! ## Taking an insertion back -/

/-- The maps have the same entries, in whatever order they are kept. -/
def SameMap {α β : Type} (m m' : Map α β) : Prop := m.entries.Perm m'.entries

theorem SameMap.of_lookup {α β : Type} [DecidableEq α] {m m' : Map α β}
    (h : ∀ k, m.lookup k = m'.lookup k) : SameMap m m' := by
  refine List.lookup_ext m.nodupKeys m'.nodupKeys fun k v => ?_
  have hlook : m.entries.dlookup k = m'.entries.dlookup k := h k
  rw [hlook]

/-- `kv.erase(std::remove(...)); if (kv.empty()) map.erase(key);` -/
def removeBucket {α : Type} [DecidableEq α] (m : Map α (List ArtifactId)) (k : α)
    (id : ArtifactId) : Map α (List ArtifactId) :=
  let ids := ((m.lookup k).getD []).filter (· ≠ id)
  if ids.isEmpty then m.erase k else m.insert k ids

/-- An id that is pushed to a bucket and removed again leaves the bucket as it was, if it was not
empty and did not list the id. -/
theorem removeBucket_insert {α : Type} [DecidableEq α] {m : Map α (List ArtifactId)} {k : α}
    {id : ArtifactId} (hbucket : m.lookup k ≠ some []) (hfresh : id ∉ (m.lookup k).getD []) :
    SameMap (removeBucket (m.insert k ((m.lookup k).getD [] ++ [id])) k id) m := by
  have hids : ((((m.insert k ((m.lookup k).getD [] ++ [id])).lookup k).getD []).filter (· ≠ id)) =
      (m.lookup k).getD [] := by
    rw [AList.lookup_insert, Option.getD_some, List.filter_append, List.filter_eq_self.mpr]
    · simp
    · intro id' hid'
      exact decide_eq_true fun heq => hfresh (heq ▸ hid')
  unfold removeBucket
  simp only [hids]
  refine SameMap.of_lookup fun k' => ?_
  by_cases hk : k' = k
  · subst hk
    cases hlook : m.lookup k' with
    | none => simp [AList.lookup_erase]
    | some ids =>
      have hne : ids ≠ [] := fun heq => hbucket (heq ▸ hlook)
      simp [hne, AList.lookup_insert]
  · split
    · rw [AList.lookup_erase_ne hk, AList.lookup_insert_ne hk]
    · rw [AList.lookup_insert_ne hk, AList.lookup_insert_ne hk]

namespace Impl

/-- `remove_index_locked`. -/
def removeIndexLocked (s : Impl) (p : Nat) : Impl :=
  let r := s.records p
  let key := r.key.ensureFinalized
  { s with
    records := Function.update s.records p { r with key := key }
    byId := s.byId.erase r.id
    byKey := removeBucket s.byKey key.digest r.id
    byOperation := removeBucket s.byOperation r.operation r.id }

/-- The three maps are the same. -/
structure SameMaps (s s' : Impl) : Prop where
  byId : SameMap s'.byId s.byId
  byKey : SameMap s'.byKey s.byKey
  byOperation : SameMap s'.byOperation s.byOperation

variable {s : Impl}

/-- A fresh id is in no bucket. -/
theorem notMem_idsOf (hs : s.Sound) {id : ArtifactId} (h : s.byId.lookup id = none)
    (sel : ArtifactRecord → Bool) : id ∉ s.idsOf sel := by
  intro hmem
  obtain ⟨p, hp, -⟩ := mem_idsOf_lookup hs hmem
  rw [h] at hp
  cases hp

theorem removeIndexLocked_insertIndexLocked (hs : s.Sound) (hi : s.Indexed) (ht : s.Tidy)
    {r : ArtifactRecord} (hfresh : s.byId.lookup r.id = none) :
    s.SameMaps ((s.insertIndexLocked r).removeIndexLocked s.nextRecord) := by
  have hrec : (s.insertIndexLocked r).records s.nextRecord =
      { r with key := r.key.ensureFinalized } := Function.update_self ..
  unfold removeIndexLocked
  rw [hrec]
  refine ⟨SameMap.of_lookup fun id => ?_, ?_, ?_⟩
  · show ((s.byId.insert r.id s.nextRecord).erase r.id).lookup id = s.byId.lookup id
    by_cases hid : id = r.id
    · subst hid
      rw [AList.lookup_erase, hfresh]
    · rw [AList.lookup_erase_ne hid, AList.lookup_insert_ne hid]
  · show SameMap (removeBucket _ r.key.ensureFinalized.ensureFinalized.digest r.id) s.byKey
    rw [KernelCompatibilityKey.ensureFinalized_ensureFinalized]
    refine removeBucket_insert (ht.keys _) ?_
    rw [hi.keys]
    exact notMem_idsOf hs hfresh _
  · refine removeBucket_insert (ht.operations _) ?_
    rw [hi.operations]
    exact notMem_idsOf hs hfresh _

end Impl

/-- **Index consistency.** In every state of every run the check passes, each id is listed once in
`by_operation`, under the operation of its record and nowhere else, and removing a record right after
inserting it under a fresh id restores the three maps. -/
theorem index_consistent {env : Env} {store : FilePersistenceStore} {tr : List (Event Step Impl)}
    {pool : Pool Step Impl Answer} (h : CacheRuns env store tr pool) :
    pool.shared.checkIndexConsistency = (true, none) ∧
    (∀ id p, pool.shared.byId.lookup id = some p → ∀ op,
      ((pool.shared.byOperation.lookup op).getD []).count id =
        if op = (pool.shared.records p).operation then 1 else 0) ∧
    ∀ r : ArtifactRecord, pool.shared.byId.lookup r.id = none →
      pool.shared.SameMaps
        ((pool.shared.insertIndexLocked r).removeIndexLocked pool.shared.nextRecord) := by
  have hsound := (runs_sound h).2
  have hindexed := runs_indexed h
  have htidy := runs_tidy h
  refine ⟨?_, ?_, ?_⟩
  · have hcheck := Impl.consistent_of_indexed hsound hindexed htidy
    have hnone : pool.shared.indexErrors = [] := List.isEmpty_iff.mp hcheck
    unfold Impl.checkIndexConsistency
    rw [hnone]
    rfl
  · exact fun id p hp op => Impl.count_byOperation hsound hindexed hp op
  · exact fun r hfresh => Impl.removeIndexLocked_insertIndexLocked hsound hindexed htidy hfresh

/-- Two artifacts of different operations. -/
theorem index_consistent_sample : ∃ tr pool, CacheRuns {} {} tr pool ∧ pool.shared.nextRecord = 2 ∧
    pool.shared.checkIndexConsistency = (true, none) ∧
    ((pool.shared.byOperation.lookup (str "gemm")).getD []).count ⟨⟨0, 8⟩⟩ = 1 ∧
    ((pool.shared.byOperation.lookup []).getD []).count ⟨⟨0, 8⟩⟩ = 0 ∧
    ∀ r : ArtifactRecord, pool.shared.byId.lookup r.id = none →
      pool.shared.SameMaps
        ((pool.shared.insertIndexLocked r).removeIndexLocked pool.shared.nextRecord) := by
  obtain ⟨tr, pool, hplay, hnext, hbound, hop⟩ : ∃ tr pool,
      play {} {} [.start (.put { id := ⟨⟨0, 7⟩⟩ } [1]), .step 0,
        .start (.put { id := ⟨⟨0, 8⟩⟩, key := { operation := str "gemm" } } [2]), .step 1] =
          some (tr, pool) ∧ pool.shared.nextRecord = 2 ∧
      pool.shared.byId.lookup ⟨⟨0, 8⟩⟩ = some 1 ∧
      (pool.shared.records 1).operation = str "gemm" := ⟨_, _, rfl, rfl, rfl, rfl⟩
  have hruns := CacheRuns.of_play hplay
  obtain ⟨hcheck, hcount, hrestore⟩ := index_consistent hruns
  refine ⟨tr, pool, hruns, hnext, hcheck, ?_, ?_, hrestore⟩
  · rw [hcount _ 1 hbound, hop]
    rfl
  · rw [hcount _ 1 hbound, hop]
    rfl

end KernelCache
