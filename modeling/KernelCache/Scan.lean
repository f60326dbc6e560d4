/-
# KernelCache.Scan — the scan of `evict_to_fit` (`residency.cpp`).

A round of the loop goes through `by_id` once.  It adds up what it counts and keeps a running maximum
of what it may evict: it picks nothing within the budget, and else the `List.argmax` of the scores
(`victimOf_eq`).

The scores are values of any linear order here, and the clock stands still: a scan has one score for
each record.
-/
import KernelCache.Impl
import Mathlib.Algebra.BigOperators.Group.List.Basic
import Mathlib.Data.List.MinMax
import Mathlib.Data.UInt

namespace KernelCache

variable {β : Type} [LinearOrder β]

/-! ## What the scan looks at -/

/-- No eviction takes the record. -/
def ArtifactRecord.held (r : ArtifactRecord) : Bool :=
  decide (0 < r.leaseCount) || decide (0 < r.pinCount) || r.invalidated || r.corrupt

/-- The budget of the tier being trimmed. -/
def ResidencyPolicy.budget (policy : ResidencyPolicy) (tier : ResidencyTier) : UInt64 :=
  if tier == .deviceResident then policy.deviceBudgetBytes else policy.hostBudgetBytes

/-! ## The scan of `evict_to_fit` -/

/-- What the scan carries. -/
structure ScoredScan (β : Type) where
  used : UInt64 := 0
  best : Option (ArtifactId × β) := none

namespace Impl

/-- One record of the scan, the scores in any linear order. -/
def scoreRecord (score : ArtifactRecord → β) (s : Impl) (tier : ResidencyTier) (acc : ScoredScan β)
    (id : ArtifactId) : ScoredScan β :=
  match s.byId.lookup id with
  | none => acc
  | some p =>
    let r := s.records p
    let consider (acc : ScoredScan β) : ScoredScan β :=
      match acc.best with
      | none => { acc with best := some (id, score r) }
      | some (_, b) => if b < score r then { acc with best := some (id, score r) } else acc
    if 0 < r.pinCount ∨ 0 < r.leaseCount then acc
    else if r.invalidated || r.corrupt then acc
    else if tier == .deviceResident then
      let acc := { acc with used := acc.used + r.deviceFootprint }
      if r.tier != .deviceResident then acc else consider acc
    else if r.tier != .hostResident && r.tier != .deviceResident then acc
    else consider { acc with used := acc.used + r.desc.sizes.hostBytes }

/-- The victim of a scan in this order, if one is needed. -/
def victimOf (score : ArtifactRecord → β) (s : Impl) (tier : ResidencyTier) (budget : UInt64)
    (order : List ArtifactId) : Option ArtifactId :=
  let acc := order.foldl (s.scoreRecord score tier) {}
  match acc.best with
  | none => none
  | some (id, _) => if acc.used ≤ budget then none else some id

/-- The scan of the cache is one with natural numbers as scores. -/
def scored (acc : Scan) : ScoredScan Nat := ⟨acc.used, acc.best⟩

theorem scanRecord_scored (env : Env) (s : Impl) (tier : ResidencyTier) (acc : Scan)
    (id : ArtifactId) : s.scoreRecord (env.score s.tick) tier (scored acc) id =
      scored (s.scanRecord env tier acc id) := by
  obtain ⟨used, best⟩ := acc
  unfold scanRecord scoreRecord
  cases s.byId.lookup id with
  | none => rfl
  | some p => cases best <;> dsimp only [scored] <;> split_ifs <;> rfl

/-- `evict_to_fit` scans with the scores of the moment, in the order of the moment. -/
theorem pickVictim_eq (env : Env) (s : Impl) (tier : ResidencyTier) :
    s.pickVictim env tier = s.victimOf (env.score s.tick) tier (env.cfg.residency.budget tier)
      (env.idOrder s.tick s.byId.keys) := by
  have hscan : ∀ order : List ArtifactId, order.foldl (s.scoreRecord (env.score s.tick) tier) {} =
      scored (order.foldl (s.scanRecord env tier) {}) := fun order =>
    @List.foldl_hom _ _ _ scored _ _ order {} (scanRecord_scored env s tier)
  unfold pickVictim victimOf
  dsimp only
  rw [hscan]
  generalize (env.idOrder s.tick s.byId.keys).foldl (s.scanRecord env tier) {} = acc
  obtain ⟨used, best⟩ := acc
  cases best <;> rfl

/-! ### What one record adds -/

/-- The record behind an id. -/
def recordOf (s : Impl) (id : ArtifactId) : Option ArtifactRecord := (s.byId.lookup id).map s.records

end Impl

/-- The scan may evict the record: it is not held, and in the tier being trimmed.  What is on the device
counts as host memory too. -/
def ArtifactRecord.evictable (tier : ResidencyTier) (r : ArtifactRecord) : Bool :=
  !r.held && if tier == .deviceResident then r.tier == .deviceResident
    else r.tier == .hostResident || r.tier == .deviceResident

/-- What the scan counts of the record.  The device scan does not look at the tier. -/
def ArtifactRecord.counts (tier : ResidencyTier) (r : ArtifactRecord) : UInt64 :=
  if r.held then 0
  else if tier == .deviceResident then r.deviceFootprint
  else if r.tier == .hostResident || r.tier == .deviceResident then r.desc.sizes.hostBytes
  else 0

/-- The running maximum, with one more. -/
def keepBest (best : Option (ArtifactId × β)) (id : ArtifactId) (score : β) : Option (ArtifactId × β) :=
  match best with
  | none => some (id, score)
  | some (id', b) => if b < score then some (id, score) else some (id', b)

namespace Impl

/-- **One record.** The scan adds up what it counts, and offers what it may evict. -/
theorem scoreRecord_of_record {score : ArtifactRecord → β} {s : Impl} {tier : ResidencyTier}
    {acc : ScoredScan β} {id : ArtifactId} {r : ArtifactRecord} (hid : s.recordOf id = some r) :
    s.scoreRecord score tier acc id = {
      used := acc.used + r.counts tier
      best := if r.evictable tier then keepBest acc.best id (score r) else acc.best } := by
  obtain ⟨p, hp, rfl⟩ := Option.map_eq_some_iff.mp hid
  unfold scoreRecord
  rw [hp]
  dsimp only
  generalize s.records p = r
  cases hheld : r.held with
  | true =>
    have hcounts : r.counts tier = 0 := by simp [ArtifactRecord.counts, hheld]
    have hevictable : r.evictable tier = false := by simp [ArtifactRecord.evictable, hheld]
    rw [hcounts, hevictable, UInt64.add_zero, if_neg Bool.false_ne_true]
    simp only [ArtifactRecord.held, Bool.or_eq_true, decide_eq_true_eq, or_assoc] at hheld
    by_cases hbusy : 0 < r.pinCount ∨ 0 < r.leaseCount
    · rw [if_pos hbusy]
    · rw [if_neg hbusy, if_pos]
      rw [Bool.or_eq_true]
      tauto
  | false =>
    have hcounts : r.counts tier = if tier == .deviceResident then r.deviceFootprint
        else if r.tier == .hostResident || r.tier == .deviceResident then r.desc.sizes.hostBytes
        else 0 := by
      rw [ArtifactRecord.counts, if_neg (by simp [hheld])]
    have hevictable : r.evictable tier = if tier == .deviceResident then r.tier == .deviceResident
        else r.tier == .hostResident || r.tier == .deviceResident := by
      simp [ArtifactRecord.evictable, hheld]
    rw [hcounts, hevictable]
    simp only [ArtifactRecord.held, Bool.or_eq_false_iff, decide_eq_false_iff_not] at hheld
    obtain ⟨⟨⟨hlease, hpin⟩, hinv⟩, hcor⟩ := hheld
    rw [if_neg (by tauto), if_neg (by simp [hinv, hcor])]
    have hconsider : ∀ used, (match acc.best with
        | none => { used := used, best := some (id, score r) }
        | some (_, b) => if b < score r then { used := used, best := some (id, score r) }
          else { used := used, best := acc.best } : ScoredScan β) =
          { used := used, best := keepBest acc.best id (score r) } := by
      intro used
      unfold keepBest
      cases acc.best with
      | none => rfl
      | some best =>
        dsimp only
        split <;> rfl
    by_cases hdevice : (tier == .deviceResident) = true
    · rw [if_pos hdevice, if_pos hdevice, if_pos hdevice]
      by_cases htier : (r.tier == .deviceResident) = true
      · rw [if_neg (by simp [bne, htier]), if_pos htier]
        exact hconsider _
      · rw [if_pos (by simp [bne, htier]), if_neg htier]
    · rw [if_neg hdevice, if_neg hdevice, if_neg hdevice]
      by_cases htier : (r.tier == .hostResident || r.tier == .deviceResident) = true
      · rw [if_neg (by simpa [bne, imp_iff_not_or, or_comm] using htier), if_pos htier, if_pos htier]
        exact hconsider _
      · rw [if_pos (by simpa [bne] using htier), if_neg htier, if_neg htier, UInt64.add_zero]

theorem scoreRecord_of_none {score : ArtifactRecord → β} {s : Impl} {tier : ResidencyTier}
    {acc : ScoredScan β} {id : ArtifactId} (hid : s.recordOf id = none) :
    s.scoreRecord score tier acc id = acc := by
  unfold scoreRecord
  rw [Option.map_eq_none_iff.mp hid]

/-- What the scan counts of the id. -/
def countsOf (s : Impl) (tier : ResidencyTier) (id : ArtifactId) : UInt64 :=
  (s.recordOf id).elim 0 (ArtifactRecord.counts tier)

/-- The scan may evict what is behind the id. -/
def evictableOf (s : Impl) (tier : ResidencyTier) (id : ArtifactId) : Bool :=
  (s.recordOf id).elim false (ArtifactRecord.evictable tier)

/-- The score of what is behind the id. -/
def scoreOf (score : ArtifactRecord → β) (s : Impl) (id : ArtifactId) : β :=
  score ((s.recordOf id).getD {})

/-! ### A whole scan -/

section Scan

variable {score : ArtifactRecord → β} {s : Impl} {tier : ResidencyTier}

/-- **What a scan has counted.** -/
theorem scan_counts (order : List ArtifactId) (acc : ScoredScan β) :
    (order.foldl (s.scoreRecord score tier) acc).used =
      acc.used + (order.map (s.countsOf tier)).sum := by
  induction order generalizing acc with
  | nil => simp
  | cons id order ih =>
    have hone : (s.scoreRecord score tier acc id).used = acc.used + s.countsOf tier id := by
      unfold countsOf
      cases hid : s.recordOf id with
      | none => simp [scoreRecord_of_none hid]
      | some r => simp [scoreRecord_of_record hid]
    rw [List.foldl_cons, ih, hone, List.map_cons, List.sum_cons, UInt64.add_assoc]

/-- **What a scan has found:** the first of what it may evict that no other has a higher score than. -/
theorem scan_argmax (order : List ArtifactId) :
    (order.foldl (s.scoreRecord score tier) {}).best =
      ((order.filter (s.evictableOf tier)).argmax (s.scoreOf score)).map
        fun id => (id, s.scoreOf score id) := by
  induction order using List.reverseRecOn with
  | nil => rfl
  | append_singleton order id ih =>
    rw [List.foldl_append, List.foldl_cons, List.foldl_nil, List.filter_append]
    generalize order.foldl (s.scoreRecord score tier) {} = acc at ih
    cases hid : s.recordOf id with
    | none =>
      have hskip : s.evictableOf tier id = false := by simp [evictableOf, hid]
      rw [scoreRecord_of_none hid, List.filter_singleton, hskip, cond_false, List.append_nil]
      exact ih
    | some r =>
      have hevictable : s.evictableOf tier id = r.evictable tier := by simp [evictableOf, hid]
      have hscore : s.scoreOf score id = score r := by simp [scoreOf, hid]
      rw [scoreRecord_of_record hid, List.filter_singleton, hevictable]
      dsimp only
      cases r.evictable tier with
      | false =>
        rw [if_neg Bool.false_ne_true, cond_false, List.append_nil]
        exact ih
      | true =>
        rw [if_pos rfl, cond_true, List.argmax_concat, ih, ← hscore]
        cases (order.filter (s.evictableOf tier)).argmax (s.scoreOf score) with
        | none => rfl
        | some id' =>
          dsimp only [keepBest, Option.map_some]
          split <;> rfl

end Scan

/-! ### The choice -/

/-- What a scan counts, in whatever order. -/
def usedIn (s : Impl) (tier : ResidencyTier) : UInt64 := (s.byId.keys.map (s.countsOf tier)).sum

section Choice

variable {score : ArtifactRecord → β} {s : Impl} {tier : ResidencyTier} {budget : UInt64}
  {order : List ArtifactId}

theorem evictableOf_mem {id : ArtifactId} (h : s.evictableOf tier id = true)
    (hperm : order.Perm s.byId.keys) : id ∈ order := by
  rw [hperm.mem_iff, ← AList.mem_keys, ← AList.lookup_isSome]
  unfold evictableOf recordOf at h
  cases hid : s.byId.lookup id with
  | none =>
    rw [hid] at h
    cases h
  | some p => rfl

/-- **The victim** of a scan: none within the budget, else the first of the highest score. -/
theorem victimOf_eq (hperm : order.Perm s.byId.keys) :
    s.victimOf score tier budget order = if s.usedIn tier ≤ budget then none
      else (order.filter (s.evictableOf tier)).argmax (s.scoreOf score) := by
  have hused : (order.foldl (s.scoreRecord score tier) {}).used = s.usedIn tier := by
    rw [scan_counts, UInt64.zero_add]
    exact (hperm.map _).sum_eq
  unfold victimOf
  dsimp only
  rw [hused, scan_argmax]
  cases (order.filter (s.evictableOf tier)).argmax (s.scoreOf score) with
  | none => simp
  | some id => rfl

variable (score) in
/-- Over the budget there is a victim, if there is something to evict. -/
theorem victimOf_isSome (hperm : order.Perm s.byId.keys) (hover : ¬ s.usedIn tier ≤ budget)
    {id : ArtifactId} (hid : s.evictableOf tier id = true) :
    ∃ id', s.victimOf score tier budget order = some id' := by
  rw [victimOf_eq hperm, if_neg hover]
  refine Option.ne_none_iff_exists'.mp fun hnone => ?_
  have hempty := List.argmax_eq_none.mp hnone
  have hmem := List.mem_filter.mpr ⟨evictableOf_mem hid hperm, hid⟩
  rw [hempty] at hmem
  cases hmem

end Choice

/-- What the loop picks is a record that the scan may evict. -/
theorem pickVictim_evictable {env : Env} {s : Impl} {tier : ResidencyTier} {id : ArtifactId}
    (h : s.pickVictim env tier = some id) :
    ∃ p, s.byId.lookup id = some p ∧ (s.records p).evictable tier = true := by
  rw [pickVictim_eq, victimOf_eq (env.idOrder_perm s.tick s.byId.keys)] at h
  split at h
  · cases h
  have hevictable := (List.mem_filter.mp (List.argmax_mem h)).2
  unfold evictableOf recordOf at hevictable
  cases hid : s.byId.lookup id with
  | none =>
    rw [hid] at hevictable
    cases hevictable
  | some p =>
    rw [hid] at hevictable
    exact ⟨p, rfl, hevictable⟩

/-- **When the loop stops**: what it counts is within the budget, or there is nothing to evict. -/
theorem pickVictim_none {env : Env} {s : Impl} {tier : ResidencyTier}
    (h : s.pickVictim env tier = none) :
    s.usedIn tier ≤ env.cfg.residency.budget tier ∨ ∀ id, s.evictableOf tier id = false := by
  rw [pickVictim_eq] at h
  refine or_iff_not_imp_left.mpr fun hover id => ?_
  by_contra hid
  obtain ⟨id', hsome⟩ := victimOf_isSome (env.score s.tick) (env.idOrder_perm s.tick s.byId.keys)
    hover (eq_true_of_ne_false hid)
  rw [h] at hsome
  cases hsome

end Impl

end KernelCache
