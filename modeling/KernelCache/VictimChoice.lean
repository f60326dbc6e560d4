/-
# KernelCache.VictimChoice — which record `evict_to_fit` picks, and what `eviction_candidates` says.

Two paths rank the same records.  `eviction_candidates_impl` sorts them, by score and then by id.
`evict_to_fit` takes its running maximum in whatever order the map has, so among records of one score
it takes the first it meets.  The two agree, and the order does not matter, exactly when the best score
is no tie (`victim_deterministic_iff`).
-/
import KernelCache.Budgets
import Mathlib.Data.Prod.Lex

namespace KernelCache

open Foundation (Bytes Prog Runs Pool Event)

variable {β : Type} [LinearOrder β]

/-! ## The list of `eviction_candidates` -/

/-- `residency_tier_name`. -/
def ResidencyTier.name : ResidencyTier → Str
  | none => str "none"
  | metadataOnly => str "metadata-only"
  | persistentStorage => str "persistent"
  | hostResident => str "host-resident"
  | deviceResident => str "device-resident"

/-- An entry of the list, without its `reason`, a text that prints the parts of the score. -/
structure EvictionCandidate (β : Type) where
  artifactHi : UInt64
  artifactLo : UInt64
  score : β
  tier : Str

namespace EvictionCandidate

def id (c : EvictionCandidate β) : ArtifactId := ⟨⟨c.artifactHi, c.artifactLo⟩⟩

/-- The comparison of the sort: the higher score first, then the higher id. -/
def before (a b : EvictionCandidate β) : Bool :=
  if b.score ≠ a.score then decide (b.score < a.score)
  else decide (b.artifactHi < a.artifactHi ∨
    b.artifactHi = a.artifactHi ∧ b.artifactLo < a.artifactLo)

/-- What the sort compares. -/
def rank (c : EvictionCandidate β) : β ×ₗ ℕ ×ₗ ℕ :=
  toLex (c.score, toLex (c.artifactHi.toNat, c.artifactLo.toNat))

theorem before_iff {a b : EvictionCandidate β} : a.before b = true ↔ b.rank < a.rank := by
  unfold before rank
  rw [Prod.Lex.toLex_lt_toLex, Prod.Lex.toLex_lt_toLex]
  simp only [UInt64.lt_iff_toNat_lt, ← UInt64.toNat_inj]
  by_cases h : b.score = a.score
  · rw [if_neg (not_not.mpr h)]
    simp [h]
  · rw [if_pos h]
    simp [h]

theorem score_le {a b : EvictionCandidate β} (h : a.rank ≤ b.rank) : a.score ≤ b.score := by
  rcases (Prod.Lex.toLex_le_toLex.mp h) with hlt | ⟨heq, -⟩
  · exact hlt.le
  · exact heq.le

end EvictionCandidate

namespace Impl

/-- The entry of one record. -/
def candidateOf (score : ArtifactRecord → β) (s : Impl) (id : ArtifactId) :
    Option (EvictionCandidate β) :=
  match s.byId.lookup id with
  | none => none
  | some p =>
    let r := s.records p
    if 0 < r.pinCount ∨ 0 < r.leaseCount then none
    else if r.invalidated || r.corrupt then none
    else some { artifactHi := id.hi, artifactLo := id.lo, score := score r, tier := r.tier.name }

/-- `eviction_candidates_impl`, where `by_id` has this order. -/
def evictionCandidates (score : ArtifactRecord → β) (s : Impl) (order : List ArtifactId)
    (topN : UInt32) : List (EvictionCandidate β) :=
  let out := (order.filterMap (s.candidateOf score)).mergeSort fun a b => !b.before a
  if topN.toNat < out.length then out.take topN.toNat else out

/-- The first entry that the scan of the tier may take (for the host tier, also one on the device). -/
def firstCandidate (score : ArtifactRecord → β) (s : Impl) (tier : ResidencyTier)
    (order : List ArtifactId) (topN : UInt32) : Option ArtifactId :=
  ((s.evictionCandidates score order topN).find? fun c => s.evictableOf tier c.id).map
    EvictionCandidate.id

section Candidates

variable {score : ArtifactRecord → β} {s : Impl} {tier : ResidencyTier} {order : List ArtifactId}

omit [LinearOrder β] in
theorem candidateOf_eq_some {id : ArtifactId} {c : EvictionCandidate β}
    (h : s.candidateOf score id = some c) : c.id = id ∧ c.score = s.scoreOf score id := by
  unfold candidateOf at h
  unfold scoreOf recordOf
  cases hid : s.byId.lookup id with
  | none =>
    rw [hid] at h
    cases h
  | some p =>
    rw [hid] at h
    dsimp only at h
    split at h
    · cases h
    · split at h
      · cases h
      · cases h
        exact ⟨rfl, rfl⟩

omit [LinearOrder β] in
variable (score) in
/-- What is not held has an entry. -/
theorem candidateOf_of_free {id : ArtifactId} {r : ArtifactRecord} (hid : s.recordOf id = some r)
    (hfree : r.held = false) :
    s.candidateOf score id = some ⟨id.hi, id.lo, score r, r.tier.name⟩ := by
  obtain ⟨p, hp, rfl⟩ := Option.map_eq_some_iff.mp hid
  simp only [ArtifactRecord.held, Bool.or_eq_false_iff, decide_eq_false_iff_not] at hfree
  obtain ⟨⟨⟨hlease, hpin⟩, hinv⟩, hcor⟩ := hfree
  unfold candidateOf
  rw [hp]
  dsimp only
  rw [if_neg (by tauto), if_neg (by simp [hinv, hcor])]

omit [LinearOrder β] in
variable (score) in
/-- What the scan may evict has an entry. -/
theorem candidateOf_of_evictable {id : ArtifactId} (h : s.evictableOf tier id = true) :
    ∃ c, s.candidateOf score id = some c ∧ c.id = id ∧ c.score = s.scoreOf score id := by
  unfold evictableOf at h
  cases hid : s.recordOf id with
  | none =>
    rw [hid] at h
    cases h
  | some r =>
    rw [hid] at h
    have hevictable : r.evictable tier = true := h
    rw [ArtifactRecord.evictable, Bool.and_eq_true, Bool.not_eq_true'] at hevictable
    have hc := candidateOf_of_free score hid hevictable.1
    exact ⟨_, hc, candidateOf_eq_some hc⟩

/-- Asked for all of them, the list is the sorted one. -/
theorem evictionCandidates_all {topN : UInt32} (htop : order.length ≤ topN.toNat) :
    s.evictionCandidates score order topN =
      (order.filterMap (s.candidateOf score)).mergeSort fun a b => !b.before a := by
  unfold evictionCandidates
  dsimp only
  rw [if_neg]
  rw [List.length_mergeSort, Nat.not_lt]
  exact (List.length_filterMap_le _ _).trans htop

/-- The list is sorted by what the sort compares. -/
theorem evictionCandidates_sorted (entries : List (EvictionCandidate β)) :
    (entries.mergeSort fun a b => !b.before a).Pairwise fun a b => b.rank ≤ a.rank := by
  have hle : ∀ a b : EvictionCandidate β, (!b.before a) = true ↔ b.rank ≤ a.rank := by
    intro a b
    rw [Bool.not_eq_true', ← Bool.not_eq_true, EvictionCandidate.before_iff, not_lt]
  refine (List.pairwise_mergeSort ?_ ?_ entries).imp fun h => (hle _ _).mp h
  · intro a b c hab hbc
    rw [hle] at hab hbc ⊢
    exact hbc.trans hab
  · intro a b
    rw [Bool.or_eq_true, hle, hle]
    exact le_total _ _

/-- **The first entry** of a tier has the highest score there. -/
theorem firstCandidate_top {topN : UInt32} (htop : order.length ≤ topN.toNat) {id : ArtifactId}
    (h : s.firstCandidate score tier order topN = some id) :
    s.evictableOf tier id = true ∧
      ∀ id' ∈ order, s.evictableOf tier id' = true → s.scoreOf score id' ≤ s.scoreOf score id := by
  unfold firstCandidate at h
  rw [evictionCandidates_all htop] at h
  obtain ⟨c, hc, rfl⟩ := Option.map_eq_some_iff.mp h
  obtain ⟨hevictable, before, after, hlist, hbefore⟩ := List.find?_eq_some_iff_append.mp hc
  have hscore : ∀ x ∈ (order.filterMap (s.candidateOf score)).mergeSort fun a b => !b.before a,
      x.score = s.scoreOf score x.id := by
    intro x hx
    obtain ⟨id, -, hid⟩ := List.mem_filterMap.mp (List.mem_mergeSort.mp hx)
    obtain ⟨rfl, hx⟩ := candidateOf_eq_some hid
    exact hx
  have hsorted := evictionCandidates_sorted (order.filterMap (s.candidateOf score))
  rw [hlist] at hscore hsorted
  refine ⟨hevictable, fun id' hmem hid' => ?_⟩
  obtain ⟨x, hx, rfl, hxscore⟩ := candidateOf_of_evictable score hid'
  have hin : x ∈ before ++ c :: after := by
    rw [← hlist]
    exact List.mem_mergeSort.mpr (List.mem_filterMap.mpr ⟨x.id, hmem, hx⟩)
  rw [← hxscore, ← hscore c (by simp)]
  rcases List.mem_append.mp hin with hearlier | hlater
  · -- entries before the first one are not in the tier
    have hout := hbefore x hearlier
    rw [hid'] at hout
    cases hout
  · rcases List.mem_cons.mp hlater with rfl | hlater
    · exact le_rfl
    · exact EvictionCandidate.score_le
        (List.rel_of_pairwise_cons (List.pairwise_append.mp hsorted).2.1 hlater)

variable (score) in
/-- There is a first entry if there is something to evict. -/
theorem firstCandidate_isSome {topN : UInt32} (htop : order.length ≤ topN.toNat) {id : ArtifactId}
    (hmem : id ∈ order) (hid : s.evictableOf tier id = true) :
    ∃ id', s.firstCandidate score tier order topN = some id' := by
  unfold firstCandidate
  rw [evictionCandidates_all htop]
  obtain ⟨c, hc, rfl, -⟩ := candidateOf_of_evictable score hid
  have hin : c ∈ (order.filterMap (s.candidateOf score)).mergeSort fun a b => !b.before a :=
    List.mem_mergeSort.mpr (List.mem_filterMap.mpr ⟨c.id, hmem, hc⟩)
  cases hfound : ((order.filterMap (s.candidateOf score)).mergeSort fun a b => !b.before a).find?
      fun c => s.evictableOf tier c.id with
  | some c' => exact ⟨c'.id, rfl⟩
  | none => exact absurd hid (List.find?_eq_none.mp hfound c hin)

end Candidates

/-! ## When the choice is deterministic -/

/-- No record the scan may evict has a higher score. -/
structure IsTop (score : ArtifactRecord → β) (s : Impl) (tier : ResidencyTier) (id : ArtifactId) :
    Prop where
  evictable : s.evictableOf tier id = true
  highest : ∀ id', s.evictableOf tier id' = true → s.scoreOf score id' ≤ s.scoreOf score id

/-- The victim is the same in every order, and the first entry of the list, whatever order that was
made in. -/
structure DeterministicVictim (score : ArtifactRecord → β) (s : Impl) (tier : ResidencyTier)
    (budget : UInt64) (topN : UInt32) : Prop where
  same : ∀ order order' : List ArtifactId, order.Perm s.byId.keys → order'.Perm s.byId.keys →
    s.victimOf score tier budget order = s.victimOf score tier budget order'
  first : ∀ order order' : List ArtifactId, order.Perm s.byId.keys → order'.Perm s.byId.keys →
    ∀ id, s.victimOf score tier budget order = some id →
      s.firstCandidate score tier order' topN = some id

section Choice

variable {score : ArtifactRecord → β} {s : Impl} {tier : ResidencyTier} {budget : UInt64}
  {order : List ArtifactId}

theorem victimOf_top (hperm : order.Perm s.byId.keys) {id : ArtifactId}
    (h : s.victimOf score tier budget order = some id) : s.IsTop score tier id := by
  rw [victimOf_eq hperm] at h
  split at h
  · cases h
  refine ⟨(List.mem_filter.mp (List.argmax_mem h)).2, fun id' hid' => ?_⟩
  exact List.le_of_mem_argmax (List.mem_filter.mpr ⟨evictableOf_mem hid' hperm, hid'⟩) h

/-- A record of the highest score is the victim of a scan that meets it first. -/
theorem exists_victimOf (hover : ¬ s.usedIn tier ≤ budget) {id : ArtifactId}
    (h : s.IsTop score tier id) :
    ∃ order : List ArtifactId, order.Perm s.byId.keys ∧
      s.victimOf score tier budget order = some id := by
  have hperm : (id :: s.byId.keys.erase id).Perm s.byId.keys :=
    (List.perm_cons_erase (evictableOf_mem h.evictable (List.Perm.refl _))).symm
  refine ⟨_, hperm, ?_⟩
  rw [victimOf_eq hperm, if_neg hover, List.filter_cons_of_pos h.evictable, List.argmax_cons]
  cases hrest : ((s.byId.keys.erase id).filter (s.evictableOf tier)).argmax (s.scoreOf score) with
  | none => rfl
  | some id' =>
    have hle := h.highest id' (List.mem_filter.mp (List.argmax_mem hrest)).2
    exact if_neg (not_lt.mpr hle)

/-- **When the choice is deterministic.** For every set of records, any scores and either tier: the
order of the hash map makes no difference, and the victim is the first entry of the candidates in the
tier, exactly if the tier is within its budget, so that there is no victim, or the highest score there
is no tie. -/
theorem victim_deterministic_iff {topN : UInt32} (htop : s.byId.keys.length ≤ topN.toNat) :
    s.DeterministicVictim score tier budget topN ↔
      s.usedIn tier ≤ budget ∨ ∀ id id', s.IsTop score tier id → s.IsTop score tier id' → id = id' := by
  constructor
  · intro h
    by_cases hover : s.usedIn tier ≤ budget
    · exact .inl hover
    refine .inr fun id id' hid hid' => ?_
    obtain ⟨order, hperm, hvictim⟩ := exists_victimOf hover hid
    obtain ⟨order', hperm', hvictim'⟩ := exists_victimOf hover hid'
    have hsame := h.same order order' hperm hperm'
    rw [hvictim, hvictim'] at hsame
    exact Option.some.inj hsame
  · intro h
    refine ⟨fun order order' hperm hperm' => ?_, fun order order' hperm hperm' id hid => ?_⟩
    · by_cases hover : s.usedIn tier ≤ budget
      · rw [victimOf_eq hperm, if_pos hover, victimOf_eq hperm', if_pos hover]
      cases hid : s.victimOf score tier budget order with
      | none =>
        refine (Option.eq_none_iff_forall_ne_some.mpr fun id' hid' => ?_).symm
        obtain ⟨id, hsome⟩ := victimOf_isSome score hperm hover (victimOf_top hperm' hid').evictable
        rw [hid] at hsome
        cases hsome
      | some id =>
        have htop := victimOf_top hperm hid
        obtain ⟨id', hid'⟩ := victimOf_isSome score hperm' hover htop.evictable
        rw [hid', h.resolve_left hover id id' htop (victimOf_top hperm' hid')]
    · have hover : ¬ s.usedIn tier ≤ budget := by
        intro hwithin
        rw [victimOf_eq hperm, if_pos hwithin] at hid
        cases hid
      have hvictim := victimOf_top hperm hid
      have hlength : order'.length ≤ topN.toNat := hperm'.length_eq ▸ htop
      obtain ⟨id', hfirst⟩ := firstCandidate_isSome score hlength
        (evictableOf_mem hvictim.evictable hperm') hvictim.evictable
      obtain ⟨hevictable, hhighest⟩ := firstCandidate_top hlength hfirst
      have htop' : s.IsTop score tier id' :=
        ⟨hevictable, fun other hother => hhighest other (evictableOf_mem hother hperm') hother⟩
      rw [hfirst, h.resolve_left hover id id' hvictim htop']

end Choice

end Impl

/-! ## A tie -/

/-- Two records on the device, over its budget and free to go. -/
structure Overfull (s : Impl) : Prop where
  keys : s.byId.keys = [⟨⟨1, 8⟩⟩, ⟨⟨1, 7⟩⟩]
  records : ∀ id ∈ s.byId.keys, ∃ r, s.recordOf id = some r ∧ r.id = id ∧ r.held = false ∧
    r.tier = .deviceResident ∧ r.deviceFootprint = 1

/-- Two artifacts are loaded while the first is pinned, so that the loop counts one of them only, and
then the pin goes. -/
theorem overfull_device : ∃ calls s, Sequence smallDeviceEnv {} calls s ∧ Overfull s := by
  have hreached : ∃ calls s, Sequence smallDeviceEnv {} calls s ∧
      s.byId.keys = [⟨⟨1, 8⟩⟩, ⟨⟨1, 7⟩⟩] ∧ s.byId.lookup ⟨⟨1, 7⟩⟩ = some 0 ∧
      s.byId.lookup ⟨⟨1, 8⟩⟩ = some 1 ∧ (s.records 0).id = ⟨⟨1, 7⟩⟩ ∧ (s.records 1).id = ⟨⟨1, 8⟩⟩ ∧
      ∀ p, p = 0 ∨ p = 1 → (s.records p).held = false ∧ (s.records p).tier = .deviceResident ∧
        (s.records p).deviceFootprint = 1 := by
    have hfirst : Sequence smallDeviceEnv {} _ _ := .call .fresh
      (show ((Operation.put sampleArtifact [1]).prog _).run _ _ = some (_, _) from rfl)
    have hsecond := hfirst.call
      (show ((Operation.put secondArtifact [2]).prog _).run _ _ = some (_, _) from rfl)
    have hloaded := hsecond.call
      (show ((Operation.load ⟨⟨1, 7⟩⟩).prog _).run _ _ = some (_, _) from rfl)
    have hpinned := hloaded.call
      (show ((Operation.pin ⟨⟨1, 7⟩⟩).prog _).run _ _ = some (_, _) from rfl)
    have hboth := hpinned.call
      (show ((Operation.load ⟨⟨1, 8⟩⟩).prog _).run _ _ = some (_, _) from rfl)
    have hfree := hboth.call
      (show ((Operation.unpin ⟨⟨1, 7⟩⟩).prog _).run _ _ = some (_, _) from rfl)
    refine ⟨_, _, hfree, rfl, rfl, rfl, rfl, rfl, ?_⟩
    rintro p (rfl | rfl)
    · exact ⟨rfl, rfl, rfl⟩
    · exact ⟨rfl, rfl, rfl⟩
  obtain ⟨calls, s, hseq, hkeys, hfirst, hsecond, hid₀, hid₁, hrecords⟩ := hreached
  refine ⟨calls, s, hseq, hkeys, fun id hid => ?_⟩
  rw [hkeys] at hid
  rcases List.mem_pair.mp hid with rfl | rfl
  · exact ⟨_, congrArg (Option.map s.records) hsecond, hid₁, hrecords 1 (.inr rfl)⟩
  · exact ⟨_, congrArg (Option.map s.records) hfirst, hid₀, hrecords 0 (.inl rfl)⟩

namespace Overfull

variable {s : Impl}

theorem evictable (h : Overfull s) {id : ArtifactId} (hid : id ∈ s.byId.keys) :
    s.evictableOf .deviceResident id = true := by
  obtain ⟨r, hr, -, hheld, htier, -⟩ := h.records id hid
  simp [Impl.evictableOf, hr, ArtifactRecord.evictable, hheld, htier]

theorem exceeds (h : Overfull s) :
    ¬ s.usedIn .deviceResident ≤ smallDeviceEnv.cfg.residency.deviceBudgetBytes := by
  have hone : ∀ id ∈ s.byId.keys, s.countsOf .deviceResident id = 1 := by
    intro id hid
    obtain ⟨r, hr, -, hheld, -, hfootprint⟩ := h.records id hid
    simp [Impl.countsOf, hr, ArtifactRecord.counts, hheld, hfootprint]
  have hused : s.usedIn .deviceResident = 2 := by
    rw [Impl.usedIn, List.map_congr_left hone, h.keys]
    rfl
  rw [hused]
  decide

/-- The victim of a scan that takes all of them in. -/
theorem victimOf_eq {β : Type} [LinearOrder β] (h : Overfull s) {score : ArtifactRecord → β}
    {order : List ArtifactId} (hperm : order.Perm s.byId.keys) :
    s.victimOf score .deviceResident smallDeviceEnv.cfg.residency.deviceBudgetBytes order =
      order.argmax (s.scoreOf score) := by
  rw [Impl.victimOf_eq hperm, if_neg h.exceeds,
    List.filter_eq_self.mpr fun id hid => h.evictable (hperm.subset hid)]

end Overfull

/-- Scores that tell the two apart leave no choice. -/
theorem victim_deterministic_untied : ∃ calls s, Sequence smallDeviceEnv {} calls s ∧
    ¬ s.usedIn .deviceResident ≤ smallDeviceEnv.cfg.residency.deviceBudgetBytes ∧
    s.DeterministicVictim (fun r => r.id.lo.toNat) .deviceResident
      smallDeviceEnv.cfg.residency.deviceBudgetBytes 2 := by
  obtain ⟨calls, s, hseq, h⟩ := overfull_device
  have hlength : s.byId.keys.length ≤ (2 : UInt32).toNat := by
    rw [h.keys]
    decide
  refine ⟨calls, s, hseq, h.exceeds, (Impl.victim_deterministic_iff hlength).mpr (.inr ?_)⟩
  have hscore : ∀ id ∈ s.byId.keys, s.scoreOf (fun r => r.id.lo.toNat) id = id.lo.toNat := by
    intro id hid
    obtain ⟨r, hr, hrid, -⟩ := h.records id hid
    simp [Impl.scoreOf, hr, hrid]
  have hhighest : ∀ id, s.IsTop (fun r => r.id.lo.toNat) .deviceResident id → id = ⟨⟨1, 8⟩⟩ := by
    intro id htop
    have hmem := Impl.evictableOf_mem htop.evictable (List.Perm.refl _)
    have hsecond : (⟨⟨1, 8⟩⟩ : ArtifactId) ∈ s.byId.keys := by simp [h.keys]
    have hle := htop.highest _ (h.evictable hsecond)
    rw [hscore _ hsecond, hscore id hmem] at hle
    rw [h.keys] at hmem
    rcases List.mem_pair.mp hmem with rfl | rfl
    · rfl
    · exact absurd hle (by decide)
  intro id id' hid hid'
  rw [hhighest id hid, hhighest id' hid']

/-- **A tie is broken by the hash map.** Two artifacts on the device have one score.  The victim is
whichever the iteration meets first; the list always begins with the higher id. -/
theorem tied_victims : ∃ calls s, Sequence smallDeviceEnv {} calls s ∧
    ∃ order order' : List ArtifactId, order.Perm s.byId.keys ∧ order'.Perm s.byId.keys ∧
      s.victimOf (smallDeviceEnv.score s.tick) .deviceResident
        smallDeviceEnv.cfg.residency.deviceBudgetBytes order = some ⟨⟨1, 7⟩⟩ ∧
      s.victimOf (smallDeviceEnv.score s.tick) .deviceResident
        smallDeviceEnv.cfg.residency.deviceBudgetBytes order' = some ⟨⟨1, 8⟩⟩ ∧
      s.firstCandidate (smallDeviceEnv.score s.tick) .deviceResident order' 2 = some ⟨⟨1, 8⟩⟩ := by
  obtain ⟨calls, s, hseq, h⟩ := overfull_device
  have hscore : s.scoreOf (smallDeviceEnv.score s.tick) = fun _ => 0 := rfl
  have hperm : ([⟨⟨1, 7⟩⟩, ⟨⟨1, 8⟩⟩] : List ArtifactId).Perm s.byId.keys := by
    rw [h.keys]
    exact List.Perm.swap _ _ _
  have hperm' : ([⟨⟨1, 8⟩⟩, ⟨⟨1, 7⟩⟩] : List ArtifactId).Perm s.byId.keys := by rw [h.keys]
  refine ⟨calls, s, hseq, _, _, hperm, hperm', ?_, ?_, ?_⟩
  · rw [h.victimOf_eq hperm, hscore]
    rfl
  · rw [h.victimOf_eq hperm', hscore]
    rfl
  · have hentry : ∀ id ∈ s.byId.keys, s.candidateOf (smallDeviceEnv.score s.tick) id =
        some ⟨id.hi, id.lo, 0, ResidencyTier.deviceResident.name⟩ := by
      intro id hid
      obtain ⟨r, hr, -, hheld, htier, -⟩ := h.records id hid
      rw [Impl.candidateOf_of_free _ hr hheld, htier]
      rfl
    have hfirst : (⟨⟨1, 8⟩⟩ : ArtifactId) ∈ s.byId.keys := by simp [h.keys]
    have hsecond : (⟨⟨1, 7⟩⟩ : ArtifactId) ∈ s.byId.keys := by simp [h.keys]
    unfold Impl.firstCandidate
    rw [Impl.evictionCandidates_all (by decide), List.filterMap_cons_some (hentry _ hfirst),
      List.filterMap_cons_some (hentry _ hsecond), List.filterMap_nil,
      List.mergeSort_of_pairwise (by decide),
      List.find?_cons_of_pos (by exact h.evictable hfirst)]
    rfl

end KernelCache
