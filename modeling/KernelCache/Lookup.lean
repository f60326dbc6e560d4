/-
# KernelCache.Lookup — what a hit says about the state it was decided on.

`lookup_impl` copies snapshots under the lock and decides on the copies.  `Hit` names everything a
hit is known to satisfy in the state of that lock: the record the id is bound to, its health, and
the compatibility decision that was made on its key.  Every result on reuse starts from it.
-/
import KernelCache.Evolution

namespace KernelCache

open Foundation.Prog (sect perform)
open Impl (CandidateSnapshot)

/-! ## The decision -/

/-- The candidates `lookup_impl` does not skip. -/
def Impl.CandidateSnapshot.healthy (c : CandidateSnapshot) : Bool :=
  !c.invalidated && !c.corrupt && c.validated && c.state.isEligible

theorem mem_judge {key : KernelCompatibilityKey} {policy : CompatibilityPolicy}
    {candidates : List CandidateSnapshot} {c : CandidateSnapshot}
    {d : KernelCompatibilityDecision} (h : (c, d) ∈ judge key policy candidates) :
    c ∈ candidates ∧ c.healthy = true ∧ d = evaluateCompatibility key c.key policy ∧
      d.compatible = true := by
  obtain ⟨c', hc', heq⟩ := List.mem_filterMap.mp h
  dsimp only at heq
  split at heq
  · cases heq
  · rename_i hhealth
    split at heq
    · rename_i hcompat
      cases heq
      refine ⟨hc', ?_, rfl, hcompat⟩
      unfold Impl.CandidateSnapshot.healthy
      revert hhealth
      cases c.invalidated <;> cases c.corrupt <;> cases c.validated <;>
        cases c.state.isEligible <;> simp
    · cases heq

theorem closest_mem {cs : List Judged} {c : Judged} (h : closest cs = some c) : c ∈ cs := by
  induction cs generalizing c with
  | nil => cases h
  | cons b bs ih =>
    simp only [closest] at h
    split at h
    · cases h
      exact List.mem_cons_self
    · rename_i best hbest
      split at h
      · cases h
        exact List.mem_cons_of_mem b (ih hbest)
      · cases h
        exact List.mem_cons_self

/-- A lookup names an artifact exactly when it is a hit, and then decided on one of its healthy
candidates. -/
theorem decideLookup_spec (key : KernelCompatibilityKey) (policy : CompatibilityPolicy)
    (candidates : List CandidateSnapshot) :
    ((decideLookup key policy candidates).outcome.isHit = false ∧
      (decideLookup key policy candidates).artifact = none) ∨
    ((decideLookup key policy candidates).outcome.isHit = true ∧
      ∃ c ∈ candidates, (decideLookup key policy candidates).artifact = some c.id ∧
        (decideLookup key policy candidates).decision = evaluateCompatibility key c.key policy ∧
        c.healthy = true ∧ (evaluateCompatibility key c.key policy).compatible = true ∧
        closest (judge key policy candidates) =
          some (c, evaluateCompatibility key c.key policy)) := by
  unfold decideLookup
  cases hbest : closest (judge key policy candidates) with
  | none =>
    dsimp only
    split <;> exact .inl ⟨rfl, rfl⟩
  | some best =>
    obtain ⟨c, d⟩ := best
    obtain ⟨hmem, hhealthy, rfl, hcompat⟩ := mem_judge (closest_mem hbest)
    refine .inr ⟨?_, c, hmem, rfl, rfl, hhealthy, hcompat, rfl⟩
    dsimp only [hitOutcome]
    split <;> first | rfl | (split <;> rfl)

/-! ## The snapshots -/

namespace Impl

theorem mem_emitAll {s : Impl} {ids : List ArtifactId} {c : CandidateSnapshot} :
    c ∈ s.emitAll ids ↔ ∃ id ∈ ids, ∃ p, s.byId.lookup id = some p ∧ c = s.snapshotOf p := by
  unfold emitAll
  rw [List.mem_filterMap]
  constructor
  · rintro ⟨id, hid, hc⟩
    obtain ⟨p, hp, rfl⟩ := Option.map_eq_some_iff.mp hc
    exact ⟨id, hid, p, hp, rfl⟩
  · rintro ⟨id, hid, p, hp, rfl⟩
    exact ⟨id, hid, by rw [hp]; rfl⟩

/-- Every candidate is the snapshot of a record an id is bound to. -/
theorem mem_collectCandidates {s : Impl} {key : KernelCompatibilityKey} {c : CandidateSnapshot}
    (h : c ∈ s.collectCandidates key) :
    ∃ id p, s.byId.lookup id = some p ∧ c = s.snapshotOf p := by
  unfold collectCandidates at h
  dsimp only at h
  split at h
  · obtain ⟨id, -, p, hp, hc⟩ := mem_emitAll.mp h
    exact ⟨id, p, hp, hc⟩
  · obtain ⟨id, -, p, hp, hc⟩ := mem_emitAll.mp h
    exact ⟨id, p, hp, hc⟩

end Impl

/-- The decision `lookup_impl` makes when it takes its snapshots in `s`. -/
def Impl.lookup (s : Impl) (key : KernelCompatibilityKey) (policy : CompatibilityPolicy) :
    KernelLookupResult :=
  decideLookup key policy (s.collectCandidates key)

/-- The answer to a lookup that settled on record `r` with decision `d`. -/
def ArtifactRecord.hitResult (r : ArtifactRecord) (d : KernelCompatibilityDecision) :
    KernelLookupResult where
  outcome := hitOutcome r.tier d
  artifact := some r.id
  generation := some r.generation
  decision := d
  notes := [d.summary]
  fromCache := true

/-- A lookup names an artifact exactly when it is a hit. -/
theorem Impl.lookup_isHit {s : Impl} {key : KernelCompatibilityKey} {policy : CompatibilityPolicy} :
    (s.lookup key policy).outcome.isHit = true ↔ ∃ id, (s.lookup key policy).artifact = some id := by
  rcases decideLookup_spec key policy (s.collectCandidates key) with
    ⟨hmiss, hnone⟩ | ⟨hhit, c, -, hart, -⟩
  · have hmiss' : (s.lookup key policy).outcome.isHit = false := hmiss
    have hnone' : (s.lookup key policy).artifact = none := hnone
    simp [hmiss', hnone']
  · have hhit' : (s.lookup key policy).outcome.isHit = true := hhit
    have hart' : (s.lookup key policy).artifact = some c.id := hart
    simp [hhit', hart']

@[simp] theorem hitOutcome_isHit (tier : ResidencyTier) (d : KernelCompatibilityDecision) :
    (hitOutcome tier d).isHit = true := by
  unfold hitOutcome
  split
  · rfl
  · rfl
  · rfl
  · split <;> rfl

@[simp] theorem ArtifactRecord.hitResult_isHit (r : ArtifactRecord)
    (d : KernelCompatibilityDecision) : (r.hitResult d).outcome.isHit = true :=
  hitOutcome_isHit r.tier d

/-- A key with one record under it, healthy and compatible, is found. -/
theorem Impl.lookup_of_one {s : Impl} {key : KernelCompatibilityKey} {policy : CompatibilityPolicy}
    (id : ArtifactId) {p : Nat} {d : KernelCompatibilityDecision}
    (hkey : s.byKey.lookup key.ensureFinalized.digest = some [id])
    (hid : s.byId.lookup id = some p) (hhealthy : (s.snapshotOf p).healthy = true)
    (hd : evaluateCompatibility key (s.records p).key policy = d) (hcompat : d.compatible = true) :
    s.lookup key policy = (s.records p).hitResult d := by
  have hcands : s.collectCandidates key = [s.snapshotOf p] := by
    simp [Impl.collectCandidates, Impl.emitAll, hkey, hid]
  have hjudge : judge key policy [s.snapshotOf p] = [(s.snapshotOf p, d)] := by
    simp only [Impl.CandidateSnapshot.healthy, Bool.and_eq_true, Bool.not_eq_true'] at hhealthy
    obtain ⟨⟨⟨hinv, hcor⟩, hval⟩, helig⟩ := hhealthy
    have hd' : evaluateCompatibility key (s.snapshotOf p).key policy = d := hd
    simp [judge, hinv, hcor, hval, helig, hd', hcompat]
  simp only [Impl.lookup, hcands, decideLookup, hjudge, closest]
  rfl

/-- What a lookup of `key` that names `id` is known to have seen. -/
structure Impl.Hit (s : Impl) (key : KernelCompatibilityKey) (policy : CompatibilityPolicy)
    (id : ArtifactId) (p : Nat) : Prop where
  bound : s.byId.lookup id = some p
  validated : (s.records p).validated = true
  leasable : (s.records p).leasable = true
  decided : (s.lookup key policy).decision = evaluateCompatibility key (s.records p).key policy
  compatible : (evaluateCompatibility key (s.records p).key policy).compatible = true

/-- **Hits.** In a sound state a lookup that names an artifact has seen its record. -/
theorem Impl.Sound.hit {s : Impl} (hs : s.Sound) {key : KernelCompatibilityKey}
    {policy : CompatibilityPolicy} {id : ArtifactId}
    (h : (s.lookup key policy).artifact = some id) : ∃ p, s.Hit key policy id p := by
  rcases decideLookup_spec key policy (s.collectCandidates key) with
    ⟨-, hnone⟩ | ⟨-, c, hmem, hart, hdec, hhealthy, hcompat, -⟩
  · have hnone' : (s.lookup key policy).artifact = none := hnone
    rw [hnone'] at h
    cases h
  · have hart' : (s.lookup key policy).artifact = some c.id := hart
    rw [hart'] at h
    obtain ⟨id', p, hp, rfl⟩ := Impl.mem_collectCandidates hmem
    have hid : id = id' := by
      rw [← Option.some.inj h]
      exact (hs.bound id' p hp).2
    subst hid
    simp only [Impl.CandidateSnapshot.healthy, Impl.snapshotOf, Bool.and_eq_true] at hhealthy
    refine ⟨p, hp, hhealthy.1.2, ?_, hdec, hcompat⟩
    simp only [ArtifactRecord.leasable, Bool.and_eq_true]
    exact ⟨hhealthy.1.1, hhealthy.2⟩

/-! ## The sections of a lookup -/

/-- A lookup of a key that can be finalized takes three sections: it copies the candidates, counts what
it decides on them, and records an event. -/
theorem lookupImpl_leads {β : Type} {request : KernelLookupRequest}
    {g : Result KernelLookupResult → Op β} {path : List (Step × Impl)} {b : β}
    (hfin : request.key.finalize.finalized = true)
    (h : ((lookupImpl request).bind g).Leads path (.ret b)) :
    ∃ s₁ s₂ s₃ rest, path = (.collect request.key.finalize, s₁) ::
        (.bump (s₁.lookup request.key.finalize request.policy).outcome.count, s₂) ::
        (.recordEvent, s₃) :: rest ∧
      (g (.ok (s₁.lookup request.key.finalize request.policy))).Leads rest (.ret b) := by
  unfold lookupImpl at h
  dsimp only at h
  rw [if_neg (by rw [hfin]; decide)] at h
  have hprog : ((sect (.collect request.key.finalize)
      fun s => s.collectCandidates request.key.finalize).bind fun candidates =>
      let result := decideLookup request.key.finalize request.policy candidates
      (perform (.bump result.outcome.count)).bind fun _ =>
        (perform .recordEvent).bind fun _ => g (.ok result)).Leads path (.ret b) := h
  obtain ⟨s₁, path₁, rfl, hprog₁⟩ := hprog.of_sect
  obtain ⟨s₂, path₂, rfl, hprog₂⟩ := hprog₁.of_sect
  obtain ⟨s₃, rest, rfl, hprog₃⟩ := hprog₂.of_sect
  exact ⟨s₁, s₂, s₃, rest, rfl, hprog₃⟩

end KernelCache
