/-
# KernelCache.PolicyOrder — a policy that permits more accepts more, for the same reason.

`evaluate_compatibility` consults the policy in five places: two comparisons before the shape, one
behind it, and the two acceptances.  Turning an allowance on or a requirement off is an order on
policies; along it every comparison passes that passed before, so the walk ends where it ended.
-/
import KernelCache.ReuseRules

namespace KernelCache

/-! ## Policies, ordered -/

/-- `p ≤ q`: `q` allows what `p` allows, and requires nothing that `p` does not. -/
instance : Preorder CompatibilityPolicy where
  le p q :=
    (p.allowDynamicShapeConstraints ≤ q.allowDynamicShapeConstraints ∧
      p.allowRuntimeValidation ≤ q.allowRuntimeValidation) ∧
    q.requireExactAbi ≤ p.requireExactAbi ∧ q.requireExactDatatype ≤ p.requireExactDatatype ∧
      q.requireExactAlignment ≤ p.requireExactAlignment
  le_refl _ := ⟨⟨le_rfl, le_rfl⟩, le_rfl, le_rfl, le_rfl⟩
  le_trans _ _ _ := fun ⟨⟨hd, hr⟩, ha, ht, hl⟩ ⟨⟨hd', hr'⟩, ha', ht', hl'⟩ =>
    ⟨⟨hd.trans hd', hr.trans hr'⟩, ha'.trans ha, ht'.trans ht, hl'.trans hl⟩

/-! ## The walk along the order -/

/-- A gated comparison that passes still passes when its gate is opened. -/
theorem gate_eq_false {gate gate' fails : Bool} (hle : gate' ≤ gate)
    (h : (gate && fails) = false) : (gate' && fails) = false := by
  cases gate' with
  | false => rfl
  | true =>
    rw [Bool.eq_true_of_true_le hle] at h
    exact h

section Walk

variable {r c : KeyFields} {p q : CompatibilityPolicy}

theorem passes_checksBeforeShape_mono (hle : p ≤ q) (h : Passes (checksBeforeShape r c p)) :
    Passes (checksBeforeShape r c q) := by
  obtain ⟨-, habi, hdatatype, -⟩ := hle
  simp only [Passes, checksBeforeShape, List.forall_mem_cons] at h ⊢
  obtain ⟨h1, h2, h3, h4, h5, h6, h7, h8, h9, h10, hscalars, hdtypes, h13, h14, hnil⟩ := h
  exact ⟨h1, h2, h3, h4, h5, h6, h7, h8, h9, h10, gate_eq_false habi hscalars,
    gate_eq_false hdatatype hdtypes, h13, h14, hnil⟩

theorem passes_checksAfterShape_mono (hle : p ≤ q) (h : Passes (checksAfterShape r c p)) :
    Passes (checksAfterShape r c q) := by
  obtain ⟨-, -, -, halignment⟩ := hle
  simp only [Passes, checksAfterShape, List.forall_mem_cons] at h ⊢
  obtain ⟨halign, h2, h3, h4, hnil⟩ := h
  exact ⟨gate_eq_false halignment halign, h2, h3, h4, hnil⟩

/-- An accepting walk ends in one of the two acceptances. -/
theorem reason_of_compatible (h : (evaluateDimensions r c p).compatible = true) :
    (evaluateDimensions r c p).reason = .compatibleWithDynamicShapeConstraint ∨
      (evaluateDimensions r c p).reason = .compatibleWithRuntimeValidation := by
  rcases evaluateDimensions_permitted r c p with ⟨hrefused, -⟩ | ⟨-, hreason⟩ | ⟨-, hreason⟩
  · rw [hrefused] at h
    cases h
  · exact .inl hreason
  · exact .inr hreason

/-- A walk that does not accept carries neither reason. -/
theorem compatible_or_refuses : (evaluateDimensions r c p).compatible = true ∨
    Refuses (evaluateDimensions r c p) := by
  unfold evaluateDimensions
  split
  · rename_i d hd
    exact .inr (refuses_firstRefusal (checksBeforeShape_refuses r c p) hd)
  · unfold evaluateShape
    split
    · split
      · exact .inl rfl
      · exact .inr ⟨by simp [refuse], by simp [refuse]⟩
    · split
      · rename_i d hd
        exact .inr (refuses_firstRefusal (checksAfterShape_refuses r c p) hd)
      · split
        · exact .inl rfl
        · exact .inr ⟨by simp [refuse], by simp [refuse]⟩

theorem compatible_of_reason
    (h : (evaluateDimensions r c p).reason = .compatibleWithDynamicShapeConstraint ∨
      (evaluateDimensions r c p).reason = .compatibleWithRuntimeValidation) :
    (evaluateDimensions r c p).compatible = true := by
  rcases compatible_or_refuses (r := r) (c := c) (p := p) with hcompatible | ⟨hshape, hruntime⟩
  · exact hcompatible
  · rcases h with hreason | hreason
    · exact absurd hreason hshape
    · exact absurd hreason hruntime

/-- The walk keeps its reason along the order. -/
theorem evaluateDimensions_reason_mono (hle : p ≤ q)
    (h : (evaluateDimensions r c p).compatible = true) :
    (evaluateDimensions r c q).reason = (evaluateDimensions r c p).reason := by
  rcases reason_of_compatible h with hreason | hreason
  · rw [hreason]
    obtain ⟨hbefore, hshape, hallow, hsymbolic⟩ := evaluateDimensions_dynamic.mp hreason
    exact evaluateDimensions_dynamic.mpr ⟨passes_checksBeforeShape_mono hle hbefore, hshape,
      hle.1.1 hallow, hsymbolic⟩
  · rw [hreason]
    obtain ⟨hbefore, hshape, hafter, hallow⟩ := evaluateDimensions_runtime.mp hreason
    exact evaluateDimensions_runtime.mpr ⟨passes_checksBeforeShape_mono hle hbefore, hshape,
      passes_checksAfterShape_mono hle hafter, hle.1.2 hallow⟩

end Walk

/-! ## Decisions -/

theorem evaluateCompatibility_of_digest_ne {req cand : KernelCompatibilityKey}
    (policy : CompatibilityPolicy) (h : req.finalize.digest ≠ cand.finalize.digest) :
    evaluateCompatibility req cand policy =
      evaluateDimensions req.finalize.toKeyFields cand.finalize.toKeyFields policy := by
  simp only [evaluateCompatibility, h, if_false]

/-- With both allowances off the engine decides by the digests. -/
theorem compatible_iff_of_strict {req cand : KernelCompatibilityKey} {policy : CompatibilityPolicy}
    (hshape : policy.allowDynamicShapeConstraints = false)
    (hruntime : policy.allowRuntimeValidation = false) :
    (evaluateCompatibility req cand policy).compatible = true ↔
      req.finalize.digest = cand.finalize.digest := by
  constructor
  · exact exact_of_strict hshape hruntime
  · intro h
    rw [evaluateCompatibility_of_digest_eq policy h]
    rfl

/-- **A policy that permits more accepts more.** Whatever the two keys are: a pair accepted under one
policy is accepted, for the same reason, under every policy that permits more; and a policy without
allowances accepts exactly the pairs whose digests agree. -/
theorem acceptance_monotone (req cand : KernelCompatibilityKey) :
    (∀ p q : CompatibilityPolicy, p ≤ q → (evaluateCompatibility req cand p).compatible = true →
      (evaluateCompatibility req cand q).compatible = true ∧
      (evaluateCompatibility req cand q).reason = (evaluateCompatibility req cand p).reason) ∧
    ∀ p : CompatibilityPolicy, p.allowDynamicShapeConstraints = false →
      p.allowRuntimeValidation = false →
      ((evaluateCompatibility req cand p).compatible = true ↔
        req.finalize.digest = cand.finalize.digest) := by
  refine ⟨fun p q hle hcompatible => ?_, fun p => compatible_iff_of_strict⟩
  by_cases hdigest : req.finalize.digest = cand.finalize.digest
  · rw [evaluateCompatibility_of_digest_eq p hdigest, evaluateCompatibility_of_digest_eq q hdigest]
    exact ⟨rfl, rfl⟩
  · rw [evaluateCompatibility_of_digest_ne p hdigest] at hcompatible ⊢
    rw [evaluateCompatibility_of_digest_ne q hdigest]
    have hreason := evaluateDimensions_reason_mono hle hcompatible
    refine ⟨compatible_of_reason ?_, hreason⟩
    rw [hreason]
    exact reason_of_compatible hcompatible

/-- The order and the acceptance are inhabited: the revised kernel passes for runtime validation, and
passes when symbolic shapes are allowed as well. -/
theorem gemmKey_more_permissive :
    (evaluateCompatibility gemmKey revisedKey
      { runtimePolicy with allowDynamicShapeConstraints := true }).compatible = true ∧
    (evaluateCompatibility gemmKey revisedKey
      { runtimePolicy with allowDynamicShapeConstraints := true }).reason =
        (evaluateCompatibility gemmKey revisedKey runtimePolicy).reason :=
  (acceptance_monotone gemmKey revisedKey).1 runtimePolicy _
    ⟨⟨by decide, by decide⟩, by decide, by decide, by decide⟩ (by rw [gemmKey_runtime]; rfl)

end KernelCache
