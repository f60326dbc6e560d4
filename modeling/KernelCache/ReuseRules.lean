/-
# KernelCache.ReuseRules — what the two weak acceptances of the compatibility engine rest on.

Besides the exact match, `evaluate_compatibility` accepts in two places.  A shape mismatch is accepted
in the MIDDLE of the walk, so nothing behind the shape has been compared yet; and the end of the walk
accepts by exclusion, so a field no comparison mentions may differ.  `evaluateDimensions_dynamic`
and `evaluateDimensions_runtime` say exactly when the engine gives each of the two answers;
`dynamic_reuse_iff` and `runtime_reuse_iff` say on which pairs of keys the answers are sound.
-/
import KernelCache.Compatibility

namespace KernelCache

/-! ## The walk -/

/-- No comparison refuses. -/
def Passes (checks : List Check) : Prop := ∀ k ∈ checks, k.fails = false

theorem firstRefusal_eq_none {checks : List Check} : firstRefusal checks = none ↔ Passes checks := by
  simp [firstRefusal, Passes]

/-- Refusals carry none of the two reasons to accept. -/
def Refuses (d : KernelCompatibilityDecision) : Prop :=
  d.reason ≠ .compatibleWithDynamicShapeConstraint ∧ d.reason ≠ .compatibleWithRuntimeValidation

theorem refuses_firstRefusal {checks : List Check} {d : KernelCompatibilityDecision}
    (hchecks : ∀ k ∈ checks, Refuses k.refusal) (h : firstRefusal checks = some d) : Refuses d := by
  obtain ⟨k, hk, rfl⟩ := Option.map_eq_some_iff.mp h
  exact hchecks k (List.mem_of_find?_eq_some hk)

theorem checksBeforeShape_refuses (r c : KeyFields) (policy : CompatibilityPolicy) :
    ∀ k ∈ checksBeforeShape r c policy, Refuses k.refusal := by
  unfold checksBeforeShape
  simp only [List.forall_mem_cons]
  refine ⟨?_, ?_, ?_, ?_, ?_, ?_, ?_, ?_, ?_, ?_, ?_, ?_, ?_, ?_, by simp⟩ <;>
    exact ⟨by simp [refuse], by simp [refuse]⟩

theorem checksAfterShape_refuses (r c : KeyFields) (policy : CompatibilityPolicy) :
    ∀ k ∈ checksAfterShape r c policy, Refuses k.refusal := by
  unfold checksAfterShape
  simp only [List.forall_mem_cons]
  refine ⟨?_, ?_, ?_, ?_, by simp⟩ <;> exact ⟨by simp [refuse], by simp [refuse]⟩

/-- When the walk accepts a shape mismatch. -/
theorem evaluateDimensions_dynamic {r c : KeyFields} {policy : CompatibilityPolicy} :
    (evaluateDimensions r c policy).reason = .compatibleWithDynamicShapeConstraint ↔
      Passes (checksBeforeShape r c policy) ∧ shapesMatch c.shape r.shape = false ∧
        policy.allowDynamicShapeConstraints = true ∧ r.symbolicShapeConstraints ≠ [] := by
  unfold evaluateDimensions
  cases hbefore : firstRefusal (checksBeforeShape r c policy) with
  | some d =>
    have hrefuses := refuses_firstRefusal (checksBeforeShape_refuses r c policy) hbefore
    refine iff_of_false hrefuses.1 fun h => ?_
    rw [firstRefusal_eq_none.mpr h.1] at hbefore
    cases hbefore
  | none =>
    rw [and_iff_right (firstRefusal_eq_none.mp hbefore)]
    unfold evaluateShape
    cases hshape : shapesMatch c.shape r.shape with
    | true =>
      refine iff_of_false ?_ fun h => Bool.noConfusion h.1
      simp only [Bool.not_true, Bool.false_eq_true, if_false]
      split
      · rename_i d hd
        exact (refuses_firstRefusal (checksAfterShape_refuses r c policy) hd).1
      · split
        · simp [accept]
        · simp [refuse]
    | false =>
      rw [and_iff_right rfl]
      simp only [Bool.not_false, if_true]
      split
      · rename_i hallow
        simp only [Bool.and_eq_true, Bool.not_eq_true', List.isEmpty_eq_false_iff] at hallow
        exact iff_of_true rfl hallow
      · rename_i hallow
        simp only [Bool.and_eq_true, Bool.not_eq_true', List.isEmpty_eq_false_iff] at hallow
        exact iff_of_false (by simp [refuse]) hallow

/-- When the walk accepts at its end. -/
theorem evaluateDimensions_runtime {r c : KeyFields} {policy : CompatibilityPolicy} :
    (evaluateDimensions r c policy).reason = .compatibleWithRuntimeValidation ↔
      Passes (checksBeforeShape r c policy) ∧ shapesMatch c.shape r.shape = true ∧
        Passes (checksAfterShape r c policy) ∧ policy.allowRuntimeValidation = true := by
  unfold evaluateDimensions
  cases hbefore : firstRefusal (checksBeforeShape r c policy) with
  | some d =>
    have hrefuses := refuses_firstRefusal (checksBeforeShape_refuses r c policy) hbefore
    refine iff_of_false hrefuses.2 fun h => ?_
    rw [firstRefusal_eq_none.mpr h.1] at hbefore
    cases hbefore
  | none =>
    rw [and_iff_right (firstRefusal_eq_none.mp hbefore)]
    unfold evaluateShape
    cases hshape : shapesMatch c.shape r.shape with
    | false =>
      refine iff_of_false ?_ fun h => Bool.noConfusion h.1
      simp only [Bool.not_false, if_true]
      split
      · simp [accept]
      · simp [refuse]
    | true =>
      rw [and_iff_right rfl]
      simp only [Bool.not_true, Bool.false_eq_true, if_false]
      cases hafter : firstRefusal (checksAfterShape r c policy) with
      | some d =>
        have hrefuses := refuses_firstRefusal (checksAfterShape_refuses r c policy) hafter
        refine iff_of_false hrefuses.2 fun h => ?_
        rw [firstRefusal_eq_none.mpr h.1] at hafter
        cases hafter
      | none =>
        rw [and_iff_right (firstRefusal_eq_none.mp hafter)]
        dsimp only
        split
        · rename_i hallow
          exact iff_of_true rfl hallow
        · rename_i hallow
          exact iff_of_false (by simp [refuse]) hallow

/-- The engine reaches the walk when the digests differ. -/
theorem evaluateCompatibility_reason {req cand : KernelCompatibilityKey}
    {policy : CompatibilityPolicy} {reason : CompatibilityReason} (hne : reason ≠ .exactCompatible) :
    (evaluateCompatibility req cand policy).reason = reason ↔
      req.finalize.digest ≠ cand.finalize.digest ∧
        (evaluateDimensions req.toKeyFields.sorted cand.toKeyFields.sorted policy).reason = reason := by
  unfold evaluateCompatibility
  dsimp only
  split
  · rename_i heq
    exact iff_of_false (fun h => hne h.symm) fun h => h.1 heq
  · rename_i hdiff
    rw [and_iff_right hdiff, KernelCompatibilityKey.finalize_toKeyFields,
      KernelCompatibilityKey.finalize_toKeyFields]

/-! ## Dynamic shapes -/

/-- The dimensions behind the shape, as they must be for equal shapes. -/
structure AgreesBehindShape (r c : KeyFields) (policy : CompatibilityPolicy) : Prop where
  alignment : policy.requireExactAlignment = true →
    c.alignmentBytes = 0 ∨ r.alignmentBytes = 0 ∨ c.alignmentBytes = r.alignmentBytes
  codegenFlags : c.codegenFlags = r.codegenFlags
  specialization : c.specialization = r.specialization
  quantizationKind :
    c.quantizationKind = [] ∨ r.quantizationKind = [] ∨ c.quantizationKind = r.quantizationKind

theorem conflict_eq_false {α : Type} [BEq α] [LawfulBEq α] {unset c r : α} :
    conflict unset c r = false ↔ c = unset ∨ r = unset ∨ c = r := by
  by_cases hc : c = unset
  · simp [conflict, hc]
  · by_cases hr : r = unset
    · simp [conflict, hr]
    · simp [conflict, hc, hr]

theorem passes_checksAfterShape {r c : KeyFields} {policy : CompatibilityPolicy} :
    Passes (checksAfterShape r c policy) ↔ AgreesBehindShape r c policy := by
  simp only [Passes, checksAfterShape, List.forall_mem_cons, Bool.and_eq_false_iff,
    conflict_eq_false, bne_eq_false_iff_eq]
  constructor
  · rintro ⟨halign, hflags, hspec, hquant, -⟩
    refine ⟨fun hrequired => ?_, hflags, hspec, hquant⟩
    rcases halign with hno | halign
    · rw [hrequired] at hno
      cases hno
    · exact halign
  · rintro ⟨halign, hflags, hspec, hquant⟩
    refine ⟨?_, hflags, hspec, hquant, by simp⟩
    cases hrequired : policy.requireExactAlignment with
    | false => exact .inl rfl
    | true => exact .inr (halign hrequired)

/-- **When dynamic-shape reuse is sound.** The answer "compatible with dynamic shape constraint" means
a candidate with symbolic constraints that agrees on everything else the engine compares, if and only if
the two keys are not of this kind: told apart by the digest but by no comparison before the shape, of
shapes that do not match, with constraints declared by the request under a policy that allows them,
and either the candidate declares none or a comparison behind the shape would refuse. -/
theorem dynamic_reuse_iff (req cand : KernelCompatibilityKey) (policy : CompatibilityPolicy) :
    ((evaluateCompatibility req cand policy).reason = .compatibleWithDynamicShapeConstraint →
      cand.symbolicShapeConstraints ≠ [] ∧
      Passes (checksBeforeShape req.toKeyFields.sorted cand.toKeyFields.sorted policy) ∧
      AgreesBehindShape req.toKeyFields.sorted cand.toKeyFields.sorted policy) ↔
    (policy.allowDynamicShapeConstraints = false ∨ req.symbolicShapeConstraints = [] ∨
      shapesMatch cand.shape req.shape = true ∨ req.finalize.digest = cand.finalize.digest ∨
      ¬ Passes (checksBeforeShape req.toKeyFields.sorted cand.toKeyFields.sorted policy) ∨
      (cand.symbolicShapeConstraints ≠ [] ∧
        AgreesBehindShape req.toKeyFields.sorted cand.toKeyFields.sorted policy)) := by
  rw [evaluateCompatibility_reason (by decide), evaluateDimensions_dynamic]
  constructor
  · intro h
    by_contra hbad
    simp only [not_or, not_not, Bool.not_eq_false, Bool.not_eq_true] at hbad
    obtain ⟨hallow, hreq, hshape, hdigest, hbefore, hagree⟩ := hbad
    obtain ⟨hsym, -, hbehind⟩ := h ⟨hdigest, hbefore, hshape, hallow, hreq⟩
    exact hagree ⟨hsym, hbehind⟩
  · rintro hcond ⟨hdigest, hbefore, hshape, hallow, hreq⟩
    rcases hcond with hno | hno | hno | hno | hno | ⟨hsym, hbehind⟩
    · rw [hallow] at hno
      cases hno
    · exact absurd hno hreq
    · have hshape' : shapesMatch cand.shape req.shape = false := hshape
      rw [hno] at hshape'
      cases hshape'
    · exact absurd hno hdigest
    · exact absurd hbefore hno
    · exact ⟨hsym, hbefore, hbehind⟩

/-- A request of one shape that declares a symbolic constraint. -/
def symbolicRequest : KernelCompatibilityKey :=
  { shape := [4], symbolicShapeConstraints := [str "n"] }

/-- A candidate of another fixed shape, built with another flag. -/
def fixedCandidate : KernelCompatibilityKey := { shape := [8], codegenFlags := [str "fast"] }

def dynamicPolicy : CompatibilityPolicy := { allowDynamicShapeConstraints := true }

theorem symbolicRequest_digest_ne :
    symbolicRequest.finalize.digest ≠ fixedCandidate.finalize.digest := by
  decide +kernel

/-- **A candidate without symbolic constraints is reused for another shape.** Nor are its flags
compared. -/
theorem dynamic_reuse_unsound :
    symbolicRequest.finalize.finalized = true ∧ fixedCandidate.finalize.finalized = true ∧
    (evaluateCompatibility symbolicRequest fixedCandidate dynamicPolicy).reason =
      .compatibleWithDynamicShapeConstraint ∧
    fixedCandidate.symbolicShapeConstraints = [] ∧
    ¬ AgreesBehindShape symbolicRequest.toKeyFields.sorted fixedCandidate.toKeyFields.sorted
      dynamicPolicy := by
  refine ⟨rfl, rfl, ?_, rfl, fun h => ?_⟩
  · rw [evaluateCompatibility_reason (by decide)]
    exact ⟨symbolicRequest_digest_ne, by decide⟩
  · have hflags := h.codegenFlags
    revert hflags
    decide

/-! ## Runtime validation -/

/-- What a kernel is for, and which revision and quantization of it: nothing a runtime re-checks. -/
structure SameKernel (r c : KeyFields) : Prop where
  operation : r.operation = c.operation
  artifactFormat : r.artifactFormat = c.artifactFormat
  modelRevision : r.modelRevision = c.modelRevision
  operatorRevision : r.operatorRevision = c.operatorRevision
  quantizationBits : r.quantizationBits = c.quantizationBits
  quantizationSymmetric : r.quantizationSymmetric = c.quantizationSymmetric

/-- **When runtime-validation reuse is sound.** The answer "compatible with runtime validation" means
two keys for the same kernel if and only if the keys are for the same kernel, or the policy does not
allow the answer, or the digests agree, or the shape or another comparison of the walk tells the keys
apart: no comparison looks at what `SameKernel` lists. -/
theorem runtime_reuse_iff (req cand : KernelCompatibilityKey) (policy : CompatibilityPolicy) :
    ((evaluateCompatibility req cand policy).reason = .compatibleWithRuntimeValidation →
      SameKernel req.toKeyFields cand.toKeyFields) ↔
    (policy.allowRuntimeValidation = false ∨ req.finalize.digest = cand.finalize.digest ∨
      shapesMatch cand.shape req.shape = false ∨
      ¬ Passes (checksBeforeShape req.toKeyFields.sorted cand.toKeyFields.sorted policy) ∨
      ¬ AgreesBehindShape req.toKeyFields.sorted cand.toKeyFields.sorted policy ∨
      SameKernel req.toKeyFields cand.toKeyFields) := by
  rw [evaluateCompatibility_reason (by decide), evaluateDimensions_runtime, passes_checksAfterShape]
  constructor
  · intro h
    by_contra hbad
    simp only [not_or, not_not, Bool.not_eq_false] at hbad
    obtain ⟨hallow, hdigest, hshape, hbefore, hbehind, hkernel⟩ := hbad
    exact hkernel (h ⟨hdigest, hbefore, hshape, hbehind, hallow⟩)
  · rintro hcond ⟨hdigest, hbefore, hshape, hbehind, hallow⟩
    rcases hcond with hno | hno | hno | hno | hno | hkernel
    · rw [hallow] at hno
      cases hno
    · exact absurd hno hdigest
    · have hshape' : shapesMatch cand.shape req.shape = true := hshape
      rw [hno] at hshape'
      cases hshape'
    · exact absurd hbefore hno
    · exact absurd hbehind hno
    · exact hkernel

def gemmKey : KernelCompatibilityKey := { operation := str "gemm" }

/-- The same operation of another model revision. -/
def revisedKey : KernelCompatibilityKey := { operation := str "gemm", modelRevision := str "2" }

def runtimePolicy : CompatibilityPolicy := { allowRuntimeValidation := true }

theorem gemmKey_digest_ne : gemmKey.finalize.digest ≠ revisedKey.finalize.digest := by
  decide +kernel

theorem gemmKey_runtime : evaluateCompatibility gemmKey revisedKey runtimePolicy =
    accept .compatibleWithRuntimeValidation (str "only runtime-revalidatable attributes differ") := by
  simp only [evaluateCompatibility, gemmKey_digest_ne, if_false,
    KernelCompatibilityKey.finalize_toKeyFields]
  decide

/-- **A kernel of another model revision passes for runtime validation.** -/
theorem runtime_reuse_unsound :
    gemmKey.finalize.finalized = true ∧ revisedKey.finalize.finalized = true ∧
    (evaluateCompatibility gemmKey revisedKey runtimePolicy).reason =
      .compatibleWithRuntimeValidation ∧
    ¬ SameKernel gemmKey.toKeyFields revisedKey.toKeyFields := by
  refine ⟨rfl, rfl, ?_, fun h => ?_⟩
  · rw [gemmKey_runtime]
    rfl
  · have hrevision := h.modelRevision
    revert hrevision
    decide

end KernelCache
