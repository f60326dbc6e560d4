/-
# KernelCache.Compatibility — the compatibility engine (`compatibility.hpp`, `compatibility.cpp`).

`evaluateCompatibility` finalizes both keys, accepts on equal digests, and otherwise walks the
dimensions in the source's order; the first that conflicts decides.  A side that leaves a dimension
open (an empty string, a zero version) matches anything there.  It IGNORES whether `finalize()`
accepted the keys: a malformed key is compared by the digest it carried before.
-/
import KernelCache.KeyCodec

namespace KernelCache

open KernelCompatibilityKey (finalize)

inductive CompatibilityReason where
  | notEvaluated
  | exactCompatible
  | compatibleWithDynamicShapeConstraint
  | compatibleWithRuntimeValidation
  | incompatibleArchitecture
  | incompatibleRuntime
  | incompatibleCompilerABI
  | incompatibleKernelABI
  | incompatibleDatatype
  | incompatibleLayout
  | incompatibleShape
  | incompatibleAlignment
  | incompatibleSpecialization
  | incompatibleQuantization
  deriving DecidableEq

/-- `compatibility_reason_name`. -/
def CompatibilityReason.name : CompatibilityReason → Str
  | .notEvaluated => str "not-evaluated"
  | .exactCompatible => str "exact-compatible"
  | .compatibleWithDynamicShapeConstraint => str "compatible-with-dynamic-shape-constraint"
  | .compatibleWithRuntimeValidation => str "compatible-with-runtime-validation"
  | .incompatibleArchitecture => str "incompatible-architecture"
  | .incompatibleRuntime => str "incompatible-runtime"
  | .incompatibleCompilerABI => str "incompatible-compiler-abi"
  | .incompatibleKernelABI => str "incompatible-kernel-abi"
  | .incompatibleDatatype => str "incompatible-datatype"
  | .incompatibleLayout => str "incompatible-layout"
  | .incompatibleShape => str "incompatible-shape"
  | .incompatibleAlignment => str "incompatible-alignment"
  | .incompatibleSpecialization => str "incompatible-specialization"
  | .incompatibleQuantization => str "incompatible-quantization"

structure KernelCompatibilityDecision where
  reason : CompatibilityReason := .notEvaluated
  compatible : Bool := false
  notes : List Str := []
  deriving DecidableEq

namespace KernelCompatibilityDecision

def isExact (d : KernelCompatibilityDecision) : Bool := d.reason == .exactCompatible

/-- `summary()`. -/
def summary (d : KernelCompatibilityDecision) : Str :=
  str "compatible=" ++ (if d.compatible then str "yes" else str "no") ++ str " reason=" ++
    d.reason.name ++ d.notes.flatMap (fun n => str " | " ++ n)

/-- `compatibility_distance`. -/
def distance (d : KernelCompatibilityDecision) : Nat :=
  match d.reason with
  | .exactCompatible => 0
  | .compatibleWithDynamicShapeConstraint => 1
  | .compatibleWithRuntimeValidation => 2
  | _ => 100

end KernelCompatibilityDecision

/-- The fields of `CompatibilityPolicy` that `evaluate_compatibility` reads. -/
structure CompatibilityPolicy where
  allowDynamicShapeConstraints : Bool := false
  allowRuntimeValidation : Bool := false
  requireExactAbi : Bool := false
  requireExactDatatype : Bool := true
  requireExactAlignment : Bool := true
  deriving DecidableEq

/-- `shapes_match`: an empty shape is unconstrained, a negative extent symbolic. -/
def shapesMatch (a b : List Int64) : Bool :=
  a == b || a.isEmpty || b.isEmpty ||
    (a.length == b.length && (a.zip b).all fun p => p.1 < 0 || p.2 < 0 || p.1 == p.2)

/-- `dtypes_match`. -/
def dtypesMatch (a b : List Datatype) : Bool := a == b || a.isEmpty || b.isEmpty

/-- Both sides set a dimension, and differently. -/
def conflict {α : Type} [BEq α] (unset : α) (c r : α) : Bool := c != unset && r != unset && c != r

/-- A refusal. -/
def refuse (reason : CompatibilityReason) (note : Str) : KernelCompatibilityDecision :=
  { reason := reason, notes := [note] }

/-- An acceptance. -/
def accept (reason : CompatibilityReason) (note : Str) : KernelCompatibilityDecision :=
  { reason := reason, compatible := true, notes := [note] }

/-- One comparison of the walk: whether it refuses, and the refusal. -/
structure Check where
  fails : Bool
  refusal : KernelCompatibilityDecision

/-- The comparisons up to the rank, in order. -/
def checksBeforeShape (r c : KeyFields) (policy : CompatibilityPolicy) : List Check :=
  [ -- architecture
    ⟨conflict .unknown c.vendor r.vendor, refuse .incompatibleArchitecture
      (str "device vendor differs: candidate=" ++ c.vendor.name ++ str " request=" ++
        r.vendor.name)⟩,
    ⟨conflict [] c.arch r.arch, refuse .incompatibleArchitecture
      (str "arch differs: candidate=" ++ c.arch ++ str " request=" ++ r.arch)⟩,
    ⟨conflict {} c.capability r.capability, refuse .incompatibleArchitecture
      (str "compute capability differs")⟩,
    -- runtime backend
    ⟨conflict [] c.runtimeBackend r.runtimeBackend, refuse .incompatibleRuntime
      (str "runtime backend differs: candidate=" ++ c.runtimeBackend ++ str " request=" ++
        r.runtimeBackend)⟩,
    ⟨conflict 0 c.runtimeVersionMajor r.runtimeVersionMajor, refuse .incompatibleRuntime
      (str "runtime major version differs")⟩,
    -- compiler
    ⟨conflict [] c.compilerName r.compilerName, refuse .incompatibleCompilerABI
      (str "compiler differs: candidate=" ++ c.compilerName ++ str " request=" ++
        r.compilerName)⟩,
    ⟨conflict 0 c.compilerVersionMajor r.compilerVersionMajor, refuse .incompatibleCompilerABI
      (str "compiler major version differs")⟩,
    -- kernel ABI: the version has no unset value
    ⟨conflict [] c.abiName r.abiName, refuse .incompatibleKernelABI
      (str "kernel abi differs: candidate=" ++ c.abiName ++ str " request=" ++ r.abiName)⟩,
    ⟨c.abiVersion != r.abiVersion, refuse .incompatibleKernelABI (str "abi version differs")⟩,
    ⟨conflict [] c.kernelInterfaceSignature r.kernelInterfaceSignature,
      refuse .incompatibleKernelABI (str "kernel interface signature differs")⟩,
    ⟨policy.requireExactAbi && c.scalarParamTypes != r.scalarParamTypes,
      refuse .incompatibleKernelABI
        (str "scalar parameter schema differs under exact-abi policy")⟩,
    ⟨policy.requireExactDatatype && !dtypesMatch c.dtypes r.dtypes,
      refuse .incompatibleDatatype (str "tensor datatype(s) differ")⟩,
    ⟨conflict [] c.layouts r.layouts, refuse .incompatibleLayout
      (str "tensor layout(s) differ")⟩,
    ⟨conflict 0 c.rank r.rank, refuse .incompatibleShape (str "tensor rank differs")⟩]

/-- The comparisons after the shape, in order. -/
def checksAfterShape (r c : KeyFields) (policy : CompatibilityPolicy) : List Check :=
  [⟨policy.requireExactAlignment && conflict 0 c.alignmentBytes r.alignmentBytes,
      refuse .incompatibleAlignment (str "alignment requirement differs")⟩,
    ⟨c.codegenFlags != r.codegenFlags, refuse .incompatibleSpecialization
      (str "codegen/specialization flags differ")⟩,
    ⟨c.specialization != r.specialization, refuse .incompatibleSpecialization
      (str "specialization parameters differ")⟩,
    ⟨conflict [] c.quantizationKind r.quantizationKind, refuse .incompatibleQuantization
      (str "quantization kind differs")⟩]

/-- The refusal of the first comparison that fails. -/
def firstRefusal (checks : List Check) : Option KernelCompatibilityDecision :=
  (checks.find? Check.fails).map Check.refusal

/-- The shape and what follows it.  The REQUEST's symbolic constraints decide a shape mismatch, and
nothing behind the shape is compared then. -/
def evaluateShape (r c : KeyFields) (policy : CompatibilityPolicy) : KernelCompatibilityDecision :=
  if !shapesMatch c.shape r.shape then
    if policy.allowDynamicShapeConstraints && !r.symbolicShapeConstraints.isEmpty then
      accept .compatibleWithDynamicShapeConstraint
        (str "shape differs but request declares symbolic constraints")
    else
      refuse .incompatibleShape
        (str "tensor shape differs and no symbolic constraint permits reuse")
  else
    match firstRefusal (checksAfterShape r c policy) with
    | some d => d
    | none =>
      if policy.allowRuntimeValidation then
        accept .compatibleWithRuntimeValidation
          (str "only runtime-revalidatable attributes differ")
      else
        refuse .incompatibleSpecialization
          (str "keys differ beyond the evaluated compatibility dimensions")

/-- The walk over the dimensions once the digests differ: the first comparison that fails decides. -/
def evaluateDimensions (r c : KeyFields) (policy : CompatibilityPolicy) :
    KernelCompatibilityDecision :=
  match firstRefusal (checksBeforeShape r c policy) with
  | some d => d
  | none => evaluateShape r c policy

/-- `evaluate_compatibility`. -/
def evaluateCompatibility (req cand : KernelCompatibilityKey) (policy : CompatibilityPolicy) :
    KernelCompatibilityDecision :=
  let r := req.finalize
  let c := cand.finalize
  if r.digest = c.digest then
    accept .exactCompatible (str "canonical key digest matches exactly")
  else evaluateDimensions r.toKeyFields c.toKeyFields policy

/-! ## Spec lemmas -/

/-- A decision the walk may end with: a refusal, or an acceptance the policy allows. -/
def Permitted (policy : CompatibilityPolicy) (d : KernelCompatibilityDecision) : Prop :=
  (d.compatible = false ∧ d.reason ≠ .exactCompatible) ∨
    (policy.allowDynamicShapeConstraints = true ∧
      d.reason = .compatibleWithDynamicShapeConstraint) ∨
    (policy.allowRuntimeValidation = true ∧ d.reason = .compatibleWithRuntimeValidation)

theorem permitted_firstRefusal {policy : CompatibilityPolicy} {checks : List Check}
    {d : KernelCompatibilityDecision} (hchecks : ∀ k ∈ checks, Permitted policy k.refusal)
    (h : firstRefusal checks = some d) : Permitted policy d := by
  obtain ⟨k, hk, rfl⟩ := Option.map_eq_some_iff.mp h
  exact hchecks k (List.mem_of_find?_eq_some hk)

theorem permitted_refuse {policy : CompatibilityPolicy} {reason : CompatibilityReason} {note : Str}
    (h : reason ≠ .exactCompatible) : Permitted policy (refuse reason note) := .inl ⟨rfl, h⟩

theorem checksBeforeShape_permitted (r c : KeyFields) (policy : CompatibilityPolicy) :
    ∀ k ∈ checksBeforeShape r c policy, Permitted policy k.refusal := by
  unfold checksBeforeShape
  simp only [List.forall_mem_cons]
  refine ⟨?_, ?_, ?_, ?_, ?_, ?_, ?_, ?_, ?_, ?_, ?_, ?_, ?_, ?_, by simp⟩ <;>
    exact permitted_refuse (by decide)

theorem checksAfterShape_permitted (r c : KeyFields) (policy : CompatibilityPolicy) :
    ∀ k ∈ checksAfterShape r c policy, Permitted policy k.refusal := by
  unfold checksAfterShape
  simp only [List.forall_mem_cons]
  refine ⟨?_, ?_, ?_, ?_, by simp⟩ <;> exact permitted_refuse (by decide)

/-- What the dimension walk can accept, and under which allowance of the policy. -/
theorem evaluateDimensions_permitted (r c : KeyFields) (policy : CompatibilityPolicy) :
    Permitted policy (evaluateDimensions r c policy) := by
  unfold evaluateDimensions
  split
  · rename_i d hd
    exact permitted_firstRefusal (checksBeforeShape_permitted r c policy) hd
  · unfold evaluateShape
    split
    · split
      · rename_i hallow
        exact .inr (.inl ⟨((Bool.and_eq_true _ _).mp hallow).1, rfl⟩)
      · exact permitted_refuse (by decide)
    · split
      · rename_i d hd
        exact permitted_firstRefusal (checksAfterShape_permitted r c policy) hd
      · split
        · rename_i hallow
          exact .inr (.inr ⟨hallow, rfl⟩)
        · exact permitted_refuse (by decide)

theorem evaluateCompatibility_of_digest_eq {req cand : KernelCompatibilityKey}
    (policy : CompatibilityPolicy) (h : req.finalize.digest = cand.finalize.digest) :
    evaluateCompatibility req cand policy =
      accept .exactCompatible (str "canonical key digest matches exactly") := by
  simp only [evaluateCompatibility, h, if_true]

/-- The engine says "exact" only on equal digests. -/
theorem digest_eq_of_exact {req cand : KernelCompatibilityKey} {policy : CompatibilityPolicy}
    (h : (evaluateCompatibility req cand policy).reason = .exactCompatible) :
    req.finalize.digest = cand.finalize.digest := by
  by_contra hne
  simp only [evaluateCompatibility, hne, if_false] at h
  rcases evaluateDimensions_permitted req.finalize.toKeyFields cand.finalize.toKeyFields policy
    with ⟨-, hreason⟩ | ⟨-, hreason⟩ | ⟨-, hreason⟩
  · exact hreason h
  · rw [hreason] at h
    cases h
  · rw [hreason] at h
    cases h

/-- Finalizing the request first changes nothing. -/
@[simp] theorem evaluateCompatibility_finalize (req cand : KernelCompatibilityKey)
    (policy : CompatibilityPolicy) :
    evaluateCompatibility req.finalize cand policy = evaluateCompatibility req cand policy := by
  simp only [evaluateCompatibility, KernelCompatibilityKey.finalize_finalize]

/-- Nor does finalizing the candidate. -/
@[simp] theorem evaluateCompatibility_finalize_right (req cand : KernelCompatibilityKey)
    (policy : CompatibilityPolicy) :
    evaluateCompatibility req cand.finalize policy = evaluateCompatibility req cand policy := by
  simp only [evaluateCompatibility, KernelCompatibilityKey.finalize_finalize]

/-- With both allowances off, only an exact match is compatible. -/
theorem exact_of_strict {req cand : KernelCompatibilityKey} {policy : CompatibilityPolicy}
    (hshape : policy.allowDynamicShapeConstraints = false)
    (hruntime : policy.allowRuntimeValidation = false)
    (h : (evaluateCompatibility req cand policy).compatible = true) :
    req.finalize.digest = cand.finalize.digest := by
  by_contra hne
  simp only [evaluateCompatibility, hne, if_false] at h
  rcases evaluateDimensions_permitted req.finalize.toKeyFields cand.finalize.toKeyFields policy
    with ⟨hrefused, -⟩ | ⟨hallow, -⟩ | ⟨hallow, -⟩
  · rw [hrefused] at h
    cases h
  · rw [hshape] at hallow
    cases hallow
  · rw [hruntime] at hallow
    cases hallow

/-- **Exact means equal.** Two accepted keys whose lengths fit and whose encodings do not collide
agree on every encoded field when the engine calls them exact. -/
theorem fields_eq_of_exact {req cand : KernelCompatibilityKey} {policy : CompatibilityPolicy}
    (hreq : req.wellFormed = true) (hcand : cand.wellFormed = true)
    (hreqSized : req.toKeyFields.Sized) (hcandSized : cand.toKeyFields.Sized)
    (hinj : Sha256.digest req.finalize.canonical = Sha256.digest cand.finalize.canonical →
      req.finalize.canonical = cand.finalize.canonical)
    (h : (evaluateCompatibility req cand policy).reason = .exactCompatible) :
    req.toKeyFields.sorted = cand.toKeyFields.sorted := by
  have hdigest := digest_eq_of_exact h
  have hcanon : req.finalize.canonical = cand.finalize.canonical := by
    apply hinj
    rw [KernelCompatibilityKey.finalize_of_wellFormed hreq,
      KernelCompatibilityKey.finalize_of_wellFormed hcand] at hdigest ⊢
    exact hdigest
  exact KernelCompatibilityKey.sorted_eq_of_canonical_eq hreq hreqSized hcand hcandSized hcanon

end KernelCache
