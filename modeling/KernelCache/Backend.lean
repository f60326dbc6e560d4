/-
# KernelCache.Backend — requests, records, the backend interfaces and one build (`backend.hpp`,
`lookup.hpp`, `artifact.hpp`, `internal.hpp`, `build.cpp`).

Everything outside the cache's own state is gathered in an `Env`: the configuration, the registered
backends, the clock, the eviction score (a floating-point value the cache only compares), the order
in which hash maps and directories are iterated, and the fate of each file operation.  Whatever of
this may differ from call to call takes the number of steps the cache has made so far, so that a
statement about every `Env` is a statement about every behaviour of the outside world.

`runBuild` is the whole of `run_build`: compile, name the result after its bytes and the target
generation, validate, and fill in the descriptor.
-/
import KernelCache.Compatibility
import KernelCache.Lifecycle
import KernelCache.Persistence

namespace KernelCache

open Foundation (Bytes)

/-! ## Requests -/

structure KernelLookupRequest where
  key : KernelCompatibilityKey := {}
  device : DeviceDescriptor := {}
  namespace_ : Str := []
  desiredTier : ResidencyTier := .hostResident
  policy : CompatibilityPolicy := {}
  allowMissBuild : Bool := false
  pin : Bool := false
  source : Str := []

structure BuildRequest where
  key : KernelCompatibilityKey
  source : Str
  backend : Str
  device : DeviceDescriptor
  compile : CompilationDescriptor
  namespace_ : Str
  logicalOperation : Str

/-- The fields of `BuildResult` the cache keeps; it replaces the id and the generation. -/
structure BuildResult where
  artifactFormat : Str := []
  bytes : Bytes := []
  sizes : ArtifactSizes := {}
  provenance : ProvenanceDescriptor := {}
  compilation : CompilationDescriptor := {}
  kernelCount : UInt32 := 0

structure ArtifactDescriptor where
  id : ArtifactId := {}
  generation : ArtifactGeneration := 0
  key : KernelCompatibilityKey := {}
  format : Str := []
  namespace_ : Str := []
  backend : Str := []
  sizes : ArtifactSizes := {}
  compilation : CompilationDescriptor := {}
  validation : ValidationDescriptor := {}
  provenance : ProvenanceDescriptor := {}
  bytesSha256 : Str := []
  publishedAtNs : UInt64 := 0
  kernelCount : UInt32 := 1
  deriving DecidableEq

/-! ## Backends -/

/-- `std::shared_ptr<void>`; `none` is the null pointer. -/
abbrev LoadedModuleHandle := Option Nat

structure KernelBuilder where
  canBuild : KernelCompatibilityKey → Bool
  build : Nat → BuildRequest → Result BuildResult

structure KernelValidator where
  validate : Nat → KernelCompatibilityKey → Bytes → DeviceDescriptor → Result ValidationDescriptor

structure KernelLoader where
  load : Nat → KernelCompatibilityKey → Bytes → DeviceDescriptor → Result LoadedModuleHandle
  unload : Nat → LoadedModuleHandle → Result Unit
  residentFootprint : Nat → LoadedModuleHandle → UInt64 × Bool

structure KernelBackend where
  name : Str
  builder : Option KernelBuilder := none
  validator : Option KernelValidator := none
  loader : Option KernelLoader := none

/-! ## Records -/

/-- `internal::ArtifactRecord`.  Counters are unbounded. -/
structure ArtifactRecord where
  id : ArtifactId := {}
  generation : ArtifactGeneration := 0
  key : KernelCompatibilityKey := {}
  desc : ArtifactDescriptor := {}
  bytes : Bytes := []
  state : ArtifactState := .discovered
  tier : ResidencyTier := .none
  lastAccessNs : UInt64 := 0
  accessCount : Nat := 0
  reuseCount : Nat := 0
  pinCount : Nat := 0
  leaseCount : Nat := 0
  nativeHandle : LoadedModuleHandle := none
  loadGeneration : LoadGeneration := 0
  residencyGeneration : ResidencyGeneration := 0
  deviceFootprint : UInt64 := 0
  deviceFootprintEstimated : Bool := true
  persistent : Bool := false
  tenant : Str := []
  operation : Str := []
  arch : Str := []
  backend : Str := []
  kernelId : KernelId := {}
  validated : Bool := false
  invalidated : Bool := false
  corrupt : Bool := false
  deviceBytesUsed : UInt64 := 0

/-- The residency budgets of the configuration. -/
structure ResidencyPolicy where
  hostBudgetBytes : UInt64 := 1073741824
  deviceBudgetBytes : UInt64 := 1073741824
  applyHostBudget : Bool := true
  applyDeviceBudget : Bool := true

structure KernelCacheConfig where
  namespace_ : Str := []
  residency : ResidencyPolicy := {}
  /-- `persistence_open && persistence`, settled when the cache is constructed. -/
  persistenceOpen : Bool := false

theorem KernelBackend.names_nodup (b : KernelBackend) : ([b].map KernelBackend.name).Nodup :=
  List.nodup_singleton _

/-- The world around one cache. -/
structure Env where
  cfg : KernelCacheConfig := {}
  /-- The registered backends in the iteration order of the registry, a map keyed by name. -/
  backends : List KernelBackend := []
  backends_nodup : (backends.map KernelBackend.name).Nodup := by
    first | exact List.nodup_nil | exact KernelBackend.names_nodup _
  /-- `now_ns()`. -/
  now : Nat → UInt64 := fun _ => 0
  /-- `compute_eviction_score(...).total`, a non-negative value that is only compared. -/
  score : Nat → ArtifactRecord → Nat := fun _ _ => 0
  /-- The iteration order of `by_id`. -/
  idOrder : Nat → List ArtifactId → List ArtifactId := fun _ ids => ids
  idOrder_perm : ∀ t ids, (idOrder t ids).Perm ids := by exact fun _ ids => List.Perm.refl ids
  /-- The iteration order of the artifacts directory. -/
  dirOrder : Nat → List Str → List Str := fun _ names => names
  dirOrder_perm : ∀ t names, (dirOrder t names).Perm names := by
    exact fun _ names => List.Perm.refl names
  /-- The fate of the file operations of a store write. -/
  putFaults : Nat → PutFaults := fun _ => {}
  /-- How many rounds of a budget loop are followed; a longer loop counts as not returning. -/
  loopBound : Nat := 0

/-- `find_backend`: by name, else the first that can build the key. -/
def findBackend (backends : List KernelBackend) (key : KernelCompatibilityKey) :
    Option KernelBackend :=
  match backends.find? (fun b => b.name == key.runtimeBackend) with
  | some b => some b
  | none => backends.find? fun b => b.builder.any fun builder => builder.canBuild key

theorem findBackend_mem {backends : List KernelBackend} {key : KernelCompatibilityKey}
    {b : KernelBackend} (h : findBackend backends key = some b) : b ∈ backends := by
  unfold findBackend at h
  split at h
  · rename_i found hfound
    cases h
    exact List.mem_of_find?_eq_some hfound
  · exact List.mem_of_find?_eq_some h

/-! ## One build -/

/-- `derive_id`, also `derive_artifact_id`: the generation and the first eight digest bytes. -/
def deriveId (bytes : Bytes) (gen : ArtifactGeneration) : ArtifactId :=
  ⟨⟨gen, (Sha256.digest bytes).word 0⟩⟩

/-- `BuildFence::Outcome`. -/
structure Outcome where
  id : ArtifactId := {}
  generation : ArtifactGeneration := 0
  bytes : Bytes := []
  desc : ArtifactDescriptor := {}
  error : Str := []
  errorCode : ErrorCode := .none
  succeeded : Bool := false

instance : Inhabited Outcome := ⟨{}⟩

/-- The build request handed to the builder. -/
def buildRequest (env : Env) (backend : KernelBackend) (request : KernelLookupRequest)
    (key : KernelCompatibilityKey) : BuildRequest where
  key := key
  source := request.source
  backend := backend.name
  device := request.device
  namespace_ := if request.namespace_.isEmpty then env.cfg.namespace_ else request.namespace_
  logicalOperation := key.operation
  compile :=
    { target :=
        { vendor := request.device.vendor, family := request.device.family,
          archName := request.device.archName, computeCapability := request.device.capability }
      compiler :=
        { name := if key.compilerName.isEmpty then backend.name else key.compilerName
          versionMajor := key.compilerVersionMajor
          versionMinor := key.compilerVersionMinor
          versionPatch := key.compilerVersionPatch }
      codegenFlags := key.codegenFlags }

/-- The descriptor of a validated build. -/
def builtDescriptor (env : Env) (tick : Nat) (br : BuildRequest) (res : BuildResult)
    (vd : ValidationDescriptor) (gen : ArtifactGeneration) : ArtifactDescriptor where
  id := deriveId res.bytes gen
  generation := gen
  key := br.key
  format := res.artifactFormat
  namespace_ := br.namespace_
  backend := br.backend
  sizes := res.sizes
  compilation := { res.compilation with target := br.compile.target }
  validation := vd
  provenance := res.provenance
  bytesSha256 := toHex (Sha256.digest res.bytes)
  publishedAtNs := env.now tick
  kernelCount := res.kernelCount

/-- The validation stage and the outcome.  A validator that does not support the key counts as one
that passed nothing. -/
def validateBuilt (env : Env) (tick : Nat) (validator : KernelValidator) (br : BuildRequest)
    (res : BuildResult) (gen : ArtifactGeneration) : Result Outcome :=
  let rejected (code : ErrorCode) (error : Str) : Result Outcome :=
    .ok { id := deriveId res.bytes gen, generation := gen, error := error, errorCode := code }
  let unspecified (reason : Str) : Str := if reason.isEmpty then str "unspecified" else reason
  match validator.validate tick br.key res.bytes br.device with
  | .error .exception => .error .exception
  | .error (.error .notSupported _) =>
    rejected .validationFailed (str "execution validation failed: " ++ unspecified [])
  | .error (.error code message) => rejected code (str "validation: " ++ message)
  | .ok vd =>
    if !vd.allPassed then
      rejected .validationFailed
        (str "execution validation failed: " ++ unspecified vd.backendReason)
    else
      let desc := builtDescriptor env tick br res vd gen
      .ok { id := desc.id, generation := gen, bytes := res.bytes, desc := desc, succeeded := true }

/-- `run_build`; the error is an exception of the backend passing through. -/
def runBuild (env : Env) (tick : Nat) (request : KernelLookupRequest) (gen : ArtifactGeneration) :
    Result Outcome :=
  let key := request.key.finalize
  let unbuilt (code : ErrorCode) (error : Str) : Result Outcome :=
    .ok { id := deriveId [] gen, generation := gen, error := error, errorCode := code }
  let incomplete : Result Outcome :=
    unbuilt .notSupported
      (str "no complete backend (builder/validator/loader) for backend=" ++ key.runtimeBackend)
  match findBackend env.backends key with
  | none => incomplete
  | some backend =>
    match backend.builder, backend.validator, backend.loader with
    | some builder, some validator, some _ =>
      let br := buildRequest env backend request key
      match builder.build tick br with
      | .error .exception => .error .exception
      | .error (.error code message) => unbuilt code message
      | .ok res => validateBuilt env tick validator br res gen
    | _, _, _ => incomplete

/-- What a successful build hands over: the descriptor names the bytes, the target generation and
the finalized key of the request. -/
structure Outcome.Built (o : Outcome) (request : KernelLookupRequest) (gen : ArtifactGeneration) :
    Prop where
  id_eq : o.id = deriveId o.bytes gen
  desc_id : o.desc.id = o.id
  desc_generation : o.desc.generation = gen
  desc_key : o.desc.key = request.key.finalize
  validated : o.desc.validation.allPassed = true

theorem validateBuilt_succeeded {env : Env} {tick : Nat} {validator : KernelValidator}
    {br : BuildRequest} {res : BuildResult} {gen : ArtifactGeneration} {o : Outcome}
    (h : validateBuilt env tick validator br res gen = .ok o) (hs : o.succeeded = true) :
    ∃ vd, vd.allPassed = true ∧ o.desc = builtDescriptor env tick br res vd gen ∧
      o.bytes = res.bytes ∧ o.id = deriveId res.bytes gen := by
  simp only [validateBuilt] at h
  split at h
  · cases h
  · cases h
    cases hs
  · cases h
    cases hs
  · rename_i vd _
    split at h
    · cases h
      cases hs
    · rename_i hpass
      cases h
      exact ⟨vd, by simpa using hpass, rfl, rfl, rfl⟩

/-- The spec of `run_build`: success means a complete, validated, self-consistent outcome. -/
theorem runBuild_built {env : Env} {tick : Nat} {request : KernelLookupRequest}
    {gen : ArtifactGeneration} {o : Outcome} (h : runBuild env tick request gen = .ok o)
    (hs : o.succeeded = true) : o.Built request gen := by
  simp only [runBuild] at h
  split at h
  · cases h
    cases hs
  · split at h
    · split at h
      · cases h
      · cases h
        cases hs
      · obtain ⟨vd, hvd, hdesc, hbytes, hid⟩ := validateBuilt_succeeded h hs
        refine ⟨by rw [hid, hbytes], ?_, ?_, ?_, ?_⟩
        · rw [hdesc, hid]
          rfl
        · rw [hdesc]
          rfl
        · rw [hdesc]
          rfl
        · rw [hdesc]
          exact hvd
    · cases h
      cases hs

end KernelCache
