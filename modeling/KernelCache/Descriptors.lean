/-
# KernelCache.Descriptors — results, identities and typed descriptors.

The data model of `result.hpp`, `identifiers.hpp`, `descriptors.hpp`, `artifact.hpp` and the
request/result records of `backend.hpp`.  A `std::string` is its byte sequence.  The enumerations
with a fixed underlying `uint8_t` that the key decoder fills by `static_cast` keep all 256 values;
the two enumerations the cache itself drives (residency tier, lifecycle state) are closed.

A `Result` fails with the source's code and message, or with a C++ exception passing through: the
interfaces a backend implements may throw, and the callers treat the two failures differently.
-/
import KernelCache.Sha256

namespace KernelCache

open Foundation (Bytes)

/-- `std::string`. -/
abbrev Str := Bytes

/-- A string literal of the source (ASCII). -/
def str (s : String) : Str := s.toList.map fun c => UInt8.ofNat c.toNat

/-- `std::to_string` of an unsigned integer. -/
def natStr (n : Nat) : Str := (Nat.toDigits 10 n).map fun c => UInt8.ofNat c.toNat

/-! ## Results -/

inductive ErrorCode where
  | none
  | invalidArtifact
  | staleArtifact
  | invalidArgument
  | notFound
  | alreadyExists
  | notSupported
  | validationFailed
  | evictionForbidden
  | ioError
  | checksumMismatch
  | truncatedData
  | unknownMetadataVersion
  | malformedFrame
  /-- Any other code a backend reports. -/
  | backend (code : UInt32)
  deriving DecidableEq

/-- `KcError`, or an exception in flight. -/
inductive Failure where
  | error (code : ErrorCode) (message : Str)
  | exception
  deriving DecidableEq

abbrev Result (α : Type) := Except Failure α

/-- `Result<T>(code, message)`. -/
def fail {α : Type} (code : ErrorCode) (message : Str) : Result α := .error (.error code message)

/-! ## Identities and generations -/

/-- A 128-bit identity carried as two 64-bit words. -/
structure StrongId128 where
  hi : UInt64 := 0
  lo : UInt64 := 0
  deriving DecidableEq

structure KernelId extends StrongId128
  deriving DecidableEq

structure ArtifactId extends StrongId128
  deriving DecidableEq

structure DeviceId extends StrongId128
  deriving DecidableEq

instance : Inhabited ArtifactId := ⟨{}⟩

abbrev ArtifactGeneration := UInt64
abbrev CacheGeneration := UInt64
abbrev LoadGeneration := UInt64
abbrev ResidencyGeneration := UInt64

/-! ## Enumerations -/

/-- `enum class Datatype : std::uint8_t`. -/
structure Datatype where
  code : UInt8
  deriving DecidableEq

/-- `enum class TensorLayout : std::uint8_t`. -/
structure TensorLayout where
  code : UInt8
  deriving DecidableEq

/-- `enum class DeviceVendor : std::uint8_t`. -/
structure DeviceVendor where
  code : UInt8
  deriving DecidableEq

/-- `enum class AcceleratorFamily : std::uint8_t`. -/
structure AcceleratorFamily where
  code : UInt8
  deriving DecidableEq

def Datatype.f32 : Datatype := ⟨12⟩
def TensorLayout.rowMajor : TensorLayout := ⟨1⟩
def DeviceVendor.unknown : DeviceVendor := ⟨0⟩
def DeviceVendor.cpu : DeviceVendor := ⟨4⟩
def AcceleratorFamily.none : AcceleratorFamily := ⟨0⟩

/-- `vendor_name`. -/
def DeviceVendor.name (v : DeviceVendor) : Str :=
  match v.code with
  | 0 => str "unknown"
  | 1 => str "nvidia"
  | 2 => str "amd"
  | 3 => str "intel"
  | 4 => str "cpu"
  | _ => str "unknown"

inductive ResidencyTier where
  | none
  | metadataOnly
  | persistentStorage
  | hostResident
  | deviceResident
  deriving DecidableEq

/-- The underlying value; tiers are compared by it. -/
def ResidencyTier.rank : ResidencyTier → Nat
  | .none => 0
  | .metadataOnly => 1
  | .persistentStorage => 2
  | .hostResident => 3
  | .deviceResident => 4

inductive ArtifactState where
  | discovered
  | building
  | built
  | validating
  | valid
  | loading
  | residentHost
  | residentDevice
  | persisted
  | leasing
  | inUse
  | demotionPending
  | evictionPending
  | evictedDevice
  | evictedHost
  | invalidated
  | corrupt
  | failed
  | retired
  | terminal
  deriving DecidableEq

/-! ## Descriptors -/

structure ComputeCapability where
  major : UInt8 := 0
  minor : UInt8 := 0
  deriving DecidableEq

structure DeviceArchitecture where
  vendor : DeviceVendor := .unknown
  family : AcceleratorFamily := .none
  archName : Str := []
  computeCapability : ComputeCapability := {}
  deriving DecidableEq

structure CompilerIdentity where
  name : Str := []
  versionMajor : UInt32 := 0
  versionMinor : UInt32 := 0
  versionPatch : UInt32 := 0
  backend : Str := []
  deriving DecidableEq

structure CompilationDescriptor where
  compiler : CompilerIdentity := {}
  target : DeviceArchitecture := {}
  codegenFlags : List Str := []
  compilationMode : Str := []
  deriving DecidableEq

structure DeviceDescriptor where
  id : DeviceId := {}
  name : Str := []
  vendor : DeviceVendor := .unknown
  family : AcceleratorFamily := .none
  archName : Str := []
  capability : ComputeCapability := {}
  memoryBytes : UInt64 := 0
  deriving DecidableEq

structure ProvenanceDescriptor where
  producer : Str := []
  buildCommand : Str := []
  sourceNamespace : Str := []
  sourceId : Str := []
  sourceTextHash : Str := []
  tenant : Str := []
  builtAtNs : UInt64 := 0
  deriving DecidableEq

structure ArtifactSizes where
  artifactBytes : UInt64 := 0
  hostBytes : UInt64 := 0
  deviceBytes : UInt64 := 0
  storageBytes : UInt64 := 0
  deviceBytesEstimated : Bool := true
  deriving DecidableEq

structure ValidationDescriptor where
  integrityHashChecked : Bool := false
  formatChecked : Bool := false
  archChecked : Bool := false
  abiChecked : Bool := false
  metadataConsistent : Bool := false
  loadable : Bool := false
  executionSmoke : Bool := false
  referenceCompare : Bool := false
  backendReason : Str := []
  deriving DecidableEq

def ValidationDescriptor.allPassed (v : ValidationDescriptor) : Bool :=
  v.integrityHashChecked && v.formatChecked && v.archChecked && v.abiChecked &&
    v.metadataConsistent && v.loadable && v.executionSmoke && v.referenceCompare

end KernelCache
