/-
# KernelCache.Key — the canonical compatibility key (`key.hpp`, `key.cpp`, `canonical.cpp`).

A key has the typed fields a caller fills in (`KeyFields`) and the state `finalize()` leaves behind:
the canonical encoding, its SHA-256 digest and the `finalized_` flag.  The two are independent on
purpose, as in the source: fields can be changed after `finalize()`, and `finalize()` returns early
on a malformed key WITHOUT touching the encoding and digest of the previous call.  Equality, hashing
and the exact-match test all read the stored digest.

`finalize` is modelled as the key it leaves behind; its return value is that key's `finalized` flag.
-/
import KernelCache.Descriptors
import Mathlib.Data.List.Sort

namespace KernelCache

open Foundation (Bytes beBytes)

/-! ## The canonical writer -/

namespace CanonicalWriter

def tag (t : UInt8) : Bytes := [t]
def u8 (v : UInt8) : Bytes := [v]
def u32 (v : UInt32) : Bytes := beBytes 4 v.toNat
def u64 (v : UInt64) : Bytes := beBytes 8 v.toNat
def i64 (v : Int64) : Bytes := u64 v.toUInt64
def boolean (v : Bool) : Bytes := [if v then 1 else 0]
def str (s : Str) : Bytes := beBytes 8 s.length ++ s

/-- A list behind `static_cast<std::uint32_t>(size())`. -/
def counted {α : Type} (w : α → Bytes) (l : List α) : Bytes := beBytes 4 l.length ++ l.flatMap w

end CanonicalWriter

/-- `kKeyFormatVersion`. -/
def keyFormatVersion : UInt8 := 1

/-! ## Fields -/

/-- The typed fields of a key: everything `finalize()` encodes. -/
structure KeyFields where
  operation : Str := []
  artifactFormat : Str := []
  vendor : DeviceVendor := .unknown
  family : AcceleratorFamily := .none
  arch : Str := []
  capability : ComputeCapability := {}
  deviceId : DeviceId := {}
  runtimeBackend : Str := []
  runtimeVersionMajor : UInt32 := 0
  runtimeVersionMinor : UInt32 := 0
  compilerName : Str := []
  compilerVersionMajor : UInt32 := 0
  compilerVersionMinor : UInt32 := 0
  compilerVersionPatch : UInt32 := 0
  compilerBackend : Str := []
  abiName : Str := []
  abiVersion : UInt64 := 1
  kernelInterfaceSignature : Str := []
  scalarParamTypes : List Str := []
  dtypes : List Datatype := []
  layouts : List TensorLayout := []
  rank : UInt32 := 0
  shape : List Int64 := []
  symbolicShapeConstraints : List Str := []
  alignmentBytes : UInt32 := 0
  sharedMemBytes : UInt32 := 0
  launchAbi : Str := []
  blockX : UInt32 := 0
  blockY : UInt32 := 0
  blockZ : UInt32 := 0
  codegenFlags : List Str := []
  specialization : List (Str × Str) := []
  modelRevision : Str := []
  operatorRevision : Str := []
  quantizationKind : Str := []
  quantizationBits : UInt32 := 0
  quantizationSymmetric : Bool := true
  deriving DecidableEq

/-- `sort_strings`: `operator<` of `std::string` is the lexicographic order of its bytes. -/
def sortStrings (l : List Str) : List Str := l.insertionSort (· ≤ ·)

/-- The comparator of `sort_pairs` looks at the names only. -/
def pairLE (a b : Str × Str) : Prop := a.1 ≤ b.1

instance : DecidableRel pairLE := fun a b => inferInstanceAs (Decidable (a.1 ≤ b.1))

instance : Std.Total pairLE := ⟨fun a b => List.le_total a.1 b.1⟩

instance : IsTrans (Str × Str) pairLE := ⟨fun _ _ _ h h' => List.le_trans h h'⟩

/-- `sort_pairs`, as a stable sort. -/
def sortPairs (l : List (Str × Str)) : List (Str × Str) := l.insertionSort pairLE

namespace KeyFields

/-- The fields after the canonical ordering step of `finalize()`. -/
def sorted (f : KeyFields) : KeyFields :=
  { f with codegenFlags := sortStrings f.codegenFlags, specialization := sortPairs f.specialization }

/-- A list whose length must be `rank` unless it is empty or the rank is left open. -/
def fitsRank {α : Type} (l : List α) (rank : UInt32) : Bool :=
  !(!l.isEmpty && l.length != rank.toNat && rank != 0)

/-- The structural validation of `finalize()`. -/
def wellFormed (f : KeyFields) : Bool :=
  f.dtypes.length == f.layouts.length && fitsRank f.layouts f.rank && fitsRank f.shape f.rank &&
    fitsRank f.scalarParamTypes f.rank

open CanonicalWriter in
/-- The canonical encoding, in the order `finalize()` writes it. -/
def encode (f : KeyFields) : Bytes :=
  tag 0x01 ++ u8 keyFormatVersion ++
  tag 0x02 ++ CanonicalWriter.str f.operation ++
  tag 0x03 ++ CanonicalWriter.str f.artifactFormat ++
  tag 0x04 ++ u8 f.vendor.code ++
  tag 0x05 ++ u8 f.family.code ++
  tag 0x06 ++ CanonicalWriter.str f.arch ++
  tag 0x07 ++ u8 f.capability.major ++ u8 f.capability.minor ++
  tag 0x08 ++ u64 f.deviceId.hi ++ u64 f.deviceId.lo ++
  tag 0x09 ++ CanonicalWriter.str f.runtimeBackend ++ u32 f.runtimeVersionMajor ++
    u32 f.runtimeVersionMinor ++
  tag 0x0a ++ CanonicalWriter.str f.compilerName ++
    u32 f.compilerVersionMajor ++ u32 f.compilerVersionMinor ++ u32 f.compilerVersionPatch ++
    CanonicalWriter.str f.compilerBackend ++
  tag 0x0b ++ CanonicalWriter.str f.abiName ++ u64 f.abiVersion ++
  tag 0x0c ++ CanonicalWriter.str f.kernelInterfaceSignature ++
  tag 0x0d ++ counted CanonicalWriter.str f.scalarParamTypes ++
  tag 0x0e ++ counted (fun d : Datatype => u8 d.code) f.dtypes ++
  tag 0x0f ++ counted (fun l : TensorLayout => u8 l.code) f.layouts ++
  tag 0x10 ++ u32 f.rank ++
  tag 0x11 ++ counted i64 f.shape ++
  tag 0x12 ++ counted CanonicalWriter.str f.symbolicShapeConstraints ++
  tag 0x13 ++ u32 f.alignmentBytes ++
  tag 0x14 ++ u32 f.sharedMemBytes ++
  tag 0x15 ++ CanonicalWriter.str f.launchAbi ++
  tag 0x16 ++ u32 f.blockX ++ u32 f.blockY ++ u32 f.blockZ ++
  tag 0x17 ++ counted CanonicalWriter.str f.codegenFlags ++
  tag 0x18 ++ counted (fun p : Str × Str => CanonicalWriter.str p.1 ++ CanonicalWriter.str p.2)
    f.specialization ++
  tag 0x19 ++ CanonicalWriter.str f.modelRevision ++
  tag 0x1a ++ CanonicalWriter.str f.operatorRevision ++
  tag 0x1b ++ CanonicalWriter.str f.quantizationKind ++ u32 f.quantizationBits ++
    boolean f.quantizationSymmetric

@[simp] theorem sorted_wellFormed (f : KeyFields) : f.sorted.wellFormed = f.wellFormed := rfl

/-- The canonical ordering step changes nothing the second time. -/
@[simp] theorem sorted_sorted (f : KeyFields) : f.sorted.sorted = f.sorted := by
  have hflags : sortStrings (sortStrings f.codegenFlags) = sortStrings f.codegenFlags :=
    (List.pairwise_insertionSort _ _).insertionSort_eq
  have hspec : sortPairs (sortPairs f.specialization) = sortPairs f.specialization :=
    (List.pairwise_insertionSort _ _).insertionSort_eq
  simp only [sorted, hflags, hspec]

end KeyFields

/-! ## Keys -/

structure KernelCompatibilityKey extends KeyFields where
  /-- `canonical_`. -/
  canonical : Bytes := []
  /-- `digest_`. -/
  digest : Sha256Digest := Sha256Digest.zero
  /-- `finalized_`. -/
  finalized : Bool := false
  deriving DecidableEq

namespace KernelCompatibilityKey

/-- `finalize()`.  A malformed key keeps the canonical bytes and digest it had before. -/
def finalize (k : KernelCompatibilityKey) : KernelCompatibilityKey :=
  let f := k.toKeyFields.sorted
  if f.wellFormed then ⟨f, f.encode, Sha256.digest f.encode, true⟩
  else ⟨f, k.canonical, k.digest, false⟩

/-- What `operator==` and `hash()` do to an operand first: finalize it unless it already is. -/
def ensureFinalized (k : KernelCompatibilityKey) : KernelCompatibilityKey :=
  if k.finalized then k else k.finalize

/-- `operator==`. -/
def eqv (a b : KernelCompatibilityKey) : Bool := a.ensureFinalized.digest == b.ensureFinalized.digest

/-- `hash()`: FNV-1a over the stored digest. -/
def hash (k : KernelCompatibilityKey) : UInt64 :=
  k.ensureFinalized.digest.bytes.foldl (fun h b => (h ^^^ b.toUInt64) * 0x100000001b3)
    0xcbf29ce484222325

/-- An accepted key carries the encoding of its own sorted fields and the digest of that. -/
theorem finalize_of_wellFormed {k : KernelCompatibilityKey} (h : k.wellFormed = true) :
    k.finalize = ⟨k.toKeyFields.sorted, k.toKeyFields.sorted.encode,
      Sha256.digest k.toKeyFields.sorted.encode, true⟩ := by
  simp only [finalize, KeyFields.sorted_wellFormed, h, if_true]

/-- A rejected key keeps the digest of whatever was finalized before. -/
theorem finalize_of_malformed {k : KernelCompatibilityKey} (h : k.wellFormed = false) :
    k.finalize = ⟨k.toKeyFields.sorted, k.canonical, k.digest, false⟩ := by
  simp [finalize, h]

@[simp] theorem finalize_toKeyFields (k : KernelCompatibilityKey) :
    k.finalize.toKeyFields = k.toKeyFields.sorted := by
  cases h : k.wellFormed with
  | true => rw [finalize_of_wellFormed h]
  | false => rw [finalize_of_malformed h]

/-- `finalize()` accepts exactly the structurally valid keys. -/
@[simp] theorem finalize_finalized (k : KernelCompatibilityKey) :
    k.finalize.finalized = k.wellFormed := by
  cases h : k.wellFormed with
  | true => rw [finalize_of_wellFormed h]
  | false => rw [finalize_of_malformed h]

@[simp] theorem finalize_finalize (k : KernelCompatibilityKey) : k.finalize.finalize = k.finalize := by
  cases h : k.wellFormed with
  | true =>
    rw [finalize_of_wellFormed h]
    exact (finalize_of_wellFormed (by simpa using h)).trans (by simp)
  | false =>
    rw [finalize_of_malformed h]
    exact (finalize_of_malformed (by simpa using h)).trans (by simp)

@[simp] theorem ensureFinalized_finalize (k : KernelCompatibilityKey) :
    k.finalize.ensureFinalized = k.finalize := by
  unfold ensureFinalized
  split
  · rfl
  · exact finalize_finalize k

end KernelCompatibilityKey

end KernelCache
