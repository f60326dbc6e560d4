/-
# KernelCache.CpuBackend — the CPU reference backend (`cpu_backend.cpp`).

The artifact of a key is the serialization of what `parse_key` makes of it: an operation, a datatype, a
shape, an alignment and the flags.  Everything else that a key says is not in the artifact, so many keys
have the same one.

The validator runs the operation twice over as many elements as the shape says and compares; `execute`
runs it over as many.  The number is the product of the dimensions MODULO 2^64 (`countElems_toNat`), so
`validation_covers_iff` asks what the comparison has covered.

The floating-point numbers are a parameter, with their operations and their `!=`; so are the numbers
the generator draws, what the allocator grants and the addresses of the modules.
-/
import KernelCache.Backend

namespace KernelCache

open Foundation (Bytes)

/-- The operations understood by the backend. -/
inductive CpuOp where
  | vecAdd
  | vecMul
  | reductionSum
  deriving DecidableEq

def CpuOp.code : CpuOp → UInt8
  | vecAdd => 0
  | vecMul => 1
  | reductionSum => 2

/-- The serializable description of a kernel. -/
structure CpuKernel where
  op : CpuOp := .vecAdd
  dtype : Datatype := .f32
  shape : List Int64 := []
  alignment : UInt32 := 16
  flags : List Str := []
  deriving DecidableEq

/-- `s.find(part) != std::string::npos`. -/
def Str.finds (s part : Str) : Bool := s.tails.any fun t => part.isPrefixOf t

namespace CpuBackend

open CanonicalWriter in
/-- `serialize_kernel`. -/
def serializeKernel (k : CpuKernel) : Bytes :=
  tag 1 ++ u8 k.op.code ++
  tag 2 ++ u8 k.dtype.code ++
  tag 3 ++ counted i64 k.shape ++
  tag 4 ++ u32 k.alignment ++
  tag 5 ++ counted CanonicalWriter.str k.flags

/-- `parse_key`. -/
def parseKey (key : KernelCompatibilityKey) : CpuKernel where
  op :=
    if key.operation == KernelCache.str "vec_add" || Str.finds key.operation (KernelCache.str "add") then
      .vecAdd
    else if Str.finds key.operation (KernelCache.str "mul") then .vecMul
    else if Str.finds key.operation (KernelCache.str "reduce") ||
        Str.finds key.operation (KernelCache.str "sum") then .reductionSum
    else .vecAdd
  dtype := key.dtypes.headD .f32
  shape := if key.shape.isEmpty then [1024] else key.shape
  alignment := if key.alignmentBytes = 0 then 16 else key.alignmentBytes
  flags := key.codegenFlags

/-- `backend_name`. -/
def backendName : Str := KernelCache.str "cpu-synth"

/-! ## Elements -/

/-- `count_elems`: a negative dimension is read as 16. -/
def countElems (shape : List Int64) : UInt64 :=
  shape.foldl (fun n d => n * (if d < 0 then 16 else d).toUInt64) 1

/-- The arithmetic of `float`. -/
structure FloatOps (F : Type) where
  add : F → F → F
  mul : F → F → F
  /-- `0.0f`. -/
  zero : F
  /-- `!=`: not the negation of equality, since no NaN equals itself. -/
  differ : F → F → Bool

section Elements

variable {F : Type} (fl : FloatOps F)

/-- The loop that `op_reference` and `op_kernel` share: the elements from some position on, behind the
output written last. -/
def elements (op : CpuOp) : Option F → List (F × F) → List F
  | _, [] => []
  | last, (x, y) :: rest =>
    let out := match op with
      | .vecAdd => fl.add x y
      | .vecMul => fl.mul x y
      | .reductionSum => match last with
        | none => x
        | some before => fl.add before x
    out :: elements op (some out) rest

/-- The first `n` elements of the two buffers; without a second buffer its elements are 0. -/
def operands (a : Nat → F) (b : Option (Nat → F)) (n : UInt64) : List (F × F) :=
  (List.range n.toNat).map fun i => (a i, b.elim fl.zero fun b => b i)

/-- `op_reference`: what it writes to `out`. -/
def opReference (op : CpuOp) (a : Nat → F) (b : Option (Nat → F)) (n : UInt64) : List F :=
  elements fl op none (operands fl a b n)

/-- `op_kernel`: what it writes to `out`. -/
def opKernel (op : CpuOp) (a : Nat → F) (b : Option (Nat → F)) (n : UInt64) : List F :=
  elements fl op none (operands fl a b n)

/-- The comparison loop of the validator: how many elements it looks at, and whether all match. -/
def compareOutputs : List F → List F → Nat × Bool
  | x :: xs, y :: ys =>
    if fl.differ x y then (1, false)
    else
      let (compared, isMatch) := compareOutputs xs ys
      (compared + 1, isMatch)
  | _, _ => (0, true)

end Elements

/-- What the backend finds on its machine. -/
structure Host (F : Type) where
  ops : FloatOps F
  /-- The numbers the generator draws for one element of `a` and of `b`. -/
  draw : Nat → F × F
  /-- Four vectors of this many elements can be had; otherwise `std::bad_alloc`. -/
  allocates : Nat → UInt64 → Bool := fun _ _ => true
  /-- The address of a new `HostModule`. -/
  newModule : Nat → Nat := id
  /-- `sizeof(HostModule)`. -/
  moduleBytes : UInt64 := 0

/-! ## Builder, validator, loader -/

/-- The artifact of a key. -/
def artifactOf (key : KernelCompatibilityKey) : Bytes := serializeKernel (parseKey key)

/-- `CpuBuilder`. -/
def builder : KernelBuilder where
  canBuild key := key.runtimeBackend == backendName || key.runtimeBackend.isEmpty
  build _ br :=
    let bytes := artifactOf br.key
    let size := UInt64.ofNat bytes.length
    .ok
      { artifactFormat := KernelCache.str "kc-synth"
        bytes := bytes
        sizes := { artifactBytes := size, hostBytes := size, storageBytes := size }
        provenance := { producer := backendName }
        compilation := { target := { vendor := .cpu, archName := KernelCache.str "x86_64" } }
        kernelCount := 1 }

/-- `CpuValidator::validate`, with the number of elements that the comparison has looked at. -/
def validateCounted {F : Type} (host : Host F) (tick : Nat) (key : KernelCompatibilityKey)
    (bytes : Bytes) : Result (ValidationDescriptor × Nat) :=
  let k := parseKey key
  let n := countElems k.shape
  if !host.allocates tick n then .error .exception
  else
    let a := fun i => (host.draw i).1
    let b := fun i => (host.draw i).2
    let (compared, isMatch) :=
      compareOutputs host.ops (opReference host.ops k.op a (some b) n)
        (opKernel host.ops k.op a (some b) n)
    .ok
      ({ integrityHashChecked := !bytes.isEmpty
         formatChecked := !bytes.isEmpty && decide (8 ≤ bytes.length)
         archChecked := true
         abiChecked := true
         metadataConsistent := true
         loadable := true
         executionSmoke := true
         referenceCompare := isMatch
         backendReason := if isMatch then [] else KernelCache.str "CPU reference mismatch" },
       compared)

/-- `CpuValidator`. -/
def validator {F : Type} (host : Host F) : KernelValidator where
  validate tick key bytes _ := (validateCounted host tick key bytes).map Prod.fst

/-- `CpuLoader::execute` of a module: the elements it writes to `out`. -/
def execute {F : Type} (fl : FloatOps F) (loaded : Option CpuKernel) (argBytes : Nat) (a : Nat → F)
    (b : Option (Nat → F)) : Result (List F) :=
  match loaded with
  | none => fail .invalidArgument (KernelCache.str "null handle")
  | some k =>
    if argBytes < 3 * 8 then fail .invalidArgument (KernelCache.str "args blob too small")
    else .ok (opKernel fl k.op a b (countElems k.shape))

/-- `CpuLoader`. -/
def loader {F : Type} (host : Host F) : KernelLoader where
  load tick _ _ _ := .ok (some (host.newModule tick))
  unload _ _ := .ok ()
  residentFootprint _ _ := (host.moduleBytes, true)

end CpuBackend

open CpuBackend in
/-- `make_cpu_backend`. -/
def makeCpuBackend {F : Type} (host : CpuBackend.Host F) : KernelBackend where
  name := backendName
  builder := some builder
  validator := some (validator host)
  loader := some (loader host)

theorem makeCpuBackend_nodup {F : Type} (host : CpuBackend.Host F) :
    ([makeCpuBackend host].map KernelBackend.name).Nodup :=
  (makeCpuBackend host).names_nodup

/-- A successful build of the backend is the artifact of the key. -/
theorem runBuild_cpu {F : Type} {env : Env} {host : CpuBackend.Host F}
    (henv : env.backends = [makeCpuBackend host]) {tick : Nat} {request : KernelLookupRequest}
    {gen : ArtifactGeneration} {o : Outcome} (h : runBuild env tick request gen = .ok o)
    (hs : o.succeeded = true) : o.bytes = CpuBackend.artifactOf request.key.finalize := by
  simp only [runBuild] at h
  split at h
  · cases h
    cases hs
  · rename_i backend hfind
    have hbackend : backend = makeCpuBackend host := by
      have hmem := findBackend_mem hfind
      rw [henv] at hmem
      exact List.mem_singleton.mp hmem
    subst hbackend
    obtain ⟨vd, -, -, hbytes, -⟩ := validateBuilt_succeeded h hs
    exact hbytes

/-! ## What the validation covers -/

namespace CpuBackend

/-- The elements a dimension stands for. -/
def dimension (d : Int64) : Nat := if d < 0 then 16 else d.toInt.toNat

/-- The elements of a key: the product of its dimensions, and 1024 without any. -/
def exactElements (key : KernelCompatibilityKey) : Nat :=
  if key.shape.isEmpty then 1024 else (key.shape.map dimension).prod

theorem dimension_toUInt64 (d : Int64) :
    (if d < 0 then (16 : Int64) else d).toUInt64.toNat = dimension d := by
  unfold dimension
  by_cases hneg : d < 0
  · rw [if_pos hneg, if_pos hneg]
    rfl
  · rw [if_neg hneg, if_neg hneg]
    exact Int64.toNat_toUInt64_of_le (Int64.not_lt.mp hneg)

/-- A product taken in words is the product modulo the word size. -/
theorem foldl_mul_toNat (factor : Int64 → UInt64) (shape : List Int64) (n : UInt64) :
    (shape.foldl (fun n d => n * factor d) n).toNat =
      n.toNat * (shape.map fun d => (factor d).toNat).prod % 2 ^ 64 := by
  induction shape generalizing n with
  | nil =>
    have hword : n.toNat < 2 ^ 64 := n.toNat_lt
    rw [List.foldl_nil, List.map_nil, List.prod_nil, Nat.mul_one, Nat.mod_eq_of_lt hword]
  | cons d shape ih =>
    rw [List.foldl_cons, ih, List.map_cons, List.prod_cons, UInt64.toNat_mul, ← Nat.mul_assoc,
      Nat.mod_mul_mod]

/-- **The count wraps.** -/
theorem countElems_toNat (shape : List Int64) :
    (countElems shape).toNat = (shape.map dimension).prod % 2 ^ 64 := by
  unfold countElems
  rw [foldl_mul_toNat]
  simp only [dimension_toUInt64, UInt64.toNat_one, Nat.one_mul]

theorem countElems_parseKey (key : KernelCompatibilityKey) :
    (countElems (parseKey key).shape).toNat = exactElements key % 2 ^ 64 := by
  have hshape : (parseKey key).shape = if key.shape.isEmpty then [1024] else key.shape := rfl
  rw [countElems_toNat, hshape]
  unfold exactElements
  split
  · rfl
  · rfl

section Elements

variable {F : Type} {fl : FloatOps F}

theorem elements_length (op : CpuOp) (last : Option F) (pairs : List (F × F)) :
    (elements fl op last pairs).length = pairs.length := by
  induction pairs generalizing last with
  | nil => rfl
  | cons p pairs ih => exact congrArg (· + 1) (ih _)

theorem opReference_length (op : CpuOp) (a : Nat → F) (b : Option (Nat → F)) (n : UInt64) :
    (opReference fl op a b n).length = n.toNat := by
  simp [opReference, elements_length, operands]

theorem opKernel_length (op : CpuOp) (a : Nat → F) (b : Option (Nat → F)) (n : UInt64) :
    (opKernel fl op a b n).length = n.toNat := by
  simp [opKernel, elements_length, operands]

/-- A comparison that finds no difference has looked at every element. -/
theorem compareOutputs_all {xs ys : List F} (hlen : xs.length = ys.length)
    (h : (compareOutputs fl xs ys).2 = true) : (compareOutputs fl xs ys).1 = xs.length := by
  induction xs generalizing ys with
  | nil =>
    obtain rfl := List.length_eq_zero_iff.mp hlen.symm
    rfl
  | cons x xs ih =>
    obtain ⟨y, ys, rfl⟩ := List.exists_cons_of_length_eq_add_one hlen.symm
    unfold compareOutputs at h ⊢
    by_cases hdiffer : fl.differ x y = true
    · rw [if_pos hdiffer] at h
      cases h
    · rw [if_neg hdiffer] at h ⊢
      exact congrArg (· + 1) (ih (Nat.succ.inj hlen) h)

end Elements

section Coverage

variable {F : Type} {host : Host F} {tick : Nat} {key : KernelCompatibilityKey} {bytes : Bytes}
  {vd : ValidationDescriptor} {compared : Nat}

/-- A report that everything passed is about the counted elements. -/
theorem compared_of_allPassed (h : validateCounted host tick key bytes = .ok (vd, compared))
    (hpassed : vd.allPassed = true) : compared = (countElems (parseKey key).shape).toNat := by
  unfold validateCounted at h
  dsimp only at h
  split at h
  · cases h
  · cases h
    simp only [ValidationDescriptor.allPassed, Bool.and_eq_true] at hpassed
    rw [compareOutputs_all (by rw [opReference_length, opKernel_length]) hpassed.2]
    exact opReference_length _ _ _ _

theorem execute_length {fl : FloatOps F} {k : CpuKernel} {argBytes : Nat} {a : Nat → F}
    {b : Option (Nat → F)} {out : List F} (h : execute fl (some k) argBytes a b = .ok out) :
    out.length = (countElems k.shape).toNat := by
  unfold execute at h
  dsimp only at h
  split at h
  · cases h
  · cases h
    exact opKernel_length _ _ _ _

/-- **When the validation covers every element.** Of a key that the validator reports as passed in
every respect, the comparison has looked at as many elements as the product of the dimensions says, and
`execute` writes as many, if and only if that product fits in a word. -/
theorem validation_covers_iff (h : validateCounted host tick key bytes = .ok (vd, compared))
    (hpassed : vd.allPassed = true) :
    (compared = exactElements key ∧
      ∀ argBytes a b out, execute host.ops (some (parseKey key)) argBytes a b = .ok out →
        out.length = exactElements key) ↔
    exactElements key < 2 ^ 64 := by
  have hcompared := compared_of_allPassed h hpassed
  rw [countElems_parseKey] at hcompared
  constructor
  · rintro ⟨hexact, -⟩
    rw [hexact] at hcompared
    exact hcompared ▸ Nat.mod_lt _ (by decide)
  · intro hfits
    rw [Nat.mod_eq_of_lt hfits] at hcompared
    refine ⟨hcompared, fun argBytes a b out hrun => ?_⟩
    rw [execute_length hrun, countElems_parseKey, Nat.mod_eq_of_lt hfits]

/-- Comparing a list with itself finds what differs from itself. -/
theorem compareOutputs_self (xs : List F) :
    (compareOutputs host.ops xs xs).2 = true ↔ ∀ x ∈ xs, host.ops.differ x x = false := by
  induction xs with
  | nil => simp [compareOutputs]
  | cons x xs ih =>
    unfold compareOutputs
    rw [List.forall_mem_cons]
    by_cases hdiffer : host.ops.differ x x = true
    · rw [if_pos hdiffer, hdiffer]
      simp
    · rw [if_neg hdiffer]
      exact ih.trans (and_iff_right (by simpa using hdiffer)).symm

/-- The report in one line: the length of the artifact, and the run compared with itself. -/
theorem allPassed_iff (h : validateCounted host tick key bytes = .ok (vd, compared)) :
    vd.allPassed = true ↔ 8 ≤ bytes.length ∧
      (compareOutputs host.ops
        (opKernel host.ops (parseKey key).op (fun i => (host.draw i).1)
          (some fun i => (host.draw i).2) (countElems (parseKey key).shape))
        (opKernel host.ops (parseKey key).op (fun i => (host.draw i).1)
          (some fun i => (host.draw i).2) (countElems (parseKey key).shape))).2 = true := by
  unfold validateCounted at h
  dsimp only at h
  split at h
  · cases h
  · cases h
    have hempty : bytes = [] → ¬ 8 ≤ bytes.length := by
      rintro rfl
      decide
    simp only [ValidationDescriptor.allPassed, Bool.and_eq_true, Bool.not_eq_true',
      List.isEmpty_eq_false_iff, decide_eq_true_eq, and_true]
    constructor
    · rintro ⟨⟨-, -, hlong⟩, hsame⟩
      exact ⟨hlong, hsame⟩
    · rintro ⟨hlong, hsame⟩
      exact ⟨⟨fun hnil => hempty hnil hlong, fun hnil => hempty hnil hlong, hlong⟩, hsame⟩

/-- **What the validation is about.** The validator runs one loop twice and compares the two runs, and
of the artifact it reads the length.  So it reports that everything passed if and only if the artifact
has eight bytes, whichever, and every number of the run equals itself. -/
theorem validation_passes_iff (h : validateCounted host tick key bytes = .ok (vd, compared)) :
    vd.allPassed = true ↔ 8 ≤ bytes.length ∧
      ∀ x ∈ opKernel host.ops (parseKey key).op (fun i => (host.draw i).1)
          (some fun i => (host.draw i).2) (countElems (parseKey key).shape),
        host.ops.differ x x = false := by
  rw [allPassed_iff h, compareOutputs_self]

end Coverage

/-- Whole numbers for the floating-point ones. -/
def wholeNumbers : Host Int where
  ops := { add := (· + ·), mul := (· * ·), zero := 0, differ := (· != ·) }
  draw i := (i, i + 1)

/-- Three elements of a vector addition: all three are compared. -/
theorem validation_covers_three :
    ∃ vd, validateCounted wholeNumbers 0 { shape := [3] } (artifactOf { shape := [3] }) =
        .ok (vd, 3) ∧
      (3 = exactElements { shape := [3] } ∧
        ∀ argBytes a b out,
          execute wholeNumbers.ops (some (parseKey { shape := [3] })) argBytes a b = .ok out →
          out.length = exactElements { shape := [3] }) := by
  have hrun : ∃ vd, validateCounted wholeNumbers 0 { shape := [3] } (artifactOf { shape := [3] }) =
      .ok (vd, 3) ∧ vd.allPassed = true := ⟨_, rfl, by decide⟩
  obtain ⟨vd, hvalidated, hpassed⟩ := hrun
  exact ⟨vd, hvalidated, (validation_covers_iff hvalidated hpassed).mpr (by decide)⟩

/-- Eight zero octets pass for the artifact of a vector addition. -/
theorem validation_passes_zeros :
    ∃ vd, validateCounted wholeNumbers 0 { shape := [3] } (List.replicate 8 0) = .ok (vd, 3) ∧
      (vd.allPassed = true ↔ 8 ≤ (List.replicate 8 (0 : UInt8)).length ∧
        ∀ x ∈ opKernel wholeNumbers.ops (parseKey { shape := [3] }).op
            (fun i => (wholeNumbers.draw i).1) (some fun i => (wholeNumbers.draw i).2)
            (countElems (parseKey { shape := [3] }).shape),
          wholeNumbers.ops.differ x x = false) := by
  have hrun : ∃ vd, validateCounted wholeNumbers 0 { shape := [3] } (List.replicate 8 0) =
      .ok (vd, 3) := ⟨_, rfl⟩
  obtain ⟨vd, hvalidated⟩ := hrun
  exact ⟨vd, hvalidated, validation_passes_iff hvalidated⟩

/-- Every artifact is long enough for the validator. -/
theorem artifactOf_long (key : KernelCompatibilityKey) : 8 ≤ (artifactOf key).length := by
  simp only [artifactOf, serializeKernel, List.length_append, CanonicalWriter.tag,
    CanonicalWriter.u8, CanonicalWriter.u32, Foundation.beBytes_length, List.length_cons, List.length_nil]
  omega

/-- A registry of the CPU backend alone finds it for a key that names it, or none. -/
theorem findBackend_cpu {F : Type} {host : Host F} {key : KernelCompatibilityKey}
    (h : key.runtimeBackend = backendName ∨ key.runtimeBackend = []) :
    findBackend [makeCpuBackend host] key = some (makeCpuBackend host) := by
  have hbuilds : builder.canBuild key = true := by
    rcases h with hname | hname <;> simp [builder, hname]
  have hany : (makeCpuBackend host).builder.any (fun b => b.canBuild key) = true := hbuilds
  unfold findBackend
  cases hname : (makeCpuBackend host).name == key.runtimeBackend with
  | true => simp [hname]
  | false => simp [hname, hany]

/-- **When a build cannot fail.** A key for the backend, or for none, is built when the memory is there and
every number equals itself. -/
theorem runBuild_succeeds {F : Type} {env : Env} {host : Host F}
    (hcpu : env.backends = [makeCpuBackend host]) (tick : Nat) (request : KernelLookupRequest)
    (gen : ArtifactGeneration)
    (hbackend : request.key.finalize.runtimeBackend = backendName ∨
      request.key.finalize.runtimeBackend = [])
    (halloc : ∀ n, host.allocates tick n = true) (hself : ∀ x, host.ops.differ x x = false) :
    ∃ o, runBuild env tick request gen = .ok o ∧ o.succeeded = true := by
  have hfind : findBackend env.backends request.key.finalize = some (makeCpuBackend host) := by
    rw [hcpu]
    exact findBackend_cpu hbackend
  have hvalid : ∃ vd compared, validateCounted host tick request.key.finalize
      (artifactOf request.key.finalize) = .ok (vd, compared) := by
    unfold validateCounted
    dsimp only
    rw [halloc]
    exact ⟨_, _, rfl⟩
  obtain ⟨vd, compared, hvalid⟩ := hvalid
  have hpassed : vd.allPassed = true :=
    (allPassed_iff hvalid).mpr
      ⟨artifactOf_long _, (compareOutputs_self _).mpr fun x _ => hself x⟩
  simp only [runBuild, hfind, makeCpuBackend, builder, validateBuilt, validator, buildRequest, hvalid,
    Except.map, hpassed]
  exact ⟨_, rfl, rfl⟩

/-- Two dimensions of 2^32. -/
def squareKey : KernelCompatibilityKey := { shape := [0x100000000, 0x100000000] }

/-- **A comparison of nothing.** The count of the square key is 0: the validator compares no element and
reports that all passed, and `execute` writes none. -/
theorem validation_vacuous :
    ∃ vd, validateCounted wholeNumbers 0 squareKey (artifactOf squareKey) = .ok (vd, 0) ∧
      vd.allPassed = true ∧ squareKey.finalize.finalized = true ∧
      execute wholeNumbers.ops (some (parseKey squareKey)) 24 (fun i => i) none = .ok [] ∧
      exactElements squareKey = 2 ^ 64 :=
  ⟨_, rfl, by decide, by decide, rfl, by decide⟩

end CpuBackend

end KernelCache
