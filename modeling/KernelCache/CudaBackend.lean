/-
# KernelCache.CudaBackend — how the CUDA backend reads a key (`cuda_backend.cpp`), beside the CPU one.

`derive_op` and `key_n` say which operation the CUDA validator recomputes, and over how many elements.
`parse_key` and `count_elems` say it in the CPU backend.  The two look for the same words in the name of
the operation, but not in the same order; and `key_n` looks at the first dimension only.
`backends_agree_iff` says which keys they read alike.
-/
import KernelCache.CpuBackend

namespace KernelCache

/-- `Op` of the CUDA backend. -/
inductive CudaOp where
  | vecAdd
  | vecMul
  | reductionSum
  deriving DecidableEq

def CudaOp.code : CudaOp → UInt8
  | vecAdd => 0
  | vecMul => 1
  | reductionSum => 2

namespace CudaBackend

/-- `key_n`. -/
def keyN (key : KernelCompatibilityKey) : UInt64 :=
  match key.shape with
  | d :: _ => if 0 < d then d.toUInt64 else 1024
  | [] => 1024

/-- `derive_op`. -/
def deriveOp (key : KernelCompatibilityKey) : CudaOp :=
  if Str.finds key.operation (str "mul") then .vecMul
  else if Str.finds key.operation (str "reduce") || Str.finds key.operation (str "sum") then
    .reductionSum
  else .vecAdd

end CudaBackend

open CpuBackend CudaBackend

/-! ## The operation -/

/-- The name of the operation mentions an addition and something else as well. -/
def Ambiguous (operation : Str) : Prop :=
  Str.finds operation (str "add") = true ∧
    (Str.finds operation (str "mul") = true ∨ Str.finds operation (str "reduce") = true ∨
      Str.finds operation (str "sum") = true)

/-- The first comparison of `parse_key` is a case of the second. -/
theorem parseKey_op (key : KernelCompatibilityKey) : (parseKey key).op =
    if Str.finds key.operation (str "add") then .vecAdd
    else if Str.finds key.operation (str "mul") then .vecMul
    else if Str.finds key.operation (str "reduce") || Str.finds key.operation (str "sum") then
      .reductionSum
    else .vecAdd := by
  have hname : (key.operation == str "vec_add") = true →
      Str.finds key.operation (str "add") = true := by
    intro h
    rw [eq_of_beq h]
    decide
  unfold parseKey
  dsimp only
  cases hadd : Str.finds key.operation (str "add") with
  | true => simp only [Bool.or_true, if_true]
  | false =>
    have hother : (key.operation == str "vec_add") = false := by
      rw [← Bool.not_eq_true]
      intro h
      rw [hname h] at hadd
      cases hadd
    simp only [hother, Bool.or_self, Bool.false_eq_true, if_false]

theorem sameOp_iff (key : KernelCompatibilityKey) :
    (parseKey key).op.code = (deriveOp key).code ↔ ¬ Ambiguous key.operation := by
  rw [parseKey_op]
  unfold deriveOp Ambiguous
  cases Str.finds key.operation (str "add") <;> cases Str.finds key.operation (str "mul") <;>
    cases Str.finds key.operation (str "reduce") <;> cases Str.finds key.operation (str "sum") <;>
    decide

/-! ## The element count -/

/-- The shapes that the two backends are compared on: no dimension, or positive ones with a product that
fits in a word. -/
structure Countable (shape : List Int64) : Prop where
  positive : ∀ d ∈ shape, 0 < d
  fits : (shape.map dimension).prod < 2 ^ 64

theorem dimension_of_pos {d : Int64} (h : 0 < d) : dimension d = d.toUInt64.toNat := by
  rw [← dimension_toUInt64, if_neg (Int64.not_lt.mpr (Int64.le_of_lt h))]

theorem dimension_pos {d : Int64} (h : 0 < d) : 0 < dimension d := by
  have hpos : 0 < d.toInt := Int64.lt_iff_toInt_lt.mp h
  unfold dimension
  rw [if_neg (Int64.not_lt.mpr (Int64.le_of_lt h))]
  omega

theorem sameCount_iff {key : KernelCompatibilityKey} (h : Countable key.shape) :
    countElems (parseKey key).shape = keyN key ↔ (key.shape.tail.map dimension).prod = 1 := by
  rw [← UInt64.toNat_inj, countElems_parseKey]
  unfold exactElements keyN
  obtain ⟨hpositive, hfits⟩ := h
  cases hshape : key.shape with
  | nil => exact iff_of_true rfl rfl
  | cons d ds =>
    rw [hshape] at hpositive hfits
    have hd : 0 < d := hpositive d (by simp)
    have hpos := dimension_pos hd
    simp only [List.isEmpty_cons, Bool.false_eq_true, if_false, hd, if_true, List.tail_cons]
    rw [Nat.mod_eq_of_lt hfits, ← dimension_of_pos hd, List.map_cons, List.prod_cons]
    exact Nat.mul_eq_left hpos.ne'

/-- **When both backends read a key the same way.** On a key with countable dimensions the CPU and the
CUDA backend derive the same operation and the same number of elements, if and only if the name of the
operation does not mention an addition beside another operation, and every dimension behind the first
is 1. -/
theorem backends_agree_iff (key : KernelCompatibilityKey) (h : Countable key.shape) :
    ((parseKey key).op.code = (deriveOp key).code ∧
      countElems (parseKey key).shape = keyN key) ↔
    (¬ Ambiguous key.operation ∧ (key.shape.tail.map dimension).prod = 1) := by
  rw [sameOp_iff, sameCount_iff h]

/-- Two positive dimensions. -/
theorem countable_pair {d d' : Int64} (h : 0 < d) (h' : 0 < d')
    (hfits : ([d, d'].map dimension).prod < 2 ^ 64) : Countable [d, d'] := by
  refine ⟨fun x hx => ?_, hfits⟩
  rcases List.mem_pair.mp hx with rfl | rfl
  · exact h
  · exact h'

/-- A vector of 128 elements to be summed up is read alike. -/
theorem backends_agree_sum :
    (parseKey { operation := str "row_sum", shape := [128, 1] }).op.code =
      (deriveOp { operation := str "row_sum", shape := [128, 1] }).code ∧
    countElems (parseKey { operation := str "row_sum", shape := [128, 1] }).shape =
      keyN { operation := str "row_sum", shape := [128, 1] } :=
  (backends_agree_iff { operation := str "row_sum", shape := [128, 1] }
    (countable_pair (by decide) (by decide) (by decide))).mpr
      ⟨by unfold Ambiguous; decide, by decide⟩

/-- A fused multiplication and addition of a matrix. -/
def fusedKey : KernelCompatibilityKey := { operation := str "mul_add", shape := [4, 8] }

/-- **The same key, two kernels.** The CPU backend adds 32 elements, the CUDA backend multiplies 4. -/
theorem fusedKey_read_twice :
    Countable fusedKey.shape ∧
    (parseKey fusedKey).op.code = CpuOp.vecAdd.code ∧ (deriveOp fusedKey).code = CudaOp.vecMul.code ∧
    CpuOp.vecAdd.code ≠ CudaOp.vecMul.code ∧
    countElems (parseKey fusedKey).shape = 32 ∧ keyN fusedKey = 4 :=
  ⟨countable_pair (by decide) (by decide) (by decide), by decide, by decide, by decide, by decide,
    by decide⟩

end KernelCache
