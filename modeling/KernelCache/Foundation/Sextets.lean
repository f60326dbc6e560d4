/-
# KernelCache.Foundation.Sextets — a byte string in groups of six bits, and back.

Three bytes are four groups of six bits; one or two bytes at the end are two or three groups, the last
filled up with zeros.  `octets` undoes `sextets` (`octets_sextets`), and every group is below 64
(`sextets_lt`), so a text encoding of bytes needs an alphabet of 64 letters and no more.

`shifted` is the arithmetic of the machine words such encoders run on: bits that are shifted down and
masked are a quotient and a remainder, whatever the sign bit was.
-/
import Mathlib.Tactic.Ring

namespace KernelCache.Foundation

/-- The groups of six bits of a byte string. -/
def sextets : List UInt8 → List Nat
  | a :: b :: c :: rest =>
    a.toNat / 4 :: (a.toNat % 4 * 16 + b.toNat / 16) :: (b.toNat % 16 * 4 + c.toNat / 64) ::
      c.toNat % 64 :: sextets rest
  | [a, b] => [a.toNat / 4, a.toNat % 4 * 16 + b.toNat / 16, b.toNat % 16 * 4]
  | [a] => [a.toNat / 4, a.toNat % 4 * 16]
  | [] => []

/-- The bytes of groups of six bits; a single group at the end holds no byte. -/
def octets : List Nat → List UInt8
  | p :: q :: r :: s :: rest =>
    UInt8.ofNat (p * 4 + q / 16) :: UInt8.ofNat (q % 16 * 16 + r / 4) ::
      UInt8.ofNat (r % 4 * 64 + s) :: octets rest
  | [p, q, r] => [UInt8.ofNat (p * 4 + q / 16), UInt8.ofNat (q % 16 * 16 + r / 4)]
  | [p, q] => [UInt8.ofNat (p * 4 + q / 16)]
  | _ => []

theorem sextets_lt (s : List UInt8) : ∀ d ∈ sextets s, d < 64 := by
  induction s using sextets.induct with
  | case1 a b c rest ih =>
    have ha := a.toNat_lt
    have hb := b.toNat_lt
    have hc := c.toNat_lt
    simp only [sextets, List.forall_mem_cons]
    refine ⟨by omega, by omega, by omega, by omega, ih⟩
  | case2 a b =>
    have ha := a.toNat_lt
    have hb := b.toNat_lt
    simp only [sextets, List.forall_mem_cons, List.not_mem_nil, false_imp_iff, implies_true]
    refine ⟨by omega, by omega, by omega, trivial⟩
  | case3 a =>
    have ha := a.toNat_lt
    simp only [sextets, List.forall_mem_cons, List.not_mem_nil, false_imp_iff, implies_true]
    refine ⟨by omega, by omega, trivial⟩
  | case4 => simp [sextets]

theorem ofNat_eq {b : UInt8} {n : Nat} (h : n = b.toNat) : UInt8.ofNat n = b := by
  rw [h, UInt8.ofNat_toNat]

/-- **The bytes come back.** -/
theorem octets_sextets (s : List UInt8) : octets (sextets s) = s := by
  induction s using sextets.induct with
  | case1 a b c rest ih =>
    have ha := a.toNat_lt
    have hb := b.toNat_lt
    have hc := c.toNat_lt
    rw [sextets, octets, ih, ofNat_eq (b := a) (by omega), ofNat_eq (b := b) (by omega),
      ofNat_eq (b := c) (by omega)]
  | case2 a b =>
    have ha := a.toNat_lt
    have hb := b.toNat_lt
    rw [sextets, octets, ofNat_eq (b := a) (by omega), ofNat_eq (b := b) (by omega)]
  | case3 a =>
    have ha := a.toNat_lt
    rw [sextets, octets, ofNat_eq (b := a) (by omega)]
  | case4 => rfl

/-! ## Bits of a word -/

/-- `m` bits of a word from bit `k` on: an arithmetic shift brings in no sign bit that the mask would
not take away. -/
theorem shifted {k m : Nat} (h : k + m ≤ 32) (v mask : BitVec 32) (hmask : mask.toNat = 2 ^ m - 1) :
    (v.sshiftRight k &&& mask).toNat = v.toNat / 2 ^ k % 2 ^ m := by
  apply Nat.eq_of_testBit_eq
  intro i
  rw [BitVec.toNat_and, hmask, Nat.testBit_and, Nat.testBit_two_pow_sub_one, Nat.testBit_mod_two_pow,
    Nat.testBit_div_two_pow, BitVec.testBit_toNat, BitVec.getLsbD_sshiftRight, BitVec.testBit_toNat,
    Nat.add_comm k i]
  by_cases hi : i < m
  · have hlow : i + k < 32 := by omega
    have hin : ¬ 32 ≤ i := by omega
    simp [hi, hin, hlow]
  · simp [hi]

/-- A word that takes in `k` more bits from below. -/
theorem shifted_in {k n : Nat} (v : BitVec 32) (hn : n < 2 ^ 32) :
    (v <<< k + BitVec.ofNat 32 n).toNat = (v.toNat * 2 ^ k + n) % 2 ^ 32 := by
  rw [BitVec.toNat_add, BitVec.toNat_shiftLeft, BitVec.toNat_ofNat, Nat.mod_eq_of_lt hn,
    Nat.shiftLeft_eq, Nat.mod_add_mod]

end KernelCache.Foundation
