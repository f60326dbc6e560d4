/-
# KernelCache.Foundation.Words — words taken apart and put together by shifts.

Bits shifted down and masked are a quotient and a remainder; bits shifted up and joined by `|||` are a
product and a sum.
-/
import Mathlib.Algebra.Group.Nat.Defs

namespace KernelCache.Foundation

/-- `m` bits of a word from bit `k` on. -/
theorem shifted_down {k m : Nat} (hk : k < 64) (w mask : UInt64) (hmask : mask.toNat = 2 ^ m - 1) :
    ((w >>> UInt64.ofNat k) &&& mask).toNat = w.toNat / 2 ^ k % 2 ^ m := by
  have hshift : (UInt64.ofNat k).toNat % 64 = k := by
    rw [UInt64.toNat_ofNat', Nat.mod_eq_of_lt (Nat.lt_trans hk (by decide)), Nat.mod_eq_of_lt hk]
  rw [UInt64.toNat_and, hmask, Nat.and_two_pow_sub_one_eq_mod, UInt64.toNat_shiftRight, hshift,
    Nat.shiftRight_eq_div_pow]

/-- A word that takes in `k` bits from below. -/
theorem shifted_up {k : Nat} (hk : k < 64) (acc : Nat) {d : Nat} (hd : d < 2 ^ k) :
    (UInt64.ofNat acc <<< UInt64.ofNat k) ||| UInt64.ofNat d = UInt64.ofNat (acc * 2 ^ k + d) := by
  have hshift : (UInt64.ofNat k).toNat % 64 = k := by
    rw [UInt64.toNat_ofNat', Nat.mod_eq_of_lt (Nat.lt_trans hk (by decide)), Nat.mod_eq_of_lt hk]
  have hjoin : acc * 2 ^ k ||| d = acc * 2 ^ k + d := by
    rw [Nat.mul_comm]
    exact (Nat.two_pow_add_eq_or_of_lt hd acc).symm
  apply UInt64.toNat_inj.mp
  rw [UInt64.toNat_or, UInt64.toNat_shiftLeft, hshift, UInt64.toNat_ofNat', UInt64.toNat_ofNat',
    UInt64.toNat_ofNat', Nat.shiftLeft_eq, Nat.mod_mul_mod, ← hjoin, Nat.or_mod_two_pow]

/-- A byte in one of the four places of a 32-bit word. -/
theorem shifted_byte (b : UInt8) {k : UInt32} (hk : k.toNat ≤ 24) :
    (b.toUInt32 <<< k).toNat = b.toNat <<< k.toNat := by
  have hb : b.toNat * 2 ^ k.toNat < 2 ^ 32 := by
    calc b.toNat * 2 ^ k.toNat < 2 ^ 8 * 2 ^ k.toNat :=
          Nat.mul_lt_mul_of_pos_right b.toNat_lt (Nat.two_pow_pos _)
      _ = 2 ^ (8 + k.toNat) := (Nat.pow_add 2 8 _).symm
      _ ≤ 2 ^ 32 := Nat.pow_le_pow_right (by decide) (by omega)
  rw [UInt32.toNat_shiftLeft, UInt8.toNat_toUInt32, Nat.mod_eq_of_lt (Nat.lt_of_le_of_lt hk (by decide)),
    Nat.shiftLeft_eq, Nat.mod_eq_of_lt hb]

/-- A byte joined below what is there. -/
theorem joined_byte (acc k : Nat) (b : UInt8) :
    acc <<< (k + 8) ||| b.toNat <<< k = (acc * 256 + b.toNat) <<< k := by
  have hb : b.toNat <<< k < 2 ^ (k + 8) := by
    rw [Nat.shiftLeft_eq, Nat.pow_add, Nat.mul_comm]
    exact Nat.mul_lt_mul_of_pos_left b.toNat_lt (Nat.two_pow_pos k)
  rw [← Nat.shiftLeft_add_eq_or_of_lt hb, Nat.shiftLeft_eq, Nat.shiftLeft_eq, Nat.shiftLeft_eq,
    Nat.pow_add, Nat.add_mul, Nat.mul_comm (2 ^ k), Nat.mul_assoc]

end KernelCache.Foundation
