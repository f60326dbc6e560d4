/-
# KernelCache.Foundation.Bits — bit strings, and the bits of byte strings.

The bits of a number stand most significant first, as in a standard that is written on bit strings; a
byte string is the string of the bits of its bytes.
-/
import KernelCache.Foundation.Wire

namespace KernelCache.Foundation

/-- A bit string. -/
abbrev Bits := List Bool

/-- The `n` low-order bits of `v`, most significant first. -/
def bitsOf : Nat → Nat → Bits
  | 0, _ => []
  | n + 1, v => v.testBit n :: bitsOf n v

/-- Accumulate bits most significant first. -/
def bitsVal (acc : Nat) (l : Bits) : Nat := l.foldl (fun v b => 2 * v + b.toNat) acc

/-- The bits of the bytes of `m`. -/
def unpack (m : Bytes) : Bits := m.flatMap fun b => bitsOf 8 b.toNat

@[simp] theorem bitsOf_length (n v : Nat) : (bitsOf n v).length = n := by
  induction n with
  | zero => rfl
  | succ n ih => rw [bitsOf, List.length_cons, ih]

/-- The value of the `n` low-order bits of `v`, behind what was accumulated before. -/
theorem bitsVal_bitsOf (acc n v : Nat) : bitsVal acc (bitsOf n v) = acc * 2 ^ n + v % 2 ^ n := by
  induction n generalizing acc with
  | zero => simp [bitsVal, bitsOf, Nat.mod_one]
  | succ n ih =>
    have hhead : bitsVal acc (bitsOf (n + 1) v) = bitsVal (2 * acc + (v.testBit n).toNat) (bitsOf n v) := rfl
    have hbit : (v.testBit n).toNat = v / 2 ^ n % 2 := Nat.toNat_testBit v n
    rw [hhead, ih, hbit, Nat.pow_succ, Nat.mod_mul]
    ring

/-- Bits above the `n` low-order ones do not count. -/
theorem bitsOf_mod (n v : Nat) {m : Nat} (hnm : n ≤ m) : bitsOf n (v % 2 ^ m) = bitsOf n v := by
  induction n with
  | zero => rfl
  | succ n ih =>
    have hlt : n < m := hnm
    rw [bitsOf, bitsOf, ih (Nat.le_of_lt hlt), Nat.testBit_mod_two_pow, decide_eq_true hlt,
      Bool.true_and]

/-- High-order bits, then low-order bits. -/
theorem bitsOf_add (m n v : Nat) : bitsOf (m + n) v = bitsOf m (v / 2 ^ n) ++ bitsOf n v := by
  induction m with
  | zero => rw [Nat.zero_add, bitsOf, List.nil_append]
  | succ m ih =>
    rw [Nat.succ_add, bitsOf, bitsOf, ih, Nat.testBit_div_two_pow, List.cons_append]

@[simp] theorem unpack_cons (b : UInt8) (m : Bytes) : unpack (b :: m) = bitsOf 8 b.toNat ++ unpack m :=
  List.flatMap_cons

@[simp] theorem unpack_append (m m' : Bytes) : unpack (m ++ m') = unpack m ++ unpack m' :=
  List.flatMap_append

theorem unpack_flatMap {α : Type} (f : α → Bytes) (l : List α) :
    unpack (l.flatMap f) = l.flatMap fun a => unpack (f a) := List.flatMap_assoc

theorem unpack_flatten (ms : List Bytes) : unpack ms.flatten = (ms.map unpack).flatten := by
  induction ms with
  | nil => rfl
  | cons m ms ih => rw [List.flatten_cons, unpack_append, ih, List.map_cons, List.flatten_cons]

@[simp] theorem unpack_length (m : Bytes) : (unpack m).length = 8 * m.length := by
  induction m with
  | nil => rfl
  | cons b m ih =>
    rw [unpack_cons, List.length_append, bitsOf_length, ih, List.length_cons]
    ring

/-- The bits of a big-endian number. -/
theorem unpack_beBytes (w v : Nat) : unpack (beBytes w v) = bitsOf (8 * w) v := by
  induction w with
  | zero => rfl
  | succ w ih =>
    have hpow : 256 ^ w = 2 ^ (8 * w) := by rw [Nat.pow_mul]
    rw [beBytes, unpack_cons, ih, UInt8.toNat_ofNat', bitsOf_mod 8 _ (Nat.le_refl 8), hpow, ← bitsOf_add,
      Nat.mul_succ, Nat.add_comm 8]

/-- The value of a byte string is the value of its bits. -/
theorem bitsVal_unpack (acc : Nat) (m : Bytes) : bitsVal acc (unpack m) = beNat acc m := by
  induction m generalizing acc with
  | nil => rfl
  | cons b m ih =>
    have hb : b.toNat % 2 ^ 8 = b.toNat := Nat.mod_eq_of_lt b.toNat_lt
    have hsplit : bitsVal acc (unpack (b :: m)) = bitsVal (bitsVal acc (bitsOf 8 b.toNat)) (unpack m) := by
      rw [unpack_cons, bitsVal, List.foldl_append]
      rfl
    rw [hsplit, bitsVal_bitsOf, ih, hb, beNat_cons]
    rfl

theorem unpack_take (n : Nat) (m : Bytes) : unpack (m.take n) = (unpack m).take (8 * n) := by
  induction n generalizing m with
  | zero => rfl
  | succ n ih =>
    cases m with
    | nil => rfl
    | cons b m =>
      have hbyte : (bitsOf 8 b.toNat).length ≤ 8 + 8 * n := by
        rw [bitsOf_length]
        exact Nat.le_add_right 8 _
      rw [List.take_succ_cons, unpack_cons, unpack_cons, ih, Nat.mul_succ, Nat.add_comm,
        List.take_append, List.take_of_length_le hbyte, bitsOf_length, Nat.add_sub_cancel_left]

theorem unpack_drop (n : Nat) (m : Bytes) : unpack (m.drop n) = (unpack m).drop (8 * n) := by
  induction n generalizing m with
  | zero => rfl
  | succ n ih =>
    cases m with
    | nil => rfl
    | cons b m =>
      rw [List.drop_succ_cons, unpack_cons, ih, Nat.mul_succ, Nat.add_comm, ← List.drop_drop,
        List.drop_left' (bitsOf_length 8 _)]

end KernelCache.Foundation
