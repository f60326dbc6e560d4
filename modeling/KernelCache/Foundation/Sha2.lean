/-
# KernelCache.Foundation.Sha2 — SHA-256 as FIPS 180-4 defines it.

The hash of a bit string.  Words are 32 bits, the message is padded and parsed into blocks of 512 bits
and sixteen words each, and the constants are what the standard says they are: the first 32 bits of the
fractional parts of square and cube roots of the first primes.

The standard hashes messages of fewer than `2 ^ 64` bits.  The definitions go on beyond: the padding ends
with the length modulo `2 ^ 64`.
-/
import KernelCache.Foundation.Bits
import KernelCache.Foundation.Blocks
import Mathlib.Analysis.SpecialFunctions.Pow.Real
import Mathlib.Data.Nat.Nth
import Mathlib.Data.Nat.Prime.Defs

namespace KernelCache.Foundation.Sha2

abbrev Word := BitVec 32

/-! ## Functions on words -/

/-- `ROTR^n(x)`. -/
def rotr (n : Nat) (x : Word) : Word := x.rotateRight n

/-- `SHR^n(x)`. -/
def shr (n : Nat) (x : Word) : Word := x >>> n

def ch (x y z : Word) : Word := (x &&& y) ^^^ (~~~x &&& z)

def maj (x y z : Word) : Word := (x &&& y) ^^^ (x &&& z) ^^^ (y &&& z)

def bigSigma0 (x : Word) : Word := rotr 2 x ^^^ rotr 13 x ^^^ rotr 22 x

def bigSigma1 (x : Word) : Word := rotr 6 x ^^^ rotr 11 x ^^^ rotr 25 x

def smallSigma0 (x : Word) : Word := rotr 7 x ^^^ rotr 18 x ^^^ shr 3 x

def smallSigma1 (x : Word) : Word := rotr 17 x ^^^ rotr 19 x ^^^ shr 10 x

/-! ## Constants -/

/-- The first 32 bits of the fractional part of the `n`-th root of `p`. -/
noncomputable def rootBits (n p : Nat) : Word :=
  BitVec.ofNat 32 ⌊Int.fract ((p : ℝ) ^ (n : ℝ)⁻¹) * 2 ^ 32⌋₊

/-- `K_t`: the cube root of the prime with number `t`, counting from 0. -/
noncomputable def K (t : Nat) : Word := rootBits 3 (Nat.nth Nat.Prime t)

/-- The words `H_0 .. H_7` of a hash value, also the working variables `a .. h`. -/
structure Hash where
  a : Word
  b : Word
  c : Word
  d : Word
  e : Word
  f : Word
  g : Word
  h : Word

/-- The initial hash value: the square roots of the first eight primes. -/
noncomputable def initial : Hash where
  a := rootBits 2 (Nat.nth Nat.Prime 0)
  b := rootBits 2 (Nat.nth Nat.Prime 1)
  c := rootBits 2 (Nat.nth Nat.Prime 2)
  d := rootBits 2 (Nat.nth Nat.Prime 3)
  e := rootBits 2 (Nat.nth Nat.Prime 4)
  f := rootBits 2 (Nat.nth Nat.Prime 5)
  g := rootBits 2 (Nat.nth Nat.Prime 6)
  h := rootBits 2 (Nat.nth Nat.Prime 7)

/-! ## The hash computation -/

/-- The word with the bits of `l`. -/
def word (l : Bits) : Word := BitVec.ofNat 32 (bitsVal 0 l)

/-- The message schedule `W_t` of a block with the words `M`. -/
def schedule (M : List Word) (t : Nat) : Word :=
  if t < 16 then M.getD t 0
  else smallSigma1 (schedule M (t - 2)) + schedule M (t - 7) + smallSigma0 (schedule M (t - 15)) +
    schedule M (t - 16)

/-- One round, with the constant `k` and the schedule word `w`. -/
def round (v : Hash) (k w : Word) : Hash :=
  let t1 := v.h + bigSigma1 v.e + ch v.e v.f v.g + k + w
  let t2 := bigSigma0 v.a + maj v.a v.b v.c
  { a := t1 + t2, b := v.a, c := v.b, d := v.c, e := v.d + t1, f := v.e, g := v.f, h := v.g }

def Hash.add (v u : Hash) : Hash where
  a := v.a + u.a
  b := v.b + u.b
  c := v.c + u.c
  d := v.d + u.d
  e := v.e + u.e
  f := v.f + u.f
  g := v.g + u.g
  h := v.h + u.h

/-- The next intermediate hash value. -/
noncomputable def compress (H : Hash) (block : Bits) : Hash :=
  let M := (blocks 32 block).map word
  Hash.add ((List.range 64).foldl (fun v t => round v (K t) (schedule M t)) H) H

theorem exists_zeroBits (l : Nat) : ∃ k, (l + 1 + k) % 512 = 448 := ⟨448 + 511 * (l + 1), by omega⟩

/-- The smallest solution `k` of `l + 1 + k ≡ 448 mod 512`. -/
def zeroBits (l : Nat) : Nat := Nat.find (exists_zeroBits l)

/-- The padded message: a one, `zeroBits` zeros and the length as a 64-bit block. -/
def pad (M : Bits) : Bits :=
  M ++ [true] ++ List.replicate (zeroBits M.length) false ++ bitsOf 64 M.length

def Hash.bits (H : Hash) : Bits :=
  [H.a, H.b, H.c, H.d, H.e, H.f, H.g, H.h].flatMap fun w => bitsOf 32 w.toNat

/-- **SHA-256.** -/
noncomputable def sha256 (M : Bits) : Bits := ((blocks 512 (pad M)).foldl compress initial).bits

/-! ## Padding -/

theorem zeroBits_eq {l k : Nat} (h : (l + 1 + k) % 512 = 448) (hk : k < 512) : zeroBits l = k := by
  rw [zeroBits, Nat.find_eq_iff]
  refine ⟨h, fun j hj hsolves => ?_⟩
  omega

/-! ## Roots and primes -/

/-- The bits of a root, from whole numbers: `k` is the root with 32 bits behind the point. -/
theorem rootBits_eq {n p k : Nat} (hn : n ≠ 0) (hle : k ^ n ≤ p * (2 ^ 32) ^ n)
    (hlt : p * (2 ^ 32) ^ n < (k + 1) ^ n) : rootBits n p = BitVec.ofNat 32 k := by
  unfold rootBits
  have hpow : ((p : ℝ) ^ (n : ℝ)⁻¹) ^ n = p := Real.rpow_inv_natCast_pow (Nat.cast_nonneg p) hn
  have hroot : 0 ≤ (p : ℝ) ^ (n : ℝ)⁻¹ := Real.rpow_nonneg (Nat.cast_nonneg p) _
  generalize (p : ℝ) ^ (n : ℝ)⁻¹ = r at hpow hroot
  have hscaled : (r * 2 ^ 32) ^ n = p * (2 ^ 32) ^ n := by rw [mul_pow, hpow]
  have hpos : 0 ≤ r * 2 ^ 32 := by positivity
  have hlow : (k : ℝ) ≤ r * 2 ^ 32 := by
    rw [← pow_le_pow_iff_left₀ (Nat.cast_nonneg k) hpos hn, hscaled]
    exact_mod_cast hle
  have hhigh : r * 2 ^ 32 < (k : ℝ) + 1 := by
    rw [← pow_lt_pow_iff_left₀ hpos (by positivity) hn, hscaled]
    exact_mod_cast hlt
  have hfloor : ⌊r * 2 ^ 32⌋₊ = k := (Nat.floor_eq_iff hpos).mpr ⟨hlow, hhigh⟩
  -- the whole part of the root takes a multiple of 2 ^ 32 away
  have hfract : Int.fract r * 2 ^ 32 = r * 2 ^ 32 - ((⌊r⌋₊ * 2 ^ 32 : Nat) : ℝ) := by
    rw [← Int.self_sub_floor, ← natCast_floor_eq_intCast_floor hroot]
    push_cast
    ring
  have hwhole : ⌊r⌋₊ * 2 ^ 32 ≤ k := by
    rw [← hfloor, Nat.le_floor_iff hpos, Nat.cast_mul, Nat.cast_pow, Nat.cast_ofNat]
    gcongr
    exact Nat.floor_le hroot
  rw [hfract, Nat.floor_sub_natCast, hfloor]
  apply BitVec.eq_of_toNat_eq
  rw [BitVec.toNat_ofNat, BitVec.toNat_ofNat]
  omega

/-- The numbers below `N` with a property, in order, are the first ones with it. -/
theorem nth_eq_getD_filter (P : Nat → Prop) [DecidablePred P] {N t : Nat}
    (ht : t < ((List.range N).filter P).length) :
    Nat.nth P t = ((List.range N).filter P).getD t 0 := by
  induction N with
  | zero => exact absurd ht (Nat.not_lt_zero t)
  | succ N ih =>
    rw [List.range_succ, List.filter_append] at ht ⊢
    by_cases hin : t < ((List.range N).filter P).length
    · rw [List.getD_append _ _ _ _ hin, ih hin]
    · -- the new number is the one
      have hP : P N := by
        by_contra hnot
        have hnone : [N].filter P = [] := List.filter_cons_of_neg (by simpa using hnot)
        rw [hnone, List.append_nil] at ht
        exact hin ht
      have hone : [N].filter P = [N] := List.filter_cons_of_pos (by simpa using hP)
      rw [hone, List.length_append, List.length_singleton] at ht
      have hcount : Nat.count P N = ((List.range N).filter P).length := by
        rw [Nat.count, List.countP_eq_length_filter]
      have ht : t = Nat.count P N := by omega
      rw [hone, ht, Nat.nth_count hP, hcount, List.getD_append_right _ _ _ _ (Nat.le_refl _),
        Nat.sub_self]
      rfl

/-- Trial division. -/
def trial (n : Nat) : Bool := decide (2 ≤ n) && (List.range n).all fun d => d < 2 || n % d != 0

theorem trial_iff (n : Nat) : trial n = true ↔ Nat.Prime n := by
  rw [trial, Bool.and_eq_true, decide_eq_true_iff, List.all_eq_true, Nat.prime_def_lt]
  refine and_congr_right fun hn => ⟨fun h d hd hdvd => ?_, fun h d hd => ?_⟩
  · have hd' := h d (List.mem_range.mpr hd)
    have hpos : 0 < d := Nat.pos_of_dvd_of_pos hdvd (Nat.lt_of_lt_of_le (by decide) hn)
    rw [Nat.mod_eq_zero_of_dvd hdvd] at hd'
    simp only [bne_self_eq_false, Bool.or_false, decide_eq_true_eq] at hd'
    omega
  · rw [Bool.or_eq_true, decide_eq_true_eq, bne_iff_ne]
    by_cases hd2 : d < 2
    · exact Or.inl hd2
    · refine Or.inr fun hmod => hd2 ?_
      rw [h d (List.mem_range.mp hd) (Nat.dvd_of_mod_eq_zero hmod)]
      decide

/-- The primes below `N`, in order. -/
def primesBelow (N : Nat) : List Nat := (List.range N).filter fun n => trial n

theorem nth_prime_eq {N t : Nat} (ht : t < (primesBelow N).length) :
    Nat.nth Nat.Prime t = (primesBelow N).getD t 0 := by
  have hprime : Nat.Prime = fun n => trial n = true := funext fun n => propext (trial_iff n).symm
  rw [hprime, nth_eq_getD_filter (fun n => trial n = true) (N := N) (by simpa [primesBelow] using ht)]
  simp [primesBelow]

end KernelCache.Foundation.Sha2
