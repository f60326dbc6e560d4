/-
# KernelCache.Sha256Standard — the streaming object computes SHA-256.

The object hashes bytes one at a time, with shifts for rotations, tables for the constants and the padding
fed through the same buffer as the message.  `Foundation.Sha2` is the hash of a bit string as the standard
defines it.  The proof goes from the inside out: words and rounds, the message schedule, a block, the
blocks of what was fed, the padding that `finish` feeds, the object over any sequence of calls.
-/
import KernelCache.Sha256
import KernelCache.Foundation.Sha2
import KernelCache.Foundation.Words

namespace KernelCache

open Foundation

/-! ## Words and rounds -/

theorem rotr_toBitVec {n : Nat} {k : UInt32} (hk : k.toNat = n) (hpos : 0 < n) (hlt : n < 32) (x : UInt32) :
    (rotr x k).toBitVec = Sha2.rotr n x.toBitVec := by
  have hright : (k.toBitVec % 32).toNat = n := by
    rw [BitVec.toNat_umod, UInt32.toNat_toBitVec, hk]
    exact Nat.mod_eq_of_lt hlt
  have hleft : ((32 - k).toBitVec % 32).toNat = 32 - n := by
    have hle : k ≤ 32 := by
      rw [UInt32.le_iff_toNat_le, hk]
      exact Nat.le_of_lt hlt
    rw [BitVec.toNat_umod, UInt32.toNat_toBitVec, UInt32.toNat_sub_of_le _ _ hle, hk]
    exact Nat.mod_eq_of_lt (Nat.sub_lt (by decide) hpos)
  rw [rotr, Sha2.rotr, BitVec.rotateRight_def, Nat.mod_eq_of_lt hlt, UInt32.toBitVec_or,
    UInt32.toBitVec_shiftRight, UInt32.toBitVec_shiftLeft, BitVec.ushiftRight_eq', BitVec.shiftLeft_eq',
    hright, hleft]

/-- Three rotations, as both `Σ` functions are. -/
theorem rotations {p q r : Nat} {i j k : UInt32} (hi : i.toNat = p ∧ 0 < p ∧ p < 32)
    (hj : j.toNat = q ∧ 0 < q ∧ q < 32) (hk : k.toNat = r ∧ 0 < r ∧ r < 32) (x : UInt32) :
    (rotr x i ^^^ rotr x j ^^^ rotr x k).toBitVec =
      Sha2.rotr p x.toBitVec ^^^ Sha2.rotr q x.toBitVec ^^^ Sha2.rotr r x.toBitVec := by
  rw [UInt32.toBitVec_xor, UInt32.toBitVec_xor, rotr_toBitVec hi.1 hi.2.1 hi.2.2,
    rotr_toBitVec hj.1 hj.2.1 hj.2.2, rotr_toBitVec hk.1 hk.2.1 hk.2.2]

/-- Two rotations and a shift, as both `σ` functions are. -/
theorem rotations_shift {p q r : Nat} {i j k : UInt32} (hi : i.toNat = p ∧ 0 < p ∧ p < 32)
    (hj : j.toNat = q ∧ 0 < q ∧ q < 32) (hk : k.toNat = r ∧ r < 32) (x : UInt32) :
    (rotr x i ^^^ rotr x j ^^^ (x >>> k)).toBitVec =
      Sha2.rotr p x.toBitVec ^^^ Sha2.rotr q x.toBitVec ^^^ Sha2.shr r x.toBitVec := by
  have hshift : (k.toBitVec % 32).toNat = r := by
    rw [BitVec.toNat_umod, UInt32.toNat_toBitVec, hk.1]
    exact Nat.mod_eq_of_lt hk.2
  rw [UInt32.toBitVec_xor, UInt32.toBitVec_xor, rotr_toBitVec hi.1 hi.2.1 hi.2.2,
    rotr_toBitVec hj.1 hj.2.1 hj.2.2, UInt32.toBitVec_shiftRight, BitVec.ushiftRight_eq', hshift]
  rfl

namespace Sha256Words

/-- The eight words as a hash value of the standard. -/
def hash (x : Sha256Words) : Sha2.Hash where
  a := x.a.toBitVec
  b := x.b.toBitVec
  c := x.c.toBitVec
  d := x.d.toBitVec
  e := x.e.toBitVec
  f := x.f.toBitVec
  g := x.g.toBitVec
  h := x.h.toBitVec

theorem round_hash (r : Sha256Words) (k w : UInt32) :
    (round r k w).hash = Sha2.round r.hash k.toBitVec w.toBitVec := by
  have hsigma1 : (rotr r.e 6 ^^^ rotr r.e 11 ^^^ rotr r.e 25).toBitVec = Sha2.bigSigma1 r.e.toBitVec :=
    rotations (by decide) (by decide) (by decide) r.e
  have hsigma0 : (rotr r.a 2 ^^^ rotr r.a 13 ^^^ rotr r.a 22).toBitVec = Sha2.bigSigma0 r.a.toBitVec :=
    rotations (by decide) (by decide) (by decide) r.a
  simp only [round, hash, Sha2.round, UInt32.toBitVec_add, hsigma0, hsigma1]
  rfl

theorem rounds_hash (ks ws : List UInt32) (r : Sha256Words) : (rounds ks ws r).hash =
    ((ks.map UInt32.toBitVec).zip (ws.map UInt32.toBitVec)).foldl (fun v p => Sha2.round v p.1 p.2)
      r.hash := by
  induction ks generalizing ws r with
  | nil => rfl
  | cons k ks ih =>
    cases ws with
    | nil => rfl
    | cons w ws =>
      rw [rounds, ih, round_hash, List.map_cons, List.map_cons, List.zip_cons_cons, List.foldl_cons]

theorem add_hash (x y : Sha256Words) : (x.add y).hash = Sha2.Hash.add y.hash x.hash := by
  simp only [add, hash, Sha2.Hash.add, UInt32.toBitVec_add, BitVec.add_comm]

end Sha256Words

/-! ## The tables -/

/-- `w` holds the first 32 bits behind the point of the `n`-th root of `p`, whatever stands before it. -/
def isRoot (n p : Nat) (w : UInt32) : Bool := (List.range 32).any fun c =>
  decide ((c * 2 ^ 32 + w.toNat) ^ n ≤ p * (2 ^ 32) ^ n) &&
    decide (p * (2 ^ 32) ^ n < (c * 2 ^ 32 + w.toNat + 1) ^ n)

theorem rootBits_of_isRoot {n p : Nat} {w : UInt32} (hn : n ≠ 0) (h : isRoot n p w = true) :
    Sha2.rootBits n p = w.toBitVec := by
  obtain ⟨c, -, hc⟩ := List.any_eq_true.mp h
  rw [Bool.and_eq_true, decide_eq_true_iff, decide_eq_true_iff] at hc
  rw [Sha2.rootBits_eq hn hc.1 hc.2]
  apply BitVec.eq_of_toNat_eq
  rw [BitVec.toNat_ofNat, UInt32.toNat_toBitVec, Nat.add_comm, Nat.add_mul_mod_self_right,
    Nat.mod_eq_of_lt w.toNat_lt]

/-- The first sixty-four primes. -/
theorem primesBelow_312 : Sha2.primesBelow 312 = [
    2, 3, 5, 7, 11, 13, 17, 19, 23, 29, 31, 37, 41, 43, 47, 53, 59, 61, 67, 71, 73, 79, 83, 89, 97, 101,
    103, 107, 109, 113, 127, 131, 137, 139, 149, 151, 157, 163, 167, 173, 179, 181, 191, 193, 197, 199,
    211, 223, 227, 229, 233, 239, 241, 251, 257, 263, 269, 271, 277, 281, 283, 293, 307, 311] := by
  decide +kernel

/-- A word of a table, against the prime at its place. -/
theorem rootBits_prime {n t : Nat} {w : UInt32} (hn : n ≠ 0) (ht : t < 64)
    (h : isRoot n ((Sha2.primesBelow 312).getD t 0) w = true) :
    Sha2.rootBits n (Nat.nth Nat.Prime t) = w.toBitVec := by
  have hprime : Nat.nth Nat.Prime t = (Sha2.primesBelow 312).getD t 0 :=
    Sha2.nth_prime_eq (by rw [primesBelow_312]; exact ht)
  rw [hprime, rootBits_of_isRoot hn h]

/-- **The round constants.** -/
theorem sha256K_constants : sha256K.map UInt32.toBitVec = (List.range 64).map Sha2.K := by
  have hroots : ∀ t < 64,
      isRoot 3 ((Sha2.primesBelow 312).getD t 0) (sha256K.getD t 0) = true := by
    rw [primesBelow_312]
    decide +kernel
  refine List.ext_getElem rfl fun t ht _ => ?_
  have hlt : t < 64 := ht
  rw [List.getElem_map, List.getElem_map, List.getElem_range, Sha2.K,
    rootBits_prime (by decide) hlt (hroots t hlt), List.getD_eq_getElem _ _ hlt]
  rfl

/-- **The initial words.** -/
theorem initial_hash : Sha256Words.initial.hash = Sha2.initial := by
  have hroots : ∀ t < 8,
      isRoot 2 ((Sha2.primesBelow 312).getD t 0) (Sha256Words.initial.toList.getD t 0) = true := by
    rw [primesBelow_312]
    decide +kernel
  have hword : ∀ t < 8,
      Sha2.rootBits 2 (Nat.nth Nat.Prime t) = (Sha256Words.initial.toList.getD t 0).toBitVec :=
    fun t ht => rootBits_prime (by decide) (Nat.lt_trans ht (by decide)) (hroots t ht)
  unfold Sha2.initial
  rw [hword 0 (by decide), hword 1 (by decide), hword 2 (by decide), hword 3 (by decide),
    hword 4 (by decide), hword 5 (by decide), hword 6 (by decide), hword 7 (by decide)]
  rfl

/-! ## A block -/

/-- The word of four bytes, by shifts and by value. -/
theorem beWord_toNat (a b c d : UInt8) : (beWord [a, b, c, d]).toNat = beNat 0 [a, b, c, d] := by
  have hjoined : a.toNat <<< 24 ||| b.toNat <<< 16 ||| c.toNat <<< 8 ||| d.toNat <<< 0 =
      (((a.toNat * 256 + b.toNat) * 256 + c.toNat) * 256 + d.toNat) <<< 0 := by
    rw [joined_byte a.toNat 16, joined_byte _ 8, joined_byte _ 0]
  rw [beWord, UInt32.toNat_or, UInt32.toNat_or, UInt32.toNat_or, shifted_byte a (by decide),
    shifted_byte b (by decide), shifted_byte c (by decide), UInt8.toNat_toUInt32]
  refine hjoined.trans ?_
  rw [Nat.shiftLeft_zero, beNat_cons, Nat.zero_mul, Nat.zero_add, beNat_cons, beNat_cons, beNat_cons,
    beNat_nil]

theorem beWord_word {bs : Bytes} (h : bs.length = 4) : (beWord bs).toBitVec = Sha2.word (unpack bs) := by
  obtain ⟨a, b, c, d, rfl⟩ := List.length_eq_four.mp h
  apply BitVec.eq_of_toNat_eq
  have hlt := (beWord [a, b, c, d]).toNat_lt
  rw [UInt32.toNat_toBitVec, Sha2.word, BitVec.toNat_ofNat, bitsVal_unpack, ← beWord_toNat,
    Nat.mod_eq_of_lt hlt]

theorem scheduleBlock_words {k : Nat} {block : Bytes} (h : block.length = 4 * k) :
    (scheduleBlock k block).map UInt32.toBitVec = (chunks 32 k (unpack block)).map Sha2.word := by
  induction k generalizing block with
  | zero => rfl
  | succ k ih =>
    have hfirst : (block.take 4).length = 4 := by
      rw [List.length_take, h]
      omega
    have hrest : (block.drop 4).length = 4 * k := by
      rw [List.length_drop, h]
      omega
    rw [scheduleBlock, List.map_cons, ih hrest, beWord_word hfirst, unpack_take, unpack_drop, chunks,
      List.map_cons]

/-- What the schedule list holds: the words before `n`, the latest first. -/
def Scheduled (M : List Sha2.Word) (n : Nat) (ws : List UInt32) : Prop :=
  ws.map UInt32.toBitVec = ((List.range n).map (Sha2.schedule M)).reverse

theorem Scheduled.getD {M : List Sha2.Word} {n : Nat} {ws : List UInt32} (h : Scheduled M n ws) {i : Nat}
    (hi : i < n) : (ws.getD i 0).toBitVec = Sha2.schedule M (n - 1 - i) := by
  have hmap : (ws.map UInt32.toBitVec).getD i (UInt32.toBitVec 0) = (ws.getD i 0).toBitVec :=
    List.getD_map ws 0 UInt32.toBitVec
  rw [← hmap, h, List.getD_eq_getElem _ _ (by simpa using hi), List.getElem_reverse, List.getElem_map,
    List.getElem_range, List.length_map, List.length_range]

/-- **The schedule.** Each word is made from the earlier ones as the recurrence says. -/
theorem Scheduled.extend {M : List Sha2.Word} {n : Nat} {ws : List UInt32} (h : Scheduled M n ws)
    (hn : 16 ≤ n) (k : Nat) : Scheduled M (n + k) (scheduleExtend k ws) := by
  induction k generalizing n ws with
  | zero => exact h
  | succ k ih =>
    have hsigma0 : ∀ x : UInt32, (rotr x 7 ^^^ rotr x 18 ^^^ (x >>> 3)).toBitVec =
        Sha2.smallSigma0 x.toBitVec :=
      rotations_shift (by decide) (by decide) (by decide)
    have hsigma1 : ∀ x : UInt32, (rotr x 17 ^^^ rotr x 19 ^^^ (x >>> 10)).toBitVec =
        Sha2.smallSigma1 x.toBitVec :=
      rotations_shift (by decide) (by decide) (by decide)
    have hnext : Scheduled M (n + 1) ((ws.getD 15 0 +
        (rotr (ws.getD 14 0) 7 ^^^ rotr (ws.getD 14 0) 18 ^^^ (ws.getD 14 0 >>> 3)) + ws.getD 6 0 +
        (rotr (ws.getD 1 0) 17 ^^^ rotr (ws.getD 1 0) 19 ^^^ (ws.getD 1 0 >>> 10))) :: ws) := by
      unfold Scheduled
      rw [List.range_succ, List.map_append, List.reverse_append, List.map_cons, h]
      simp only [UInt32.toBitVec_add, hsigma0, hsigma1]
      rw [h.getD (show 15 < n by omega), h.getD (show 14 < n by omega), h.getD (show 6 < n by omega),
        h.getD (show 1 < n by omega), List.map_singleton, List.reverse_singleton, List.singleton_append]
      congr 1
      rw [Sha2.schedule.eq_def M n, if_neg (by omega), show n - 1 - 15 = n - 16 by omega,
        show n - 1 - 14 = n - 15 by omega, show n - 1 - 6 = n - 7 by omega, show n - 1 - 1 = n - 2 by omega]
      ac_rfl
    rw [scheduleExtend, Nat.add_succ, ← Nat.succ_add]
    exact ih hnext (Nat.le_succ_of_le hn)

/-- The words after one more block, as `process_block` leaves them. -/
def Sha256Words.compress (x : Sha256Words) (block : Bytes) : Sha256Words :=
  x.add (rounds sha256K (scheduleExtend 48 (scheduleBlock 16 block).reverse).reverse x)

/-- **A block.** -/
theorem compress_hash (x : Sha256Words) {block : Bytes} (h : block.length = 64) :
    (x.compress block).hash = Sha2.compress x.hash (unpack block) := by
  have hcount : (unpack block).length / 32 = 16 := by rw [unpack_length, h]
  have hfirst := scheduleBlock_words (k := 16) h
  unfold Sha2.compress blocks
  rw [hcount]
  generalize hM : (chunks 32 16 (unpack block)).map Sha2.word = M at hfirst ⊢
  have hlen : M.length = 16 := by rw [← hfirst, List.length_map]; rfl
  have hstart : Scheduled M 16 (scheduleBlock 16 block).reverse := by
    unfold Scheduled
    rw [List.map_reverse, hfirst]
    congr 1
    refine List.ext_getElem (by rw [hlen, List.length_map, List.length_range]) fun t ht _ => ?_
    rw [hlen] at ht
    rw [List.getElem_map, List.getElem_range, Sha2.schedule, if_pos ht, List.getD_eq_getElem]
  have hwords : (scheduleExtend 48 (scheduleBlock 16 block).reverse).reverse.map UInt32.toBitVec =
      (List.range 64).map (Sha2.schedule M) := by
    rw [List.map_reverse, hstart.extend (Nat.le_refl 16) 48, List.reverse_reverse]
  rw [Sha256Words.compress, Sha256Words.add_hash, Sha256Words.rounds_hash, hwords, sha256K_constants,
    List.zip_map', List.foldl_map]

/-- Blocks in order. -/
theorem foldl_compress_hash {bs : List Bytes} (h : ∀ b ∈ bs, b.length = 64) (x : Sha256Words) :
    (bs.foldl Sha256Words.compress x).hash = (bs.map unpack).foldl Sha2.compress x.hash := by
  induction bs generalizing x with
  | nil => rfl
  | cons b bs ih =>
    rw [List.foldl_cons, ih fun c hc => h c (List.mem_cons_of_mem b hc), List.map_cons, List.foldl_cons,
      compress_hash x (h b List.mem_cons_self)]

/-! ## What was fed -/

namespace Sha256

/-- The object as a state in front of which bytes wait. -/
def parts (s : Sha256) : (Sha256Words × UInt64) × Bytes := ((s.state, s.bitCount), s.buffer)

/-- `process_block` on the words and the bit count. -/
def absorb (p : Sha256Words × UInt64) (block : Bytes) : Sha256Words × UInt64 :=
  (p.1.compress block, p.2 + 512)

theorem updateByte_parts (s : Sha256) (byte : UInt8) :
    (s.updateByte byte).parts = feed 64 absorb s.parts byte := by
  by_cases h : (s.buffer ++ [byte]).length = 64
  · have hstep : s.updateByte byte = { s.processBlock (s.buffer ++ [byte]) with buffer := [] } := if_pos h
    have hfeed : feed 64 absorb s.parts byte = (absorb s.parts.1 (s.buffer ++ [byte]), []) := if_pos h
    rw [hstep, hfeed]
    rfl
  · have hstep : s.updateByte byte = { s with buffer := s.buffer ++ [byte] } := if_neg h
    have hfeed : feed 64 absorb s.parts byte = (s.parts.1, s.buffer ++ [byte]) := if_neg h
    rw [hstep, hfeed]
    rfl

theorem update_parts (s : Sha256) (data : Bytes) :
    (s.update data).parts = data.foldl (feed 64 absorb) s.parts := by
  induction data generalizing s with
  | nil => rfl
  | cons byte data ih =>
    have hstep : s.update (byte :: data) = (s.updateByte byte).update data := rfl
    rw [hstep, ih, updateByte_parts, List.foldl_cons]

theorem update_append (s : Sha256) (data data' : Bytes) :
    s.update (data ++ data') = (s.update data).update data' := List.foldl_append

theorem foldl_update (s : Sha256) (datas : List Bytes) :
    datas.foldl update s = s.update datas.flatten := List.foldl_flatten.symm

theorem foldl_absorb (bs : List Bytes) (x : Sha256Words) (count : UInt64) :
    bs.foldl absorb (x, count) = (bs.foldl Sha256Words.compress x, count + UInt64.ofNat (512 * bs.length)) := by
  induction bs generalizing x count with
  | nil => exact congrArg (Prod.mk x) (UInt64.add_zero count).symm
  | cons b bs ih =>
    have hcount : count + 512 + UInt64.ofNat (512 * bs.length) =
        count + UInt64.ofNat (512 * (bs.length + 1)) := by
      rw [UInt64.add_assoc, Nat.mul_succ, Nat.add_comm (512 * bs.length), UInt64.ofNat_add]
      rfl
    rw [List.foldl_cons, absorb, ih, hcount, List.foldl_cons, List.length_cons]

/-- **An object that was fed `m`.** The blocks of `m` are processed and counted, the rest waits. -/
theorem update_reset (m : Bytes) : (reset.update m).parts =
    (((blocks 64 m).foldl Sha256Words.compress Sha256Words.initial, UInt64.ofNat (512 * (m.length / 64))),
      leftover 64 m) := by
  have hstart : reset.parts = ((Sha256Words.initial, 0), []) := rfl
  rw [update_parts, hstart, foldl_feed (by decide), foldl_absorb, blocks_length, UInt64.zero_add]

theorem buffer_update_reset (m : Bytes) : (reset.update m).buffer.length = m.length % 64 := by
  have hbuffer : (reset.update m).buffer = leftover 64 m := congrArg Prod.snd (update_reset m)
  rw [hbuffer, leftover_length]

/-- The length that `finish` appends, in bits modulo `2 ^ 64`. -/
theorem totalBits (m : Bytes) :
    ((reset.update m).bitCount + UInt64.ofNat (reset.update m).buffer.length * 8).toNat =
      8 * m.length % 2 ^ 64 := by
  have hcount : (reset.update m).bitCount = UInt64.ofNat (512 * (m.length / 64)) :=
    congrArg (fun p => p.1.2) (update_reset m)
  have height : (8 : UInt64) = UInt64.ofNat 8 := rfl
  rw [hcount, buffer_update_reset, height, ← UInt64.ofNat_mul, ← UInt64.ofNat_add, UInt64.toNat_ofNat']
  omega

/-! ## Padding -/

/-- The zero bytes that take a buffer with `used` bytes to 56. -/
def zeroBytes (used : Nat) : Nat := (120 - used) % 64

/-- **The padding loop.** It stops, with the zero bytes fed. -/
theorem padZeros_eq {n : Nat} {m : Bytes} (hn : zeroBytes (m.length % 64) ≤ n) :
    padZeros n (reset.update m) = reset.update (m ++ List.replicate (zeroBytes (m.length % 64)) 0) := by
  unfold zeroBytes at *
  induction n generalizing m with
  | zero => rw [Nat.le_zero.mp hn, List.replicate_zero, List.append_nil, padZeros]
  | succ n ih =>
    rw [padZeros, buffer_update_reset]
    by_cases hdone : m.length % 64 = 56
    · rw [if_pos hdone, hdone, List.replicate_zero, List.append_nil]
    · have hlen : (m ++ [0]).length = m.length + 1 := List.length_append
      have hfewer : (120 - m.length % 64) % 64 = (120 - (m ++ [0]).length % 64) % 64 + 1 := by omega
      have hfed : (reset.update m).updateByte 0x00 = reset.update (m ++ [0]) := (update_append reset m [0]).symm
      rw [if_neg hdone, hfed, ih (by omega), hfewer, List.replicate_succ, List.append_assoc,
        List.singleton_append]

/-- The bytes `finish` feeds behind `n` bytes. -/
def padding (n : Nat) : Bytes :=
  0x80 :: List.replicate (zeroBytes ((n + 1) % 64)) 0 ++ beBytes 8 (8 * n % 2 ^ 64)

theorem padded_length (m : Bytes) : (m ++ padding m.length).length % 64 = 0 := by
  simp only [padding, zeroBytes, List.length_append, List.length_cons, List.length_replicate, beBytes_length]
  omega

/-- **What `finish` returns.** The words of the padded message. -/
theorem finish_update (m : Bytes) : (reset.update m).finish.1 =
    output ((blocks 64 (m ++ padding m.length)).foldl Sha256Words.compress Sha256Words.initial) := by
  have hmarked : (reset.update m).updateByte 0x80 = reset.update (m ++ [0x80]) :=
    (update_append reset m [0x80]).symm
  have hlen : (m ++ [(0x80 : UInt8)]).length = m.length + 1 := List.length_append
  have hzeros : zeroBytes ((m ++ [(0x80 : UInt8)]).length % 64) ≤ 64 :=
    Nat.le_of_lt (Nat.mod_lt _ (by decide))
  have hstate : ∀ m', (reset.update m').state =
      (blocks 64 m').foldl Sha256Words.compress Sha256Words.initial :=
    fun m' => congrArg (fun p => p.1.1) (update_reset m')
  unfold finish
  simp only [totalBits, hmarked]
  rw [padZeros_eq hzeros, ← update_append, hstate, hlen, padding, List.append_assoc, List.append_assoc]
  rfl

/-- The padding in bits: a one, the zeros and the length. -/
theorem unpack_padding (m : Bytes) : unpack (m ++ padding m.length) = Sha2.pad (unpack m) := by
  have hzeros : ∀ j, unpack (List.replicate j 0) = List.replicate (8 * j) false := by
    intro j
    induction j with
    | zero => rfl
    | succ j ih => rw [List.replicate_succ, unpack_cons, ih, Nat.mul_succ, Nat.add_comm, List.replicate_add]; rfl
  have hmark : bitsOf 8 (0x80 : UInt8).toNat = [true] ++ List.replicate 7 false := by decide
  have hcount : Sha2.zeroBits (8 * m.length) = 7 + 8 * zeroBytes ((m.length + 1) % 64) := by
    unfold zeroBytes
    exact Sha2.zeroBits_eq (by omega) (by omega)
  rw [Sha2.pad, unpack_append, unpack_length, hcount, List.replicate_add, padding, unpack_append,
    unpack_cons, hzeros, hmark, unpack_beBytes, bitsOf_mod 64 _ (Nat.le_refl 64)]
  simp only [List.append_assoc]

/-! ## The digest -/

theorem output_bits (x : Sha256Words) : unpack (output x).bytes = x.hash.bits := by
  have hword : ∀ w : UInt32,
      [(w >>> 24).toUInt8, (w >>> 16).toUInt8, (w >>> 8).toUInt8, w.toUInt8] = beBytes 4 w.toNat := by
    intro w
    have hbyte : ∀ (v : UInt32) (n : Nat), v.toNat = n → v.toUInt8 = UInt8.ofNat n := by
      rintro v n rfl
      apply UInt8.toNat_inj.mp
      rw [UInt32.toNat_toUInt8, UInt8.toNat_ofNat']
    have hshift : ∀ (k : UInt32) (n : Nat), k.toNat % 32 = n → (w >>> k).toNat = w.toNat / 2 ^ n := by
      rintro k n rfl
      rw [UInt32.toNat_shiftRight, Nat.shiftRight_eq_div_pow]
    rw [hbyte _ _ (hshift 24 24 (by decide)), hbyte _ _ (hshift 16 16 (by decide)),
      hbyte _ _ (hshift 8 8 (by decide)), hbyte w (w.toNat / 1) (Nat.div_one _).symm]
    rfl
  have hbytes : (output x).bytes = x.toList.flatMap fun w => beBytes 4 w.toNat :=
    congrArg (fun f => x.toList.flatMap f) (funext hword)
  have hbits : ∀ w : UInt32, unpack (beBytes 4 w.toNat) = bitsOf 32 w.toNat :=
    fun w => unpack_beBytes 4 w.toNat
  rw [hbytes, unpack_flatMap]
  simp only [hbits]
  rfl

/-- **The digest is the standard's.** -/
theorem digest_bits (m : Bytes) : unpack (digest m).bytes = Sha2.sha256 (unpack m) := by
  have hfull := blocks_full (n := 64) (m ++ padding m.length)
  have hblocks : (blocks 64 (m ++ padding m.length)).map unpack = blocks 512 (Sha2.pad (unpack m)) := by
    have hbits : ∀ b ∈ (blocks 64 (m ++ padding m.length)).map unpack, b.length = 512 := by
      intro b hb
      obtain ⟨block, hblock, rfl⟩ := List.mem_map.mp hb
      rw [unpack_length, hfull block hblock]
    rw [← unpack_padding, ← blocks_flatten (by decide) hbits, ← unpack_flatten,
      flatten_blocks (padded_length m)]
  unfold digest Sha2.sha256
  rw [finish_update, output_bits, foldl_compress_hash hfull, initial_hash, hblocks]

theorem finish_reset (s : Sha256) : s.finish.2 = reset := rfl

theorem finish_digest (m : Bytes) : (reset.update m).finish = (digest m, reset) := by
  unfold digest
  rfl

/-! ## Any sequence of calls -/

/-- A call on an object. -/
inductive Call
  | update (data : Bytes)
  | updateByte (byte : UInt8)
  | finish

/-- The digests that one object returns. -/
def run : Sha256 → List Call → List Sha256Digest
  | _, [] => []
  | s, .update data :: calls => run (s.update data) calls
  | s, .updateByte byte :: calls => run (s.updateByte byte) calls
  | s, .finish :: calls => s.finish.1 :: run s.finish.2 calls

/-- The messages of a sequence of calls: the bytes before each `finish`, and `m` before the first. -/
def messages : Bytes → List Call → List Bytes
  | _, [] => []
  | m, .update data :: calls => messages (m ++ data) calls
  | m, .updateByte byte :: calls => messages (m ++ [byte]) calls
  | m, .finish :: calls => m :: messages [] calls

/-- **One object for many messages.** -/
theorem run_messages (m : Bytes) (calls : List Call) :
    run (reset.update m) calls = (messages m calls).map digest := by
  induction calls generalizing m with
  | nil => rfl
  | cons call calls ih =>
    cases call with
    | update data => rw [run, ← update_append, ih, messages]
    | updateByte byte =>
      have hone : (reset.update m).updateByte byte = reset.update (m ++ [byte]) :=
        (update_append reset m [byte]).symm
      rw [run, hone, ih, messages]
    | finish =>
      have hfresh : reset = reset.update [] := rfl
      rw [run, finish_digest, messages, List.map_cons, hfresh, ih]

end Sha256

/-- **SHA-256 is SHA-256.** The digest of a byte string is the standard's hash of its bits; it does not
matter how the bytes are split over calls; and an object that has returned a digest is as good as new. -/
theorem sha256_standard :
    (∀ m : Bytes, unpack (Sha256.digest m).bytes = Sha2.sha256 (unpack m)) ∧
      (∀ datas : List Bytes,
        (datas.foldl Sha256.update Sha256.reset).finish.1 = Sha256.digest datas.flatten) ∧
      (∀ s : Sha256, s.finish.2 = Sha256.reset) ∧
      ∀ calls, Sha256.run Sha256.reset calls = (Sha256.messages [] calls).map Sha256.digest := by
  refine ⟨Sha256.digest_bits, fun datas => ?_, Sha256.finish_reset, Sha256.run_messages []⟩
  rw [Sha256.foldl_update, Sha256.finish_digest]

end KernelCache
