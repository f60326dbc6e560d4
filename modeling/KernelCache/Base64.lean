/-
# KernelCache.Base64 — the encoder and the decoder of the metadata (`persistence.cpp`).

Both run a bit buffer in an `int`: the high bits overflow unnoticed, and only the `bits` counter says
which of them still matter.  `b64EncodeLoop_sextets` and `b64DecodeLoop_octets` are the two loops from
the start of a turn of that counter, three bytes in and four letters out or back; whatever the buffer
held before has no influence.  So `b64encode` writes the letters of `sextets` and `b64decode` collects
their `octets`, and text of ANY bytes is read back (`b64DecodeLoop_b64encode`).
-/
import KernelCache.Foundation.Sextets
import KernelCache.Persistence

namespace KernelCache

open Foundation (sextets octets sextets_lt octets_sextets shifted shifted_in)

/-- The letter of a group of six bits. -/
def b64Letter (d : Nat) : UInt8 := b64Alphabet.getD d 0

/-! ## The buffer -/

/-- `val = (val << 8) + c`. -/
def byteIn (v : BitVec 32) (c : UInt8) : BitVec 32 := v <<< 8 + BitVec.ofNat 32 c.toNat

theorem byteIn_toNat (v : BitVec 32) (c : UInt8) :
    (byteIn v c).toNat = (v.toNat * 256 + c.toNat) % 4294967296 :=
  shifted_in v (by have := c.toNat_lt; omega)

/-- `val = (val << 6) + d`. -/
def digitIn (v : BitVec 32) (d : Nat) : BitVec 32 := v <<< 6 + BitVec.ofNat 32 d

theorem digitIn_toNat (v : BitVec 32) {d : Nat} (h : d < 64) :
    (digitIn v d).toNat = (v.toNat * 64 + d) % 4294967296 :=
  shifted_in v (by omega)

/-- The letter at bit `k` of the buffer. -/
theorem b64Digit_shifted {k : Nat} (hk : k ≤ 26) (v : BitVec 32) :
    b64Digit (v.sshiftRight k) = b64Letter (v.toNat / 2 ^ k % 64) := by
  have hbits : (v.sshiftRight k &&& 0x3f#32).toNat = v.toNat / 2 ^ k % 64 :=
    shifted (m := 6) (by omega) v 0x3f#32 rfl
  unfold b64Digit b64Letter
  rw [hbits]

/-! ## Encoding -/

theorem b64Emit_one (v : BitVec 32) {pending : Nat} (h : 6 ≤ pending) (h' : pending < 12) :
    b64Emit v 2 pending = ([b64Digit (v.sshiftRight (pending - 6))], pending - 6) := by
  simp only [b64Emit]
  rw [if_pos h, if_neg (by omega)]

theorem b64EncodeLoop_cons (v : BitVec 32) (pending : Nat) (c : UInt8) (s : Str) :
    b64EncodeLoop v pending (c :: s) =
      ((b64Emit (byteIn v c) 2 (pending + 8)).1 ++
        (b64EncodeLoop (byteIn v c) (b64Emit (byteIn v c) 2 (pending + 8)).2 s).1,
        (b64EncodeLoop (byteIn v c) (b64Emit (byteIn v c) 2 (pending + 8)).2 s).2) := rfl

/-- A first byte leaves two bits behind, -/
theorem b64EncodeLoop_zero (v : BitVec 32) (c : UInt8) (s : Str) : b64EncodeLoop v 0 (c :: s) =
    (b64Letter (c.toNat / 4) :: (b64EncodeLoop (byteIn v c) 2 s).1,
      (b64EncodeLoop (byteIn v c) 2 s).2) := by
  have hc := c.toNat_lt
  have hval : (byteIn v c).toNat / 2 ^ 2 % 64 = c.toNat / 4 := by
    rw [byteIn_toNat]
    omega
  have hemit := b64Emit_one (byteIn v c) (show 6 ≤ 0 + 8 by decide) (by decide)
  rw [b64Digit_shifted (by decide)] at hemit
  rw [b64EncodeLoop_cons, hemit, hval]
  rfl

/-- a second one four, -/
theorem b64EncodeLoop_two (v : BitVec 32) (c : UInt8) (s : Str) : b64EncodeLoop v 2 (c :: s) =
    (b64Letter (v.toNat % 4 * 16 + c.toNat / 16) :: (b64EncodeLoop (byteIn v c) 4 s).1,
      (b64EncodeLoop (byteIn v c) 4 s).2) := by
  have hc := c.toNat_lt
  have hval : (byteIn v c).toNat / 2 ^ 4 % 64 = v.toNat % 4 * 16 + c.toNat / 16 := by
    rw [byteIn_toNat]
    omega
  have hemit := b64Emit_one (byteIn v c) (show 6 ≤ 2 + 8 by decide) (by decide)
  rw [b64Digit_shifted (by decide)] at hemit
  rw [b64EncodeLoop_cons, hemit, hval]
  rfl

/-- and a third one none. -/
theorem b64EncodeLoop_four (v : BitVec 32) (c : UInt8) (s : Str) : b64EncodeLoop v 4 (c :: s) =
    (b64Letter (v.toNat % 16 * 4 + c.toNat / 64) :: b64Letter (c.toNat % 64) ::
      (b64EncodeLoop (byteIn v c) 0 s).1, (b64EncodeLoop (byteIn v c) 0 s).2) := by
  have hc := c.toNat_lt
  have hhigh : (byteIn v c).toNat / 2 ^ 6 % 64 = v.toNat % 16 * 4 + c.toNat / 64 := by
    rw [byteIn_toNat]
    omega
  have hlow : (byteIn v c).toNat / 2 ^ 0 % 64 = c.toNat % 64 := by
    rw [byteIn_toNat]
    omega
  have hemit : b64Emit (byteIn v c) 2 (4 + 8) =
      ([b64Digit ((byteIn v c).sshiftRight 6), b64Digit ((byteIn v c).sshiftRight 0)], 0) := rfl
  rw [b64Digit_shifted (by decide), b64Digit_shifted (by decide)] at hemit
  rw [b64EncodeLoop_cons, hemit, hhigh, hlow]
  rfl

/-- What `b64encode` makes of the bits that are left at the end. -/
def b64Flush (v : BitVec 32) (pending : Nat) : Str :=
  if pending = 0 then [] else [b64Digit ((v <<< 8).sshiftRight (pending + 2))]

theorem b64Flush_two (v : BitVec 32) : b64Flush v 2 = [b64Letter (v.toNat % 4 * 16)] := by
  have hval : (v <<< 8).toNat / 2 ^ 4 % 64 = v.toNat % 4 * 16 := by
    rw [BitVec.toNat_shiftLeft, Nat.shiftLeft_eq]
    omega
  unfold b64Flush
  rw [if_neg (by decide), b64Digit_shifted (by decide), hval]

theorem b64Flush_four (v : BitVec 32) : b64Flush v 4 = [b64Letter (v.toNat % 16 * 4)] := by
  have hval : (v <<< 8).toNat / 2 ^ 6 % 64 = v.toNat % 16 * 4 := by
    rw [BitVec.toNat_shiftLeft, Nat.shiftLeft_eq]
    omega
  unfold b64Flush
  rw [if_neg (by decide), b64Digit_shifted (by decide), hval]

/-- The letters of the groups, whatever the buffer held before. -/
theorem b64EncodeLoop_sextets (v : BitVec 32) (s : Str) :
    (b64EncodeLoop v 0 s).1 ++ b64Flush (b64EncodeLoop v 0 s).2.1 (b64EncodeLoop v 0 s).2.2 =
      (sextets s).map b64Letter := by
  fun_induction sextets s generalizing v with
  | case1 a b c rest ih =>
    have hb : (byteIn v a).toNat % 4 * 16 + b.toNat / 16 = a.toNat % 4 * 16 + b.toNat / 16 := by
      rw [byteIn_toNat]
      omega
    have hc : (byteIn (byteIn v a) b).toNat % 16 * 4 + c.toNat / 64 =
        b.toNat % 16 * 4 + c.toNat / 64 := by
      rw [byteIn_toNat]
      omega
    rw [b64EncodeLoop_zero, b64EncodeLoop_two, b64EncodeLoop_four, hb, hc]
    simp only [List.map_cons, List.cons_append, ih]
  | case2 a b =>
    have hb : (byteIn v a).toNat % 4 * 16 + b.toNat / 16 = a.toNat % 4 * 16 + b.toNat / 16 := by
      rw [byteIn_toNat]
      omega
    have hlast : (byteIn (byteIn v a) b).toNat % 16 * 4 = b.toNat % 16 * 4 := by
      rw [byteIn_toNat]
      omega
    rw [b64EncodeLoop_zero, b64EncodeLoop_two, hb]
    simp only [b64EncodeLoop, b64Flush_four, hlast, List.map_cons, List.map_nil, List.cons_append,
      List.nil_append]
  | case3 a =>
    have hlast : (byteIn v a).toNat % 4 * 16 = a.toNat % 4 * 16 := by
      rw [byteIn_toNat]
      omega
    rw [b64EncodeLoop_zero]
    simp only [b64EncodeLoop, b64Flush_two, hlast, List.map_cons, List.map_nil, List.cons_append,
      List.nil_append]
  | case4 => rfl

/-- **`b64encode` writes the letters of the groups and fills up with `=`.** -/
theorem b64encode_eq (s : Str) : ∃ n,
    b64encode s = (sextets s).map b64Letter ++ List.replicate n 61 := by
  have hloop := b64EncodeLoop_sextets 0 s
  unfold b64Flush at hloop
  simp only [b64encode]
  split
  · rename_i hdone
    rw [if_pos hdone, List.append_nil] at hloop
    exact ⟨_, by rw [hloop]⟩
  · rename_i hleft
    rw [if_neg hleft] at hloop
    exact ⟨_, by rw [hloop]⟩

/-! ## Decoding -/

theorem b64Letter_ne {d : Nat} (h : d < 64) : b64Letter d ≠ 61 := by
  have hall : ∀ d < 64, b64Letter d ≠ 61 := by decide +kernel
  exact hall d h

theorem idxOf?_b64Letter {d : Nat} (h : d < 64) :
    (b64Alphabet ++ [0]).idxOf? (b64Letter d) = some d := by
  have hall : ∀ d < 64, (b64Alphabet ++ [0]).idxOf? (b64Letter d) = some d := by decide +kernel
  exact hall d h

/-- A letter that does not complete a byte, -/
theorem b64DecodeLoop_few (v : BitVec 32) {pending d : Nat} (hd : d < 64) (h : pending < 2)
    (out s : Str) : b64DecodeLoop v pending out (b64Letter d :: s) =
      b64DecodeLoop (digitIn v d) (pending + 6) out s := by
  rw [b64DecodeLoop, if_neg (b64Letter_ne hd), idxOf?_b64Letter hd]
  show (if 8 ≤ pending + 6 then _ else _) = _
  rw [if_neg (by omega)]
  rfl

/-- and one that does. -/
theorem b64DecodeLoop_byte (v : BitVec 32) {pending d : Nat} (hd : d < 64) (h : 2 ≤ pending)
    (h' : pending ≤ 6) (out s : Str) : b64DecodeLoop v pending out (b64Letter d :: s) =
      b64DecodeLoop (digitIn v d) (pending - 2)
        (out ++ [UInt8.ofNat ((digitIn v d).toNat / 2 ^ (pending - 2) % 256)]) s := by
  have hbits : ((digitIn v d).sshiftRight (pending - 2) &&& 0xff#32).toNat =
      (digitIn v d).toNat / 2 ^ (pending - 2) % 256 :=
    shifted (m := 8) (by omega) (digitIn v d) 0xff#32 rfl
  have hsub : pending + 6 - 8 = pending - 2 := by omega
  rw [b64DecodeLoop, if_neg (b64Letter_ne hd), idxOf?_b64Letter hd]
  show (if 8 ≤ pending + 6 then _ else _) = _
  rw [if_pos (by omega), hsub]
  show b64DecodeLoop (digitIn v d) _ (out ++ [UInt8.ofNat
    ((digitIn v d).sshiftRight (pending - 2) &&& 0xff#32).toNat]) s = _
  rw [hbits]

/-- The end of the text, filled up or not. -/
theorem b64DecodeLoop_end (v : BitVec 32) (pending n : Nat) (out : Str) :
    b64DecodeLoop v pending out (List.replicate n 61) = out := by
  cases n with
  | zero => rfl
  | succ n =>
    rw [List.replicate_succ, b64DecodeLoop, if_pos rfl]

/-- The octet behind the second digit of a group. -/
theorem digitIn_second (v : BitVec 32) {p q : Nat} (hp : p < 64) (hq : q < 64) :
    (digitIn (digitIn v p) q).toNat / 2 ^ 4 % 256 = p * 4 + q / 16 := by
  rw [digitIn_toNat _ hq, digitIn_toNat _ hp]
  omega

/-- The octet behind the third. -/
theorem digitIn_third (v : BitVec 32) {q r : Nat} (hq : q < 64) (hr : r < 64) :
    (digitIn (digitIn v q) r).toNat / 2 ^ 2 % 256 = q % 16 * 16 + r / 4 := by
  rw [digitIn_toNat _ hr, digitIn_toNat _ hq]
  omega

/-- The octet behind the last. -/
theorem digitIn_fourth (v : BitVec 32) {r s : Nat} (hr : r < 64) (hs : s < 64) :
    (digitIn (digitIn v r) s).toNat / 2 ^ 0 % 256 = r % 4 * 64 + s := by
  rw [digitIn_toNat _ hs, digitIn_toNat _ hr]
  omega

/-- The bytes of the groups, whatever the buffer held before. -/
theorem b64DecodeLoop_octets (n : Nat) (ds : List Nat) (h : ∀ d ∈ ds, d < 64) (v : BitVec 32)
    (out : Str) : b64DecodeLoop v 0 out (ds.map b64Letter ++ List.replicate n 61) =
      out ++ octets ds := by
  fun_induction octets ds generalizing v out with
  | case1 p q r s rest ih =>
    simp only [List.forall_mem_cons] at h
    obtain ⟨hp, hq, hr, hs, hrest⟩ := h
    simp only [List.map_cons, List.cons_append]
    rw [b64DecodeLoop_few _ hp (by decide), b64DecodeLoop_byte _ hq (by decide) (by decide),
      b64DecodeLoop_byte _ hr (by decide) (by decide),
      b64DecodeLoop_byte _ hs (by decide) (by decide), digitIn_second v hp hq, digitIn_third _ hq hr,
      digitIn_fourth _ hr hs, ih hrest]
    simp only [List.append_assoc, List.cons_append, List.nil_append]
  | case2 p q r =>
    simp only [List.forall_mem_cons] at h
    obtain ⟨hp, hq, hr, -⟩ := h
    simp only [List.map_cons, List.map_nil, List.cons_append, List.nil_append]
    rw [b64DecodeLoop_few _ hp (by decide), b64DecodeLoop_byte _ hq (by decide) (by decide),
      b64DecodeLoop_byte _ hr (by decide) (by decide), digitIn_second v hp hq, digitIn_third _ hq hr,
      b64DecodeLoop_end]
    simp only [List.append_assoc, List.cons_append, List.nil_append]
  | case3 p q =>
    simp only [List.forall_mem_cons] at h
    obtain ⟨hp, hq, -⟩ := h
    simp only [List.map_cons, List.map_nil, List.cons_append, List.nil_append]
    rw [b64DecodeLoop_few _ hp (by decide), b64DecodeLoop_byte _ hq (by decide) (by decide),
      digitIn_second v hp hq, b64DecodeLoop_end]
  | case4 ds hfour hthree htwo =>
    cases ds with
    | nil => simp [b64DecodeLoop_end]
    | cons p ds =>
      cases ds with
      | nil =>
        have hp : p < 64 := h p List.mem_cons_self
        rw [List.map_singleton, List.singleton_append, b64DecodeLoop_few _ hp (by decide),
          b64DecodeLoop_end, List.append_nil]
      | cons q ds =>
        cases ds with
        | nil => exact absurd rfl (htwo p q)
        | cons r ds =>
          cases ds with
          | nil => exact absurd rfl (hthree p q r)
          | cons s ds => exact absurd rfl (hfour p q r s ds)

/-- The decoder appends the bytes, whatever its buffer holds. -/
theorem b64DecodeLoop_b64encode (v : BitVec 32) (out s : Str) :
    b64DecodeLoop v 0 out (b64encode s) = out ++ s := by
  obtain ⟨n, hn⟩ := b64encode_eq s
  rw [hn, b64DecodeLoop_octets n _ (sextets_lt s), octets_sextets]

/-- **Text of any bytes is read back from its base64 form.** -/
theorem b64decode_b64encode (s : Str) : b64decode (b64encode s) = s := by
  rw [b64decode, b64DecodeLoop_b64encode, List.nil_append]

end KernelCache
