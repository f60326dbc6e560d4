/-
# KernelCache.Foundation.Wire — big-endian, length-prefixed byte codecs and their exactness.

A reader consumes a prefix of a byte string or fails.  The notion carried through this file is
`Exact w D r`: the reader `r` inverts the writer `w` on the domain `D` with any bytes following
(`complete`), and every successful read of `r` has consumed EXACTLY the bytes `w` writes for the
value it returned, a value of `D` (`sound`).  `complete` is the round trip; `sound` is strictness.

Exactness composes: bytes, fixed-width big-endian naturals, length-prefixed blobs, pairs, counted
lists and images under a map are exact when their parts are.  Nothing here names a protocol or a
key; the field codecs of a format instantiate the combinators.
-/
import Mathlib.Data.List.Basic
import Mathlib.Tactic.Ring

namespace KernelCache.Foundation

/-- A byte string. -/
abbrev Bytes := List UInt8

/-! ## Fixed-width big-endian naturals -/

/-- The `w` low-order bytes of `v`, most significant first: byte `i` from the right is
`(v >> 8i) & 0xff`. -/
def beBytes : Nat → Nat → Bytes
  | 0, _ => []
  | w + 1, v => UInt8.ofNat (v / 256 ^ w) :: beBytes w v

/-- Accumulate bytes most significant first: `acc := (acc << 8) | b`. -/
def beNat (acc : Nat) (bs : Bytes) : Nat :=
  bs.foldl (fun v b => v * 256 + b.toNat) acc

@[simp] theorem beBytes_length (w v : Nat) : (beBytes w v).length = w := by
  induction w with
  | zero => rfl
  | succ w ih => simp [beBytes, ih]

@[simp] theorem beNat_nil (acc : Nat) : beNat acc [] = acc := rfl

@[simp] theorem beNat_cons (acc : Nat) (b : UInt8) (bs : Bytes) :
    beNat acc (b :: bs) = beNat (acc * 256 + b.toNat) bs := rfl

/-- The accumulator is carried as the high-order part. -/
theorem beNat_eq_add (acc : Nat) (bs : Bytes) :
    beNat acc bs = acc * 256 ^ bs.length + beNat 0 bs := by
  induction bs generalizing acc with
  | nil => simp
  | cons b bs ih =>
    rw [beNat_cons, beNat_cons, ih, ih (0 * 256 + b.toNat), List.length_cons]
    ring

theorem beNat_lt (bs : Bytes) : beNat 0 bs < 256 ^ bs.length := by
  induction bs with
  | nil => simp
  | cons b bs ih =>
    have hb : b.toNat < 256 := b.toNat_lt
    rw [beNat_cons, beNat_eq_add, List.length_cons, Nat.pow_succ]
    calc (0 * 256 + b.toNat) * 256 ^ bs.length + beNat 0 bs
        < b.toNat * 256 ^ bs.length + 256 ^ bs.length := by simpa using ih
      _ = (b.toNat + 1) * 256 ^ bs.length := by ring
      _ ≤ 256 * 256 ^ bs.length := Nat.mul_le_mul_right _ hb
      _ = 256 ^ bs.length * 256 := Nat.mul_comm _ _

/-- Reading the `w` bytes of `v` back gives `v` modulo `256 ^ w`. -/
theorem beNat_beBytes (w v : Nat) : beNat 0 (beBytes w v) = v % 256 ^ w := by
  induction w with
  | zero => simp [beBytes, Nat.mod_one]
  | succ w ih =>
    rw [beBytes, beNat_cons, beNat_eq_add, ih, beBytes_length, UInt8.toNat_ofNat']
    have hsplit : v % 256 ^ (w + 1) = 256 ^ w * (v / 256 ^ w % 256) + v % 256 ^ w := by
      rw [Nat.pow_succ, Nat.mod_mul]
      exact Nat.add_comm _ _
    rw [hsplit]
    simp only [Nat.zero_mul, Nat.zero_add, Nat.reducePow]
    ring

/-- Writing the value of `w` bytes gives the same `w` bytes. -/
theorem beBytes_beNat (bs : Bytes) (hi : Nat) :
    beBytes bs.length (hi * 256 ^ bs.length + beNat 0 bs) = bs := by
  induction bs generalizing hi with
  | nil => rfl
  | cons b bs ih =>
    have hlt := beNat_lt bs
    have hval : beNat 0 (b :: bs) = b.toNat * 256 ^ bs.length + beNat 0 bs := by
      rw [beNat_cons, beNat_eq_add]
      simp
    have hcollect : hi * 256 ^ (bs.length + 1) + beNat 0 (b :: bs)
        = (hi * 256 + b.toNat) * 256 ^ bs.length + beNat 0 bs := by
      rw [hval]
      ring
    have hdiv : (hi * 256 ^ (bs.length + 1) + beNat 0 (b :: bs)) / 256 ^ bs.length
        = hi * 256 + b.toNat := by
      rw [hcollect, Nat.mul_comm _ (256 ^ bs.length),
        Nat.mul_add_div (Nat.pow_pos (by decide)), Nat.div_eq_of_lt hlt, Nat.add_zero]
    rw [List.length_cons, beBytes, hdiv, hcollect, ih]
    congr 1
    apply UInt8.toNat_inj.mp
    have hb : b.toNat < 256 := b.toNat_lt
    rw [UInt8.toNat_ofNat']
    omega

/-! ## Readers -/

/-- A reader consumes a prefix of its input; `none` is a read past the end. -/
def Reader (α : Type) := Bytes → Option (α × Bytes)

namespace Reader

variable {α β : Type}

def pure (a : α) : Reader α := fun input => some (a, input)

def bind (r : Reader α) (f : α → Reader β) : Reader β := fun input =>
  match r input with
  | none => none
  | some (a, rest) => f a rest

def map (f : α → β) (r : Reader α) : Reader β := r.bind fun a => pure (f a)

/-- One byte. -/
def byte : Reader UInt8
  | [] => none
  | b :: rest => some (b, rest)

/-- Exactly `n` bytes. -/
def take (n : Nat) : Reader Bytes := fun input =>
  if n ≤ input.length then some (input.take n, input.drop n) else none

/-- A `w`-byte big-endian natural. -/
def be (w : Nat) : Reader Nat := map (beNat 0) (take w)

/-- The two readers in order. -/
def prod (r : Reader α) (q : Reader β) : Reader (α × β) :=
  r.bind fun a => q.bind fun b => pure (a, b)

/-- The same reader `n` times. -/
def times (r : Reader α) : Nat → Reader (List α)
  | 0 => pure []
  | n + 1 => r.bind fun a => (times r n).bind fun as => pure (a :: as)

/-- A blob behind its `w`-byte length. -/
def blob (w : Nat) : Reader Bytes := (be w).bind take

/-- A list behind its `w`-byte element count. -/
def counted (w : Nat) (r : Reader α) : Reader (List α) := (be w).bind (times r)

theorem bind_eq_some {r : Reader α} {f : α → Reader β} {input : Bytes} {out : β × Bytes} :
    r.bind f input = some out ↔ ∃ a rest, r input = some (a, rest) ∧ f a rest = some out := by
  unfold bind
  cases h : r input with
  | none => simp
  | some ar =>
    obtain ⟨a, rest⟩ := ar
    simp

theorem bind_of_some {r : Reader α} {f : α → Reader β} {input rest : Bytes} {a : α}
    (h : r input = some (a, rest)) : r.bind f input = f a rest := by
  simp only [bind, h]

end Reader

/-! ## Exactness -/

/-- `r` is the exact inverse of the writer `w` on the domain `D`. -/
structure Exact {α : Type} (w : α → Bytes) (D : α → Prop) (r : Reader α) : Prop where
  complete : ∀ a rest, D a → r (w a ++ rest) = some (a, rest)
  sound : ∀ input a rest, r input = some (a, rest) → D a ∧ input = w a ++ rest

namespace Exact

variable {α β : Type} {w : α → Bytes} {D : α → Prop} {r : Reader α}
  {v : β → Bytes} {E : β → Prop} {q : Reader β}

theorem byte : Exact (fun b => [b]) (fun _ => True) Reader.byte where
  complete := fun _ _ _ => rfl
  sound := by
    intro input a rest h
    cases input with
    | nil => cases h
    | cons b bs =>
      cases h
      exact ⟨trivial, rfl⟩

theorem take (n : Nat) : Exact (fun bs : Bytes => bs) (fun bs => bs.length = n) (Reader.take n) where
  complete := by
    intro bs rest hlen
    subst hlen
    simp [Reader.take]
  sound := by
    intro input bs rest h
    unfold Reader.take at h
    split at h
    · rename_i hle
      cases h
      exact ⟨by simpa using hle, (List.take_append_drop n input).symm⟩
    · cases h

/-- An image of an exact reader, when the map carries one domain and writer onto the other. -/
theorem map {f : α → β} (hr : Exact w D r) (hw : ∀ a, D a → v (f a) = w a)
    (hD : ∀ a, D a → E (f a)) (hE : ∀ b, E b → ∃ a, D a ∧ f a = b) :
    Exact v E (Reader.map f r) where
  complete := by
    intro b rest hb
    obtain ⟨a, ha, rfl⟩ := hE b hb
    rw [hw a ha]
    exact Reader.bind_of_some (hr.complete a rest ha)
  sound := by
    intro input b rest h
    obtain ⟨a, rest', hread, hret⟩ := Reader.bind_eq_some.mp h
    cases hret
    obtain ⟨ha, hin⟩ := hr.sound _ _ _ hread
    exact ⟨hD a ha, by rw [hw a ha, hin]⟩

theorem prod (hr : Exact w D r) (hq : Exact v E q) :
    Exact (fun p : α × β => w p.1 ++ v p.2) (fun p => D p.1 ∧ E p.2) (r.prod q) where
  complete := by
    rintro ⟨a, b⟩ rest ⟨ha, hb⟩
    rw [List.append_assoc, Reader.prod, Reader.bind_of_some (hr.complete a _ ha),
      Reader.bind_of_some (hq.complete b rest hb)]
    rfl
  sound := by
    rintro input ⟨a, b⟩ rest h
    obtain ⟨a', rest₁, hread, h⟩ := Reader.bind_eq_some.mp h
    obtain ⟨b', rest₂, hread', hret⟩ := Reader.bind_eq_some.mp h
    cases hret
    obtain ⟨ha, hin⟩ := hr.sound _ _ _ hread
    obtain ⟨hb, hin'⟩ := hq.sound _ _ _ hread'
    exact ⟨⟨ha, hb⟩, by rw [hin, hin', List.append_assoc]⟩

/-- A value-dependent second part: the first part is recovered from the whole by `π`. -/
theorem bind {f : α → Reader β} {π : β → α} (hr : Exact w D r)
    (hf : ∀ a, D a → Exact v (fun b => E b ∧ π b = a) (f a)) (hπ : ∀ b, E b → D (π b)) :
    Exact (fun b => w (π b) ++ v b) E (r.bind f) where
  complete := by
    intro b rest hb
    rw [List.append_assoc, Reader.bind_of_some (hr.complete (π b) _ (hπ b hb))]
    exact (hf (π b) (hπ b hb)).complete b rest ⟨hb, rfl⟩
  sound := by
    intro input b rest h
    obtain ⟨a, rest', hread, h⟩ := Reader.bind_eq_some.mp h
    obtain ⟨ha, hin⟩ := hr.sound _ _ _ hread
    obtain ⟨⟨hb, hπb⟩, hin'⟩ := (hf a ha).sound _ _ _ h
    exact ⟨hb, by rw [hin, hin', hπb, List.append_assoc]⟩

/-- The `w`-byte big-endian naturals are exactly those below `256 ^ w`. -/
theorem be (n : Nat) : Exact (beBytes n) (· < 256 ^ n) (Reader.be n) := by
  refine (take n).map (f := beNat 0) ?_ ?_ ?_
  · rintro bs rfl
    simpa using beBytes_beNat bs 0
  · rintro bs rfl
    exact beNat_lt bs
  · intro v hv
    exact ⟨beBytes n v, beBytes_length n v, by rw [beNat_beBytes, Nat.mod_eq_of_lt hv]⟩

/-- **A length-prefixed blob.** -/
theorem blob (n : Nat) :
    Exact (fun bs : Bytes => beBytes n bs.length ++ bs) (fun bs => bs.length < 256 ^ n)
      (Reader.blob n) := by
  refine (be n).bind (π := List.length) ?_ (fun _ h => h)
  intro len hlen
  refine ⟨fun bs rest h => (take len).complete bs rest h.2, ?_⟩
  intro input bs rest h
  obtain ⟨hl, hin⟩ := (take len).sound input bs rest h
  exact ⟨⟨by rw [hl]; exact hlen, hl⟩, hin⟩

theorem times (hr : Exact w D r) (n : Nat) :
    Exact (fun as : List α => as.flatMap w) (fun as => (∀ a ∈ as, D a) ∧ as.length = n)
      (r.times n) := by
  induction n with
  | zero =>
    refine ⟨?_, ?_⟩
    · rintro as rest ⟨-, hlen⟩
      obtain rfl := List.length_eq_zero_iff.mp hlen
      rfl
    · intro input as rest h
      cases h
      exact ⟨⟨by simp, rfl⟩, rfl⟩
  | succ n ih =>
    refine ⟨?_, ?_⟩
    · rintro as rest ⟨has, hlen⟩
      obtain ⟨a, as, rfl⟩ := List.exists_cons_of_length_eq_add_one hlen
      rw [List.flatMap_cons, List.append_assoc, Reader.times,
        Reader.bind_of_some (hr.complete a _ (has a (by simp))),
        Reader.bind_of_some (ih.complete as rest
          ⟨fun x hx => has x (List.mem_cons_of_mem a hx), by simpa using hlen⟩)]
      rfl
    · intro input as rest h
      obtain ⟨a, rest₁, hread, h⟩ := Reader.bind_eq_some.mp h
      obtain ⟨as', rest₂, hread', hret⟩ := Reader.bind_eq_some.mp h
      cases hret
      obtain ⟨ha, hin⟩ := hr.sound _ _ _ hread
      obtain ⟨⟨has, hlen⟩, hin'⟩ := ih.sound _ _ _ hread'
      refine ⟨⟨?_, by simp [hlen]⟩, ?_⟩
      · simpa using ⟨ha, has⟩
      · rw [hin, hin', List.flatMap_cons, List.append_assoc]

/-- **A counted list.** -/
theorem counted (n : Nat) (hr : Exact w D r) :
    Exact (fun as : List α => beBytes n as.length ++ as.flatMap w)
      (fun as => (∀ a ∈ as, D a) ∧ as.length < 256 ^ n) (Reader.counted n r) := by
  refine (be n).bind (π := List.length) ?_ (fun _ h => h.2)
  intro len hlen
  refine ⟨fun as rest h => (hr.times len).complete as rest ⟨h.1.1, h.2⟩, ?_⟩
  intro input as rest h
  obtain ⟨⟨has, hl⟩, hin⟩ := (hr.times len).sound input as rest h
  exact ⟨⟨⟨has, by rw [hl]; exact hlen⟩, hl⟩, hin⟩

/-- An exact reader leaves strictly less input when its writer never writes nothing. -/
theorem shorter (hr : Exact w D r) (hne : ∀ a, w a ≠ []) {input rest : Bytes} {a : α}
    (h : r input = some (a, rest)) : rest.length < input.length := by
  obtain ⟨-, rfl⟩ := hr.sound _ _ _ h
  have := List.length_pos_iff.mpr (hne a)
  simp only [List.length_append]
  omega

end Exact

end KernelCache.Foundation
