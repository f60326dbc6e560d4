/-
# KernelCache.Foundation.Layout — how far a reader reads, told from the input alone.

A payload is a list of fields: some of a fixed width, some behind an eight-byte length.  `extent`
walks such a layout over an input and adds up the bytes its fields claim, whether or not the input has
them.  `Laid` says that a reader succeeds on the inputs that have them, and leaves what is behind.

For an exact reader this settles strictness: what has been read writes back to the whole input if and
only if the input ends where the layout does (`Laid.strict_iff`).
-/
import KernelCache.Foundation.Filling

namespace KernelCache.Foundation

variable {α β σ : Type}

/-! ## Layouts -/

inductive Field where
  | fixed (width : Nat)
  | sized
  deriving DecidableEq

/-- The bytes a field claims at the beginning of an input. -/
def Field.extent : Field → Bytes → Nat
  | .fixed width, _ => width
  | .sized, input => 8 + beNat 0 (input.take 8)

/-- The bytes that fields one after the other claim. -/
def extent : List Field → Bytes → Nat
  | [], _ => 0
  | f :: fs, input => f.extent input + extent fs (input.drop (f.extent input))

theorem extent_append (fs gs : List Field) (input : Bytes) :
    extent (fs ++ gs) input = extent fs input + extent gs (input.drop (extent fs input)) := by
  induction fs generalizing input with
  | nil => simp [extent]
  | cons f fs ih =>
    rw [List.cons_append, extent, extent, ih, List.drop_drop, Nat.add_assoc]

/-- The reader takes what the layout claims, if the input has it. -/
def Laid (fs : List Field) (r : Reader α) : Prop :=
  ∀ input, (r input).map Prod.snd =
    if extent fs input ≤ input.length then some (input.drop (extent fs input)) else none

namespace Laid

variable {fs gs : List Field} {r : Reader α} {q : Reader β}

theorem fixed {n : Nat} (h : Reader.Fixed n r) : Laid [.fixed n] r := h

theorem blob : Laid [.sized] (Reader.blob 8) := by
  intro input
  have hextent : extent [.sized] input = 8 + beNat 0 (input.take 8) := rfl
  rw [hextent]
  by_cases hlen : 8 ≤ input.length
  · have hbe : Reader.be 8 input = some (beNat 0 (input.take 8), input.drop 8) :=
      Reader.bind_of_some (if_pos hlen)
    have hblob : Reader.blob 8 input = Reader.take (beNat 0 (input.take 8)) (input.drop 8) :=
      Reader.bind_of_some hbe
    rw [hblob, Reader.Fixed.take _ (input.drop 8), List.length_drop, List.drop_drop]
    by_cases hrest : 8 + beNat 0 (input.take 8) ≤ input.length
    · rw [if_pos hrest, if_pos (by omega)]
    · rw [if_neg hrest, if_neg (by omega)]
  · have hnone : Reader.blob 8 input = none := by
      unfold Reader.blob Reader.bind
      rw [(Reader.Fixed.be 8).none_iff.mpr (by omega)]
    rw [hnone, if_neg (by omega)]
    rfl

theorem none_iff (h : Laid fs r) {input : Bytes} :
    r input = none ↔ input.length < extent fs input := by
  have hlaid := h input
  constructor
  · intro hnone
    rw [hnone] at hlaid
    split at hlaid
    · cases hlaid
    · omega
  · intro hlt
    rw [if_neg (by omega)] at hlaid
    exact Option.map_eq_none_iff.mp hlaid

theorem rest (h : Laid fs r) {input left : Bytes} {a : α} (hread : r input = some (a, left)) :
    extent fs input ≤ input.length ∧ left = input.drop (extent fs input) := by
  have hlaid := h input
  rw [hread] at hlaid
  split at hlaid
  · rename_i hle
    exact ⟨hle, Option.some.inj hlaid⟩
  · cases hlaid

theorem prod (h : Laid fs r) (h' : Laid gs q) : Laid (fs ++ gs) (r.prod q) := by
  intro input
  rw [extent_append]
  cases hread : r input with
  | none =>
    have hlt := h.none_iff.mp hread
    have hnone : r.prod q input = none := by
      simp only [Reader.prod, Reader.bind, hread]
    rw [hnone, if_neg (by omega)]
    rfl
  | some out =>
    obtain ⟨a, left⟩ := out
    obtain ⟨hle, rfl⟩ := h.rest hread
    have hsnd : (r.prod q input).map Prod.snd =
        (q (input.drop (extent fs input))).map Prod.snd := by
      simp only [Reader.prod, Reader.bind, hread]
      cases q (input.drop (extent fs input)) with
      | none => rfl
      | some out => rfl
    rw [hsnd, h' _, List.length_drop, List.drop_drop]
    by_cases hmore : extent fs input + extent gs (input.drop (extent fs input)) ≤ input.length
    · rw [if_pos hmore, if_pos (by omega)]
    · rw [if_neg hmore, if_neg (by omega)]

/-- **Strictness of an exact reader.** What it read writes back to its whole input exactly when the
input does not go on behind the layout. -/
theorem strict_iff {w : α → Bytes} {D : α → Prop} (h : Laid fs r) (hexact : Exact w D r)
    (input : Bytes) :
    (∀ a left, r input = some (a, left) → w a = input) ↔ input.length ≤ extent fs input := by
  cases hread : r input with
  | none =>
    have hlt := h.none_iff.mp hread
    refine iff_of_true ?_ (by omega)
    rintro a left ⟨⟩
  | some out =>
    obtain ⟨a, left⟩ := out
    obtain ⟨hle, hleft⟩ := h.rest hread
    obtain ⟨-, hin⟩ := hexact.sound input a left hread
    have hwritten : w a = input ↔ left = [] := by
      constructor
      · intro hw
        rw [hw] at hin
        exact List.self_eq_append_right.mp hin
      · rintro rfl
        rw [hin, List.append_nil]
    have hended : left = [] ↔ input.length ≤ extent fs input := by
      rw [hleft, List.drop_eq_nil_iff]
    constructor
    · intro hstrict
      exact hended.mp (hwritten.mp (hstrict a left rfl))
    · rintro hlen a' left' ⟨⟩
      exact hwritten.mpr (hended.mpr hlen)

end Laid

/-- The same reader under another description of its writer and of its domain. -/
theorem Exact.congr {w v : α → Bytes} {D E : α → Prop} {r : Reader α} (h : Exact w D r)
    (hw : ∀ a, v a = w a) (hD : ∀ a, D a ↔ E a) : Exact v E r where
  complete a rest ha := by
    rw [hw]
    exact h.complete a rest ((hD a).mpr ha)
  sound input a rest hread := by
    obtain ⟨ha, hin⟩ := h.sound input a rest hread
    exact ⟨(hD a).mp ha, by rw [hw, hin]⟩

/-! ## Fills -/

/-- The same of a fill that reads `r`: the record it leaves writes back to the input exactly when the
input does not go on behind the layout. -/
theorem Fill.Reads.strict_iff {f : Fill σ} {r : Reader α} {set : α → σ → σ} {fs : List Field}
    {w : α → Bytes} {D : α → Prop} {v : σ → Bytes} (hf : f.Reads r set) (hlaid : Laid fs r)
    (hexact : Exact w D r) (hv : ∀ a s, v (set a s) = w a) (input : Bytes) (s : σ) :
    (∀ left s', f input s = (some left, s') → v s' = input) ↔ input.length ≤ extent fs input := by
  rw [← hlaid.strict_iff hexact input]
  constructor
  · intro h a left hread
    rw [← hv a s]
    exact h left (set a s) (hf.through input s a left hread)
  · intro h left s' hfill
    obtain ⟨a, hread, rfl⟩ := hf.of_some hfill
    rw [hv]
    exact h a left hread

end KernelCache.Foundation
