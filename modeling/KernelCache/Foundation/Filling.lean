/-
# KernelCache.Foundation.Filling — decoders that fill a record in place.

A decoder with output parameters writes each of them as soon as it has been read.  When the input ends
in the middle it reports failure, and what it has written so far stays written.  `Fill` keeps both:
the unread input, if there is any answer, and the record in every case.

Two facts about a fill compose.  `Reads` says that it succeeds where a reader does, and what it has
written then; `Leaves` says what part of the record it never writes.  Readers of a fixed width
(`Reader.Fixed`) tell from the length of the input alone how far a fill gets.
-/
import KernelCache.Foundation.Wire

namespace KernelCache.Foundation

variable {α β γ σ : Type}

/-! ## Readers of a fixed width -/

namespace Reader

/-- The reader takes `n` bytes, whatever they are. -/
def Fixed (n : Nat) (r : Reader α) : Prop :=
  ∀ input, (r input).map Prod.snd = if n ≤ input.length then some (input.drop n) else none

theorem Fixed.take (n : Nat) : Fixed n (take n) := by
  intro input
  unfold Reader.take
  split <;> rfl

theorem Fixed.byte : Fixed 1 byte := by
  intro input
  cases input with
  | nil => rfl
  | cons b bs => simp [Reader.byte]

theorem Fixed.map {n : Nat} {r : Reader α} (h : Fixed n r) (f : α → β) : Fixed n (map f r) := by
  intro input
  rw [← h input]
  unfold Reader.map Reader.bind
  cases r input with
  | none => rfl
  | some out => rfl

theorem Fixed.be (n : Nat) : Fixed n (be n) := (Fixed.take n).map _

theorem Fixed.none_iff {n : Nat} {r : Reader α} (h : Fixed n r) {input : Bytes} :
    r input = none ↔ input.length < n := by
  have hlen := h input
  constructor
  · intro hnone
    rw [hnone] at hlen
    split at hlen
    · cases hlen
    · omega
  · intro hlt
    rw [if_neg (by omega)] at hlen
    exact Option.map_eq_none_iff.mp hlen

theorem Fixed.rest {n : Nat} {r : Reader α} (h : Fixed n r) {input rest : Bytes} {a : α}
    (hread : r input = some (a, rest)) : n ≤ input.length ∧ rest = input.drop n := by
  have hlen := h input
  rw [hread] at hlen
  split at hlen
  · rename_i hle
    exact ⟨hle, Option.some.inj hlen⟩
  · cases hlen

theorem Fixed.prod {n m : Nat} {r : Reader α} {q : Reader β} (h : Fixed n r) (h' : Fixed m q) :
    Fixed (n + m) (r.prod q) := by
  intro input
  cases hread : r input with
  | none =>
    have hlt := h.none_iff.mp hread
    rw [if_neg (by omega)]
    simp only [Reader.prod, Reader.bind, hread, Option.map_none]
  | some out =>
    obtain ⟨a, rest⟩ := out
    obtain ⟨hle, rfl⟩ := h.rest hread
    have hsnd : (r.prod q input).map Prod.snd = (q (input.drop n)).map Prod.snd := by
      simp only [Reader.prod, Reader.bind, hread]
      cases q (input.drop n) with
      | none => rfl
      | some out => rfl
    rw [hsnd, h' (input.drop n), List.length_drop, List.drop_drop]
    by_cases hm : n + m ≤ input.length
    · rw [if_pos hm, if_pos (by omega)]
    · rw [if_neg hm, if_neg (by omega)]

/-- Behind a reader of a fixed width. -/
theorem Fixed.prod_isSome {n : Nat} {r : Reader α} (h : Fixed n r) (q : Reader β) (input : Bytes) :
    (r.prod q input).isSome = true ↔ n ≤ input.length ∧ (q (input.drop n)).isSome = true := by
  cases hread : r input with
  | none =>
    have hlt := h.none_iff.mp hread
    have hnone : r.prod q input = none := by simp only [Reader.prod, Reader.bind, hread]
    rw [hnone]
    exact iff_of_false Bool.false_ne_true fun hle => absurd hle.1 (by omega)
  | some out =>
    obtain ⟨a, rest⟩ := out
    obtain ⟨hle, rfl⟩ := h.rest hread
    simp only [Reader.prod, Reader.bind, hread, hle, true_and]
    cases q (input.drop n) with
    | none => rfl
    | some out => rfl

/-- What is behind a length is there or not. -/
theorem blob_isSome (w : Nat) (input : Bytes) : (blob w input).isSome = true ↔
    w ≤ input.length ∧ beNat 0 (input.take w) ≤ input.length - w := by
  by_cases hw : w ≤ input.length
  · have htake : Reader.take w input = some (input.take w, input.drop w) := if_pos hw
    have hbe : Reader.be w input = some (beNat 0 (input.take w), input.drop w) :=
      Reader.bind_of_some htake
    have hblob : blob w input = Reader.take (beNat 0 (input.take w)) (input.drop w) :=
      Reader.bind_of_some hbe
    rw [hblob]
    unfold Reader.take
    rw [List.length_drop]
    split
    · rename_i hle
      exact iff_of_true rfl ⟨hw, hle⟩
    · rename_i hlt
      exact iff_of_false Bool.false_ne_true fun h => hlt h.2
  · have hnone : Reader.be w input = none := (Fixed.be w).none_iff.mpr (by omega)
    have hblob : blob w input = none := by
      unfold blob Reader.bind
      rw [hnone]
    rw [hblob]
    exact iff_of_false Bool.false_ne_true fun h => hw h.1

end Reader

/-! ## Fills -/

/-- Read, and write what has been read into a record: the unread input, unless the input ended, and
the record as it is then. -/
def Fill (σ : Type) := Bytes → σ → Option Bytes × σ

namespace Fill

/-- One field: it is written when all of it has been read. -/
def field (r : Reader α) (set : α → σ → σ) : Fill σ := fun input s =>
  match r input with
  | some (a, rest) => (some rest, set a s)
  | none => (none, s)

/-- One fill after the other, if the first one gets through. -/
def andThen (f g : Fill σ) : Fill σ := fun input s =>
  match f input s with
  | (some rest, s') => g rest s'
  | (none, s') => (none, s')

theorem andThen_assoc (f g h : Fill σ) : (f.andThen g).andThen h = f.andThen (g.andThen h) := by
  funext input s
  unfold andThen
  generalize f input s = out
  obtain ⟨_ | rest, s'⟩ := out
  · rfl
  · rfl

/-- The fill gets through where `r` does, and has then written what `r` reads. -/
structure Reads (f : Fill σ) (r : Reader α) (set : α → σ → σ) : Prop where
  through : ∀ input s a rest, r input = some (a, rest) → f input s = (some rest, set a s)
  stuck : ∀ input s, r input = none → (f input s).1 = none

theorem field_reads (r : Reader α) (set : α → σ → σ) : (field r set).Reads r set where
  through input s a rest h := by
    simp only [field, h]
  stuck input s h := by
    simp only [field, h]

/-- A fill that got through has read something and written it. -/
theorem Reads.of_some {f : Fill σ} {r : Reader α} {set : α → σ → σ} (h : f.Reads r set)
    {input rest : Bytes} {s s' : σ} (hf : f input s = (some rest, s')) :
    ∃ a, r input = some (a, rest) ∧ s' = set a s := by
  cases hread : r input with
  | none =>
    have hstuck := h.stuck input s hread
    rw [hf] at hstuck
    cases hstuck
  | some out =>
    obtain ⟨a, rest'⟩ := out
    have hthrough := h.through input s a rest' hread
    rw [hf] at hthrough
    obtain ⟨hrest, rfl⟩ := Prod.mk.inj hthrough
    obtain rfl := Option.some.inj hrest
    exact ⟨a, rfl, rfl⟩

theorem Reads.andThen {f g : Fill σ} {r : Reader α} {q : Reader β} {set : α → σ → σ}
    {set' : β → σ → σ} (hf : f.Reads r set) (hg : g.Reads q set') :
    (f.andThen g).Reads (r.prod q) (fun p s => set' p.2 (set p.1 s)) where
  through input s p rest h := by
    obtain ⟨a, rest₁, hread, hmore⟩ := Reader.bind_eq_some.mp h
    obtain ⟨b, rest₂, hread', hret⟩ := Reader.bind_eq_some.mp hmore
    cases hret
    simp only [Fill.andThen, hf.through input s a rest₁ hread]
    exact hg.through rest₁ (set a s) b rest hread'
  stuck input s h := by
    cases hread : r input with
    | none =>
      have hstuck := hf.stuck input s hread
      unfold Fill.andThen
      generalize f input s = out at hstuck
      obtain ⟨rest, s'⟩ := out
      cases hstuck
      rfl
    | some out =>
      obtain ⟨a, rest⟩ := out
      have hq : q rest = none := by
        simp only [Reader.prod, Reader.bind, hread] at h
        cases hq : q rest with
        | none => rfl
        | some out' =>
          simp only [hq] at h
          cases h
      simp only [Fill.andThen, hf.through input s a rest hread]
      exact hg.stuck rest (set a s) hq

/-- A fill gets through exactly where its reader does. -/
theorem Reads.isSome {f : Fill σ} {r : Reader α} {set : α → σ → σ} (h : f.Reads r set)
    (input : Bytes) (s : σ) : (f input s).1.isSome = (r input).isSome := by
  cases hread : r input with
  | none => rw [h.stuck input s hread]; rfl
  | some out =>
    obtain ⟨a, rest⟩ := out
    rw [h.through input s a rest hread]
    rfl

/-- The fill never writes the part `get` of the record. -/
def Leaves (f : Fill σ) (get : σ → γ) : Prop := ∀ input s, get (f input s).2 = get s

theorem field_leaves {r : Reader α} {set : α → σ → σ} {get : σ → γ}
    (h : ∀ a s, get (set a s) = get s) : (field r set).Leaves get := by
  intro input s
  unfold field
  split
  · exact h _ s
  · rfl

theorem Leaves.andThen {f g : Fill σ} {get : σ → γ} (hf : f.Leaves get) (hg : g.Leaves get) :
    (f.andThen g).Leaves get := by
  intro input s
  have hfirst := hf input s
  unfold Fill.andThen
  generalize f input s = out at hfirst
  obtain ⟨rest, s'⟩ := out
  cases rest with
  | none => exact hfirst
  | some rest => exact (hg rest s').trans hfirst

/-- A part of the record that only the second of two fills writes. -/
theorem andThen_get {f g : Fill σ} {get : σ → γ} {r : Reader α} {set : α → σ → σ}
    (hf : f.Leaves get) (hreads : f.Reads r set) (input : Bytes) (s : σ) :
    get ((f.andThen g) input s).2 =
      match r input with
      | none => get s
      | some (a, rest) => get (g rest (set a s)).2 := by
  have hfirst := hf input s
  cases hread : r input with
  | none =>
    have hstuck := hreads.stuck input s hread
    unfold Fill.andThen
    generalize f input s = out at hfirst hstuck
    obtain ⟨rest, s'⟩ := out
    cases hstuck
    exact hfirst
  | some out =>
    obtain ⟨a, rest⟩ := out
    simp only [Fill.andThen, hreads.through input s a rest hread]

/-- What the fill adds to a measure of the record, it takes from the input. -/
def Draws (f : Fill σ) (size : σ → Nat) : Prop :=
  ∀ input s, size (f input s).2 + ((f input s).1.getD []).length ≤ size s + input.length

theorem field_draws {r : Reader α} {set : α → σ → σ} {size : σ → Nat}
    (h : ∀ a s input rest, r input = some (a, rest) → size (set a s) + rest.length ≤ size s + input.length) :
    (field r set).Draws size := by
  intro input s
  unfold field
  split
  · rename_i a rest hread
    exact h a s input rest hread
  · exact Nat.le_add_right _ _

theorem Draws.andThen {f g : Fill σ} {size : σ → Nat} (hf : f.Draws size) (hg : g.Draws size) :
    (f.andThen g).Draws size := by
  intro input s
  have hfirst := hf input s
  unfold Fill.andThen
  generalize f input s = out at hfirst
  obtain ⟨rest, s'⟩ := out
  cases rest with
  | none => exact hfirst
  | some rest => exact (hg rest s').trans hfirst

end Fill

end KernelCache.Foundation
