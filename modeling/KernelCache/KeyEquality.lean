/-
# KernelCache.KeyEquality — what `operator==` and `hash()` say about two keys.

Both finalize a key that is not finalized, without asking whether that succeeds, and go on with the
digest it has.  A key that `finalize()` rejects has the digest it had before: none, all zeros, when it was
never accepted.  So all rejected keys are equal to one another, whatever their fields are, and they all
fall on one entry of the key index and of the in-flight map.

`key_equality_iff` says when equality is equality of content: when the two keys are not both rejected,
or agree anyway, and the counts of their lists were not cut off at 32 bits.
-/
import KernelCache.ExactHit

namespace KernelCache

open Foundation (Bytes)

namespace KernelCompatibilityKey

/-! ## Keys as they come -/

/-- The keys there are when no field is changed behind a `finalize()` that succeeded: keys whose fields
are filled in, and `finalize()` called any number of times. -/
inductive Kept : KernelCompatibilityKey → Prop
  | fresh (f : KeyFields) : Kept { toKeyFields := f }
  | assign {k : KernelCompatibilityKey} (h : Kept k) (f : KeyFields) (hopen : k.finalized = false) :
      Kept { k with toKeyFields := f }
  | finalize {k : KernelCompatibilityKey} (h : Kept k) : Kept k.finalize

/-- The digest of the content of a key, and no digest when `finalize()` rejects it. -/
def contentDigest (k : KernelCompatibilityKey) : Sha256Digest :=
  if k.wellFormed then Sha256.digest k.toKeyFields.sorted.encode else Sha256Digest.zero

theorem contentDigest_of_wellFormed {k : KernelCompatibilityKey} (h : k.wellFormed = true) :
    k.contentDigest = Sha256.digest k.toKeyFields.sorted.encode := if_pos h

theorem contentDigest_of_malformed {k : KernelCompatibilityKey} (h : k.wellFormed = false) :
    k.contentDigest = Sha256Digest.zero := by
  unfold contentDigest
  rw [h]
  rfl

/-- Finalizing a key is no change to its content. -/
theorem contentDigest_finalize (k : KernelCompatibilityKey) :
    k.finalize.contentDigest = k.contentDigest := by
  unfold contentDigest
  rw [finalize_toKeyFields, KeyFields.sorted_wellFormed, KeyFields.sorted_sorted]

/-- What is stored with a key: the digest of its content once it is finalized, none before. -/
theorem Kept.stored {k : KernelCompatibilityKey} (h : k.Kept) :
    k.digest = if k.finalized then k.contentDigest else Sha256Digest.zero := by
  induction h with
  | fresh f => exact (if_neg Bool.false_ne_true).symm
  | assign h f hopen ih =>
    rw [hopen, if_neg Bool.false_ne_true] at ih
    rw [hopen, if_neg Bool.false_ne_true]
    exact ih
  | @finalize k h ih =>
    cases hwf : k.wellFormed with
    | true =>
      rw [contentDigest_finalize, contentDigest_of_wellFormed hwf, finalize_of_wellFormed hwf]
      exact (if_pos rfl).symm
    | false =>
      have hstored : k.digest = Sha256Digest.zero := by
        rw [ih, contentDigest_of_malformed hwf, ite_self]
      rw [finalize_of_malformed hwf]
      exact hstored.trans (if_neg Bool.false_ne_true).symm

/-- **What is compared.** The digest of the content, or no digest. -/
theorem Kept.compared {k : KernelCompatibilityKey} (h : k.Kept) :
    k.ensureFinalized.digest = k.contentDigest := by
  unfold ensureFinalized
  split
  · rename_i hfinalized
    rw [h.stored, if_pos hfinalized]
  · have hstored := h.finalize.stored
    rw [finalize_finalized, contentDigest_finalize] at hstored
    rw [hstored]
    split
    · rfl
    · rename_i hwf
      exact (contentDigest_of_malformed (by simpa using hwf)).symm

theorem Kept.eqv_iff {a b : KernelCompatibilityKey} (ha : a.Kept) (hb : b.Kept) :
    a.eqv b = true ↔ a.contentDigest = b.contentDigest := by
  rw [eqv, beq_iff_eq, ha.compared, hb.compared]

/-- Keys that are equal have one hash. -/
theorem hash_of_eqv {a b : KernelCompatibilityKey} (h : a.eqv b = true) : a.hash = b.hash := by
  unfold hash
  rw [eq_of_beq h]

/-! ## Equality and content -/

/-- A key that `finalize()` rejects is told apart from the other: both are rejected only if they agree in
every field, and an accepted key has a digest that is not all zeros. -/
structure ToldApart (a b : KernelCompatibilityKey) : Prop where
  rejected : a.wellFormed = false → b.wellFormed = false → a.toKeyFields.sorted = b.toKeyFields.sorted
  left : a.wellFormed = true → b.wellFormed = false →
    Sha256.digest a.toKeyFields.sorted.encode ≠ Sha256Digest.zero
  right : a.wellFormed = false → b.wellFormed = true →
    Sha256.digest b.toKeyFields.sorted.encode ≠ Sha256Digest.zero

/-- Two accepted keys with one encoding agree in every field. -/
def Decipherable (a b : KernelCompatibilityKey) : Prop :=
  a.wellFormed = true → b.wellFormed = true →
    a.toKeyFields.sorted.encode = b.toKeyFields.sorted.encode → a.toKeyFields.sorted = b.toKeyFields.sorted

/-- Keys whose lists fit their 32-bit counters are decipherable. -/
theorem decipherable_of_sized {a b : KernelCompatibilityKey} (hsa : a.toKeyFields.Sized)
    (hsb : b.toKeyFields.Sized) : a.Decipherable b := by
  intro hwa hwb hencode
  refine sorted_eq_of_canonical_eq hwa hsa hwb hsb ?_
  rw [finalize_of_wellFormed hwa, finalize_of_wellFormed hwb]
  exact hencode

/-- Keys that compare equal agree in every encoded field, and have one hash. -/
def EqualByContent (a b : KernelCompatibilityKey) : Prop :=
  a.eqv b = true → a.toKeyFields.sorted = b.toKeyFields.sorted ∧ a.hash = b.hash

theorem ToldApart.equalByContent {a b : KernelCompatibilityKey} (h : a.ToldApart b) (ha : a.Kept)
    (hb : b.Kept) (hd : a.Decipherable b)
    (hcol : ¬ Sha256.Collides a.toKeyFields.sorted.encode b.toKeyFields.sorted.encode) :
    a.EqualByContent b := by
  intro heq
  refine ⟨?_, hash_of_eqv heq⟩
  have hdigest := (ha.eqv_iff hb).mp heq
  cases hwa : a.wellFormed with
  | true =>
    rw [contentDigest_of_wellFormed hwa] at hdigest
    cases hwb : b.wellFormed with
    | true =>
      rw [contentDigest_of_wellFormed hwb] at hdigest
      refine hd hwa hwb ?_
      by_contra hne
      exact hcol ⟨hne, hdigest⟩
    | false =>
      rw [contentDigest_of_malformed hwb] at hdigest
      exact absurd hdigest (h.left hwa hwb)
  | false =>
    rw [contentDigest_of_malformed hwa] at hdigest
    cases hwb : b.wellFormed with
    | true =>
      rw [contentDigest_of_wellFormed hwb] at hdigest
      exact absurd hdigest.symm (h.right hwa hwb)
    | false => exact h.rejected hwa hwb

theorem EqualByContent.toldApart {a b : KernelCompatibilityKey} (h : a.EqualByContent b) (ha : a.Kept)
    (hb : b.Kept) : a.ToldApart b := by
  -- keys with one digest agree, so they are accepted both or neither
  have hsame : a.contentDigest = b.contentDigest → a.toKeyFields.sorted = b.toKeyFields.sorted :=
    fun hdigest => (h ((ha.eqv_iff hb).mpr hdigest)).1
  have hverdict : a.contentDigest = b.contentDigest → a.wellFormed = b.wellFormed := by
    intro hdigest
    rw [← a.toKeyFields.sorted_wellFormed, hsame hdigest, KeyFields.sorted_wellFormed]
  refine ⟨fun hwa hwb => hsame ?_, fun hwa hwb hzero => ?_, fun hwa hwb hzero => ?_⟩
  · rw [contentDigest_of_malformed hwa, contentDigest_of_malformed hwb]
  · have hv := hverdict (by rw [contentDigest_of_wellFormed hwa, contentDigest_of_malformed hwb, hzero])
    rw [hwa, hwb] at hv
    cases hv
  · have hv := hverdict (by rw [contentDigest_of_malformed hwa, contentDigest_of_wellFormed hwb, hzero])
    rw [hwa, hwb] at hv
    cases hv

theorem EqualByContent.decipherable {a b : KernelCompatibilityKey} (h : a.EqualByContent b) (ha : a.Kept)
    (hb : b.Kept) : a.Decipherable b := by
  intro hwa hwb hencode
  refine (h ((ha.eqv_iff hb).mpr ?_)).1
  rw [contentDigest_of_wellFormed hwa, contentDigest_of_wellFormed hwb, hencode]

end KernelCompatibilityKey

/-- **When equality is equality of content.** Exactly when a rejected key is told apart and accepted keys
are decipherable, as all keys are whose lists fit their counters. -/
theorem key_equality_iff {a b : KernelCompatibilityKey} (ha : a.Kept) (hb : b.Kept)
    (hcol : ¬ Sha256.Collides a.toKeyFields.sorted.encode b.toKeyFields.sorted.encode) :
    (a.EqualByContent b ↔ a.ToldApart b ∧ a.Decipherable b) ∧
      (a.toKeyFields.Sized → b.toKeyFields.Sized → (a.EqualByContent b ↔ a.ToldApart b)) := by
  have hiff : a.EqualByContent b ↔ a.ToldApart b ∧ a.Decipherable b :=
    ⟨fun h => ⟨h.toldApart ha hb, h.decipherable ha hb⟩, fun h => h.1.equalByContent ha hb h.2 hcol⟩
  refine ⟨hiff, fun hsa hsb => hiff.trans ⟨And.left, fun h => ⟨h, ?_⟩⟩⟩
  exact KernelCompatibilityKey.decipherable_of_sized hsa hsb

/-- A key with two flags, and the same flags in the other order, finalized: they compare equal, and agree. -/
theorem key_equality_iff_sample :
    (flagsKey [str "b", str "a"]).eqv (flagsKey [str "a", str "b"]).finalize = true ∧
    (flagsKey [str "b", str "a"]).EqualByContent (flagsKey [str "a", str "b"]).finalize := by
  have hkept : ∀ flags, (flagsKey flags).Kept := fun flags => .fresh (flagsKey flags).toKeyFields
  have hfields : (flagsKey [str "a", str "b"]).finalize.toKeyFields =
      (flagsKey [str "a", str "b"]).toKeyFields.sorted :=
    KernelCompatibilityKey.finalize_toKeyFields _
  have hsame : (flagsKey [str "b", str "a"]).toKeyFields.sorted =
      (flagsKey [str "a", str "b"]).finalize.toKeyFields.sorted := by
    rw [hfields, KeyFields.sorted_sorted, flagsKey_sorted]
  have hsized : (flagsKey [str "a", str "b"]).finalize.toKeyFields.Sized := by
    rw [hfields]
    exact KeyFields.sorted_sized (flagsKey_sized flags_sized.2)
  have haccepted : (flagsKey [str "b", str "a"]).wellFormed = true ∧
      (flagsKey [str "a", str "b"]).finalize.wellFormed = true := by
    refine ⟨by decide, ?_⟩
    rw [hfields]
    decide
  constructor
  · refine ((hkept _).eqv_iff (hkept _).finalize).mpr ?_
    rw [KernelCompatibilityKey.contentDigest_of_wellFormed haccepted.1,
      KernelCompatibilityKey.contentDigest_of_wellFormed haccepted.2, hsame]
  · refine ((key_equality_iff (hkept _) (hkept _).finalize ?_).2 (flagsKey_sized flags_sized.1)
      hsized).mpr ⟨?_, ?_, ?_⟩
    · exact fun h => h.1 (congrArg KeyFields.encode hsame)
    · exact fun _ _ => hsame
    · intro _ hbad
      rw [haccepted.2] at hbad
      cases hbad
    · intro hbad
      rw [haccepted.1] at hbad
      cases hbad

def Datatype.f64 : Datatype := ⟨13⟩

/-- A key with a datatype and no layout. -/
def mixedKey (d : Datatype) : KernelCompatibilityKey := { dtypes := [d] }

theorem mixedKey_digest_ne : Sha256.digest (mixedKey .f32).toKeyFields.sorted.encode ≠
    Sha256.digest (mixedKey .f64).toKeyFields.sorted.encode := by decide +kernel

theorem mixedKey_apart : ¬ Sha256.Collides (mixedKey .f32).toKeyFields.sorted.encode
    (mixedKey .f64).toKeyFields.sorted.encode := fun h => mixedKey_digest_ne h.2

/-- **Rejected keys are equal.** Two keys, each with one datatype and no layout, compare equal, and their
datatypes differ. -/
theorem rejected_keys_equal : ¬ ∀ a b : KernelCompatibilityKey, a.Kept → b.Kept →
    ¬ Sha256.Collides a.toKeyFields.sorted.encode b.toKeyFields.sorted.encode →
    (a.eqv b = true → a.toKeyFields.sorted = b.toKeyFields.sorted ∧ a.hash = b.hash) := by
  intro h
  have hkept : ∀ d, (mixedKey d).Kept := fun d => .fresh (mixedKey d).toKeyFields
  have hcol := mixedKey_apart
  have heq : (mixedKey .f32).eqv (mixedKey .f64) = true := by
    rw [(hkept _).eqv_iff (hkept _), KernelCompatibilityKey.contentDigest_of_malformed rfl,
      KernelCompatibilityKey.contentDigest_of_malformed rfl]
  have hfields := (h _ _ (hkept _) (hkept _) hcol heq).1
  exact absurd (congrArg KeyFields.dtypes hfields) (by decide)

end KernelCache
