/-
# KernelCache.KeyOrder — what the canonical ordering step of `finalize()` canonicalizes.

`finalize()` sorts the codegen flags and the specialization pairs before it encodes them, so that the
order a caller fills them in does not reach the digest.  `std::sort` promises a permutation that the
comparator accepts and nothing about ties.  `StdSort` is that promise; `finalizeBy` is `finalize()` over
any sort that keeps it, and `finalize` of `Key` is the instance with a stable sort.

Flags are compared as a whole, so their sorted order is unique.  Pairs are compared by NAME only: two
entries of one name and different values are a tie, and the order of a tie is encoded.  The encoding
is independent of the order the caller used exactly when no name occurs with two values
(`canonical_permute_iff`).
-/
import KernelCache.KeyCodec
import Mathlib.Data.List.TakeWhile

namespace KernelCache

open Foundation (Bytes beBytes Reader)

/-! ## Sorting -/

/-- What `sort_strings` and `sort_pairs` may rely on. -/
structure StdSort where
  strings : List Str → List Str
  pairs : List (Str × Str) → List (Str × Str)
  strings_perm : ∀ l, (strings l).Perm l
  strings_sorted : ∀ l, (strings l).Pairwise (· ≤ ·)
  pairs_perm : ∀ l, (pairs l).Perm l
  pairs_sorted : ∀ l, (pairs l).Pairwise pairLE

/-- The stable sort of `Key`. -/
def stableSort : StdSort where
  strings := sortStrings
  pairs := sortPairs
  strings_perm l := List.perm_insertionSort _ l
  strings_sorted l := List.pairwise_insertionSort _ l
  pairs_perm l := List.perm_insertionSort _ l
  pairs_sorted l := List.pairwise_insertionSort _ l

/-- A name occurs with one value only. -/
def SingleValued (l : List (Str × Str)) : Prop := ∀ p ∈ l, ∀ q ∈ l, p.1 = q.1 → p.2 = q.2

namespace StdSort

variable (sort : StdSort)

/-- The sorted flags do not depend on the order they came in. -/
theorem strings_eq_of_perm {l l' : List Str} (h : l.Perm l') : sort.strings l = sort.strings l' := by
  refine List.Perm.eq_of_pairwise ?_ (sort.strings_sorted l) (sort.strings_sorted l') ?_
  · intro a b _ _ hab hba
    exact List.le_antisymm hab hba
  · exact (sort.strings_perm l).trans (h.trans (sort.strings_perm l').symm)

/-- Nor do the sorted pairs, when ties are equal. -/
theorem pairs_eq_of_perm {l l' : List (Str × Str)} (h : l.Perm l') (hsingle : SingleValued l) :
    sort.pairs l = sort.pairs l' := by
  refine List.Perm.eq_of_pairwise ?_ (sort.pairs_sorted l) (sort.pairs_sorted l') ?_
  · intro a b ha hb hab hba
    have ha' : a ∈ l := (sort.pairs_perm l).mem_iff.mp ha
    have hb' : b ∈ l := h.mem_iff.mpr ((sort.pairs_perm l').mem_iff.mp hb)
    have hname : a.1 = b.1 := List.le_antisymm hab hba
    exact Prod.ext hname (hsingle a ha' b hb' hname)
  · exact (sort.pairs_perm l).trans (h.trans (sort.pairs_perm l').symm)

end StdSort

/-- A stable sort puts a new head in front of everything of its name. -/
theorem filter_orderedInsert (p : Str × Str) (l : List (Str × Str)) :
    (l.orderedInsert pairLE p).filter (fun x => x.1 == p.1) =
      p :: l.filter (fun x => x.1 == p.1) := by
  have hfront : (l.takeWhile fun x => ¬ pairLE p x).filter (fun x => x.1 == p.1) = [] := by
    refine List.filter_eq_nil_iff.mpr fun x hx hname => ?_
    have hnot := List.mem_takeWhile_imp hx
    refine (of_decide_eq_true hnot) ?_
    show p.1 ≤ x.1
    rw [eq_of_beq hname]
    exact List.le_refl _
  have hsplit : l.filter (fun x => x.1 == p.1) =
      (l.dropWhile fun x => ¬ pairLE p x).filter (fun x => x.1 == p.1) := by
    rw [← List.takeWhile_append_dropWhile (p := fun x => decide ¬ pairLE p x) (l := l),
      List.filter_append, hfront, List.nil_append, List.takeWhile_append_dropWhile]
  rw [List.orderedInsert_eq_take_drop, List.filter_append, hfront, List.nil_append, hsplit]
  exact List.filter_cons_of_pos (by simp)

/-- Two entries of one name keep their order. -/
theorem sortPairs_swap {p q : Str × Str} {l : List (Str × Str)} (hname : p.1 = q.1)
    (h : sortPairs (p :: q :: l) = sortPairs (q :: p :: l)) : p = q := by
  have hfilter := congrArg (List.filter fun x => x.1 == p.1) h
  have hleft : (sortPairs (p :: q :: l)).filter (fun x => x.1 == p.1) =
      p :: (sortPairs (q :: l)).filter (fun x => x.1 == p.1) := filter_orderedInsert p _
  have hright : (sortPairs (q :: p :: l)).filter (fun x => x.1 == q.1) =
      q :: (sortPairs (p :: l)).filter (fun x => x.1 == q.1) := filter_orderedInsert q _
  rw [← hname] at hright
  rw [hleft, hright] at hfilter
  exact (List.cons.inj hfilter).1

/-! ## Finalizing -/

/-- The fields after the canonical ordering step, with any sort. -/
def KeyFields.sortedBy (sort : StdSort) (f : KeyFields) : KeyFields :=
  { f with
    codegenFlags := sort.strings f.codegenFlags
    specialization := sort.pairs f.specialization }

namespace KernelCompatibilityKey

/-- `finalize()` with any sort. -/
def finalizeBy (sort : StdSort) (k : KernelCompatibilityKey) : KernelCompatibilityKey :=
  let f := k.toKeyFields.sortedBy sort
  if f.wellFormed then ⟨f, f.encode, Sha256.digest f.encode, true⟩
  else ⟨f, k.canonical, k.digest, false⟩

theorem finalizeBy_stableSort (k : KernelCompatibilityKey) :
    k.finalizeBy stableSort = k.finalize := rfl

theorem finalizeBy_of_wellFormed (sort : StdSort) {k : KernelCompatibilityKey}
    (h : k.wellFormed = true) : k.finalizeBy sort =
      ⟨k.toKeyFields.sortedBy sort, (k.toKeyFields.sortedBy sort).encode,
        Sha256.digest (k.toKeyFields.sortedBy sort).encode, true⟩ :=
  if_pos h

/-- The key with its flags and its specialization listed in another order. -/
def permute (k : KernelCompatibilityKey) (flags : List Str) (spec : List (Str × Str)) :
    KernelCompatibilityKey :=
  { k with codegenFlags := flags, specialization := spec }

/-- `finalize()` cannot tell `k` from a key that lists its flags and its specialization in another
order. -/
def OrderInsensitive (sort : StdSort) (k : KernelCompatibilityKey) : Prop :=
  ∀ flags spec, flags.Perm k.codegenFlags → spec.Perm k.specialization →
    ((k.permute flags spec).finalizeBy sort).canonical = (k.finalizeBy sort).canonical ∧
    ((k.permute flags spec).finalizeBy sort).digest = (k.finalizeBy sort).digest

/-- The encoding around the specialization. -/
theorem encode_around (f : KeyFields) : ∃ before after : Bytes, ∀ l : List (Str × Str),
    ({ f with specialization := l } : KeyFields).encode =
      before ++ ((KeyField.specialization l).payload ++ after) := by
  refine ⟨(f.fields.take 23).flatMap KeyField.write ++ [0x18],
    (f.fields.drop 24).flatMap KeyField.write, fun l => ?_⟩
  have hfields : ({ f with specialization := l } : KeyFields).fields =
      f.fields.take 23 ++ KeyField.specialization l :: f.fields.drop 24 := rfl
  have hwrite : (KeyField.specialization l).write =
      [0x18] ++ (KeyField.specialization l).payload := rfl
  rw [KeyFields.encode_eq_write, hfields, List.flatMap_append, List.flatMap_cons, hwrite]
  simp only [List.append_assoc]

/-- The encoding determines the specialization it was written from, given all other fields. -/
theorem specialization_eq_of_encode (f : KeyFields) {l l' : List (Str × Str)}
    (hfits : ∀ p ∈ l, KeyField.StrSized p.1 ∧ KeyField.StrSized p.2)
    (hfits' : ∀ p ∈ l', KeyField.StrSized p.1 ∧ KeyField.StrSized p.2)
    (hlen : l.length = l'.length)
    (h : ({ f with specialization := l } : KeyFields).encode =
      ({ f with specialization := l' } : KeyFields).encode) : l = l' := by
  obtain ⟨before, after, hencode⟩ := encode_around f
  rw [hencode l, hencode l', List.append_cancel_left_eq] at h
  simp only [KeyField.payload, CanonicalWriter.counted, hlen, List.append_assoc,
    List.append_cancel_left_eq] at h
  -- both sides read back as the pairs they start with
  have hexact := (CanonicalReader.str_exact.prod CanonicalReader.str_exact).times l'.length
  have hread := hexact.complete l after ⟨hfits, hlen⟩
  have hread' := hexact.complete l' after ⟨hfits', rfl⟩
  rw [← h] at hread'
  exact (Prod.mk.inj (Option.some.inj (hread.symm.trans hread'))).1

/-- **When the order does not matter.** For a key that `finalize()` accepts, the canonical bytes and
the digest are the same for every order of its flags and its specialization, whatever `std::sort` does
with ties, if and only if no specialization name occurs with two values. -/
theorem canonical_permute_iff {k : KernelCompatibilityKey} (hk : k.finalize.finalized = true)
    (hfits : ∀ p ∈ k.specialization, KeyField.StrSized p.1 ∧ KeyField.StrSized p.2) :
    (∀ sort : StdSort, k.OrderInsensitive sort) ↔ SingleValued k.specialization := by
  rw [finalize_finalized] at hk
  constructor
  · intro h p hp q hq hname
    by_contra hne
    have hpq : q ∈ k.specialization.erase p := by
      refine (List.mem_erase_of_ne ?_).mpr hq
      rintro rfl
      exact hne rfl
    -- the two entries first, in either order
    have hperm : (p :: q :: (k.specialization.erase p).erase q).Perm k.specialization :=
      ((List.perm_cons_erase hpq).symm.cons p).trans (List.perm_cons_erase hp).symm
    have hperm' := (List.Perm.swap p q ((k.specialization.erase p).erase q)).trans hperm
    have hbytes := ((h stableSort _ _ (List.Perm.refl _) hperm).1).trans
      (h stableSort _ _ (List.Perm.refl _) hperm').1.symm
    rw [finalizeBy_of_wellFormed _ (by exact hk), finalizeBy_of_wellFormed _ (by exact hk)] at hbytes
    have hsorted := specialization_eq_of_encode (k.toKeyFields.sortedBy stableSort) ?_ ?_ ?_ hbytes
    · exact hne (congrArg Prod.snd (sortPairs_swap hname hsorted))
    · intro x hx
      exact hfits x (hperm.mem_iff.mp ((stableSort.pairs_perm _).mem_iff.mp hx))
    · intro x hx
      exact hfits x (hperm'.mem_iff.mp ((stableSort.pairs_perm _).mem_iff.mp hx))
    · rw [(stableSort.pairs_perm _).length_eq, (stableSort.pairs_perm _).length_eq]
      rfl
  · intro hsingle sort flags spec hflags hspec
    have hfields : (k.permute flags spec).toKeyFields.sortedBy sort =
        k.toKeyFields.sortedBy sort := by
      have hsortedFlags := sort.strings_eq_of_perm hflags
      have hsortedSpec := (sort.pairs_eq_of_perm hspec.symm hsingle).symm
      simp only [KeyFields.sortedBy, permute, hsortedFlags, hsortedSpec]
    rw [finalizeBy_of_wellFormed sort hk, finalizeBy_of_wellFormed sort (by exact hk), hfields]
    exact ⟨rfl, rfl⟩

/-- A key that names two parameters. -/
def namedKey : KernelCompatibilityKey :=
  { codegenFlags := [str "fast", str "O3"]
    specialization := [(str "tile", str "8"), (str "unroll", str "4")] }

theorem canonical_permute_iff_named :
    (∀ sort : StdSort, namedKey.OrderInsensitive sort) ↔ SingleValued namedKey.specialization :=
  canonical_permute_iff (k := namedKey) rfl (by simp [namedKey, KeyField.StrSized, str])

/-- A key that gives one name two values. -/
def repeatedKey : KernelCompatibilityKey :=
  { specialization := [(str "tile", str "8"), (str "tile", str "4")] }

/-- **The order of a repeated name is part of the identity.** Both keys are accepted, and a stable
sort leaves them different encodings. -/
theorem repeated_name_order : repeatedKey.finalize.finalized = true ∧
    ¬ ∀ sort : StdSort, repeatedKey.OrderInsensitive sort := by
  refine ⟨rfl, fun h => ?_⟩
  have hbytes := (h stableSort [] [(str "tile", str "4"), (str "tile", str "8")] (.refl _)
    (List.Perm.swap _ _ _)).1
  have hsorted : [(str "tile", str "4"), (str "tile", str "8")] =
      [(str "tile", str "8"), (str "tile", str "4")] :=
    specialization_eq_of_encode (repeatedKey.toKeyFields.sortedBy stableSort)
      (by simp [KeyField.StrSized, str]) (by simp [KeyField.StrSized, str]) rfl hbytes
  revert hsorted
  decide

end KernelCompatibilityKey

end KernelCache
