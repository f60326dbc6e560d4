/-
# KernelCache.PutResult — what the answer of `put` says about the files (`persistence.cpp`).

`put` reports the errors of four of its file operations.  It does not report a blob that was written
short, while `write_file`, which it uses for the metadata, looks at the stream; and by the time a later
operation fails the blob under the final name is another one already.  `KeepsWord` lists what is left:
for each way a put can end, the stores in which its answer is the truth (`put_truthful_iff`).

Everything `get` can see are the two files of the id (`get_eq`), so the proof computes these two after
the put (`install_self`, `install_frame`) and compares.
-/
import KernelCache.Crash

namespace KernelCache

open Foundation (Bytes)

/-- How much of the blob reaches its file. -/
def PutFaults.written (faults : PutFaults) (a : StoredArtifact) : Bytes :=
  a.bytes.take (faults.blobWritten.getD a.bytes.length)

/-- Every operation that is looked at succeeds. -/
def PutFaults.clear (faults : PutFaults) : Bool :=
  !faults.openBlob && !(faults.renameBlob && faults.renameBlobAgain) && faults.writeMeta.isNone &&
    !(faults.renameMeta && faults.renameMetaAgain)

namespace FilePersistenceStore

/-! ## Reading the two files of an id -/

/-- What `get` makes of the metadata file and the blob file. -/
def readFiles (metaText blob : Option Bytes) : Result StoredArtifact :=
  if (metaText.getD []).isEmpty then fail .notFound (str "meta missing")
  else parseArtifactInner (metaText.getD []) blob

theorem get_eq (id : ArtifactId) (st : FilePersistenceStore) :
    st.get id = readFiles (st.artifacts.lookup (metaName id)) (st.artifacts.lookup (blobName id)) :=
  rfl

/-- The metadata in the store does not tell the blob from the one beside it: there is none, or the
blob is the same, or both are refused for the same reason. -/
def Indifferent (st : FilePersistenceStore) (id : ArtifactId) (blob : Option Bytes) : Prop :=
  (st.artifacts.lookup (metaName id)).getD [] = [] ∨ st.artifacts.lookup (blobName id) = blob ∨
    ∃ e, parseArtifactInner ((st.artifacts.lookup (metaName id)).getD []) blob = .error e ∧
      parseArtifactInner ((st.artifacts.lookup (metaName id)).getD [])
        (st.artifacts.lookup (blobName id)) = .error e

theorem parse_blob {text : Str} {blob : Option Bytes} {a : StoredArtifact}
    (h : parseArtifactInner text blob = .ok a) : blob = some a.bytes := by
  have hread : (parseArtifactInner text blob).toOption = some a := by
    rw [h]
    rfl
  exact parseArtifactInner_bytes hread

theorem indifferent_iff {st : FilePersistenceStore} {id : ArtifactId} {blob : Option Bytes} :
    readFiles (st.artifacts.lookup (metaName id)) blob = st.get id ↔ st.Indifferent id blob := by
  rw [get_eq]
  unfold readFiles Indifferent
  generalize (st.artifacts.lookup (metaName id)).getD [] = text
  generalize st.artifacts.lookup (blobName id) = old
  by_cases htext : text = []
  · simp [htext]
  · have hne : text.isEmpty = false := by simpa using htext
    simp only [hne, Bool.false_eq_true, if_false, htext, false_or]
    constructor
    · intro heq
      cases hold : parseArtifactInner text old with
      | ok b =>
        rw [hold] at heq
        exact .inl ((parse_blob hold).trans (parse_blob heq).symm)
      | error e => exact .inr ⟨e, heq.trans hold, rfl⟩
    · rintro (rfl | ⟨e, hnew, hold⟩)
      · rfl
      · rw [hnew, hold]

/-! ## The parser never says that there is nothing -/

theorem splitMeta_error {ls : List Str} {body : Str} {lines : List Str} {sha m : Str} :
    splitMeta body lines sha ls ≠ .error (.error .notFound m) := by
  induction ls generalizing body lines sha with
  | nil =>
    intro h
    cases h
  | cons l ls ih =>
    simp only [splitMeta]
    split
    · split
      · intro h
        cases h
      · exact ih
    · exact ih

theorem parseLine_error {a : StoredArtifact} {l m : Str} :
    parseLine a l ≠ .error (.error .notFound m) := by
  intro h
  unfold parseLine malformedField fail at h
  repeat' split at h
  all_goals first | cases h | skip
  all_goals
    dsimp only at h
    repeat' split at h
    all_goals cases h

theorem parseLines_error {a : StoredArtifact} {ls : List Str} {m : Str} :
    parseLines a ls ≠ .error (.error .notFound m) := by
  induction ls generalizing a with
  | nil => exact fun h => nomatch h
  | cons l ls ih =>
    simp only [parseLines]
    split
    · rename_i e he
      intro h
      cases h
      exact parseLine_error he
    · exact ih

theorem parse_ne_notFound {text m : Str} {blob : Option Bytes} :
    parseArtifactInner text blob ≠ .error (.error .notFound m) := by
  intro h
  unfold parseArtifactInner fail at h
  split at h
  · cases h
  dsimp only at h
  split at h
  · cases h
  split at h
  · rename_i e he
    cases h
    exact splitMeta_error he
  split at h
  · cases h
  split at h
  · cases h
  split at h
  · rename_i e he
    cases h
    exact parseLines_error he
  split at h
  · cases h
  split at h
  · cases h
  split at h <;> cases h

theorem get_notFound_iff {st : FilePersistenceStore} {id : ArtifactId} :
    readFiles none (st.artifacts.lookup (blobName id)) = st.get id ↔
      (st.artifacts.lookup (metaName id)).getD [] = [] := by
  rw [get_eq]
  unfold readFiles
  rw [Option.getD_none, List.isEmpty_nil, if_pos rfl]
  by_cases htext : (st.artifacts.lookup (metaName id)).getD [] = []
  · simp [htext]
  · rw [if_neg (by simpa using htext)]
    constructor
    · exact fun heq => absurd heq.symm parse_ne_notFound
    · exact fun heq => absurd heq htext

/-! ## The files after an installation -/

theorem install_fst (st : FilePersistenceStore) (tmpName name : Str) (f g h : Bool) :
    (st.install tmpName name f g h).1 = !(f && h) := by
  cases f <;> cases h <;> rfl

/-- The file that was to be installed. -/
theorem install_self (st : FilePersistenceStore) (tmpName name : Str) (f g h : Bool) :
    (st.install tmpName name f g h).2.artifacts.lookup name =
      if f && h then (if g then st.artifacts.lookup name else none)
      else some ((st.tmp.lookup tmpName).getD []) := by
  unfold install rename
  cases f <;> cases g <;> cases h <;> simp [AList.lookup_insert, AList.lookup_erase]

/-! ## The answer and the files -/

/-- The answer is the truth: after `Ok` the artifact can be read, after an error the id reads as
before. -/
def Truthful (faults : PutFaults) (a : StoredArtifact) (st : FilePersistenceStore) : Prop :=
  match (st.put faults a).1 with
  | .ok () => ∃ b, (st.put faults a).2.get a.id = .ok b ∧ b.SameStored a
  | .error _ => (st.put faults a).2.get a.id = st.get a.id

/-- When the answer is the truth, by the operation that fails last. -/
def KeepsWord (faults : PutFaults) (a : StoredArtifact) (st : FilePersistenceStore) : Prop :=
  if faults.openBlob then True
  else if faults.renameBlob && faults.renameBlobAgain then
    -- the old blob is still there, or nothing depends on it
    faults.removeBlob = true ∨ st.Indifferent a.id none
  else if faults.writeMeta.isSome ||
      (faults.renameMeta && faults.renameMetaAgain && faults.removeMeta) then
    -- the new blob is there beside the old metadata
    st.Indifferent a.id (some (faults.written a))
  else if faults.renameMeta && faults.renameMetaAgain then
    -- the old metadata is gone
    (st.artifacts.lookup (metaName a.id)).getD [] = []
  else
    -- `Ok`: the blob is complete, and the key can be decoded
    a.bytes.length ≤ faults.blobWritten.getD a.bytes.length ∧ a.key.toKeyFields.Sized

/-- The whole files of `a` read back as `a` if the blob is complete and the lists of the key are not
too long. -/
theorem readFiles_iff {a : StoredArtifact} (ha : a.Valid) (hne : a.bytes ≠ []) (n : Nat) :
    (∃ b, readFiles (some (fullMeta a)) (some (a.bytes.take n)) = .ok b ∧ b.SameStored a) ↔
      a.bytes.length ≤ n ∧ a.key.toKeyFields.Sized := by
  have htext : ((some (fullMeta a)).getD []).isEmpty = false := by
    simpa using fullMeta_ne_nil a
  unfold readFiles
  rw [htext, if_neg (by decide), Option.getD_some]
  constructor
  · rintro ⟨b, hparse, hsame⟩
    have hbytes : some (a.bytes.take n) = some a.bytes := by
      rw [parse_blob hparse, hsame.bytes]
    have hlength : a.bytes.length ≤ n := by
      have hmin := congrArg List.length (Option.some.inj hbytes)
      rw [List.length_take] at hmin
      omega
    refine ⟨hlength, ?_⟩
    -- the key that was read came out of the decoder, so its lists are short
    rw [parseArtifactInner_fullMeta ha.printableSha,
      parseLines_metaLines_key (fun s _ => b64DecodeLoop_b64encode 0 [] s) ha.canonical_ne_nil] at hparse
    cases hkey : KernelCompatibilityKey.fromCanonical a.key.canonical with
    | error e =>
      rw [hkey] at hparse
      cases e <;> cases hparse
    | ok k =>
      rw [hkey] at hparse
      obtain ⟨bytes, -, -, -, -, rfl⟩ := checkBlob_ok_iff.mp hparse
      have hk : k = a.key := hsame.key
      rw [← hk]
      exact KernelCompatibilityKey.fromCanonical_sized hkey
  · rintro ⟨hlength, hsized⟩
    rw [List.take_of_length_le hlength]
    exact parse_fullMeta ha hsized hne

/-- The answer of `put`, and the two files of the artifact after it. -/
theorem put_files (faults : PutFaults) (a : StoredArtifact) (st : FilePersistenceStore) :
    (if faults.clear then (st.put faults a).1 = .ok ()
      else ∃ e, (st.put faults a).1 = .error e) ∧
    (st.put faults a).2.artifacts.lookup (blobName a.id) =
      (if faults.openBlob then st.artifacts.lookup (blobName a.id)
        else if faults.renameBlob && faults.renameBlobAgain then
          if faults.removeBlob then st.artifacts.lookup (blobName a.id) else none
        else some (faults.written a)) ∧
    (st.put faults a).2.artifacts.lookup (metaName a.id) =
      (if faults.openBlob || (faults.renameBlob && faults.renameBlobAgain) ||
          faults.writeMeta.isSome then st.artifacts.lookup (metaName a.id)
        else if faults.renameMeta && faults.renameMetaAgain then
          if faults.removeMeta then st.artifacts.lookup (metaName a.id) else none
        else some (fullMeta a)) := by
  unfold PutFaults.clear
  simp only [put]
  cases hopen : faults.openBlob with
  | true => simp [fail]
  | false =>
    simp only [Bool.false_eq_true, if_false]
    generalize hbtmp : a.id.toStrongId128.str ++ str ".blob.tmp." ++ faults.token = btmp
    generalize hwritten : ({ st with tmp := _ } : FilePersistenceStore) = written
    have hold : written.artifacts = st.artifacts := by rw [← hwritten]
    have htmp : (written.tmp.lookup btmp).getD [] = faults.written a := by
      rw [← hwritten, AList.lookup_insert, Option.getD_some]
      rfl
    -- the first installation
    have hok := written.install_fst btmp (blobName a.id) faults.renameBlob faults.removeBlob
      faults.renameBlobAgain
    have hblob := written.install_self btmp (blobName a.id) faults.renameBlob faults.removeBlob
      faults.renameBlobAgain
    have hmeta := written.install_frame btmp (blobName a.id) faults.renameBlob faults.removeBlob
      faults.renameBlobAgain (metaName_ne_blobName a.id a.id)
    rw [htmp, hold] at hblob
    rw [hold] at hmeta
    generalize written.install btmp (blobName a.id) faults.renameBlob faults.removeBlob
      faults.renameBlobAgain = first at hok hblob hmeta
    obtain ⟨ok, st₁⟩ := first
    subst hok
    cases hfirst : faults.renameBlob && faults.renameBlobAgain with
    | true =>
      rw [hfirst, if_pos rfl] at hblob
      exact ⟨⟨_, rfl⟩, hblob, hmeta⟩
    | false =>
      rw [hfirst, if_neg (by decide)] at hblob
      cases hwrite : faults.writeMeta with
      | some n => exact ⟨⟨_, rfl⟩, hblob, hmeta⟩
      | none =>
        simp only [Bool.not_false, Bool.false_eq_true, if_false]
        generalize hmtmp : a.id.toStrongId128.str ++ str ".meta.tmp." ++ faults.token = mtmp
        generalize hwritten₁ : ({ st₁ with tmp := _ } : FilePersistenceStore) = written₁
        have hold₁ : written₁.artifacts = st₁.artifacts := by rw [← hwritten₁]
        have htmp₁ : (written₁.tmp.lookup mtmp).getD [] = fullMeta a := by
          rw [← hwritten₁, AList.lookup_insert, Option.getD_some]
        -- the second one
        have hok₁ := written₁.install_fst mtmp (metaName a.id) faults.renameMeta faults.removeMeta
          faults.renameMetaAgain
        have hmeta₁ := written₁.install_self mtmp (metaName a.id) faults.renameMeta
          faults.removeMeta faults.renameMetaAgain
        have hblob₁ := written₁.install_frame mtmp (metaName a.id) faults.renameMeta
          faults.removeMeta faults.renameMetaAgain (Ne.symm (metaName_ne_blobName a.id a.id))
        rw [htmp₁, hold₁, hmeta] at hmeta₁
        rw [hold₁, hblob] at hblob₁
        generalize written₁.install mtmp (metaName a.id) faults.renameMeta faults.removeMeta
          faults.renameMetaAgain = second at hok₁ hmeta₁ hblob₁
        obtain ⟨ok₁, st₂⟩ := second
        subst hok₁
        cases hsecond : faults.renameMeta && faults.renameMetaAgain with
        | true =>
          rw [hsecond] at hmeta₁
          exact ⟨⟨_, rfl⟩, hblob₁, hmeta₁⟩
        | false =>
          rw [hsecond] at hmeta₁
          exact ⟨rfl, hblob₁, hmeta₁⟩

/-- **When the answer of `put` is the truth.** For every store, every valid artifact and every pattern
of failing operations. -/
theorem put_truthful_iff (faults : PutFaults) {a : StoredArtifact} (st : FilePersistenceStore)
    (ha : a.Valid) (hne : a.bytes ≠ []) : Truthful faults a st ↔ KeepsWord faults a st := by
  obtain ⟨hanswer, hblob, hmeta⟩ := put_files faults a st
  unfold Truthful KeepsWord
  rw [get_eq a.id (st.put faults a).2, hblob, hmeta]
  unfold PutFaults.clear at hanswer
  -- by the operation that fails last
  cases hopen : faults.openBlob with
  | true =>
    simp only [hopen, Bool.not_true, Bool.false_and, Bool.false_eq_true, if_false] at hanswer
    obtain ⟨e, he⟩ := hanswer
    simp [he, get_eq]
  | false =>
    cases hfirst : faults.renameBlob && faults.renameBlobAgain with
    | true =>
      simp only [hopen, hfirst, Bool.not_false, Bool.not_true, Bool.true_and, Bool.false_and,
        Bool.false_eq_true, if_false] at hanswer
      obtain ⟨e, he⟩ := hanswer
      simp only [he, Bool.false_or, Bool.true_or, Bool.false_eq_true, if_true, if_false]
      cases faults.removeBlob with
      | true => simp [get_eq]
      | false =>
        simp only [Bool.false_eq_true, if_false, false_or]
        exact indifferent_iff
    | false =>
      cases hwrite : faults.writeMeta with
      | some n =>
        simp only [hopen, hfirst, hwrite, Option.isNone_some, Bool.and_false, Bool.false_and,
          Bool.false_eq_true, if_false] at hanswer
        obtain ⟨e, he⟩ := hanswer
        simp only [he, Option.isSome_some, Bool.true_or, Bool.or_true, Bool.false_eq_true, if_true,
          if_false]
        exact indifferent_iff
      | none =>
        cases hsecond : faults.renameMeta && faults.renameMetaAgain with
        | true =>
          simp only [hopen, hfirst, hwrite, hsecond, Bool.not_true, Bool.and_false,
            Bool.false_eq_true, if_false] at hanswer
          obtain ⟨e, he⟩ := hanswer
          simp only [he, Option.isSome_none, Bool.or_false, Bool.false_or, Bool.true_and,
            Bool.false_eq_true, if_true, if_false]
          cases faults.removeMeta with
          | true => exact indifferent_iff
          | false =>
            simp only [Bool.false_eq_true, if_false]
            exact get_notFound_iff
        | false =>
          simp only [hopen, hfirst, hwrite, hsecond, Bool.not_false, Option.isNone_none,
            Bool.and_self, if_true] at hanswer
          simp only [hanswer, Option.isSome_none, Bool.or_false, Bool.false_and,
            Bool.false_eq_true, if_false]
          exact readFiles_iff ha hne _

theorem put_truthful_iff_short :
    Truthful { blobWritten := some 1 } (storedSample [1, 2]) {} ↔
      KeepsWord { blobWritten := some 1 } (storedSample [1, 2]) {} :=
  put_truthful_iff _ _ (storedSample_valid (by decide)) (by decide)

/-! ## A blob that is written short -/

/-- After an `Ok` the metadata is read beside what was written of the blob. -/
theorem get_put {faults : PutFaults} {a : StoredArtifact} {st : FilePersistenceStore}
    (h : faults.clear = true) :
    (st.put faults a).2.get a.id =
      parseArtifactInner (fullMeta a) (some (faults.written a)) := by
  obtain ⟨-, hblob, hmeta⟩ := put_files faults a st
  unfold PutFaults.clear at h
  simp only [Bool.and_eq_true, Bool.not_eq_true', Option.isNone_iff_eq_none] at h
  obtain ⟨⟨⟨hopen, hfirst⟩, hwrite⟩, hsecond⟩ := h
  rw [get_eq, hblob, hmeta, hopen, hfirst, hwrite, hsecond]
  unfold readFiles
  rw [if_neg]
  · rfl
  · simpa using fullMeta_ne_nil a

end FilePersistenceStore

open FilePersistenceStore (Truthful put_files get_put fullMeta)

/-- **A short write is `Ok`.** The disk takes one of two bytes, `put` answers `Ok`, and the artifact
cannot be read. -/
theorem short_write_ok :
    (storedSample [1, 2]).Valid ∧ (storedSample [1, 2]).bytes ≠ [] ∧
    (({} : FilePersistenceStore).put { blobWritten := some 1 } (storedSample [1, 2])).1 = .ok () ∧
    ¬ Truthful { blobWritten := some 1 } (storedSample [1, 2]) {} := by
  have hok : (({} : FilePersistenceStore).put { blobWritten := some 1 } (storedSample [1, 2])).1 =
      .ok () := (put_files { blobWritten := some 1 } _ _).1
  refine ⟨storedSample_valid (by decide), by decide, hok, ?_⟩
  unfold Truthful
  rw [hok]
  rintro ⟨b, hget, -⟩
  rw [get_put rfl] at hget
  have hrefused : (parseArtifactInner (fullMeta (storedSample [1, 2])) (some [1])).toOption = none :=
    parse_storedSample_other (by decide)
  have hwritten : PutFaults.written { blobWritten := some 1 } (storedSample [1, 2]) = [1] := rfl
  rw [hwritten] at hget
  rw [hget] at hrefused
  cases hrefused

end KernelCache
