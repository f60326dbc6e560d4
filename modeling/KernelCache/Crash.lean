/-
# KernelCache.Crash — a store write that is cut short (`persistence.cpp`, `FilePersistenceStore::put`).

`put` replaces the two files of an artifact one after the other: it writes a temporary blob, renames
it into place, writes temporary metadata and renames that.  A rename is atomic, a write may stop after
any prefix, and a crash may come anywhere in between (`Crash`).  What a later `recover` returns
depends on the two files alone (`recovered_of_agree`), so only one crash point matters: the new blob
is there and the old metadata still stands beside it.

`crash_atomic_iff` says for which contents of the store the write is atomic all the same.  Replacing
the bytes of a stored artifact is not among them (`torn_overwrite`).
-/
import KernelCache.RoundTrip
import Mathlib.Data.Multiset.AddSub

namespace KernelCache

open Foundation (Bytes)

/-! ## What recovery returns -/

namespace FilePersistenceStore

/-- The artifact `recover` reads from a directory entry. -/
def accepted (st : FilePersistenceStore) (name : Str) : Option StoredArtifact :=
  match metaStem? name with
  | none => none
  | some idh =>
    let metaText := (st.artifacts.lookup name).getD []
    if metaText.isEmpty then none
    else (parseArtifactInner metaText (st.artifacts.lookup (idh ++ str ".blob"))).toOption

theorem scan_eq (st : FilePersistenceStore) (names : List Str) :
    (st.scan names).1 = names.filterMap st.accepted := by
  induction names with
  | nil => rfl
  | cons name names ih =>
    simp only [scan, accepted, List.filterMap_cons]
    cases hstem : metaStem? name with
    | none => exact ih
    | some idh =>
      simp only
      split
      · exact ih
      · split
        · rename_i a ha
          simp only [ha, Except.toOption]
          exact congrArg _ ih
        · rename_i code message ha
          simp only [ha, Except.toOption]
          exact ih
        · rename_i ha
          simp only [ha, Except.toOption]
          exact ih

/-- The artifacts `recover` returns, in whatever order the directory is read. -/
def recovered (st : FilePersistenceStore) : Multiset StoredArtifact :=
  (st.artifacts.keys.filterMap st.accepted : List StoredArtifact)

theorem recover_eq (st : FilePersistenceStore) {names : List Str}
    (h : names.Perm st.artifacts.keys) : (((st.recover names).1.1 : List StoredArtifact) :
      Multiset StoredArtifact) = st.recovered := by
  show ((st.scan names).1 : Multiset StoredArtifact) = _
  rw [scan_eq]
  exact Multiset.coe_eq_coe.mpr (h.filterMap _)

/-! ## The two files of an artifact -/

theorem lookup_of_lookup_erase {files : Map Str Bytes} {target name : Str} {data : Bytes}
    (h : (files.erase target).lookup name = some data) : files.lookup name = some data := by
  by_cases hname : name = target
  · subst hname
    rw [AList.lookup_erase] at h
    cases h
  · rwa [AList.lookup_erase_ne hname] at h

theorem metaStem?_eq_some {name idh : Str} (h : metaStem? name = some idh) :
    name = idh ++ str ".meta" := by
  unfold metaStem? at h
  split at h
  · rename_i hsuffix
    rw [Bool.and_eq_true, List.isSuffixOf_iff_suffix] at hsuffix
    obtain ⟨stem, rfl⟩ := hsuffix.1
    cases h
    have hlen : (stem ++ str ".meta").length - 5 = stem.length := by
      rw [List.length_append]
      show stem.length + 5 - 5 = _
      omega
    rw [hlen, List.take_left]
  · cases h

theorem metaStem?_metaName (id : ArtifactId) :
    metaStem? (metaName id) = some id.toStrongId128.str := by
  unfold metaStem? metaName
  have hlen : (id.toStrongId128.str ++ str ".meta").length = 37 := by
    rw [List.length_append, StrongId128.str_length]
    rfl
  rw [if_pos]
  · rw [hlen, List.take_left' (by rw [StrongId128.str_length])]
  · rw [Bool.and_eq_true, List.isSuffixOf_iff_suffix, hlen]
    exact ⟨List.suffix_append _ _, by decide⟩

theorem blob_ne_meta (s t : Str) : s ++ str ".blob" ≠ t ++ str ".meta" := by
  intro heq
  have hlen : (str ".blob").length = (str ".meta").length := by decide
  have hne : str ".blob" ≠ str ".meta" := by decide
  exact hne (List.append_inj' heq hlen).2

theorem metaStem?_blobName (id : ArtifactId) : metaStem? (blobName id) = none := by
  cases h : metaStem? (blobName id) with
  | none => rfl
  | some idh =>
    exact absurd (metaStem?_eq_some h) (blob_ne_meta _ _)

variable {st st' : FilePersistenceStore} {id : ArtifactId}

/-- What `recover` reads from the files of an artifact. -/
theorem accepted_metaName (st : FilePersistenceStore) (id : ArtifactId) :
    st.accepted (metaName id) =
      if ((st.artifacts.lookup (metaName id)).getD []).isEmpty then none
      else (parseArtifactInner ((st.artifacts.lookup (metaName id)).getD [])
        (st.artifacts.lookup (blobName id))).toOption := by
  unfold accepted
  rw [metaStem?_metaName]
  rfl

theorem accepted_blobName (st : FilePersistenceStore) (id : ArtifactId) :
    st.accepted (blobName id) = none := by
  unfold accepted
  rw [metaStem?_blobName]

theorem accepted_of_notMem {name : Str} (h : name ∉ st.artifacts.keys) :
    st.accepted name = none := by
  unfold accepted
  have hnone : st.artifacts.lookup name = none := AList.lookup_eq_none.mpr h
  split
  · rfl
  · simp [hnone]

/-- The stores agree on every file that is not one of the two. -/
def AgreeBut (id : ArtifactId) (st st' : FilePersistenceStore) : Prop :=
  ∀ name, name ≠ metaName id → name ≠ blobName id →
    st'.artifacts.lookup name = st.artifacts.lookup name

/-- Other entries are read as before: their blob is another file, too. -/
theorem AgreeBut.accepted (h : AgreeBut id st st') {name : Str} (hmeta : name ≠ metaName id)
    (hblob : name ≠ blobName id) : st'.accepted name = st.accepted name := by
  unfold FilePersistenceStore.accepted
  cases hstem : metaStem? name with
  | none => rfl
  | some idh =>
    have hname := metaStem?_eq_some hstem
    have hother : idh ≠ id.toStrongId128.str := by
      rintro rfl
      exact hmeta hname
    have hpair : st'.artifacts.lookup (idh ++ str ".blob") =
        st.artifacts.lookup (idh ++ str ".blob") := by
      refine h _ ?_ ?_
      · exact blob_ne_meta _ _
      · exact fun heq => hother (List.append_cancel_right heq)
    simp only [h name hmeta hblob, hpair]

/-- The names of the other files. -/
def others (id : ArtifactId) (st : FilePersistenceStore) : List Str :=
  st.artifacts.keys.filter fun name => name ≠ metaName id ∧ name ≠ blobName id

theorem AgreeBut.others_perm (h : AgreeBut id st st') : (others id st').Perm (others id st) := by
  refine (List.perm_ext_iff_of_nodup ?_ ?_).mpr fun name => ?_
  · exact st'.artifacts.keys_nodup.filter _
  · exact st.artifacts.keys_nodup.filter _
  · simp only [others, List.mem_filter, decide_eq_true_eq]
    refine and_congr_left fun hname => ?_
    have hlook := h name hname.1 hname.2
    rw [← AList.mem_keys, ← AList.mem_keys, ← AList.lookup_isSome, ← AList.lookup_isSome, hlook]

/-- The files of an artifact, and the others. -/
theorem recovered_eq (id : ArtifactId) (st : FilePersistenceStore) :
    st.recovered = ((st.accepted (metaName id)).toList : Multiset StoredArtifact) +
      ((others id st).filterMap st.accepted : List StoredArtifact) := by
  have hperm := (List.filter_append_perm (fun name => name = metaName id)
    st.artifacts.keys).filterMap st.accepted
  rw [List.filterMap_append] at hperm
  have hmine : (st.artifacts.keys.filter fun name => name = metaName id).filterMap st.accepted =
      (st.accepted (metaName id)).toList := by
    rw [List.filter_eq]
    by_cases hmem : metaName id ∈ st.artifacts.keys
    · rw [List.count_eq_one_of_mem st.artifacts.keys_nodup hmem]
      cases haccept : st.accepted (metaName id) <;> simp [haccept]
    · rw [List.count_eq_zero_of_not_mem hmem, accepted_of_notMem hmem]
      rfl
  have hrest : (st.artifacts.keys.filter fun name => !decide (name = metaName id)).filterMap
      st.accepted = (others id st).filterMap st.accepted := by
    rw [others, List.filterMap_filter, List.filterMap_filter]
    refine List.filterMap_congr fun name _ => ?_
    by_cases hblob : name = blobName id
    · subst hblob
      simp [accepted_blobName]
    · simp [hblob]
  rw [hmine, hrest] at hperm
  rw [Multiset.coe_add]
  exact (Multiset.coe_eq_coe.mpr hperm).symm

/-- What is read from the other files. -/
theorem AgreeBut.others_recovered (h : AgreeBut id st st') :
    ((others id st').filterMap st'.accepted : Multiset StoredArtifact) =
      ((others id st).filterMap st.accepted : List StoredArtifact) := by
  have hrest : (others id st').filterMap st'.accepted = (others id st').filterMap st.accepted := by
    refine List.filterMap_congr fun name hname => ?_
    simp only [others, List.mem_filter, decide_eq_true_eq] at hname
    exact h.accepted hname.2.1 hname.2.2
  rw [hrest]
  exact Multiset.coe_eq_coe.mpr (h.others_perm.filterMap st.accepted)

/-- **The two files decide.** Stores that agree on all other files recover the same artifacts exactly
when they recover the same from these two. -/
theorem recovered_of_agree (h : AgreeBut id st st') :
    st'.recovered = st.recovered ↔ st'.accepted (metaName id) = st.accepted (metaName id) := by
  rw [recovered_eq id st', recovered_eq id st, h.others_recovered, Multiset.add_left_inj]
  cases st'.accepted (metaName id) <;> cases st.accepted (metaName id) <;> simp

end FilePersistenceStore

/-! ## The steps of a write -/

open FilePersistenceStore (fullMeta)

/-- One step on the file system; temporary names are in `tmp`, the others in `artifacts`. -/
inductive FileStep where
  | write (tmpName : Str) (data : Bytes)
  | rename (tmpName name : Str)
  | remove (tmpName : Str)

def FileStep.apply (st : FilePersistenceStore) : FileStep → FilePersistenceStore
  | write tmpName data => { st with tmp := st.tmp.insert tmpName data }
  | rename tmpName name => st.rename tmpName name
  | remove tmpName => { st with tmp := st.tmp.erase tmpName }

/-- The steps of `put` when nothing fails. -/
def putSteps (token : Str) (a : StoredArtifact) : List FileStep :=
  let btmp := a.id.toStrongId128.str ++ str ".blob.tmp." ++ token
  let mtmp := a.id.toStrongId128.str ++ str ".meta.tmp." ++ token
  [.write btmp a.bytes, .rename btmp (blobName a.id), .write mtmp (fullMeta a),
    .rename mtmp (metaName a.id), .remove btmp]

/-- The store after some steps. -/
def applySteps (steps : List FileStep) (st : FilePersistenceStore) : FilePersistenceStore :=
  steps.foldl FileStep.apply st

/-- A `put` in which nothing fails takes these steps. -/
theorem put_eq_steps (token : Str) (a : StoredArtifact) (st : FilePersistenceStore) :
    st.put { token := token } a = (.ok (), applySteps (putSteps token a) st) := by
  simp [FilePersistenceStore.put, FilePersistenceStore.install, applySteps, putSteps,
    FileStep.apply]

/-- What a crash may leave: the steps up to some point, the last of them perhaps a write that got as
far as a prefix of its data. -/
inductive Crash (steps : List FileStep) (st : FilePersistenceStore) : FilePersistenceStore → Prop
  | between (done rest : List FileStep) : steps = done ++ rest → Crash steps st (applySteps done st)
  | torn (done rest : List FileStep) (tmpName : Str) (data : Bytes) (n : Nat) :
      steps = done ++ .write tmpName data :: rest →
      Crash steps st (applySteps (done ++ [.write tmpName (data.take n)]) st)

/-- A file written to a temporary name and renamed is in place. -/
theorem rename_write_artifacts (st : FilePersistenceStore) (tmpName name : Str) (data : Bytes) :
    ((FileStep.rename tmpName name).apply
      ((FileStep.write tmpName data).apply st)).artifacts = st.artifacts.insert name data := by
  show (FilePersistenceStore.rename _ tmpName name).artifacts = _
  unfold FilePersistenceStore.rename
  rw [show ((FileStep.write tmpName data).apply st).tmp.lookup tmpName = some data from
    AList.lookup_insert _]
  rfl

/-- The directory of artifacts after the first `n` steps of a write. -/
theorem applySteps_take_artifacts (token : Str) (a : StoredArtifact) (st : FilePersistenceStore)
    (n : Nat) : (applySteps ((putSteps token a).take n) st).artifacts =
      if n < 2 then st.artifacts
      else if n < 4 then st.artifacts.insert (blobName a.id) a.bytes
      else (st.artifacts.insert (blobName a.id) a.bytes).insert (metaName a.id) (fullMeta a) := by
  unfold putSteps
  generalize a.id.toStrongId128.str ++ str ".blob.tmp." ++ token = btmp
  generalize a.id.toStrongId128.str ++ str ".meta.tmp." ++ token = mtmp
  generalize blobName a.id = bname
  generalize metaName a.id = mname
  generalize fullMeta a = text
  have hblob := rename_write_artifacts st btmp bname a.bytes
  -- the second half of the write starts from the store the first half left
  have hmeta : ∀ st', st'.artifacts = st.artifacts.insert bname a.bytes →
      ((FileStep.rename mtmp mname).apply ((FileStep.write mtmp text).apply st')).artifacts =
        (st.artifacts.insert bname a.bytes).insert mname text := by
    intro st' hst'
    rw [rename_write_artifacts, hst']
  match n with
  | 0 => rfl
  | 1 => rfl
  | 2 => exact hblob
  | 3 => exact hblob
  | 4 => exact hmeta _ hblob
  | n + 5 =>
    rw [if_neg (by omega), if_neg (by omega), List.take_of_length_le (by simp)]
    exact hmeta _ hblob

/-- The directory of artifacts after a whole write. -/
theorem applySteps_putSteps_artifacts (token : Str) (a : StoredArtifact)
    (st : FilePersistenceStore) : (applySteps (putSteps token a) st).artifacts =
      (st.artifacts.insert (blobName a.id) a.bytes).insert (metaName a.id) (fullMeta a) :=
  applySteps_take_artifacts token a st 5

/-- A crash in the middle of a write leaves the directory of artifacts as it was after some number of
whole steps. -/
theorem Crash.exists_take {steps : List FileStep} {st st' : FilePersistenceStore}
    (h : Crash steps st st') : ∃ n, st'.artifacts = (applySteps (steps.take n) st).artifacts := by
  cases h with
  | between done rest heq =>
    refine ⟨done.length, ?_⟩
    rw [heq, List.take_left]
  | torn done rest tmpName data n heq =>
    refine ⟨done.length, ?_⟩
    rw [heq, List.take_left, applySteps, List.foldl_append]
    rfl

/-! ## Atomicity -/

/-- `recover` returns the same artifacts from both stores, in whatever order their directories are
read. -/
def RecoversAs (st st' : FilePersistenceStore) : Prop :=
  ∀ names names', names.Perm st.artifacts.keys → names'.Perm st'.artifacts.keys →
    ((st.recover names).1.1).Perm (st'.recover names').1.1

theorem recoversAs_iff (st st' : FilePersistenceStore) :
    RecoversAs st st' ↔ st.recovered = st'.recovered := by
  constructor
  · intro h
    have hperm := h _ _ (List.Perm.refl _) (List.Perm.refl _)
    rw [← st.recover_eq (List.Perm.refl _), ← st'.recover_eq (List.Perm.refl _)]
    exact Multiset.coe_eq_coe.mpr hperm
  · intro h names names' hnames hnames'
    rw [← st.recover_eq hnames, ← st'.recover_eq hnames'] at h
    exact Multiset.coe_eq_coe.mp h

/-- Whenever a write of `a` is cut short, `recover` finds what was there before or what the whole
write leaves. -/
def CrashAtomic (token : Str) (a : StoredArtifact) (st : FilePersistenceStore) : Prop :=
  ∀ st', Crash (putSteps token a) st st' →
    RecoversAs st' st ∨ RecoversAs st' (applySteps (putSteps token a) st)

/-- `recover` finds in `st'` what it finds in `st`, but `a` in place of what was read under its name. -/
def Installed (a : StoredArtifact) (st st' : FilePersistenceStore) : Prop :=
  ∃ b rest, b.SameStored a ∧
    st.recovered = ((st.accepted (metaName a.id)).toList : Multiset StoredArtifact) + rest ∧
    st'.recovered = b ::ₘ rest

/-- The metadata that stands in the store for the id of `a` goes with the new bytes as well as with
the old: the bytes are the same, or it is accepted with neither, or with the new ones it is read as
the new metadata is. -/
def BearsNewBytes (a : StoredArtifact) (st : FilePersistenceStore) : Prop :=
  ∀ text, st.artifacts.lookup (metaName a.id) = some text → text ≠ [] →
    st.artifacts.lookup (blobName a.id) = some a.bytes ∨
    ((parseArtifactInner text (st.artifacts.lookup (blobName a.id))).toOption = none ∧
      (parseArtifactInner text (some a.bytes)).toOption = none) ∨
    (parseArtifactInner text (some a.bytes)).toOption =
      (parseArtifactInner (fullMeta a) (some a.bytes)).toOption

theorem fullMeta_ne_nil (a : StoredArtifact) : fullMeta a ≠ [] := by
  simp [fullMeta, metaLine]

namespace FilePersistenceStore

theorem accepted_congr {st st' : FilePersistenceStore} (h : st'.artifacts = st.artifacts) :
    st'.accepted = st.accepted := by
  funext name
  unfold accepted
  rw [h]

theorem recovered_congr {st st' : FilePersistenceStore} (h : st'.artifacts = st.artifacts) :
    st'.recovered = st.recovered := by
  unfold recovered
  rw [h, accepted_congr h]

/-- The store with the new blob of `a`. -/
def withBlob (st : FilePersistenceStore) (a : StoredArtifact) : FilePersistenceStore :=
  { st with artifacts := st.artifacts.insert (blobName a.id) a.bytes }

/-- The store with both new files of `a`. -/
def withBoth (st : FilePersistenceStore) (a : StoredArtifact) : FilePersistenceStore :=
  { st with
    artifacts := (st.artifacts.insert (blobName a.id) a.bytes).insert (metaName a.id) (fullMeta a) }

theorem withBlob_agree (st : FilePersistenceStore) (a : StoredArtifact) :
    AgreeBut a.id st (st.withBlob a) := by
  intro name _ hblob
  exact AList.lookup_insert_ne hblob

theorem withBoth_agree (st : FilePersistenceStore) (a : StoredArtifact) :
    AgreeBut a.id (st.withBlob a) (st.withBoth a) := by
  intro name hmeta _
  exact AList.lookup_insert_ne hmeta

theorem withBlob_accepted (st : FilePersistenceStore) (a : StoredArtifact) :
    (st.withBlob a).accepted (metaName a.id) =
      if ((st.artifacts.lookup (metaName a.id)).getD []).isEmpty then none
      else (parseArtifactInner ((st.artifacts.lookup (metaName a.id)).getD [])
        (some a.bytes)).toOption := by
  have hmeta : (st.withBlob a).artifacts.lookup (metaName a.id) =
      st.artifacts.lookup (metaName a.id) := AList.lookup_insert_ne (metaName_ne_blobName _ _)
  have hblob : (st.withBlob a).artifacts.lookup (blobName a.id) = some a.bytes :=
    AList.lookup_insert _
  rw [accepted_metaName, hmeta, hblob]

theorem withBoth_accepted (st : FilePersistenceStore) (a : StoredArtifact) :
    (st.withBoth a).accepted (metaName a.id) =
      (parseArtifactInner (fullMeta a) (some a.bytes)).toOption := by
  have hmeta : (st.withBoth a).artifacts.lookup (metaName a.id) = some (fullMeta a) :=
    AList.lookup_insert _
  have hblob : (st.withBoth a).artifacts.lookup (blobName a.id) = some a.bytes := by
    refine (AList.lookup_insert_ne (Ne.symm (metaName_ne_blobName _ _))).trans ?_
    exact AList.lookup_insert _
  rw [accepted_metaName, hmeta, hblob, if_neg]
  · rfl
  · simpa using fullMeta_ne_nil a

end FilePersistenceStore

open FilePersistenceStore (AgreeBut withBlob_agree withBoth_agree withBlob_accepted withBoth_accepted
  recovered_congr recovered_eq recovered_of_agree)

/-- Only the crash between the two renames matters. -/
theorem crashAtomic_iff (token : Str) (a : StoredArtifact) (st : FilePersistenceStore) :
    CrashAtomic token a st ↔
      (st.withBlob a).accepted (metaName a.id) = st.accepted (metaName a.id) ∨
        (st.withBlob a).accepted (metaName a.id) = (st.withBoth a).accepted (metaName a.id) := by
  have hwhole : (applySteps (putSteps token a) st).recovered = (st.withBoth a).recovered :=
    recovered_congr (applySteps_putSteps_artifacts token a st)
  rw [← recovered_of_agree (withBlob_agree st a), eq_comm (b := (st.withBoth a).accepted _),
    ← recovered_of_agree (withBoth_agree st a)]
  constructor
  · intro h
    have hmid : Crash (putSteps token a) st (applySteps ((putSteps token a).take 2) st) :=
      .between _ ((putSteps token a).drop 2) (List.take_append_drop 2 _).symm
    have hblob : (applySteps ((putSteps token a).take 2) st).recovered =
        (st.withBlob a).recovered := recovered_congr (applySteps_take_artifacts token a st 2)
    rcases h _ hmid with hbefore | hafter
    · rw [recoversAs_iff, hblob] at hbefore
      exact .inl hbefore
    · rw [recoversAs_iff, hblob, hwhole] at hafter
      exact .inr hafter.symm
  · intro h st' hcrash
    rw [recoversAs_iff, recoversAs_iff, hwhole]
    obtain ⟨n, hn⟩ := hcrash.exists_take
    rw [applySteps_take_artifacts] at hn
    split at hn
    · exact .inl (recovered_congr hn)
    · split at hn
      · have hblob : st'.recovered = (st.withBlob a).recovered := recovered_congr hn
        rw [hblob]
        exact h.imp_right Eq.symm
      · exact .inr (recovered_congr hn)

/-- An accepted artifact has the bytes of its blob. -/
theorem parseArtifactInner_bytes {text : Str} {blob : Option Bytes} {a : StoredArtifact}
    (h : (parseArtifactInner text blob).toOption = some a) : blob = some a.bytes := by
  cases hparse : parseArtifactInner text blob with
  | error e =>
    rw [hparse] at h
    cases h
  | ok b =>
    rw [hparse] at h
    cases h
    obtain ⟨lines, fields, -, hb, hne⟩ := parseArtifactInner_ok hparse
    cases blob with
    | none =>
      rw [hb] at hne
      exact absurd rfl hne
    | some bytes =>
      rw [hb]
      rfl

/-- What the whole write leaves is the store with `a` installed. -/
theorem installed_putSteps (token : Str) {a : StoredArtifact} (ha : a.Storable)
    (st : FilePersistenceStore) : Installed a st (applySteps (putSteps token a) st) := by
  have hwhole : (applySteps (putSteps token a) st).recovered = (st.withBoth a).recovered :=
    recovered_congr (applySteps_putSteps_artifacts token a st)
  have hothers : AgreeBut a.id st (st.withBoth a) := by
    intro name hmeta hblob
    rw [withBoth_agree st a name hmeta hblob, withBlob_agree st a name hmeta hblob]
  have hmine : (st.withBoth a).accepted (metaName a.id) = some a.reread := by
    rw [withBoth_accepted, parse_fullMeta_reread ha.toValid ha.sized ha.nonempty]
    rfl
  refine ⟨a.reread, _, ha.reread_sameStored, recovered_eq a.id st, ?_⟩
  rw [hwhole, recovered_eq a.id, hmine, hothers.others_recovered, Option.toList_some,
    Multiset.coe_singleton, Multiset.singleton_add]

/-- **Crash atomicity of a store write.** For every content of the store and every artifact, each
crash point of the write leaves a store from which `recover` returns what it returned before or what
it returns after the whole write, if and only if the metadata in the store, if there is any for the
id, bears the new bytes.  What it returns after the whole write of an artifact that can be read back is
what it returned before, with the artifact installed. -/
theorem crash_atomic_iff (token : Str) (a : StoredArtifact) (st : FilePersistenceStore) :
    (CrashAtomic token a st ↔ BearsNewBytes a st) ∧
      (a.Storable → Installed a st (applySteps (putSteps token a) st)) := by
  refine ⟨?_, fun ha => installed_putSteps token ha st⟩
  rw [crashAtomic_iff, withBlob_accepted, withBoth_accepted,
    FilePersistenceStore.accepted_metaName]
  unfold BearsNewBytes
  cases hmeta : st.artifacts.lookup (metaName a.id) with
  | none => simp
  | some text =>
    by_cases htext : text = []
    · simp [htext]
    · have hne : text.isEmpty = false := by simpa using htext
      simp only [hne, Bool.false_eq_true, if_false, Option.getD_some, Option.some.injEq,
        forall_eq', ne_eq, htext, not_false_eq_true, forall_const]
      rw [← or_assoc]
      refine or_congr_left ?_
      constructor
      · intro heq
        cases hnew : (parseArtifactInner text (some a.bytes)).toOption with
        | none => exact .inr ⟨heq.symm.trans hnew, rfl⟩
        | some b =>
          rw [hnew] at heq
          rw [parseArtifactInner_bytes heq.symm, parseArtifactInner_bytes hnew]
          exact .inl rfl
      · rintro (hsame | ⟨hold, hnew⟩)
        · rw [hsame]
        · rw [hold, hnew]

/-! ## Replacing the bytes of a stored artifact -/

theorem storedSample_canonical (bytes : Bytes) :
    (storedSample bytes).key.canonical = ({} : KeyFields).encode := by
  have hsorted : ({} : KeyFields).sorted = {} := by decide +kernel
  show (KernelCompatibilityKey.finalize {}).canonical = _
  rw [KernelCompatibilityKey.finalize_of_wellFormed (by decide +kernel)]
  show ({} : KeyFields).sorted.encode = _
  rw [hsorted]

theorem storedSample_operation (bytes : Bytes) : (storedSample bytes).key.operation = [] := by
  show (KernelCompatibilityKey.finalize {}).toKeyFields.operation = []
  rw [KernelCompatibilityKey.finalize_toKeyFields]
  rfl

/-- Its metadata is read back, and the blob decides. -/
theorem parse_storedSample (bytes : Bytes) (blob : Option Bytes) :
    parseArtifactInner (fullMeta (storedSample bytes)) blob =
      checkBlob (.ok (storedSample bytes).readBack) blob := by
  have hsha : (storedSample bytes).PrintableSha := toHex_printable _
  rw [parseArtifactInner_fullMeta hsha, parseLines_metaLines]
  · rw [storedSample_canonical, storedSample_operation]
    show ∀ s ∈ [[], [], [], [], [], ({} : KeyFields).encode], b64decode (b64encode s) = s
    decide +kernel
  · rw [storedSample_canonical]
    decide +kernel
  · refine KernelCompatibilityKey.fromCanonical_finalize (by decide +kernel) ?_
    unfold KeyFields.Sized KeyFields.fields
    simp only [List.forall_mem_cons, List.not_mem_nil, false_imp_iff, implies_true, and_true,
      KeyField.Sized, KeyField.StrsSized, KeyField.StrSized]
    decide

/-- With its own bytes it is accepted. -/
theorem parse_storedSample_own {bytes : Bytes} (h : bytes ≠ []) :
    parseArtifactInner (fullMeta (storedSample bytes)) (some bytes) =
      .ok { (storedSample bytes).readBack with bytes := bytes } := by
  have hsize : (storedSample bytes).readBack.sizes.artifactBytes = UInt64.ofNat bytes.length := rfl
  have hsha : (storedSample bytes).readBack.sha256Hex.getD [] = toHex (Sha256.digest bytes) := by
    simp only [StoredArtifact.readBack, storedSample, Option.getD_some]
  rw [parse_storedSample]
  simp [checkBlob, h, hsize, hsha]

/-- With bytes of another length it is not. -/
theorem parse_storedSample_other {bytes bytes' : Bytes}
    (h : UInt64.ofNat bytes'.length ≠ UInt64.ofNat bytes.length) :
    (parseArtifactInner (fullMeta (storedSample bytes)) (some bytes')).toOption = none := by
  have hsize : (storedSample bytes).readBack.sizes.artifactBytes = UInt64.ofNat bytes.length := rfl
  rw [parse_storedSample]
  simp only [checkBlob, Option.getD_some, hsize]
  split
  · rfl
  · rfl

/-- **A torn overwrite.** A stored artifact gets new bytes, and the crash comes between the two
renames: the new blob stands beside metadata that gives the old length, and `recover` drops both. -/
theorem torn_overwrite :
    (storedSample [1, 2]).key.finalized = true ∧
    (storedSample [1, 2]).sizes.artifactBytes.toNat = (storedSample [1, 2]).bytes.length ∧
    0 < (storedSample [1, 2]).bytes.length ∧
    (storedSample [1, 2]).sha256Hex = some (toHex (Sha256.digest (storedSample [1, 2]).bytes)) ∧
    ¬ CrashAtomic [] (storedSample [1, 2]) (applySteps (putSteps [] (storedSample [1])) {}) := by
  have hfin : (storedSample [1, 2]).key.finalized = true :=
    (KernelCompatibilityKey.finalize_finalized _).trans (by decide +kernel)
  refine ⟨hfin, rfl, by decide, rfl, ?_⟩
  -- the old metadata stands in the store beside the old blob
  have hmeta : (applySteps (putSteps [] (storedSample [1])) {}).artifacts.lookup
      (metaName (storedSample [1, 2]).id) = some (fullMeta (storedSample [1])) := by
    rw [applySteps_putSteps_artifacts]
    exact AList.lookup_insert _
  have hblob : (applySteps (putSteps [] (storedSample [1])) {}).artifacts.lookup
      (blobName (storedSample [1, 2]).id) = some [1] := by
    rw [applySteps_putSteps_artifacts]
    refine (AList.lookup_insert_ne (Ne.symm (metaName_ne_blobName _ _))).trans ?_
    exact AList.lookup_insert _
  have hnonempty : (fullMeta (storedSample [1])).isEmpty = false := by
    simpa using fullMeta_ne_nil (storedSample [1])
  -- with the new blob it is rejected, while either whole pair of files is accepted
  have htorn : (parseArtifactInner (fullMeta (storedSample [1]))
      (some (storedSample [1, 2]).bytes)).toOption = none :=
    parse_storedSample_other (by decide)
  rw [crashAtomic_iff, withBlob_accepted, withBoth_accepted,
    FilePersistenceStore.accepted_metaName, hmeta, hblob]
  simp only [Option.getD_some, hnonempty, Bool.false_eq_true, if_false, htorn]
  rintro (hbefore | hafter)
  · rw [parse_storedSample_own (by decide)] at hbefore
    cases hbefore
  · rw [show (storedSample [1, 2]).bytes = [1, 2] from rfl, parse_storedSample_own (by decide)]
      at hafter
    cases hafter

end KernelCache
