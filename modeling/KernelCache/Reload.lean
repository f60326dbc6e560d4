/-
# KernelCache.Reload — what a reload is bound to (`persistence.cpp`, `FilePersistenceStore::get`).

`get` finds the two files of an id by their names and lets `parse_artifact_inner` check them against
each other.  The parser is handed the id that was asked for and drops it; and it compares the blob with
an artifact checksum only where the metadata has one.  So whether an accepted pair is the artifact that
was asked for depends on two lines of the metadata, the last `id=` and the last `artifact_sha256=`:
`reload_genuine_iff`.  A pair of files copied to other names is accepted there, and without a checksum
any bytes of the right length are (`copied_reload`).
-/
import KernelCache.Crash

namespace KernelCache

open Foundation (Bytes)
open FilePersistenceStore (fullMeta)

/-! ## The lines the parser keeps -/

/-- The lines of a metadata text behind the magic line, the checksum lines left out. -/
def textLines (text : Str) : List Str :=
  ((getlines 10 [] text).tail.map stripCR).filter fun l => (field? "meta_sha256" l).isNone

theorem splitMeta_lines {ls lines : List Str} {body sha : Str} {r : Str × List Str × Str}
    (h : splitMeta body lines sha ls = .ok r) :
    r.2.1 = lines ++ (ls.map stripCR).filter fun l => (field? "meta_sha256" l).isNone := by
  induction ls generalizing body lines sha with
  | nil =>
    cases h
    simp
  | cons l ls ih =>
    simp only [splitMeta] at h
    rw [List.map_cons, List.filter_cons]
    split at h
    · rename_i v hfield
      rw [hfield]
      split at h
      · cases h
      · exact ih h
    · rename_i hfield
      rw [hfield]
      rw [ih h]
      simp

/-- **An accepted pair of files.** The fields are those of the lines, and the blob passed the check. -/
theorem parse_ok {text : Str} {blob : Option Bytes} {a : StoredArtifact}
    (h : parseArtifactInner text blob = .ok a) :
    ∃ fields, parseLines {} (textLines text) = .ok fields ∧ checkBlob (.ok fields) blob = .ok a := by
  unfold parseArtifactInner at h
  unfold textLines
  split at h
  · cases h
  rename_i first rest hlines
  rw [hlines]
  dsimp only at h
  split at h
  · cases h
  split at h
  · cases h
  rename_i body lines sha hsplit
  have hkept : lines = _ := splitMeta_lines hsplit
  rw [List.nil_append] at hkept
  split at h
  · cases h
  split at h
  · cases h
  split at h
  · cases h
  rename_i fields hfields
  rw [hkept] at hfields
  exact ⟨fields, hfields, h⟩

/-! ## The last line of a field -/

/-- The value of the last line `key=…`. -/
def lastField (key : String) : List Str → Option Str
  | [] => none
  | l :: ls => (lastField key ls).or (field? key l)

theorem field?_eq_some {key : String} {l v : Str} (h : field? key l = some v) :
    l = fieldLine key v := by
  unfold field? at h
  split at h
  · rename_i hprefix
    rw [List.isPrefixOf_iff_prefix] at hprefix
    obtain ⟨rest, rfl⟩ := hprefix
    have hlen : key.length + 1 = (str key ++ [61]).length := by
      rw [← str_length, List.length_append, List.length_singleton]
    rw [hlen, List.drop_left] at h
    cases h
    rfl
  · cases h

/-- A line that names an id gives it. -/
theorem parseLine_id_some {a a' : StoredArtifact} {l v : Str} (hl : field? "id" l = some v)
    (h : parseLine a l = .ok a') :
    StrongId128.parse v = .ok a'.id.toStrongId128 ∧ a'.sha256Hex = a.sha256Hex := by
  have hline : field? "id" l ≠ none := by
    rw [hl]
    exact Option.some_ne_none v
  cases parseLine_ok h with
  | id hl' hid =>
    obtain rfl := Option.some.inj (hl.symm.trans hl')
    exact ⟨hid, rfl⟩
  | sha hnot hl => exact absurd hnot hline
  | key hnot hl hkey => exact absurd hnot hline
  | other hnot hid hsha hkey => exact absurd hnot hline

/-- A line with an artifact checksum replaces it and nothing else. -/
theorem parseLine_sha_some {a : StoredArtifact} {l v : Str}
    (hl : field? "artifact_sha256" l = some v) :
    parseLine a l = .ok { a with sha256Hex := some v } := by
  rw [field?_eq_some hl]
  simp (disch := decide) only [parseLine, field?_same, field?_other]

/-- No other line touches it. -/
theorem parseLine_sha_none {a a' : StoredArtifact} {l : Str}
    (hl : field? "artifact_sha256" l = none) (h : parseLine a l = .ok a') :
    a'.sha256Hex = a.sha256Hex := by
  cases parseLine_ok h with
  | id hl hid => rfl
  | sha hnot hl' =>
    rw [hl] at hl'
    cases hl'
  | key hnot hl hkey => rfl
  | other hnot hid hsha hkey => exact hsha

theorem parseLines_sha {a b : StoredArtifact} {ls : List Str} (h : parseLines a ls = .ok b) :
    b.sha256Hex = (lastField "artifact_sha256" ls).or a.sha256Hex := by
  induction ls generalizing a with
  | nil =>
    cases h
    rfl
  | cons l ls ih =>
    simp only [parseLines] at h
    split at h
    · cases h
    · rename_i a₁ h₁
      rw [ih h, lastField, Option.or_assoc]
      congr 1
      cases hl : field? "artifact_sha256" l with
      | none => exact parseLine_sha_none hl h₁
      | some v =>
        rw [parseLine_sha_some hl] at h₁
        cases h₁
        rfl

/-- The id that the lines name; without an id line it is the one that was there before. -/
theorem parseLines_id_iff {a b : StoredArtifact} {ls : List Str} (h : parseLines a ls = .ok b)
    (id : ArtifactId) : b.id = id ↔
      match lastField "id" ls with
      | some v => StrongId128.parse v = .ok id.toStrongId128
      | none => a.id = id := by
  induction ls generalizing a with
  | nil =>
    cases h
    rfl
  | cons l ls ih =>
    simp only [parseLines] at h
    split at h
    · cases h
    · rename_i a₁ h₁
      rw [ih h, lastField]
      cases hrest : lastField "id" ls with
      | some v => rfl
      | none =>
        cases hl : field? "id" l with
        | none => rw [Option.or_none, parseLine_id hl h₁]
        | some v =>
          rw [Option.none_or]
          show a₁.id = id ↔ StrongId128.parse v = .ok id.toStrongId128
          rw [(parseLine_id_some hl h₁).1]
          constructor
          · rintro rfl
            rfl
          · intro hid
            exact ArtifactId.ext_strong (Except.ok.inj hid)

/-! ## The reload -/

/-- The artifact is the one that was asked for: its id, the length that is recorded, and a checksum
that is recorded and is that of its bytes. -/
structure Genuine (id : ArtifactId) (a : StoredArtifact) : Prop where
  id : a.id = id
  length : UInt64.ofNat a.bytes.length = a.sizes.artifactBytes
  checksum : ∃ sha, a.sha256Hex = some sha ∧ sha ≠ [] ∧ sha = toHex (Sha256.digest a.bytes)

/-- The text is bound to the id and to a blob: its last id line names the id, or it has none and the id
is zero, and its last line for the artifact checksum is not blank. -/
def BoundText (id : ArtifactId) (text : Str) : Prop :=
  (match lastField "id" (textLines text) with
    | some v => StrongId128.parse v = .ok id.toStrongId128
    | none => ({} : ArtifactId) = id) ∧
  ∃ sha, lastField "artifact_sha256" (textLines text) = some sha ∧ sha ≠ []

/-- **When a reload is what was asked for.** For every content of the directory and every artifact
that `get` returns from it. -/
theorem reload_genuine_iff {st : FilePersistenceStore} {id : ArtifactId} {a : StoredArtifact}
    (h : st.get id = .ok a) :
    Genuine id a ↔ BoundText id ((st.artifacts.lookup (metaName id)).getD []) := by
  have hparse : parseArtifactInner ((st.artifacts.lookup (metaName id)).getD [])
      (st.artifacts.lookup (blobName id)) = .ok a := by
    unfold FilePersistenceStore.get at h
    dsimp only at h
    split at h
    · cases h
    · exact h
  obtain ⟨fields, hfields, hcheck⟩ := parse_ok hparse
  obtain ⟨bytes, -, -, hlength, hsha, rfl⟩ := checkBlob_ok_iff.mp hcheck
  have hid := parseLines_id_iff hfields id
  have hlast := parseLines_sha hfields
  rw [show ({} : StoredArtifact).sha256Hex = none from rfl, Option.or_none] at hlast
  constructor
  · intro hgenuine
    obtain ⟨sha, hsome, hne, -⟩ := hgenuine.checksum
    exact ⟨hid.mp hgenuine.id, sha, hlast.symm.trans hsome, hne⟩
  · rintro ⟨hbound, sha, hsome, hne⟩
    have hrecorded : fields.sha256Hex = some sha := hlast.trans hsome
    refine ⟨hid.mpr hbound, hlength, sha, hrecorded, hne, ?_⟩
    rw [hrecorded, Option.getD_some] at hsha
    exact hsha.resolve_left hne

/-- The files of the sample under the names of another id. -/
def copiedStore (id : ArtifactId) (a : StoredArtifact) (blob : Bytes) : FilePersistenceStore where
  artifacts := ((∅ : Map Str Bytes).insert (blobName id) blob).insert (metaName id) (fullMeta a)

theorem get_copiedStore (id : ArtifactId) (a : StoredArtifact) (blob : Bytes) :
    (copiedStore id a blob).get id = parseArtifactInner (fullMeta a) (some blob) := by
  unfold copiedStore FilePersistenceStore.get
  dsimp only
  rw [AList.lookup_insert, AList.lookup_insert_ne (Ne.symm (metaName_ne_blobName _ _)),
    AList.lookup_insert, Option.getD_some, if_neg]
  simpa using fullMeta_ne_nil a

theorem reload_genuine_iff_sample :
    Genuine ⟨⟨1, 7⟩⟩ (storedSample [1, 2]).reread ↔
      BoundText ⟨⟨1, 7⟩⟩ (((copiedStore ⟨⟨1, 7⟩⟩ (storedSample [1, 2]) [1, 2]).artifacts.lookup
        (metaName ⟨⟨1, 7⟩⟩)).getD []) := by
  refine reload_genuine_iff ?_
  rw [get_copiedStore]
  exact parse_fullMeta_reread (storedSample_valid (by decide)) (storedSample_sized _) (by decide)

/-- The sample without a checksum. -/
def uncheckedSample : StoredArtifact := { storedSample [1, 2] with sha256Hex := none }

theorem parse_uncheckedSample : parseArtifactInner (fullMeta uncheckedSample) (some [3, 4]) =
    .ok { uncheckedSample.readBack with bytes := [3, 4] } := by
  have hvalid : (storedSample [1, 2]).Valid := storedSample_valid (by decide)
  have hlines : parseLines {} (metaLines uncheckedSample) = .ok uncheckedSample.readBack :=
    parseLines_metaLines (fun s _ => b64DecodeLoop_b64encode 0 [] s) hvalid.canonical_ne_nil
      (hvalid.fromCanonical (storedSample_sized _))
  have hprint : uncheckedSample.PrintableSha := Printable.nil
  rw [parseArtifactInner_fullMeta hprint, hlines]
  exact checkBlob_ok_iff.mpr ⟨[3, 4], rfl, by decide, rfl, .inl rfl, rfl⟩

/-- **Copied and unchecked pairs are accepted.** The files of the artifact (1, 7), copied to the names
of (2, 7), are returned for (2, 7); and under its own names, without an artifact checksum, it is
returned with other bytes of the same length. -/
theorem copied_reload :
    (∃ a, (copiedStore ⟨⟨2, 7⟩⟩ (storedSample [1, 2]) [1, 2]).get ⟨⟨2, 7⟩⟩ = .ok a ∧
      ¬ Genuine ⟨⟨2, 7⟩⟩ a) ∧
    ∃ a, (copiedStore ⟨⟨1, 7⟩⟩ uncheckedSample [3, 4]).get ⟨⟨1, 7⟩⟩ = .ok a ∧
      ¬ Genuine ⟨⟨1, 7⟩⟩ a := by
  constructor
  · refine ⟨(storedSample [1, 2]).reread, ?_, fun hgenuine => ?_⟩
    · rw [get_copiedStore]
      exact parse_fullMeta_reread (storedSample_valid (by decide)) (storedSample_sized _) (by decide)
    · exact absurd hgenuine.id (by decide)
  · refine ⟨_, (get_copiedStore _ _ _).trans parse_uncheckedSample, fun hgenuine => ?_⟩
    obtain ⟨sha, hsome, hne, -⟩ := hgenuine.checksum
    cases hsome
    exact hne rfl

end KernelCache
