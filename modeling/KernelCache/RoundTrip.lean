/-
# KernelCache.RoundTrip — an artifact comes back from its two files (`persistence.cpp`).

`StoredArtifact.Valid` is what `put` expects: a key that `finalize()` accepted, the length and the
checksum of the bytes.  The text that is written for such an artifact gives all its persisted
fields back, whatever bytes its strings hold: base64 keeps them out of the line format
(`parseLines_readBack`).  What the parser checks about the blob after that is `checkBlob_ok_iff`, and
with the blob that was written it holds (`parse_fullMeta`).

The lists of the key must be shorter than `2 ^ 32` (`KeyFields.Sized`): the key encoding counts their
entries in four bytes and `finalize()` does not look.
-/
import KernelCache.Base64
import KernelCache.Metadata

namespace KernelCache

open Foundation (Bytes)
open FilePersistenceStore (fullMeta)

/-! ## Hexadecimal text of a digest -/

theorem hexByte_injective {a b : UInt8}
    (h : [hexDigit (a >>> 4), hexDigit (a &&& 0x0f)] = [hexDigit (b >>> 4), hexDigit (b &&& 0x0f)]) :
    a = b := by
  have hall : ∀ n < 256, hexVal (hexDigit (UInt8.ofNat n >>> 4)) = some (n / 16) ∧
      hexVal (hexDigit (UInt8.ofNat n &&& 0x0f)) = some (n % 16) := by decide +kernel
  have hval : ∀ c : UInt8, hexVal (hexDigit (c >>> 4)) = some (c.toNat / 16) ∧
      hexVal (hexDigit (c &&& 0x0f)) = some (c.toNat % 16) := by
    intro c
    have hc := hall c.toNat c.toNat_lt
    rwa [UInt8.ofNat_toNat] at hc
  simp only [List.cons.injEq, and_true] at h
  have hhigh : some (a.toNat / 16) = some (b.toNat / 16) := by
    rw [← (hval a).1, ← (hval b).1, h.1]
  have hlow : some (a.toNat % 16) = some (b.toNat % 16) := by
    rw [← (hval a).2, ← (hval b).2, h.2]
  apply UInt8.toNat_inj.mp
  have := Option.some.inj hhigh
  have := Option.some.inj hlow
  omega

theorem hexBytes_injective (s t : Bytes)
    (h : (s.flatMap fun (b : UInt8) => [hexDigit (b >>> 4), hexDigit (b &&& 0x0f)]) =
      t.flatMap fun (b : UInt8) => [hexDigit (b >>> 4), hexDigit (b &&& 0x0f)]) : s = t := by
  induction s generalizing t with
  | nil =>
    cases t with
    | nil => rfl
    | cons b t => simp at h
  | cons a s ih =>
    cases t with
    | nil => simp at h
    | cons b t =>
      rw [List.flatMap_cons, List.flatMap_cons] at h
      obtain ⟨hhead, htail⟩ := List.append_inj h rfl
      rw [hexByte_injective hhead, ih t htail]

theorem toHex_injective {d d' : Sha256Digest} (h : toHex d = toHex d') : d = d' := by
  have hbytes := hexBytes_injective d.bytes d'.bytes h
  cases d
  cases d'
  cases hbytes
  rfl

theorem toHex_ne_nil (d : Sha256Digest) : toHex d ≠ [] := by
  rw [← List.length_pos_iff_ne_nil, toHex_length]
  decide

/-! ## Keys whose lists are not too long -/

theorem KeyFields.empty_sized : ({} : KeyFields).Sized := by
  unfold KeyFields.Sized KeyFields.fields
  simp only [List.forall_mem_cons, List.not_mem_nil, false_imp_iff, implies_true, and_true,
    KeyField.Sized, KeyField.StrsSized, KeyField.StrSized]
  decide

/-- The decoder gives back no others. -/
theorem KernelCompatibilityKey.fromCanonical_sized {b : Bytes} {k : KernelCompatibilityKey}
    (h : fromCanonical b = .ok k) : k.toKeyFields.Sized := by
  obtain ⟨f, hdec, -, rfl⟩ := fromCanonical_ok_iff.mp h
  obtain ⟨fs, hfs, -, rfl⟩ := decode_ok_iff.mp hdec
  rw [finalize_toKeyFields, ofFields_toKeyFields]
  exact KeyFields.sorted_sized (KeyFields.foldl_store_sized hfs KeyFields.empty_sized)

/-! ## What is stored -/

/-- A key as `finalize()` leaves one that it accepts. -/
def KernelCompatibilityKey.IsFinal (k : KernelCompatibilityKey) : Prop :=
  k.finalized = true ∧ k.finalize = k

theorem KernelCompatibilityKey.IsFinal.wellFormed {k : KernelCompatibilityKey} (h : k.IsFinal) :
    k.wellFormed = true := by
  rw [← KernelCompatibilityKey.finalize_finalized, h.2]
  exact h.1

/-- A finalized key, the length of the bytes and their checksum. -/
structure StoredArtifact.Valid (a : StoredArtifact) : Prop where
  final : a.key.IsFinal
  length : a.sizes.artifactBytes.toNat = a.bytes.length
  checksum : a.sha256Hex = some (toHex (Sha256.digest a.bytes))

/-- An artifact that is read back: valid, with at least one byte, and with lists in its key that a count
of 32 bits can describe.  `build_impl` hands over such an artifact if the builder has reported the size
of its bytes and `finalize()` has accepted the key; it checks neither. -/
structure StoredArtifact.Storable (a : StoredArtifact) : Prop extends a.Valid where
  sized : a.key.toKeyFields.Sized
  nonempty : a.bytes ≠ []

/-- The persisted fields of two artifacts agree, and their bytes. -/
structure StoredArtifact.SameStored (b a : StoredArtifact) : Prop where
  id : b.id = a.id
  generation : b.generation = a.generation
  key : b.key = a.key
  bytes : b.bytes = a.bytes
  sizes : b.sizes = a.sizes
  format : b.format = a.format
  namespace_ : b.namespace_ = a.namespace_
  producer : b.provenance.producer = a.provenance.producer
  tenant : b.provenance.tenant = a.provenance.tenant
  storedNs : b.storedNs = a.storedNs
  sha256Hex : b.sha256Hex = a.sha256Hex

/-- What `put` is given and what `get` gives back. -/
def StoredArtifact.reread (a : StoredArtifact) : StoredArtifact := { a.readBack with bytes := a.bytes }

namespace StoredArtifact.Valid

variable {a : StoredArtifact} (ha : a.Valid)

include ha

theorem printableSha : a.PrintableSha := by
  unfold StoredArtifact.PrintableSha
  rw [ha.checksum]
  exact toHex_printable _

theorem fromCanonical (hsized : a.key.toKeyFields.Sized) :
    KernelCompatibilityKey.fromCanonical a.key.canonical = .ok a.key := by
  have hback := KernelCompatibilityKey.fromCanonical_finalize ha.final.wellFormed hsized
  rwa [ha.final.2] at hback

theorem canonical_ne_nil : a.key.canonical ≠ [] := by
  have hcanon : a.key.canonical = a.key.toKeyFields.sorted.encode := by
    conv_lhs => rw [← ha.final.2]
    rw [KernelCompatibilityKey.finalize_of_wellFormed ha.final.wellFormed]
  obtain ⟨rest, hrest⟩ := KernelCompatibilityKey.encode_eq_version_append a.key.toKeyFields.sorted
  rw [hcanon, hrest]
  simp

/-- The fields come back from the lines. -/
theorem parseLines_readBack (hsized : a.key.toKeyFields.Sized) :
    parseLines {} (metaLines a) = .ok a.readBack :=
  parseLines_metaLines (fun s _ => b64DecodeLoop_b64encode 0 [] s) ha.canonical_ne_nil
    (ha.fromCanonical hsized)

theorem readBack_sha : a.readBack.sha256Hex = some (toHex (Sha256.digest a.bytes)) := by
  show some (a.sha256Hex.getD []) = _
  rw [ha.checksum, Option.getD_some]

theorem reread_sameStored : a.reread.SameStored a where
  id := rfl
  generation := rfl
  key := rfl
  bytes := rfl
  sizes := rfl
  format := rfl
  namespace_ := rfl
  producer := rfl
  tenant := rfl
  storedNs := rfl
  sha256Hex := ha.readBack_sha.trans ha.checksum.symm

end StoredArtifact.Valid

/-! ## What the parser checks about the blob -/

/-- A blob is accepted when there is one, it has the length that is recorded, and its checksum is the
one that is recorded, if one is. -/
theorem checkBlob_ok_iff {fields b : StoredArtifact} {blob : Option Bytes} :
    checkBlob (.ok fields) blob = .ok b ↔
      ∃ bytes, blob = some bytes ∧ bytes ≠ [] ∧
        UInt64.ofNat bytes.length = fields.sizes.artifactBytes ∧
        (fields.sha256Hex.getD [] = [] ∨
          fields.sha256Hex.getD [] = toHex (Sha256.digest bytes)) ∧
        b = { fields with bytes := bytes } := by
  unfold checkBlob
  dsimp only
  constructor
  · intro h
    split at h
    · cases h
    rename_i hne
    split at h
    · cases h
    rename_i hlength
    split at h
    · cases h
    rename_i hsha
    cases h
    cases blob with
    | none => exact absurd rfl hne
    | some bytes =>
      refine ⟨bytes, rfl, by simpa using hne, not_not.mp hlength, ?_, rfl⟩
      by_cases hnil : fields.sha256Hex.getD [] = []
      · exact .inl hnil
      · right
        simpa [hnil] using hsha
  · rintro ⟨bytes, rfl, hne, hlength, hsha, rfl⟩
    rw [Option.getD_some, if_neg (by simpa using hne), if_neg (not_not.mpr hlength), if_neg]
    rcases hsha with hsha | hsha
    · simp [hsha]
    · simp [hsha]

/-! ## The round trip -/

/-- The parser on the text of an artifact, with any blob. -/
theorem parse_fullMeta_ok_iff {a b : StoredArtifact} (ha : a.Valid)
    (hsized : a.key.toKeyFields.Sized) {blob : Option Bytes} :
    parseArtifactInner (fullMeta a) blob = .ok b ↔
      ∃ bytes, blob = some bytes ∧ bytes ≠ [] ∧ UInt64.ofNat bytes.length = a.sizes.artifactBytes ∧
        Sha256.digest bytes = Sha256.digest a.bytes ∧ b = { a.readBack with bytes := bytes } := by
  rw [parseArtifactInner_fullMeta ha.printableSha, ha.parseLines_readBack hsized, checkBlob_ok_iff]
  refine exists_congr fun bytes => and_congr_right fun _ => and_congr_right fun _ =>
    and_congr_right fun _ => and_congr_left fun _ => ?_
  rw [ha.readBack_sha, Option.getD_some]
  constructor
  · rintro (hnil | hsame)
    · exact absurd hnil (toHex_ne_nil _)
    · exact (toHex_injective hsame).symm
  · intro hsame
    exact .inr (congrArg toHex hsame.symm)

theorem parse_fullMeta_reread {a : StoredArtifact} (ha : a.Valid)
    (hsized : a.key.toKeyFields.Sized) (hne : a.bytes ≠ []) :
    parseArtifactInner (fullMeta a) (some a.bytes) = .ok a.reread := by
  refine (parse_fullMeta_ok_iff ha hsized).mpr ⟨a.bytes, rfl, hne, ?_, rfl, rfl⟩
  rw [← ha.length, UInt64.ofNat_toNat]

/-- **Metadata round trip.** The text of an artifact, read beside its bytes, gives the artifact back,
for any contents of its strings. -/
theorem parse_fullMeta {a : StoredArtifact} (ha : a.Valid) (hsized : a.key.toKeyFields.Sized)
    (hne : a.bytes ≠ []) :
    ∃ b, parseArtifactInner (fullMeta a) (some a.bytes) = .ok b ∧ b.SameStored a :=
  ⟨_, parse_fullMeta_reread ha hsized hne, ha.reread_sameStored⟩

/-- A stored artifact with these bytes, as the cache writes them. -/
def storedSample (bytes : Bytes) : StoredArtifact where
  id := ⟨⟨1, 7⟩⟩
  generation := 1
  key := ({} : KernelCompatibilityKey).finalize
  bytes := bytes
  sizes := { artifactBytes := UInt64.ofNat bytes.length }
  sha256Hex := some (toHex (Sha256.digest bytes))

theorem storedSample_final (bytes : Bytes) : (storedSample bytes).key.IsFinal :=
  ⟨(KernelCompatibilityKey.finalize_finalized _).trans (by decide +kernel),
    KernelCompatibilityKey.finalize_finalize _⟩

theorem storedSample_sized (bytes : Bytes) : (storedSample bytes).key.toKeyFields.Sized := by
  show (KernelCompatibilityKey.finalize {}).toKeyFields.Sized
  rw [KernelCompatibilityKey.finalize_toKeyFields]
  exact KeyFields.sorted_sized KeyFields.empty_sized

theorem storedSample_valid {bytes : Bytes} (h : bytes.length < 2 ^ 64) :
    (storedSample bytes).Valid where
  final := storedSample_final bytes
  length := by
    show (UInt64.ofNat bytes.length).toNat = _
    rw [UInt64.toNat_ofNat', Nat.mod_eq_of_lt h]
    rfl
  checksum := rfl

/-- The sample in a namespace that would break the lines. -/
def brokenSample : StoredArtifact :=
  { storedSample [1, 2] with namespace_ := [10, 61, 0, 255], format := str "id=\n" }

theorem parse_fullMeta_brokenSample : ∃ b,
    parseArtifactInner (fullMeta brokenSample) (some [1, 2]) = .ok b ∧ b.SameStored brokenSample :=
  parse_fullMeta ⟨storedSample_final [1, 2], rfl, rfl⟩ (storedSample_sized [1, 2]) (by decide)

end KernelCache
