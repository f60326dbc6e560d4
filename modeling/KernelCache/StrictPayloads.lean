/-
# KernelCache.StrictPayloads — when a payload decoder accepts nothing but encodings.

Every decoder of the distributed protocol reads its fields and stops: none asks whether the payload
ends there.  Up to that question the decoders are strict.  `payloads_strict_iff` says it for all seven
of them: what a decoder accepts is what its encoder writes for the decoded values, exactly when the
payload does not go on behind the fields that its own length words describe.
-/
import KernelCache.Foundation.Layout
import KernelCache.Distributed

namespace KernelCache

open Foundation (Bytes Reader Exact Fill Field extent Laid)
open DistReader (u8 u64)

/-! ## Layouts -/

/-- A word. -/
abbrev word : Field := .fixed 8

/-- An authority behind its marker: five words and two identities more. -/
def authorityLayout : List Field := [.fixed 80]

def lookupRequestBodyLayout : List Field := [.fixed 16, .sized, .sized, .sized, .fixed 1]

def buildRequestBodyLayout : List Field := [.fixed 16, .sized, .sized, .sized, .sized]

/-- The marker, the authority, the request id, the operation, the key, the namespace, the tier. -/
def lookupRequestLayout : List Field := .fixed 1 :: (authorityLayout ++ lookupRequestBodyLayout)

/-- The request id, the outcome, the compatibility, the artifact id, its generation. -/
def lookupResponseLayout : List Field := [.fixed 16, .fixed 1, .fixed 1, .fixed 16, word]

/-- The marker, the authority, the request id, the key, the source, the namespace, the architecture. -/
def buildRequestLayout : List Field := .fixed 1 :: (authorityLayout ++ buildRequestBodyLayout)

/-- The request id, the artifact id, its generation, the error code, the error. -/
def buildResponseLayout : List Field := [.fixed 16, .fixed 16, word, .fixed 1, .sized]

/-- The worker, its boot id, its generation. -/
def registerLayout : List Field := [word, .fixed 16, word]

/-- The epoch, the worker, the flag. -/
def registerAckLayout : List Field := [word, word, .fixed 1]

def rollEpochLayout : List Field := [word]

/-! ## Readers -/

namespace DistReader

theorem str_exact : Exact appendSized (fun s => s.length < 2 ^ 64) str where
  complete _ rest hs := str_complete hs rest
  sound input s rest h := by
    obtain ⟨hs, hin⟩ := CanonicalReader.str_exact.sound input s rest h
    refine ⟨hs, hin.trans ?_⟩
    have hwritten := (CanonicalReader.str_exact.sound _ _ _ (str_complete hs rest)).2
    exact hwritten.symm

theorem u8_laid : Laid [.fixed 1] u8 := .fixed Reader.Fixed.byte

theorem u64_laid : Laid [word] u64 := .fixed u64_fixed

theorem id_laid : Laid [.fixed 16] id := .fixed id_fixed

theorem str_laid : Laid [.sized] str := .blob

end DistReader

open DistReader (u8_exact u64_exact id_exact str_exact u8_laid u64_laid id_laid str_laid)

theorem authorityReader_laid : Laid authorityLayout authorityReader := by
  have hfixed : Reader.Fixed 80 authorityReader :=
    DistReader.u64_fixed.prod <| DistReader.u64_fixed.prod <| DistReader.id_fixed.prod <|
      DistReader.u64_fixed.prod <| DistReader.u64_fixed.prod <|
      DistReader.id_fixed.prod DistReader.id_fixed
  exact .fixed hfixed

/-- The words of an authority, written. -/
def appendAuthorityWords : AuthorityWords → Bytes
  | (e, w, b, c, g, t, r) =>
    appendU64Be e ++ (appendU64Be w ++ (appendId b ++ (appendU64Be c ++ (appendU64Be g ++
      (appendId t ++ appendId r)))))

theorem authorityReader_exact : Exact appendAuthorityWords (fun _ => True) authorityReader :=
  (u64_exact.prod <| u64_exact.prod <| id_exact.prod <| u64_exact.prod <| u64_exact.prod <|
    id_exact.prod id_exact).congr (fun _ => rfl) fun _ => by simp only [and_self]

theorem encodeAuthority_words (words : AuthorityWords) :
    encodeAuthority (authorityOf words) = 1 :: appendAuthorityWords words := by
  simp [encodeAuthority, authorityOf, appendAuthorityWords]

/-! ## Decoders -/

/-- What a decoder makes of a fill: an answer `get`, or a failure. -/
structure Answers {α σ : Type} (decode : Result α × σ) (filled : Option Bytes × σ) (get : σ → α) :
    Prop where
  accepted : ∀ left s, filled = (some left, s) → decode = (.ok (get s), s)
  refused : ∀ s, filled = (none, s) → ∃ error, decode = (.error error, s)

/-- Such a decoder accepts where its fill gets through. -/
theorem Answers.accepts_iff {α σ : Type} {decode : Result α × σ} {filled : Option Bytes × σ}
    {get : σ → α} (h : Answers decode filled get) {P : α → σ → Prop} :
    (∀ a s, decode = (.ok a, s) → P a s) ↔ ∀ left s, filled = (some left, s) → P (get s) s := by
  obtain ⟨_ | left, s⟩ := filled
  · obtain ⟨error, rfl⟩ := h.refused s rfl
    exact iff_of_true (by rintro _ _ ⟨⟩) (by rintro _ _ ⟨⟩)
  · obtain rfl := h.accepted left s rfl
    constructor
    · rintro hdecode _ _ ⟨⟩
      exact hdecode _ _ rfl
    · rintro hfill _ _ ⟨⟩
      exact hfill _ _ rfl

/-- The same of a decoder whose answer is only that it accepts. -/
theorem Answers.accepts_unit_iff {σ : Type} {decode : Result Unit × σ} {filled : Option Bytes × σ}
    (h : Answers decode filled fun _ => ()) {P : σ → Prop} :
    (∀ s, decode = (.ok (), s) → P s) ↔ ∀ left s, filled = (some left, s) → P s := by
  rw [← h.accepts_iff (P := fun _ => P)]
  exact ⟨fun hdecode _ => hdecode, fun hdecode => hdecode ()⟩

/-- What follows the authority of a lookup request, read. -/
abbrev lookupRequestBody : Reader (StrongId128 × Bytes × Bytes × Bytes × UInt8) :=
  DistReader.id.prod <| DistReader.str.prod <| DistReader.str.prod <| DistReader.str.prod u8

theorem LookupRequest.fillBody_reads : LookupRequest.fillBody.Reads lookupRequestBody
    fun b r => { r with rid := ⟨b.1⟩, operation := b.2.1, keyCanonical := b.2.2.1,
                        ns := b.2.2.2.1, desiredTier := b.2.2.2.2 } :=
  (Fill.field_reads _ _).andThen <| (Fill.field_reads _ _).andThen <|
    (Fill.field_reads _ _).andThen <| (Fill.field_reads _ _).andThen (Fill.field_reads _ _)

/-- The request that the output parameters of `decode_lookup_request` describe, encoded. -/
def LookupRequest.encode (r : LookupRequest) : Bytes :=
  encodeLookupRequest r.authority r.rid r.operation r.keyCanonical r.ns r.desiredTier

/-- A lookup request behind the marker. -/
theorem LookupRequest.fill_strict (rest : Bytes) (out : LookupRequest) :
    (∀ left out', LookupRequest.fill rest out = (some left, out') → out'.encode = 1 :: rest) ↔
      rest.length ≤ extent (authorityLayout ++ lookupRequestBodyLayout) rest := by
  have hreads := LookupRequest.fillAuthority_reads.andThen LookupRequest.fillBody_reads
  have hlaid := authorityReader_laid.prod
    (id_laid.prod <| str_laid.prod <| str_laid.prod <| str_laid.prod u8_laid)
  have hexact := authorityReader_exact.prod
    (id_exact.prod <| str_exact.prod <| str_exact.prod <| str_exact.prod u8_exact)
  refine Iff.trans ?_ (hreads.strict_iff (v := fun r => r.encode.tail) hlaid hexact ?_ rest out)
  · refine forall₃_congr fun left out' _ => ?_
    simp [LookupRequest.encode, encodeLookupRequest, encodeAuthority]
  · intro words r
    simp [LookupRequest.encode, encodeLookupRequest, encodeAuthority_words]

abbrev buildRequestBody : Reader (StrongId128 × Bytes × Bytes × Bytes × Bytes) :=
  DistReader.id.prod <| DistReader.str.prod <| DistReader.str.prod <|
    DistReader.str.prod DistReader.str

theorem DistBuildRequest.fillBody_reads : DistBuildRequest.fillBody.Reads buildRequestBody
    fun b r => { r with rid := ⟨b.1⟩, keyCanonical := b.2.1, source := b.2.2.1,
                        ns := b.2.2.2.1, arch := b.2.2.2.2 } :=
  (Fill.field_reads _ _).andThen <| (Fill.field_reads _ _).andThen <|
    (Fill.field_reads _ _).andThen <| (Fill.field_reads _ _).andThen (Fill.field_reads _ _)

def DistBuildRequest.encode (r : DistBuildRequest) : Bytes :=
  encodeBuildRequest r.authority r.rid r.keyCanonical r.source r.ns r.arch

theorem DistBuildRequest.fill_strict (rest : Bytes) (out : DistBuildRequest) :
    (∀ left out', DistBuildRequest.fill rest out = (some left, out') → out'.encode = 1 :: rest) ↔
      rest.length ≤ extent (authorityLayout ++ buildRequestBodyLayout) rest := by
  have hreads := DistBuildRequest.fillAuthority_reads.andThen DistBuildRequest.fillBody_reads
  have hlaid := authorityReader_laid.prod
    (id_laid.prod <| str_laid.prod <| str_laid.prod <| str_laid.prod str_laid)
  have hexact := authorityReader_exact.prod
    (id_exact.prod <| str_exact.prod <| str_exact.prod <| str_exact.prod str_exact)
  refine Iff.trans ?_ (hreads.strict_iff (v := fun r => r.encode.tail) hlaid hexact ?_ rest out)
  · refine forall₃_congr fun left out' _ => ?_
    simp [DistBuildRequest.encode, encodeBuildRequest, encodeAuthority]
  · intro words r
    simp [DistBuildRequest.encode, encodeBuildRequest, encodeAuthority_words]

/-- Behind another marker nothing is accepted, and the empty payload is too short. -/
theorem marked_iff {p : Bytes} {fs : List Field} {P : Prop}
    (hrefused : p.head? ≠ some 1 → P)
    (hmarked : ∀ rest, p = 1 :: rest → (P ↔ rest.length ≤ extent fs rest)) :
    P ↔ (p.head? = some 1 → p.length ≤ extent (.fixed 1 :: fs) p) := by
  by_cases hhead : p.head? = some 1
  · obtain ⟨rest, rfl⟩ := List.head?_eq_some_iff.mp hhead
    have hextent : extent (.fixed 1 :: fs) (1 :: rest) = 1 + extent fs rest := rfl
    rw [hmarked rest rfl, hextent, List.length_cons]
    constructor
    · rintro hlen -
      omega
    · intro h
      have hlen := h rfl
      omega
  · exact iff_of_true (hrefused hhead) fun h => absurd h hhead

/-- Both requests ask for the marker first. -/
theorem marker_of_lookupRequest {p : Bytes} {out out' : LookupRequest} {auth : DistAuthority}
    (h : decodeLookupRequest p out = (.ok auth, out')) : p.head? = some 1 := by
  unfold decodeLookupRequest at h
  split at h
  · cases h
  · rename_i marker rest hmarker
    split at h
    · cases h
    · rename_i hone
      rw [u8_eq_some hmarker, Decidable.not_not.mp hone]
      rfl

theorem marker_of_buildRequest {p : Bytes} {out out' : DistBuildRequest} {auth : DistAuthority}
    (h : decodeBuildRequest p out = (.ok auth, out')) : p.head? = some 1 := by
  unfold decodeBuildRequest at h
  split at h
  · cases h
  · rename_i marker rest hmarker
    split at h
    · cases h
    · rename_i hone
      rw [u8_eq_some hmarker, Decidable.not_not.mp hone]
      rfl

theorem decodeLookupRequest_answers (rest : Bytes) (out : LookupRequest) :
    Answers (decodeLookupRequest (1 :: rest) out) (LookupRequest.fill rest out) LookupRequest.authority where
  accepted left s h := by simp [decodeLookupRequest, h]
  refused s h := by simp [decodeLookupRequest, h, fail]

theorem lookupRequest_strict (p : Bytes) (out : LookupRequest) :
    (∀ auth out', decodeLookupRequest p out = (.ok auth, out') →
      encodeLookupRequest auth out'.rid out'.operation out'.keyCanonical out'.ns
        out'.desiredTier = p) ↔
    (p.head? = some 1 → p.length ≤ extent lookupRequestLayout p) := by
  refine marked_iff (fun hhead auth out' h => absurd (marker_of_lookupRequest h) hhead) ?_
  rintro rest rfl
  rw [← LookupRequest.fill_strict rest out]
  exact (decodeLookupRequest_answers rest out).accepts_iff

theorem decodeBuildRequest_answers (rest : Bytes) (out : DistBuildRequest) :
    Answers (decodeBuildRequest (1 :: rest) out) (DistBuildRequest.fill rest out) DistBuildRequest.authority where
  accepted left s h := by simp [decodeBuildRequest, h]
  refused s h := by simp [decodeBuildRequest, h, fail]

theorem buildRequest_strict (p : Bytes) (out : DistBuildRequest) :
    (∀ auth out', decodeBuildRequest p out = (.ok auth, out') →
      encodeBuildRequest auth out'.rid out'.keyCanonical out'.source out'.ns out'.arch = p) ↔
    (p.head? = some 1 → p.length ≤ extent buildRequestLayout p) := by
  refine marked_iff (fun hhead auth out' h => absurd (marker_of_buildRequest h) hhead) ?_
  rintro rest rfl
  rw [← DistBuildRequest.fill_strict rest out]
  exact (decodeBuildRequest_answers rest out).accepts_iff

/-! ### Without a marker -/

theorem decodeLookupResponse_answers (p : Bytes) (out : LookupResponse) :
    Answers (decodeLookupResponse p out) (LookupResponse.fill p out) fun _ => () where
  accepted left s h := by simp [decodeLookupResponse, h]
  refused s h := by simp [decodeLookupResponse, h, fail]

theorem lookupResponse_strict (p : Bytes) (out : LookupResponse) :
    (∀ out', decodeLookupResponse p out = (.ok (), out') →
      encodeLookupResponse out'.rid out'.outcome out'.id out'.gen out'.compatible = p) ↔
    p.length ≤ extent lookupResponseLayout p := by
  have hreads : LookupResponse.fill.Reads _ _ :=
    (Fill.field_reads _ _).andThen <| (Fill.field_reads _ _).andThen <|
      (Fill.field_reads _ _).andThen <| (Fill.field_reads _ _).andThen (Fill.field_reads _ _)
  have hlaid := id_laid.prod <| u8_laid.prod <| u8_laid.prod <| id_laid.prod u64_laid
  have hexact := id_exact.prod <| u8_exact.prod <| u8_exact.prod <| id_exact.prod u64_exact
  refine (decodeLookupResponse_answers p out).accepts_unit_iff.trans (hreads.strict_iff hlaid hexact (fun words r => ?_) p out)
  simp [encodeLookupResponse]

theorem decodeBuildResponse_answers (p : Bytes) (out : BuildResponse) :
    Answers (decodeBuildResponse p out) (BuildResponse.fill p out) fun _ => () where
  accepted left s h := by simp [decodeBuildResponse, h]
  refused s h := by simp [decodeBuildResponse, h, fail]

theorem buildResponse_strict (p : Bytes) (out : BuildResponse) :
    (∀ out', decodeBuildResponse p out = (.ok (), out') →
      encodeBuildResponse out'.rid out'.id out'.gen out'.errorCode out'.error = p) ↔
    p.length ≤ extent buildResponseLayout p := by
  have hreads : BuildResponse.fill.Reads _ _ :=
    (((Fill.field_reads _ _).andThen (Fill.field_reads _ _)).andThen (Fill.field_reads _ _)).andThen
      ((Fill.field_reads _ _).andThen (Fill.field_reads _ _))
  have hlaid := ((id_laid.prod id_laid).prod u64_laid).prod (u8_laid.prod str_laid)
  have hexact := ((id_exact.prod id_exact).prod u64_exact).prod (u8_exact.prod str_exact)
  refine (decodeBuildResponse_answers p out).accepts_unit_iff.trans (hreads.strict_iff hlaid hexact (fun words r => ?_) p out)
  simp [encodeBuildResponse]

theorem decodeRegisterAck_answers (p : Bytes) (out : RegisterAck) :
    Answers (decodeRegisterAck p out) (RegisterAck.fill p out) fun _ => () where
  accepted left s h := by simp [decodeRegisterAck, h]
  refused s h := by simp [decodeRegisterAck, h, fail]

theorem registerAck_strict (p : Bytes) (out : RegisterAck) :
    (∀ out', decodeRegisterAck p out = (.ok (), out') →
      encodeRegisterAck out'.epoch out'.worker out'.ok = p) ↔
    p.length ≤ extent registerAckLayout p := by
  have hreads : RegisterAck.fill.Reads _ _ :=
    (Fill.field_reads _ _).andThen <| (Fill.field_reads _ _).andThen (Fill.field_reads _ _)
  have hlaid := u64_laid.prod <| u64_laid.prod u8_laid
  have hexact := u64_exact.prod <| u64_exact.prod u8_exact
  refine (decodeRegisterAck_answers p out).accepts_unit_iff.trans (hreads.strict_iff hlaid hexact (fun words r => ?_) p out)
  simp [encodeRegisterAck]

theorem decodeRollEpoch_answers (p : Bytes) (out : CoordinatorEpoch) :
    Answers (decodeRollEpoch p out) (Fill.field u64 (fun e (_ : CoordinatorEpoch) => e) p out)
      fun _ => () where
  accepted left s h := by simp [decodeRollEpoch, h]
  refused s h := by simp [decodeRollEpoch, h, fail]

theorem rollEpoch_strict (p : Bytes) (out : CoordinatorEpoch) :
    (∀ out', decodeRollEpoch p out = (.ok (), out') → encodeRollEpoch out' = p) ↔
    p.length ≤ extent rollEpochLayout p :=
  (decodeRollEpoch_answers p out).accepts_unit_iff.trans ((Fill.field_reads u64 _).strict_iff u64_laid u64_exact
    (fun _ _ => rfl) p out)

theorem register_strict (p : Bytes) :
    (∀ w boot gen, decodeRegister p = .ok (w, boot, gen) → encodeRegister w boot gen = p) ↔
    p.length ≤ extent registerLayout p := by
  have hlaid := u64_laid.prod <| id_laid.prod u64_laid
  have hexact := u64_exact.prod <| id_exact.prod u64_exact
  refine Iff.trans ?_ (hlaid.strict_iff hexact p)
  unfold decodeRegister
  cases hread : (u64.prod (DistReader.id.prod u64)) p with
  | none => exact iff_of_true (by rintro _ _ _ ⟨⟩) (by rintro _ _ ⟨⟩)
  | some read =>
    obtain ⟨⟨w, boot, gen⟩, left⟩ := read
    constructor
    · rintro h _ _ ⟨⟩
      rw [← h w ⟨boot⟩ gen rfl]
      simp [encodeRegister]
    · rintro h _ _ _ ⟨⟩
      rw [← h _ _ rfl]
      simp [encodeRegister]

/-! ## All payloads -/

/-- **When the payload decoders are strict.** A decoder accepts nothing but what its encoder writes for
the decoded values, exactly on the payloads that do not go on behind the layout their length words
describe; of the two requests, only those with the marker in front. -/
theorem payloads_strict_iff (p : Bytes) :
    (∀ out, (∀ auth out', decodeLookupRequest p out = (.ok auth, out') →
      encodeLookupRequest auth out'.rid out'.operation out'.keyCanonical out'.ns
        out'.desiredTier = p) ↔
      (p.head? = some 1 → p.length ≤ extent lookupRequestLayout p)) ∧
    (∀ out, (∀ out', decodeLookupResponse p out = (.ok (), out') →
      encodeLookupResponse out'.rid out'.outcome out'.id out'.gen out'.compatible = p) ↔
      p.length ≤ extent lookupResponseLayout p) ∧
    (∀ out, (∀ auth out', decodeBuildRequest p out = (.ok auth, out') →
      encodeBuildRequest auth out'.rid out'.keyCanonical out'.source out'.ns out'.arch = p) ↔
      (p.head? = some 1 → p.length ≤ extent buildRequestLayout p)) ∧
    (∀ out, (∀ out', decodeBuildResponse p out = (.ok (), out') →
      encodeBuildResponse out'.rid out'.id out'.gen out'.errorCode out'.error = p) ↔
      p.length ≤ extent buildResponseLayout p) ∧
    ((∀ w boot gen, decodeRegister p = .ok (w, boot, gen) → encodeRegister w boot gen = p) ↔
      p.length ≤ extent registerLayout p) ∧
    (∀ out, (∀ out', decodeRegisterAck p out = (.ok (), out') →
      encodeRegisterAck out'.epoch out'.worker out'.ok = p) ↔
      p.length ≤ extent registerAckLayout p) ∧
    ∀ out, (∀ out', decodeRollEpoch p out = (.ok (), out') → encodeRollEpoch out' = p) ↔
      p.length ≤ extent rollEpochLayout p :=
  ⟨lookupRequest_strict p, lookupResponse_strict p, buildRequest_strict p, buildResponse_strict p,
    register_strict p, registerAck_strict p, rollEpoch_strict p⟩

/-- **A ninth octet is not looked at.** An epoch of eight octets and one more is accepted as the epoch,
and the epoch is written back as eight. -/
theorem rollEpoch_trailing :
    ∃ (p : Bytes) (epoch : CoordinatorEpoch), decodeRollEpoch p 0 = (.ok (), epoch) ∧
      encodeRollEpoch epoch ≠ p :=
  ⟨[0, 0, 0, 0, 0, 0, 0, 7, 0xff], 7, by decide, by decide⟩

end KernelCache
