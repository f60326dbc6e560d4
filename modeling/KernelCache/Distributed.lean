/-
# KernelCache.Distributed — the payloads of the distributed protocol (`distributed.hpp`,
`distributed.cpp`).

The coordinator and its workers exchange frames of a type and a payload.  A payload is written field by
field, big-endian, strings and byte vectors behind a 64-bit length.  The decoders have output parameters
and write each of them as soon as it has been read: after a truncated payload the caller is left with
the fields before the cut, and with whatever its variables held for the rest.  So a decoder is a `Fill`
of the record of its output parameters here.

The source spells the layout of an authority three times, and so does this file: once for
`decode_authority` and once in each of the requests that carry one.  `payloads_lossless` is the round
trip of every payload, and says that the three readings agree.
-/
import KernelCache.Foundation.Filling
import KernelCache.Frames
import KernelCache.KeyCodec

namespace KernelCache

open Foundation (Bytes Reader Exact Fill)

/-! ## Identities -/

structure BuildAttemptId extends StrongId128
  deriving DecidableEq

structure RequestId extends StrongId128
  deriving DecidableEq

structure WorkerBootId where
  value : StrongId128 := {}
  deriving DecidableEq

abbrev CoordinatorEpoch := UInt64
abbrev WorkerId := UInt64

/-- Authority carried by every authoritative message. -/
structure DistAuthority where
  epoch : CoordinatorEpoch := 0
  worker : WorkerId := 0
  boot : WorkerBootId := {}
  cacheGen : CacheGeneration := 0
  artifactGen : ArtifactGeneration := 0
  attempt : BuildAttemptId := {}
  request : RequestId := {}
  deriving DecidableEq

/-! ## Writing -/

/-- `append_u64_be`. -/
def appendU64Be (x : UInt64) : Bytes := CanonicalWriter.u64 x

/-- The two words of an identity. -/
def appendId (id : StrongId128) : Bytes := appendU64Be id.hi ++ appendU64Be id.lo

/-- A string or a byte vector behind its length. -/
def appendSized (s : Bytes) : Bytes := appendU64Be (UInt64.ofNat s.length) ++ s

/-- `encode_authority`. -/
def encodeAuthority (a : DistAuthority) : Bytes :=
  [1] ++ appendU64Be a.epoch ++ appendU64Be a.worker ++ appendId a.boot.value ++
    appendU64Be a.cacheGen ++ appendU64Be a.artifactGen ++ appendId a.attempt.toStrongId128 ++
    appendId a.request.toStrongId128

/-- `encode_lookup_request`. -/
def encodeLookupRequest (a : DistAuthority) (rid : RequestId) (op : Str) (keyCanonical : Bytes)
    (ns : Str) (desiredTier : UInt8) : Bytes :=
  encodeAuthority a ++ appendId rid.toStrongId128 ++ appendSized op ++ appendSized keyCanonical ++
    appendSized ns ++ [desiredTier]

/-- `encode_lookup_response`. -/
def encodeLookupResponse (rid : RequestId) (outcome : UInt8) (id : ArtifactId)
    (gen : ArtifactGeneration) (compatible : UInt8) : Bytes :=
  appendId rid.toStrongId128 ++ [outcome] ++ [compatible] ++ appendId id.toStrongId128 ++
    appendU64Be gen

/-- `encode_build_request`. -/
def encodeBuildRequest (a : DistAuthority) (rid : RequestId) (keyCanonical : Bytes)
    (source ns arch : Str) : Bytes :=
  encodeAuthority a ++ appendId rid.toStrongId128 ++ appendSized keyCanonical ++ appendSized source ++
    appendSized ns ++ appendSized arch

/-- `encode_build_response`: only the low octet of the error code is sent. -/
def encodeBuildResponse (rid : RequestId) (id : ArtifactId) (gen : ArtifactGeneration)
    (errorCode : UInt32) (error : Str) : Bytes :=
  appendId rid.toStrongId128 ++ appendId id.toStrongId128 ++ appendU64Be gen ++
    [errorCode.toUInt8] ++ appendSized error

/-- `encode_register`. -/
def encodeRegister (w : WorkerId) (boot : WorkerBootId) (gen : CacheGeneration) : Bytes :=
  appendU64Be w ++ appendId boot.value ++ appendU64Be gen

/-- `encode_register_ack`. -/
def encodeRegisterAck (epoch : CoordinatorEpoch) (w : WorkerId) (ok : UInt8) : Bytes :=
  appendU64Be epoch ++ appendU64Be w ++ [ok]

/-- `encode_roll_epoch`. -/
def encodeRollEpoch (epoch : CoordinatorEpoch) : Bytes := appendU64Be epoch

/-- `encode_query_workers_resp`. -/
def encodeQueryWorkersResp (bootHis : List UInt64) : Bytes :=
  [0x51] ++ [0x52] ++ bootHis.flatMap appendU64Be

/-! ## Reading -/

namespace DistReader

/-- `Reader::u8`, `u64` and `str` (or `bytes`). -/
def u8 : Reader UInt8 := CanonicalReader.u8
def u64 : Reader UInt64 := CanonicalReader.u64
def str : Reader Bytes := CanonicalReader.str

/-- Two words, made one identity. -/
def id : Reader StrongId128 := (u64.prod u64).map fun p => ⟨p.1, p.2⟩

/-- The loop of `decode_query_workers_resp`: words to the end of the payload. -/
def words : Nat → Bytes → Option (List UInt64)
  | _, [] => some []
  | 0, _ :: _ => none
  | fuel + 1, b :: bs =>
    match u64 (b :: bs) with
    | none => none
    | some (x, rest) => (words fuel rest).map (x :: ·)

theorem u64_fixed : Reader.Fixed 8 u64 := (Reader.Fixed.be 8).map _

theorem id_fixed : Reader.Fixed 16 id := (u64_fixed.prod u64_fixed).map _

theorem u8_exact : Exact (fun b => [b]) (fun _ => True) u8 := Exact.byte

theorem u64_exact : Exact appendU64Be (fun _ => True) u64 := CanonicalReader.u64_exact

theorem id_exact : Exact appendId (fun _ => True) id := by
  refine (u64_exact.prod u64_exact).map (fun _ _ => rfl) (fun _ _ => trivial) fun a _ => ?_
  exact ⟨(a.hi, a.lo), ⟨trivial, trivial⟩, rfl⟩

/-- The size of a string is a `size_t`. -/
theorem str_complete {s : Bytes} (hs : s.length < 2 ^ 64) (rest : Bytes) :
    str (appendSized s ++ rest) = some (s, rest) := by
  have hsize : appendSized s = CanonicalWriter.str s := by
    show Foundation.beBytes 8 (UInt64.ofNat s.length).toNat ++ s = Foundation.beBytes 8 s.length ++ s
    rw [UInt64.toNat_ofNat_of_lt' hs]
  rw [hsize]
  exact CanonicalReader.str_exact.complete s rest hs

theorem words_complete (xs : List UInt64) {fuel : Nat} (hfuel : xs.length ≤ fuel) :
    words fuel (xs.flatMap appendU64Be) = some xs := by
  induction xs generalizing fuel with
  | nil => cases fuel <;> rfl
  | cons x xs ih =>
    obtain ⟨fuel, rfl⟩ := Nat.exists_eq_add_one.mpr (Nat.lt_of_lt_of_le (Nat.succ_pos _) hfuel)
    have hread := u64_exact.complete x (xs.flatMap appendU64Be) trivial
    have hrest : words fuel (xs.flatMap appendU64Be) = some xs := ih (by simpa using hfuel)
    rw [List.flatMap_cons]
    cases hbytes : appendU64Be x ++ xs.flatMap appendU64Be with
    | nil =>
      rw [hbytes] at hread
      cases hread
    | cons b bs =>
      rw [hbytes] at hread
      simp only [words, hread, hrest, Option.map_some]

end DistReader

open DistReader (u8 u64)

/-! ### Fields behind their writers -/

section Fields

variable {σ : Type} {rest : Bytes} {s : σ} {g : Fill σ}

@[simp] theorem field_u8 {set : UInt8 → σ → σ} (b : UInt8) :
    Fill.field u8 set (b :: rest) s = (some rest, set b s) := rfl

@[simp] theorem field_u64 {set : UInt64 → σ → σ} (x : UInt64) :
    Fill.field u64 set (appendU64Be x ++ rest) s = (some rest, set x s) :=
  (Fill.field_reads u64 set).through _ _ _ _ (DistReader.u64_exact.complete x rest trivial)

@[simp] theorem field_id {set : StrongId128 → σ → σ} (i : StrongId128) :
    Fill.field DistReader.id set (appendId i ++ rest) s = (some rest, set i s) :=
  (Fill.field_reads DistReader.id set).through _ _ _ _ (DistReader.id_exact.complete i rest trivial)

theorem field_str {set : Bytes → σ → σ} {b : Bytes} (hb : b.length < 2 ^ 64) :
    Fill.field DistReader.str set (appendSized b ++ rest) s = (some rest, set b s) :=
  (Fill.field_reads DistReader.str set).through _ _ _ _ (DistReader.str_complete hb rest)

/-- The last field of a payload. -/
@[simp] theorem field_u64_last {set : UInt64 → σ → σ} (x : UInt64) :
    Fill.field u64 set (appendU64Be x) s = (some [], set x s) := by
  have hread : Fill.field u64 set (appendU64Be x ++ []) s = (some [], set x s) := field_u64 x
  rwa [List.append_nil] at hread

theorem field_str_last {set : Bytes → σ → σ} {b : Bytes} (hb : b.length < 2 ^ 64) :
    Fill.field DistReader.str set (appendSized b) s = (some [], set b s) := by
  have hread : Fill.field DistReader.str set (appendSized b ++ []) s = (some [], set b s) :=
    field_str hb
  rwa [List.append_nil] at hread

/-- A fill that gets through is followed by the next. -/
theorem andThen_through {f : Fill σ} {input : Bytes} {s' : σ} (h : f input s = (some rest, s')) :
    f.andThen g input s = g rest s' := by
  simp only [Fill.andThen, h]

@[simp] theorem u8_andThen {set : UInt8 → σ → σ} (b : UInt8) :
    (Fill.field u8 set).andThen g (b :: rest) s = g rest (set b s) :=
  andThen_through (field_u8 b)

@[simp] theorem u64_andThen {set : UInt64 → σ → σ} (x : UInt64) :
    (Fill.field u64 set).andThen g (appendU64Be x ++ rest) s = g rest (set x s) :=
  andThen_through (field_u64 x)

@[simp] theorem id_andThen {set : StrongId128 → σ → σ} (i : StrongId128) :
    (Fill.field DistReader.id set).andThen g (appendId i ++ rest) s = g rest (set i s) :=
  andThen_through (field_id i)

theorem str_andThen {set : Bytes → σ → σ} {b : Bytes} (hb : b.length < 2 ^ 64) :
    (Fill.field DistReader.str set).andThen g (appendSized b ++ rest) s = g rest (set b s) :=
  andThen_through (field_str hb)

end Fields

/-! ### Decoders -/

/-- The authority behind its marker, as `decode_authority` reads it. -/
def DistAuthority.fill : Fill DistAuthority :=
  (Fill.field u64 fun e a => { a with epoch := e }).andThen <|
  (Fill.field u64 fun w a => { a with worker := w }).andThen <|
  (Fill.field DistReader.id fun i a => { a with boot := ⟨i⟩ }).andThen <|
  (Fill.field u64 fun g a => { a with cacheGen := g }).andThen <|
  (Fill.field u64 fun g a => { a with artifactGen := g }).andThen <|
  (Fill.field DistReader.id fun i a => { a with attempt := ⟨i⟩ }).andThen <|
  Fill.field DistReader.id fun i a => { a with request := ⟨i⟩ }

/-- `decode_authority`: whether it succeeds, the position and the authority it leaves. -/
def decodeAuthority (payload : Bytes) (pos : Nat) (a : DistAuthority) : Bool × Nat × DistAuthority :=
  match u8 (payload.drop pos) with
  | none => (false, pos, a)
  | some (marker, rest) =>
    if marker ≠ 1 then (false, pos, a)
    else
      match DistAuthority.fill rest a with
      | (some rest, a) => (true, payload.length - rest.length, a)
      | (none, a) => (false, pos, a)

/-- The output parameters of `decode_lookup_request`, and the authority it assembles. -/
structure LookupRequest where
  authority : DistAuthority := {}
  rid : RequestId := {}
  operation : Str := []
  keyCanonical : Bytes := []
  ns : Str := []
  desiredTier : UInt8 := 0
  deriving DecidableEq

/-- The authority behind its marker, as `decode_lookup_request` reads it. -/
def LookupRequest.fillAuthority : Fill LookupRequest :=
  (Fill.field u64 fun e r => { r with authority.epoch := e }).andThen <|
  (Fill.field u64 fun w r => { r with authority.worker := w }).andThen <|
  (Fill.field DistReader.id fun i r => { r with authority.boot := ⟨i⟩ }).andThen <|
  (Fill.field u64 fun g r => { r with authority.cacheGen := g }).andThen <|
  (Fill.field u64 fun g r => { r with authority.artifactGen := g }).andThen <|
  (Fill.field DistReader.id fun i r => { r with authority.attempt := ⟨i⟩ }).andThen <|
  Fill.field DistReader.id fun i r => { r with authority.request := ⟨i⟩ }

/-- What follows the authority of a lookup request. -/
def LookupRequest.fillBody : Fill LookupRequest :=
  (Fill.field DistReader.id fun i r => { r with rid := ⟨i⟩ }).andThen <|
  (Fill.field DistReader.str fun s r => { r with operation := s }).andThen <|
  (Fill.field DistReader.str fun s r => { r with keyCanonical := s }).andThen <|
  (Fill.field DistReader.str fun s r => { r with ns := s }).andThen <|
  Fill.field u8 fun t r => { r with desiredTier := t }

/-- What follows the marker of a lookup request. -/
def LookupRequest.fill : Fill LookupRequest := fillAuthority.andThen fillBody

/-- `decode_lookup_request`. -/
def decodeLookupRequest (p : Bytes) (out : LookupRequest) :
    Result DistAuthority × LookupRequest :=
  match u8 p with
  | none => (fail .malformedFrame (str "truncated lookup request"), out)
  | some (marker, rest) =>
    if marker ≠ 1 then (fail .malformedFrame (str "bad authority marker"), out)
    else
      match LookupRequest.fill rest out with
      | (some _, out) => (.ok out.authority, out)
      | (none, out) => (fail .malformedFrame (str "truncated lookup request"), out)

/-- The output parameters of `decode_lookup_response`. -/
structure LookupResponse where
  rid : RequestId := {}
  outcome : UInt8 := 0
  compatible : UInt8 := 0
  id : ArtifactId := {}
  gen : ArtifactGeneration := 0
  deriving DecidableEq

def LookupResponse.fill : Fill LookupResponse :=
  (Fill.field DistReader.id fun i r => { r with rid := ⟨i⟩ }).andThen <|
  (Fill.field u8 fun o r => { r with outcome := o }).andThen <|
  (Fill.field u8 fun c r => { r with compatible := c }).andThen <|
  (Fill.field DistReader.id fun i r => { r with id := ⟨i⟩ }).andThen <|
  Fill.field u64 fun g r => { r with gen := g }

/-- `decode_lookup_response`. -/
def decodeLookupResponse (p : Bytes) (out : LookupResponse) : Result Unit × LookupResponse :=
  match LookupResponse.fill p out with
  | (some _, out) => (.ok (), out)
  | (none, out) => (fail .malformedFrame (str "truncated lookup response"), out)

/-- The output parameters of `decode_build_request`, and the authority it assembles. -/
structure DistBuildRequest where
  authority : DistAuthority := {}
  rid : RequestId := {}
  keyCanonical : Bytes := []
  source : Str := []
  ns : Str := []
  arch : Str := []
  deriving DecidableEq

/-- The authority behind its marker, as `decode_build_request` reads it. -/
def DistBuildRequest.fillAuthority : Fill DistBuildRequest :=
  (Fill.field u64 fun e r => { r with authority.epoch := e }).andThen <|
  (Fill.field u64 fun w r => { r with authority.worker := w }).andThen <|
  (Fill.field DistReader.id fun i r => { r with authority.boot := ⟨i⟩ }).andThen <|
  (Fill.field u64 fun g r => { r with authority.cacheGen := g }).andThen <|
  (Fill.field u64 fun g r => { r with authority.artifactGen := g }).andThen <|
  (Fill.field DistReader.id fun i r => { r with authority.attempt := ⟨i⟩ }).andThen <|
  Fill.field DistReader.id fun i r => { r with authority.request := ⟨i⟩ }

/-- What follows the authority of a build request. -/
def DistBuildRequest.fillBody : Fill DistBuildRequest :=
  (Fill.field DistReader.id fun i r => { r with rid := ⟨i⟩ }).andThen <|
  (Fill.field DistReader.str fun s r => { r with keyCanonical := s }).andThen <|
  (Fill.field DistReader.str fun s r => { r with source := s }).andThen <|
  (Fill.field DistReader.str fun s r => { r with ns := s }).andThen <|
  Fill.field DistReader.str fun s r => { r with arch := s }

/-- What follows the marker of a build request. -/
def DistBuildRequest.fill : Fill DistBuildRequest := fillAuthority.andThen fillBody

/-- `decode_build_request`. -/
def decodeBuildRequest (p : Bytes) (out : DistBuildRequest) :
    Result DistAuthority × DistBuildRequest :=
  match u8 p with
  | none => (fail .malformedFrame (str "truncated build request"), out)
  | some (marker, rest) =>
    if marker ≠ 1 then (fail .malformedFrame (str "bad authority marker"), out)
    else
      match DistBuildRequest.fill rest out with
      | (some _, out) => (.ok out.authority, out)
      | (none, out) => (fail .malformedFrame (str "truncated build request"), out)

/-- The output parameters of `decode_build_response`. -/
structure BuildResponse where
  rid : RequestId := {}
  id : ArtifactId := {}
  gen : ArtifactGeneration := 0
  errorCode : UInt32 := 0
  error : Str := []
  deriving DecidableEq

/-- The fields of a build response before the error code. -/
def BuildResponse.fillIds : Fill BuildResponse :=
  ((Fill.field DistReader.id fun i r => { r with rid := ⟨i⟩ }).andThen
    (Fill.field DistReader.id fun i r => { r with id := ⟨i⟩ })).andThen
    (Fill.field u64 fun g r => { r with gen := g })

/-- All fields of a build response. -/
def BuildResponse.fill : Fill BuildResponse :=
  fillIds.andThen ((Fill.field u8 fun c r => { r with errorCode := c.toUInt32 }).andThen
    (Fill.field DistReader.str fun s r => { r with error := s }))

/-- `decode_build_response`. -/
def decodeBuildResponse (p : Bytes) (out : BuildResponse) : Result Unit × BuildResponse :=
  match BuildResponse.fill p out with
  | (some _, out) => (.ok (), out)
  | (none, out) => (fail .malformedFrame (str "truncated build response"), out)

/-- `decode_register`: the worker, its boot and the generation it reports. -/
def decodeRegister (p : Bytes) : Result (WorkerId × WorkerBootId × CacheGeneration) :=
  match (u64.prod (DistReader.id.prod u64)) p with
  | some ((w, boot, gen), _) => .ok (w, ⟨boot⟩, gen)
  | none => fail .malformedFrame (str "truncated register")

/-- The output parameters of `decode_register_ack`. -/
structure RegisterAck where
  epoch : CoordinatorEpoch := 0
  worker : WorkerId := 0
  ok : UInt8 := 0
  deriving DecidableEq

def RegisterAck.fill : Fill RegisterAck :=
  (Fill.field u64 fun e r => { r with epoch := e }).andThen <|
  (Fill.field u64 fun w r => { r with worker := w }).andThen <|
  Fill.field u8 fun b r => { r with ok := b }

/-- `decode_register_ack`. -/
def decodeRegisterAck (p : Bytes) (out : RegisterAck) : Result Unit × RegisterAck :=
  match RegisterAck.fill p out with
  | (some _, out) => (.ok (), out)
  | (none, out) => (fail .malformedFrame (str "truncated register ack"), out)

/-- `decode_roll_epoch`. -/
def decodeRollEpoch (p : Bytes) (epoch : CoordinatorEpoch) : Result Unit × CoordinatorEpoch :=
  match (Fill.field u64 fun e (_ : CoordinatorEpoch) => e) p epoch with
  | (some _, epoch) => (.ok (), epoch)
  | (none, epoch) => (fail .malformedFrame (str "truncated roll-epoch"), epoch)

/-- `decode_query_workers_resp`. -/
def decodeQueryWorkersResp (p : Bytes) : Result (List UInt64) :=
  match (u8.prod u8) p with
  | none =>
    match u8 p with
    -- a wrong first octet is not followed by a second
    | some (marker, _) =>
      if marker ≠ 0x51 then fail .malformedFrame (str "bad resp marker")
      else fail .malformedFrame (str "truncated resp")
    | none => fail .malformedFrame (str "truncated resp")
  | some ((m₁, m₂), rest) =>
    if m₁ ≠ 0x51 ∨ m₂ ≠ 0x52 then fail .malformedFrame (str "bad resp marker")
    else
      match DistReader.words rest.length rest with
      | some words => .ok words
      | none => fail .malformedFrame (str "truncated resp")

/-! ## Round trips -/

@[simp] theorem appendU64Be_length (x : UInt64) : (appendU64Be x).length = 8 :=
  Foundation.beBytes_length 8 x.toNat

@[simp] theorem appendId_length (i : StrongId128) : (appendId i).length = 16 := by
  simp [appendId]

/-- A marker in front. -/
@[simp] theorem u8_cons (b : UInt8) (rest : Bytes) : u8 (b :: rest) = some (b, rest) := rfl

theorem decodeAuthority_encode (a out : DistAuthority) (rest : Bytes) :
    decodeAuthority (encodeAuthority a ++ rest) 0 out = (true, 81, a) := by
  simp only [decodeAuthority, encodeAuthority, DistAuthority.fill, List.drop_zero,
    List.append_assoc, List.cons_append, List.nil_append, u8_cons, u64_andThen, id_andThen, field_id,
    ne_eq, not_true_eq_false, if_false, List.length_cons, List.length_append, appendU64Be_length,
    appendId_length]
  refine Prod.ext rfl (Prod.ext ?_ rfl)
  dsimp only
  omega

theorem decodeLookupRequest_encode (a : DistAuthority) (rid : RequestId) {op key ns : Bytes}
    (tier : UInt8) (hop : op.length < 2 ^ 64) (hkey : key.length < 2 ^ 64) (hns : ns.length < 2 ^ 64)
    (out : LookupRequest) :
    decodeLookupRequest (encodeLookupRequest a rid op key ns tier) out =
      (.ok a, ⟨a, rid, op, key, ns, tier⟩) := by
  simp only [decodeLookupRequest, encodeLookupRequest, encodeAuthority, LookupRequest.fill,
    LookupRequest.fillAuthority, LookupRequest.fillBody, Fill.andThen_assoc, List.append_assoc, List.cons_append,
    List.nil_append, u8_cons, ne_eq, not_true_eq_false, if_false, u64_andThen, id_andThen,
    str_andThen hop, str_andThen hkey, str_andThen hns, field_u8]

theorem decodeLookupResponse_encode (rid : RequestId) (outcome : UInt8) (id : ArtifactId)
    (gen : ArtifactGeneration) (compatible : UInt8) (out : LookupResponse) :
    decodeLookupResponse (encodeLookupResponse rid outcome id gen compatible) out =
      (.ok (), ⟨rid, outcome, compatible, id, gen⟩) := by
  simp only [decodeLookupResponse, encodeLookupResponse, LookupResponse.fill, List.append_assoc,
    List.cons_append, List.nil_append, id_andThen, u8_andThen, field_u64_last]

theorem decodeBuildRequest_encode (a : DistAuthority) (rid : RequestId) {key source ns arch : Bytes}
    (hkey : key.length < 2 ^ 64) (hsource : source.length < 2 ^ 64) (hns : ns.length < 2 ^ 64)
    (harch : arch.length < 2 ^ 64) (out : DistBuildRequest) :
    decodeBuildRequest (encodeBuildRequest a rid key source ns arch) out =
      (.ok a, ⟨a, rid, key, source, ns, arch⟩) := by
  simp only [decodeBuildRequest, encodeBuildRequest, encodeAuthority, DistBuildRequest.fill,
    DistBuildRequest.fillAuthority, DistBuildRequest.fillBody, Fill.andThen_assoc, List.append_assoc, List.cons_append,
    List.nil_append, u8_cons, ne_eq, not_true_eq_false, if_false, u64_andThen, id_andThen,
    str_andThen hkey, str_andThen hsource, str_andThen hns, field_str_last harch]

theorem decodeBuildResponse_encode (rid : RequestId) (id : ArtifactId) (gen : ArtifactGeneration)
    {code : UInt32} {error : Bytes} (hcode : code.toNat < 256) (herror : error.length < 2 ^ 64)
    (out : BuildResponse) :
    decodeBuildResponse (encodeBuildResponse rid id gen code error) out =
      (.ok (), ⟨rid, id, gen, code, error⟩) := by
  have hoctet : code.toUInt8.toUInt32 = code := by
    apply UInt32.toNat_inj.mp
    rw [UInt8.toNat_toUInt32, UInt32.toNat_toUInt8, Nat.mod_eq_of_lt hcode]
  simp only [decodeBuildResponse, encodeBuildResponse, BuildResponse.fill, BuildResponse.fillIds,
    Fill.andThen_assoc, List.append_assoc, List.cons_append, List.nil_append, id_andThen,
    u64_andThen, u8_andThen, hoctet, field_str_last herror]

theorem decodeRegister_encode (w : WorkerId) (boot : WorkerBootId) (gen : CacheGeneration) :
    decodeRegister (encodeRegister w boot gen) = .ok (w, boot, gen) := by
  have hread := (DistReader.u64_exact.prod (DistReader.id_exact.prod DistReader.u64_exact)).complete
    (w, boot.value, gen) [] ⟨trivial, trivial, trivial⟩
  have hbytes : encodeRegister w boot gen =
      appendU64Be w ++ (appendId boot.value ++ appendU64Be gen) ++ [] := by
    simp [encodeRegister]
  rw [decodeRegister, hbytes, hread]

theorem decodeRegisterAck_encode (epoch : CoordinatorEpoch) (w : WorkerId) (ok : UInt8)
    (out : RegisterAck) :
    decodeRegisterAck (encodeRegisterAck epoch w ok) out = (.ok (), ⟨epoch, w, ok⟩) := by
  simp only [decodeRegisterAck, encodeRegisterAck, RegisterAck.fill, List.append_assoc, u64_andThen,
    field_u8]

theorem decodeRollEpoch_encode (epoch out : CoordinatorEpoch) :
    decodeRollEpoch (encodeRollEpoch epoch) out = (.ok (), epoch) := by
  simp only [decodeRollEpoch, encodeRollEpoch, field_u64_last]

theorem decodeQueryWorkersResp_encode (bootHis : List UInt64) :
    decodeQueryWorkersResp (encodeQueryWorkersResp bootHis) = .ok bootHis := by
  have hlen : bootHis.length ≤ (bootHis.flatMap appendU64Be).length := by
    induction bootHis with
    | nil => exact Nat.le_refl 0
    | cons x xs ih =>
      rw [List.flatMap_cons, List.length_append, List.length_cons, appendU64Be_length]
      omega
  have hmarkers : (u8.prod u8) (encodeQueryWorkersResp bootHis) =
      some ((0x51, 0x52), bootHis.flatMap appendU64Be) := rfl
  rw [decodeQueryWorkersResp, hmarkers]
  dsimp only
  rw [if_neg (by decide), DistReader.words_complete bootHis hlen]

/-! ### The layout of an authority -/

/-- The words of an authority, in the order in which they are read. -/
abbrev AuthorityWords :=
  UInt64 × UInt64 × StrongId128 × UInt64 × UInt64 × StrongId128 × StrongId128

/-- The reader of the words behind the marker. -/
def authorityReader : Reader AuthorityWords :=
  u64.prod <| u64.prod <| DistReader.id.prod <| u64.prod <| u64.prod <|
    DistReader.id.prod DistReader.id

/-- The authority with these words. -/
def authorityOf : AuthorityWords → DistAuthority
  | (e, w, b, c, g, t, r) => ⟨e, w, ⟨b⟩, c, g, ⟨t⟩, ⟨r⟩⟩

theorem DistAuthority.fill_reads :
    DistAuthority.fill.Reads authorityReader fun words _ => authorityOf words :=
  (Fill.field_reads _ _).andThen <| (Fill.field_reads _ _).andThen <|
    (Fill.field_reads _ _).andThen <| (Fill.field_reads _ _).andThen <|
    (Fill.field_reads _ _).andThen <| (Fill.field_reads _ _).andThen (Fill.field_reads _ _)

theorem LookupRequest.fillAuthority_reads :
    LookupRequest.fillAuthority.Reads authorityReader
      fun words r => { r with authority := authorityOf words } :=
  (Fill.field_reads _ _).andThen <| (Fill.field_reads _ _).andThen <|
    (Fill.field_reads _ _).andThen <| (Fill.field_reads _ _).andThen <|
    (Fill.field_reads _ _).andThen <| (Fill.field_reads _ _).andThen (Fill.field_reads _ _)

theorem DistBuildRequest.fillAuthority_reads :
    DistBuildRequest.fillAuthority.Reads authorityReader
      fun words r => { r with authority := authorityOf words } :=
  (Fill.field_reads _ _).andThen <| (Fill.field_reads _ _).andThen <|
    (Fill.field_reads _ _).andThen <| (Fill.field_reads _ _).andThen <|
    (Fill.field_reads _ _).andThen <| (Fill.field_reads _ _).andThen (Fill.field_reads _ _)

theorem LookupRequest.fillBody_leaves : LookupRequest.fillBody.Leaves LookupRequest.authority := by
  unfold LookupRequest.fillBody
  refine Fill.Leaves.andThen ?_ (Fill.Leaves.andThen ?_ (Fill.Leaves.andThen ?_ (Fill.Leaves.andThen ?_ ?_)))
  all_goals exact Fill.field_leaves fun _ _ => rfl

theorem DistBuildRequest.fillBody_leaves :
    DistBuildRequest.fillBody.Leaves DistBuildRequest.authority := by
  unfold DistBuildRequest.fillBody
  refine Fill.Leaves.andThen ?_ (Fill.Leaves.andThen ?_ (Fill.Leaves.andThen ?_ (Fill.Leaves.andThen ?_ ?_)))
  all_goals exact Fill.field_leaves fun _ _ => rfl

/-- A fill that reads an authority behind the marker, and then leaves it alone, has read the one
`decode_authority` reads. -/
theorem decodeAuthority_of_fill {σ : Type} {f g : Fill σ} {get : σ → DistAuthority}
    {set : AuthorityWords → σ → σ} (hf : f.Reads authorityReader set)
    (hget : ∀ words s, get (set words s) = authorityOf words) (hg : g.Leaves get)
    {input rest : Bytes} {s s' : σ} (h : f.andThen g input s = (some rest, s')) (a : DistAuthority) :
    ∃ pos, decodeAuthority (1 :: input) 0 a = (true, pos, get s') := by
  cases hread : authorityReader input with
  | none =>
    have hstuck := hf.stuck input s hread
    unfold Fill.andThen at h
    generalize f input s = out at hstuck h
    obtain ⟨left, s₁⟩ := out
    cases hstuck
    cases h
  | some out =>
    obtain ⟨words, left⟩ := out
    rw [andThen_through (hf.through input s words left hread)] at h
    have hleaves := hg left (set words s)
    rw [h, hget] at hleaves
    have hauth := DistAuthority.fill_reads.through input a words left hread
    dsimp only at hleaves hauth
    refine ⟨(1 :: input).length - left.length, ?_⟩
    simp only [decodeAuthority, List.drop_zero, u8_cons, ne_eq, not_true_eq_false, if_false, hauth,
      hleaves]

theorem u8_eq_some {input rest : Bytes} {b : UInt8} (h : u8 input = some (b, rest)) :
    input = b :: rest := by
  cases input with
  | nil => cases h
  | cons c bs =>
    cases h
    rfl

theorem decodeAuthority_of_lookupRequest {p : Bytes} {out out' : LookupRequest}
    {auth : DistAuthority} (h : decodeLookupRequest p out = (.ok auth, out')) (a : DistAuthority) :
    ∃ pos, decodeAuthority p 0 a = (true, pos, auth) := by
  unfold decodeLookupRequest at h
  split at h
  · cases h
  rename_i marker rest hmarker
  split at h
  · cases h
  rename_i hone
  obtain rfl := Decidable.not_not.mp hone
  split at h
  · rename_i rest' out₁ hfill
    cases h
    rw [u8_eq_some hmarker]
    exact decodeAuthority_of_fill LookupRequest.fillAuthority_reads (fun _ _ => rfl)
      LookupRequest.fillBody_leaves hfill a
  · cases h

theorem decodeAuthority_of_buildRequest {p : Bytes} {out out' : DistBuildRequest}
    {auth : DistAuthority} (h : decodeBuildRequest p out = (.ok auth, out')) (a : DistAuthority) :
    ∃ pos, decodeAuthority p 0 a = (true, pos, auth) := by
  unfold decodeBuildRequest at h
  split at h
  · cases h
  rename_i marker rest hmarker
  split at h
  · cases h
  rename_i hone
  obtain rfl := Decidable.not_not.mp hone
  split at h
  · rename_i rest' out₁ hfill
    cases h
    rw [u8_eq_some hmarker]
    exact decodeAuthority_of_fill DistBuildRequest.fillAuthority_reads (fun _ _ => rfl)
      DistBuildRequest.fillBody_leaves hfill a
  · cases h

/-- The payloads whose strings and byte vectors have a size. -/
def Sized (s : Bytes) : Prop := s.length < 2 ^ 64

/-- **The payload codecs are lossless.** Decoding what was encoded gives back the values, whatever the
output parameters held before; and the authority that the two requests carry is the one
`decode_authority` reads at their beginning. -/
theorem payloads_lossless :
    (∀ (a out : DistAuthority) (rest : Bytes),
      decodeAuthority (encodeAuthority a ++ rest) 0 out = (true, (encodeAuthority a).length, a)) ∧
    (∀ a rid op key ns tier out, Sized op → Sized key → Sized ns →
      decodeLookupRequest (encodeLookupRequest a rid op key ns tier) out =
        (.ok a, ⟨a, rid, op, key, ns, tier⟩)) ∧
    (∀ rid outcome id gen compatible out,
      decodeLookupResponse (encodeLookupResponse rid outcome id gen compatible) out =
        (.ok (), ⟨rid, outcome, compatible, id, gen⟩)) ∧
    (∀ a rid key source ns arch out, Sized key → Sized source → Sized ns → Sized arch →
      decodeBuildRequest (encodeBuildRequest a rid key source ns arch) out =
        (.ok a, ⟨a, rid, key, source, ns, arch⟩)) ∧
    (∀ rid id gen (code : UInt32) error out, code.toNat < 256 → Sized error →
      decodeBuildResponse (encodeBuildResponse rid id gen code error) out =
        (.ok (), ⟨rid, id, gen, code, error⟩)) ∧
    (∀ w boot gen, decodeRegister (encodeRegister w boot gen) = .ok (w, boot, gen)) ∧
    (∀ epoch w ok out,
      decodeRegisterAck (encodeRegisterAck epoch w ok) out = (.ok (), ⟨epoch, w, ok⟩)) ∧
    (∀ epoch out, decodeRollEpoch (encodeRollEpoch epoch) out = (.ok (), epoch)) ∧
    (∀ bootHis, decodeQueryWorkersResp (encodeQueryWorkersResp bootHis) = .ok bootHis) ∧
    (∀ p out auth out' a, decodeLookupRequest p out = (.ok auth, out') →
      ∃ pos, decodeAuthority p 0 a = (true, pos, auth)) ∧
    ∀ p out auth out' a, decodeBuildRequest p out = (.ok auth, out') →
      ∃ pos, decodeAuthority p 0 a = (true, pos, auth) := by
  refine ⟨fun a out rest => ?_, ?_, decodeLookupResponse_encode, ?_, ?_, decodeRegister_encode,
    decodeRegisterAck_encode, decodeRollEpoch_encode, decodeQueryWorkersResp_encode, ?_, ?_⟩
  · rw [decodeAuthority_encode]
    simp [encodeAuthority]
  · exact fun a rid op key ns tier out hop hkey hns =>
      decodeLookupRequest_encode a rid tier hop hkey hns out
  · exact fun a rid key source ns arch out hkey hsource hns harch =>
      decodeBuildRequest_encode a rid hkey hsource hns harch out
  · exact fun rid id gen code error out hcode herror =>
      decodeBuildResponse_encode rid id gen hcode herror out
  · exact fun p out auth out' a h => decodeAuthority_of_lookupRequest h a
  · exact fun p out auth out' a h => decodeAuthority_of_buildRequest h a

/-- A request and a response, and the authority of the request. -/
theorem payloads_lossless_sample :
    (decodeLookupRequest (encodeLookupRequest { epoch := 5, cacheGen := 7 } {} [1] [2, 3] [] 3) {} =
      (.ok { epoch := 5, cacheGen := 7 }, ⟨{ epoch := 5, cacheGen := 7 }, {}, [1], [2, 3], [], 3⟩)) ∧
    (∃ pos, decodeAuthority
      (encodeLookupRequest { epoch := 5, cacheGen := 7 } {} [1] [2, 3] [] 3) 0 {} =
        (true, pos, { epoch := 5, cacheGen := 7 })) ∧
    decodeBuildResponse (encodeBuildResponse {} ⟨⟨1, 2⟩⟩ 1 33 [115]) {} =
      (.ok (), ⟨{}, ⟨⟨1, 2⟩⟩, 1, 33, [115]⟩) := by
  have hsized : ∀ s : Bytes, s.length ≤ 2 → Sized s := fun s hs =>
    Nat.lt_of_le_of_lt hs (by decide)
  have hrequest := payloads_lossless.2.1 { epoch := 5, cacheGen := 7 } {} [1] [2, 3] [] 3 {}
    (hsized _ (by decide)) (hsized _ (by decide)) (hsized _ (by decide))
  refine ⟨hrequest, ?_, ?_⟩
  · exact payloads_lossless.2.2.2.2.2.2.2.2.2.1 _ _ _ _ {} hrequest
  · exact payloads_lossless.2.2.2.2.1 {} ⟨⟨1, 2⟩⟩ 1 33 [115] {} (by decide) (hsized _ (by decide))

end KernelCache
