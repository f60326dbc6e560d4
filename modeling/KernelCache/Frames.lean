/-
# KernelCache.Frames — frames, in memory and on a connection (`distributed.cpp`, `dist_tcp.hpp`).

A frame is a length, a protocol version, a message type and a payload.  The source writes and reads it
twice.  `encodeFrame` and `decodeFrame` work on a byte string in memory.  `TcpConnection` works on a
socket, where `::recv` and `::send` move as many bytes as they like at a time: `writeFrame` is a
program over whatever offers bytes to the socket, `readFrame` reads from the pieces that arrive.

The codec in memory is exact up to the frame limit (`decodeFrame_encodeFrame`).  The transport gives
back every list of frames within the limit, whatever the pieces, and of a stream that is cut a
beginning of the list (`framed_stream`).  The two write the same bytes; they read the same frames
unless the type of the message is unknown, which `read_frame` does not look at
(`readFrame_agrees_iff`).
-/
import KernelCache.Foundation.Streams
import KernelCache.Descriptors

namespace KernelCache

open Foundation (Bytes Prog Reader Exact Pieces beBytes beNat beBytes_length beNat_beBytes
  beBytes_beNat drain)
open Foundation.Pieces (Proper Piecewise readExact piecewise_readExact)
open Foundation.Outgoing (Accept)

/-! ## Messages -/

/-- `enum class DistMsgType : std::uint16_t`. -/
inductive DistMsgType where
  | helloW
  | registerW
  | registerAckC
  | lookupReq
  | lookupResp
  | buildReq
  | buildResp
  | invalidateReq
  | invalidateResp
  | rollEpoch
  | rollEpochAck
  | epochInvalid
  | shutdown
  | queryWorkers
  | queryWorkersResp
  deriving DecidableEq

namespace DistMsgType

/-- The wire values. -/
def code : DistMsgType → UInt16
  | helloW => 1
  | registerW => 2
  | registerAckC => 3
  | lookupReq => 4
  | lookupResp => 5
  | buildReq => 6
  | buildResp => 7
  | invalidateReq => 8
  | invalidateResp => 9
  | rollEpoch => 10
  | rollEpochAck => 11
  | epochInvalid => 12
  | shutdown => 13
  | queryWorkers => 14
  | queryWorkersResp => 15

/-- The types `decode_frame` knows. -/
def known : List DistMsgType :=
  [helloW, registerW, registerAckC, lookupReq, lookupResp, buildReq, buildResp, invalidateReq,
    invalidateResp, rollEpoch, rollEpochAck, epochInvalid, shutdown, queryWorkers, queryWorkersResp]

/-- The known type of a wire value. -/
def ofCode (type16 : UInt16) : Option DistMsgType := known.find? fun t => t.code == type16

@[simp] theorem ofCode_code (t : DistMsgType) : ofCode t.code = some t := by
  cases t <;> rfl

theorem code_of_ofCode {type16 : UInt16} {t : DistMsgType} (h : ofCode type16 = some t) :
    t.code = type16 := by
  simpa using List.find?_some h

end DistMsgType

/-- `kDistProtoVersion`. -/
def kDistProtoVersion : Nat := 1

/-- `kDistMaxFrameBytes`. -/
def kDistMaxFrameBytes : Nat := 64 * 1024 * 1024

/-- `kDistHeaderBytes`: four for the length, two for the version, two for the type. -/
def kDistHeaderBytes : Nat := 8

/-- The error codes of the protocol that no other part of the cache reports. -/
def ErrorCode.frameTooLarge : ErrorCode := .backend 61
def ErrorCode.unknownMessageType : ErrorCode := .backend 63
def ErrorCode.protocolVersionMismatch : ErrorCode := .backend 64

/-! ## Frames in memory -/

/-- `encode_frame`.  The enumeration has a fixed underlying type, so its values are all 16-bit words.
The length field takes the low 32 bits of the length. -/
def encodeFrame (type : UInt16) (payload : Bytes) : Bytes :=
  let total := kDistHeaderBytes + payload.length
  beBytes 4 total ++ beBytes 2 kDistProtoVersion ++ beBytes 2 type.toNat ++ payload

/-- The fields of a header: length, version and type. -/
def headerLen (frame : Bytes) : Nat := beNat 0 (frame.take 4)
def headerVer (frame : Bytes) : Nat := beNat 0 ((frame.drop 4).take 2)
def headerType (frame : Bytes) : UInt16 := UInt16.ofNat (beNat 0 ((frame.drop 6).take 2))

/-- `decode_frame`. -/
def decodeFrame (frame : Bytes) : Result (DistMsgType × Bytes) :=
  if frame.length < kDistHeaderBytes then fail .malformedFrame (str "frame shorter than header")
  else if headerLen frame > kDistMaxFrameBytes then
    fail .frameTooLarge (str "frame exceeds hard maximum")
  else if headerLen frame ≠ frame.length then
    fail .truncatedData (str "frame length mismatch (truncated or partial)")
  else if headerVer frame ≠ kDistProtoVersion then
    fail .protocolVersionMismatch (str "unsupported protocol version")
  else
    match DistMsgType.ofCode (headerType frame) with
    | none => fail .unknownMessageType (str "unknown message type")
    | some type => .ok (type, frame.drop kDistHeaderBytes)

/-! ### Headers -/

/-- Eight bytes that hold a length, a version and a type. -/
def headerBytes (len ver : Nat) (type : UInt16) : Bytes :=
  beBytes 4 len ++ beBytes 2 ver ++ beBytes 2 type.toNat

@[simp] theorem headerBytes_length (len ver : Nat) (type : UInt16) :
    (headerBytes len ver type).length = 8 := by
  simp [headerBytes]

theorem encodeFrame_eq (type : UInt16) (payload : Bytes) :
    encodeFrame type payload =
      headerBytes (kDistHeaderBytes + payload.length) kDistProtoVersion type ++ payload := rfl

section Header

variable (len ver : Nat) (type : UInt16) (payload : Bytes)

theorem headerLen_append : headerLen (headerBytes len ver type ++ payload) = len % 2 ^ 32 := by
  have htake : (headerBytes len ver type ++ payload).take 4 = beBytes 4 len := by
    simp only [headerBytes, List.append_assoc]
    exact List.take_left' (beBytes_length 4 len)
  rw [headerLen, htake]
  exact beNat_beBytes 4 len

theorem headerVer_append : headerVer (headerBytes len ver type ++ payload) = ver % 2 ^ 16 := by
  have htake : ((headerBytes len ver type ++ payload).drop 4).take 2 = beBytes 2 ver := by
    simp only [headerBytes, List.append_assoc]
    rw [List.drop_left' (beBytes_length 4 len)]
    exact List.take_left' (beBytes_length 2 ver)
  rw [headerVer, htake]
  exact beNat_beBytes 2 ver

theorem headerType_append : headerType (headerBytes len ver type ++ payload) = type := by
  have hsplit : headerBytes len ver type ++ payload =
      (beBytes 4 len ++ beBytes 2 ver) ++ (beBytes 2 type.toNat ++ payload) := by
    simp only [headerBytes, List.append_assoc]
  have htake : ((headerBytes len ver type ++ payload).drop 6).take 2 = beBytes 2 type.toNat := by
    rw [hsplit, List.drop_left' (by simp)]
    exact List.take_left' (beBytes_length 2 type.toNat)
  have hlt : type.toNat < 256 ^ 2 := type.toNat_lt
  rw [headerType, htake, beNat_beBytes, Nat.mod_eq_of_lt hlt, UInt16.ofNat_toNat]

end Header

/-- The bytes of a number of that many bytes. -/
theorem beBytes_of_length {bytes : Bytes} {n : Nat} (h : bytes.length = n) :
    beBytes n (beNat 0 bytes) = bytes := by
  subst h
  simpa using beBytes_beNat bytes 0

/-- A header is its fields. -/
theorem headerBytes_fields {frame : Bytes} (h : kDistHeaderBytes ≤ frame.length) :
    headerBytes (headerLen frame) (headerVer frame) (headerType frame) = frame.take 8 := by
  have h8 : 8 ≤ frame.length := h
  have htype : (headerType frame).toNat = beNat 0 ((frame.drop 6).take 2) := by
    refine UInt16.toNat_ofNat_of_lt' ?_
    have hlt := Foundation.beNat_lt ((frame.drop 6).take 2)
    have hlen : ((frame.drop 6).take 2).length = 2 := by
      rw [List.length_take, List.length_drop]
      omega
    rw [hlen] at hlt
    exact hlt
  have hlen4 : (frame.take 4).length = 4 := by
    rw [List.length_take]
    omega
  have hlen2 : ((frame.drop 4).take 2).length = 2 := by
    rw [List.length_take, List.length_drop]
    omega
  have hlen2' : ((frame.drop 6).take 2).length = 2 := by
    rw [List.length_take, List.length_drop]
    omega
  rw [headerBytes, htype, headerLen, headerVer, beBytes_of_length hlen4, beBytes_of_length hlen2,
    beBytes_of_length hlen2']
  have h6 : frame.take 6 = frame.take 4 ++ (frame.drop 4).take 2 := List.take_add (i := 4) (j := 2)
  have h8' : frame.take 8 = frame.take 6 ++ (frame.drop 6).take 2 := List.take_add (i := 6) (j := 2)
  rw [h8', h6]

/-! ### Exactness -/

/-- What `decode_frame` accepts. -/
theorem decodeFrame_ok_iff {frame : Bytes} {t : DistMsgType} {payload : Bytes} :
    decodeFrame frame = .ok (t, payload) ↔
      kDistHeaderBytes ≤ frame.length ∧ headerLen frame ≤ kDistMaxFrameBytes ∧
        headerLen frame = frame.length ∧ headerVer frame = kDistProtoVersion ∧
        DistMsgType.ofCode (headerType frame) = some t ∧ payload = frame.drop kDistHeaderBytes := by
  unfold decodeFrame
  constructor
  · intro h
    split at h
    · cases h
    split at h
    · cases h
    split at h
    · cases h
    split at h
    · cases h
    split at h
    · cases h
    · rename_i hshort hlarge hlen hver _ type htype
      cases h
      refine ⟨Nat.le_of_not_lt hshort, Nat.le_of_not_lt hlarge, ?_, ?_, htype, rfl⟩
      · exact Decidable.not_not.mp hlen
      · exact Decidable.not_not.mp hver
  · rintro ⟨hshort, hlarge, hlen, hver, htype, rfl⟩
    rw [if_neg (Nat.not_lt.mpr hshort), if_neg (Nat.not_lt.mpr hlarge),
      if_neg (fun h => h hlen), if_neg (fun h => h hver), htype]

/-- **The frame codec is exact.** A frame within the limit is read back, a larger one is rejected, and
what is accepted is what the encoder writes. -/
theorem decodeFrame_encodeFrame :
    (∀ (t : DistMsgType) (payload : Bytes),
      (decodeFrame (encodeFrame t.code payload) = .ok (t, payload) ↔
        kDistHeaderBytes + payload.length ≤ kDistMaxFrameBytes) ∧
      (kDistMaxFrameBytes < kDistHeaderBytes + payload.length →
        ∃ e, decodeFrame (encodeFrame t.code payload) = .error e)) ∧
    ∀ (frame : Bytes) (t : DistMsgType) (payload : Bytes),
      decodeFrame frame = .ok (t, payload) → encodeFrame t.code payload = frame := by
  have hmax : kDistMaxFrameBytes < 2 ^ 32 := by decide
  have hiff : ∀ (t t' : DistMsgType) (payload payload' : Bytes),
      decodeFrame (encodeFrame t.code payload) = .ok (t', payload') ↔
        kDistHeaderBytes + payload.length ≤ kDistMaxFrameBytes ∧ t' = t ∧ payload' = payload := by
    intro t t' payload payload'
    have hbody : (encodeFrame t.code payload).drop kDistHeaderBytes = payload :=
      List.drop_left' (headerBytes_length _ _ _)
    have hlength : (encodeFrame t.code payload).length = kDistHeaderBytes + payload.length := by
      rw [encodeFrame_eq, List.length_append, headerBytes_length]
      rfl
    rw [decodeFrame_ok_iff, hbody, hlength, encodeFrame_eq, headerLen_append, headerVer_append,
      headerType_append, DistMsgType.ofCode_code]
    constructor
    · rintro ⟨-, hlarge, hlen, -, htype, rfl⟩
      rw [hlen] at hlarge
      exact ⟨hlarge, (Option.some.inj htype).symm, rfl⟩
    · rintro ⟨hfits, rfl, rfl⟩
      rw [Nat.mod_eq_of_lt (Nat.lt_of_le_of_lt hfits hmax)]
      exact ⟨Nat.le_add_right _ _, hfits, rfl, rfl, rfl, rfl⟩
  refine ⟨fun t payload => ⟨?_, fun hlarge => ?_⟩, fun frame t payload h => ?_⟩
  · rw [hiff]
    exact ⟨fun h => h.1, fun h => ⟨h, rfl, rfl⟩⟩
  · cases hdecode : decodeFrame (encodeFrame t.code payload) with
    | error e => exact ⟨e, rfl⟩
    | ok out =>
      obtain ⟨t', payload'⟩ := out
      exact absurd ((hiff t t' payload payload').mp hdecode).1 (Nat.not_le_of_lt hlarge)
  · obtain ⟨hshort, -, hlen, hver, htype, rfl⟩ := decodeFrame_ok_iff.mp h
    have hbody : kDistHeaderBytes + (frame.drop kDistHeaderBytes).length = headerLen frame := by
      rw [List.length_drop, hlen]
      omega
    rw [encodeFrame_eq, DistMsgType.code_of_ofCode htype, hbody, ← hver, headerBytes_fields hshort]
    exact List.take_append_drop 8 frame

/-- The limit, one message type and a frame at hand. -/
theorem decodeFrame_encodeFrame_roll :
    decodeFrame (encodeFrame DistMsgType.rollEpoch.code [7]) = .ok (.rollEpoch, [7]) ∧
      encodeFrame DistMsgType.rollEpoch.code [7] = [0, 0, 0, 9, 0, 1, 0, 10, 7] := by
  have hread := (decodeFrame_encodeFrame.1 .rollEpoch [7]).1.mpr (by decide)
  exact ⟨hread, decodeFrame_encodeFrame.2 [0, 0, 0, 9, 0, 1, 0, 10, 7] .rollEpoch [7] (by decide)⟩

/-! ## Frames on a connection -/

/-- A message type as it stands in a header, and a payload. -/
abbrev Frame := UInt16 × Bytes

namespace TcpConnection

/-- The header `write_frame` fills in: the length is computed in 32 bits. -/
def frameHeader (type : UInt16) (payload : Bytes) : Bytes :=
  let len : UInt32 := 8 + UInt32.ofNat payload.length
  beBytes 4 len.toNat ++ [0, 1] ++ beBytes 2 type.toNat

section Writing

variable {L σ : Type} (offer : Bytes → Prog L σ Nat)

/-- `write_frame`. -/
def writeFrame (type : UInt16) (payload : Bytes) : Prog L σ Bool := do
  let header ← Foundation.writeAll offer (frameHeader type payload)
  if !header then return false
  else if payload.isEmpty then return true
  else Foundation.writeAll offer payload

/-- Frames written one after the other, as long as that goes well. -/
def writeFrames : List Frame → Prog L σ Bool
  | [] => return true
  | (type, payload) :: frames => do
    let written ← writeFrame offer type payload
    if !written then return false else writeFrames frames

end Writing

/-- What `read_frame` makes of the eight bytes of a header: the type and the length of the payload. -/
def parseHeader (hdr : Bytes) : Option (UInt16 × Nat) :=
  if headerVer hdr ≠ 1 then none
  else if headerLen hdr < 8 ∨ headerLen hdr > kDistMaxFrameBytes then none
  else some (headerType hdr, headerLen hdr - 8)

/-- The payload behind a header. -/
def readPayload (header : Option (UInt16 × Nat)) (ps : Pieces) : Option (Frame × Pieces) :=
  header.bind fun out => (readExact out.2 ps).bind fun body => some ((out.1, body.1), body.2)

/-- `read_frame`. -/
def readFrame (ps : Pieces) : Option (Frame × Pieces) :=
  (readExact 8 ps).bind fun hdr => readPayload (parseHeader hdr.1) hdr.2

/-- `read_frame` until it fails: the frames, and what is left. -/
def readFrames (ps : Pieces) : List Frame × Pieces := drain readFrame ps.flatten.length ps

/-! ### The whole stream -/

/-- The bytes of a frame. -/
def frameBytes (f : Frame) : Bytes := frameHeader f.1 f.2 ++ f.2

/-- The frame is within the limit. -/
def Fits (f : Frame) : Prop := f.2.length ≤ kDistMaxFrameBytes - kDistHeaderBytes

/-- The reader of the payload, on the whole string. -/
def payloadReader (header : Option (UInt16 × Nat)) : Reader Frame :=
  match header with
  | none => fun _ => none
  | some (type, plen) => (Reader.take plen).bind fun payload => Reader.pure (type, payload)

/-- The reader of a frame, on the whole string. -/
def frameReader : Reader Frame := (Reader.take 8).bind fun hdr => payloadReader (parseHeader hdr)

theorem piecewise_readPayload (header : Option (UInt16 × Nat)) :
    Piecewise (readPayload header) (payloadReader header) := by
  cases header with
  | none => exact Piecewise.fail
  | some out => exact (piecewise_readExact out.2).bind fun _ => Piecewise.pure _

/-- **Pieces do not matter.** -/
theorem piecewise_readFrame : Piecewise readFrame frameReader :=
  (piecewise_readExact 8).bind fun _ => piecewise_readPayload _

/-- Both headers are the same bytes. -/
theorem frameHeader_eq (type : UInt16) (payload : Bytes) :
    frameHeader type payload = headerBytes (8 + payload.length) kDistProtoVersion type := by
  have hlen : (8 + UInt32.ofNat payload.length : UInt32).toNat = (8 + payload.length) % 2 ^ 32 := by
    rw [UInt32.toNat_add, UInt32.toNat_ofNat', Nat.add_mod_mod]
    rfl
  have hbytes : beBytes 4 ((8 + payload.length) % 2 ^ 32) = beBytes 4 (8 + payload.length) := by
    have hval : beNat 0 (beBytes 4 (8 + payload.length)) = (8 + payload.length) % 2 ^ 32 :=
      beNat_beBytes 4 _
    rw [← hval]
    exact beBytes_of_length (beBytes_length 4 _)
  rw [frameHeader, hlen, hbytes]
  rfl

theorem frameBytes_eq (f : Frame) : frameBytes f = encodeFrame f.1 f.2 := by
  rw [frameBytes, frameHeader_eq, encodeFrame_eq]
  rfl

theorem frameBytes_length (f : Frame) : (frameBytes f).length = 8 + f.2.length := by
  rw [frameBytes, frameHeader_eq, List.length_append, headerBytes_length]

theorem frameBytes_ne_nil (f : Frame) : frameBytes f ≠ [] := by
  intro h
  have hlen := frameBytes_length f
  rw [h] at hlen
  simp at hlen
  omega

theorem parseHeader_eq_some {hdr : Bytes} {type : UInt16} {plen : Nat} :
    parseHeader hdr = some (type, plen) ↔ headerVer hdr = 1 ∧ headerLen hdr = 8 + plen ∧
      8 + plen ≤ kDistMaxFrameBytes ∧ headerType hdr = type := by
  unfold parseHeader
  constructor
  · intro h
    split at h
    · cases h
    split at h
    · cases h
    · rename_i hver hlen
      cases h
      rw [not_or] at hlen
      exact ⟨Decidable.not_not.mp hver, by omega, by omega, rfl⟩
  · rintro ⟨hver, hlen, hmax, rfl⟩
    rw [if_neg (fun h => h hver), if_neg (by omega), hlen, Nat.add_sub_cancel_left]

/-- **The transport is exact** on the frames within the limit. -/
theorem frameReader_exact : Exact frameBytes Fits frameReader where
  complete := by
    intro f rest hf
    have hfits : 8 + f.2.length ≤ kDistMaxFrameBytes := by
      have hle : f.2.length ≤ kDistMaxFrameBytes - 8 := hf
      have hmax : 8 ≤ kDistMaxFrameBytes := by decide
      omega
    have hhdr : Reader.take 8 (frameBytes f ++ rest) = some (frameHeader f.1 f.2, f.2 ++ rest) := by
      rw [frameBytes, List.append_assoc]
      exact (Exact.take 8).complete _ _ (by rw [frameHeader_eq, headerBytes_length])
    have hparse : parseHeader (frameHeader f.1 f.2) = some (f.1, f.2.length) := by
      have hnil := List.append_nil (headerBytes (8 + f.2.length) kDistProtoVersion f.1)
      rw [parseHeader_eq_some, frameHeader_eq, ← hnil, headerVer_append, headerLen_append,
        headerType_append, Nat.mod_eq_of_lt (Nat.lt_of_le_of_lt hfits (by decide))]
      exact ⟨rfl, rfl, hfits, rfl⟩
    have hbody : Reader.take f.2.length (f.2 ++ rest) = some (f.2, rest) :=
      (Exact.take f.2.length).complete _ _ rfl
    rw [frameReader, Reader.bind_of_some hhdr, hparse]
    exact Reader.bind_of_some hbody
  sound := by
    intro input f rest h
    obtain ⟨hdr, rest₁, hhdr, hpayload⟩ := Reader.bind_eq_some.mp h
    obtain ⟨hlen, rfl⟩ := (Exact.take 8).sound _ _ _ hhdr
    cases hparse : parseHeader hdr with
    | none =>
      rw [hparse] at hpayload
      cases hpayload
    | some out =>
      obtain ⟨type, plen⟩ := out
      rw [hparse] at hpayload
      obtain ⟨payload, rest₂, hbody, hret⟩ := Reader.bind_eq_some.mp hpayload
      cases hret
      obtain ⟨hplen, rfl⟩ := (Exact.take plen).sound _ _ _ hbody
      obtain ⟨hver, hhlen, hmax, rfl⟩ := parseHeader_eq_some.mp hparse
      refine ⟨?_, ?_⟩
      · show payload.length ≤ kDistMaxFrameBytes - 8
        omega
      · have hfields : headerBytes (headerLen hdr) (headerVer hdr) (headerType hdr) = hdr.take 8 :=
          headerBytes_fields (Nat.le_of_eq hlen.symm)
        rw [hhlen, hver, List.take_of_length_le (Nat.le_of_eq hlen)] at hfields
        rw [frameBytes, frameHeader_eq, hplen, List.append_assoc]
        exact congrArg (· ++ (payload ++ rest)) hfields.symm

theorem frameReader_nil : frameReader [] = none := rfl

/-! ### Streams of frames -/

/-- The frames of a byte string, and what is left. -/
def framesOf (stream : Bytes) : List Frame × Bytes := drain frameReader stream.length stream

theorem readFrames_framesOf {ps : Pieces} (hps : ps.Proper) :
    (readFrames ps).1 = (framesOf ps.flatten).1 ∧
      (readFrames ps).2.flatten = (framesOf ps.flatten).2 ∧ (readFrames ps).2.Proper :=
  piecewise_readFrame.drain _ hps

theorem length_le_flatMap (frames : List Frame) :
    frames.length ≤ (frames.flatMap frameBytes).length := by
  induction frames with
  | nil => exact Nat.le_refl 0
  | cons f frames ih =>
    rw [List.flatMap_cons, List.length_append, List.length_cons, frameBytes_length]
    omega

/-- What is left of a byte string begins with no frame. -/
theorem framesOf_stuck (stream : Bytes) : frameReader (framesOf stream).2 = none :=
  have hshorter : ∀ input f rest, frameReader input = some (f, rest) → rest.length < input.length :=
    fun _ _ _ h => frameReader_exact.shorter frameBytes_ne_nil h
  Foundation.drain_stuck hshorter le_rfl

/-- Frames, and a rest that begins with none. -/
theorem framesOf_append {frames : List Frame} (hfits : ∀ f ∈ frames, Fits f) {rest : Bytes}
    (hrest : frameReader rest = none) :
    framesOf (frames.flatMap frameBytes ++ rest) = (frames, rest) := by
  refine frameReader_exact.drain_flatMap hfits hrest ?_
  rw [List.length_append]
  exact Nat.le_trans (length_le_flatMap frames) (Nat.le_add_right _ _)

theorem framesOf_prefix {frames : List Frame} (hfits : ∀ f ∈ frames, Fits f) {stream : Bytes}
    (hpre : stream <+: frames.flatMap frameBytes) : (framesOf stream).1 <+: frames := by
  obtain ⟨done, part, rfl, hpart⟩ := Exact.split_prefix hpre
  obtain ⟨hdone, hfail⟩ : done <+: frames ∧ frameReader part = none := by
    rcases hpart with ⟨rfl, hdone⟩ | ⟨f, hdone, hf, hne⟩
    · exact ⟨hdone, rfl⟩
    · exact ⟨(List.prefix_append done [f]).trans hdone,
        frameReader_exact.prefix_free (hfits f (hdone.subset (by simp))) hf hne⟩
  rw [framesOf_append (fun f hf => hfits f (hdone.subset hf)) hfail]
  exact hdone

/-- The length field of the frame does not wrap. -/
def Sane (f : Frame) : Prop := f.2.length + 8 < 2 ^ 32

/-- A stream that begins with a frame over the limit, or with a part of it, is not read. -/
theorem frameReader_unfit {f : Frame} (hsane : Sane f) (hunfit : ¬ Fits f) {p : Bytes}
    (h : frameBytes f <+: p ∨ p <+: frameBytes f) : frameReader p = none := by
  have hheader : (frameHeader f.1 f.2).length = 8 := by
    rw [frameHeader_eq, headerBytes_length]
  by_cases hlen : 8 ≤ p.length
  · have htake : p.take 8 = frameHeader f.1 f.2 := by
      have hpre : frameHeader f.1 f.2 <+: p := by
        rcases h with h | h
        · exact (List.prefix_append _ _).trans h
        · exact List.prefix_of_prefix_length_le (List.prefix_append _ _) h (by omega)
      obtain ⟨rest, rfl⟩ := hpre
      exact List.take_left' hheader
    have hread : Reader.take 8 p = some (frameHeader f.1 f.2, p.drop 8) := by
      rw [← htake]
      exact if_pos hlen
    have hparse : parseHeader (frameHeader f.1 f.2) = none := by
      cases hparse : parseHeader (frameHeader f.1 f.2) with
      | none => rfl
      | some out =>
        obtain ⟨-, hplen, hmax, -⟩ := parseHeader_eq_some.mp hparse
        have hnil := List.append_nil (headerBytes (8 + f.2.length) kDistProtoVersion f.1)
        rw [frameHeader_eq, ← hnil, headerLen_append, Nat.mod_eq_of_lt] at hplen
        · have hbig : kDistMaxFrameBytes - kDistHeaderBytes < f.2.length := Nat.lt_of_not_le hunfit
          have height : kDistHeaderBytes = 8 := rfl
          omega
        · unfold Sane at hsane
          omega
    rw [frameReader, Reader.bind_of_some hread, hparse]
    rfl
  · have hread : Reader.take 8 p = none := if_neg hlen
    unfold frameReader Reader.bind
    rw [hread]

/-- The frames in front of the first that is over the limit. -/
theorem exists_fitting (frames : List Frame) : ∃ done rest, frames = done ++ rest ∧
    (∀ f ∈ done, Fits f) ∧ ∀ f, rest.head? = some f → ¬ Fits f := by
  induction frames with
  | nil => exact ⟨[], [], rfl, List.forall_mem_nil _, fun f hf => (by cases hf)⟩
  | cons f frames ih =>
    by_cases hf : Fits f
    · obtain ⟨done, rest, rfl, hdone, hrest⟩ := ih
      refine ⟨f :: done, rest, rfl, fun g hg => ?_, hrest⟩
      rcases List.mem_cons.mp hg with rfl | hg
      · exact hf
      · exact hdone g hg
    · refine ⟨[], f :: frames, rfl, List.forall_mem_nil _, fun g hg => ?_⟩
      cases hg
      exact hf

/-- **What is read of frames** whose lengths do not wrap: those in front of the first that is over the
limit, whatever comes behind them. -/
theorem framesOf_sane {frames : List Frame} (hsane : ∀ f ∈ frames, Sane f) {part : Bytes}
    (hpart : frameReader part = none) :
    (framesOf (frames.flatMap frameBytes ++ part)).1 <+: frames := by
  obtain ⟨done, rest, rfl, hdone, hrest⟩ := exists_fitting frames
  have hstuck : frameReader (rest.flatMap frameBytes ++ part) = none := by
    cases rest with
    | nil => exact hpart
    | cons f rest =>
      refine frameReader_unfit (hsane f (by simp)) (hrest f rfl) (.inl ?_)
      rw [List.flatMap_cons, List.append_assoc]
      exact List.prefix_append _ _
  rw [List.flatMap_append, List.append_assoc, framesOf_append hdone hstuck]
  exact List.prefix_append _ _

/-- A part of a frame is not read. -/
theorem frameReader_part {f : Frame} (hsane : Sane f) {part : Bytes} (hpre : part <+: frameBytes f)
    (hne : part ≠ frameBytes f) : frameReader part = none := by
  by_cases hf : Fits f
  · exact frameReader_exact.prefix_free hf hpre hne
  · exact frameReader_unfit hsane hf (.inr hpre)

end TcpConnection

open TcpConnection

/-! ### Writing -/

section Writing

variable {L σ : Type} {step : L → σ → Option σ} {offer : Bytes → Prog L σ Nat} {I : Bytes → σ → Prop}
  {Up : Prop}

/-- What `write_frame` has sent: all of the frame, or, when the connection fails, a beginning of it. -/
theorem run_writeFrame_of (hoffer : Foundation.Offers step offer I Up) (type : UInt16)
    (payload : Bytes) {s : σ} (hs : I [] s) : ∃ b part s',
    (writeFrame offer type payload).run step s = some (b, s') ∧ I part s' ∧
      part <+: frameBytes (type, payload) ∧ (b = true → part = frameBytes (type, payload)) ∧
      (Up → b = true) := by
  obtain ⟨b, header, s₁, hheader, hI, hpre, hall, hup⟩ :=
    Foundation.run_writeAll hoffer (frameHeader type payload) hs
  rw [List.nil_append] at hI
  simp only [writeFrame, Prog.bind_eq, Prog.run_bind, hheader, Option.bind_some]
  cases b with
  | false =>
    refine ⟨false, header, s₁, rfl, hI, hpre.trans (List.prefix_append _ _), Bool.noConfusion, ?_⟩
    exact fun h => absurd (hup h) Bool.false_ne_true
  | true =>
    obtain rfl := hall rfl
    by_cases hempty : payload = []
    · subst hempty
      refine ⟨true, frameHeader type [], s₁, rfl, hI, ?_, fun _ => ?_, fun _ => rfl⟩
      · exact List.prefix_append _ _
      · exact (List.append_nil _).symm
    · have hne : payload.isEmpty = false := by simpa using hempty
      simp only [Bool.not_true, Bool.false_eq_true, if_false, hne]
      obtain ⟨b, body, s', hbody, hI', hpre', hall', hup'⟩ :=
        Foundation.run_writeAll hoffer payload hI
      refine ⟨b, frameHeader type payload ++ body, s', hbody, hI', ?_, ?_, hup'⟩
      · exact (List.prefix_append_right_inj _).mpr hpre'
      · intro hb
        rw [hall' hb]
        rfl

end Writing

theorem run_writeFrame (accept : Accept) (type : UInt16) (payload sent : Bytes) : ∃ b part,
    (writeFrame (Foundation.Outgoing.offer accept) type payload).run
        (Foundation.Outgoing.step accept) sent = some (b, sent ++ part) ∧
      (b = true → part = frameBytes (type, payload)) ∧ (accept.Positive → b = true) := by
  obtain ⟨b, part, _, hrun, rfl, -, hall, hup⟩ :=
    run_writeFrame_of (Foundation.Outgoing.offers accept sent) type payload (List.append_nil sent).symm
  exact ⟨b, part, hrun, hall, hup⟩

theorem run_writeFrames {accept : Accept} (hpos : accept.Positive) (frames : List Frame)
    (sent : Bytes) : (writeFrames (Foundation.Outgoing.offer accept) frames).run
      (Foundation.Outgoing.step accept) sent = some (true, sent ++ frames.flatMap frameBytes) := by
  induction frames generalizing sent with
  | nil => simp [writeFrames]
  | cons f frames ih =>
    obtain ⟨type, payload⟩ := f
    obtain ⟨b, part, hrun, hall, hb⟩ := run_writeFrame accept type payload sent
    obtain rfl := hb hpos
    obtain rfl := hall rfl
    simp only [writeFrames, Prog.bind_eq, Prog.run_bind, hrun, Option.bind_some, Bool.not_true,
      Bool.false_eq_true, if_false]
    rw [ih, List.flatMap_cons, List.append_assoc]

/-- **The framed stream round trip.** However `::send` and `::recv` cut the stream, the frames that
were written are read back in order, and then the reader fails; of a stream that is cut anywhere, a
beginning of them. -/
theorem framed_stream {accept : Accept} (hpos : accept.Positive) {frames : List Frame}
    (hfits : ∀ f ∈ frames, f.2.length ≤ kDistMaxFrameBytes - kDistHeaderBytes) :
    ∃ stream, (writeFrames (Foundation.Outgoing.offer accept) frames).run
        (Foundation.Outgoing.step accept) [] = some (true, stream) ∧
      ∀ ps : Pieces, ps.Proper →
        (ps.flatten = stream → readFrames ps = (frames, []) ∧ readFrame [] = none) ∧
        (ps.flatten <+: stream → (readFrames ps).1 <+: frames ∧
          readFrame (readFrames ps).2 = none) := by
  refine ⟨frames.flatMap frameBytes, run_writeFrames hpos frames [], fun ps hps => ⟨?_, ?_⟩⟩
  · intro hflat
    obtain ⟨hread, hleft, hproper⟩ := readFrames_framesOf hps
    have hwhole : framesOf (frames.flatMap frameBytes ++ []) = (frames, []) :=
      framesOf_append hfits frameReader_nil
    rw [List.append_nil, ← hflat] at hwhole
    rw [hwhole] at hread hleft
    -- nothing is left, and no piece is empty
    have hnil : (readFrames ps).2 = [] := by
      cases hps' : (readFrames ps).2 with
      | nil => rfl
      | cons p rest =>
        rw [hps'] at hleft hproper
        have hp : p = [] := (List.append_eq_nil_iff.mp hleft).1
        exact absurd hp (hproper p (by simp))
    exact ⟨Prod.ext hread hnil, rfl⟩
  · intro hpre
    obtain ⟨hread, hleft, hproper⟩ := readFrames_framesOf hps
    refine ⟨?_, piecewise_readFrame.none hproper ?_⟩
    · rw [hread]
      exact framesOf_prefix hfits hpre
    · rw [hleft]
      exact framesOf_stuck _

/-- A roll and a query, sent a byte at a time and read in two pieces. -/
theorem framed_stream_sample :
    readFrames [[0, 0, 0, 9, 0], [1, 0, 10, 7, 0, 0, 0, 8, 0, 1, 0, 14]] = ([(10, [7]), (14, [])], [])
      := by
  have hpos : Accept.Positive fun _ _ => 1 := fun _ _ _ => Nat.one_pos
  have hfits : ∀ f ∈ [((10 : UInt16), [(7 : UInt8)]), (14, [])],
      f.2.length ≤ kDistMaxFrameBytes - kDistHeaderBytes := by
    decide
  obtain ⟨stream, hrun, hread⟩ := framed_stream hpos hfits
  have hstream : stream = [0, 0, 0, 9, 0, 1, 0, 10, 7, 0, 0, 0, 8, 0, 1, 0, 14] := by
    have hbytes := hrun.symm.trans (run_writeFrames hpos [(10, [7]), (14, [])] [])
    rw [(Prod.mk.inj (Option.some.inj hbytes)).2]
    decide
  have hps : Pieces.Proper [[0, 0, 0, 9, 0], [1, 0, 10, 7, 0, 0, 0, 8, 0, 1, 0, 14]] := by
    intro p hp
    simp only [List.mem_cons, List.not_mem_nil, or_false] at hp
    rcases hp with rfl | rfl <;> simp
  exact ((hread _ hps).1 (by rw [hstream]; rfl)).1

/-! ## The two implementations -/

/-- The frame is one that `decode_frame` and `read_frame` check alike: its type is known, or there is
something else wrong with it. -/
def CheckedAlike (frame : Bytes) : Prop :=
  DistMsgType.ofCode (headerType frame) ≠ none ∨ frame.length < kDistHeaderBytes ∨
    headerLen frame > kDistMaxFrameBytes ∨ headerLen frame ≠ frame.length ∨
    headerVer frame ≠ kDistProtoVersion

/-- What `read_frame` accepts as the whole of a stream. -/
theorem frameReader_whole_iff {frame : Bytes} {type : UInt16} {payload : Bytes} :
    frameReader frame = some ((type, payload), []) ↔
      kDistHeaderBytes ≤ frame.length ∧ headerLen frame ≤ kDistMaxFrameBytes ∧
        headerLen frame = frame.length ∧ headerVer frame = kDistProtoVersion ∧
        headerType frame = type ∧ payload = frame.drop kDistHeaderBytes := by
  constructor
  · intro h
    obtain ⟨hfits, hframe⟩ := frameReader_exact.sound _ _ _ h
    rw [List.append_nil, frameBytes, frameHeader_eq] at hframe
    have hle : payload.length ≤ kDistMaxFrameBytes - 8 := hfits
    have hmax : 8 ≤ kDistMaxFrameBytes := by decide
    have hsmall : kDistMaxFrameBytes < 2 ^ 32 := by decide
    subst hframe
    rw [headerLen_append, headerVer_append, headerType_append, List.length_append,
      headerBytes_length, Nat.mod_eq_of_lt (by dsimp only; omega)]
    refine ⟨Nat.le_add_right _ _, by dsimp only; omega, rfl, rfl, rfl, ?_⟩
    exact (List.drop_left' (headerBytes_length _ _ _)).symm
  · rintro ⟨hshort, hlarge, hlen, hver, rfl, rfl⟩
    have h8 : 8 ≤ frame.length := hshort
    have hfits : Fits (headerType frame, frame.drop kDistHeaderBytes) := by
      show (frame.drop 8).length ≤ kDistMaxFrameBytes - 8
      rw [List.length_drop]
      omega
    have hbytes : frameBytes (headerType frame, frame.drop kDistHeaderBytes) = frame := by
      have hbody : 8 + (frame.drop kDistHeaderBytes).length = headerLen frame := by
        show 8 + (frame.drop 8).length = headerLen frame
        rw [List.length_drop, hlen]
        omega
      rw [frameBytes, frameHeader_eq, hbody, ← hver, headerBytes_fields hshort]
      exact List.take_append_drop 8 frame
    have hread := frameReader_exact.complete _ [] hfits
    rwa [hbytes, List.append_nil] at hread

/-- **The two framings.** On a connection that does not fail, `write_frame` sends what `encode_frame`
makes.  `read_frame` accepts the whole of a stream exactly when `decode_frame` does, with the same
type and payload, if and only if the two check it alike. -/
theorem readFrame_agrees_iff {accept : Accept} (hpos : accept.Positive) {ps : Pieces}
    (hps : ps.Proper) :
    (∀ (type : UInt16) (payload sent : Bytes),
      (writeFrame (Foundation.Outgoing.offer accept) type payload).run
        (Foundation.Outgoing.step accept) sent = some (true, sent ++ encodeFrame type payload)) ∧
    ((∀ (type : UInt16) (payload : Bytes), readFrame ps = some ((type, payload), []) ↔
        ∃ t : DistMsgType, t.code = type ∧ decodeFrame ps.flatten = .ok (t, payload)) ↔
      CheckedAlike ps.flatten) := by
  refine ⟨fun type payload sent => ?_, ?_⟩
  · obtain ⟨b, part, hrun, hall, hb⟩ := run_writeFrame accept type payload sent
    obtain rfl := hb hpos
    rw [hrun, hall rfl, frameBytes_eq]
  -- the pieces do not matter
  have hread : ∀ type payload, readFrame ps = some ((type, payload), []) ↔
      frameReader ps.flatten = some ((type, payload), []) := by
    intro type payload
    constructor
    · intro h
      have hwhole := piecewise_readFrame ps hps
      cases hr : frameReader ps.flatten with
      | none =>
        rw [hr] at hwhole
        rw [hwhole] at h
        cases h
      | some out =>
        obtain ⟨f, rest⟩ := out
        rw [hr] at hwhole
        obtain ⟨ps', hpieces, rfl, -⟩ := hwhole
        rw [h] at hpieces
        cases hpieces
        rfl
    · intro h
      obtain ⟨ps', hpieces, hflat, hproper⟩ := piecewise_readFrame.some hps h
      cases ps' with
      | nil => exact hpieces
      | cons p rest => exact absurd (List.append_eq_nil_iff.mp hflat).1 (hproper p (by simp))
  generalize ps.flatten = frame at hread
  simp only [hread, frameReader_whole_iff, decodeFrame_ok_iff]
  constructor
  · intro hagree
    unfold CheckedAlike
    by_contra hbad
    rw [not_or, not_or, not_or, not_or, Decidable.not_not] at hbad
    obtain ⟨hunknown, hshort, hlarge, hlen, hver⟩ := hbad
    obtain ⟨t, -, -, -, -, -, hknown, -⟩ := (hagree (headerType frame)
      (frame.drop kDistHeaderBytes)).mp ⟨Nat.le_of_not_lt hshort, Nat.le_of_not_lt hlarge,
        Decidable.not_not.mp hlen, Decidable.not_not.mp hver, rfl, rfl⟩
    rw [hunknown] at hknown
    cases hknown
  · intro halike type payload
    constructor
    · rintro ⟨hshort, hlarge, hlen, hver, rfl, rfl⟩
      rcases halike with hknown | hbad | hbad | hbad | hbad
      · obtain ⟨t, ht⟩ := Option.ne_none_iff_exists'.mp hknown
        exact ⟨t, DistMsgType.code_of_ofCode ht, hshort, hlarge, hlen, hver, ht, rfl⟩
      · exact absurd hshort (Nat.not_le_of_lt hbad)
      · exact absurd hlarge (Nat.not_le_of_lt hbad)
      · exact absurd hlen hbad
      · exact absurd hver hbad
    · rintro ⟨t, rfl, hshort, hlarge, hlen, hver, ht, rfl⟩
      exact ⟨hshort, hlarge, hlen, hver, (DistMsgType.code_of_ofCode ht).symm, rfl⟩

/-- A frame of an unknown type is read from a connection and rejected in memory. -/
theorem readFrame_disagrees :
    readFrame [[0, 0, 0, 8, 0, 1, 0x7f, 0xff]] = some ((0x7fff, []), []) ∧
      decodeFrame [0, 0, 0, 8, 0, 1, 0x7f, 0xff] =
        fail .unknownMessageType (str "unknown message type") :=
  ⟨by decide, by decide⟩

theorem readFrame_agrees_iff_sample :
    ((writeFrame (Foundation.Outgoing.offer fun _ _ => 3) 10 [7]).run
      (Foundation.Outgoing.step fun _ _ => 3) [] = some (true, [] ++ encodeFrame 10 [7])) ∧
    ∀ (type : UInt16) (payload : Bytes),
      readFrame [[0, 0, 0, 9, 0], [1, 0, 10, 7]] = some ((type, payload), []) ↔
        ∃ t : DistMsgType, t.code = type ∧
          decodeFrame [0, 0, 0, 9, 0, 1, 0, 10, 7] = .ok (t, payload) := by
  have hps : Pieces.Proper [[0, 0, 0, 9, 0], [1, 0, 10, 7]] := by
    intro p hp
    simp only [List.mem_cons, List.not_mem_nil, or_false] at hp
    rcases hp with rfl | rfl <;> simp
  have hpos : Accept.Positive fun _ _ => 3 := fun _ _ _ => Nat.succ_pos 2
  obtain ⟨hwrite, hagree⟩ := readFrame_agrees_iff hpos hps
  exact ⟨hwrite 10 [7] [], hagree.mpr (.inl (by decide))⟩

end KernelCache
