/-
# KernelCache.KeyCodec — decoding a canonical key (`KernelCompatibilityKey::from_canonical`).

The encoder writes twenty-seven tagged fields in one order; the decoder is a separate loop that
reads a tag, dispatches on it and stores what follows, in any order and any number of times, and
then finalizes the key it assembled.  A tagged field is a value of `KeyField` here, with what the
encoder writes for it (`write`), what the decoder reads behind its tag (`readPayload`) and what the
decoder does with it (`store`).  Two octets are kept as they stand on the wire: the format version,
which the decoder reads and drops, and the quantization flag, which it collapses to "nonzero".

`decode_ok_iff` characterises the whole loop: it succeeds EXACTLY on the concatenations of written
fields, and its result is the fold of `store` over them.  The round trip and the description of
which accepted inputs are canonical both follow from it.
-/
import KernelCache.Key

namespace KernelCache

open Foundation (Bytes beBytes Reader Exact)

/-! ## Primitive codecs -/

namespace CanonicalReader

def u8 : Reader UInt8 := Reader.byte
def u32 : Reader UInt32 := Reader.map UInt32.ofNat (Reader.be 4)
def u64 : Reader UInt64 := Reader.map UInt64.ofNat (Reader.be 8)
def i64 : Reader Int64 := Reader.map UInt64.toInt64 u64
def str : Reader Str := Reader.blob 8

/-- `count()` and the loop that follows it. -/
def counted {α : Type} (r : Reader α) : Reader (List α) := Reader.counted 4 r

theorem u32_exact : Exact CanonicalWriter.u32 (fun _ => True) u32 := by
  refine (Exact.be 4).map ?_ (fun _ _ => trivial) ?_
  · intro v hv
    show beBytes 4 (UInt32.ofNat v).toNat = beBytes 4 v
    rw [UInt32.toNat_ofNat_of_lt' (by simpa using hv)]
  · intro v _
    exact ⟨v.toNat, by simpa using v.toNat_lt, UInt32.ofNat_toNat⟩

theorem u64_exact : Exact CanonicalWriter.u64 (fun _ => True) u64 := by
  refine (Exact.be 8).map ?_ (fun _ _ => trivial) ?_
  · intro v hv
    show beBytes 8 (UInt64.ofNat v).toNat = beBytes 8 v
    rw [UInt64.toNat_ofNat_of_lt' (by simpa using hv)]
  · intro v _
    exact ⟨v.toNat, by simpa using v.toNat_lt, UInt64.ofNat_toNat⟩

theorem i64_exact : Exact CanonicalWriter.i64 (fun _ => True) i64 := by
  refine u64_exact.map ?_ (fun _ _ => trivial) ?_
  · intro v _
    show CanonicalWriter.u64 v.toInt64.toUInt64 = CanonicalWriter.u64 v
    rw [UInt64.toUInt64_toInt64]
  · intro v _
    exact ⟨v.toUInt64, trivial, Int64.toInt64_toUInt64 v⟩

theorem str_exact : Exact CanonicalWriter.str (fun s => s.length < 256 ^ 8) str := Exact.blob 8

theorem counted_exact {α : Type} {w : α → Bytes} {D : α → Prop} {r : Reader α} (h : Exact w D r) :
    Exact (CanonicalWriter.counted w) (fun l => (∀ a ∈ l, D a) ∧ l.length < 256 ^ 4) (counted r) :=
  Exact.counted 4 h

/-- An enumeration over a byte. -/
theorem enum_exact {α : Type} {mk : UInt8 → α} {code : α → UInt8} (hcode : ∀ b, code (mk b) = b)
    (hmk : ∀ a, mk (code a) = a) :
    Exact (fun a => CanonicalWriter.u8 (code a)) (fun _ => True) (Reader.map mk u8) := by
  refine Exact.byte.map ?_ (fun _ _ => trivial) ?_
  · intro b _
    show [code (mk b)] = [b]
    rw [hcode]
  · intro a _
    exact ⟨code a, trivial, hmk a⟩

end CanonicalReader

/-! ## Tagged fields -/

/-- One tagged field, as it stands in the encoding. -/
inductive KeyField where
  | version (octet : UInt8)
  | operation (s : Str)
  | artifactFormat (s : Str)
  | vendor (v : DeviceVendor)
  | family (v : AcceleratorFamily)
  | arch (s : Str)
  | capability (cc : UInt8 × UInt8)
  | deviceId (id : UInt64 × UInt64)
  | runtime (r : Str × UInt32 × UInt32)
  | compiler (c : Str × UInt32 × UInt32 × UInt32 × Str)
  | abi (a : Str × UInt64)
  | kernelInterfaceSignature (s : Str)
  | scalarParamTypes (l : List Str)
  | dtypes (l : List Datatype)
  | layouts (l : List TensorLayout)
  | rank (r : UInt32)
  | shape (l : List Int64)
  | symbolicShapeConstraints (l : List Str)
  | alignmentBytes (n : UInt32)
  | sharedMemBytes (n : UInt32)
  | launchAbi (s : Str)
  | block (b : UInt32 × UInt32 × UInt32)
  | codegenFlags (l : List Str)
  | specialization (l : List (Str × Str))
  | modelRevision (s : Str)
  | operatorRevision (s : Str)
  | quantization (q : Str × UInt32 × UInt8)

namespace KeyField

def tag : KeyField → UInt8
  | version _ => 0x01
  | operation _ => 0x02
  | artifactFormat _ => 0x03
  | vendor _ => 0x04
  | family _ => 0x05
  | arch _ => 0x06
  | capability _ => 0x07
  | deviceId _ => 0x08
  | runtime _ => 0x09
  | compiler _ => 0x0a
  | abi _ => 0x0b
  | kernelInterfaceSignature _ => 0x0c
  | scalarParamTypes _ => 0x0d
  | dtypes _ => 0x0e
  | layouts _ => 0x0f
  | rank _ => 0x10
  | shape _ => 0x11
  | symbolicShapeConstraints _ => 0x12
  | alignmentBytes _ => 0x13
  | sharedMemBytes _ => 0x14
  | launchAbi _ => 0x15
  | block _ => 0x16
  | codegenFlags _ => 0x17
  | specialization _ => 0x18
  | modelRevision _ => 0x19
  | operatorRevision _ => 0x1a
  | quantization _ => 0x1b

open CanonicalWriter in
/-- What follows the tag. -/
def payload : KeyField → Bytes
  | version octet => u8 octet
  | operation s => CanonicalWriter.str s
  | artifactFormat s => CanonicalWriter.str s
  | vendor v => u8 v.code
  | family v => u8 v.code
  | arch s => CanonicalWriter.str s
  | capability cc => u8 cc.1 ++ u8 cc.2
  | deviceId id => u64 id.1 ++ u64 id.2
  | runtime r => CanonicalWriter.str r.1 ++ (u32 r.2.1 ++ u32 r.2.2)
  | compiler c =>
    CanonicalWriter.str c.1 ++
      (u32 c.2.1 ++ (u32 c.2.2.1 ++ (u32 c.2.2.2.1 ++ CanonicalWriter.str c.2.2.2.2)))
  | abi a => CanonicalWriter.str a.1 ++ u64 a.2
  | kernelInterfaceSignature s => CanonicalWriter.str s
  | scalarParamTypes l => counted CanonicalWriter.str l
  | dtypes l => counted (fun d : Datatype => u8 d.code) l
  | layouts l => counted (fun d : TensorLayout => u8 d.code) l
  | rank r => u32 r
  | shape l => counted i64 l
  | symbolicShapeConstraints l => counted CanonicalWriter.str l
  | alignmentBytes n => u32 n
  | sharedMemBytes n => u32 n
  | launchAbi s => CanonicalWriter.str s
  | block b => u32 b.1 ++ (u32 b.2.1 ++ u32 b.2.2)
  | codegenFlags l => counted CanonicalWriter.str l
  | specialization l =>
    counted (fun p : Str × Str => CanonicalWriter.str p.1 ++ CanonicalWriter.str p.2) l
  | modelRevision s => CanonicalWriter.str s
  | operatorRevision s => CanonicalWriter.str s
  | quantization q => CanonicalWriter.str q.1 ++ (u32 q.2.1 ++ u8 q.2.2)

def write (f : KeyField) : Bytes := f.tag :: f.payload

/-- A string whose length fits the eight-byte length prefix, as every `std::string` does. -/
def StrSized (s : Str) : Prop := s.length < 256 ^ 8

/-- A list of strings whose length fits the four-byte count. -/
def StrsSized (l : List Str) : Prop := (∀ s ∈ l, StrSized s) ∧ l.length < 256 ^ 4

/-- The lengths of a field fit their prefixes. -/
def Sized : KeyField → Prop
  | operation s | artifactFormat s | arch s | kernelInterfaceSignature s | launchAbi s
  | modelRevision s | operatorRevision s => StrSized s
  | runtime r => StrSized r.1
  | compiler c => StrSized c.1 ∧ StrSized c.2.2.2.2
  | abi a => StrSized a.1
  | scalarParamTypes l | symbolicShapeConstraints l | codegenFlags l => StrsSized l
  | dtypes l => l.length < 256 ^ 4
  | layouts l => l.length < 256 ^ 4
  | shape l => l.length < 256 ^ 4
  | specialization l => (∀ p ∈ l, StrSized p.1 ∧ StrSized p.2) ∧ l.length < 256 ^ 4
  | quantization q => StrSized q.1
  | version _ | vendor _ | family _ | capability _ | deviceId _ | rank _ | alignmentBytes _
  | sharedMemBytes _ | block _ => True

open CanonicalReader in
/-- The `switch` of the decoder: what it reads behind a tag, `none` on its `default`. -/
def readPayload (t : UInt8) : Option (Reader KeyField) :=
  match t with
  | 0x01 => some (u8.map version)
  | 0x02 => some (CanonicalReader.str.map operation)
  | 0x03 => some (CanonicalReader.str.map artifactFormat)
  | 0x04 => some ((u8.map DeviceVendor.mk).map vendor)
  | 0x05 => some ((u8.map AcceleratorFamily.mk).map family)
  | 0x06 => some (CanonicalReader.str.map arch)
  | 0x07 => some ((u8.prod u8).map capability)
  | 0x08 => some ((u64.prod u64).map deviceId)
  | 0x09 => some ((CanonicalReader.str.prod (u32.prod u32)).map runtime)
  | 0x0a => some ((CanonicalReader.str.prod (u32.prod (u32.prod
      (u32.prod CanonicalReader.str)))).map compiler)
  | 0x0b => some ((CanonicalReader.str.prod u64).map abi)
  | 0x0c => some (CanonicalReader.str.map kernelInterfaceSignature)
  | 0x0d => some ((counted CanonicalReader.str).map scalarParamTypes)
  | 0x0e => some ((counted (u8.map Datatype.mk)).map dtypes)
  | 0x0f => some ((counted (u8.map TensorLayout.mk)).map layouts)
  | 0x10 => some (u32.map rank)
  | 0x11 => some ((counted i64).map shape)
  | 0x12 => some ((counted CanonicalReader.str).map symbolicShapeConstraints)
  | 0x13 => some (u32.map alignmentBytes)
  | 0x14 => some (u32.map sharedMemBytes)
  | 0x15 => some (CanonicalReader.str.map launchAbi)
  | 0x16 => some ((u32.prod (u32.prod u32)).map block)
  | 0x17 => some ((counted CanonicalReader.str).map codegenFlags)
  | 0x18 => some ((counted (CanonicalReader.str.prod CanonicalReader.str)).map specialization)
  | 0x19 => some (CanonicalReader.str.map modelRevision)
  | 0x1a => some (CanonicalReader.str.map operatorRevision)
  | 0x1b => some ((CanonicalReader.str.prod (u32.prod u8)).map quantization)
  | _ => none

/-- The assignment the decoder makes for a field. -/
def store (k : KeyFields) : KeyField → KeyFields
  | version _ => k
  | operation s => { k with operation := s }
  | artifactFormat s => { k with artifactFormat := s }
  | vendor v => { k with vendor := v }
  | family v => { k with family := v }
  | arch s => { k with arch := s }
  | capability cc => { k with capability := ⟨cc.1, cc.2⟩ }
  | deviceId id => { k with deviceId := ⟨⟨id.1, id.2⟩⟩ }
  | runtime r =>
    { k with runtimeBackend := r.1, runtimeVersionMajor := r.2.1, runtimeVersionMinor := r.2.2 }
  | compiler c =>
    { k with
      compilerName := c.1, compilerVersionMajor := c.2.1, compilerVersionMinor := c.2.2.1,
      compilerVersionPatch := c.2.2.2.1, compilerBackend := c.2.2.2.2 }
  | abi a => { k with abiName := a.1, abiVersion := a.2 }
  | kernelInterfaceSignature s => { k with kernelInterfaceSignature := s }
  | scalarParamTypes l => { k with scalarParamTypes := l }
  | dtypes l => { k with dtypes := l }
  | layouts l => { k with layouts := l }
  | rank r => { k with rank := r }
  | shape l => { k with shape := l }
  | symbolicShapeConstraints l => { k with symbolicShapeConstraints := l }
  | alignmentBytes n => { k with alignmentBytes := n }
  | sharedMemBytes n => { k with sharedMemBytes := n }
  | launchAbi s => { k with launchAbi := s }
  | block b => { k with blockX := b.1, blockY := b.2.1, blockZ := b.2.2 }
  | codegenFlags l => { k with codegenFlags := l }
  | specialization l => { k with specialization := l }
  | modelRevision s => { k with modelRevision := s }
  | operatorRevision s => { k with operatorRevision := s }
  | quantization q =>
    { k with quantizationKind := q.1, quantizationBits := q.2.1,
             quantizationSymmetric := q.2.2 != 0 }

end KeyField

namespace KeyFields

/-- The tagged fields `finalize()` writes, in its order. -/
def fields (f : KeyFields) : List KeyField :=
  [.version keyFormatVersion, .operation f.operation, .artifactFormat f.artifactFormat,
   .vendor f.vendor, .family f.family, .arch f.arch,
   .capability (f.capability.major, f.capability.minor), .deviceId (f.deviceId.hi, f.deviceId.lo),
   .runtime (f.runtimeBackend, f.runtimeVersionMajor, f.runtimeVersionMinor),
   .compiler (f.compilerName, f.compilerVersionMajor, f.compilerVersionMinor,
     f.compilerVersionPatch, f.compilerBackend),
   .abi (f.abiName, f.abiVersion), .kernelInterfaceSignature f.kernelInterfaceSignature,
   .scalarParamTypes f.scalarParamTypes, .dtypes f.dtypes, .layouts f.layouts, .rank f.rank,
   .shape f.shape, .symbolicShapeConstraints f.symbolicShapeConstraints,
   .alignmentBytes f.alignmentBytes, .sharedMemBytes f.sharedMemBytes, .launchAbi f.launchAbi,
   .block (f.blockX, f.blockY, f.blockZ), .codegenFlags f.codegenFlags,
   .specialization f.specialization, .modelRevision f.modelRevision,
   .operatorRevision f.operatorRevision,
   .quantization (f.quantizationKind, f.quantizationBits,
     if f.quantizationSymmetric then 1 else 0)]

/-- Every string and every list of the key fits its length prefix. -/
def Sized (f : KeyFields) : Prop := ∀ g ∈ f.fields, g.Sized

theorem encode_eq_write (f : KeyFields) : f.encode = f.fields.flatMap KeyField.write := by
  unfold encode fields
  simp only [List.flatMap_cons, List.flatMap_nil, KeyField.write, KeyField.tag, KeyField.payload,
    CanonicalWriter.tag, CanonicalWriter.boolean, CanonicalWriter.u8, List.append_assoc,
    List.cons_append, List.nil_append, List.append_nil]

/-- Storing the written fields rebuilds the key, whatever was there before. -/
theorem foldl_store_fields (f k : KeyFields) : f.fields.foldl KeyField.store k = f := by
  have hflag : ((if f.quantizationSymmetric then (1 : UInt8) else 0) != 0)
      = f.quantizationSymmetric := by
    cases f.quantizationSymmetric <;> rfl
  unfold fields
  simp only [List.foldl_cons, List.foldl_nil]
  unfold KeyField.store
  dsimp only
  rw [hflag]

end KeyFields

/-! ## The decoder reads back what the encoder writes, and nothing else -/

namespace KeyField

open CanonicalReader

/-- The image of an exact reader under a constructor reads back that constructor's payload. -/
theorem map_complete {α : Type} {w : α → Bytes} {D : α → Prop} {r : Reader α} (hr : Exact w D r)
    (mk : α → KeyField) {a : α} (ha : D a) (rest : Bytes) :
    Reader.map mk r (w a ++ rest) = some (mk a, rest) :=
  Reader.bind_of_some (hr.complete a rest ha)

theorem vendor_exact : Exact (fun v : DeviceVendor => CanonicalWriter.u8 v.code) (fun _ => True)
    (Reader.map DeviceVendor.mk u8) := enum_exact (fun _ => rfl) (fun _ => rfl)

theorem family_exact : Exact (fun v : AcceleratorFamily => CanonicalWriter.u8 v.code)
    (fun _ => True) (Reader.map AcceleratorFamily.mk u8) := enum_exact (fun _ => rfl) (fun _ => rfl)

theorem datatype_exact : Exact (fun d : Datatype => CanonicalWriter.u8 d.code) (fun _ => True)
    (Reader.map Datatype.mk u8) := enum_exact (fun _ => rfl) (fun _ => rfl)

theorem layout_exact : Exact (fun d : TensorLayout => CanonicalWriter.u8 d.code) (fun _ => True)
    (Reader.map TensorLayout.mk u8) := enum_exact (fun _ => rfl) (fun _ => rfl)

/-- **Completeness.** Behind its tag, the decoder reads back every field whose lengths fit. -/
theorem readPayload_complete (f : KeyField) (hf : f.Sized) (rest : Bytes) :
    ∃ r, readPayload f.tag = some r ∧ r (f.payload ++ rest) = some (f, rest) := by
  cases f with
  | version a => exact ⟨_, rfl, map_complete Exact.byte _ trivial rest⟩
  | operation a => exact ⟨_, rfl, map_complete str_exact _ hf rest⟩
  | artifactFormat a => exact ⟨_, rfl, map_complete str_exact _ hf rest⟩
  | vendor a => exact ⟨_, rfl, map_complete vendor_exact _ trivial rest⟩
  | family a => exact ⟨_, rfl, map_complete family_exact _ trivial rest⟩
  | arch a => exact ⟨_, rfl, map_complete str_exact _ hf rest⟩
  | capability a =>
    exact ⟨_, rfl, map_complete (Exact.byte.prod Exact.byte) _ ⟨trivial, trivial⟩ rest⟩
  | deviceId a =>
    exact ⟨_, rfl, map_complete (u64_exact.prod u64_exact) _ ⟨trivial, trivial⟩ rest⟩
  | runtime a =>
    exact ⟨_, rfl, map_complete (str_exact.prod (u32_exact.prod u32_exact)) _
      ⟨hf, trivial, trivial⟩ rest⟩
  | compiler a =>
    exact ⟨_, rfl, map_complete
      (str_exact.prod (u32_exact.prod (u32_exact.prod (u32_exact.prod str_exact)))) _
      ⟨hf.1, trivial, trivial, trivial, hf.2⟩ rest⟩
  | abi a => exact ⟨_, rfl, map_complete (str_exact.prod u64_exact) _ ⟨hf, trivial⟩ rest⟩
  | kernelInterfaceSignature a => exact ⟨_, rfl, map_complete str_exact _ hf rest⟩
  | scalarParamTypes a => exact ⟨_, rfl, map_complete (counted_exact str_exact) _ hf rest⟩
  | dtypes a =>
    exact ⟨_, rfl, map_complete (counted_exact datatype_exact) _
      ⟨fun _ _ => trivial, hf⟩ rest⟩
  | layouts a =>
    exact ⟨_, rfl, map_complete (counted_exact layout_exact) _
      ⟨fun _ _ => trivial, hf⟩ rest⟩
  | rank a => exact ⟨_, rfl, map_complete u32_exact _ trivial rest⟩
  | shape a =>
    exact ⟨_, rfl, map_complete (counted_exact i64_exact) _ ⟨fun _ _ => trivial, hf⟩ rest⟩
  | symbolicShapeConstraints a =>
    exact ⟨_, rfl, map_complete (counted_exact str_exact) _ hf rest⟩
  | alignmentBytes a => exact ⟨_, rfl, map_complete u32_exact _ trivial rest⟩
  | sharedMemBytes a => exact ⟨_, rfl, map_complete u32_exact _ trivial rest⟩
  | launchAbi a => exact ⟨_, rfl, map_complete str_exact _ hf rest⟩
  | block a =>
    exact ⟨_, rfl, map_complete (u32_exact.prod (u32_exact.prod u32_exact)) _
      ⟨trivial, trivial, trivial⟩ rest⟩
  | codegenFlags a => exact ⟨_, rfl, map_complete (counted_exact str_exact) _ hf rest⟩
  | specialization a =>
    exact ⟨_, rfl, map_complete (counted_exact (str_exact.prod str_exact)) _ hf rest⟩
  | modelRevision a => exact ⟨_, rfl, map_complete str_exact _ hf rest⟩
  | operatorRevision a => exact ⟨_, rfl, map_complete str_exact _ hf rest⟩
  | quantization a =>
    exact ⟨_, rfl, map_complete (str_exact.prod (u32_exact.prod Exact.byte)) _
      ⟨hf, trivial, trivial⟩ rest⟩

/-- What a successful read behind the tag `t` says about the field read. -/
def ReadAs (t : UInt8) (input : Bytes) (f : KeyField) (rest : Bytes) : Prop :=
  f.tag = t ∧ f.Sized ∧ input = f.payload ++ rest

theorem ReadAs.of_map {α : Type} {w : α → Bytes} {D : α → Prop} {r : Reader α} (hr : Exact w D r)
    (mk : α → KeyField) {t : UInt8} (hmk : ∀ a, (mk a).tag = t ∧ (mk a).payload = w a)
    (hD : ∀ a, D a → (mk a).Sized) {input rest : Bytes} {f : KeyField}
    (h : Reader.map mk r input = some (f, rest)) : ReadAs t input f rest := by
  obtain ⟨a, rest', hread, hret⟩ := Reader.bind_eq_some.mp h
  cases hret
  obtain ⟨ha, hin⟩ := hr.sound _ _ _ hread
  exact ⟨(hmk a).1, hD a ha, by rw [(hmk a).2, hin]⟩

/-- **Soundness.** A read behind a tag has consumed exactly the payload of the field it returns. -/
theorem readPayload_sound {t : UInt8} {r : Reader KeyField} {input rest : Bytes} {f : KeyField}
    (hr : readPayload t = some r) (h : r input = some (f, rest)) : ReadAs t input f rest := by
  unfold readPayload at hr
  split at hr <;> cases hr
  · exact .of_map Exact.byte version (fun _ => ⟨rfl, rfl⟩) (fun _ _ => trivial) h
  · exact .of_map str_exact operation (fun _ => ⟨rfl, rfl⟩) (fun _ h => h) h
  · exact .of_map str_exact artifactFormat (fun _ => ⟨rfl, rfl⟩) (fun _ h => h) h
  · exact .of_map vendor_exact vendor (fun _ => ⟨rfl, rfl⟩) (fun _ _ => trivial) h
  · exact .of_map family_exact family (fun _ => ⟨rfl, rfl⟩) (fun _ _ => trivial) h
  · exact .of_map str_exact arch (fun _ => ⟨rfl, rfl⟩) (fun _ h => h) h
  · exact .of_map
      (Exact.byte.prod Exact.byte) capability
      (fun _ => ⟨rfl, rfl⟩) (fun _ _ => trivial) h
  · exact .of_map (u64_exact.prod u64_exact) deviceId (fun _ => ⟨rfl, rfl⟩) (fun _ _ => trivial) h
  · exact .of_map
      (str_exact.prod (u32_exact.prod u32_exact)) runtime
      (fun _ => ⟨rfl, rfl⟩) (fun _ h => h.1) h
  · exact .of_map
      (str_exact.prod (u32_exact.prod (u32_exact.prod (u32_exact.prod str_exact)))) compiler
      (fun _ => ⟨rfl, rfl⟩) (fun _ h => ⟨h.1, h.2.2.2.2⟩) h
  · exact .of_map (str_exact.prod u64_exact) abi (fun _ => ⟨rfl, rfl⟩) (fun _ h => h.1) h
  · exact .of_map str_exact kernelInterfaceSignature (fun _ => ⟨rfl, rfl⟩) (fun _ h => h) h
  · exact .of_map (counted_exact str_exact) scalarParamTypes (fun _ => ⟨rfl, rfl⟩) (fun _ h => h) h
  · exact .of_map (counted_exact datatype_exact) dtypes (fun _ => ⟨rfl, rfl⟩) (fun _ h => h.2) h
  · exact .of_map (counted_exact layout_exact) layouts (fun _ => ⟨rfl, rfl⟩) (fun _ h => h.2) h
  · exact .of_map u32_exact rank (fun _ => ⟨rfl, rfl⟩) (fun _ _ => trivial) h
  · exact .of_map (counted_exact i64_exact) shape (fun _ => ⟨rfl, rfl⟩) (fun _ h => h.2) h
  · exact .of_map
      (counted_exact str_exact) symbolicShapeConstraints
      (fun _ => ⟨rfl, rfl⟩) (fun _ h => h) h
  · exact .of_map u32_exact alignmentBytes (fun _ => ⟨rfl, rfl⟩) (fun _ _ => trivial) h
  · exact .of_map u32_exact sharedMemBytes (fun _ => ⟨rfl, rfl⟩) (fun _ _ => trivial) h
  · exact .of_map str_exact launchAbi (fun _ => ⟨rfl, rfl⟩) (fun _ h => h) h
  · exact .of_map
      (u32_exact.prod (u32_exact.prod u32_exact)) block
      (fun _ => ⟨rfl, rfl⟩) (fun _ _ => trivial) h
  · exact .of_map (counted_exact str_exact) codegenFlags (fun _ => ⟨rfl, rfl⟩) (fun _ h => h) h
  · exact .of_map
      (counted_exact (str_exact.prod str_exact)) specialization
      (fun _ => ⟨rfl, rfl⟩) (fun _ h => h) h
  · exact .of_map str_exact modelRevision (fun _ => ⟨rfl, rfl⟩) (fun _ h => h) h
  · exact .of_map str_exact operatorRevision (fun _ => ⟨rfl, rfl⟩) (fun _ h => h) h
  · exact .of_map
      (str_exact.prod (u32_exact.prod Exact.byte)) quantization
      (fun _ => ⟨rfl, rfl⟩) (fun _ h => h.1) h

end KeyField

/-! ## The decoder loop -/

namespace KernelCompatibilityKey

/-- The `for (;;)` loop of `from_canonical`.  A field takes at least its tag octet, so `fuel` not
below the input length is never used up. -/
def decode : Nat → KeyFields → Bytes → Result KeyFields
  | _, k, [] => .ok k
  | 0, _, _ :: _ => fail .malformedFrame (str "truncated canonical key")
  | fuel + 1, k, t :: input =>
    match KeyField.readPayload t with
    | none => fail .malformedFrame (str "unknown canonical key tag")
    | some r =>
      match r input with
      | none => fail .malformedFrame (str "truncated canonical key")
      | some (f, rest) => decode fuel (f.store k) rest

/-- A default key with its fields assigned. -/
def ofFields (f : KeyFields) : KernelCompatibilityKey := ⟨f, [], Sha256Digest.zero, false⟩

@[simp] theorem ofFields_toKeyFields (f : KeyFields) : (ofFields f).toKeyFields = f := rfl

/-- `KernelCompatibilityKey::from_canonical`. -/
def fromCanonical (bytes : Bytes) : Result KernelCompatibilityKey :=
  match decode bytes.length {} bytes with
  | .error e => .error e
  | .ok f =>
    let k := (ofFields f).finalize
    if k.finalized then .ok k else fail .invalidArtifact (str "reconstructed key rejected")

theorem decode_write {fs : List KeyField} (hfs : ∀ f ∈ fs, f.Sized) (k : KeyFields) {fuel : Nat}
    (hfuel : (fs.flatMap KeyField.write).length ≤ fuel) :
    decode fuel k (fs.flatMap KeyField.write) = .ok (fs.foldl KeyField.store k) := by
  induction fs generalizing k fuel with
  | nil =>
    cases fuel <;> rfl
  | cons f fs ih =>
    have hcons : (f :: fs).flatMap KeyField.write
        = f.tag :: (f.payload ++ fs.flatMap KeyField.write) := rfl
    rw [hcons] at hfuel ⊢
    cases fuel with
    | zero => simp at hfuel
    | succ fuel =>
      obtain ⟨r, hr, hread⟩ := f.readPayload_complete (hfs f (by simp)) (fs.flatMap KeyField.write)
      simp only [decode, hr, hread, List.foldl_cons]
      apply ih
      · intro g hg
        exact hfs g (List.mem_cons_of_mem f hg)
      · simp only [List.length_cons, List.length_append] at hfuel
        omega

theorem decode_sound {fuel : Nat} {k k' : KeyFields} {input : Bytes}
    (h : decode fuel k input = .ok k') :
    ∃ fs : List KeyField, (∀ f ∈ fs, f.Sized) ∧ input = fs.flatMap KeyField.write ∧
      k' = fs.foldl KeyField.store k := by
  induction fuel generalizing k input with
  | zero =>
    cases input with
    | nil =>
      cases h
      exact ⟨[], by simp, rfl, rfl⟩
    | cons t input => cases h
  | succ fuel ih =>
    cases input with
    | nil =>
      cases h
      exact ⟨[], by simp, rfl, rfl⟩
    | cons t input =>
      simp only [decode] at h
      split at h
      · cases h
      · rename_i r hr
        split at h
        · cases h
        · rename_i f rest hread
          obtain ⟨rfl, hsized, rfl⟩ := KeyField.readPayload_sound hr hread
          obtain ⟨fs, hfs, rfl, rfl⟩ := ih h
          refine ⟨f :: fs, ?_, rfl, rfl⟩
          simpa using ⟨hsized, hfs⟩

/-- **The decoder loop, characterised.** It accepts exactly the concatenations of written fields,
in whatever order and number, and folds them into the key. -/
theorem decode_ok_iff {k k' : KeyFields} {input : Bytes} :
    decode input.length k input = .ok k' ↔
      ∃ fs : List KeyField, (∀ f ∈ fs, f.Sized) ∧ input = fs.flatMap KeyField.write ∧
        k' = fs.foldl KeyField.store k := by
  refine ⟨decode_sound, ?_⟩
  rintro ⟨fs, hfs, rfl, rfl⟩
  exact decode_write hfs k le_rfl

theorem fromCanonical_ok_iff {bytes : Bytes} {k : KernelCompatibilityKey} :
    fromCanonical bytes = .ok k ↔
      ∃ f, decode bytes.length {} bytes = .ok f ∧ f.wellFormed = true ∧
        k = (ofFields f).finalize := by
  unfold fromCanonical
  cases hdec : decode bytes.length {} bytes with
  | error e =>
    refine ⟨?_, ?_⟩
    · intro h
      cases h
    · rintro ⟨f, hf, -⟩
      cases hf
  | ok f =>
    have hflag : (ofFields f).finalize.finalized = f.wellFormed := finalize_finalized _
    dsimp only
    rw [hflag]
    refine ⟨?_, ?_⟩
    · intro h
      by_cases hwf : f.wellFormed = true
      · rw [if_pos hwf] at h
        cases h
        exact ⟨f, rfl, hwf, rfl⟩
      · rw [if_neg hwf] at h
        cases h
    · rintro ⟨f', hf', hwf, rfl⟩
      cases hf'
      rw [if_pos hwf]

/-- A key that came out of the decoder is a finalized one. -/
theorem fromCanonical_wellFormed {bytes : Bytes} {k : KernelCompatibilityKey}
    (h : fromCanonical bytes = .ok k) : k.wellFormed = true ∧ k.finalize = k := by
  obtain ⟨f, -, hwf, rfl⟩ := fromCanonical_ok_iff.mp h
  exact ⟨by simpa using hwf, finalize_finalize _⟩

end KernelCompatibilityKey

/-! ## Lengths survive sorting and storing -/

namespace KeyFields

theorem sorted_sized {f : KeyFields} (h : f.Sized) : f.sorted.Sized := by
  have hflags := (List.perm_insertionSort (· ≤ ·) f.codegenFlags)
  have hspec := (List.perm_insertionSort pairLE f.specialization)
  unfold Sized fields at h ⊢
  simp only [List.forall_mem_cons, List.not_mem_nil, false_imp_iff, implies_true, and_true,
    KeyField.Sized, KeyField.StrsSized, sorted, sortStrings, sortPairs, hflags.length_eq,
    hspec.length_eq, hflags.mem_iff, hspec.mem_iff] at h ⊢
  exact h

/-- What the decoder keeps of a field: the version octet is dropped, the flag octet collapsed. -/
def kept : KeyField → KeyField
  | .version _ => .version keyFormatVersion
  | .quantization q => .quantization (q.1, q.2.1, if q.2.2 != 0 then 1 else 0)
  | f => f

/-- Storing a field replaces the written field of that tag and no other. -/
theorem fields_store (k : KeyFields) (g : KeyField) :
    (g.store k).fields = k.fields.map fun f => if f.tag = g.tag then kept g else f := by
  cases g <;> rfl

theorem store_sized {k : KeyFields} {g : KeyField} (hk : k.Sized) (hg : g.Sized) :
    (g.store k).Sized := by
  have hkept : (kept g).Sized := by
    cases g <;> exact hg
  intro f hf
  rw [fields_store, List.mem_map] at hf
  obtain ⟨f₀, hf₀, rfl⟩ := hf
  split
  · exact hkept
  · exact hk f₀ hf₀

theorem foldl_store_sized {fs : List KeyField} (hfs : ∀ f ∈ fs, f.Sized) {k : KeyFields}
    (hk : k.Sized) : (fs.foldl KeyField.store k).Sized := by
  induction fs generalizing k with
  | nil => exact hk
  | cons f fs ih =>
    exact ih (fun g hg => hfs g (List.mem_cons_of_mem f hg)) (store_sized hk (hfs f (by simp)))

end KeyFields

/-! ## The round trip -/

namespace KernelCompatibilityKey

/-- Decoding the encoding of sorted, well-formed fields gives them back, finalized. -/
theorem fromCanonical_encode {f : KeyFields} (hwf : f.wellFormed = true) (hsized : f.Sized) :
    fromCanonical f.encode = .ok (ofFields f).finalize := by
  apply fromCanonical_ok_iff.mpr
  refine ⟨f, decode_ok_iff.mpr ⟨f.fields, hsized, f.encode_eq_write, ?_⟩, hwf, rfl⟩
  exact (f.foldl_store_fields {}).symm

/-- An accepted key decodes from its canonical bytes to itself. -/
theorem fromCanonical_finalize {k : KernelCompatibilityKey} (hwf : k.wellFormed = true)
    (hsized : k.toKeyFields.Sized) : fromCanonical k.finalize.canonical = .ok k.finalize := by
  have hsorted : k.toKeyFields.sorted.wellFormed = true := by
    rw [KeyFields.sorted_wellFormed]
    exact hwf
  have hdec := fromCanonical_encode hsorted (KeyFields.sorted_sized hsized)
  have hfin : (ofFields k.toKeyFields.sorted).finalize = k.finalize := by
    rw [finalize_of_wellFormed hwf,
      finalize_of_wellFormed (k := ofFields k.toKeyFields.sorted) hsorted,
      ofFields_toKeyFields, KeyFields.sorted_sorted]
  rw [hfin] at hdec
  rw [finalize_of_wellFormed hwf] at hdec ⊢
  exact hdec

/-- Accepted keys with the same canonical bytes agree on every encoded field. -/
theorem sorted_eq_of_canonical_eq {k k' : KernelCompatibilityKey} (hwf : k.wellFormed = true)
    (hsized : k.toKeyFields.Sized) (hwf' : k'.wellFormed = true) (hsized' : k'.toKeyFields.Sized)
    (hcanon : k.finalize.canonical = k'.finalize.canonical) :
    k.toKeyFields.sorted = k'.toKeyFields.sorted := by
  have h := fromCanonical_finalize hwf hsized
  rw [hcanon, fromCanonical_finalize hwf' hsized'] at h
  have hfields := congrArg KernelCompatibilityKey.toKeyFields (Except.ok.inj h)
  rw [finalize_toKeyFields, finalize_toKeyFields] at hfields
  exact hfields.symm

/-- **Canonical round trip.** A key that `finalize()` accepts decodes from its canonical bytes to
itself: every encoded field, the canonical bytes and the digest.  Hence two accepted keys with the
same canonical bytes agree on every encoded field. -/
theorem fromCanonical_canonical (k : KernelCompatibilityKey) (hacc : k.finalize.finalized = true)
    (hsized : k.toKeyFields.Sized) :
    fromCanonical k.finalize.canonical = .ok k.finalize ∧
    ∀ k' : KernelCompatibilityKey, k'.finalize.finalized = true → k'.toKeyFields.Sized →
      k'.finalize.canonical = k.finalize.canonical →
      k'.finalize.toKeyFields = k.finalize.toKeyFields := by
  rw [finalize_finalized] at hacc
  refine ⟨fromCanonical_finalize hacc hsized, ?_⟩
  intro k' hacc' hsized' hcanon
  rw [finalize_finalized] at hacc'
  rw [finalize_toKeyFields, finalize_toKeyFields]
  exact sorted_eq_of_canonical_eq hacc' hsized' hacc hsized hcanon

/-- A key with two layouts, an unsorted flag list and a negative extent. -/
def sampleKey : KernelCompatibilityKey where
  operation := str "matmul"
  dtypes := [Datatype.f32, Datatype.f32]
  layouts := [TensorLayout.rowMajor, TensorLayout.rowMajor]
  rank := 2
  shape := [-1, 64]
  codegenFlags := [str "z", str "a"]
  quantizationSymmetric := false

theorem fromCanonical_canonical_sampleKey :
    fromCanonical sampleKey.finalize.canonical = .ok sampleKey.finalize := by
  refine (fromCanonical_canonical sampleKey ?_ ?_).1
  · rw [finalize_finalized]
    decide
  · unfold KeyFields.Sized KeyFields.fields
    simp only [List.forall_mem_cons, List.not_mem_nil, false_imp_iff, implies_true, and_true,
      KeyField.Sized, KeyField.StrsSized, KeyField.StrSized]
    decide

/-! ## Which accepted inputs are canonical -/

/-- The tags in the order `finalize()` writes them. -/
def canonicalTags : List UInt8 :=
  [0x01, 0x02, 0x03, 0x04, 0x05, 0x06, 0x07, 0x08, 0x09, 0x0a, 0x0b, 0x0c, 0x0d, 0x0e, 0x0f, 0x10,
   0x11, 0x12, 0x13, 0x14, 0x15, 0x16, 0x17, 0x18, 0x19, 0x1a, 0x1b]

end KernelCompatibilityKey

/-- A field as `finalize()` would write it: the current format version, flags and specialization
pairs in order, a flag octet that is zero or one. -/
def KeyField.InOrder : KeyField → Prop
  | .version octet => octet = keyFormatVersion
  | .codegenFlags l => l.Pairwise (· ≤ ·)
  | .specialization l => l.Pairwise pairLE
  | .quantization q => q.2.2 = 0 ∨ q.2.2 = 1
  | _ => True

namespace KernelCompatibilityKey

/-- Each of the twenty-seven tags once, in order, each field as `finalize()` would write it. -/
def InCanonicalForm (b : Bytes) : Prop :=
  ∃ fs : List KeyField, (∀ f ∈ fs, f.Sized ∧ f.InOrder) ∧ fs.map KeyField.tag = canonicalTags ∧
    b = fs.flatMap KeyField.write

/-- The fields a well-formed accepted key writes are in order. -/
theorem fields_inOrder {f : KeyFields} (hsorted : f.sorted = f) :
    ∀ g ∈ f.fields, g.InOrder := by
  have hflags : f.codegenFlags.Pairwise (· ≤ ·) := by
    rw [← hsorted]
    exact List.pairwise_insertionSort _ _
  have hspec : f.specialization.Pairwise pairLE := by
    rw [← hsorted]
    exact List.pairwise_insertionSort _ _
  unfold KeyFields.fields
  simp only [List.forall_mem_cons, List.not_mem_nil, false_imp_iff, implies_true, and_true,
    KeyField.InOrder, hflags, hspec, true_and]
  cases f.quantizationSymmetric <;> simp

theorem sorted_of_inOrder {f : KeyFields} (h : ∀ g ∈ f.fields, g.InOrder) : f.sorted = f := by
  have hflags : f.codegenFlags.Pairwise (· ≤ ·) :=
    h (.codegenFlags f.codegenFlags) (by simp [KeyFields.fields])
  have hspec : f.specialization.Pairwise pairLE :=
    h (.specialization f.specialization) (by simp [KeyFields.fields])
  simp only [KeyFields.sorted, sortStrings, sortPairs, hflags.insertionSort_eq,
    hspec.insertionSort_eq]

theorem kept_of_inOrder {g : KeyField} (h : g.InOrder) : KeyFields.kept g = g := by
  cases g with
  | version octet => exact congrArg KeyField.version h.symm
  | quantization q =>
    obtain ⟨kind, bits, octet⟩ := q
    obtain rfl | rfl : octet = 0 ∨ octet = 1 := h
    · rfl
    · rfl
  | _ => rfl

/-- Replacing, tag by tag, every element of a list by the element of that tag of another list with
the same distinct tags gives the other list; `done` has been replaced already. -/
theorem foldl_replace {α β : Type} [DecidableEq β] (tag : α → β) (done l new : List α)
    (htags : l.map tag = new.map tag) (hnodup : ((done ++ l).map tag).Nodup) :
    new.foldl (fun l g => l.map fun f => if tag f = tag g then g else f) (done ++ l)
      = done ++ new := by
  induction new generalizing done l with
  | nil =>
    obtain rfl : l = [] := by simpa using htags
    rfl
  | cons g new ih =>
    cases l with
    | nil => simp at htags
    | cons a l =>
      obtain ⟨hag, htags⟩ : tag a = tag g ∧ l.map tag = new.map tag := by simpa using htags
      simp only [List.map_append, List.map_cons, List.nodup_append, List.nodup_cons,
        List.mem_cons, List.mem_map] at hnodup
      obtain ⟨hdone, ⟨ha, hl⟩, hdisj⟩ := hnodup
      have hkeep : ∀ l' : List α, (∀ f ∈ l', tag f ≠ tag a) →
          (l'.map fun f => if tag f = tag g then g else f) = l' := by
        intro l' hl'
        refine (List.map_congr_left fun f hf => ?_).trans (List.map_id l')
        rw [← hag]
        exact if_neg (hl' f hf)
      have hstep : ((done ++ a :: l).map fun f => if tag f = tag g then g else f)
          = (done ++ [g]) ++ l := by
        rw [List.map_append, List.map_cons, if_pos hag,
          hkeep done fun f hf heq => hdisj (tag f) ⟨f, hf, rfl⟩ (tag a) (.inl rfl) heq,
          hkeep l fun f hf heq => ha ⟨f, hf, heq⟩]
        simp
      rw [List.foldl_cons, hstep, ih (done ++ [g]) l htags]
      · simp
      · simp only [List.map_append, List.map_cons, List.map_nil, List.nodup_append,
          List.nodup_cons, List.mem_append, List.mem_map, List.mem_singleton]
        refine ⟨⟨hdone, ⟨by simp, List.nodup_nil⟩, ?_⟩, hl, ?_⟩
        · rintro _ ⟨f, hf, rfl⟩ _ rfl
          rw [← hag]
          exact hdisj _ ⟨f, hf, rfl⟩ _ (.inl rfl)
        · rintro _ (⟨f, hf, rfl⟩ | rfl) _ ⟨x, hx, rfl⟩
          · exact hdisj _ ⟨f, hf, rfl⟩ _ (.inr ⟨x, hx, rfl⟩)
          · rw [← hag]
            exact fun heq => ha ⟨x, hx, heq.symm⟩

/-- Fields in order with every tag once are the fields of the key they are stored into. -/
theorem fields_foldl_store {fs : List KeyField} (hfs : ∀ f ∈ fs, f.InOrder)
    (htags : fs.map KeyField.tag = canonicalTags) (k : KeyFields) :
    (fs.foldl KeyField.store k).fields = fs := by
  have hfold : ∀ (l : List KeyField) (k : KeyFields), (∀ f ∈ l, f.InOrder) →
      (l.foldl KeyField.store k).fields
        = l.foldl (fun l g => l.map fun f => if f.tag = g.tag then g else f) k.fields := by
    intro l
    induction l with
    | nil => exact fun _ _ => rfl
    | cons g l ih =>
      intro k hl
      rw [List.foldl_cons, List.foldl_cons, ih _ fun f hf => hl f (List.mem_cons_of_mem g hf),
        KeyFields.fields_store, kept_of_inOrder (hl g (by simp))]
  rw [hfold fs k hfs]
  have htags' : k.fields.map KeyField.tag = canonicalTags := rfl
  refine foldl_replace KeyField.tag [] k.fields fs (htags'.trans htags.symm) ?_
  rw [List.nil_append, htags']
  decide

/-- **Which accepted inputs are canonical.** The decoder gives back a key with the input as its
canonical bytes exactly when the input has every tag once, in order, with the current version
octet, sorted flags and specialization, and a flag octet of zero or one. -/
theorem fromCanonical_canonical_iff {b : Bytes} {k : KernelCompatibilityKey}
    (h : fromCanonical b = .ok k) : k.canonical = b ↔ InCanonicalForm b := by
  obtain ⟨f, hdec, hwf, rfl⟩ := fromCanonical_ok_iff.mp h
  have hcanon : (ofFields f).finalize.canonical = f.sorted.encode := by
    rw [finalize_of_wellFormed (k := ofFields f) hwf]
    rfl
  rw [hcanon]
  refine ⟨?_, ?_⟩
  · rintro rfl
    obtain ⟨fs, hfs, -, rfl⟩ := decode_ok_iff.mp hdec
    have hsized : (fs.foldl KeyField.store {}).Sized := by
      apply KeyFields.foldl_store_sized hfs
      unfold KeyFields.Sized KeyFields.fields
      simp only [List.forall_mem_cons, List.not_mem_nil, false_imp_iff, implies_true, and_true,
        KeyField.Sized, KeyField.StrsSized, KeyField.StrSized]
      decide
    refine ⟨_, ?_, rfl, KeyFields.encode_eq_write _⟩
    intro g hg
    exact ⟨KeyFields.sorted_sized hsized g hg, fields_inOrder (KeyFields.sorted_sorted _) g hg⟩
  · rintro ⟨fs, hfs, htags, rfl⟩
    have hf : f = fs.foldl KeyField.store {} :=
      Except.ok.inj (hdec.symm.trans
        (decode_ok_iff.mpr ⟨fs, fun g hg => (hfs g hg).1, rfl, rfl⟩))
    have hfields : f.fields = fs := by
      rw [hf]
      exact fields_foldl_store (fun g hg => (hfs g hg).2) htags {}
    have hsorted : f.sorted = f := by
      apply sorted_of_inOrder
      rw [hfields]
      exact fun g hg => (hfs g hg).2
    rw [hsorted, KeyFields.encode_eq_write, hfields]

/-- A lone version field decodes to the default key, whatever its octet. -/
theorem fromCanonical_version (octet : UInt8) :
    fromCanonical [0x01, octet] = .ok (ofFields {}).finalize :=
  fromCanonical_ok_iff.mpr ⟨{}, rfl, by decide, rfl⟩

/-- Every canonical encoding starts with the version field and the tag of the operation. -/
theorem encode_eq_version_append (f : KeyFields) :
    ∃ rest, f.encode = [0x01, 0x01, 0x02] ++ rest := by
  rw [KeyFields.encode_eq_write]
  exact ⟨_, rfl⟩

/-- Two octets, a format version that does not exist and nothing after it, are accepted as the
default key; so is the strict prefix of its encoding that stops behind the version field. -/
theorem fromCanonical_accepts_truncated :
    (∃ k, fromCanonical [0x01, 0x02] = .ok k ∧ k.canonical ≠ [0x01, 0x02]) ∧
    (∃ k, fromCanonical [0x01, 0x01] = .ok k ∧ [0x01, 0x01] <+: k.canonical ∧
      k.canonical ≠ [0x01, 0x01]) := by
  obtain ⟨rest, hrest⟩ := encode_eq_version_append (KeyFields.sorted {})
  have hcanon : (ofFields {}).finalize.canonical = [0x01, 0x01, 0x02] ++ rest := by
    rw [finalize_of_wellFormed (k := ofFields {}) (by decide)]
    exact hrest
  refine ⟨⟨_, fromCanonical_version 0x02, ?_⟩, _, fromCanonical_version 0x01, ?_, ?_⟩
  · rw [hcanon]
    simp
  · rw [hcanon]
    exact ⟨0x02 :: rest, rfl⟩
  · rw [hcanon]
    simp

theorem fromCanonical_canonical_iff_version :
    fromCanonical [0x01, 0x02] = .ok (ofFields {}).finalize ∧
      ((ofFields {}).finalize.canonical = [0x01, 0x02] ↔ InCanonicalForm [0x01, 0x02]) :=
  ⟨fromCanonical_version 0x02, fromCanonical_canonical_iff (fromCanonical_version 0x02)⟩

end KernelCompatibilityKey

end KernelCache
