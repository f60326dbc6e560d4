/-
# KernelCache.Persistence — the file store (`persistence.cpp`, `identifiers.cpp`).

A store is the content of two directories, `artifacts` and `tmp`, as finite maps from file names to
bytes.  An artifact is a pair of files named after its id: the blob and a text of `key=value` lines
that ends with its own checksum.  `put` goes through temporary files and renames; every file
operation inside it may fail, and a blob write may stop short WITHOUT being noticed, as the source
never looks at the stream after it (`PutFaults`).  `get` and `recover` trust only what
`parseArtifactInner` lets through.
-/
import KernelCache.KeyCodec
import Mathlib.Data.List.AList

namespace KernelCache

open Foundation (Bytes)

/-- A finite map (`std::unordered_map`, a directory). -/
abbrev Map (α β : Type) := AList (fun _ : α => β)

/-! ## Id text -/

/-- The `n` low-order nibbles of `v` in hexadecimal, most significant first. -/
def hexWord : Nat → Nat → Str
  | 0, _ => []
  | n + 1, v => hexDigit (UInt8.ofNat (v / 16 ^ n % 16)) :: hexWord n v

/-- The value of one hexadecimal digit. -/
def hexVal (c : UInt8) : Option Nat :=
  if 48 ≤ c ∧ c ≤ 57 then some (c.toNat - 48)
  else if 97 ≤ c ∧ c ≤ 102 then some (c.toNat - 97 + 10)
  else if 65 ≤ c ∧ c ≤ 70 then some (c.toNat - 65 + 10)
  else none

/-- `v = (v << 4) | digit`; sixteen digits fill a word exactly. -/
def hexNat (acc : Nat) : Str → Option Nat
  | [] => some acc
  | c :: cs =>
    match hexVal c with
    | none => none
    | some d => hexNat (acc * 16 + d) cs

namespace StrongId128

/-- `str()`. -/
def str (id : StrongId128) : Str := hexWord 16 id.hi.toNat ++ hexWord 16 id.lo.toNat

/-- `parse`. -/
def parse (s : Str) : Result StrongId128 :=
  if s.length ≠ 32 then fail .malformedFrame (KernelCache.str "id must be 32 hex digits")
  else
    match hexNat 0 (s.take 16), hexNat 0 (s.drop 16) with
    | some hi, some lo => .ok ⟨UInt64.ofNat hi, UInt64.ofNat lo⟩
    | _, _ => fail .malformedFrame (KernelCache.str "invalid hex digit in id")

end StrongId128

/-! ## Base64 -/

/-- `kB64`. -/
def b64Alphabet : Str := str "ABCDEFGHIJKLMNOPQRSTUVWXYZabcdefghijklmnopqrstuvwxyz0123456789+/"

/-- `kB64[v & 0x3f]`. -/
def b64Digit (v : BitVec 32) : UInt8 := b64Alphabet.getD (v &&& 0x3f#32).toNat 0

/-- The inner `while (bits >= 0)` of `b64encode`, with `bits + 6` in place of `bits`: a byte leaves
at most two digits to emit. -/
def b64Emit (val : BitVec 32) : Nat → Nat → Str × Nat
  | 0, pending => ([], pending)
  | fuel + 1, pending =>
    if 6 ≤ pending then
      let (out, left) := b64Emit val fuel (pending - 6)
      (b64Digit (val.sshiftRight (pending - 6)) :: out, left)
    else ([], pending)

/-- The loop of `b64encode` over its input: digits out, `val` and `bits + 6` at the end. -/
def b64EncodeLoop (val : BitVec 32) (pending : Nat) : Str → Str × BitVec 32 × Nat
  | [] => ([], val, pending)
  | c :: cs =>
    let val := (val <<< 8) + BitVec.ofNat 32 c.toNat
    let (digits, left) := b64Emit val 2 (pending + 8)
    let (out, final) := b64EncodeLoop val left cs
    (digits ++ out, final)

def b64encode (s : Str) : Str :=
  let (out, val, pending) := b64EncodeLoop 0 0 s
  let out := if pending = 0 then out else out ++ [b64Digit ((val <<< 8).sshiftRight (pending + 2))]
  out ++ List.replicate ((4 - out.length % 4) % 4) 61

/-- The loop of `b64decode`, with `bits + 8` in place of `bits`; an unknown character empties the
result, a `=` ends it.  (`strchr` also finds the terminating zero of the alphabet.) -/
def b64DecodeLoop (val : BitVec 32) (pending : Nat) (out : Str) : Str → Str
  | [] => out
  | c :: cs =>
    if c = 61 then out
    else
      match (b64Alphabet ++ [0]).idxOf? c with
      | none => []
      | some d =>
        let val := (val <<< 6) + BitVec.ofNat 32 d
        if 8 ≤ pending + 6 then
          b64DecodeLoop val (pending + 6 - 8)
            (out ++ [UInt8.ofNat ((val.sshiftRight (pending + 6 - 8)) &&& 0xff#32).toNat]) cs
        else b64DecodeLoop val (pending + 6) out cs

def b64decode (s : Str) : Str := b64DecodeLoop 0 0 [] s

/-! ## Text -/

/-- Repeated `std::getline` with the delimiter `delim`; a last line needs no delimiter, and is not
there when it is empty. -/
def getlines (delim : UInt8) (current : Str) : Str → List Str
  | [] => if current.isEmpty then [] else [current]
  | c :: cs =>
    if c = delim then current :: getlines delim [] cs else getlines delim (current ++ [c]) cs

/-- `while (!line.empty() && line.back() == '\r') line.pop_back();` -/
def stripCR (line : Str) : Str := (line.reverse.dropWhile (· == 13)).reverse

/-- `field_ok`: the line is `key=…`; the value behind it. -/
def field? (key : String) (line : Str) : Option Str :=
  if (str key ++ [61]).isPrefixOf line then some (line.drop (key.length + 1)) else none

/-- `isspace` in the C locale. -/
def isSpace (c : UInt8) : Bool := c == 32 || (9 ≤ c && c ≤ 13)

/-- The value of the leading decimal digits. -/
def decimal (acc : Nat) : Str → Nat
  | [] => acc
  | c :: cs => if 48 ≤ c ∧ c ≤ 57 then decimal (acc * 10 + (c.toNat - 48)) cs else acc

/-- `std::stoull`: skip blanks, one sign, decimal digits, the rest ignored.  `none` is an exception:
no digit, or a magnitude beyond 64 bits.  A minus sign negates modulo `2 ^ 64`. -/
def stoull (s : Str) : Option UInt64 :=
  let s := s.dropWhile isSpace
  let negative := s.head? == some 45
  let digits := if negative || s.head? == some 43 then s.tail else s
  match digits with
  | [] => none
  | c :: _ =>
    if 48 ≤ c ∧ c ≤ 57 then
      let v := decimal 0 digits
      if v < 2 ^ 64 then some (if negative then -UInt64.ofNat v else UInt64.ofNat v) else none
    else none

/-! ## Stored artifacts -/

structure StoredArtifact where
  id : ArtifactId := {}
  generation : ArtifactGeneration := 0
  key : KernelCompatibilityKey := {}
  bytes : Bytes := []
  sizes : ArtifactSizes := {}
  provenance : ProvenanceDescriptor := {}
  format : Str := []
  storedNs : UInt64 := 0
  sha256Hex : Option Str := none
  namespace_ : Str := []

/-- `kMetaMagic`. -/
def metaMagic : Str := str "KCMETA1"

/-- One line `key=value`. -/
def metaLine (key : String) (value : Str) : Str := str key ++ [61] ++ value ++ [10]

/-- `build_meta`. -/
def buildMeta (a : StoredArtifact) : Str :=
  metaMagic ++ [10] ++
  metaLine "id" a.id.toStrongId128.str ++
  metaLine "generation" (natStr a.generation.toNat) ++
  metaLine "format" (b64encode a.format) ++
  metaLine "namespace" (b64encode a.namespace_) ++
  metaLine "backend" (b64encode a.provenance.producer) ++
  metaLine "operation" (b64encode a.key.operation) ++
  metaLine "tenant" (b64encode a.provenance.tenant) ++
  metaLine "artifact_sha256" (a.sha256Hex.getD []) ++
  metaLine "sizes" (natStr a.sizes.artifactBytes.toNat ++ [44] ++ natStr a.sizes.hostBytes.toNat ++
    [44] ++ natStr a.sizes.deviceBytes.toNat ++ [44] ++ natStr a.sizes.storageBytes.toNat ++ [44] ++
    (if a.sizes.deviceBytesEstimated then str "1" else str "0")) ++
  metaLine "built_at_ns" (natStr a.storedNs.toNat) ++
  metaLine "key_canonical_b64" (b64encode a.key.canonical)

/-- The comma-separated list behind `sizes=`; `none` when `stoull` throws. -/
def parseSizes (idx : Nat) (sizes : ArtifactSizes) : List Str → Option ArtifactSizes
  | [] => some sizes
  | t :: ts =>
    match stoull t with
    | none => none
    | some v =>
      parseSizes (idx + 1)
        (match idx with
          | 0 => { sizes with artifactBytes := v }
          | 1 => { sizes with hostBytes := v }
          | 2 => { sizes with deviceBytes := v }
          | 3 => { sizes with storageBytes := v }
          | 4 => { sizes with deviceBytesEstimated := v != 0 }
          | _ => sizes) ts

/-- What the `catch (...)` answers. -/
def malformedField {α : Type} : Result α := fail .malformedFrame (str "malformed metadata field")

/-- One line of the field loop of `parse_artifact_inner`.  The key line REPLACES the whole key, so
an operation line behind it changes a key that is already finalized. -/
def parseLine (a : StoredArtifact) (l : Str) : Result StoredArtifact :=
  if let some v := field? "id" l then
    match StrongId128.parse v with
    | .ok id => .ok { a with id := ⟨id⟩ }
    | .error _ => fail .malformedFrame (str "bad id")
  else if let some v := field? "generation" l then
    match stoull v with
    | some g => .ok { a with generation := g }
    | none => malformedField
  else if let some v := field? "format" l then .ok { a with format := b64decode v }
  else if let some v := field? "namespace" l then .ok { a with namespace_ := b64decode v }
  else if let some v := field? "backend" l then
    .ok { a with provenance := { a.provenance with producer := b64decode v } }
  else if let some v := field? "operation" l then
    .ok { a with key := { a.key with operation := b64decode v } }
  else if let some v := field? "tenant" l then
    .ok { a with provenance := { a.provenance with tenant := b64decode v } }
  else if let some v := field? "artifact_sha256" l then .ok { a with sha256Hex := some v }
  else if let some v := field? "sizes" l then
    match parseSizes 0 a.sizes (getlines 44 [] v) with
    | some sizes => .ok { a with sizes := sizes }
    | none => malformedField
  else if let some v := field? "built_at_ns" l then
    match stoull v with
    | some t => .ok { a with storedNs := t }
    | none => malformedField
  else if let some v := field? "key_canonical_b64" l then
    let kb := b64decode v
    if kb.isEmpty then fail .malformedFrame (str "bad key canonical")
    else
      match KernelCompatibilityKey.fromCanonical kb with
      | .ok k => .ok { a with key := k }
      | .error (.error _ message) =>
        fail .malformedFrame (str "bad key canonical: " ++ message)
      | .error .exception => malformedField
  else .ok a

/-- The field loop. -/
def parseLines (a : StoredArtifact) : List Str → Result StoredArtifact
  | [] => .ok a
  | l :: ls =>
    match parseLine a l with
    | .error e => .error e
    | .ok a => parseLines a ls

/-- The line loop of `parse_artifact_inner`: the checksummed body, the lines in it and the last
`meta_sha256` seen. -/
def splitMeta (body : Str) (lines : List Str) (storedSha : Str) :
    List Str → Result (Str × List Str × Str)
  | [] => .ok (body, lines, storedSha)
  | l :: ls =>
    let l := stripCR l
    match field? "meta_sha256" l with
    | some sha =>
      if sha.length ≠ 64 then fail .checksumMismatch (str "malformed meta_sha256")
      else splitMeta body lines sha ls
    | none => splitMeta (body ++ l ++ [10]) (lines ++ [l]) storedSha ls

/-- `parse_artifact_inner`; `blob` is the content of the blob file, if there is one. -/
def parseArtifactInner (metaText : Str) (blob : Option Bytes) : Result StoredArtifact :=
  match getlines 10 [] metaText with
  | [] => fail .truncatedData (str "empty metadata")
  | first :: rest =>
    let first := stripCR first
    if first ≠ metaMagic then
      fail .unknownMetadataVersion (str "unknown metadata version: " ++ first)
    else
      match splitMeta (first ++ [10]) [] [] rest with
      | .error e => .error e
      | .ok (body, lines, storedSha) =>
        if storedSha.isEmpty then fail .checksumMismatch (str "missing meta_sha256")
        else if toHex (Sha256.digest body) ≠ storedSha then
          fail .checksumMismatch (str "metadata checksum mismatch")
        else
          match parseLines {} lines with
          | .error e => .error e
          | .ok a =>
            let bytes := blob.getD []
            if bytes.isEmpty then fail .truncatedData (str "blob missing or empty")
            else if UInt64.ofNat bytes.length ≠ a.sizes.artifactBytes then
              fail .truncatedData
                (str "blob length mismatch: expected " ++ natStr a.sizes.artifactBytes.toNat ++
                  str " got " ++ natStr bytes.length)
            else
              let sha := a.sha256Hex.getD []
              if !sha.isEmpty && sha ≠ toHex (Sha256.digest bytes) then
                fail .checksumMismatch (str "artifact checksum mismatch")
              else .ok { a with bytes := bytes }

/-! ## The store -/

/-- The content of the directories `artifacts` and `tmp` of an open store. -/
structure FilePersistenceStore where
  artifacts : Map Str Bytes := ∅
  tmp : Map Str Bytes := ∅

/-- Which file operations of one `put` fail, and the names and texts the system supplies. -/
structure PutFaults where
  openBlob : Bool := false
  /-- How much of the blob reaches the temporary file; `none` is all of it. -/
  blobWritten : Option Nat := none
  renameBlob : Bool := false
  removeBlob : Bool := false
  renameBlobAgain : Bool := false
  /-- `write_file` fails with this much of the metadata in the temporary file. -/
  writeMeta : Option Nat := none
  renameMeta : Bool := false
  removeMeta : Bool := false
  renameMetaAgain : Bool := false
  /-- `ec.message()`. -/
  message : Str := []
  /-- The clock and random suffix of the temporary names. -/
  token : Str := []

def metaName (id : ArtifactId) : Str := id.toStrongId128.str ++ str ".meta"

def blobName (id : ArtifactId) : Str := id.toStrongId128.str ++ str ".blob"

namespace FilePersistenceStore

/-- `fs::rename(tmp, name)`. -/
def rename (st : FilePersistenceStore) (tmpName name : Str) : FilePersistenceStore where
  artifacts := st.artifacts.insert name ((st.tmp.lookup tmpName).getD [])
  tmp := st.tmp.erase tmpName

/-- `fs::rename(tmp, name, ec); if (ec) { fs::remove(name, ec); fs::rename(tmp, name, ec); }` and
whether `ec` is clear at the end. -/
def install (st : FilePersistenceStore) (tmpName name : Str) (failFirst failRemove failAgain : Bool) :
    Bool × FilePersistenceStore :=
  if !failFirst then (true, st.rename tmpName name)
  else
    let removed := if failRemove then st else { st with artifacts := st.artifacts.erase name }
    if !failAgain then (true, removed.rename tmpName name) else (false, removed)

/-- The metadata file `put` writes: the text and its checksum line. -/
def fullMeta (a : StoredArtifact) : Str :=
  buildMeta a ++ metaLine "meta_sha256" (toHex (Sha256.digest (buildMeta a)))

/-- `put` of an open store. -/
def put (faults : PutFaults) (a : StoredArtifact) (st : FilePersistenceStore) :
    Result Unit × FilePersistenceStore :=
  let idh := a.id.toStrongId128.str
  let btmp := idh ++ str ".blob.tmp." ++ faults.token
  let mtmp := idh ++ str ".meta.tmp." ++ faults.token
  if faults.openBlob then (fail .ioError (str "cannot open blob temp"), st)
  else
    let blob := a.bytes.take (faults.blobWritten.getD a.bytes.length)
    let written := { st with tmp := st.tmp.insert btmp blob }
    match written.install btmp (blobName a.id) faults.renameBlob faults.removeBlob
        faults.renameBlobAgain with
    | (false, st) => (fail .ioError (str "cannot install blob: " ++ faults.message), st)
    | (true, st) =>
      match faults.writeMeta with
      | some n =>
        (fail .ioError (str "cannot write meta temp"),
          { st with tmp := st.tmp.insert mtmp ((fullMeta a).take n) })
      | none =>
        let written := { st with tmp := st.tmp.insert mtmp (fullMeta a) }
        match written.install mtmp (metaName a.id) faults.renameMeta faults.removeMeta
            faults.renameMetaAgain with
        | (false, st) => (fail .ioError (str "cannot install meta: " ++ faults.message), st)
        | (true, st) => (.ok (), { st with tmp := st.tmp.erase btmp })

/-- `get` of an open store. -/
def get (id : ArtifactId) (st : FilePersistenceStore) : Result StoredArtifact :=
  let metaText := (st.artifacts.lookup (metaName id)).getD []
  if metaText.isEmpty then fail .notFound (str "meta missing")
  else parseArtifactInner metaText (st.artifacts.lookup (blobName id))

/-- The stem of a name with the extension `.meta`. -/
def metaStem? (name : Str) : Option Str :=
  if (str ".meta").isSuffixOf name && 5 < name.length then some (name.take (name.length - 5))
  else none

/-- The scan of `recover` over the directory entries: accepted artifacts and rejections. -/
def scan (st : FilePersistenceStore) : List Str → List StoredArtifact × List Str
  | [] => ([], [])
  | name :: names =>
    let (valid, rejected) := st.scan names
    match metaStem? name with
    | none => (valid, rejected)
    | some idh =>
      let metaText := (st.artifacts.lookup name).getD []
      if metaText.isEmpty then
        (valid, (str "orphan-meta " ++ idh ++ str " (empty)") :: rejected)
      else
        match parseArtifactInner metaText (st.artifacts.lookup (idh ++ str ".blob")) with
        | .ok a => (a :: valid, rejected)
        | .error (.error _ message) => (valid, (idh ++ str " :: " ++ message) :: rejected)
        | .error .exception => (valid, rejected)

/-- `recover` of an open store.  `names` is the directory in the order the iterator yields it; the
temporary files are reported as orphans and removed. -/
def recover (names : List Str) (st : FilePersistenceStore) :
    (List StoredArtifact × List Str × List Str) × FilePersistenceStore :=
  let (valid, rejected) := st.scan names
  ((valid, rejected, st.tmp.keys), { st with tmp := ∅ })

end FilePersistenceStore

/-! ## Id text is read back -/

@[simp] theorem hexWord_length (n v : Nat) : (hexWord n v).length = n := by
  induction n with
  | zero => rfl
  | succ n ih => simp [hexWord, ih]

theorem hexVal_hexDigit {d : Nat} (h : d < 16) : hexVal (hexDigit (UInt8.ofNat d)) = some d := by
  have hall : ∀ d < 16, hexVal (hexDigit (UInt8.ofNat d)) = some d := by decide
  exact hall d h

theorem hexNat_hexWord (n v acc : Nat) :
    hexNat acc (hexWord n v) = some (acc * 16 ^ n + v % 16 ^ n) := by
  induction n generalizing acc with
  | zero => simp [hexWord, hexNat, Nat.mod_one]
  | succ n ih =>
    have hdigit : v / 16 ^ n % 16 < 16 := Nat.mod_lt _ (by decide)
    have hsplit : v % 16 ^ (n + 1) = v % 16 ^ n + 16 ^ n * (v / 16 ^ n % 16) := by
      rw [Nat.pow_succ, Nat.mod_mul]
    rw [hexWord, hexNat, hexVal_hexDigit hdigit]
    show hexNat _ _ = _
    rw [ih, hsplit]
    congr 1
    ring

theorem hexNat_word (v : UInt64) : hexNat 0 (hexWord 16 v.toNat) = some v.toNat := by
  have hlt : v.toNat < 16 ^ 16 := v.toNat_lt
  rw [hexNat_hexWord, Nat.mod_eq_of_lt hlt]
  simp

namespace StrongId128

@[simp] theorem str_length (id : StrongId128) : id.str.length = 32 := by
  simp [str]

/-- An id is read back from its text. -/
theorem parse_str (id : StrongId128) : parse id.str = .ok id := by
  have htake : id.str.take 16 = hexWord 16 id.hi.toNat := by
    rw [str, List.take_left' (hexWord_length _ _)]
  have hdrop : id.str.drop 16 = hexWord 16 id.lo.toNat := by
    rw [str, List.drop_left' (hexWord_length _ _)]
  unfold parse
  rw [if_neg (by simp), htake, hdrop, hexNat_word, hexNat_word]
  simp only [UInt64.ofNat_toNat]

theorem str_injective : Function.Injective str := by
  intro a b h
  have hparse := parse_str a
  rw [h, parse_str b] at hparse
  exact (Except.ok.inj hparse).symm

end StrongId128

theorem ArtifactId.ext_strong {a b : ArtifactId} (h : a.toStrongId128 = b.toStrongId128) :
    a = b := by
  cases a
  cases b
  cases h
  rfl

/-- The files of two artifacts are different files. -/
theorem metaName_ne {a b : ArtifactId} (h : a ≠ b) : metaName a ≠ metaName b := by
  intro heq
  refine h (ArtifactId.ext_strong (StrongId128.str_injective ?_))
  exact (List.append_inj heq (by simp)).1

theorem blobName_ne {a b : ArtifactId} (h : a ≠ b) : blobName a ≠ blobName b := by
  intro heq
  refine h (ArtifactId.ext_strong (StrongId128.str_injective ?_))
  exact (List.append_inj heq (by simp)).1

theorem metaName_ne_blobName (a b : ArtifactId) : metaName a ≠ blobName b := by
  intro heq
  exact absurd (List.append_inj heq (by simp)).2 (by decide)

/-! ## What the parser lets through -/

/-- An accepted pair of files: its fields come out of the line loop, its bytes are the blob. -/
theorem parseArtifactInner_ok {metaText : Str} {blob : Option Bytes} {a : StoredArtifact}
    (h : parseArtifactInner metaText blob = .ok a) :
    ∃ lines fields, parseLines {} lines = .ok fields ∧ a = { fields with bytes := blob.getD [] } ∧
      a.bytes ≠ [] := by
  unfold parseArtifactInner at h
  split at h
  · cases h
  dsimp only at h
  split at h
  · cases h
  split at h
  · cases h
  rename_i body lines storedSha _
  split at h
  · cases h
  split at h
  · cases h
  split at h
  · cases h
  rename_i fields hfields
  split at h
  · cases h
  rename_i hblob
  split at h
  · cases h
  split at h
  · cases h
  cases h
  exact ⟨lines, fields, hfields, rfl, by simpa using hblob⟩

theorem default_wellFormed : KeyFields.wellFormed {} = true := by decide

/-- What a line may do to the fields that are checked later: the id, the checksum and the key each have
a line of their own. -/
inductive ParsedLine (a : StoredArtifact) (l : Str) : StoredArtifact → Prop
  | id {v : Str} {id : StrongId128} (hl : field? "id" l = some v)
      (hid : StrongId128.parse v = .ok id) : ParsedLine a l { a with id := ⟨id⟩ }
  | sha {v : Str} (hnot : field? "id" l = none) (hl : field? "artifact_sha256" l = some v) :
      ParsedLine a l { a with sha256Hex := some v }
  | key {v : Str} {k : KernelCompatibilityKey} (hnot : field? "id" l = none)
      (hl : field? "key_canonical_b64" l = some v)
      (hkey : KernelCompatibilityKey.fromCanonical (b64decode v) = .ok k) :
      ParsedLine a l { a with key := k }
  | other {b : StoredArtifact} (hnot : field? "id" l = none) (hid : b.id = a.id)
      (hsha : b.sha256Hex = a.sha256Hex) (hkey : b.key.wellFormed = a.key.wellFormed) :
      ParsedLine a l b

theorem parseLine_ok {a a' : StoredArtifact} {l : Str} (h : parseLine a l = .ok a') :
    ParsedLine a l a' := by
  unfold parseLine malformedField at h
  split at h
  · rename_i hl
    split at h <;> cases h
    exact .id hl ‹_›
  rename_i hno
  have hnot : field? "id" l = none := Option.eq_none_iff_forall_ne_some.mpr hno
  split at h
  · split at h <;> cases h
    exact .other hnot rfl rfl rfl
  split at h
  · cases h
    exact .other hnot rfl rfl rfl
  split at h
  · cases h
    exact .other hnot rfl rfl rfl
  split at h
  · cases h
    exact .other hnot rfl rfl rfl
  split at h
  · -- the operation is no list, so the key stays as well formed as it was
    cases h
    exact .other hnot rfl rfl rfl
  split at h
  · cases h
    exact .other hnot rfl rfl rfl
  split at h
  · rename_i hl
    cases h
    exact .sha hnot hl
  split at h
  · split at h <;> cases h
    exact .other hnot rfl rfl rfl
  split at h
  · split at h <;> cases h
    exact .other hnot rfl rfl rfl
  split at h
  · rename_i hl
    dsimp only at h
    split at h
    · cases h
    · split at h <;> cases h
      exact .key hnot hl ‹_›
  · cases h
    exact .other hnot rfl rfl rfl

theorem parseLine_wellFormed {a a' : StoredArtifact} {l : Str} (ha : a.key.wellFormed = true)
    (h : parseLine a l = .ok a') : a'.key.wellFormed = true := by
  cases parseLine_ok h with
  | id hl hid => exact ha
  | sha hnot hl => exact ha
  | key hnot hl hkey => exact (KernelCompatibilityKey.fromCanonical_wellFormed hkey).1
  | other hnot hid hsha hkey => exact hkey.trans ha

theorem parseLines_wellFormed {a a' : StoredArtifact} {ls : List Str}
    (ha : a.key.wellFormed = true) (h : parseLines a ls = .ok a') : a'.key.wellFormed = true := by
  induction ls generalizing a with
  | nil =>
    cases h
    exact ha
  | cons l ls ih =>
    simp only [parseLines] at h
    split at h
    · cases h
    · rename_i a₁ h₁
      exact ih (parseLine_wellFormed ha h₁) h

/-- `finalize()` accepts the key of every artifact the parser lets through. -/
theorem parseArtifactInner_wellFormed {metaText : Str} {blob : Option Bytes} {a : StoredArtifact}
    (h : parseArtifactInner metaText blob = .ok a) : a.key.wellFormed = true := by
  obtain ⟨lines, fields, hlines, rfl, -⟩ := parseArtifactInner_ok h
  have hfields : fields.key.wellFormed = true := parseLines_wellFormed default_wellFormed hlines
  exact hfields

namespace FilePersistenceStore

theorem get_bytes {id : ArtifactId} {st : FilePersistenceStore} {a : StoredArtifact}
    (h : st.get id = .ok a) : a.bytes ≠ [] := by
  simp only [get] at h
  split at h
  · cases h
  · obtain ⟨-, -, -, -, hbytes⟩ := parseArtifactInner_ok h
    exact hbytes

theorem scan_wellFormed (st : FilePersistenceStore) (names : List Str) :
    ∀ a ∈ (st.scan names).1, a.key.wellFormed = true := by
  induction names with
  | nil => simp [scan]
  | cons name names ih =>
    simp only [scan]
    split
    · exact ih
    · split
      · exact ih
      · split
        · rename_i a ha
          rw [List.forall_mem_cons]
          exact ⟨parseArtifactInner_wellFormed ha, ih⟩
        · exact ih
        · exact ih

/-! ## Frames -/

theorem install_frame (st : FilePersistenceStore) (tmpName name : Str) (f g h : Bool)
    {other : Str} (hne : other ≠ name) :
    (st.install tmpName name f g h).2.artifacts.lookup other = st.artifacts.lookup other := by
  unfold install rename
  cases f <;> cases g <;> cases h <;> simp [AList.lookup_insert_ne, AList.lookup_erase_ne, hne]

/-- `put` touches the two files of its artifact and no other. -/
theorem put_frame (faults : PutFaults) (a : StoredArtifact) (st : FilePersistenceStore)
    (name : Str) (hblob : name ≠ blobName a.id) (hmeta : name ≠ metaName a.id) :
    (st.put faults a).2.artifacts.lookup name = st.artifacts.lookup name := by
  simp only [put]
  split
  · rfl
  · generalize hw : ({ st with tmp := _ } : FilePersistenceStore) = written
    have hwritten : written.artifacts = st.artifacts := by
      rw [← hw]
    generalize hbt : a.id.toStrongId128.str ++ str ".blob.tmp." ++ faults.token = btmp
    have hfirst := written.install_frame btmp (blobName a.id) faults.renameBlob faults.removeBlob
      faults.renameBlobAgain hblob
    rw [hwritten] at hfirst
    split
    · rename_i st₁ hst
      rw [hst] at hfirst
      exact hfirst
    · rename_i st₁ hst
      rw [hst] at hfirst
      split
      · exact hfirst
      · generalize hmt : a.id.toStrongId128.str ++ str ".meta.tmp." ++ faults.token = mtmp
        have hsecond := install_frame { st₁ with tmp := st₁.tmp.insert mtmp (fullMeta a) } mtmp
          (metaName a.id) faults.renameMeta faults.removeMeta faults.renameMetaAgain hmeta
        split
        · rename_i st₂ hst₂
          rw [hst₂] at hsecond
          exact hsecond.trans hfirst
        · rename_i st₂ hst₂
          rw [hst₂] at hsecond
          exact hsecond.trans hfirst

/-- Storing one artifact does not disturb another. -/
theorem get_put_of_ne (faults : PutFaults) {a : StoredArtifact} {id : ArtifactId} (h : id ≠ a.id)
    (st : FilePersistenceStore) : (st.put faults a).2.get id = st.get id := by
  have hmeta := put_frame faults a st (metaName id) (metaName_ne_blobName _ _)
    (metaName_ne h)
  have hblob := put_frame faults a st (blobName id) (blobName_ne h)
    (Ne.symm (metaName_ne_blobName _ _))
  simp only [get, hmeta, hblob]

end FilePersistenceStore

end KernelCache
