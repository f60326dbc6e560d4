/-
# KernelCache.Metadata — the metadata text and what the parser makes of it (`persistence.cpp`).

`build_meta` writes one line per field, and none of the values can break a line: base64, decimal and
hexadecimal text is printable.  So the line loop of `parse_artifact_inner` finds exactly the lines
that were written, its checksum is the one `put` appended, and what is left to the field loop is
`metaFields` (`parseArtifactInner_fullMeta`).  Whatever a blob file holds, the text of an artifact
names the id it was written for and no other (`fullMeta_names`).
-/
import KernelCache.Persistence

namespace KernelCache

open Foundation (Bytes)

/-! ## Printable text -/

/-- No control characters. -/
def Printable (s : Str) : Prop := ∀ c ∈ s, 32 ≤ c

namespace Printable

theorem nil : Printable [] := fun _ h => nomatch h

/-- The check on a given text. -/
theorem of_all {s : Str} (h : s.all (fun c => 32 ≤ c) = true) : Printable s := by
  intro c hc
  simpa using List.all_eq_true.mp h c hc

theorem append {s t : Str} (hs : Printable s) (ht : Printable t) : Printable (s ++ t) := by
  intro c hc
  rcases List.mem_append.mp hc with hc | hc
  · exact hs c hc
  · exact ht c hc

theorem newline {s : Str} (h : Printable s) : 10 ∉ s := by
  intro hc
  exact absurd (h 10 hc) (by decide)

/-- Printable text ends with no carriage return. -/
theorem stripCR_eq {s : Str} (h : Printable s) : stripCR s = s := by
  unfold stripCR
  have hkeep : s.reverse.dropWhile (· == 13) = s.reverse := by
    cases hrev : s.reverse with
    | nil => rfl
    | cons c cs =>
      have hc : 32 ≤ c := h c (by rw [← List.mem_reverse, hrev]; exact List.mem_cons_self)
      have hne : (c == 13) = false := by
        rw [beq_eq_false_iff_ne]
        rintro rfl
        exact absurd hc (by decide)
      rw [List.dropWhile_cons_of_neg (by simp [hne])]
  rw [hkeep, List.reverse_reverse]

end Printable

theorem hexWord_printable (n v : Nat) : Printable (hexWord n v) := by
  induction n with
  | zero => exact .nil
  | succ n ih =>
    have hdigit : v / 16 ^ n % 16 < 16 := Nat.mod_lt _ (by decide)
    have hall : ∀ d < 16, 32 ≤ hexDigit (UInt8.ofNat d) := by decide
    intro c hc
    rcases List.mem_cons.mp hc with rfl | hc
    · exact hall _ hdigit
    · exact ih c hc

theorem StrongId128.str_printable (id : StrongId128) : Printable id.str :=
  (hexWord_printable 16 _).append (hexWord_printable 16 _)

theorem toHex_printable (d : Sha256Digest) : Printable (toHex d) := by
  intro c hc
  obtain ⟨b, -, hb⟩ := List.mem_flatMap.mp hc
  have hall : ∀ n < 256, (32 : UInt8) ≤ hexDigit (UInt8.ofNat n >>> 4) ∧
      (32 : UInt8) ≤ hexDigit (UInt8.ofNat n &&& 0x0f) := by decide +kernel
  have h := hall b.toNat b.toNat_lt
  rw [UInt8.ofNat_toNat] at h
  simp only [List.mem_cons, List.not_mem_nil, or_false] at hb
  rcases hb with rfl | rfl
  · exact h.1
  · exact h.2

@[simp] theorem toHex_length (d : Sha256Digest) : (toHex d).length = 64 := by
  rw [toHex, List.length_flatMap]
  simp [d.size_eq]

/-- Decimal digits. -/
def Digits (s : Str) : Prop := ∀ c ∈ s, 48 ≤ c ∧ c ≤ 57

theorem natStr_digits (n : Nat) : Digits (natStr n) := by
  intro c hc
  obtain ⟨d, hd, rfl⟩ := List.mem_map.mp hc
  have hdigit := Nat.isDigit_of_mem_toDigits (by decide) (by decide) hd
  simp only [Char.isDigit, Bool.and_eq_true, decide_eq_true_eq, ge_iff_le] at hdigit
  have hlow : 48 ≤ d.toNat := UInt32.le_iff_toNat_le.mp hdigit.1
  have hhigh : d.toNat ≤ 57 := UInt32.le_iff_toNat_le.mp hdigit.2
  have hcode : (UInt8.ofNat d.toNat).toNat = d.toNat := by
    rw [UInt8.toNat_ofNat', Nat.mod_eq_of_lt (by omega)]
  constructor
  · show (48 : UInt8).toNat ≤ (UInt8.ofNat d.toNat).toNat
    rw [hcode]
    exact hlow
  · show (UInt8.ofNat d.toNat).toNat ≤ (57 : UInt8).toNat
    rw [hcode]
    exact hhigh

theorem natStr_printable (n : Nat) : Printable (natStr n) :=
  fun c hc => UInt8.le_trans (by decide) (natStr_digits n c hc).1

theorem b64Digit_printable (v : BitVec 32) : 32 ≤ b64Digit v := by
  have hall : ∀ i < 64, (32 : UInt8) ≤ b64Alphabet.getD i 0 := by decide +kernel
  refine hall _ ?_
  rw [BitVec.toNat_and]
  exact Nat.lt_of_le_of_lt Nat.and_le_right (by decide)

theorem b64Emit_printable (val : BitVec 32) (fuel pending : Nat) :
    Printable (b64Emit val fuel pending).1 := by
  induction fuel generalizing pending with
  | zero => exact .nil
  | succ fuel ih =>
    simp only [b64Emit]
    split
    · intro c hc
      rcases List.mem_cons.mp hc with rfl | hc
      · exact b64Digit_printable _
      · exact ih _ c hc
    · exact .nil

theorem b64EncodeLoop_printable (val : BitVec 32) (pending : Nat) (s : Str) :
    Printable (b64EncodeLoop val pending s).1 := by
  induction s generalizing val pending with
  | nil => exact .nil
  | cons c s ih =>
    simp only [b64EncodeLoop]
    exact (b64Emit_printable _ _ _).append (ih _ _)

theorem b64encode_printable (s : Str) : Printable (b64encode s) := by
  have hloop := b64EncodeLoop_printable 0 0 s
  have hpad : ∀ n, Printable (List.replicate n 61) := by
    intro n c hc
    rw [List.eq_of_mem_replicate hc]
    decide
  simp only [b64encode]
  refine Printable.append ?_ (hpad _)
  split
  · exact hloop
  · refine hloop.append fun c hc => ?_
    rw [List.mem_singleton.mp hc]
    exact b64Digit_printable _

/-! ## Lines -/

theorem getlines_append {delim : UInt8} {l : Str} (h : delim ∉ l) (current rest : Str) :
    getlines delim current (l ++ delim :: rest) = (current ++ l) :: getlines delim [] rest := by
  induction l generalizing current with
  | nil => simp [getlines]
  | cons c l ih =>
    have hc : c ≠ delim := fun heq => h (heq ▸ List.mem_cons_self)
    rw [List.cons_append, getlines, if_neg hc, ih fun hl => h (List.mem_cons_of_mem _ hl)]
    simp

/-- A last line needs no end. -/
theorem getlines_last {delim : UInt8} {l : Str} (h : delim ∉ l) {current : Str}
    (hne : current ++ l ≠ []) : getlines delim current l = [current ++ l] := by
  induction l generalizing current with
  | nil =>
    rw [List.append_nil] at hne
    simp [getlines, hne]
  | cons c l ih =>
    have hc : c ≠ delim := fun heq => h (heq ▸ List.mem_cons_self)
    rw [getlines, if_neg hc, ih (fun hl => h (List.mem_cons_of_mem _ hl)) (by simp)]
    simp

/-- Lines that are written one after the other are read back. -/
theorem getlines_lines {ls : List Str} (h : ∀ l ∈ ls, Printable l) :
    getlines 10 [] (ls.flatMap (· ++ [10])) = ls := by
  induction ls with
  | nil => rfl
  | cons l ls ih =>
    rw [List.flatMap_cons, List.append_assoc, List.singleton_append,
      getlines_append (h l List.mem_cons_self).newline, List.nil_append,
      ih fun l' hl' => h l' (List.mem_cons_of_mem _ hl')]

/-- A line without its end. -/
def fieldLine (key : String) (value : Str) : Str := str key ++ [61] ++ value

theorem str_length (s : String) : (str s).length = s.length := by
  rw [str, List.length_map, String.length_toList]

/-- What is before the first `=` is the key. -/
theorem prefix_iff {k k' v : Str} (hk : 61 ∉ k) (hk' : 61 ∉ k') :
    (k ++ [61]) <+: (k' ++ [61] ++ v) ↔ k = k' := by
  induction k generalizing k' with
  | nil =>
    cases k' with
    | nil => simp
    | cons c k' =>
      have hc : c ≠ 61 := fun heq => hk' (heq ▸ List.mem_cons_self)
      simp [List.cons_prefix_cons, Ne.symm hc]
  | cons c k ih =>
    have hc : c ≠ 61 := fun heq => hk (heq ▸ List.mem_cons_self)
    cases k' with
    | nil => simp [List.cons_prefix_cons, hc]
    | cons c' k' =>
      have htail : (k ++ [61]) <+: (k' ++ [61] ++ v) ↔ k = k' :=
        ih (fun h => hk (List.mem_cons_of_mem _ h)) fun h => hk' (List.mem_cons_of_mem _ h)
      simp only [List.cons_append, List.cons_prefix_cons, List.cons.injEq]
      exact and_congr_right fun _ => htail

theorem field?_fieldLine {key key' : String} (hkey : 61 ∉ str key) (hkey' : 61 ∉ str key')
    (v : Str) : field? key (fieldLine key' v) = if str key = str key' then some v else none := by
  unfold field? fieldLine
  by_cases heq : str key = str key'
  · rw [if_pos heq, if_pos]
    · have hlen : key.length + 1 = (str key' ++ [61]).length := by
        rw [← str_length, heq, List.length_append, List.length_singleton]
      rw [hlen, List.drop_left]
    · rw [List.isPrefixOf_iff_prefix]
      exact (prefix_iff hkey hkey').mpr heq
  · rw [if_neg heq, if_neg]
    rw [List.isPrefixOf_iff_prefix]
    exact fun h => heq ((prefix_iff hkey hkey').mp h)

/-! ## The text of an artifact -/

/-- The fields `build_meta` writes. -/
def metaFields (a : StoredArtifact) : List (String × Str) :=
  [("id", a.id.toStrongId128.str),
    ("generation", natStr a.generation.toNat),
    ("format", b64encode a.format),
    ("namespace", b64encode a.namespace_),
    ("backend", b64encode a.provenance.producer),
    ("operation", b64encode a.key.operation),
    ("tenant", b64encode a.provenance.tenant),
    ("artifact_sha256", a.sha256Hex.getD []),
    ("sizes", natStr a.sizes.artifactBytes.toNat ++ [44] ++ natStr a.sizes.hostBytes.toNat ++
      [44] ++ natStr a.sizes.deviceBytes.toNat ++ [44] ++ natStr a.sizes.storageBytes.toNat ++
      [44] ++ (if a.sizes.deviceBytesEstimated then str "1" else str "0")),
    ("built_at_ns", natStr a.storedNs.toNat),
    ("key_canonical_b64", b64encode a.key.canonical)]

/-- Their lines. -/
def metaLines (a : StoredArtifact) : List Str := (metaFields a).map fun f => fieldLine f.1 f.2

theorem buildMeta_eq (a : StoredArtifact) :
    buildMeta a = (metaMagic :: metaLines a).flatMap (· ++ [10]) := by
  simp only [buildMeta, metaLine, metaLines, metaFields, fieldLine, List.map_cons, List.map_nil,
    List.flatMap_cons, List.flatMap_nil, List.append_nil, List.append_assoc]

/-- The checksum line. -/
def checksumLine (a : StoredArtifact) : Str :=
  fieldLine "meta_sha256" (toHex (Sha256.digest (buildMeta a)))

theorem fullMeta_eq (a : StoredArtifact) : FilePersistenceStore.fullMeta a =
    (metaMagic :: (metaLines a ++ [checksumLine a])).flatMap (· ++ [10]) := by
  rw [FilePersistenceStore.fullMeta, ← List.cons_append, List.flatMap_append, ← buildMeta_eq]
  simp [metaLine, checksumLine, fieldLine]

/-- The artifact checksum of `a` does not break its line. -/
def StoredArtifact.PrintableSha (a : StoredArtifact) : Prop := Printable (a.sha256Hex.getD [])

/-- The keys of the metadata. -/
def metaKeys : List String :=
  ["id", "generation", "format", "namespace", "backend", "operation", "tenant", "artifact_sha256",
    "sizes", "built_at_ns", "key_canonical_b64"]

theorem metaFields_keys (a : StoredArtifact) : (metaFields a).map Prod.fst = metaKeys := rfl

theorem metaKeys_plain : ∀ key ∈ metaKeys, Printable (str key) ∧ 61 ∉ str key := by
  have hall : (metaKeys.all fun key =>
      (str key).all (fun c => 32 ≤ c) && !(str key).contains 61) = true := by decide
  intro key hkey
  have hkey' := List.all_eq_true.mp hall key hkey
  rw [Bool.and_eq_true] at hkey'
  exact ⟨.of_all hkey'.1, by simpa using hkey'.2⟩

theorem metaFields_printable {a : StoredArtifact} (ha : a.PrintableSha) :
    ∀ f ∈ metaFields a, Printable f.2 := by
  have hcomma : Printable [44] := by
    intro c hc
    rw [List.mem_singleton.mp hc]
    decide
  have hflag : Printable (if a.sizes.deviceBytesEstimated then str "1" else str "0") := by
    split
    · exact .of_all (by decide)
    · exact .of_all (by decide)
  simp only [metaFields, List.forall_mem_cons, List.not_mem_nil, false_imp_iff, implies_true,
    and_true]
  refine ⟨a.id.toStrongId128.str_printable, natStr_printable _, b64encode_printable _,
    b64encode_printable _, b64encode_printable _, b64encode_printable _, b64encode_printable _, ha,
    ?_, natStr_printable _, b64encode_printable _⟩
  exact (((((((((natStr_printable _).append hcomma).append (natStr_printable _)).append
    hcomma).append (natStr_printable _)).append hcomma).append (natStr_printable _)).append
    hcomma).append hflag)

theorem fieldLine_printable {key : String} {v : Str} (hkey : Printable (str key))
    (hv : Printable v) : Printable (fieldLine key v) := by
  refine (hkey.append fun c hc => ?_).append hv
  rw [List.mem_singleton.mp hc]
  decide

/-- A line of the metadata is printable and is not the checksum line. -/
theorem metaLines_plain {a : StoredArtifact} (ha : a.PrintableSha) :
    ∀ l ∈ metaLines a, Printable l ∧ field? "meta_sha256" l = none := by
  intro l hl
  obtain ⟨f, hf, rfl⟩ := List.mem_map.mp hl
  have hmem : f.1 ∈ metaKeys := by
    rw [← metaFields_keys a]
    exact List.mem_map_of_mem hf
  have hkey := metaKeys_plain f.1 hmem
  refine ⟨fieldLine_printable hkey.1 (metaFields_printable ha f hf), ?_⟩
  rw [field?_fieldLine (by decide) hkey.2, if_neg]
  have hother : ∀ key ∈ metaKeys, str "meta_sha256" ≠ str key := by decide
  exact hother f.1 hmem

theorem checksumLine_printable (a : StoredArtifact) : Printable (checksumLine a) :=
  fieldLine_printable (.of_all (by decide)) (toHex_printable _)

/-- The line loop collects what is no checksum line. -/
theorem splitMeta_append {ls : List Str}
    (h : ∀ l ∈ ls, Printable l ∧ field? "meta_sha256" l = none) (body : Str) (lines : List Str)
    (sha : Str) (rest : List Str) : splitMeta body lines sha (ls ++ rest) =
      splitMeta (body ++ ls.flatMap (· ++ [10])) (lines ++ ls) sha rest := by
  induction ls generalizing body lines with
  | nil => simp
  | cons l ls ih =>
    obtain ⟨hprint, hnone⟩ := h l List.mem_cons_self
    simp only [List.cons_append, splitMeta, hprint.stripCR_eq, hnone]
    rw [ih fun l' hl' => h l' (List.mem_cons_of_mem _ hl')]
    simp

theorem splitMeta_fullMeta {a : StoredArtifact} (ha : a.PrintableSha) :
    splitMeta (metaMagic ++ [10]) [] [] (metaLines a ++ [checksumLine a]) =
      .ok (buildMeta a, metaLines a, toHex (Sha256.digest (buildMeta a))) := by
  rw [splitMeta_append (metaLines_plain ha)]
  have hsha : field? "meta_sha256" (checksumLine a) = some (toHex (Sha256.digest (buildMeta a))) := by
    rw [checksumLine, field?_fieldLine (by decide) (by decide), if_pos rfl]
  simp only [splitMeta, (checksumLine_printable a).stripCR_eq, hsha]
  rw [if_neg (by simp), buildMeta_eq]
  rfl

/-- What `parse_artifact_inner` does with the fields and the blob file. -/
def checkBlob (fields : Result StoredArtifact) (blob : Option Bytes) : Result StoredArtifact :=
  match fields with
  | .error e => .error e
  | .ok a =>
    let bytes := blob.getD []
    if bytes.isEmpty then fail .truncatedData (str "blob missing or empty")
    else if UInt64.ofNat bytes.length ≠ a.sizes.artifactBytes then
      fail .truncatedData
        (str "blob length mismatch: expected " ++ natStr a.sizes.artifactBytes.toNat ++
          str " got " ++ natStr bytes.length)
    else
      let sha := a.sha256Hex.getD []
      if !sha.isEmpty && sha ≠ toHex (Sha256.digest bytes) then
        fail .checksumMismatch (str "artifact checksum mismatch")
      else .ok { a with bytes := bytes }

theorem metaMagic_printable : Printable metaMagic := .of_all (by decide)

/-- The lines of what is written. -/
theorem getlines_fullMeta {a : StoredArtifact} (ha : a.PrintableSha) :
    getlines 10 [] (FilePersistenceStore.fullMeta a) =
      metaMagic :: (metaLines a ++ [checksumLine a]) := by
  have hprint : ∀ l ∈ metaMagic :: (metaLines a ++ [checksumLine a]), Printable l := by
    intro l hl
    rcases List.mem_cons.mp hl with rfl | hl
    · exact metaMagic_printable
    · rcases List.mem_append.mp hl with hl | hl
      · exact (metaLines_plain ha l hl).1
      · rw [List.mem_singleton.mp hl]
        exact checksumLine_printable a
  rw [fullMeta_eq, getlines_lines hprint]

/-- **The parser on a text that `put` wrote.** -/
theorem parseArtifactInner_fullMeta {a : StoredArtifact} (ha : a.PrintableSha)
    (blob : Option Bytes) : parseArtifactInner (FilePersistenceStore.fullMeta a) blob =
      checkBlob (parseLines {} (metaLines a)) blob := by
  have hsha : (toHex (Sha256.digest (buildMeta a))).isEmpty = false := by
    rw [List.isEmpty_eq_false_iff, ← List.length_pos_iff_ne_nil, toHex_length]
    decide
  unfold parseArtifactInner
  rw [getlines_fullMeta ha]
  simp only [metaMagic_printable.stripCR_eq, ne_eq, not_true_eq_false, if_false,
    splitMeta_fullMeta ha, hsha, Bool.false_eq_true]
  rfl

/-! ## Numbers are read back -/

theorem decimal_append {s : Str} (hs : Digits s) (acc : Nat) (t : Str) :
    decimal acc (s ++ t) = decimal (decimal acc s) t := by
  induction s generalizing acc with
  | nil => rfl
  | cons c s ih =>
    have hc := hs c List.mem_cons_self
    rw [List.cons_append, decimal, if_pos hc, ih fun c' hc' => hs c' (List.mem_cons_of_mem _ hc'),
      decimal, if_pos hc]

theorem decimal_natStr (n : Nat) : decimal 0 (natStr n) = n := by
  have hdigit : ∀ d < 10, ∀ acc, decimal acc [UInt8.ofNat (Nat.digitChar d).toNat] =
      acc * 10 + d := by
    intro d hd acc
    have hall : ∀ d < 10, 48 ≤ UInt8.ofNat (Nat.digitChar d).toNat ∧
        UInt8.ofNat (Nat.digitChar d).toNat ≤ 57 ∧
        (UInt8.ofNat (Nat.digitChar d).toNat).toNat - 48 = d := by decide
    obtain ⟨hlow, hhigh, hval⟩ := hall d hd
    rw [decimal, if_pos ⟨hlow, hhigh⟩, hval, decimal]
  induction n using Nat.strongRecOn with
  | ind n ih =>
    rw [natStr, Nat.toDigits_eq_if (by decide)]
    split
    · rename_i hlt
      rw [List.map_singleton, hdigit n hlt, Nat.zero_mul, Nat.zero_add]
    · rename_i hge
      have hsplit : (Nat.toDigits 10 (n / 10)).map (fun c => UInt8.ofNat c.toNat) =
          natStr (n / 10) := rfl
      rw [List.map_append, List.map_singleton, hsplit, decimal_append (natStr_digits _),
        ih (n / 10) (by omega), hdigit _ (Nat.mod_lt _ (by decide))]
      omega

theorem natStr_ne_nil (n : Nat) : natStr n ≠ [] := by
  simp [natStr, Nat.toDigits_ne_nil]

/-- `std::stoull` reads back what an unsigned integer prints as. -/
theorem stoull_natStr (v : UInt64) : stoull (natStr v.toNat) = some v := by
  cases hs : natStr v.toNat with
  | nil => exact absurd hs (natStr_ne_nil _)
  | cons c s =>
    have hc := natStr_digits v.toNat c (by rw [hs]; exact List.mem_cons_self)
    have hall : ∀ n < 256, (48 : UInt8) ≤ UInt8.ofNat n → UInt8.ofNat n ≤ 57 →
        isSpace (UInt8.ofNat n) = false ∧ UInt8.ofNat n ≠ 45 ∧ UInt8.ofNat n ≠ 43 := by
      decide +kernel
    have hplain := hall c.toNat c.toNat_lt
    rw [UInt8.ofNat_toNat] at hplain
    obtain ⟨hspace, hminus, hplus⟩ := hplain hc.1 hc.2
    have hvalue : decimal 0 (c :: s) = v.toNat := by
      rw [← hs]
      exact decimal_natStr _
    simp only [stoull, List.dropWhile_cons, hspace, List.head?_cons, Option.some_beq_some,
      beq_eq_false_iff_ne.mpr hminus, beq_eq_false_iff_ne.mpr hplus, Bool.or_self,
      Bool.false_eq_true, if_false, hc, and_self, if_true, hvalue, v.toNat_lt, UInt64.ofNat_toNat]

theorem comma_notMem_natStr (n : Nat) : 44 ∉ natStr n := by
  intro h
  exact absurd (natStr_digits n 44 h).1 (by decide)

/-! ## The field loop on a text that was written -/

/-- The sizes are read back. -/
theorem parseSizes_sizes (sizes : ArtifactSizes) :
    parseSizes 0 {} (getlines 44 [] (natStr sizes.artifactBytes.toNat ++ [44] ++
      natStr sizes.hostBytes.toNat ++ [44] ++ natStr sizes.deviceBytes.toNat ++ [44] ++
      natStr sizes.storageBytes.toNat ++ [44] ++
      (if sizes.deviceBytesEstimated then str "1" else str "0"))) = some sizes := by
  have hflag : ∀ b : Bool, 44 ∉ (if b then str "1" else str "0") ∧
      [] ++ (if b then str "1" else str "0") ≠ [] ∧
      stoull (if b then str "1" else str "0") = some (if b then 1 else 0) := by decide
  obtain ⟨hcomma, hne, hvalue⟩ := hflag sizes.deviceBytesEstimated
  simp only [List.append_assoc, List.cons_append, List.nil_append] at hne ⊢
  rw [getlines_append (comma_notMem_natStr _), getlines_append (comma_notMem_natStr _),
    getlines_append (comma_notMem_natStr _), getlines_append (comma_notMem_natStr _),
    getlines_last hcomma hne]
  simp only [List.nil_append, parseSizes, stoull_natStr, hvalue]
  obtain ⟨artifactBytes, hostBytes, deviceBytes, storageBytes, estimated⟩ := sizes
  cases estimated <;> rfl

theorem field?_same {key : String} (h : 61 ∉ str key) (v : Str) :
    field? key (fieldLine key v) = some v := by
  rw [field?_fieldLine h h, if_pos rfl]

theorem field?_other {key key' : String}
    (h : 61 ∉ str key ∧ 61 ∉ str key' ∧ str key ≠ str key') (v : Str) :
    field? key (fieldLine key' v) = none := by
  rw [field?_fieldLine h.1 h.2.1, if_neg h.2.2]

/-- What the parser can know of an artifact without its blob. -/
def StoredArtifact.readBack (a : StoredArtifact) : StoredArtifact where
  id := a.id
  generation := a.generation
  key := a.key
  sizes := a.sizes
  provenance := { producer := a.provenance.producer, tenant := a.provenance.tenant }
  format := a.format
  storedNs := a.storedNs
  sha256Hex := some (a.sha256Hex.getD [])
  namespace_ := a.namespace_

/-- The fields are read back, given that their base64 text is; the key is what its canonical bytes
decode to. -/
theorem parseLines_metaLines_key {a : StoredArtifact}
    (hb64 : ∀ s ∈ [a.format, a.namespace_, a.provenance.producer, a.key.operation,
      a.provenance.tenant, a.key.canonical], b64decode (b64encode s) = s)
    (hne : a.key.canonical ≠ []) : parseLines {} (metaLines a) =
      match KernelCompatibilityKey.fromCanonical a.key.canonical with
      | .ok k => .ok { a.readBack with key := k }
      | .error (.error _ message) =>
        fail .malformedFrame (str "bad key canonical: " ++ message)
      | .error .exception => malformedField := by
  simp only [List.forall_mem_cons, List.not_mem_nil, false_imp_iff, implies_true, and_true] at hb64
  obtain ⟨hformat, hnamespace, hproducer, hoperation, htenant, hcanonical⟩ := hb64
  simp (disch := decide) only [metaLines, metaFields, List.map_cons, List.map_nil, parseLines,
    parseLine, field?_same, field?_other, StrongId128.parse_str, stoull_natStr, hformat, hnamespace,
    hproducer, hoperation, htenant, hcanonical, parseSizes_sizes,
    List.isEmpty_eq_false_iff.mpr hne, Bool.false_eq_true, if_false]
  cases KernelCompatibilityKey.fromCanonical a.key.canonical with
  | ok k => rfl
  | error e =>
    cases e with
    | error code message => rfl
    | exception => rfl

theorem parseLines_metaLines {a : StoredArtifact}
    (hb64 : ∀ s ∈ [a.format, a.namespace_, a.provenance.producer, a.key.operation,
      a.provenance.tenant, a.key.canonical], b64decode (b64encode s) = s)
    (hne : a.key.canonical ≠ [])
    (hkey : KernelCompatibilityKey.fromCanonical a.key.canonical = .ok a.key) :
    parseLines {} (metaLines a) = .ok a.readBack := by
  rw [parseLines_metaLines_key hb64 hne, hkey]
  rfl

/-! ## The id a text names -/

/-- Some blob makes the parser accept the text as an artifact with this id. -/
def Names (metaText : Str) (id : ArtifactId) : Prop :=
  ∃ blob a, parseArtifactInner metaText blob = .ok a ∧ a.id = id

/-- Only the id line touches the id. -/
theorem parseLine_id {a a' : StoredArtifact} {l : Str} (hl : field? "id" l = none)
    (h : parseLine a l = .ok a') : a'.id = a.id := by
  cases parseLine_ok h with
  | id hl' hid =>
    rw [hl] at hl'
    cases hl'
  | sha hnot hl => rfl
  | key hnot hl hkey => rfl
  | other hnot hid hsha hkey => exact hid

theorem parseLines_id {a a' : StoredArtifact} {ls : List Str} (hls : ∀ l ∈ ls, field? "id" l = none)
    (h : parseLines a ls = .ok a') : a'.id = a.id := by
  induction ls generalizing a with
  | nil =>
    cases h
    rfl
  | cons l ls ih =>
    simp only [parseLines] at h
    split at h
    · cases h
    · rename_i a₁ h₁
      rw [ih (fun l' hl' => hls l' (List.mem_cons_of_mem _ hl')) h]
      exact parseLine_id (hls l List.mem_cons_self) h₁

theorem parseLines_metaLines_id {a fields : StoredArtifact}
    (h : parseLines {} (metaLines a) = .ok fields) : fields.id = a.id := by
  have hid : parseLine {} (fieldLine "id" a.id.toStrongId128.str) =
      .ok { ({} : StoredArtifact) with id := a.id } := by
    unfold parseLine
    rw [field?_fieldLine (by decide) (by decide), if_pos rfl]
    simp only [StrongId128.parse_str]
  have hrest : ∀ l ∈ (metaLines a).tail, field? "id" l = none := by
    intro l hl
    rw [metaLines, ← List.map_tail] at hl
    obtain ⟨f, hf, rfl⟩ := List.mem_map.mp hl
    have hmem : f.1 ∈ metaKeys.tail := by
      rw [← metaFields_keys a, ← List.map_tail]
      exact List.mem_map_of_mem hf
    have hother : ∀ key ∈ metaKeys.tail, str "id" ≠ str key := by decide
    rw [field?_fieldLine (by decide) (metaKeys_plain f.1 (List.mem_of_mem_tail hmem)).2,
      if_neg (hother f.1 hmem)]
  have hsplit : metaLines a = fieldLine "id" a.id.toStrongId128.str :: (metaLines a).tail := rfl
  rw [hsplit, parseLines, hid] at h
  rw [parseLines_id hrest h]

/-- **A text names the id it was written for.** -/
theorem fullMeta_names {a : StoredArtifact} (ha : a.PrintableSha) {id : ArtifactId}
    (h : Names (FilePersistenceStore.fullMeta a) id) : id = a.id := by
  obtain ⟨blob, b, hparse, rfl⟩ := h
  rw [parseArtifactInner_fullMeta ha] at hparse
  unfold checkBlob at hparse
  split at hparse
  · cases hparse
  rename_i fields hfields
  dsimp only at hparse
  split at hparse
  · cases hparse
  split at hparse
  · cases hparse
  split at hparse
  · cases hparse
  cases hparse
  have hid := parseLines_metaLines_id hfields
  exact hid

end KernelCache
