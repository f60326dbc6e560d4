/-
# KernelCache.IdForms — the text and the bytes of an id (`identifiers.cpp`).

`str()` and `to_bytes` take the two words of an id apart by shifts, from the high end down; `parse` and
`from_bytes` put them together by shifts the other way.  The loops below are the source's; they are the
functions of digits that the file store is modelled with (`strLoop_eq`, `parseLoop_eq`), and the
big-endian codec of eight bytes.

`id_forms_exact` is what they amount to: an id is what its text and its bytes say, `parse` accepts the
strings of 32 hexadecimal digits and no others, and two of these name one id when they differ in case
only.
-/
import KernelCache.Foundation.Words
import KernelCache.Persistence

namespace KernelCache

open Foundation (Bytes beBytes beNat shifted_down shifted_up)

/-! ## Text -/

/-- `for (int i = 60; i >= 0; i -= 4) s.push_back(h[(w >> i) & 0xf])`, for the last `n` values of `i`. -/
def pushDigits (w : UInt64) : Nat → Str
  | 0 => []
  | n + 1 => hexDigit ((w >>> UInt64.ofNat (4 * n)) &&& 0xf).toUInt8 :: pushDigits w n

/-- One character in the loop of `parse`. -/
def parseDigits : Nat → StrongId128 → Str → Result StrongId128
  | _, id, [] => .ok id
  | i, id, c :: cs =>
    match hexVal c with
    | none => fail .malformedFrame (str "invalid hex digit in id")
    | some v =>
      if i < 16 then parseDigits (i + 1) { id with hi := (id.hi <<< 4) ||| UInt64.ofNat v } cs
      else parseDigits (i + 1) { id with lo := (id.lo <<< 4) ||| UInt64.ofNat v } cs

namespace StrongId128

/-- `str()`, as the source spells it. -/
def strLoop (id : StrongId128) : Str := pushDigits id.hi 16 ++ pushDigits id.lo 16

/-- `parse`, as the source spells it. -/
def parseLoop (s : Str) : Result StrongId128 :=
  if s.length ≠ 32 then fail .malformedFrame (KernelCache.str "id must be 32 hex digits")
  else parseDigits 0 {} s

end StrongId128

theorem pushDigits_eq (w : UInt64) {n : Nat} (hn : n ≤ 16) : pushDigits w n = hexWord n w.toNat := by
  induction n with
  | zero => rfl
  | succ n ih =>
    have hbits : ((w >>> UInt64.ofNat (4 * n)) &&& 0xf).toNat = w.toNat / 2 ^ (4 * n) % 2 ^ 4 :=
      shifted_down (by omega) w 0xf rfl
    have hpow : 2 ^ (4 * n) = 16 ^ n := Nat.pow_mul 2 4 n
    rw [pushDigits, hexWord, ih (by omega)]
    congr 2
    apply UInt8.toNat_inj.mp
    rw [UInt64.toNat_toUInt8, hbits, hpow, UInt8.toNat_ofNat']
    rfl

theorem StrongId128.strLoop_eq (id : StrongId128) : id.strLoop = id.str := by
  rw [strLoop, str, pushDigits_eq _ le_rfl, pushDigits_eq _ le_rfl]

/-- `std::tolower` in the C locale. -/
def toLower (c : UInt8) : UInt8 := if 65 ≤ c ∧ c ≤ 90 then c + 32 else c

/-- A character of `[0-9a-fA-F]`. -/
def IsHexDigit (c : UInt8) : Prop := 48 ≤ c ∧ c ≤ 57 ∨ 97 ≤ c ∧ c ≤ 102 ∨ 65 ≤ c ∧ c ≤ 70

instance : DecidablePred IsHexDigit := fun _ => inferInstanceAs (Decidable (_ ∨ _))

/-- A digit is one of sixteen, and written again it is its character in lower case. -/
theorem hexVal_spec {c : UInt8} {d : Nat} (h : hexVal c = some d) :
    d < 16 ∧ hexDigit (UInt8.ofNat d) = toLower c := by
  have hall : ∀ n < 256, ∀ d ∈ hexVal (UInt8.ofNat n), d < 16 ∧
      hexDigit (UInt8.ofNat d) = toLower (UInt8.ofNat n) := by decide +kernel
  have hc := hall c.toNat c.toNat_lt d
  rw [UInt8.ofNat_toNat] at hc
  exact hc h

theorem hexVal_isSome (c : UInt8) : (hexVal c).isSome ↔ IsHexDigit c := by
  unfold hexVal IsHexDigit
  split_ifs with hdigit hlower hupper
  · exact iff_of_true rfl (.inl hdigit)
  · exact iff_of_true rfl (.inr (.inl hlower))
  · exact iff_of_true rfl (.inr (.inr hupper))
  · exact iff_of_false Bool.false_ne_true fun h => h.elim hdigit fun h => h.elim hlower hupper

/-- One more digit. -/
theorem shifted_digit {c : UInt8} {d : Nat} (h : hexVal c = some d) (acc : Nat) :
    (UInt64.ofNat acc <<< 4) ||| UInt64.ofNat d = UInt64.ofNat (acc * 16 + d) :=
  shifted_up (k := 4) (by decide) acc (hexVal_spec h).1

/-- The digits of the low word. -/
theorem parseDigits_low {i : Nat} (hi : 16 ≤ i) (w : UInt64) (acc : Nat) (s : Str) :
    parseDigits i ⟨w, UInt64.ofNat acc⟩ s =
      (hexNat acc s).elim (fail .malformedFrame (str "invalid hex digit in id"))
        fun lo => .ok ⟨w, UInt64.ofNat lo⟩ := by
  induction s generalizing i acc with
  | nil => rfl
  | cons c cs ih =>
    cases hc : hexVal c with
    | none => simp only [parseDigits, hexNat, hc, Option.elim_none]
    | some d =>
      simp only [parseDigits, hexNat, hc, if_neg (Nat.not_lt.mpr hi), shifted_digit hc]
      exact ih (Nat.le_succ_of_le hi) _

/-- The digits of the high word. -/
theorem parseDigits_high {n : Nat} (acc : Nat) (w : UInt64) {s : Str} (hn : n ≤ 16)
    (hs : n ≤ s.length) : parseDigits (16 - n) ⟨UInt64.ofNat acc, w⟩ s =
      (hexNat acc (s.take n)).elim (fail .malformedFrame (str "invalid hex digit in id"))
        fun hi => parseDigits 16 ⟨UInt64.ofNat hi, w⟩ (s.drop n) := by
  induction n generalizing acc s with
  | zero => rfl
  | succ n ih =>
    obtain ⟨c, cs, rfl⟩ := List.exists_cons_of_length_pos (Nat.lt_of_lt_of_le n.succ_pos hs)
    rw [List.take_succ_cons, List.drop_succ_cons]
    cases hc : hexVal c with
    | none => simp only [parseDigits, hexNat, hc, Option.elim_none]
    | some d =>
      have hnext : 16 - (n + 1) + 1 = 16 - n := by omega
      simp only [parseDigits, hexNat, hc, if_pos (show 16 - (n + 1) < 16 by omega), shifted_digit hc,
        hnext]
      exact ih _ (by omega) (Nat.le_of_succ_le_succ hs)

theorem StrongId128.parseLoop_eq (s : Str) : parseLoop s = parse s := by
  unfold parseLoop parse
  split
  · rfl
  · rename_i hlen
    have hlen : s.length = 32 := Decidable.not_not.mp hlen
    have hhigh := parseDigits_high (n := 16) 0 0 le_rfl (s := s) (by omega)
    refine hhigh.trans ?_
    cases hexNat 0 (s.take 16) with
    | none => rfl
    | some hi =>
      refine (parseDigits_low le_rfl _ 0 _).trans ?_
      cases hexNat 0 (s.drop 16) with
      | none => rfl
      | some lo => rfl

/-- A number read from digits, without the digits. -/
theorem hexNat_div {acc v : Nat} {s : Str} (h : hexNat acc s = some v) : v / 16 ^ s.length = acc := by
  induction s generalizing acc with
  | nil =>
    cases h
    exact Nat.div_one _
  | cons c cs ih =>
    rw [hexNat] at h
    cases hc : hexVal c with
    | none =>
      rw [hc] at h
      cases h
    | some d =>
      rw [hc] at h
      have hd := (hexVal_spec hc).1
      rw [List.length_cons, Nat.pow_succ, ← Nat.div_div_eq_div_mul, ih h]
      omega

/-- The digits of a number that was read, written again. -/
theorem hexWord_of_hexNat {acc v : Nat} {s : Str} (h : hexNat acc s = some v) :
    hexWord s.length v = s.map toLower := by
  induction s generalizing acc with
  | nil => rfl
  | cons c cs ih =>
    rw [hexNat] at h
    cases hc : hexVal c with
    | none =>
      rw [hc] at h
      cases h
    | some d =>
      rw [hc] at h
      obtain ⟨hd, hdigit⟩ := hexVal_spec hc
      have hval : v / 16 ^ cs.length % 16 = d := by
        rw [hexNat_div h]
        omega
      rw [List.length_cons, hexWord, hval, hdigit, ih h, List.map_cons]

theorem hexNat_isSome (acc : Nat) (s : Str) : (hexNat acc s).isSome ↔ ∀ c ∈ s, IsHexDigit c := by
  induction s generalizing acc with
  | nil => simp [hexNat]
  | cons c cs ih =>
    rw [List.forall_mem_cons, ← hexVal_isSome, hexNat]
    cases hexVal c with
    | none => simp
    | some d => simp [ih]

/-- A word read from sixteen digits. -/
theorem hexWord_word {v : Nat} {s : Str} (hs : s.length = 16) (h : hexNat 0 s = some v) :
    hexWord 16 (UInt64.ofNat v).toNat = s.map toLower := by
  have hlt : v < 2 ^ 64 := by
    have hdiv := hexNat_div h
    rw [hs] at hdiv
    exact (Nat.div_eq_zero_iff.mp hdiv).resolve_left (by decide)
  rw [UInt64.toNat_ofNat', Nat.mod_eq_of_lt hlt, ← hs]
  exact hexWord_of_hexNat h

namespace StrongId128

/-- What `parse` accepts. -/
theorem parse_ok_iff {s : Str} {id : StrongId128} : parse s = .ok id ↔ s.length = 32 ∧
    ∃ hi lo, hexNat 0 (s.take 16) = some hi ∧ hexNat 0 (s.drop 16) = some lo ∧
      id = ⟨UInt64.ofNat hi, UInt64.ofNat lo⟩ := by
  unfold parse
  constructor
  · intro h
    split at h
    · cases h
    · rename_i hlen
      split at h
      · rename_i hi lo hhi hlo
        cases h
        exact ⟨Decidable.not_not.mp hlen, hi, lo, hhi, hlo, rfl⟩
      · cases h
  · rintro ⟨hlen, hi, lo, hhi, hlo, rfl⟩
    rw [if_neg (fun h => h hlen), hhi, hlo]

theorem parse_accepts_iff (s : Str) :
    (∃ id, parse s = .ok id) ↔ s.length = 32 ∧ ∀ c ∈ s, IsHexDigit c := by
  have hsplit : (∀ c ∈ s, IsHexDigit c) ↔
      (∀ c ∈ s.take 16, IsHexDigit c) ∧ ∀ c ∈ s.drop 16, IsHexDigit c := by
    rw [← List.forall_mem_append, List.take_append_drop]
  rw [hsplit, ← hexNat_isSome 0, ← hexNat_isSome 0, Option.isSome_iff_exists, Option.isSome_iff_exists]
  constructor
  · rintro ⟨id, h⟩
    obtain ⟨hlen, hi, lo, hhi, hlo, -⟩ := parse_ok_iff.mp h
    exact ⟨hlen, ⟨hi, hhi⟩, lo, hlo⟩
  · rintro ⟨hlen, ⟨hi, hhi⟩, lo, hlo⟩
    exact ⟨_, parse_ok_iff.mpr ⟨hlen, hi, lo, hhi, hlo, rfl⟩⟩

/-- **The text of an id that was parsed** is what was parsed, in lower case. -/
theorem str_of_parse {s : Str} {id : StrongId128} (h : parse s = .ok id) :
    id.str = s.map toLower := by
  obtain ⟨hlen, hi, lo, hhi, hlo, rfl⟩ := parse_ok_iff.mp h
  have htake : (s.take 16).length = 16 := by
    rw [List.length_take, hlen]
    rfl
  have hdrop : (s.drop 16).length = 16 := by
    rw [List.length_drop, hlen]
  rw [str, hexWord_word htake hhi, hexWord_word hdrop hlo, ← List.map_append, List.take_append_drop]

end StrongId128

/-! ## Bytes -/

/-- `(w >> ((7 - i) * 8)) & 0xff`, for `i` from 0 to 7. -/
def wordBytes (w : UInt64) : Bytes :=
  (List.range 8).map fun i => ((w >>> UInt64.ofNat ((7 - i) * 8)) &&& 0xff).toUInt8

namespace StrongId128

/-- `to_bytes`: the eight octets of the high word, then those of the low word. -/
def toBytes (id : StrongId128) : Bytes := wordBytes id.hi ++ wordBytes id.lo

/-- `from_bytes`. -/
def fromBytes (b : Bytes) : StrongId128 :=
  (List.range 8).foldl (fun r i =>
    { hi := (r.hi <<< 8) ||| (b.getD i 0).toUInt64
      lo := (r.lo <<< 8) ||| (b.getD (8 + i) 0).toUInt64 }) {}

end StrongId128

theorem wordBytes_eq (w : UInt64) : wordBytes w = beBytes 8 w.toNat := by
  have hbyte : ∀ i, i ≤ 7 → ((w >>> UInt64.ofNat (i * 8)) &&& 0xff).toUInt8 =
      UInt8.ofNat (w.toNat / 256 ^ i) := by
    intro i hi
    have hbits : ((w >>> UInt64.ofNat (i * 8)) &&& 0xff).toNat = w.toNat / 2 ^ (i * 8) % 2 ^ 8 :=
      shifted_down (by omega) w 0xff rfl
    have hpow : 2 ^ (i * 8) = 256 ^ i := by rw [Nat.mul_comm, Nat.pow_mul]
    apply UInt8.toNat_inj.mp
    rw [UInt64.toNat_toUInt8, hbits, hpow, UInt8.toNat_ofNat', Nat.mod_mod]
  simp only [wordBytes, beBytes, List.range, List.range.loop, List.map_cons, List.map_nil, hbyte 7 le_rfl,
    hbyte 6 (by decide), hbyte 5 (by decide), hbyte 4 (by decide), hbyte 3 (by decide),
    hbyte 2 (by decide), hbyte 1 (by decide), hbyte 0 (by decide), Nat.sub_self, Nat.reduceSub]

/-- One more octet. -/
theorem beNat_take_succ {b : Bytes} {n : Nat} (hn : n < b.length) :
    (UInt64.ofNat (beNat 0 (b.take n)) <<< 8) ||| (b.getD n 0).toUInt64 =
      UInt64.ofNat (beNat 0 (b.take (n + 1))) := by
  have hoctet : (b.getD n 0).toUInt64 = UInt64.ofNat (b.getD n 0).toNat :=
    (UInt64.ofNat_toNat (x := (b.getD n 0).toUInt64)).symm
  have hmore : beNat 0 (b.take (n + 1)) = beNat 0 (b.take n) * 2 ^ 8 + (b.getD n 0).toNat := by
    rw [List.take_succ_eq_append_getElem hn, List.getD_eq_getElem?_getD, List.getElem?_eq_getElem hn,
      beNat, List.foldl_append]
    rfl
  rw [hoctet, hmore]
  exact shifted_up (k := 8) (by decide) _ (b.getD n 0).toNat_lt

theorem StrongId128.fromBytes_eq {b : Bytes} (hb : b.length = 16) : fromBytes b =
    ⟨UInt64.ofNat (beNat 0 (b.take 8)), UInt64.ofNat (beNat 0 (b.drop 8))⟩ := by
  -- after `n` rounds each word holds its first `n` octets
  have hrounds : ∀ n ≤ 8, (List.range n).foldl (fun (r : StrongId128) i =>
      ({ hi := (r.hi <<< 8) ||| (b.getD i 0).toUInt64
         lo := (r.lo <<< 8) ||| (b.getD (8 + i) 0).toUInt64 } : StrongId128)) {} =
      ⟨UInt64.ofNat (beNat 0 (b.take n)), UInt64.ofNat (beNat 0 ((b.drop 8).take n))⟩ := by
    intro n hn
    induction n with
    | zero => rfl
    | succ n ih =>
      have hlow : b.getD (8 + n) 0 = (b.drop 8).getD n 0 := by
        rw [List.getD_eq_getElem?_getD, List.getD_eq_getElem?_getD, List.getElem?_drop]
      have hdrop : n < (b.drop 8).length := by
        rw [List.length_drop]
        omega
      rw [List.range_succ, List.foldl_append, ih (by omega), List.foldl_cons, List.foldl_nil, hlow,
        beNat_take_succ (by omega), beNat_take_succ hdrop]
  have hall := hrounds 8 le_rfl
  rw [List.take_of_length_le (l := b.drop 8) (by rw [List.length_drop]; omega)] at hall
  exact hall

theorem StrongId128.fromBytes_toBytes (id : StrongId128) : fromBytes id.toBytes = id := by
  have hlen : (wordBytes id.hi).length = 8 := rfl
  have hword : ∀ w : UInt64, UInt64.ofNat (beNat 0 (beBytes 8 w.toNat)) = w := by
    intro w
    have hlt : w.toNat < 256 ^ 8 := w.toNat_lt
    rw [Foundation.beNat_beBytes, Nat.mod_eq_of_lt hlt, UInt64.ofNat_toNat]
  rw [fromBytes_eq rfl, toBytes, List.take_left' hlen, List.drop_left' hlen, wordBytes_eq,
    wordBytes_eq, hword, hword]

theorem StrongId128.toBytes_fromBytes {b : Bytes} (hb : b.length = 16) : (fromBytes b).toBytes = b := by
  have hword : ∀ {o : Bytes}, o.length = 8 → wordBytes (UInt64.ofNat (beNat 0 o)) = o := by
    intro o ho
    have hlt : beNat 0 o < 2 ^ 64 := by
      have := Foundation.beNat_lt o
      rwa [ho] at this
    have hback := Foundation.beBytes_beNat o 0
    rw [Nat.zero_mul, Nat.zero_add, ho] at hback
    rw [wordBytes_eq, UInt64.toNat_ofNat', Nat.mod_eq_of_lt hlt, hback]
  have htake : (b.take 8).length = 8 := by
    rw [List.length_take, hb]
    rfl
  have hdrop : (b.drop 8).length = 8 := by
    rw [List.length_drop, hb]
  rw [fromBytes_eq hb, toBytes, hword htake, hword hdrop, List.take_append_drop]

/-! ## Ids -/

/-- **Id forms are exact.** Text and bytes of an id are read back as that id; `parse` accepts the strings
of 32 hexadecimal digits and no others, and the text of what it returns is the string in lower case;
every 16 octets are the bytes of the id read from them. -/
theorem id_forms_exact :
    (∀ id : StrongId128, StrongId128.parseLoop id.strLoop = .ok id ∧
      StrongId128.fromBytes id.toBytes = id) ∧
    (∀ s : Str, (∃ id, StrongId128.parseLoop s = .ok id) ↔
      s.length = 32 ∧ ∀ c ∈ s, IsHexDigit c) ∧
    (∀ (s : Str) (id : StrongId128), StrongId128.parseLoop s = .ok id →
      id.strLoop = s.map toLower) ∧
    ∀ b : Bytes, b.length = 16 → (StrongId128.fromBytes b).toBytes = b := by
  refine ⟨fun id => ⟨?_, id.fromBytes_toBytes⟩, fun s => ?_, fun s id h => ?_, fun b hb => ?_⟩
  · rw [StrongId128.strLoop_eq, StrongId128.parseLoop_eq]
    exact StrongId128.parse_str id
  · simp only [StrongId128.parseLoop_eq]
    exact StrongId128.parse_accepts_iff s
  · rw [StrongId128.parseLoop_eq] at h
    rw [StrongId128.strLoop_eq]
    exact StrongId128.str_of_parse h
  · exact StrongId128.toBytes_fromBytes hb

/-- An upper-case digit, and sixteen octets. -/
theorem id_forms_exact_sample :
    (StrongId128.strLoop ⟨0xA, 0⟩ = (str "000000000000000A0000000000000000").map toLower) ∧
      (StrongId128.fromBytes (List.replicate 16 1)).toBytes = List.replicate 16 1 := by
  have hparse : StrongId128.parseLoop (str "000000000000000A0000000000000000") = .ok ⟨0xA, 0⟩ := by
    decide +kernel
  exact ⟨id_forms_exact.2.2.1 _ _ hparse, id_forms_exact.2.2.2 _ (by decide)⟩

end KernelCache
