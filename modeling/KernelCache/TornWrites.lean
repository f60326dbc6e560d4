/-
# KernelCache.TornWrites — whatever `put` leaves behind, nothing torn is accepted (`persistence.cpp`).

`putOps` is `put` as a list of file operations, with the second tries its faults bring about.  A put
that is cut short is a prefix of that list in which any write may have torn (`Cut`), renamed or not,
and a `History` is any number of such puts on a root that was empty.

What survives in the root is then, under each artifact's two names, a prefix of SOME metadata text and
a prefix of SOME blob that were put under that id (`FilePersistenceStore.Backed`), never mind which of
them go together.  The parser refuses every strict prefix of a metadata text, as the checksum line is
the last (`parse_prefix`), and the checksum in it ties the blob to the artifact the text is of.
-/
import KernelCache.Crash

namespace KernelCache

open Foundation (Bytes beBytes)
open FilePersistenceStore (fullMeta)

/-! ## A put as file operations -/

/-- A file operation of `put`; before a second try the file in the way is removed. -/
inductive FileOp where
  | step (s : FileStep)
  | removeFile (name : Str)

def FileOp.apply (st : FilePersistenceStore) : FileOp → FilePersistenceStore
  | step s => s.apply st
  | removeFile name => { st with artifacts := st.artifacts.erase name }

def blobTmp (id : ArtifactId) (token : Str) : Str := id.toStrongId128.str ++ str ".blob.tmp." ++ token

def metaTmp (id : ArtifactId) (token : Str) : Str := id.toStrongId128.str ++ str ".meta.tmp." ++ token

/-- The operations of `install` that take effect. -/
def installOps (tmpName name : Str) (failFirst failRemove failAgain : Bool) : List FileOp :=
  if !failFirst then [.step (.rename tmpName name)]
  else (if failRemove then [] else [.removeFile name]) ++
    if !failAgain then [.step (.rename tmpName name)] else []

/-- The operations of `put` that take effect. -/
def putOps (faults : PutFaults) (a : StoredArtifact) : List FileOp :=
  let btmp := blobTmp a.id faults.token
  let mtmp := metaTmp a.id faults.token
  if faults.openBlob then []
  else
    .step (.write btmp (a.bytes.take (faults.blobWritten.getD a.bytes.length))) ::
      (installOps btmp (blobName a.id) faults.renameBlob faults.removeBlob faults.renameBlobAgain ++
        if faults.renameBlob && faults.renameBlobAgain then []
        else
          match faults.writeMeta with
          | some n => [.step (.write mtmp ((fullMeta a).take n))]
          | none =>
            .step (.write mtmp (fullMeta a)) ::
              (installOps mtmp (metaName a.id) faults.renameMeta faults.removeMeta
                  faults.renameMetaAgain ++
                if faults.renameMeta && faults.renameMetaAgain then [] else [.step (.remove btmp)]))

/-- The store after some operations. -/
def applyOps (ops : List FileOp) (st : FilePersistenceStore) : FilePersistenceStore :=
  ops.foldl FileOp.apply st

theorem applyOps_append (ops ops' : List FileOp) (st : FilePersistenceStore) :
    applyOps (ops ++ ops') st = applyOps ops' (applyOps ops st) := List.foldl_append

/-- `install` takes its operations, and says whether the rename came through. -/
theorem install_eq_ops (st : FilePersistenceStore) (tmpName name : Str) (f g h : Bool) :
    st.install tmpName name f g h = (!(f && h), applyOps (installOps tmpName name f g h) st) := by
  cases f <;> cases g <;> cases h <;> rfl

/-- `put` takes its operations. -/
theorem put_eq_ops (faults : PutFaults) (a : StoredArtifact) (st : FilePersistenceStore) :
    (st.put faults a).2 = applyOps (putOps faults a) st := by
  unfold FilePersistenceStore.put putOps blobTmp metaTmp
  dsimp only
  cases faults.openBlob with
  | true => rfl
  | false =>
    simp only [Bool.false_eq_true, if_false, install_eq_ops]
    generalize hblob : installOps _ (blobName a.id) _ _ _ = blobOps
    cases hfail : faults.renameBlob && faults.renameBlobAgain with
    | true =>
      simp only [if_true, List.append_nil]
      rfl
    | false =>
      simp only [Bool.false_eq_true, if_false]
      cases faults.writeMeta with
      | some n =>
        show _ = applyOps (_ ++ _) _
        rw [applyOps_append]
        rfl
      | none =>
        generalize hmeta : installOps _ (metaName a.id) _ _ _ = metaOps
        cases hfail' : faults.renameMeta && faults.renameMetaAgain with
        | true =>
          show _ = applyOps (_ ++ _ :: (metaOps ++ [])) _
          rw [applyOps_append, List.append_nil]
          rfl
        | false =>
          show _ = applyOps (_ ++ _ :: (metaOps ++ _)) _
          rw [applyOps_append]
          show _ = applyOps (metaOps ++ _) _
          rw [applyOps_append]
          rfl

/-! ## Puts that are cut short -/

/-- A write may stop after any prefix of its data. -/
inductive Torn : FileOp → FileOp → Prop
  | whole (op : FileOp) : Torn op op
  | write (tmpName : Str) (data : Bytes) (n : Nat) :
      Torn (.step (.write tmpName data)) (.step (.write tmpName (data.take n)))

/-- What is left of some operations when they are cut short. -/
def Cut (ops left : List FileOp) : Prop := ∃ done, done <+: ops ∧ List.Forall₂ Torn done left

/-- Puts, whole or cut short, with any faults, on a root that was empty, and scans of it: the artifacts
that were given to `put`, and the store. -/
inductive History : List StoredArtifact → FilePersistenceStore → Prop
  | empty : History [] {}
  | put {puts : List StoredArtifact} {st : FilePersistenceStore} (faults : PutFaults)
      (a : StoredArtifact) (left : List FileOp) : History puts st → Cut (putOps faults a) left →
      History (a :: puts) (applyOps left st)
  | recover {puts : List StoredArtifact} {st : FilePersistenceStore} (names : List Str) :
      History puts st → History puts (st.recover names).2

theorem Cut.whole (ops : List FileOp) : Cut ops ops :=
  ⟨ops, List.prefix_rfl, List.forall₂_same.mpr fun op _ => .whole op⟩

/-- Among the histories are those in which every put runs to its end. -/
theorem History.whole {puts : List StoredArtifact} {st : FilePersistenceStore} (h : History puts st)
    (faults : PutFaults) (a : StoredArtifact) : History (a :: puts) (st.put faults a).2 := by
  rw [put_eq_ops]
  exact .put faults a _ h (.whole _)

/-! ## What is in the root -/

/-- Every file of the root is a prefix of one that some artifact with the property was stored in,
under the id of that artifact. -/
structure FilePersistenceStore.Backed (P : StoredArtifact → Prop) (st : FilePersistenceStore) :
    Prop where
  metas : ∀ id text, st.artifacts.lookup (metaName id) = some text →
    ∃ a, P a ∧ a.id = id ∧ text <+: fullMeta a
  blobs : ∀ id data, st.artifacts.lookup (blobName id) = some data →
    ∃ a, P a ∧ a.id = id ∧ data <+: a.bytes
  metaTmps : ∀ id token text, st.tmp.lookup (metaTmp id token) = some text →
    ∃ a, P a ∧ a.id = id ∧ text <+: fullMeta a
  blobTmps : ∀ id token data, st.tmp.lookup (blobTmp id token) = some data →
    ∃ a, P a ∧ a.id = id ∧ data <+: a.bytes
  named : ∀ name data, st.artifacts.lookup name = some data →
    ∃ id, name = metaName id ∨ name = blobName id

/-- The operations that store such artifacts. -/
inductive FileOp.Stores (P : StoredArtifact → Prop) : FileOp → Prop
  | writeBlob (a : StoredArtifact) (token : Str) (data : Bytes) : P a → data <+: a.bytes →
      Stores P (.step (.write (blobTmp a.id token) data))
  | writeMeta (a : StoredArtifact) (token : Str) (text : Str) : P a → text <+: fullMeta a →
      Stores P (.step (.write (metaTmp a.id token) text))
  | installBlob (a : StoredArtifact) (token : Str) : P a →
      Stores P (.step (.rename (blobTmp a.id token) (blobName a.id)))
  | installMeta (a : StoredArtifact) (token : Str) : P a →
      Stores P (.step (.rename (metaTmp a.id token) (metaName a.id)))
  | removeTmp (tmpName : Str) : Stores P (.step (.remove tmpName))
  | removeFile (name : Str) : Stores P (.removeFile name)

variable {P : StoredArtifact → Prop}

theorem mem_installOps {tmpName name : Str} {f g h : Bool} {op : FileOp}
    (hop : op ∈ installOps tmpName name f g h) :
    op = .step (.rename tmpName name) ∨ op = .removeFile name := by
  cases f <;> cases g <;> cases h <;> simp [installOps] at hop <;> tauto

theorem putOps_stores {a : StoredArtifact} (ha : P a) (faults : PutFaults) :
    ∀ op ∈ putOps faults a, op.Stores P := by
  intro op hop
  simp only [putOps] at hop
  split at hop
  · cases hop
  · rcases List.mem_cons.mp hop with rfl | hop
    · exact .writeBlob a _ _ ha (List.take_prefix _ _)
    · rcases List.mem_append.mp hop with hop | hop
      · rcases mem_installOps hop with rfl | rfl
        · exact .installBlob a _ ha
        · exact .removeFile _
      · split at hop
        · cases hop
        · split at hop
          · rw [List.mem_singleton.mp hop]
            exact .writeMeta a _ _ ha (List.take_prefix _ _)
          · rcases List.mem_cons.mp hop with rfl | hop
            · exact .writeMeta a _ _ ha List.prefix_rfl
            · rcases List.mem_append.mp hop with hop | hop
              · rcases mem_installOps hop with rfl | rfl
                · exact .installMeta a _ ha
                · exact .removeFile _
              · split at hop
                · cases hop
                · rw [List.mem_singleton.mp hop]
                  exact .removeTmp _

theorem Torn.stores {op op' : FileOp} (h : Torn op op') (hop : op.Stores P) : op'.Stores P := by
  cases h with
  | whole => exact hop
  | write tmpName data n =>
    cases hop with
    | writeBlob a token _ ha hdata =>
      exact .writeBlob a token _ ha ((List.take_prefix n data).trans hdata)
    | writeMeta a token _ ha htext =>
      exact .writeMeta a token _ ha ((List.take_prefix n data).trans htext)

theorem Cut.stores {ops left : List FileOp} (h : Cut ops left) (hops : ∀ op ∈ ops, op.Stores P) :
    ∀ op ∈ left, op.Stores P := by
  obtain ⟨done, hdone, htorn⟩ := h
  have hpart : ∀ op ∈ done, op.Stores P := fun op hop => hops op (hdone.subset hop)
  clear hdone
  induction htorn with
  | nil => exact fun _ hop => nomatch hop
  | cons hfirst _ ih =>
    rw [List.forall_mem_cons] at hpart ⊢
    exact ⟨hfirst.stores hpart.1, ih hpart.2⟩

theorem tmp_inj {id id' : ArtifactId} {kind token token' : Str}
    (h : id.toStrongId128.str ++ kind ++ token = id'.toStrongId128.str ++ kind ++ token') :
    id = id' := by
  rw [List.append_assoc, List.append_assoc] at h
  exact ArtifactId.ext_strong (StrongId128.str_injective (List.append_inj h (by simp)).1)

theorem metaTmp_ne_blobTmp (id id' : ArtifactId) (token token' : Str) :
    metaTmp id token ≠ blobTmp id' token' := by
  intro h
  unfold metaTmp blobTmp at h
  rw [List.append_assoc, List.append_assoc] at h
  have hkind := (List.append_inj (List.append_inj h (by simp)).2 (by decide)).1
  exact absurd hkind (by decide)

theorem metaName_inj {a b : ArtifactId} (h : metaName a = metaName b) : a = b := by
  by_contra hne
  exact metaName_ne hne h

theorem blobName_inj {a b : ArtifactId} (h : blobName a = blobName b) : a = b := by
  by_contra hne
  exact blobName_ne hne h

namespace FilePersistenceStore

theorem lookup_insert_cases {files : Map Str Bytes} {name name' : Str} {data data' : Bytes}
    (h : (files.insert name data).lookup name' = some data') :
    (name' = name ∧ data' = data) ∨ files.lookup name' = some data' := by
  by_cases hname : name' = name
  · subst hname
    rw [AList.lookup_insert] at h
    exact .inl ⟨rfl, (Option.some.inj h).symm⟩
  · rw [AList.lookup_insert_ne hname] at h
    exact .inr h

theorem Backed.empty : Backed P {} where
  metas := fun _ _ h => nomatch h
  blobs := fun _ _ h => nomatch h
  metaTmps := fun _ _ _ h => nomatch h
  blobTmps := fun _ _ _ h => nomatch h
  named := fun _ _ h => nomatch h

theorem Backed.mono {Q : StoredArtifact → Prop} {st : FilePersistenceStore} (h : st.Backed P)
    (hPQ : ∀ a, P a → Q a) : st.Backed Q where
  metas := fun id text htext =>
    let ⟨a, ha, hid, hpre⟩ := h.metas id text htext
    ⟨a, hPQ a ha, hid, hpre⟩
  blobs := fun id data hdata =>
    let ⟨a, ha, hid, hpre⟩ := h.blobs id data hdata
    ⟨a, hPQ a ha, hid, hpre⟩
  metaTmps := fun id token text htext =>
    let ⟨a, ha, hid, hpre⟩ := h.metaTmps id token text htext
    ⟨a, hPQ a ha, hid, hpre⟩
  blobTmps := fun id token data hdata =>
    let ⟨a, ha, hid, hpre⟩ := h.blobTmps id token data hdata
    ⟨a, hPQ a ha, hid, hpre⟩
  named := h.named

/-- A scan only removes temporary files. -/
theorem Backed.recover {st : FilePersistenceStore} (h : st.Backed P) (names : List Str) :
    (st.recover names).2.Backed P where
  metas := h.metas
  blobs := h.blobs
  metaTmps := fun _ _ _ hlook => nomatch hlook
  blobTmps := fun _ _ _ hlook => nomatch hlook
  named := h.named

/-- One operation. -/
theorem Backed.apply {st : FilePersistenceStore} (h : st.Backed P) {op : FileOp}
    (hop : op.Stores P) : (op.apply st).Backed P := by
  cases hop with
  | writeBlob a token data ha hdata =>
    refine ⟨h.metas, h.blobs, ?_, ?_, h.named⟩
    · intro id token' text hlook
      rcases lookup_insert_cases hlook with ⟨heq, -⟩ | hlook
      · exact absurd heq (metaTmp_ne_blobTmp _ _ _ _)
      · exact h.metaTmps id token' text hlook
    · intro id token' data' hlook
      rcases lookup_insert_cases hlook with ⟨heq, rfl⟩ | hlook
      · exact ⟨a, ha, (tmp_inj heq).symm, hdata⟩
      · exact h.blobTmps id token' data' hlook
  | writeMeta a token text ha htext =>
    refine ⟨h.metas, h.blobs, ?_, ?_, h.named⟩
    · intro id token' text' hlook
      rcases lookup_insert_cases hlook with ⟨heq, rfl⟩ | hlook
      · exact ⟨a, ha, (tmp_inj heq).symm, htext⟩
      · exact h.metaTmps id token' text' hlook
    · intro id token' data hlook
      rcases lookup_insert_cases hlook with ⟨heq, -⟩ | hlook
      · exact absurd heq.symm (metaTmp_ne_blobTmp _ _ _ _)
      · exact h.blobTmps id token' data hlook
  | installBlob a token ha =>
    -- what is renamed is a temporary blob, or nothing
    have hdata : ∃ a', P a' ∧ a'.id = a.id ∧
        (st.tmp.lookup (blobTmp a.id token)).getD [] <+: a'.bytes := by
      cases htmp : st.tmp.lookup (blobTmp a.id token) with
      | none => exact ⟨a, ha, rfl, List.nil_prefix⟩
      | some data => exact h.blobTmps a.id token data htmp
    refine ⟨?_, ?_, ?_, ?_, ?_⟩
    · intro id text hlook
      rcases lookup_insert_cases hlook with ⟨heq, -⟩ | hlook
      · exact absurd heq (metaName_ne_blobName _ _)
      · exact h.metas id text hlook
    · intro id data hlook
      rcases lookup_insert_cases hlook with ⟨heq, rfl⟩ | hlook
      · obtain ⟨a', ha', hid, hpre⟩ := hdata
        exact ⟨a', ha', hid.trans (blobName_inj heq).symm, hpre⟩
      · exact h.blobs id data hlook
    · exact fun id token' text hlook => h.metaTmps id token' text (lookup_of_lookup_erase hlook)
    · exact fun id token' data hlook => h.blobTmps id token' data (lookup_of_lookup_erase hlook)
    · intro name data hlook
      rcases lookup_insert_cases hlook with ⟨rfl, -⟩ | hlook
      · exact ⟨a.id, .inr rfl⟩
      · exact h.named name data hlook
  | installMeta a token ha =>
    have htext : ∃ a', P a' ∧ a'.id = a.id ∧
        (st.tmp.lookup (metaTmp a.id token)).getD [] <+: fullMeta a' := by
      cases htmp : st.tmp.lookup (metaTmp a.id token) with
      | none => exact ⟨a, ha, rfl, List.nil_prefix⟩
      | some text => exact h.metaTmps a.id token text htmp
    refine ⟨?_, ?_, ?_, ?_, ?_⟩
    · intro id text hlook
      rcases lookup_insert_cases hlook with ⟨heq, rfl⟩ | hlook
      · obtain ⟨a', ha', hid, hpre⟩ := htext
        exact ⟨a', ha', hid.trans (metaName_inj heq).symm, hpre⟩
      · exact h.metas id text hlook
    · intro id data hlook
      rcases lookup_insert_cases hlook with ⟨heq, -⟩ | hlook
      · exact absurd heq.symm (metaName_ne_blobName _ _)
      · exact h.blobs id data hlook
    · exact fun id token' text hlook => h.metaTmps id token' text (lookup_of_lookup_erase hlook)
    · exact fun id token' data hlook => h.blobTmps id token' data (lookup_of_lookup_erase hlook)
    · intro name data hlook
      rcases lookup_insert_cases hlook with ⟨rfl, -⟩ | hlook
      · exact ⟨a.id, .inl rfl⟩
      · exact h.named name data hlook
  | removeTmp tmpName =>
    refine ⟨h.metas, h.blobs, ?_, ?_, h.named⟩
    · exact fun id token' text hlook => h.metaTmps id token' text (lookup_of_lookup_erase hlook)
    · exact fun id token' data hlook => h.blobTmps id token' data (lookup_of_lookup_erase hlook)
  | removeFile name =>
    refine ⟨?_, ?_, h.metaTmps, h.blobTmps, ?_⟩
    · exact fun id text hlook => h.metas id text (lookup_of_lookup_erase hlook)
    · exact fun id data hlook => h.blobs id data (lookup_of_lookup_erase hlook)
    · exact fun name' data hlook => h.named name' data (lookup_of_lookup_erase hlook)

/-- Any number of them. -/
theorem Backed.applyOps {st : FilePersistenceStore} (h : st.Backed P) {ops : List FileOp}
    (hops : ∀ op ∈ ops, op.Stores P) : (applyOps ops st).Backed P := by
  induction ops generalizing st with
  | nil => exact h
  | cons op ops ih =>
    rw [List.forall_mem_cons] at hops
    exact ih (h.apply hops.1) hops.2

/-- A put of such an artifact, whatever fails in it. -/
theorem Backed.put {st : FilePersistenceStore} (h : st.Backed P) {a : StoredArtifact} (ha : P a)
    (faults : PutFaults) : (st.put faults a).2.Backed P := by
  rw [put_eq_ops]
  exact h.applyOps (putOps_stores ha faults)

end FilePersistenceStore

/-- After any history each file is a prefix of one that was put. -/
theorem History.backed {puts : List StoredArtifact} {st : FilePersistenceStore}
    (h : History puts st) : st.Backed (· ∈ puts) := by
  induction h with
  | empty => exact .empty
  | put faults a left _ hcut ih =>
    refine (ih.mono fun b hb => List.mem_cons_of_mem a hb).applyOps ?_
    exact hcut.stores (putOps_stores List.mem_cons_self faults)
  | recover names _ ih => exact ih.recover names

/-! ## A prefix of a metadata text -/

theorem Printable.of_part {part s : Str} (h : Printable s) (hpart : part <+: s) : Printable part :=
  fun c hc => h c (hpart.subset hc)

/-- The lines of a prefix: some of the lines, and perhaps a part of the next one. -/
theorem getlines_prefix {ls : List Str} (h : ∀ l ∈ ls, Printable l) {text : Str}
    (htext : text <+: ls.flatMap (· ++ [10])) :
    (∃ done rest, ls = done ++ rest ∧ getlines 10 [] text = done) ∨
    ∃ done l rest part, ls = done ++ l :: rest ∧ part <+: l ∧ part ≠ [] ∧
      getlines 10 [] text = done ++ [part] := by
  induction ls generalizing text with
  | nil =>
    rw [List.flatMap_nil, List.prefix_nil] at htext
    subst htext
    exact .inl ⟨[], [], rfl, rfl⟩
  | cons l ls ih =>
    rw [List.forall_mem_cons] at h
    rw [List.flatMap_cons] at htext
    -- the text ends inside the first line or behind it
    have hsplit : text <+: l ∨ (l ++ [10]) <+: text := by
      rcases List.prefix_or_prefix_of_prefix htext (List.prefix_append (l ++ [10]) _) with hle | hge
      · rcases List.prefix_concat_iff.mp hle with rfl | hle
        · exact .inr List.prefix_rfl
        · exact .inl hle
      · exact .inr hge
    rcases hsplit with hinside | ⟨text, rfl⟩
    · by_cases hnil : text = []
      · subst hnil
        exact .inl ⟨[], l :: ls, rfl, rfl⟩
      · refine .inr ⟨[], l, ls, text, rfl, hinside, hnil, ?_⟩
        exact getlines_last (h.1.of_part hinside).newline (by simpa using hnil)
    · have hrest : text <+: ls.flatMap (· ++ [10]) := (List.prefix_append_right_inj _).mp htext
      have hlines : getlines 10 [] (l ++ [10] ++ text) = l :: getlines 10 [] text := by
        rw [List.append_assoc, List.singleton_append, getlines_append h.1.newline, List.nil_append]
      rw [hlines]
      rcases ih h.2 hrest with ⟨done, rest, rfl, hdone⟩ | ⟨done, l', rest, part, rfl, hpart, hne, hdone⟩
      · exact .inl ⟨l :: done, rest, rfl, by rw [hdone]⟩
      · exact .inr ⟨l :: done, l', rest, part, rfl, hpart, hne, by rw [hdone]; rfl⟩

/-- A part of a line that is no `key=…` is none either. -/
theorem field?_prefix {key : String} {part l : Str} (hpart : part <+: l)
    (h : field? key l = none) : field? key part = none := by
  unfold field? at h ⊢
  split at h
  · cases h
  · rename_i hno
    rw [if_neg]
    intro hyes
    rw [List.isPrefixOf_iff_prefix] at hno hyes
    exact hno (hyes.trans hpart)

/-- Lines without a checksum line give no checksum. -/
theorem splitMeta_plain {ls : List Str} (h : ∀ l ∈ ls, Printable l ∧ field? "meta_sha256" l = none)
    (body : Str) (lines : List Str) (sha : Str) :
    splitMeta body lines sha ls = .ok (body ++ ls.flatMap (· ++ [10]), lines ++ ls, sha) := by
  have happ := splitMeta_append h body lines sha []
  rwa [List.append_nil] at happ

/-- A text without a checksum line is refused. -/
theorem parse_of_plain {text : Str} {ls : List Str} (hlines : getlines 10 [] text = ls)
    (h : ∀ l ∈ ls.tail, Printable l ∧ field? "meta_sha256" l = none) (blob : Option Bytes) :
    ∃ e, parseArtifactInner text blob = .error e := by
  unfold parseArtifactInner
  rw [hlines]
  cases ls with
  | nil => exact ⟨_, rfl⟩
  | cons first rest =>
    dsimp only
    split
    · exact ⟨_, rfl⟩
    · rw [List.tail_cons] at h
      rw [splitMeta_plain h]
      exact ⟨_, rfl⟩

/-- A strict part of the checksum line is no checksum line, or one that is too short. -/
theorem splitMeta_part {a : StoredArtifact} (ha : a.PrintableSha) {part : Str}
    (hpart : part <+: checksumLine a) (hne : part ≠ checksumLine a) :
    (∃ r, splitMeta (metaMagic ++ [10]) [] [] (metaLines a ++ [part]) = .ok r ∧ r.2.2 = []) ∨
      ∃ e, splitMeta (metaMagic ++ [10]) [] [] (metaLines a ++ [part]) = .error e := by
  have hprint := (checksumLine_printable a).of_part hpart
  rw [splitMeta_append (metaLines_plain ha)]
  cases hfield : field? "meta_sha256" part with
  | none =>
    left
    simp only [splitMeta, hprint.stripCR_eq, hfield]
    exact ⟨_, rfl, rfl⟩
  | some sha =>
    right
    -- the value of the whole line has 64 digits, so that of a strict part has fewer
    have hshort : sha.length ≠ 64 := by
      unfold field? at hfield
      split at hfield
      · cases hfield
        have hlt : part.length < (checksumLine a).length :=
          lt_of_le_of_ne hpart.length_le fun heq => hne (hpart.eq_of_length heq)
        have hwhole : (checksumLine a).length = 12 + 64 := by
          rw [checksumLine, fieldLine, List.length_append, toHex_length]
          rfl
        have hkey : "meta_sha256".length = 11 := by decide
        rw [List.length_drop, hkey]
        omega
      · cases hfield
    simp only [splitMeta, hprint.stripCR_eq, hfield, if_pos hshort]
    exact ⟨_, rfl⟩

/-- **A torn metadata text is refused.** The parser answers a prefix of the text with an error, or it
is the text but for the last line end. -/
theorem parse_prefix {a : StoredArtifact} (ha : a.PrintableSha) {text : Str}
    (htext : text <+: fullMeta a) (blob : Option Bytes) :
    parseArtifactInner text blob = parseArtifactInner (fullMeta a) blob ∨
      ∃ e, parseArtifactInner text blob = .error e := by
  have hmagic : Printable metaMagic := .of_all (by decide)
  have hprint : ∀ l ∈ metaMagic :: (metaLines a ++ [checksumLine a]), Printable l := by
    rw [List.forall_mem_cons, List.forall_mem_append, List.forall_mem_singleton]
    exact ⟨hmagic, fun l hl => (metaLines_plain ha l hl).1, checksumLine_printable a⟩
  have hwhole : ∀ lines, lines = metaMagic :: (metaLines a ++ [checksumLine a]) →
      getlines 10 [] text = lines →
      parseArtifactInner text blob = parseArtifactInner (fullMeta a) blob := by
    rintro lines rfl hlines
    unfold parseArtifactInner
    rw [hlines, fullMeta_eq, getlines_lines hprint]
  rw [fullMeta_eq] at htext
  rcases getlines_prefix hprint htext with ⟨done, rest, heq, hdone⟩ |
    ⟨done, l, rest, part, heq, hpart, hne, hdone⟩
  · rcases List.eq_nil_or_concat rest with rfl | ⟨rest, last, rfl⟩
    · rw [List.append_nil] at heq
      exact .inl (hwhole done heq.symm hdone)
    · -- the checksum line is not among the lines that are there
      rw [List.concat_eq_append, ← List.append_assoc, ← List.cons_append] at heq
      have hfront := (List.append_inj' heq rfl).1
      refine .inr (parse_of_plain hdone ?_ blob)
      intro l hl
      cases done with
      | nil => cases hl
      | cons first done =>
        rw [List.cons_append, List.cons.injEq] at hfront
        refine metaLines_plain ha l ?_
        rw [hfront.2]
        exact List.mem_append_left _ hl
  · rcases List.eq_nil_or_concat rest with rfl | ⟨rest, last, rfl⟩
    · -- the last line that is there is a part of the checksum line
      rw [← List.cons_append] at heq
      obtain ⟨hfront, hlast⟩ := List.append_inj' heq rfl
      obtain rfl : checksumLine a = l := by simpa using hlast
      subst hfront
      by_cases hall : part = checksumLine a
      · subst hall
        exact .inl (hwhole _ rfl hdone)
      · right
        unfold parseArtifactInner
        rw [hdone, List.cons_append]
        simp only [hmagic.stripCR_eq, ne_eq, not_true_eq_false, if_false]
        rcases splitMeta_part ha hpart hall with ⟨r, hsplit, hnone⟩ | ⟨e, hsplit⟩
        · rw [hsplit]
          obtain ⟨body, lines, sha⟩ := r
          obtain rfl : sha = [] := hnone
          exact ⟨_, rfl⟩
        · rw [hsplit]
          exact ⟨e, rfl⟩
    · rw [List.concat_eq_append, ← List.cons_append, ← List.cons_append, ← List.append_assoc] at heq
      have hfront := (List.append_inj' heq rfl).1
      refine .inr (parse_of_plain hdone ?_ blob)
      intro l' hl'
      cases done with
      | nil => cases hl'
      | cons first done =>
        rw [List.cons_append, List.cons.injEq] at hfront
        rw [List.cons_append, List.tail_cons] at hl'
        rcases List.mem_append.mp hl' with hl' | hl'
        · refine metaLines_plain ha l' ?_
          rw [hfront.2]
          exact List.mem_append_left _ hl'
        · have hplain := metaLines_plain ha l (by
            rw [hfront.2]
            exact List.mem_append_right _ List.mem_cons_self)
          rw [List.mem_singleton.mp hl']
          exact ⟨hplain.1.of_part hpart, field?_prefix hpart hplain.2⟩

/-! ## What a later read accepts -/

namespace FilePersistenceStore

variable {st : FilePersistenceStore}

/-- The two files of an id, read together: the text is that of an artifact, the blob a prefix of the
bytes of one, and the checksum in the text is that of the blob. -/
theorem Backed.read (h : st.Backed P) (hvalid : ∀ a, P a → a.Valid)
    (hsized : ∀ a, P a → a.key.toKeyFields.Sized) {id : ArtifactId} {b : StoredArtifact}
    (hparse : parseArtifactInner ((st.artifacts.lookup (metaName id)).getD [])
      (st.artifacts.lookup (blobName id)) = .ok b) :
    ∃ a a', P a ∧ P a' ∧ b.bytes <+: a'.bytes ∧
      Sha256.digest b.bytes = Sha256.digest a.bytes ∧ b = { a.readBack with bytes := b.bytes } := by
  cases hmeta : st.artifacts.lookup (metaName id) with
  | none =>
    rw [hmeta] at hparse
    cases hparse
  | some text =>
    rw [hmeta, Option.getD_some] at hparse
    obtain ⟨a, ha, -, htext⟩ := h.metas id text hmeta
    rcases parse_prefix (hvalid a ha).printableSha htext (st.artifacts.lookup (blobName id)) with
      hsame | ⟨e, herr⟩
    · rw [hsame, parse_fullMeta_ok_iff (hvalid a ha) (hsized a ha)] at hparse
      obtain ⟨bytes, hblob, -, -, hdigest, rfl⟩ := hparse
      obtain ⟨a', ha', -, hpre⟩ := h.blobs id bytes hblob
      exact ⟨a, a', ha, ha', hpre, hdigest, rfl⟩
    · rw [herr] at hparse
      cases hparse

/-- What `recover` takes from a directory entry are the two files of an id. -/
theorem Backed.accepted (h : st.Backed P) {name : Str} {b : StoredArtifact}
    (hacc : st.accepted name = some b) :
    ∃ id, parseArtifactInner ((st.artifacts.lookup (metaName id)).getD [])
      (st.artifacts.lookup (blobName id)) = .ok b := by
  cases hlook : st.artifacts.lookup name with
  | none =>
    rw [accepted_of_notMem (AList.lookup_eq_none.mp hlook)] at hacc
    cases hacc
  | some data =>
    obtain ⟨id, rfl | rfl⟩ := h.named name data hlook
    · rw [accepted_metaName] at hacc
      split at hacc
      · cases hacc
      · refine ⟨id, ?_⟩
        cases hparse : parseArtifactInner ((st.artifacts.lookup (metaName id)).getD [])
            (st.artifacts.lookup (blobName id)) with
        | error e =>
          rw [hparse] at hacc
          cases hacc
        | ok b' =>
          rw [hparse] at hacc
          cases hacc
          rfl
    · rw [accepted_blobName] at hacc
      cases hacc

end FilePersistenceStore

/-- **No torn artifact is accepted.** After any number of puts of valid artifacts on a root that was
empty, each of them with any faults and cut short anywhere, an artifact that `recover` or `get` returns
is one that was put, provided no two prefixes of the bytes that were put have the same SHA-256. -/
theorem no_torn_artifact {puts : List StoredArtifact} {st : FilePersistenceStore}
    (h : History puts st) (hvalid : ∀ a ∈ puts, a.Valid)
    (hsized : ∀ a ∈ puts, a.key.toKeyFields.Sized)
    (hsha : Set.InjOn Sha256.digest {x | ∃ a ∈ puts, x <+: a.bytes}) :
    (∀ names, ∀ b ∈ (st.recover names).1.1, ∃ a ∈ puts, b.SameStored a) ∧
    ∀ id b, st.get id = .ok b → ∃ a ∈ puts, b.SameStored a := by
  have hread : ∀ id b, parseArtifactInner ((st.artifacts.lookup (metaName id)).getD [])
      (st.artifacts.lookup (blobName id)) = .ok b → ∃ a ∈ puts, b.SameStored a := by
    intro id b hparse
    obtain ⟨a, a', ha, ha', hpre, hdigest, hb⟩ := h.backed.read hvalid hsized hparse
    have hbytes : b.bytes = a.bytes := hsha ⟨a', ha', hpre⟩ ⟨a, ha, List.prefix_rfl⟩ hdigest
    rw [hbytes] at hb
    refine ⟨a, ha, ?_⟩
    rw [hb]
    exact (hvalid a ha).reread_sameStored
  constructor
  · intro names b hb
    have hscan : b ∈ (st.scan names).1 := hb
    rw [FilePersistenceStore.scan_eq] at hscan
    obtain ⟨name, -, hacc⟩ := List.mem_filterMap.mp hscan
    obtain ⟨id, hparse⟩ := h.backed.accepted hacc
    exact hread id b hparse
  · intro id b hget
    unfold FilePersistenceStore.get at hget
    dsimp only at hget
    split at hget
    · cases hget
    · exact hread id b hget

/-- A whole put, and then one of other bytes that stops with half of its blob in place. -/
theorem no_torn_artifact_sample :
    let st := applyOps ((putOps {} (storedSample [1, 2])).take 2)
      (({} : FilePersistenceStore).put {} (storedSample [1])).2
    (∀ names, ∀ b ∈ (st.recover names).1.1,
      ∃ a ∈ [storedSample [1, 2], storedSample [1]], b.SameStored a) ∧
    ∀ id b, st.get id = .ok b → ∃ a ∈ [storedSample [1, 2], storedSample [1]], b.SameStored a := by
  have hfirst : History [storedSample [1]] (({} : FilePersistenceStore).put {} (storedSample [1])).2 :=
    History.empty.whole _ _
  refine no_torn_artifact (hfirst.put {} _ _ ⟨_, List.take_prefix 2 _, ?_⟩) ?_ ?_ ?_
  · exact List.forall₂_same.mpr fun op _ => .whole op
  · simp only [List.forall_mem_cons, List.not_mem_nil, false_imp_iff, implies_true, and_true]
    exact ⟨storedSample_valid (by decide), storedSample_valid (by decide)⟩
  · simp only [List.forall_mem_cons, List.not_mem_nil, false_imp_iff, implies_true, and_true]
    exact ⟨storedSample_sized _, storedSample_sized _⟩
  · have hcases : ∀ x ∈ {x : Bytes | ∃ a ∈ [storedSample [1, 2], storedSample [1]], x <+: a.bytes},
        x = [] ∨ x = [1] ∨ x = [1, 2] := by
      rintro x ⟨a, ha, hx⟩
      have hlong : x <+: [1, 2] := by
        simp only [List.mem_cons, List.not_mem_nil, or_false] at ha
        rcases ha with rfl | rfl
        · exact hx
        · exact hx.trans (List.prefix_append [1] [2])
      rcases List.prefix_cons_iff.mp hlong with rfl | ⟨t, rfl, ht⟩
      · exact .inl rfl
      · right
        simpa [List.prefix_cons_iff] using ht
    have hzero : Sha256.digest [] ≠ Sha256.digest [1] := by decide +kernel
    have hone : Sha256.digest [1] ≠ Sha256.digest [1, 2] := by decide +kernel
    have htwo : Sha256.digest [] ≠ Sha256.digest [1, 2] := by decide +kernel
    intro x hx y hy heq
    rcases hcases x hx with rfl | rfl | rfl <;> rcases hcases y hy with rfl | rfl | rfl <;>
      first | rfl | exact absurd heq (by assumption) | exact absurd heq.symm (by assumption)

/-! ## A list that is too long -/

/-- A key whose shape has `n` extents. -/
def longShape (n : Nat) : KeyFields := { shape := List.replicate n 0x0101010101010101 }

/-- Each extent reads as four version fields. -/
theorem extents_write (n : Nat) :
    (List.replicate n (0x0101010101010101 : Int64)).flatMap CanonicalWriter.i64 =
      (List.replicate (4 * n) (KeyField.version 1)).flatMap KeyField.write := by
  induction n with
  | zero => rfl
  | succ n ih =>
    have hextent : CanonicalWriter.i64 0x0101010101010101 =
        KeyField.write (.version 1) ++ KeyField.write (.version 1) ++ KeyField.write (.version 1) ++
          KeyField.write (.version 1) := by decide
    have hfour : 4 * (n + 1) = 4 * n + 1 + 1 + 1 + 1 := by omega
    rw [List.replicate_succ, List.flatMap_cons, ih, hfour, List.replicate_succ, List.replicate_succ,
      List.replicate_succ, List.replicate_succ, hextent]
    simp only [List.flatMap_cons, List.append_assoc]

/-- A count that is a multiple of `2 ^ 32` is written as zero. -/
theorem shape_write {n : Nat} (hn : n % 2 ^ 32 = 0) :
    KeyField.write (.shape (List.replicate n 0x0101010101010101)) =
      KeyField.write (.shape []) ++ (List.replicate (4 * n) (KeyField.version 1)).flatMap
        KeyField.write := by
  have hcount : beBytes 4 n = beBytes 4 0 := by
    have hbyte : ∀ k, k ≤ 3 → UInt8.ofNat (n / 256 ^ k) = UInt8.ofNat (0 / 256 ^ k) := by
      intro k hk
      apply UInt8.toNat_inj.mp
      rw [UInt8.toNat_ofNat', UInt8.toNat_ofNat', Nat.zero_div]
      obtain rfl | rfl | rfl | rfl : k = 0 ∨ k = 1 ∨ k = 2 ∨ k = 3 := by omega
      all_goals omega
    simp only [beBytes, hbyte 3 (by decide), hbyte 2 (by decide), hbyte 1 (by decide),
      hbyte 0 (by decide)]
  rw [← extents_write]
  show _ :: (beBytes 4 (List.replicate n _).length ++ _) = _ :: (beBytes 4 0 ++ []) ++ _
  rw [List.length_replicate, hcount, List.append_nil]
  rfl

theorem foldl_store_versions (n : Nat) (k : KeyFields) :
    (List.replicate n (KeyField.version 1)).foldl KeyField.store k = k := by
  induction n with
  | zero => rfl
  | succ n ih =>
    rw [List.replicate_succ, List.foldl_cons]
    exact ih

/-- Its encoding decodes to the key with no extents. -/
theorem decode_longShape {n : Nat} (hn : n % 2 ^ 32 = 0) :
    KernelCompatibilityKey.decode (longShape n).encode.length {} (longShape n).encode = .ok {} := by
  let before := ({} : KeyFields).fields.take 17
  let after := ({} : KeyFields).fields.drop 17
  refine KernelCompatibilityKey.decode_ok_iff.mpr
    ⟨before ++ (List.replicate (4 * n) (.version 1) ++ after), ?_, ?_, ?_⟩
  · intro f hf
    rcases List.mem_append.mp hf with hf | hf
    · exact KeyFields.empty_sized f (List.mem_of_mem_take hf)
    · rcases List.mem_append.mp hf with hf | hf
      · rw [List.eq_of_mem_replicate hf]
        trivial
      · exact KeyFields.empty_sized f (List.mem_of_mem_drop hf)
  · have hfields : (longShape n).fields = ({} : KeyFields).fields.take 16 ++
        (.shape (List.replicate n 0x0101010101010101) :: after) := rfl
    have hbefore : before = ({} : KeyFields).fields.take 16 ++ [.shape []] := rfl
    rw [KeyFields.encode_eq_write, hfields, hbefore, List.flatMap_append, List.flatMap_cons,
      shape_write hn, List.flatMap_append, List.flatMap_append, List.flatMap_append,
      List.flatMap_singleton]
    simp only [List.append_assoc]
  · rw [List.foldl_append, List.foldl_append, foldl_store_versions, ← List.foldl_append,
      List.take_append_drop, KeyFields.foldl_store_fields]

/-- A valid artifact under such a key. -/
def longSample (n : Nat) : StoredArtifact :=
  { storedSample [1] with key := (KernelCompatibilityKey.ofFields (longShape n)).finalize }

theorem longShape_wellFormed (n : Nat) : (longShape n).wellFormed = true := by
  simp [KeyFields.wellFormed, KeyFields.fitsRank, longShape]

theorem longSample_valid (n : Nat) : (longSample n).Valid where
  final := ⟨(KernelCompatibilityKey.finalize_finalized _).trans (longShape_wellFormed n),
    KernelCompatibilityKey.finalize_finalize _⟩
  length := rfl
  checksum := rfl

theorem longSample_canonical (n : Nat) :
    (longSample n).key.canonical = (longShape n).sorted.encode := by
  show (KernelCompatibilityKey.ofFields (longShape n)).finalize.canonical = _
  rw [KernelCompatibilityKey.finalize_of_wellFormed
    (k := KernelCompatibilityKey.ofFields (longShape n)) (longShape_wellFormed n)]
  rfl

/-- Its files are accepted, with the extents gone. -/
theorem parse_longSample {n : Nat} (hn : n % 2 ^ 32 = 0) :
    parseArtifactInner (fullMeta (longSample n)) (some [1]) =
      .ok { (longSample n).reread with key := (KernelCompatibilityKey.ofFields {}).finalize } := by
  have hkey : KernelCompatibilityKey.fromCanonical (longSample n).key.canonical =
      .ok (KernelCompatibilityKey.ofFields {}).finalize := by
    rw [longSample_canonical]
    have hsorted : (longShape n).sorted = longShape n := rfl
    rw [hsorted]
    exact KernelCompatibilityKey.fromCanonical_ok_iff.mpr ⟨{}, decode_longShape hn, by decide, rfl⟩
  have hvalid := longSample_valid n
  rw [parseArtifactInner_fullMeta hvalid.printableSha,
    parseLines_metaLines_key (fun s _ => b64DecodeLoop_b64encode 0 [] s) hvalid.canonical_ne_nil, hkey]
  refine checkBlob_ok_iff.mpr ⟨[1], rfl, by simp, rfl, .inr ?_, rfl⟩
  show (longSample n).readBack.sha256Hex.getD [] = _
  rw [hvalid.readBack_sha]
  rfl

theorem longSample_lost {n : Nat} (hn : n % 2 ^ 32 = 0) (hpos : 0 < n) {b : StoredArtifact}
    (hb : parseArtifactInner (fullMeta (longSample n)) (some [1]) = .ok b) :
    ¬ b.SameStored (longSample n) := by
  intro hsame
  rw [parse_longSample hn] at hb
  cases hb
  have hkey := congrArg (fun k : KernelCompatibilityKey => k.toKeyFields.shape.length) hsame.key
  simp only [longSample, KernelCompatibilityKey.finalize_toKeyFields] at hkey
  have hlen : (longShape n).sorted.shape.length = n := List.length_replicate
  have hzero : ({} : KeyFields).sorted.shape.length = 0 := rfl
  exact absurd (hlen.symm.trans (hkey.symm.trans hzero)) (by omega)

/-- **A key that is too long is lost.** Without the bound on its lists `finalize()` still accepts the
key of `2 ^ 32` extents, and a whole put of it is read back under another key. -/
theorem overlong_key_lost :
    ¬ ∀ puts st, History puts st → (∀ a ∈ puts, a.Valid) →
      Set.InjOn Sha256.digest {x | ∃ a ∈ puts, x <+: a.bytes} →
      (∀ names, ∀ b ∈ (st.recover names).1.1, ∃ a ∈ puts, b.SameStored a) ∧
      ∀ id b, st.get id = .ok b → ∃ a ∈ puts, b.SameStored a := by
  intro hclaim
  obtain ⟨n, hmod, hpos⟩ : ∃ n : Nat, n % 2 ^ 32 = 0 ∧ 0 < n := ⟨2 ^ 32, by decide, by decide⟩
  have hhistory : History [longSample n] (({} : FilePersistenceStore).put {} (longSample n)).2 :=
    History.empty.whole _ _
  obtain ⟨-, hget⟩ := hclaim _ _ hhistory (by
    simp only [List.forall_mem_cons, List.not_mem_nil, false_imp_iff, implies_true, and_true]
    exact longSample_valid n) (by
    intro x hx y hy heq
    have hcases : ∀ z ∈ {x : Bytes | ∃ a ∈ [longSample n], x <+: a.bytes}, z = [] ∨ z = [1] := by
      rintro z ⟨a, ha, hz⟩
      obtain rfl : a = longSample n := by simpa using ha
      have hone : z <+: [1] := hz
      simpa [List.prefix_cons_iff] using hone
    have hdigest : Sha256.digest [] ≠ Sha256.digest [1] := by decide +kernel
    rcases hcases x hx with rfl | rfl <;> rcases hcases y hy with rfl | rfl
    · rfl
    · exact absurd heq hdigest
    · exact absurd heq.symm hdigest
    · rfl)
  -- both files of the put are in place
  have hfiles : (({} : FilePersistenceStore).put {} (longSample n)).2.artifacts =
      ((({} : FilePersistenceStore).artifacts.insert (blobName (longSample n).id) [1]).insert
        (metaName (longSample n).id) (fullMeta (longSample n))) := by
    have hsteps := put_eq_steps [] (longSample n) {}
    rw [show (({ token := [] } : PutFaults)) = {} from rfl] at hsteps
    rw [hsteps]
    exact applySteps_putSteps_artifacts [] (longSample n) {}
  have hparse := parse_longSample hmod
  obtain ⟨a, ha, hsame⟩ := hget (longSample n).id _ (by
    unfold FilePersistenceStore.get
    rw [hfiles, AList.lookup_insert, AList.lookup_insert_ne (Ne.symm (metaName_ne_blobName _ _)),
      AList.lookup_insert, Option.getD_some, if_neg]
    · exact hparse
    · simpa using fullMeta_ne_nil (longSample n))
  obtain rfl : a = longSample n := by simpa using ha
  exact longSample_lost hmod hpos hparse hsame

end KernelCache
