/-
# KernelCache.StoreMap — the store over the lives of its processes, as a map (`persistence.cpp`).

`FilePersistenceStore` is opened on a root, and a later process opens the same root again.  `StoreObject`
is one object of the class with its root on the disk, `StoreCall` a call of any of its functions, or a
new process on the root.

What the store is for is said by `StoreSpec`: a map from ids to artifacts that outlives the processes.
`store_is_map` is the refinement, for every sequence of calls with artifacts that can be read back
(`StoredArtifact.Storable`), on a disk that does what it is asked.  The map holds what is persisted of
an artifact (`StoredArtifact.reread`).

The marker file `KC-FORMAT` is written in place, not renamed into place.  A marker that is cut short
shuts the root for good (`cut_marker_shuts_root`).
-/
import KernelCache.Foundation.Simulation
import KernelCache.PutResult
import KernelCache.TornWrites

namespace KernelCache

open Foundation (Bytes Simulates answers behind)
open FilePersistenceStore (fullMeta)

/-! ## `open`, `remove`, `list` -/

/-- `kFormatMagic`. -/
def kFormatMagic : Str := str "KC-PERSIST-1"

/-- A root directory. -/
structure Root where
  /-- The file `KC-FORMAT`. -/
  format : Option Bytes := none
  files : FilePersistenceStore := {}

/-- Which operations of one `open` fail. -/
structure OpenFaults where
  /-- `create_directories(root)` fails, with this `ec.message()`. -/
  createRoot : Option Str := none
  /-- The marker cannot be opened for writing. -/
  openMarker : Bool := false
  /-- `write_file` fails with this much of the marker in the file. -/
  writeMarker : Option Nat := none
  /-- The marker cannot be opened for reading. -/
  unreadable : Bool := false

namespace FilePersistenceStore

/-- `while (!cur.empty() && (cur.back() == '\n' || cur.back() == '\r')) cur.pop_back();`. -/
def stripLineEnds (s : Str) : Str := (s.reverse.dropWhile fun c => c == 10 || c == 13).reverse

/-- `open`, behind the check of the name of the root. -/
def openRoot (faults : OpenFaults) (root : Root) : Result Unit × Root :=
  match faults.createRoot with
  | some message => (fail .ioError (str "cannot create root: " ++ message), root)
  | none =>
    match root.format with
    | none =>
      if faults.openMarker then (fail .ioError (str "cannot write format marker"), root)
      else
        match faults.writeMarker with
        | some n =>
          (fail .ioError (str "cannot write format marker"),
            { root with format := some (kFormatMagic.take n) })
        | none => (.ok (), { root with format := some kFormatMagic })
    | some text =>
      let cur := stripLineEnds (if faults.unreadable then [] else text)
      if cur ≠ kFormatMagic then
        (fail .unknownMetadataVersion (str "unknown persistence format"), root)
      else (.ok (), root)

/-- `remove`. -/
def remove (id : ArtifactId) (st : FilePersistenceStore) : FilePersistenceStore :=
  { st with artifacts := (st.artifacts.erase (metaName id)).erase (blobName id) }

/-- The id of a directory entry that `list` reports. -/
def listed (name : Str) : Option ArtifactId :=
  match metaStem? name with
  | none => none
  | some stem =>
    match StrongId128.parse stem with
    | .ok id => some ⟨id⟩
    | .error _ => none

/-- `list`.  `names` is the directory in the order the iterator yields it. -/
def list (names : List Str) : List ArtifactId := names.filterMap listed

end FilePersistenceStore

/-! ## The object and its calls -/

/-- What the operating system does in the calls of a root, the first, the second and so on. -/
structure Disk where
  opens : Nat → OpenFaults := fun _ => {}
  puts : Nat → PutFaults := fun _ => {}
  order : Nat → List Str → List Str := fun _ names => names

/-- A `FilePersistenceStore` and its root.  `root_` is empty before `open` has succeeded. -/
structure StoreObject where
  root : Root := {}
  opened : Bool := false
  /-- Calls made so far. -/
  calls : Nat := 0

inductive StoreCall where
  | open
  | put (a : StoredArtifact)
  | get (id : ArtifactId)
  | remove (id : ArtifactId)
  | list
  | recover
  | close
  /-- The process ends, another one makes an object of its own. -/
  | restart

inductive StoreReply where
  | done (res : Result Unit)
  | artifact (res : Result StoredArtifact)
  | ids (ids : List ArtifactId)
  | recovered (res : Result (List StoredArtifact × List Str × List Str))

namespace StoreObject

/-- "store not open". -/
def notOpen {α : Type} : Result α := fail .invalidArgument (str "store not open")

/-- The files of the root after a call. -/
def withFiles (o : StoreObject) (files : FilePersistenceStore) : StoreObject :=
  { o with root := { o.root with files := files } }

/-- One call. -/
def call (disk : Disk) (c : StoreCall) (o : StoreObject) : StoreReply × StoreObject :=
  let files := o.root.files
  let names := disk.order o.calls files.artifacts.keys
  let (reply, o') : StoreReply × StoreObject :=
    match c with
    | .open =>
      let (res, root) := FilePersistenceStore.openRoot (disk.opens o.calls) o.root
      (.done res, { o with root := root, opened := o.opened || res.isOk })
    | .put a =>
      if !o.opened then (.done notOpen, o)
      else
        let (res, files) := files.put (disk.puts o.calls) a
        (.done res, o.withFiles files)
    | .get id => (.artifact (if !o.opened then notOpen else files.get id), o)
    | .remove id =>
      if !o.opened then (.done notOpen, o)
      else (.done (.ok ()), o.withFiles (files.remove id))
    | .list => (.ids (if !o.opened then [] else FilePersistenceStore.list names), o)
    | .recover =>
      if !o.opened then (.recovered notOpen, o)
      else
        let (found, files) := files.recover names
        (.recovered (.ok found), o.withFiles files)
    | .close => (.done (.ok ()), o)
    | .restart => (.done (.ok ()), { o with opened := false })
  (reply, { o' with calls := o.calls + 1 })

end StoreObject

/-! ## What the store is for -/

/-- The artifacts that are stored, by id, and whether this process has opened the root. -/
structure StoreSpec where
  held : Map ArtifactId StoredArtifact := ∅
  opened : Bool := false

namespace StoreSpec

def artifacts (m : StoreSpec) : List StoredArtifact := m.held.keys.filterMap m.held.lookup

/-- One call. -/
def call (c : StoreCall) (m : StoreSpec) : StoreReply × StoreSpec :=
  match c with
  | .open => (.done (.ok ()), { m with opened := true })
  | .put a =>
    if !m.opened then (.done StoreObject.notOpen, m)
    else (.done (.ok ()), { m with held := m.held.insert a.id a.reread })
  | .get id =>
    (.artifact (if !m.opened then StoreObject.notOpen
      else ((m.held.lookup id).map Except.ok).getD (fail .notFound (str "meta missing"))), m)
  | .remove id =>
    if !m.opened then (.done StoreObject.notOpen, m)
    else (.done (.ok ()), { m with held := m.held.erase id })
  | .list => (.ids (if !m.opened then [] else m.held.keys), m)
  | .recover =>
    (.recovered (if !m.opened then StoreObject.notOpen else .ok (m.artifacts, [], [])), m)
  | .close => (.done (.ok ()), m)
  | .restart => (.done (.ok ()), { m with opened := false })

end StoreSpec

/-- The same reply, whatever the order in which a directory was read. -/
inductive StoreReply.Alike : StoreReply → StoreReply → Prop
  | same (r : StoreReply) : Alike r r
  | ids {l l' : List ArtifactId} : l.Perm l' → Alike (.ids l) (.ids l')
  | recovered {l l' : List StoredArtifact} {rejected orphans : List Str} : l.Perm l' →
      Alike (.recovered (.ok (l, rejected, orphans))) (.recovered (.ok (l', rejected, orphans)))

/-- The calls the map answers for. -/
def StoreCall.Proper : StoreCall → Prop
  | .put a => a.Storable
  | _ => True

/-- A disk on which everything comes off in the end, and every byte arrives. -/
structure Disk.Sound (disk : Disk) : Prop where
  opens : ∀ n, (disk.opens n).createRoot = none ∧ (disk.opens n).openMarker = false ∧
    (disk.opens n).writeMarker = none ∧ (disk.opens n).unreadable = false
  puts : ∀ n, (disk.puts n).clear = true ∧ (disk.puts n).blobWritten = none
  order : ∀ n names, (disk.order n names).Perm names

/-! ## The files stand for the map -/

/-- The two files of an id, as the map has it: both are those of a stored artifact, or there is no
metadata. -/
def FilePersistenceStore.Stands (st : FilePersistenceStore) (id : ArtifactId) :
    Option StoredArtifact → Prop
  | none => st.artifacts.lookup (metaName id) = none
  | some b => ∃ a : StoredArtifact, a.Storable ∧ a.id = id ∧ b = a.reread ∧
      st.artifacts.lookup (metaName id) = some (fullMeta a) ∧
      st.artifacts.lookup (blobName id) = some a.bytes

/-- The object and the map agree. -/
structure StoreObject.Mirrors (o : StoreObject) (m : StoreSpec) : Prop where
  opened : o.opened = m.opened
  format : ∀ text, o.root.format = some text →
    FilePersistenceStore.stripLineEnds text = kFormatMagic
  tmp : o.root.files.tmp.keys = []
  named : ∀ name ∈ o.root.files.artifacts.keys, ∃ id, name = metaName id ∨ name = blobName id
  stands : ∀ id, o.root.files.Stands id (m.held.lookup id)

namespace FilePersistenceStore

variable {st : FilePersistenceStore} {id : ArtifactId}

/-- `get` answers with the entry of the map. -/
theorem Stands.get {found : Option StoredArtifact} (h : st.Stands id found) :
    st.get id = (found.map Except.ok).getD (fail .notFound (str "meta missing")) := by
  rw [get_eq]
  unfold readFiles
  cases found with
  | none =>
    rw [show st.artifacts.lookup (metaName id) = none from h]
    rfl
  | some b =>
    obtain ⟨a, ha, -, rfl, hmeta, hblob⟩ := h
    rw [hmeta, hblob, Option.getD_some, if_neg (by simpa using fullMeta_ne_nil a)]
    exact parse_fullMeta_reread ha.toValid ha.sized ha.nonempty

/-- So does the scan of `recover`, at the metadata file. -/
theorem Stands.accepted {found : Option StoredArtifact} (h : st.Stands id found) :
    st.accepted (metaName id) = found := by
  rw [accepted_metaName]
  cases found with
  | none =>
    rw [show st.artifacts.lookup (metaName id) = none from h]
    rfl
  | some b =>
    obtain ⟨a, ha, -, rfl, hmeta, hblob⟩ := h
    rw [hmeta, hblob, Option.getD_some, if_neg (by simpa using fullMeta_ne_nil a),
      parse_fullMeta_reread ha.toValid ha.sized ha.nonempty]
    rfl

/-- The files of an id in two stores that agree on them. -/
theorem Stands.congr {st' : FilePersistenceStore} {found : Option StoredArtifact}
    (h : st.Stands id found)
    (hmeta : st'.artifacts.lookup (metaName id) = st.artifacts.lookup (metaName id))
    (hblob : st'.artifacts.lookup (blobName id) = st.artifacts.lookup (blobName id)) :
    st'.Stands id found := by
  cases found with
  | none => exact hmeta.trans h
  | some b =>
    obtain ⟨a, ha, hid, hb, hm, hd⟩ := h
    exact ⟨a, ha, hid, hb, hmeta.trans hm, hblob.trans hd⟩

@[simp] theorem listed_metaName (id : ArtifactId) : listed (metaName id) = some id := by
  unfold listed
  rw [metaStem?_metaName]
  simp only [StrongId128.parse_str]

@[simp] theorem listed_blobName (id : ArtifactId) : listed (blobName id) = none := by
  unfold listed
  rw [metaStem?_blobName]

/-- An entry whose id is reported is the metadata file of the id, where all files are files of ids. -/
theorem listed_eq_some {name : Str} (h : ∃ id, name = metaName id ∨ name = blobName id) :
    listed name = some id ↔ name = metaName id := by
  obtain ⟨id', rfl | rfl⟩ := h
  · rw [listed_metaName]
    exact ⟨fun h => congrArg metaName (Option.some.inj h), fun h => by rw [metaName_inj h]⟩
  · rw [listed_blobName]
    exact iff_of_false (fun h => by cases h) (blob_ne_meta _ _)

/-! ### What `put` and `remove` leave -/

/-- An installation that succeeds takes the temporary file away. -/
theorem install_tmp {tmpName name : Str} {failFirst failRemove failAgain : Bool}
    {st' : FilePersistenceStore}
    (h : st.install tmpName name failFirst failRemove failAgain = (true, st')) :
    st'.tmp = st.tmp.erase tmpName := by
  unfold install rename at h
  cases failFirst <;> cases failRemove <;> cases failAgain <;> cases h <;> rfl

/-- A put that succeeds leaves no temporary file behind. -/
theorem put_tmp {faults : PutFaults} (hclear : faults.clear = true) (a : StoredArtifact)
    (h : st.tmp.keys = []) : (st.put faults a).2.tmp.keys = [] := by
  have hempty : ∀ name, name ∉ st.tmp := fun name hname => by
    have hkeys := AList.mem_keys.mp hname
    rw [h] at hkeys
    cases hkeys
  simp only [PutFaults.clear, Bool.and_eq_true, Bool.not_eq_true', Option.isNone_iff_eq_none]
    at hclear
  obtain ⟨⟨⟨hopen, hfirst⟩, hwrite⟩, hsecond⟩ := hclear
  simp only [put, hopen, hwrite, Bool.false_eq_true, if_false]
  generalize hbt : a.id.toStrongId128.str ++ str ".blob.tmp." ++ faults.token = btmp
  generalize hmt : a.id.toStrongId128.str ++ str ".meta.tmp." ++ faults.token = mtmp
  generalize hw : ({ st with tmp := _ } : FilePersistenceStore) = written
  have hok := written.install_fst btmp (blobName a.id) faults.renameBlob faults.removeBlob
    faults.renameBlobAgain
  rcases hinstall : written.install btmp (blobName a.id) faults.renameBlob faults.removeBlob
    faults.renameBlobAgain with ⟨ok, st₁⟩
  rw [hinstall, hfirst] at hok
  cases hok
  have htmp₁ := install_tmp hinstall
  dsimp only
  have hok := ({ st₁ with tmp := st₁.tmp.insert mtmp (fullMeta a) } :
    FilePersistenceStore).install_fst mtmp (metaName a.id) faults.renameMeta faults.removeMeta
    faults.renameMetaAgain
  rcases hinstall₂ : ({ st₁ with tmp := st₁.tmp.insert mtmp (fullMeta a) } :
    FilePersistenceStore).install mtmp (metaName a.id) faults.renameMeta faults.removeMeta
    faults.renameMetaAgain with ⟨ok, st₂⟩
  rw [hinstall₂, hsecond] at hok
  cases hok
  have htmp₂ := install_tmp hinstall₂
  refine List.eq_nil_iff_forall_not_mem.mpr fun name hname => ?_
  have hmem := AList.mem_keys.mpr hname
  dsimp only at hmem
  rw [htmp₂, htmp₁, ← hw] at hmem
  simp only [AList.mem_erase, AList.mem_insert] at hmem
  tauto

/-- The files of the artifact that was put, and those of the others. -/
theorem Stands.put {held : Map ArtifactId StoredArtifact}
    (h : ∀ id, st.Stands id (held.lookup id)) {faults : PutFaults} (hclear : faults.clear = true)
    (hwhole : faults.blobWritten = none) {a : StoredArtifact} (ha : a.Storable) (id : ArtifactId) :
    (st.put faults a).2.Stands id ((held.insert a.id a.reread).lookup id) := by
  by_cases hid : id = a.id
  · subst hid
    rw [AList.lookup_insert]
    obtain ⟨-, hblob, hmeta⟩ := put_files faults a st
    simp only [PutFaults.clear, Bool.and_eq_true, Bool.not_eq_true', Option.isNone_iff_eq_none]
      at hclear
    obtain ⟨⟨⟨hopen, hfirst⟩, hwrite⟩, hsecond⟩ := hclear
    have hwritten : faults.written a = a.bytes := by
      rw [PutFaults.written, hwhole, Option.getD_none, List.take_length]
    refine ⟨a, ha, rfl, rfl, ?_, ?_⟩
    · rw [hmeta, hopen, hfirst, hwrite, hsecond]
      rfl
    · rw [hblob, hopen, hfirst, hwritten]
      rfl
  · rw [AList.lookup_insert_ne hid]
    exact (h id).congr
      (put_frame faults a st _ (metaName_ne_blobName _ _) (metaName_ne hid))
      (put_frame faults a st _ (blobName_ne hid) (metaName_ne_blobName _ _).symm)

/-- A put makes no files but those of its artifact. -/
theorem put_named {faults : PutFaults} {a : StoredArtifact}
    (h : ∀ name ∈ st.artifacts.keys, ∃ id, name = metaName id ∨ name = blobName id) :
    ∀ name ∈ (st.put faults a).2.artifacts.keys, ∃ id, name = metaName id ∨ name = blobName id := by
  intro name hname
  by_cases hmeta : name = metaName a.id
  · exact ⟨a.id, .inl hmeta⟩
  by_cases hblob : name = blobName a.id
  · exact ⟨a.id, .inr hblob⟩
  refine h name (AList.mem_keys.mp ?_)
  rw [← AList.lookup_isSome, ← put_frame faults a st name hblob hmeta, AList.lookup_isSome]
  exact AList.mem_keys.mpr hname

theorem remove_lookup_meta (id id' : ArtifactId) (st : FilePersistenceStore) :
    (st.remove id').artifacts.lookup (metaName id) =
      if id = id' then none else st.artifacts.lookup (metaName id) := by
  unfold remove
  rw [AList.lookup_erase_ne (metaName_ne_blobName _ _)]
  split
  · rename_i heq
    rw [heq, AList.lookup_erase]
  · rename_i hne
    exact AList.lookup_erase_ne (metaName_ne hne)

theorem remove_lookup_blob {id id' : ArtifactId} (h : id ≠ id') (st : FilePersistenceStore) :
    (st.remove id').artifacts.lookup (blobName id) = st.artifacts.lookup (blobName id) := by
  unfold remove
  rw [AList.lookup_erase_ne (blobName_ne h), AList.lookup_erase_ne (metaName_ne_blobName _ _).symm]

theorem Stands.remove {held : Map ArtifactId StoredArtifact}
    (h : ∀ id, st.Stands id (held.lookup id)) (id' id : ArtifactId) :
    (st.remove id').Stands id ((held.erase id').lookup id) := by
  by_cases hid : id = id'
  · subst hid
    rw [AList.lookup_erase]
    show _ = _
    rw [remove_lookup_meta, if_pos rfl]
  · rw [AList.lookup_erase_ne hid]
    refine (h id).congr ?_ (remove_lookup_blob hid st)
    rw [remove_lookup_meta, if_neg hid]

/-! ### What `list` and `recover` read -/

section Reading

variable {held : Map ArtifactId StoredArtifact} {names : List Str}
  (hstands : ∀ id, st.Stands id (held.lookup id)) (hnames : names.Perm st.artifacts.keys)
  (hnamed : ∀ name ∈ st.artifacts.keys, ∃ id, name = metaName id ∨ name = blobName id)

include hstands in
theorem metaName_mem_keys {id : ArtifactId} : metaName id ∈ st.artifacts.keys ↔ id ∈ held.keys := by
  rw [← AList.mem_keys, ← AList.mem_keys, ← AList.lookup_isSome, ← AList.lookup_isSome]
  have h := hstands id
  cases hheld : held.lookup id with
  | none =>
    rw [hheld] at h
    rw [show st.artifacts.lookup (metaName id) = none from h]
    exact Iff.rfl
  | some b =>
    rw [hheld] at h
    obtain ⟨a, -, -, -, hmeta, -⟩ := h
    rw [hmeta]
    rfl

include hstands hnames hnamed

/-- The directory lists each id of the map once. -/
theorem list_perm : (list names).Perm held.keys := by
  have hfiles : ∀ name ∈ names, ∃ id, name = metaName id ∨ name = blobName id :=
    fun name hname => hnamed name (hnames.mem_iff.mp hname)
  have hnodup : names.Nodup := hnames.nodup_iff.mpr st.artifacts.keys_nodup
  have hlist : (list names).Nodup := by
    -- two entries with one id are one file
    refine List.Nodup.of_map metaName ?_
    have hsub : (list names).map metaName = names.filter fun name => (listed name).isSome := by
      clear hnames hnodup
      induction names with
      | nil => rfl
      | cons name names ih =>
        have hrest := ih fun name' h => hfiles name' (List.mem_cons_of_mem _ h)
        unfold list at hrest ⊢
        cases hname : listed name with
        | none => rw [List.filterMap_cons_none hname, List.filter_cons_of_neg (by simp [hname]), hrest]
        | some id =>
          rw [List.filterMap_cons_some hname, List.filter_cons_of_pos (by simp [hname]),
            List.map_cons, hrest,
            ← (listed_eq_some (hfiles name List.mem_cons_self)).mp hname]
    rw [hsub]
    exact hnodup.filter _
  refine (List.perm_ext_iff_of_nodup hlist held.keys_nodup).mpr fun id => ?_
  rw [← metaName_mem_keys hstands, ← hnames.mem_iff, list, List.mem_filterMap]
  constructor
  · rintro ⟨name, hname, hid⟩
    rwa [← (listed_eq_some (hfiles name hname)).mp hid]
  · exact fun hname => ⟨_, hname, listed_metaName id⟩

/-- The scan of the directory finds the artifacts of the map and rejects nothing. -/
theorem scan_perm : (st.scan names).1.Perm (held.keys.filterMap held.lookup) ∧
    (st.scan names).2 = [] := by
  have hfiles : ∀ name ∈ names, ∃ id, name = metaName id ∨ name = blobName id :=
    fun name hname => hnamed name (hnames.mem_iff.mp hname)
  constructor
  · rw [scan_eq]
    have hread : ∀ name ∈ names, st.accepted name = (listed name).bind held.lookup := by
      intro name hname
      obtain ⟨id, rfl | rfl⟩ := hfiles name hname
      · rw [listed_metaName, (hstands id).accepted]
        rfl
      · rw [listed_blobName, accepted_blobName]
        rfl
    rw [List.filterMap_congr hread, ← List.filterMap_filterMap]
    exact (list_perm hstands hnames hnamed).filterMap _
  · have hmem : ∀ name ∈ names, name ∈ st.artifacts.keys := fun name => hnames.mem_iff.mp
    clear hnames
    induction names with
    | nil => rfl
    | cons name names ih =>
      have hrest := ih (fun name' h => hfiles name' (List.mem_cons_of_mem _ h))
        fun name' h => hmem name' (List.mem_cons_of_mem _ h)
      obtain ⟨id, rfl | rfl⟩ := hfiles _ List.mem_cons_self
      · have hid : id ∈ held.keys := (metaName_mem_keys hstands).mp (hmem _ List.mem_cons_self)
        rw [← AList.mem_keys, ← AList.lookup_isSome] at hid
        obtain ⟨b, hb⟩ := Option.isSome_iff_exists.mp hid
        have hstand := hstands id
        rw [hb] at hstand
        obtain ⟨a, ha, -, -, hmeta, hblob⟩ := hstand
        have hparse := parse_fullMeta_reread ha.toValid ha.sized ha.nonempty
        simp only [scan, metaStem?_metaName, hmeta, Option.getD_some]
        rw [if_neg (by simpa using fullMeta_ne_nil a)]
        have hpair : st.artifacts.lookup (id.toStrongId128.str ++ str ".blob") = some a.bytes := hblob
        rw [hpair, hparse]
        exact hrest
      · simp only [scan, metaStem?_blobName]
        exact hrest

end Reading

end FilePersistenceStore

/-! ## Refinement -/

namespace StoreObject

variable {disk : Disk} {o : StoreObject} {m : StoreSpec}

/-- A root whose marker is the right one, or that has none yet, opens. -/
theorem Mirrors.openRoot (h : o.Mirrors m) {faults : OpenFaults}
    (hfaults : faults.createRoot = none ∧ faults.openMarker = false ∧ faults.writeMarker = none ∧
      faults.unreadable = false) :
    FilePersistenceStore.openRoot faults o.root =
      (.ok (), { o.root with format := some (o.root.format.getD kFormatMagic) }) := by
  obtain ⟨hcreate, hmarker, hwrite, hread⟩ := hfaults
  unfold FilePersistenceStore.openRoot
  rw [hcreate, hmarker, hwrite, hread]
  cases hformat : o.root.format with
  | none => rfl
  | some text =>
    dsimp only
    rw [if_neg Bool.false_ne_true, h.format text hformat, if_neg (fun hne => hne rfl),
      Option.getD_some, ← hformat]

theorem stripLineEnds_magic : FilePersistenceStore.stripLineEnds kFormatMagic = kFormatMagic := by
  decide

/-- One call of the store and of the map. -/
theorem Mirrors.call (hdisk : disk.Sound) {c : StoreCall} (hc : c.Proper) (h : o.Mirrors m) :
    StoreReply.Alike (o.call disk c).1 (m.call c).1 ∧ (o.call disk c).2.Mirrors (m.call c).2 := by
  have hnames := hdisk.order o.calls o.root.files.artifacts.keys
  have hopened := h.opened
  have hsame : ∀ {b : Bool} {n : Nat}, b = m.opened →
      StoreObject.Mirrors { root := o.root, opened := b, calls := n } m := fun hb =>
    ⟨hb, h.format, h.tmp, h.named, h.stands⟩
  cases c with
  | «open» =>
    simp only [StoreObject.call, StoreSpec.call, h.openRoot (hdisk.opens o.calls)]
    refine ⟨.same _, ?_, ?_, h.tmp, h.named, h.stands⟩
    · simp [Except.isOk, Except.toBool]
    · intro text htext
      cases hformat : o.root.format with
      | none =>
        rw [hformat] at htext
        cases htext
        exact stripLineEnds_magic
      | some text' =>
        rw [hformat] at htext
        cases htext
        exact h.format _ hformat
  | put a =>
    cases hm : m.opened with
    | false =>
      simp only [StoreObject.call, StoreSpec.call, hopened, hm, Bool.not_false, if_true]
      exact ⟨.same _, hsame hm.symm⟩
    | true =>
      obtain ⟨hclear, hwhole⟩ := hdisk.puts o.calls
      have hres := (FilePersistenceStore.put_files (disk.puts o.calls) a o.root.files).1
      rw [hclear, if_pos rfl] at hres
      simp only [StoreObject.call, StoreSpec.call, hopened, hm, Bool.not_true, Bool.false_eq_true,
        if_false, hres]
      exact ⟨.same _, hopened.trans hm, h.format, FilePersistenceStore.put_tmp hclear a h.tmp,
        FilePersistenceStore.put_named h.named,
        FilePersistenceStore.Stands.put h.stands hclear hwhole hc⟩
  | get id =>
    simp only [StoreObject.call, StoreSpec.call, hopened, (h.stands id).get]
    exact ⟨.same _, hsame rfl⟩
  | remove id =>
    cases hm : m.opened with
    | false =>
      simp only [StoreObject.call, StoreSpec.call, hopened, hm, Bool.not_false, if_true]
      exact ⟨.same _, hsame hm.symm⟩
    | true =>
      simp only [StoreObject.call, StoreSpec.call, hopened, hm, Bool.not_true, Bool.false_eq_true,
        if_false]
      refine ⟨.same _, hopened.trans hm, h.format, h.tmp, fun name hname => h.named name ?_,
        FilePersistenceStore.Stands.remove h.stands id⟩
      exact AList.mem_keys.mp (AList.mem_erase.mp (AList.mem_erase.mp (AList.mem_keys.mpr hname)).2).2
  | list =>
    cases hm : m.opened with
    | false =>
      simp only [StoreObject.call, StoreSpec.call, hopened, hm, Bool.not_false, if_true]
      exact ⟨.same _, hsame hm.symm⟩
    | true =>
      simp only [StoreObject.call, StoreSpec.call, hopened, hm, Bool.not_true, Bool.false_eq_true,
        if_false]
      exact ⟨.ids (FilePersistenceStore.list_perm h.stands hnames h.named), hsame hm.symm⟩
  | recover =>
    cases hm : m.opened with
    | false =>
      simp only [StoreObject.call, StoreSpec.call, hopened, hm, Bool.not_false, if_true]
      exact ⟨.same _, hsame hm.symm⟩
    | true =>
      obtain ⟨hvalid, hrejected⟩ := FilePersistenceStore.scan_perm h.stands hnames h.named
      simp only [StoreObject.call, StoreSpec.call, hopened, hm, Bool.not_true, Bool.false_eq_true,
        if_false, FilePersistenceStore.recover, hrejected, h.tmp]
      exact ⟨.recovered hvalid, hopened, h.format, rfl, h.named, h.stands⟩
  | close =>
    simp only [StoreObject.call, StoreSpec.call]
    exact ⟨.same _, hsame hopened⟩
  | restart =>
    simp only [StoreObject.call, StoreSpec.call]
    exact ⟨.same _, rfl, h.format, h.tmp, h.named, h.stands⟩

end StoreObject

/-- The store simulates the map. -/
theorem store_simulates {disk : Disk} (hdisk : disk.Sound) :
    Simulates (StoreObject.call disk) StoreSpec.call (fun _ c => c.Proper) StoreObject.Mirrors
      StoreReply.Alike where
  call h hc := h.call hdisk hc

/-- **The store is a map.** On a disk that does what it is asked, a new root answers every sequence of
calls, by any number of processes one after the other, as a map from ids to artifacts does. -/
theorem store_is_map {disk : Disk} (hdisk : disk.Sound) {calls : List StoreCall}
    (hcalls : ∀ c ∈ calls, c.Proper) :
    List.Forall₂ StoreReply.Alike (answers (StoreObject.call disk) calls {})
      (answers StoreSpec.call calls {}) := by
  have hstart : StoreObject.Mirrors {} {} := by
    refine ⟨rfl, fun text h => ?_, rfl, fun name h => ?_, fun id => rfl⟩
    · cases h
    · cases h
  exact ((store_simulates hdisk).answers hstart (.always (fun c hc _ => hcalls c hc) _)).1

/-- Two processes: the first stores an artifact, the second finds it and removes it. -/
def twoLives : List StoreCall :=
  [.open, .put (storedSample [1, 2]), .restart, .open, .get (storedSample [1, 2]).id, .list,
    .recover, .remove (storedSample [1, 2]).id, .list]

theorem store_is_map_twoLives : List.Forall₂ StoreReply.Alike
    (answers (StoreObject.call {}) twoLives {}) (answers StoreSpec.call twoLives {}) := by
  refine store_is_map ⟨fun _ => ⟨rfl, rfl, rfl, rfl⟩, fun _ => ⟨rfl, rfl⟩, fun _ _ => .refl _⟩ ?_
  simp only [twoLives, List.forall_mem_cons, List.not_mem_nil, false_imp_iff, implies_true, and_true,
    StoreCall.Proper, true_and]
  exact ⟨storedSample_valid (by decide), storedSample_sized _, by decide⟩

/-! ## A marker that is cut short -/

/-- A reply of a root that is shut, to a call. -/
inductive Refused : StoreCall → StoreReply → Prop
  | «open» (e : Failure) : Refused .open (.done (.error e))
  | put (a : StoredArtifact) (e : Failure) : Refused (.put a) (.done (.error e))
  | get (id : ArtifactId) (e : Failure) : Refused (.get id) (.artifact (.error e))
  | remove (id : ArtifactId) (e : Failure) : Refused (.remove id) (.done (.error e))
  | list : Refused .list (.ids [])
  | recover (e : Failure) : Refused .recover (.recovered (.error e))
  | close : Refused .close (.done (.ok ()))
  | restart : Refused .restart (.done (.ok ()))

namespace StoreObject

/-- The marker is another text, and this process has not opened the root. -/
structure Shut (root : Root) (o : StoreObject) : Prop where
  stays : o.root = root
  marker : ∃ text, root.format = some text ∧
    FilePersistenceStore.stripLineEnds text ≠ kFormatMagic
  opened : o.opened = false

variable {disk : Disk} {root : Root} {o : StoreObject}

theorem Shut.openRoot (h : o.Shut root) (faults : OpenFaults) :
    ∃ e, FilePersistenceStore.openRoot faults o.root = (.error e, o.root) := by
  obtain ⟨text, hformat, hmarker⟩ := h.marker
  unfold FilePersistenceStore.openRoot
  cases faults.createRoot with
  | some message => exact ⟨_, rfl⟩
  | none =>
    rw [h.stays, hformat]
    dsimp only
    have hread : FilePersistenceStore.stripLineEnds (if faults.unreadable then [] else text) ≠
        kFormatMagic := by
      split
      · decide
      · exact hmarker
    rw [if_pos hread]
    exact ⟨_, rfl⟩

/-- A root that is shut refuses a call and stays as it is. -/
theorem Shut.call (h : o.Shut root) (disk : Disk) (c : StoreCall) :
    Refused c (o.call disk c).1 ∧ (o.call disk c).2.Shut root := by
  have hstays : ∀ {b : Bool} {n : Nat}, b = false →
      Shut root { root := o.root, opened := b, calls := n } :=
    fun hb => ⟨h.stays, h.marker, hb⟩
  have hopened := h.opened
  cases c with
  | «open» =>
    obtain ⟨e, he⟩ := h.openRoot (disk.opens o.calls)
    simp only [StoreObject.call, he, hopened]
    exact ⟨.open e, hstays rfl⟩
  | put a =>
    simp only [StoreObject.call, hopened, Bool.not_false, if_true]
    exact ⟨.put a _, hstays rfl⟩
  | get id =>
    simp only [StoreObject.call, hopened, Bool.not_false, if_true]
    exact ⟨.get id _, hstays rfl⟩
  | remove id =>
    simp only [StoreObject.call, hopened, Bool.not_false, if_true]
    exact ⟨.remove id _, hstays rfl⟩
  | list =>
    simp only [StoreObject.call, hopened, Bool.not_false, if_true]
    exact ⟨.list, hstays rfl⟩
  | recover =>
    simp only [StoreObject.call, hopened, Bool.not_false, if_true]
    exact ⟨.recover _, hstays rfl⟩
  | close => exact ⟨.close, hstays hopened⟩
  | restart => exact ⟨.restart, hstays rfl⟩

theorem Shut.calls (h : o.Shut root) (disk : Disk) (cs : List StoreCall) :
    List.Forall₂ Refused cs (answers (StoreObject.call disk) cs o) ∧
      (behind (StoreObject.call disk) cs o).root = root := by
  induction cs generalizing o with
  | nil => exact ⟨.nil, h.stays⟩
  | cons c cs ih =>
    obtain ⟨hrefused, hshut⟩ := h.call disk c
    obtain ⟨hrest, hroot⟩ := ih hshut
    exact ⟨.cons hrefused hrest, hroot⟩

end StoreObject

/-- **A marker that is cut short.** The first `open` of a root fails while it writes the marker.  From
then on every process finds the root shut, and nothing it does changes that. -/
theorem cut_marker_shuts_root {disk : Disk} {o : StoreObject} {n : Nat}
    (hn : n < kFormatMagic.length) (hnew : o.root.format = none) (hopened : o.opened = false)
    (hcreate : (disk.opens o.calls).createRoot = none)
    (hmarker : (disk.opens o.calls).openMarker = false)
    (hwrite : (disk.opens o.calls).writeMarker = some n) (calls : List StoreCall) :
    List.Forall₂ Refused (.open :: calls) (answers (StoreObject.call disk) (.open :: calls) o) ∧
      (behind (StoreObject.call disk) (.open :: calls) o).root =
        { o.root with format := some (kFormatMagic.take n) } := by
  have hcut : ∀ n < kFormatMagic.length,
      FilePersistenceStore.stripLineEnds (kFormatMagic.take n) ≠ kFormatMagic := by decide
  have hopen : o.call disk .open = (.done (fail .ioError (str "cannot write format marker")),
      { root := { o.root with format := some (kFormatMagic.take n) }, opened := false,
        calls := o.calls + 1 }) := by
    simp only [StoreObject.call, FilePersistenceStore.openRoot, hcreate, hnew, hmarker, hwrite,
      hopened, Bool.false_eq_true, if_false]
    rfl
  have hshut : (o.call disk .open).2.Shut { o.root with format := some (kFormatMagic.take n) } := by
    rw [hopen]
    exact ⟨rfl, ⟨_, rfl, hcut n hn⟩, rfl⟩
  obtain ⟨hrest, hroot⟩ := hshut.calls disk calls
  refine ⟨.cons ?_ hrest, hroot⟩
  rw [hopen]
  exact .open _

/-- A disk that is full after three bytes of the first marker. -/
theorem cut_marker_shuts_root_full : List.Forall₂ Refused (.open :: twoLives)
      (answers (StoreObject.call { opens := fun k => if k = 0 then { writeMarker := some 3 } else {} })
        (.open :: twoLives) {}) ∧
    (behind (StoreObject.call { opens := fun k => if k = 0 then { writeMarker := some 3 } else {} })
        (.open :: twoLives) {}).root =
      { format := some (kFormatMagic.take 3) } :=
  cut_marker_shuts_root (o := {}) (by decide) rfl rfl rfl rfl rfl twoLives

end KernelCache
