/-
# KernelCache.Recovery — what `recover_impl` inserts, and what it leaves alone (`recovery.cpp`).

A recovery scans the directory, removes the temporary files and inserts, under its lock, each artifact
whose id is free at that moment.  `Restores` is what that amounts to: an id that was in the index keeps
its record as it is, and a new one gets the FIRST artifact of the scan that carries it
(`recoverInsert_restores`, by induction on the artifacts of the scan).  After that every id of the scan
is taken, and the scan of the same directory, in whatever order it is listed, finds no others; so
another recovery inserts nothing (`recover_idempotent`).
-/
import KernelCache.Crash
import KernelCache.Evolution
import Mathlib.Data.Finset.Card

namespace KernelCache

open Foundation (Bytes Prog)
open Foundation.Prog (sect perform)

/-! ## The insertion -/

namespace Impl

/-- What a bucket becomes: behind the ids it lists come those of the inserted artifacts that `sel`
picks, each once. -/
def Refiles (s : Impl) (found : List StoredArtifact) (sel : StoredArtifact → Bool)
    (bucket bucket' : List ArtifactId) : Prop :=
  ∃ more, bucket' = bucket ++ more ∧ more.Nodup ∧ ∀ id, id ∈ more ↔
    s.byId.lookup id = none ∧ ∃ a, found.find? (fun a => a.id = id) = some a ∧ sel a = true

/-- `s'` is `s` with the artifacts inserted whose id was free, `count` of them. -/
structure Restores (now : UInt64) (found : List StoredArtifact) (s s' : Impl) (count : Nat) :
    Prop where
  kept : ∀ p < s.nextRecord, s'.records p = s.records p
  known : ∀ id p, s.byId.lookup id = some p → s'.byId.lookup id = some p
  first : ∀ id a, s.byId.lookup id = none → found.find? (fun a => a.id = id) = some a →
    ∃ p, s.nextRecord ≤ p ∧ p < s'.nextRecord ∧ s'.byId.lookup id = some p ∧
      s'.records p = { recoveredRecord now a with key := a.key.ensureFinalized }
  absent : ∀ id, s.byId.lookup id = none → found.find? (fun a => a.id = id) = none →
    s'.byId.lookup id = none
  byKey : ∀ d, Refiles s found (fun a => decide (a.key.ensureFinalized.digest = d))
    ((s.byKey.lookup d).getD []) ((s'.byKey.lookup d).getD [])
  byOperation : ∀ op, Refiles s found (fun a => decide (a.key.operation = op))
    ((s.byOperation.lookup op).getD []) ((s'.byOperation.lookup op).getD [])
  nextRecord : s'.nextRecord = s.nextRecord + count
  count : count = ((found.map (·.id)).toFinset.filter fun id => s.byId.lookup id = none).card
  leases : s'.leases = s.leases

section Refiles

variable {s : Impl} {found : List StoredArtifact} {sel : StoredArtifact → Bool}
  {bucket bucket' : List ArtifactId}

theorem Refiles.nil : Refiles s [] sel bucket bucket :=
  ⟨[], (List.append_nil _).symm, List.nodup_nil, fun id => by simp⟩

theorem Refiles.skip (h : Refiles s found sel bucket bucket') {a : StoredArtifact} {p : Nat}
    (ha : s.byId.lookup a.id = some p) : Refiles s (a :: found) sel bucket bucket' := by
  obtain ⟨more, hbucket, hnodup, hmem⟩ := h
  refine ⟨more, hbucket, hnodup, fun id => ?_⟩
  rw [hmem]
  by_cases hid : a.id = id
  · subst hid
    simp [ha]
  · rw [List.find?_cons_of_neg (by simpa using hid)]

/-- The next artifact is new, and in front of what the others add. -/
theorem Refiles.fresh {s₁ : Impl} {a : StoredArtifact} (ha : s.byId.lookup a.id = none)
    (hlook : ∀ id, s₁.byId.lookup id = if id = a.id then some s.nextRecord else s.byId.lookup id)
    (h : Refiles s₁ found sel (bucket ++ if sel a = true then [a.id] else []) bucket') :
    Refiles s (a :: found) sel bucket bucket' := by
  obtain ⟨more, hbucket, hnodup, hmem⟩ := h
  have hnotin : a.id ∉ more := by
    rw [hmem, hlook, if_pos rfl]
    rintro ⟨htaken, -⟩
    cases htaken
  refine ⟨(if sel a = true then [a.id] else []) ++ more, ?_, ?_, fun id => ?_⟩
  · rw [hbucket, List.append_assoc]
  · split
    · exact List.nodup_cons.mpr ⟨hnotin, hnodup⟩
    · exact hnodup
  · rw [List.mem_append, hmem, hlook]
    by_cases hid : id = a.id
    · subst hid
      rw [List.find?_cons_of_pos (by simp)]
      simp [ha]
    · rw [if_neg hid, List.find?_cons_of_neg (by simpa using Ne.symm hid)]
      split <;> simp [hid]

end Refiles

theorem Restores.nil (now : UInt64) (s : Impl) : Restores now [] s s 0 where
  kept := fun _ _ => rfl
  known := fun _ _ h => h
  first := fun _ _ _ h => nomatch h
  absent := fun _ h _ => h
  byKey := fun _ => .nil
  byOperation := fun _ => .nil
  nextRecord := rfl
  count := rfl
  leases := rfl

/-- The next artifact is in the index already. -/
theorem Restores.skip {now : UInt64} {found : List StoredArtifact} {s s' : Impl} {count p : Nat}
    (h : Restores now found s s' count) {a : StoredArtifact} (ha : s.byId.lookup a.id = some p) :
    Restores now (a :: found) s s' count where
  kept := h.kept
  known := h.known
  first := fun id b hid hfind => by
    have hne : ¬ a.id = id := fun heq => by
      rw [← heq, ha] at hid
      cases hid
    rw [List.find?_cons_of_neg (by simpa using hne)] at hfind
    exact h.first id b hid hfind
  absent := fun id hid hfind => by
    have hne : ¬ a.id = id := fun heq => by
      rw [← heq, ha] at hid
      cases hid
    rw [List.find?_cons_of_neg (by simpa using hne)] at hfind
    exact h.absent id hid hfind
  byKey := fun d => (h.byKey d).skip ha
  byOperation := fun op => (h.byOperation op).skip ha
  nextRecord := h.nextRecord
  count := by
    rw [List.map_cons, List.toFinset_cons, Finset.filter_insert, if_neg (by simp [ha])]
    exact h.count
  leases := h.leases

/-- The next artifact is new. -/
theorem Restores.fresh {now : UInt64} {found : List StoredArtifact} {s s' : Impl} {count : Nat}
    {a : StoredArtifact} (ha : s.byId.lookup a.id = none) {f : Stats → Stats}
    (h : Restores now found ((s.insertIndexLocked (recoveredRecord now a)).bump f) s' count) :
    Restores now (a :: found) s s' (count + 1) := by
  have hlook : ∀ id, ((s.insertIndexLocked (recoveredRecord now a)).bump f).byId.lookup id =
      if id = a.id then some s.nextRecord else s.byId.lookup id := by
    intro id
    by_cases hid : id = a.id
    · subst hid
      rw [if_pos rfl]
      exact AList.lookup_insert _
    · rw [if_neg hid]
      exact AList.lookup_insert_ne hid
  have hnext : ((s.insertIndexLocked (recoveredRecord now a)).bump f).nextRecord =
      s.nextRecord + 1 := rfl
  refine ⟨fun p hp => ?_, fun id p hid => ?_, fun id b hid hfind => ?_, fun id hid hfind => ?_,
    fun d => ?_, fun op => ?_, ?_, ?_, h.leases⟩
  · rw [h.kept p (by rw [hnext]; omega)]
    exact insertIndexLocked_records _ hp
  · have hne : id ≠ a.id := by
      rintro rfl
      rw [ha] at hid
      cases hid
    apply h.known
    rw [hlook, if_neg hne]
    exact hid
  · by_cases heq : a.id = id
    · rw [List.find?_cons_of_pos (by simpa using heq)] at hfind
      obtain rfl := Option.some.inj hfind
      refine ⟨s.nextRecord, le_rfl, ?_, ?_, ?_⟩
      · have hgrown := h.nextRecord
        rw [hnext] at hgrown
        omega
      · apply h.known
        rw [hlook, if_pos heq.symm]
      · rw [h.kept s.nextRecord (by rw [hnext]; omega)]
        exact Function.update_self ..
    · rw [List.find?_cons_of_neg (by simpa using heq)] at hfind
      obtain ⟨p, hlow, hhigh, hnew, hrec⟩ := h.first id b (by
        rw [hlook, if_neg (Ne.symm heq)]
        exact hid) hfind
      rw [hnext] at hlow
      exact ⟨p, by omega, hhigh, hnew, hrec⟩
  · have hne : ¬ a.id = id := by
      intro heq
      rw [List.find?_cons_of_pos (by simpa using heq)] at hfind
      cases hfind
    rw [List.find?_cons_of_neg (by simpa using hne)] at hfind
    apply h.absent id _ hfind
    rw [hlook, if_neg (Ne.symm hne)]
    exact hid
  · have hrest := h.byKey d
    have hbucket := s.insertIndexLocked_byKey (recoveredRecord now a) d
    exact .fresh ha hlook (by simpa only [decide_eq_true_eq] using hbucket ▸ hrest)
  · have hrest := h.byOperation op
    have hbucket := s.insertIndexLocked_byOperation (recoveredRecord now a) op
    exact .fresh ha hlook (by simpa only [decide_eq_true_eq] using hbucket ▸ hrest)
  · rw [h.nextRecord, hnext]
    omega
  · have hsplit : (((a :: found).map (·.id)).toFinset.filter fun id => s.byId.lookup id = none) =
        insert a.id ((found.map (·.id)).toFinset.filter fun id =>
          ((s.insertIndexLocked (recoveredRecord now a)).bump f).byId.lookup id = none) := by
      ext id
      simp only [List.map_cons, List.toFinset_cons, Finset.mem_filter, Finset.mem_insert, hlook]
      by_cases hid : id = a.id
      · subst hid
        simp [ha]
      · simp [hid]
    rw [hsplit, Finset.card_insert_of_notMem, h.count]
    rw [Finset.mem_filter, hlook, if_pos rfl]
    simp

/-- **The insertion of a recovery.** -/
theorem recoverInsert_restores (env : Env) (s : Impl) (found : List StoredArtifact) :
    Restores (env.now s.tick) found s (recoverInsert env s found).2 (recoverInsert env s found).1 := by
  induction found generalizing s with
  | nil => exact .nil _ s
  | cons a found ih =>
    simp only [recoverInsert]
    split
    · rename_i p hp
      exact (ih s).skip hp
    · rename_i hnone
      let s₁ := (s.insertIndexLocked (recoveredRecord (env.now s.tick) a)).bump fun st =>
        { st with persistentReloads := st.persistentReloads + 1 }
      have hrest : Restores (env.now s.tick) found s₁ (recoverInsert env s₁ found).2
        (recoverInsert env s₁ found).1 := ih s₁
      exact hrest.fresh hnone

/-- It does not touch the directory, nor the lock of the statistics. -/
theorem recoverInsert_keeps (env : Env) (s : Impl) (found : List StoredArtifact) :
    (recoverInsert env s found).2.store = s.store ∧
      (recoverInsert env s found).2.statsHeld = s.statsHeld := by
  obtain ⟨st, hst⟩ := recoverInsert_eq env s found
  rw [hst]
  show (insertAll _ _).store = s.store ∧ (insertAll _ _).statsHeld = s.statsHeld
  refine insertAll_induction
    (P := fun s' => s'.store = s.store ∧ s'.statsHeld = s.statsHeld) ⟨rfl, rfl⟩ ?_
  exact fun s' r _ h _ => h

/-- When all ids are taken nothing is inserted. -/
theorem recoverInsert_of_known (env : Env) {s : Impl} {found : List StoredArtifact}
    (h : ∀ a ∈ found, (s.byId.lookup a.id).isSome = true) : recoverInsert env s found = (0, s) := by
  induction found with
  | nil => rfl
  | cons a found ih =>
    rw [List.forall_mem_cons] at h
    obtain ⟨p, hp⟩ := Option.isSome_iff_exists.mp h.1
    simp only [recoverInsert, hp]
    exact ih h.2

/-- Every id of the scan is taken afterwards. -/
theorem Restores.taken {now : UInt64} {found : List StoredArtifact} {s s' : Impl} {count : Nat}
    (h : Restores now found s s' count) {a : StoredArtifact} (ha : a ∈ found) :
    (s'.byId.lookup a.id).isSome = true := by
  cases hold : s.byId.lookup a.id with
  | some p =>
    rw [h.known a.id p hold]
    rfl
  | none =>
    cases hfind : found.find? (fun b => b.id = a.id) with
    | none =>
      have hnone := List.find?_eq_none.mp hfind a ha
      simp at hnone
    | some b =>
      obtain ⟨p, -, -, hp, -⟩ := h.first a.id b hold hfind
      rw [hp]
      rfl

end Impl

/-! ## The operation -/

/-- What the scan finds in the directory as it is listed at some moment. -/
def foundIn (env : Env) (t : Nat) (st : FilePersistenceStore) : List StoredArtifact :=
  (env.dirOrder t st.artifacts.keys).filterMap st.accepted

theorem recover_found (env : Env) (t : Nat) (st : FilePersistenceStore) :
    (st.recover (env.dirOrder t st.artifacts.keys)).1.1 = foundIn env t st :=
  st.scan_eq _

/-- The order of the directory does not matter to what is found. -/
theorem mem_foundIn {env : Env} {t t' : Nat} {st : FilePersistenceStore} {a : StoredArtifact}
    (h : a ∈ foundIn env t st) : a ∈ foundIn env t' st := by
  obtain ⟨name, hname, hacc⟩ := List.mem_filterMap.mp h
  refine List.mem_filterMap.mpr ⟨name, ?_, hacc⟩
  rw [(env.dirOrder_perm _ _).mem_iff] at hname ⊢
  exact hname

/-- The state of the cache in which the scan has been read and the insertion begins. -/
def scanned (s : Impl) : Impl :=
  { s with store := { s.store with tmp := ∅ }, tick := s.tick + 1 }

/-- `recover` alone: the scan, the insertion, the event. -/
theorem recoverImpl_run (env : Env) (hopen : env.cfg.persistenceOpen = true) {s : Impl}
    (hfree : s.statsHeld = false) : ∃ rejected t,
    (recoverImpl env).run (exec env) s =
      some (.ok ((Impl.recoverInsert env (scanned s) (foundIn env s.tick s.store)).1, rejected,
          s.store.tmp.keys),
        { (Impl.recoverInsert env (scanned s) (foundIn env s.tick s.store)).2 with tick := t }) := by
  generalize hfound : foundIn env s.tick s.store = found
  have hread : exec env .recoverRead s = some (scanned s) := rfl
  have hscan : ((s.recoverRead env).1 : List StoredArtifact × List Str × List Str) =
      (found, (s.recoverRead env).1.2.1, s.store.tmp.keys) := by
    rw [← hfound, ← recover_found]
    rfl
  have hinsert : exec env (.recoverInsert found) (scanned s) =
      some { (Impl.recoverInsert env (scanned s) found).2 with tick := s.tick + 2 } := by
    have hready : Step.ready (scanned s) (.recoverInsert found) = true := by
      show (!s.statsHeld) = true
      rw [hfree]
      rfl
    rw [exec, if_pos hready]
    rfl
  have hheld : (Impl.recoverInsert env (scanned s) found).2.statsHeld = false :=
    (Impl.recoverInsert_keeps env (scanned s) found).2.trans hfree
  have hevent : exec env .recordEvent
      { (Impl.recoverInsert env (scanned s) found).2 with tick := s.tick + 2 } =
      some { (Impl.recoverInsert env (scanned s) found).2 with tick := s.tick + 3 } := by
    have hready : Step.ready { (Impl.recoverInsert env (scanned s) found).2 with tick := s.tick + 2 }
        .recordEvent = true := by
      show (!(Impl.recoverInsert env (scanned s) found).2.statsHeld) = true
      rw [hheld]
      rfl
    rw [exec, if_pos hready]
    rfl
  refine ⟨(s.recoverRead env).1.2.1, s.tick + 3, ?_⟩
  unfold recoverImpl
  rw [hopen, if_neg (by decide)]
  refine Prog.run_of_bind.mpr ⟨_, _, Prog.run_sect.mpr ⟨hread, rfl⟩, ?_⟩
  rw [hscan]
  refine Prog.run_of_bind.mpr ⟨_, _, Prog.run_sect.mpr ⟨hinsert, rfl⟩, ?_⟩
  refine Prog.run_of_bind.mpr ⟨(), _, Prog.run_perform.mpr hevent, ?_⟩
  rfl

/-- **Recovery is idempotent and destroys nothing.** For every state of the cache and every content of
the directory: an existing record stays as it is, a free id gets the first artifact found with it and goes
to the end of the buckets of its digest and its operation, the answer is their number; and recovering
again at once inserts nothing, answers 0 and reports no temporary file. -/
theorem recover_idempotent (env : Env) (hopen : env.cfg.persistenceOpen = true) (s : Impl)
    (hfree : s.statsHeld = false) : ∃ count rejected s',
    (recoverImpl env).run (exec env) s = some (.ok (count, rejected, s.store.tmp.keys), s') ∧
    s.Restores (env.now (s.tick + 1)) (foundIn env s.tick s.store) s' count ∧
    ∃ rejected' t, (recoverImpl env).run (exec env) s' =
      some (.ok (0, rejected', []), { s' with tick := t }) := by
  obtain ⟨rejected, t, hrun⟩ := recoverImpl_run env hopen hfree
  have hins := Impl.recoverInsert_restores env (scanned s) (foundIn env s.tick s.store)
  obtain ⟨hstore, hheld⟩ :=
    Impl.recoverInsert_keeps env (scanned s) (foundIn env s.tick s.store)
  generalize Impl.recoverInsert env (scanned s) (foundIn env s.tick s.store) = answer at *
  obtain ⟨count, s'⟩ := answer
  refine ⟨count, rejected, { s' with tick := t }, hrun, ?_, ?_⟩
  · exact ⟨hins.kept, hins.known, hins.first, hins.absent, hins.byKey, hins.byOperation,
      hins.nextRecord, hins.count, hins.leases⟩
  · obtain ⟨rejected', t', hrun'⟩ := recoverImpl_run env hopen (s := { s' with tick := t })
      (hheld.trans hfree)
    have hempty : s'.store.tmp.keys = [] := by
      rw [hstore]
      rfl
    -- the directory is listed anew, and every id found in it is taken
    have hknown : ∀ a ∈ foundIn env t s'.store,
        ((scanned { s' with tick := t }).byId.lookup a.id).isSome = true := by
      intro a ha
      rw [hstore] at ha
      exact hins.taken (mem_foundIn ha)
    refine ⟨rejected', t', ?_⟩
    rw [hrun', hempty, Impl.recoverInsert_of_known env hknown]
    have hscanned : scanned { s' with tick := t } = { s' with tick := t + 1 } := by
      have htmp : ({ s'.store with tmp := ∅ } : FilePersistenceStore) = s'.store := by
        rw [hstore]
        rfl
      simp only [scanned, htmp]
    rw [hscanned]

/-! ## A directory with copies -/

theorem FilePersistenceStore.accepted_of_files {st : FilePersistenceStore} {id : ArtifactId}
    {a : StoredArtifact} (hmeta : st.artifacts.lookup (metaName id) = some (fullMeta a))
    (hblob : st.artifacts.lookup (blobName id) = some a.bytes) (ha : a.Valid)
    (hsized : a.key.toKeyFields.Sized) (hne : a.bytes ≠ []) :
    st.accepted (metaName id) = some a.reread := by
  rw [accepted_metaName, hmeta, hblob, if_neg (by simpa using fullMeta_ne_nil a), Option.getD_some,
    parse_fullMeta_reread ha hsized hne]
  rfl

/-- A second sample artifact. -/
def secondSample : StoredArtifact := { storedSample [1, 2] with id := ⟨⟨1, 8⟩⟩ }

/-- The files of the first sample, those of the second one under two names, and a temporary file. -/
def crowdedStore : FilePersistenceStore where
  tmp := (∅ : Map Str Bytes).insert (str "cut") [1]
  artifacts := (∅ : Map Str Bytes)
    |>.insert (blobName ⟨⟨1, 7⟩⟩) [1]
    |>.insert (metaName ⟨⟨1, 7⟩⟩) (FilePersistenceStore.fullMeta (storedSample [1]))
    |>.insert (blobName ⟨⟨1, 8⟩⟩) [1, 2]
    |>.insert (metaName ⟨⟨1, 8⟩⟩) (FilePersistenceStore.fullMeta secondSample)
    |>.insert (blobName ⟨⟨2, 2⟩⟩) [1, 2]
    |>.insert (metaName ⟨⟨2, 2⟩⟩) (FilePersistenceStore.fullMeta secondSample)

theorem crowdedStore_accepted :
    crowdedStore.accepted (metaName ⟨⟨2, 2⟩⟩) = some secondSample.reread ∧
    crowdedStore.accepted (metaName ⟨⟨1, 8⟩⟩) = some secondSample.reread ∧
    crowdedStore.accepted (metaName ⟨⟨1, 7⟩⟩) = some (storedSample [1]).reread := by
  have hvalid : secondSample.Valid := ⟨storedSample_final [1, 2], rfl, rfl⟩
  have hsized : secondSample.key.toKeyFields.Sized := storedSample_sized [1, 2]
  refine ⟨?_, ?_, ?_⟩
  · exact FilePersistenceStore.accepted_of_files rfl rfl hvalid hsized (by decide)
  · exact FilePersistenceStore.accepted_of_files rfl rfl hvalid hsized (by decide)
  · exact FilePersistenceStore.accepted_of_files rfl rfl (storedSample_valid (by decide))
      (storedSample_sized [1]) (by decide)

theorem crowdedStore_keys : crowdedStore.artifacts.keys = [metaName ⟨⟨2, 2⟩⟩, blobName ⟨⟨2, 2⟩⟩,
    metaName ⟨⟨1, 8⟩⟩, blobName ⟨⟨1, 8⟩⟩, metaName ⟨⟨1, 7⟩⟩, blobName ⟨⟨1, 7⟩⟩] := rfl

def recoveringEnv : Env := { cfg := { persistenceOpen := true } }

theorem crowdedStore_found (t : Nat) : foundIn recoveringEnv t crowdedStore =
    [secondSample.reread, secondSample.reread, (storedSample [1]).reread] := by
  obtain ⟨hcopy, hsecond, hfirst⟩ := crowdedStore_accepted
  show crowdedStore.artifacts.keys.filterMap crowdedStore.accepted = _
  rw [crowdedStore_keys]
  simp [FilePersistenceStore.accepted_blobName, hcopy, hsecond, hfirst]

/-- A cache on that directory which has a record of the first sample. -/
def crowdedState : Impl :=
  { (Impl.initial crowdedStore).insertIndexLocked
      (makeRecord 0 { id := ⟨⟨1, 7⟩⟩, generation := 1 } [1]) with tick := 1 }

/-- One of the three artifacts found is new: the record that is there stays, the second file of the other
artifact adds nothing, and the temporary file is reported once. -/
theorem recover_idempotent_sample : ∃ rejected s', (recoverImpl recoveringEnv).run (exec recoveringEnv)
      crowdedState = some (.ok (1, rejected, [str "cut"]), s') ∧
    crowdedState.Restores (recoveringEnv.now 2)
      [secondSample.reread, secondSample.reread, (storedSample [1]).reread] s' 1 ∧
    ∃ rejected' t, (recoverImpl recoveringEnv).run (exec recoveringEnv) s' =
      some (.ok (0, rejected', []), { s' with tick := t }) := by
  obtain ⟨count, rejected, s', hrun, hrestores, hagain⟩ :=
    recover_idempotent recoveringEnv rfl crowdedState rfl
  have hfound : foundIn recoveringEnv crowdedState.tick crowdedState.store = _ := crowdedStore_found _
  rw [hfound] at hrestores
  obtain rfl : count = 1 := hrestores.count.trans (by decide)
  exact ⟨rejected, s', hrun, hrestores, hagain⟩

end KernelCache
