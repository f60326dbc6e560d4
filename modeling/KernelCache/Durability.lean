/-
# KernelCache.Durability — what the processes of a root leave to the next one.

Processes follow one another on a root directory; each is an interleaved run of one cache, ended between
two of its sections (a store write is one section).  The only sections that write the root are the store
writes of builds.  On a disk where writes come off, and as long as what is persisted can be read back
(`Step.PersistsWhole`), the files stand for the map of the artifacts that were persisted, the last one
under each id (`runs_holding`, by `FilePersistenceStore.Stands.put` and induction on the run).  The
recovery of the next process inserts one record for each entry of that map, and nothing else
(`restart_restores`).
-/
import KernelCache.StoreMap
import KernelCache.Recovery
import KernelCache.Restart
import KernelCache.LockDiscipline

namespace KernelCache

open Foundation (Bytes Prog Runs Pool Event Stable)

/-! ## The map of what was persisted -/

/-- What a section leaves in the root, as artifacts by id. -/
def Step.keptIn (env : Env) (s : Impl) (held : Map ArtifactId StoredArtifact) :
    Step → Map ArtifactId StoredArtifact
  | .persist o => held.insert o.desc.id (Impl.storedArtifact (env.now s.tick) o).reread
  | _ => held

/-- What the sections of a run leave in the root. -/
def keptBy (env : Env) (held : Map ArtifactId StoredArtifact) (tr : List (Event Step Impl)) :
    Map ArtifactId StoredArtifact :=
  tr.foldl (fun held e => e.label.keptIn env e.before held) held

theorem keptBy_concat (env : Env) (held : Map ArtifactId StoredArtifact)
    (tr : List (Event Step Impl)) (e : Event Step Impl) :
    keptBy env held (tr ++ [e]) = e.label.keptIn env e.before (keptBy env held tr) := by
  simp [keptBy]

/-- Processes one after the other: the environment of each, and what it did. -/
inductive Lives : List (Env × List (Event Step Impl)) → FilePersistenceStore → Prop
  /-- A root that nobody has used. -/
  | unused : Lives [] {}
  | next {lives : List (Env × List (Event Step Impl))} {root : FilePersistenceStore} {env : Env}
      {tr : List (Event Step Impl)} {pool : Pool Step Impl Answer} (h : Lives lives root)
      (hrun : CacheRuns env root tr pool) : Lives (lives ++ [(env, tr)]) pool.shared.store

/-- What all of them leave. -/
def keptByAll (lives : List (Env × List (Event Step Impl))) : Map ArtifactId StoredArtifact :=
  lives.foldl (fun held life => keptBy life.1 held life.2) ∅

/-- Store writes come off, whole. -/
def Env.Writes (env : Env) : Prop :=
  ∀ t, (env.putFaults t).clear = true ∧ (env.putFaults t).blobWritten = none

/-- What is persisted can be read back: it has a finalized key with lists a 32-bit count can name, and
bytes, as many as its builder reports.  `run_build` checks none of it, and `recover` rejects the rest. -/
def Step.PersistsWhole : Step → Prop
  | .persist o => o.desc.key.IsFinal ∧ o.desc.key.toKeyFields.Sized ∧
      o.desc.sizes.artifactBytes.toNat = o.bytes.length ∧ o.bytes ≠ []
  | _ => True

/-! ## The files of one process -/

/-- The files stand for the map, and there are no others. -/
structure FilePersistenceStore.Holding (st : FilePersistenceStore)
    (held : Map ArtifactId StoredArtifact) : Prop where
  tmp : st.tmp.keys = []
  named : ∀ name ∈ st.artifacts.keys, ∃ id, name = metaName id ∨ name = blobName id
  stands : ∀ id, st.Stands id (held.lookup id)

theorem FilePersistenceStore.holding_empty : ({} : FilePersistenceStore).Holding ∅ where
  tmp := rfl
  named name h := by cases h
  stands id := rfl

section Runs

variable {env : Env} {root : FilePersistenceStore} {held : Map ArtifactId StoredArtifact}
  {tr : List (Event Step Impl)} {pool : Pool Step Impl Answer}

/-- What a build persists is named by the checksum of its bytes. -/
def Step.PersistsMade (env : Env) : Step → Prop
  | .persist o => ∃ gen, o.Made env gen
  | _ => True

theorem builds_persistMade : BuildsWith env ProperSteps (fun l _ _ => l.PersistsMade env)
    (fun _ _ => True) (fun o _ => ∃ gen, o.Made env gen) where
  stable _ := Stable.const _ _ _
  stable_published o := Stable.const _ _ _
  join _ _ _ _ _ := ⟨trivial, fun _ _ _ => trivial⟩
  publish _ gen _ _ _ ho _ _ _ := ⟨trivial, fun _ => ⟨gen, ho⟩⟩
  persist _ _ _ hs _ _ := hs
  other l _ _ _ _ hl _ _ := by
    cases l with
    | persist o => cases hl
    | _ => exact trivial

theorem runs_persistMade (h : CacheRuns env root tr pool) :
    ∀ e ∈ tr, e.label.PersistsMade env := by
  refine Runs.guarantee (C := ProperSteps) (G := fun l _ _ => l.PersistsMade env) (fun q hq => ?_) h
    (runs_proper h)
  obtain ⟨op, rfl⟩ := hq
  refine operation_free_of_builds (walk_guaranteed fun l s s' _ _ _ hstage => ?_)
    builds_persistMade.buildImpl op
  cases l with
  | persist o => exact hstage.elim
  | _ => exact trivial

/-- A store write of a build, as the store is given it. -/
theorem storable_of_made {o : Outcome} (now : UInt64) (hmade : (Step.persist o).PersistsMade env)
    (hwhole : (Step.persist o).PersistsWhole) : (Impl.storedArtifact now o).Storable := by
  obtain ⟨gen, hmade⟩ := hmade
  obtain ⟨hfinal, hsized, hlength, hne⟩ := hwhole
  exact ⟨⟨hfinal, hlength, congrArg some hmade.bytesSha256⟩, hsized, hne⟩

/-- One section. -/
theorem exec_holding {l : Step} {s s' : Impl} (h : exec env l s = some s') (hl : l.Proper)
    (hwrites : env.Writes) (hmade : l.PersistsMade env) (hwhole : l.PersistsWhole)
    (hs : s.store.Holding held) : s'.store.Holding (l.keptIn env s held) := by
  by_cases hstore : l.isStore = true
  · obtain ⟨-, rfl⟩ := exec_eq_some.mp h
    cases l with
    | persist o =>
      obtain ⟨hclear, hblob⟩ := hwrites s.tick
      have hput := storable_of_made (env.now s.tick) hmade hwhole
      exact ⟨FilePersistenceStore.put_tmp hclear _ hs.tmp, FilePersistenceStore.put_named hs.named,
        fun id => FilePersistenceStore.Stands.put hs.stands hclear hblob hput id⟩
    | recoverRead => exact ⟨rfl, hs.named, hs.stands⟩
    | _ => cases hstore
  · have hkept : l.keptIn env s held = held := by
      cases l with
      | persist o => exact absurd rfl hstore
      | _ => rfl
    rw [exec_store h hl (by simpa using hstore), hkept]
    exact hs

/-- **The root of one process**, between any two of its sections. -/
theorem runs_holding (h : CacheRuns env root tr pool) (hwrites : env.Writes)
    (hwhole : ∀ e ∈ tr, e.label.PersistsWhole) (hroot : root.Holding held) :
    pool.shared.store.Holding (keptBy env held tr) := by
  have hmade := runs_persistMade h
  have hproper := runs_proper h
  induction h with
  | refl => exact hroot
  | spawn h _ ih => exact ih hwhole hmade hproper
  | step h hi hstep ih =>
    rw [List.forall_mem_append, List.forall_mem_singleton] at hwhole hmade hproper
    rw [keptBy_concat]
    exact exec_holding hstep hproper.2 hwrites hmade.2 hwhole.2 (ih hwhole.1 hmade.1 hproper.1)

/-- The root after any number of processes. -/
theorem lives_holding {lives : List (Env × List (Event Step Impl))} (h : Lives lives root)
    (hwrites : ∀ life ∈ lives, life.1.Writes)
    (hwhole : ∀ life ∈ lives, ∀ e ∈ life.2, e.label.PersistsWhole) :
    root.Holding (keptByAll lives) := by
  induction h with
  | unused => exact FilePersistenceStore.holding_empty
  | next h hrun ih =>
    rw [List.forall_mem_append, List.forall_mem_singleton] at hwrites hwhole
    have hkept := runs_holding hrun hwrites.2 hwhole.2 (ih hwrites.1 hwhole.1)
    simpa only [keptByAll, List.foldl_append, List.foldl_cons, List.foldl_nil] using hkept

end Runs

/-! ## The recovery of the next process -/

section Recovery

variable {env : Env} {root : FilePersistenceStore} {held : Map ArtifactId StoredArtifact}

/-- The artifacts of the map are under their own ids. -/
theorem FilePersistenceStore.Holding.own (h : root.Holding held) {id : ArtifactId}
    {a : StoredArtifact} (ha : held.lookup id = some a) : a.id = id ∧ a.key.IsFinal := by
  have hstands := h.stands id
  rw [ha] at hstands
  obtain ⟨b, hb, rfl, rfl, -⟩ := hstands
  exact ⟨rfl, hb.final⟩

/-- What the scan finds under an id is what the map holds. -/
theorem FilePersistenceStore.Holding.find? (h : root.Holding held) {found : List StoredArtifact}
    (hfound : found.Perm (held.keys.filterMap held.lookup)) (id : ArtifactId) :
    found.find? (fun a => a.id = id) = held.lookup id := by
  cases hfind : found.find? (fun a => a.id = id) with
  | none =>
    cases hheld : held.lookup id with
    | none => rfl
    | some a =>
      have hmem : a ∈ found := hfound.mem_iff.mpr (List.mem_filterMap.mpr
        ⟨id, AList.mem_keys.mp (AList.lookup_isSome.mp (by rw [hheld]; rfl)), hheld⟩)
      have hother := List.find?_eq_none.mp hfind a hmem
      simp [(h.own hheld).1] at hother
  | some a =>
    have hid : a.id = id := by simpa using List.find?_some hfind
    obtain ⟨id', -, hheld⟩ := List.mem_filterMap.mp (hfound.mem_iff.mp (List.mem_of_find?_eq_some hfind))
    rw [← hid, (h.own hheld).1, hheld]

/-- The ids of what the scan finds. -/
theorem FilePersistenceStore.Holding.ids (h : root.Holding held) :
    (held.keys.filterMap held.lookup).map (·.id) = held.keys := by
  rw [List.map_filterMap]
  have hall : ∀ id ∈ held.keys, (held.lookup id).map (·.id) = some id := by
    intro id hid
    obtain ⟨a, ha⟩ := Option.isSome_iff_exists.mp (AList.lookup_isSome.mpr (AList.mem_keys.mpr hid))
    rw [ha, Option.map_some, (h.own ha).1]
  rw [List.filterMap_congr hall, List.filterMap_some]

/-- The texts that `recover` reports are those of its scan. -/
theorem recoverImpl_reports {s s' : Impl} {count : Nat} {rejected orphans : List Str}
    (h : (recoverImpl env).run (exec env) s = some (.ok (count, rejected, orphans), s'))
    (hopen : env.cfg.persistenceOpen = true) :
    rejected = (s.store.scan (env.dirOrder s.tick s.store.artifacts.keys)).2 := by
  unfold recoverImpl at h
  rw [hopen] at h
  simp only [Bool.not_true, Bool.false_eq_true, if_false, Prog.bind_eq, Prog.run_of_bind] at h
  obtain ⟨out, s₁, hread, n, s₂, -, _, s₃, -, h⟩ := h
  obtain ⟨-, rfl⟩ := Prog.run_sect.mp hread
  cases h
  rfl

/-- **A recovery of a fresh cache** on a root that holds a map. -/
theorem recover_holding (hopen : env.cfg.persistenceOpen = true) (h : root.Holding held) : ∃ s',
    (recoverImpl env).run (exec env) (Impl.initial root) =
      some (.ok (held.keys.length, [], []), s') ∧
    ∀ id, (s'.byId.lookup id).map s'.records =
      (held.lookup id).map (Impl.recoveredRecord (env.now 1)) := by
  obtain ⟨count, rejected, s', hrun, hrestores, -⟩ :=
    recover_idempotent env hopen (Impl.initial root) rfl
  have hnames := env.dirOrder_perm 0 root.artifacts.keys
  obtain ⟨hperm, hnone⟩ := FilePersistenceStore.scan_perm h.stands hnames h.named
  have hfound : (foundIn env 0 root).Perm (held.keys.filterMap held.lookup) := by
    rw [← recover_found]
    exact hperm
  have hempty : ∀ id, (Impl.initial root).byId.lookup id = none := fun id => AList.lookup_empty _
  have hcount : count = held.keys.length := by
    have hnew : ((foundIn env 0 root).map (·.id)).toFinset.filter
        (fun id => (Impl.initial root).byId.lookup id = none) = held.keys.toFinset := by
      rw [Finset.filter_true_of_mem fun id _ => hempty id]
      exact List.toFinset_eq_of_perm _ _ (h.ids ▸ hfound.map _)
    have hcard := hrestores.count
    rw [show (Impl.initial root).tick = 0 from rfl, show (Impl.initial root).store = root from rfl,
      hnew, List.toFinset_card_of_nodup held.keys_nodup] at hcard
    exact hcard
  have hrejected : rejected = [] := (recoverImpl_reports hrun hopen).trans hnone
  have horphans : (Impl.initial root).store.tmp.keys = [] := h.tmp
  refine ⟨s', ?_, fun id => ?_⟩
  · rw [hrun, hcount, hrejected, horphans]
  · have hfind := h.find? hfound id
    cases hheld : held.lookup id with
    | none =>
      rw [hheld] at hfind
      rw [hrestores.absent id (hempty id) hfind]
      rfl
    | some a =>
      rw [hheld] at hfind
      obtain ⟨p, -, -, hbound, hrec⟩ := hrestores.first id a (hempty id) hfind
      have hkey : a.key.ensureFinalized = a.key := by
        rw [KernelCompatibilityKey.ensureFinalized, (h.own hheld).2.1]
        rfl
      rw [hbound, Option.map_some, Option.map_some, hrec, hkey]
      rfl

/-- **What was persisted is there after a restart.** Any number of processes have used a root one after
the other, each with any number of threads in any interleaving, and each ended between any two of its
sections; their store writes came off, and what they persisted can be read back.  Then the recovery of a
fresh process reads every file of the root and finds nothing to reject or to clean up; it answers how
many ids were ever persisted; and the cache has exactly one record for each of them, that of the LAST
artifact persisted under the id. -/
theorem restart_restores {lives : List (Env × List (Event Step Impl))} (h : Lives lives root)
    (hwrites : ∀ life ∈ lives, life.1.Writes)
    (hwhole : ∀ life ∈ lives, ∀ e ∈ life.2, e.label.PersistsWhole)
    (hopen : env.cfg.persistenceOpen = true) : ∃ s',
    (recoverImpl env).run (exec env) (Impl.initial root) =
      some (.ok ((keptByAll lives).keys.length, [], []), s') ∧
    ∀ id, (s'.byId.lookup id).map s'.records =
      ((keptByAll lives).lookup id).map (Impl.recoveredRecord (env.now 1)) :=
  recover_holding hopen (lives_holding h hwrites hwhole)

end Recovery

/-- A backend that builds one byte and says so, over a store. -/
def storingEnv : Env where
  backends := [{ stubBackend with
    builder := some { canBuild := fun _ => true
                      build := fun _ _ => .ok { bytes := [1], sizes := { artifactBytes := 1 } } } }]
  cfg := { persistenceOpen := true }

/-- A process that builds the default key and is killed once the artifact is stored. -/
theorem storing_run : ∃ tr pool id a, CacheRuns storingEnv {} tr pool ∧
    (∀ e ∈ tr, e.label.PersistsWhole) ∧
    keptBy storingEnv ∅ tr = (∅ : Map ArtifactId StoredArtifact).insert id a ∧ a.bytes = [1] := by
  have hstart : Runs (exec storingEnv) (fun p => p = (Operation.build {}).prog storingEnv)
      ⟨Impl.initial {}, []⟩ [] ⟨Impl.initial {}, [(Operation.build {}).prog storingEnv]⟩ :=
    Runs.refl.spawn rfl
  -- join, build, count, report, count, keep the promise
  have hpromised := (((((hstart.step (i := 0) rfl rfl).step (i := 0) rfl rfl).step (i := 0) rfl
    rfl).step (i := 0) rfl rfl).step (i := 0) rfl rfl).step (i := 0) rfl rfl
  have herased := hpromised.step (i := 0) rfl (exec_eraseFence_own (AList.lookup_insert _))
  have hstored := ((herased.step (i := 0) rfl rfl).step (i := 0) rfl rfl).step (i := 0) rfl rfl
  refine ⟨_, _, _, _, hstored.of_pool (fun p hp => absurd hp List.not_mem_nil) fun p hp => ⟨_, hp⟩,
    ?_, rfl, rfl⟩
  intro x hx
  simp only [List.mem_append, List.mem_singleton, List.not_mem_nil, false_or] at hx
  -- the last section is the store write
  rcases hx with ((((((((rfl | rfl) | rfl) | rfl) | rfl) | rfl) | rfl) | rfl) | rfl) | rfl
  all_goals try exact trivial
  exact ⟨storedSample_final [1], storedSample_sized [1], rfl, List.cons_ne_nil _ _⟩

/-- The next process finds that artifact, and no other. -/
theorem restart_restores_killed : ∃ tr pool id a s', CacheRuns storingEnv {} tr pool ∧
    (recoverImpl storingEnv).run (exec storingEnv) (Impl.initial pool.shared.store) =
      some (.ok (1, [], []), s') ∧
    (s'.byId.lookup id).map s'.records = some (Impl.recoveredRecord 0 a) ∧ a.bytes = [1] := by
  obtain ⟨tr, pool, id, a, hrun, hwhole, hkept, hbytes⟩ := storing_run
  have hlives : Lives [(storingEnv, tr)] pool.shared.store := .next .unused hrun
  have hwrites : ∀ life ∈ [(storingEnv, tr)], life.1.Writes :=
    List.forall_mem_singleton.mpr fun _ => ⟨rfl, rfl⟩
  have hopen : storingEnv.cfg.persistenceOpen = true := rfl
  obtain ⟨s', hrecover, hrecords⟩ :=
    restart_restores hlives hwrites (List.forall_mem_singleton.mpr hwhole) hopen
  have hheld : keptByAll [(storingEnv, tr)] = (∅ : Map ArtifactId StoredArtifact).insert id a := hkept
  have hid := hrecords id
  rw [hheld] at hrecover hid
  rw [AList.lookup_insert] at hid
  exact ⟨tr, pool, id, a, s', hrun, hrecover, hid, hbytes⟩

end KernelCache
