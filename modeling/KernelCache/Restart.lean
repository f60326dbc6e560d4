/-
# KernelCache.Restart — a second cache on the root a first one has left.

A mark, `invalidated_` or `corrupt_`, is a field of a record in memory; no operation writes it to the
root, and `recover_impl` takes every artifact the root yields for validated and eligible.  So what a
restart forgets is decided by the files alone: whatever comes back under an id was named by a
metadata file in the root (`FilePersistenceStore.Holds`), or the second cache put or built it itself
(`restart_only_held`).  An artifact that was persisted before it was invalidated does come back
(`restart_readmits`).

The argument follows the metadata files through the run of the second cache.  A store write, failed
or not, leaves metadata of its own artifact at most (`put_holds`), and that one is in the index
already; so the files never name an id that is neither old nor accounted for (`Impl.Accounted`), and
`recover_impl` inserts nothing else.
-/
import KernelCache.Crash
import KernelCache.ModulePath

namespace KernelCache

open Foundation (Bytes Prog Runs Pool Event Stable)
open Foundation.Prog (sect perform Free Sat)
open FilePersistenceStore (fullMeta withBoth_accepted accepted_congr accepted_blobName scan_eq)

/-! ## Metadata in the root -/

namespace FilePersistenceStore

/-- The root has a metadata file that names the id. -/
def Holds (st : FilePersistenceStore) (id : ArtifactId) : Prop :=
  ∃ name text, (metaStem? name).isSome = true ∧ st.artifacts.lookup name = some text ∧ Names text id

variable {st : FilePersistenceStore}

/-- What `recover` reads from a directory entry is held. -/
theorem holds_of_accepted {name : Str} {a : StoredArtifact} (h : st.accepted name = some a) :
    st.Holds a.id := by
  unfold accepted at h
  split at h
  · cases h
  · rename_i idh hstem
    simp only at h
    split at h
    · cases h
    · rename_i hne
      cases hlook : st.artifacts.lookup name with
      | none =>
        rw [hlook] at hne
        exact absurd rfl hne
      | some text =>
        rw [hlook, Option.getD_some] at h
        refine ⟨name, text, by rw [hstem]; rfl, hlook, st.artifacts.lookup (idh ++ str ".blob"), a, ?_⟩
        cases hparse : parseArtifactInner text (st.artifacts.lookup (idh ++ str ".blob")) with
        | error e =>
          rw [hparse] at h
          cases h
        | ok b =>
          rw [hparse] at h
          cases h
          exact ⟨rfl, rfl⟩

/-- A renamed file is the temporary one. -/
theorem rename_lookup {tmpName target name : Str} {data : Bytes}
    (h : (st.rename tmpName target).artifacts.lookup name = some data) :
    st.artifacts.lookup name = some data ∨
      (name = target ∧ data = (st.tmp.lookup tmpName).getD []) := by
  by_cases hname : name = target
  · subst hname
    have hself : (st.rename tmpName name).artifacts.lookup name =
        some ((st.tmp.lookup tmpName).getD []) := AList.lookup_insert _
    rw [hself] at h
    exact .inr ⟨rfl, (Option.some.inj h).symm⟩
  · exact .inl ((AList.lookup_insert_ne hname).symm.trans h)

/-- An installed file is the temporary one; the others stay or go. -/
theorem install_lookup {tmpName target name : Str} {failFirst failRemove failAgain ok : Bool}
    {data : Bytes} {st' : FilePersistenceStore}
    (hinstall : st.install tmpName target failFirst failRemove failAgain = (ok, st'))
    (h : st'.artifacts.lookup name = some data) :
    st.artifacts.lookup name = some data ∨
      (name = target ∧ data = (st.tmp.lookup tmpName).getD []) := by
  unfold install at hinstall
  cases failFirst with
  | false =>
    cases hinstall
    exact rename_lookup h
  | true =>
    cases failRemove with
    | true =>
      cases failAgain with
      | false =>
        cases hinstall
        exact rename_lookup h
      | true =>
        cases hinstall
        exact .inl h
    | false =>
      cases failAgain with
      | false =>
        cases hinstall
        exact (rename_lookup h).imp_left lookup_of_lookup_erase
      | true =>
        cases hinstall
        exact .inl (lookup_of_lookup_erase h)

/-- **A store write, whatever fails.** It leaves metadata of its own artifact at most. -/
theorem put_holds {faults : PutFaults} {a : StoredArtifact} (ha : a.PrintableSha) {id : ArtifactId}
    (h : (st.put faults a).2.Holds id) : st.Holds id ∨ id = a.id := by
  obtain ⟨name, text, hmeta, hlook, hnames⟩ := h
  have hblob : name ≠ blobName a.id := by
    rintro rfl
    rw [metaStem?_blobName] at hmeta
    cases hmeta
  suffices hfiles : st.artifacts.lookup name = some text ∨ text = fullMeta a by
    rcases hfiles with hold | rfl
    · exact .inl ⟨name, text, hmeta, hold, hnames⟩
    · exact .inr (fullMeta_names ha hnames)
  unfold put at hlook
  dsimp only at hlook
  split at hlook
  · exact .inl hlook
  · split at hlook
    · rename_i hinstall
      exact .inl ((install_lookup hinstall hlook).resolve_right fun hnew => hblob hnew.1)
    · rename_i st₁ hinstall
      -- the blob is in place; what it replaced was no metadata
      have hfirst : ∀ data, st₁.artifacts.lookup name = some data →
          st.artifacts.lookup name = some data :=
        fun data hdata => (install_lookup hinstall hdata).resolve_right fun hnew => hblob hnew.1
      split at hlook
      · exact .inl (hfirst text hlook)
      · have hwritten : ∀ mtmp, ((st₁.tmp.insert mtmp (fullMeta a)).lookup mtmp).getD [] =
            fullMeta a := by
          intro mtmp
          rw [AList.lookup_insert, Option.getD_some]
        split at hlook
        · rename_i hinstall'
          rcases install_lookup hinstall' hlook with hold | ⟨-, hnew⟩
          · exact .inl (hfirst text hold)
          · exact .inr (hnew.trans (hwritten _))
        · rename_i hinstall'
          rcases install_lookup hinstall' hlook with hold | ⟨-, hnew⟩
          · exact .inl (hfirst text hold)
          · exact .inr (hnew.trans (hwritten _))

end FilePersistenceStore

/-! ## Store writes are backed by the index -/

/-- What a build writes to the store is in the index, and its checksum is plain text. -/
def Step.Backed (l : Step) (s : Impl) : Prop :=
  match l with
  | .persist o => (s.byId.lookup o.desc.id).isSome = true ∧ Printable o.desc.bytesSha256
  | _ => True

/-- A build names its bytes by their checksum. -/
theorem Outcome.Made.bytesSha256 {env : Env} {gen : ArtifactGeneration} {o : Outcome}
    (h : o.Made env gen) : o.desc.bytesSha256 = toHex (Sha256.digest o.bytes) := by
  obtain ⟨-, -, -, -, tick, br, res, vd, -, hdesc, hbytes⟩ := h.from_builder
  rw [hdesc, hbytes]
  rfl

theorem Outcome.Made.printable {env : Env} {gen : ArtifactGeneration} {o : Outcome}
    (h : o.Made env gen) : Printable o.desc.bytesSha256 := by
  rw [h.bytesSha256]
  exact toHex_printable _

section Backed

variable {env : Env}

abbrev Backs (l : Step) (s _s' : Impl) : Prop := l.Backed s

theorem stable_indexed (id : ArtifactId) :
    Stable (exec env) ProperSteps (fun s => (s.byId.lookup id).isSome = true) := by
  intro l s s' hs h hl
  obtain ⟨p, hp⟩ := Option.isSome_iff_exists.mp hs
  rw [(exec_extends h hl).keeps id p hp]
  rfl

theorem walk_backs : Walk (Guaranteed env ProperSteps Backs) Stage.noBuild := by
  refine walk_guaranteed fun l s s' _ _ _ hstage => ?_
  cases l with
  | persist o => exact hstage.elim
  | _ => exact trivial

/-- The id is in the index once its record has been published. -/
theorem exec_publish_indexed {fence : Nat} {o : Outcome} {s s' : Impl}
    (h : exec env (.publish fence o) s = some s') (hid : o.desc.id = o.id) :
    (s'.byId.lookup o.desc.id).isSome = true := by
  rw [hid]
  cases hfree : s.byId.lookup o.id with
  | none =>
    rw [(exec_publish_new h hid hfree).2.1]
    rfl
  | some p =>
    have hkeep : s'.byId.lookup o.id = some p := by
      obtain ⟨-, rfl⟩ := exec_eq_some.mp h
      show (s.publish env o).2.byId.lookup o.id = some p
      rw [Impl.publish, hfree]
      exact hfree
    rw [hkeep]
    rfl

theorem builds_backs : BuildsWith env ProperSteps Backs (fun _ _ => True)
    (fun o s => Printable o.desc.bytesSha256 ∧ (s.byId.lookup o.desc.id).isSome = true) where
  stable _ := Stable.const _ _ _
  stable_published o := (Stable.const _ _ _).and (stable_indexed _)
  join _ _ _ _ _ := ⟨trivial, fun _ _ _ => trivial⟩
  publish _ _ _ _ _ ho _ h _ :=
    ⟨trivial, fun _ => ⟨ho.printable, exec_publish_indexed h ho.desc_id⟩⟩
  persist _ _ _ hs _ _ := ⟨hs.2, hs.1⟩
  other l _ _ _ _ hl _ _ := by
    cases l with
    | persist o => cases hl
    | _ => exact trivial

end Backed

section Runs

variable {env : Env} {store : FilePersistenceStore} {tr : List (Event Step Impl)}
  {pool : Pool Step Impl Answer}

theorem runs_backed (h : CacheRuns env store tr pool) : ∀ e ∈ tr, e.label.Backed e.before := by
  refine Runs.guarantee (C := ProperSteps) (G := Backs) (fun q hq => ?_) h (runs_proper h)
  obtain ⟨op, rfl⟩ := hq
  exact operation_free_of_builds walk_backs builds_backs.buildImpl op

/-! ## What the root names is old or in the index -/

/-- Every id that a metadata file names is one of the old ones or in the index. -/
def Impl.Accounted (old : ArtifactId → Prop) (s : Impl) : Prop :=
  ∀ id, s.store.Holds id → old id ∨ (s.byId.lookup id).isSome = true

variable {old : ArtifactId → Prop}

theorem exec_accounted {l : Step} {s s' : Impl} (h : exec env l s = some s') (hl : l.Proper)
    (hb : l.Backed s) (hs : s.Accounted old) : s'.Accounted old := by
  intro id hheld
  have hkeep : old id ∨ (s.byId.lookup id).isSome = true →
      old id ∨ (s'.byId.lookup id).isSome = true :=
    fun hid => hid.imp_right fun hsome => stable_indexed id l s s' hsome h hl
  by_cases hstore : l.isStore = true
  · refine hkeep ?_
    obtain ⟨-, rfl⟩ := exec_eq_some.mp h
    cases l with
    | persist o =>
      have hput : (s.store.put (env.putFaults s.tick)
          (Impl.storedArtifact (env.now s.tick) o)).2.Holds id := hheld
      have hsha : (Impl.storedArtifact (env.now s.tick) o).PrintableSha := hb.2
      rcases FilePersistenceStore.put_holds hsha hput with hold | rfl
      · exact hs id hold
      · exact .inr hb.1
    | recoverRead => exact hs id hheld
    | _ => cases hstore
  · rw [exec_store h hl (by simpa using hstore)] at hheld
    exact hkeep (hs id hheld)

theorem runs_accounted (h : CacheRuns env store tr pool) :
    (∀ e ∈ tr, e.before.Accounted store.Holds) ∧ pool.shared.Accounted store.Holds := by
  have hinv := Runs.invariant (I := fun s => s.Accounted store.Holds) (fun _ h => .inl h) h
    fun e he hs => exec_accounted (h.event_step e he) (runs_proper h e he) (runs_backed h e he) hs
  exact ⟨fun e he => (hinv.1 e he).1, hinv.2⟩

/-- What a recovery inserts is old or in the index already. -/
def Step.Restores (old : ArtifactId → Prop) (l : Step) (s : Impl) : Prop :=
  match l with
  | .recoverInsert artifacts => ∀ a ∈ artifacts, old a.id ∨ (s.byId.lookup a.id).isSome = true
  | _ => True

structure AccountedSteps (old : ArtifactId → Prop) (l : Step) (s _s' : Impl) : Prop where
  proper : l.Proper
  accounted : s.Accounted old

/-- All but the stage of recoveries. -/
def Stage.noRecover : Stage → Prop
  | .recover => False
  | _ => True

theorem walk_restores : Walk (Guaranteed env (AccountedSteps old) fun l s _ => l.Restores old s)
    Stage.noRecover := by
  refine walk_guaranteed fun l s s' _ _ _ hstage => ?_
  cases l with
  | recoverInsert artifacts => exact hstage.elim
  | _ => exact trivial

/-- What is read from the root is old or in the index, and stays so until it is inserted. -/
theorem recoverImpl_restores : (recoverImpl env).Free (exec env) (AccountedSteps old)
    fun l s _ => l.Restores old s := by
  unfold recoverImpl
  split
  · exact Sat.ret fun _ _ => trivial
  · refine Sat.bind (Q := fun out s => ∀ a ∈ out.1, old a.id ∨ (s.byId.lookup a.id).isSome = true)
      (Sat.sect ?_ ?_) fun out => ?_
    · intro out l s s' hs h hC a ha
      exact (hs a ha).imp_right fun hsome => stable_indexed a.id l s s' hsome h hC.proper
    · intro s s' _ h hC
      refine ⟨trivial, fun a ha => ?_⟩
      have hscan : a ∈ (s.store.scan (env.dirOrder s.tick s.store.artifacts.keys)).1 := ha
      rw [FilePersistenceStore.scan_eq] at hscan
      obtain ⟨name, -, haccepted⟩ := List.mem_filterMap.mp hscan
      exact (hC.accounted a.id (FilePersistenceStore.holds_of_accepted haccepted)).imp_right
        fun hsome => stable_indexed a.id _ s s' hsome h hC.proper
    · obtain ⟨valid, rejected, orphans⟩ := out
      refine Sat.bind (Q := fun _ _ => True) (Sat.sect (fun _ => Stable.const _ _ True) ?_)
        fun count => ?_
      · exact fun s _ hs _ _ => ⟨hs, trivial⟩
      · exact Sat.bind (walk_restores.perform trivial trivial) fun _ => Sat.ret fun _ _ => trivial

theorem promoteToTier_restores (p : Nat) (desired : ResidencyTier) (device : DeviceDescriptor) :
    (promoteToTier env p desired device).Free (exec env) (AccountedSteps old)
      fun l s _ => l.Restores old s :=
  walk_restores.promotes trivial trivial trivial (walk_restores.evictImpl trivial trivial) p desired
    device

theorem pieces_restores : Walk.Pieces env
    (Guaranteed env (AccountedSteps old) fun l s _ => l.Restores old s) where
  evict := walk_restores.evictImpl trivial trivial
  load := walk_restores.loadOp trivial promoteToTier_restores
  unload := walk_restores.unloadOp trivial trivial
  validate := walk_restores.validateOp trivial trivial
  put := walk_restores.putOp trivial
  release := walk_restores.releaseLease trivial
  recover := recoverImpl_restores

theorem buildImpl_restores (request : KernelLookupRequest) :
    (buildImpl env request).Free (exec env) (AccountedSteps old) fun l s _ => l.Restores old s :=
  walk_restores.buildImpl trivial trivial (walk_restores.sect trivial trivial fun _ => trivial)
    (fun _ _ => walk_restores.perform trivial trivial)
    fun _ _ => walk_restores.perform trivial trivial

theorem runs_restores (h : CacheRuns env store tr pool) :
    ∀ e ∈ tr, e.label.Restores store.Holds e.before := by
  refine Runs.guarantee (C := AccountedSteps store.Holds)
    (G := fun l s _ => l.Restores store.Holds s) (fun q hq => ?_) h fun e he => ?_
  · obtain ⟨op, rfl⟩ := hq
    exact walk_restores.operation trivial pieces_restores buildImpl_restores (fun _ =>
      walk_restores.acquireImpl trivial (buildImpl_restores _)
        (walk_restores.leaseRecord trivial trivial promoteToTier_restores)) op
  · exact ⟨runs_proper h e he, (runs_accounted h).1 e he⟩

/-! ## What comes back -/

/-- The section puts or publishes an artifact under the id. -/
def Step.Issues (id : ArtifactId) : Step → Prop
  | .put desc _ => desc.id = id
  | .publish _ o => o.id = id
  | _ => False

/-- An id that is neither old nor issued stays out of the index. -/
theorem exec_unknown {l : Step} {s s' : Impl} {id : ArtifactId} (h : exec env l s = some s')
    (hl : l.Proper) (hrestores : l.Restores old s) (hold : ¬ old id) (hissue : ¬ l.Issues id)
    (hs : s.byId.lookup id = none) : s'.byId.lookup id = none := by
  cases hlook : s'.byId.lookup id with
  | none => rfl
  | some p =>
    have hext := exec_extends h hl
    rcases hext.new id p hlook with hsome | ⟨-, hge, hlt, hrec⟩
    · rw [hs] at hsome
      cases hsome
    · obtain ⟨r, hr, heq⟩ := hext.fresh p hge hlt
      have hid : r.id = id := by
        rw [← hrec, heq]
      cases l with
      | put desc bytes =>
        cases List.mem_singleton.mp hr
        exact absurd hid hissue
      | publish fence o =>
        cases List.mem_singleton.mp hr
        exact absurd (hl.2.symm.trans hid) hissue
      | recoverInsert artifacts =>
        obtain ⟨a, ha, rfl⟩ := List.mem_map.mp hr
        rcases hrestores a ha with hold' | hsome
        · exact absurd (hid ▸ hold') hold
        · rw [show a.id = id from hid, hs] at hsome
          cases hsome
      | _ => cases hr

theorem runs_unknown (h : CacheRuns env store tr pool) {id : ArtifactId} (hgone : ¬ store.Holds id)
    (hissue : ∀ e ∈ tr, ¬ e.label.Issues id) :
    (∀ e ∈ tr, e.before.byId.lookup id = none) ∧ pool.shared.byId.lookup id = none := by
  have hinv := Runs.invariant (I := fun s => s.byId.lookup id = none) rfl h fun e he hs =>
    exec_unknown (h.event_step e he) (runs_proper h e he) (runs_restores h e he) hgone
      (hissue e he) hs
  exact ⟨fun e he => (hinv.1 e he).1, hinv.2⟩

end Runs

/-- The record of the id is invalidated or corrupt. -/
def Impl.Marked (s : Impl) (id : ArtifactId) : Prop :=
  ∃ p, s.byId.lookup id = some p ∧
    ((s.records p).invalidated = true ∨ (s.records p).corrupt = true)

/-- **Only what the root names comes back.** A first cache has marked an id and leaves its root to a
second cache.  Unless a metadata file in that root names the id, or the second cache puts or publishes
an artifact under it, no lookup of the second cache is a hit on it and no record with it is leased, in
whatever interleaving of operations, recoveries included. -/
theorem restart_only_held {env env' : Env} {store : FilePersistenceStore}
    {tr tr' : List (Event Step Impl)} {pool pool' : Pool Step Impl Answer} {id : ArtifactId} :
    CacheRuns env store tr pool → pool.shared.Marked id →
    CacheRuns env' pool.shared.store tr' pool' → ¬ pool.shared.store.Holds id →
    (∀ e ∈ tr', ¬ e.label.Issues id) →
    (∀ key policy, (pool'.shared.lookup key policy).artifact ≠ some id) ∧
    ∀ e ∈ tr', ∀ p pin lease, e.label = .grantLease p pin →
      (e.before.grantLease env' p pin).1 = .ok lease → (e.before.records p).id ≠ id := by
  intro _ _ h hgone hissue
  obtain ⟨hbefore, hend⟩ := runs_unknown h hgone hissue
  refine ⟨fun key policy hhit => ?_, fun e he p pin lease hlabel _ hid => ?_⟩
  · obtain ⟨p, hit⟩ := (runs_sound h).2.hit hhit
    rw [hit.bound] at hend
    cases hend
  · have hthere := runs_grounded h e he
    rw [hlabel] at hthere
    have hindexed := ((runs_sound h).1 e he).1.indexed p hthere
    rw [hid, hbefore e he] at hindexed
    cases hindexed

/-- An artifact that is put and invalidated, and another cache on the empty root. -/
theorem restart_only_held_sample : ∃ tr pool, CacheRuns {} {} tr pool ∧
    pool.shared.Marked ⟨⟨0, 7⟩⟩ ∧ ¬ pool.shared.store.Holds ⟨⟨0, 7⟩⟩ ∧
    CacheRuns {} pool.shared.store [⟨0, .put sampleArtifact [1], Impl.initial {}, putState⟩]
      ⟨putState, [.ret (.id ⟨⟨1, 7⟩⟩)]⟩ ∧
    ∀ key policy, (putState.lookup key policy).artifact ≠ some ⟨⟨0, 7⟩⟩ := by
  have hplay : ∃ tr pool, play {} {} [.start (.put { id := ⟨⟨0, 7⟩⟩ } [1]), .step 0,
        .start (.invalidate { target := .all }), .step 1] = some (tr, pool) ∧
      pool.shared.byId.lookup ⟨⟨0, 7⟩⟩ = some 0 ∧
      (pool.shared.records 0).invalidated = true ∧ pool.shared.store = {} :=
    ⟨_, _, rfl, by rfl, by rfl, by rfl⟩
  obtain ⟨tr, pool, hplay, hbound, hmark, hstore⟩ := hplay
  have hruns := CacheRuns.of_play hplay
  have hmarked : pool.shared.Marked ⟨⟨0, 7⟩⟩ := ⟨0, hbound, .inl hmark⟩
  have hgone : ¬ pool.shared.store.Holds ⟨⟨0, 7⟩⟩ := by
    rw [hstore]
    rintro ⟨name, text, -, hlook, -⟩
    cases hlook
  have hsecond : CacheRuns {} pool.shared.store
      [⟨0, .put sampleArtifact [1], Impl.initial {}, putState⟩]
      ⟨putState, [.ret (.id ⟨⟨1, 7⟩⟩)]⟩ := by
    rw [hstore]
    exact putState_runs
  refine ⟨tr, pool, hruns, hmarked, hgone, hsecond, ?_⟩
  refine (restart_only_held hruns hmarked hsecond hgone fun e he => ?_).1
  cases List.mem_singleton.mp he
  show ¬ sampleArtifact.id = ⟨⟨0, 7⟩⟩
  decide

/-! ## A persisted artifact comes back -/

/-- A cache with an open store. -/
def openEnv : Env := { cfg := { persistenceOpen := true } }

/-- A fresh cache after a recovery that found one artifact. -/
def recoveredState (root : FilePersistenceStore) (b : StoredArtifact) : Impl :=
  { (Impl.initial { root with tmp := ∅ }).insertIndexLocked (Impl.recoveredRecord 0 b) with
    stats := { persistentReloads := 1 }, tick := 2 }

/-- The recovery of a root in which `recover` finds one artifact, whatever the backends. -/
theorem recoveredState_runs {backends : List KernelBackend}
    (hnodup : (backends.map KernelBackend.name).Nodup) {root : FilePersistenceStore}
    {b : StoredArtifact} (hscan : (root.scan root.artifacts.keys).1 = [b]) :
    ∃ tr ts, CacheRuns { openEnv with backends := backends, backends_nodup := hnodup } root tr
        ⟨recoveredState root b, ts⟩ ∧
      ∀ e ∈ tr, ∀ id, ¬ e.label.Issues id := by
  let env : Env := { openEnv with backends := backends, backends_nodup := hnodup }
  have hstart : CacheRuns env root [] ⟨Impl.initial root, [Operation.recover.prog env]⟩ :=
    .spawn .refl ⟨_, rfl⟩
  have hread := hstart.step (i := 0) rfl rfl
  have hexec : exec env (.recoverInsert (root.scan root.artifacts.keys).1)
      { Impl.initial { root with tmp := ∅ } with tick := 1 } = some (recoveredState root b) := by
    rw [hscan]
    rfl
  have hinsert := hread.step (i := 0) rfl hexec
  refine ⟨_, _, hinsert, fun e he id hissues => ?_⟩
  simp only [List.nil_append, List.singleton_append, List.mem_cons, List.not_mem_nil, or_false] at he
  rcases he with rfl | rfl
  · exact hissues
  · exact hissues

theorem recoveredState_invalidate {root : FilePersistenceStore} {b : StoredArtifact} :
    (((recoveredState root b).invalidate openEnv { target := .all }).2.records 0).invalidated =
      true := by
  have hlook : (recoveredState root b).byId.lookup b.id = some 0 := AList.lookup_insert _
  have hkeys : (recoveredState root b).selected openEnv { target := .all } = [b.id] := by
    have hids : (recoveredState root b).byId.keys = [b.id] := rfl
    simp [Impl.selected, openEnv, hids, hlook, InvalidationRequest.selects]
  have hmark : ((recoveredState root b).records 0).invalidated = false := rfl
  simp only [Impl.invalidate, hkeys, Impl.invalidateAll, hlook, hmark, Bool.false_eq_true, if_false,
    Impl.bump]
  rfl

/-- A first cache recovers the artifact and invalidates it; the files stay. -/
theorem recoveredState_marked {root : FilePersistenceStore} {b : StoredArtifact}
    (hscan : (root.scan root.artifacts.keys).1 = [b]) :
    ∃ tr pool, CacheRuns openEnv root tr pool ∧ pool.shared.Marked b.id ∧
      pool.shared.store = { root with tmp := ∅ } := by
  obtain ⟨tr, ts, hrecovered, -⟩ := recoveredState_runs openEnv.backends_nodup hscan
  have hmark := (hrecovered.spawn (p := (Operation.invalidate { target := .all }).prog openEnv)
    ⟨_, rfl⟩).step (i := ts.length) (by simp; rfl) rfl
  have hlook : (recoveredState root b).byId.lookup b.id = some 0 := AList.lookup_insert _
  have hstep := hmark.event_step _ (List.mem_append_right _ List.mem_cons_self)
  have hkept := (exec_extends hstep trivial).keeps _ _ hlook
  exact ⟨_, _, hmark, ⟨0, hkept, .inl recoveredState_invalidate⟩, exec_store hstep trivial rfl⟩

/-- It is alone under the default key. -/
theorem recoveredState_holdsOne (root : FilePersistenceStore) {b : StoredArtifact}
    (hkey : b.key = ({} : KernelCompatibilityKey).finalize) : (recoveredState root b).HoldsOne b.id
      { Impl.recoveredRecord 0 b with key := b.key.ensureFinalized } := by
  refine ⟨rfl, AList.lookup_insert _, ?_, rfl⟩
  have hdigest : b.key.ensureFinalized.digest = ({} : KernelCompatibilityKey).finalize.digest := by
    rw [hkey, KernelCompatibilityKey.ensureFinalized_finalize]
  rw [← hdigest]
  exact AList.lookup_insert _

/-- A later cache that recovers it finds it under the default key. -/
theorem recoveredState_lookup (root : FilePersistenceStore) {b : StoredArtifact}
    (hkey : b.key = ({} : KernelCompatibilityKey).finalize) :
    ((recoveredState root b).lookup ({} : KernelCompatibilityKey).finalize {}).artifact = some b.id ∧
    ((recoveredState root b).lookup ({} : KernelCompatibilityKey).finalize {}).outcome =
      .persistedHit := by
  have hhit := (recoveredState_holdsOne root hkey).lookup
    (by rw [hkey, KernelCompatibilityKey.ensureFinalized_finalize]) rfl rfl {}
  rw [hhit]
  exact ⟨rfl, rfl⟩

/-- What `recover` finds in the root after one write. -/
theorem scan_putSteps (a : StoredArtifact) : 
    ((applySteps (putSteps [] a) {}).scan (applySteps (putSteps [] a) {}).artifacts.keys).1 =
      (parseArtifactInner (fullMeta a) (some a.bytes)).toOption.toList := by
  have hdir := applySteps_putSteps_artifacts [] a {}
  have hkeys : (applySteps (putSteps [] a) {}).artifacts.keys = [metaName a.id, blobName a.id] := by
    have hnew : metaName a.id ∉ (∅ : Map Str Bytes).insert (blobName a.id) a.bytes := by
      rw [AList.mem_insert]
      exact fun h => h.elim (metaName_ne_blobName a.id a.id) (AList.notMem_empty _)
    rw [hdir]
    show List.keys (AList.entries _) = _
    rw [AList.entries_insert_of_notMem hnew]
    rfl
  have hmeta : (applySteps (putSteps [] a) {}).accepted (metaName a.id) =
      (parseArtifactInner (fullMeta a) (some a.bytes)).toOption := by
    have hsame : (applySteps (putSteps [] a) {}).accepted =
        (({} : FilePersistenceStore).withBoth a).accepted := accepted_congr hdir
    rw [hsame, withBoth_accepted]
  rw [scan_eq, hkeys, List.filterMap_cons, List.filterMap_cons, accepted_blobName, hmeta]
  cases (parseArtifactInner (fullMeta a) (some a.bytes)).toOption <;> rfl

/-- A root with one artifact under the default key. -/
theorem sampleRoot : ∃ (root : FilePersistenceStore) (b : StoredArtifact),
    (root.scan root.artifacts.keys).1 = [b] ∧ b.key = ({} : KernelCompatibilityKey).finalize ∧
      b.bytes = [1] := by
  refine ⟨applySteps (putSteps [] (storedSample [1])) {},
    { (storedSample [1]).readBack with bytes := [1] }, ?_, rfl, rfl⟩
  rw [scan_putSteps, show (storedSample [1]).bytes = [1] from rfl, parse_storedSample_own (by decide)]
  rfl

/-- **An invalidated artifact comes back.** A persisted artifact is recovered and invalidated; a fresh
cache on the same root recovers it, puts and builds nothing, and the lookup is a persisted hit. -/
theorem restart_readmits : ∃ store tr pool tr' pool' id, CacheRuns openEnv store tr pool ∧
    pool.shared.Marked id ∧ CacheRuns openEnv pool.shared.store tr' pool' ∧
    (∀ e ∈ tr', ¬ e.label.Issues id) ∧
    (pool'.shared.lookup ({} : KernelCompatibilityKey).finalize {}).artifact = some id ∧
    (pool'.shared.lookup ({} : KernelCompatibilityKey).finalize {}).outcome = .persistedHit := by
  -- only what `recover` finds in the root matters
  obtain ⟨root, b, hscan, hkey, -⟩ := sampleRoot
  obtain ⟨tr, pool, hfirst, hmarked, hstore⟩ := recoveredState_marked hscan
  have hscan' : (FilePersistenceStore.scan { root with tmp := ∅ } root.artifacts.keys).1 = [b] := by
    have haccepted : FilePersistenceStore.accepted { root with tmp := ∅ } = root.accepted :=
      accepted_congr rfl
    rw [scan_eq, haccepted, ← scan_eq, hscan]
  obtain ⟨tr', ts', hsecond, hissue⟩ := recoveredState_runs openEnv.backends_nodup hscan'
  rw [← hstore] at hsecond
  exact ⟨root, tr, pool, tr', _, b.id, hfirst, hmarked, hsecond, fun e he => hissue e he b.id,
    recoveredState_lookup _ hkey⟩

end KernelCache
