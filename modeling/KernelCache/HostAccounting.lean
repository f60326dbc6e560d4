/-
# KernelCache.HostAccounting — the host size of a record and the bytes it holds (`snapshot_impl`).

A record says twice how much host memory it takes: `desc.sizes.host_bytes` is what `snapshot` and the
host budget add up, `bytes` is what is there.  They agree when a record is published.  An eviction
from host memory clears both; a reload fills the bytes again and leaves the size at 0.  So a record
that was evicted once is in host memory with a size of 0 from its next promotion on
(`reload_uncounted`), and the two agree in every state exactly when no such promotion happens
(`host_sizes_iff`).
-/
import KernelCache.HostBudget
import KernelCache.ModulePath
import KernelCache.Records
import KernelCache.Reload
import KernelCache.Restart

namespace KernelCache

open Foundation (Bytes Prog Runs Pool Event Stable)
open Foundation.Prog (sect perform Free Sat)

/-! ## The snapshot -/

/-- `Snapshot`. -/
structure Snapshot where
  artifactCount : UInt64 := 0
  artifactCountByState : ArtifactState → UInt64 := fun _ => 0
  metadataOnlyBytes : UInt64 := 0
  persistentBytes : UInt64 := 0
  hostResidentBytes : UInt64 := 0
  deviceResidentBytes : UInt64 := 0
  deviceBytesEstimated : Bool := false
  stats : Stats := {}
  cacheGeneration : CacheGeneration := 0

/-- The loop body of `snapshot_impl`. -/
def Snapshot.count (sn : Snapshot) (r : ArtifactRecord) : Snapshot :=
  let sn :=
    { sn with
      artifactCountByState :=
        Function.update sn.artifactCountByState r.state (sn.artifactCountByState r.state + 1) }
  match r.tier with
  | .metadataOnly =>
    { sn with metadataOnlyBytes := sn.metadataOnlyBytes + r.desc.sizes.artifactBytes }
  | .persistentStorage =>
    { sn with persistentBytes := sn.persistentBytes + r.desc.sizes.storageBytes }
  | .hostResident => { sn with hostResidentBytes := sn.hostResidentBytes + r.desc.sizes.hostBytes }
  | .deviceResident =>
    { sn with
      deviceResidentBytes := sn.deviceResidentBytes + r.deviceFootprint
      deviceBytesEstimated := sn.deviceBytesEstimated || r.deviceFootprintEstimated }
  | .none => sn

namespace Impl

/-- `snapshot_impl`. -/
def snapshot (env : Env) (s : Impl) : Snapshot :=
  let start : Snapshot :=
    { artifactCount := .ofNat s.byId.keys.length, cacheGeneration := s.cacheGeneration }
  let sn := (env.idOrder s.tick s.byId.keys).foldl
    (fun sn id =>
      match s.byId.lookup id with
      | some p => sn.count (s.records p)
      | none => sn) start
  { sn with stats := s.stats }

end Impl

/-- The size a record states, when it is in host memory. -/
def ArtifactRecord.statedUse (r : ArtifactRecord) : Nat :=
  if r.tier = .hostResident then r.desc.sizes.hostBytes.toNat else 0

theorem Snapshot.count_hostResidentBytes (sn : Snapshot) (r : ArtifactRecord) :
    (sn.count r).hostResidentBytes = sn.hostResidentBytes + .ofNat r.statedUse := by
  unfold Snapshot.count ArtifactRecord.statedUse
  cases r.tier with
  | hostResident => simp
  | _ => simp

/-- What the snapshot adds up under an id. -/
def Impl.statedUse (s : Impl) (id : ArtifactId) : Nat :=
  match s.byId.lookup id with
  | some p => (s.records p).statedUse
  | none => 0

/-- The snapshot adds up the sizes the records in host memory state. -/
theorem Impl.snapshot_hostResidentBytes {env : Env} {s : Impl} (hs : s.Sound) :
    (s.snapshot env).hostResidentBytes = .ofNat (s.total ArtifactRecord.statedUse) := by
  have hfold : ∀ (ids : List ArtifactId) (sn : Snapshot),
      (ids.foldl (fun sn id =>
          match s.byId.lookup id with
          | some p => sn.count (s.records p)
          | none => sn) sn).hostResidentBytes =
        sn.hostResidentBytes + .ofNat (ids.map s.statedUse).sum := by
    intro ids
    induction ids with
    | nil =>
      intro sn
      simp
    | cons id ids ih =>
      intro sn
      rw [List.foldl_cons, ih, List.map_cons, List.sum_cons, UInt64.ofNat_add, ← UInt64.add_assoc]
      congr 1
      unfold Impl.statedUse
      split
      · exact sn.count_hostResidentBytes _
      · simp
  have hsum : ((env.idOrder s.tick s.byId.keys).map s.statedUse).sum =
      s.total ArtifactRecord.statedUse := by
    refine hs.sum_ids (env.idOrder_perm s.tick _) fun p hp => ?_
    unfold Impl.statedUse
    rw [hs.indexed p hp]
  rw [← hsum]
  exact (hfold _ _).trans (UInt64.zero_add _)

/-! ## Sizes and bytes -/

/-- The builders report the number of bytes they return as the host size. -/
def Env.ReportsSizes (env : Env) : Prop :=
  ∀ backend ∈ env.backends, ∀ builder, backend.builder = some builder → ∀ tick br res,
    builder.build tick br = .ok res → res.sizes.hostBytes.toNat = res.bytes.length

namespace ArtifactRecord

/-- In host memory the stated size is the number of bytes. -/
def HostSized (r : ArtifactRecord) : Prop :=
  r.tier = .hostResident → r.desc.sizes.hostBytes.toNat = r.bytes.length

/-- The stated size is the number of bytes or has been cleared. -/
def SizeKept (r : ArtifactRecord) : Prop :=
  r.desc.sizes.hostBytes ≠ 0 → r.desc.sizes.hostBytes.toNat = r.bytes.length

end ArtifactRecord

namespace Step

/-- What is put or recovered states its size. -/
def suppliesSizes : Step → Prop
  | .put desc bytes => desc.sizes.hostBytes.toNat = bytes.length
  | .recoverInsert artifacts => ∀ a ∈ artifacts, a.sizes.hostBytes.toNat = a.bytes.length
  | _ => True

/-- No record with bytes enters host memory with its size cleared, and none gets bytes there. -/
def keepsSizes (s : Impl) : Step → Prop
  | .commitHost p => p < s.nextRecord → (s.records p).bytes ≠ [] →
      (s.records p).desc.sizes.hostBytes ≠ 0
  | .storeBytes p _ => p < s.nextRecord → (s.records p).tier ≠ .hostResident
  | _ => True

/-- What a build publishes states its size, and a reload fills a record whose size is cleared. -/
def Sized (l : Step) (s : Impl) : Prop :=
  match l with
  | .publish _ o => o.desc.sizes.hostBytes.toNat = o.bytes.length
  | .storeBytes p _ => p < s.nextRecord → (s.records p).desc.sizes.hostBytes = 0
  | _ => True

end Step

/-! ### One change -/

namespace ArtifactRecord

theorem HostSized.of_ne {r : ArtifactRecord} (h : r.tier ≠ .hostResident) : r.HostSized :=
  fun htier => absurd htier h

theorem HostSized.congr {r r' : ArtifactRecord} (h : r.HostSized) (htier : r'.tier = r.tier)
    (hsize : r'.desc.sizes.hostBytes = r.desc.sizes.hostBytes) (hbytes : r'.bytes = r.bytes) :
    r'.HostSized := by
  intro hin
  rw [htier] at hin
  rw [hsize, hbytes]
  exact h hin

theorem SizeKept.congr {r r' : ArtifactRecord} (h : r.SizeKept)
    (hsize : r'.desc.sizes.hostBytes = r.desc.sizes.hostBytes) (hbytes : r'.bytes = r.bytes) :
    r'.SizeKept := by
  unfold SizeKept
  rw [hsize, hbytes]
  exact h

/-- A size that is kept and empty bytes mean a size of 0. -/
theorem SizeKept.hostBytes_eq {r : ArtifactRecord} (h : r.SizeKept) (hbytes : r.bytes = []) :
    r.desc.sizes.hostBytes = 0 := by
  by_contra hne
  have hlen := h hne
  rw [hbytes] at hlen
  exact hne (UInt64.toNat_inj.mp hlen)

theorem promoteHost_hostSized {r : ArtifactRecord} (h : r.SizeKept) :
    r.promoteHost.HostSized ↔ (r.bytes ≠ [] → r.desc.sizes.hostBytes ≠ 0) := by
  constructor
  · intro hsized hne hzero
    have hlen : r.desc.sizes.hostBytes.toNat = r.bytes.length := hsized rfl
    rw [hzero] at hlen
    exact hne (List.length_eq_zero_iff.mp hlen.symm)
  · intro hcleared _
    show r.desc.sizes.hostBytes.toNat = r.bytes.length
    by_cases hzero : r.desc.sizes.hostBytes = 0
    · have hnil : r.bytes = [] := by
        by_contra hne
        exact hcleared hne hzero
      rw [hzero, hnil]
      rfl
    · exact h hzero

theorem reloaded_hostSized {r : ArtifactRecord} {bytes : Bytes} (hbytes : bytes ≠ [])
    (hzero : r.desc.sizes.hostBytes = 0) :
    (r.reloaded bytes).HostSized ↔ r.tier ≠ .hostResident := by
  constructor
  · intro hsized htier
    have hlen : r.desc.sizes.hostBytes.toNat = bytes.length := hsized htier
    rw [hzero] at hlen
    exact hbytes (List.length_eq_zero_iff.mp hlen.symm)
  · exact fun htier => HostSized.of_ne htier

/-- The changes that cannot part the size from the bytes. -/
theorem Updates.hostSized {p : Nat} {l : Step} {r r' : ArtifactRecord} (h : Updates p r l r')
    (hr : r.HostSized) :
    r'.HostSized ∨ l = .commitHost p ∨ ∃ bytes, l = .storeBytes p bytes := by
  cases h with
  | reloaded bytes => exact .inr (.inr ⟨bytes, rfl⟩)
  | promoteHost => exact .inr (.inl rfl)
  | persisted o => exact .inl (HostSized.of_ne ResidencyTier.noConfusion)
  | promoteDevice handle footprint => exact .inl (HostSized.of_ne ResidencyTier.noConfusion)
  | unloaded => exact .inl (HostSized.of_ne r.fallbackTier_ne.2)
  | evictCommit =>
    refine .inl (HostSized.of_ne ?_)
    unfold ArtifactRecord.evictCommit
    split <;> exact r.fallbackTier_ne.2
  | validatedBy res =>
    refine .inl ?_
    unfold ArtifactRecord.validatedBy
    split <;> exact hr.congr rfl rfl rfl
  | _ => exact .inl (hr.congr rfl rfl rfl)

/-- The other changes keep a size kept or clear it. -/
theorem Updates.sizeKept {p : Nat} {l : Step} {r r' : ArtifactRecord} (h : Updates p r l r')
    (hr : r.SizeKept) : r'.SizeKept ∨ ∃ bytes, l = .storeBytes p bytes := by
  cases h with
  | reloaded bytes => exact .inr ⟨bytes, rfl⟩
  | evictCommit =>
    refine .inl ?_
    unfold ArtifactRecord.evictCommit
    split
    · exact hr.congr rfl rfl
    · exact fun hne => absurd rfl hne
    · exact hr.congr rfl rfl
  | validatedBy res =>
    refine .inl ?_
    unfold ArtifactRecord.validatedBy
    split <;> exact hr.congr rfl rfl
  | _ => exact .inl (hr.congr rfl rfl)

/-- No change brings a cleared size back. -/
theorem Updates.hostBytes_zero {p : Nat} {l : Step} {r r' : ArtifactRecord} (h : Updates p r l r')
    (hr : r.desc.sizes.hostBytes = 0) : r'.desc.sizes.hostBytes = 0 := by
  cases h with
  | evictCommit =>
    unfold ArtifactRecord.evictCommit
    split
    · exact hr
    · rfl
    · exact hr
  | validatedBy res =>
    unfold ArtifactRecord.validatedBy
    split <;> exact hr
  | _ => exact hr

end ArtifactRecord

/-! ### One section -/

section OneSection

variable {env : Env}

/-- A new record states its size when what it is made of does. -/
theorem Step.offers_sizeKept {s : Impl} {l : Step} {r : ArtifactRecord} (h : r ∈ l.offers env s)
    (hsized : l.Sized s) (hin : l.suppliesSizes) : r.SizeKept := by
  cases l with
  | publish fence o =>
    obtain rfl := List.mem_singleton.mp h
    exact fun _ => hsized
  | put desc bytes =>
    obtain rfl := List.mem_singleton.mp h
    exact fun _ => hin
  | recoverInsert artifacts =>
    obtain ⟨a, ha, rfl⟩ := List.mem_map.mp h
    exact fun _ => hin a ha
  | _ => cases h

theorem exec_sizeKept {l : Step} {s s' : Impl} (h : exec env l s = some s') (hl : l.Proper)
    (hsized : l.Sized s) (hin : l.suppliesSizes) (hs : s.Every ArtifactRecord.SizeKept) :
    s'.Every ArtifactRecord.SizeKept := by
  by_cases hreload : ∃ p bytes, l = .storeBytes p bytes
  · obtain ⟨p, bytes, rfl⟩ := hreload
    rw [exec_every_rewritten h hs (p := p) (f := fun r => r.reloaded bytes) rfl rfl]
    intro hp hne
    exact absurd (hsized hp) hne
  · apply exec_every h hl hs
    · intro p r r' hupd hr
      exact (hupd.sizeKept hr).resolve_right fun ⟨bytes, heq⟩ => hreload ⟨p, bytes, heq⟩
    · exact fun r hr => (Step.offers_sizeKept hr hsized hin).congr rfl rfl

theorem exec_hostSized {l : Step} {s s' : Impl} (h : exec env l s = some s') (hl : l.Proper)
    (hsized : l.Sized s) (hkept : s.Every ArtifactRecord.SizeKept)
    (hs : s.Every ArtifactRecord.HostSized) :
    s'.Every ArtifactRecord.HostSized ↔ l.keepsSizes s := by
  cases l with
  | commitHost p =>
    rw [exec_every_rewritten h hs (p := p) rfl rfl]
    constructor
    · exact fun hafter hp => (ArtifactRecord.promoteHost_hostSized (hkept p hp)).mp (hafter hp)
    · exact fun hok hp => (ArtifactRecord.promoteHost_hostSized (hkept p hp)).mpr (hok hp)
  | storeBytes p bytes =>
    rw [exec_every_rewritten h hs (p := p) (f := fun r => r.reloaded bytes) rfl rfl]
    constructor
    · exact fun hafter hp => (ArtifactRecord.reloaded_hostSized hl (hsized hp)).mp (hafter hp)
    · exact fun hok hp => (ArtifactRecord.reloaded_hostSized hl (hsized hp)).mpr (hok hp)
  | _ =>
    refine ⟨fun _ => trivial, fun _ => ?_⟩
    apply exec_every h hl hs
    · intro p r r' hupd hr
      rcases hupd.hostSized hr with hafter | hhost | ⟨bytes, hreload⟩
      · exact hafter
      · cases hhost
      · cases hreload
    · intro r hr
      have htier : r.tier ≠ .hostResident := Step.offers_hostUse hr
      exact ArtifactRecord.HostSized.of_ne htier

end OneSection

/-! ### What the operations see to -/

section Operations

variable {env : Env}

/-- The steps considered: of sound states whose records all keep their sizes. -/
abbrev KeptSteps (l : Step) (s s' : Impl) : Prop :=
  SoundSteps l s s' ∧ s.Every ArtifactRecord.SizeKept

theorem KeptSteps.fromSound : FromSound KeptSteps := fun _ _ _ h => h.1

abbrev Sizes (l : Step) (s _s' : Impl) : Prop := l.Sized s

/-- All stages but builds and reloads. -/
def Stage.unsized : Stage → Prop
  | .build | .reload => False
  | _ => True

theorem walk_sizes : Walk (Guaranteed env KeptSteps Sizes) Stage.unsized := by
  refine walk_guaranteed fun l s s' _ _ _ hstage => ?_
  cases l with
  | publish fence o => exact hstage.elim
  | storeBytes p bytes => exact hstage.elim
  | _ => exact trivial

/-- The record is there with its size cleared. -/
abbrev Impl.Cleared (p : Nat) (s : Impl) : Prop :=
  p < s.nextRecord ∧ (s.records p).desc.sizes.hostBytes = 0

theorem stable_cleared (p : Nat) : Stable (exec env) KeptSteps (Impl.Cleared p) := by
  intro l s s' hs h hC
  refine ⟨lt_of_lt_of_le hs.1 (exec_extends h hC.1.proper).next_le, ?_⟩
  rcases exec_records h hC.1.proper hs.1 with heq | hupd
  · rw [heq]
    exact hs.2
  · exact hupd.hostBytes_zero hs.2

/-- A reload fills what it has found empty. -/
theorem ensureBytes_sizes (p : Nat) : SatThere env KeptSteps Sizes p (ensureBytes env p) := by
  unfold ensureBytes
  refine Sat.bind (Q := fun bytes s => bytes.isEmpty = true → Impl.Cleared p s) (Sat.sect ?_ ?_)
    fun bytes => ?_
  · exact fun bytes l s s' hs h hC hempty => stable_cleared p l s s' (hs hempty) h hC
  · intro s s' hp h hC
    refine ⟨trivial, fun hempty => ?_⟩
    have hcleared : Impl.Cleared p s :=
      ⟨hp, (hC.2 p hp).hostBytes_eq (List.isEmpty_iff.mp hempty)⟩
    exact stable_cleared p _ s s' hcleared h hC
  · split
    · exact Sat.ret fun _ _ => trivial
    · rename_i hempty
      have hcleared : bytes.isEmpty = true := by simpa using hempty
      refine Sat.weaken (P := Impl.Cleared p) (Q := fun _ _ => True) ?_ (fun s hs => hs hcleared)
        fun _ _ _ => trivial
      split
      · refine Sat.bind (Q := fun _ s => Impl.Cleared p s)
          (Sat.sect (fun _ => stable_cleared p) ?_) fun res => ?_
        · exact fun s s' hs h hC => ⟨trivial, stable_cleared p _ s s' hs h hC⟩
        · cases res with
          | error e => exact Sat.ret fun _ _ => trivial
          | ok a =>
            refine Sat.bind (Q := fun _ _ => True) (Sat.sect (fun _ => Stable.const _ _ _) ?_)
              fun _ => Sat.ret fun _ _ => trivial
            exact fun s s' hs _ _ => ⟨fun _ => hs.2, trivial⟩
      · exact Sat.ret fun _ _ => trivial

theorem builds_sizes (hsizes : env.ReportsSizes) :
    BuildsWith env KeptSteps Sizes (fun _ _ => True) (fun _ _ => True) where
  stable _ := Stable.const _ _ _
  stable_published _ := Stable.const _ _ _
  join _ _ _ _ _ := ⟨trivial, fun _ _ _ => trivial⟩
  publish fence gen o s s' ho _ _ _ := by
    refine ⟨?_, fun _ => trivial⟩
    obtain ⟨backend, hmem, builder, hbuilder, tick, br, res, vd, hbuilt, hdesc, hbytes⟩ :=
      ho.from_builder
    show o.desc.sizes.hostBytes.toNat = o.bytes.length
    rw [hdesc, hbytes]
    exact hsizes backend hmem builder hbuilder tick br res hbuilt
  persist _ _ _ _ _ _ := trivial
  other l _ _ _ _ hl _ hstage := by
    cases l with
    | publish fence o => cases hl
    | storeBytes p bytes => rcases hstage with hstage | hstage | hstage <;> cases hstage
    | _ => exact trivial

theorem operation_sizes (hsizes : env.ReportsSizes) (op : Operation) :
    (op.prog env).Free (exec env) KeptSteps Sizes := by
  apply operation_around_reloads KeptSteps.fromSound walk_sizes
  · intro g hreload hbuild
    cases g with
    | reload => exact absurd rfl hreload
    | build => exact absurd rfl hbuild
    | _ => exact trivial
  · exact ensureBytes_sizes
  · exact fun request => (builds_sizes hsizes).buildImpl request

end Operations

/-! ## Every run -/

section Runs

variable {env : Env} {store : FilePersistenceStore} {tr : List (Event Step Impl)}
  {pool : Pool Step Impl Answer}

theorem runs_sizeKept (hsizes : env.ReportsSizes) (h : CacheRuns env store tr pool)
    (hin : ∀ e ∈ tr, e.label.suppliesSizes) :
    ∀ e ∈ tr, e.label.Sized e.before ∧ e.before.Every ArtifactRecord.SizeKept := by
  have hall := Runs.invariant_of_guarantee (C := SoundSteps) (G := Sizes)
    (I := fun s => s.Every ArtifactRecord.SizeKept)
    (fun q hq => by
      obtain ⟨op, rfl⟩ := hq
      exact operation_sizes hsizes op)
    (Impl.initial_every _ store) h (fun e he => ⟨runs_proper h e he, ((runs_sound h).1 e he).1⟩)
    fun e he hsized hs => exec_sizeKept (h.event_step e he) (runs_proper h e he) hsized (hin e he) hs
  exact fun e he => ⟨(hall.1 e he).1, (hall.1 e he).2.1⟩

/-- **Host accounting.** The builders report host sizes, and what is put or recovered states its own:
then in every interleaved run every record in host memory states the number of its bytes, in every
state between two sections, if and only if no promotion to host memory commits on a record that has
bytes and a cleared size, and no reload fills a record that is in host memory already; and as long as
this is so, the snapshot counts the bytes held. -/
theorem host_sizes_iff (hsizes : env.ReportsSizes) (h : CacheRuns env store tr pool)
    (hin : ∀ e ∈ tr, e.label.suppliesSizes) :
    (((∀ e ∈ tr, e.before.Every ArtifactRecord.HostSized ∧ e.after.Every ArtifactRecord.HostSized) ∧
      pool.shared.Every ArtifactRecord.HostSized) ↔ ∀ e ∈ tr, e.label.keepsSizes e.before) ∧
    ((∀ e ∈ tr, e.label.keepsSizes e.before) →
      (pool.shared.snapshot env).hostResidentBytes =
        .ofNat (pool.shared.total ArtifactRecord.hostUse)) := by
  have hkept := runs_sizeKept hsizes h hin
  have hiff := Runs.invariant_iff (I := fun s => s.Every ArtifactRecord.HostSized)
    (K := fun e => e.label.keepsSizes e.before) (Impl.initial_every _ store) h fun e he hs =>
      exec_hostSized (h.event_step e he) (runs_proper h e he) (hkept e he).1 (hkept e he).2 hs
  refine ⟨hiff, fun hok => ?_⟩
  have hlast := (hiff.mpr hok).2
  rw [Impl.snapshot_hostResidentBytes (runs_sound h).2, Impl.total, Impl.total]
  congr 1
  refine Finset.sum_congr rfl fun p hp => ?_
  unfold ArtifactRecord.statedUse ArtifactRecord.hostUse
  split
  · rename_i htier
    exact hlast p (Finset.mem_range.mp hp) htier
  · rfl

end Runs

/-! ## One artifact that states its size -/

def sizedArtifact : ArtifactDescriptor := { sampleArtifact with sizes := { hostBytes := 1 } }

/-- A cache on a root after `sizedArtifact` was put with one byte. -/
def sizedState (root : FilePersistenceStore) : Impl :=
  { (Impl.initial root).insertIndexLocked (makeRecord 0 sizedArtifact [1]) with tick := 1 }

theorem sizedState_runs (env : Env) (henv : env.now 0 = 0) (root : FilePersistenceStore) :
    CacheRuns env root [⟨0, .put sizedArtifact [1], Impl.initial root, sizedState root⟩]
      ⟨sizedState root, [.ret (.id ⟨⟨1, 7⟩⟩)]⟩ := by
  refine Runs.refl.complete (p := (Operation.put sizedArtifact [1]).prog env) ⟨_, rfl⟩ ?_
  unfold sizedState
  rw [← henv]
  rfl

/-- No backend reports a wrong size. -/
theorem reportsSizes_of_nil {env : Env} (h : env.backends = []) : env.ReportsSizes := by
  intro backend hmem
  rw [h] at hmem
  cases hmem

/-- A backend that builds one byte and states its size. -/
def sizingEnv : Env where
  backends := [{ stubBackend with
    builder := some { canBuild := fun _ => true
                      build := fun _ _ => .ok { bytes := [1], sizes := { hostBytes := 1 } } } }]

theorem sizingEnv_reports : sizingEnv.ReportsSizes := by
  intro backend hmem builder hbuilder tick br res hbuilt
  obtain rfl := List.mem_singleton.mp hmem
  cases hbuilder
  cases hbuilt
  rfl

/-- An artifact is put and leased into host memory, and another one is built. -/
theorem host_sizes_iff_sample : ∃ tr pool, CacheRuns sizingEnv {} tr pool ∧
    (∀ e ∈ tr, e.label.suppliesSizes) ∧ (∀ e ∈ tr, e.label.keepsSizes e.before) ∧
    pool.shared.Every ArtifactRecord.HostSized ∧
    (pool.shared.snapshot sizingEnv).hostResidentBytes =
      .ofNat (pool.shared.total ArtifactRecord.hostUse) ∧
    pool.shared.nextRecord = 2 ∧ (pool.shared.records 0).tier = .hostResident ∧
    (pool.shared.records 1).desc.sizes.hostBytes = 1 := by
  obtain ⟨tr, a, s, hlease, hall, htier, hnext, hfree, hidle, hflight, hids, hgen⟩ : ∃ tr a s,
      ((Operation.acquire {}).prog sizingEnv).traced (exec sizingEnv) 1 (sizedState {}) =
        some (tr, a, s) ∧
      (tr.all fun e => !e.label.inserts && e.label.stage != .reload &&
        e.before.nextRecord == 1 && (e.before.records 0).desc.sizes.hostBytes == 1) = true ∧
      (s.records 0).tier = .hostResident ∧ s.nextRecord = 1 ∧ s.statsHeld = false ∧ s.FencesIdle ∧
      s.inFlight = ∅ ∧ s.byId = (sizedState {}).byId ∧ s.nextGeneration = 0 := by
    have hfirst := acquireImpl_traced sizingEnv 1 {} defaultKey_wellFormed (s := sizedState {}) rfl
      (putState_lookup (s := sizedState {}) rfl rfl rfl rfl {})
    simp only [Operation.prog, Prog.bind_eq, Prog.traced_bind, hfirst]
    have hidle := Impl.initial_fencesIdle {}
    exact ⟨_, _, _, rfl, rfl, rfl, rfl, rfl, ⟨hidle.waiting, hidle.fresh⟩, rfl, rfl, rfl⟩
  -- the build
  obtain ⟨o, hout, hok, hid, hsize⟩ : ∃ o, runBuild sizingEnv (s.tick + 1)
      (buildRequestOf sizingEnv {}) s.nextGeneration = .ok o ∧ o.succeeded = true ∧
        o.id = deriveId [1] 0 ∧ o.desc.sizes.hostBytes = 1 := by
    rw [hgen]
    exact ⟨_, rfl, rfl, rfl, rfl⟩
  have hnew : s.byId.lookup o.id = none := by
    rw [hid, hids]
    exact (AList.lookup_insert_ne (by decide)).trans (AList.lookup_empty _)
  obtain ⟨tr', s', hbuild, -, -, hlabels, s₁, hindex, hsame, -, -, -, t, hs'⟩ :=
    buildImpl_traced_of_new {} 2 hfree hidle (by rw [hflight]; exact AList.lookup_empty _) hout hok hnew
      rfl
  have hnext₁ : s₁.nextRecord = 1 := hindex.nextRecord.trans hnext
  have hruns := ((sizedState_runs sizingEnv rfl {}).complete ⟨_, rfl⟩ hlease).complete ⟨_, rfl⟩
    (build_traced hbuild)
  have hevents : ∀ e ∈ ([⟨0, .put sizedArtifact [1], Impl.initial {}, sizedState {}⟩] ++ tr) ++ tr',
      e.label.suppliesSizes ∧ e.label.keepsSizes e.before := by
    intro e he
    rcases List.mem_append.mp he with hold | hbuilt
    · rcases List.mem_append.mp hold with hput | hacquire
      · obtain rfl := List.mem_singleton.mp hput
        exact ⟨rfl, trivial⟩
      · have hone := List.all_eq_true.mp hall e hacquire
        simp only [Bool.and_eq_true, Bool.not_eq_true', bne_iff_ne, beq_iff_eq] at hone
        obtain ⟨⟨⟨hins, hreload⟩, hnext⟩, hsize⟩ := hone
        obtain ⟨i, l, s₀, s₁⟩ := e
        dsimp only at hins hreload hnext hsize ⊢
        cases l with
        | put desc bytes => cases hins
        | recoverInsert artifacts => cases hins
        | storeBytes p bytes => exact absurd rfl hreload
        | commitHost p =>
          refine ⟨trivial, fun hp _ => ?_⟩
          obtain rfl : p = 0 := by omega
          rw [hsize]
          decide
        | _ => exact ⟨trivial, trivial⟩
    · have hlabel := hlabels e hbuilt
      generalize e.label = l at hlabel ⊢
      cases l with
      | put desc bytes => exact hlabel.elim
      | recoverInsert artifacts => exact hlabel.elim
      | storeBytes p bytes => exact hlabel.elim
      | commitHost p => exact hlabel.elim
      | _ => exact ⟨trivial, trivial⟩
  have hin := fun e he => (hevents e he).1
  have hok := fun e he => (hevents e he).2
  obtain ⟨hiff, hsnapshot⟩ := host_sizes_iff sizingEnv_reports hruns hin
  refine ⟨_, _, hruns, hin, hok, (hiff.mpr hok).2, hsnapshot hok, ?_, ?_, ?_⟩
  · rw [hs']
    show s₁.nextRecord + 1 = 2
    rw [hnext₁]
  · rw [hs']
    show (Function.update s₁.records s₁.nextRecord _ 0).tier = _
    rw [hnext₁, Function.update_of_ne Nat.zero_ne_one, hsame]
    exact htier
  · rw [hs']
    show (Function.update s₁.records s₁.nextRecord _ 1).desc.sizes.hostBytes = 1
    rw [hnext₁, Function.update_self]
    exact hsize

/-- The record of the artifact. -/
def sizedRecord : ArtifactRecord :=
  { makeRecord 0 sizedArtifact [1] with key := ({} : KernelCompatibilityKey).finalize }

theorem sizedState_holdsOne (root : FilePersistenceStore) :
    (sizedState root).HoldsOne ⟨⟨1, 7⟩⟩ sizedRecord where
  record := rfl
  byId := AList.lookup_insert _
  byKey := AList.lookup_insert _
  free := rfl

/-- A valid record without a stored copy that is leased into host memory, released and evicted can
still be leased, and has lost its bytes and its size. -/
theorem ArtifactRecord.evicted_uncounted {r : ArtifactRecord} (now : UInt64)
    (hstate : r.state = .valid) (hinv : r.invalidated = false) (hcor : r.corrupt = false)
    (hleases : r.leaseCount = 0) (hpersistent : r.persistent = false) :
    ∃ r', (r.promoteHost.leased now false).released.evictBegin.evictCommit = r' ∧ r'.id = r.id ∧
      r'.key = r.key ∧ r'.validated = r.validated ∧ r'.leasable = true ∧
      (∀ bytes, (r'.reloaded bytes).promoteHost.leasable = true) ∧ r'.tier = .metadataOnly ∧
      r'.bytes = [] ∧ r'.desc.sizes.hostBytes = 0 := by
  simp only [promoteHost, leased, released, evictBegin, evictCommit, fallbackTier, leasable, reloaded,
    hstate, hinv, hcor, hleases, hpersistent]
  refine ⟨_, rfl, rfl, rfl, rfl, ?_, fun _ => ?_, rfl, rfl, rfl⟩
  · dsimp only
    decide
  · dsimp only
    decide

/-- A root that has the artifact (1, 7) with one byte. -/
theorem exists_root : ∃ root : FilePersistenceStore, ∃ b, root.get ⟨⟨1, 7⟩⟩ = .ok b ∧
    b.bytes = [1] := by
  refine ⟨copiedStore ⟨⟨1, 7⟩⟩ (storedSample [1]) [1], (storedSample [1]).reread, ?_, rfl⟩
  rw [get_copiedStore]
  exact parse_fullMeta_reread (storedSample_valid (by decide)) (storedSample_sized _) (by decide)

/-- **A reload is not counted.** On a root that has the artifact, put it, lease it into host memory,
release it, evict it and lease it again: it is in host memory with its byte, and its size is 0. -/
theorem reload_uncounted : openEnv.ReportsSizes ∧ ∃ root tr pool, CacheRuns openEnv root tr pool ∧
    (∀ q ∈ pool.threads, ∃ a, q = .ret a) ∧ 0 < pool.shared.nextRecord ∧
    (pool.shared.records 0).tier = .hostResident ∧ (pool.shared.records 0).bytes = [1] ∧
    (pool.shared.records 0).desc.sizes.hostBytes = 0 ∧
    ¬ pool.shared.Every ArtifactRecord.HostSized := by
  obtain ⟨root, b, hget, hb⟩ := exists_root
  have hone := sizedState_holdsOne root
  -- lease it into host memory, release it, evict it
  obtain ⟨tr₁, lease, s₁, now, hacquire, hrw₁, hlrec, hlheld⟩ := acquireImpl_traced_host openEnv 1
    {} (s := sizedState root) (p := 0) defaultKey_wellFormed rfl (hone.lookup rfl rfl rfl {})
    (ArtifactRecord.hitResult_isHit _ _) rfl hone.byId rfl
    (show ResidencyTier.metadataOnly.rank < ResidencyTier.hostResident.rank by decide)
    (List.cons_ne_nil 1 []) rfl
  have hone₁ := hone.rewrites hrw₁
  obtain ⟨tr₂, s₂, hrelease, hrw₂, -⟩ := release_traced openEnv 2 hone₁.free hlrec hlheld
  rw [hone₁.record] at hrw₂
  have hone₂ := hone₁.rewrites hrw₂
  obtain ⟨tr₃, s₃, hevict, hrw₃, -⟩ := evict_traced openEnv 3 (s := s₂) (p := 0) false hone₂.free
    hone₂.byId (by rw [hone₂.record]; rfl) (by rw [hone₂.record]; rfl) (by rw [hone₂.record]; rfl)
  rw [hone₂.record] at hrw₃
  have hone₃ := hone₂.rewrites hrw₃
  obtain ⟨r₃, hr₃, hid, hkey, hvalid, hleasable, hagain, htier, hbytes, hsize⟩ :=
    sizedRecord.evicted_uncounted now rfl rfl rfl rfl rfl
  have hrec₃ : ((sizedState root).records 0) = sizedRecord := hone.record
  rw [hrec₃] at hone₃
  have hr₃' : s₃.records 0 = r₃ := hone₃.record.trans hr₃
  -- the second lease reloads the byte
  have hlookup := (hr₃ ▸ hone₃ : s₃.HoldsOne ⟨⟨1, 7⟩⟩ r₃).lookup hkey hvalid hleasable {}
  have hstore : s₃.store = root := hrw₃.store.trans (hrw₂.store.trans hrw₁.store)
  obtain ⟨tr₄, lease', s₄, now', hreacquire, hrw₄, -⟩ := acquireImpl_traced_reload openEnv 4
    (s := s₃) (p := 0) (a := b) {} defaultKey_wellFormed hone₃.free hlookup
    (ArtifactRecord.hitResult_isHit r₃ _) (congrArg some hid) hone₃.byId rfl
    (by rw [hr₃', htier]; decide) (by rw [hr₃', hbytes]) rfl (by rw [hstore, hr₃', hid]; exact hget)
    (by rw [hr₃']; exact hagain _)
  have hlast : s₄.records 0 = ((r₃.reloaded [1]).promoteHost).leased now' false := by
    rw [hrw₄.record, hr₃', hb]
  have hlt : 0 < s₄.nextRecord := by
    rw [hrw₄.index.nextRecord, hrw₃.index.nextRecord, hrw₂.index.nextRecord, hrw₁.index.nextRecord]
    exact Nat.zero_lt_one
  have htier₄ : (s₄.records 0).tier = .hostResident := by
    rw [hlast]
    rfl
  have hbytes₄ : (s₄.records 0).bytes = [1] := by
    rw [hlast]
    rfl
  have hsize₄ : (s₄.records 0).desc.sizes.hostBytes = 0 := by
    rw [hlast]
    exact hsize
  have hruns := ((((sizedState_runs openEnv rfl root).complete ⟨_, rfl⟩
    (acquire_traced hacquire)).complete ⟨_, rfl⟩ hrelease).complete ⟨_, rfl⟩ hevict).complete
    ⟨_, rfl⟩ (acquire_traced hreacquire)
  refine ⟨reportsSizes_of_nil rfl, root, _, _, hruns, by simp, hlt, htier₄, hbytes₄, hsize₄,
    fun hall => ?_⟩
  have hbad := hall 0 hlt htier₄
  rw [hbytes₄, hsize₄] at hbad
  cases hbad

end KernelCache
