/-
# KernelCache.Walk — one walk over all operation programs.

Whatever is to be shown of every operation, a guarantee of its sections, a protocol it follows, a
property of its control paths, is shown the same way: of single sections first, then of the programs
composed of them.  `Walk` is what such a way of verifying programs has to provide, `V Q p` standing
for "`p` is verified and returns only values with `Q`": it goes through returns and binds, and it
covers the sections of some stages.  The lemmas below climb from there to the public operations.

Some pieces of programs carry something from one section to a later one: an eviction, a module load,
an unload, a validation, a lease, a recovery; a put stands alone.  A walk that does not cover their
sections one by one is told about the whole piece instead.
-/
import KernelCache.Evolution

namespace KernelCache

open Foundation (Bytes Prog)
open Foundation.Prog (sect perform)

/-- The kinds of sections the walk tells apart. -/
inductive Stage where
  | plain
  /-- The single-flight protocol. -/
  | fence
  /-- The rest of a build. -/
  | build
  /-- The later sections of an eviction. -/
  | evict
  /-- Keeping the bytes that were read from the store. -/
  | reload
  /-- Loading a module and committing it. -/
  | load
  /-- Unloading a module and committing that. -/
  | unload
  /-- Committing a verdict. -/
  | validate
  | lease
  /-- Giving a lease back. -/
  | release
  /-- Inserting what was put. -/
  | put
  /-- Inserting what was recovered. -/
  | recover
  deriving DecidableEq

def Step.stage : Step → Stage
  | .join _ | .fulfil _ _ | .eraseFence _ _ => .fence
  | .runBuild _ _ | .publish _ _ | .persist _ | .markPersisted _ | .persistFailed | .await _
  | .findBuilt _ _ => .build
  | .evictUnload _ | .evictCommit _ => .evict
  | .storeBytes _ _ => .reload
  | .loadModule _ _ _ | .commitDevice _ _ _ => .load
  | .unloadCall _ | .unloadCommit _ => .unload
  | .validateCommit _ _ => .validate
  | .grantLease _ _ => .lease
  | .exchangeReleased _ | .onLeaseRelease _ => .release
  | .put _ _ => .put
  | .recoverInsert _ => .recover
  | _ => .plain

/-- The counters that go up and down. -/
def Stats.gauges (st : Stats) : Nat × Nat × Nat :=
  (st.activeBuilds, st.activeLeases, st.activeDeviceLoads)

/-- How an owner counts its build out. -/
def Stats.buildOver (st : Stats) : Stats := { st with activeBuilds := st.activeBuilds - 1 }

theorem LookupOutcome.count_gauges (o : LookupOutcome) (st : Stats) :
    (o.count st).gauges = st.gauges := by
  cases o <;> rfl

/-- The counters that only lookups move. -/
def Stats.lookupCounters (st : Stats) : List Nat :=
  [st.lookups, st.exactHits, st.compatibleHits, st.persistentHits, st.hostHits, st.deviceHits,
    st.misses]

/-- What sections only count: a lookup by its outcome, or something that is no lookup.  Neither is a
gauge. -/
inductive Stats.Counting : (Stats → Stats) → Prop
  | lookup (o : LookupOutcome) : Counting o.count
  | other {f : Stats → Stats} (hgauges : ∀ st, (f st).gauges = st.gauges)
      (hlookups : ∀ st, (f st).lookupCounters = st.lookupCounters) : Counting f

theorem Stats.Counting.gauges {f : Stats → Stats} (h : Counting f) (st : Stats) :
    (f st).gauges = st.gauges := by
  cases h with
  | lookup o => exact o.count_gauges st
  | other hgauges _ => exact hgauges st

/-- The arguments of a section are proper, and what it only counts is no gauge. -/
def Step.Ordinary : Step → Prop
  | .bump f => Stats.Counting f
  | l => l.Proper

theorem Step.Ordinary.proper {l : Step} (h : l.Ordinary) : l.Proper := by
  cases l with
  | bump f => exact trivial
  | _ => exact h

/-- A way to verify programs that covers the ordinary sections of the stages `K`, and an owner that
counts its build out if builds are among them. -/
structure Walk (V : (α : Type) → (α → Prop) → Op α → Prop) (K : Stage → Prop) : Prop where
  ret : ∀ {α : Type} {Q : α → Prop} {a : α}, Q a → V α Q (.ret a)
  bind : ∀ {α β : Type} {Q : α → Prop} {Q' : β → Prop} {p : Op α} {g : α → Op β}, V α Q p →
    (∀ a, Q a → V β Q' (g a)) → V β Q' (p.bind g)
  sect : ∀ {α : Type} {Q : α → Prop} {l : Step} {read : Impl → α}, K l.stage → l.Ordinary →
    (∀ s, Q (read s)) → V α Q (Prog.sect l read)
  buildOver : K .plain → K .build → V Unit (fun _ => True) (Prog.perform (.bump Stats.buildOver))

/-- What `run_build` establishes about an outcome it returns. -/
def Consistent (res : Result Outcome) : Prop :=
  ∀ o, res = .ok o → o.succeeded = true → o.desc.id = o.id

theorem runBuild_consistent (env : Env) (tick : Nat) (request : KernelLookupRequest)
    (gen : ArtifactGeneration) : Consistent (runBuild env tick request gen) :=
  fun _ h hs => (runBuild_built h hs).desc_id

/-- The digest a build is deduplicated by. -/
def buildDigest (env : Env) (request : KernelLookupRequest) : Sha256Digest :=
  (buildRequestOf env request).key.ensureFinalized.digest

namespace Walk

variable {env : Env} {V : (α : Type) → (α → Prop) → Op α → Prop} {K : Stage → Prop}

/-- Nothing is said about the result. -/
abbrev Any {α : Type} (_ : α) : Prop := True

theorem perform (w : Walk V K) {l : Step} (hl : l.Ordinary) (hstage : K l.stage) :
    V Unit Any (Prog.perform l) :=
  w.sect hstage hl fun _ => trivial

theorem lookupImpl (w : Walk V K) (hplain : K .plain) (request : KernelLookupRequest) :
    V _ Any (lookupImpl request) := by
  unfold KernelCache.lookupImpl
  dsimp only
  split
  · exact w.ret trivial
  · refine w.bind (w.sect (Q := Any) hplain trivial fun _ => trivial) fun candidates _ => ?_
    refine w.bind (w.perform (.lookup _) hplain) fun _ _ => ?_
    refine w.bind (w.perform trivial hplain) fun _ _ => ?_
    exact w.ret trivial

/-! ### Build -/

theorem runBuildOp (w : Walk V K) (hplain : K .plain) (hbuild : K .build)
    {request : KernelLookupRequest} {gen : ArtifactGeneration} {Q : Result Outcome → Prop}
    (hQ : ∀ tick, Q (runBuild env tick request gen)) : V _ Q (runBuildOp env request gen) := by
  unfold KernelCache.runBuildOp
  refine w.bind (w.sect (Q := Q) hbuild trivial fun s => hQ s.tick) fun res hres => ?_
  cases res with
  | error e => exact w.ret hres
  | ok o =>
    dsimp only
    split
    · refine w.bind (w.perform (.other (fun _ => rfl) fun _ => rfl) hplain) fun _ _ => ?_
      refine w.bind (w.perform trivial hplain) fun _ _ => ?_
      exact w.ret hres
    · exact w.ret hres

theorem persistOp (w : Walk V K) (hplain : K .plain) (hbuild : K .build) {o : Outcome}
    (hs : o.succeeded = true) (hid : o.desc.id = o.id) : V _ Any (persistOp env o) := by
  unfold KernelCache.persistOp
  refine w.bind (w.sect (Q := Any) hbuild ⟨hs, hid⟩ fun _ => trivial) fun res _ => ?_
  cases res with
  | ok _ => exact w.perform trivial hbuild
  | error e => exact w.bind (w.perform trivial hbuild) fun _ _ => w.perform trivial hplain

theorem publishOp (w : Walk V K) (hplain : K .plain) (hbuild : K .build) (fence : Nat) {o : Outcome}
    (hs : o.succeeded = true) (hid : o.desc.id = o.id) : V _ Any (publishOp env fence o) := by
  unfold KernelCache.publishOp
  refine w.bind (w.perform trivial hplain) fun _ _ => ?_
  refine w.bind (w.sect (Q := Any) hbuild ⟨hs, hid⟩ fun _ => trivial) fun newRecord _ => ?_
  split
  · exact w.bind (w.persistOp hplain hbuild hs hid) fun _ _ => w.ret trivial
  · exact w.ret trivial

theorem finishBuild (w : Walk V K) (hplain : K .plain) (hbuild : K .build)
    (digest : Sha256Digest) (fence : Nat) {o : Outcome} (ho : Consistent (.ok o))
    (hfulfil : V _ Any (Prog.perform (.fulfil fence o)))
    (herase : V _ Any (Prog.perform (.eraseFence fence digest))) :
    V _ Any (finishBuild env digest fence o) := by
  unfold KernelCache.finishBuild
  refine w.bind (w.buildOver hplain hbuild) fun _ _ => ?_
  refine w.bind hfulfil fun _ _ => ?_
  refine w.bind herase fun _ _ => ?_
  by_cases hs : o.succeeded = true
  · rw [if_neg (by simp [hs])]
    exact w.publishOp hplain hbuild fence hs (ho o rfl hs)
  · rw [if_pos (by simpa using hs)]
    refine w.bind (w.perform (.other (fun _ => rfl) fun _ => rfl) hplain) fun _ _ => ?_
    exact w.bind (w.perform trivial hplain) fun _ _ => w.ret trivial

theorem buildWaiter (w : Walk V K) (hbuild : K .build) (fence : Nat) :
    V _ Any (buildWaiter fence) := by
  unfold KernelCache.buildWaiter
  refine w.bind (w.sect (Q := Any) hbuild trivial fun _ => trivial) fun o _ => ?_
  split
  · exact w.ret trivial
  · exact w.sect hbuild trivial fun _ => trivial

theorem buildImpl (w : Walk V K) (hplain : K .plain) (hbuild : K .build)
    {request : KernelLookupRequest}
    (hjoin : V _ Any (Prog.sect (.join (buildDigest env request))
      fun s => (s.join (buildDigest env request)).1))
    (hfulfil : ∀ fence o, V _ Any (Prog.perform (.fulfil fence o)))
    (herase : ∀ fence digest, V _ Any (Prog.perform (.eraseFence fence digest))) :
    V _ Any (buildImpl env request) := by
  unfold KernelCache.buildImpl
  refine w.bind hjoin fun joined _ => ?_
  cases joined with
  | waiter fence => exact w.buildWaiter hbuild fence
  | owner fence gen =>
    show V _ Any (buildOwner env _ _ fence gen)
    unfold buildOwner
    refine w.bind (w.runBuildOp (Q := Consistent) hplain hbuild
      fun tick => runBuild_consistent env tick _ gen) fun res hres => ?_
    cases res with
    | error e => exact w.ret trivial
    | ok o => exact w.finishBuild hplain hbuild _ fence hres (hfulfil fence o) (herase fence _)

/-! ### Residency -/

/-- A reload, section by section. -/
theorem ensureBytes (w : Walk V K) (hplain : K .plain) (hreload : K .reload) (p : Nat) :
    V _ Any (ensureBytes env p) := by
  unfold KernelCache.ensureBytes
  refine w.bind (w.sect (Q := Any) hplain trivial fun _ => trivial) fun bytes _ => ?_
  split
  · exact w.ret trivial
  · split
    · refine w.bind (w.sect (Q := fun res => ∀ a, res = .ok a → a.bytes ≠ []) hplain trivial
        fun s a ha => FilePersistenceStore.get_bytes ha) fun res hres => ?_
      cases res with
      | ok a => exact w.bind (w.perform (hres a rfl) hreload) fun _ _ => w.ret trivial
      | error e => exact w.ret trivial
    · exact w.ret trivial

/-- An eviction, section by section. -/
theorem evictImpl (w : Walk V K) (hplain : K .plain) (hevict : K .evict) (id : ArtifactId)
    (force : Bool) : V _ Any (evictImpl env id force) := by
  unfold KernelCache.evictImpl
  refine w.bind (w.sect (Q := Any) hplain trivial fun _ => trivial) fun res _ => ?_
  cases res with
  | error e => exact w.ret trivial
  | ok p =>
    refine w.bind (w.sect (Q := Any) hevict trivial fun _ => trivial) fun unloaded _ => ?_
    split
    · exact w.ret trivial
    · refine w.bind (w.perform trivial hevict) fun _ _ => ?_
      exact w.bind (w.perform trivial hplain) fun _ _ => w.ret trivial

theorem evictRounds (w : Walk V K) (hplain : K .plain)
    (hevict : ∀ id force, V _ Any (KernelCache.evictImpl env id force)) (tier : ResidencyTier)
    (n : Nat) : V _ Any (evictRounds env tier n) := by
  induction n with
  | zero => exact w.bind (w.perform trivial hplain) fun _ _ => w.ret trivial
  | succ n ih =>
    unfold KernelCache.evictRounds
    refine w.bind (w.sect (Q := Any) hplain trivial fun _ => trivial) fun victim _ => ?_
    cases victim with
    | none => exact w.ret trivial
    | some id =>
      refine w.bind (hevict id false) fun res _ => ?_
      split
      · exact w.ret trivial
      · exact ih

theorem evictToFit (w : Walk V K) (hplain : K .plain)
    (hevict : ∀ id force, V _ Any (KernelCache.evictImpl env id force)) (tier : ResidencyTier) :
    V _ Any (evictToFit env tier) := by
  unfold KernelCache.evictToFit
  dsimp only
  generalize (if tier == .deviceResident then env.cfg.residency.applyDeviceBudget
    else env.cfg.residency.applyHostBudget) = apply
  cases apply with
  | false => exact w.ret trivial
  | true => exact w.evictRounds hplain hevict tier _

/-- A promotion to the device, section by section. -/
theorem promoteToDevice (w : Walk V K) (hplain : K .plain) (hload : K .load)
    (hensure : ∀ p, V _ Any (KernelCache.ensureBytes env p))
    (hevict : ∀ id force, V _ Any (KernelCache.evictImpl env id force)) (p : Nat)
    (device : DeviceDescriptor) : V _ Any (promoteToDevice env p device) := by
  unfold KernelCache.promoteToDevice
  refine w.bind (hensure p) fun bytes _ => ?_
  cases bytes with
  | error e => exact w.ret trivial
  | ok bytes =>
    refine w.bind (w.sect (Q := Any) hload trivial fun _ => trivial) fun loaded _ => ?_
    cases loaded with
    | error e => exact w.ret trivial
    | ok out =>
      refine w.bind (w.perform trivial hload) fun _ _ => ?_
      refine w.bind (w.perform trivial hplain) fun _ _ => ?_
      exact w.evictToFit hplain hevict _

theorem promoteToHost (w : Walk V K) (hplain : K .plain)
    (hensure : ∀ p, V _ Any (KernelCache.ensureBytes env p)) (p : Nat) :
    V _ Any (promoteToHost env p) := by
  unfold KernelCache.promoteToHost
  refine w.bind (hensure p) fun bytes _ => ?_
  cases bytes with
  | error e => exact w.ret trivial
  | ok bytes => exact w.bind (w.perform trivial hplain) fun _ _ => w.ret trivial

theorem promoteToTier (w : Walk V K) (hplain : K .plain)
    (hdevice : ∀ p device, V _ Any (KernelCache.promoteToDevice env p device))
    (hhost : ∀ p, V _ Any (KernelCache.promoteToHost env p)) (p : Nat)
    (desired : ResidencyTier) (device : DeviceDescriptor) :
    V _ Any (promoteToTier env p desired device) := by
  unfold KernelCache.promoteToTier
  split
  · exact w.ret trivial
  · refine w.bind (w.sect (Q := Any) hplain trivial fun _ => trivial) fun current _ => ?_
    split
    · exact w.ret trivial
    · cases desired with
      | deviceResident => exact hdevice p device
      | hostResident => exact hhost p
      | _ => exact w.ret trivial

/-- A promotion, section by section. -/
theorem promotes (w : Walk V K) (hplain : K .plain) (hreload : K .reload) (hload : K .load)
    (hevict : ∀ id force, V _ Any (KernelCache.evictImpl env id force)) (p : Nat)
    (desired : ResidencyTier) (device : DeviceDescriptor) :
    V _ Any (KernelCache.promoteToTier env p desired device) :=
  w.promoteToTier hplain
    (w.promoteToDevice hplain hload (w.ensureBytes hplain hreload) hevict)
    (w.promoteToHost hplain (w.ensureBytes hplain hreload)) p desired device

/-! ### Leases -/

theorem leaseRecord (w : Walk V K) (hplain : K .plain) (hlease : K .lease)
    (hpromote : ∀ p desired device, V _ Any (KernelCache.promoteToTier env p desired device))
    (request : KernelLookupRequest) (id : ArtifactId) (vanished : Str) :
    V _ Any (leaseRecord env request id vanished) := by
  unfold KernelCache.leaseRecord
  refine w.bind (w.sect (Q := Any) hplain trivial fun _ => trivial) fun found _ => ?_
  cases found with
  | none => exact w.ret trivial
  | some p =>
    refine w.bind (hpromote p _ _) fun promoted _ => ?_
    cases promoted with
    | error e => exact w.ret trivial
    | ok _ => exact w.sect hlease trivial fun _ => trivial

theorem acquireImpl (w : Walk V K) (hplain : K .plain) {request : KernelLookupRequest}
    (hbuild : V _ Any (KernelCache.buildImpl env { request with key := request.key.finalize }))
    (hlease : ∀ request id vanished, V _ Any (KernelCache.leaseRecord env request id vanished)) :
    V _ Any (acquireImpl env request) := by
  unfold KernelCache.acquireImpl
  refine w.bind (w.lookupImpl hplain _) fun decided _ => ?_
  cases decided with
  | error e => exact w.ret trivial
  | ok d =>
    simp only [acquireDecided]
    split
    · exact hlease _ _ _
    · unfold acquireMiss
      split
      · refine w.bind hbuild fun built _ => ?_
        cases built with
        | error e => exact w.ret trivial
        | ok desc => exact hlease _ _ _
      · exact w.ret trivial

theorem releaseLease (w : Walk V K) (hrelease : K .release) (lease : Nat) :
    V _ Any (releaseLease lease) := by
  unfold KernelCache.releaseLease
  refine w.bind (w.sect (Q := Any) hrelease trivial fun _ => trivial) fun st _ => ?_
  split
  · exact w.ret trivial
  · exact w.perform trivial hrelease

theorem touchLease (w : Walk V K) (hplain : K .plain) (lease : Nat) :
    V _ Any (touchLease lease) := by
  unfold KernelCache.touchLease
  refine w.bind (w.sect (Q := Any) hplain trivial fun _ => trivial) fun st _ => ?_
  split
  · exact w.ret trivial
  · exact w.bind (w.perform trivial hplain) fun _ _ => w.ret trivial

/-! ### Management -/

/-- A validation, section by section. -/
theorem validateOp (w : Walk V K) (hplain : K .plain) (hvalidate : K .validate)
    (request : KernelLookupRequest) (id : ArtifactId) : V _ Any (validateOp env request id) := by
  unfold KernelCache.validateOp
  refine w.bind (w.sect (Q := Any) hplain trivial fun _ => trivial) fun found _ => ?_
  cases found with
  | none => exact w.ret trivial
  | some p =>
    refine w.bind (w.sect (Q := Any) hplain trivial fun _ => trivial) fun called _ => ?_
    split
    · exact w.ret trivial
    · exact w.ret trivial
    · exact w.bind (w.perform trivial hvalidate) fun _ _ => w.ret trivial

theorem loadOp (w : Walk V K) (hplain : K .plain)
    (hpromote : ∀ p desired device, V _ Any (KernelCache.promoteToTier env p desired device))
    (id : ArtifactId) : V _ Any (loadOp env id) := by
  unfold KernelCache.loadOp
  refine w.bind (w.sect (Q := Any) hplain trivial fun _ => trivial) fun found _ => ?_
  cases found with
  | none => exact w.ret trivial
  | some p =>
    refine w.bind (hpromote p _ _) fun promoted _ => ?_
    cases promoted with
    | error e => exact w.ret trivial
    | ok _ =>
      exact w.bind (w.sect (Q := Any) hplain trivial fun _ => trivial) fun _ _ => w.ret trivial

/-- An unload, section by section. -/
theorem unloadOp (w : Walk V K) (hplain : K .plain) (hunload : K .unload) (id : ArtifactId) :
    V _ Any (unloadOp env id) := by
  unfold KernelCache.unloadOp
  refine w.bind (w.sect (Q := Any) hplain trivial fun _ => trivial) fun found _ => ?_
  cases found with
  | none => exact w.ret trivial
  | some p =>
    refine w.bind (w.sect (Q := Any) hunload trivial fun _ => trivial) fun unloaded _ => ?_
    split
    · exact w.ret trivial
    · exact w.bind (w.perform trivial hunload) fun _ _ => w.ret trivial

theorem putOp (w : Walk V K) (hput : K .put) (desc : ArtifactDescriptor) (bytes : Bytes) :
    V _ Any (putOp env desc bytes) :=
  w.sect hput trivial fun _ => trivial

theorem invalidateImpl (w : Walk V K) (hplain : K .plain) (req : InvalidationRequest) :
    V _ Any (invalidateImpl env req) := by
  unfold KernelCache.invalidateImpl
  refine w.bind (w.sect (Q := Any) hplain trivial fun _ => trivial) fun outcomes _ => ?_
  exact w.bind (w.perform trivial hplain) fun _ _ => w.ret trivial

/-- A recovery, section by section. -/
theorem recoverImpl (w : Walk V K) (hplain : K .plain) (hrecover : K .recover) :
    V _ Any (recoverImpl env) := by
  unfold KernelCache.recoverImpl
  split
  · exact w.ret trivial
  · refine w.bind (w.sect (Q := fun out => ∀ a ∈ out.1, a.key.wellFormed = true) hplain trivial
      fun s => s.store.scan_wellFormed _) fun out hvalid => ?_
    obtain ⟨valid, rejected, orphans⟩ := out
    refine w.bind (w.sect (Q := Any) hrecover hvalid fun _ => trivial) fun count _ => ?_
    exact w.bind (w.perform trivial hplain) fun _ _ => w.ret trivial

/-! ### All operations -/

/-- The whole pieces the walk is told about. -/
structure Pieces (env : Env) (V : (α : Type) → (α → Prop) → Op α → Prop) : Prop where
  evict : ∀ id force, V _ Any (KernelCache.evictImpl env id force)
  load : ∀ id, V _ Any (KernelCache.loadOp env id)
  unload : ∀ id, V _ Any (KernelCache.unloadOp env id)
  validate : ∀ request id, V _ Any (KernelCache.validateOp env request id)
  put : ∀ desc bytes, V _ Any (KernelCache.putOp env desc bytes)
  release : ∀ lease, V _ Any (KernelCache.releaseLease lease)
  recover : V _ Any (KernelCache.recoverImpl env)

end Walk

/-- The operations that may build. -/
def Operation.builds : Operation → Bool
  | .build _ | .acquire _ => true
  | _ => false

namespace Walk

variable {env : Env} {V : (α : Type) → (α → Prop) → Op α → Prop} {K : Stage → Prop}

/-- The walk over the operations that never build. -/
theorem operation_of_not_builds (w : Walk V K) (hplain : K .plain) (hp : Pieces env V)
    {op : Operation} (hop : op.builds = false) : V _ Any (op.prog env) := by
  cases op with
  | build request => cases hop
  | acquire request => cases hop
  | put desc bytes => exact w.bind (hp.put desc bytes) fun _ _ => w.ret trivial
  | lookup request => exact w.bind (w.lookupImpl hplain request) fun _ _ => w.ret trivial
  | release lease => exact w.bind (hp.release lease) fun _ _ => w.ret trivial
  | touch lease => exact w.bind (w.touchLease hplain lease) fun _ _ => w.ret trivial
  | validate request id => exact w.bind (hp.validate request id) fun _ _ => w.ret trivial
  | load id => exact w.bind (hp.load id) fun _ _ => w.ret trivial
  | unload id => exact w.bind (hp.unload id) fun _ _ => w.ret trivial
  | pin id =>
    exact w.bind (w.sect (Q := Any) hplain trivial fun _ => trivial) fun _ _ => w.ret trivial
  | unpin id =>
    exact w.bind (w.sect (Q := Any) hplain trivial fun _ => trivial) fun _ _ => w.ret trivial
  | evict id force => exact w.bind (hp.evict id force) fun _ _ => w.ret trivial
  | evictToFit tier => exact w.bind (w.evictToFit hplain hp.evict tier) fun _ _ => w.ret trivial
  | invalidate req => exact w.bind (w.invalidateImpl hplain req) fun _ _ => w.ret trivial
  | recover => exact w.bind hp.recover fun _ _ => w.ret trivial
  | rollCacheGeneration => exact w.bind (w.perform trivial hplain) fun _ _ => w.ret trivial
  | resetStats => exact w.bind (w.perform trivial hplain) fun _ _ => w.ret trivial

/-- **The walk.** Every operation is verified. -/
theorem operation (w : Walk V K) (hplain : K .plain) (hp : Pieces env V)
    (hbuild : ∀ request, V _ Any (KernelCache.buildImpl env request))
    (hacquire : ∀ request, V _ Any (KernelCache.acquireImpl env request)) (op : Operation) :
    V _ Any (op.prog env) := by
  by_cases hop : op.builds = true
  · cases op with
    | build request => exact w.bind (hbuild request) fun _ _ => w.ret trivial
    | acquire request => exact w.bind (hacquire request) fun _ _ => w.ret trivial
    | _ => cases hop
  · exact w.operation_of_not_builds hplain hp (by simpa using hop)

end Walk

/-! ## The text of lookups and builds -/

/-- The sections with which an owner finishes its build. -/
def Step.finishes : Step → Bool
  | .bump _ | .recordEvent | .fulfil _ _ | .eraseFence _ _ | .publish _ _ | .persist _
  | .markPersisted _ | .persistFailed => true
  | _ => false

/-- The sections of lookups and builds. -/
def Step.quiet : Step → Bool
  | .collect _ | .join _ | .runBuild _ _ | .await _ | .findBuilt _ _ => true
  | l => l.finishes

theorem Step.quiet_of_finishes {l : Step} (h : l.finishes = true) : l.quiet = true := by
  cases l <;> first | rfl | cases h

section Texts

variable {env : Env}

theorem lookupImpl_text (request : KernelLookupRequest) :
    (lookupImpl request).Text (fun l => l.quiet = true) fun _ => True := by
  unfold lookupImpl
  dsimp only
  split
  · exact trivial
  · refine .first rfl fun _ => ?_
    refine .first rfl fun _ => ?_
    exact .first rfl fun _ => trivial

theorem persistOp_text (o : Outcome) :
    (persistOp env o).Text (fun l => l.finishes = true) fun _ => True := by
  unfold persistOp
  refine .first rfl fun s => ?_
  cases (s.persist env o).1 with
  | ok _ => exact ⟨rfl, fun _ => trivial⟩
  | error e => exact .first rfl fun _ => ⟨rfl, fun _ => trivial⟩

theorem publishOp_text (fence : Nat) (o : Outcome) :
    (publishOp env fence o).Text (fun l => l.finishes = true)
      fun res => res ≠ .error .exception := by
  have hret : (.ok o.desc : Result ArtifactDescriptor) ≠ .error .exception := fun h => by cases h
  unfold publishOp
  refine .first rfl fun _ => ?_
  refine .first rfl fun s => ?_
  split
  · exact (persistOp_text o).bind fun _ _ => hret
  · exact hret

/-- What follows a `run_build` that has returned never throws. -/
theorem finishBuild_text (digest : Sha256Digest) (fence : Nat) (o : Outcome) :
    (finishBuild env digest fence o).Text (fun l => l.finishes = true)
      fun res => res ≠ .error .exception := by
  unfold finishBuild
  refine .first rfl fun _ => ?_
  refine .first rfl fun _ => ?_
  refine .first rfl fun _ => ?_
  split
  · refine .first rfl fun _ => ?_
    refine .first rfl fun _ => ?_
    exact fun h => by cases h
  · exact publishOp_text fence o

theorem buildOwner_text (request : KernelLookupRequest) (digest : Sha256Digest) (fence : Nat)
    (gen : ArtifactGeneration) :
    (buildOwner env request digest fence gen).Text (fun l => l.quiet = true) fun _ => True := by
  unfold buildOwner runBuildOp
  refine Prog.Text.bind (Q := fun _ => True) ?_ fun res _ => ?_
  · refine .first rfl fun s => ?_
    cases runBuild env s.tick request gen with
    | error e => exact trivial
    | ok o =>
      dsimp only
      split
      · exact .first rfl fun _ => .first rfl fun _ => trivial
      · exact trivial
  · cases res with
    | error e => exact trivial
    | ok o =>
      exact (finishBuild_text digest fence o).mono (fun _ => Step.quiet_of_finishes)
        fun _ _ => trivial

theorem buildImpl_text (request : KernelLookupRequest) :
    (buildImpl env request).Text (fun l => l.quiet = true) fun _ => True := by
  unfold buildImpl
  refine .first rfl fun s => ?_
  cases (s.join (buildRequestOf env request).key.ensureFinalized.digest).1 with
  | owner fence gen => exact buildOwner_text _ _ fence gen
  | waiter fence =>
    unfold buildWaiter
    refine .first rfl fun s => ?_
    split
    · exact trivial
    · exact ⟨rfl, fun _ => trivial⟩

end Texts

end KernelCache
