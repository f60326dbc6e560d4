/-
# KernelCache.Impl — the state of a cache and its lock-protected sections (`impl.hpp`, `cache.cpp`,
`residency.cpp`, `leases.cpp`, `recovery.cpp`).

Records live in a heap and are named by pointers, as the source shares them through `shared_ptr`: a
thread keeps a pointer across sections, the three indices hold ids.  No operation removes an index
entry.  A record's key is hashed when it enters `by_key`, which finalizes it in place.

Each section below is what one operation does between acquiring and releasing its lock (or one call
to a backend or the store with no lock held), as a function of the state: what it returns and the
state it leaves.  Changes to a single record are functions on records, so that what can happen to a
record is a closed list.
-/
import KernelCache.Backend

namespace KernelCache

open Foundation (Bytes)

/-! ## State -/

/-- The counters of `Stats` the cache maintains, times aside. -/
structure Stats where
  lookups : Nat := 0
  exactHits : Nat := 0
  compatibleHits : Nat := 0
  persistentHits : Nat := 0
  hostHits : Nat := 0
  deviceHits : Nat := 0
  misses : Nat := 0
  builds : Nat := 0
  buildDedup : Nat := 0
  invalidations : Nat := 0
  evictions : Nat := 0
  bytesPersisted : Nat := 0
  failedBuilds : Nat := 0
  persistentReloads : Nat := 0
  cudaExecValidations : Nat := 0
  activeBuilds : Nat := 0
  activeLeases : Nat := 0
  activeDeviceLoads : Nat := 0

/-- `KernelLease::State`. -/
structure LeaseState where
  record : Nat := 0
  genValue : ArtifactGeneration := 0
  loadGenValue : LoadGeneration := 0
  released : Bool := false

/-- What a loader has been told. -/
inductive LoaderCall where
  | load (handle : LoadedModuleHandle)
  | unload (handle : LoadedModuleHandle)

/-- `KernelCache::Impl`. -/
structure Impl where
  records : Nat → ArtifactRecord := fun _ => {}
  nextRecord : Nat := 0
  byId : Map ArtifactId Nat := ∅
  byKey : Map Sha256Digest (List ArtifactId) := ∅
  byOperation : Map Str (List ArtifactId) := ∅
  cacheGeneration : CacheGeneration := 1
  nextGeneration : ArtifactGeneration := 0
  inFlight : Map Sha256Digest Nat := ∅
  /-- The promise of each fence, once fulfilled. -/
  fences : Nat → Option Outcome := fun _ => none
  nextFence : Nat := 0
  leases : Nat → LeaseState := fun _ => {}
  nextLease : Nat := 0
  store : FilePersistenceStore := {}
  stats : Stats := {}
  /-- `stats_mtx_` is held by a thread that will not release it. -/
  statsHeld : Bool := false
  loaderLog : List LoaderCall := []
  /-- Steps made so far. -/
  tick : Nat := 0

/-- A fresh cache on a store with the given content. -/
def Impl.initial (store : FilePersistenceStore) : Impl := { store := store }

/-! ## Changes to one record -/

namespace ArtifactRecord

/-- The commit after a successful store write. -/
def persisted (r : ArtifactRecord) : ArtifactRecord :=
  { r with persistent := true, tier := .persistentStorage }

/-- `ensure_bytes` after a reload. -/
def reloaded (r : ArtifactRecord) (bytes : Bytes) : ArtifactRecord :=
  { r with bytes := bytes, persistent := true }

/-- The device branch of `promote_to_tier`. -/
def promoteDevice (r : ArtifactRecord) (handle : LoadedModuleHandle) (footprint : UInt64 × Bool) :
    ArtifactRecord :=
  { r with
    nativeHandle := handle
    loadGeneration := r.loadGeneration + 1
    residencyGeneration := r.residencyGeneration + 1
    deviceFootprint := footprint.1
    deviceFootprintEstimated := footprint.2
    deviceBytesUsed := footprint.1
    state := r.state.tryMove .residentDevice
    tier := .deviceResident }

/-- The host branch of `promote_to_tier`. -/
def promoteHost (r : ArtifactRecord) : ArtifactRecord :=
  { r with
    tier := .hostResident
    state := r.state.tryMove .residentHost
    residencyGeneration := r.residencyGeneration + 1 }

/-- The tier a record falls back to. -/
def fallbackTier (r : ArtifactRecord) : ResidencyTier :=
  if r.persistent then .persistentStorage else .metadataOnly

/-- The first section of `evict_impl`. -/
def evictBegin (r : ArtifactRecord) : ArtifactRecord :=
  { r with state := r.state.tryMove .evictionPending }

/-- The last section of `evict_impl`. -/
def evictCommit (r : ArtifactRecord) : ArtifactRecord :=
  match r.tier with
  | .deviceResident =>
    { r with
      nativeHandle := none, deviceFootprint := 0
      state := r.state.tryMove .evictedDevice
      tier := r.fallbackTier }
  | .hostResident =>
    { r with
      nativeHandle := none, deviceFootprint := 0
      state := r.state.tryMove .evictedHost
      tier := r.fallbackTier
      bytes := []
      desc := { r.desc with sizes := { r.desc.sizes with hostBytes := 0 } } }
  | _ => { r with nativeHandle := none, deviceFootprint := 0, tier := r.fallbackTier }

/-- `grant_lease` refuses these. -/
def leasable (r : ArtifactRecord) : Bool := !r.invalidated && !r.corrupt && r.state.isEligible

/-- A granted lease.  The state moves only from the four named states, and only when whitelisted. -/
def leased (r : ArtifactRecord) (now : UInt64) (pin : Bool) : ArtifactRecord :=
  { r with
    leaseCount := r.leaseCount + 1
    accessCount := r.accessCount + 1
    lastAccessNs := now
    reuseCount := r.reuseCount + 1
    state :=
      if r.state == .valid || r.state == .persisted || r.state == .residentDevice ||
          r.state == .residentHost then r.state.tryMove .inUse
      else r.state
    pinCount := if pin then r.pinCount + 1 else r.pinCount }

/-- `on_lease_release`. -/
def released (r : ArtifactRecord) : ArtifactRecord :=
  let count := r.leaseCount - 1
  { r with
    leaseCount := count
    state :=
      if count == 0 && (r.invalidated || r.corrupt) then r.state.tryMove .retired else r.state }

/-- `KernelLease::touch`. -/
def touched (r : ArtifactRecord) (now : UInt64) : ArtifactRecord :=
  { r with lastAccessNs := now, reuseCount := r.reuseCount + 1 }

/-- `invalidate_impl` on a matching record that is not invalidated yet. -/
def invalidate (r : ArtifactRecord) : ArtifactRecord :=
  { r with
    invalidated := true
    state :=
      if r.state != .corrupt && r.state != .failed && r.state != .retired && r.state != .terminal
      then r.state.tryMove .invalidated else r.state }

/-- The commit of `validate`; only an error other than an exception gets here. -/
def validatedBy (r : ArtifactRecord) (res : Result ValidationDescriptor) : ArtifactRecord :=
  match res with
  | .ok vd =>
    let passed := vd.allPassed
    { r with
      validated := passed
      desc := { r.desc with validation := vd }
      state := if passed then r.state.tryMove .valid else r.state.tryMove .corrupt
      corrupt := r.corrupt || (!passed && canTransition r.state .corrupt) }
  | .error _ => { r with corrupt := true, state := r.state.tryMove .corrupt }

/-- The commit of `unload`. -/
def unloaded (r : ArtifactRecord) : ArtifactRecord :=
  { r with
    nativeHandle := none, deviceFootprint := 0
    state := r.state.tryMove .evictedDevice
    tier := r.fallbackTier }

def pinned (r : ArtifactRecord) : ArtifactRecord := { r with pinCount := r.pinCount + 1 }

def unpinned (r : ArtifactRecord) : ArtifactRecord := { r with pinCount := r.pinCount - 1 }

end ArtifactRecord

/-- `make_record`.  The kernel id is read off the digest as it stands, finalized or not. -/
def makeRecord (now : UInt64) (desc : ArtifactDescriptor) (bytes : Bytes) : ArtifactRecord where
  id := desc.id
  generation := desc.generation
  key := desc.key
  desc := desc
  bytes := bytes
  state := .valid
  tier := .metadataOnly
  persistent := false
  validated := desc.validation.allPassed
  tenant := desc.namespace_
  operation := desc.key.operation
  arch := desc.key.arch
  backend := desc.backend
  kernelId := ⟨⟨desc.key.digest.word 0, desc.key.digest.word 1⟩⟩
  lastAccessNs := now

namespace Impl

/-- Change the record behind a pointer. -/
def modify (s : Impl) (p : Nat) (f : ArtifactRecord → ArtifactRecord) : Impl :=
  { s with records := Function.update s.records p (f (s.records p)) }

/-- `insert_index_locked` of a new record.  Hashing the key for `by_key` finalizes it. -/
def insertIndexLocked (s : Impl) (r : ArtifactRecord) : Impl :=
  let key := r.key.ensureFinalized
  { s with
    records := Function.update s.records s.nextRecord { r with key := key }
    nextRecord := s.nextRecord + 1
    byId := s.byId.insert r.id s.nextRecord
    byKey := s.byKey.insert key.digest ((s.byKey.lookup key.digest).getD [] ++ [r.id])
    byOperation :=
      s.byOperation.insert r.operation ((s.byOperation.lookup r.operation).getD [] ++ [r.id]) }

/-- Insert unless the id is taken. -/
def insertIfAbsent (s : Impl) (r : ArtifactRecord) : Impl :=
  match s.byId.lookup r.id with
  | some _ => s
  | none => s.insertIndexLocked r

/-- `bump`. -/
def bump (f : Stats → Stats) (s : Impl) : Impl := { s with stats := f s.stats }

/-! ## Lookup -/

/-- The fields of `CandidateSnapshot` that `lookup_impl` reads. -/
structure CandidateSnapshot where
  record : Nat
  id : ArtifactId
  key : KernelCompatibilityKey
  gen : ArtifactGeneration
  state : ArtifactState
  tier : ResidencyTier
  validated : Bool
  invalidated : Bool
  corrupt : Bool

/-- `emit`. -/
def snapshotOf (s : Impl) (p : Nat) : CandidateSnapshot where
  record := p
  id := (s.records p).id
  key := (s.records p).key
  gen := (s.records p).generation
  state := (s.records p).state
  tier := (s.records p).tier
  validated := (s.records p).validated
  invalidated := (s.records p).invalidated
  corrupt := (s.records p).corrupt

/-- The snapshots of the ids of one index entry. -/
def emitAll (s : Impl) (ids : List ArtifactId) : List CandidateSnapshot :=
  ids.filterMap fun id => (s.byId.lookup id).map s.snapshotOf

/-- `collect_candidates`: the records under the key, else those of the operation. -/
def collectCandidates (s : Impl) (request : KernelCompatibilityKey) : List CandidateSnapshot :=
  let exact := s.emitAll ((s.byKey.lookup request.ensureFinalized.digest).getD [])
  if exact.isEmpty && !request.operation.isEmpty then
    s.emitAll ((s.byOperation.lookup request.operation).getD [])
  else exact

end Impl

inductive LookupOutcome where
  | exactHit
  | compatibleHit
  | hostResidentHit
  | deviceResidentHit
  | persistedHit
  | missRequiresBuild
  | missInvalidated
  deriving DecidableEq

namespace LookupOutcome

/-- `lookup_outcome_name`. -/
def name : LookupOutcome → Str
  | exactHit => str "exact-hit"
  | compatibleHit => str "compatible-hit"
  | hostResidentHit => str "host-resident-hit"
  | deviceResidentHit => str "device-resident-hit"
  | persistedHit => str "persisted-hit"
  | missRequiresBuild => str "miss-requires-build"
  | missInvalidated => str "miss-invalidated"

/-- `is_hit`. -/
def isHit : LookupOutcome → Bool
  | missRequiresBuild | missInvalidated => false
  | _ => true

/-- The counters a lookup with this outcome moves. -/
def count (o : LookupOutcome) (st : Stats) : Stats :=
  let st := { st with lookups := st.lookups + 1 }
  match o with
  | exactHit => { st with exactHits := st.exactHits + 1 }
  | compatibleHit => { st with compatibleHits := st.compatibleHits + 1 }
  | persistedHit => { st with persistentHits := st.persistentHits + 1 }
  | hostResidentHit => { st with hostHits := st.hostHits + 1 }
  | deviceResidentHit => { st with deviceHits := st.deviceHits + 1 }
  | missRequiresBuild | missInvalidated => { st with misses := st.misses + 1 }

end LookupOutcome

structure KernelLookupResult where
  outcome : LookupOutcome := .missRequiresBuild
  artifact : Option ArtifactId := none
  generation : Option ArtifactGeneration := none
  decision : KernelCompatibilityDecision := {}
  notes : List Str := []
  fromCache : Bool := false

open Impl (CandidateSnapshot)

/-- A snapshot with the decision on it. -/
abbrev Judged := CandidateSnapshot × KernelCompatibilityDecision

/-- The candidates that are healthy, eligible and compatible, with their decisions. -/
def judge (key : KernelCompatibilityKey) (policy : CompatibilityPolicy)
    (candidates : List CandidateSnapshot) : List Judged :=
  candidates.filterMap fun c =>
    if c.invalidated || c.corrupt || !c.validated || !c.state.isEligible then none
    else
      let d := evaluateCompatibility key c.key policy
      if d.compatible then some (c, d) else none

/-- `std::min_element` by distance: the first of the closest. -/
def closest : List Judged → Option Judged
  | [] => none
  | c :: cs =>
    match closest cs with
    | none => some c
    | some b => if b.2.distance < c.2.distance then some b else some c

/-- The outcome class of a hit. -/
def hitOutcome (tier : ResidencyTier) (d : KernelCompatibilityDecision) : LookupOutcome :=
  match tier with
  | .deviceResident => .deviceResidentHit
  | .hostResident => .hostResidentHit
  | .persistentStorage => .persistedHit
  | _ => if d.isExact then .exactHit else .compatibleHit

/-- The decision of `lookup_impl` on the snapshots it took. -/
def decideLookup (key : KernelCompatibilityKey) (policy : CompatibilityPolicy)
    (candidates : List CandidateSnapshot) : KernelLookupResult :=
  match closest (judge key policy candidates) with
  | none =>
    let anyHealthy := candidates.any fun c => !c.invalidated && !c.corrupt && c.validated
    if !candidates.isEmpty && !anyHealthy then
      { outcome := .missInvalidated
        notes := [str "all candidates invalidated/corrupt", str "no compatible eligible candidate"] }
    else
      { outcome := .missRequiresBuild, notes := [str "no compatible eligible candidate"] }
  | some (c, d) =>
    { outcome := hitOutcome c.tier d
      artifact := some c.id
      generation := some c.gen
      decision := d
      notes := [d.summary]
      fromCache := true }

namespace Impl

/-! ## Builds -/

/-- The two ways out of the single-flight section. -/
inductive Joined where
  | owner (fence : Nat) (gen : ArtifactGeneration)
  | waiter (fence : Nat)

/-- The single-flight section of `build_impl`: attach to the build in flight, or start one. -/
def join (s : Impl) (digest : Sha256Digest) : Joined × Impl :=
  match s.inFlight.lookup digest with
  | some fence =>
    (.waiter fence, s.bump fun st => { st with buildDedup := st.buildDedup + 1 })
  | none =>
    (.owner s.nextFence s.nextGeneration,
      { s with
        nextGeneration := s.nextGeneration + 1
        nextFence := s.nextFence + 1
        inFlight := s.inFlight.insert digest s.nextFence
        stats := { s.stats with activeBuilds := s.stats.activeBuilds + 1
                                builds := s.stats.builds + 1 } })

/-- `fence->promise.set_value(outc)`; a promise keeps its first value. -/
def fulfil (s : Impl) (fence : Nat) (o : Outcome) : Impl :=
  match s.fences fence with
  | some _ => s
  | none => { s with fences := Function.update s.fences fence (some o) }

/-- The owner takes its fence out of `in_flight`, unless another one stands there. -/
def eraseFence (s : Impl) (fence : Nat) (digest : Sha256Digest) : Impl :=
  if s.inFlight.lookup digest = some fence then { s with inFlight := s.inFlight.erase digest }
  else s

/-- The owner publishes its record unless the id is taken; returns `new_record`. -/
def publish (env : Env) (s : Impl) (o : Outcome) : Bool × Impl :=
  match s.byId.lookup o.id with
  | some _ => (false, s)
  | none => (true, s.insertIndexLocked (makeRecord (env.now s.tick) o.desc o.bytes))

/-- What `build_impl` hands to the store. -/
def storedArtifact (now : UInt64) (o : Outcome) : StoredArtifact where
  id := o.desc.id
  generation := o.desc.generation
  key := o.desc.key
  bytes := o.bytes
  sizes := o.desc.sizes
  provenance := o.desc.provenance
  format := o.desc.format
  sha256Hex := some o.desc.bytesSha256
  namespace_ := o.desc.namespace_
  storedNs := now

/-- `persistence->put`. -/
def persist (env : Env) (s : Impl) (o : Outcome) : Result Unit × Impl :=
  let (res, store) :=
    s.store.put (env.putFaults s.tick) (storedArtifact (env.now s.tick) o)
  (res, { s with store := store })

/-- The commit after a successful `put`. -/
def markPersisted (s : Impl) (o : Outcome) : Impl :=
  let s :=
    match s.byId.lookup o.id with
    | some p => s.modify p ArtifactRecord.persisted
    | none => s
  s.bump fun st => { st with bytesPersisted := st.bytesPersisted + o.bytes.length }

/-- The waiter's read of the index. -/
def findBuilt (s : Impl) (o : Outcome) : Result ArtifactDescriptor :=
  match s.byId.lookup o.id with
  | some p => .ok (s.records p).desc
  | none => fail .notFound (str "built artifact not in index")

/-! ## Residency -/

/-- `loader->load` and `resident_footprint`, with the backend found by the record's key. -/
def loadModule (env : Env) (s : Impl) (p : Nat) (bytes : Bytes) (device : DeviceDescriptor) :
    Result (LoadedModuleHandle × UInt64 × Bool) × Impl :=
  match (findBackend env.backends (s.records p).key).bind KernelBackend.loader with
  | none => (fail .notSupported (str "no loader for host->device promotion"), s)
  | some loader =>
    match loader.load s.tick (s.records p).key bytes device with
    | .error e => (.error e, s)
    | .ok handle =>
      (.ok (handle, loader.residentFootprint s.tick handle),
        { s with loaderLog := s.loaderLog ++ [.load handle] })

def commitDevice (s : Impl) (p : Nat) (handle : LoadedModuleHandle) (footprint : UInt64 × Bool) :
    Impl :=
  (s.modify p fun r => r.promoteDevice handle footprint).bump fun st =>
    { st with activeDeviceLoads := st.activeDeviceLoads + 1 }

/-- The loader call of `evict_impl` and `unload`, on the handle the record has now. -/
def unloadModule (env : Env) (s : Impl) (p : Nat) : Result Unit × Impl :=
  match (findBackend env.backends (s.records p).key).bind KernelBackend.loader,
      (s.records p).nativeHandle with
  | some loader, some handle =>
    (loader.unload s.tick (some handle),
      { s with loaderLog := s.loaderLog ++ [.unload (some handle)] })
  | _, _ => (.ok (), s)

/-- What the scan of `evict_to_fit` carries: bytes in use and the best candidate with its score. -/
structure Scan where
  used : UInt64 := 0
  best : Option (ArtifactId × Nat) := none

/-- One record of the scan.  The device scan counts a footprint before it looks at the tier. -/
def scanRecord (env : Env) (s : Impl) (tier : ResidencyTier) (acc : Scan) (id : ArtifactId) : Scan :=
  match s.byId.lookup id with
  | none => acc
  | some p =>
    let r := s.records p
    let consider (acc : Scan) : Scan :=
      let score := env.score s.tick r
      match acc.best with
      | none => { acc with best := some (id, score) }
      | some (_, b) => if b < score then { acc with best := some (id, score) } else acc
    if 0 < r.pinCount ∨ 0 < r.leaseCount then acc
    else if r.invalidated || r.corrupt then acc
    else if tier == .deviceResident then
      let acc := { acc with used := acc.used + r.deviceFootprint }
      if r.tier != .deviceResident then acc else consider acc
    else if r.tier != .hostResident && r.tier != .deviceResident then acc
    else consider { acc with used := acc.used + r.desc.sizes.hostBytes }

/-- The locked part of one round of `evict_to_fit`: the victim, if one is needed. -/
def pickVictim (env : Env) (s : Impl) (tier : ResidencyTier) : Option ArtifactId :=
  let budget :=
    if tier == .deviceResident then env.cfg.residency.deviceBudgetBytes
    else env.cfg.residency.hostBudgetBytes
  let acc := (env.idOrder s.tick s.byId.keys).foldl (s.scanRecord env tier) {}
  match acc.best with
  | none => none
  | some (id, _) => if acc.used ≤ budget then none else some id

/-- The first section of `evict_impl`: the record to evict. -/
def evictBegin (s : Impl) (id : ArtifactId) (force : Bool) : Result Nat × Impl :=
  match s.byId.lookup id with
  | none => (fail .notFound (str "artifact not found"), s)
  | some p =>
    let r := s.records p
    if 0 < r.leaseCount ∨ 0 < r.pinCount then
      if !force then (fail .evictionForbidden (str "leased or pinned artifact"), s)
      else
        (fail .evictionForbidden (str "cannot evict an actively leased/pinned artifact"), s)
    else (.ok p, s.modify p ArtifactRecord.evictBegin)

def evictCommit (s : Impl) (p : Nat) : Impl :=
  (s.modify p ArtifactRecord.evictCommit).bump fun st => { st with evictions := st.evictions + 1 }

/-! ## Leases -/

/-- `grant_lease`. -/
def grantLease (env : Env) (s : Impl) (p : Nat) (pin : Bool) : Result Nat × Impl :=
  let r := s.records p
  if r.leasable then
    let s' := s.modify p fun r => r.leased (env.now s.tick) pin
    (.ok s.nextLease,
      { s' with
        leases := Function.update s.leases s.nextLease
          { record := p, genValue := r.generation, loadGenValue := r.loadGeneration }
        nextLease := s.nextLease + 1
        stats := { s.stats with activeLeases := s.stats.activeLeases + 1 } })
  else (fail .staleArtifact (str "artifact no longer eligible at lease time"), s)

/-- `released.exchange(true)`. -/
def exchangeReleased (s : Impl) (lease : Nat) : Impl :=
  { s with
    leases := Function.update s.leases lease { s.leases lease with released := true } }

/-- `on_lease_release`. -/
def onLeaseRelease (s : Impl) (p : Nat) : Impl :=
  (s.modify p ArtifactRecord.released).bump fun st => { st with activeLeases := st.activeLeases - 1 }

end Impl

/-! ## Management -/

inductive InvalidationTarget where
  | artifactId
  | kernelId
  | compatibilityKey
  | operation
  | compilerGeneration
  | runtimeGeneration
  | architecture
  | modelRevision
  | operatorRevision
  | namespace_
  | all
  deriving DecidableEq

structure InvalidationRequest where
  target : InvalidationTarget := .artifactId
  artifactLo : Option UInt64 := none
  artifactHi : Option UInt64 := none
  kernelLo : Option UInt64 := none
  kernelHi : Option UInt64 := none
  key : Option KernelCompatibilityKey := none
  operation : Str := []
  compilerGeneration : Str := []
  runtimeGeneration : Str := []
  architecture : Str := []
  modelRevision : Str := []
  operatorRevision : Str := []
  namespace_ : Str := []
  hard : Bool := false

structure InvalidationOutcome where
  target : InvalidationTarget
  applied : Bool
  affected : UInt32
  affectedIds : List ArtifactId
  message : Str
  hard : Bool

/-- A field of the request that is set and equal to the record's. -/
def namesField (wanted actual : Str) : Bool := !wanted.isEmpty && actual == wanted

/-- The `switch` of `invalidate_impl`. -/
def InvalidationRequest.selects (req : InvalidationRequest) (id : ArtifactId) (r : ArtifactRecord) :
    Bool :=
  match req.target with
  | .artifactId => id == ⟨⟨req.artifactHi.getD 0, req.artifactLo.getD 0⟩⟩
  | .kernelId => r.kernelId == ⟨⟨req.kernelHi.getD 0, req.kernelLo.getD 0⟩⟩
  | .compatibilityKey => req.key.any fun k => r.key.eqv k
  | .operation => namesField req.operation r.operation
  | .architecture => namesField req.architecture r.arch
  | .compilerGeneration =>
    !req.compilerGeneration.isEmpty &&
      (r.desc.compilation.compiler.name == req.compilerGeneration ||
        r.key.compilerName == req.compilerGeneration)
  | .runtimeGeneration => namesField req.runtimeGeneration r.key.runtimeBackend
  | .modelRevision => namesField req.modelRevision r.key.modelRevision
  | .operatorRevision => namesField req.operatorRevision r.key.operatorRevision
  | .namespace_ => namesField req.namespace_ r.tenant
  | .all => true

namespace Impl

/-- The ids a request selects, in iteration order. -/
def selected (env : Env) (s : Impl) (req : InvalidationRequest) : List ArtifactId :=
  (env.idOrder s.tick s.byId.keys).filter fun id =>
    (s.byId.lookup id).any fun p => req.selects id (s.records p)

/-- The second loop of `invalidate_impl`. -/
def invalidateAll (req : InvalidationRequest) : Impl → List ArtifactId →
    List InvalidationOutcome × Impl
  | s, [] => ([], s)
  | s, id :: ids =>
    match s.byId.lookup id with
    | none => invalidateAll req s ids
    | some p =>
      if (s.records p).invalidated then invalidateAll req s ids
      else
        let (outcomes, s') := invalidateAll req (s.modify p ArtifactRecord.invalidate) ids
        ({ target := req.target, applied := true, affected := 1, affectedIds := [id]
           message :=
             str "invalidated (lease_count=" ++ natStr (s.records p).leaseCount ++ str ")"
           hard := req.hard } :: outcomes, s')

/-- `invalidate_impl` under its lock. -/
def invalidate (env : Env) (s : Impl) (req : InvalidationRequest) :
    List InvalidationOutcome × Impl :=
  let ids := s.selected env req
  let (outcomes, s') := invalidateAll req s ids
  (outcomes, s'.bump fun st => { st with invalidations := st.invalidations + ids.length })

/-- `validator->validate` on the record as it is now, with no lock held. -/
def validateCall (env : Env) (s : Impl) (p : Nat) (device : DeviceDescriptor) :
    Option (Result ValidationDescriptor) :=
  ((findBackend env.backends (s.records p).key).bind KernelBackend.validator).map
    fun validator => validator.validate s.tick (s.records p).key (s.records p).bytes device

/-- `put` after its id and generation are filled in. -/
def put (env : Env) (s : Impl) (desc : ArtifactDescriptor) (bytes : Bytes) :
    Result ArtifactId × Impl :=
  match s.byId.lookup desc.id with
  | some _ => (fail .alreadyExists (str "artifact id already present"), s)
  | none => (.ok desc.id, s.insertIndexLocked (makeRecord (env.now s.tick) desc bytes))

/-- The record of a recovered artifact. -/
def recoveredRecord (now : UInt64) (sa : StoredArtifact) : ArtifactRecord :=
  let desc : ArtifactDescriptor :=
    { id := sa.id, generation := sa.generation, key := sa.key, format := sa.format
      namespace_ := sa.namespace_, backend := sa.provenance.producer, sizes := sa.sizes
      provenance := sa.provenance, bytesSha256 := sa.sha256Hex.getD []
      publishedAtNs := sa.storedNs
      validation := { integrityHashChecked := true, formatChecked := true
                      metadataConsistent := true } }
  { makeRecord now desc sa.bytes with
    persistent := true, tier := .persistentStorage, state := .persisted, validated := true }

/-- The locked loop of `recover_impl`: the number of records inserted. -/
def recoverInsert (env : Env) : Impl → List StoredArtifact → Nat × Impl
  | s, [] => (0, s)
  | s, sa :: rest =>
    match s.byId.lookup sa.id with
    | some _ => recoverInsert env s rest
    | none =>
      let s' := (s.insertIndexLocked (recoveredRecord (env.now s.tick) sa)).bump fun st =>
        { st with persistentReloads := st.persistentReloads + 1 }
      let (count, s'') := recoverInsert env s' rest
      (count + 1, s'')

/-- `persistence->recover`. -/
def recoverRead (env : Env) (s : Impl) : (List StoredArtifact × List Str × List Str) × Impl :=
  let (res, store) :=
    s.store.recover (env.dirOrder s.tick s.store.artifacts.keys)
  (res, { s with store := store })

end Impl

end KernelCache
