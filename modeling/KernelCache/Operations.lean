/-
# KernelCache.Operations — the cache as a machine and its operations as programs (`cache.cpp`,
`residency.cpp`, `leases.cpp`, `recovery.cpp`, `build.cpp`).

`Step` names the sections of `Impl` with their arguments; `exec` is the machine: when a section may
be taken (`ready`) and what it leaves (`effect`).  A section that counts is blocked while some
thread sits on `stats_mtx_`: a failed store write takes that mutex and then calls `record_event`,
which takes it again, so that thread never goes on and never lets go.

Each public operation is the program its source text spells, section after section, with the local
computation in between.  Nothing here says in which order sections of different operations happen.
-/
import KernelCache.Foundation.Prog
import KernelCache.Impl

namespace KernelCache

open Foundation (Bytes Prog)

/-! ## The machine -/

/-- The sections with their arguments. -/
inductive Step where
  -- lookup
  | collect (key : KernelCompatibilityKey)
  | bump (f : Stats → Stats)
  | recordEvent
  -- build
  | join (digest : Sha256Digest)
  | runBuild (request : KernelLookupRequest) (gen : ArtifactGeneration)
  | fulfil (fence : Nat) (o : Outcome)
  | eraseFence (fence : Nat) (digest : Sha256Digest)
  | publish (fence : Nat) (o : Outcome)
  | persist (o : Outcome)
  | markPersisted (o : Outcome)
  | persistFailed
  | await (fence : Nat)
  | findBuilt (fence : Nat) (o : Outcome)
  -- residency
  | find (id : ArtifactId)
  | readTier (p : Nat)
  | readBytes (p : Nat)
  | reload (p : Nat)
  | storeBytes (p : Nat) (bytes : Bytes)
  | loadModule (p : Nat) (bytes : Bytes) (device : DeviceDescriptor)
  | commitDevice (p : Nat) (handle : LoadedModuleHandle) (footprint : UInt64 × Bool)
  | commitHost (p : Nat)
  | readHandle (p : Nat)
  | pickVictim (tier : ResidencyTier)
  | outOfRounds
  | evictBegin (id : ArtifactId) (force : Bool)
  | evictUnload (p : Nat)
  | evictCommit (p : Nat)
  -- leases
  | grantLease (p : Nat) (pin : Bool)
  | readLease (lease : Nat)
  | exchangeReleased (lease : Nat)
  | onLeaseRelease (p : Nat)
  | touch (p : Nat)
  -- management
  | invalidate (req : InvalidationRequest)
  | validateCall (p : Nat) (device : DeviceDescriptor)
  | validateCommit (p : Nat) (res : Result ValidationDescriptor)
  | unloadCall (p : Nat)
  | unloadCommit (p : Nat)
  | pin (id : ArtifactId)
  | unpin (id : ArtifactId)
  | put (desc : ArtifactDescriptor) (bytes : Bytes)
  | recoverRead
  | recoverInsert (artifacts : List StoredArtifact)
  | rollCacheGeneration
  | resetStats

/-- Change the record an id is bound to. -/
def Impl.modifyId (s : Impl) (id : ArtifactId) (f : ArtifactRecord → ArtifactRecord) : Impl :=
  match s.byId.lookup id with
  | some p => s.modify p f
  | none => s

namespace Step

/-- Whether the section can be taken: a promise is fulfilled, `stats_mtx_` is free. -/
def ready (s : Impl) : Step → Bool
  | await fence => (s.fences fence).isSome
  | outOfRounds => false
  | grantLease p _ => !(s.statsHeld && (s.records p).leasable)
  | bump _ | recordEvent | join _ | markPersisted _ | persistFailed | commitDevice _ _ _
  | evictCommit _ | onLeaseRelease _ | invalidate _ | recoverInsert _ | resetStats => !s.statsHeld
  | _ => true

/-- The state a section leaves. -/
def effect (env : Env) (s : Impl) : Step → Impl
  | bump f => s.bump f
  | join digest => (s.join digest).2
  | fulfil fence o => s.fulfil fence o
  | eraseFence fence digest => s.eraseFence fence digest
  | publish _ o => (s.publish env o).2
  | persist o => (s.persist env o).2
  | markPersisted o => s.markPersisted o
  | persistFailed => { s with statsHeld := true }
  | storeBytes p bytes => s.modify p fun r => r.reloaded bytes
  | loadModule p bytes device => (s.loadModule env p bytes device).2
  | commitDevice p handle footprint => s.commitDevice p handle footprint
  | commitHost p => s.modify p ArtifactRecord.promoteHost
  | evictBegin id force => (s.evictBegin id force).2
  | evictUnload p => (s.unloadModule env p).2
  | evictCommit p => s.evictCommit p
  | grantLease p withPin => (s.grantLease env p withPin).2
  | exchangeReleased lease => s.exchangeReleased lease
  | onLeaseRelease p => s.onLeaseRelease p
  | touch p => s.modify p fun r => r.touched (env.now s.tick)
  | invalidate req => (s.invalidate env req).2
  | validateCommit p res => s.modify p fun r => r.validatedBy res
  | unloadCall p => (s.unloadModule env p).2
  | unloadCommit p => s.modify p ArtifactRecord.unloaded
  | pin id => s.modifyId id ArtifactRecord.pinned
  | unpin id => s.modifyId id ArtifactRecord.unpinned
  | put desc bytes => (s.put env desc bytes).2
  | recoverRead => (s.recoverRead env).2
  | recoverInsert artifacts => (Impl.recoverInsert env s artifacts).2
  | rollCacheGeneration => { s with cacheGeneration := s.cacheGeneration + 1 }
  | resetStats => { s with stats := {} }
  -- sections that only read
  | collect _ | recordEvent | runBuild _ _ | await _ | findBuilt _ _ | find _ | readTier _
  | readBytes _ | reload _ | readHandle _ | pickVictim _ | outOfRounds | readLease _
  | validateCall _ _ => s

end Step

/-- One step of the cache. -/
def exec (env : Env) (l : Step) (s : Impl) : Option Impl :=
  if l.ready s then some { l.effect env s with tick := s.tick + 1 } else none

/-- Programs over the cache. -/
abbrev Op (α : Type) := Prog Step Impl α

open Foundation.Prog (sect perform)

/-! ## Lookup -/

/-- `lookup_impl`. -/
def lookupImpl (request : KernelLookupRequest) : Op (Result KernelLookupResult) :=
  let key := request.key.finalize
  if !key.finalized then
    return fail .invalidArgument (str "key not finalizable")
  else do
    let candidates ← sect (.collect key) (fun s => s.collectCandidates key)
    let result := decideLookup key request.policy candidates
    perform (.bump result.outcome.count)
    perform .recordEvent
    return .ok result

/-! ## Build -/

/-- The request as `build_impl` completes it. -/
def buildRequestOf (env : Env) (request : KernelLookupRequest) : KernelLookupRequest :=
  { request with
    key := request.key.finalize
    namespace_ := if request.namespace_.isEmpty then env.cfg.namespace_ else request.namespace_ }

/-- `run_build` as a program: the backend calls, then the counters of a success. -/
def runBuildOp (env : Env) (request : KernelLookupRequest) (gen : ArtifactGeneration) :
    Op (Result Outcome) := do
  let res ← sect (.runBuild request gen) (fun s => runBuild env s.tick request gen)
  match res with
  | .error e => return .error e
  | .ok o =>
    if o.succeeded then
      perform (.bump fun st =>
        { st with cudaExecValidations :=
            st.cudaExecValidations + if o.desc.backend = str "cuda" then 1 else 0 })
      perform .recordEvent
      return .ok o
    else return .ok o

/-- Persist a newly published artifact, outside the master lock. -/
def persistOp (env : Env) (o : Outcome) : Op Unit := do
  let res ← sect (.persist o) (fun s => (s.persist env o).1)
  match res with
  | .ok () => perform (.markPersisted o)
  | .error _ =>
    perform .persistFailed
    perform .recordEvent

/-- The owner with a successful outcome: publish it and persist it if it is new. -/
def publishOp (env : Env) (fence : Nat) (o : Outcome) : Op (Result ArtifactDescriptor) := do
  perform .recordEvent
  let newRecord ← sect (.publish fence o) (fun s => (s.publish env o).1)
  if newRecord && env.cfg.persistenceOpen then
    persistOp env o
    return .ok o.desc
  else return .ok o.desc

/-- The owner with an outcome.  The promise is fulfilled and the fence taken out of `in_flight`
BEFORE the record is published. -/
def finishBuild (env : Env) (digest : Sha256Digest) (fence : Nat) (o : Outcome) :
    Op (Result ArtifactDescriptor) := do
  perform (.bump fun st => { st with activeBuilds := st.activeBuilds - 1 })
  perform (.fulfil fence o)
  perform (.eraseFence fence digest)
  if !o.succeeded then
    perform (.bump fun st => { st with failedBuilds := st.failedBuilds + 1 })
    perform .recordEvent
    return fail o.errorCode o.error
  else publishOp env fence o

/-- The owner's side of `build_impl`; an exception of the backend leaves the fence in place. -/
def buildOwner (env : Env) (request : KernelLookupRequest) (digest : Sha256Digest) (fence : Nat)
    (gen : ArtifactGeneration) : Op (Result ArtifactDescriptor) := do
  let res ← runBuildOp env request gen
  match res with
  | .error e => return .error e
  | .ok o => finishBuild env digest fence o

/-- The waiter's side of `build_impl`. -/
def buildWaiter (fence : Nat) : Op (Result ArtifactDescriptor) := do
  let o ← sect (.await fence) (fun s => (s.fences fence).getD default)
  if !o.succeeded then
    return fail o.errorCode (str "waiter observed failed build: " ++ o.error)
  else sect (.findBuilt fence o) (fun s => s.findBuilt o)

/-- `build_impl`. -/
def buildImpl (env : Env) (request : KernelLookupRequest) : Op (Result ArtifactDescriptor) := do
  let request := buildRequestOf env request
  let digest := request.key.ensureFinalized.digest
  let joined ← sect (.join digest) (fun s => (s.join digest).1)
  match joined with
  | .owner fence gen => buildOwner env request digest fence gen
  | .waiter fence => buildWaiter fence

/-! ## Residency -/

/-- `ensure_bytes`. -/
def ensureBytes (env : Env) (p : Nat) : Op (Result Bytes) := do
  let bytes ← sect (.readBytes p) (fun s => (s.records p).bytes)
  if !bytes.isEmpty then return .ok bytes
  else if env.cfg.persistenceOpen then do
    let res ← sect (.reload p) (fun s => s.store.get (s.records p).id)
    match res with
    | .ok a =>
      perform (.storeBytes p a.bytes)
      return .ok a.bytes
    | .error e => return .error e
  else return fail .notFound (str "bytes absent and no persistence to reload from")

/-- `evict_impl`. -/
def evictImpl (env : Env) (id : ArtifactId) (force : Bool) : Op (Result Unit) := do
  let res ← sect (.evictBegin id force) (fun s => (s.evictBegin id force).1)
  match res with
  | .error e => return .error e
  | .ok p =>
    let unloaded ← sect (.evictUnload p) (fun s => (s.unloadModule env p).1)
    match unloaded with
    | .error .exception => return .error .exception
    | _ =>
      perform (.evictCommit p)
      perform .recordEvent
      return .ok ()

/-- The rounds of `evict_to_fit`; an exception of a loader passes through.  When the bound on the
rounds followed is reached, the loop counts as not returning. -/
def evictRounds (env : Env) (tier : ResidencyTier) : Nat → Op (Result Unit)
  | 0 => do
    perform .outOfRounds
    return .ok ()
  | n + 1 => do
    let victim ← sect (.pickVictim tier) (fun s => s.pickVictim env tier)
    match victim with
    | none => return .ok ()
    | some id =>
      let res ← evictImpl env id false
      match res with
      | .error .exception => return .error .exception
      | _ => evictRounds env tier n

/-- `evict_to_fit`. -/
def evictToFit (env : Env) (tier : ResidencyTier) : Op (Result Unit) :=
  let apply :=
    if tier == .deviceResident then env.cfg.residency.applyDeviceBudget
    else env.cfg.residency.applyHostBudget
  if !apply then return .ok () else evictRounds env tier env.loopBound

/-- The device branch of `promote_to_tier`. -/
def promoteToDevice (env : Env) (p : Nat) (device : DeviceDescriptor) : Op (Result Unit) := do
  let bytes ← ensureBytes env p
  match bytes with
  | .error e => return .error e
  | .ok bytes =>
    let loaded ← sect (.loadModule p bytes device) (fun s => (s.loadModule env p bytes device).1)
    match loaded with
    | .error e => return .error e
    | .ok (handle, footprint) =>
      perform (.commitDevice p handle footprint)
      perform .recordEvent
      evictToFit env .deviceResident

/-- The host branch of `promote_to_tier`. -/
def promoteToHost (env : Env) (p : Nat) : Op (Result Unit) := do
  let bytes ← ensureBytes env p
  match bytes with
  | .error e => return .error e
  | .ok _ =>
    perform (.commitHost p)
    return .ok ()

/-- `promote_to_tier`. -/
def promoteToTier (env : Env) (p : Nat) (desired : ResidencyTier) (device : DeviceDescriptor) :
    Op (Result Unit) :=
  if desired == .none then return .ok ()
  else do
    let current ← sect (.readTier p) (fun s => (s.records p).tier)
    if desired.rank ≤ current.rank then return .ok ()
    else
      match desired with
      | .deviceResident => promoteToDevice env p device
      | .hostResident => promoteToHost env p
      | _ => return .ok ()

/-! ## Leases -/

/-- Find the record of an id, promote it and lease it: the common end of both paths of
`acquire_impl`. -/
def leaseRecord (env : Env) (request : KernelLookupRequest) (id : ArtifactId) (vanished : Str) :
    Op (Result Nat) := do
  let found ← sect (.find id) (fun s => s.byId.lookup id)
  match found with
  | none => return fail .notFound vanished
  | some p =>
    let promoted ← promoteToTier env p request.desiredTier request.device
    match promoted with
    | .error e => return .error e
    | .ok () => sect (.grantLease p request.pin) (fun s => (s.grantLease env p request.pin).1)

/-- The miss path of `acquire_impl`. -/
def acquireMiss (env : Env) (request : KernelLookupRequest) (outcome : LookupOutcome) :
    Op (Result Nat) :=
  if request.allowMissBuild then do
    let built ← buildImpl env request
    match built with
    | .error e => return .error e
    | .ok desc => leaseRecord env request desc.id (str "built artifact vanished")
  else
    return fail .notFound
      (str "miss: " ++ outcome.name ++ str " op=" ++ request.key.operation)

/-- `acquire_impl` once the lookup has answered. -/
def acquireDecided (env : Env) (request : KernelLookupRequest) :
    Result KernelLookupResult → Op (Result Nat)
  | .error e => return .error e
  | .ok d =>
    if d.outcome.isHit then
      leaseRecord env request (d.artifact.getD default) (str "artifact vanished")
    else acquireMiss env request d.outcome

/-- `acquire_impl`; the result names the lease. -/
def acquireImpl (env : Env) (request : KernelLookupRequest) : Op (Result Nat) := do
  let request := { request with key := request.key.finalize }
  let decided ← lookupImpl request
  acquireDecided env request decided

/-- `KernelLease::release`. -/
def releaseLease (lease : Nat) : Op Unit := do
  let st ← sect (.exchangeReleased lease) (fun s => s.leases lease)
  if st.released then return () else perform (.onLeaseRelease st.record)

/-- `KernelLease::touch`. -/
def touchLease (lease : Nat) : Op (Result Unit) := do
  let st ← sect (.readLease lease) (fun s => s.leases lease)
  if st.released then return fail .staleArtifact (str "lease is not valid")
  else
    perform (.touch st.record)
    return .ok ()

/-! ## Management -/

/-- `KernelCache::put`. -/
def putOp (env : Env) (desc : ArtifactDescriptor) (bytes : Bytes) : Op (Result ArtifactId) :=
  let desc := if desc.id = {} then { desc with id := deriveId bytes desc.generation } else desc
  let desc := if desc.generation = 0 then { desc with generation := 1 } else desc
  sect (.put desc bytes) (fun s => (s.put env desc bytes).1)

/-- `KernelCache::validate`. -/
def validateOp (env : Env) (request : KernelLookupRequest) (id : ArtifactId) :
    Op (Result ValidationDescriptor) := do
  let found ← sect (.find id) (fun s => s.byId.lookup id)
  match found with
  | none => return fail .notFound (str "artifact not found")
  | some p =>
    let called ← sect (.validateCall p request.device) (fun s => s.validateCall env p request.device)
    match called with
    | none => return fail .notSupported (str "no validator for backend")
    | some (.error .exception) => return .error .exception
    | some res =>
      perform (.validateCommit p res)
      return res

structure ArtifactHandle where
  id : ArtifactId
  generation : ArtifactGeneration
  loadGeneration : LoadGeneration
  residencyGeneration : ResidencyGeneration
  format : Str
  backend : Str
  nativeHandle : LoadedModuleHandle
  namespace_ : Str
  deviceResident : Bool

/-- The handle `load` fills in. -/
def ArtifactRecord.handle (r : ArtifactRecord) : ArtifactHandle where
  id := r.id
  generation := r.generation
  loadGeneration := r.loadGeneration
  residencyGeneration := r.residencyGeneration
  format := r.desc.format
  backend := r.backend
  nativeHandle := r.nativeHandle
  namespace_ := r.tenant
  deviceResident := r.tier == .deviceResident

/-- `KernelCache::load`. -/
def loadOp (env : Env) (id : ArtifactId) : Op (Result ArtifactHandle) := do
  let found ← sect (.find id) (fun s => s.byId.lookup id)
  match found with
  | none => return fail .notFound (str "artifact not found")
  | some p =>
    let promoted ← promoteToTier env p .deviceResident {}
    match promoted with
    | .error e => return .error e
    | .ok () =>
      let h ← sect (.readHandle p) (fun s => (s.records p).handle)
      return .ok h

/-- `KernelCache::unload`. -/
def unloadOp (env : Env) (id : ArtifactId) : Op (Result Unit) := do
  let found ← sect (.find id) (fun s => s.byId.lookup id)
  match found with
  | none => return fail .notFound (str "artifact not found")
  | some p =>
    let unloaded ← sect (.unloadCall p) (fun s => (s.unloadModule env p).1)
    match unloaded with
    | .error .exception => return .error .exception
    | _ =>
      perform (.unloadCommit p)
      return .ok ()

/-- The common shape of `pin_impl` and `unpin_impl`. -/
def countPin (step : Step) (id : ArtifactId) : Op (Result Unit) :=
  sect step fun s =>
    match s.byId.lookup id with
    | none => fail .notFound (str "artifact not found")
    | some _ => .ok ()

def pinImpl (id : ArtifactId) : Op (Result Unit) := countPin (.pin id) id

def unpinImpl (id : ArtifactId) : Op (Result Unit) := countPin (.unpin id) id

/-- `invalidate_impl`. -/
def invalidateImpl (env : Env) (req : InvalidationRequest) :
    Op (Result (List InvalidationOutcome)) := do
  let outcomes ← sect (.invalidate req) (fun s => (s.invalidate env req).1)
  perform .recordEvent
  return .ok outcomes

/-- `recover_impl`: the number of records restored, the rejections and the orphans. -/
def recoverImpl (env : Env) : Op (Result (Nat × List Str × List Str)) :=
  if !env.cfg.persistenceOpen then return .ok (0, [], [])
  else do
    let (valid, rejected, orphans) ← sect .recoverRead (fun s => (s.recoverRead env).1)
    let count ← sect (.recoverInsert valid) (fun s => (Impl.recoverInsert env s valid).1)
    perform .recordEvent
    return .ok (count, rejected, orphans)

/-! ## Public operations -/

inductive Operation where
  | put (desc : ArtifactDescriptor) (bytes : Bytes)
  | build (request : KernelLookupRequest)
  | acquire (request : KernelLookupRequest)
  | lookup (request : KernelLookupRequest)
  | release (lease : Nat)
  | touch (lease : Nat)
  | validate (request : KernelLookupRequest) (id : ArtifactId)
  | load (id : ArtifactId)
  | unload (id : ArtifactId)
  | pin (id : ArtifactId)
  | unpin (id : ArtifactId)
  | evict (id : ArtifactId) (force : Bool)
  | evictToFit (tier : ResidencyTier)
  | invalidate (req : InvalidationRequest)
  | recover
  | rollCacheGeneration
  | resetStats

/-- What an operation answers, as far as the answer says more than done. -/
inductive Answer where
  | done
  | failed (e : Failure)
  | id (id : ArtifactId)
  | descriptor (desc : ArtifactDescriptor)
  | lease (lease : Nat)
  | lookup (result : KernelLookupResult)
  | validation (vd : ValidationDescriptor)
  | handle (h : ArtifactHandle)
  | outcomes (outcomes : List InvalidationOutcome)
  | recovered (count : Nat) (rejected orphans : List Str)

/-- Wrap the result of an operation. -/
def answer {α : Type} (wrap : α → Answer) : Result α → Answer
  | .ok a => wrap a
  | .error e => .failed e

/-- The program of an operation. -/
def Operation.prog (env : Env) : Operation → Op Answer
  | .put desc bytes => do return answer .id (← putOp env desc bytes)
  | .build request => do return answer .descriptor (← buildImpl env request)
  | .acquire request => do return answer .lease (← acquireImpl env request)
  | .lookup request => do return answer .lookup (← lookupImpl request)
  | .release lease => do
    releaseLease lease
    return .done
  | .touch lease => do return answer (fun _ => .done) (← touchLease lease)
  | .validate request id => do return answer .validation (← validateOp env request id)
  | .load id => do return answer .handle (← loadOp env id)
  | .unload id => do return answer (fun _ => .done) (← unloadOp env id)
  | .pin id => do return answer (fun _ => .done) (← pinImpl id)
  | .unpin id => do return answer (fun _ => .done) (← unpinImpl id)
  | .evict id force => do return answer (fun _ => .done) (← evictImpl env id force)
  | .evictToFit tier => do return answer (fun _ => .done) (← KernelCache.evictToFit env tier)
  | .invalidate req => do return answer .outcomes (← invalidateImpl env req)
  | .recover => do return answer (fun r => .recovered r.1 r.2.1 r.2.2) (← recoverImpl env)
  | .rollCacheGeneration => do
    perform .rollCacheGeneration
    return .done
  | .resetStats => do
    perform .resetStats
    return .done

end KernelCache
