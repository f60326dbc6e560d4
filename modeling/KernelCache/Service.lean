/-
# KernelCache.Service — what the coordinator is for.

To its clients the coordinator is a table.  It has an epoch, a list of workers, and for every key one of
three states: nobody is waiting for it, a build of it is due, or it has been built.  `Service` is that
table and `Service.Serves` is what a request does to it; how a build comes out is left open, for that is
up to the workers.

The coordinator of `coordinator.cpp` keeps the table in `g_pending` and `g_built`, and has a cache of its
own besides.  Handled one after the other, its events do what the table says (`coordinator_is_table`), so
the answers about a key come in one order only (`lookups_of_key`).
-/
import KernelCache.OneCompile
import KernelCache.RoundTrip
import KernelCache.StaleLookups

namespace KernelCache

open Foundation (Bytes Prog Turn Path)
open Foundation.Prog (Finishes)

/-! ## The table -/

/-- Where a key stands. -/
inductive KeyState where
  | unseen
  | waiting
  | built (id : ArtifactId) (gen : ArtifactGeneration)

/-- A lookup of a key: the answer, and where the key stands behind it.  The second lookup is the one that
has the key built, and it needs a worker. -/
inductive KeyState.Takes (workers : Prop) : KeyState → LookupAnswer → KeyState → Prop
  | miss : Takes workers .unseen { outcome := 0x0B } .waiting
  | failed : Takes workers .waiting { outcome := 0x0F } .unseen
  | compiled (h : workers) (id : ArtifactId) (gen : ArtifactGeneration) :
      Takes workers .waiting (.hit id gen) (.built id gen)
  | found (id : ArtifactId) (gen : ArtifactGeneration) :
      Takes workers (.built id gen) (.hit id gen) (.built id gen)

/-- The table of a coordinator.  Its generation is its epoch. -/
structure Service where
  epoch : CoordinatorEpoch
  boots : List UInt64
  keys : Sha256Digest → KeyState

/-- A coordinator that has just started. -/
def Service.initial : Service where
  epoch := 1
  boots := []
  keys _ := .unseen

/-- What an event asks for.  A lookup has an authority if it decodes, and a digest if its key does. -/
inductive Demand where
  | register (boot : UInt64)
  | roll (e : CoordinatorEpoch)
  | lookup (auth : Option (CoordinatorEpoch × CacheGeneration)) (digest : Option Sha256Digest)
  | workers
  | close
  | other

inductive Response where
  | none
  | closed
  | boots (boots : List UInt64)
  | answer (a : LookupAnswer)

/-- The request is served. -/
inductive Service.Serves (t : Service) : Demand → Response → Service → Prop
  | register (boot : UInt64) : Serves t (.register boot) .none { t with boots := t.boots ++ [boot] }
  | roll (e : CoordinatorEpoch) : Serves t (.roll e) .none { t with epoch := e }
  | malformed (digest : Option Sha256Digest) :
      Serves t (.lookup none digest) (.answer { outcome := 0x0C }) t
  | oldEpoch {e : CoordinatorEpoch} (h : e ≠ t.epoch) (g : CacheGeneration)
      (digest : Option Sha256Digest) :
      Serves t (.lookup (some (e, g)) digest) (.answer { outcome := 0x0D }) t
  | oldGeneration {g : CacheGeneration} (h : g ≠ t.epoch) (digest : Option Sha256Digest) :
      Serves t (.lookup (some (t.epoch, g)) digest) (.answer { outcome := 0x0E }) t
  | badKey : Serves t (.lookup (some (t.epoch, t.epoch)) none) (.answer { outcome := 0x0C }) t
  | key {d : Sha256Digest} {a : LookupAnswer} {next : KeyState}
      (h : (t.keys d).Takes (t.boots ≠ []) a next) :
      Serves t (.lookup (some (t.epoch, t.epoch)) (some d)) (.answer a)
        { t with keys := Function.update t.keys d next }
  | workers : Serves t .workers (.boots t.boots) t
  | close : Serves t .close .closed t
  | other : Serves t .other .none t

/-! ## Events of the coordinator -/

namespace CoordEvent

/-- What the event asks for. -/
def demand : CoordEvent → Demand
  | register payload =>
    match decodeRegister payload with
    | .error _ => .other
    | .ok (_, boot, _) => .register boot.value.hi
  | client (type, payload) =>
    if type = DistMsgType.rollEpoch.code then .roll (rolledTo payload)
    else if type = DistMsgType.lookupReq.code then
      let (auth, q) := decodeLookupRequest payload {}
      .lookup (auth.toOption.map fun a => (a.epoch, a.cacheGen))
        ((KernelCompatibilityKey.fromCanonical q.keyCanonical).toOption.map fun k => k.digest)
    else if type = DistMsgType.queryWorkers.code then .workers
    else if type = DistMsgType.shutdown.code then .close
    else .other

/-- The frame that carries a response, if there is one. -/
def served (e : CoordEvent) : Response → Served
  | .none => .silent
  | .closed => .closed
  | .boots boots => .reply (DistMsgType.queryWorkersResp.code, encodeQueryWorkersResp boots)
  | .answer a =>
    match e with
    | register _ => .silent
    | client (_, payload) => .reply (lookupResponse (decodeLookupRequest payload {}).2 a)

/-- The event is handled as the table says. -/
def Serves (t : Service) (e : CoordEvent) (answer : Served) (t' : Service) : Prop :=
  ∃ r, answer = e.served r ∧ t.Serves e.demand r t'

end CoordEvent

namespace Coordinator

/-- Where a key stands, by its digest. -/
def keyState (s : Coordinator) (d : Sha256Digest) : KeyState :=
  match s.built.lookup (toHex d) with
  | some (id, gen) => .built id gen
  | none => if toHex d ∈ s.pending then .waiting else .unseen

/-- The table that the coordinator keeps. -/
def service (s : Coordinator) : Service where
  epoch := s.epoch
  boots := s.boots
  keys := s.keyState

/-- Between two events: no mutex is held, the generation is the epoch, and nothing is in the coordinator's
own cache. -/
structure Serving (s : Coordinator) : Prop where
  idle : s.Idle
  gen : s.gen = s.epoch
  ownKeys : s.cache.byKey = ∅
  ownOperations : s.cache.byOperation = ∅

theorem initial_serving (store : FilePersistenceStore) : (initial store).Serving :=
  ⟨initial_idle store, rfl, rfl, rfl⟩

variable {s s' : Coordinator} {d : Sha256Digest} {next : KeyState}

/-- One key moves in the table. -/
theorem service_update (hepoch : s'.epoch = s.epoch) (hworkers : s'.workers = s.workers)
    (hself : s'.keyState d = next) (hothers : ∀ d', d' ≠ d → s'.keyState d' = s.keyState d') :
    s'.service = { s.service with keys := Function.update s.service.keys d next } := by
  have hkeys : s'.keyState = Function.update s.keyState d next := by
    funext d'
    by_cases hd : d' = d
    · rw [hd, Function.update_self, hself]
    · rw [Function.update_of_ne hd, hothers d' hd]
  simp only [service, boots, hepoch, hworkers, hkeys]

theorem toHex_ne {d' : Sha256Digest} (h : d' ≠ d) : toHex d' ≠ toHex d :=
  fun heq => h (toHex_injective heq)

/-- The key of a miss waits for its build. -/
theorem service_insertPending (hnone : s.built.lookup (toHex d) = none) :
    { s with pending := insert (toHex d) s.pending }.service =
      { s.service with keys := Function.update s.service.keys d .waiting } := by
  refine service_update rfl rfl ?_ fun d' hd => ?_
  · simp [keyState, hnone]
  · simp [keyState, toHex_ne hd]

/-- A build has failed, and the key is as if nobody had asked. -/
theorem service_erasePending (hnone : s.built.lookup (toHex d) = none) :
    { s with pending := s.pending.erase (toHex d) }.service =
      { s.service with keys := Function.update s.service.keys d .unseen } := by
  refine service_update rfl rfl ?_ fun d' hd => ?_
  · simp [keyState, hnone]
  · simp [keyState, toHex_ne hd]

theorem service_recordBuilt (id : ArtifactId) (gen : ArtifactGeneration) :
    { s with
        pending := s.pending.erase (toHex d)
        built := s.built.insert (toHex d) (id, gen) }.service =
      { s.service with keys := Function.update s.service.keys d (.built id gen) } := by
  refine service_update rfl rfl ?_ fun d' hd => ?_
  · simp [keyState]
  · simp [keyState, toHex_ne hd, AList.lookup_insert_ne]

/-- A worker that can be picked is registered. -/
theorem boots_of_pickWorker {boot : WorkerBootId} {fd : Socket} (h : s.pickWorker boot = some fd) :
    s.boots ≠ [] := by
  have hslot : ∀ w ∈ s.workers, w.fd.isSome = true → s.boots ≠ [] := by
    intro w hw hfd hnil
    have hfilter := List.map_eq_nil_iff.mp hnil
    exact List.filter_eq_nil_iff.mp hfilter w hw hfd
  unfold pickWorker at h
  split at h
  · rename_i w hw
    have hfound := List.find?_some hw
    exact hslot w (List.mem_of_find?_eq_some hw) (Bool.and_eq_true_iff.mp hfound).1
  · obtain ⟨w, hw, -⟩ := Option.bind_eq_some_iff.mp h
    have hfound : w.fd.isSome = true :=
      List.find?_some (p := fun w : WorkerSlot => w.fd.isSome) hw
    exact hslot w (List.mem_of_find?_eq_some hw) hfound

end Coordinator

/-! ## Handling an event -/

/-- `lookup_impl` alone, in an empty cache. -/
theorem lookupImpl_misses (env : Env) (request : KernelLookupRequest) {s : Impl}
    (hfree : s.statsHeld = false) (hkeys : s.byKey = ∅) (hops : s.byOperation = ∅) :
    (lookupImpl request).Finishes (exec env) s fun found s' => hitOf found = none ∧
      s'.statsHeld = false ∧ s'.byKey = ∅ ∧ s'.byOperation = ∅ := by
  cases hkey : request.key.wellFormed with
  | false =>
    have hfin : request.key.finalize.finalized = false := by
      rw [KernelCompatibilityKey.finalize_finalized]
      exact hkey
    unfold lookupImpl
    simp only [hfin, Bool.not_false, if_true]
    exact Finishes.ret ⟨rfl, hfree, hkeys, hops⟩
  | true =>
    have hrun := lookupImpl_traced env 0 request hkey hfree
    rw [lookup_of_empty hkeys hops] at hrun
    refine ⟨.ok emptyMiss, s.lookedUp emptyMiss, ?_, rfl, hfree, hkeys, hops⟩
    rw [Prog.run_eq_traced 0, hrun]
    rfl

section Handle

variable {s : Coordinator} (peers : Peers)

/-- The coordinator's own lookup finds nothing. -/
theorem ownLookup_misses (request : KernelLookupRequest) (h : s.Serving) :
    ((lookupImpl request).zoom .cache Coordinator.cache).Finishes (coordExec peers) s
      fun found s' => hitOf found = none ∧ s'.Serving ∧ ∃ c, s' = { s with cache := c } := by
  refine (onCache_finishes peers (lookupImpl_misses peers.cache request h.idle.stats h.ownKeys
    h.ownOperations)).mono ?_
  rintro found _ ⟨c, rfl, hnone, hstats, hkeys, hops⟩
  exact ⟨hnone, ⟨⟨h.idle.dispatch, h.idle.workers, hstats⟩, h.gen, hkeys, hops⟩, c, rfl⟩

/-- A build that comes off needs a worker. -/
theorem dispatchBuild_serves (keycan : Bytes) (src ns arch : Str) (auth : DistAuthority)
    (rid : RequestId) (out : BuildResponse) (h : s.Serving) :
    (dispatchBuild peers keycan src ns arch auth rid out).Finishes (coordExec peers) s
      fun r s' => (r.1 = true → s.boots ≠ []) ∧ ∃ c, s' = { s with channels := c } := by
  have hrelease : ∀ c, ({ s with dispatchHeld := false, channels := c } : Coordinator) =
      { s with channels := c } := by
    intro c
    rw [← h.idle.dispatch]
  have hfree : CoordStep.lockDispatch.ready s = true := by
    simp [CoordStep.ready, h.idle.dispatch]
  have hworkers : (CoordStep.pickWorker auth.boot).ready { s with dispatchHeld := true } = true := by
    simp [CoordStep.ready, h.idle.workers]
  unfold dispatchBuild
  refine Finishes.first (coordExec_eq_some.mpr ⟨hfree, rfl⟩) ?_
  refine Finishes.first (coordExec_eq_some.mpr ⟨hworkers, rfl⟩) ?_
  split
  · exact Finishes.first rfl (Finishes.ret ⟨Bool.noConfusion, s.channels, hrelease s.channels⟩)
  · rename_i fd hpick
    have hboots : s.boots ≠ [] := Coordinator.boots_of_pickWorker hpick
    refine Finishes.bind (writeFrame_finishes peers _ _ _ _) ?_
    rintro b _ ⟨c, rfl⟩
    split
    · exact Finishes.first rfl (Finishes.ret ⟨fun _ => hboots, c, hrelease c⟩)
    · refine Finishes.first rfl (Finishes.first rfl (Finishes.ret ?_))
      exact ⟨fun _ => hboots, _, hrelease _⟩

/-- The branch for a key that waits. -/
theorem servePending_serves (q : LookupRequest) (auth : DistAuthority) (d : Sha256Digest) (arch : Str)
    (h : s.Serving) (hbuilt : s.built.lookup (toHex d) = none) (hwaiting : toHex d ∈ s.pending) :
    (servePending peers q auth (toHex d) arch).Finishes (coordExec peers) s fun a s' => s'.Serving ∧
      ∃ next, (s.keyState d).Takes (s.boots ≠ []) a next ∧
        s'.service = { s.service with keys := Function.update s.service.keys d next } := by
  have hstate : s.keyState d = .waiting := by
    simp [Coordinator.keyState, hbuilt, hwaiting]
  rw [hstate]
  refine Finishes.bind (dispatchBuild_serves peers _ _ _ _ _ _ _ h) ?_
  rintro ⟨ok, out⟩ _ ⟨hboots, c, rfl⟩
  let s₁ : Coordinator := { s with channels := c }
  have hserving : ∀ pending built, Coordinator.Serving { s₁ with pending := pending, built := built } :=
    fun _ _ => ⟨⟨h.idle.dispatch, h.idle.workers, h.idle.stats⟩, h.gen, h.ownKeys, h.ownOperations⟩
  refine Finishes.first rfl ?_
  cases ok with
  | true =>
    refine Finishes.first rfl (Finishes.ret ⟨hserving _ _, _, .compiled (hboots rfl) _ _, ?_⟩)
    exact Coordinator.service_recordBuilt (s := s₁) _ _
  | false =>
    refine Finishes.ret ⟨hserving _ s.built, _, .failed, ?_⟩
    exact Coordinator.service_erasePending (s := s₁) hbuilt

theorem serveKey_serves (q : LookupRequest) (auth : DistAuthority) (k : KernelCompatibilityKey)
    (h : s.Serving) : (serveKey peers q auth k).Finishes (coordExec peers) s fun a s' => s'.Serving ∧
      ∃ next, (s.keyState k.digest).Takes (s.boots ≠ []) a next ∧
        s'.service = { s.service with keys := Function.update s.service.keys k.digest next } := by
  refine Finishes.bind (ownLookup_misses peers _ h) ?_
  rintro found _ ⟨hnone, hserving, c, rfl⟩
  refine Finishes.first rfl ?_
  cases hbuilt : s.built.lookup (toHex k.digest) with
  | some hit =>
    have hstate : s.keyState k.digest = .built hit.1 hit.2 := by
      simp [Coordinator.keyState, hbuilt]
    have hself := Function.update_eq_self k.digest s.keyState
    rw [hstate] at hself ⊢
    refine Finishes.ret ⟨hserving, _, .found hit.1 hit.2, ?_⟩
    rw [Coordinator.service, Coordinator.service, hself]
    rfl
  | none =>
    rw [hnone]
    refine Finishes.first rfl ?_
    split
    · rename_i hwaiting
      exact servePending_serves peers q auth k.digest k.arch hserving hbuilt (of_decide_eq_true hwaiting)
    · rename_i hwaiting
      have hunseen : toHex k.digest ∉ s.pending := fun hmem => hwaiting (decide_eq_true hmem)
      have hstate : s.keyState k.digest = .unseen := by
        simp [Coordinator.keyState, hbuilt, hunseen]
      rw [hstate]
      refine Finishes.first rfl (Finishes.ret ⟨⟨⟨h.idle.dispatch, h.idle.workers,
        hserving.idle.stats⟩, h.gen, hserving.ownKeys, hserving.ownOperations⟩, _, .miss, ?_⟩)
      exact Coordinator.service_insertPending (s := { s with cache := c }) hbuilt

theorem serveLookup_serves (q : LookupRequest) (auth : Result DistAuthority) (h : s.Serving) :
    (serveLookup peers q auth).Finishes (coordExec peers) s fun a s' => s'.Serving ∧
      s.service.Serves (.lookup (auth.toOption.map fun a => (a.epoch, a.cacheGen))
        ((KernelCompatibilityKey.fromCanonical q.keyCanonical).toOption.map fun k => k.digest))
        (.answer a) s'.service := by
  cases auth with
  | error _ => exact Finishes.ret ⟨h, .malformed _⟩
  | ok auth =>
    refine Finishes.first rfl ?_
    split
    · rename_i hepoch
      have hne : auth.epoch ≠ s.epoch := by simpa using hepoch
      exact Finishes.ret ⟨h, .oldEpoch hne _ _⟩
    rename_i hepoch
    have hepoch : auth.epoch = s.epoch := by simpa using hepoch
    refine Finishes.first rfl ?_
    rw [Except.toOption, Option.map_some, hepoch]
    split
    · rename_i hgen
      have hne : auth.cacheGen ≠ s.epoch := by
        rw [← h.gen]
        simpa [CoordStep.effect] using hgen
      exact Finishes.ret ⟨h, .oldGeneration hne _⟩
    rename_i hgen
    have hgen : auth.cacheGen = s.epoch := by
      rw [← h.gen]
      simpa [CoordStep.effect] using hgen
    rw [hgen]
    split
    · rename_i hkey
      rw [hkey]
      exact Finishes.ret ⟨h, .badKey⟩
    · rename_i k hkey
      rw [hkey]
      refine (serveKey_serves peers q auth k h).mono ?_
      rintro a s' ⟨hserving, next, htakes, hservice⟩
      rw [hservice]
      exact ⟨hserving, .key htakes⟩

theorem serveRollEpoch_serves (payload : Bytes) (h : s.Serving) :
    (serveRollEpoch peers payload).Finishes (coordExec peers) s fun _ s' => s'.Serving ∧
      s'.service = { s.service with epoch := rolledTo payload } := by
  let s₁ : Coordinator := { s with epoch := rolledTo payload, gen := rolledTo payload }
  have hfree : CoordStep.lockWorkers.ready s₁ = true := by
    simp [CoordStep.ready, s₁, h.idle.workers]
  unfold serveRollEpoch
  refine Finishes.first rfl (Finishes.first rfl ?_)
  refine Finishes.first (coordExec_eq_some.mpr ⟨hfree, rfl⟩) (Finishes.first rfl ?_)
  refine Finishes.bind (broadcast_finishes peers _ _ _) ?_
  rintro _ _ ⟨c, rfl⟩
  exact Finishes.sect rfl
    ⟨⟨⟨h.idle.dispatch, rfl, h.idle.stats⟩, rfl, h.ownKeys, h.ownOperations⟩, rfl⟩

/-- A frame of a client. -/
theorem serveFrame_serves (frame : Frame) (h : s.Serving) :
    (serveFrame peers frame).Finishes (coordExec peers) s fun a s' => s'.Serving ∧
      (CoordEvent.client frame).Serves s.service a s'.service := by
  obtain ⟨type, payload⟩ := frame
  have hworkers : CoordStep.queryWorkers.ready s = true := by
    simp [CoordStep.ready, h.idle.workers]
  unfold serveFrame CoordEvent.Serves CoordEvent.demand
  dsimp only
  split
  · refine Finishes.bind (serveRollEpoch_serves peers payload h) ?_
    rintro _ s' ⟨hserving, hservice⟩
    have hserves := Service.Serves.roll (t := s.service) (rolledTo payload)
    rw [← hservice] at hserves
    exact Finishes.ret ⟨hserving, .none, rfl, hserves⟩
  split
  · refine Finishes.bind (serveLookup_serves peers _ _ h) ?_
    rintro a s' ⟨hserving, hserves⟩
    exact Finishes.ret ⟨hserving, .answer a, rfl, hserves⟩
  split
  · exact Finishes.first (coordExec_eq_some.mpr ⟨hworkers, rfl⟩)
      (Finishes.ret ⟨h, .boots s.boots, rfl, .workers⟩)
  split
  · exact Finishes.ret ⟨h, .closed, rfl, .close⟩
  · exact Finishes.ret ⟨h, .none, rfl, .other⟩

theorem registerWorker_serves (fd : Socket) (payload : Bytes) (h : s.Serving) :
    (registerWorker peers fd payload).Finishes (coordExec peers) s fun _ s' => s'.Serving ∧
      s.service.Serves (CoordEvent.register payload).demand .none s'.service := by
  unfold registerWorker
  rw [CoordEvent.demand]
  cases decodeRegister payload with
  | error _ => exact Finishes.ret ⟨h, .other⟩
  | ok ids =>
    obtain ⟨w, boot, _⟩ := ids
    have hworkers : (CoordStep.register ⟨some fd, w, boot⟩).ready s = true := by
      simp [CoordStep.ready, h.idle.workers]
    refine Finishes.first (coordExec_eq_some.mpr ⟨hworkers, rfl⟩) (Finishes.first rfl ?_)
    refine Finishes.bind (writeFrame_finishes peers _ _ _ _) ?_
    rintro _ _ ⟨c, rfl⟩
    let s₁ : Coordinator := { s with workers := s.workers ++ [⟨some fd, w, boot⟩], channels := c }
    have hboots : s₁.boots = s.boots ++ [boot.value.hi] := by
      simp [Coordinator.boots, s₁]
    have hservice : s₁.service = { s.service with boots := s.service.boots ++ [boot.value.hi] } := by
      rw [Coordinator.service, hboots]
      rfl
    have hserves := Service.Serves.register (t := s.service) boot.value.hi
    rw [← hservice] at hserves
    exact Finishes.ret ⟨⟨⟨h.idle.dispatch, h.idle.workers, h.idle.stats⟩, h.gen, h.ownKeys,
      h.ownOperations⟩, hserves⟩

theorem CoordEvent.handle_serves (e : CoordEvent) (h : s.Serving) :
    (e.handle peers).Finishes (coordExec peers) s fun a s' => s'.Serving ∧
      e.Serves s.service a s'.service := by
  cases e with
  | client frame => exact serveFrame_serves peers frame h
  | register payload =>
    refine Finishes.bind (Q := fun _ s' => s'.Serving ∧
      s.service.Serves (CoordEvent.register payload).demand .none s'.service) ?_ ?_
    · refine Finishes.first rfl (Finishes.first rfl ?_)
      exact registerWorker_serves (s := { s with accepted := s.accepted + 1 }) peers s.accepted payload
        ⟨⟨h.idle.dispatch, h.idle.workers, h.idle.stats⟩, h.gen, h.ownKeys, h.ownOperations⟩
    · rintro _ s' ⟨hserving, hserves⟩
      exact Finishes.ret ⟨hserving, .none, rfl, hserves⟩

end Handle

/-- **The coordinator is a table of keys.** Every sequence of events is handled, whatever the peers do,
and the answers are those of the table: each event does to the table that the coordinator keeps what it
asks for, and nothing else. -/
theorem coordinator_is_table (peers : Peers) (store : FilePersistenceStore)
    (events : List CoordEvent) : ∃ turns s,
      serveEvents peers events (Coordinator.initial store) = some (turns, s) ∧
      turns.map Turn.request = events ∧
      Path (fun t e => e.Serves t) Service.initial (turns.map fun t => (t.request, t.answer))
        s.service := by
  obtain ⟨turns, s, hserve, hevents, -, hpath⟩ := Foundation.serveAll_path
    (fun e _ hs => CoordEvent.handle_serves peers e hs) events (Coordinator.initial_serving store)
  exact ⟨turns, s, hserve, hevents, hpath⟩

/-! ## What clients are told about a key -/

/-- Lookups and failed builds of a key, turn about. -/
def fruitless (n : Nat) : List LookupAnswer :=
  (List.replicate n [{ outcome := 0x0B }, { outcome := 0x0F }]).flatten

/-- The answers about a key, by where it stands. -/
def KeyState.Reached (answers : List LookupAnswer) : KeyState → Prop
  | .unseen => ∃ n, answers = fruitless n
  | .waiting => ∃ n, answers = fruitless n ++ [{ outcome := 0x0B }]
  | .built id gen => ∃ n m, answers =
      fruitless n ++ { outcome := 0x0B } :: List.replicate (m + 1) (LookupAnswer.hit id gen)

/-- One more answer. -/
theorem KeyState.Reached.takes {workers : Prop} {k next : KeyState} {a : LookupAnswer}
    {answers : List LookupAnswer} (h : k.Reached answers) (ht : k.Takes workers a next) :
    next.Reached (answers ++ [a]) := by
  cases ht with
  | miss =>
    obtain ⟨n, rfl⟩ := h
    exact ⟨n, rfl⟩
  | failed =>
    obtain ⟨n, rfl⟩ := h
    refine ⟨n + 1, ?_⟩
    simp [fruitless, List.replicate_succ']
  | compiled _ id gen =>
    obtain ⟨n, rfl⟩ := h
    refine ⟨n, 0, ?_⟩
    simp
  | found id gen =>
    obtain ⟨n, m, rfl⟩ := h
    refine ⟨n, m + 1, ?_⟩
    rw [List.replicate_succ' (n := m + 1)]
    simp

/-- What has been answered so far, wherever the key stands. -/
theorem KeyState.Reached.forms {k : KeyState} {answers : List LookupAnswer} (h : k.Reached answers) :
    ∃ n rest, answers = fruitless n ++ rest ∧
      (rest = [] ∨ rest = [{ outcome := 0x0B }] ∨ ∃ id gen m,
        rest = { outcome := 0x0B } :: List.replicate (m + 1) (LookupAnswer.hit id gen)) := by
  cases k with
  | unseen =>
    obtain ⟨n, hn⟩ := h
    exact ⟨n, [], hn.trans (List.append_nil _).symm, .inl rfl⟩
  | waiting =>
    obtain ⟨n, hn⟩ := h
    exact ⟨n, _, hn, .inr (.inl rfl)⟩
  | built id gen =>
    obtain ⟨n, m, hn⟩ := h
    exact ⟨n, _, hn, .inr (.inr ⟨id, gen, m, rfl⟩)⟩

/-- The answer to a lookup that was not turned away. -/
def LookupAnswer.accepted (a : LookupAnswer) : Bool :=
  a.outcome != 0x0C && a.outcome != 0x0D && a.outcome != 0x0E

theorem KeyState.Takes.accepted {workers : Prop} {k next : KeyState} {a : LookupAnswer}
    (h : k.Takes workers a next) : a.accepted = true := by
  cases h with
  | miss => rfl
  | failed => rfl
  | compiled _ id gen => rfl
  | found id gen => rfl

/-- What an event and its answer tell about a key, as a client decodes it. -/
def CoordEvent.told (d : Sha256Digest) (e : CoordEvent) (answer : Served) : Option LookupAnswer :=
  match e.demand, answer with
  | .lookup _ digest, .reply frame =>
    let r := (decodeLookupResponse frame.2 {}).2
    let a : LookupAnswer := ⟨r.outcome, r.id, r.gen, r.compatible⟩
    if digest = some d ∧ a.accepted = true then some a else none
  | _, _ => none

theorem CoordEvent.told_answer {d : Sha256Digest} {e : CoordEvent}
    {auth : Option (CoordinatorEpoch × CacheGeneration)} {digest : Option Sha256Digest}
    (h : e.demand = .lookup auth digest) (a : LookupAnswer) :
    e.told d (e.served (.answer a)) = if digest = some d ∧ a.accepted = true then some a else none := by
  cases e with
  | register payload =>
    rw [demand] at h
    split at h
    · cases h
    · cases h
  | client frame =>
    unfold told
    rw [h]
    simp only [served, lookupResponse, decodeLookupResponse_encode]

theorem CoordEvent.told_of_no_lookup {d : Sha256Digest} {e : CoordEvent} {asked : Demand}
    {answer : Served} (h : e.demand = asked) (hasked : ∀ auth digest, asked ≠ .lookup auth digest) :
    e.told d answer = none := by
  unfold told
  split
  · rename_i hlookup
    exact absurd (h.symm.trans hlookup) (hasked _ _)
  · rfl

/-- An event tells something about a key only if it is a lookup of it that goes through. -/
theorem CoordEvent.Serves.told {t t' : Service} {e : CoordEvent} {answer : Served}
    (h : e.Serves t answer t') (d : Sha256Digest) :
    (e.told d answer = none ∧ t'.keys d = t.keys d) ∨
      ∃ a, e.told d answer = some a ∧ (t.keys d).Takes (t.boots ≠ []) a (t'.keys d) := by
  obtain ⟨r, rfl, hserves⟩ := h
  generalize hdemand : e.demand = asked at hserves
  cases hserves with
  | register boot => exact .inl ⟨CoordEvent.told_of_no_lookup hdemand (by simp), rfl⟩
  | roll epoch => exact .inl ⟨CoordEvent.told_of_no_lookup hdemand (by simp), rfl⟩
  | workers => exact .inl ⟨CoordEvent.told_of_no_lookup hdemand (by simp), rfl⟩
  | close => exact .inl ⟨CoordEvent.told_of_no_lookup hdemand (by simp), rfl⟩
  | other => exact .inl ⟨CoordEvent.told_of_no_lookup hdemand (by simp), rfl⟩
  | malformed digest =>
    rw [CoordEvent.told_answer hdemand]
    exact .inl ⟨if_neg (fun h => absurd h.2 (by decide)), rfl⟩
  | oldEpoch hne g digest =>
    rw [CoordEvent.told_answer hdemand]
    exact .inl ⟨if_neg (fun h => absurd h.2 (by decide)), rfl⟩
  | oldGeneration hne digest =>
    rw [CoordEvent.told_answer hdemand]
    exact .inl ⟨if_neg (fun h => absurd h.2 (by decide)), rfl⟩
  | badKey =>
    rw [CoordEvent.told_answer hdemand]
    exact .inl ⟨if_neg (fun h => absurd h.2 (by decide)), rfl⟩
  | key htakes =>
    rename_i d' a next
    rw [CoordEvent.told_answer hdemand]
    by_cases hd : d' = d
    · subst hd
      refine .inr ⟨a, if_pos ⟨rfl, htakes.accepted⟩, ?_⟩
      dsimp only
      rw [Function.update_self]
      exact htakes
    · have hother : ¬(some d' = some d ∧ a.accepted = true) := fun h => hd (Option.some.inj h.1)
      exact .inl ⟨if_neg hother, Function.update_of_ne (Ne.symm hd) _ _⟩

/-- What has been told about a key along a run of the table. -/
theorem told_of_path {past : List (CoordEvent × Served)} {t t' : Service} (d : Sha256Digest)
    (h : Path (fun t (e : CoordEvent) => e.Serves t) t past t') (ht : t.keys d = .unseen) :
    (t'.keys d).Reached (past.filterMap fun p => p.1.told d p.2) := by
  induction h with
  | start =>
    rw [ht]
    exact ⟨0, rfl⟩
  | snoc _ hstep ih =>
    rw [List.filterMap_append]
    rcases hstep.told d with ⟨hnone, hkeys⟩ | ⟨a, hsome, htakes⟩
    · rw [List.filterMap_cons, hnone, hkeys]
      simpa using ih
    · rw [List.filterMap_cons, hsome]
      exact ih.takes htakes

/-- **What is ever said about a key.** Over every sequence of events, whoever asks and in whatever epochs,
the lookups of a key that are not turned away are answered: a number of times 0x0B and then 0x0F, for a
build that did not come off; then nothing more, or 0x0B for the lookup that the build waits for, or 0x0B
and from then on one and the same artifact. -/
theorem lookups_of_key (peers : Peers) (store : FilePersistenceStore) (events : List CoordEvent)
    (d : Sha256Digest) : ∃ turns s,
      serveEvents peers events (Coordinator.initial store) = some (turns, s) ∧
      turns.map Turn.request = events ∧ ∃ n rest,
        turns.filterMap (fun t => t.request.told d t.answer) = fruitless n ++ rest ∧
          (rest = [] ∨ rest = [{ outcome := 0x0B }] ∨ ∃ id gen m,
            rest = { outcome := 0x0B } :: List.replicate (m + 1) (LookupAnswer.hit id gen)) := by
  obtain ⟨turns, s, hserve, hevents, -, hpath⟩ := Foundation.serveAll_path
    (fun e _ hs => CoordEvent.handle_serves peers e hs) events (Coordinator.initial_serving store)
  refine ⟨turns, s, hserve, hevents, ?_⟩
  have hreached := told_of_path d hpath rfl
  rw [List.filterMap_map] at hreached
  change (s.keyState d).Reached (turns.filterMap fun t => t.request.told d t.answer) at hreached
  exact hreached.forms

end KernelCache
