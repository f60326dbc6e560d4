/-
# KernelCache.StaleLookups — lookups under an authority that is not current.

The coordinator as a sequential machine: frames of open client connections and registrations of
workers, each handled to its end before the next one.  A lookup request that is malformed, or not of the
current epoch and generation, or whose key does not decode, is answered by an outcome alone: no section
it takes changes anything, so it can be deleted from the sequence (`stale_lookups_deleted`).
-/
import KernelCache.Coordinator
import KernelCache.Foundation.Serial
import KernelCache.Sequential

namespace KernelCache

open Foundation (Bytes Prog Turn)
open Foundation.Prog (sect perform Finishes)

/-- What the sequential machine handles: a worker that connects and registers, a frame of a client. -/
inductive CoordEvent where
  | register (payload : Bytes)
  | client (frame : Frame)

/-- The request does not decode, its authority is not current, or its key does not decode. -/
def Coordinator.rejects (s : Coordinator) (q : LookupRequest) : Result DistAuthority → Bool
  | .error _ => true
  | .ok auth => auth.epoch != s.epoch || auth.cacheGen != s.gen ||
      match KernelCompatibilityKey.fromCanonical q.keyCanonical with
      | .error _ => true
      | .ok _ => false

namespace CoordEvent

/-- The handling of one event. -/
def handle (peers : Peers) : CoordEvent → CoordOp Served
  | register payload => do
    handleConn peers [(DistMsgType.registerW.code, payload)]
    return .silent
  | client frame => serveFrame peers frame

/-- A lookup request that is malformed, outdated, or has a key that does not decode. -/
def stale (s : Coordinator) : CoordEvent → Bool
  | register _ => false
  | client (type, payload) =>
    let (auth, q) := decodeLookupRequest payload {}
    type == DistMsgType.lookupReq.code && s.rejects q auth

/-- The answer to a lookup that is turned away: an outcome, with the zero artifact. -/
def TurnedAway (e : CoordEvent) (answer : Served) : Prop :=
  ∃ payload, e = .client (DistMsgType.lookupReq.code, payload) ∧
    ∃ o : UInt8, (o = 0x0C ∨ o = 0x0D ∨ o = 0x0E) ∧
      answer = .reply (lookupResponse (decodeLookupRequest payload {}).2 { outcome := o })

end CoordEvent

/-- The machine over a sequence of events. -/
def serveEvents (peers : Peers) : List CoordEvent → Coordinator →
    Option (List (Turn CoordEvent Served) × Coordinator) :=
  Foundation.serveAll (coordExec peers) (CoordEvent.handle peers) CoordEvent.stale

/-! ## Every event comes to its end -/

/-- Between two events no mutex is held. -/
structure Coordinator.Idle (s : Coordinator) : Prop where
  dispatch : s.dispatchHeld = false
  workers : s.workersHeld = false
  stats : s.cache.statsHeld = false

theorem Coordinator.initial_idle (store : FilePersistenceStore) : (initial store).Idle :=
  ⟨rfl, rfl, rfl⟩

/-- `lookup_impl` alone, whatever the request. -/
theorem lookupImpl_finishes (env : Env) (request : KernelLookupRequest) {s : Impl}
    (hfree : s.statsHeld = false) :
    (lookupImpl request).Finishes (exec env) s fun _ s' => s'.statsHeld = false := by
  cases hkey : request.key.wellFormed with
  | false =>
    have hfin : request.key.finalize.finalized = false := by
      rw [KernelCompatibilityKey.finalize_finalized]
      exact hkey
    unfold lookupImpl
    simp only [hfin, Bool.not_false, if_true]
    exact Finishes.ret hfree
  | true =>
    let r := s.lookup request.key.finalize request.policy
    refine ⟨.ok r, s.lookedUp r, ?_, hfree⟩
    rw [Prog.run_eq_traced 0, lookupImpl_traced env 0 request hkey hfree]
    rfl

/-- A program over the coordinator's own cache: nothing but the cache changes. -/
theorem onCache_finishes (peers : Peers) {α : Type} {p : Op α} {s : Coordinator}
    {Q : α → Impl → Prop} (h : p.Finishes (exec peers.cache) s.cache Q) :
    (p.zoom .cache Coordinator.cache).Finishes (coordExec peers) s
      fun a s' => ∃ c, s' = { s with cache := c } ∧ Q a c := by
  obtain ⟨a, c, hrun, hc⟩ := h
  have hstep : ∀ l (s : Coordinator), coordExec peers (.cache l) s =
      (exec peers.cache l s.cache).map fun c => { s with cache := c } := by
    intro l s
    unfold coordExec exec
    rw [CoordStep.ready]
    split
    · rfl
    · rfl
  have hzoom := Prog.run_zoom hstep (fun _ _ => rfl) (fun _ => rfl) (fun _ _ _ => rfl) p s
  rw [hrun] at hzoom
  exact ⟨a, _, hzoom, c, rfl, hc⟩

/-- The coordinator's own lookup: only its cache changes. -/
theorem ownLookup_finishes (peers : Peers) (request : KernelLookupRequest) {s : Coordinator}
    (hfree : s.cache.statsHeld = false) :
    ((lookupImpl request).zoom .cache Coordinator.cache).Finishes (coordExec peers) s
      fun _ s' => ∃ c, s' = { s with cache := c } ∧ c.statsHeld = false :=
  onCache_finishes peers (lookupImpl_finishes peers.cache request hfree)

/-- A frame that is written leaves everything but its channel. -/
theorem writeFrame_finishes (peers : Peers) (fd : Socket) (type : UInt16) (payload : Bytes)
    (s : Coordinator) : (writeFrame peers fd type payload).Finishes (coordExec peers) s
      fun _ s' => ∃ c, s' = { s with channels := c } := by
  obtain ⟨b, _, c, hrun, -⟩ := writeFrame_alone peers fd type payload s
  exact ⟨b, _, hrun, _, rfl⟩

theorem broadcast_finishes (peers : Peers) (e : CoordinatorEpoch) (ws : List WorkerSlot)
    (s : Coordinator) : (broadcast peers e ws).Finishes (coordExec peers) s
      fun _ s' => ∃ c, s' = { s with channels := c } := by
  induction ws generalizing s with
  | nil => exact Finishes.ret ⟨s.channels, rfl⟩
  | cons w ws ih =>
    unfold broadcast
    cases w.fd with
    | none => exact ih s
    | some fd =>
      refine Finishes.bind (writeFrame_finishes peers fd _ _ s) ?_
      rintro _ _ ⟨c, rfl⟩
      exact (ih { s with channels := c }).mono fun _ _ h => h

section Idle

variable {s : Coordinator} (peers : Peers)

theorem serveRollEpoch_finishes (payload : Bytes) (h : s.Idle) :
    (serveRollEpoch peers payload).Finishes (coordExec peers) s fun _ s' => s'.Idle := by
  let s₁ : Coordinator := { s with epoch := rolledTo payload, gen := rolledTo payload }
  have hfree : CoordStep.lockWorkers.ready s₁ = true := by
    simp [CoordStep.ready, s₁, h.workers]
  unfold serveRollEpoch
  refine Finishes.first rfl (Finishes.first rfl ?_)
  refine Finishes.first (coordExec_eq_some.mpr ⟨hfree, rfl⟩) (Finishes.first rfl ?_)
  refine Finishes.bind (broadcast_finishes peers _ _ _) ?_
  rintro _ _ ⟨c, rfl⟩
  exact Finishes.sect rfl ⟨h.dispatch, rfl, h.stats⟩

theorem dispatchBuild_finishes (keycan : Bytes) (src ns arch : Str) (auth : DistAuthority)
    (rid : RequestId) (out : BuildResponse) (h : s.Idle) :
    (dispatchBuild peers keycan src ns arch auth rid out).Finishes (coordExec peers) s
      fun _ s' => s'.Idle := by
  have hfree : CoordStep.lockDispatch.ready s = true := by
    simp [CoordStep.ready, h.dispatch]
  have hworkers : (CoordStep.pickWorker auth.boot).ready { s with dispatchHeld := true } = true := by
    simp [CoordStep.ready, h.workers]
  unfold dispatchBuild
  refine Finishes.first (coordExec_eq_some.mpr ⟨hfree, rfl⟩) ?_
  refine Finishes.first (coordExec_eq_some.mpr ⟨hworkers, rfl⟩) ?_
  split
  · exact Finishes.first rfl (Finishes.ret ⟨rfl, h.workers, h.stats⟩)
  · refine Finishes.bind (writeFrame_finishes peers _ _ _ _) ?_
    rintro b _ ⟨c, rfl⟩
    split
    · exact Finishes.first rfl (Finishes.ret ⟨rfl, h.workers, h.stats⟩)
    · refine Finishes.first rfl (Finishes.first rfl (Finishes.ret ?_))
      exact ⟨rfl, h.workers, h.stats⟩

theorem servePending_finishes (q : LookupRequest) (auth : DistAuthority) (kh arch : Str)
    (h : s.Idle) : (servePending peers q auth kh arch).Finishes (coordExec peers) s
      fun _ s' => s'.Idle := by
  refine Finishes.bind (dispatchBuild_finishes peers _ _ _ _ _ _ _ h) ?_
  rintro ⟨ok, out⟩ s' hs'
  refine Finishes.first rfl ?_
  cases ok with
  | true => exact Finishes.first rfl (Finishes.ret ⟨hs'.dispatch, hs'.workers, hs'.stats⟩)
  | false => exact Finishes.ret ⟨hs'.dispatch, hs'.workers, hs'.stats⟩

theorem serveKey_finishes (q : LookupRequest) (auth : DistAuthority) (k : KernelCompatibilityKey)
    (h : s.Idle) : (serveKey peers q auth k).Finishes (coordExec peers) s fun _ s' => s'.Idle := by
  refine Finishes.bind (ownLookup_finishes peers _ h.stats) ?_
  rintro found _ ⟨c, rfl, hc⟩
  have hidle : Coordinator.Idle { s with cache := c } := ⟨h.dispatch, h.workers, hc⟩
  refine Finishes.first rfl ?_
  split
  · exact Finishes.ret hidle
  · exact Finishes.ret hidle
  · refine Finishes.first rfl ?_
    split
    · exact servePending_finishes peers q auth _ _ hidle
    · exact Finishes.first rfl (Finishes.ret ⟨h.dispatch, h.workers, hc⟩)

theorem serveLookup_finishes (q : LookupRequest) (auth : Result DistAuthority) (h : s.Idle) :
    (serveLookup peers q auth).Finishes (coordExec peers) s fun _ s' => s'.Idle := by
  cases auth with
  | error _ => exact Finishes.ret h
  | ok auth =>
    refine Finishes.first rfl ?_
    split
    · exact Finishes.ret h
    · refine Finishes.first rfl ?_
      split
      · exact Finishes.ret h
      · split
        · exact Finishes.ret h
        · exact serveKey_finishes peers q auth _ h

theorem serveFrame_finishes (frame : Frame) (h : s.Idle) :
    (serveFrame peers frame).Finishes (coordExec peers) s fun _ s' => s'.Idle := by
  have hworkers : CoordStep.queryWorkers.ready s = true := by
    simp [CoordStep.ready, h.workers]
  unfold serveFrame
  split
  · exact Finishes.bind (serveRollEpoch_finishes peers _ h) fun _ _ hs => Finishes.ret hs
  split
  · exact Finishes.bind (serveLookup_finishes peers _ _ h) fun _ _ hs => Finishes.ret hs
  split
  · exact Finishes.first (coordExec_eq_some.mpr ⟨hworkers, rfl⟩) (Finishes.ret h)
  split
  · exact Finishes.ret h
  · exact Finishes.ret h

theorem registerWorker_finishes (fd : Socket) (payload : Bytes) (h : s.Idle) :
    (registerWorker peers fd payload).Finishes (coordExec peers) s fun _ s' => s'.Idle := by
  unfold registerWorker
  split
  · exact Finishes.ret h
  · rename_i w boot _ _
    have hworkers : (CoordStep.register ⟨some fd, w, boot⟩).ready s = true := by
      simp [CoordStep.ready, h.workers]
    refine Finishes.first (coordExec_eq_some.mpr ⟨hworkers, rfl⟩) (Finishes.first rfl ?_)
    refine Finishes.bind (writeFrame_finishes peers _ _ _ _) ?_
    rintro _ _ ⟨c, rfl⟩
    exact Finishes.ret ⟨h.dispatch, h.workers, h.stats⟩

theorem CoordEvent.handle_finishes (e : CoordEvent) (h : s.Idle) :
    (e.handle peers).Finishes (coordExec peers) s fun _ s' => s'.Idle := by
  cases e with
  | client frame => exact serveFrame_finishes peers frame h
  | register payload =>
    refine Finishes.bind (Q := fun _ s' => s'.Idle) ?_ fun _ _ hs => Finishes.ret hs
    refine Finishes.first rfl (Finishes.first rfl ?_)
    exact registerWorker_finishes peers _ payload ⟨h.dispatch, h.workers, h.stats⟩

end Idle

/-! ## Stale lookups -/

/-- A rejected request is answered by an outcome, and changes nothing. -/
theorem serveLookup_rejects (peers : Peers) {s : Coordinator} {q : LookupRequest}
    {auth : Result DistAuthority} (h : s.rejects q auth = true) :
    ∃ o : UInt8, (o = 0x0C ∨ o = 0x0D ∨ o = 0x0E) ∧
      (serveLookup peers q auth).run (coordExec peers) s = some ({ outcome := o }, s) := by
  cases auth with
  | error _ => exact ⟨0x0C, .inl rfl, rfl⟩
  | ok auth =>
    have hepoch := run_coordSect peers (l := .checkEpoch auth.epoch) (s := s) rfl
      fun s => auth.epoch == s.epoch
    have hgen := run_coordSect peers (l := .checkGen auth.cacheGen) (s := s) rfl
      fun s => auth.cacheGen == s.gen
    unfold serveLookup
    cases he : auth.epoch == s.epoch with
    | false =>
      rw [he] at hepoch
      exact ⟨0x0D, .inr (.inl rfl), (Prog.run_then hepoch _).trans rfl⟩
    | true =>
      rw [he] at hepoch
      cases hg : auth.cacheGen == s.gen with
      | false =>
        rw [hg] at hgen
        exact ⟨0x0E, .inr (.inr rfl), (Prog.run_then hepoch _).trans (Prog.run_then hgen _)⟩
      | true =>
        rw [hg] at hgen
        refine ⟨0x0C, .inl rfl, (Prog.run_then hepoch _).trans ((Prog.run_then hgen _).trans ?_)⟩
        -- what is left to reject is the key
        cases hkey : KernelCompatibilityKey.fromCanonical q.keyCanonical with
        | error _ => rfl
        | ok _ => simp [Coordinator.rejects, bne, he, hg, hkey] at h

/-- The handling of a stale lookup. -/
theorem CoordEvent.handle_stale (peers : Peers) {e : CoordEvent} {s : Coordinator}
    (h : e.stale s = true) : ∃ answer, e.TurnedAway answer ∧
      (e.handle peers).run (coordExec peers) s = some (answer, s) := by
  cases e with
  | register _ => cases h
  | client frame =>
    obtain ⟨type, payload⟩ := frame
    obtain ⟨htype, hrejects⟩ := Bool.and_eq_true_iff.mp h
    obtain rfl := eq_of_beq htype
    obtain ⟨o, ho, hrun⟩ := serveLookup_rejects peers hrejects
    exact ⟨_, ⟨payload, rfl, o, ho, rfl⟩, (Prog.run_then hrun _).trans rfl⟩

/-- **Stale lookups are no-ops.** Every sequence of events is handled; without the lookups that were
stale at their turn the other events are handled as before and the coordinator ends in the same state;
and each stale lookup is answered 0x0C, 0x0D or 0x0E, with the zero artifact. -/
theorem stale_lookups_deleted (peers : Peers) (store : FilePersistenceStore)
    (events : List CoordEvent) : ∃ turns s,
      serveEvents peers events (Coordinator.initial store) = some (turns, s) ∧
      turns.map Turn.request = events ∧
      serveEvents peers ((turns.filter fun t => !t.marked).map Turn.request)
        (Coordinator.initial store) = some (turns.filter fun t => !t.marked, s) ∧
      ∀ t ∈ turns, t.marked = true → t.request.TurnedAway t.answer := by
  obtain ⟨turns, s, hserve, hevents⟩ := Foundation.serveAll_total
    (fun e _ hs => CoordEvent.handle_finishes peers e hs) events (Coordinator.initial_idle store)
  refine ⟨turns, s, hserve, hevents, Foundation.serveAll_purged ?_ hserve,
    Foundation.serveAll_marked ?_ hserve⟩
  · intro e s a s' hstale hrun
    obtain ⟨answer, -, hrun'⟩ := CoordEvent.handle_stale peers hstale
    rw [hrun] at hrun'
    cases hrun'
    rfl
  · intro e s a s' hstale hrun
    obtain ⟨answer, haway, hrun'⟩ := CoordEvent.handle_stale peers hstale
    rw [hrun] at hrun'
    cases hrun'
    exact haway

/-- A lookup under epoch zero, behind a roll. -/
example : (serveEvents {} [.client (DistMsgType.rollEpoch.code, encodeRollEpoch 2),
      .client (DistMsgType.lookupReq.code, encodeLookupRequest {} {} [] [] [] 0)]
      (Coordinator.initial {})).map (fun out => (out.1.map Turn.marked, out.2.epoch)) =
    some ([false, true], 2) := by
  decide +kernel

end KernelCache
