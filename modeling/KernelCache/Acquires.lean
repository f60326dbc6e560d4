/-
# KernelCache.Acquires — what an acquire carries from its lookup, or its build, to its lease.

An acquire passes an ID from one critical section to the next: the lookup finds one, or `build_impl`
returns one, and the record it is bound to is looked up again, promoted and leased.  Whatever is to be
shown of the record that is leased is therefore shown of the record the id is bound to
(`Impl.BoundTo`), where the id comes from, and must not be broken by any step in between.

`BuildsTo` is what that takes of a build, with what the caller knows from joining on; `AcquiresWith`
adds the hit and the lease.
-/
import KernelCache.Interleaving

namespace KernelCache

open Foundation (Bytes Prog Stable)
open Foundation.Prog (Free Sat)

/-- The id is bound to a record of which `W` holds. -/
def Impl.BoundTo (s : Impl) (W : Nat → Impl → Prop) (id : ArtifactId) : Prop :=
  ∃ p, s.byId.lookup id = some p ∧ W p s

/-- All stages but leases and verdicts. -/
def Stage.unguarded : Stage → Prop
  | .lease | .validate => False
  | _ => True

/-- What a build comes to: `A` is known from joining on, and `W` of the record it leaves. -/
structure BuildsTo (env : Env) (C G : Step → Impl → Impl → Prop) (W : Nat → Impl → Prop)
    (A : Impl.Joined → Impl → Prop) (request : KernelLookupRequest) : Prop where
  proper : ∀ l s s', C l s s' → l.Proper
  walk : Walk (Guaranteed env C G) Stage.unguarded
  stable_record : ∀ p, Stable (exec env) C (W p)
  stable_joined : ∀ joined, Stable (exec env) C (A joined)
  join : ∀ s s', exec env (.join (buildDigest env request)) s = some s' →
    C (.join (buildDigest env request)) s s' → A (s.join (buildDigest env request)).1 s'
  publish : ∀ fence gen tick o s s',
    runBuild env tick (buildRequestOf env request) gen = .ok o → o.succeeded = true →
    A (.owner fence gen) s → exec env (.publish fence o) s = some s' →
    C (.publish fence o) s s' → s'.BoundTo W o.id
  found : ∀ fence o p s s', A (.waiter fence) s → exec env (.findBuilt fence o) s = some s' →
    C (.findBuilt fence o) s s' → s.byId.lookup o.id = some p →
    s.BoundTo W (s.records p).desc.id

namespace BuildsTo

variable {env : Env} {C G : Step → Impl → Impl → Prop} {W : Nat → Impl → Prop}
  {A : Impl.Joined → Impl → Prop} {request : KernelLookupRequest}

/-- Bindings stay. -/
theorem stable_bound (h : BuildsTo env C G W A request) (id : ArtifactId) :
    Stable (exec env) C (fun s => s.BoundTo W id) := by
  rintro l s s' ⟨p, hid, hp⟩ hexec hC
  exact ⟨p, (exec_extends hexec (h.proper l s s' hC)).keeps id p hid,
    h.stable_record p l s s' hp hexec hC⟩

theorem guaranteed (h : BuildsTo env C G W A request) {l : Step} {s s' : Impl} (hl : l.Ordinary)
    (hstage : l.stage.unguarded) (hexec : exec env l s = some s') (hC : C l s s') : G l s s' := by
  have hfree : (Prog.perform l : Op Unit).Free (exec env) C G := h.walk.perform hl hstage
  exact (hfree s s' trivial hexec hC).1

/-- A section beside what no step can break. -/
theorem perform (h : BuildsTo env C G W A request) {P : Impl → Prop} (hP : Stable (exec env) C P)
    {l : Step} (hl : l.Ordinary) (hstage : l.stage.unguarded) :
    (Prog.perform l : Op Unit).Sat (exec env) C G (fun _ => P) P :=
  (Guaranteed.carry hP (h.walk.perform hl hstage)).weaken (fun _ hs => hs) fun _ _ hs => hs.2

/-- What a build that returns a descriptor leaves. -/
abbrev Leaves (W : Nat → Impl → Prop) (res : Result ArtifactDescriptor) (s : Impl) : Prop :=
  ∀ desc, res = .ok desc → s.BoundTo W desc.id

theorem leaves_error {e : Failure} {s : Impl} : Leaves W (.error e) s := by
  intro desc hdesc
  cases hdesc

theorem publishOp (h : BuildsTo env C G W A request) {fence tick : Nat} {gen : ArtifactGeneration}
    {o : Outcome} (hrun : runBuild env tick (buildRequestOf env request) gen = .ok o)
    (hs : o.succeeded = true) :
    (publishOp env fence o).Sat (exec env) C G (Leaves W) (A (.owner fence gen)) := by
  have hid := (runBuild_built hrun hs).desc_id
  have hdone : (Prog.ret (.ok o.desc) : Op (Result ArtifactDescriptor)).Sat (exec env) C G
      (Leaves W) (fun s => s.BoundTo W o.id) := by
    refine Sat.ret fun s hbound desc hdesc => ?_
    cases hdesc
    rw [hid]
    exact hbound
  unfold KernelCache.publishOp
  refine Sat.bind (h.perform (h.stable_joined _) trivial trivial) fun _ => ?_
  refine Sat.bind (Q := fun _ s => s.BoundTo W o.id) (Sat.sect (fun _ => h.stable_bound o.id) ?_)
    fun newRecord => ?_
  · intro s s' hjoined hexec hC
    exact ⟨h.guaranteed (l := .publish fence o) ⟨hs, hid⟩ trivial hexec hC,
      h.publish fence gen tick o s s' hrun hs hjoined hexec hC⟩
  · split
    · refine Sat.bind (Guaranteed.carry (h.stable_bound o.id)
        (h.walk.persistOp trivial trivial hs hid)) fun _ => ?_
      exact hdone.weaken (fun _ hs => hs.2) fun _ _ hs => hs
    · exact hdone

theorem finishBuild (h : BuildsTo env C G W A request) (digest : Sha256Digest) {fence tick : Nat}
    {gen : ArtifactGeneration} {o : Outcome}
    (hrun : runBuild env tick (buildRequestOf env request) gen = .ok o) :
    (finishBuild env digest fence o).Sat (exec env) C G (Leaves W) (A (.owner fence gen)) := by
  have hkept := h.stable_joined (.owner fence gen)
  unfold KernelCache.finishBuild
  refine Sat.bind ((Guaranteed.carry hkept (h.walk.buildOver trivial trivial)).weaken
    (fun _ hs => hs) fun _ _ hs => hs.2) fun _ => ?_
  refine Sat.bind (h.perform hkept trivial trivial) fun _ => ?_
  refine Sat.bind (h.perform hkept trivial trivial) fun _ => ?_
  by_cases hs : o.succeeded = true
  · rw [if_neg (by simp [hs])]
    exact h.publishOp hrun hs
  · rw [if_pos (by simpa using hs)]
    refine Sat.bind (h.perform hkept (.other (fun _ => rfl) fun _ => rfl) trivial) fun _ => ?_
    refine Sat.bind (h.perform hkept trivial trivial) fun _ => ?_
    exact Sat.ret fun _ _ => leaves_error

theorem buildWaiter (h : BuildsTo env C G W A request) (fence : Nat) :
    (buildWaiter fence).Sat (exec env) C G (Leaves W) (A (.waiter fence)) := by
  unfold KernelCache.buildWaiter
  refine Sat.bind (Q := fun _ => A (.waiter fence)) ?_ fun o => ?_
  · exact Sat.sect (fun _ => h.stable_joined _) fun s s' hs hexec hC =>
      ⟨h.guaranteed trivial trivial hexec hC, h.stable_joined _ _ s s' hs hexec hC⟩
  split
  · exact Sat.ret fun _ _ => leaves_error
  · refine Sat.sect (fun res l s s' hleft hexec hC desc hdesc => ?_) fun s s' hjoined hexec hC => ?_
    · exact h.stable_bound _ l s s' (hleft desc hdesc) hexec hC
    · refine ⟨h.guaranteed trivial trivial hexec hC, fun desc hdesc => ?_⟩
      refine h.stable_bound _ _ s s' ?_ hexec hC
      unfold Impl.findBuilt at hdesc
      split at hdesc
      · rename_i p hp
        cases hdesc
        exact h.found fence o p s s' hjoined hexec hC hp
      · cases hdesc

/-- **A build** that returns a descriptor leaves its id bound to a record with `W`. -/
theorem buildImpl (h : BuildsTo env C G W A request) :
    (buildImpl env request).Sat (exec env) C G (Leaves W) (fun _ => True) := by
  unfold KernelCache.buildImpl
  refine Sat.bind (Q := A) (Sat.sect h.stable_joined fun s s' _ hexec hC =>
    ⟨h.guaranteed trivial trivial hexec hC, h.join s s' hexec hC⟩) fun joined => ?_
  cases joined with
  | waiter fence => exact h.buildWaiter fence
  | owner fence gen =>
    show (buildOwner env _ _ fence gen).Sat _ _ _ _ _
    unfold buildOwner
    refine Sat.bind (Guaranteed.carry (h.stable_joined _) (h.walk.runBuildOp
      (Q := fun res => ∃ tick, res = runBuild env tick (buildRequestOf env request) gen)
      trivial trivial fun tick => ⟨tick, rfl⟩)) fun res => ?_
    cases res with
    | error e => exact Sat.ret fun _ _ => leaves_error
    | ok o =>
      refine Sat.given fun ⟨tick, hrun⟩ => ?_
      exact h.finishBuild _ hrun.symm

end BuildsTo

/-- What an acquire comes to: besides its build, a hit finds a record with `W`, and a lease on such a
record has `R`. -/
structure AcquiresWith (env : Env) (C G : Step → Impl → Impl → Prop) (W : Nat → Impl → Prop)
    (A : Impl.Joined → Impl → Prop) (R : Result Nat → Impl → Prop) (request : KernelLookupRequest) :
    Prop extends BuildsTo env C G W A { request with key := request.key.finalize } where
  hit : ∀ s s' id, C (.collect request.key.finalize) s s' →
    (s.lookup request.key.finalize request.policy).artifact = some id → s.BoundTo W id
  stable_result : ∀ res, Stable (exec env) C (R res)
  failed : ∀ e s, R (.error e) s
  grant : ∀ p pin s s', W p s → exec env (.grantLease p pin) s = some s' →
    C (.grantLease p pin) s s' →
    G (.grantLease p pin) s s' ∧ R (s.grantLease env p pin).1 s'

namespace AcquiresWith

variable {env : Env} {C G : Step → Impl → Impl → Prop} {W : Nat → Impl → Prop}
  {A : Impl.Joined → Impl → Prop} {R : Result Nat → Impl → Prop} {request : KernelLookupRequest}

/-- Leasing what an id is bound to. -/
theorem leaseRecord (h : AcquiresWith env C G W A R request) (request' : KernelLookupRequest)
    (id : ArtifactId) (vanished : Str) :
    (leaseRecord env request' id vanished).Sat (exec env) C G R (fun s => s.BoundTo W id) := by
  have hpromote : ∀ p desired device, (promoteToTier env p desired device).Free (exec env) C G :=
    h.walk.promotes trivial trivial trivial (h.walk.evictImpl trivial trivial)
  unfold KernelCache.leaseRecord
  refine Sat.bind (Q := fun found s => ∀ p, found = some p → W p s)
    (Sat.sect (fun found l s s' hP hexec hC p hp => ?_) fun s s' hbound hexec hC => ?_)
    fun found => ?_
  · exact h.stable_record p l s s' (hP p hp) hexec hC
  · refine ⟨h.guaranteed trivial trivial hexec hC, fun q hq => ?_⟩
    obtain ⟨p, hid, hp⟩ := hbound
    obtain rfl : p = q := Option.some.inj (hid.symm.trans hq)
    exact h.stable_record p _ s s' hp hexec hC
  · cases found with
    | none => exact Sat.ret fun s _ => h.failed _ s
    | some p =>
      refine Sat.weaken (Sat.bind (Guaranteed.carry (h.stable_record p) (hpromote p _ _))
        fun promoted => ?_) (fun s hs => hs p rfl) fun _ _ hs => hs
      cases promoted with
      | error e => exact Sat.ret fun s _ => h.failed _ s
      | ok _ =>
        exact Sat.sect h.stable_result fun s s' hs hexec hC => h.grant p _ s s' hs.2 hexec hC

/-- A lookup that hits names a bound id. -/
theorem lookupImpl (h : AcquiresWith env C G W A R request) :
    (lookupImpl { request with key := request.key.finalize }).Sat (exec env) C G
      (fun res s => ∀ d, res = .ok d → d.outcome.isHit = true →
        s.BoundTo W (d.artifact.getD default)) (fun _ => True) := by
  have hstable : ∀ result : KernelLookupResult, Stable (exec env) C fun s =>
      result.outcome.isHit = true → s.BoundTo W (result.artifact.getD default) :=
    fun result l s s' hP hexec hC hhit => h.stable_bound _ l s s' (hP hhit) hexec hC
  unfold KernelCache.lookupImpl
  dsimp only
  rw [KernelCompatibilityKey.finalize_finalize]
  split
  · exact Sat.ret fun _ _ d hd => by cases hd
  refine Sat.bind (Q := fun candidates s =>
      (decideLookup request.key.finalize request.policy candidates).outcome.isHit = true →
        s.BoundTo W ((decideLookup request.key.finalize request.policy candidates).artifact.getD
          default)) (Sat.sect (fun candidates => hstable _) fun s s' _ hexec hC => ?_)
    fun candidates => ?_
  · refine ⟨h.guaranteed trivial trivial hexec hC, fun hhit => ?_⟩
    obtain ⟨id, hid⟩ := Impl.lookup_isHit.mp hhit
    have hbound := h.hit s s' id hC hid
    unfold Impl.lookup at hid
    rw [hid, Option.getD_some]
    exact h.stable_bound id _ s s' hbound hexec hC
  · generalize decideLookup request.key.finalize request.policy candidates = result
    refine Sat.bind (h.perform (hstable result) (.lookup _) trivial) fun _ => ?_
    refine Sat.bind (h.perform (hstable result) trivial trivial) fun _ => ?_
    refine Sat.ret fun s hs d hd hhit => ?_
    cases hd
    exact hs hhit

/-- **An acquire** ends with `R`. -/
theorem acquireImpl (h : AcquiresWith env C G W A R request) :
    (acquireImpl env request).Sat (exec env) C G R (fun _ => True) := by
  unfold KernelCache.acquireImpl
  refine Sat.bind h.lookupImpl fun decided => ?_
  cases decided with
  | error e => exact Sat.ret fun s _ => h.failed e s
  | ok d =>
    simp only [acquireDecided]
    split
    · rename_i hhit
      exact (h.leaseRecord _ _ _).weaken (fun s hs => hs d rfl hhit) fun _ _ hs => hs
    · unfold acquireMiss
      split
      · refine Sat.weaken (Sat.bind h.buildImpl fun built => ?_) (fun _ _ => trivial)
          fun _ _ hs => hs
        cases built with
        | error e => exact Sat.ret fun s _ => h.failed e s
        | ok desc => exact (h.leaseRecord _ _ _).weaken (fun s hs => hs desc rfl) fun _ _ hs => hs
      · exact Sat.ret fun s _ => h.failed _ s

end AcquiresWith

end KernelCache
