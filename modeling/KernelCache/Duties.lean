/-
# KernelCache.Duties — who has a build to count out, and what sections do to the gauges.

Three counters go up and down: `active_builds`, `active_leases` and `active_device_loads`.
`Step.gaugesAfter` says what each section makes of them.  A build is counted in by the section that
takes the slot and out by another one, after `run_build` has returned; in between the owner has a
`Duty`.  `operation_dutiless` shows that no operation returns with one.  That includes a build whose
backend throws: the duty is gone then, and nobody has counted.
-/
import KernelCache.Foundation.Protocol
import KernelCache.Interleaving

namespace KernelCache

open Foundation (Bytes Prog Runs Pool Event phases)
open Foundation.Prog (sect perform Phased)

/-! ## What sections do to the gauges -/

/-- The gauges a section leaves. -/
def Step.gaugesAfter (s : Impl) : Step → Nat × Nat × Nat
  | .join digest =>
    if s.inFlight.lookup digest = none then
      (s.stats.activeBuilds + 1, s.stats.activeLeases, s.stats.activeDeviceLoads)
    else s.stats.gauges
  | .bump f => (f s.stats).gauges
  | .grantLease p _ =>
    if (s.records p).leasable then
      (s.stats.activeBuilds, s.stats.activeLeases + 1, s.stats.activeDeviceLoads)
    else s.stats.gauges
  | .onLeaseRelease _ =>
    (s.stats.activeBuilds, s.stats.activeLeases - 1, s.stats.activeDeviceLoads)
  | .commitDevice _ _ _ =>
    (s.stats.activeBuilds, s.stats.activeLeases, s.stats.activeDeviceLoads + 1)
  | .resetStats => (0, 0, 0)
  | _ => s.stats.gauges

/-- The counters of lookups a section leaves. -/
def Step.lookupsAfter (s : Impl) : Step → List Nat
  | .bump f => (f s.stats).lookupCounters
  | .resetStats => ({} : Stats).lookupCounters
  | _ => s.stats.lookupCounters

/-- The gauges and the counters of lookups. -/
def Stats.counters (st : Stats) : (Nat × Nat × Nat) × List Nat := (st.gauges, st.lookupCounters)

theorem Impl.recoverInsert_counters (env : Env) (s : Impl) (as : List StoredArtifact) :
    (recoverInsert env s as).2.stats.counters = s.stats.counters := by
  induction as generalizing s with
  | nil => rfl
  | cons a as ih =>
    simp only [recoverInsert]
    split
    · exact ih s
    · exact ih _

theorem Impl.invalidateAll_stats (req : InvalidationRequest) (s : Impl) (ids : List ArtifactId) :
    (invalidateAll req s ids).2.stats = s.stats := by
  rw [invalidateAll_index]

theorem Step.effect_counters (env : Env) (s : Impl) (l : Step) :
    (l.effect env s).stats.counters = (l.gaugesAfter s, l.lookupsAfter s) := by
  cases l with
  | join digest =>
    simp only [effect, Impl.join, gaugesAfter]
    cases s.inFlight.lookup digest with
    | none => exact congrArg (·, _) (if_pos rfl).symm
    | some fence => exact congrArg (·, _) (if_neg (Option.some_ne_none fence)).symm
  | grantLease p pin =>
    simp only [effect, Impl.grantLease, gaugesAfter]
    split <;> rfl
  | recoverInsert artifacts => exact Impl.recoverInsert_counters env s artifacts
  | invalidate req =>
    show (Impl.invalidateAll req s (s.selected env req)).2.stats.counters = _
    rw [Impl.invalidateAll_stats]
    rfl
  | publish fence o =>
    simp only [effect, Impl.publish]
    split <;> rfl
  | put desc bytes =>
    simp only [effect, Impl.put]
    split <;> rfl
  | fulfil fence o =>
    simp only [effect, Impl.fulfil]
    split <;> rfl
  | eraseFence fence digest =>
    simp only [effect, Impl.eraseFence]
    split <;> rfl
  | markPersisted o =>
    simp only [effect, Impl.markPersisted, Impl.bump]
    split <;> rfl
  | loadModule p bytes device =>
    simp only [effect, Impl.loadModule]
    split
    · rfl
    · split <;> rfl
  | evictBegin id force =>
    simp only [effect, Impl.evictBegin]
    split
    · rfl
    · split
      · split <;> rfl
      · rfl
  | evictUnload p =>
    simp only [effect, Impl.unloadModule]
    split <;> rfl
  | unloadCall p =>
    simp only [effect, Impl.unloadModule]
    split <;> rfl
  | pin id =>
    simp only [effect, Impl.modifyId]
    split <;> rfl
  | unpin id =>
    simp only [effect, Impl.modifyId]
    split <;> rfl
  | _ => rfl

theorem Step.effect_gauges (env : Env) (s : Impl) (l : Step) :
    (l.effect env s).stats.gauges = l.gaugesAfter s :=
  congrArg Prod.fst (l.effect_counters env s)

theorem Step.effect_lookupCounters (env : Env) (s : Impl) (l : Step) :
    (l.effect env s).stats.lookupCounters = l.lookupsAfter s :=
  congrArg Prod.snd (l.effect_counters env s)

theorem exec_gauges {env : Env} {l : Step} {s s' : Impl} (h : exec env l s = some s') :
    s'.stats.gauges = l.gaugesAfter s := by
  obtain ⟨-, rfl⟩ := exec_eq_some.mp h
  exact l.effect_gauges env s

/-! ## Duties -/

/-- How far the owner of a build is with counting it out. -/
inductive Duty where
  | none
  /-- `run_build` is under way. -/
  | build
  /-- `run_build` has succeeded and is about to count that. -/
  | tally
  /-- `run_build` is over. -/
  | built
  deriving DecidableEq

namespace Duty

/-- The duty after joining. -/
def joined : Impl.Joined → Duty
  | .owner _ _ => build
  | .waiter _ => none

/-- The duty after the backend calls of `run_build`; an exception ends the call. -/
def ran : Result Outcome → Duty
  | .error _ => none
  | .ok o => if o.succeeded then tally else built

/-- What a section does to the duty of the thread that takes it. -/
def next (env : Env) (d : Duty) (l : Step) (s : Impl) : Duty :=
  match d, l with
  | none, .join digest => joined (s.join digest).1
  | build, .runBuild request gen => ran (runBuild env s.tick request gen)
  | tally, .bump _ => built
  | built, .bump _ => none
  | d, _ => d

/-- The sections a thread may take with a duty. -/
def ok (d : Duty) (l : Step) (_ : Impl) : Prop :=
  match l with
  | .join _ => d = none
  | .runBuild _ _ => d = build
  | .bump f =>
    match d with
    | built => f = Stats.buildOver
    | _ => ∀ st, (f st).gauges = st.gauges
  | _ => True

/-- What a thread contributes to `active_builds`. -/
def count (d : Duty) : Nat := if d ≠ none then 1 else 0

end Duty

section Duties

variable {env : Env} {C : Step → Impl → Impl → Prop} {α : Type}

/-- Programs that begin with the duty `d` and end with a duty and a result that meet `Q`. -/
abbrev Does (env : Env) (C : Step → Impl → Impl → Prop) (Q : α → Duty → Prop) (p : Op α) (d : Duty) :
    Prop :=
  p.Phased (exec env) C Duty.ok (Duty.next env) (fun a d' _ => Q a d') (fun _ => True) d

/-- Programs that begin and end without a duty. -/
abbrev Dutiless (env : Env) (C : Step → Impl → Impl → Prop) (α : Type) (Q : α → Prop) (p : Op α) :
    Prop :=
  Does env C (fun a d => Q a ∧ d = .none) p .none

theorem Does.bind {β : Type} {Q : α → Duty → Prop} {Q' : β → Duty → Prop} {p : Op α} {g : α → Op β}
    {d : Duty} (hp : Does env C Q p d) (hg : ∀ a d', Q a d' → Does env C Q' (g a) d') :
    Does env C Q' (p.bind g) d :=
  Phased.bind hp fun a d' => Phased.assume (hg a d')

/-- The stages without duties. -/
def Stage.dutiless : Stage → Prop
  | .fence | .build => False
  | _ => True

theorem walk_dutiless : Walk (Dutiless env C) Stage.dutiless where
  ret ha := Phased.ret fun _ _ => ⟨ha, rfl⟩
  bind := by
    intro α β Q Q' p g hp hg
    refine Does.bind hp ?_
    rintro a d ⟨hQ, rfl⟩
    exact hg a hQ
  sect := by
    intro α Q l read hstage hl hQ
    refine Phased.sect (Q := fun a d => Q a ∧ d = Duty.none) fun s s' _ _ => ?_
    cases l with
    | join digest => exact hstage.elim
    | runBuild request gen => exact hstage.elim
    | bump f => exact ⟨hl.gauges, hQ s, rfl⟩
    | _ => exact ⟨trivial, hQ s, rfl⟩
  buildOver _ hbuild := hbuild.elim

/-- A section of a build that has nothing to do with the duty. -/
theorem dutiless_sect {l : Step} {read : Impl → α} (hok : ∀ s, Duty.ok .none l s)
    (hnext : ∀ s, Duty.next env .none l s = .none) : Dutiless env C α Walk.Any (sect l read) :=
  Phased.sect (Q := fun _ d => True ∧ d = Duty.none) fun s _ _ _ => ⟨hok s, trivial, hnext s⟩

/-! ### Builds -/

theorem runBuildOp_does (request : KernelLookupRequest) (gen : ArtifactGeneration) :
    Does env C (fun res d => d = match res with
      | .error _ => .none
      | .ok _ => .built) (runBuildOp env request gen) .build := by
  unfold runBuildOp
  refine Does.bind (Q := fun res d => d = Duty.ran res)
    (Phased.sect fun s _ _ _ => ⟨rfl, rfl⟩) ?_
  rintro res _ rfl
  cases res with
  | error e => exact Phased.ret fun _ _ => rfl
  | ok o =>
    dsimp only [Duty.ran]
    by_cases hs : o.succeeded = true
    · rw [if_pos hs, if_pos hs]
      refine Does.bind (Q := fun _ d => d = .built)
        (Phased.sect fun s _ _ _ => ⟨fun _ => rfl, rfl⟩) ?_
      rintro _ _ rfl
      refine Does.bind (Q := fun _ d => d = .built) (Phased.sect fun s _ _ _ => ⟨trivial, rfl⟩) ?_
      rintro _ _ rfl
      exact Phased.ret fun _ _ => rfl
    · rw [if_neg hs, if_neg hs]
      exact Phased.ret fun _ _ => rfl

theorem persistOp_dutiless (o : Outcome) : Dutiless env C _ Walk.Any (persistOp env o) := by
  have w : Walk (Dutiless env C) Stage.dutiless := walk_dutiless
  unfold persistOp
  refine w.bind (dutiless_sect (fun _ => trivial) fun _ => rfl) fun res _ => ?_
  cases res with
  | ok _ => exact dutiless_sect (fun _ => trivial) fun _ => rfl
  | error e =>
    refine w.bind (dutiless_sect (fun _ => trivial) fun _ => rfl) fun _ _ => ?_
    exact dutiless_sect (fun _ => trivial) fun _ => rfl

theorem publishOp_dutiless (fence : Nat) (o : Outcome) :
    Dutiless env C _ Walk.Any (publishOp env fence o) := by
  have w : Walk (Dutiless env C) Stage.dutiless := walk_dutiless
  unfold publishOp
  refine w.bind (dutiless_sect (fun _ => trivial) fun _ => rfl) fun _ _ => ?_
  refine w.bind (dutiless_sect (fun _ => trivial) fun _ => rfl) fun newRecord _ => ?_
  split
  · exact w.bind (persistOp_dutiless o) fun _ _ => w.ret trivial
  · exact w.ret trivial

/-- An owner counts its build out before anything else. -/
theorem finishBuild_does (digest : Sha256Digest) (fence : Nat) (o : Outcome) :
    Does env C (fun _ d => True ∧ d = .none) (finishBuild env digest fence o) .built := by
  have w : Walk (Dutiless env C) Stage.dutiless := walk_dutiless
  unfold finishBuild
  refine Does.bind (Q := fun _ d => d = .none) (Phased.sect fun s _ _ _ => ⟨rfl, rfl⟩) ?_
  rintro _ _ rfl
  refine w.bind (dutiless_sect (fun _ => trivial) fun _ => rfl) fun _ _ => ?_
  refine w.bind (dutiless_sect (fun _ => trivial) fun _ => rfl) fun _ _ => ?_
  split
  · refine w.bind (w.perform (.other (fun _ => rfl) fun _ => rfl) trivial) fun _ _ => ?_
    exact w.bind (w.perform trivial trivial) fun _ _ => w.ret trivial
  · exact publishOp_dutiless fence o

theorem buildWaiter_dutiless (fence : Nat) : Dutiless env C _ Walk.Any (buildWaiter fence) := by
  have w : Walk (Dutiless env C) Stage.dutiless := walk_dutiless
  unfold buildWaiter
  refine w.bind (dutiless_sect (fun _ => trivial) fun _ => rfl) fun o _ => ?_
  split
  · exact w.ret trivial
  · exact dutiless_sect (fun _ => trivial) fun _ => rfl

theorem buildOwner_does (request : KernelLookupRequest) (digest : Sha256Digest) (fence : Nat)
    (gen : ArtifactGeneration) : Does env C (fun _ d => True ∧ d = .none)
      (buildOwner env request digest fence gen) .build := by
  unfold buildOwner
  refine Does.bind (runBuildOp_does _ gen) ?_
  rintro res _ rfl
  cases res with
  | error e => exact Phased.ret fun _ _ => ⟨trivial, rfl⟩
  | ok o => exact finishBuild_does _ fence o

theorem buildImpl_dutiless (request : KernelLookupRequest) :
    Dutiless env C _ Walk.Any (buildImpl env request) := by
  unfold buildImpl
  refine Does.bind (Q := fun joined d => d = Duty.joined joined)
    (Phased.sect fun s _ _ _ => ⟨rfl, rfl⟩) ?_
  rintro joined _ rfl
  cases joined with
  | waiter fence => exact buildWaiter_dutiless fence
  | owner fence gen => exact buildOwner_does _ _ fence gen

/-! ### All operations -/

theorem pieces_dutiless : Walk.Pieces env (Dutiless env C) where
  evict := walk_dutiless.evictImpl trivial trivial
  load := walk_dutiless.loadOp trivial
    (walk_dutiless.promotes trivial trivial trivial (walk_dutiless.evictImpl trivial trivial))
  unload := walk_dutiless.unloadOp trivial trivial
  validate := walk_dutiless.validateOp trivial trivial
  put := walk_dutiless.putOp trivial
  release := walk_dutiless.releaseLease trivial
  recover := walk_dutiless.recoverImpl trivial trivial

theorem acquireImpl_dutiless (request : KernelLookupRequest) :
    Dutiless env C _ Walk.Any (acquireImpl env request) := by
  have w : Walk (Dutiless env C) Stage.dutiless := walk_dutiless
  exact w.acquireImpl trivial (buildImpl_dutiless _) (w.leaseRecord trivial trivial
    (w.promotes trivial trivial trivial (w.evictImpl trivial trivial)))

/-- **Every operation returns without a duty.** -/
theorem operation_dutiless (op : Operation) : Dutiless env C _ Walk.Any (op.prog env) := by
  have w : Walk (Dutiless env C) Stage.dutiless := walk_dutiless
  exact w.operation trivial pieces_dutiless buildImpl_dutiless acquireImpl_dutiless op

/-- Every section of a run is one its thread may take. -/
theorem runs_duty {store : FilePersistenceStore} {tr : List (Event Step Impl)}
    {pool : Pool Step Impl Answer} (h : CacheRuns env store tr pool) : ∀ tr₁ e, tr₁ ++ [e] <+: tr →
      (phases (Duty.next env) (fun _ => .none) tr₁ e.thread).ok e.label e.before := by
  refine Runs.allowed (C := fun _ _ _ => True) (Q := fun _ _ d _ => True ∧ d = .none)
    (fun i p hp => by cases hp) ?_ h fun _ _ => trivial
  rintro i p ⟨op, rfl⟩
  exact operation_dutiless op

end Duties

/-! ## Builds that throw -/

/-- The backend found for the request throws: its builder does, or its validator on what the builder
has made. -/
def Env.BuildThrows (env : Env) (tick : Nat) (request : KernelLookupRequest) : Prop :=
  ∃ backend builder validator loader,
    findBackend env.backends request.key.finalize = some backend ∧
    backend.builder = some builder ∧ backend.validator = some validator ∧
    backend.loader = some loader ∧
    (builder.build tick (buildRequest env backend request request.key.finalize) =
        .error .exception ∨
      ∃ res, builder.build tick (buildRequest env backend request request.key.finalize) = .ok res ∧
        validator.validate tick request.key.finalize res.bytes request.device = .error .exception)

theorem validateBuilt_error_iff {env : Env} {tick : Nat} {validator : KernelValidator}
    {br : BuildRequest} {res : BuildResult} {gen : ArtifactGeneration} :
    (∃ e, validateBuilt env tick validator br res gen = .error e) ↔
      validator.validate tick br.key res.bytes br.device = .error .exception := by
  unfold validateBuilt
  dsimp only
  split
  · rename_i heq
    exact ⟨fun _ => heq, fun _ => ⟨_, rfl⟩⟩
  all_goals
    rename_i heq
    rw [heq]
    constructor
    · rintro ⟨e, he⟩
      repeat' split at he
      all_goals cases he
    · intro he
      cases he

/-- An exception of the backend, and nothing else, makes `run_build` throw. -/
theorem runBuild_error_iff {env : Env} {tick : Nat} {request : KernelLookupRequest}
    {gen : ArtifactGeneration} :
    (∃ e, runBuild env tick request gen = .error e) ↔ env.BuildThrows tick request := by
  constructor
  · rintro ⟨e, he⟩
    unfold runBuild at he
    dsimp only at he
    split at he
    · cases he
    · rename_i backend hfound
      split at he
      · rename_i builder validator loader hbuilder hvalidator hloader
        refine ⟨backend, builder, validator, loader, hfound, hbuilder, hvalidator, hloader, ?_⟩
        split at he
        · rename_i hthrown
          exact .inl hthrown
        · cases he
        · rename_i res hbuilt
          exact .inr ⟨res, hbuilt, validateBuilt_error_iff.mp ⟨e, he⟩⟩
      · cases he
  · rintro ⟨backend, builder, validator, loader, hfound, hbuilder, hvalidator, hloader, hthrows⟩
    simp only [runBuild, hfound, hbuilder, hvalidator, hloader]
    rcases hthrows with hthrown | ⟨res, hbuilt, hthrown⟩
    · rw [hthrown]
      exact ⟨_, rfl⟩
    · rw [hbuilt]
      exact validateBuilt_error_iff.mpr hthrown

/-- The section is a `run_build` whose backend throws. -/
def Step.Throws (env : Env) (s : Impl) : Step → Prop
  | .runBuild request _ => env.BuildThrows s.tick request
  | _ => False

/-- No other section changes a duty. -/
theorem Duty.next_other {env : Env} {l : Step} (hjoin : ∀ digest, l ≠ .join digest)
    (hrun : ∀ request gen, l ≠ .runBuild request gen) (hbump : ∀ f, l ≠ .bump f) (d : Duty)
    (s : Impl) : d.next env l s = d := by
  cases l with
  | join digest => exact absurd rfl (hjoin digest)
  | runBuild request gen => exact absurd rfl (hrun request gen)
  | bump f => exact absurd rfl (hbump f)
  | _ => cases d <;> rfl

/-- **`active_builds`, one section.** The gauge moves with the duty of the thread, unless the backend
throws. -/
theorem exec_activeBuilds {env : Env} {d : Duty} {l : Step} {s s' : Impl}
    (h : exec env l s = some s') (hok : d.ok l s) (hreset : l ≠ .resetStats)
    (hcount : d.count ≤ s.stats.activeBuilds) :
    s'.stats.activeBuilds + d.count = s.stats.activeBuilds + (d.next env l s).count ↔
      ¬ l.Throws env s := by
  have hgauges := congrArg Prod.fst (exec_gauges h)
  have hgauge : s'.stats.activeBuilds = (l.gaugesAfter s).1 := hgauges
  rw [hgauge]
  cases l with
  | join digest =>
    obtain rfl : d = .none := hok
    refine ⟨fun _ hno => hno, fun _ => ?_⟩
    simp only [Step.gaugesAfter, Duty.next, Impl.join]
    cases s.inFlight.lookup digest with
    | none => rfl
    | some fence => rfl
  | runBuild request gen =>
    obtain rfl : d = .build := hok
    have hthrows : (∃ e, runBuild env s.tick request gen = .error e) ↔
        env.BuildThrows s.tick request := runBuild_error_iff
    show s.stats.activeBuilds + 1 = s.stats.activeBuilds +
      (Duty.ran (runBuild env s.tick request gen)).count ↔ ¬ env.BuildThrows s.tick request
    rw [← hthrows]
    cases hrun : runBuild env s.tick request gen with
    | error e =>
      refine ⟨fun hno => ?_, fun hno => absurd ⟨e, rfl⟩ hno⟩
      have hzero : (Duty.ran (.error e)).count = 0 := rfl
      omega
    | ok o =>
      refine ⟨?_, fun _ => ?_⟩
      · rintro - ⟨e, he⟩
        cases he
      show _ = s.stats.activeBuilds + (if o.succeeded then Duty.tally else .built).count
      split <;> rfl
  | bump f =>
    refine ⟨fun _ hno => hno, fun _ => ?_⟩
    show (f s.stats).gauges.1 + _ = _
    cases d with
    | built =>
      obtain rfl : f = Stats.buildOver := hok
      have hone : 1 ≤ s.stats.activeBuilds := hcount
      show s.stats.activeBuilds - 1 + 1 = s.stats.activeBuilds + 0
      omega
    | _ =>
      have hsame : (f s.stats).gauges = s.stats.gauges := hok s.stats
      rw [hsame]
      rfl
  | resetStats => exact absurd rfl hreset
  | grantLease p pin =>
    refine ⟨fun _ hno => hno, fun _ => ?_⟩
    rw [Duty.next_other (fun _ => Step.noConfusion) (fun _ _ => Step.noConfusion)
      fun _ => Step.noConfusion]
    simp only [Step.gaugesAfter]
    split <;> rfl
  | _ =>
    refine ⟨fun _ hno => hno, fun _ => ?_⟩
    rw [Duty.next_other (fun _ => Step.noConfusion) (fun _ _ => Step.noConfusion)
      fun _ => Step.noConfusion]
    rfl

end KernelCache
