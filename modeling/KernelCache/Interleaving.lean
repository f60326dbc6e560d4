/-
# KernelCache.Interleaving — what the operations guarantee about the sections they take.

The walk over all operation programs, for any guarantee `G` and step condition `C`
(`operation_free`): it is enough that `G` holds of every section with proper arguments and that
eviction is verified on its own.  Instantiated at `Step.Proper` it says that every section of every
run, interleaved or sequential, has proper arguments, so the facts of `Evolution` apply to it
(`runs_proper`, `Runs` of the cache from a fresh start; `Sequence` for one operation at a time).
-/
import KernelCache.Lookup
import KernelCache.Walk

namespace KernelCache

open Foundation (Bytes Prog Runs Pool Event Stable)
open Foundation.Prog (sect perform Free Sat)

/-- The sections that only a build takes, besides those of the single-flight protocol. -/
def Step.isBuild : Step → Bool
  | .runBuild _ _ | .publish _ _ | .persist _ | .markPersisted _ | .persistFailed | .await _
  | .findBuilt _ _ => true
  | _ => false

/-- All but the sections of builds, and the two sections that act on a record an earlier section of
the same eviction has checked. -/
def Step.isPlain : Step → Bool
  | .evictUnload _ | .evictCommit _ => false
  | l => !l.isFence && !l.isBuild

section Guarantees

variable {env : Env} {C G : Step → Impl → Impl → Prop}

/-- The guarantee holds of every plain section with proper arguments. -/
def Covers (env : Env) (C G : Step → Impl → Impl → Prop) : Prop :=
  ∀ l s s', exec env l s = some s' → C l s s' → l.Proper → l.isPlain = true → G l s s'

/-- The guarantee holds of the sections of builds with proper arguments. -/
def CoversBuilds (env : Env) (C G : Step → Impl → Impl → Prop) : Prop :=
  ∀ l s s', exec env l s = some s' → C l s s' → l.Proper → l.isBuild = true → G l s s'

/-- The guarantee holds of the sections of an owner. -/
def CoversFences (env : Env) (C G : Step → Impl → Impl → Prop) : Prop :=
  ∀ l s s', exec env l s = some s' → C l s s' → l.isFence = true → (∀ digest, l ≠ .join digest) →
    G l s s'

/-- The guarantee holds of joining for one digest. -/
def CoversJoin (env : Env) (C G : Step → Impl → Impl → Prop) (digest : Sha256Digest) : Prop :=
  ∀ s s', exec env (.join digest) s = some s' → C (.join digest) s s' → G (.join digest) s s'

/-- Every eviction is verified. -/
def EvictsFree (env : Env) (C G : Step → Impl → Impl → Prop) : Prop :=
  ∀ id force, (evictImpl env id force).Free (exec env) C G

/-- A program keeps the guarantee and returns only values with `Q`. -/
abbrev Guaranteed (env : Env) (C G : Step → Impl → Impl → Prop) (α : Type) (Q : α → Prop)
    (p : Op α) : Prop :=
  p.Sat (exec env) C G (fun a _ => Q a) (fun _ => True)

/-- What no step can break is carried past a guaranteed program. -/
theorem Guaranteed.carry {α : Type} {Q : α → Prop} {p : Op α} {R : Impl → Prop}
    (hR : Stable (exec env) C R) (h : Guaranteed env C G α Q p) :
    p.Sat (exec env) C G (fun a s => Q a ∧ R s) R :=
  (Sat.frame hR h).weaken (fun _ hs => ⟨trivial, hs⟩) fun _ _ h => h

/-- Guarantees can be walked. -/
theorem walk_guaranteed {K : Stage → Prop}
    (hK : ∀ l s s', exec env l s = some s' → C l s s' → l.Proper → K l.stage → G l s s') :
    Walk (Guaranteed env C G) K where
  ret ha := Sat.ret fun _ _ => ha
  bind hp hg := Sat.bind hp fun a => Sat.assume (hg a)
  sect hstage hl hQ := Sat.sect (fun _ => Stable.const _ _ _) fun s s' _ h hC =>
    ⟨hK _ s s' h hC hl.proper hstage, hQ s⟩
  buildOver hplain _ := Free.sect fun s s' h hC => hK _ s s' h hC trivial hplain

/-- The stages of the plain sections. -/
def Stage.isPlain : Stage → Prop
  | .plain | .reload | .load | .unload | .validate | .lease | .release | .put | .recover => True
  | _ => False

theorem Step.isPlain_of_stage {l : Step} (h : l.stage.isPlain) : l.isPlain = true := by
  cases l <;> first | rfl | exact h.elim

theorem Step.isBuild_of_stage {l : Step} (h : l.stage = .build) : l.isBuild = true := by
  cases l <;> first | rfl | cases h

theorem Covers.walk (hG : Covers env C G) : Walk (Guaranteed env C G) Stage.isPlain :=
  walk_guaranteed fun l s s' h hC hl hstage => hG l s s' h hC hl (Step.isPlain_of_stage hstage)

theorem Covers.walkBuilds (hG : Covers env C G) (hB : CoversBuilds env C G) :
    Walk (Guaranteed env C G) (fun g => g.isPlain ∨ g = .build) :=
  walk_guaranteed fun l s s' h hC hl hstage => hstage.elim
    (fun hplain => hG l s s' h hC hl (Step.isPlain_of_stage hplain))
    fun hbuild => hB l s s' h hC hl (Step.isBuild_of_stage hbuild)

theorem CoversFences.perform (hF : CoversFences env C G) {l : Step} (hfence : l.isFence = true)
    (hjoin : ∀ digest, l ≠ .join digest) : (Prog.perform l).Free (exec env) C G :=
  Free.sect fun s s' h hC => hF l s s' h hC hfence hjoin

theorem persistOp_free (hG : Covers env C G) (hB : CoversBuilds env C G) {o : Outcome}
    (hs : o.succeeded = true) (hid : o.desc.id = o.id) : (persistOp env o).Free (exec env) C G :=
  (hG.walkBuilds hB).persistOp (.inl trivial) (.inr rfl) hs hid

theorem publishOp_free (hG : Covers env C G) (hB : CoversBuilds env C G) (fence : Nat) {o : Outcome}
    (hs : o.succeeded = true) (hid : o.desc.id = o.id) :
    (publishOp env fence o).Free (exec env) C G :=
  (hG.walkBuilds hB).publishOp (.inl trivial) (.inr rfl) fence hs hid

theorem buildImpl_free (hG : Covers env C G) (hB : CoversBuilds env C G)
    (hF : CoversFences env C G) {request : KernelLookupRequest}
    (hJ : CoversJoin env C G (buildDigest env request)) :
    (buildImpl env request).Free (exec env) C G := by
  refine (hG.walkBuilds hB).buildImpl (.inl trivial) (.inr rfl) (Free.sect hJ) ?_ ?_
  · exact fun fence o => hF.perform rfl fun _ => Step.noConfusion
  · exact fun fence digest => hF.perform rfl fun _ => Step.noConfusion

theorem promoteToTier_free (hG : Covers env C G) (hE : EvictsFree env C G) (p : Nat)
    (desired : ResidencyTier) (device : DeviceDescriptor) :
    (promoteToTier env p desired device).Free (exec env) C G :=
  hG.walk.promotes trivial trivial trivial hE p desired device

theorem leaseRecord_free (hG : Covers env C G) (hE : EvictsFree env C G)
    (request : KernelLookupRequest) (id : ArtifactId) (vanished : Str) :
    (leaseRecord env request id vanished).Free (exec env) C G :=
  hG.walk.leaseRecord trivial trivial (promoteToTier_free hG hE) request id vanished

theorem acquireImpl_free (hG : Covers env C G) (hB : CoversBuilds env C G)
    (hF : CoversFences env C G) (hE : EvictsFree env C G) {request : KernelLookupRequest}
    (hJ : CoversJoin env C G (buildDigest env { request with key := request.key.finalize })) :
    (acquireImpl env request).Free (exec env) C G :=
  hG.walk.acquireImpl trivial (buildImpl_free hG hB hF hJ) (leaseRecord_free hG hE)

theorem pieces_free (hG : Covers env C G) (hE : EvictsFree env C G) :
    Walk.Pieces env (Guaranteed env C G) where
  evict := hE
  load := hG.walk.loadOp trivial (promoteToTier_free hG hE)
  unload := hG.walk.unloadOp trivial trivial
  validate := hG.walk.validateOp trivial trivial
  put := hG.walk.putOp trivial
  release := hG.walk.releaseLease trivial
  recover := hG.walk.recoverImpl trivial trivial

/-- The operations that never build. -/
theorem operation_free_of_not_builds (hG : Covers env C G) (hE : EvictsFree env C G)
    {op : Operation} (hop : op.builds = false) : (op.prog env).Free (exec env) C G :=
  hG.walk.operation_of_not_builds trivial (pieces_free hG hE) hop

/-- **The walk for guarantees.** Every operation takes only guaranteed sections. -/
theorem operation_free (hG : Covers env C G) (hB : CoversBuilds env C G)
    (hF : CoversFences env C G) (hJ : ∀ digest, CoversJoin env C G digest)
    (hE : EvictsFree env C G) (op : Operation) : (op.prog env).Free (exec env) C G :=
  hG.walk.operation trivial (pieces_free hG hE) (fun _ => buildImpl_free hG hB hF (hJ _))
    (fun _ => acquireImpl_free hG hB hF hE (hJ _)) op

/-! ### Builds that carry something -/

/-- `run_build` has made the outcome for this generation. -/
structure Outcome.Made (env : Env) (gen : ArtifactGeneration) (o : Outcome) : Prop where
  ran : ∃ tick request, runBuild env tick request gen = .ok o
  succeeded : o.succeeded = true

theorem Outcome.Made.desc_id {gen : ArtifactGeneration} {o : Outcome} (h : o.Made env gen) :
    o.desc.id = o.id := by
  obtain ⟨tick, request, hrun⟩ := h.ran
  exact (runBuild_built hrun h.succeeded).desc_id

/-- What a registered builder has answered is what is published. -/
theorem Outcome.Made.from_builder {gen : ArtifactGeneration} {o : Outcome} (h : o.Made env gen) :
    ∃ backend ∈ env.backends, ∃ builder, backend.builder = some builder ∧
      ∃ tick br res vd, builder.build tick br = .ok res ∧
        o.desc = builtDescriptor env tick br res vd gen ∧ o.bytes = res.bytes := by
  obtain ⟨⟨tick, request, hrun⟩, hs⟩ := h
  simp only [runBuild] at hrun
  split at hrun
  · cases hrun
    cases hs
  · rename_i backend hfound
    split at hrun
    · rename_i builder validator loader hbuilder _ _
      split at hrun
      · cases hrun
      · cases hrun
        cases hs
      · rename_i res hbuilt
        obtain ⟨vd, -, hdesc, hbytes, -⟩ := validateBuilt_succeeded hrun hs
        exact ⟨backend, findBackend_mem hfound, builder, hbuilder, tick, _, res, vd, hbuilt, hdesc,
          hbytes⟩
    · cases hrun
      cases hs

/-- The sections of a build between which something is carried. -/
def Step.isHandover : Step → Bool
  | .join _ | .publish _ _ | .persist _ => true
  | _ => false

/-- A build whose owner knows `A` of its generation from joining on, and `B` of its outcome once it
has published it as a new record. -/
structure BuildsWith (env : Env) (C G : Step → Impl → Impl → Prop)
    (A : ArtifactGeneration → Impl → Prop) (B : Outcome → Impl → Prop) : Prop where
  stable : ∀ gen, Stable (exec env) C (A gen)
  stable_published : ∀ o, Stable (exec env) C (B o)
  join : ∀ digest s s', exec env (.join digest) s = some s' → C (.join digest) s s' →
    G (.join digest) s s' ∧ ∀ fence gen, (s.join digest).1 = .owner fence gen → A gen s'
  publish : ∀ fence gen o s s', o.Made env gen → A gen s →
    exec env (.publish fence o) s = some s' → C (.publish fence o) s s' →
    G (.publish fence o) s s' ∧ ((s.publish env o).1 = true → B o s')
  persist : ∀ o s s', B o s → exec env (.persist o) s = some s' → C (.persist o) s s' →
    G (.persist o) s s'
  other : ∀ l s s', exec env l s = some s' → C l s s' → l.isHandover = false → l.Proper →
    l.stage = .plain ∨ l.stage = .fence ∨ l.stage = .build → G l s s'

namespace BuildsWith

variable {A : ArtifactGeneration → Impl → Prop} {B : Outcome → Impl → Prop}

/-- One section that hands nothing over, beside what is carried. -/
theorem sect {α : Type} (h : BuildsWith env C G A B) {R : Impl → Prop} (hR : Stable (exec env) C R)
    {l : Step} {read : Impl → α} (hl : l.isHandover = false) (hproper : l.Proper)
    (hstage : l.stage = .plain ∨ l.stage = .fence ∨ l.stage = .build) :
    (Prog.sect l read).Sat (exec env) C G (fun a s => (∃ s₀, a = read s₀) ∧ R s) R :=
  Sat.sect (fun _ => (Stable.const _ _ _).and hR) fun s s' hs hexec hC =>
    ⟨h.other l s s' hexec hC hl hproper hstage, ⟨s, rfl⟩, hR l s s' hs hexec hC⟩

theorem perform (h : BuildsWith env C G A B) {R : Impl → Prop} (hR : Stable (exec env) C R)
    {l : Step} (hl : l.isHandover = false) (hproper : l.Proper)
    (hstage : l.stage = .plain ∨ l.stage = .fence ∨ l.stage = .build) :
    (Prog.perform l).Sat (exec env) C G (fun _ s => R s) R :=
  (h.sect hR hl hproper hstage).weaken (fun _ hs => hs) fun _ _ hs => hs.2

theorem persistOp (h : BuildsWith env C G A B) (o : Outcome) :
    (persistOp env o).Sat (exec env) C G (fun _ _ => True) (B o) := by
  have hend := Stable.const (exec env) C True
  unfold KernelCache.persistOp
  refine Sat.bind (Q := fun _ _ => True) (Sat.sect (fun _ => hend) ?_) fun res => ?_
  · exact fun s s' hs hexec hC => ⟨h.persist o s s' hs hexec hC, trivial⟩
  · cases res with
    | ok _ => exact h.perform hend rfl trivial (.inr (.inr rfl))
    | error e =>
      refine Sat.bind (h.perform hend rfl trivial (.inr (.inr rfl))) fun _ => ?_
      exact h.perform hend rfl trivial (.inl rfl)

theorem publishOp (h : BuildsWith env C G A B) (fence : Nat) {gen : ArtifactGeneration} {o : Outcome}
    (ho : o.Made env gen) :
    (publishOp env fence o).Sat (exec env) C G (fun _ _ => True) (A gen) := by
  unfold KernelCache.publishOp
  refine Sat.bind (h.perform (h.stable gen) rfl trivial (.inl rfl)) fun _ => ?_
  refine Sat.bind (Q := fun newRecord s => newRecord = true → B o s) (Sat.sect ?_ ?_)
    fun newRecord => ?_
  · exact fun newRecord l s s' hs hexec hC hnew =>
      h.stable_published o l s s' (hs hnew) hexec hC
  · exact fun s s' hs hexec hC => h.publish fence gen o s s' ho hs hexec hC
  · split
    · rename_i hnew
      rw [Bool.and_eq_true] at hnew
      exact Sat.bind ((h.persistOp o).weaken (fun s hs => hs hnew.1) fun _ _ h => h)
        fun _ => Sat.ret fun _ _ => trivial
    · exact Sat.ret fun _ _ => trivial

theorem finishBuild (h : BuildsWith env C G A B) (digest : Sha256Digest) (fence : Nat)
    {gen : ArtifactGeneration} {o : Outcome} (ho : o.succeeded = true → o.Made env gen) :
    (finishBuild env digest fence o).Sat (exec env) C G (fun _ _ => True) (A gen) := by
  have hkept := h.stable gen
  unfold KernelCache.finishBuild
  refine Sat.bind (h.perform hkept rfl trivial (.inl rfl)) fun _ => ?_
  refine Sat.bind (h.perform hkept rfl trivial (.inr (.inl rfl))) fun _ => ?_
  refine Sat.bind (h.perform hkept rfl trivial (.inr (.inl rfl))) fun _ => ?_
  split
  · refine Sat.bind (h.perform hkept rfl trivial (.inl rfl)) fun _ => ?_
    refine Sat.bind (h.perform hkept rfl trivial (.inl rfl)) fun _ => ?_
    exact Sat.ret fun _ _ => trivial
  · rename_i hs
    exact h.publishOp fence (ho (by simpa using hs))

theorem runBuildOp (h : BuildsWith env C G A B) (request : KernelLookupRequest)
    (gen : ArtifactGeneration) :
    (runBuildOp env request gen).Sat (exec env) C G
      (fun res s => (∃ tick, res = runBuild env tick request gen) ∧ A gen s) (A gen) := by
  have hkept := h.stable gen
  unfold KernelCache.runBuildOp
  refine Sat.bind (Q := fun res s => (∃ tick, res = runBuild env tick request gen) ∧ A gen s)
    ((h.sect (l := .runBuild request gen) hkept rfl trivial (.inr (.inr rfl))).weaken
      (fun _ hs => hs) ?_) fun res => ?_
  · rintro res s ⟨⟨s₀, rfl⟩, hs⟩
    exact ⟨⟨s₀.tick, rfl⟩, hs⟩
  · have hboth : Stable (exec env) C
        (fun s => (∃ tick, res = runBuild env tick request gen) ∧ A gen s) :=
      (Stable.const _ _ _).and hkept
    cases res with
    | error e => exact Sat.ret fun _ hs => hs
    | ok o =>
      dsimp only
      split
      · refine Sat.bind (h.perform hboth rfl trivial (.inl rfl)) fun _ => ?_
        refine Sat.bind (h.perform hboth rfl trivial (.inl rfl)) fun _ => ?_
        exact Sat.ret fun _ hs => hs
      · exact Sat.ret fun _ hs => hs

/-- **A build that carries something** takes only guaranteed sections. -/
theorem buildImpl (h : BuildsWith env C G A B) (request : KernelLookupRequest) :
    (buildImpl env request).Free (exec env) C G := by
  have hend := Stable.const (exec env) C True
  unfold KernelCache.buildImpl
  refine Sat.bind (Q := fun joined s => ∀ fence gen, joined = .owner fence gen → A gen s)
    (Sat.sect ?_ ?_) fun joined => ?_
  · exact fun joined l s s' hs hexec hC fence gen heq =>
      h.stable gen l s s' (hs fence gen heq) hexec hC
  · exact fun s s' _ hexec hC => h.join _ s s' hexec hC
  · cases joined with
    | waiter fence =>
      show (buildWaiter fence).Sat _ _ _ _ _
      unfold buildWaiter
      refine Sat.bind ((h.sect (l := .await fence) hend rfl trivial (.inr (.inr rfl))).weaken
        (fun _ _ => trivial) fun _ _ hs => hs) fun o => ?_
      split
      · exact Sat.ret fun _ _ => trivial
      · exact (h.sect (l := .findBuilt fence o) hend rfl trivial (.inr (.inr rfl))).weaken
          (fun _ _ => trivial) fun _ _ _ => trivial
    | owner fence gen =>
      show (buildOwner env _ _ fence gen).Sat _ _ _ _ _
      unfold buildOwner
      refine Sat.bind ((h.runBuildOp _ gen).weaken (fun s hs => hs fence gen rfl)
        fun _ _ hs => hs) fun res => ?_
      cases res with
      | error e => exact Sat.ret fun _ _ => trivial
      | ok o =>
        refine Sat.given fun ⟨tick, hran⟩ => ?_
        exact h.finishBuild _ fence fun hs => ⟨⟨tick, _, hran.symm⟩, hs⟩

end BuildsWith

/-- All but the stages of builds. -/
def Stage.noBuild : Stage → Prop
  | .build | .fence => False
  | _ => True

/-- **The walk around the builds.** Every operation takes only guaranteed sections when a build does
and the sections of all other stages are. -/
theorem operation_free_of_builds (w : Walk (Guaranteed env C G) Stage.noBuild)
    (hbuild : ∀ request, (buildImpl env request).Free (exec env) C G) (op : Operation) :
    (op.prog env).Free (exec env) C G := by
  have hevict : ∀ id force, (evictImpl env id force).Free (exec env) C G :=
    w.evictImpl trivial trivial
  have hpromote : ∀ p desired device, (promoteToTier env p desired device).Free (exec env) C G :=
    w.promotes trivial trivial trivial hevict
  have hpieces : Walk.Pieces env (Guaranteed env C G) :=
    { evict := hevict
      load := w.loadOp trivial hpromote
      unload := w.unloadOp trivial trivial
      validate := w.validateOp trivial trivial
      put := w.putOp trivial
      release := w.releaseLease trivial
      recover := w.recoverImpl trivial trivial }
  exact w.operation trivial hpieces hbuild
    (fun _ => w.acquireImpl trivial (hbuild _) (w.leaseRecord trivial trivial hpromote)) op

end Guarantees

/-! ## Runs of the cache -/

/-- The programs a thread may run: the public operations. -/
def IsOperation (env : Env) (p : Op Answer) : Prop := ∃ op : Operation, p = op.prog env

/-- Interleaved runs of a fresh cache on a store. -/
abbrev CacheRuns (env : Env) (store : FilePersistenceStore) (tr : List (Event Step Impl))
    (pool : Pool Step Impl Answer) : Prop :=
  Runs (exec env) (IsOperation env) ⟨Impl.initial store, []⟩ tr pool

/-- What a scheduler of the cache can do: start an operation in a new thread, or let a thread take
its next section. -/
inductive Move where
  | start (op : Operation)
  | step (thread : Nat)

def Move.sched (env : Env) : Move → Foundation.Sched Step Impl Answer
  | start op => .spawn (op.prog env)
  | step thread => .step thread

/-- Follow a list of moves from a fresh cache. -/
def play (env : Env) (store : FilePersistenceStore) (moves : List Move) :
    Option (List (Event Step Impl) × Pool Step Impl Answer) :=
  Pool.follow (exec env) ⟨Impl.initial store, []⟩ (moves.map (Move.sched env))

/-- Moves that can be followed are a run of the cache. -/
theorem CacheRuns.of_play {env : Env} {store : FilePersistenceStore} {moves : List Move}
    {tr : List (Event Step Impl)} {pool : Pool Step Impl Answer}
    (h : play env store moves = some (tr, pool)) : CacheRuns env store tr pool := by
  refine Runs.of_follow (fun q hq => ?_) h
  obtain ⟨m, -, hm⟩ := List.mem_map.mp hq
  cases m with
  | start op =>
    cases hm
    exact ⟨op, rfl⟩
  | step thread => cases hm

theorem covers_proper (env : Env) : Covers env (fun _ _ _ => True) (fun l _ _ => l.Proper) :=
  fun _ _ _ _ _ hl _ => hl

theorem coversBuilds_proper (env : Env) :
    CoversBuilds env (fun _ _ _ => True) (fun l _ _ => l.Proper) :=
  fun _ _ _ _ _ hl _ => hl

theorem coversFences_proper (env : Env) :
    CoversFences env (fun _ _ _ => True) (fun l _ _ => l.Proper) := by
  intro l s s' _ _ hfence hjoin
  cases l with
  | join digest => exact absurd rfl (hjoin digest)
  | fulfil fence o => exact trivial
  | eraseFence fence digest => exact trivial
  | _ => cases hfence

theorem coversJoin_proper (env : Env) (digest : Sha256Digest) :
    CoversJoin env (fun _ _ _ => True) (fun l _ _ => l.Proper) digest :=
  fun _ _ _ _ => trivial

/-- Eviction, when the guarantee holds of every section but those of builds. -/
theorem evictsFree_of_covers {env : Env} {C G : Step → Impl → Impl → Prop}
    (hG : ∀ l s s', exec env l s = some s' → C l s s' → l.Proper → l.isFence = false →
      l.isBuild = false → G l s s') : EvictsFree env C G := by
  have w : Walk (Guaranteed env C G) (fun g => g ≠ .fence ∧ g ≠ .build) := by
    refine walk_guaranteed fun l s s' h hC hl hstage => hG l s s' h hC hl ?_ ?_
    · cases l <;> first | rfl | exact absurd rfl hstage.1
    · cases l <;> first | rfl | exact absurd rfl hstage.2
  exact w.evictImpl ⟨by decide, by decide⟩ ⟨by decide, by decide⟩

theorem operation_proper (env : Env) (op : Operation) :
    (op.prog env).Free (exec env) (fun _ _ _ => True) (fun l _ _ => l.Proper) :=
  operation_free (covers_proper env) (coversBuilds_proper env) (coversFences_proper env)
    (coversJoin_proper env) (evictsFree_of_covers fun _ _ _ _ _ hl _ _ => hl) op

/-- The sections have proper arguments. -/
abbrev ProperSteps (l : Step) (_ _ : Impl) : Prop := l.Proper

/-- **Proper arguments, every run.** -/
theorem runs_proper {env : Env} {store : FilePersistenceStore} {tr : List (Event Step Impl)}
    {pool : Pool Step Impl Answer} (h : CacheRuns env store tr pool) : ∀ e ∈ tr, e.label.Proper := by
  refine Runs.guarantee (C := fun _ _ _ => True) (G := fun l _ _ => l.Proper) ?_ h
    fun _ _ => trivial
  rintro p ⟨op, rfl⟩
  exact operation_proper env op

/-- **Soundness, every run.** -/
theorem runs_sound {env : Env} {store : FilePersistenceStore} {tr : List (Event Step Impl)}
    {pool : Pool Step Impl Answer} (h : CacheRuns env store tr pool) :
    (∀ e ∈ tr, e.before.Sound ∧ e.after.Sound) ∧ pool.shared.Sound := by
  refine Runs.invariant (Impl.initial_sound store) h fun e he hs => ?_
  exact exec_sound (h.event_step e he) (runs_proper h e he) hs

/-! ## Evictions in progress -/

/-- The later sections of an eviction act on a record of which `A` holds. -/
def Step.EvictsWith (A : Nat → Impl → Prop) (l : Step) (s : Impl) : Prop :=
  match l with
  | .evictUnload p | .evictCommit p => A p s
  | _ => True

theorem evictImpl_evictsWith {env : Env} {C : Step → Impl → Impl → Prop} {A : Nat → Impl → Prop}
    (hstable : ∀ p, Stable (exec env) C (A p))
    (hbegin : ∀ id force s s' p, exec env (.evictBegin id force) s = some s' →
      C (.evictBegin id force) s s' → (s.evictBegin id force).1 = .ok p → A p s') :
    EvictsFree env C (fun l s _ => l.EvictsWith A s) := by
  intro id force
  unfold evictImpl
  refine Sat.bind (Q := fun res s => ∀ p, res = .ok p → A p s) (Sat.sect ?_ ?_) fun res => ?_
  · intro res l s s' hP h hC p hp
    exact hstable p l s s' (hP p hp) h hC
  · intro s s' _ h hC
    exact ⟨trivial, fun p hp => hbegin id force s s' p h hC hp⟩
  · cases res with
    | error e => exact Sat.ret fun _ _ => trivial
    | ok p =>
      refine Sat.weaken (P := A p) (Q := fun _ _ => True) ?_ (fun s hs => hs p rfl)
        fun _ _ _ => trivial
      refine Sat.bind (Q := fun _ => A p) (Sat.sect (fun _ => hstable p) ?_) fun unloaded => ?_
      · exact fun s s' hA h hC => ⟨hA, hstable p _ s s' hA h hC⟩
      · split
        · exact Sat.ret fun _ _ => trivial
        · refine Sat.bind (Q := fun _ _ => True)
            (Sat.sect (fun _ => Stable.const _ _ True) fun s s' hA _ _ => ⟨hA, trivial⟩) fun _ => ?_
          exact Free.bind (Free.sect fun _ _ _ _ => trivial) fun _ => Free.ret _

/-- **Evictions carry what they checked.** What an eviction establishes when it begins, and no step
of the run can break, holds when it unloads and when it commits. -/
theorem runs_evictions {env : Env} {store : FilePersistenceStore} {tr : List (Event Step Impl)}
    {pool : Pool Step Impl Answer} {C : Step → Impl → Impl → Prop} {A : Nat → Impl → Prop}
    (hstable : ∀ p, Stable (exec env) C (A p))
    (hbegin : ∀ id force s s' p, exec env (.evictBegin id force) s = some s' →
      C (.evictBegin id force) s s' → (s.evictBegin id force).1 = .ok p → A p s')
    (h : CacheRuns env store tr pool) (hC : ∀ e ∈ tr, C e.label e.before e.after) :
    ∀ e ∈ tr, e.label.EvictsWith A e.before := by
  refine Runs.guarantee (G := fun l s _ => l.EvictsWith A s) (fun q hq => ?_) h hC
  obtain ⟨op, rfl⟩ := hq
  refine operation_free ?_ ?_ ?_ (fun _ _ _ _ _ => trivial) (evictImpl_evictsWith hstable hbegin) op
  · intro l s s' _ _ _ hplain
    cases l with
    | evictUnload p => cases hplain
    | evictCommit p => cases hplain
    | _ => exact trivial
  · intro l s s' _ _ _ hbuild
    cases l with
    | evictUnload p => cases hbuild
    | evictCommit p => cases hbuild
    | _ => exact trivial
  · intro l s s' _ _ hfence _
    cases l with
    | evictUnload p => cases hfence
    | evictCommit p => cases hfence
    | _ => exact trivial

end KernelCache
