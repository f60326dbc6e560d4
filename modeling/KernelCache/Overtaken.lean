/-
# KernelCache.Overtaken — builds that an invalidation overtakes.

`invalidate_impl` scans the records that are published.  A build in flight has none: its fence carries
an attempt and a generation, but nothing compares them with anything when the artifact is published, and
the record goes into the index `Valid`.  So an invalidation that commits between the join of the owner
and its publication takes the artifact out of service only if the id was in the index already
(`not_served_of_struck`).  Otherwise the artifact is served afterwards: whatever other records answer
the same key, they can be invalidated one by one, and the next lookup names the new one
(`served_of_published`).  `overtaken_iff` puts the two together.
-/
import KernelCache.Agreement
import KernelCache.Index
import KernelCache.Poison
import KernelCache.Records
import KernelCache.Restart

namespace KernelCache

open Foundation (Bytes Prog Runs Pool Event Stable pathOf)
open Foundation.Prog (sect perform)

/-! ## What a lookup has done when it answers -/

section Lookups

variable {env : Env} {store : FilePersistenceStore} {tr tr' : List (Event Step Impl)}
  {pool pool' : Pool Step Impl Answer}

/-- Only the operation `lookup` answers with a lookup result. -/
theorem operation_text (op : Operation) (hop : ∀ request, op ≠ .lookup request) :
    (op.prog env).Text (fun _ => True) (fun a => ∀ r, a ≠ .lookup r) := by
  have hwrap : ∀ {α : Type} (p : Op (Result α)) (wrap : α → Answer),
      (∀ a r, wrap a ≠ .lookup r) →
      (p.bind fun res => .ret (answer wrap res)).Text (fun _ => True) (fun a => ∀ r, a ≠ .lookup r) := by
    intro α p wrap hne
    refine p.text_true.bind fun res _ r => ?_
    cases res with
    | ok a => exact hne a r
    | error e => exact Answer.noConfusion
  have hdone : ∀ p : Op Unit,
      (p.bind fun _ => .ret Answer.done).Text (fun _ => True) (fun a => ∀ r, a ≠ .lookup r) :=
    fun p => p.text_true.bind fun _ _ _ => Answer.noConfusion
  cases op with
  | lookup request => exact absurd rfl (hop request)
  | release lease => exact hdone _
  | rollCacheGeneration => exact hdone _
  | resetStats => exact hdone _
  | _ => exact hwrap _ _ fun _ _ => Answer.noConfusion

/-- **Answers of lookups.** The sections of a lookup that has answered, and the snapshot it decided
on. -/
theorem runs_looked (h : CacheRuns env store tr pool) {j : Nat} {r : KernelLookupResult}
    (hj : pool.threads[j]? = some (.ret (.lookup r))) :
    ∃ key policy s₁ s₂ s₃, r = s₁.lookup key policy ∧
      pathOf tr j = [(.collect key, s₁), (.bump r.outcome.count, s₂), (.recordEvent, s₃)] := by
  obtain ⟨p, ⟨op, rfl⟩, hleads⟩ := h.leads hj
  by_cases hop : ∃ request, op = .lookup request
  · obtain ⟨request, rfl⟩ := hop
    change ((lookupImpl request).bind fun res => .ret (answer .lookup res)).Leads _ _ at hleads
    by_cases hfin : request.key.finalize.finalized = true
    · obtain ⟨s₁, s₂, s₃, rest, hpath, hrest⟩ := lookupImpl_leads hfin hleads
      cases hrest
      exact ⟨_, request.policy, s₁, s₂, s₃, rfl, hpath⟩
    · unfold lookupImpl at hleads
      dsimp only at hleads
      rw [if_pos (by simpa using hfin)] at hleads
      cases hleads.of_ret
  · exact absurd rfl ((hleads.of_text (operation_text op fun request heq => hop ⟨request, heq⟩)).2 r)

/-- A thread that was not there yet has taken no section. -/
theorem pathOf_of_length_le (h : CacheRuns env store tr pool) {j : Nat}
    (hj : pool.threads.length ≤ j) : pathOf tr j = [] := by
  cases hpath : pathOf tr j with
  | nil => rfl
  | cons x path =>
    obtain ⟨e, he, rfl, -⟩ := Foundation.exists_of_mem_pathOf (hpath ▸ List.mem_cons_self ..)
    have hlt := h.thread_lt e he
    omega

end Lookups

/-! ## What a build publishes -/

section Published

variable {env : Env} {store : FilePersistenceStore} {tr : List (Event Step Impl)}
  {pool : Pool Step Impl Answer}

/-- A publishing section publishes what `run_build` has made. -/
def Step.PublishesMade (env : Env) : Step → Prop
  | .publish _ o => ∃ gen, o.Made env gen
  | _ => True

theorem walk_publishesMade : Walk
    (Guaranteed env (fun _ _ _ => True) (fun l _ _ => l.PublishesMade env)) Stage.noBuild := by
  refine walk_guaranteed fun l s s' _ _ _ hstage => ?_
  cases l with
  | publish fence o => exact hstage.elim
  | _ => exact trivial

theorem builds_publishMade : BuildsWith env (fun _ _ _ => True) (fun l _ _ => l.PublishesMade env)
    (fun _ _ => True) (fun _ _ => True) where
  stable _ := Stable.const _ _ _
  stable_published _ := Stable.const _ _ _
  join _ _ _ _ _ := ⟨trivial, fun _ _ _ => trivial⟩
  publish _ gen _ _ _ ho _ _ _ := ⟨⟨gen, ho⟩, fun _ => trivial⟩
  persist _ _ _ _ _ _ := trivial
  other l _ _ _ _ hl _ _ := by
    cases l with
    | publish fence o => cases hl
    | _ => exact trivial

theorem runs_publishesMade (h : CacheRuns env store tr pool) :
    ∀ e ∈ tr, e.label.PublishesMade env := by
  refine Runs.guarantee (C := fun _ _ _ => True) (G := fun l _ _ => l.PublishesMade env) ?_ h
    fun _ _ => trivial
  rintro p ⟨op, rfl⟩
  exact operation_free_of_builds walk_publishesMade builds_publishMade.buildImpl op

theorem Outcome.Made.validated {gen : ArtifactGeneration} {o : Outcome} (h : o.Made env gen) :
    o.desc.validation.allPassed = true := by
  obtain ⟨tick, request, hrun⟩ := h.ran
  exact (runBuild_built hrun h.succeeded).validated

/-- A build names its artifact by a key that has been through `finalize()`. -/
theorem Outcome.Made.key_finalize {gen : ArtifactGeneration} {o : Outcome} (h : o.Made env gen) :
    o.desc.key.finalize = o.desc.key := by
  obtain ⟨tick, request, hrun⟩ := h.ran
  rw [(runBuild_built hrun h.succeeded).desc_key, KernelCompatibilityKey.finalize_finalize]

/-- A record that a build has just published is healthy, and filed under the key of the build. -/
theorem exec_publish_healthy {fence : Nat} {o : Outcome} {gen : ArtifactGeneration} {s s' : Impl}
    (h : exec env (.publish fence o) s = some s') (ho : o.Made env gen)
    (hfree : s.byId.lookup o.id = none) :
    (s'.snapshotOf s.nextRecord).healthy = true ∧
      (s'.records s.nextRecord).key = o.desc.key := by
  obtain ⟨-, -, hrec⟩ := exec_publish_new h ho.desc_id hfree
  refine ⟨?_, ?_⟩
  · rw [Impl.healthy_iff, hrec]
    exact ⟨rfl, ho.validated⟩
  · rw [hrec, ← ho.key_finalize]
    exact KernelCompatibilityKey.ensureFinalized_finalize _

end Published

/-! ## All other records struck -/

section Strikes

variable {env : Env} {store : FilePersistenceStore} {tr : List (Event Step Impl)}
  {pool : Pool Step Impl Answer}

/-- The invalidation of one artifact. -/
def invalidationOf (id : ArtifactId) : InvalidationRequest :=
  { target := .artifactId
    artifactHi := some id.toStrongId128.hi
    artifactLo := some id.toStrongId128.lo }

theorem invalidationOf_selects (id id' : ArtifactId) (r : ArtifactRecord) :
    (invalidationOf id).selects id' r = true ↔ id' = id := beq_iff_eq

/-- An invalidation that runs alone. -/
theorem invalidate_traced (env : Env) (i : Nat) {s : Impl} (req : InvalidationRequest)
    (hfree : s.statsHeld = false) : ∃ a s₁ s', exec env (.invalidate req) s = some s₁ ∧
      ((Operation.invalidate req).prog env).traced (exec env) i s =
        some ([⟨i, .invalidate req, s, s₁⟩, ⟨i, .recordEvent, s₁, s'⟩], a, s') ∧
      s'.statsHeld = false ∧ s.SameIndex s' ∧ s.SameFences s' ∧ s'.records = s₁.records := by
  obtain ⟨s₁, hs₁⟩ : ∃ s₁ : Impl, s₁ = { (s.invalidate env req).2 with tick := s.tick + 1 } :=
    ⟨_, rfl⟩
  have hexec : exec env (.invalidate req) s = some s₁ :=
    exec_eq_some.mpr ⟨by simp only [Step.ready, hfree, Bool.not_false], hs₁⟩
  have hfree₁ : s₁.statsHeld = false := by
    rw [hs₁]
    exact (s.invalidate_statsHeld env req).trans hfree
  have hrecord : exec env .recordEvent s₁ = some { s₁ with tick := s₁.tick + 1 } :=
    exec_eq_some.mpr ⟨by simp only [Step.ready, hfree₁, Bool.not_false], rfl⟩
  have hindex := exec_sameIndex hexec rfl
  have hfences := exec_sameFences hexec trivial rfl
  refine ⟨.outcomes (s.invalidate env req).1, s₁, { s₁ with tick := s₁.tick + 1 }, hexec, ?_, hfree₁,
    ⟨hindex.nextRecord, hindex.byId, hindex.byKey, hindex.byOperation⟩,
    ⟨hfences.inFlight, hfences.fences, hfences.nextFence, hfences.nextGeneration⟩, rfl⟩
  simp only [Operation.prog, invalidateImpl, Prog.bind_eq, sect, perform, Prog.bind, Prog.traced,
    hexec, hrecord, Prog.pure_eq, Option.map_some]
  rfl

/-- What is invalidated stays so when it is struck. -/
theorem ArtifactRecord.struck_invalidated (r : ArtifactRecord) : r.struck.invalidated = true := by
  unfold ArtifactRecord.struck
  split
  · assumption
  · rfl

/-- As long as `stats_mtx_` is free, all records but one can be invalidated, one after the other. -/
theorem others_struck (h : CacheRuns env store tr pool) (hfree : pool.shared.statsHeld = false)
    {p : Nat} (hp : p < pool.shared.nextRecord) {n : Nat} (hn : n ≤ pool.shared.nextRecord) :
    ∃ tr' pool', Continues env pool tr' pool' ∧ pool'.shared.statsHeld = false ∧
      pool.shared.SameIndex pool'.shared ∧ pool'.shared.records p = pool.shared.records p ∧
      ∀ q < n, q ≠ p → (pool'.shared.records q).invalidated = true := by
  induction n with
  | zero =>
    exact ⟨[], pool, .refl, hfree, ⟨rfl, rfl, rfl, rfl⟩, rfl, fun q hq => absurd hq (Nat.not_lt_zero q)⟩
  | succ n ih =>
    obtain ⟨tr₁, pool₁, h₁, hfree₁, hindex₁, hrec₁, hall₁⟩ := ih (by omega)
    have hs₁ := (runs_sound (h.trans h₁)).2
    have hnext := hindex₁.nextRecord
    by_cases hnp : n = p
    · refine ⟨tr₁, pool₁, h₁, hfree₁, hindex₁, hrec₁, fun q hq hqp => hall₁ q ?_ hqp⟩
      omega
    · -- strike the record `n`
      obtain ⟨a, s₁, s₂, hexec, htraced, hfree₂, hindex₂, -, hrecs⟩ :=
        invalidate_traced env pool₁.threads.length
          (invalidationOf (pool₁.shared.records n).id) hfree₁
      have hstruck : ∀ q < pool₁.shared.nextRecord, s₂.records q =
          if q = n then (pool₁.shared.records q).struck else pool₁.shared.records q := by
        intro q hq
        rw [hrecs, exec_invalidate hexec hs₁ hq]
        have hiff : (invalidationOf (pool₁.shared.records n).id).selects (pool₁.shared.records q).id
            (pool₁.shared.records q) = true ↔ q = n := by
          rw [invalidationOf_selects]
          refine ⟨fun heq => ?_, fun heq => heq ▸ rfl⟩
          have hq' := hs₁.indexed q hq
          rw [heq, hs₁.indexed n (by omega)] at hq'
          exact (Option.some.inj hq').symm
        simp only [hiff]
      refine ⟨_, _, Runs.complete h₁ ⟨_, rfl⟩ htraced, hfree₂, hindex₁.trans hindex₂, ?_,
        fun q hq hqp => ?_⟩
      · show s₂.records p = _
        rw [hstruck p (by omega), if_neg fun heq => hnp heq.symm]
        exact hrec₁
      · show (s₂.records q).invalidated = true
        rw [hstruck q (by omega)]
        split
        · exact ArtifactRecord.struck_invalidated _
        · rename_i hqn
          exact hall₁ q (by omega) hqp

end Strikes

/-! ## Lookups after an invalidation -/

section Served

variable {env : Env} {store : FilePersistenceStore} {tr tr' : List (Event Step Impl)}
  {pool pool' : Pool Step Impl Answer}

/-- In some continuation a lookup that started when there were at least `n` operations returns the
artifact as a hit. -/
def ServedAfter (env : Env) (n : Nat) (pool : Pool Step Impl Answer) (id : ArtifactId) : Prop :=
  ∃ tr pool' j r, Continues env pool tr pool' ∧ n ≤ j ∧
    pool'.threads[j]? = some (.ret (.lookup r)) ∧ r.outcome.isHit = true ∧ r.artifact = some id

/-- A lookup that has started and answered in a continuation has all its sections there. -/
theorem continues_looked (h : CacheRuns env store tr pool) (h' : Continues env pool tr' pool')
    {j : Nat} {r : KernelLookupResult} (hj : pool.threads.length ≤ j)
    (hret : pool'.threads[j]? = some (.ret (.lookup r))) :
    ∃ key policy s₁ s₂ s₃, r = s₁.lookup key policy ∧
      pathOf tr' j = [(.collect key, s₁), (.bump r.outcome.count, s₂), (.recordEvent, s₃)] := by
  obtain ⟨key, policy, s₁, s₂, s₃, hr, hpath⟩ := runs_looked (h.trans h') hret
  refine ⟨key, policy, s₁, s₂, s₃, hr, ?_⟩
  have hsplit : pathOf (tr ++ tr') j = pathOf tr j ++ pathOf tr' j := by
    simp only [pathOf, List.filter_append, List.map_append]
  rw [hsplit, pathOf_of_length_le h hj, List.nil_append] at hpath
  exact hpath

/-- The state a section of a continuation found was reached by a continuation. -/
theorem continues_before (h' : Continues env pool tr' pool') {e : Event Step Impl} (he : e ∈ tr') :
    ∃ tr₁ ts, Continues env pool tr₁ ⟨e.before, ts⟩ := by
  obtain ⟨tr₁, tr₂, rfl⟩ := List.append_of_mem he
  obtain ⟨⟨ts, hupto⟩, -⟩ := h'.cut rfl
  exact ⟨tr₁, ts, hupto⟩

/-- A run that ends with a section is in the state that section left. -/
theorem shared_eq_after {p₀ : Pool Step Impl Answer} {e : Event Step Impl}
    (h : Runs (exec env) (IsOperation env) p₀ (tr ++ [e]) pool) : pool.shared = e.after := by
  obtain ⟨-, ts, -, hrest⟩ := h.cut rfl
  exact (Runs.related (R := fun s s' => s' = s) (fun _ => rfl) (fun _ _ _ h h' => h'.trans h) hrest
    fun e' he' => by cases he')

/-- **A record that is out of use is not served**, whatever the order of steps. -/
theorem not_served_of_poisoned (h : CacheRuns env store tr pool) {id : ArtifactId} {p : Nat}
    (hid : pool.shared.byId.lookup id = some p) (hp : (pool.shared.records p).poisoned = true)
    (h' : Continues env pool tr' pool') : ¬ ServedAfter env pool.threads.length pool' id := by
  rintro ⟨tr₃, pool₃, j, r, h₃, hj, hret, -, hart⟩
  obtain ⟨key, policy, s₁, s₂, s₃, rfl, hpath⟩ := continues_looked h (h'.trans h₃) hj hret
  obtain ⟨e, he, -, heq⟩ := Foundation.exists_of_mem_pathOf (hpath ▸ List.mem_cons_self ..)
  obtain ⟨-, rfl⟩ := Prod.mk.inj heq
  obtain ⟨tr₄, ts, h₄⟩ := continues_before (h'.trans h₃) he
  have hkeeps := continues_keeps h h₄ id p
  refine (runs_sound (h.trans h₄)).2.lookup_ne_of_poisoned (hkeeps.bound hid) ?_ key policy hart
  exact hkeeps.poisoned ((runs_sound h).2.bound id p hid).1 hp

/-- Whoever sits on `stats_mtx_` never lets go. -/
theorem exec_held {l : Step} {s s' : Impl} (h : exec env l s = some s')
    (hheld : s.statsHeld = true) : s'.statsHeld = true := by
  rw [exec_statsHeld h, hheld, Bool.true_or]

/-- Once `stats_mtx_` is held for good, no lookup returns any more. -/
theorem not_looked_of_held (h : Continues env pool tr' pool') (hheld : pool.shared.statsHeld = true)
    {e : Event Step Impl} (he : e ∈ tr') : e.label ≠ .recordEvent := by
  intro hl
  obtain ⟨tr₁, ts, h₁⟩ := continues_before h he
  have hbefore : e.before.statsHeld = true := by
    refine (Runs.invariant (I := fun s => s.statsHeld = true) hheld h₁ fun e' he' hs => ?_).2
    exact exec_held (h₁.event_step e' he') hs
  have hstep := h.event_step e he
  rw [hl] at hstep
  obtain ⟨hready, -⟩ := exec_eq_some.mp hstep
  simp only [Step.ready, hbefore, Bool.not_true, Bool.false_eq_true] at hready

/-- The operation `lookup` alone, on an accepted key. -/
theorem lookup_traced (env : Env) (i : Nat) {s : Impl} (request : KernelLookupRequest)
    (hkey : request.key.wellFormed = true) (hfree : s.statsHeld = false) :
    ∃ tr s', ((Operation.lookup request).prog env).traced (exec env) i s =
      some (tr, .lookup (s.lookup request.key.finalize request.policy), s') :=
  ⟨_, _, Prog.traced_of_bind.mpr
    ⟨_, _, _, _, lookupImpl_traced env i request hkey hfree, rfl, rfl⟩⟩

/-- **What a build has published is served**: the other records can be invalidated, and the next
lookup of the key names the one left. -/
theorem served_of_published (h : CacheRuns env store tr pool) (hfree : pool.shared.statsHeld = false)
    {p : Nat} (hp : p < pool.shared.nextRecord) (hhealthy : (pool.shared.snapshotOf p).healthy = true)
    {key : KernelCompatibilityKey} (hkey : (pool.shared.records p).key = key)
    (hfinal : key.finalize = key) (hwell : key.wellFormed = true) {n : Nat}
    (hn : n ≤ pool.threads.length) : ServedAfter env n pool (pool.shared.records p).id := by
  obtain ⟨tr₁, pool₁, h₁, hfree₁, hindex, hrec, hall⟩ := others_struck h hfree hp le_rfl
  have hruns := h.trans h₁
  have hs := (runs_sound hruns).2
  have hnext := hindex.nextRecord
  -- the record is the only one that serves its key
  have hhealthy₁ : (pool₁.shared.snapshotOf p).healthy = true := by
    rw [Impl.healthy_iff, hrec, ← Impl.healthy_iff]
    exact hhealthy
  have hconsults : pool₁.shared.Consults key.finalize p := by
    refine ⟨by omega, .inl ?_⟩
    rw [hrec, hkey, hfinal]
  have hserves : pool₁.shared.Serves key {} p := by
    refine Impl.serves_of_exact {} ?_ hhealthy₁
    show (pool₁.shared.records p).key.finalize.digest = _
    rw [hrec, hkey]
  have honly : ∀ q, pool₁.shared.Consults key.finalize q → pool₁.shared.Serves key {} q → q = p := by
    intro q hq hserves'
    by_contra hqp
    have hlease := ((Impl.healthy_iff _ q).mp hserves'.1).1
    have hinv := hall q (by have := hq.1; omega) hqp
    simp only [ArtifactRecord.leasable, hinv, Bool.not_true, Bool.false_and, Bool.false_eq_true]
      at hlease
  have hlookup := Impl.lookup_iff hs (runs_indexed hruns) key {}
  have hhit := hlookup.1.mpr ⟨p, hconsults, hserves⟩
  obtain ⟨id, hart⟩ := Impl.lookup_isHit.mp hhit
  obtain ⟨q, hbound, hq, hserves', -⟩ := hlookup.2 id hart
  obtain rfl := honly q hq hserves'
  have hid : (pool.shared.records q).id = id := by
    rw [← hrec]
    exact (hs.bound id q hbound).2
  -- the lookup
  obtain ⟨tr₂, s₂, htraced⟩ := lookup_traced env pool₁.threads.length { key := key } hwell hfree₁
  refine ⟨_, _, pool₁.threads.length, _, h₁.complete ⟨_, rfl⟩ htraced, ?_, ?_, hhit, ?_⟩
  · exact hn.trans h₁.length_le
  · exact List.getElem?_concat_length
  · rw [hid]
    exact hart

end Served

/-! ## Builds overtaken -/

section Overtaken

variable {env : Env} {store : FilePersistenceStore} {tr₁ tr₂ : List (Event Step Impl)}
  {inv pub : Event Step Impl} {pool pool' : Pool Step Impl Answer} {req : InvalidationRequest}
  {fence : Nat} {o : Outcome}

/-- The invalidation `inv` overtakes a build: the thread that publishes `o` in `pub` has joined as the
owner before, the request matches the record of the artifact if there is one already, and if there is
none it is `pub` that brings it in. -/
structure Overtakes (env : Env) (tr₁ : List (Event Step Impl)) (inv pub : Event Step Impl)
    (req : InvalidationRequest) (fence : Nat) (o : Outcome) : Prop where
  joined : ∃ e ∈ tr₁, e.thread = pub.thread ∧
    ∃ digest gen, e.label = .join digest ∧ (e.before.join digest).1 = .owner fence gen
  invalidates : inv.label = .invalidate req
  publishes : pub.label = .publish fence o
  selects : ∀ p, inv.before.byId.lookup o.id = some p →
    req.selects o.id (inv.before.records p) = true
  brings : inv.before.byId.lookup o.id = none → (pub.before.publish env o).1 = true

theorem publish_new_iff {s : Impl} :
    (s.publish env o).1 = true ↔ s.byId.lookup o.id = none := by
  unfold Impl.publish
  cases s.byId.lookup o.id with
  | none => exact iff_of_true rfl rfl
  | some p => exact iff_of_false Bool.false_ne_true (Option.some_ne_none p)

/-- The id was taken when the invalidation ran: its record is struck. -/
theorem not_served_of_struck (h : CacheRuns env store (tr₁ ++ [inv]) pool)
    (h' : Continues env pool (tr₂ ++ [pub]) pool') (hover : Overtakes env tr₁ inv pub req fence o)
    {p : Nat} (hid : inv.before.byId.lookup o.id = some p) :
    ¬ ServedAfter env pool.threads.length pool' o.id := by
  have hmem : inv ∈ tr₁ ++ [inv] := List.mem_append_right _ (List.mem_singleton_self inv)
  have hexec := h.event_step inv hmem
  rw [hover.invalidates] at hexec
  have hs := ((runs_sound h).1 inv hmem).1
  obtain ⟨hp, hrid⟩ := hs.bound _ p hid
  have hafter := shared_eq_after h
  refine not_served_of_poisoned h (p := p) ?_ ?_ h'
  · rw [hafter, (exec_sameIndex hexec rfl).byId]
    exact hid
  · have hsel := hover.selects p hid
    rw [hafter, exec_invalidate hexec hs hp, hrid, if_pos hsel]
    simp only [ArtifactRecord.poisoned, ArtifactRecord.struck_invalidated, Bool.true_or]

/-- The publication comes when `stats_mtx_` is held for good: no lookup returns after it, and none
before it has seen the artifact. -/
theorem not_served_of_held (h : CacheRuns env store (tr₁ ++ [inv]) pool)
    (h' : Continues env pool (tr₂ ++ [pub]) pool') (hover : Overtakes env tr₁ inv pub req fence o)
    (hfree : inv.before.byId.lookup o.id = none) (hheld : pub.before.statsHeld = true) :
    ¬ ServedAfter env pool.threads.length pool' o.id := by
  have hmem : pub ∈ tr₂ ++ [pub] := List.mem_append_right _ (List.mem_singleton_self pub)
  have hnew := publish_new_iff.mp (hover.brings hfree)
  have hheld' : pool'.shared.statsHeld = true := by
    rw [shared_eq_after h']
    exact exec_held (h'.event_step pub hmem) hheld
  rintro ⟨tr₃, pool₃, j, r, h₃, hj, hret, -, hart⟩
  obtain ⟨key, policy, s₁, s₂, s₃, rfl, hpath⟩ := continues_looked h (h'.trans h₃) hj hret
  -- the lookup was over before the publication
  have hsplit : pathOf (tr₂ ++ [pub] ++ tr₃) j = pathOf (tr₂ ++ [pub]) j ++ pathOf tr₃ j := by
    simp only [pathOf, List.filter_append, List.map_append]
  rw [hsplit] at hpath
  have hlast : pathOf tr₃ j = [] := by
    rcases List.eq_nil_or_concat (pathOf tr₃ j) with hnil | ⟨path, x, hx⟩
    · exact hnil
    · rw [hx, List.concat_eq_append, ← List.append_assoc] at hpath
      have hrecord := (List.append_inj' (hpath.trans (List.append_cons [_] _ [_])) rfl).2
      have hmem : x ∈ pathOf tr₃ j := by
        rw [hx, List.concat_eq_append]
        simp
      obtain ⟨e, he, -, heq⟩ := Foundation.exists_of_mem_pathOf hmem
      rw [heq] at hrecord
      exact absurd (Prod.mk.inj (List.singleton_inj.mp hrecord)).1 (not_looked_of_held h₃ hheld' he)
  rw [hlast, List.append_nil] at hpath
  obtain ⟨e, he, -, heq⟩ := Foundation.exists_of_mem_pathOf (hpath ▸ List.mem_cons_self ..)
  obtain ⟨hlabel, rfl⟩ := Prod.mk.inj heq
  have he₂ : e ∈ tr₂ := by
    rcases List.mem_append.mp he with hbefore | hpub
    · exact hbefore
    · rw [List.mem_singleton.mp hpub, hover.publishes] at hlabel
      cases hlabel
  -- what it has found was in the index, and stays there
  obtain ⟨p, hit⟩ := ((runs_sound (h.trans h')).1 e (by simp [he₂])).1.hit hart
  obtain ⟨⟨ts, hupto⟩, -⟩ := h'.cut rfl
  obtain ⟨tr₄, tr₅, rfl⟩ := List.append_of_mem he₂
  obtain ⟨⟨ts', hto⟩, ts'', -, hfrom⟩ := hupto.cut rfl
  have hkept : pub.before.byId.lookup o.id = some p := by
    have hstep := h'.event_step e he
    have hafter : e.after.byId.lookup o.id = some p :=
      (exec_keeps hstep (runs_proper (h.trans h') e (by simp)) o.id p).bound hit.bound
    refine (Runs.related (Keeps.refl o.id p) (fun _ _ _ => Keeps.trans) hfrom fun e' he' => ?_).bound
      hafter
    exact exec_keeps (hfrom.event_step e' he') (runs_proper (h.trans h') e' (by simp [he'])) o.id p
  rw [hnew] at hkept
  cases hkept

/-- The artifact comes in by the publication, and `stats_mtx_` is free: it is served. -/
theorem served_of_overtaken (h : CacheRuns env store (tr₁ ++ [inv]) pool)
    (h' : Continues env pool (tr₂ ++ [pub]) pool') (hover : Overtakes env tr₁ inv pub req fence o)
    (hnone : inv.before.byId.lookup o.id = none) (hfree : pub.before.statsHeld = false)
    (hwell : o.desc.key.wellFormed = true) : ServedAfter env pool.threads.length pool' o.id := by
  have hnew := publish_new_iff.mp (hover.brings hnone)
  have hmem : pub ∈ tr₂ ++ [pub] := List.mem_append_right _ (List.mem_singleton_self pub)
  have hexec := h'.event_step pub hmem
  have hmade := runs_publishesMade (h.trans h') pub (List.mem_append_right _ hmem)
  rw [hover.publishes] at hexec hmade
  obtain ⟨gen, hmade⟩ := hmade
  obtain ⟨hhealthy, hkey⟩ := exec_publish_healthy hexec hmade hnew
  obtain ⟨hnext, hbound, -⟩ := exec_publish_new hexec hmade.desc_id hnew
  have hafter := shared_eq_after h'
  have hfree' : pool'.shared.statsHeld = false := by
    obtain ⟨-, heq⟩ := exec_eq_some.mp hexec
    rw [hafter, heq]
    simp only [Step.effect, Impl.publish, hnew]
    exact hfree
  rw [← hafter] at hhealthy hkey hnext hbound
  have hid := ((runs_sound (h.trans h')).2.bound _ _ hbound).2
  rw [← hid]
  exact served_of_published (h.trans h') hfree' (by omega) hhealthy hkey hmade.key_finalize hwell
    h'.length_le

/-- **Builds that an invalidation overtakes.** An artifact that was in the index when the invalidation
ran, or whose publication finds `stats_mtx_` held for good, is never returned by a lookup that starts
after the invalidation.  In every other case, for a key that `finalize()` accepts, some continuation has
a lookup that returns it as a hit. -/
theorem overtaken_iff (h : CacheRuns env store (tr₁ ++ [inv]) pool)
    (h' : Continues env pool (tr₂ ++ [pub]) pool') (hover : Overtakes env tr₁ inv pub req fence o) :
    ((∃ p, inv.before.byId.lookup o.id = some p) ∨ pub.before.statsHeld = true →
        ¬ ServedAfter env pool.threads.length pool' o.id) ∧
      (o.desc.key.wellFormed = true → ¬ ServedAfter env pool.threads.length pool' o.id →
        (∃ p, inv.before.byId.lookup o.id = some p) ∨ pub.before.statsHeld = true) := by
  constructor
  · intro hsettled
    cases hid : inv.before.byId.lookup o.id with
    | some p => exact not_served_of_struck h h' hover hid
    | none =>
      refine not_served_of_held h h' hover hid (hsettled.resolve_left ?_)
      rintro ⟨p, hp⟩
      rw [hid] at hp
      cases hp
  · intro hwell hnot
    by_contra hopen
    obtain ⟨hfresh, hfree⟩ := not_or.mp hopen
    have hnone : inv.before.byId.lookup o.id = none :=
      Option.eq_none_iff_forall_ne_some.mpr fun p hp => hfresh ⟨p, hp⟩
    exact hnot (served_of_overtaken h h' hover hnone (by simpa using hfree) hwell)

end Overtaken

/-! ## One build overtaken -/

/-- An invalidation while a build is in flight finds nothing. -/
theorem Impl.Flying.invalidate (env : Env) {s : Impl} {digest : Sha256Digest} {fence : Nat}
    {promise : Option Outcome} (h : s.Flying digest fence promise) (req : InvalidationRequest) :
    ∃ s', exec env (.invalidate req) s = some s' ∧ s'.Flying digest fence promise := by
  have hexec : exec env (.invalidate req) s =
      some { (s.invalidate env req).2 with tick := s.tick + 1 } :=
    exec_eq_some.mpr ⟨by simp only [Step.ready, h.free, Bool.not_false], rfl⟩
  have hindex := exec_sameIndex hexec rfl
  have hfences := exec_sameFences hexec trivial rfl
  refine ⟨_, hexec, (s.invalidate_statsHeld env req).trans h.free, ?_, ?_, ?_, ?_⟩
  · rw [hfences.inFlight]
    exact h.flight
  · rw [hfences.fences]
    exact h.promise
  · rw [hindex.byId]
    exact h.byId
  · rw [hindex.nextRecord]
    exact h.nextRecord

/-- A build of the default key joins a fresh cache; everything is invalidated; the build goes on and
publishes. -/
theorem stub_overtaken : ∃ tr₁ inv tr₂ pub pool pool' o,
    CacheRuns stubEnv {} (tr₁ ++ [inv]) pool ∧ Continues stubEnv pool (tr₂ ++ [pub]) pool' ∧
      Overtakes stubEnv tr₁ inv pub { target := .all } 0 o ∧
      inv.before.byId.lookup o.id = none ∧ pub.before.statsHeld = false ∧
      o.desc.key.wellFormed = true := by
  -- the build joins
  obtain ⟨s₁, hjoin, howner, hfly₁⟩ := initial_join stubEnv (buildDigest stubEnv {})
  have hstart : CacheRuns stubEnv {} [] ⟨Impl.initial {}, [(Operation.build {}).prog stubEnv]⟩ :=
    Runs.refl.spawn ⟨_, rfl⟩
  have hruns₁ := hstart.step (i := 0) rfl hjoin
  have howner' := howner
  unfold buildDigest at howner'
  simp only [List.set_cons_zero, howner'] at hruns₁
  -- the invalidation runs, and finds nothing
  obtain ⟨s₂, hinv, hfly₂⟩ := hfly₁.invalidate stubEnv { target := .all }
  have hruns₂ := (hruns₁.spawn (p := (Operation.invalidate { target := .all }).prog stubEnv)
    ⟨_, rfl⟩).step (i := 1) rfl hinv
  obtain ⟨ts, howns, hjoined⟩ : ∃ ts : List (Op Answer), ts[0]? = some ((buildOwner stubEnv
      (buildRequestOf stubEnv {}) (buildDigest stubEnv {}) 0 0).bind descriptorAnswer) ∧
      CacheRuns stubEnv {} _ ⟨s₂, ts⟩ := ⟨_, by rfl, hruns₂⟩
  -- the build goes on
  obtain ⟨o, hout, hok⟩ : ∃ o, runBuild stubEnv s₂.tick (buildRequestOf stubEnv {}) 0 = .ok o ∧
      o.succeeded = true := ⟨_, rfl, rfl⟩
  obtain ⟨tr₂, pub, s₃, howned, hthread, hlabel, hnew, hfree, -⟩ := hfly₂.owner 0 hout hok rfl
  have hcont : Continues stubEnv ⟨s₂, ts⟩ ([] ++ (tr₂ ++ [pub])) _ := Runs.advance .refl howns howned
  have hnone : s₁.byId.lookup o.id = none := by
    rw [hfly₁.byId]
    exact AList.lookup_empty _
  refine ⟨_, _, tr₂, pub, _, _, o, hjoined, hcont, ⟨?_, rfl, hlabel, ?_, ?_⟩, hnone, hfree, ?_⟩
  · exact ⟨_, List.mem_singleton_self _, hthread.symm, _, _, rfl, howner⟩
  · intro p _
    rfl
  · exact fun _ => publish_new_iff.mpr hnew
  · rw [(runBuild_built hout hok).desc_key]
    exact defaultKey_wellFormed

/-- A lookup after the invalidation returns what the build has published. -/
theorem overtaken_iff_sample : ∃ tr₁ inv tr₂ pub pool pool' o,
    CacheRuns stubEnv {} (tr₁ ++ [inv]) pool ∧ Continues stubEnv pool (tr₂ ++ [pub]) pool' ∧
      Overtakes stubEnv tr₁ inv pub { target := .all } 0 o ∧
      ServedAfter stubEnv pool.threads.length pool' o.id := by
  obtain ⟨tr₁, inv, tr₂, pub, pool, pool', o, h, h', hover, hnone, hfree, hwell⟩ := stub_overtaken
  refine ⟨tr₁, inv, tr₂, pub, pool, pool', o, h, h', hover, ?_⟩
  by_contra hnot
  rcases (overtaken_iff h h' hover).2 hwell hnot with ⟨p, hp⟩ | hheld
  · rw [hnone] at hp
    cases hp
  · rw [hfree] at hheld
    cases hheld

/-- **Builds in flight do not respect an invalidation.** A build has joined; everything is invalidated;
the build publishes; a lookup that starts now returns the artifact as a hit. -/
theorem overtaken_served : ∃ tr₁ inv tr₂ pub pool pool' o,
    CacheRuns stubEnv {} (tr₁ ++ [inv]) pool ∧ inv.label = .invalidate { target := .all } ∧
      Continues stubEnv pool (tr₂ ++ [pub]) pool' ∧ pub.label = .publish 0 o ∧
      (∃ e ∈ tr₁, e.thread = pub.thread ∧
        ∃ digest gen, e.label = .join digest ∧ (e.before.join digest).1 = .owner 0 gen) ∧
      ∃ tr₃ pool₃ j r, Continues stubEnv pool' tr₃ pool₃ ∧ pool.threads.length ≤ j ∧
        pool₃.threads[j]? = some (.ret (.lookup r)) ∧ r.outcome.isHit = true ∧
        r.artifact = some o.id := by
  obtain ⟨tr₁, inv, tr₂, pub, pool, pool', o, h, h', hover, hnone, hfree, hwell⟩ := stub_overtaken
  exact ⟨tr₁, inv, tr₂, pub, pool, pool', o, h, hover.invalidates, h', hover.publishes, hover.joined,
    served_of_overtaken h h' hover hnone hfree hwell⟩

end KernelCache
