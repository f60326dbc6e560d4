/-
# KernelCache.LeaseHealth — what a lease finds.

An acquire looks its record up, promotes it and leases it in separate critical sections.  The lookup
skips records that are not validated; `grant_lease` asks again for everything the lookup asked for
EXCEPT that.  In between only the state protects: a validation that does not pass moves the record to
`Corrupt`, and from `InUse` it cannot.  So a lease finds a validated record on every run whose failed
validations find their records in other states (`lease_healthy`), and on the others it need not
(`lease_unvalidated`).

`Impl.Vetted` is what an acquire carries from its lookup, or from its build, to its lease.
-/
import KernelCache.Acquires
import KernelCache.Sequential

namespace KernelCache

open Foundation (Prog Runs Pool Event Stable)
open Foundation.Prog (sect perform Free Sat)

/-! ## Vetted records -/

/-- The record is there, and validated as long as it can be leased. -/
structure Impl.Vetted (s : Impl) (p : Nat) : Prop where
  lt : p < s.nextRecord
  validated : (s.records p).leasable = true → (s.records p).validated = true

/-- The section finds no trouble: a validation that did not pass does not commit on a record that
stays `InUse`, and what a build finds under its id is validated. -/
def Step.vets (s : Impl) : Step → Prop
  | .validateCommit p (.ok vd) => vd.allPassed = false → (s.records p).state = .inUse →
      (s.records p).leasable = false
  | .publish _ o | .findBuilt _ o => ∀ p, s.byId.lookup o.id = some p →
      (s.records p).leasable = true → (s.records p).validated = true
  | _ => True

/-- Only a validation touches the flag. -/
theorem ArtifactRecord.Updates.validated {p : Nat} {l : Step} {r r' : ArtifactRecord}
    (h : Updates p r l r') : r'.validated = r.validated ∨
      ∃ res, l = .validateCommit p res ∧ r' = r.validatedBy res := by
  cases h with
  | validatedBy res => exact .inr ⟨res, rfl, rfl⟩
  | evictCommit =>
    unfold ArtifactRecord.evictCommit
    split <;> exact .inl rfl
  | _ => exact .inl rfl

/-- A verdict that leaves a record leasable has passed, unless the record stays `InUse`. -/
theorem ArtifactRecord.validatedBy_leasable {r : ArtifactRecord} {res : Result ValidationDescriptor}
    (hv : r.state.isVisited = true) (h : (r.validatedBy res).leasable = true) :
    ∃ vd, res = .ok vd ∧ (vd.allPassed = true ∨ r.state = .inUse) := by
  unfold validatedBy leasable at h
  cases res with
  | error e => simp at h
  | ok vd =>
    refine ⟨vd, rfl, ?_⟩
    cases hp : vd.allPassed with
    | true => exact .inl rfl
    | false =>
      refine .inr ?_
      simp only [hp, Bool.not_false, Bool.true_and, Bool.false_eq_true, if_false,
        Bool.and_eq_true, Bool.not_eq_true', Bool.or_eq_false_iff] at h
      obtain ⟨⟨-, -, hcan⟩, helig⟩ := h
      have hstay : r.state.tryMove .corrupt = r.state := by
        unfold ArtifactState.tryMove
        rw [if_neg (by simp [hcan])]
      rw [hstay] at helig
      -- of the eligible states a record visits, only `InUse` does not lead to `Corrupt`
      revert hv hcan helig
      cases r.state <;> decide

/-- **A vetted record stays vetted.** -/
theorem exec_vetted {env : Env} {l : Step} {s s' : Impl} (h : exec env l s = some s')
    (hl : l.Proper) (hs : s.Sound) (hvets : l.vets s) {p : Nat} (hp : s.Vetted p) : s'.Vetted p := by
  refine ⟨lt_of_lt_of_le hp.lt (exec_extends h hl).next_le, fun hlease => ?_⟩
  have hvisited := hs.visited p hp.lt
  have hbefore := (exec_evolves h hl hp.lt).leasable hvisited hlease
  rcases exec_records h hl hp.lt with heq | hupd
  · rw [heq]
    exact hp.validated hbefore
  · rcases hupd.validated with heq | ⟨res, rfl, heq⟩
    · rw [heq]
      exact hp.validated hbefore
    · rw [heq] at hlease ⊢
      obtain ⟨vd, rfl, hpassed⟩ := ArtifactRecord.validatedBy_leasable hvisited hlease
      cases hvd : vd.allPassed with
      | true => exact hvd
      | false =>
        rw [hvd] at hpassed
        have hno := hvets hvd (hpassed.resolve_left Bool.noConfusion)
        rw [hbefore] at hno
        cases hno

/-! ## Descriptors name their records -/

/-- Every record's descriptor carries the record's id. -/
def Impl.Named (s : Impl) : Prop := ∀ p < s.nextRecord, (s.records p).desc.id = (s.records p).id

theorem ArtifactRecord.Updates.desc_id {p : Nat} {l : Step} {r r' : ArtifactRecord}
    (h : Updates p r l r') : r'.desc.id = r.desc.id := by
  cases h with
  | evictCommit =>
    unfold ArtifactRecord.evictCommit
    split <;> rfl
  | validatedBy res =>
    unfold ArtifactRecord.validatedBy
    split <;> rfl
  | _ => rfl

theorem Step.offers_named {env : Env} {s : Impl} {l : Step} {r : ArtifactRecord}
    (h : r ∈ l.offers env s) : r.desc.id = r.id := by
  cases l with
  | publish fence o =>
    obtain rfl := List.mem_singleton.mp h
    rfl
  | put desc bytes =>
    obtain rfl := List.mem_singleton.mp h
    rfl
  | recoverInsert artifacts =>
    obtain ⟨a, -, rfl⟩ := List.mem_map.mp h
    rfl
  | _ => cases h

theorem exec_named {env : Env} {l : Step} {s s' : Impl} (h : exec env l s = some s') (hl : l.Proper)
    (hs : s.Named) : s'.Named := by
  intro p hp
  by_cases hold : p < s.nextRecord
  · have hid := (exec_evolves h hl hold).id_eq
    rcases exec_records h hl hold with heq | hupd
    · rw [heq]
      exact hs p hold
    · rw [hupd.desc_id, hid]
      exact hs p hold
  · obtain ⟨r, hr, hrec⟩ := (exec_extends h hl).fresh p (by omega) hp
    have hname := Step.offers_named hr
    rw [hrec]
    exact hname

theorem runs_named {env : Env} {store : FilePersistenceStore} {tr : List (Event Step Impl)}
    {pool : Pool Step Impl Answer} (h : CacheRuns env store tr pool) : ∀ e ∈ tr, e.before.Named := by
  have hinit : (Impl.initial store).Named := fun p hp => absurd hp (Nat.not_lt_zero p)
  have hruns := Runs.invariant hinit h fun e he hs =>
    exec_named (h.event_step e he) (runs_proper h e he) hs
  exact fun e he => (hruns.1 e he).1

/-! ## What an acquire carries -/

/-- The steps considered. -/
structure VettedSteps (l : Step) (s _s' : Impl) : Prop where
  proper : l.Proper
  sound : s.Sound
  named : s.Named
  vets : l.vets s

/-- A lease finds a vetted record, and a verdict a record that is there. -/
def Step.FindsVetted (l : Step) (s : Impl) : Prop :=
  match l with
  | .grantLease p _ => s.Vetted p
  | .validateCommit p _ => p < s.nextRecord
  | _ => True

section Acquire

variable {env : Env}

/-- The guarantee. -/
abbrev Vets (l : Step) (s _s' : Impl) : Prop := l.FindsVetted s

theorem stable_vetted (p : Nat) : Stable (exec env) VettedSteps (fun s => s.Vetted p) :=
  fun _ _ _ hp h hC => exec_vetted h hC.proper hC.sound hC.vets hp

theorem stable_lt (p : Nat) : Stable (exec env) VettedSteps (fun s => p < s.nextRecord) :=
  fun _ _ _ hp h hC => lt_of_lt_of_le hp (exec_extends h hC.proper).next_le

theorem walk_vets : Walk (Guaranteed env VettedSteps Vets) Stage.unguarded := by
  refine walk_guaranteed fun l s s' _ _ _ hstage => ?_
  cases l with
  | grantLease p pin => exact hstage.elim
  | validateCommit p res => exact hstage.elim
  | _ => exact trivial

theorem validateOp_vets (request : KernelLookupRequest) (id : ArtifactId) :
    (validateOp env request id).Free (exec env) VettedSteps Vets := by
  unfold validateOp
  refine Sat.bind (Q := fun found s => ∀ p, found = some p → p < s.nextRecord)
    (Sat.sect ?_ ?_) fun found => ?_
  · intro found l s s' hP h hC p hp
    exact stable_lt p l s s' (hP p hp) h hC
  · intro s s' _ h hC
    refine ⟨trivial, fun p hp => ?_⟩
    exact lt_of_lt_of_le (hC.sound.bound id p hp).1 (exec_extends h hC.proper).next_le
  · cases found with
    | none => exact Sat.ret fun _ _ => trivial
    | some p =>
      refine Sat.weaken (P := fun s => p < s.nextRecord) (Q := fun _ _ => True) ?_
        (fun s hs => hs p rfl) fun _ _ _ => trivial
      refine Sat.bind (Q := fun _ s => p < s.nextRecord) (Sat.sect (fun _ => stable_lt p) ?_)
        fun called => ?_
      · intro s s' hp h hC
        exact ⟨trivial, stable_lt p _ s s' hp h hC⟩
      · split
        · exact Sat.ret fun _ _ => trivial
        · exact Sat.ret fun _ _ => trivial
        · refine Sat.bind (Q := fun _ _ => True)
            (Sat.sect (fun _ => Stable.const _ _ True) fun s s' hp _ _ => ⟨hp, trivial⟩) fun _ => ?_
          exact Free.ret _

theorem promoteToTier_vets (p : Nat) (desired : ResidencyTier) (device : DeviceDescriptor) :
    (promoteToTier env p desired device).Free (exec env) VettedSteps Vets :=
  walk_vets.promotes trivial trivial trivial (walk_vets.evictImpl trivial trivial) p desired device

theorem pieces_vets : Walk.Pieces env (Guaranteed env VettedSteps Vets) where
  evict := walk_vets.evictImpl trivial trivial
  load := walk_vets.loadOp trivial promoteToTier_vets
  unload := walk_vets.unloadOp trivial trivial
  validate := validateOp_vets
  put := walk_vets.putOp trivial
  release := walk_vets.releaseLease trivial
  recover := walk_vets.recoverImpl trivial trivial

/-- A publication leaves its id bound to a vetted record. -/
theorem exec_publish_vetted {fence : Nat} {o : Outcome} {s s' : Impl}
    (h : exec env (.publish fence o) s = some s') (hC : VettedSteps (.publish fence o) s s')
    (hvalid : o.desc.validation.allPassed = true) : s'.BoundTo (fun p s => s.Vetted p) o.id := by
  cases hid : s.byId.lookup o.id with
  | some p =>
    have hp : s.Vetted p := ⟨(hC.sound.bound _ p hid).1, hC.vets p hid⟩
    exact ⟨p, (exec_extends h hC.proper).keeps _ p hid, stable_vetted p _ s s' hp h hC⟩
  | none =>
    obtain ⟨hnext, hbound, hrec⟩ := exec_publish_new h hC.proper.2 hid
    refine ⟨s.nextRecord, hbound, by omega, fun _ => ?_⟩
    rw [hrec]
    exact hvalid

/-- A build that returns a descriptor leaves its id bound to a vetted record. -/
theorem buildsTo_vets (request : KernelLookupRequest) :
    BuildsTo env VettedSteps Vets (fun p s => s.Vetted p) (fun _ _ => True) request where
  proper _ _ _ hC := hC.proper
  walk := walk_vets
  stable_record := stable_vetted
  stable_joined _ := Stable.const _ _ True
  join _ _ _ _ := trivial
  publish := by
    intro fence gen tick o s s' hrun hs _ h hC
    exact exec_publish_vetted h hC (runBuild_built hrun hs).validated
  found := by
    intro fence o p s s' _ _ hC hp
    obtain ⟨hlt, hid⟩ := hC.sound.bound o.id p hp
    rw [hC.named p hlt, hid]
    exact ⟨p, hp, hlt, hC.vets p hp⟩

/-- An acquire leases a vetted record. -/
theorem acquiresWith_vets (request : KernelLookupRequest) :
    AcquiresWith env VettedSteps Vets (fun p s => s.Vetted p) (fun _ _ => True) (fun _ _ => True)
      request where
  toBuildsTo := buildsTo_vets _
  hit := by
    intro s s' id hC hid
    obtain ⟨p, hp⟩ := hC.sound.hit hid
    exact ⟨p, hp.bound, (hC.sound.bound id p hp.bound).1, fun _ => hp.validated⟩
  stable_result _ := Stable.const _ _ True
  failed _ _ := trivial
  grant _ _ _ _ hp _ _ := ⟨hp, trivial⟩

end Acquire

theorem runs_vetted {env : Env} {store : FilePersistenceStore} {tr : List (Event Step Impl)}
    {pool : Pool Step Impl Answer} (h : CacheRuns env store tr pool)
    (hvets : ∀ e ∈ tr, e.label.vets e.before) : ∀ e ∈ tr, e.label.FindsVetted e.before := by
  refine Runs.guarantee (C := VettedSteps) (G := Vets) (fun q hq => ?_) h fun e he => ?_
  · obtain ⟨op, rfl⟩ := hq
    exact walk_vets.operation trivial pieces_vets (fun request => (buildsTo_vets request).buildImpl.free)
      (fun request => (acquiresWith_vets request).acquireImpl) op
  · exact ⟨runs_proper h e he, ((runs_sound h).1 e he).1, runs_named h e he, hvets e he⟩

/-! ## Leases find healthy records -/

/-- What is left of the last verdict on a record. -/
structure Impl.KeepsVerdict (p : Nat) (s s' : Impl) : Prop where
  lt : p < s.nextRecord → p < s'.nextRecord
  validated : p < s.nextRecord → (s'.records p).validated = (s.records p).validated
  corrupt : p < s.nextRecord → (s.records p).corrupt = true → (s'.records p).corrupt = true

theorem Impl.KeepsVerdict.refl (p : Nat) (s : Impl) : Impl.KeepsVerdict p s s :=
  ⟨fun h => h, fun _ => rfl, fun _ h => h⟩

theorem Impl.KeepsVerdict.trans {p : Nat} {s s' s'' : Impl} (h : Impl.KeepsVerdict p s s')
    (h' : Impl.KeepsVerdict p s' s'') : Impl.KeepsVerdict p s s'' where
  lt hp := h'.lt (h.lt hp)
  validated hp := (h'.validated (h.lt hp)).trans (h.validated hp)
  corrupt hp hc := h'.corrupt (h.lt hp) (h.corrupt hp hc)

theorem exec_keepsVerdict {env : Env} {l : Step} {s s' : Impl} {p : Nat}
    (h : exec env l s = some s') (hl : l.Proper) (hno : ∀ res, l ≠ .validateCommit p res) :
    Impl.KeepsVerdict p s s' := by
  refine ⟨fun hp => lt_of_lt_of_le hp (exec_extends h hl).next_le, fun hp => ?_, fun hp hc =>
    (exec_evolves h hl hp).corrupt hc⟩
  rcases exec_records h hl hp with heq | hupd
  · rw [heq]
  · rcases hupd.validated with heq | ⟨res, hlabel, -⟩
    · exact heq
    · exact absurd hlabel (hno res)

/-- A record that is validated and not corrupt has passed its last validation. -/
theorem runs_verdict {env : Env} {store : FilePersistenceStore} {tr : List (Event Step Impl)}
    {pool : Pool Step Impl Answer} (h : CacheRuns env store tr pool)
    (hvets : ∀ e ∈ tr, e.label.vets e.before) {tr₁ tr₂ : List (Event Step Impl)}
    {v : Event Step Impl} (htr : tr = tr₁ ++ v :: tr₂) {p : Nat} {res : Result ValidationDescriptor}
    (hv : v.label = .validateCommit p res)
    (hlast : ∀ e ∈ tr₂, ∀ res', e.label ≠ .validateCommit p res')
    (hvalid : (pool.shared.records p).validated = true)
    (hcorrupt : (pool.shared.records p).corrupt = false) :
    ∃ vd, res = .ok vd ∧ vd.allPassed = true := by
  have hmem : v ∈ tr := by
    rw [htr]
    simp
  have hfinds := runs_vetted h hvets v hmem
  have hstep := h.event_step v hmem
  have hproper := runs_proper h
  rw [hv] at hfinds hstep
  obtain ⟨-, hafter⟩ := exec_eq_some.mp hstep
  have hrec : v.after.records p = (v.before.records p).validatedBy res := by
    rw [hafter]
    show (v.before.modify p fun r => r.validatedBy res).records p = _
    rw [Impl.modify_records, if_pos rfl]
  have hlt : p < v.after.nextRecord := by
    rw [hafter]
    exact hfinds
  obtain ⟨-, ts, -, hrest⟩ := h.cut htr
  have hkeeps : Impl.KeepsVerdict p v.after pool.shared := by
    refine Runs.related (Impl.KeepsVerdict.refl p) (fun _ _ _ => Impl.KeepsVerdict.trans) hrest
      fun e he => ?_
    have he' : e ∈ tr := by
      rw [htr]
      exact List.mem_append_right _ (List.mem_cons_of_mem v he)
    exact exec_keepsVerdict (hrest.event_step e he) (hproper e he') (hlast e he)
  have hpassed := hkeeps.validated hlt
  rw [hvalid, hrec] at hpassed
  cases res with
  | ok vd => exact ⟨vd, rfl, hpassed.symm⟩
  | error e =>
    have hc : (v.after.records p).corrupt = true := by
      rw [hrec]
      rfl
    rw [hkeeps.corrupt hlt hc] at hcorrupt
    cases hcorrupt

theorem Impl.grantLease_ok {env : Env} {s : Impl} {p : Nat} {pin : Bool} {lease : Nat}
    (h : (s.grantLease env p pin).1 = .ok lease) : (s.records p).leasable = true := by
  unfold Impl.grantLease at h
  dsimp only at h
  split at h
  · assumption
  · cases h

/-- **A lease finds a healthy record.** In every interleaved run in which no validation that did not
pass commits on a record that stays `InUse` and leasable, and no build finds a record that was never
validated under its id: wherever a lease is granted, the record is validated, neither invalidated nor
corrupt and in an eligible state, and the last validation of it that was committed has passed. -/
theorem lease_healthy {env : Env} {store : FilePersistenceStore} {tr : List (Event Step Impl)}
    {pool : Pool Step Impl Answer} (h : CacheRuns env store tr pool)
    (hvets : ∀ e ∈ tr, e.label.vets e.before) {e : Event Step Impl} (he : e ∈ tr) {p : Nat}
    {pin : Bool} {lease : Nat} (hlabel : e.label = .grantLease p pin)
    (hgrant : (e.before.grantLease env p pin).1 = .ok lease) :
    ((e.before.records p).validated = true ∧ (e.before.records p).invalidated = false ∧
      (e.before.records p).corrupt = false ∧ (e.before.records p).state.isEligible = true) ∧
    ∀ tr₁ v tr₂ tr₃ res, tr = tr₁ ++ v :: (tr₂ ++ e :: tr₃) → v.label = .validateCommit p res →
      (∀ e' ∈ tr₂, ∀ res', e'.label ≠ .validateCommit p res') →
      ∃ vd, res = .ok vd ∧ vd.allPassed = true := by
  have hfinds := runs_vetted h hvets e he
  rw [hlabel] at hfinds
  have hleasable := Impl.grantLease_ok hgrant
  have hvalid := hfinds.validated hleasable
  simp only [ArtifactRecord.leasable, Bool.and_eq_true, Bool.not_eq_true'] at hleasable
  obtain ⟨⟨hinv, hcor⟩, helig⟩ := hleasable
  refine ⟨⟨hvalid, hinv, hcor, helig⟩, fun tr₁ v tr₂ tr₃ res htr hv hlast => ?_⟩
  have hsplit : tr = (tr₁ ++ v :: tr₂) ++ e :: tr₃ := by
    rw [htr]
    simp
  obtain ⟨⟨ts, hupto⟩, -⟩ := h.cut hsplit
  refine runs_verdict hupto (fun e' he' => hvets e' ?_) rfl hv hlast hvalid hcor
  rw [hsplit]
  exact List.mem_append_left _ he'

/-- A section that neither validates nor builds meets the condition. -/
theorem Step.vets_of_stage {l : Step} (s : Impl) (h : l.stage = .plain ∨ l.stage = .lease) :
    l.vets s := by
  cases l <;> first | exact trivial | simp [Step.stage] at h

/-- `putState` after a validation that passed. -/
def validState : Impl :=
  { putState.modify 0 (fun r => r.validatedBy (.ok allChecks)) with tick := 4 }

/-- The one record of a cache is validated once more, passes, and is leased. -/
theorem lease_healthy_sample : ∃ tr₁ v tr₂ e pool,
    CacheRuns stubEnv {} (tr₁ ++ v :: (tr₂ ++ [e])) pool ∧
    (∀ e' ∈ tr₁ ++ v :: (tr₂ ++ [e]), e'.label.vets e'.before) ∧
    v.label = .validateCommit 0 (.ok allChecks) ∧ ∃ lease, e.label = .grantLease 0 false ∧
      (e.before.grantLease stubEnv 0 false).1 = .ok lease ∧ (e.before.records 0).validated = true ∧
      ∃ vd, Except.ok allChecks = (.ok vd : Result ValidationDescriptor) ∧ vd.allPassed = true := by
  have hput : CacheRuns stubEnv {} [⟨0, .put sampleArtifact [1], Impl.initial {}, putState⟩]
      ⟨putState, [.ret (.id ⟨⟨1, 7⟩⟩)]⟩ :=
    Runs.refl.complete (p := (Operation.put sampleArtifact [1]).prog stubEnv) ⟨_, rfl⟩ rfl
  obtain ⟨tr₁, v, hvalidate, hplain₁, hcommit⟩ : ∃ tr₁ v,
      ((Operation.validate {} ⟨⟨1, 7⟩⟩).prog stubEnv).traced (exec stubEnv) 1 putState =
        some (tr₁ ++ [v], .validation allChecks, validState) ∧
      (∀ e ∈ tr₁, e.label.stage = .plain) ∧ v.label = .validateCommit 0 (.ok allChecks) :=
    ⟨[_, _], _, rfl, by simp [Step.stage], rfl⟩
  obtain ⟨tr₂, e, out, hacquire, hplain₂, hlabel, hgrant⟩ : ∃ tr₂ e out,
      ((Operation.acquire {}).prog stubEnv).traced (exec stubEnv) 2 validState =
        some (tr₂ ++ [e], out) ∧ (tr₂.all fun e => e.label.stage ∈ [Stage.plain, .lease]) = true ∧
      e.label = .grantLease 0 false ∧ (e.before.grantLease stubEnv 0 false).1 = .ok 0 := by
    have hfirst := acquireImpl_traced stubEnv 2 {} defaultKey_wellFormed (s := validState) rfl
      (putState_lookup (s := validState) rfl rfl rfl rfl {})
    simp only [Operation.prog, Prog.bind_eq, Prog.traced_bind, hfirst]
    exact ⟨[_, _, _, _, _, _, _], _, _, rfl, rfl, rfl, rfl⟩
  have hstages : ∀ e' ∈ tr₂, e'.label.stage = .plain ∨ e'.label.stage = .lease := fun e' he' => by
    simpa using List.all_eq_true.mp hplain₂ e' he'
  have hruns := (hput.complete ⟨_, rfl⟩ hvalidate).complete ⟨_, rfl⟩ hacquire
  generalize hput₀ : (⟨0, .put sampleArtifact [1], Impl.initial {}, putState⟩ : Event Step Impl) = put
    at hruns
  have hassoc : [put] ++ (tr₁ ++ [v]) ++ (tr₂ ++ [e]) = (put :: tr₁) ++ v :: (tr₂ ++ [e]) := by simp
  rw [hassoc] at hruns
  have hvets : ∀ e' ∈ (put :: tr₁) ++ v :: (tr₂ ++ [e]), e'.label.vets e'.before := by
    intro e' he'
    simp only [List.mem_append, List.mem_cons, List.not_mem_nil, or_false] at he'
    rcases he' with (rfl | hmem) | rfl | hmem | rfl
    · rw [← hput₀]
      exact trivial
    · exact Step.vets_of_stage _ (.inl (hplain₁ e' hmem))
    · rw [hcommit]
      exact fun hfailed => Bool.noConfusion hfailed
    · exact Step.vets_of_stage _ (hstages e' hmem)
    · rw [hlabel]
      exact trivial
  have hnone : ∀ e' ∈ tr₂, ∀ res', e'.label ≠ .validateCommit 0 res' := by
    intro e' he' res' hverdict
    have hstage := hstages e' he'
    rw [hverdict] at hstage
    exact hstage.elim Stage.noConfusion Stage.noConfusion
  obtain ⟨hhealthy, hverdict⟩ := lease_healthy hruns hvets (e := e) (by simp) hlabel hgrant
  exact ⟨_, v, tr₂, e, _, hruns, hvets, hcommit, 0, hlabel, hgrant, hhealthy.1,
    hverdict _ v tr₂ [] _ rfl hcommit hnone⟩

/-! ## A lease on a record that failed its validation -/

/-- A backend whose validator passes nothing. -/
def strictEnv : Env :=
  { backends := [{ name := [], validator := some { validate := fun _ _ _ _ => .ok {} } }] }

/-- A validation, alone, of a record whose backend has a validator. -/
theorem validate_traced (env : Env) (i : Nat) {s : Impl} (request : KernelLookupRequest)
    {id : ArtifactId} {p : Nat} {vd : ValidationDescriptor} (hid : s.byId.lookup id = some p)
    (hcall : ({ s with tick := s.tick + 1 } : Impl).validateCall env p request.device =
      some (.ok vd)) :
    ∃ tr, ((Operation.validate request id).prog env).traced (exec env) i s =
      some (tr, .validation vd,
        { s.modify p (fun r => r.validatedBy (.ok vd)) with tick := s.tick + 3 }) := by
  simp only [Operation.prog, validateOp, Prog.bind_eq, sect, perform, Prog.bind, Prog.traced, exec,
    Step.ready, Step.effect, if_true, hid, hcall, Prog.pure_eq]
  exact ⟨_, rfl⟩

/-- **A lease can find a record that failed its validation.** The record is in use when a second
acquire finds it; a validation that passes nothing commits before that acquire leases it, and `InUse`
does not lead to `Corrupt`. -/
theorem lease_unvalidated : ∃ tr pool, CacheRuns strictEnv {} tr pool ∧ ∃ e ∈ tr, ∃ lease,
    e.label = .grantLease 0 false ∧ (e.before.grantLease strictEnv 0 false).1 = .ok lease ∧
    (e.before.records 0).validated = false := by
  have hput : CacheRuns strictEnv {} [⟨0, .put sampleArtifact [1], Impl.initial {}, putState⟩]
      ⟨putState, [.ret (.id ⟨⟨1, 7⟩⟩)]⟩ :=
    Runs.refl.complete (p := (Operation.put sampleArtifact [1]).prog strictEnv) ⟨_, rfl⟩ rfl
  -- one acquire to the end: the record is in use
  have hlookup := putState_lookup (s := putState) rfl rfl rfl rfl {}
  obtain ⟨tr₁, s₁, hacquire, hrw, -⟩ := acquireImpl_traced_untiered strictEnv 1
    { desiredTier := .none } (s := putState) (p := 0) defaultKey_wellFormed rfl hlookup rfl rfl rfl
    rfl rfl
  have hone : s₁.HoldsOne ⟨⟨1, 7⟩⟩ ((putState.records 0).leased 0 false) :=
    Impl.HoldsOne.rewrites ⟨rfl, rfl, AList.lookup_insert _, rfl⟩ hrw
  have hinUse := hput.complete ⟨_, rfl⟩ (acquire_traced hacquire)
  -- a second acquire looks it up
  have hlookup₁ := hone.lookup rfl rfl rfl {}
  have hlooked := lookupImpl_traced strictEnv 2
    { desiredTier := .none, key := ({} : KernelCompatibilityKey).finalize } (s := s₁) rfl hone.free
  simp only [KernelCompatibilityKey.finalize_finalize, hlookup₁] at hlooked
  have hfound := (hinUse.spawn (p := (Operation.acquire { desiredTier := .none }).prog strictEnv)
    ⟨_, rfl⟩).advance (i := 2) (by rw [← Prog.bind_assoc]; rfl) hlooked
  -- the validation fails and commits
  generalize hd : accept .exactCompatible (str "canonical key digest matches exactly") = d at hfound
  generalize hs₂ : s₁.lookedUp (((putState.records 0).leased 0 false).hitResult d) = s₂ at hfound
  have hrec₂ : s₂.records 0 = (putState.records 0).leased 0 false := by
    rw [← hs₂]
    exact hone.record
  have hid₂ : s₂.byId.lookup ⟨⟨1, 7⟩⟩ = some 0 := by
    rw [← hs₂]
    exact hone.byId
  have hverdict : ({ s₂ with tick := s₂.tick + 1 } : Impl).validateCall strictEnv 0 {} =
      some (.ok {}) := by
    simp only [Impl.validateCall, hrec₂]
    rfl
  obtain ⟨tr₃, hvalidate⟩ := validate_traced strictEnv 3 {} hid₂ hverdict
  have hfailed := hfound.complete (p := (Operation.validate {} ⟨⟨1, 7⟩⟩).prog strictEnv) ⟨_, rfl⟩
    hvalidate
  generalize hs₃ : ({ s₂.modify 0 fun r => r.validatedBy (.ok {}) with tick := s₂.tick + 3 } : Impl) =
    s₃ at hfailed
  have hrec₃ : s₃.records 0 = ((putState.records 0).leased 0 false).validatedBy (.ok {}) := by
    rw [← hs₃]
    show (s₂.modify 0 fun r => r.validatedBy (.ok {})).records 0 = _
    rw [Impl.modify_records, if_pos rfl, hrec₂]
  have hid₃ : s₃.byId.lookup
      ((((putState.records 0).leased 0 false).hitResult d).artifact.getD default) = some 0 := by
    rw [← hs₃]
    exact hid₂
  have hfree₃ : s₃.statsHeld = false := by
    rw [← hs₃]
    show s₂.statsHeld = false
    rw [← hs₂]
    exact hone.free
  -- the second acquire goes on to its lease
  have hfind : exec strictEnv (.find ⟨⟨1, 7⟩⟩) s₃ = some { s₃ with tick := s₃.tick + 1 } := rfl
  simp only [acquireDecided, ArtifactRecord.hitResult_isHit, if_true] at hfailed
  have hleasing := hfailed.step (i := 2) rfl hfind
  simp only [hid₃] at hleasing
  have hgrant : exec strictEnv (.grantLease 0 false) { s₃ with tick := s₃.tick + 1 } =
      some { (({ s₃ with tick := s₃.tick + 1 } : Impl).grantLease strictEnv 0 false).2 with
        tick := s₃.tick + 2 } := exec_eq_some.mpr ⟨by simp [Step.ready, hfree₃], rfl⟩
  refine ⟨_, _, hleasing.step (i := 2) rfl hgrant, _,
    List.mem_append_right _ (List.mem_singleton_self _), s₃.nextLease, rfl, ?_, ?_⟩
  · simp only [Impl.grantLease, hrec₃]
    rfl
  · show (s₃.records 0).validated = false
    rw [hrec₃]
    rfl

end KernelCache
