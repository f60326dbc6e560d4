/-
# KernelCache.SlotRelease — what an owner leaves behind when its `build_impl` is over.

The owner registers a fence, runs backend code that is not the cache's, and cleans up in straight-line
code after it: it counts the build out, fulfils the promise and takes the fence out of `in_flight`.  An
error the backend returns passes through that code; an exception it throws does not.  So the slot is
released at the end of the call exactly when the backend does not throw (`slot_released_iff`).

That the fence is gone and the gauge is back is shown of the program that follows the join, under
assertions no other thread can break (`Runs.sat_call`); that the promise is kept, or never will be, by the
build protocol (`Flight`).
-/
import KernelCache.Duties
import KernelCache.LastCopy
import KernelCache.OneCompile

namespace KernelCache

open Foundation (Prog Runs Pool Event Stable phases pathOf walked)
open Foundation.Prog (sect perform Sat Phased)

/-! ## Entries of a fence -/

/-- Where the fence may stand in `in_flight`. -/
def Impl.EntriesIn (D : Sha256Digest → Prop) (fence : Nat) (s : Impl) : Prop :=
  fence < s.nextFence ∧ ∀ digest, s.inFlight.lookup digest = some fence → D digest

section Entries

variable {env : Env} {D : Sha256Digest → Prop} {fence : Nat} {l : Step} {s s' : Impl}

/-- Where an entry comes from: it was there, or this is the join that has made its fence. -/
theorem exec_inFlight (h : exec env l s = some s') (hl : l.Proper) {digest : Sha256Digest}
    (hentry : s'.inFlight.lookup digest = some fence) : s.inFlight.lookup digest = some fence ∨
      (l = .join digest ∧ fence = s.nextFence ∧ fence < s'.nextFence) := by
  by_cases hother : l.isFence = false
  · rw [← (exec_sameFences h hl hother).inFlight]
    exact .inl hentry
  obtain ⟨-, rfl⟩ := exec_eq_some.mp h
  cases l with
  | join d =>
    change (s.join d).2.inFlight.lookup digest = some fence at hentry
    show _ ∨ (_ ∧ _ ∧ fence < (s.join d).2.nextFence)
    cases hd : s.inFlight.lookup d with
    | some f =>
      simp only [Impl.join, hd, Impl.bump] at hentry
      exact .inl hentry
    | none =>
      simp only [Impl.join, hd] at hentry ⊢
      by_cases heq : digest = d
      · subst heq
        rw [AList.lookup_insert] at hentry
        cases hentry
        exact .inr ⟨rfl, rfl, Nat.lt_succ_self _⟩
      · rw [AList.lookup_insert_ne heq] at hentry
        exact .inl hentry
  | fulfil f o =>
    change (s.fulfil f o).inFlight.lookup digest = some fence at hentry
    unfold Impl.fulfil at hentry
    split at hentry <;> exact .inl hentry
  | eraseFence f d =>
    change (s.eraseFence f d).inFlight.lookup digest = some fence at hentry
    unfold Impl.eraseFence at hentry
    split at hentry
    · by_cases heq : digest = d
      · subst heq
        rw [AList.lookup_erase] at hentry
        cases hentry
      · rw [AList.lookup_erase_ne heq] at hentry
        exact .inl hentry
    · exact .inl hentry
  | _ => exact absurd rfl hother

theorem exec_nextFence_le (h : exec env l s = some s') (hl : l.Proper) :
    s.nextFence ≤ s'.nextFence := by
  by_cases hother : l.isFence = false
  · exact (exec_sameFences h hl hother).nextFence.ge
  obtain ⟨-, rfl⟩ := exec_eq_some.mp h
  cases l with
  | join d =>
    show s.nextFence ≤ (s.join d).2.nextFence
    cases hd : s.inFlight.lookup d with
    | some f => simp only [Impl.join, hd, Impl.bump, le_refl]
    | none => simp only [Impl.join, hd, Nat.le_succ]
  | fulfil f o =>
    show s.nextFence ≤ (s.fulfil f o).nextFence
    unfold Impl.fulfil
    split <;> exact le_rfl
  | eraseFence f d =>
    show s.nextFence ≤ (s.eraseFence f d).nextFence
    unfold Impl.eraseFence
    split <;> exact le_rfl
  | _ => exact absurd rfl hother

/-- Nobody puts a fence back. -/
theorem stable_entriesIn : Stable (exec env) ProperSteps (Impl.EntriesIn D fence) := by
  intro l s s' hs h hl
  refine ⟨lt_of_lt_of_le hs.1 (exec_nextFence_le h hl), fun digest hentry => ?_⟩
  rcases exec_inFlight h hl hentry with hold | ⟨-, hnew, -⟩
  · exact hs.2 digest hold
  · exact absurd hs.1 (by omega)

/-- The owner takes its fence out. -/
theorem exec_eraseFence_gone {digest : Sha256Digest}
    (h : exec env (.eraseFence fence digest) s = some s') (hs : s.EntriesIn (· = digest) fence) :
    s'.EntriesIn (fun _ => False) fence := by
  refine ⟨lt_of_lt_of_le hs.1 (exec_nextFence_le h trivial), fun d hentry => ?_⟩
  have hold : s.inFlight.lookup d = some fence :=
    (exec_inFlight h trivial hentry).resolve_right fun hno => Step.noConfusion hno.1
  obtain rfl : d = digest := hs.2 d hold
  obtain ⟨-, rfl⟩ := exec_eq_some.mp h
  change (s.eraseFence fence d).inFlight.lookup d = some fence at hentry
  rw [Impl.eraseFence, if_pos hold] at hentry
  change (s.inFlight.erase d).lookup d = some fence at hentry
  rw [AList.lookup_erase] at hentry
  cases hentry

/-- A promise is kept for good. -/
theorem stable_kept : Stable (exec env) ProperSteps (fun s => (s.fences fence).isSome = true) := by
  intro l s s' hs h hl
  show (s'.fences fence).isSome = true
  by_cases hother : l.isFence = false
  · rw [(exec_sameFences h hl hother).fences]
    exact hs
  obtain ⟨-, rfl⟩ := exec_eq_some.mp h
  cases l with
  | join d =>
    show ((s.join d).2.fences fence).isSome = true
    unfold Impl.join
    split <;> exact hs
  | fulfil f o =>
    show ((s.fulfil f o).fences fence).isSome = true
    unfold Impl.fulfil
    split
    · exact hs
    · by_cases hf : fence = f
      · subst hf
        simp
      · simpa [Function.update_of_ne hf] using hs
  | eraseFence f d =>
    show ((s.eraseFence f d).fences fence).isSome = true
    unfold Impl.eraseFence
    split <;> exact hs
  | _ => exact absurd rfl hother

/-- The owner keeps its promise. -/
theorem exec_fulfil_kept {o : Outcome} (h : exec env (.fulfil fence o) s = some s') :
    (s'.fences fence).isSome = true := by
  obtain ⟨-, rfl⟩ := exec_eq_some.mp h
  show ((s.fulfil fence o).fences fence).isSome = true
  unfold Impl.fulfil
  split
  · rename_i heq
    rw [heq]
    rfl
  · simp

/-- All fences in flight have been handed out. -/
def Impl.FencesKnown (s : Impl) : Prop :=
  ∀ digest fence, s.inFlight.lookup digest = some fence → fence < s.nextFence

theorem exec_fencesKnown (h : exec env l s = some s') (hl : l.Proper) (hs : s.FencesKnown) :
    s'.FencesKnown := by
  intro digest f hentry
  rcases exec_inFlight h hl hentry with hold | ⟨-, -, hlt⟩
  · exact lt_of_lt_of_le (hs digest f hold) (exec_nextFence_le h hl)
  · exact hlt

theorem runs_fencesKnown {store : FilePersistenceStore} {tr : List (Event Step Impl)}
    {pool : Pool Step Impl Answer} (h : CacheRuns env store tr pool) :
    (∀ e ∈ tr, e.before.FencesKnown ∧ e.after.FencesKnown) ∧ pool.shared.FencesKnown := by
  refine Runs.invariant ?_ h fun e he hs => exec_fencesKnown (h.event_step e he)
    (runs_proper h e he) hs
  intro digest fence hentry
  have hempty : (Impl.initial store).inFlight.lookup digest = none := AList.lookup_empty _
  rw [hempty] at hentry
  cases hentry

/-- A new fence stands under the key it was made for only. -/
theorem exec_join_entries {digest : Sha256Digest} {gen : ArtifactGeneration}
    (h : exec env (.join digest) s = some s') (hs : s.FencesKnown)
    (howner : (s.join digest).1 = .owner fence gen) : s'.EntriesIn (· = digest) fence := by
  obtain ⟨hnew, hmine⟩ : fence = s.nextFence ∧ s'.inFlight.lookup digest = some s.nextFence := by
    obtain ⟨-, rfl⟩ := exec_eq_some.mp h
    cases hd : s.inFlight.lookup digest with
    | some f =>
      rw [(join_of_some hd).1] at howner
      cases howner
    | none =>
      obtain ⟨hjoined, hentry⟩ := join_of_none hd
      rw [hjoined] at howner
      cases howner
      exact ⟨rfl, hentry⟩
  rw [← hnew] at hmine
  refine ⟨exec_fencesKnown h trivial hs digest fence hmine, fun d hentry => ?_⟩
  rcases exec_inFlight h trivial hentry with hold | ⟨hjoin, -⟩
  · exact absurd (hs d fence hold) (by omega)
  · cases hjoin
    rfl

end Entries

/-! ## The owner after the join -/

/-- The sections of an owner after `run_build`. -/
def Step.afterBuild : Step → Prop
  | .runBuild _ _ | .resetStats | .join _ => False
  | _ => True

theorem Step.afterBuild_of_finishes {l : Step} (h : l.finishes = true) : l.afterBuild := by
  cases l <;> first | exact trivial | cases h

section Owner

variable {env : Env} {fence : Nat}

/-- An error of `run_build` is an exception. -/
theorem runBuild_error {request : KernelLookupRequest} {tick : Nat} {gen : ArtifactGeneration}
    {e : Failure} (h : runBuild env tick request gen = .error e) : e = .exception := by
  unfold runBuild validateBuilt at h
  dsimp only at h
  repeat' split at h
  all_goals cases h
  all_goals rfl

/-- **The control paths of an owner.** The call throws if and only if the backend does, and is over
then. -/
theorem buildOwner_path {request : KernelLookupRequest} {digest : Sha256Digest}
    {gen : ArtifactGeneration} {path : List (Step × Impl)} {res : Result ArtifactDescriptor}
    (h : (buildOwner env request digest fence gen).Leads path (.ret res)) :
    ∃ s rest, path = (.runBuild request gen, s) :: rest ∧ (∀ x ∈ rest, x.1.afterBuild) ∧
      (res = .error .exception ↔ env.BuildThrows s.tick request) ∧
      (res = .error .exception → rest = []) := by
  unfold buildOwner runBuildOp at h
  rw [Prog.bind_eq, Prog.bind_eq, Prog.bind_assoc] at h
  obtain ⟨s, rest, rfl, hrest⟩ := h.of_sect
  refine ⟨s, rest, rfl, ?_⟩
  have hiff : (∃ e, runBuild env s.tick request gen = .error e) ↔ env.BuildThrows s.tick request :=
    runBuild_error_iff
  rw [← hiff]
  cases hrun : runBuild env s.tick request gen with
  | error e =>
    rw [hrun] at hrest
    cases hrest
    exact ⟨fun x hx => (by cases hx), ⟨fun _ => ⟨e, rfl⟩, fun _ => by rw [runBuild_error hrun]⟩,
      fun _ => rfl⟩
  | ok o =>
    rw [hrun] at hrest
    have hfinish : (finishBuild env digest fence o).Text Step.afterBuild
        fun res => res ≠ .error .exception :=
      (finishBuild_text digest fence o).mono (fun _ => Step.afterBuild_of_finishes) fun _ h => h
    obtain ⟨hlabels, hres⟩ := hrest.of_text (B := Step.afterBuild)
      (Q := fun res => res ≠ .error .exception) (by
        refine Prog.Text.bind (Q := fun r => r = .ok o) ?_ fun r hr => by rw [hr]; exact hfinish
        dsimp only
        split
        · exact .first trivial fun _ => .first trivial fun _ => rfl
        · exact rfl)
    exact ⟨hlabels, ⟨fun hno => absurd hno hres, fun hno => by obtain ⟨e, he⟩ := hno; cases he⟩,
      fun hno => absurd hno hres⟩

/-- The slot is free: the fence stands nowhere, and whoever waits for it can go on. -/
def Impl.Released (fence : Nat) (s : Impl) : Prop :=
  s.EntriesIn (fun _ => False) fence ∧ (s.fences fence).isSome = true

theorem stable_released : Stable (exec env) ProperSteps (Impl.Released fence) :=
  stable_entriesIn.and stable_kept

/-- The slot is released unless the call throws. -/
theorem buildOwner_releases (request : KernelLookupRequest) (digest : Sha256Digest)
    (gen : ArtifactGeneration) :
    (buildOwner env request digest fence gen).Sat (exec env) ProperSteps (fun _ _ _ => True)
      (fun res s => res = .error .exception ∨ s.Released fence)
      (Impl.EntriesIn (· = digest) fence) := by
  have hdone : ∀ {α : Type} (p : Op (Result α)), p.Sat (exec env) ProperSteps (fun _ _ _ => True)
      (fun res s => res = .error .exception ∨ s.Released fence) (Impl.Released fence) :=
    fun p => (Sat.of_stable stable_released).weaken (fun _ h => h) fun _ _ h => .inr h
  have w : Walk (Guaranteed env ProperSteps fun _ _ _ => True) fun _ => True :=
    walk_guaranteed fun _ _ _ _ _ _ _ => trivial
  have hrun : Guaranteed env ProperSteps (fun _ _ _ => True) _
      (fun res => ∀ e, res = .error e → e = .exception) (runBuildOp env request gen) :=
    w.runBuildOp trivial trivial fun tick e he => runBuild_error he
  unfold buildOwner
  refine Sat.bind (Guaranteed.carry stable_entriesIn hrun) fun res => ?_
  cases res with
  | error e => exact Sat.ret fun s hs => .inl (congrArg _ (hs.1 e rfl))
  | ok o =>
    unfold finishBuild
    refine Sat.bind ((Sat.of_stable (stable_entriesIn (D := (· = digest)))).weaken
      (fun _ h => h.2) fun _ _ h => h) fun _ => ?_
    refine Sat.bind (Q := fun _ s => s.EntriesIn (· = digest) fence ∧ (s.fences fence).isSome = true)
      (Sat.sect (fun _ => stable_entriesIn.and stable_kept) fun s s' hs h hl =>
        ⟨trivial, stable_entriesIn _ _ _ hs h hl, exec_fulfil_kept h⟩) fun _ => ?_
    refine Sat.bind (Q := fun _ s => s.Released fence)
      (Sat.sect (fun _ => stable_released) fun s s' hs h hl =>
        ⟨trivial, exec_eraseFence_gone h hs.1, stable_kept _ _ _ hs.2 h hl⟩) fun _ => ?_
    exact hdone _

end Owner

/-! ## The call -/

section Call

variable {env : Env} {store : FilePersistenceStore} {tr₁ mid : List (Event Step Impl)}
  {e : Event Step Impl} {pool : Pool Step Impl Answer} {request : KernelLookupRequest}
  {res : Result ArtifactDescriptor} {fence : Nat} {gen : ArtifactGeneration}

/-- A `build_impl` that has become the owner: its first section is the join, and the owner's program
follows. -/
theorem buildImpl_path
    (hcall : (buildImpl env request).Leads (pathOf (e :: mid) e.thread) (.ret res))
    (howner : (e.before.join (buildDigest env request)).1 = .owner fence gen) :
    e.label = .join (buildDigest env request) ∧
      (buildOwner env (buildRequestOf env request) (buildDigest env request) fence gen).Leads
        (pathOf mid e.thread) (.ret res) := by
  rw [Foundation.pathOf_cons_self] at hcall
  obtain ⟨s, rest, hpath, hrest⟩ := Prog.Leads.of_sect hcall
  obtain ⟨hhead, rfl⟩ := List.cons.inj hpath
  obtain ⟨hlabel, rfl⟩ := Prod.mk.inj hhead
  have hjoined : (e.before.join (buildRequestOf env request).key.ensureFinalized.digest).1 =
      .owner fence gen := howner
  rw [hjoined] at hrest
  exact ⟨hlabel, hrest⟩

/-- An owner has found no fence. -/
theorem lookup_of_owner {s : Impl} {digest : Sha256Digest}
    (h : (s.join digest).1 = .owner fence gen) : s.inFlight.lookup digest = none := by
  cases hd : s.inFlight.lookup digest with
  | some f =>
    rw [(join_of_some hd).1] at h
    cases h
  | none => rfl

/-- The owner counts its build out, whatever else is counted meanwhile. -/
theorem owner_counts_out (h : CacheRuns env store (tr₁ ++ e :: mid) pool)
    (hcall : (buildImpl env request).Leads (pathOf (e :: mid) e.thread) (.ret res))
    (howner : (e.before.join (buildDigest env request)).1 = .owner fence gen)
    (hthrows : ∀ e' ∈ mid, e'.thread = e.thread → ¬ e'.label.Throws env e'.before)
    (hothers : ∀ e' ∈ mid, e'.thread ≠ e.thread →
      e'.after.stats.activeBuilds = e'.before.stats.activeBuilds) :
    pool.shared.stats.activeBuilds = e.before.stats.activeBuilds := by
  obtain ⟨hlabel, hleads⟩ := buildImpl_path hcall howner
  obtain ⟨s₂, rest, hpath, hlabels, -⟩ := buildOwner_path hleads
  obtain ⟨-, ts, -, hmid⟩ := h.cut rfl
  have hduty := runs_duty h
  have hdone := hmid.phased_call (C := fun _ _ _ => True) (fun _ _ => trivial)
    (buildOwner_does _ _ fence gen) (Stable.const _ _ True) trivial hleads
  have hstart : e.after.stats.activeBuilds = e.before.stats.activeBuilds + 1 := by
    have hgauge := congrArg Prod.fst (exec_gauges (h.event_step e (by simp)))
    rw [hlabel] at hgauge
    rw [show e.after.stats.activeBuilds = _ from hgauge]
    simp only [Step.gaugesAfter, if_pos (lookup_of_owner howner)]
  -- the gauge follows the duty of the owner
  have hgauge := (Runs.history (I := fun tr s => s.stats.activeBuilds =
    e.before.stats.activeBuilds + (walked (Duty.next env) .build (pathOf tr e.thread)).count)
    hstart hmid fun tr' e' hpre hI => ?_).2
  · rw [hgauge, hdone.2]
    rfl
  have he' : e' ∈ mid := hpre.subset (by simp)
  by_cases hi : e'.thread = e.thread
  · have hok := hduty (tr₁ ++ e :: tr') e' (by simpa using hpre)
    have hstep := h.event_step e' (by simp [he'])
    -- the duty of the owner is where its path has led it
    have hwalked : phases (Duty.next env) (fun _ => .none) (tr₁ ++ e :: tr') e'.thread =
        walked (Duty.next env) .build (pathOf tr' e.thread) := by
      have hnone := hduty tr₁ e ⟨mid, by simp⟩
      rw [hlabel] at hnone
      have hnone' : phases (Duty.next env) (fun _ => .none) tr₁ e.thread = .none := hnone
      rw [hi, Foundation.phases_append, Foundation.phases_eq_walked, Foundation.pathOf_cons_self,
        hnone', hlabel]
      show walked _ (Duty.joined (e.before.join (buildDigest env request)).1) _ = _
      rw [howner]
      rfl
    rw [hwalked] at hok
    have hnoreset : e'.label ≠ .resetStats := by
      have hmem := Foundation.mem_pathOf he'
      rw [hi, hpath] at hmem
      intro hreset
      rcases List.mem_cons.mp hmem with heq | hrest
      · rw [hreset] at heq
        cases heq
      · have hno := hlabels _ hrest
        rw [hreset] at hno
        exact hno
    have hmoved := (exec_activeBuilds hstep hok hnoreset (by rw [hI]; omega)).mpr
      (hthrows e' he' hi)
    show e'.after.stats.activeBuilds = _
    rw [← hi, Foundation.pathOf_concat_self, Foundation.walked_concat, hi]
    dsimp only
    omega
  · show e'.after.stats.activeBuilds = _
    rw [hothers e' he' hi, hI, Foundation.pathOf_concat_other _ hi]

/-- What is claimed of the slot when the call of its owner is over. -/
structure SlotReleased (e : Event Step Impl) (mid : List (Event Step Impl)) (fence : Nat)
    (s : Impl) : Prop where
  /-- The fence is no longer in `in_flight`. -/
  erased : ∀ digest, s.inFlight.lookup digest ≠ some fence
  /-- Its promise has been completed. -/
  completed : (s.fences fence).isSome = true
  /-- `active_builds` is what it was before the call, unless other callers have changed it. -/
  counted : (∀ e' ∈ mid, e'.thread ≠ e.thread →
      e'.after.stats.activeBuilds = e'.before.stats.activeBuilds) →
    s.stats.activeBuilds = e.before.stats.activeBuilds

/-- **The single-flight slot.** In every interleaved run, when a `build_impl` that has become the owner
of a fence is over, by a return or by an exception: the fence is out of `in_flight`, its promise has been
completed and `active_builds` is back, if and only if the backend has not thrown on the request. -/
theorem slot_released_iff (h : CacheRuns env store (tr₁ ++ e :: mid) pool)
    (hcall : (buildImpl env request).Leads (pathOf (e :: mid) e.thread) (.ret res))
    (howner : (e.before.join (buildDigest env request)).1 = .owner fence gen) :
    SlotReleased e mid fence pool.shared ↔
      ∀ e' ∈ mid, e'.thread = e.thread → ¬ e'.label.Throws env e'.before := by
  obtain ⟨hlabel, hleads⟩ := buildImpl_path hcall howner
  obtain ⟨s₂, rest, hpath, hlabels, hthrown, hover⟩ := buildOwner_path hleads
  obtain ⟨-, ts, -, hmid⟩ := h.cut rfl
  -- only the `run_build` of the call can throw
  have hthrows : (∀ e' ∈ mid, e'.thread = e.thread → ¬ e'.label.Throws env e'.before) ↔
      ¬ env.BuildThrows s₂.tick (buildRequestOf env request) := by
    constructor
    · intro hall hno
      obtain ⟨e', he', hi, heq⟩ := Foundation.exists_of_mem_pathOf (hpath ▸ List.mem_cons_self)
      obtain ⟨hrun, hat⟩ := Prod.mk.inj heq
      refine hall e' he' hi ?_
      rw [← hrun, ← hat]
      exact hno
    · intro hno e' he' hi hthrow
      have hmem := Foundation.mem_pathOf he'
      rw [hi, hpath] at hmem
      rcases List.mem_cons.mp hmem with heq | hrest
      · obtain ⟨hrun, hat⟩ := Prod.mk.inj heq
        rw [hrun, hat] at hthrow
        exact hno hthrow
      · have hafter : e'.label.afterBuild := hlabels _ hrest
        generalize e'.label = l at hthrow hafter
        cases l with
        | runBuild r g => exact hafter
        | _ => exact hthrow
  rw [hthrows, ← hthrown]
  constructor
  · rintro hreleased rfl
    -- the path ends after `run_build`, where the promise is still owed
    have hphase : callerPhases (tr₁ ++ e :: mid) e.thread =
        .built (buildDigest env request) fence := by
      have hout := runs_party h tr₁ e ⟨mid, by simp⟩
      rw [hlabel] at hout
      rw [callerPhases, Foundation.phases_append, Foundation.phases_eq_walked,
        Foundation.pathOf_cons_self, hpath, hover rfl, hlabel]
      show Phase.next (Phase.next _ _ _) _ _ = _
      rw [next_join hout, howner]
      rfl
    have hopen := ((runs_flight h).1.owed e.thread fence (by rw [hphase]; rfl)).2
    have hkept := hreleased.completed
    rw [hopen] at hkept
    cases hkept
  · intro hreturned
    have hjoin := h.event_step e (by simp)
    rw [hlabel] at hjoin
    have hentries := exec_join_entries hjoin ((runs_fencesKnown h).1 e (by simp)).1 howner
    have hreleased := (hmid.sat_call (fun e' he' => runs_proper h e' (by simp [he']))
      (buildOwner_releases _ _ gen) stable_entriesIn hentries hleads).resolve_left hreturned
    refine ⟨fun digest hentry => hreleased.1.2 digest hentry, hreleased.2, fun hothers => ?_⟩
    refine owner_counts_out h hcall howner (hthrows.mpr ?_) hothers
    rw [← hthrown]
    exact hreturned

end Call

/-! ## Two calls -/

/-- The stub backend returns from every build. -/
theorem stubEnv_returns (tick : Nat) (request : KernelLookupRequest) :
    ¬ stubEnv.BuildThrows tick request := by
  rintro ⟨backend, builder, validator, loader, hfound, hbuilder, hvalidator, -, hthrows⟩
  obtain rfl : backend = stubBackend := List.mem_singleton.mp (findBackend_mem hfound)
  cases hbuilder
  cases hvalidator
  rcases hthrows with hno | ⟨res, -, hno⟩
  · cases hno
  · cases hno

/-- The first build of the stub backend. -/
theorem slot_released_iff_sample : ∃ e mid pool res, CacheRuns stubEnv {} ([] ++ e :: mid) pool ∧
    (buildImpl stubEnv {}).Leads (pathOf (e :: mid) e.thread) (.ret res) ∧
    (e.before.join (buildDigest stubEnv {})).1 = .owner 0 0 ∧
    (∀ e' ∈ mid, e'.thread = e.thread → ¬ e'.label.Throws stubEnv e'.before) ∧
    SlotReleased e mid 0 pool.shared := by
  have hflight : (Impl.initial {}).inFlight.lookup (buildDigest stubEnv {}) = none :=
    AList.lookup_empty _
  obtain ⟨tr, s, hbuild, -⟩ := buildImpl_traced_of_new {} 0 (s := Impl.initial {}) rfl
    (Impl.initial_fencesIdle {}) hflight
    (show runBuild stubEnv 1 (buildRequestOf stubEnv {}) 0 = .ok stubOutcome from rfl) rfl
    (AList.lookup_empty _) rfl
  have hruns : CacheRuns stubEnv {} ([] ++ tr) ⟨s, [] ++ [.ret _]⟩ :=
    Runs.refl.complete ⟨_, rfl⟩ (build_traced hbuild)
  have hpath := Prog.Leads.of_traced hbuild
  obtain ⟨tr₁, joined, s₁, mid, hjoin, -, rfl⟩ := Prog.traced_of_bind.mp hbuild
  obtain ⟨-, -, rfl⟩ := Prog.traced_sect.mp hjoin
  have howner : ((Impl.initial {}).join (buildDigest stubEnv {})).1 = .owner 0 0 :=
    (join_of_none hflight).1
  have hreturns : ∀ e' ∈ mid, e'.thread = 0 → ¬ e'.label.Throws stubEnv e'.before := by
    intro e' _ _ hno
    generalize e'.label = l at hno
    cases l with
    | runBuild request gen => exact stubEnv_returns _ _ hno
    | _ => exact hno
  exact ⟨_, mid, _, _, hruns, hpath, howner, hreturns,
    (slot_released_iff hruns hpath howner).mpr hreturns⟩

/-- The stub backend, with a validator that throws. -/
def throwingEnv : Env :=
  { backends := [{ stubBackend with
      validator := some { validate := fun _ _ _ _ => .error .exception } }] }

/-- The call of an owner whose backend throws, alone. -/
theorem buildImpl_traced_of_throw {env : Env} (request : KernelLookupRequest) {s : Impl} {e : Failure}
    (i : Nat) (hfree : s.statsHeld = false)
    (hflight : s.inFlight.lookup (buildDigest env request) = none)
    (hthrow : runBuild env (s.tick + 1) (buildRequestOf env request) s.nextGeneration = .error e) :
    ∃ s₁ s₂, (buildImpl env request).traced (exec env) i s =
        some ([⟨i, .join (buildDigest env request), s, s₁⟩,
          ⟨i, .runBuild (buildRequestOf env request) s.nextGeneration, s₁, s₂⟩], .error e, s₂) ∧
      s₂.inFlight.lookup (buildDigest env request) = some s.nextFence ∧ s₂.fences = s.fences ∧
      s₂.stats.activeBuilds = s.stats.activeBuilds + 1 := by
  obtain ⟨howner, hentry⟩ := join_of_none hflight
  have hjoin : exec env (.join (buildDigest env request)) s =
      some { (s.join (buildDigest env request)).2 with tick := s.tick + 1 } := by
    simp only [exec, Step.ready, hfree, Bool.not_false, if_true, Step.effect]
  generalize hs₁ : ({ (s.join (buildDigest env request)).2 with tick := s.tick + 1 } : Impl) = s₁
    at hjoin
  have htick : s₁.tick = s.tick + 1 := by rw [← hs₁]
  have hrun : exec env (.runBuild (buildRequestOf env request) s.nextGeneration) s₁ =
      some { s₁ with tick := s₁.tick + 1 } := rfl
  rw [← htick] at hthrow
  refine ⟨s₁, { s₁ with tick := s₁.tick + 1 },
    Prog.traced_of_bind.mpr ⟨_, _, _, _, Prog.traced_sect.mpr ⟨hjoin, rfl, rfl⟩, ?_,
    rfl⟩, ?_, ?_, ?_⟩
  · have hdigest : (buildRequestOf env request).key.ensureFinalized.digest = buildDigest env request :=
      rfl
    rw [hdigest, howner]
    exact Prog.traced_of_bind.mpr ⟨_, .error e, _, _, Prog.traced_of_bind.mpr ⟨_, .error e, _, _,
      Prog.traced_sect.mpr ⟨hrun, hthrow.symm, rfl⟩, rfl, rfl⟩, rfl, rfl⟩
  · rw [← hs₁]
    exact hentry
  · rw [← hs₁]
    simp only [Impl.join, hflight]
  · rw [← hs₁]
    simp only [Impl.join, hflight]

/-- **The slot is kept.** The validator throws in the first build of a key: the call is over, its fence
still stands in `in_flight` without a promise, the build is still counted, and the next caller of the
key becomes a waiter that cannot go on. -/
theorem slot_kept : ∃ e mid pool res, CacheRuns throwingEnv {} ([] ++ e :: mid) pool ∧
    (buildImpl throwingEnv {}).Leads (pathOf (e :: mid) e.thread) (.ret res) ∧
    (e.before.join (buildDigest throwingEnv {})).1 = .owner 0 0 ∧
    ¬ SlotReleased e mid 0 pool.shared ∧ (∀ q ∈ pool.threads, ∃ a, q = .ret a) ∧
    e.before.stats.activeBuilds = 0 ∧ pool.shared.stats.activeBuilds = 1 ∧
    (pool.shared.join (buildDigest throwingEnv {})).1 = .waiter 0 ∧
    exec throwingEnv (.await 0) pool.shared = none := by
  have hflight : (Impl.initial {}).inFlight.lookup (buildDigest throwingEnv {}) = none :=
    AList.lookup_empty _
  obtain ⟨s₁, s₂, hbuild, hentry, hfences, hone⟩ := buildImpl_traced_of_throw {} 0 rfl hflight
    (show runBuild throwingEnv 1 (buildRequestOf throwingEnv {}) 0 = .error .exception from rfl)
  have hopen : s₂.fences 0 = none := by
    rw [hfences]
    rfl
  refine ⟨_, _, _, _, Runs.refl.complete ⟨_, rfl⟩ (build_traced hbuild), Prog.Leads.of_traced hbuild,
    (join_of_none hflight).1, fun hreleased => ?_, by simp, rfl, hone, (join_of_some hentry).1, ?_⟩
  · exact hreleased.erased _ hentry
  · exact if_neg (by simp [Step.ready, hopen])

end KernelCache
