/-
# KernelCache.Delivery — the tier an acquire delivers (`cache.cpp`, `acquire_impl`; `residency.cpp`).

An acquire promotes the record it has found and then leases it.  In between, the device branch of
`promote_to_tier` runs `evict_to_fit`, and to that loop the promoted record is a candidate like any
other: nothing holds it yet.  A record that was never leased falls to a spent state when the loop takes
it, and the lease is refused.  A record in `InUse` does not: no transition leads from there to
`EvictionPending`, so the state says nothing of the eviction and the lease is granted on a record that
is off the device again.  `residency_delivered_iff` says exactly when the tier asked for is there.
-/
import KernelCache.Budgets
import KernelCache.LeaseSteps

namespace KernelCache

open Foundation (Bytes Prog Runs Pool Event)
open Foundation.Prog (sect perform Free Sat)

/-! ## An eviction alone -/

/-- The section chooses a victim. -/
def Step.isPick : Step → Bool
  | .pickVictim _ => true
  | _ => false

section Eviction

variable {env : Env}

theorem evictImpl_unpicking (id : ArtifactId) (force : Bool) :
    (evictImpl env id force).Free (exec env) (fun _ _ _ => True)
      (fun l _ _ => l.isPick = false) := by
  unfold evictImpl
  refine Free.bind (Free.sect fun _ _ _ _ => rfl) fun res => ?_
  cases res with
  | error e => exact Free.ret _
  | ok p =>
    refine Free.bind (Free.sect fun _ _ _ _ => rfl) fun unloaded => ?_
    split
    · exact Free.ret _
    · refine Free.bind (Free.sect fun _ _ _ _ => rfl) fun _ => ?_
      exact Free.bind (Free.sect fun _ _ _ _ => rfl) fun _ => Free.ret _

theorem Impl.evictBegin_error {s : Impl} {id : ArtifactId} {force : Bool} {e : Failure}
    (h : (s.evictBegin id force).1 = .error e) :
    (s.evictBegin id force).2.records = s.records ∧ ∀ p, s.byId.lookup id = some p →
      0 < (s.records p).leaseCount ∨ 0 < (s.records p).pinCount := by
  unfold Impl.evictBegin at h ⊢
  cases hid : s.byId.lookup id with
  | none => exact ⟨rfl, fun p hp => by cases hp⟩
  | some q =>
    simp only [hid] at h ⊢
    by_cases hbusy : 0 < (s.records q).leaseCount ∨ 0 < (s.records q).pinCount
    · rw [if_pos hbusy]
      refine ⟨by split <;> rfl, fun p hp => ?_⟩
      obtain rfl := Option.some.inj hp
      exact hbusy
    · rw [if_neg hbusy] at h
      cases h

/-- **An eviction alone**: refused, it changes no record; done, it has rewritten the one record its id
is bound to, which nothing leased or pinned; in between only an exception of the loader ends it, and
changes no other record either. -/
theorem evictImpl_traced {i : Nat} {id : ArtifactId} {force : Bool} {s s' : Impl}
    {tr : List (Event Step Impl)} {res : Result Unit}
    (h : (evictImpl env id force).traced (exec env) i s = some (tr, res, s')) :
    (∃ p, res = .ok () ∧ s.byId.lookup id = some p ∧ (s.records p).leaseCount = 0 ∧
        (s.records p).pinCount = 0 ∧ s.Rewrites s' p (s.records p).evictBegin.evictCommit) ∨
      (res = .error .exception ∧ ∃ p, s.byId.lookup id = some p ∧
        ∀ q, q ≠ p → s'.records q = s.records q) ∨
      (res ≠ .ok () ∧ s'.records = s.records ∧ ∀ p, s.byId.lookup id = some p →
        0 < (s.records p).leaseCount ∨ 0 < (s.records p).pinCount) := by
  unfold evictImpl at h
  rw [Prog.bind_eq, Prog.traced_of_bind] at h
  obtain ⟨tr₁, begun, s₁, tr₂, hbegin, h, rfl⟩ := h
  obtain ⟨hstep, hbegun, -⟩ := Prog.traced_sect.mp hbegin
  cases begun with
  | error e =>
    cases h
    obtain ⟨-, rfl⟩ := exec_eq_some.mp hstep
    obtain ⟨hrec, hbusy⟩ := Impl.evictBegin_error hbegun.symm
    exact .inr (.inr ⟨by simp, hrec, hbusy⟩)
  | ok p =>
    obtain ⟨hid, hlease, hpin, hmodify⟩ := Impl.evictBegin_ok hbegun.symm
    dsimp only at h
    rw [Prog.bind_eq, Prog.traced_of_bind] at h
    obtain ⟨tr₃, unloaded, s₂, tr₄, hunload, h, -⟩ := h
    obtain ⟨hstep₂, -, -⟩ := Prog.traced_sect.mp hunload
    have hrec := exec_rewritten hstep (p := p) (congrArg Impl.records hmodify)
    have hrec₂ : s₂.records = s₁.records := by
      obtain ⟨-, rfl⟩ := exec_eq_some.mp hstep₂
      exact Impl.unloadModule_records env s₁ p
    split at h
    · cases h
      exact .inr (.inl ⟨rfl, p, hid, fun q hq => by rw [hrec₂, hrec, if_neg hq]⟩)
    · rw [Prog.bind_eq, Prog.traced_of_bind] at h
      obtain ⟨tr₅, u, s₃, tr₆, hcommit, h, -⟩ := h
      rw [Prog.bind_eq, Prog.traced_of_bind] at h
      obtain ⟨tr₇, u', s₄, tr₈, hevent, h, -⟩ := h
      obtain ⟨hstep₃, -, -⟩ := Prog.traced_sect.mp hcommit
      obtain ⟨hstep₄, -, -⟩ := Prog.traced_sect.mp hevent
      cases h
      refine .inl ⟨p, rfl, hid, hlease, hpin, ?_⟩
      have hrec₃ := exec_rewritten hstep₃ (p := p) (f := ArtifactRecord.evictCommit) rfl
      have hrec₄ : s'.records = s₃.records := by
        obtain ⟨-, rfl⟩ := exec_eq_some.mp hstep₄
        rfl
      refine ⟨?_, fun q hq => ?_, ?_, ?_, ?_⟩
      · rw [hrec₄, hrec₃, if_pos rfl, hrec₂, hrec, if_pos rfl]
      · rw [hrec₄, hrec₃, if_neg hq, hrec₂, hrec, if_neg hq]
      · have h₁ := exec_sameIndex hstep rfl
        have h₂ := exec_sameIndex hstep₂ rfl
        have h₃ := exec_sameIndex hstep₃ rfl
        have h₄ := exec_sameIndex hstep₄ rfl
        exact ((h₁.trans h₂).trans h₃).trans h₄
      · obtain ⟨hready, rfl⟩ := exec_eq_some.mp hstep₄
        show s₃.statsHeld = false
        simpa [Step.ready] using hready
      · rw [exec_store hstep₄ trivial rfl, exec_store hstep₃ trivial rfl,
          exec_store hstep₂ trivial rfl, exec_store hstep trivial rfl]

theorem ArtifactRecord.idle_of_not_held {r : ArtifactRecord} (h : r.held = false) :
    r.leaseCount = 0 ∧ r.pinCount = 0 := by
  simp only [ArtifactRecord.held, Bool.or_eq_false_iff, decide_eq_false_iff_not] at h
  omega

theorem ArtifactRecord.free_of_evictable {r : ArtifactRecord} {tier : ResidencyTier}
    (h : r.evictable tier = true) : r.held = false := by
  rw [ArtifactRecord.evictable, Bool.and_eq_true, Bool.not_eq_true'] at h
  exact h.1

/-- An eviction leaves a record leasable only if it was in `InUse`. -/
theorem ArtifactRecord.inUse_of_evicted {r : ArtifactRecord} (hvisited : r.state.isVisited = true)
    (h : r.evictBegin.evictCommit.leasable = true) : r.state = .inUse := by
  by_contra hne
  have hspent : r.evictBegin.state.isSpent = true :=
    ArtifactState.spent_of_evictionPending hvisited hne
  have hgone := r.evictBegin.evictCommit_evolves.spent hspent
  have helig := ArtifactState.not_eligible_of_spent hgone
  rw [ArtifactRecord.leasable, helig, Bool.and_false] at h
  cases h

theorem ArtifactRecord.evictCommit_tier (r : ArtifactRecord) : r.evictCommit.tier = r.fallbackTier := by
  unfold ArtifactRecord.evictCommit
  split <;> rfl

/-! ## The rounds of the loop -/

/-- The section chooses the record behind `p` for eviction. -/
def Step.picks (env : Env) (p : Nat) (s : Impl) : Step → Prop
  | .pickVictim tier => s.pickVictim env tier = some (s.records p).id
  | _ => False

theorem Step.not_picks {p : Nat} {s : Impl} {l : Step} (h : l.isPick = false) :
    ¬ l.picks env p s := by
  cases l with
  | pickVictim tier => cases h
  | _ => exact fun hpick => hpick

theorem evictRounds_trims (tier : ResidencyTier) (n : Nat) :
    (evictRounds env tier n).Free (exec env) (fun _ _ _ => True)
      (fun l _ _ => l.trims = true ∧ l.Proper) := by
  induction n with
  | zero =>
    unfold evictRounds
    refine Free.bind (Free.sect fun s s' hstep _ => ?_) fun _ => Free.ret _
    cases (exec_eq_some.mp hstep).1
  | succ n ih =>
    unfold evictRounds
    refine Free.bind (Free.sect fun _ _ _ _ => ⟨rfl, trivial⟩) fun victim => ?_
    cases victim with
    | none => exact Free.ret _
    | some id =>
      refine Free.bind (evictImpl_trims id false) fun res => ?_
      split
      · exact Free.ret _
      · exact ih

/-- What the rounds make of a record they have put off the device: it stays off, and it can be leased
at the end only if it could be leased then. -/
theorem evictRounds_gone {i n p : Nat} {s s' : Impl} {tr : List (Event Step Impl)} {res : Result Unit}
    (hs : s.Sound) (hp : p < s.nextRecord) (htier : (s.records p).tier ≠ .deviceResident)
    (h : (evictRounds env .deviceResident n).traced (exec env) i s = some (tr, res, s')) :
    (s'.records p).tier ≠ .deviceResident ∧
      ((s'.records p).leasable = true → (s.records p).leasable = true) := by
  have hend := Sat.traced
    (I := fun s₂ => s₂.Sound ∧ p < s₂.nextRecord ∧ (s₂.records p).tier ≠ .deviceResident ∧
      ((s₂.records p).leasable = true → (s.records p).leasable = true))
    (evictRounds_trims .deviceResident n) ?_ trivial ⟨hs, hp, htier, fun h => h⟩ h
  · exact hend.2.2.2
  · intro l s₃ s₄ hexec hl hI
    obtain ⟨hs₃, hp₃, htier₃, hleasable⟩ := hI
    have htrims := exec_trims hexec hl.1
    refine ⟨exec_sound hexec hl.2 hs₃, ?_, ?_, fun hlease => hleasable ?_⟩
    · rw [htrims.nextRecord]
      exact hp₃
    · rcases (htrims.records p hp₃).device with ⟨hsame, -⟩ | ⟨hgone, -⟩
      · rw [hsame]
        exact htier₃
      · exact hgone
    · exact (exec_evolves hexec hl.2 hp₃).leasable (hs₃.visited p hp₃) hlease

/-- **One round** that has picked a victim: it is the one record that changes, and it is evicted unless
the loader throws. -/
theorem evictImpl_picked {i : Nat} {tier : ResidencyTier} {id : ArtifactId} {s s₁ s₂ : Impl}
    {tr : List (Event Step Impl)} {res : Result Unit} (hs : s.Sound)
    (hvictim : s.pickVictim env tier = some id)
    (hstep : exec env (.pickVictim tier) s = some s₁)
    (h : (evictImpl env id false).traced (exec env) i s₁ = some (tr, res, s₂)) :
    ∃ v < s.nextRecord, (s.records v).id = id ∧ (s.records v).evictable tier = true ∧
      (∀ q, q ≠ v → s₂.records q = s.records q) ∧
      (res = .error .exception ∨
        (res = .ok () ∧ s₂.records v = (s.records v).evictBegin.evictCommit)) := by
  have hindex := exec_sameIndex hstep rfl
  have hsame : s₁.records = s.records := by
    obtain ⟨-, rfl⟩ := exec_eq_some.mp hstep
    rfl
  obtain ⟨v, hid, hevictable⟩ := Impl.pickVictim_evictable hvictim
  obtain ⟨hlt, hvid⟩ := hs.bound id v hid
  have hidle := ArtifactRecord.idle_of_not_held (ArtifactRecord.free_of_evictable hevictable)
  refine ⟨v, hlt, hvid, hevictable, ?_⟩
  have hmine : ∀ q, s₁.byId.lookup id = some q → q = v := by
    intro q hq
    rw [hindex.byId, hid] at hq
    exact (Option.some.inj hq).symm
  rcases evictImpl_traced h with ⟨q, rfl, hid', -, -, hrw⟩ | ⟨rfl, q, hid', hothers⟩ | ⟨-, -, hbusy⟩
  · obtain rfl := hmine q hid'
    rw [← hsame]
    exact ⟨hrw.others, .inr ⟨rfl, hrw.record⟩⟩
  · obtain rfl := hmine q hid'
    rw [← hsame]
    exact ⟨hothers, .inl rfl⟩
  · rw [hindex.byId, hsame] at hbusy
    have hcounts := hbusy v hid
    omega

/-- **The rounds and one record.** They leave it alone unless one of them picks it.  If one does, the
record is off the device at the end, and it can be leased only if it was idle in `InUse`. -/
theorem evictRounds_record {i n p : Nat} {s s' : Impl} {tr : List (Event Step Impl)} (hs : s.Sound)
    (hp : p < s.nextRecord)
    (h : (evictRounds env .deviceResident n).traced (exec env) i s = some (tr, .ok (), s')) :
    ((∀ e ∈ tr, ¬ e.label.picks env p e.before) ∧ s'.records p = s.records p) ∨
      ((∃ e ∈ tr, e.label.picks env p e.before) ∧ (s'.records p).tier ≠ .deviceResident ∧
        ((s'.records p).leasable = true →
          (s.records p).state = .inUse ∧ (s.records p).held = false)) := by
  induction n generalizing s tr with
  | zero =>
    unfold evictRounds at h
    rw [Prog.bind_eq, Prog.traced_of_bind] at h
    obtain ⟨tr₁, u, s₁, tr₂, hblocked, -⟩ := h
    cases (exec_eq_some.mp (Prog.traced_sect.mp hblocked).1).1
  | succ n ih =>
    unfold evictRounds at h
    rw [Prog.bind_eq, Prog.traced_of_bind] at h
    obtain ⟨tr₁, victim, s₁, tr₂, hpick, h, rfl⟩ := h
    obtain ⟨hstep, hvictim, rfl⟩ := Prog.traced_sect.mp hpick
    have hpicks : (Step.pickVictim .deviceResident).picks env p s ↔
        victim = some (s.records p).id := by
      rw [hvictim]
      rfl
    cases victim with
    | none =>
      cases h
      refine .inl ⟨fun e he => ?_, ?_⟩
      · rw [List.append_nil] at he
        rw [List.mem_singleton.mp he, hpicks]
        simp
      · obtain ⟨-, rfl⟩ := exec_eq_some.mp hstep
        rfl
    | some id =>
      dsimp only at h
      rw [Prog.bind_eq, Prog.traced_of_bind] at h
      obtain ⟨tr₃, evicted, s₂, tr₄, hevict, h, rfl⟩ := h
      have hokay : evicted ≠ .error .exception := by
        rintro rfl
        cases h
      have hrest : (evictRounds env .deviceResident n).traced (exec env) i s₂ =
          some (tr₄, .ok (), s') := by
        split at h
        · cases h
        · exact h
      obtain ⟨hunpicked, -⟩ := Sat.traced (I := fun _ => True) (evictImpl_unpicking id false)
        (fun _ _ _ _ _ _ => trivial) trivial trivial hevict
      obtain ⟨-, hs₂, hnext₂⟩ := Sat.traced
        (I := fun s₃ => s₃.Sound ∧ s₃.nextRecord = s.nextRecord) (evictImpl_trims id false)
        (fun l s₃ s₄ hexec hl hI => ⟨exec_sound hexec hl.2 hI.1,
          (exec_trims hexec hl.1).nextRecord.trans hI.2⟩)
        trivial ⟨exec_sound hstep trivial hs, (exec_sameIndex hstep rfl).nextRecord⟩ hevict
      obtain ⟨v, hv, hvid, hevictable, hother, hdone⟩ := evictImpl_picked hs hvictim.symm hstep hevict
      by_cases hid : id = (s.records p).id
      · -- this round takes the record, the later ones leave it where it fell
        obtain rfl := hs.id_inj hp hv (hid.symm.trans hvid.symm)
        obtain ⟨-, hevicted⟩ := hdone.resolve_left hokay
        have hfree := ArtifactRecord.free_of_evictable hevictable
        have hoff : (s₂.records p).tier ≠ .deviceResident := by
          rw [hevicted, ArtifactRecord.evictCommit_tier]
          exact (ArtifactRecord.fallbackTier_ne _).1
        obtain ⟨htier, hleasable⟩ := evictRounds_gone hs₂ (by omega) hoff hrest
        refine .inr ⟨⟨_, List.mem_append_left _ (List.mem_singleton_self _), ?_⟩, htier, ?_⟩
        · rw [hpicks, hid]
        · intro hlease
          have hearlier := hleasable hlease
          rw [hevicted] at hearlier
          exact ⟨ArtifactRecord.inUse_of_evicted (hs.visited p hp) hearlier, hfree⟩
      · have hlast := ih hs₂ (by omega) hrest
        rw [hother p fun heq => hid (hvid.symm.trans (congrArg (fun q => (s.records q).id) heq.symm))]
          at hlast
        refine hlast.imp (fun hspared => ⟨fun e he => ?_, hspared.2⟩) fun hpicked => ⟨?_, hpicked.2⟩
        · rcases List.mem_append.mp he with hfirst | hlater
          · rw [List.mem_singleton.mp hfirst, hpicks]
            exact fun heq => hid (Option.some.inj heq)
          · rcases List.mem_append.mp hlater with hthis | hnext
            · exact Step.not_picks (hunpicked e hthis).1
            · exact hspared.1 e hnext
        · obtain ⟨e, he, hpick⟩ := hpicked.1
          exact ⟨e, List.mem_append_right _ (List.mem_append_right _ he), hpick⟩

theorem evictToFit_record {i p : Nat} {s s' : Impl} {tr : List (Event Step Impl)} (hs : s.Sound)
    (hp : p < s.nextRecord)
    (h : (evictToFit env .deviceResident).traced (exec env) i s = some (tr, .ok (), s')) :
    ((∀ e ∈ tr, ¬ e.label.picks env p e.before) ∧ s'.records p = s.records p) ∨
      ((∃ e ∈ tr, e.label.picks env p e.before) ∧ (s'.records p).tier ≠ .deviceResident ∧
        ((s'.records p).leasable = true → env.cfg.residency.applyDeviceBudget = true ∧
          (s.records p).state = .inUse ∧ (s.records p).held = false)) := by
  unfold evictToFit at h
  simp only [beq_self_eq_true, if_true] at h
  cases happly : env.cfg.residency.applyDeviceBudget with
  | false =>
    simp only [happly, Bool.not_false, if_true] at h
    cases h
    exact .inl ⟨by simp, rfl⟩
  | true =>
    simp only [happly, Bool.not_true, Bool.false_eq_true, if_false] at h
    refine (evictRounds_record hs hp h).imp_right fun hpicked => ⟨hpicked.1, hpicked.2.1, ?_⟩
    exact fun hlease => ⟨rfl, hpicked.2.2 hlease⟩

end Eviction

/-! ## Promotions -/

/-- The record is where it was asked for, on the device with its module. -/
def ArtifactRecord.Delivered (r : ArtifactRecord) (desired : ResidencyTier) : Prop :=
  desired.rank ≤ r.tier.rank ∧ (desired = .deviceResident → r.nativeHandle ≠ none)

/-- The section finds the record behind `p` on the device without a module, or puts it there without
one. -/
def Step.lacksModule (p : Nat) (s : Impl) : Step → Prop
  | .readTier q =>
    q = p ∧ (s.records p).tier = .deviceResident ∧ (s.records p).nativeHandle = none
  | .commitDevice q handle _ => q = p ∧ handle = none
  | _ => False

/-- The section makes a promotion of the record behind `p` miss the device. -/
def Step.misses (env : Env) (p : Nat) (s : Impl) (l : Step) : Prop :=
  l.picks env p s ∨ l.lacksModule p s

/-- The sections of `ensure_bytes`. -/
def Step.fetches : Step → Bool
  | .readBytes _ | .reload _ | .storeBytes _ _ => true
  | _ => false

/-- The sections that can make a promotion miss. -/
def Step.mayMiss : Step → Bool
  | .pickVictim _ | .readTier _ | .commitDevice _ _ _ => true
  | _ => false

theorem Step.not_misses {env : Env} {p : Nat} {s : Impl} {l : Step} (h : l.mayMiss = false) :
    ¬ l.misses env p s := by
  cases l with
  | pickVictim tier => cases h
  | readTier q => cases h
  | commitDevice q handle footprint => cases h
  | _ => exact fun hmisses => hmisses.elim id id

/-- A record in `InUse` that nothing holds any more. -/
structure Impl.IdleInUse (s : Impl) (p : Nat) : Prop where
  known : p < s.nextRecord
  state : (s.records p).state = .inUse
  free : (s.records p).held = false

/-- What a promotion to the device that succeeded left of the record behind `p`: it is delivered unless
a section missed, and a round that picked it leaves it leasable only if it was idle in `InUse`. -/
structure Placed (env : Env) (p : Nat) (s s' : Impl) (tr : List (Event Step Impl)) : Prop where
  delivered : (s'.records p).Delivered .deviceResident ↔ ∀ e ∈ tr, ¬ e.label.misses env p e.before
  picked : (∃ e ∈ tr, e.label.picks env p e.before) → (s'.records p).leasable = true →
    env.cfg.residency.applyDeviceBudget = true ∧ s.IdleInUse p

section Promotion

variable {env : Env}

theorem ResidencyTier.device_le_rank {tier : ResidencyTier} :
    ResidencyTier.deviceResident.rank ≤ tier.rank ↔ tier = .deviceResident := by
  cases tier <;> decide

theorem Step.mayMiss_of_fetches {l : Step} (h : l.fetches = true) : l.mayMiss = false := by
  cases l <;> first | rfl | cases h

theorem ensureBytes_fetches (p : Nat) :
    (ensureBytes env p).Free (exec env) (fun _ _ _ => True) (fun l _ _ => l.fetches = true) := by
  unfold ensureBytes
  refine Free.bind (Free.sect fun _ _ _ _ => rfl) fun bytes => ?_
  split
  · exact Free.ret _
  · split
    · refine Free.bind (Free.sect fun _ _ _ _ => rfl) fun res => ?_
      cases res with
      | error e => exact Free.ret _
      | ok a => exact Free.bind (Free.sect fun _ _ _ _ => rfl) fun _ => Free.ret _
    · exact Free.ret _

/-- The loop neither reads a tier nor commits a module. -/
theorem Step.not_lacksModule_of_trims {p : Nat} {s : Impl} {l : Step} (h : l.trims = true) :
    ¬ l.lacksModule p s := by
  cases l with
  | readTier q => cases h
  | commitDevice q handle footprint => cases h
  | _ => exact fun hlacks => hlacks

theorem evictToFit_trims (tier : ResidencyTier) :
    (evictToFit env tier).Free (exec env) (fun _ _ _ => True)
      (fun l _ _ => l.trims = true ∧ l.Proper) := by
  unfold evictToFit
  dsimp only
  split
  · split
    · exact Free.ret _
    · exact evictRounds_trims tier _
  · split
    · exact Free.ret _
    · exact evictRounds_trims tier _

theorem exec_fetches {l : Step} {s s' : Impl} (h : exec env l s = some s') (hl : l.fetches = true)
    (p : Nat) : s'.nextRecord = s.nextRecord ∧ (s'.records p).state = (s.records p).state ∧
      (s'.records p).held = (s.records p).held := by
  obtain ⟨-, rfl⟩ := exec_eq_some.mp h
  cases l with
  | readBytes q => exact ⟨rfl, rfl, rfl⟩
  | reload q => exact ⟨rfl, rfl, rfl⟩
  | storeBytes q bytes =>
    refine ⟨rfl, ?_⟩
    show ((s.modify q fun r => r.reloaded bytes).records p).state = _ ∧
      ((s.modify q fun r => r.reloaded bytes).records p).held = _
    rw [Impl.modify_records]
    split <;> exact ⟨rfl, rfl⟩
  | _ => cases hl

/-- The device branch, from the commit on. -/
theorem commitDevice_placed {i p : Nat} {handle : LoadedModuleHandle} {footprint : UInt64 × Bool}
    {s s' : Impl} {tr : List (Event Step Impl)} (hs : s.Sound) (hp : p < s.nextRecord)
    (h : ((perform (.commitDevice p handle footprint) : Op Unit).bind fun _ =>
      (perform .recordEvent).bind fun _ => evictToFit env .deviceResident).traced (exec env) i s =
        some (tr, .ok (), s')) : Placed env p s s' tr := by
  obtain ⟨tr₁, u, s₁, tr₂, hcommit, hrest, rfl⟩ := Prog.traced_of_bind.mp h
  obtain ⟨tr₃, u', s₂, tr₄, hevent, hfit, rfl⟩ := Prog.traced_of_bind.mp hrest
  obtain ⟨hstep, -, rfl⟩ := Prog.traced_sect.mp hcommit
  obtain ⟨hstep₂, -, rfl⟩ := Prog.traced_sect.mp hevent
  have hs₂ := exec_sound hstep₂ trivial (exec_sound hstep trivial hs)
  have hnext : s₂.nextRecord = s.nextRecord :=
    ((exec_sameIndex hstep rfl).trans (exec_sameIndex hstep₂ rfl)).nextRecord
  have hrecord : s₂.records p = (s.records p).promoteDevice handle footprint := by
    have hcommitted := exec_rewritten hstep (p := p)
      (f := fun r => r.promoteDevice handle footprint) rfl p
    rw [if_pos rfl] at hcommitted
    obtain ⟨-, rfl⟩ := exec_eq_some.mp hstep₂
    exact hcommitted
  obtain ⟨htrims, -⟩ := Sat.traced (I := fun _ => True) (evictToFit_trims .deviceResident)
    (fun _ _ _ _ _ _ => trivial) trivial trivial hfit
  have hearly : ∀ e ∈ [(⟨i, .recordEvent, s₁, s₂⟩ : Event Step Impl)] ++ tr₄,
      ¬ e.label.lacksModule p e.before := by
    intro e he
    rcases List.mem_append.mp he with hfirst | hlater
    · rw [List.mem_singleton.mp hfirst]
      exact fun hlacks => hlacks
    · exact Step.not_lacksModule_of_trims (htrims e hlater).1.1
  have hp₂ : p < s₂.nextRecord := by omega
  have hloop := evictToFit_record hs₂ hp₂ hfit
  rw [hrecord] at hloop
  rcases hloop with ⟨hspared, hkept⟩ | ⟨⟨e, he, hpick⟩, hoff, hidle⟩
  · -- no round picks it: all depends on the module
    have hnone : ∀ e ∈ [(⟨i, .recordEvent, s₁, s₂⟩ : Event Step Impl)] ++ tr₄,
        ¬ e.label.picks env p e.before := by
      intro e he
      rcases List.mem_append.mp he with hfirst | hlater
      · rw [List.mem_singleton.mp hfirst]
        exact fun hpick => hpick
      · exact hspared e hlater
    refine ⟨?_, ?_⟩
    · rw [hkept]
      constructor
      · rintro ⟨-, hmodule⟩ e he
        rcases List.mem_cons.mp he with rfl | hlater
        · rintro (hpick | hlacks)
          · exact hpick
          · exact hmodule rfl hlacks.2
        · rintro (hpick | hlacks)
          · exact hnone e hlater hpick
          · exact hearly e hlater hlacks
      · intro hall
        refine ⟨Nat.le_refl _, fun _ hnull => ?_⟩
        exact hall _ (List.mem_cons_self ..) (.inr ⟨rfl, hnull⟩)
    · rintro ⟨e, he, hpick⟩
      rcases List.mem_cons.mp he with rfl | hlater
      · exact hpick.elim
      · exact absurd hpick (hnone e hlater)
  · have hmem : e ∈ [(⟨i, .commitDevice p handle footprint, s, s₁⟩ : Event Step Impl)] ++
        ([⟨i, .recordEvent, s₁, s₂⟩] ++ tr₄) :=
      List.mem_append_right _ (List.mem_append_right _ he)
    refine ⟨⟨fun hdelivered => ?_, fun hall => ?_⟩, fun _ hlease => ?_⟩
    · exact absurd (ResidencyTier.device_le_rank.mp hdelivered.1) hoff
    · exact absurd (.inl hpick) (hall e hmem)
    · obtain ⟨happly, hstate, hheld⟩ := hidle hlease
      refine ⟨happly, hp, ?_, hheld⟩
      rcases (s.records p).state.tryMove_eq_or .residentDevice with hstays | ⟨-, hmoves⟩
      · exact hstays.symm.trans hstate
      · cases hmoves.symm.trans hstate

/-- Sections before the promotion that neither miss nor leave a record idle in `InUse`. -/
theorem Placed.prepend {p : Nat} {s t s' : Impl} {tr₁ tr₂ : List (Event Step Impl)}
    (h : Placed env p t s' tr₂) (hmisses : ∀ e ∈ tr₁, ¬ e.label.misses env p e.before)
    (hidle : t.IdleInUse p → s.IdleInUse p) : Placed env p s s' (tr₁ ++ tr₂) := by
  refine ⟨h.delivered.trans ⟨fun hall e he => ?_, fun hall e he => ?_⟩, fun hpicked hlease => ?_⟩
  · rcases List.mem_append.mp he with hearly | hlate
    · exact hmisses e hearly
    · exact hall e hlate
  · exact hall e (List.mem_append_right _ he)
  · obtain ⟨e, he, hpick⟩ := hpicked
    rcases List.mem_append.mp he with hearly | hlate
    · exact absurd (.inl hpick) (hmisses e hearly)
    · exact (h.picked ⟨e, hlate, hpick⟩ hlease).imp_right hidle

/-- Sections after the promotion that leave the record where it is. -/
theorem Placed.append {p : Nat} {s s₁ s' : Impl} {tr₁ tr₂ : List (Event Step Impl)}
    (h : Placed env p s s₁ tr₁) (hmisses : ∀ e ∈ tr₂, ¬ e.label.misses env p e.before)
    (hsame : (s'.records p).Delivered .deviceResident ↔ (s₁.records p).Delivered .deviceResident)
    (hleasable : (s'.records p).leasable = true → (s₁.records p).leasable = true) :
    Placed env p s s' (tr₁ ++ tr₂) := by
  refine ⟨(hsame.trans h.delivered).trans ⟨fun hall e he => ?_, fun hall e he => ?_⟩,
    fun hpicked hlease => ?_⟩
  · rcases List.mem_append.mp he with hearly | hlate
    · exact hall e hearly
    · exact hmisses e hlate
  · exact hall e (List.mem_append_left _ he)
  · obtain ⟨e, he, hpick⟩ := hpicked
    rcases List.mem_append.mp he with hearly | hlate
    · exact h.picked ⟨e, hearly, hpick⟩ (hleasable hlease)
    · exact absurd (.inl hpick) (hmisses e hlate)

theorem promoteToDevice_placed {i p : Nat} {device : DeviceDescriptor} {s s' : Impl}
    {tr : List (Event Step Impl)} (hs : s.Sound) (hp : p < s.nextRecord)
    (h : (promoteToDevice env p device).traced (exec env) i s = some (tr, .ok (), s')) :
    Placed env p s s' tr := by
  unfold promoteToDevice at h
  obtain ⟨tr₁, bytes, s₁, tr₂, hbytes, hrest, rfl⟩ := Prog.traced_of_bind.mp h
  have hs₁ := (not_commitsDevice (walk_unloaded.ensureBytes trivial trivial p) hs hbytes).2
  obtain ⟨hfetch, hnext, hstate, hheld⟩ := Sat.traced
    (I := fun s₂ => s₂.nextRecord = s.nextRecord ∧ (s₂.records p).state = (s.records p).state ∧
      (s₂.records p).held = (s.records p).held) (ensureBytes_fetches p)
    (fun l s₂ s₃ hexec hl hI => by
      obtain ⟨hnext, hstate, hheld⟩ := exec_fetches hexec hl p
      exact ⟨hnext.trans hI.1, hstate.trans hI.2.1, hheld.trans hI.2.2⟩)
    trivial ⟨rfl, rfl, rfl⟩ hbytes
  refine Placed.prepend (t := s₁) ?_
    (fun e he => Step.not_misses (Step.mayMiss_of_fetches (hfetch e he).1))
    fun hidle => ⟨hp, hstate.symm.trans hidle.state, hheld.symm.trans hidle.free⟩
  cases bytes with
  | error e => cases hrest
  | ok bytes =>
    obtain ⟨tr₃, loaded, s₂, tr₄, hload, hlast, rfl⟩ := Prog.traced_of_bind.mp hrest
    obtain ⟨hstep, -, rfl⟩ := Prog.traced_sect.mp hload
    have hp₁ : p < s₁.nextRecord := by omega
    have hnext₂ := (exec_sameIndex hstep rfl).nextRecord
    have hrec : s₂.records p = s₁.records p := by
      rcases exec_records hstep trivial hp₁ with hsame | hupd
      · exact hsame
      · cases hupd
    refine Placed.prepend (t := s₂) ?_ ?_ fun hidle => ?_
    · cases loaded with
      | error e => cases hlast
      | ok out => exact commitDevice_placed (exec_sound hstep trivial hs₁) (by omega) hlast
    · intro e he
      rw [List.mem_singleton.mp he]
      exact Step.not_misses rfl
    · exact ⟨hp₁, hrec ▸ hidle.state, hrec ▸ hidle.free⟩

theorem promoteToTier_placed {i p : Nat} {device : DeviceDescriptor} {s s' : Impl}
    {tr : List (Event Step Impl)} (hs : s.Sound) (hp : p < s.nextRecord)
    (h : (promoteToTier env p .deviceResident device).traced (exec env) i s = some (tr, .ok (), s')) :
    Placed env p s s' tr := by
  unfold promoteToTier at h
  have hwanted : (ResidencyTier.deviceResident == ResidencyTier.none) = false := rfl
  simp only [hwanted, Bool.false_eq_true, if_false] at h
  obtain ⟨tr₁, tier, s₁, tr₂, hread, hrest, rfl⟩ := Prog.traced_of_bind.mp h
  obtain ⟨hstep, rfl, rfl⟩ := Prog.traced_sect.mp hread
  have hs₁ := exec_sound hstep trivial hs
  obtain ⟨-, rfl⟩ := exec_eq_some.mp hstep
  split at hrest
  · -- it is on the device already
    rename_i hrank
    have htier := ResidencyTier.device_le_rank.mp hrank
    cases hrest
    refine ⟨⟨?_, fun hall => ⟨hrank, fun _ hnull => ?_⟩⟩, ?_⟩
    · rintro ⟨-, hmodule⟩ e he
      rw [List.mem_singleton.mp he]
      rintro (hpick | hlacks)
      · exact hpick
      · exact hmodule rfl hlacks.2.2
    · exact hall _ (List.mem_singleton_self _) (.inr ⟨rfl, htier, hnull⟩)
    · rintro ⟨e, he, hpick⟩
      rw [List.mem_singleton.mp he] at hpick
      exact hpick.elim
  · rename_i hrank
    refine Placed.prepend (promoteToDevice_placed hs₁ hp hrest) (fun e he => ?_)
      fun hidle => ⟨hp, hidle.state, hidle.free⟩
    rw [List.mem_singleton.mp he]
    rintro (hpick | hlacks)
    · exact hpick
    · exact hrank (ResidencyTier.device_le_rank.mpr hlacks.2.1)

/-- A promotion to host memory that succeeded has its record there, or on the device. -/
theorem promoteToTier_host {i p : Nat} {device : DeviceDescriptor} {s s' : Impl}
    {tr : List (Event Step Impl)}
    (h : (promoteToTier env p .hostResident device).traced (exec env) i s = some (tr, .ok (), s')) :
    ResidencyTier.hostResident.rank ≤ (s'.records p).tier.rank := by
  unfold promoteToTier at h
  have hwanted : (ResidencyTier.hostResident == ResidencyTier.none) = false := rfl
  simp only [hwanted, Bool.false_eq_true, if_false] at h
  obtain ⟨tr₁, tier, s₁, tr₂, hread, hrest, rfl⟩ := Prog.traced_of_bind.mp h
  obtain ⟨hstep, rfl, rfl⟩ := Prog.traced_sect.mp hread
  obtain ⟨-, rfl⟩ := exec_eq_some.mp hstep
  split at hrest
  · rename_i hrank
    cases hrest
    exact hrank
  · unfold promoteToHost at hrest
    obtain ⟨tr₃, bytes, s₂, tr₄, hbytes, hrest, rfl⟩ := Prog.traced_of_bind.mp hrest
    cases bytes with
    | error e => cases hrest
    | ok bytes =>
      obtain ⟨tr₅, u, s₃, tr₆, hcommit, hdone, -⟩ := Prog.traced_of_bind.mp hrest
      obtain ⟨hstep, -, -⟩ := Prog.traced_sect.mp hcommit
      have hrec := exec_rewritten hstep (p := p) (f := ArtifactRecord.promoteHost) rfl p
      rw [if_pos rfl] at hrec
      cases hdone
      rw [hrec]
      exact Nat.le_refl _

/-- Before a section of a lookup or a build, a record was idle in `InUse` if it is after it. -/
theorem exec_quiet_idle {l : Step} {s s' : Impl} (h : exec env l s = some s') (hl : l.quiet = true)
    (hproper : l.Proper) {p : Nat} (hidle : s'.IdleInUse p) : s.IdleInUse p := by
  by_cases hp : p < s.nextRecord
  · rcases exec_records h hproper hp with hsame | hupd
    · exact ⟨hp, hsame ▸ hidle.state, hsame ▸ hidle.free⟩
    · have hstate := hidle.state
      have hfree := hidle.free
      generalize s'.records p = r' at hupd hstate hfree
      cases hupd with
      | persisted o => exact ⟨hp, hstate, hfree⟩
      | _ => cases hl
  · obtain ⟨r, hr, hrec⟩ := (exec_extends h hproper).fresh p (by omega) hidle.known
    have hstate := hidle.state
    rw [hrec] at hstate
    cases l with
    | publish fence o =>
      obtain rfl := List.mem_singleton.mp hr
      cases hstate
    | put desc bytes => cases hl
    | recoverInsert artifacts => cases hl
    | _ => cases hr

theorem Step.mayMiss_of_quiet {l : Step} (h : l.quiet = true) : l.mayMiss = false := by
  cases l <;> first | rfl | cases h

/-- A lease that was granted, seen from the end: the record its id was bound to was promoted, could be
leased then, and is leased now. -/
theorem leaseRecord_granted_record {i : Nat} {request : KernelLookupRequest} {id : ArtifactId}
    {vanished : Str} {s s' : Impl} {tr : List (Event Step Impl)} {lease : Nat}
    (h : (leaseRecord env request id vanished).traced (exec env) i s = some (tr, .ok lease, s')) :
    ∃ p s₁ s₂ tr₁, s.byId.lookup id = some p ∧ (s'.leases lease).record = p ∧
      exec env (.find id) s = some s₁ ∧
      (promoteToTier env p request.desiredTier request.device).traced (exec env) i s₁ =
        some (tr₁, .ok (), s₂) ∧
      tr = [⟨i, .find id, s, s₁⟩] ++ (tr₁ ++ [⟨i, .grantLease p request.pin, s₂, s'⟩]) ∧
      (s₂.records p).leasable = true ∧
      s'.records p = (s₂.records p).leased (env.now s₂.tick) request.pin := by
  unfold leaseRecord at h
  obtain ⟨tr₁, found, s₁, tr₂, hfind, hrest, rfl⟩ := Prog.traced_of_bind.mp h
  obtain ⟨hstep, rfl, rfl⟩ := Prog.traced_sect.mp hfind
  cases hid : s.byId.lookup id with
  | none =>
    rw [hid] at hrest
    cases hrest
  | some p =>
    rw [hid] at hrest
    obtain ⟨tr₃, promoted, s₂, tr₄, hpromote, hlast, rfl⟩ := Prog.traced_of_bind.mp hrest
    cases promoted with
    | error e => cases hlast
    | ok u =>
      obtain ⟨hgrant, hlease, rfl⟩ := Prog.traced_sect.mp hlast
      rcases exec_grantLease hgrant with ⟨hleasable, -, hrecord, -, -, hok, -⟩ | ⟨-, -, hno⟩
      · obtain rfl : lease = s₂.nextLease := Except.ok.inj (hlease.trans hok)
        refine ⟨p, s₁, s₂, tr₃, rfl, hrecord, hstep, hpromote, rfl, hleasable, ?_⟩
        obtain ⟨-, rfl⟩ := exec_eq_some.mp hgrant
        show ((s₂.grantLease env p request.pin).2).records p = _
        simp only [Impl.grantLease, hleasable, if_true]
        rw [Impl.modify_records, if_pos rfl]
      · exact absurd hlease.symm (hno lease)

/-- A lease on a record that was promoted to host memory. -/
theorem leaseRecord_host {i : Nat} {request : KernelLookupRequest} {id : ArtifactId}
    {vanished : Str} {s s' : Impl} {tr : List (Event Step Impl)} {lease : Nat}
    (hwanted : request.desiredTier = .hostResident)
    (h : (leaseRecord env request id vanished).traced (exec env) i s = some (tr, .ok lease, s')) :
    (s'.records (s'.leases lease).record).Delivered .hostResident := by
  obtain ⟨p, s₁, s₂, tr₁, -, hrecord, -, hpromote, -, -, hleased⟩ := leaseRecord_granted_record h
  rw [hwanted] at hpromote
  rw [hrecord, hleased]
  exact ⟨promoteToTier_host hpromote, fun hdevice => by cases hdevice⟩

/-- A lease on a record that was promoted to the device. -/
theorem leaseRecord_placed {i : Nat} {request : KernelLookupRequest} {id : ArtifactId}
    {vanished : Str} {s s' : Impl} {tr : List (Event Step Impl)} {lease : Nat} (hs : s.Sound)
    (hwanted : request.desiredTier = .deviceResident)
    (h : (leaseRecord env request id vanished).traced (exec env) i s = some (tr, .ok lease, s')) :
    Placed env (s'.leases lease).record s s' tr ∧
      (s'.records (s'.leases lease).record).leasable = true := by
  obtain ⟨p, s₁, s₂, tr₁, hid, hrecord, hfind, hpromote, rfl, hleasable, hleased⟩ :=
    leaseRecord_granted_record h
  rw [hwanted] at hpromote
  rw [hrecord]
  have hp := (hs.bound id p hid).1
  have hs₁ := exec_sound hfind trivial hs
  obtain ⟨-, rfl⟩ := exec_eq_some.mp hfind
  have hpromoted := promoteToTier_placed hs₁ hp hpromote
  have hlast : ∀ e ∈ [(⟨i, .grantLease p request.pin, s₂, s'⟩ : Event Step Impl)],
      ¬ e.label.misses env p e.before := by
    intro e he
    rw [List.mem_singleton.mp he]
    exact Step.not_misses rfl
  refine ⟨Placed.prepend (hpromoted.append hlast ?_ fun _ => hleasable) ?_ fun hidle => ?_, ?_⟩
  · rw [hleased]
    exact Iff.rfl
  · intro e he
    rw [List.mem_singleton.mp he]
    exact Step.not_misses rfl
  · exact ⟨hp, hidle.state, hidle.free⟩
  · rw [hleased]
    exact ArtifactRecord.leased_leasable _ _ hleasable

/-- An acquire that was granted a lease looked up, built perhaps, and leased a record. -/
theorem acquireImpl_granted_lease {i : Nat} {request : KernelLookupRequest} {s s' : Impl}
    {tr : List (Event Step Impl)} {lease : Nat} (hs : s.Sound)
    (h : (acquireImpl env request).traced (exec env) i s = some (tr, .ok lease, s')) :
    ∃ id vanished s₁ tr₁ tr₂, tr = tr₁ ++ tr₂ ∧ (∀ e ∈ tr₁, e.label.quiet = true) ∧ s₁.Sound ∧
      (∀ p, s₁.IdleInUse p → s.IdleInUse p) ∧
      (leaseRecord env { request with key := request.key.finalize } id vanished).traced (exec env) i
        s₁ = some (tr₂, .ok lease, s') := by
  -- what a lookup or a build leaves
  have hquiet : ∀ {α : Type} {q : Op α} {s s₁ : Impl} {a : α} {tr₁ : List (Event Step Impl)},
      q.Text (fun l => l.quiet = true) (fun _ => True) → ProperProg env q → s.Sound →
      q.traced (exec env) i s = some (tr₁, a, s₁) →
      (∀ e ∈ tr₁, e.label.quiet = true) ∧ s₁.Sound ∧ ∀ p, s₁.IdleInUse p → s.IdleInUse p := by
    intro α q s s₁ a tr₁ htext hproper hs hrun
    obtain ⟨hevents, hend⟩ := Sat.traced
      (I := fun s₂ => s₂.Sound ∧ ∀ p, s₂.IdleInUse p → s.IdleInUse p) (htext.sat hproper)
      (fun l s₂ s₃ hexec hl hI => ⟨exec_sound hexec hl.2 hI.1,
        fun p hidle => hI.2 p (exec_quiet_idle hexec hl.1 hl.2 hidle)⟩)
      trivial ⟨hs, fun _ hidle => hidle⟩ hrun
    exact ⟨fun e he => (hevents e he).1.1, hend⟩
  unfold acquireImpl at h
  obtain ⟨tr₁, decided, s₁, tr₂, hlookup, hrest, rfl⟩ := Prog.traced_of_bind.mp h
  obtain ⟨hlabels, hs₁, hback⟩ := hquiet (lookupImpl_text _)
    ((covers_proper env).walk.lookupImpl trivial _) hs hlookup
  cases decided with
  | error e => cases hrest
  | ok d =>
    simp only [acquireDecided] at hrest
    split at hrest
    · exact ⟨_, _, s₁, tr₁, tr₂, rfl, hlabels, hs₁, hback, hrest⟩
    · unfold acquireMiss at hrest
      split at hrest
      · obtain ⟨tr₃, built, s₂, tr₄, hbuild, hlast, rfl⟩ := Prog.traced_of_bind.mp hrest
        obtain ⟨hlabels₂, hs₂, hback₂⟩ := hquiet (buildImpl_text _)
          (buildImpl_free (covers_proper env) (coversBuilds_proper env) (coversFences_proper env)
            (coversJoin_proper env _)) hs₁ hbuild
        cases built with
        | error e => cases hlast
        | ok desc =>
          refine ⟨_, _, s₂, tr₁ ++ tr₃, tr₄, (List.append_assoc ..).symm, fun e he => ?_, hs₂,
            fun p hidle => hback p (hback₂ p hidle), hlast⟩
          rcases List.mem_append.mp he with hearly | hlate
          · exact hlabels e hearly
          · exact hlabels₂ e hlate
      · cases hrest

end Promotion

/-! ## Every reachable state -/

/-- **When an acquire delivers.** From any state a run can reach, let an acquire that asks for host
memory or the device run alone and return a lease.  The record it leased is there, on the device with
its module, if and only if it was host memory that was asked for, or no round of `evict_to_fit` picked
the record and no loader had given a null module for it.  And a round can have picked it only where the
device budget is applied and the record was idle in `InUse` before the call. -/
theorem residency_delivered_iff {env : Env} {store : FilePersistenceStore}
    {tr : List (Event Step Impl)} {pool : Pool Step Impl Answer} (h : CacheRuns env store tr pool)
    {request : KernelLookupRequest}
    (hwanted : request.desiredTier = .hostResident ∨ request.desiredTier = .deviceResident)
    {i lease : Nat} {tr' : List (Event Step Impl)} {s' : Impl}
    (hrun : (acquireImpl env request).traced (exec env) i pool.shared =
      some (tr', .ok lease, s')) :
    ((s'.records (s'.leases lease).record).Delivered request.desiredTier ↔
      (request.desiredTier = .deviceResident →
        ∀ e ∈ tr', ¬ e.label.picks env (s'.leases lease).record e.before ∧
          ¬ e.label.lacksModule (s'.leases lease).record e.before)) ∧
    (request.desiredTier = .deviceResident →
      (∃ e ∈ tr', e.label.picks env (s'.leases lease).record e.before) →
        env.cfg.residency.applyDeviceBudget = true ∧
          pool.shared.IdleInUse (s'.leases lease).record) := by
  obtain ⟨id, vanished, s₁, tr₁, tr₂, rfl, hquiet, hs₁, hback, hlease⟩ :=
    acquireImpl_granted_lease (runs_sound h).2 hrun
  rcases hwanted with hhost | hdevice
  · have hdelivered := leaseRecord_host hhost hlease
    rw [hhost]
    have hno : ResidencyTier.hostResident ≠ .deviceResident := by decide
    exact ⟨⟨fun _ hdevice => absurd hdevice hno, fun _ => hdelivered⟩,
      fun hdevice => absurd hdevice hno⟩
  · obtain ⟨hplaced, hleasable⟩ := leaseRecord_placed hs₁ hdevice hlease
    have hall := hplaced.prepend
      (fun e he => Step.not_misses (Step.mayMiss_of_quiet (hquiet e he))) (hback _)
    rw [hdevice]
    refine ⟨hall.delivered.trans ⟨fun hnone _ e he => not_or.mp (hnone e he), ?_⟩, ?_⟩
    · exact fun hnone e he => not_or.mpr (hnone rfl e he)
    · exact fun _ hpicked => hall.picked hpicked hleasable

/-- An acquire of the default key leases the record that was put, while the index is as it was. -/
theorem acquireImpl_traced_sample {env : Env} {i : Nat} (request : KernelLookupRequest)
    {tr : List (Event Step Impl)} {s : Impl} {threads : List (Op Answer)} {P : Nat → Impl → Prop}
    (_ : CacheRuns env {} tr ⟨s, threads⟩) (hkeys : s.byKey = putState.byKey)
    (hids : s.byId = putState.byId) (hkey : (s.records 0).key = (putState.records 0).key)
    (hhealthy : (s.snapshotOf 0).healthy = true) (hfree : s.statsHeld = false)
    (hid : (s.records 0).id = ⟨⟨1, 7⟩⟩)
    (hlease : ∃ tr' lease s', (leaseRecord env
        { request with key := ({} : KernelCompatibilityKey).finalize } ⟨⟨1, 7⟩⟩
        (str "artifact vanished")).traced (exec env) i (s.lookedUp ((s.records 0).hitResult
          (accept .exactCompatible (str "canonical key digest matches exactly")))) =
        some (tr', .ok lease, s') ∧ P lease s') :
    ∃ tr' lease s', (acquireImpl env { request with key := {} }).traced (exec env) i s =
      some (tr', .ok lease, s') ∧ P lease s' := by
  obtain ⟨tr', lease, s', hrun, hP⟩ := hlease
  have hart : ((s.records 0).hitResult
      (accept .exactCompatible (str "canonical key digest matches exactly"))).artifact =
      some ⟨⟨1, 7⟩⟩ := by
    rw [← hid]
    rfl
  exact ⟨_, lease, s', acquireImpl_traced_hit env i defaultKey_wellFormed hfree
    (putState_lookup hkeys hids hkey hhealthy _) (ArtifactRecord.hitResult_isHit _ _) hart hrun, hP⟩

/-- An acquire into a device with room for the module. -/
theorem residency_delivered_iff_sample : ∃ tr pool, CacheRuns smallDeviceEnv {} tr pool ∧
    ∃ tr' lease s', (acquireImpl smallDeviceEnv { desiredTier := .deviceResident }).traced
        (exec smallDeviceEnv) 1 pool.shared = some (tr', .ok lease, s') ∧
      (s'.records (s'.leases lease).record).Delivered .deviceResident ∧
      ∀ e ∈ tr', ¬ e.label.picks smallDeviceEnv (s'.leases lease).record e.before ∧
        ¬ e.label.lacksModule (s'.leases lease).record e.before := by
  have hput : CacheRuns smallDeviceEnv {} [⟨0, .put sampleArtifact [1], Impl.initial {}, putState⟩]
      ⟨putState, [.ret (.id ⟨⟨1, 7⟩⟩)]⟩ :=
    Runs.refl.complete (p := (Operation.put sampleArtifact [1]).prog smallDeviceEnv) ⟨_, rfl⟩ rfl
  have hacquire : ∃ tr' lease s', (acquireImpl smallDeviceEnv
        { desiredTier := .deviceResident }).traced (exec smallDeviceEnv) 1 putState =
        some (tr', .ok lease, s') ∧
      (s'.records (s'.leases lease).record).tier = .deviceResident ∧
      (s'.records (s'.leases lease).record).nativeHandle = some 0 := by
    exact acquireImpl_traced_sample { desiredTier := .deviceResident }
      (P := fun lease s' => (s'.records (s'.leases lease).record).tier = .deviceResident ∧
        (s'.records (s'.leases lease).record).nativeHandle = some 0)
      hput rfl rfl rfl rfl rfl rfl ⟨_, 0, _, rfl, rfl, rfl⟩
  obtain ⟨tr', lease, s', hrun, htier, hmodule⟩ := hacquire
  have hdelivered : (s'.records (s'.leases lease).record).Delivered .deviceResident := by
    refine ⟨?_, fun _ => ?_⟩
    · rw [htier]
    · rw [hmodule]
      exact Option.some_ne_none 0
  have hiff := (residency_delivered_iff hput (.inr rfl) hrun).1
  exact ⟨_, _, hput, tr', lease, s', hrun, hdelivered, hiff.mp hdelivered rfl⟩

/-- A device that no module fits on. -/
def fullDeviceEnv : Env :=
  { backends := [stubBackend], cfg := { residency := { deviceBudgetBytes := 0 } }, loopBound := 2 }

/-- **An acquire can miss.** An artifact is leased and given back, so it is idle in `InUse`; an acquire
that asks for the device puts it there, `evict_to_fit` takes it off again, and the lease is granted on
a record without a module. -/
theorem residency_missed : ∃ tr pool, CacheRuns fullDeviceEnv {} tr pool ∧
    ∃ tr' lease s', (acquireImpl fullDeviceEnv { desiredTier := .deviceResident }).traced
        (exec fullDeviceEnv) 3 pool.shared = some (tr', .ok lease, s') ∧
      (s'.records (s'.leases lease).record).tier = .metadataOnly ∧
      (s'.records (s'.leases lease).record).nativeHandle = none ∧
      ¬ (s'.records (s'.leases lease).record).Delivered .deviceResident := by
  have hput : CacheRuns fullDeviceEnv {} [⟨0, .put sampleArtifact [1], Impl.initial {}, putState⟩]
      ⟨putState, [.ret (.id ⟨⟨1, 7⟩⟩)]⟩ :=
    Runs.refl.complete (p := (Operation.put sampleArtifact [1]).prog fullDeviceEnv) ⟨_, rfl⟩ rfl
  have hlooked := lookupImpl_traced fullDeviceEnv 1
    { key := ({} : KernelCompatibilityKey).finalize, desiredTier := .none } (s := putState) rfl rfl
  simp only [KernelCompatibilityKey.finalize_finalize,
    putState_lookup (s := putState) rfl rfl rfl rfl {}] at hlooked
  have hfound := (hput.spawn (p := (Operation.acquire { desiredTier := .none }).prog fullDeviceEnv)
    ⟨_, rfl⟩).advance (i := 1) (by rw [← Prog.bind_assoc]; rfl) hlooked
  simp only [acquireDecided, ArtifactRecord.hitResult_isHit, if_true] at hfound
  -- the acquire finds the record and leases it where it is; the lease is given back
  have hleased := (hfound.step (i := 1) rfl rfl).step (i := 1) rfl rfl
  have hreleased := ((hleased.spawn (p := (Operation.release 0).prog fullDeviceEnv) ⟨_, rfl⟩).step
    (i := 2) rfl rfl).step (i := 2) rfl rfl
  obtain ⟨tr', lease, s', hrun, htier, hmodule⟩ := acquireImpl_traced_sample (i := 3)
    { desiredTier := .deviceResident }
    (P := fun lease s' => (s'.records (s'.leases lease).record).tier = .metadataOnly ∧
      (s'.records (s'.leases lease).record).nativeHandle = none)
    hreleased rfl rfl rfl rfl rfl rfl ⟨_, 1, _, rfl, rfl, rfl⟩
  refine ⟨_, _, hreleased, tr', lease, s', hrun, htier, hmodule, ?_⟩
  rintro ⟨-, hthere⟩
  exact hthere rfl hmodule

end KernelCache
