/-
# KernelCache.LeaseSafety — what protects a leased record from an eviction in progress.

`evict_impl` checks the lease count in one critical section, unloads with no lock held, and commits
in a second one.  In between, protection rests on the state alone: the first section moves the record
to `EvictionPending`, in which `grant_lease` refuses.  That move is whitelisted from every state the
cache uses except `InUse`, the state a record is LEFT IN when its last lease is released.  So the
protection holds on every run whose evictions begin on records that are not `InUse`
(`lease_protects`), and on the other runs it does not (`lease_unprotected`).
-/
import KernelCache.Sequential

namespace KernelCache

open Foundation (Prog Runs Pool Event)

/-! ## Records on their way out -/

/-- Nobody holds a lease on the record and nobody will be granted one. -/
structure Impl.Draining (s : Impl) (p : Nat) : Prop where
  lt : p < s.nextRecord
  leaseCount_eq : (s.records p).leaseCount = 0
  spent : (s.records p).state.isSpent = true

/-- A draining record stays so: a lease would need an eligible state. -/
theorem exec_draining {env : Env} {l : Step} {s s' : Impl} {p : Nat} (h : exec env l s = some s')
    (hl : l.Proper) (hd : s.Draining p) : s'.Draining p := by
  have hev := exec_evolves h hl hd.lt
  refine ⟨lt_of_lt_of_le hd.lt (exec_extends h hl).next_le, ?_, hev.spent hd.spent⟩
  have hno : (s.records p).leasable = false := by
    simp [ArtifactRecord.leasable, ArtifactState.not_eligible_of_spent hd.spent]
  have hle : ¬ (s.records p).leaseCount < (s'.records p).leaseCount := by
    intro hlt
    rw [hev.leased hlt] at hno
    cases hno
  have hzero := hd.leaseCount_eq
  omega

/-- The section begins no eviction of a record that is free to be evicted and in state `InUse`. -/
def Step.beginsIdle (s : Impl) : Step → Prop
  | .evictBegin id _ => ∀ p, s.byId.lookup id = some p → (s.records p).leaseCount = 0 →
      (s.records p).pinCount = 0 → (s.records p).state ≠ .inUse
  | _ => True

/-- An eviction that begins on a record not in use leaves it draining. -/
theorem exec_evictBegin_draining {env : Env} {s s' : Impl} {id : ArtifactId} {force : Bool} {p : Nat}
    (h : exec env (.evictBegin id force) s = some s') (hs : s.Sound)
    (hidle : Step.beginsIdle s (.evictBegin id force)) (hp : (s.evictBegin id force).1 = .ok p) :
    s'.Draining p := by
  obtain ⟨hid, hcount, hpins, -⟩ := Impl.evictBegin_ok hp
  obtain ⟨hlt, hnext, hrec⟩ := exec_evictBegin_ok h hs hp
  refine ⟨by omega, ?_, ?_⟩
  · rw [hrec]
    exact hcount
  · rw [hrec]
    exact ArtifactState.spent_of_evictionPending (hs.visited p hlt) (hidle p hid hcount hpins)

/-- The steps considered: proper arguments, sound states, idle evictions. -/
def IdleSteps (l : Step) (s _s' : Impl) : Prop := l.Proper ∧ s.Sound ∧ l.beginsIdle s

theorem runs_draining {env : Env} {store : FilePersistenceStore} {tr : List (Event Step Impl)}
    {pool : Pool Step Impl Answer} (h : CacheRuns env store tr pool)
    (hidle : ∀ e ∈ tr, e.label.beginsIdle e.before) :
    ∀ e ∈ tr, e.label.EvictsWith (fun p s => s.Draining p) e.before := by
  refine runs_evictions (C := IdleSteps) ?_ ?_ h fun e he => ?_
  · exact fun p l s s' hd hstep hC => exec_draining hstep hC.1 hd
  · exact fun id force s s' p hstep hC hp => exec_evictBegin_draining hstep hC.2.1 hC.2.2 hp
  · exact ⟨runs_proper h e he, ((runs_sound h).1 e he).1, hidle e he⟩

/-! ## Leases and evictions -/

/-- The sections of `evict_impl`. -/
def Step.evicts : Step → Bool
  | .evictBegin _ _ | .evictUnload _ | .evictCommit _ => true
  | _ => false

/-- An eviction that begins leaves a leased record alone: the check and the move are one section. -/
theorem Impl.evictBegin_leased {s : Impl} (id : ArtifactId) (force : Bool) {p : Nat}
    (hp : 0 < (s.records p).leaseCount) :
    (s.evictBegin id force).2.records p = s.records p := by
  cases hres : (s.evictBegin id force).1 with
  | error e =>
    unfold Impl.evictBegin at hres ⊢
    dsimp only at hres ⊢
    split
    · rfl
    · split
      · split <;> rfl
      · simp_all
  | ok q =>
    obtain ⟨-, hzero, -, hstate⟩ := Impl.evictBegin_ok hres
    rw [hstate, Impl.modify_records, if_neg]
    rintro rfl
    omega

/-- **Leases protect.** In every interleaved run in which evictions begin only on records that are
not in state `InUse`, no section of an eviction unloads the module of a record with a live lease or
changes anything about that record. -/
theorem lease_protects {env : Env} {store : FilePersistenceStore} {tr : List (Event Step Impl)}
    {pool : Pool Step Impl Answer} (h : CacheRuns env store tr pool)
    (hidle : ∀ e ∈ tr, e.label.beginsIdle e.before) :
    ∀ e ∈ tr, e.label.evicts = true → ∀ p, 0 < (e.before.records p).leaseCount →
      e.label ≠ .evictUnload p ∧ e.after.records p = e.before.records p := by
  have hdraining := runs_draining h hidle
  intro e he hevicts p hp
  obtain ⟨i, l, s, s'⟩ := e
  obtain ⟨-, heq⟩ := exec_eq_some.mp (h.event_step _ he)
  have hdrain := hdraining _ he
  dsimp only at heq hdrain hevicts hp ⊢
  subst heq
  cases l with
  | evictBegin id force => exact ⟨Step.noConfusion, Impl.evictBegin_leased id force hp⟩
  | evictUnload q =>
    refine ⟨?_, ?_⟩
    · rintro heq
      cases heq
      have hzero := hdrain.leaseCount_eq
      omega
    · show (s.unloadModule env q).2.records p = s.records p
      unfold Impl.unloadModule
      split <;> rfl
  | evictCommit q =>
    refine ⟨Step.noConfusion, ?_⟩
    show (s.modify q ArtifactRecord.evictCommit).records p = s.records p
    rw [Impl.modify_records, if_neg]
    rintro rfl
    have hzero := hdrain.leaseCount_eq
    omega
  | _ => cases hevicts

/-- A lease on the one record of a cache, and an eviction that finds it leased. -/
theorem lease_protects_sample : ∃ tr pool, CacheRuns {} {} tr pool ∧
    (∀ e ∈ tr, e.label.beginsIdle e.before) ∧ ∃ e ∈ tr, e.label = .evictBegin ⟨⟨1, 7⟩⟩ true ∧
      0 < (e.before.records 0).leaseCount ∧ e.after.records 0 = e.before.records 0 := by
  have hrun : ∃ lease, ((Operation.acquire {}).prog {}).traced (exec {}) 1 putState = some lease ∧
      (lease.1.all fun e => !e.label.evicts) = true ∧ (lease.2.2.records 0).leaseCount = 1 ∧
      lease.2.2.byId = putState.byId ∧
      ∃ s, exec {} (.evictBegin ⟨⟨1, 7⟩⟩ true) lease.2.2 = some s := by
    have hfirst := acquireImpl_traced {} 1 {} defaultKey_wellFormed (s := putState) rfl
      (putState_lookup rfl rfl rfl rfl {})
    simp only [Operation.prog, Prog.bind_eq, Prog.traced_bind, hfirst]
    exact ⟨_, rfl, rfl, rfl, rfl, _, rfl⟩
  obtain ⟨⟨tr, a, s⟩, hlease, hother, hcount, hids, s', hbegin⟩ := hrun
  have hruns := ((putState_runs.complete ⟨_, rfl⟩ hlease).spawn
    (p := (Operation.evict ⟨⟨1, 7⟩⟩ true).prog {}) ⟨_, rfl⟩).step (i := 2) rfl hbegin
  have hidle : ∀ e ∈ ([⟨0, .put sampleArtifact [1], Impl.initial {}, putState⟩] ++ tr) ++
      [⟨2, .evictBegin ⟨⟨1, 7⟩⟩ true, s, s'⟩], e.label.beginsIdle e.before := by
    intro e he
    rcases List.mem_append.mp he with hold | hnew
    · rcases List.mem_append.mp hold with hput | hacquire
      · obtain rfl := List.mem_singleton.mp hput
        exact trivial
      · have hno := List.all_eq_true.mp hother e hacquire
        revert hno
        cases e.label <;> simp [Step.evicts, Step.beginsIdle]
    · obtain rfl := List.mem_singleton.mp hnew
      intro p hp hzero
      have hp0 : p = 0 := by
        have hlook : s.byId.lookup ⟨⟨1, 7⟩⟩ = some 0 := by
          rw [hids]
          exact AList.lookup_insert _
        exact Option.some.inj (hp.symm.trans hlook)
      subst hp0
      rw [hcount] at hzero
      cases hzero
  have hmem : (⟨2, .evictBegin ⟨⟨1, 7⟩⟩ true, s, s'⟩ : Event Step Impl) ∈
      ([⟨0, .put sampleArtifact [1], Impl.initial {}, putState⟩] ++ tr) ++
        [⟨2, .evictBegin ⟨⟨1, 7⟩⟩ true, s, s'⟩] := by simp
  have hpos : 0 < (s.records 0).leaseCount := Nat.lt_of_lt_of_eq Nat.zero_lt_one hcount.symm
  exact ⟨_, _, hruns, hidle, _, hmem, rfl, hpos, (lease_protects hruns hidle _ hmem rfl 0 hpos).2⟩

/-- **Leases do not always protect.** Lease a record, release it, begin to evict it, lease it again,
commit the eviction: the record is still in state `InUse` when the eviction begins, so the second
lease is granted, and the commit frees the bytes and lowers the tier under it. -/
theorem lease_unprotected : ∃ tr pool, CacheRuns {} {} tr pool ∧ ∃ e ∈ tr,
    e.label = .evictCommit 0 ∧ (e.before.records 0).leaseCount = 1 ∧
    (e.before.records 0).tier = .hostResident ∧ (e.after.records 0).tier = .metadataOnly ∧
    (e.before.records 0).bytes = [1] ∧ (e.after.records 0).bytes = [] := by
  have hrun : ∃ lease, ((Operation.acquire {}).prog {}).traced (exec {}) 1 putState = some lease ∧
      ∃ freed, ((Operation.release 0).prog {}).traced (exec {}) 2 lease.2.2 = some freed ∧
      ∃ s₁, exec {} (.evictBegin ⟨⟨1, 7⟩⟩ false) freed.2.2 = some s₁ ∧
        (freed.2.2.evictBegin ⟨⟨1, 7⟩⟩ false).1 = .ok 0 ∧
      ∃ s₂, exec {} (.evictUnload 0) s₁ = some s₂ ∧ (s₁.unloadModule {} 0).1 = .ok () ∧
        s₂.byKey = putState.byKey ∧ s₂.byId = putState.byId ∧ s₂.statsHeld = false ∧
        (s₂.snapshotOf 0).healthy = true ∧ ∃ r, s₂.records 0 = r ∧
          r.id = ⟨⟨1, 7⟩⟩ ∧ r.key = (putState.records 0).key ∧ r.leasable = true ∧
          r.leaseCount = 0 ∧ r.tier = .hostResident ∧ r.persistent = false ∧ r.bytes = [1] := by
    have hfirst := acquireImpl_traced {} 1 {} defaultKey_wellFormed (s := putState) rfl
      (putState_lookup rfl rfl rfl rfl {})
    simp only [Operation.prog, Prog.bind_eq, Prog.traced_bind, hfirst]
    exact ⟨_, rfl, _, rfl, _, rfl, rfl, _, rfl, rfl, rfl, rfl, rfl, rfl, _, rfl, rfl, rfl, rfl, rfl,
      rfl, rfl, rfl⟩
  obtain ⟨lease, hlease, freed, hfreed, s₁, hbegin, hok, s₂, hunload, hunloaded, hkeys, hids, hfree,
    hhealthy, r, hr, hid, hkey, hleasable, hcount, htier, hpersistent, hbytes⟩ := hrun
  have hidle := ((putState_runs.complete ⟨_, rfl⟩ hlease).complete ⟨_, rfl⟩ hfreed).spawn
    (p := (Operation.evict ⟨⟨1, 7⟩⟩ false).prog {}) ⟨_, rfl⟩
  have hbegun := hidle.step (i := 3) rfl hbegin
  simp only [hok] at hbegun
  have hunloading := hbegun.step (i := 3) rfl hunload
  simp only [hunloaded] at hunloading
  have hlookup := putState_lookup hkeys hids (hr ▸ hkey) hhealthy {}
  rw [hr] at hlookup
  obtain ⟨tr, s₃, hagain, hrw, -⟩ := acquireImpl_traced_untiered {} 4
    { desiredTier := .none } (p := 0) defaultKey_wellFormed hfree hlookup
    (by simp [ArtifactRecord.hitResult, htier, hitOutcome, LookupOutcome.isHit])
    (congrArg some hid) (by rw [hids]; rfl) rfl (by rw [hr]; exact hleasable)
  have hleased := hunloading.complete ⟨_, rfl⟩ (acquire_traced hagain)
  have hcommit : exec {} (.evictCommit 0) s₃ = some { s₃.evictCommit 0 with tick := s₃.tick + 1 } :=
    exec_eq_some.mpr ⟨by simp [Step.ready, hrw.free], rfl⟩
  refine ⟨_, _, hleased.step (i := 3) rfl hcommit, _,
    List.mem_append_right _ (List.mem_singleton_self _), rfl, ?_⟩
  simp [hrw.record, Impl.evictCommit, Impl.modify, Impl.bump, hr, ArtifactRecord.leased,
    ArtifactRecord.evictCommit, ArtifactRecord.fallbackTier, hcount, htier, hbytes, hpersistent]

end KernelCache
