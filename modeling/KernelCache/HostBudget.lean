/-
# KernelCache.HostBudget — what governs host memory (`promote_to_tier`, the host branch).

The device branch of `promote_to_tier` ends in `evict_to_fit`; the host branch does not, and no other
path trims host memory.  Two sections fill it: the commit of the host branch, and the store of what
`ensure_bytes` has reloaded, when the record is in host memory by then.  As long as each of them finds
room, host memory is within its budget in every state (`exec_hostUse`).  An acquire by itself governs
nothing: whether host memory is governed after a lease is granted was settled before (`host_governed`).
-/
import KernelCache.Budgets
import KernelCache.Reuse

namespace KernelCache

open Foundation (Bytes Prog Runs Pool Event)

/-! ## What fills host memory -/

/-- The sections that fill host memory. -/
def Step.fillsHost : Step → Bool
  | .commitHost _ | .storeBytes _ _ => true
  | _ => false

/-- What all records but one use. -/
def Impl.totalBut (s : Impl) (use : ArtifactRecord → Nat) (p : Nat) : Nat :=
  ∑ q ∈ (Finset.range s.nextRecord).erase p, use (s.records q)

/-- Host memory has room for what the section brings there. -/
def Step.fitsHost (env : Env) (l : Step) (s : Impl) : Prop :=
  match l with
  | .commitHost p =>
    s.totalBut ArtifactRecord.hostUse p + (s.records p).bytes.length ≤
      env.cfg.residency.hostBudgetBytes.toNat
  | .storeBytes p bytes =>
    (s.records p).tier = .hostResident →
      s.totalBut ArtifactRecord.hostUse p + bytes.length ≤ env.cfg.residency.hostBudgetBytes.toNat
  | _ => True

theorem ArtifactRecord.hostUse_of_ne {r : ArtifactRecord} (h : r.tier ≠ .hostResident) :
    r.hostUse = 0 := if_neg h

/-- No other change makes a record use more. -/
theorem ArtifactRecord.Updates.hostUse {p : Nat} {l : Step} {r r' : ArtifactRecord}
    (h : ArtifactRecord.Updates p r l r') (hl : l.fillsHost = false) : r'.hostUse ≤ r.hostUse := by
  have hout : r'.tier ≠ .hostResident → r'.hostUse ≤ r.hostUse := fun htier => by
    rw [ArtifactRecord.hostUse_of_ne htier]
    exact Nat.zero_le _
  have hpersistent : ResidencyTier.persistentStorage ≠ .hostResident := by decide
  have hdevice : ResidencyTier.deviceResident ≠ .hostResident := by decide
  cases h with
  | reloaded bytes => cases hl
  | promoteHost => cases hl
  | persisted o => exact hout hpersistent
  | promoteDevice handle footprint => exact hout hdevice
  | evictCommit =>
    refine hout ?_
    unfold ArtifactRecord.evictCommit
    split <;> exact r.fallbackTier_ne.2
  | unloaded => exact hout r.fallbackTier_ne.2
  | validatedBy res =>
    unfold ArtifactRecord.validatedBy
    split <;> exact Nat.le_refl _
  | _ => exact Nat.le_refl _

/-- New records are not in host memory. -/
theorem Step.offers_hostUse {env : Env} {s : Impl} {l : Step} {r : ArtifactRecord}
    (h : r ∈ l.offers env s) : r.tier ≠ .hostResident := by
  have hmetadata : ResidencyTier.metadataOnly ≠ .hostResident := by decide
  have hpersistent : ResidencyTier.persistentStorage ≠ .hostResident := by decide
  cases l with
  | publish fence o =>
    obtain rfl := List.mem_singleton.mp h
    exact hmetadata
  | put desc bytes =>
    obtain rfl := List.mem_singleton.mp h
    exact hmetadata
  | recoverInsert artifacts =>
    obtain ⟨a, -, rfl⟩ := List.mem_map.mp h
    exact hpersistent
  | _ => cases h

/-- A change of one record. -/
theorem Impl.total_le_totalBut {s s' : Impl} {use : ArtifactRecord → Nat} {p : Nat}
    (hnext : s'.nextRecord = s.nextRecord) (hothers : ∀ q, q ≠ p → s'.records q = s.records q) :
    s'.total use ≤ s.totalBut use p + use (s'.records p) := by
  have hrest : s.totalBut use p = ∑ q ∈ (Finset.range s.nextRecord).erase p, use (s'.records q) :=
    Finset.sum_congr rfl fun q hq => by rw [hothers q (Finset.mem_erase.mp hq).1]
  rw [Impl.total, hnext, hrest]
  by_cases hp : p ∈ Finset.range s.nextRecord
  · exact (Finset.sum_erase_add _ _ hp).ge
  · rw [Finset.erase_eq_of_notMem hp]
    exact Nat.le_add_right _ _

theorem Impl.totalBut_le (s : Impl) (use : ArtifactRecord → Nat) (p : Nat) :
    s.totalBut use p ≤ s.total use :=
  Finset.sum_le_sum_of_subset (Finset.erase_subset p _)

section Fits

variable {env : Env}

/-- **Host memory, one step.** A section that finds room leaves it within the budget. -/
theorem exec_hostUse {l : Step} {s s' : Impl} (h : exec env l s = some s') (hl : l.Proper)
    (hfits : l.fitsHost env s)
    (hs : s.total ArtifactRecord.hostUse ≤ env.cfg.residency.hostBudgetBytes.toNat) :
    s'.total ArtifactRecord.hostUse ≤ env.cfg.residency.hostBudgetBytes.toNat := by
  by_cases hfills : l.fillsHost = true
  · have hins : l.inserts = false := by
      cases l <;> first | rfl | cases hfills
    have hnext := (exec_sameIndex h hins).nextRecord
    cases l with
    | commitHost p =>
      have hrec := exec_rewritten h (p := p) (f := ArtifactRecord.promoteHost) rfl
      refine (Impl.total_le_totalBut (p := p) hnext fun q hq => ?_).trans ?_
      · rw [hrec, if_neg hq]
      · have huse : (s'.records p).hostUse = (s.records p).bytes.length := by
          rw [hrec, if_pos rfl]
          rfl
        rw [huse]
        exact hfits
    | storeBytes p bytes =>
      have hrec := exec_rewritten h (p := p) (f := fun r => r.reloaded bytes) rfl
      refine (Impl.total_le_totalBut (p := p) hnext fun q hq => ?_).trans ?_
      · rw [hrec, if_neg hq]
      · rw [hrec, if_pos rfl]
        by_cases htier : (s.records p).tier = .hostResident
        · have huse : ((s.records p).reloaded bytes).hostUse = bytes.length := if_pos htier
          rw [huse]
          exact hfits htier
        · have huse : ((s.records p).reloaded bytes).hostUse = 0 := if_neg htier
          rw [huse]
          exact (s.totalBut_le _ p).trans hs
    | _ => cases hfills
  · have hext := exec_extends h hl
    refine (Impl.total_le hext.next_le (fun p hp => ?_) fun p hle hlt => ?_).trans hs
    · rcases exec_records h hl hp with hsame | hupd
      · rw [hsame]
      · exact hupd.hostUse (by simpa using hfills)
    · obtain ⟨r, hr, hrec⟩ := hext.fresh p hle hlt
      have htier : r.tier ≠ .hostResident := Step.offers_hostUse hr
      rw [hrec]
      exact if_neg htier

/-- A granted lease holds its record and changes nothing else. -/
theorem exec_granted {p lease : Nat} {pin : Bool} {s s' : Impl}
    (h : exec env (.grantLease p pin) s = some s') (hgrant : (s.grantLease env p pin).1 = .ok lease) :
    s'.nextRecord = s.nextRecord ∧ (∀ q, q ≠ p → s'.records q = s.records q) ∧
      (s'.records p).held = true ∧ (s'.records p).tier = (s.records p).tier ∧
      (s'.records p).bytes = (s.records p).bytes := by
  have heffect : ((Step.grantLease p pin).effect env s).records =
      (s.modify p fun r => r.leased (env.now s.tick) pin).records := by
    unfold Impl.grantLease at hgrant
    dsimp only at hgrant
    split at hgrant
    · rename_i hleasable
      simp only [Step.effect, Impl.grantLease, hleasable, if_true]
    · cases hgrant
  have hrec := exec_rewritten h heffect
  refine ⟨(exec_sameIndex h rfl).nextRecord, fun q hq => by rw [hrec, if_neg hq], ?_, ?_, ?_⟩
  · rw [hrec, if_pos rfl]
    simp [ArtifactRecord.held, ArtifactRecord.leased]
  · rw [hrec, if_pos rfl]
    rfl
  · rw [hrec, if_pos rfl]
    rfl

/-- Host memory is within its budget, or every record in it but one is held. -/
def Impl.HostSettled (env : Env) (s : Impl) (p : Nat) : Prop :=
  s.total ArtifactRecord.hostUse ≤ env.cfg.residency.hostBudgetBytes.toNat ∨
    ∀ q < s.nextRecord, q ≠ p → (s.records q).tier = .hostResident → (s.records q).held = true

/-- Granting a lease trims nothing. -/
theorem exec_granted_governed {p lease : Nat} {pin : Bool} {s s' : Impl}
    (h : exec env (.grantLease p pin) s = some s') (hgrant : (s.grantLease env p pin).1 = .ok lease) :
    s'.HostGoverned env ↔ s.HostSettled env p := by
  obtain ⟨hnext, hothers, hheld, htier, hbytes⟩ := exec_granted h hgrant
  have htotal : s'.total ArtifactRecord.hostUse = s.total ArtifactRecord.hostUse := by
    rw [Impl.total, Impl.total, hnext]
    refine Finset.sum_congr rfl fun q _ => ?_
    by_cases hq : q = p
    · rw [hq, ArtifactRecord.hostUse, ArtifactRecord.hostUse, htier, hbytes]
    · rw [hothers q hq]
  unfold Impl.HostGoverned Impl.HostSettled Impl.AllHeld
  rw [htotal, hnext]
  refine or_congr Iff.rfl ⟨fun hall q hlt hq hin => ?_, fun hall q hlt hin => ?_⟩
  · rw [← hothers q hq] at hin ⊢
    exact hall q hlt hin
  · by_cases hq : q = p
    · rw [hq]
      exact hheld
    · rw [hothers q hq] at hin ⊢
      exact hall q hlt hq hin

/-- **Host memory after an acquire.** On every run it is governed after a lease is granted exactly when
it was settled before; and in a run in which all that fills host memory finds room there, it is
governed in every state. -/
theorem host_governed {store : FilePersistenceStore} {tr : List (Event Step Impl)}
    {pool : Pool Step Impl Answer} (h : CacheRuns env store tr pool) :
    (∀ e ∈ tr, ∀ p pin lease, e.label = .grantLease p pin →
      (e.before.grantLease env p pin).1 = .ok lease →
        (e.after.HostGoverned env ↔ e.before.HostSettled env p)) ∧
    ((∀ e ∈ tr, e.label.fitsHost env e.before) →
      (∀ e ∈ tr, e.after.HostGoverned env) ∧ pool.shared.HostGoverned env) := by
  refine ⟨fun e he p pin lease hl hgrant => ?_, fun hfits => ?_⟩
  · have hstep := h.event_step e he
    rw [hl] at hstep
    exact exec_granted_governed hstep hgrant
  · have hinv := Runs.invariant
      (I := fun s => s.total ArtifactRecord.hostUse ≤ env.cfg.residency.hostBudgetBytes.toNat)
      (Nat.zero_le _) h fun e he hs =>
        exec_hostUse (h.event_step e he) (runs_proper h e he) (hfits e he) hs
    exact ⟨fun e he => .inl (hinv.1 e he).2, .inl hinv.2⟩

end Fits

/-! ## Two artifacts in one byte -/

/-- Host memory with room for one byte. -/
def smallHostEnv : Env := { cfg := { residency := { hostBudgetBytes := 1 } } }

/-- An acquire into host memory that has room. -/
theorem host_governed_sample : ∃ tr pool, CacheRuns smallHostEnv {} tr pool ∧
    (∀ e ∈ tr, e.label.fitsHost smallHostEnv e.before) ∧ pool.shared.HostGoverned smallHostEnv ∧
    ∃ e ∈ tr, ∃ p pin lease, e.label = .grantLease p pin ∧
      (e.before.grantLease smallHostEnv p pin).1 = .ok lease ∧
      (e.after.HostGoverned smallHostEnv ↔ e.before.HostSettled smallHostEnv p) := by
  have hput : CacheRuns smallHostEnv {} [⟨0, .put sampleArtifact [1], Impl.initial {}, putState⟩]
      ⟨putState, [.ret (.id ⟨⟨1, 7⟩⟩)]⟩ :=
    Runs.refl.complete (p := (Operation.put sampleArtifact [1]).prog smallHostEnv) ⟨_, rfl⟩ rfl
  have hrun : ∃ tr₁ e tr₂ last out,
      ((Operation.acquire {}).prog smallHostEnv).traced (exec smallHostEnv) 1 putState =
        some (tr₁ ++ e :: (tr₂ ++ [last]), out) ∧
      ((tr₁ ++ (tr₂ ++ [last])).all fun e => !e.label.fillsHost) = true ∧
      e.label = .commitHost 0 ∧ e.before.nextRecord = 1 ∧ (e.before.records 0).bytes = [1] ∧
      last.label = .grantLease 0 false ∧
      (last.before.grantLease smallHostEnv 0 false).1 = .ok 0 := by
    have hfirst := acquireImpl_traced smallHostEnv 1 {} defaultKey_wellFormed (s := putState) rfl
      (putState_lookup rfl rfl rfl rfl {})
    simp only [Operation.prog, Prog.bind_eq, Prog.traced_bind, hfirst]
    exact ⟨[_, _, _, _, _, _], _, [], _, _, rfl, rfl, rfl, rfl, rfl, rfl, rfl⟩
  obtain ⟨tr₁, e, tr₂, last, out, hacquire, hothers, hlabel, hnext, hbytes, hlast, hgrant⟩ := hrun
  have hruns := hput.complete ⟨_, rfl⟩ hacquire
  have hroom : (Step.commitHost 0).fitsHost smallHostEnv e.before := by
    have hbut : e.before.totalBut ArtifactRecord.hostUse 0 = 0 := by
      rw [Impl.totalBut, hnext]
      rfl
    show e.before.totalBut ArtifactRecord.hostUse 0 + (e.before.records 0).bytes.length ≤ _
    rw [hbut, hbytes]
    decide
  have hfits : ∀ e' ∈ [⟨0, .put sampleArtifact [1], Impl.initial {}, putState⟩] ++
      (tr₁ ++ e :: (tr₂ ++ [last])), e'.label.fitsHost smallHostEnv e'.before := by
    intro e' he'
    rcases List.mem_append.mp he' with hfirst | hrest
    · rw [List.mem_singleton.mp hfirst]
      exact trivial
    · by_cases heq : e' = e
      · rw [heq, hlabel]
        exact hroom
      · have hmem : e' ∈ tr₁ ++ (tr₂ ++ [last]) := by
          rcases List.mem_append.mp hrest with hbefore | hafter
          · exact List.mem_append_left _ hbefore
          · exact List.mem_append_right _ ((List.mem_cons.mp hafter).resolve_left heq)
        have hno := List.all_eq_true.mp hothers e' hmem
        generalize e'.label = l at hno
        cases l with
        | commitHost p => cases hno
        | storeBytes p bytes => cases hno
        | _ => exact trivial
  obtain ⟨hgrants, hgoverned⟩ := host_governed hruns
  have hmem : last ∈ [⟨0, .put sampleArtifact [1], Impl.initial {}, putState⟩] ++
      (tr₁ ++ e :: (tr₂ ++ [last])) := by simp
  exact ⟨_, _, hruns, hfits, (hgoverned hfits).2, last, hmem, 0, false, 0, hlast, hgrant,
    hgrants last hmem 0 false 0 hlast hgrant⟩

/-- A fresh cache after two artifacts were put under two keys, with one byte each. -/
def twoKeysState : Impl :=
  { putState.insertIndexLocked (makeRecord 0 { secondArtifact with key := otherKey } [2]) with
    tick := 2 }

theorem twoKeys_sequence : ∃ calls, Sequence smallHostEnv {} calls twoKeysState := by
  have hfirst : Sequence smallHostEnv {} _ _ := .call .fresh
    (show ((Operation.put sampleArtifact [1]).prog _).run _ _ = some (_, putState) from rfl)
  exact ⟨_, hfirst.call (show ((Operation.put { secondArtifact with key := otherKey } [2]).prog _).run
    _ _ = some (_, twoKeysState) from rfl)⟩

/-- Each key finds its artifact as long as the index is the same and the record is healthy. -/
theorem twoKeys_lookup {s : Impl} (hindex : twoKeysState.SameIndex s) :
    ((s.records 0).key = ({} : KernelCompatibilityKey).finalize →
      (s.snapshotOf 0).healthy = true →
      s.lookup ({} : KernelCompatibilityKey).finalize {} = (s.records 0).hitResult
        (accept .exactCompatible (str "canonical key digest matches exactly"))) ∧
    ((s.records 1).key = otherKey.finalize → (s.snapshotOf 1).healthy = true →
      s.lookup otherKey.finalize {} = (s.records 1).hitResult
        (accept .exactCompatible (str "canonical key digest matches exactly"))) := by
  refine ⟨fun hkey hhealthy => ?_, fun hkey hhealthy => ?_⟩
  · refine Impl.lookup_of_one ⟨⟨1, 7⟩⟩ ?_ ?_ hhealthy ?_ rfl
    · rw [hindex.byKey, KernelCompatibilityKey.ensureFinalized_finalize]
      exact (AList.lookup_insert_ne otherKey_digest_ne.symm).trans (AList.lookup_insert _)
    · rw [hindex.byId]
      exact (AList.lookup_insert_ne (by decide)).trans (AList.lookup_insert _)
    · apply evaluateCompatibility_of_digest_eq
      rw [hkey, KernelCompatibilityKey.finalize_finalize]
  · refine Impl.lookup_of_one ⟨⟨1, 8⟩⟩ ?_ ?_ hhealthy ?_ rfl
    · have hnone : putState.byKey.lookup otherKey.finalize.digest = none :=
        (AList.lookup_insert_ne otherKey_digest_ne).trans (AList.lookup_empty _)
      have hsome : twoKeysState.byKey.lookup otherKey.finalize.digest =
          some ((putState.byKey.lookup otherKey.finalize.digest).getD [] ++ [⟨⟨1, 8⟩⟩]) :=
        AList.lookup_insert _
      rw [hindex.byKey, KernelCompatibilityKey.ensureFinalized_finalize, hsome, hnone]
      rfl
    · rw [hindex.byId]
      exact AList.lookup_insert _
    · apply evaluateCompatibility_of_digest_eq
      rw [hkey, KernelCompatibilityKey.finalize_finalize]

/-- **Host memory can be overrun.** Put two artifacts, acquire the first into host memory, release it,
acquire the second: host memory holds twice its budget, and the first artifact is free to go. -/
theorem host_overrun : ∃ calls s lease s', Sequence smallHostEnv {} calls s ∧
    smallHostEnv.cfg.residency.applyHostBudget = true ∧
    ((Operation.acquire { key := otherKey }).prog smallHostEnv).run (exec smallHostEnv) s =
      some (.lease lease, s') ∧ ¬ s'.HostGoverned smallHostEnv := by
  obtain ⟨calls, hseq⟩ := twoKeys_sequence
  -- acquire the first
  obtain ⟨tr₁, lease, s₁, now, hacquire, hrw₁, hrecord, hheld⟩ := acquireImpl_traced_host smallHostEnv
    0 {} (s := twoKeysState) (p := 0) defaultKey_wellFormed rfl
    ((twoKeys_lookup ⟨rfl, rfl, rfl, rfl⟩).1 rfl rfl) rfl rfl
    ((AList.lookup_insert_ne (by decide)).trans (AList.lookup_insert _)) rfl (by decide) (by decide)
    (by decide)
  have hacquired : ((Operation.acquire {}).prog smallHostEnv).run (exec smallHostEnv) twoKeysState =
      some (.lease lease, s₁) := by
    rw [Prog.run_eq_traced 0, acquire_traced hacquire]
    rfl
  -- release it
  obtain ⟨tr₂, s₂, hrelease, hrw₂, -⟩ := release_traced smallHostEnv 0 hrw₁.free hrecord hheld
  have hreleased : ((Operation.release lease).prog smallHostEnv).run (exec smallHostEnv) s₁ =
      some (.done, s₂) := by
    rw [Prog.run_eq_traced 0, hrelease]
    rfl
  have hrw := hrw₁.trans hrw₂
  rw [hrw₁.record] at hrw
  have hsecond : s₂.records 1 = twoKeysState.records 1 := hrw.others 1 (by decide)
  -- acquire the second
  obtain ⟨tr₃, lease', s₃, now', hagain, hrw₃, -, -⟩ := acquireImpl_traced_host smallHostEnv 0
    { key := otherKey } (s := s₂) (p := 1) (by decide) hrw.free
    ((twoKeys_lookup hrw.index).2 (by rw [hsecond]; rfl) (by
      simp only [Impl.CandidateSnapshot.healthy, Impl.snapshotOf, hsecond]
      rfl)) (ArtifactRecord.hitResult_isHit _ _) (by rw [hsecond]; rfl)
    (by rw [hrw.index.byId]; exact AList.lookup_insert _) rfl (by rw [hsecond]; decide)
    (by rw [hsecond]; decide) (by rw [hsecond]; decide)
  have hagain' : ((Operation.acquire { key := otherKey }).prog smallHostEnv).run (exec smallHostEnv)
      s₂ = some (.lease lease', s₃) := by
    rw [Prog.run_eq_traced 0, acquire_traced hagain]
    rfl
  have hfirst : s₃.records 0 = s₂.records 0 := hrw₃.others 0 (by decide)
  have hnext : s₃.nextRecord = 2 := by
    rw [hrw₃.index.nextRecord, hrw.index.nextRecord]
    rfl
  refine ⟨_, s₂, lease', s₃, (hseq.call hacquired).call hreleased, rfl, hagain', ?_⟩
  have hfirst' := hfirst.trans hrw.record
  rintro (hfits | hall)
  · have htotal : s₃.total ArtifactRecord.hostUse = 2 := by
      rw [Impl.total, hnext, Finset.sum_range_succ, Finset.sum_range_one, hfirst', hrw₃.record, hsecond]
      rfl
    rw [htotal] at hfits
    exact absurd hfits (by decide)
  · have hheld₀ := hall 0 (by omega) (by rw [hfirst']; rfl)
    rw [hfirst'] at hheld₀
    cases hheld₀

end KernelCache
