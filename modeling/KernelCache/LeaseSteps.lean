/-
# KernelCache.LeaseSteps — which sections touch leases and their counts, and who takes them.

Three sections do: `grant_lease` makes the next lease and counts it, the exchange of a release marks
a lease, `on_lease_release` counts down.  Every other section leaves the leases alone and the counts of
the records there are, and a new record starts at zero (`exec_sameLeases`, `exec_leaseCount`).  Of
the programs only an acquire grants, on a record that is there, and answers with a lease that has been
granted (`acquireImpl_granted`); no operation but a release takes the other two sections
(`operation_known`).
-/
import KernelCache.LeaseObjects
import KernelCache.ModulePath
import KernelCache.Records

namespace KernelCache

open Foundation (Stable)
open Foundation.Prog (Free Sat)

/-! ## One step of the cache -/

/-- The leases, their states included, are the same. -/
structure Impl.SameLeases (s s' : Impl) : Prop where
  nextLease : s'.nextLease = s.nextLease
  leases : s'.leases = s.leases

/-- The sections that touch leases. -/
def Step.isLease : Step → Bool
  | .grantLease _ _ | .exchangeReleased _ => true
  | _ => false

theorem Step.effect_sameLeases (env : Env) (s : Impl) {l : Step} (h : l.isLease = false) :
    s.SameLeases (l.effect env s) := by
  cases l with
  | grantLease p pin => cases h
  | exchangeReleased lease => cases h
  | publish fence o =>
    simp only [effect, Impl.publish]
    split <;> exact ⟨rfl, rfl⟩
  | put desc bytes =>
    simp only [effect, Impl.put]
    split <;> exact ⟨rfl, rfl⟩
  | recoverInsert artifacts =>
    obtain ⟨st, hst⟩ := Impl.recoverInsert_eq env s artifacts
    simp only [effect]
    rw [hst]
    have hall : s.SameLeases (s.insertAll (artifacts.map (Impl.recoveredRecord (env.now s.tick)))) :=
      Impl.insertAll_induction (P := fun s' => s.SameLeases s') ⟨rfl, rfl⟩
        fun s' r _ h _ => ⟨h.nextLease, h.leases⟩
    exact ⟨hall.nextLease, hall.leases⟩
  | invalidate req =>
    simp only [effect, Impl.invalidate, Impl.bump]
    rw [Impl.invalidateAll_index req s (s.selected env req)]
    exact ⟨rfl, rfl⟩
  | join digest =>
    simp only [effect, Impl.join]
    cases s.inFlight.lookup digest <;> exact ⟨rfl, rfl⟩
  | fulfil fence o =>
    simp only [effect, Impl.fulfil]
    cases s.fences fence <;> exact ⟨rfl, rfl⟩
  | eraseFence fence digest =>
    simp only [effect, Impl.eraseFence]
    split <;> exact ⟨rfl, rfl⟩
  | markPersisted o =>
    simp only [effect, Impl.markPersisted, Impl.bump]
    split <;> exact ⟨rfl, rfl⟩
  | loadModule p bytes device =>
    simp only [effect, Impl.loadModule]
    split
    · exact ⟨rfl, rfl⟩
    · split <;> exact ⟨rfl, rfl⟩
  | evictBegin id force =>
    simp only [effect, Impl.evictBegin]
    split
    · exact ⟨rfl, rfl⟩
    · split
      · split <;> exact ⟨rfl, rfl⟩
      · exact ⟨rfl, rfl⟩
  | evictUnload p =>
    simp only [effect, Impl.unloadModule]
    split <;> exact ⟨rfl, rfl⟩
  | unloadCall p =>
    simp only [effect, Impl.unloadModule]
    split <;> exact ⟨rfl, rfl⟩
  | pin id =>
    simp only [effect, Impl.modifyId]
    split <;> exact ⟨rfl, rfl⟩
  | unpin id =>
    simp only [effect, Impl.modifyId]
    split <;> exact ⟨rfl, rfl⟩
  | _ => exact ⟨rfl, rfl⟩

section Steps

variable {env : Env} {s s' : Impl}

theorem exec_sameLeases {l : Step} (h : exec env l s = some s') (hl : l.isLease = false) :
    s.SameLeases s' := by
  obtain ⟨-, rfl⟩ := exec_eq_some.mp h
  have hsame := l.effect_sameLeases env s hl
  exact ⟨hsame.nextLease, hsame.leases⟩

/-- A lease that is granted is the next one. -/
theorem exec_grantLease {p : Nat} {pin : Bool} (h : exec env (.grantLease p pin) s = some s') :
    ((s.records p).leasable = true ∧ s'.nextLease = s.nextLease + 1 ∧
        (s'.leases s.nextLease).record = p ∧ (s'.leases s.nextLease).released = false ∧
        (∀ k ≠ s.nextLease, s'.leases k = s.leases k) ∧
        (s.grantLease env p pin).1 = .ok s.nextLease ∧
        ∀ q, (s'.records q).leaseCount = (s.records q).leaseCount + if q = p then 1 else 0) ∨
      (s.SameLeases s' ∧ s'.records = s.records ∧
        ∀ lease, (s.grantLease env p pin).1 ≠ .ok lease) := by
  obtain ⟨-, rfl⟩ := exec_eq_some.mp h
  by_cases hl : (s.records p).leasable = true
  · refine .inl ⟨hl, ?_⟩
    rw [Step.effect, Impl.grantLease, if_pos hl]
    refine ⟨rfl, ?_, ?_, fun k hk => Function.update_of_ne hk _ _, rfl, fun q => ?_⟩
    · show (Function.update s.leases s.nextLease _ s.nextLease).record = p
      rw [Function.update_self]
    · show (Function.update s.leases s.nextLease _ s.nextLease).released = false
      rw [Function.update_self]
    · show ((s.modify p fun r => r.leased (env.now s.tick) pin).records q).leaseCount = _
      rw [Impl.modify_records]
      by_cases hq : q = p
      · rw [if_pos hq, if_pos hq]
        rfl
      · rw [if_neg hq, if_neg hq]
        rfl
  · refine .inr ?_
    rw [Step.effect, Impl.grantLease, if_neg hl]
    exact ⟨⟨rfl, rfl⟩, rfl, fun lease hlease => by cases hlease⟩

/-- Marking a lease changes nothing else. -/
theorem exec_exchangeReleased {lease : Nat} (h : exec env (.exchangeReleased lease) s = some s') :
    s'.nextLease = s.nextLease ∧ s'.records = s.records ∧ s'.nextRecord = s.nextRecord ∧
      (∀ k, (s'.leases k).record = (s.leases k).record) ∧
      (∀ k, (s'.leases k).released = if k = lease then true else (s.leases k).released) := by
  obtain ⟨-, rfl⟩ := exec_eq_some.mp h
  refine ⟨rfl, rfl, rfl, fun k => ?_, fun k => ?_⟩
  · show (Function.update s.leases lease _ k).record = _
    by_cases hk : k = lease
    · subst hk
      rw [Function.update_self]
    · rw [Function.update_of_ne hk]
  · show (Function.update s.leases lease _ k).released = _
    by_cases hk : k = lease
    · subst hk
      rw [Function.update_self, if_pos rfl]
    · rw [Function.update_of_ne hk, if_neg hk]

/-- A count-down. -/
theorem exec_onLeaseRelease {p : Nat} (h : exec env (.onLeaseRelease p) s = some s') :
    s.SameLeases s' ∧ s'.nextRecord = s.nextRecord ∧
      ∀ q, (s'.records q).leaseCount = (s.records q).leaseCount - if q = p then 1 else 0 := by
  refine ⟨exec_sameLeases h rfl, (exec_sameIndex h rfl).nextRecord, fun q => ?_⟩
  rw [exec_rewritten h (f := ArtifactRecord.released) (p := p) rfl q]
  by_cases hq : q = p
  · rw [if_pos hq, if_pos hq]
    rfl
  · rw [if_neg hq, if_neg hq]
    rfl

/-- The other changes to a record do not count. -/
theorem ArtifactRecord.Updates.leaseCount {p : Nat} {l : Step} {r r' : ArtifactRecord}
    (h : Updates p r l r') (hgrant : ∀ pin, l ≠ .grantLease p pin) (hrelease : l ≠ .onLeaseRelease p) :
    r'.leaseCount = r.leaseCount := by
  cases h with
  | leased now pin hl => exact absurd rfl (hgrant pin)
  | released => exact absurd rfl hrelease
  | evictCommit =>
    unfold ArtifactRecord.evictCommit
    split <;> rfl
  | validatedBy res =>
    unfold ArtifactRecord.validatedBy
    split <;> rfl
  | _ => rfl

theorem Step.offers_leaseCount {l : Step} {r : ArtifactRecord} (h : r ∈ l.offers env s) :
    r.leaseCount = 0 := by
  cases l with
  | publish fence o =>
    obtain rfl := List.mem_singleton.mp h
    rfl
  | put desc bytes =>
    obtain rfl := List.mem_singleton.mp h
    rfl
  | recoverInsert artifacts =>
    obtain ⟨a, -, rfl⟩ := List.mem_map.mp h
    rfl
  | _ => cases h

/-- The counts under every other section: a record keeps its own, a new one starts at zero. -/
theorem exec_leaseCount {l : Step} (h : exec env l s = some s') (hl : l.Proper)
    (hgrant : ∀ p pin, l ≠ .grantLease p pin) (hrelease : ∀ p, l ≠ .onLeaseRelease p) (q : Nat)
    (hq : q < s'.nextRecord) :
    (s'.records q).leaseCount = if q < s.nextRecord then (s.records q).leaseCount else 0 := by
  apply exec_kept (c := ArtifactRecord.leaseCount) h hl
  · exact fun p r r' hupd => hupd.leaseCount (hgrant p) (hrelease p)
  · exact fun r hr => (Step.offers_leaseCount hr : r.leaseCount = 0)
  · exact hq

/-- What is known of a lease stays: it has been granted, and its record is the same. -/
theorem exec_lease_kept {l : Step} (h : exec env l s = some s') {k : Nat} (hk : k < s.nextLease) :
    k < s'.nextLease ∧ (s'.leases k).record = (s.leases k).record := by
  by_cases hlease : l.isLease = true
  · cases l with
    | grantLease p pin =>
      rcases exec_grantLease h with ⟨-, hnext, -, -, hother, -⟩ | ⟨hsame, -⟩
      · rw [hother k (by omega)]
        exact ⟨by omega, rfl⟩
      · rw [hsame.nextLease, hsame.leases]
        exact ⟨hk, rfl⟩
    | exchangeReleased lease =>
      obtain ⟨hnext, -, -, hrecord, -⟩ := exec_exchangeReleased h
      exact ⟨by omega, hrecord k⟩
    | _ => cases hlease
  · have hsame := exec_sameLeases h (by simpa using hlease)
    rw [hsame.nextLease, hsame.leases]
    exact ⟨hk, rfl⟩

end Steps

/-! ## The operations of the cache -/

/-- The section gives no lease back, and leases a record that is there. -/
def Step.LeasesKnown (l : Step) (s : Impl) : Prop :=
  match l with
  | .grantLease p _ => p < s.nextRecord
  | .exchangeReleased _ | .onLeaseRelease _ => False
  | _ => True

/-- The stages that neither grant nor release. -/
def Stage.leaseless : Stage → Prop
  | .lease | .release => False
  | _ => True

section Operations

variable {env : Env}

abbrev Known (l : Step) (s _s' : Impl) : Prop := l.LeasesKnown s

theorem walk_known : Walk (Guaranteed env SoundSteps Known) Stage.leaseless := by
  refine walk_guaranteed fun l s s' _ _ _ hstage => ?_
  cases l with
  | grantLease p pin => exact hstage.elim
  | exchangeReleased lease => exact hstage.elim
  | onLeaseRelease p => exact hstage.elim
  | _ => exact trivial

theorem promoteToTier_known (p : Nat) (desired : ResidencyTier) (device : DeviceDescriptor) :
    (promoteToTier env p desired device).Free (exec env) SoundSteps Known :=
  walk_known.promotes trivial trivial trivial (walk_known.evictImpl trivial trivial) p desired device

theorem buildImpl_known (request : KernelLookupRequest) :
    (buildImpl env request).Free (exec env) SoundSteps Known :=
  walk_known.buildImpl trivial trivial (walk_known.sect trivial trivial fun _ => trivial)
    (fun _ _ => walk_known.perform trivial trivial) fun _ _ => walk_known.perform trivial trivial

/-- No other operation grants or releases. -/
theorem operation_known {op : Operation} (h : op.leaseless = true) :
    (op.prog env).Free (exec env) SoundSteps Known := by
  have w : Walk (Guaranteed env SoundSteps Known) Stage.leaseless := walk_known
  have hevict : ∀ id force, (evictImpl env id force).Free (exec env) SoundSteps Known :=
    w.evictImpl trivial trivial
  cases op with
  | acquire request => cases h
  | release lease => cases h
  | touch lease => cases h
  | put desc bytes => exact w.bind (w.putOp trivial desc bytes) fun _ _ => w.ret trivial
  | build request => exact w.bind (buildImpl_known request) fun _ _ => w.ret trivial
  | lookup request => exact w.bind (w.lookupImpl trivial request) fun _ _ => w.ret trivial
  | validate request id =>
    exact w.bind (w.validateOp trivial trivial request id) fun _ _ => w.ret trivial
  | load id => exact w.bind (w.loadOp trivial promoteToTier_known id) fun _ _ => w.ret trivial
  | unload id => exact w.bind (w.unloadOp trivial trivial id) fun _ _ => w.ret trivial
  | pin id =>
    exact w.bind (w.sect (Q := Walk.Any) trivial trivial fun _ => trivial) fun _ _ => w.ret trivial
  | unpin id =>
    exact w.bind (w.sect (Q := Walk.Any) trivial trivial fun _ => trivial) fun _ _ => w.ret trivial
  | evict id force => exact w.bind (hevict id force) fun _ _ => w.ret trivial
  | evictToFit tier => exact w.bind (w.evictToFit trivial hevict tier) fun _ _ => w.ret trivial
  | invalidate req => exact w.bind (w.invalidateImpl trivial req) fun _ _ => w.ret trivial
  | recover => exact w.bind (w.recoverImpl trivial trivial) fun _ _ => w.ret trivial
  | rollCacheGeneration => exact w.bind (w.perform trivial trivial) fun _ _ => w.ret trivial
  | resetStats => exact w.bind (w.perform trivial trivial) fun _ _ => w.ret trivial

/-- The answer, if it is a lease, is one that has been granted. -/
abbrev GrantedAnswer (res : Result Nat) (s : Impl) : Prop := ∀ k, res = .ok k → k < s.nextLease

theorem stable_granted (res : Result Nat) :
    Stable (exec env) SoundSteps (GrantedAnswer res) :=
  fun _ _ _ hs h _ k hk => (exec_lease_kept h (hs k hk)).1

theorem leaseRecord_granted (request : KernelLookupRequest) (id : ArtifactId) (vanished : Str) :
    (leaseRecord env request id vanished).Sat (exec env) SoundSteps Known GrantedAnswer
      (fun _ => True) := by
  unfold leaseRecord
  refine Sat.bind (find_there fromSound_self walk_known trivial id) fun found => ?_
  cases found with
  | none => exact Sat.ret fun _ _ k hk => by cases hk
  | some p =>
    refine Sat.weaken (Sat.bind (Guaranteed.carry (stable_there fromSound_self p)
      (promoteToTier_known p _ _)) fun promoted => ?_) (fun s hs => hs p rfl) fun _ _ h => h
    cases promoted with
    | error e => exact Sat.ret fun _ _ k hk => by cases hk
    | ok _ =>
      refine Sat.sect stable_granted fun s s' hp h _ => ⟨hp.2, fun k hk => ?_⟩
      rcases exec_grantLease h with ⟨-, hnext, -, -, -, hans, -⟩ | ⟨-, -, hno⟩
      · rw [hans] at hk
        cases hk
        omega
      · exact absurd hk (hno k)

theorem acquireImpl_granted (request : KernelLookupRequest) :
    (acquireImpl env request).Sat (exec env) SoundSteps Known GrantedAnswer (fun _ => True) := by
  unfold acquireImpl
  refine Sat.bind (Sat.free (walk_known.lookupImpl trivial _)) fun decided => ?_
  cases decided with
  | error e => exact Sat.ret fun _ _ k hk => by cases hk
  | ok d =>
    simp only [acquireDecided]
    split
    · exact leaseRecord_granted _ _ _
    · unfold acquireMiss
      split
      · refine Sat.bind (buildImpl_known _) fun built => ?_
        cases built with
        | error e => exact Sat.ret fun _ _ k hk => by cases hk
        | ok desc => exact leaseRecord_granted _ _ _
      · exact Sat.ret fun _ _ k hk => by cases hk

end Operations

end KernelCache
