/-
# KernelCache.Evolution — what one step of the cache can do to its records and its index.

Every invariant of the cache is proved from the facts of this file and not from the sections
themselves.  `ArtifactRecord.Updates` is the closed list of changes to a record;
`exec_records` says that a step leaves a record alone or makes one of them, and `exec_extends` that
the index only ever gains ids that were not there.  `Impl.Sound` is the invariant of every reachable
state: ids agree with the records they are bound to, and records are only in states the cache moves
them to.
-/
import KernelCache.Operations

namespace KernelCache

open Foundation (Bytes)

/-! ## Records -/

namespace ArtifactRecord

/-- The changes a section can make to the record behind `p`: which section makes which. -/
inductive Updates (p : Nat) (r : ArtifactRecord) : Step → ArtifactRecord → Prop
  | persisted (o : Outcome) : Updates p r (.markPersisted o) r.persisted
  | reloaded (bytes : Bytes) : Updates p r (.storeBytes p bytes) (r.reloaded bytes)
  | promoteDevice (handle : LoadedModuleHandle) (footprint : UInt64 × Bool) :
      Updates p r (.commitDevice p handle footprint) (r.promoteDevice handle footprint)
  | promoteHost : Updates p r (.commitHost p) r.promoteHost
  | evictBegin (id : ArtifactId) (force : Bool) : Updates p r (.evictBegin id force) r.evictBegin
  | evictCommit : Updates p r (.evictCommit p) r.evictCommit
  | leased (now : UInt64) (pin : Bool) (h : r.leasable = true) :
      Updates p r (.grantLease p pin) (r.leased now pin)
  | released : Updates p r (.onLeaseRelease p) r.released
  | touched (now : UInt64) : Updates p r (.touch p) (r.touched now)
  | invalidate (req : InvalidationRequest) : Updates p r (.invalidate req) r.invalidate
  | validatedBy (res : Result ValidationDescriptor) :
      Updates p r (.validateCommit p res) (r.validatedBy res)
  | unloaded : Updates p r (.unloadCommit p) r.unloaded
  | pinned (id : ArtifactId) : Updates p r (.pin id) r.pinned
  | unpinned (id : ArtifactId) : Updates p r (.unpin id) r.unpinned

/-- What every change respects. -/
structure Evolves (r r' : ArtifactRecord) : Prop where
  id_eq : r'.id = r.id
  key_eq : r'.key = r.key
  generation_eq : r'.generation = r.generation
  state_eq_or : r'.state = r.state ∨
    (canTransition r.state r'.state = true ∧ r'.state.isTarget = true)
  invalidated : r.invalidated = true → r'.invalidated = true
  corrupt : r.corrupt = true → r'.corrupt = true
  leased : r.leaseCount < r'.leaseCount → r.leasable = true

theorem Evolves.refl (r : ArtifactRecord) : r.Evolves r :=
  ⟨rfl, rfl, rfl, .inl rfl, fun h => h, fun h => h, fun h => absurd h (Nat.lt_irrefl _)⟩

/-- An attempted move to a target state is a move an evolution may make. -/
theorem move_ok {s t : ArtifactState} (ht : t.isTarget = true) :
    s.tryMove t = s ∨ (canTransition s (s.tryMove t) = true ∧ (s.tryMove t).isTarget = true) := by
  rcases s.tryMove_eq_or t with h | ⟨hcan, h⟩
  · exact .inl h
  · rw [h]
    exact .inr ⟨hcan, ht⟩

theorem evictCommit_evolves (r : ArtifactRecord) : r.Evolves r.evictCommit := by
  unfold evictCommit
  split
  · exact ⟨rfl, rfl, rfl, move_ok rfl, fun h => h, fun h => h, fun h => absurd h (Nat.lt_irrefl _)⟩
  · exact ⟨rfl, rfl, rfl, move_ok rfl, fun h => h, fun h => h, fun h => absurd h (Nat.lt_irrefl _)⟩
  · exact ⟨rfl, rfl, rfl, .inl rfl, fun h => h, fun h => h, fun h => absurd h (Nat.lt_irrefl _)⟩

theorem validatedBy_evolves (r : ArtifactRecord) (res : Result ValidationDescriptor) :
    r.Evolves (r.validatedBy res) := by
  unfold validatedBy
  split
  · rename_i vd
    refine ⟨rfl, rfl, rfl, ?_, fun h => h, ?_, fun h => absurd h (Nat.lt_irrefl _)⟩
    · dsimp only
      split
      · exact move_ok rfl
      · exact move_ok rfl
    · intro h
      simp [h]
  · exact ⟨rfl, rfl, rfl, move_ok rfl, fun h => h, fun _ => rfl, fun h => absurd h (Nat.lt_irrefl _)⟩

theorem leased_evolves {r : ArtifactRecord} (now : UInt64) (pin : Bool) (h : r.leasable = true) :
    r.Evolves (r.leased now pin) := by
  refine ⟨rfl, rfl, rfl, ?_, fun h => h, fun h => h, fun _ => h⟩
  unfold leased
  dsimp only
  split
  · exact move_ok rfl
  · exact .inl rfl

theorem leased_leasable {r : ArtifactRecord} (now : UInt64) (pin : Bool)
    (h : r.leasable = true) : (r.leased now pin).leasable = true := by
  simp only [ArtifactRecord.leasable, Bool.and_eq_true] at h ⊢
  refine ⟨h.1, ?_⟩
  have helig := h.2
  revert helig
  simp only [ArtifactRecord.leased]
  cases r.state <;> decide

theorem released_evolves (r : ArtifactRecord) : r.Evolves r.released := by
  refine ⟨rfl, rfl, rfl, ?_, fun h => h, fun h => h, ?_⟩
  · unfold released
    dsimp only
    split
    · exact move_ok rfl
    · exact .inl rfl
  · intro h
    have hlt : r.leaseCount < r.leaseCount - 1 := h
    omega

theorem invalidate_evolves (r : ArtifactRecord) : r.Evolves r.invalidate := by
  refine ⟨rfl, rfl, rfl, ?_, fun _ => rfl, fun h => h, fun h => absurd h (Nat.lt_irrefl _)⟩
  unfold invalidate
  dsimp only
  split
  · exact move_ok rfl
  · exact .inl rfl

/-- Every change on the list is an evolution. -/
theorem Updates.evolves {p : Nat} {l : Step} {r r' : ArtifactRecord} (h : Updates p r l r') :
    r.Evolves r' := by
  have hsame : ∀ r' : ArtifactRecord, r'.id = r.id → r'.key = r.key →
      r'.generation = r.generation → r'.leaseCount = r.leaseCount →
      r'.invalidated = r.invalidated → r'.corrupt = r.corrupt →
      (r'.state = r.state ∨ (canTransition r.state r'.state = true ∧ r'.state.isTarget = true)) →
      r.Evolves r' := by
    intro r' hid hkey hgen hlease hinv hcor hstate
    refine ⟨hid, hkey, hgen, hstate, fun h => by rw [hinv, h], fun h => by rw [hcor, h], ?_⟩
    intro hlt
    omega
  cases h with
  | persisted o => exact hsame _ rfl rfl rfl rfl rfl rfl (.inl rfl)
  | reloaded bytes => exact hsame _ rfl rfl rfl rfl rfl rfl (.inl rfl)
  | promoteDevice handle footprint => exact hsame _ rfl rfl rfl rfl rfl rfl (move_ok rfl)
  | promoteHost => exact hsame _ rfl rfl rfl rfl rfl rfl (move_ok rfl)
  | evictBegin id force => exact hsame _ rfl rfl rfl rfl rfl rfl (move_ok rfl)
  | evictCommit => exact r.evictCommit_evolves
  | leased now pin h => exact leased_evolves now pin h
  | released => exact r.released_evolves
  | touched now => exact hsame _ rfl rfl rfl rfl rfl rfl (.inl rfl)
  | invalidate req => exact r.invalidate_evolves
  | validatedBy res => exact r.validatedBy_evolves res
  | unloaded => exact hsame _ rfl rfl rfl rfl rfl rfl (move_ok rfl)
  | pinned id => exact hsame _ rfl rfl rfl rfl rfl rfl (.inl rfl)
  | unpinned id => exact hsame _ rfl rfl rfl rfl rfl rfl (.inl rfl)

/-- Only a reload and the commit of an eviction of a host-resident record touch a record's bytes. -/
theorem Updates.bytes {p : Nat} {l : Step} {r r' : ArtifactRecord} (h : Updates p r l r') :
    r'.bytes = r.bytes ∨ l = .storeBytes p r'.bytes ∨
      (l = .evictCommit p ∧ r.tier = .hostResident ∧ r'.bytes = []) := by
  cases h with
  | reloaded bytes => exact .inr (.inl rfl)
  | evictCommit =>
    unfold ArtifactRecord.evictCommit
    split
    · exact .inl rfl
    · rename_i htier
      exact .inr (.inr ⟨rfl, htier, rfl⟩)
    · exact .inl rfl
  | validatedBy res =>
    unfold ArtifactRecord.validatedBy
    split <;> exact .inl rfl
  | _ => exact .inl rfl

/-- What a record falls back to is neither the device nor host memory. -/
theorem fallbackTier_ne (r : ArtifactRecord) :
    r.fallbackTier ≠ .deviceResident ∧ r.fallbackTier ≠ .hostResident := by
  unfold fallbackTier
  split
  · exact ⟨by decide, by decide⟩
  · exact ⟨by decide, by decide⟩

/-- Flags or state that no lookup and no lease accepts again. -/
def poisoned (r : ArtifactRecord) : Bool := r.invalidated || r.corrupt || r.state.isPoisoned

/-- **Poison is permanent**, one step. -/
theorem Evolves.poisoned {r r' : ArtifactRecord} (h : r.Evolves r') (hp : r.poisoned = true) :
    r'.poisoned = true := by
  simp only [ArtifactRecord.poisoned, Bool.or_eq_true] at hp ⊢
  rcases hp with (hinv | hcor) | hstate
  · exact .inl (.inl (h.invalidated hinv))
  · exact .inl (.inr (h.corrupt hcor))
  · rcases h.state_eq_or with heq | ⟨hcan, -⟩
    · rw [heq]
      exact .inr hstate
    · exact .inr (ArtifactState.poisoned_of_transition hcan hstate)

theorem not_leasable_of_poisoned {r : ArtifactRecord} (h : r.poisoned = true) :
    r.leasable = false := by
  simp only [poisoned, Bool.or_eq_true] at h
  unfold leasable
  rcases h with (hinv | hcor) | hstate
  · simp [hinv]
  · simp [hcor]
  · simp [ArtifactState.not_eligible_of_poisoned hstate]

theorem Evolves.spent {r r' : ArtifactRecord} (h : r.Evolves r') (hs : r.state.isSpent = true) :
    r'.state.isSpent = true := by
  rcases h.state_eq_or with heq | ⟨hcan, htarget⟩
  · rw [heq]
    exact hs
  · exact ArtifactState.spent_of_transition hcan htarget hs

theorem Evolves.visited {r r' : ArtifactRecord} (h : r.Evolves r') (hv : r.state.isVisited = true) :
    r'.state.isVisited = true := by
  rcases h.state_eq_or with heq | ⟨-, htarget⟩
  · rw [heq]
    exact hv
  · simp [ArtifactState.isVisited, htarget]

/-- A record that can be leased could be leased before. -/
theorem Evolves.leasable {r r' : ArtifactRecord} (h : r.Evolves r')
    (hv : r.state.isVisited = true) (hl : r'.leasable = true) : r.leasable = true := by
  simp only [ArtifactRecord.leasable, Bool.and_eq_true, Bool.not_eq_true'] at hl ⊢
  obtain ⟨⟨hinv, hcor⟩, helig⟩ := hl
  refine ⟨⟨?_, ?_⟩, ?_⟩
  · cases hr : r.invalidated with
    | false => rfl
    | true =>
      rw [h.invalidated hr] at hinv
      cases hinv
  · cases hr : r.corrupt with
    | false => rfl
    | true =>
      rw [h.corrupt hr] at hcor
      cases hcor
  · cases hr : r.state.isEligible with
    | true => rfl
    | false =>
      have hspent : r.state.isSpent = true := by simp [ArtifactState.isSpent, hv, hr]
      rw [ArtifactState.not_eligible_of_spent (h.spent hspent)] at helig
      cases helig

end ArtifactRecord

/-! ## Sections and records -/

namespace Impl

theorem modify_records (s : Impl) (q : Nat) (f : ArtifactRecord → ArtifactRecord) (p : Nat) :
    (s.modify q f).records p = if p = q then f (s.records p) else s.records p := by
  unfold modify
  by_cases h : p = q
  · subst h
    simp
  · simp [h]

/-- The bucket of a digest after an insertion. -/
theorem insertIndexLocked_byKey (s : Impl) (r : ArtifactRecord) (d : Sha256Digest) :
    ((s.insertIndexLocked r).byKey.lookup d).getD [] = (s.byKey.lookup d).getD [] ++
      if r.key.ensureFinalized.digest = d then [r.id] else [] := by
  by_cases hd : r.key.ensureFinalized.digest = d
  · subst hd
    have hlook : (s.insertIndexLocked r).byKey.lookup r.key.ensureFinalized.digest =
        some ((s.byKey.lookup r.key.ensureFinalized.digest).getD [] ++ [r.id]) := AList.lookup_insert _
    rw [hlook, if_pos rfl]
    rfl
  · have hlook : (s.insertIndexLocked r).byKey.lookup d = s.byKey.lookup d :=
      AList.lookup_insert_ne (Ne.symm hd)
    rw [hlook, if_neg hd, List.append_nil]

/-- The bucket of an operation after an insertion. -/
theorem insertIndexLocked_byOperation (s : Impl) (r : ArtifactRecord) (op : Str) :
    ((s.insertIndexLocked r).byOperation.lookup op).getD [] = (s.byOperation.lookup op).getD [] ++
      if r.operation = op then [r.id] else [] := by
  by_cases hop : r.operation = op
  · subst hop
    have hlook : (s.insertIndexLocked r).byOperation.lookup r.operation =
        some ((s.byOperation.lookup r.operation).getD [] ++ [r.id]) := AList.lookup_insert _
    rw [hlook, if_pos rfl]
    rfl
  · have hlook : (s.insertIndexLocked r).byOperation.lookup op = s.byOperation.lookup op :=
      AList.lookup_insert_ne (Ne.symm hop)
    rw [hlook, if_neg hop, List.append_nil]

theorem insertIndexLocked_records {s : Impl} {p : Nat} (r : ArtifactRecord)
    (hp : p < s.nextRecord) : (s.insertIndexLocked r).records p = s.records p :=
  Function.update_of_ne (Nat.ne_of_lt hp) _ _

theorem insertIfAbsent_of_some {s : Impl} {r : ArtifactRecord} {p : Nat}
    (h : s.byId.lookup r.id = some p) : s.insertIfAbsent r = s := by
  simp only [insertIfAbsent, h]

theorem insertIfAbsent_of_none {s : Impl} {r : ArtifactRecord} (h : s.byId.lookup r.id = none) :
    s.insertIfAbsent r = s.insertIndexLocked r := by
  simp only [insertIfAbsent, h]

/-- Insert the records whose id is free, in order. -/
def insertAll (s : Impl) (rs : List ArtifactRecord) : Impl := rs.foldl insertIfAbsent s

@[simp] theorem insertAll_nil (s : Impl) : s.insertAll [] = s := rfl

@[simp] theorem insertAll_cons (s : Impl) (r : ArtifactRecord) (rs : List ArtifactRecord) :
    s.insertAll (r :: rs) = (s.insertIfAbsent r).insertAll rs := rfl

theorem insertIfAbsent_stats (s : Impl) (r : ArtifactRecord) (st : Stats) :
    { s with stats := st }.insertIfAbsent r = { s.insertIfAbsent r with stats := st } := by
  unfold insertIfAbsent
  dsimp only
  cases s.byId.lookup r.id with
  | none => rfl
  | some p => rfl

theorem insertAll_stats (s : Impl) (rs : List ArtifactRecord) (st : Stats) :
    { s with stats := st }.insertAll rs = { s.insertAll rs with stats := st } := by
  induction rs generalizing s with
  | nil => rfl
  | cons r rs ih =>
    rw [insertAll_cons, insertAll_cons, insertIfAbsent_stats, ih]

/-- `recover_impl` inserts the artifacts whose id is free, and counts. -/
theorem recoverInsert_eq (env : Env) (s : Impl) (as : List StoredArtifact) :
    ∃ st, (recoverInsert env s as).2 =
      { s.insertAll (as.map (recoveredRecord (env.now s.tick))) with stats := st } := by
  induction as generalizing s with
  | nil => exact ⟨s.stats, rfl⟩
  | cons a as ih =>
    rw [List.map_cons, insertAll_cons]
    simp only [recoverInsert]
    cases h : s.byId.lookup a.id with
    | some p =>
      rw [insertIfAbsent_of_some (r := recoveredRecord (env.now s.tick) a) h]
      exact ih s
    | none =>
      rw [insertIfAbsent_of_none (r := recoveredRecord (env.now s.tick) a) h]
      obtain ⟨st, hst⟩ := ih ((s.insertIndexLocked (recoveredRecord (env.now s.tick) a)).bump
        fun st => { st with persistentReloads := st.persistentReloads + 1 })
      refine ⟨st, hst.trans ?_⟩
      have htick : ((s.insertIndexLocked (recoveredRecord (env.now s.tick) a)).bump
          fun st => { st with persistentReloads := st.persistentReloads + 1 }).tick = s.tick := rfl
      rw [htick]
      unfold bump
      rw [insertAll_stats]

/-- The loader call of an eviction or an unload changes no record. -/
theorem unloadModule_records (env : Env) (s : Impl) (p : Nat) :
    (s.unloadModule env p).2.records = s.records := by
  unfold unloadModule
  split <;> rfl

theorem invalidateAll_records (req : InvalidationRequest) (s : Impl) (ids : List ArtifactId)
    (p : Nat) : (invalidateAll req s ids).2.records p = s.records p ∨
      ((s.records p).invalidated = false ∧
        (invalidateAll req s ids).2.records p = (s.records p).invalidate) := by
  induction ids generalizing s with
  | nil => exact .inl rfl
  | cons id ids ih =>
    simp only [invalidateAll]
    split
    · exact ih s
    · rename_i q _
      split
      · exact ih s
      · rename_i hq
        show (invalidateAll req (s.modify q _) ids).2.records p = _ ∨ _
        -- once invalidated here, a later id leaves the record alone
        rcases ih (s.modify q ArtifactRecord.invalidate) with heq | ⟨hfalse, heq⟩
        · rw [heq, modify_records]
          by_cases hpq : p = q
          · subst hpq
            rw [if_pos rfl]
            exact .inr ⟨by simpa using hq, rfl⟩
          · rw [if_neg hpq]
            exact .inl rfl
        · rw [modify_records] at hfalse heq
          by_cases hpq : p = q
          · rw [if_pos hpq] at hfalse
            cases hfalse
          · rw [if_neg hpq] at hfalse heq
            exact .inr ⟨hfalse, heq⟩

theorem invalidateAll_index (req : InvalidationRequest) (s : Impl) (ids : List ArtifactId) :
    (invalidateAll req s ids).2 =
      { s with records := (invalidateAll req s ids).2.records } := by
  induction ids generalizing s with
  | nil => rfl
  | cons id ids ih =>
    simp only [invalidateAll]
    split
    · exact ih s
    · split
      · exact ih s
      · exact ih _

/-- Anything about a list of records that holds of none inserted and is kept by inserting one whose
id is free. -/
theorem insertAll_induction {P : Impl → Prop} {rs : List ArtifactRecord} {s : Impl} (h₀ : P s)
    (hstep : ∀ s' r, r ∈ rs → P s' → s'.byId.lookup r.id = none → P (s'.insertIndexLocked r)) :
    P (s.insertAll rs) := by
  induction rs generalizing s with
  | nil => exact h₀
  | cons r rs ih =>
    rw [insertAll_cons]
    apply ih
    · cases h : s.byId.lookup r.id with
      | some p =>
        rw [insertIfAbsent_of_some h]
        exact h₀
      | none =>
        rw [insertIfAbsent_of_none h]
        exact hstep s r (by simp) h₀ h
    · intro s' r' hr'
      exact hstep s' r' (List.mem_cons_of_mem r hr')

end Impl

/-- The three indices and the heap bound are the same. -/
structure Impl.SameIndex (s s' : Impl) : Prop where
  nextRecord : s'.nextRecord = s.nextRecord
  byId : s'.byId = s.byId
  byKey : s'.byKey = s.byKey
  byOperation : s'.byOperation = s.byOperation

theorem Impl.SameIndex.trans {s s' s'' : Impl} (h : s.SameIndex s') (h' : s'.SameIndex s'') :
    s.SameIndex s'' :=
  ⟨h'.nextRecord.trans h.nextRecord, h'.byId.trans h.byId, h'.byKey.trans h.byKey,
    h'.byOperation.trans h.byOperation⟩

/-- The builds in flight and the next generation are the same. -/
structure Impl.SameFences (s s' : Impl) : Prop where
  inFlight : s'.inFlight = s.inFlight
  fences : s'.fences = s.fences
  nextFence : s'.nextFence = s.nextFence
  nextGeneration : s'.nextGeneration = s.nextGeneration

theorem Impl.SameFences.refl (s : Impl) : s.SameFences s := ⟨rfl, rfl, rfl, rfl⟩

theorem Impl.SameFences.trans {s s' s'' : Impl} (h : s.SameFences s') (h' : s'.SameFences s'') :
    s.SameFences s'' :=
  ⟨h'.inFlight.trans h.inFlight, h'.fences.trans h.fences, h'.nextFence.trans h.nextFence,
    h'.nextGeneration.trans h.nextGeneration⟩

/-- Inserting records leaves the builds in flight and the store alone. -/
theorem Impl.insertAll_frame (s : Impl) (rs : List ArtifactRecord) :
    s.SameFences (s.insertAll rs) ∧ (s.insertAll rs).store = s.store :=
  Impl.insertAll_induction (P := fun s' => s.SameFences s' ∧ s'.store = s.store) ⟨.refl s, rfl⟩
    fun _ _ _ h _ => ⟨h.1.trans ⟨rfl, rfl, rfl, rfl⟩, h.2⟩

/-! ## One step of the machine -/

namespace Step

/-- What the programs of the cache guarantee about the arguments of a section: an outcome to publish
is a success and its descriptor names its id, reloaded bytes are not empty, recovered keys are
accepted by `finalize()`. -/
def Proper : Step → Prop
  | publish _ o => o.succeeded = true ∧ o.desc.id = o.id
  | persist o => o.succeeded = true ∧ o.desc.id = o.id
  | storeBytes _ bytes => bytes ≠ []
  | recoverInsert artifacts => ∀ a ∈ artifacts, a.key.wellFormed = true
  | _ => True

/-- The records a section offers to the index. -/
def offers (env : Env) (s : Impl) : Step → List ArtifactRecord
  | publish _ o => [makeRecord (env.now s.tick) o.desc o.bytes]
  | put desc bytes => [makeRecord (env.now s.tick) desc bytes]
  | recoverInsert artifacts => artifacts.map (Impl.recoveredRecord (env.now s.tick))
  | _ => []

/-- The sections that insert records. -/
def inserts : Step → Bool
  | publish _ _ | put _ _ | recoverInsert _ => true
  | _ => false

/-- The sections of the single-flight protocol. -/
def isFence : Step → Bool
  | join _ | fulfil _ _ | eraseFence _ _ => true
  | _ => false

/-- The sections that write the persistent store. -/
def isStore : Step → Bool
  | persist _ | recoverRead => true
  | _ => false

/-- An inserting section inserts what it offers, and counts. -/
theorem effect_inserts (env : Env) (s : Impl) {l : Step} (h : l.inserts = true) (hl : l.Proper) :
    ∃ st, l.effect env s = { s.insertAll (l.offers env s) with stats := st } := by
  cases l with
  | publish fence o =>
    refine ⟨(s.publish env o).2.stats, ?_⟩
    have hid : o.id = (makeRecord (env.now s.tick) o.desc o.bytes).id := hl.2.symm
    simp only [effect, offers, Impl.insertAll_cons, Impl.insertAll_nil, Impl.publish]
    cases hlook : s.byId.lookup o.id with
    | some p => rw [Impl.insertIfAbsent_of_some (hid ▸ hlook)]
    | none =>
      rw [Impl.insertIfAbsent_of_none (hid ▸ hlook)]
  | put desc bytes =>
    refine ⟨(s.put env desc bytes).2.stats, ?_⟩
    simp only [effect, offers, Impl.insertAll_cons, Impl.insertAll_nil, Impl.put]
    cases hlook : s.byId.lookup desc.id with
    | some p =>
      rw [Impl.insertIfAbsent_of_some (r := makeRecord (env.now s.tick) desc bytes) hlook]
    | none =>
      rw [Impl.insertIfAbsent_of_none (r := makeRecord (env.now s.tick) desc bytes) hlook]
  | recoverInsert artifacts => exact Impl.recoverInsert_eq env s artifacts
  | _ => cases h

/-- What the other sections leave alone: the index, always; the builds in flight, outside the
single-flight protocol; the store, unless they write it. -/
theorem effect_frame (env : Env) (s : Impl) {l : Step} (h : l.inserts = false) :
    s.SameIndex (l.effect env s) ∧ (l.isFence = false → s.SameFences (l.effect env s)) ∧
      (l.isStore = false → (l.effect env s).store = s.store) := by
  have hrefl : ∀ s' : Impl, s.SameIndex s' → s.SameFences s' → s'.store = s.store →
      s.SameIndex s' ∧ (l.isFence = false → s.SameFences s') ∧
        (l.isStore = false → s'.store = s.store) :=
    fun s' hindex hfences hstore => ⟨hindex, fun _ => hfences, fun _ => hstore⟩
  cases l with
  | publish fence o => cases h
  | put desc bytes => cases h
  | recoverInsert artifacts => cases h
  | join digest =>
    refine ⟨?_, fun hf => Bool.noConfusion hf, fun _ => ?_⟩
    · simp only [effect, Impl.join]
      cases s.inFlight.lookup digest <;> exact ⟨rfl, rfl, rfl, rfl⟩
    · simp only [effect, Impl.join]
      cases s.inFlight.lookup digest <;> rfl
  | fulfil fence o =>
    refine ⟨?_, fun hf => Bool.noConfusion hf, fun _ => ?_⟩
    · simp only [effect, Impl.fulfil]
      cases s.fences fence <;> exact ⟨rfl, rfl, rfl, rfl⟩
    · simp only [effect, Impl.fulfil]
      cases s.fences fence <;> rfl
  | eraseFence fence digest =>
    refine ⟨?_, fun hf => Bool.noConfusion hf, fun _ => ?_⟩
    · simp only [effect, Impl.eraseFence]
      split <;> exact ⟨rfl, rfl, rfl, rfl⟩
    · simp only [effect, Impl.eraseFence]
      split <;> rfl
  | persist o =>
    exact ⟨⟨rfl, rfl, rfl, rfl⟩, fun _ => ⟨rfl, rfl, rfl, rfl⟩, fun hs => Bool.noConfusion hs⟩
  | recoverRead =>
    exact ⟨⟨rfl, rfl, rfl, rfl⟩, fun _ => ⟨rfl, rfl, rfl, rfl⟩, fun hs => Bool.noConfusion hs⟩
  | invalidate req =>
    apply hrefl
    all_goals
      simp only [effect, Impl.invalidate, Impl.bump]
      rw [Impl.invalidateAll_index req s (s.selected env req)]
    · exact ⟨rfl, rfl, rfl, rfl⟩
    · exact ⟨rfl, rfl, rfl, rfl⟩
  | markPersisted o =>
    simp only [effect, Impl.markPersisted, Impl.bump]
    split <;> exact hrefl _ ⟨rfl, rfl, rfl, rfl⟩ ⟨rfl, rfl, rfl, rfl⟩ rfl
  | loadModule p bytes device =>
    simp only [effect, Impl.loadModule]
    split
    · exact hrefl _ ⟨rfl, rfl, rfl, rfl⟩ ⟨rfl, rfl, rfl, rfl⟩ rfl
    · split <;> exact hrefl _ ⟨rfl, rfl, rfl, rfl⟩ ⟨rfl, rfl, rfl, rfl⟩ rfl
  | evictBegin id force =>
    simp only [effect, Impl.evictBegin]
    split
    · exact hrefl _ ⟨rfl, rfl, rfl, rfl⟩ ⟨rfl, rfl, rfl, rfl⟩ rfl
    · split
      · split <;> exact hrefl _ ⟨rfl, rfl, rfl, rfl⟩ ⟨rfl, rfl, rfl, rfl⟩ rfl
      · exact hrefl _ ⟨rfl, rfl, rfl, rfl⟩ ⟨rfl, rfl, rfl, rfl⟩ rfl
  | evictUnload p =>
    simp only [effect, Impl.unloadModule]
    split <;> exact hrefl _ ⟨rfl, rfl, rfl, rfl⟩ ⟨rfl, rfl, rfl, rfl⟩ rfl
  | unloadCall p =>
    simp only [effect, Impl.unloadModule]
    split <;> exact hrefl _ ⟨rfl, rfl, rfl, rfl⟩ ⟨rfl, rfl, rfl, rfl⟩ rfl
  | grantLease p withPin =>
    simp only [effect, Impl.grantLease]
    split <;> exact hrefl _ ⟨rfl, rfl, rfl, rfl⟩ ⟨rfl, rfl, rfl, rfl⟩ rfl
  | pin id =>
    simp only [effect, Impl.modifyId]
    split <;> exact hrefl _ ⟨rfl, rfl, rfl, rfl⟩ ⟨rfl, rfl, rfl, rfl⟩ rfl
  | unpin id =>
    simp only [effect, Impl.modifyId]
    split <;> exact hrefl _ ⟨rfl, rfl, rfl, rfl⟩ ⟨rfl, rfl, rfl, rfl⟩ rfl
  | _ => exact hrefl _ ⟨rfl, rfl, rfl, rfl⟩ ⟨rfl, rfl, rfl, rfl⟩ rfl

/-- A section leaves a record alone or makes one of the listed changes to it. -/
theorem effect_records (env : Env) (s : Impl) (l : Step) (h : l.Proper) {p : Nat}
    (hp : p < s.nextRecord) :
    (l.effect env s).records p = s.records p ∨
      ArtifactRecord.Updates p (s.records p) l ((l.effect env s).records p) := by
  -- an insertion writes behind the records there are
  have hinsert : l.inserts = true → (l.effect env s).records p = s.records p := by
    intro hins
    obtain ⟨st, hst⟩ := effect_inserts env s hins h
    rw [hst]
    refine (Impl.insertAll_induction (P := fun s' => s'.records p = s.records p ∧
      s.nextRecord ≤ s'.nextRecord) ⟨rfl, le_rfl⟩ ?_).1
    rintro s' r - ⟨hrec, hle⟩ -
    exact ⟨(Impl.insertIndexLocked_records r (by omega)).trans hrec, Nat.le_succ_of_le hle⟩
  have hmodify : ∀ (q : Nat) (f : ArtifactRecord → ArtifactRecord),
      (p = q → ArtifactRecord.Updates p (s.records p) l (f (s.records p))) →
        (s.modify q f).records p = s.records p ∨
          ArtifactRecord.Updates p (s.records p) l ((s.modify q f).records p) := by
    intro q f hf
    rw [Impl.modify_records]
    by_cases hpq : p = q
    · rw [if_pos hpq]
      exact .inr (hf hpq)
    · rw [if_neg hpq]
      exact .inl rfl
  cases l with
  | publish fence o => exact .inl (hinsert rfl)
  | put desc bytes => exact .inl (hinsert rfl)
  | recoverInsert artifacts => exact .inl (hinsert rfl)
  | invalidate req =>
    rcases Impl.invalidateAll_records req s (s.selected env req) p with heq | ⟨-, heq⟩
    · exact .inl heq
    · refine .inr ?_
      show ArtifactRecord.Updates p _ _
        ((Impl.invalidateAll req s (s.selected env req)).2.records p)
      rw [heq]
      exact .invalidate req
  | markPersisted o =>
    simp only [effect, Impl.markPersisted, Impl.bump]
    cases s.byId.lookup o.id with
    | none => exact .inl rfl
    | some q => exact hmodify q _ fun _ => .persisted o
  | storeBytes q bytes =>
    refine hmodify q (fun r => r.reloaded bytes) ?_
    rintro rfl
    exact .reloaded bytes
  | commitDevice q handle footprint =>
    refine hmodify q (fun r => r.promoteDevice handle footprint) ?_
    rintro rfl
    exact .promoteDevice handle footprint
  | commitHost q =>
    refine hmodify q ArtifactRecord.promoteHost ?_
    rintro rfl
    exact .promoteHost
  | evictBegin id force =>
    simp only [effect, Impl.evictBegin]
    split
    · exact .inl rfl
    · split
      · split <;> exact .inl rfl
      · exact hmodify _ _ fun _ => .evictBegin id force
  | evictCommit q =>
    refine hmodify q ArtifactRecord.evictCommit ?_
    rintro rfl
    exact .evictCommit
  | grantLease q withPin =>
    simp only [effect, Impl.grantLease]
    split
    · rename_i hlease
      rw [Impl.modify_records]
      by_cases hpq : p = q
      · subst hpq
        rw [if_pos rfl]
        exact .inr (.leased _ _ hlease)
      · rw [if_neg hpq]
        exact .inl rfl
    · exact .inl rfl
  | onLeaseRelease q =>
    refine hmodify q ArtifactRecord.released ?_
    rintro rfl
    exact .released
  | touch q =>
    refine hmodify q (fun r => r.touched (env.now s.tick)) ?_
    rintro rfl
    exact .touched _
  | validateCommit q res =>
    refine hmodify q (fun r => r.validatedBy res) ?_
    rintro rfl
    exact .validatedBy res
  | unloadCommit q =>
    refine hmodify q ArtifactRecord.unloaded ?_
    rintro rfl
    exact .unloaded
  | pin id =>
    simp only [effect, Impl.modifyId]
    split
    · exact hmodify _ _ fun _ => .pinned id
    · exact .inl rfl
  | unpin id =>
    simp only [effect, Impl.modifyId]
    split
    · exact hmodify _ _ fun _ => .unpinned id
    · exact .inl rfl
  | join digest =>
    simp only [effect, Impl.join]
    cases s.inFlight.lookup digest <;> exact .inl rfl
  | fulfil fence o =>
    simp only [effect, Impl.fulfil]
    cases s.fences fence <;> exact .inl rfl
  | eraseFence fence digest =>
    simp only [effect, Impl.eraseFence]
    split <;> exact .inl rfl
  | loadModule q bytes device =>
    simp only [effect, Impl.loadModule]
    split
    · exact .inl rfl
    · split <;> exact .inl rfl
  | evictUnload q => exact .inl (congrFun (Impl.unloadModule_records env s q) p)
  | unloadCall q => exact .inl (congrFun (Impl.unloadModule_records env s q) p)
  | _ => exact .inl rfl

end Step

/-- A step taken is the effect of its section, one tick later. -/
theorem exec_eq_some {env : Env} {l : Step} {s s' : Impl} :
    exec env l s = some s' ↔ l.ready s = true ∧ s' = { l.effect env s with tick := s.tick + 1 } := by
  unfold exec
  by_cases h : l.ready s = true
  · simp [h, eq_comm]
  · simp [h]

/-- **Records, one step.** -/
theorem exec_records {env : Env} {l : Step} {s s' : Impl} (h : exec env l s = some s')
    (hl : l.Proper) {p : Nat} (hp : p < s.nextRecord) :
    s'.records p = s.records p ∨ ArtifactRecord.Updates p (s.records p) l (s'.records p) := by
  obtain ⟨-, rfl⟩ := exec_eq_some.mp h
  exact l.effect_records env s hl hp

/-- A section that acts on one record. -/
theorem exec_rewritten {env : Env} {l : Step} {s s' : Impl} (h : exec env l s = some s') {p : Nat}
    {f : ArtifactRecord → ArtifactRecord} (heffect : (l.effect env s).records =
      (s.modify p f).records) (q : Nat) :
    s'.records q = if q = p then f (s.records q) else s.records q := by
  obtain ⟨-, rfl⟩ := exec_eq_some.mp h
  show (l.effect env s).records q = _
  rw [heffect, Impl.modify_records]

theorem exec_evolves {env : Env} {l : Step} {s s' : Impl} (h : exec env l s = some s')
    (hl : l.Proper) {p : Nat} (hp : p < s.nextRecord) : (s.records p).Evolves (s'.records p) := by
  rcases exec_records h hl hp with heq | hupd
  · rw [heq]
    exact .refl _
  · exact hupd.evolves

/-- **Bytes, one step.** -/
theorem exec_bytes {env : Env} {l : Step} {s s' : Impl} (h : exec env l s = some s')
    (hl : l.Proper) {p : Nat} (hp : p < s.nextRecord) :
    (s'.records p).bytes = (s.records p).bytes ∨ l = .storeBytes p (s'.records p).bytes ∨
      (l = .evictCommit p ∧ (s.records p).tier = .hostResident ∧ (s'.records p).bytes = []) := by
  rcases exec_records h hl hp with heq | hupd
  · rw [heq]
    exact .inl rfl
  · exact hupd.bytes

/-- **The index, one step.** It keeps every entry; what is new was offered by the section under a
free id and stands behind the records there were. -/
structure Impl.Extends (s s' : Impl) (offered : List ArtifactRecord) : Prop where
  next_le : s.nextRecord ≤ s'.nextRecord
  keeps : ∀ id p, s.byId.lookup id = some p → s'.byId.lookup id = some p
  new : ∀ id p, s'.byId.lookup id = some p → s.byId.lookup id = some p ∨
    (s.byId.lookup id = none ∧ s.nextRecord ≤ p ∧ p < s'.nextRecord ∧ (s'.records p).id = id)
  fresh : ∀ p, s.nextRecord ≤ p → p < s'.nextRecord →
    ∃ r ∈ offered, s'.records p = { r with key := r.key.ensureFinalized }
  indexed : ∀ p, s.nextRecord ≤ p → p < s'.nextRecord →
    s'.byId.lookup (s'.records p).id = some p

theorem Impl.insertAll_extends (s : Impl) (rs : List ArtifactRecord) :
    s.Extends (s.insertAll rs) rs := by
  refine Impl.insertAll_induction (P := fun s' => s.Extends s' rs) ?_ ?_
  · refine ⟨le_rfl, fun _ _ h => h, fun _ _ h => .inl h, fun p hle hlt => ?_, fun p hle hlt => ?_⟩
    · omega
    · omega
  · intro s' r hr h hfree
    have hnext : (s'.insertIndexLocked r).nextRecord = s'.nextRecord + 1 := rfl
    have hle := h.next_le
    have hkeep : ∀ id p, s'.byId.lookup id = some p →
        (s'.insertIndexLocked r).byId.lookup id = some p := by
      intro id p hp
      have hne : id ≠ r.id := by
        rintro rfl
        rw [hfree] at hp
        cases hp
      exact (AList.lookup_insert_ne hne).trans hp
    refine ⟨by omega, fun id p hp => hkeep id p (h.keeps id p hp), ?_, ?_, ?_⟩
    · intro id p hp
      by_cases hid : id = r.id
      · subst hid
        have hlook : (s'.insertIndexLocked r).byId.lookup r.id = some s'.nextRecord :=
          AList.lookup_insert _
        rw [hlook] at hp
        obtain rfl := Option.some.inj hp
        refine .inr ⟨?_, hle, by omega, ?_⟩
        · cases hs : s.byId.lookup r.id with
          | none => rfl
          | some q =>
            rw [h.keeps _ _ hs] at hfree
            cases hfree
        · simp [insertIndexLocked]
      · have hlook : (s'.insertIndexLocked r).byId.lookup id = s'.byId.lookup id :=
          AList.lookup_insert_ne hid
        rw [hlook] at hp
        rcases h.new id p hp with hold | ⟨hnone, hge, hlt, hrec⟩
        · exact .inl hold
        · refine .inr ⟨hnone, hge, by omega, ?_⟩
          rw [insertIndexLocked_records r hlt]
          exact hrec
    · intro p hge hlt
      by_cases hp : p = s'.nextRecord
      · subst hp
        exact ⟨r, hr, Function.update_self ..⟩
      · have hlt' : p < s'.nextRecord := by omega
        rw [insertIndexLocked_records r hlt']
        exact h.fresh p hge hlt'
    · intro p hge hlt
      by_cases hp : p = s'.nextRecord
      · subst hp
        have hself : ((s'.insertIndexLocked r).records s'.nextRecord).id = r.id := by
          simp [insertIndexLocked]
        rw [hself]
        exact AList.lookup_insert _
      · have hlt' : p < s'.nextRecord := by omega
        rw [insertIndexLocked_records r hlt']
        exact hkeep _ _ (h.indexed p hge hlt')

theorem Impl.SameIndex.extends {s s' : Impl} (h : s.SameIndex s') : s.Extends s' [] := by
  refine ⟨h.nextRecord.ge, fun id p hp => ?_, fun id p hp => ?_, fun p hge hlt => ?_,
    fun p hge hlt => ?_⟩
  · rw [h.byId]
    exact hp
  · rw [h.byId] at hp
    exact .inl hp
  · rw [h.nextRecord] at hlt
    omega
  · rw [h.nextRecord] at hlt
    omega

theorem Step.offers_of_not_inserts {env : Env} {s : Impl} {l : Step} (h : l.inserts = false) :
    l.offers env s = [] := by
  cases l <;> first | rfl | cases h

/-- The index under a section that inserts nothing. -/
theorem exec_sameIndex {env : Env} {l : Step} {s s' : Impl} (h : exec env l s = some s')
    (hins : l.inserts = false) : s.SameIndex s' := by
  obtain ⟨-, rfl⟩ := exec_eq_some.mp h
  have hindex := (l.effect_frame env s hins).1
  exact ⟨hindex.nextRecord, hindex.byId, hindex.byKey, hindex.byOperation⟩

theorem exec_extends {env : Env} {l : Step} {s s' : Impl} (h : exec env l s = some s')
    (hl : l.Proper) : s.Extends s' (l.offers env s) := by
  by_cases hins : l.inserts = true
  · obtain ⟨-, rfl⟩ := exec_eq_some.mp h
    obtain ⟨st, hst⟩ := l.effect_inserts env s hins hl
    rw [hst]
    have hall := s.insertAll_extends (l.offers env s)
    exact ⟨hall.next_le, hall.keeps, hall.new, hall.fresh, hall.indexed⟩
  · have hno : l.inserts = false := by simpa using hins
    rw [Step.offers_of_not_inserts hno]
    exact (exec_sameIndex h hno).extends

/-- **Publication.** An outcome whose id is free becomes the next record, under that id. -/
theorem exec_publish_new {env : Env} {fence : Nat} {o : Outcome} {s s' : Impl}
    (h : exec env (.publish fence o) s = some s') (hid : o.desc.id = o.id)
    (hfree : s.byId.lookup o.id = none) :
    s'.nextRecord = s.nextRecord + 1 ∧ s'.byId.lookup o.id = some s.nextRecord ∧
      s'.records s.nextRecord = { makeRecord (env.now s.tick) o.desc o.bytes with
        key := o.desc.key.ensureFinalized } := by
  obtain ⟨-, rfl⟩ := exec_eq_some.mp h
  have hpub : (Step.publish fence o).effect env s =
      s.insertIndexLocked (makeRecord (env.now s.tick) o.desc o.bytes) := by
    simp only [Step.effect, Impl.publish, hfree]
  rw [hpub]
  refine ⟨rfl, ?_, ?_⟩
  · rw [← hid]
    exact AList.lookup_insert _
  · exact Function.update_self ..

/-- **Builds in flight, one step.** Only the single-flight sections touch them. -/
theorem exec_sameFences {env : Env} {l : Step} {s s' : Impl} (h : exec env l s = some s')
    (hl : l.Proper) (hfence : l.isFence = false) : s.SameFences s' := by
  obtain ⟨-, rfl⟩ := exec_eq_some.mp h
  by_cases hins : l.inserts = true
  · obtain ⟨st, hst⟩ := l.effect_inserts env s hins hl
    rw [hst]
    exact (s.insertAll_frame _).1.trans ⟨rfl, rfl, rfl, rfl⟩
  · have hframe := l.effect_frame env s (by simpa using hins)
    exact (hframe.2.1 hfence).trans ⟨rfl, rfl, rfl, rfl⟩

/-- **The store, one step.** -/
theorem exec_store {env : Env} {l : Step} {s s' : Impl} (h : exec env l s = some s')
    (hl : l.Proper) (hstore : l.isStore = false) : s'.store = s.store := by
  obtain ⟨-, rfl⟩ := exec_eq_some.mp h
  by_cases hins : l.inserts = true
  · obtain ⟨st, hst⟩ := l.effect_inserts env s hins hl
    rw [hst]
    exact (s.insertAll_frame _).2
  · exact (l.effect_frame env s (by simpa using hins)).2.2 hstore

/-! ## The invariant of every reachable state -/

/-- Ids and the records they are bound to agree both ways, and records are only in states the cache
moves them to. -/
structure Impl.Sound (s : Impl) : Prop where
  bound : ∀ id p, s.byId.lookup id = some p → p < s.nextRecord ∧ (s.records p).id = id
  indexed : ∀ p < s.nextRecord, s.byId.lookup (s.records p).id = some p
  visited : ∀ p < s.nextRecord, (s.records p).state.isVisited = true

theorem Impl.initial_sound (store : FilePersistenceStore) : (Impl.initial store).Sound := by
  refine ⟨fun id p h => ?_, fun p hp => absurd hp (Nat.not_lt_zero p),
    fun p hp => absurd hp (Nat.not_lt_zero p)⟩
  have hempty : (Impl.initial store).byId.lookup id = none := AList.lookup_empty id
  rw [hempty] at h
  cases h

/-- Records start out in one of two states. -/
theorem Step.offers_visited {env : Env} {s : Impl} {l : Step} {r : ArtifactRecord}
    (h : r ∈ l.offers env s) : r.state.isVisited = true := by
  cases l with
  | publish fence o =>
    obtain rfl := List.mem_singleton.mp h
    rfl
  | put desc bytes =>
    obtain rfl := List.mem_singleton.mp h
    rfl
  | recoverInsert artifacts =>
    obtain ⟨a, -, rfl⟩ := List.mem_map.mp h
    rfl
  | _ => cases h

theorem exec_sound {env : Env} {l : Step} {s s' : Impl} (h : exec env l s = some s')
    (hl : l.Proper) (hs : s.Sound) : s'.Sound := by
  have hext := exec_extends h hl
  have hle := hext.next_le
  refine ⟨?_, ?_, ?_⟩
  · intro id p hp
    rcases hext.new id p hp with hold | ⟨-, -, hlt, hrec⟩
    · obtain ⟨hlt, hrec⟩ := hs.bound id p hold
      exact ⟨by omega, (exec_evolves h hl hlt).id_eq.trans hrec⟩
    · exact ⟨hlt, hrec⟩
  · intro p hp
    by_cases hold : p < s.nextRecord
    · rw [(exec_evolves h hl hold).id_eq]
      exact hext.keeps _ _ (hs.indexed p hold)
    · exact hext.indexed p (by omega) hp
  · intro p hp
    by_cases hold : p < s.nextRecord
    · exact (exec_evolves h hl hold).visited (hs.visited p hold)
    · obtain ⟨r, hr, hrec⟩ := hext.fresh p (by omega) hp
      have hv : r.state.isVisited = true := Step.offers_visited hr
      rw [hrec]
      exact hv

theorem Impl.evictBegin_ok {s : Impl} {id : ArtifactId} {force : Bool} {p : Nat}
    (h : (s.evictBegin id force).1 = .ok p) :
    s.byId.lookup id = some p ∧ (s.records p).leaseCount = 0 ∧ (s.records p).pinCount = 0 ∧
      (s.evictBegin id force).2 = s.modify p ArtifactRecord.evictBegin := by
  unfold Impl.evictBegin at h ⊢
  cases hid : s.byId.lookup id with
  | none => simp [hid, fail] at h
  | some q =>
    simp only [hid] at h ⊢
    split at h
    · split at h <;> cases h
    · rename_i hidle
      cases h
      rw [if_neg hidle]
      exact ⟨rfl, by omega, by omega, rfl⟩

/-- An eviction that begins marks a record that is there. -/
theorem exec_evictBegin_ok {env : Env} {s s' : Impl} {id : ArtifactId} {force : Bool} {p : Nat}
    (h : exec env (.evictBegin id force) s = some s') (hs : s.Sound)
    (hp : (s.evictBegin id force).1 = .ok p) :
    p < s.nextRecord ∧ s'.nextRecord = s.nextRecord ∧
      s'.records p = (s.records p).evictBegin := by
  obtain ⟨-, rfl⟩ := exec_eq_some.mp h
  obtain ⟨hid, -, -, hstate⟩ := Impl.evictBegin_ok hp
  refine ⟨(hs.bound id p hid).1, ?_, ?_⟩
  · show (s.evictBegin id force).2.nextRecord = _
    rw [hstate]
    rfl
  · show (s.evictBegin id force).2.records p = _
    rw [hstate, Impl.modify_records, if_pos rfl]

end KernelCache
