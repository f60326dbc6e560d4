/-
# KernelCache.Sequential — operations one at a time.

`Sequence` is a history of public operations, each run to its end before the next one starts; a call
that blocks never ends and is not part of one.  The second part says what single operations do when
nothing runs in between: a lookup decides on the state it starts in, a build joins a fence that
nobody will fulfil (and then does not return) or makes its own, an acquire leases what it found.

The invariant that belongs to this view is `FencesIdle`: between operations no build in flight has
been fulfilled.  A fence stays in flight only when the backend threw, and then for good.
-/
import KernelCache.Interleaving

namespace KernelCache

open Foundation (Bytes Prog Runs Pool Event)
open Foundation.Prog (sect perform Free Sat)

/-! ## Histories -/

/-- One operation run to its end. -/
structure Call where
  op : Operation
  before : Impl
  answer : Answer
  after : Impl

/-- Histories of a fresh cache on a store. -/
inductive Sequence (env : Env) (store : FilePersistenceStore) : List Call → Impl → Prop
  | fresh : Sequence env store [] (Impl.initial store)
  | call {calls s op a s'} : Sequence env store calls s →
      (op.prog env).run (exec env) s = some (a, s') →
      Sequence env store (calls ++ [⟨op, s, a, s'⟩]) s'

section Alone

variable {env : Env} {α : Type}

/-- Programs all of whose sections have proper arguments. -/
abbrev ProperProg (env : Env) (p : Op α) : Prop :=
  p.Free (exec env) (fun _ _ _ => True) (fun l _ _ => l.Proper)

/-- What every proper step respects, a run of a proper program respects. -/
theorem run_related_of_proper {R : Impl → Impl → Prop} (hrefl : ∀ s, R s s)
    (htrans : ∀ s s' s'', R s s' → R s' s'' → R s s'')
    (hstep : ∀ l s s', exec env l s = some s' → l.Proper → R s s') {p : Op α} {s s' : Impl} {a : α}
    (hp : ProperProg env p) (h : p.run (exec env) s = some (a, s')) : R s s' :=
  (Sat.run hrefl htrans hstep hp trivial h).1

/-- A run of a proper program keeps the state sound, every record's identity and every id's
binding. -/
structure Impl.Carries (s s' : Impl) : Prop where
  sound : s.Sound → s'.Sound
  next_le : s.nextRecord ≤ s'.nextRecord
  keeps : ∀ id p, s.byId.lookup id = some p → s'.byId.lookup id = some p
  key_eq : ∀ p < s.nextRecord, (s'.records p).key = (s.records p).key
  generation_eq : ∀ p < s.nextRecord, (s'.records p).generation = (s.records p).generation
  id_eq : ∀ p < s.nextRecord, (s'.records p).id = (s.records p).id

theorem Impl.Carries.refl (s : Impl) : s.Carries s :=
  ⟨fun h => h, le_rfl, fun _ _ h => h, fun _ _ => rfl, fun _ _ => rfl, fun _ _ => rfl⟩

theorem Impl.Carries.trans {s s' s'' : Impl} (h : s.Carries s') (h' : s'.Carries s'') :
    s.Carries s'' where
  sound hs := h'.sound (h.sound hs)
  next_le := h.next_le.trans h'.next_le
  keeps id p hp := h'.keeps id p (h.keeps id p hp)
  key_eq p hp := (h'.key_eq p (lt_of_lt_of_le hp h.next_le)).trans (h.key_eq p hp)
  generation_eq p hp :=
    (h'.generation_eq p (lt_of_lt_of_le hp h.next_le)).trans (h.generation_eq p hp)
  id_eq p hp := (h'.id_eq p (lt_of_lt_of_le hp h.next_le)).trans (h.id_eq p hp)

theorem exec_carries {l : Step} {s s' : Impl} (h : exec env l s = some s') (hl : l.Proper) :
    s.Carries s' where
  sound := exec_sound h hl
  next_le := (exec_extends h hl).next_le
  keeps := (exec_extends h hl).keeps
  key_eq _ hp := (exec_evolves h hl hp).key_eq
  generation_eq _ hp := (exec_evolves h hl hp).generation_eq
  id_eq _ hp := (exec_evolves h hl hp).id_eq

theorem run_carries {p : Op α} {s s' : Impl} {a : α} (hp : ProperProg env p)
    (h : p.run (exec env) s = some (a, s')) : s.Carries s' :=
  run_related_of_proper Impl.Carries.refl (fun _ _ _ => Impl.Carries.trans)
    (fun _ _ _ => exec_carries) hp h

end Alone

theorem Sequence.sound {env : Env} {store : FilePersistenceStore} {calls : List Call} {s : Impl}
    (h : Sequence env store calls s) : s.Sound := by
  induction h with
  | fresh => exact Impl.initial_sound store
  | call _ hrun ih => exact (run_carries (operation_proper env _) hrun).sound ih

/-! ## The lock of the statistics -/

namespace Impl

theorem recoverInsert_statsHeld (env : Env) (s : Impl) (as : List StoredArtifact) :
    (recoverInsert env s as).2.statsHeld = s.statsHeld := by
  induction as generalizing s with
  | nil => rfl
  | cons a as ih =>
    simp only [recoverInsert]
    split
    · exact ih s
    · exact ih _

theorem invalidate_statsHeld (env : Env) (s : Impl) (req : InvalidationRequest) :
    (s.invalidate env req).2.statsHeld = s.statsHeld := by
  show (invalidateAll req s (s.selected env req)).2.statsHeld = s.statsHeld
  rw [invalidateAll_index]

theorem unloadModule_statsHeld (env : Env) (s : Impl) (p : Nat) :
    (s.unloadModule env p).2.statsHeld = s.statsHeld := by
  unfold unloadModule
  split <;> rfl

end Impl

/-- The section after which `stats_mtx_` is never free again. -/
def Step.keepsLock : Step → Bool
  | .persistFailed => true
  | _ => false

theorem Step.effect_statsHeld (env : Env) (s : Impl) (l : Step) :
    (l.effect env s).statsHeld = (s.statsHeld || l.keepsLock) := by
  cases l with
  | persistFailed => simp [effect, keepsLock]
  | join digest =>
    simp only [effect, Impl.join, keepsLock, Bool.or_false]
    split <;> rfl
  | fulfil fence o =>
    simp only [effect, Impl.fulfil, keepsLock, Bool.or_false]
    split <;> rfl
  | eraseFence fence digest =>
    simp only [effect, Impl.eraseFence, keepsLock, Bool.or_false]
    split <;> rfl
  | publish fence o =>
    simp only [effect, Impl.publish, keepsLock, Bool.or_false]
    split <;> rfl
  | put desc bytes =>
    simp only [effect, Impl.put, keepsLock, Bool.or_false]
    split <;> rfl
  | markPersisted o =>
    simp only [effect, Impl.markPersisted, Impl.bump, keepsLock, Bool.or_false]
    split <;> rfl
  | pin id =>
    simp only [effect, Impl.modifyId, keepsLock, Bool.or_false]
    split <;> rfl
  | unpin id =>
    simp only [effect, Impl.modifyId, keepsLock, Bool.or_false]
    split <;> rfl
  | loadModule p bytes device =>
    simp only [effect, Impl.loadModule, keepsLock, Bool.or_false]
    split
    · rfl
    · split <;> rfl
  | evictBegin id force =>
    simp only [effect, Impl.evictBegin, keepsLock, Bool.or_false]
    split
    · rfl
    · split
      · split <;> rfl
      · rfl
  | grantLease p pin =>
    simp only [effect, Impl.grantLease, keepsLock, Bool.or_false]
    split <;> rfl
  | evictUnload p => exact (s.unloadModule_statsHeld env p).trans (Bool.or_false _).symm
  | unloadCall p => exact (s.unloadModule_statsHeld env p).trans (Bool.or_false _).symm
  | invalidate req => exact (s.invalidate_statsHeld env req).trans (Bool.or_false _).symm
  | recoverInsert as => exact (s.recoverInsert_statsHeld env as).trans (Bool.or_false _).symm
  | _ => exact (Bool.or_false _).symm

theorem exec_statsHeld {env : Env} {l : Step} {s s' : Impl} (h : exec env l s = some s') :
    s'.statsHeld = (s.statsHeld || l.keepsLock) := by
  obtain ⟨-, rfl⟩ := exec_eq_some.mp h
  exact l.effect_statsHeld env s

/-- The lock is free after a section that needs it, unless the section keeps it. -/
theorem exec_recordEvent_free {env : Env} {s s' : Impl}
    (h : exec env .recordEvent s = some s') : s.statsHeld = false ∧ s'.statsHeld = false := by
  obtain ⟨hready, rfl⟩ := exec_eq_some.mp h
  have hfree : s.statsHeld = false := by simpa [Step.ready] using hready
  exact ⟨hfree, hfree⟩

/-- The guarantee of the programs that never persist. -/
abbrev KeepsLockFree (_l : Step) (s s' : Impl) : Prop := s.statsHeld = false → s'.statsHeld = false

theorem exec_keepsLockFree {env : Env} {l : Step} {s s' : Impl} (h : exec env l s = some s')
    (hl : l.keepsLock = false) : KeepsLockFree l s s' := by
  intro hfree
  rw [exec_statsHeld h, hfree, hl]
  rfl

theorem covers_keepsLockFree (env : Env) : Covers env (fun _ _ _ => True) KeepsLockFree := by
  intro l s s' h _ _ hplain
  refine exec_keepsLockFree h ?_
  cases l <;> first | rfl | cases hplain

theorem evictsFree_keepsLockFree (env : Env) : EvictsFree env (fun _ _ _ => True) KeepsLockFree := by
  refine evictsFree_of_covers fun l s s' h _ _ hfence hbuild => exec_keepsLockFree h ?_
  cases l <;> first | rfl | cases hbuild

theorem run_lockFree {env : Env} {α : Type} {p : Op α} {s s' : Impl} {a : α}
    (hp : p.Free (exec env) (fun _ _ _ => True) KeepsLockFree)
    (h : p.run (exec env) s = some (a, s')) : s.statsHeld = false → s'.statsHeld = false := by
  refine (Sat.run (R := fun s s' : Impl => s.statsHeld = false → s'.statsHeld = false)
    (fun _ h => h) ?_ (fun _ _ _ _ h => h) hp trivial h).1
  exact fun s s₁ s₂ h₁ h₂ hfree => h₂ (h₁ hfree)

/-! ## Fences -/

/-- Between operations: no build in flight has been fulfilled, and no fence yet to be made. -/
structure Impl.FencesIdle (s : Impl) : Prop where
  waiting : ∀ d f, s.inFlight.lookup d = some f → f < s.nextFence ∧ s.fences f = none
  fresh : ∀ f, s.nextFence ≤ f → s.fences f = none

theorem Impl.initial_fencesIdle (store : FilePersistenceStore) :
    (Impl.initial store).FencesIdle := by
  refine ⟨fun d f h => ?_, fun _ _ => rfl⟩
  have hempty : (Impl.initial store).inFlight.lookup d = none := AList.lookup_empty d
  rw [hempty] at h
  cases h

theorem Impl.SameFences.idle {s s' : Impl} (h : s.SameFences s') (hs : s.FencesIdle) :
    s'.FencesIdle := by
  refine ⟨fun d f hf => ?_, fun f hf => ?_⟩
  · rw [h.inFlight] at hf
    rw [h.nextFence, h.fences]
    exact hs.waiting d f hf
  · rw [h.nextFence] at hf
    rw [h.fences]
    exact hs.fresh f hf

/-- The guarantee of the programs that never build. -/
abbrev KeepsFences (_l : Step) (s s' : Impl) : Prop := s.SameFences s'

theorem covers_keepsFences (env : Env) : Covers env (fun _ _ _ => True) KeepsFences := by
  intro l s s' h _ hl hplain
  refine exec_sameFences h hl ?_
  cases l <;> first | rfl | cases hplain

theorem coversBuilds_keepsFences (env : Env) :
    CoversBuilds env (fun _ _ _ => True) KeepsFences := by
  intro l s s' h _ hl hbuild
  refine exec_sameFences h hl ?_
  cases l <;> first | rfl | cases hbuild

theorem evictsFree_keepsFences (env : Env) : EvictsFree env (fun _ _ _ => True) KeepsFences :=
  evictsFree_of_covers fun _ _ _ h _ hl hfence _ => exec_sameFences h hl hfence

theorem run_sameFences {env : Env} {α : Type} {p : Op α} {s s' : Impl} {a : α}
    (hp : p.Free (exec env) (fun _ _ _ => True) KeepsFences)
    (h : p.run (exec env) s = some (a, s')) : s.SameFences s' :=
  (Sat.run Impl.SameFences.refl (fun _ _ _ => Impl.SameFences.trans) (fun _ _ _ _ h => h) hp
    trivial h).1

/-! ## Lookup and lease -/

/-- The state and the sections of a lookup that ran alone and answered `r`. -/
def Impl.lookedUp (s : Impl) (r : KernelLookupResult) : Impl :=
  { s with stats := r.outcome.count s.stats, tick := s.tick + 3 }

def lookupEvents (i : Nat) (s : Impl) (key : KernelCompatibilityKey) (r : KernelLookupResult) :
    List (Event Step Impl) :=
  let s₁ : Impl := { s with tick := s.tick + 1 }
  let s₂ : Impl := { s with stats := r.outcome.count s.stats, tick := s.tick + 2 }
  [⟨i, .collect key, s, s₁⟩, ⟨i, .bump r.outcome.count, s₁, s₂⟩, ⟨i, .recordEvent, s₂, s.lookedUp r⟩]

/-- `lookup_impl` alone, on an accepted key. -/
theorem lookupImpl_traced (env : Env) (i : Nat) {s : Impl} (request : KernelLookupRequest)
    (hkey : request.key.wellFormed = true) (hfree : s.statsHeld = false) :
    (lookupImpl request).traced (exec env) i s =
      some (lookupEvents i s request.key.finalize (s.lookup request.key.finalize request.policy),
        .ok (s.lookup request.key.finalize request.policy),
        s.lookedUp (s.lookup request.key.finalize request.policy)) := by
  have hfin : request.key.finalize.finalized = true := by
    rw [KernelCompatibilityKey.finalize_finalized]
    exact hkey
  simp only [lookupImpl, hfin, Bool.not_true, Bool.false_eq_true, if_false]
  cases s
  cases hfree
  rfl

/-- The operation `lookup` alone, on an accepted key. -/
theorem lookup_run (env : Env) {s : Impl} (request : KernelLookupRequest)
    (hkey : request.key.wellFormed = true) (hfree : s.statsHeld = false) :
    ((Operation.lookup request).prog env).run (exec env) s =
      some (.lookup (s.lookup request.key.finalize request.policy),
        s.lookedUp (s.lookup request.key.finalize request.policy)) := by
  have hlookup : (lookupImpl request).run (exec env) s =
      some (.ok (s.lookup request.key.finalize request.policy),
        s.lookedUp (s.lookup request.key.finalize request.policy)) := by
    rw [Prog.run_eq_traced 0, lookupImpl_traced env 0 request hkey hfree]
    rfl
  rw [Operation.prog, Prog.bind_eq, Prog.run_of_bind]
  exact ⟨_, _, hlookup, rfl⟩

/-- `acquire_impl` alone: its lookup, then what follows from the answer. -/
theorem acquireImpl_traced (env : Env) (i : Nat) {s : Impl} (request : KernelLookupRequest)
    (hkey : request.key.wellFormed = true) (hfree : s.statsHeld = false)
    {r : KernelLookupResult} (hr : s.lookup request.key.finalize request.policy = r) :
    (acquireImpl env request).traced (exec env) i s =
      Prog.tracedThen (exec env) i
        (acquireDecided env { request with key := request.key.finalize })
        (lookupEvents i s request.key.finalize r, .ok r, s.lookedUp r) := by
  have hlookup := lookupImpl_traced env i
    { request with key := request.key.finalize } (s := s) (by simpa using hkey) hfree
  simp only [KernelCompatibilityKey.finalize_finalize, hr] at hlookup
  unfold acquireImpl
  rw [Prog.bind_eq, Prog.traced_bind, hlookup]
  rfl

/-- The record behind `p` became `r`; the index, the store and the other records are as before. -/
structure Impl.Rewrites (s s' : Impl) (p : Nat) (r : ArtifactRecord) : Prop where
  record : s'.records p = r
  others : ∀ q, q ≠ p → s'.records q = s.records q
  index : s.SameIndex s'
  free : s'.statsHeld = false
  store : s'.store = s.store

theorem Impl.Rewrites.trans {s s' s'' : Impl} {p : Nat} {r r' : ArtifactRecord}
    (h : s.Rewrites s' p r) (h' : s'.Rewrites s'' p r') : s.Rewrites s'' p r' where
  record := h'.record
  others q hq := (h'.others q hq).trans (h.others q hq)
  index := h.index.trans h'.index
  free := h'.free
  store := h'.store.trans h.store

theorem Impl.rewrites_modify {s : Impl} (p : Nat) (f : ArtifactRecord → ArtifactRecord)
    (hfree : s.statsHeld = false) : s.Rewrites (s.modify p f) p (f (s.records p)) where
  record := Function.update_self ..
  others _ hq := Function.update_of_ne hq ..
  index := ⟨rfl, rfl, rfl, rfl⟩
  free := hfree
  store := rfl

/-- A promotion to host memory of a record that has its bytes. -/
theorem promoteToHost_traced (env : Env) (i : Nat) {s : Impl} {p : Nat} (device : DeviceDescriptor)
    (hfree : s.statsHeld = false) (hbytes : (s.records p).bytes ≠ [])
    (htier : (s.records p).tier.rank < ResidencyTier.hostResident.rank) :
    ∃ tr s', (promoteToTier env p .hostResident device).traced (exec env) i s =
        some (tr, .ok (), s') ∧
      s.Rewrites s' p (s.records p).promoteHost ∧ s'.nextLease = s.nextLease := by
  have hempty : (s.records p).bytes.isEmpty = false := by simpa using hbytes
  have hrank : ¬ ResidencyTier.hostResident.rank ≤ (s.records p).tier.rank := Nat.not_le.mpr htier
  have hwanted : (ResidencyTier.hostResident == ResidencyTier.none) = false := rfl
  simp only [promoteToTier, hwanted, promoteToHost, ensureBytes, Prog.bind_eq, sect, perform,
    Prog.bind, Prog.traced, exec, Step.ready, Step.effect, if_true, hempty, hrank, if_false,
    Bool.not_false, Bool.false_eq_true, Prog.pure_eq]
  refine ⟨_, _, rfl, ?_, rfl⟩
  have hrw := Impl.rewrites_modify p ArtifactRecord.promoteHost hfree
  exact ⟨hrw.record, hrw.others, ⟨rfl, rfl, rfl, rfl⟩, hfree, rfl⟩

/-- A promotion to host memory of a record whose bytes are in the store. -/
theorem promoteToHost_traced_reload (env : Env) (i : Nat) {s : Impl} {p : Nat} {a : StoredArtifact}
    (device : DeviceDescriptor) (hfree : s.statsHeld = false) (hbytes : (s.records p).bytes = [])
    (hopen : env.cfg.persistenceOpen = true) (hget : s.store.get (s.records p).id = .ok a)
    (htier : (s.records p).tier.rank < ResidencyTier.hostResident.rank) :
    ∃ tr s', (promoteToTier env p .hostResident device).traced (exec env) i s =
        some (tr, .ok (), s') ∧ s.Rewrites s' p ((s.records p).reloaded a.bytes).promoteHost := by
  have hempty : (s.records p).bytes.isEmpty = true := List.isEmpty_iff.mpr hbytes
  have hrank : ¬ ResidencyTier.hostResident.rank ≤ (s.records p).tier.rank := Nat.not_le.mpr htier
  have hwanted : (ResidencyTier.hostResident == ResidencyTier.none) = false := rfl
  simp only [promoteToTier, hwanted, promoteToHost, ensureBytes, Prog.bind_eq, sect, perform,
    Prog.bind, Prog.traced, exec, Step.ready, Step.effect, if_true, hempty, hrank, if_false,
    hopen, hget, Bool.not_true, Bool.false_eq_true, Prog.pure_eq]
  refine ⟨_, _, rfl, ?_⟩
  have hreload := Impl.rewrites_modify p (fun r => r.reloaded a.bytes) hfree
  have hrw := Impl.rewrites_modify p ArtifactRecord.promoteHost hreload.free
  rw [hreload.record] at hrw
  have hall := hreload.trans hrw
  exact ⟨hall.record, hall.others, ⟨rfl, rfl, rfl, rfl⟩, hfree, rfl⟩

/-- A record that was found and promoted, and can be leased, is leased. -/
theorem leaseRecord_traced (env : Env) (i : Nat) {s s₁ : Impl} (request : KernelLookupRequest)
    {id : ArtifactId} {p : Nat} {tr₁ : List (Event Step Impl)} (vanished : Str)
    (hid : s.byId.lookup id = some p)
    (hpromote : (promoteToTier env p request.desiredTier request.device).traced (exec env) i
      { s with tick := s.tick + 1 } = some (tr₁, .ok (), s₁))
    (hfree : s₁.statsHeld = false) (hlease : (s₁.records p).leasable = true) :
    ∃ tr s', (leaseRecord env request id vanished).traced (exec env) i s =
        some (tr, .ok s₁.nextLease, s') ∧
      (∀ e ∈ tr, e ∈ tr₁ ∨ e.label = .find id ∨ e.label = .grantLease p request.pin) ∧
      s₁.Rewrites s' p ((s₁.records p).leased (env.now s₁.tick) request.pin) ∧
      (s'.leases s₁.nextLease).record = p ∧ (s'.leases s₁.nextLease).released = false := by
  have hgrant : (sect (Step.grantLease p request.pin)
      (fun s => (s.grantLease env p request.pin).1)).traced (exec env) i s₁ =
      some ([⟨i, .grantLease p request.pin, s₁,
          { (s₁.grantLease env p request.pin).2 with tick := s₁.tick + 1 }⟩], .ok s₁.nextLease,
        { (s₁.grantLease env p request.pin).2 with tick := s₁.tick + 1 }) := by
    simp only [sect, Prog.traced, exec, Step.ready, Step.effect, hfree, Bool.false_and,
      Bool.not_false, if_true, Option.map_some]
    simp only [Impl.grantLease, hlease, if_true]
  have hfind : (sect (Step.find id) (fun s : Impl => s.byId.lookup id)).traced (exec env) i s =
      some ([⟨i, .find id, s, { s with tick := s.tick + 1 }⟩], some p,
        { s with tick := s.tick + 1 }) := by
    simp only [sect, Prog.traced, exec, Step.ready, Step.effect, if_true, Option.map_some, hid]
  unfold leaseRecord
  rw [Prog.bind_eq, Prog.traced_bind, hfind]
  simp only [Option.bind_some, Prog.tracedThen, Prog.bind_eq, Prog.traced_bind, hpromote, hgrant,
    Option.map_some]
  refine ⟨_, _, rfl, ?_, ?_, ?_⟩
  · intro e he
    simp only [List.mem_append, List.mem_singleton] at he
    rcases he with rfl | he | rfl
    · exact .inr (.inl rfl)
    · exact .inl he
    · exact .inr (.inr rfl)
  · simp only [Impl.grantLease, hlease, if_true]
    have hrw := Impl.rewrites_modify p (fun r => r.leased (env.now s₁.tick) request.pin) hfree
    exact ⟨hrw.record, hrw.others, ⟨rfl, rfl, rfl, rfl⟩, hfree, rfl⟩
  · simp only [Impl.grantLease, hlease, if_true, Function.update_self, and_self]

/-- An acquire alone that finds `id` does what leasing `id` does. -/
theorem acquireImpl_traced_hit (env : Env) (i : Nat) {s s' : Impl} {request : KernelLookupRequest}
    {r : KernelLookupResult} {id : ArtifactId} {tr : List (Event Step Impl)} {res : Result Nat}
    (hkey : request.key.wellFormed = true) (hfree : s.statsHeld = false)
    (hr : s.lookup request.key.finalize request.policy = r) (hhit : r.outcome.isHit = true)
    (hart : r.artifact = some id)
    (hlease : (leaseRecord env { request with key := request.key.finalize } id
      (str "artifact vanished")).traced (exec env) i (s.lookedUp r) = some (tr, res, s')) :
    (acquireImpl env request).traced (exec env) i s =
      some (lookupEvents i s request.key.finalize r ++ tr, res, s') := by
  rw [acquireImpl_traced env i request hkey hfree hr]
  have hdecided : acquireDecided env { request with key := request.key.finalize } (.ok r) =
      leaseRecord env { request with key := request.key.finalize } id (str "artifact vanished") := by
    simp only [acquireDecided, hhit, hart, if_true, Option.getD_some]
  show Option.map _ ((acquireDecided env _ (.ok r)).traced (exec env) i (s.lookedUp r)) = _
  rw [hdecided, hlease]
  rfl

/-- The sections after which there are other copies of some bytes: publications, store writes, the end of
an eviction. -/
def Step.movesCopies : Step → Bool
  | .publish _ _ | .persist _ | .evictCommit _ => true
  | _ => false

/-- An acquire that asks for no tier, alone, on a hit it can lease. -/
theorem acquireImpl_traced_untiered (env : Env) (i : Nat) {s : Impl} (request : KernelLookupRequest)
    {r : KernelLookupResult} {id : ArtifactId} {p : Nat} (hkey : request.key.wellFormed = true)
    (hfree : s.statsHeld = false) (hr : s.lookup request.key.finalize request.policy = r)
    (hhit : r.outcome.isHit = true) (hart : r.artifact = some id)
    (hid : s.byId.lookup id = some p) (htier : request.desiredTier = .none)
    (hlease : (s.records p).leasable = true) :
    ∃ tr s', (acquireImpl env request).traced (exec env) i s = some (tr, .ok s.nextLease, s') ∧
      s.Rewrites s' p ((s.records p).leased (env.now (s.tick + 4)) request.pin) ∧
      (s'.leases s.nextLease).record = p ∧ (s'.leases s.nextLease).released = false ∧
      ∀ e ∈ tr, e.label.movesCopies = false := by
  have hpromote : (promoteToTier env p request.desiredTier request.device).traced (exec env) i
      { s.lookedUp r with tick := s.tick + 4 } =
        some ([], .ok (), { s.lookedUp r with tick := s.tick + 4 }) := by
    rw [htier]
    rfl
  obtain ⟨tr, s', hrun, hlabels, hrw, hrecord, hheld⟩ := leaseRecord_traced env i (s := s.lookedUp r)
    { request with key := request.key.finalize } (str "artifact vanished") hid
    hpromote hfree hlease
  refine ⟨_, s', acquireImpl_traced_hit env i hkey hfree hr hhit hart hrun,
    ⟨hrw.record, hrw.others, ⟨hrw.index.nextRecord, hrw.index.byId, hrw.index.byKey,
      hrw.index.byOperation⟩, hrw.free, hrw.store⟩, hrecord, hheld, fun e he => ?_⟩
  rcases List.mem_append.mp he with hlooked | hleased
  · simp only [lookupEvents, List.mem_cons, List.not_mem_nil, or_false] at hlooked
    rcases hlooked with rfl | rfl | rfl <;> rfl
  · rcases hlabels e hleased with hno | hfind | hgrant
    · cases hno
    · rw [hfind]
      rfl
    · rw [hgrant]
      rfl

/-- An acquire alone whose promotion succeeds, on a hit it can lease then. -/
theorem acquireImpl_traced_promoted (env : Env) (i : Nat) {s s₁ : Impl}
    (request : KernelLookupRequest) {r : KernelLookupResult} {id : ArtifactId} {p : Nat}
    {tr₁ : List (Event Step Impl)} {r₁ : ArtifactRecord} (hkey : request.key.wellFormed = true)
    (hfree : s.statsHeld = false) (hr : s.lookup request.key.finalize request.policy = r)
    (hhit : r.outcome.isHit = true) (hart : r.artifact = some id)
    (hid : s.byId.lookup id = some p)
    (hpromote : (promoteToTier env p request.desiredTier request.device).traced (exec env) i
      { s.lookedUp r with tick := s.tick + 4 } = some (tr₁, .ok (), s₁))
    (hrw₁ : s.Rewrites s₁ p r₁) (hlease : r₁.leasable = true) :
    ∃ tr lease s' now, (acquireImpl env request).traced (exec env) i s = some (tr, .ok lease, s') ∧
      s.Rewrites s' p (r₁.leased now request.pin) ∧
      (s'.leases lease).record = p ∧ (s'.leases lease).released = false := by
  obtain ⟨tr, s', hrun, -, hrw, hleases⟩ := leaseRecord_traced env i (s := s.lookedUp r)
    { request with key := request.key.finalize } (str "artifact vanished") hid
    hpromote hrw₁.free (by rw [hrw₁.record]; exact hlease)
  have hall := hrw₁.trans hrw
  rw [hrw₁.record] at hall
  exact ⟨_, _, s', _, acquireImpl_traced_hit env i hkey hfree hr hhit hart hrun, hall, hleases⟩

/-- An acquire into host memory, alone, on a hit that has its bytes. -/
theorem acquireImpl_traced_host (env : Env) (i : Nat) {s : Impl} (request : KernelLookupRequest)
    {r : KernelLookupResult} {id : ArtifactId} {p : Nat} (hkey : request.key.wellFormed = true)
    (hfree : s.statsHeld = false) (hr : s.lookup request.key.finalize request.policy = r)
    (hhit : r.outcome.isHit = true) (hart : r.artifact = some id)
    (hid : s.byId.lookup id = some p) (hwanted : request.desiredTier = .hostResident)
    (htier : (s.records p).tier.rank < ResidencyTier.hostResident.rank)
    (hbytes : (s.records p).bytes ≠ []) (hlease : (s.records p).promoteHost.leasable = true) :
    ∃ tr lease s' now, (acquireImpl env request).traced (exec env) i s = some (tr, .ok lease, s') ∧
      s.Rewrites s' p ((s.records p).promoteHost.leased now request.pin) ∧
      (s'.leases lease).record = p ∧ (s'.leases lease).released = false := by
  obtain ⟨tr₁, s₁, hpromote, hrw₁, -⟩ := promoteToHost_traced env i
    (s := { s.lookedUp r with tick := s.tick + 4 }) (p := p) request.device hfree hbytes htier
  rw [← hwanted] at hpromote
  have hrw : s.Rewrites s₁ p (s.records p).promoteHost :=
    ⟨hrw₁.record, hrw₁.others, ⟨hrw₁.index.nextRecord, hrw₁.index.byId, hrw₁.index.byKey,
      hrw₁.index.byOperation⟩, hrw₁.free, hrw₁.store⟩
  exact acquireImpl_traced_promoted env i request hkey hfree hr hhit hart hid hpromote hrw hlease

/-- An acquire into host memory, alone, on a hit whose bytes are in the store. -/
theorem acquireImpl_traced_reload (env : Env) (i : Nat) {s : Impl} (request : KernelLookupRequest)
    {r : KernelLookupResult} {id : ArtifactId} {p : Nat} {a : StoredArtifact}
    (hkey : request.key.wellFormed = true) (hfree : s.statsHeld = false)
    (hr : s.lookup request.key.finalize request.policy = r) (hhit : r.outcome.isHit = true)
    (hart : r.artifact = some id) (hid : s.byId.lookup id = some p)
    (hwanted : request.desiredTier = .hostResident)
    (htier : (s.records p).tier.rank < ResidencyTier.hostResident.rank)
    (hbytes : (s.records p).bytes = []) (hopen : env.cfg.persistenceOpen = true)
    (hget : s.store.get (s.records p).id = .ok a)
    (hlease : ((s.records p).reloaded a.bytes).promoteHost.leasable = true) :
    ∃ tr lease s' now, (acquireImpl env request).traced (exec env) i s = some (tr, .ok lease, s') ∧
      s.Rewrites s' p (((s.records p).reloaded a.bytes).promoteHost.leased now request.pin) ∧
      (s'.leases lease).record = p ∧ (s'.leases lease).released = false := by
  obtain ⟨tr₁, s₁, hpromote, hrw₁⟩ := promoteToHost_traced_reload env i
    (s := { s.lookedUp r with tick := s.tick + 4 }) (p := p) request.device hfree hbytes hopen hget
    htier
  rw [← hwanted] at hpromote
  have hrw : s.Rewrites s₁ p ((s.records p).reloaded a.bytes).promoteHost :=
    ⟨hrw₁.record, hrw₁.others, ⟨hrw₁.index.nextRecord, hrw₁.index.byId, hrw₁.index.byKey,
      hrw₁.index.byOperation⟩, hrw₁.free, hrw₁.store⟩
  exact acquireImpl_traced_promoted env i request hkey hfree hr hhit hart hid hpromote hrw hlease

/-- The operation `acquire` does what `acquire_impl` does. -/
theorem acquire_traced {env : Env} {i : Nat} {s s' : Impl} {request : KernelLookupRequest}
    {tr : List (Event Step Impl)} {res : Result Nat}
    (h : (acquireImpl env request).traced (exec env) i s = some (tr, res, s')) :
    ((Operation.acquire request).prog env).traced (exec env) i s =
      some (tr, answer .lease res, s') := by
  simp only [Operation.prog, Prog.bind_eq, Prog.traced_bind, h]
  simp [Prog.tracedThen, Prog.traced]

theorem build_traced {env : Env} {i : Nat} {s s' : Impl} {request : KernelLookupRequest}
    {tr : List (Event Step Impl)} {res : Result ArtifactDescriptor}
    (h : (buildImpl env request).traced (exec env) i s = some (tr, res, s')) :
    ((Operation.build request).prog env).traced (exec env) i s =
      some (tr, answer .descriptor res, s') := by
  simp only [Operation.prog, Prog.bind_eq, Prog.traced_bind, h]
  simp [Prog.tracedThen, Prog.traced]

theorem release_traced (env : Env) (i : Nat) {s : Impl} {lease p : Nat}
    (hfree : s.statsHeld = false) (hrecord : (s.leases lease).record = p)
    (hheld : (s.leases lease).released = false) :
    ∃ tr s', ((Operation.release lease).prog env).traced (exec env) i s = some (tr, .done, s') ∧
      s.Rewrites s' p (s.records p).released ∧ ∀ e ∈ tr, e.label.movesCopies = false := by
  simp only [Operation.prog, releaseLease, Prog.bind_eq, sect, perform, Prog.bind, Prog.traced, exec,
    Step.ready, Step.effect, Impl.exchangeReleased, hfree, hheld, hrecord, if_true, if_false,
    Bool.not_false, Bool.false_eq_true]
  have hrw := Impl.rewrites_modify p ArtifactRecord.released hfree
  refine ⟨_, _, rfl, ⟨hrw.record, hrw.others, ⟨rfl, rfl, rfl, rfl⟩, rfl, rfl⟩, fun e he => ?_⟩
  simp only [List.mem_cons, List.not_mem_nil, or_false] at he
  rcases he with rfl | rfl | rfl <;> rfl

/-- An eviction of a record nobody holds and no device has loaded. -/
theorem evict_traced (env : Env) (i : Nat) {s : Impl} {id : ArtifactId} {p : Nat} (force : Bool)
    (hfree : s.statsHeld = false) (hid : s.byId.lookup id = some p)
    (hleases : (s.records p).leaseCount = 0) (hpins : (s.records p).pinCount = 0)
    (hhandle : (s.records p).nativeHandle = none) :
    ∃ tr s', ((Operation.evict id force).prog env).traced (exec env) i s = some (tr, .done, s') ∧
      s.Rewrites s' p (s.records p).evictBegin.evictCommit ∧
      ∃ e ∈ tr, e.label = .evictCommit p ∧ e.before.records p = (s.records p).evictBegin ∧
        ∀ e' ∈ tr, e'.label.movesCopies = true → e' = e := by
  have hbegin : s.evictBegin id force = (.ok p, s.modify p ArtifactRecord.evictBegin) := by
    simp [Impl.evictBegin, hid, hleases, hpins]
  have hrw := Impl.rewrites_modify p ArtifactRecord.evictBegin hfree
  generalize s.modify p ArtifactRecord.evictBegin = s₁ at hbegin hrw
  have hunload : ({ s₁ with tick := s.tick + 1 } : Impl).unloadModule env p =
      (.ok (), { s₁ with tick := s.tick + 1 }) := by
    have hnone : (s₁.records p).nativeHandle = none := by
      rw [hrw.record]
      exact hhandle
    simp only [Impl.unloadModule, hnone]
    split
    · rename_i h
      cases h
    · rfl
  have hfree₁ := hrw.free
  simp only [Operation.prog, evictImpl, Prog.bind_eq, sect, perform, Prog.bind, Prog.traced, exec,
    Step.ready, Step.effect, hbegin, if_true]
  rw [hunload]
  simp only [Prog.bind, Prog.traced, exec, Step.ready, Step.effect, hfree₁, if_true, Bool.not_false,
    Impl.evictCommit, Impl.bump, Impl.modify]
  have hrw' := Impl.rewrites_modify p ArtifactRecord.evictCommit hfree₁
  rw [hrw.record] at hrw'
  have hall := hrw.trans hrw'
  refine ⟨_, _, rfl, ⟨hall.record, hall.others, ⟨hall.index.nextRecord, hall.index.byId,
    hall.index.byKey, hall.index.byOperation⟩, rfl, hall.store⟩, _,
    List.mem_of_getElem? (i := 2) rfl, rfl, hrw.record, fun e he hmoves => ?_⟩
  simp only [List.mem_cons, List.not_mem_nil, or_false] at he
  rcases he with rfl | rfl | rfl | rfl
  · cases hmoves
  · cases hmoves
  · rfl
  · cases hmoves

/-- Only the counters and the clock moved. -/
def Impl.Ticked (s s' : Impl) : Prop := ∃ st t, s' = { s with stats := st, tick := t }

theorem Impl.Ticked.trans {s s' s'' : Impl} (h : s.Ticked s') (h' : s'.Ticked s'') :
    s.Ticked s'' := by
  obtain ⟨st, t, rfl⟩ := h
  obtain ⟨st', t', rfl⟩ := h'
  exact ⟨st', t', rfl⟩

theorem exec_bump_ticked {env : Env} {f : Stats → Stats} {s s' : Impl}
    (h : exec env (.bump f) s = some s') : s.Ticked s' := by
  obtain ⟨-, rfl⟩ := exec_eq_some.mp h
  exact ⟨_, _, rfl⟩

theorem exec_recordEvent_ticked {env : Env} {s s' : Impl}
    (h : exec env .recordEvent s = some s') : s.Ticked s' := by
  obtain ⟨-, rfl⟩ := exec_eq_some.mp h
  exact ⟨_, _, rfl⟩

/-! ## Build -/

/-- `run_build` alone. -/
theorem runBuildOp_run {env : Env} {request : KernelLookupRequest} {gen : ArtifactGeneration}
    {s s' : Impl} {res : Result Outcome}
    (h : (runBuildOp env request gen).run (exec env) s = some (res, s')) :
    res = runBuild env s.tick request gen ∧ s.Ticked s' := by
  unfold runBuildOp at h
  rw [Prog.bind_eq, Prog.run_of_bind] at h
  obtain ⟨res', s₁, hcall, hrest⟩ := h
  obtain ⟨hstep, rfl⟩ := Prog.run_sect.mp hcall
  have hticked : s.Ticked s₁ := by
    obtain ⟨-, rfl⟩ := exec_eq_some.mp hstep
    exact ⟨_, _, rfl⟩
  cases hres : runBuild env s.tick request gen with
  | error e =>
    simp only [hres, Prog.pure_eq, Prog.run_ret, Option.some.injEq, Prod.mk.injEq] at hrest
    exact ⟨hrest.1.symm, hrest.2 ▸ hticked⟩
  | ok o =>
    simp only [hres] at hrest
    split at hrest
    · rw [Prog.bind_eq, Prog.run_of_bind] at hrest
      obtain ⟨_, s₂, hbump, hrest⟩ := hrest
      rw [Prog.bind_eq, Prog.run_of_bind] at hrest
      obtain ⟨_, s₃, hevent, hrest⟩ := hrest
      simp only [Prog.pure_eq, Prog.run_ret, Option.some.injEq, Prod.mk.injEq] at hrest
      refine ⟨hrest.1.symm, hrest.2 ▸ hticked.trans ?_⟩
      exact (exec_bump_ticked (Prog.run_perform.mp hbump)).trans
        (exec_recordEvent_ticked (Prog.run_perform.mp hevent))
    · simp only [Prog.pure_eq, Prog.run_ret, Option.some.injEq, Prod.mk.injEq] at hrest
      exact ⟨hrest.1.symm, hrest.2 ▸ hticked⟩

/-- What publishing alone leaves: the answer is the descriptor, and the record under its id is the
one that was there, or a new one. -/
structure Published (env : Env) (o : Outcome) (s s' : Impl) : Prop where
  carries : s.Carries s'
  sameFences : s.SameFences s'
  bound : ∃ p, s'.byId.lookup o.id = some p ∧
    (s.byId.lookup o.id = some p ∨
      (s.byId.lookup o.id = none ∧ p = s.nextRecord ∧ p < s'.nextRecord ∧
        (s'.records p).key = o.desc.key.ensureFinalized ∧
        (s'.records p).generation = o.desc.generation))
  free : s'.statsHeld = false

/-- Persisting returns only with the lock free: a failure is recorded under it. -/
theorem persistOp_lockFree {env : Env} {o : Outcome} {s s' : Impl} {u : Unit}
    (hfree : s.statsHeld = false) (h : (persistOp env o).run (exec env) s = some (u, s')) :
    s'.statsHeld = false := by
  unfold persistOp at h
  rw [Prog.bind_eq, Prog.run_of_bind] at h
  obtain ⟨res, s₁, hpersist, h⟩ := h
  have hfree₁ := exec_keepsLockFree (Prog.run_sect.mp hpersist).1 rfl hfree
  cases res with
  | ok _ => exact exec_keepsLockFree (Prog.run_perform.mp h) rfl hfree₁
  | error e =>
    rw [Prog.bind_eq, Prog.run_of_bind] at h
    obtain ⟨_, s₂, -, hevent⟩ := h
    exact (exec_recordEvent_free (Prog.run_perform.mp hevent)).2

theorem publishOp_run {env : Env} {fence : Nat} {o : Outcome} {s s' : Impl}
    {res : Result ArtifactDescriptor} (hs : o.succeeded = true) (hid : o.desc.id = o.id)
    (h : (publishOp env fence o).run (exec env) s = some (res, s')) :
    res = .ok o.desc ∧ Published env o s s' := by
  have hcarries := run_carries
    (publishOp_free (covers_proper env) (coversBuilds_proper env) fence hs hid) h
  have hfences := run_sameFences (publishOp_free (covers_keepsFences env)
    (coversBuilds_keepsFences env) fence hs hid) h
  unfold publishOp at h
  rw [Prog.bind_eq, Prog.run_of_bind] at h
  obtain ⟨_, s₁, hevent, h⟩ := h
  rw [Prog.bind_eq, Prog.run_of_bind] at h
  obtain ⟨new, s₂, hpublish, h⟩ := h
  have hfree₁ := (exec_recordEvent_free (Prog.run_perform.mp hevent)).2
  obtain ⟨st, t, rfl⟩ := exec_recordEvent_ticked (Prog.run_perform.mp hevent)
  obtain ⟨hstep, -⟩ := Prog.run_sect.mp hpublish
  have hfree₂ := exec_keepsLockFree hstep rfl hfree₁
  -- the rest persists the record and answers
  have hrest : res = .ok o.desc ∧ s₂.Carries s' ∧ s'.statsHeld = false := by
    split at h
    · rw [Prog.bind_eq, Prog.run_of_bind] at h
      obtain ⟨_, s₃, hpersist, h⟩ := h
      simp only [Prog.pure_eq, Prog.run_ret, Option.some.injEq, Prod.mk.injEq] at h
      obtain ⟨hres, rfl⟩ := h
      refine ⟨hres.symm, ?_, persistOp_lockFree hfree₂ hpersist⟩
      exact run_carries (persistOp_free (covers_proper env) (coversBuilds_proper env) hs hid) hpersist
    · simp only [Prog.pure_eq, Prog.run_ret, Option.some.injEq, Prod.mk.injEq] at h
      exact ⟨h.1.symm, h.2 ▸ .refl _, h.2 ▸ hfree₂⟩
  obtain ⟨hres, hlater, hfree⟩ := hrest
  cases hlook : s.byId.lookup o.id with
  | some p =>
    exact ⟨hres, hcarries, hfences, ⟨p, hcarries.keeps _ _ hlook, .inl hlook⟩, hfree⟩
  | none =>
    obtain ⟨hnext, hbound, hrec⟩ := exec_publish_new hstep hid hlook
    have hlt : s.nextRecord < s₂.nextRecord := Nat.lt_of_lt_of_eq (Nat.lt_succ_self _) hnext.symm
    refine ⟨hres, hcarries, hfences, ⟨s.nextRecord, hlater.keeps _ _ hbound,
      .inr ⟨hlook, rfl, ?_, ?_, ?_⟩⟩, hfree⟩
    · exact lt_of_lt_of_le hlt hlater.next_le
    · rw [hlater.key_eq s.nextRecord hlt]
      exact congrArg ArtifactRecord.key hrec
    · rw [hlater.generation_eq s.nextRecord hlt]
      exact congrArg ArtifactRecord.generation hrec

/-- The owner's end alone: the promise is kept, the fence is out of flight, and a success is
published. -/
theorem finishBuild_run {env : Env} {digest : Sha256Digest} {fence : Nat} {o : Outcome}
    {s s' : Impl} {res : Result ArtifactDescriptor} (ho : Consistent (.ok o))
    (hflight : s.inFlight.lookup digest = some fence) (hopen : s.fences fence = none)
    (h : (finishBuild env digest fence o).run (exec env) s = some (res, s')) :
    ∃ st t s₁, s₁ = { s with
        stats := st, tick := t, fences := Function.update s.fences fence (some o)
        inFlight := s.inFlight.erase digest } ∧
      ((o.succeeded = false ∧ res = fail o.errorCode o.error ∧ s₁.Ticked s') ∨
        (o.succeeded = true ∧ res = .ok o.desc ∧ Published env o s₁ s')) := by
  unfold finishBuild at h
  rw [Prog.bind_eq, Prog.run_of_bind] at h
  obtain ⟨_, s₁, hbump, h⟩ := h
  rw [Prog.bind_eq, Prog.run_of_bind] at h
  obtain ⟨_, s₂, hfulfil, h⟩ := h
  rw [Prog.bind_eq, Prog.run_of_bind] at h
  obtain ⟨_, s₃, herase, h⟩ := h
  obtain ⟨st, t, rfl⟩ := exec_bump_ticked (Prog.run_perform.mp hbump)
  obtain ⟨-, rfl⟩ := exec_eq_some.mp (Prog.run_perform.mp hfulfil)
  obtain ⟨-, rfl⟩ := exec_eq_some.mp (Prog.run_perform.mp herase)
  simp only [Step.effect, Impl.fulfil, hopen, Impl.eraseFence, hflight, if_true] at h
  refine ⟨st, t + 1 + 1, _, rfl, ?_⟩
  by_cases hs : o.succeeded = true
  · rw [if_neg (by simp [hs])] at h
    exact .inr ⟨hs, publishOp_run hs (ho o rfl hs) h⟩
  · rw [if_pos (by simpa using hs), Prog.bind_eq, Prog.run_of_bind] at h
    obtain ⟨_, s₄, hcount, h⟩ := h
    rw [Prog.bind_eq, Prog.run_of_bind] at h
    obtain ⟨_, s₅, hevent, h⟩ := h
    simp only [Prog.pure_eq, Prog.run_ret, Option.some.injEq, Prod.mk.injEq] at h
    refine .inl ⟨by simpa using hs, h.1.symm, h.2 ▸ ?_⟩
    exact (exec_bump_ticked (Prog.run_perform.mp hcount)).trans
      (exec_recordEvent_ticked (Prog.run_perform.mp hevent))

/-- A build in flight that its owner has left behind, or not finished yet. -/
def Impl.building (s : Impl) (digest : Sha256Digest) (st : Stats) (t : Nat) : Impl :=
  { s with
    stats := st, tick := t
    nextGeneration := s.nextGeneration + 1
    nextFence := s.nextFence + 1
    inFlight := s.inFlight.insert digest s.nextFence }

/-- The same build once its fence has come and gone. -/
def Impl.built (s : Impl) (digest : Sha256Digest) (o : Outcome) (st : Stats) (t : Nat) : Impl :=
  { s.building digest st t with
    inFlight := (s.inFlight.insert digest s.nextFence).erase digest
    fences := Function.update s.fences s.nextFence (some o) }

/-- What a build that returned has done: nobody was building, and it ran `run_build` once. -/
structure Builds (env : Env) (request : KernelLookupRequest) (s : Impl)
    (res : Result ArtifactDescriptor) (s' : Impl) : Prop where
  outcome :
    (∃ e st t, runBuild env (s.tick + 1) (buildRequestOf env request) s.nextGeneration = .error e ∧
      res = .error e ∧ s' = s.building (buildDigest env request) st t) ∨
    (∃ o st t, runBuild env (s.tick + 1) (buildRequestOf env request) s.nextGeneration = .ok o ∧
      ((o.succeeded = false ∧ res = fail o.errorCode o.error ∧
          (s.built (buildDigest env request) o st t).Ticked s') ∨
        (o.succeeded = true ∧ res = .ok o.desc ∧
          Published env o (s.built (buildDigest env request) o st t) s')))

/-- `build_impl` alone, when nobody builds the key. -/
theorem buildImpl_run_of_idle {env : Env} {request : KernelLookupRequest} {s s' : Impl}
    {res : Result ArtifactDescriptor}
    (hflight : s.inFlight.lookup (buildDigest env request) = none)
    (hopen : s.fences s.nextFence = none)
    (h : (buildImpl env request).run (exec env) s = some (res, s')) :
    Builds env request s res s' := by
  unfold buildImpl at h
  rw [Prog.bind_eq, Prog.run_of_bind] at h
  obtain ⟨joined, s₁, hjoin, h⟩ := h
  obtain ⟨hstep, rfl⟩ := Prog.run_sect.mp hjoin
  obtain ⟨-, hs₁⟩ := exec_eq_some.mp hstep
  have hjoined : (s.join (buildDigest env request)).1 = .owner s.nextFence s.nextGeneration := by
    simp only [Impl.join, hflight]
  have hbuilding : ∃ st, s₁ = s.building (buildDigest env request) st (s.tick + 1) := by
    refine ⟨(s.join (buildDigest env request)).2.stats, ?_⟩
    rw [hs₁]
    show ({ (s.join (buildDigest env request)).2 with tick := s.tick + 1 } : Impl) = _
    simp only [Impl.join, hflight, Impl.building]
  obtain ⟨st, rfl⟩ := hbuilding
  have howner : (buildOwner env (buildRequestOf env request) (buildDigest env request) s.nextFence
      s.nextGeneration).run (exec env) (s.building (buildDigest env request) st (s.tick + 1)) =
        some (res, s') := by
    have hjoined' := hjoined
    unfold buildDigest at hjoined'
    rwa [hjoined'] at h
  unfold buildOwner at howner
  rw [Prog.bind_eq, Prog.run_of_bind] at howner
  obtain ⟨out, s₂, hbuild, h⟩ := howner
  obtain ⟨rfl, st₂, t₂, rfl⟩ := runBuildOp_run hbuild
  refine ⟨?_⟩
  have htick : (s.building (buildDigest env request) st (s.tick + 1)).tick = s.tick + 1 := rfl
  rw [htick] at h
  cases hout : runBuild env (s.tick + 1) (buildRequestOf env request) s.nextGeneration with
  | error e =>
    rw [hout] at h
    simp only [Prog.pure_eq, Prog.run_ret, Option.some.injEq, Prod.mk.injEq] at h
    exact .inl ⟨e, st₂, t₂, rfl, h.1.symm, h.2.symm⟩
  | ok o =>
    rw [hout] at h
    have ho : Consistent (.ok o) := by
      rw [← hout]
      exact runBuild_consistent env _ _ _
    obtain ⟨st₃, t₃, s₃, rfl, hend⟩ :=
      finishBuild_run (s := s.building (buildDigest env request) st₂ t₂) ho
        (AList.lookup_insert _) hopen h
    exact .inr ⟨o, st₃, t₃, rfl, hend⟩

/-- `build_impl` alone.  A waiter would have to wait for a promise nobody keeps. -/
theorem buildImpl_run {env : Env} {request : KernelLookupRequest} {s s' : Impl}
    {res : Result ArtifactDescriptor} (hidle : s.FencesIdle)
    (h : (buildImpl env request).run (exec env) s = some (res, s')) :
    Builds env request s res s' := by
  cases hflight : s.inFlight.lookup (buildDigest env request) with
  | none => exact buildImpl_run_of_idle hflight (hidle.fresh _ le_rfl) h
  | some fence =>
    unfold buildImpl at h
    rw [Prog.bind_eq, Prog.run_of_bind] at h
    obtain ⟨joined, s₁, hjoin, h⟩ := h
    obtain ⟨hstep, rfl⟩ := Prog.run_sect.mp hjoin
    obtain ⟨-, hs₁⟩ := exec_eq_some.mp hstep
    have hjoined : (s.join (buildDigest env request)).1 = .waiter fence := by
      simp only [Impl.join, hflight]
    have hsame : s₁.fences = s.fences := by
      rw [hs₁]
      show (s.join (buildDigest env request)).2.fences = s.fences
      simp only [Impl.join, hflight, Impl.bump]
    have hwait : (buildWaiter fence).run (exec env) s₁ = some (res, s') := by
      have hjoined' := hjoined
      unfold buildDigest at hjoined'
      rwa [hjoined'] at h
    unfold buildWaiter at hwait
    rw [Prog.bind_eq, Prog.run_of_bind] at hwait
    obtain ⟨o, s₂, hawait, -⟩ := hwait
    obtain ⟨hready, -⟩ := exec_eq_some.mp (Prog.run_sect.mp hawait).1
    simp [Step.ready, hsame, (hidle.waiting _ fence hflight).2] at hready

theorem Builds.fencesIdle {env : Env} {request : KernelLookupRequest} {s s' : Impl}
    {res : Result ArtifactDescriptor} (h : Builds env request s res s') (hs : s.FencesIdle) :
    s'.FencesIdle := by
  have hbuilt : ∀ o st t, (s.built (buildDigest env request) o st t).FencesIdle := by
    intro o st t
    refine ⟨fun d f hf => ?_, fun f hf => ?_⟩
    · have hne : d ≠ buildDigest env request := by
        rintro rfl
        have hnone : (s.built (buildDigest env request) o st t).inFlight.lookup
            (buildDigest env request) = none := AList.lookup_erase _ _
        rw [hnone] at hf
        cases hf
      have hold : s.inFlight.lookup d = some f := by
        have herase : (s.built (buildDigest env request) o st t).inFlight.lookup d =
            (s.inFlight.insert (buildDigest env request) s.nextFence).lookup d :=
          AList.lookup_erase_ne hne
        rw [herase, AList.lookup_insert_ne hne] at hf
        exact hf
      obtain ⟨hlt, hopen⟩ := hs.waiting d f hold
      refine ⟨Nat.lt_succ_of_lt hlt, ?_⟩
      show Function.update s.fences s.nextFence (some o) f = none
      rw [Function.update_of_ne (Nat.ne_of_lt hlt)]
      exact hopen
    · have hlt : s.nextFence < f := hf
      show Function.update s.fences s.nextFence (some o) f = none
      rw [Function.update_of_ne (Nat.ne_of_gt hlt)]
      exact hs.fresh f hlt.le
  rcases h.outcome with ⟨e, st, t, -, -, rfl⟩ | ⟨o, st, t, -, ⟨-, -, htick⟩ | ⟨-, -, hpub⟩⟩
  · refine ⟨fun d f hf => ?_, fun f hf => ?_⟩
    · by_cases hd : d = buildDigest env request
      · subst hd
        have hnew : (s.building (buildDigest env request) st t).inFlight.lookup
            (buildDigest env request) = some s.nextFence := AList.lookup_insert _
        rw [hnew] at hf
        obtain rfl := Option.some.inj hf
        exact ⟨Nat.lt_succ_self _, hs.fresh _ le_rfl⟩
      · have hold : (s.building (buildDigest env request) st t).inFlight.lookup d =
            s.inFlight.lookup d := AList.lookup_insert_ne hd
        rw [hold] at hf
        obtain ⟨hlt, hopen⟩ := hs.waiting d f hf
        exact ⟨Nat.lt_succ_of_lt hlt, hopen⟩
    · exact hs.fresh f (Nat.le_of_succ_le hf)
  · obtain ⟨st', t', rfl⟩ := htick
    exact ⟨(hbuilt o st t).waiting, (hbuilt o st t).fresh⟩
  · exact hpub.sameFences.idle (hbuilt o st t)

/-- A build whose id is taken returns its descriptor and leaves the records as they were. -/
theorem buildImpl_run_of_taken {env : Env} {request : KernelLookupRequest} {s : Impl} {o : Outcome}
    {p : Nat} (hfree : s.statsHeld = false) (hidle : s.FencesIdle)
    (hflight : s.inFlight.lookup (buildDigest env request) = none)
    (hout : runBuild env (s.tick + 1) (buildRequestOf env request) s.nextGeneration = .ok o)
    (hok : o.succeeded = true) (htaken : s.byId.lookup o.id = some p) :
    ∃ s', (buildImpl env request).run (exec env) s = some (.ok o.desc, s') ∧ s'.byId = s.byId ∧
      s'.records = s.records ∧ s'.statsHeld = false := by
  have hopen := hidle.fresh s.nextFence le_rfl
  have hmine : ∀ f, (s.inFlight.insert (buildDigest env request) f).lookup
      (buildDigest env request) = some f := fun f => AList.lookup_insert _
  cases s
  cases hfree
  unfold buildDigest at hflight hmine
  dsimp only at hflight hmine hopen hout htaken
  simp only [buildImpl, buildOwner, runBuildOp, finishBuild, publishOp, Prog.bind_eq, sect, perform,
    Prog.bind, Prog.run, exec, Step.ready, Step.effect, Impl.join, hflight, Impl.bump, hout, hok,
    Impl.fulfil, hopen, Impl.eraseFence, hmine, Impl.publish, htaken, Bool.not_false, Bool.not_true,
    if_true, if_false, Bool.false_and, Bool.false_eq_true, Prog.pure_eq]
  exact ⟨_, rfl, rfl, rfl, rfl⟩

/-- The sections of a build without a store that runs alone from `s₀` and makes `o`: it joins there,
and publishes where nothing has been inserted since. -/
def Step.ofBuild (s₀ : Impl) (o : Outcome) (s : Impl) : Step → Prop
  | .join _ => s = s₀
  | .publish _ o' => o' = o ∧ s₀.SameIndex s ∧ s.records = s₀.records
  | .runBuild _ _ | .bump _ | .recordEvent | .fulfil _ _ | .eraseFence _ _ => True
  | _ => False

/-- A build without a store whose id is free publishes a new record. -/
theorem buildImpl_traced_of_new {env : Env} (request : KernelLookupRequest) {s : Impl} {o : Outcome}
    (i : Nat) (hfree : s.statsHeld = false) (hidle : s.FencesIdle)
    (hflight : s.inFlight.lookup (buildDigest env request) = none)
    (hout : runBuild env (s.tick + 1) (buildRequestOf env request) s.nextGeneration = .ok o)
    (hok : o.succeeded = true) (hnew : s.byId.lookup o.id = none)
    (hclosed : env.cfg.persistenceOpen = false) :
    ∃ tr s', (buildImpl env request).traced (exec env) i s = some (tr, .ok o.desc, s') ∧
      (∃ e ∈ tr, e.label = .publish s.nextFence o ∧ e.before.byId = s.byId ∧
        e.after.byId = s'.byId) ∧
      (∃ e ∈ tr, e.label = .runBuild (buildRequestOf env request) s.nextGeneration) ∧
      (∀ e ∈ tr, e.label.ofBuild s o e.before) ∧
      ∃ s₁ : Impl, s.SameIndex s₁ ∧ s₁.records = s.records ∧ s₁.statsHeld = false ∧
        s₁.nextGeneration = s.nextGeneration + 1 ∧
        s₁.inFlight.lookup (buildDigest env request) = none ∧
        ∃ t, s' = { s₁.insertIndexLocked (makeRecord (env.now s₁.tick) o.desc o.bytes) with
          tick := t } := by
  have hopen := hidle.fresh s.nextFence le_rfl
  have hmine : ∀ f, (s.inFlight.insert (buildDigest env request) f).lookup
      (buildDigest env request) = some f := fun f => AList.lookup_insert _
  cases s
  cases hfree
  unfold buildDigest at hflight hmine
  dsimp only at hflight hmine hopen hout hnew
  simp only [buildImpl, buildOwner, runBuildOp, finishBuild, publishOp, Prog.bind_eq, sect, perform,
    Prog.bind, Prog.traced, exec, Step.ready, Step.effect, Impl.join, hflight, Impl.bump, hout, hok,
    Impl.fulfil, hopen, Impl.eraseFence, hmine, Impl.publish, hnew, hclosed, Bool.not_false,
    Bool.not_true, if_true, if_false, Bool.and_false, Bool.false_eq_true, Prog.pure_eq,
    Option.map_some]
  refine ⟨_, _, rfl, ?_, ?_, ?_, _, ?_, rfl, rfl, rfl, AList.lookup_erase _ _, _, rfl⟩
  · exact ⟨_, List.mem_of_getElem? (i := 8) rfl, rfl, rfl, rfl⟩
  · exact ⟨_, List.mem_of_getElem? (i := 1) rfl, rfl⟩
  · intro e he
    simp only [List.mem_cons, List.not_mem_nil, or_false] at he
    rcases he with rfl | rfl | rfl | rfl | rfl | rfl | rfl | rfl | rfl
    · exact rfl
    · exact trivial
    · exact trivial
    · exact trivial
    · exact trivial
    · exact trivial
    · exact trivial
    · exact trivial
    · exact ⟨rfl, ⟨rfl, rfl, rfl, rfl⟩, rfl⟩
  · exact ⟨rfl, rfl, rfl, rfl⟩

/-! ## Acquire -/

theorem lookupImpl_run {env : Env} {request : KernelLookupRequest} {s s' : Impl}
    {res : Result KernelLookupResult}
    (h : (lookupImpl request).run (exec env) s = some (res, s')) :
    (request.key.wellFormed = false ∧ res = fail .invalidArgument (str "key not finalizable") ∧
      s' = s) ∨
    (request.key.wellFormed = true ∧ s.statsHeld = false ∧
      res = .ok (s.lookup request.key.finalize request.policy) ∧
      s' = s.lookedUp (s.lookup request.key.finalize request.policy)) := by
  cases hkey : request.key.wellFormed with
  | false =>
    have hfin : request.key.finalize.finalized = false := by
      rw [KernelCompatibilityKey.finalize_finalized]
      exact hkey
    simp only [lookupImpl, hfin, Bool.not_false, if_true, Prog.pure_eq, Prog.run_ret,
      Option.some.injEq, Prod.mk.injEq] at h
    exact .inl ⟨rfl, h.1.symm, h.2.symm⟩
  | true =>
    cases hfree : s.statsHeld with
    | false =>
      rw [Prog.run_eq_traced 0, lookupImpl_traced env 0 request hkey hfree] at h
      simp only [Option.map_some, Option.some.injEq, Prod.mk.injEq] at h
      exact .inr ⟨rfl, rfl, h.1.symm, h.2.symm⟩
    | true =>
      -- counting the lookup blocks
      have hfin : request.key.finalize.finalized = true := by
        rw [KernelCompatibilityKey.finalize_finalized]
        exact hkey
      simp only [lookupImpl, hfin, Bool.not_true, Bool.false_eq_true, if_false] at h
      rw [Prog.bind_eq, Prog.run_of_bind] at h
      obtain ⟨_, s₁, hcollect, h⟩ := h
      rw [Prog.bind_eq, Prog.run_of_bind] at h
      obtain ⟨_, s₂, hbump, -⟩ := h
      obtain ⟨-, rfl⟩ := exec_eq_some.mp (Prog.run_sect.mp hcollect).1
      obtain ⟨hready, -⟩ := exec_eq_some.mp (Prog.run_perform.mp hbump)
      simp [Step.ready, Step.effect, hfree] at hready

/-- `acquire_impl` alone: a malformed key is refused, and otherwise the lookup's answer decides. -/
theorem acquireImpl_run {env : Env} {request : KernelLookupRequest} {s s' : Impl} {res : Result Nat}
    (h : (acquireImpl env request).run (exec env) s = some (res, s')) :
    (request.key.wellFormed = false ∧
      res = fail .invalidArgument (str "key not finalizable") ∧ s' = s) ∨
    (request.key.wellFormed = true ∧ s.statsHeld = false ∧
      (acquireDecided env { request with key := request.key.finalize }
          (.ok (s.lookup request.key.finalize request.policy))).run (exec env)
        (s.lookedUp (s.lookup request.key.finalize request.policy)) = some (res, s')) := by
  unfold acquireImpl at h
  rw [Prog.bind_eq, Prog.run_of_bind] at h
  obtain ⟨decided, s₁, hlookup, h⟩ := h
  rcases lookupImpl_run hlookup with ⟨hkey, rfl, rfl⟩ | ⟨hkey, hfree, rfl, rfl⟩
  · refine .inl ⟨by simpa using hkey, ?_⟩
    simp only [fail, acquireDecided, Prog.pure_eq, Prog.run_ret, Option.some.injEq,
      Prod.mk.injEq] at h
    exact ⟨h.1.symm, h.2.symm⟩
  · simp only [KernelCompatibilityKey.finalize_finalize] at h
    exact .inr ⟨by simpa using hkey, hfree, h⟩

/-- The three ways on from a lookup's answer: lease the hit, build and lease, or report the miss. -/
inductive Decided (env : Env) (request : KernelLookupRequest) (r : KernelLookupResult) (s : Impl)
    (res : Result Nat) (s' : Impl) : Prop
  | hit (hhit : r.outcome.isHit = true)
      (hlease : (leaseRecord env request (r.artifact.getD default)
        (str "artifact vanished")).run (exec env) s = some (res, s'))
  | failed (hmiss : r.outcome.isHit = false) (hallow : request.allowMissBuild = true) (e : Failure)
      (hbuild : (buildImpl env request).run (exec env) s = some (.error e, s'))
      (hres : res = .error e)
  | built (hmiss : r.outcome.isHit = false) (hallow : request.allowMissBuild = true)
      (desc : ArtifactDescriptor) (s₁ : Impl)
      (hbuild : (buildImpl env request).run (exec env) s = some (.ok desc, s₁))
      (hlease : (leaseRecord env request desc.id
        (str "built artifact vanished")).run (exec env) s₁ = some (res, s'))
  | missed (hmiss : r.outcome.isHit = false) (hallow : request.allowMissBuild = false)
      (hres : res = fail .notFound
        (str "miss: " ++ r.outcome.name ++ str " op=" ++ request.key.operation))
      (hsame : s' = s)

theorem acquireDecided_run {env : Env} {request : KernelLookupRequest} {r : KernelLookupResult}
    {s s' : Impl} {res : Result Nat}
    (h : (acquireDecided env request (.ok r)).run (exec env) s = some (res, s')) :
    Decided env request r s res s' := by
  simp only [acquireDecided] at h
  cases hhit : r.outcome.isHit with
  | true =>
    simp only [hhit, if_true] at h
    exact .hit hhit h
  | false =>
    simp only [hhit, Bool.false_eq_true, if_false, acquireMiss] at h
    cases hallow : request.allowMissBuild with
    | false =>
      simp only [hallow, Bool.false_eq_true, if_false, Prog.pure_eq, Prog.run_ret,
        Option.some.injEq, Prod.mk.injEq] at h
      exact .missed hhit hallow h.1.symm h.2.symm
    | true =>
      simp only [hallow, if_true] at h
      rw [Prog.bind_eq, Prog.run_of_bind] at h
      obtain ⟨built, s₁, hbuild, h⟩ := h
      cases built with
      | error e =>
        simp only [Prog.pure_eq, Prog.run_ret, Option.some.injEq, Prod.mk.injEq] at h
        exact .failed hhit hallow e (h.2 ▸ hbuild) h.1.symm
      | ok desc => exact .built hhit hallow desc s₁ hbuild h

/-- A miss that builds, and leases what the build is known under. -/
theorem acquireImpl_run_of_built {env : Env} (request : KernelLookupRequest) {s s₁ s₂ : Impl}
    {r : KernelLookupResult} {desc : ArtifactDescriptor} {res : Result Nat}
    (hkey : request.key.wellFormed = true) (hfree : s.statsHeld = false)
    (hr : s.lookup request.key.finalize request.policy = r) (hmiss : r.outcome.isHit = false)
    (hallow : request.allowMissBuild = true)
    (hbuild : (buildImpl env { request with key := request.key.finalize }).run (exec env)
      (s.lookedUp r) = some (.ok desc, s₁))
    (hlease : (leaseRecord env { request with key := request.key.finalize } desc.id
      (str "built artifact vanished")).run (exec env) s₁ = some (res, s₂)) :
    (acquireImpl env request).run (exec env) s = some (res, s₂) := by
  have hlookup : (lookupImpl { request with key := request.key.finalize }).run (exec env) s =
      some (.ok r, s.lookedUp r) := by
    rw [Prog.run_eq_traced 0, lookupImpl_traced env 0 _ (by simpa using hkey) hfree]
    simp only [KernelCompatibilityKey.finalize_finalize, hr, Option.map_some]
  unfold acquireImpl
  rw [Prog.bind_eq, Prog.run_of_bind]
  refine ⟨_, _, hlookup, ?_⟩
  simp only [acquireDecided, hmiss, Bool.false_eq_true, if_false, acquireMiss]
  rw [if_pos hallow, Prog.bind_eq, Prog.run_of_bind]
  exact ⟨_, _, hbuild, hlease⟩

theorem promoteToTier_proper (env : Env) (p : Nat) (desired : ResidencyTier)
    (device : DeviceDescriptor) : ProperProg env (promoteToTier env p desired device) :=
  promoteToTier_free (covers_proper env) (evictsFree_of_covers fun _ _ _ _ _ hl _ _ => hl) p desired
    device

/-- A lease that was granted names the record its id was bound to. -/
theorem leaseRecord_run {env : Env} {request : KernelLookupRequest} {id : ArtifactId}
    {vanished : Str} {s s' : Impl} {lease : Nat} (hs : s.Sound)
    (h : (leaseRecord env request id vanished).run (exec env) s = some (.ok lease, s')) :
    ∃ p, s.byId.lookup id = some p ∧ s.Carries s' ∧ (s'.leases lease).record = p ∧
      (s'.leases lease).genValue = (s.records p).generation ∧
      (s'.records p).state.isEligible = true := by
  have hcarries := run_carries (leaseRecord_free (covers_proper env)
    (evictsFree_of_covers fun _ _ _ _ _ hl _ _ => hl) request id vanished) h
  unfold leaseRecord at h
  rw [Prog.bind_eq, Prog.run_of_bind] at h
  obtain ⟨found, s₁, hfind, h⟩ := h
  obtain ⟨hstep, rfl⟩ := Prog.run_sect.mp hfind
  obtain ⟨-, rfl⟩ := exec_eq_some.mp hstep
  cases hid : s.byId.lookup id with
  | none =>
    simp only [hid, fail, Prog.pure_eq, Prog.run_ret, Option.some.injEq, Prod.mk.injEq] at h
    exact absurd h.1 (by simp)
  | some p =>
    simp only [hid] at h
    rw [Prog.bind_eq, Prog.run_of_bind] at h
    obtain ⟨promoted, s₂, hpromote, h⟩ := h
    cases promoted with
    | error e =>
      simp only [Prog.pure_eq, Prog.run_ret, Option.some.injEq, Prod.mk.injEq] at h
      exact absurd h.1 (by simp)
    | ok _ =>
      have hearlier := run_carries (promoteToTier_proper env p _ _) hpromote
      have hgen : (s₂.records p).generation = (s.records p).generation :=
        hearlier.generation_eq p (hs.bound id p hid).1
      obtain ⟨hstep, hlease⟩ := Prog.run_sect.mp h
      obtain ⟨-, rfl⟩ := exec_eq_some.mp hstep
      refine ⟨p, rfl, hcarries, ?_⟩
      simp only [Step.effect, Impl.grantLease] at hlease ⊢
      split at hlease
      · rename_i hleasable
        cases hlease
        rw [if_pos hleasable]
        simp only [Function.update_self, Impl.modify, true_and]
        refine ⟨hgen, ?_⟩
        have helig : (s₂.records p).state.isEligible = true := by
          simp only [ArtifactRecord.leasable, Bool.and_eq_true] at hleasable
          exact hleasable.2
        revert helig
        simp only [ArtifactRecord.leased]
        cases (s₂.records p).state <;> decide
      · cases hlease

theorem leaseRecord_sameFences {env : Env} {request : KernelLookupRequest} {id : ArtifactId}
    {vanished : Str} {s s' : Impl} {res : Result Nat}
    (h : (leaseRecord env request id vanished).run (exec env) s = some (res, s')) :
    s.SameFences s' :=
  run_sameFences (leaseRecord_free (covers_keepsFences env) (evictsFree_keepsFences env) request id
    vanished) h

theorem acquireImpl_fencesIdle {env : Env} {request : KernelLookupRequest} {s s' : Impl}
    {res : Result Nat} (hs : s.FencesIdle)
    (h : (acquireImpl env request).run (exec env) s = some (res, s')) : s'.FencesIdle := by
  rcases acquireImpl_run h with ⟨-, -, rfl⟩ | ⟨-, -, hdecided⟩
  · exact hs
  · have hlooked : (s.lookedUp (s.lookup request.key.finalize request.policy)).FencesIdle :=
      ⟨hs.waiting, hs.fresh⟩
    cases acquireDecided_run hdecided with
    | hit hhit hlease => exact (leaseRecord_sameFences hlease).idle hlooked
    | failed hmiss hallow e hbuild hres => exact (buildImpl_run hlooked hbuild).fencesIdle hlooked
    | built hmiss hallow desc s₁ hbuild hlease =>
      exact (leaseRecord_sameFences hlease).idle ((buildImpl_run hlooked hbuild).fencesIdle hlooked)
    | missed hmiss hallow hres hsame => exact hsame ▸ hlooked

theorem Sequence.fencesIdle {env : Env} {store : FilePersistenceStore} {calls : List Call} {s : Impl}
    (h : Sequence env store calls s) : s.FencesIdle := by
  induction h with
  | fresh => exact Impl.initial_fencesIdle store
  | @call calls s op a s' _ hrun ih =>
    cases hop : op.builds with
    | false =>
      exact (run_sameFences (operation_free_of_not_builds (covers_keepsFences env)
        (evictsFree_keepsFences env) hop) hrun).idle ih
    | true =>
      cases op with
      | build request =>
        rw [Operation.prog, Prog.bind_eq, Prog.run_of_bind] at hrun
        obtain ⟨res, s₁, hbuild, hret⟩ := hrun
        cases hret
        exact (buildImpl_run ih hbuild).fencesIdle ih
      | acquire request =>
        rw [Operation.prog, Prog.bind_eq, Prog.run_of_bind] at hrun
        obtain ⟨res, s₁, hacquire, hret⟩ := hrun
        cases hret
        exact acquireImpl_fencesIdle ih hacquire
      | _ => cases hop

theorem Builds.lockFree {env : Env} {request : KernelLookupRequest} {s s' : Impl}
    {res : Result ArtifactDescriptor} (h : Builds env request s res s')
    (hfree : s.statsHeld = false) : s'.statsHeld = false := by
  rcases h.outcome with ⟨e, st, t, -, -, rfl⟩ | ⟨o, st, t, -, ⟨-, -, htick⟩ | ⟨-, -, hpub⟩⟩
  · exact hfree
  · obtain ⟨st', t', rfl⟩ := htick
    exact hfree
  · exact hpub.free

theorem leaseRecord_lockFree {env : Env} {request : KernelLookupRequest} {id : ArtifactId}
    {vanished : Str} {s s' : Impl} {res : Result Nat}
    (h : (leaseRecord env request id vanished).run (exec env) s = some (res, s')) :
    s.statsHeld = false → s'.statsHeld = false :=
  run_lockFree (leaseRecord_free (covers_keepsLockFree env) (evictsFree_keepsLockFree env) request id
    vanished) h

theorem acquireImpl_lockFree {env : Env} {request : KernelLookupRequest} {s s' : Impl}
    {res : Result Nat} (hs : s.FencesIdle) (hfree : s.statsHeld = false)
    (h : (acquireImpl env request).run (exec env) s = some (res, s')) : s'.statsHeld = false := by
  rcases acquireImpl_run h with ⟨-, -, rfl⟩ | ⟨-, -, hdecided⟩
  · exact hfree
  · have hlooked : (s.lookedUp (s.lookup request.key.finalize request.policy)).FencesIdle :=
      ⟨hs.waiting, hs.fresh⟩
    cases acquireDecided_run hdecided with
    | hit hhit hlease => exact leaseRecord_lockFree hlease hfree
    | failed hmiss hallow e hbuild hres => exact (buildImpl_run hlooked hbuild).lockFree hfree
    | built hmiss hallow desc s₁ hbuild hlease =>
      exact leaseRecord_lockFree hlease ((buildImpl_run hlooked hbuild).lockFree hfree)
    | missed hmiss hallow hres hsame => exact hsame ▸ hfree

/-- **Between operations the lock of the statistics is free**: a call that keeps it does not return. -/
theorem Sequence.lockFree {env : Env} {store : FilePersistenceStore} {calls : List Call} {s : Impl}
    (h : Sequence env store calls s) : s.statsHeld = false := by
  induction h with
  | fresh => rfl
  | @call calls s op a s' hseq hrun ih =>
    cases hop : op.builds with
    | false =>
      exact run_lockFree (operation_free_of_not_builds (covers_keepsLockFree env)
        (evictsFree_keepsLockFree env) hop) hrun ih
    | true =>
      cases op with
      | build request =>
        rw [Operation.prog, Prog.bind_eq, Prog.run_of_bind] at hrun
        obtain ⟨res, s₁, hbuild, hret⟩ := hrun
        cases hret
        exact (buildImpl_run hseq.fencesIdle hbuild).lockFree ih
      | acquire request =>
        rw [Operation.prog, Prog.bind_eq, Prog.run_of_bind] at hrun
        obtain ⟨res, s₁, hacquire, hret⟩ := hrun
        cases hret
        exact acquireImpl_lockFree hseq.fencesIdle ih hacquire
      | _ => cases hop

/-! ## A cache with one artifact, and a backend -/

/-- A validation that passed everything. -/
def allChecks : ValidationDescriptor where
  integrityHashChecked := true
  formatChecked := true
  archChecked := true
  abiChecked := true
  metadataConsistent := true
  loadable := true
  executionSmoke := true
  referenceCompare := true

/-- A backend that builds one byte and accepts everything. -/
def stubBackend : KernelBackend where
  name := []
  builder := some { canBuild := fun _ => true, build := fun _ _ => .ok { bytes := [1] } }
  validator := some { validate := fun _ _ _ _ => .ok allChecks }
  loader := some
    { load := fun _ _ _ _ => .ok (some 0), unload := fun _ _ => .ok ()
      residentFootprint := fun _ _ => (1, false) }

def stubEnv : Env := { backends := [stubBackend] }

/-- An artifact under the default key. -/
def sampleArtifact : ArtifactDescriptor :=
  { id := ⟨⟨1, 7⟩⟩, generation := 1, validation := allChecks }

/-- A fresh cache after `sampleArtifact` was put with one byte. -/
def putState : Impl :=
  { (Impl.initial {}).insertIndexLocked (makeRecord 0 sampleArtifact [1]) with tick := 1 }

theorem defaultKey_wellFormed : ({} : KernelCompatibilityKey).wellFormed = true := by decide

theorem putState_sequence : Sequence {} {}
    [⟨.put sampleArtifact [1], Impl.initial {}, .id ⟨⟨1, 7⟩⟩, putState⟩] putState :=
  .call .fresh rfl

theorem putState_runs :
    CacheRuns {} {} [⟨0, .put sampleArtifact [1], Impl.initial {}, putState⟩]
      ⟨putState, [.ret (.id ⟨⟨1, 7⟩⟩)]⟩ :=
  Runs.refl.complete (p := (Operation.put sampleArtifact [1]).prog {}) ⟨_, rfl⟩ rfl

/-- While the index is as it was after the put and the record is healthy, the default key finds it. -/
theorem putState_lookup {s : Impl} (hkeys : s.byKey = putState.byKey)
    (hids : s.byId = putState.byId) (hkey : (s.records 0).key = (putState.records 0).key)
    (hhealthy : (s.snapshotOf 0).healthy = true) (policy : CompatibilityPolicy) :
    s.lookup ({} : KernelCompatibilityKey).finalize policy =
      (s.records 0).hitResult
        (accept .exactCompatible (str "canonical key digest matches exactly")) := by
  refine Impl.lookup_of_one ⟨⟨1, 7⟩⟩ ?_ ?_ hhealthy ?_ rfl
  · rw [hkeys, KernelCompatibilityKey.ensureFinalized_finalize]
    exact AList.lookup_insert _
  · rw [hids]
    exact AList.lookup_insert _
  · apply evaluateCompatibility_of_digest_eq
    rw [hkey]
    rfl

/-- One artifact under the default key, known as `id`, whose record is `r`. -/
structure Impl.HoldsOne (s : Impl) (id : ArtifactId) (r : ArtifactRecord) : Prop where
  record : s.records 0 = r
  byId : s.byId.lookup id = some 0
  byKey : s.byKey.lookup ({} : KernelCompatibilityKey).finalize.digest = some [id]
  free : s.statsHeld = false

theorem Impl.HoldsOne.rewrites {s s' : Impl} {id : ArtifactId} {r r' : ArtifactRecord}
    (h : s.HoldsOne id r) (hrw : s.Rewrites s' 0 r') : s'.HoldsOne id r' where
  record := hrw.record
  byId := by
    rw [hrw.index.byId]
    exact h.byId
  byKey := by
    rw [hrw.index.byKey]
    exact h.byKey
  free := hrw.free

theorem Impl.HoldsOne.lookup {s : Impl} {id : ArtifactId} {r : ArtifactRecord}
    (h : s.HoldsOne id r) (hkey : r.key = ({} : KernelCompatibilityKey).finalize)
    (hvalid : r.validated = true) (hlease : r.leasable = true) (policy : CompatibilityPolicy) :
    s.lookup ({} : KernelCompatibilityKey).finalize policy =
      r.hitResult (accept .exactCompatible (str "canonical key digest matches exactly")) := by
  have hbykey : s.byKey.lookup ({} : KernelCompatibilityKey).finalize.ensureFinalized.digest =
      some [id] := by
    rw [KernelCompatibilityKey.ensureFinalized_finalize]
    exact h.byKey
  rw [← h.record] at hkey hvalid hlease ⊢
  refine Impl.lookup_of_one id hbykey h.byId ?_ ?_ rfl
  · simp only [ArtifactRecord.leasable, Bool.and_eq_true] at hlease
    simp only [Impl.CandidateSnapshot.healthy, Impl.snapshotOf, Bool.and_eq_true]
    exact ⟨⟨hlease.1, hvalid⟩, hlease.2⟩
  · apply evaluateCompatibility_of_digest_eq
    rw [hkey, KernelCompatibilityKey.finalize_finalize]

end KernelCache
