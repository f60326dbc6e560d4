/-
# KernelCache.Poison — poison is permanent within one cache.

A record with `invalidated_` or `corrupt_` set, or in one of the dead states, is out of use for
good: whatever interleaving of operations follows, a successful re-validation, a repeated recover
and a put under the same id included.  A single step keeps the flags of a record and the id bound to it,
and so does a whole continuation (`exec_keeps`, `continues_keeps`); what is left is what a lookup or a
lease reads of the two.
-/
import KernelCache.Interleaving
import KernelCache.Lookup

namespace KernelCache

open Foundation (Runs Pool Event)

/-- The runs that continue a pool of operations. -/
abbrev Continues (env : Env) (pool : Pool Step Impl Answer) (tr : List (Event Step Impl))
    (pool' : Pool Step Impl Answer) : Prop :=
  Runs (exec env) (IsOperation env) pool tr pool'

section Continuation

variable {env : Env} {store : FilePersistenceStore} {tr tr' : List (Event Step Impl)}
  {pool pool' : Pool Step Impl Answer}

/-- The sections of a continuation are steps with proper arguments. -/
theorem continues_step (h : CacheRuns env store tr pool) (h' : Continues env pool tr' pool')
    {e : Event Step Impl} (he : e ∈ tr') :
    exec env e.label e.before = some e.after ∧ e.label.Proper :=
  ⟨h'.event_step e he, runs_proper (h.trans h') e (List.mem_append_right tr he)⟩

/-- What a continuation leaves of one record and its id: both stay, and poison stays. -/
structure Keeps (id : ArtifactId) (p : Nat) (s s' : Impl) : Prop where
  bound : s.byId.lookup id = some p → s'.byId.lookup id = some p
  next_le : s.nextRecord ≤ s'.nextRecord
  poisoned : p < s.nextRecord → (s.records p).poisoned = true → (s'.records p).poisoned = true

theorem Keeps.refl (id : ArtifactId) (p : Nat) (s : Impl) : Keeps id p s s :=
  ⟨fun h => h, le_rfl, fun _ h => h⟩

theorem Keeps.trans {id : ArtifactId} {p : Nat} {s s' s'' : Impl} (h : Keeps id p s s')
    (h' : Keeps id p s' s'') : Keeps id p s s'' :=
  ⟨fun hb => h'.bound (h.bound hb), h.next_le.trans h'.next_le,
    fun hp hr => h'.poisoned (lt_of_lt_of_le hp h.next_le) (h.poisoned hp hr)⟩

theorem exec_keeps {l : Step} {s s' : Impl} (h : exec env l s = some s') (hl : l.Proper)
    (id : ArtifactId) (p : Nat) : Keeps id p s s' := by
  have hext := exec_extends h hl
  exact ⟨hext.keeps id p, hext.next_le, fun hp hr => (exec_evolves h hl hp).poisoned hr⟩

theorem continues_keeps (h : CacheRuns env store tr pool) (h' : Continues env pool tr' pool')
    (id : ArtifactId) (p : Nat) : Keeps id p pool.shared pool'.shared := by
  refine Runs.related (Keeps.refl id p) (fun _ _ _ => Keeps.trans) h' fun e he => ?_
  obtain ⟨hstep, hproper⟩ := continues_step h h' he
  exact exec_keeps hstep hproper id p

end Continuation

/-- No lookup of a sound state names the id of a poisoned record. -/
theorem Impl.Sound.lookup_ne_of_poisoned {s : Impl} (hs : s.Sound) {id : ArtifactId} {p : Nat}
    (hb : s.byId.lookup id = some p) (hp : (s.records p).poisoned = true)
    (key : KernelCompatibilityKey) (policy : CompatibilityPolicy) :
    (s.lookup key policy).artifact ≠ some id := by
  intro h
  obtain ⟨q, hit⟩ := hs.hit h
  have hq : q = p := Option.some.inj (hit.bound.symm.trans hb)
  subst hq
  have hno := ArtifactRecord.not_leasable_of_poisoned hp
  rw [hit.leasable] at hno
  cases hno

theorem Impl.grantLease_of_poisoned (env : Env) {s : Impl} {p : Nat}
    (hp : (s.records p).poisoned = true) (pin : Bool) :
    (s.grantLease env p pin).1 =
      fail .staleArtifact (str "artifact no longer eligible at lease time") := by
  unfold Impl.grantLease
  rw [if_neg (by simp [ArtifactRecord.not_leasable_of_poisoned hp])]

/-- **Poison is permanent.** In every run of every interleaving of the public operations each section
moves each record along an edge of `kTransitions` or not at all; and once a record is poisoned, in
every state any continuation reaches, its id is still bound to it, no lookup snapshot is a hit on
that id, and `grant_lease` on it is refused. -/
theorem poison_permanent {env : Env} {store : FilePersistenceStore} {tr : List (Event Step Impl)}
    {pool : Pool Step Impl Answer} (h : CacheRuns env store tr pool) :
    (∀ e ∈ tr, ∀ p < e.before.nextRecord,
      (e.after.records p).state = (e.before.records p).state ∨
        canTransition (e.before.records p).state (e.after.records p).state = true) ∧
    ∀ p < pool.shared.nextRecord, (pool.shared.records p).poisoned = true →
      ∀ tr' pool', Continues env pool tr' pool' →
        pool'.shared.byId.lookup (pool.shared.records p).id = some p ∧
        (∀ key policy,
          (pool'.shared.lookup key policy).artifact ≠ some (pool.shared.records p).id) ∧
        ∀ pin, (pool'.shared.grantLease env p pin).1 =
          fail .staleArtifact (str "artifact no longer eligible at lease time") := by
  refine ⟨fun e he p hp => ?_, fun p hp hpoison tr' pool' h' => ?_⟩
  · rcases (exec_evolves (h.event_step e he) (runs_proper h e he) hp).state_eq_or with heq | hmove
    · exact .inl heq
    · exact .inr hmove.1
  · have hkeeps := continues_keeps h h' (pool.shared.records p).id p
    have hsound : pool'.shared.Sound := (runs_sound (h.trans h')).2
    have hbound := hkeeps.bound ((runs_sound h).2.indexed p hp)
    have hpoison' := hkeeps.poisoned hp hpoison
    exact ⟨hbound, hsound.lookup_ne_of_poisoned hbound hpoison',
      Impl.grantLease_of_poisoned env hpoison'⟩

/-- One artifact put, then everything invalidated. -/
theorem poison_permanent_invalidated : ∃ tr pool, CacheRuns {} {} tr pool ∧
    (pool.shared.records 0).poisoned = true ∧ pool.shared.byId.lookup ⟨⟨0, 7⟩⟩ = some 0 ∧
    ∀ key policy, (pool.shared.lookup key policy).artifact ≠ some ⟨⟨0, 7⟩⟩ := by
  have hplay : ∃ tr pool, play {} {} [.start (.put { id := ⟨⟨0, 7⟩⟩ } [1]), .step 0,
        .start (.invalidate { target := .all }), .step 1] = some (tr, pool) ∧
      0 < pool.shared.nextRecord ∧ (pool.shared.records 0).poisoned = true ∧
      (pool.shared.records 0).id = ⟨⟨0, 7⟩⟩ :=
    ⟨_, _, rfl, by decide, by rfl, by rfl⟩
  obtain ⟨tr, pool, hplay, hp, hpoison, hid⟩ := hplay
  have hruns := CacheRuns.of_play hplay
  obtain ⟨hbound, hmiss, -⟩ := (poison_permanent hruns).2 0 hp hpoison [] pool .refl
  rw [hid] at hbound hmiss
  exact ⟨tr, pool, hruns, hpoison, hbound, hmiss⟩

end KernelCache
