/-
# KernelCache.BuildTable — what the cache of a worker process comes down to.

A worker acquires what it is asked for into host memory, reads the id off the lease, and releases.
Nothing is ever invalidated, evicted or persisted there, so behind a chain of lookups, fences, builds,
promotions and leases there is a table: the answer given under each digest, and the number of the next
build.  `BuildTable.Asked` is one request to the table; `Impl.Remembers` says when a cache stands for
it, and one acquire and release of the cache is one request to the table (`acquireOnce_table`).

Numbers are handed out in order, so within one worker an id names one digest: the table is injective
(`BuildTable.Numbered`), and so is what the worker tells its coordinator (`worker_ids`), as long as the
counter has not wrapped around.  Every entry is a build of the worker's own (`take_table`), and a request
for a new key is answered under the next number (`take_new`).
-/
import KernelCache.Worker
import KernelCache.CpuBackend
import KernelCache.SlotRelease
import KernelCache.Generations

namespace KernelCache

open Foundation (Bytes Prog)
open Foundation.Prog (sect perform Free)

/-! ## The table -/

/-- The answers by digest, and the number of the next build. -/
structure BuildTable where
  built : Sha256Digest → Option (ArtifactId × ArtifactGeneration) := fun _ => none
  next : ArtifactGeneration := 0

namespace BuildTable

/-- The table after a build of these bytes. -/
def add (t : BuildTable) (d : Sha256Digest) (bytes : Bytes) : BuildTable where
  built := Function.update t.built d (some (deriveId bytes t.next, t.next))
  next := t.next + 1

/-- One request for the artifact of a digest: it is known, it is built, or its validation fails. -/
inductive Asked (d : Sha256Digest) (bytes : Bytes) (t : BuildTable) :
    Option (ArtifactId × ArtifactGeneration) → BuildTable → Prop
  | known {out} (h : t.built d = some out) : Asked d bytes t (some out) t
  | made (h : t.built d = none) :
      Asked d bytes t (some (deriveId bytes t.next, t.next)) (t.add d bytes)
  | refused (h : t.built d = none) : Asked d bytes t none { t with next := t.next + 1 }

/-- An answer names a build that was made, and one digest. -/
structure Numbered (t : BuildTable) : Prop where
  below : ∀ {d out}, t.built d = some out → out.2 < t.next ∧ out.1.toStrongId128.hi = out.2
  injective : ∀ {d d' out out'}, t.built d = some out → t.built d' = some out' →
    out.2 = out'.2 → d = d'

theorem empty_numbered : ({} : BuildTable).Numbered := by
  refine ⟨fun h => ?_, fun h => ?_⟩
  · cases h
  · cases h

/-- What was answered stays answered. -/
def Extends (t t' : BuildTable) : Prop := ∀ d out, t.built d = some out → t'.built d = some out

variable {d : Sha256Digest} {bytes : Bytes} {t t' : BuildTable}
  {res : Option (ArtifactId × ArtifactGeneration)}

theorem Asked.next_le (h : Asked d bytes t res t') : t'.next = t.next ∨ t'.next = t.next + 1 := by
  cases h with
  | known => exact .inl rfl
  | made => exact .inr rfl
  | refused => exact .inr rfl

theorem Asked.extends (h : Asked d bytes t res t') : t.Extends t' := by
  intro d' out hout
  cases h with
  | known => exact hout
  | refused => exact hout
  | made hnone =>
    have hne : d' ≠ d := by
      rintro rfl
      rw [hnone] at hout
      cases hout
    exact (Function.update_of_ne hne _ _).trans hout

/-- The answer is in the table. -/
theorem Asked.answered {out : ArtifactId × ArtifactGeneration}
    (h : Asked d bytes t (some out) t') : t'.built d = some out := by
  cases h with
  | known hknown => exact hknown
  | made => exact Function.update_self ..

/-- An entry is an old one, or that of the build that was just made. -/
theorem Asked.entries {d' : Sha256Digest} {out : ArtifactId × ArtifactGeneration}
    (h : Asked d bytes t res t') (hout : t'.built d' = some out) :
    t.built d' = some out ∨
      (d' = d ∧ t.built d = none ∧ out = (deriveId bytes t.next, t.next)) := by
  cases h with
  | known => exact .inl hout
  | refused => exact .inl hout
  | made hnone =>
    by_cases hd : d' = d
    · subst hd
      have hself : (t.add d' bytes).built d' = some (deriveId bytes t.next, t.next) :=
        Function.update_self ..
      rw [hself] at hout
      exact .inr ⟨rfl, hnone, (Option.some.inj hout).symm⟩
    · have hold : (t.add d bytes).built d' = t.built d' := Function.update_of_ne hd ..
      rw [hold] at hout
      exact .inl hout

theorem Asked.numbered (h : Asked d bytes t res t') (hwrap : t.next < t.next + 1)
    (ht : t.Numbered) : t'.Numbered := by
  have hentries : ∀ {d' out}, t'.built d' = some out → _ := fun hout => h.entries hout
  cases h with
  | known => exact ht
  | refused =>
    refine ⟨fun hout => ?_, ht.injective⟩
    obtain ⟨hlt, hhi⟩ := ht.below hout
    exact ⟨UInt64.lt_trans hlt hwrap, hhi⟩
  | made hnone =>
    -- a new entry has the number no old entry has
    refine ⟨fun hout => ?_, fun hout hout' hnum => ?_⟩
    · rcases hentries hout with hold | ⟨-, -, rfl⟩
      · obtain ⟨hlt, hhi⟩ := ht.below hold
        exact ⟨UInt64.lt_trans hlt hwrap, hhi⟩
      · exact ⟨hwrap, rfl⟩
    · rcases hentries hout with hold | ⟨rfl, -, rfl⟩ <;>
        rcases hentries hout' with hold' | ⟨rfl, -, rfl⟩
      · exact ht.injective hold hold' hnum
      · have hlt := (ht.below hold).1
        rw [hnum] at hlt
        exact absurd hlt (UInt64.lt_irrefl _)
      · have hlt := (ht.below hold').1
        rw [← hnum] at hlt
        exact absurd hlt (UInt64.lt_irrefl _)
      · rfl

end BuildTable

/-! ## The cache that stands for a table -/

/-- What a repeated request finds: a healthy record in host memory, under a finalized key. -/
structure ArtifactRecord.Ready (r : ArtifactRecord) : Prop where
  validated : r.validated = true
  leasable : r.leasable = true
  tier : r.tier = .hostResident
  key : r.key.finalize = r.key

/-- The record is the answer under the digest. -/
def ArtifactRecord.Answers (r : ArtifactRecord) (d : Sha256Digest)
    (out : ArtifactId × ArtifactGeneration) : Prop :=
  r.key.digest = d ∧ (r.id, r.generation) = out

/-- A cache between two requests to a worker, and the table it stands for. -/
structure Impl.Remembers (s : Impl) (t : BuildTable) : Prop where
  sound : s.Sound
  indexed : s.Indexed
  free : s.statsHeld = false
  fences : s.FencesIdle
  idle : ∀ d, s.inFlight.lookup d = none
  next : s.nextGeneration = t.next
  ready : ∀ p < s.nextRecord, (s.records p).Ready
  built : ∀ d out, t.built d = some out ↔ ∃ p < s.nextRecord, (s.records p).Answers d out

theorem Impl.initial_remembers : (Impl.initial {}).Remembers {} where
  sound := Impl.initial_sound {}
  indexed := Impl.initial_indexed {}
  free := rfl
  fences := Impl.initial_fencesIdle {}
  idle d := AList.lookup_empty d
  next := rfl
  ready p hp := absurd hp (Nat.not_lt_zero p)
  built d out := by
    refine iff_of_false (by simp) ?_
    rintro ⟨p, hp, -⟩
    exact absurd hp (Nat.not_lt_zero p)

/-- A lease and its release leave a ready record ready, and what it answers. -/
theorem ArtifactRecord.Ready.borrowed {r : ArtifactRecord} (h : r.Ready) (now : UInt64) :
    (r.leased now false).released.Ready ∧
      ∀ d out, (r.leased now false).released.Answers d out ↔ r.Answers d out := by
  obtain ⟨hvalid, hlease, htier, hkey⟩ := h
  simp only [ArtifactRecord.leasable, Bool.and_eq_true, Bool.not_eq_true'] at hlease
  obtain ⟨⟨hinv, hcor⟩, helig⟩ := hlease
  refine ⟨⟨hvalid, ?_, htier, hkey⟩, fun d out => Iff.rfl⟩
  simp only [ArtifactRecord.leasable, released, leased, hinv, hcor, Bool.or_false, Bool.and_false,
    Bool.false_eq_true, if_false, Bool.not_false, Bool.true_and]
  revert helig
  cases r.state <;> decide

namespace Impl

/-- Rewriting one ready record into another that answers the same changes nothing in the table. -/
theorem Remembers.rewrites {s s' : Impl} {t : BuildTable} (hs : s.Remembers t) {p : Nat}
    {r : ArtifactRecord} (hrw : s.Rewrites s' p r) (hsound : s'.Sound) (hindexed : s'.Indexed)
    (hfences : s.SameFences s') (hready : r.Ready)
    (hsame : ∀ d out, r.Answers d out ↔ (s.records p).Answers d out) : s'.Remembers t where
  sound := hsound
  indexed := hindexed
  free := hrw.free
  fences := hfences.idle hs.fences
  idle d := by
    rw [hfences.inFlight]
    exact hs.idle d
  next := by
    rw [hfences.nextGeneration]
    exact hs.next
  ready q hq := by
    rw [hrw.index.nextRecord] at hq
    by_cases hqp : q = p
    · rw [hqp, hrw.record]
      exact hready
    · rw [hrw.others q hqp]
      exact hs.ready q hq
  built d out := by
    rw [hs.built, hrw.index.nextRecord]
    refine exists_congr fun q => and_congr_right fun _ => ?_
    by_cases hqp : q = p
    · rw [hqp, hrw.record]
      exact (hsame d out).symm
    · rw [hrw.others q hqp]

end Impl

/-! ## One request -/

section Request

variable {env : Env} {s : Impl} {t : BuildTable} {q : DistBuildRequest}
  {k : KernelCompatibilityKey}

theorem acquireOnce_proper (env : Env) (request : KernelLookupRequest) :
    ProperProg env (Worker.acquireOnce env request) := by
  unfold Worker.acquireOnce
  refine Free.bind (acquireImpl_free (covers_proper env) (coversBuilds_proper env)
    (coversFences_proper env) (evictsFree_of_covers fun _ _ _ _ _ hl _ _ => hl)
    (coversJoin_proper env _)) fun lease => ?_
  cases lease with
  | error e => exact Free.ret _
  | ok n =>
    refine Free.bind (Free.sect fun _ _ _ _ => trivial) fun out => ?_
    refine Free.bind ((covers_proper env).walk.releaseLease trivial n) fun _ => ?_
    exact Free.ret _

/-- A run of a proper program keeps the secondary indices. -/
theorem run_indexed {α : Type} {p : Op α} {s' : Impl} {a : α} (hp : ProperProg env p)
    (h : p.run (exec env) s = some (a, s')) : s.Indexed → s'.Indexed :=
  run_related_of_proper (R := fun s s' : Impl => s.Indexed → s'.Indexed) (fun _ h => h)
    (fun _ _ _ h h' hs => h' (h hs)) (fun _ _ _ h hl hs => exec_indexed h hl hs) hp h

/-- A lease that was granted is read and released. -/
theorem acquireOnce_run_of_leased {request : KernelLookupRequest} {s₁ : Impl} {n p : Nat}
    (h : (acquireImpl env request).run (exec env) s = some (.ok n, s₁))
    (hrecord : (s₁.leases n).record = p) (hheld : (s₁.leases n).released = false)
    (hfree : s₁.statsHeld = false) :
    ∃ s', (Worker.acquireOnce env request).run (exec env) s =
        some (.ok ((s₁.records p).id, (s₁.leases n).genValue), s') ∧
      s₁.Rewrites s' p (s₁.records p).released ∧ s₁.SameFences s' := by
  have htail : ∃ s', (do
      let out ← sect (.readLease n) fun s : Impl =>
        ((s.records (s.leases n).record).id, (s.leases n).genValue)
      releaseLease n
      return .ok out : Op (Result (ArtifactId × ArtifactGeneration))).run (exec env) s₁ =
        some (.ok ((s₁.records p).id, (s₁.leases n).genValue), s') ∧
      s₁.Rewrites s' p (s₁.records p).released ∧ s₁.SameFences s' := by
    simp only [releaseLease, Prog.bind_eq, sect, perform, Prog.bind, Prog.run, exec, Step.ready,
      Step.effect, Impl.exchangeReleased, hfree, hheld, hrecord, if_true, if_false, Bool.not_false,
      Bool.false_eq_true, Prog.pure_eq]
    have hrw := Impl.rewrites_modify p ArtifactRecord.released hfree
    exact ⟨_, rfl, ⟨hrw.record, hrw.others, ⟨rfl, rfl, rfl, rfl⟩, rfl, rfl⟩, rfl, rfl, rfl, rfl⟩
  obtain ⟨s', hrun, hrest⟩ := htail
  refine ⟨s', ?_, hrest⟩
  unfold Worker.acquireOnce
  rw [Prog.bind_eq, Prog.run_of_bind]
  exact ⟨_, _, h, hrun⟩

/-- A refused acquire is passed on. -/
theorem acquireOnce_run_of_failed {request : KernelLookupRequest} {s' : Impl} {e : Failure}
    (h : (acquireImpl env request).run (exec env) s = some (.error e, s')) :
    (Worker.acquireOnce env request).run (exec env) s = some (.error e, s') := by
  unfold Worker.acquireOnce
  rw [Prog.bind_eq, Prog.run_of_bind]
  exact ⟨_, _, h, rfl⟩

/-- A record that is in host memory is not promoted there. -/
theorem promoteToHost_traced_resident (env : Env) (i : Nat) {p : Nat} (device : DeviceDescriptor)
    (htier : (s.records p).tier = .hostResident) :
    ∃ tr, (promoteToTier env p .hostResident device).traced (exec env) i s =
      some (tr, .ok (), { s with tick := s.tick + 1 }) := by
  have hwanted : (ResidencyTier.hostResident == ResidencyTier.none) = false := rfl
  have hrank : ResidencyTier.hostResident.rank ≤ (s.records p).tier.rank := by rw [htier]
  simp only [promoteToTier, hwanted, Prog.bind_eq, sect, Prog.bind, Prog.traced, exec, Step.ready,
    Step.effect, if_true, hrank, Bool.false_eq_true, if_false, Prog.pure_eq]
  exact ⟨_, rfl⟩

/-- A lookup of a worker hits exactly when the table knows the digest, and then finds a record that
answers as the table does. -/
theorem Impl.Remembers.lookup (hs : s.Remembers t) (hfin : k.finalize = k) :
    (t.built k.digest = none → (s.lookup k {}).outcome.isHit = false) ∧
    ∀ out, t.built k.digest = some out → (s.lookup k {}).outcome.isHit = true ∧
      ∃ p < s.nextRecord, (s.lookup k {}).artifact = some out.1 ∧
        s.byId.lookup out.1 = some p ∧ (s.records p).Answers k.digest out := by
  have hiff := Impl.lookup_iff hs.sound hs.indexed k {}
  rw [hfin] at hiff
  -- the default policy serves only what has the digest
  have hexact : ∀ p < s.nextRecord, s.Serves k {} p → (s.records p).key.digest = k.digest := by
    intro p hp hserves
    have hdigest := exact_of_strict rfl rfl hserves.2
    rw [hfin, (hs.ready p hp).key] at hdigest
    exact hdigest.symm
  have hanswers : ∀ p < s.nextRecord, (s.records p).key.digest = k.digest →
      t.built k.digest = some ((s.records p).id, (s.records p).generation) :=
    fun p hp hdigest => (hs.built _ _).mpr ⟨p, hp, hdigest, rfl⟩
  refine ⟨fun hnone => ?_, fun out hout => ?_⟩
  · by_contra hhit
    obtain ⟨p, hconsults, hserves⟩ := hiff.1.mp (by simpa using hhit)
    rw [hanswers p hconsults.1 (hexact p hconsults.1 hserves)] at hnone
    cases hnone
  · obtain ⟨p, hp, hdigest, -⟩ := (hs.built _ _).mp hout
    have hready := hs.ready p hp
    have hhealthy : (s.snapshotOf p).healthy = true := by
      have hlease := hready.leasable
      simp only [ArtifactRecord.leasable, Bool.and_eq_true] at hlease
      simp only [Impl.CandidateSnapshot.healthy, Impl.snapshotOf, Bool.and_eq_true]
      exact ⟨⟨hlease.1, hready.validated⟩, hlease.2⟩
    have hserves : s.Serves k {} p := by
      refine Impl.serves_of_exact {} ?_ hhealthy
      rw [hready.key, hfin]
      exact hdigest
    have hhit := hiff.1.mpr ⟨p, ⟨hp, .inl hdigest⟩, hserves⟩
    obtain ⟨id, hid⟩ := Impl.lookup_isHit.mp hhit
    obtain ⟨p', hbound, hconsults, hserves', -⟩ := hiff.2 id hid
    have hdigest' := hexact p' hconsults.1 hserves'
    have hsame := hanswers p' hconsults.1 hdigest'
    rw [hout] at hsame
    obtain rfl := Option.some.inj hsame
    have hid' : (s.records p').id = id := (hs.sound.bound id p' hbound).2
    refine ⟨hhit, p', hconsults.1, ?_, ?_, hdigest', rfl⟩
    · rw [hid, hid']
    · rw [hid']
      exact hbound

/-- What a lease granted on a hit says, and that no build was touched. -/
theorem acquireImpl_run_hit {request : KernelLookupRequest} {s' : Impl} {lease p : Nat}
    {id : ArtifactId} (hs : s.Sound)
    (hhit : (s.lookup request.key.finalize request.policy).outcome.isHit = true)
    (hart : (s.lookup request.key.finalize request.policy).artifact = some id)
    (hbound : s.byId.lookup id = some p)
    (h : (acquireImpl env request).run (exec env) s = some (.ok lease, s')) :
    (s'.leases lease).genValue = (s.records p).generation ∧ s.SameFences s' := by
  rcases acquireImpl_run h with ⟨-, hres, -⟩ | ⟨-, -, hdecided⟩
  · cases hres
  have hsound : (s.lookedUp (s.lookup request.key.finalize request.policy)).Sound :=
    ⟨hs.bound, hs.indexed, hs.visited⟩
  cases acquireDecided_run hdecided with
  | hit _ hlease =>
    rw [hart] at hlease
    obtain ⟨p', hbound', -, -, hgen, -⟩ := leaseRecord_run hsound hlease
    obtain rfl : p' = p := Option.some.inj (hbound'.symm.trans hbound)
    have hfences := leaseRecord_sameFences hlease
    exact ⟨hgen, hfences.inFlight, hfences.fences, hfences.nextFence, hfences.nextGeneration⟩
  | failed hmiss => exact absurd hhit (by simp [hmiss])
  | built hmiss => exact absurd hhit (by simp [hmiss])
  | missed hmiss => exact absurd hhit (by simp [hmiss])

/-- **A repeated request** is answered from the table, and changes nothing in it. -/
theorem Impl.Remembers.repeated (hs : s.Remembers t) (env : Env) (q : DistBuildRequest)
    (hkey : k.wellFormed = true) (hfin : k.finalize = k) {out : ArtifactId × ArtifactGeneration}
    (hout : t.built k.digest = some out) :
    ∃ s', (Worker.acquireOnce env (Worker.buildRequest q k)).run (exec env) s =
      some (.ok out, s') ∧ s'.Remembers t := by
  obtain ⟨hhit, p, hp, hart, hbound, hanswers⟩ := (hs.lookup hfin).2 out hout
  have hready := hs.ready p hp
  have hlookup : s.lookup (Worker.buildRequest q k).key.finalize (Worker.buildRequest q k).policy =
      s.lookup k {} := congrArg (fun key => s.lookup key {}) hfin
  obtain ⟨tr₁, hpromote⟩ := promoteToHost_traced_resident env 0 (p := p)
    (s := { s.lookedUp (s.lookup k {}) with tick := s.tick + 4 }) (Worker.buildRequest q k).device
    hready.tier
  have hrw₁ : s.Rewrites { s.lookedUp (s.lookup k {}) with tick := s.tick + 4 + 1 } p (s.records p) :=
    ⟨rfl, fun _ _ => rfl, ⟨rfl, rfl, rfl, rfl⟩, hs.free, rfl⟩
  obtain ⟨tr, lease, s₁, now, hacquire, hrw, hrecord, hheld⟩ :=
    acquireImpl_traced_promoted env 0 (Worker.buildRequest q k) hkey hs.free hlookup hhit hart hbound
      hpromote hrw₁ hready.leasable
  have hacquired : (acquireImpl env (Worker.buildRequest q k)).run (exec env) s =
      some (.ok lease, s₁) := by
    rw [Prog.run_eq_traced 0, hacquire]
    rfl
  rw [← hlookup] at hhit hart
  obtain ⟨hgen, hfences⟩ := acquireImpl_run_hit hs.sound hhit hart hbound hacquired
  obtain ⟨s', hrun, hrw', hfences'⟩ :=
    acquireOnce_run_of_leased hacquired hrecord hheld hrw.free
  have hall := hrw.trans hrw'
  rw [hrw.record] at hall
  have hanswer : ((s₁.records p).id, (s₁.leases lease).genValue) = out := by
    rw [hgen, hrw.record]
    exact hanswers.2
  rw [hanswer] at hrun
  obtain ⟨hready', hsame⟩ := hready.borrowed now
  refine ⟨s', hrun, hs.rewrites hall ?_ ?_ (hfences.trans hfences') hready' hsame⟩
  · exact (run_carries (acquireOnce_proper env _) hrun).sound hs.sound
  · exact run_indexed (acquireOnce_proper env _) hrun hs.indexed

/-- One record was filed, at the end, and no build is left in flight. -/
structure Impl.Appends (s s' : Impl) (r : ArtifactRecord) : Prop where
  count : s'.nextRecord = s.nextRecord + 1
  old : ∀ p < s.nextRecord, s'.records p = s.records p
  new : s'.records s.nextRecord = r
  bound : s'.byId.lookup r.id = some s.nextRecord
  sound : s'.Sound
  free : s'.statsHeld = false
  fences : s'.FencesIdle
  idle : ∀ d, s'.inFlight.lookup d = none
  counter : s'.nextGeneration = s.nextGeneration + 1

/-- What happens to the new record afterwards leaves it filed. -/
theorem Impl.Appends.rewrites {s' s'' : Impl} {r r' : ArtifactRecord} (h : s.Appends s' r)
    (hrw : s'.Rewrites s'' s.nextRecord r') (hid : r'.id = r.id) (hsound : s''.Sound)
    (hfences : s'.SameFences s'') : s.Appends s'' r' where
  count := hrw.index.nextRecord.trans h.count
  old p hp := (hrw.others p (Nat.ne_of_lt hp)).trans (h.old p hp)
  new := hrw.record
  bound := by
    rw [hrw.index.byId, hid]
    exact h.bound
  sound := hsound
  free := hrw.free
  fences := hfences.idle h.fences
  idle d := by
    rw [hfences.inFlight]
    exact h.idle d
  counter := hfences.nextGeneration.trans h.counter

/-- A ready record, filed for a digest that was not in the table, is the table's next entry. -/
theorem Impl.Remembers.filed (hs : s.Remembers t) {s' : Impl} {r : ArtifactRecord} {d : Sha256Digest}
    {bytes : Bytes} (hnone : t.built d = none) (h : s.Appends s' r) (hindexed : s'.Indexed)
    (hready : r.Ready) (hr : r.Answers d (deriveId bytes t.next, t.next)) :
    s'.Remembers (t.add d bytes) where
  sound := h.sound
  indexed := hindexed
  free := h.free
  fences := h.fences
  idle := h.idle
  next := by
    rw [h.counter, hs.next]
    rfl
  ready p hp := by
    rcases Nat.lt_succ_iff_lt_or_eq.mp (h.count ▸ hp) with hlt | rfl
    · rw [h.old p hlt]
      exact hs.ready p hlt
    · rw [h.new]
      exact hready
  built d' out := by
    have hothers : ∀ p < s.nextRecord, (s.records p).key.digest ≠ d := by
      intro p hp heq
      have hknown := (hs.built d _).mpr ⟨p, hp, heq, rfl⟩
      rw [hnone] at hknown
      cases hknown
    rw [h.count]
    by_cases hd : d' = d
    · subst hd
      have hself : (t.add d' bytes).built d' = some (deriveId bytes t.next, t.next) :=
        Function.update_self ..
      rw [hself, Option.some.injEq, ← hr.2]
      constructor
      · rintro rfl
        refine ⟨s.nextRecord, Nat.lt_succ_self _, ?_⟩
        rw [h.new]
        exact ⟨hr.1, rfl⟩
      · rintro ⟨p, hp, hanswers⟩
        rcases Nat.lt_succ_iff_lt_or_eq.mp hp with hlt | rfl
        · rw [h.old p hlt] at hanswers
          exact absurd hanswers.1 (hothers p hlt)
        · rw [h.new] at hanswers
          exact hanswers.2
    · have hother : (t.add d bytes).built d' = t.built d' := Function.update_of_ne hd ..
      rw [hother, hs.built]
      constructor
      · rintro ⟨p, hp, hanswers⟩
        refine ⟨p, Nat.lt_succ_of_lt hp, ?_⟩
        rw [h.old p hp]
        exact hanswers
      · rintro ⟨p, hp, hanswers⟩
        rcases Nat.lt_succ_iff_lt_or_eq.mp hp with hlt | rfl
        · rw [h.old p hlt] at hanswers
          exact ⟨p, hlt, hanswers⟩
        · rw [h.new] at hanswers
          exact absurd (hanswers.1.symm.trans hr.1) hd

/-- A fresh number is in no id of the table. -/
theorem Impl.Remembers.unbound (hs : s.Remembers t) (ht : t.Numbered) {id : ArtifactId}
    (hid : id.toStrongId128.hi = t.next) : s.byId.lookup id = none := by
  cases hbound : s.byId.lookup id with
  | none => rfl
  | some p =>
    obtain ⟨hp, hrecord⟩ := hs.sound.bound id p hbound
    obtain ⟨hlt, hhi⟩ := ht.below ((hs.built (s.records p).key.digest _).mpr ⟨p, hp, rfl, rfl⟩)
    dsimp only at hlt hhi
    rw [hrecord, hid] at hhi
    rw [← hhi] at hlt
    exact absurd hlt (UInt64.lt_irrefl _)

/-- The fences after a build that came to an outcome, when nothing else is built. -/
theorem Builds.settled {request : KernelLookupRequest} {s' : Impl} {res : Result ArtifactDescriptor}
    {o : Outcome} (h : Builds env request s res s')
    (hout : runBuild env (s.tick + 1) (buildRequestOf env request) s.nextGeneration = .ok o)
    (hidle : ∀ d, s.inFlight.lookup d = none) :
    (∀ d, s'.inFlight.lookup d = none) ∧ s'.nextGeneration = s.nextGeneration + 1 := by
  have hbuilt : ∀ o st t d, (s.built (buildDigest env request) o st t).inFlight.lookup d = none := by
    intro o st t d
    by_cases hd : d = buildDigest env request
    · rw [hd]
      exact AList.lookup_erase _ _
    · exact (AList.lookup_erase_ne hd).trans ((AList.lookup_insert_ne hd).trans (hidle d))
  rcases h.outcome with ⟨e, st, t, hrun, -, -⟩ | ⟨o', st, t, -, ⟨-, -, htick⟩ | ⟨-, -, hpub⟩⟩
  · rw [hout] at hrun
    cases hrun
  · obtain ⟨st', t', rfl⟩ := htick
    exact ⟨hbuilt o' st t, rfl⟩
  · refine ⟨fun d => ?_, ?_⟩
    · rw [hpub.sameFences.inFlight]
      exact hbuilt o' st t d
    · rw [hpub.sameFences.nextGeneration]
      rfl

/-- The request of a worker to its cache, once its key is finalized. -/
theorem finalized_buildRequest (hfin : k.finalize = k) :
    ({ Worker.buildRequest q k with key := (Worker.buildRequest q k).key.finalize } :
      KernelLookupRequest) = Worker.buildRequest q k := by
  have hkey : (Worker.buildRequest q k).key.finalize = (Worker.buildRequest q k).key := hfin
  rw [hkey]

/-- The record of a build, as it is filed. -/
structure ArtifactRecord.New (r : ArtifactRecord) (k : KernelCompatibilityKey) (o : Outcome) :
    Prop where
  key : r.key = k
  id : r.id = o.desc.id
  generation : r.generation = o.desc.generation
  bytes : r.bytes = o.bytes
  state : r.state = .valid
  tier : r.tier = .metadataOnly
  validated : r.validated = o.desc.validation.allPassed
  invalidated : r.invalidated = false
  corrupt : r.corrupt = false

theorem ArtifactRecord.new_of_made (now : UInt64) (k : KernelCompatibilityKey) (o : Outcome) :
    ({ makeRecord now o.desc o.bytes with key := k } : ArtifactRecord).New k o :=
  ⟨rfl, rfl, rfl, rfl, rfl, rfl, rfl, rfl, rfl⟩

/-- It can be leased once it is in host memory. -/
theorem ArtifactRecord.New.leasable {r : ArtifactRecord} {o : Outcome} (h : r.New k o) :
    r.promoteHost.leasable = true := by
  simp only [ArtifactRecord.leasable, promoteHost, h.state, h.invalidated, h.corrupt]
  decide

/-- Promoted, leased and released, it is ready. -/
theorem ArtifactRecord.New.ready {r : ArtifactRecord} {o : Outcome} (h : r.New k o)
    (hfin : k.finalize = k) (hvalid : o.desc.validation.allPassed = true) (now : UInt64) :
    (r.promoteHost.leased now false).released.Ready := by
  have hready : r.promoteHost.Ready := by
    refine ⟨h.validated.trans hvalid, h.leasable, rfl, ?_⟩
    show r.key.finalize = r.key
    rw [h.key, hfin]
  exact (hready.borrowed now).1

/-- A build for a new request files its record. -/
theorem Impl.Remembers.appends (hs : s.Remembers t) (ht : t.Numbered) (hfin : k.finalize = k)
    (hclosed : env.cfg.persistenceOpen = false) {o : Outcome}
    (hout : runBuild env (s.tick + 4) (buildRequestOf env (Worker.buildRequest q k)) t.next = .ok o)
    (hok : o.succeeded = true) :
    ∃ s' r, (buildImpl env (Worker.buildRequest q k)).run (exec env) (s.lookedUp (s.lookup k {})) =
        some (.ok o.desc, s') ∧ s.Appends s' r ∧ r.New k o := by
  have hmade := runBuild_built hout hok
  have hkey : o.desc.key.ensureFinalized = k := by
    have hdesc : o.desc.key = k.finalize.finalize := hmade.desc_key
    rw [hdesc, KernelCompatibilityKey.ensureFinalized_finalize, hfin, hfin]
  have hnew : s.byId.lookup o.id = none := hs.unbound ht (by rw [hmade.id_eq]; rfl)
  have hfences : (s.lookedUp (s.lookup k {})).FencesIdle := ⟨hs.fences.waiting, hs.fences.fresh⟩
  have hsound : (s.lookedUp (s.lookup k {})).Sound :=
    ⟨hs.sound.bound, hs.sound.indexed, hs.sound.visited⟩
  have hout' : runBuild env ((s.lookedUp (s.lookup k {})).tick + 1)
      (buildRequestOf env (Worker.buildRequest q k)) (s.lookedUp (s.lookup k {})).nextGeneration =
        .ok o := by
    rw [← hs.next] at hout
    exact hout
  obtain ⟨tr, s', hbuilt, -, -, -, s₁, hindex, hrecords, hfree, -, -, tick, hs'⟩ :=
    buildImpl_traced_of_new (Worker.buildRequest q k) 0 (s := s.lookedUp (s.lookup k {})) hs.free
      hfences (hs.idle _) hout' hok hnew hclosed
  have hbuild : (buildImpl env (Worker.buildRequest q k)).run (exec env)
      (s.lookedUp (s.lookup k {})) = some (.ok o.desc, s') := by
    rw [Prog.run_eq_traced 0, hbuilt]
    rfl
  have hbuilds := buildImpl_run hfences hbuild
  obtain ⟨hidle, hcounter⟩ := hbuilds.settled hout' hs.idle
  have hcount : s₁.nextRecord = s.nextRecord := hindex.nextRecord
  refine ⟨s', _, hbuild, ⟨?_, fun p hp => ?_, ?_, ?_, ?_, ?_, ?_, hidle, hcounter⟩,
    ArtifactRecord.new_of_made (env.now s₁.tick) k o⟩
  · rw [hs', ← hcount]
    rfl
  · rw [hs']
    exact (Function.update_of_ne (by omega) _ _).trans (congrFun hrecords p)
  · rw [hs', ← hcount, ← hkey]
    exact Function.update_self ..
  · rw [hs', ← hcount]
    exact AList.lookup_insert _
  · refine (run_carries ?_ hbuild).sound hsound
    exact buildImpl_free (covers_proper env) (coversBuilds_proper env) (coversFences_proper env)
      (coversJoin_proper env _)
  · rw [hs']
    exact hfree
  · exact hbuilds.fencesIdle hfences

/-- **A new request that is built** is filed under its digest. -/
theorem Impl.Remembers.made (hs : s.Remembers t) (ht : t.Numbered) (hkey : k.wellFormed = true)
    (hfin : k.finalize = k) (hclosed : env.cfg.persistenceOpen = false)
    (hnone : t.built k.digest = none) {o : Outcome}
    (hout : runBuild env (s.tick + 4) (buildRequestOf env (Worker.buildRequest q k)) t.next = .ok o)
    (hok : o.succeeded = true) (hbytes : o.bytes ≠ []) :
    ∃ s', (Worker.acquireOnce env (Worker.buildRequest q k)).run (exec env) s =
      some (.ok (deriveId o.bytes t.next, t.next), s') ∧ s'.Remembers (t.add k.digest o.bytes) := by
  have hmade := runBuild_built hout hok
  have hid : o.desc.id = deriveId o.bytes t.next := hmade.desc_id.trans hmade.id_eq
  have hlookup : s.lookup (Worker.buildRequest q k).key.finalize (Worker.buildRequest q k).policy =
      s.lookup k {} := congrArg (fun key => s.lookup key {}) hfin
  obtain ⟨s₂, r, hbuild, hfiles, hnew⟩ := hs.appends ht hfin hclosed hout hok
  -- the new record is promoted and leased
  obtain ⟨tr₁, s₃, hpromote, hrw₁, -⟩ := promoteToHost_traced env 0
    (s := { s₂ with tick := s₂.tick + 1 }) (p := s.nextRecord) (Worker.buildRequest q k).device
    hfiles.free (by rw [hfiles.new, hnew.bytes]; exact hbytes)
    (by rw [hfiles.new, hnew.tier]; decide)
  have hrec₁ : s₃.records s.nextRecord = r.promoteHost := hrw₁.record.trans
    (congrArg ArtifactRecord.promoteHost hfiles.new)
  obtain ⟨tr₂, s₄, hlease, -, hrw₂, hrecord, hheld⟩ := leaseRecord_traced env 0
    (Worker.buildRequest q k) (str "built artifact vanished") hfiles.bound hpromote hrw₁.free
    (by rw [hrec₁]; exact hnew.leasable)
  rw [hnew.id] at hlease
  have hbound : s₂.byId.lookup o.desc.id = some s.nextRecord := hnew.id ▸ hfiles.bound
  have hleased : (leaseRecord env (Worker.buildRequest q k) o.desc.id
      (str "built artifact vanished")).run (exec env) s₂ = some (.ok s₃.nextLease, s₄) := by
    rw [Prog.run_eq_traced 0, hlease]
    rfl
  have hgen : (s₄.leases s₃.nextLease).genValue = t.next := by
    obtain ⟨p, hp, -, -, hgen, -⟩ := leaseRecord_run hfiles.sound hleased
    obtain rfl : p = s.nextRecord := Option.some.inj (hp.symm.trans hbound)
    rw [hgen, hfiles.new, hnew.generation]
    exact hmade.desc_generation
  have hacquired : (acquireImpl env (Worker.buildRequest q k)).run (exec env) s =
      some (.ok s₃.nextLease, s₄) := by
    rw [← finalized_buildRequest hfin] at hbuild hleased
    exact acquireImpl_run_of_built (Worker.buildRequest q k) hkey hs.free hlookup
      ((hs.lookup hfin).1 hnone) rfl hbuild hleased
  -- and released
  obtain ⟨s', hrun, hrw₃, hfences⟩ := acquireOnce_run_of_leased hacquired hrecord hheld hrw₂.free
  rw [hrec₁] at hrw₂
  rw [hrw₂.record] at hrw₃
  have hproper := acquireOnce_proper env (Worker.buildRequest q k)
  have hindex : s₂.SameIndex s₃ :=
    ⟨hrw₁.index.nextRecord, hrw₁.index.byId, hrw₁.index.byKey, hrw₁.index.byOperation⟩
  have hall := hrw₂.trans hrw₃
  have hrw : s₂.Rewrites s' s.nextRecord _ :=
    ⟨hall.record, fun p hp => (hall.others p hp).trans (hrw₁.others p hp),
      hindex.trans hall.index, hall.free, hall.store.trans hrw₁.store⟩
  have hfiled := hfiles.rewrites hrw rfl ((run_carries hproper hrun).sound hs.sound)
    ((leaseRecord_sameFences hleased).trans hfences)
  have hanswer : ((s₄.records s.nextRecord).id, (s₄.leases s₃.nextLease).genValue) =
      (deriveId o.bytes t.next, t.next) := by
    rw [hgen, hrw₂.record, ← hid, ← hnew.id]
    rfl
  rw [hanswer] at hrun
  refine ⟨s', hrun, hs.filed hnone hfiled (run_indexed hproper hrun hs.indexed)
    (hnew.ready hfin hmade.validated _) ⟨congrArg KernelCompatibilityKey.digest hnew.key, ?_⟩⟩
  rw [← hid, ← hmade.desc_generation, ← hnew.id, ← hnew.generation]
  rfl

/-- A build that came to nothing leaves its number behind, and no more. -/
theorem buildImpl_run_of_failed {request : KernelLookupRequest} {o : Outcome}
    (hfree : s.statsHeld = false) (hfences : s.FencesIdle)
    (hflight : s.inFlight.lookup (buildDigest env request) = none)
    (hout : runBuild env (s.tick + 1) (buildRequestOf env request) s.nextGeneration = .ok o)
    (hok : o.succeeded = false) :
    ∃ st t, (buildImpl env request).run (exec env) s =
      some (fail o.errorCode o.error, s.built (buildDigest env request) o st t) := by
  have hopen := hfences.fresh s.nextFence le_rfl
  have hmine : ∀ f, (s.inFlight.insert (buildDigest env request) f).lookup
      (buildDigest env request) = some f := fun f => AList.lookup_insert _
  cases s
  cases hfree
  unfold buildDigest at hflight hmine ⊢
  dsimp only at hflight hmine hopen hout
  simp only [buildImpl, buildOwner, runBuildOp, finishBuild, Prog.bind_eq, sect, perform, Prog.bind,
    Prog.run, exec, Step.ready, Step.effect, Impl.join, hflight, Impl.bump, hout, hok, Impl.fulfil,
    hopen, Impl.eraseFence, hmine, Bool.not_false, if_true, if_false, Bool.false_eq_true,
    Prog.pure_eq, Impl.built, Impl.building]
  exact ⟨_, _, rfl⟩

/-- An exception of a backend goes through a build. -/
theorem buildImpl_run_of_thrown {request : KernelLookupRequest} {e : Failure}
    (hfree : s.statsHeld = false) (hflight : s.inFlight.lookup (buildDigest env request) = none)
    (hout : runBuild env (s.tick + 1) (buildRequestOf env request) s.nextGeneration = .error e) :
    ∃ s', (buildImpl env request).run (exec env) s = some (.error e, s') := by
  cases s
  cases hfree
  unfold buildDigest at hflight
  dsimp only at hflight hout
  simp only [buildImpl, buildOwner, runBuildOp, Prog.bind_eq, sect, Prog.bind, Prog.run, exec,
    Step.ready, Step.effect, Impl.join, hflight, hout, Bool.not_false, if_true, Prog.pure_eq]
  exact ⟨_, rfl⟩

/-- A failed build of a miss is what the acquire answers. -/
theorem acquireImpl_run_of_unbuilt {request : KernelLookupRequest} {s' : Impl} {e : Failure}
    (hkey : request.key.wellFormed = true) (hfree : s.statsHeld = false)
    (hmiss : (s.lookup request.key.finalize request.policy).outcome.isHit = false)
    (hallow : request.allowMissBuild = true)
    (hbuild : (buildImpl env { request with key := request.key.finalize }).run (exec env)
      (s.lookedUp (s.lookup request.key.finalize request.policy)) = some (.error e, s')) :
    (acquireImpl env request).run (exec env) s = some (.error e, s') := by
  have hlookup : (lookupImpl { request with key := request.key.finalize }).run (exec env) s =
      some (.ok (s.lookup request.key.finalize request.policy),
        s.lookedUp (s.lookup request.key.finalize request.policy)) := by
    rw [Prog.run_eq_traced 0, lookupImpl_traced env 0 _ (by simpa using hkey) hfree]
    simp only [KernelCompatibilityKey.finalize_finalize, Option.map_some]
  unfold acquireImpl
  rw [Prog.bind_eq, Prog.run_of_bind]
  refine ⟨_, _, hlookup, ?_⟩
  simp only [acquireDecided, hmiss, Bool.false_eq_true, if_false, acquireMiss]
  rw [if_pos hallow, Prog.bind_eq, Prog.run_of_bind]
  exact ⟨_, _, hbuild, rfl⟩

/-- **One request is one request to the table**, unless an exception of the backend goes through: the
cache answers what the table answers, and stands for the table it leaves. -/
theorem acquireOnce_table {F : Type} {host : CpuBackend.Host F}
    (hcpu : env.backends = [makeCpuBackend host]) (hclosed : env.cfg.persistenceOpen = false)
    (hs : s.Remembers t) (ht : t.Numbered) (hkey : k.wellFormed = true) (hfin : k.finalize = k) :
    (∃ s', (Worker.acquireOnce env (Worker.buildRequest q k)).run (exec env) s =
      some (.error .exception, s')) ∨
    ∃ res s' t', (Worker.acquireOnce env (Worker.buildRequest q k)).run (exec env) s =
        some (res, s') ∧ s'.Remembers t' ∧
      ((∃ out, res = .ok out ∧
          BuildTable.Asked k.digest (CpuBackend.artifactOf k) t (some out) t') ∨
        (∃ code message, res = fail code message ∧
          BuildTable.Asked k.digest (CpuBackend.artifactOf k) t none t')) := by
  cases hbuilt : t.built k.digest with
  | some out =>
    obtain ⟨s', hrun, hs'⟩ := hs.repeated env q hkey hfin hbuilt
    exact .inr ⟨_, s', t, hrun, hs', .inl ⟨out, rfl, .known hbuilt⟩⟩
  | none =>
    have hmiss := (hs.lookup hfin).1 hbuilt
    have hmiss' : (s.lookup (Worker.buildRequest q k).key.finalize
        (Worker.buildRequest q k).policy).outcome.isHit = false := by
      have hlookup : s.lookup (Worker.buildRequest q k).key.finalize
          (Worker.buildRequest q k).policy = s.lookup k {} :=
        congrArg (fun key => s.lookup key {}) hfin
      rw [hlookup]
      exact hmiss
    have hlooked : s.lookedUp (s.lookup (Worker.buildRequest q k).key.finalize
        (Worker.buildRequest q k).policy) = s.lookedUp (s.lookup k {}) :=
      congrArg (fun key => s.lookedUp (s.lookup key {})) hfin
    have hunbuilt : ∀ {e s'}, (buildImpl env (Worker.buildRequest q k)).run (exec env)
        (s.lookedUp (s.lookup k {})) = some (.error e, s') →
        (Worker.acquireOnce env (Worker.buildRequest q k)).run (exec env) s =
          some (.error e, s') := by
      intro e s' hbuild
      refine acquireOnce_run_of_failed (acquireImpl_run_of_unbuilt hkey hs.free hmiss' rfl ?_)
      rw [finalized_buildRequest hfin, hlooked]
      exact hbuild
    have hfences : (s.lookedUp (s.lookup k {})).FencesIdle :=
      ⟨hs.fences.waiting, hs.fences.fresh⟩
    cases hout : runBuild env (s.tick + 4) (buildRequestOf env (Worker.buildRequest q k))
        t.next with
    | error e =>
      obtain rfl := runBuild_error hout
      rw [← hs.next] at hout
      obtain ⟨s', hbuild⟩ := buildImpl_run_of_thrown (s := s.lookedUp (s.lookup k {})) hs.free
        (hs.idle _) hout
      exact .inl ⟨s', hunbuilt hbuild⟩
    | ok o =>
      cases hok : o.succeeded with
      | true =>
        have hbytes : o.bytes = CpuBackend.artifactOf k := by
          have hmade := runBuild_cpu hcpu hout hok
          rw [hmade]
          exact congrArg CpuBackend.artifactOf ((congrArg KernelCompatibilityKey.finalize hfin).trans hfin)
        obtain ⟨s', hrun, hs'⟩ := hs.made (q := q) ht hkey hfin hclosed hbuilt hout hok
          (by rw [hbytes]; exact List.cons_ne_nil _ _)
        rw [hbytes] at hrun hs'
        exact .inr ⟨_, s', _, hrun, hs', .inl ⟨_, rfl, .made hbuilt⟩⟩
      | false =>
        rw [← hs.next] at hout
        obtain ⟨st, tick, hbuild⟩ := buildImpl_run_of_failed (s := s.lookedUp (s.lookup k {})) hs.free
          hfences (hs.idle _) hout hok
        have hrun := hunbuilt hbuild
        have hsettled := (buildImpl_run hfences hbuild).settled hout hs.idle
        have hproper := acquireOnce_proper env (Worker.buildRequest q k)
        refine .inr ⟨_, _, { t with next := t.next + 1 }, hrun, ⟨?_, ?_, hs.free, ?_, hsettled.1, ?_,
          hs.ready, hs.built⟩, .inr ⟨_, _, rfl, .refused hbuilt⟩⟩
        · exact (run_carries hproper hrun).sound hs.sound
        · exact run_indexed hproper hrun hs.indexed
        · exact (buildImpl_run hfences hbuild).fencesIdle hfences
        · exact hsettled.2.trans (congrArg (· + 1) hs.next)

end Request

/-! ## The worker -/

namespace Worker

/-- The request of a frame that passes the worker's checks, and its key. -/
def accepted (boot : WorkerBootId) (w : Worker) (frame : Frame) :
    Option (DistBuildRequest × KernelCompatibilityKey) :=
  if frame.1 ≠ DistMsgType.buildReq.code then none
  else
    match decodeBuildRequest frame.2 {} with
    | (.error _, _) => none
    | (.ok a, q) =>
      if a.epoch = w.epoch ∧ a.boot = boot then
        (KernelCompatibilityKey.fromCanonical q.keyCanonical).toOption.map (q, ·)
      else none

/-- The key that a worker which still runs builds on the frame, and the number of the build: it accepts
the request, and finds nothing for the key in its cache. -/
def newBuild (boot : WorkerBootId) (w : Worker) (frame : Frame) :
    Option (KernelCompatibilityKey × ArtifactGeneration) :=
  if w.running then
    (w.accepted boot frame).bind fun (_, k) =>
      if (w.cache.lookup k {}).outcome.isHit then none else some (k, w.cache.nextGeneration)
  else none

/-- The worker accepts the frame, and sends back the artifact of the digest. -/
def Answers (env : Env) (boot : WorkerBootId) (w : Worker) (frame : Frame) (d : Sha256Digest)
    (out : ArtifactId × ArtifactGeneration) : Prop :=
  (w.take env boot frame).running = true ∧ ∃ q k, w.accepted boot frame = some (q, k) ∧
    k.digest = d ∧ (w.take env boot frame).replies = w.replies ++
      [(DistMsgType.buildResp.code, encodeBuildResponse q.rid out.1 out.2 0 [])]

/-- What a running worker has behind it: a table, and no more builds than frames. -/
structure Tracks (w : Worker) (n : Nat) (t : BuildTable) : Prop where
  running : w.running = true
  cache : w.cache.Remembers t
  numbered : t.Numbered
  count : t.next.toNat ≤ n

variable {env : Env} {boot : WorkerBootId} {w : Worker} {t : BuildTable} {n : Nat} {frame : Frame}

theorem accepted_finalized {q : DistBuildRequest} {k : KernelCompatibilityKey}
    (h : w.accepted boot frame = some (q, k)) : k.wellFormed = true ∧ k.finalize = k := by
  unfold accepted at h
  split at h
  · cases h
  · split at h
    · cases h
    · split at h
      · obtain ⟨k', hk', heq⟩ := Option.map_eq_some_iff.mp h
        cases heq
        cases hfrom : KernelCompatibilityKey.fromCanonical _ with
        | error e =>
          rw [hfrom] at hk'
          cases hk'
        | ok k'' =>
          rw [hfrom] at hk'
          cases hk'
          exact KernelCompatibilityKey.fromCanonical_wellFormed hfrom
      · cases h

/-- An accepted frame is built. -/
theorem take_accepted (env : Env) {q : DistBuildRequest} {k : KernelCompatibilityKey}
    (hrunning : w.running = true) (h : w.accepted boot frame = some (q, k)) :
    w.take env boot frame = w.buildKey env q k := by
  unfold accepted at h
  split at h
  · cases h
  rename_i hcode
  rw [ne_eq, not_not] at hcode
  have hroll : frame.1 ≠ DistMsgType.rollEpoch.code := by rw [hcode]; decide
  have hshut : frame.1 ≠ DistMsgType.shutdown.code := by rw [hcode]; decide
  unfold take
  rw [hrunning, if_neg (by simp), if_neg hroll, if_neg hshut, if_neg (by simp [hcode])]
  split at h
  · cases h
  · rename_i a q' hdecode
    rw [hdecode]
    split at h
    · rename_i hauth
      obtain ⟨k', hk', heq⟩ := Option.map_eq_some_iff.mp h
      cases heq
      unfold build
      dsimp only
      rw [if_neg (by simp [hauth.1]), if_neg (by simp [hauth.2])]
      cases hfrom : KernelCompatibilityKey.fromCanonical q.keyCanonical with
      | error e =>
        rw [hfrom] at hk'
        cases hk'
      | ok k'' =>
        rw [hfrom] at hk'
        cases hk'
        rfl
    · cases h

/-- Any other frame leaves the cache alone. -/
theorem take_other (h : w.accepted boot frame = none) :
    (w.take env boot frame).cache = w.cache := by
  unfold accepted at h
  unfold take
  split
  · rfl
  split
  · rfl
  split
  · rfl
  split
  · rfl
  · rename_i hcode
    rw [if_neg hcode] at h
    cases hdecode : decodeBuildRequest frame.2 {} with
    | mk auth q =>
      rw [hdecode] at h
      unfold build
      cases auth with
      | error e => rfl
      | ok a =>
        dsimp only at h ⊢
        split
        · rfl
        · split
          · rfl
          · rename_i hepoch hboot
            rw [if_pos ⟨by simpa using hepoch, by simpa using hboot⟩] at h
            cases hfrom : KernelCompatibilityKey.fromCanonical q.keyCanonical with
            | error e => rfl
            | ok k =>
              rw [hfrom] at h
              cases h

/-- What a worker makes of the result of its cache. -/
def settle (w : Worker) (q : DistBuildRequest) (c : Impl) :
    Result (ArtifactId × ArtifactGeneration) → Worker
  | .error .exception => { w with cache := c, running := false }
  | .error (.error _ message) => reply { w with cache := c } q ({}, 0) buildFailedCode message
  | .ok out => reply { w with cache := c } q out 0 []

theorem buildKey_of_run {q : DistBuildRequest} {k : KernelCompatibilityKey} {c : Impl}
    {res : Result (ArtifactId × ArtifactGeneration)}
    (h : (acquireOnce env (buildRequest q k)).run (exec env) w.cache = some (res, c)) :
    w.buildKey env q k = w.settle q c res := by
  unfold buildKey
  rw [h]
  cases res with
  | ok out => rfl
  | error e =>
    cases e with
    | exception => rfl
    | error code message => rfl

/-- The octet of the error code. -/
theorem encodeBuildResponse_code (rid : RequestId) (id : ArtifactId) (gen : ArtifactGeneration)
    (code : UInt32) (error : Str) :
    (encodeBuildResponse rid id gen code error)[40]? = some code.toUInt8 := by
  unfold encodeBuildResponse
  rw [List.append_assoc, List.getElem?_append_right (by simp)]
  simp

/-- A success and a failure are told apart. -/
theorem encodeBuildResponse_ne (q : DistBuildRequest) (out : ArtifactId × ArtifactGeneration)
    (message : Str) : encodeBuildResponse q.rid out.1 out.2 0 [] ≠
      encodeBuildResponse q.rid {} 0 buildFailedCode message := by
  intro heq
  have hcode := congrArg (fun p : Bytes => p[40]?) heq
  simp only [encodeBuildResponse_code] at hcode
  exact absurd hcode (by decide)

/-- Two successes that read the same name the same artifact. -/
theorem encodeBuildResponse_injective {rid : RequestId}
    {out out' : ArtifactId × ArtifactGeneration}
    (h : encodeBuildResponse rid out.1 out.2 0 [] = encodeBuildResponse rid out'.1 out'.2 0 []) :
    out = out' := by
  have hsuccess : ∀ out : ArtifactId × ArtifactGeneration,
      decodeBuildResponse (encodeBuildResponse rid out.1 out.2 0 []) {} =
        (.ok (), ⟨rid, out.1, out.2, 0, []⟩) :=
    fun out => decodeBuildResponse_encode rid out.1 out.2 (by decide) (by decide) {}
  have hdecode := congrArg (fun p => decodeBuildResponse p {}) h
  simp only [hsuccess] at hdecode
  obtain ⟨-, hresponse⟩ := Prod.mk.inj hdecode
  exact Prod.ext (congrArg BuildResponse.id hresponse) (congrArg BuildResponse.gen hresponse)

section Table

variable {F : Type} {host : CpuBackend.Host F}

/-- **A repeated request of the coordinator** is answered as before, and nothing is built. -/
theorem take_repeated {q : DistBuildRequest} {k : KernelCompatibilityKey}
    {out : ArtifactId × ArtifactGeneration} (h : w.Tracks n t)
    (haccepted : w.accepted boot frame = some (q, k)) (hout : t.built k.digest = some out) :
    w.Answers env boot frame k.digest out ∧
      (w.take env boot frame).cache.nextGeneration = w.cache.nextGeneration := by
  obtain ⟨hkey, hfin⟩ := accepted_finalized haccepted
  obtain ⟨c, hrun, hc⟩ := h.cache.repeated env q hkey hfin hout
  have htaken := (take_accepted env h.running haccepted).trans (buildKey_of_run hrun)
  refine ⟨⟨?_, q, k, haccepted, rfl, ?_⟩, ?_⟩
  · rw [htaken]
    exact h.running
  · rw [htaken]
    rfl
  · rw [htaken]
    exact hc.next.trans h.cache.next.symm

/-- A worker that went on to another table with one more frame. -/
theorem Tracks.asked {w' : Worker} {d : Sha256Digest} {bytes : Bytes} {t' : BuildTable}
    {res : Option (ArtifactId × ArtifactGeneration)} (h : w.Tracks n t) (hn : n + 1 < 2 ^ 64)
    (hrun : w'.running = true) (hcache : w'.cache.Remembers t')
    (hasked : BuildTable.Asked d bytes t res t') : w'.Tracks (n + 1) t' := by
  have hcount := h.count
  have hnext : (t.next + 1).toNat = t.next.toNat + 1 := by
    rw [UInt64.toNat_add, UInt64.toNat_one, Nat.mod_eq_of_lt (by omega)]
  have hwrap : t.next < t.next + 1 := by
    rw [UInt64.lt_iff_toNat_lt, hnext]
    exact Nat.lt_succ_self _
  refine ⟨hrun, hcache, hasked.numbered hwrap h.numbered, ?_⟩
  rcases hasked.next_le with hsame | hmore
  · rw [hsame]
    omega
  · rw [hmore, hnext]
    omega

/-- What the table does not know is built. -/
theorem newBuild_of_unbuilt {q : DistBuildRequest} {k : KernelCompatibilityKey} (h : w.Tracks n t)
    (haccepted : w.accepted boot frame = some (q, k)) (hnone : t.built k.digest = none) :
    w.newBuild boot frame = some (k, t.next) := by
  have hmiss := (h.cache.lookup (accepted_finalized haccepted).2).1 hnone
  unfold newBuild
  rw [if_pos h.running, haccepted, Option.bind_some]
  dsimp only
  rw [hmiss, if_neg Bool.false_ne_true, h.cache.next]

/-- **One frame**: a worker that still runs behind it stands for the table that follows, and what is new
there is what it built. -/
theorem take_table (hcpu : env.backends = [makeCpuBackend host])
    (hclosed : env.cfg.persistenceOpen = false) (h : w.Tracks n t) (hn : n + 1 < 2 ^ 64)
    (hrun : (w.take env boot frame).running = true) :
    ∃ t', (w.take env boot frame).Tracks (n + 1) t' ∧ t.Extends t' ∧
      (∀ d out, w.Answers env boot frame d out → t'.built d = some out) ∧
      ∀ d out, t'.built d = some out → t.built d = some out ∨
        ∃ k, w.newBuild boot frame = some (k, out.2) ∧ k.digest = d ∧
          out.1 = deriveId (CpuBackend.artifactOf k) out.2 := by
  cases haccepted : w.accepted boot frame with
  | none =>
    refine ⟨t, ⟨hrun, ?_, h.numbered, Nat.le_succ_of_le h.count⟩, fun _ _ hout => hout, ?_,
      fun _ _ hout => .inl hout⟩
    · rw [take_other haccepted]
      exact h.cache
    · rintro d out ⟨-, q, k, hq, -⟩
      rw [haccepted] at hq
      cases hq
  | some request =>
    obtain ⟨q, k⟩ := request
    obtain ⟨hkey, hfin⟩ := accepted_finalized haccepted
    have hbuilt := take_accepted env h.running haccepted
    -- whatever is asked of the table, the table that follows is tracked
    have htracks : ∀ {t' res}, (w.take env boot frame).cache.Remembers t' →
        BuildTable.Asked k.digest (CpuBackend.artifactOf k) t res t' →
        (w.take env boot frame).Tracks (n + 1) t' :=
      fun hcache hasked => h.asked hn hrun hcache hasked
    have hentries : ∀ {t' res}, BuildTable.Asked k.digest (CpuBackend.artifactOf k) t res t' →
        ∀ d out, t'.built d = some out → t.built d = some out ∨
          ∃ k, w.newBuild boot frame = some (k, out.2) ∧ k.digest = d ∧
            out.1 = deriveId (CpuBackend.artifactOf k) out.2 := by
      intro t' res hasked d out hout
      rcases hasked.entries hout with hold | ⟨rfl, hnone, rfl⟩
      · exact .inl hold
      · exact .inr ⟨k, newBuild_of_unbuilt h haccepted hnone, rfl, rfl⟩
    rcases acquireOnce_table (q := q) hcpu hclosed h.cache h.numbered hkey hfin with
      ⟨c, hthrown⟩ | ⟨res, c, t', hran, hc, ⟨out, rfl, hasked⟩ | ⟨code, message, rfl, hasked⟩⟩
    · have hstopped := hbuilt.trans (buildKey_of_run hthrown)
      rw [hstopped] at hrun
      cases hrun
    · have htaken := hbuilt.trans (buildKey_of_run hran)
      refine ⟨t', htracks (by rw [htaken]; exact hc) hasked, hasked.extends, ?_, hentries hasked⟩
      rintro d out' ⟨-, q', k', hq, rfl, hreplies⟩
      rw [haccepted] at hq
      cases hq
      rw [htaken] at hreplies
      have hsent := List.append_cancel_left hreplies
      simp only [List.cons.injEq, Prod.mk.injEq, true_and, and_true] at hsent
      rw [← encodeBuildResponse_injective hsent]
      exact hasked.answered
    · have htaken := hbuilt.trans (buildKey_of_run hran)
      refine ⟨t', htracks (by rw [htaken]; exact hc) hasked, hasked.extends, ?_, hentries hasked⟩
      rintro d out' ⟨-, q', k', hq, rfl, hreplies⟩
      rw [haccepted] at hq
      cases hq
      rw [htaken] at hreplies
      have hsent := List.append_cancel_left hreplies
      simp only [List.cons.injEq, Prod.mk.injEq, true_and, and_true] at hsent
      exact absurd hsent.symm (encodeBuildResponse_ne q out' message)

/-- The frames after that. -/
theorem foldl_take_table (hcpu : env.backends = [makeCpuBackend host])
    (hclosed : env.cfg.persistenceOpen = false) {frames : List Frame} (h : w.Tracks n t)
    (hn : n + frames.length < 2 ^ 64) (hrun : (frames.foldl (take env boot) w).running = true) :
    ∃ t', (frames.foldl (take env boot) w).Tracks (n + frames.length) t' ∧ t.Extends t' := by
  induction frames generalizing w n t with
  | nil => exact ⟨t, h, fun _ _ hout => hout⟩
  | cons frame frames ih =>
    rw [List.length_cons] at hn
    obtain ⟨hrunning, -⟩ := foldl_take_epoch (w := w.take env boot frame) hrun
    obtain ⟨t₁, h₁, hext₁, -⟩ := take_table hcpu hclosed h (by omega) hrunning
    obtain ⟨t', h', hext⟩ := ih h₁ (by omega) hrun
    refine ⟨t', ?_, fun d out hout => hext d out (hext₁ d out hout)⟩
    rw [List.length_cons, Nat.add_comm frames.length, ← Nat.add_assoc]
    exact h'

/-- A worker that has just registered. -/
theorem tracks_registered (e : CoordinatorEpoch) :
    Tracks { epoch := e, cache := Impl.initial {} } 0 {} where
  running := rfl
  cache := Impl.initial_remembers
  numbered := BuildTable.empty_numbered
  count := Nat.zero_le 0

theorem process_append {ack : Frame} {frames : List Frame} (more : List Frame)
    (h : process env boot (ack :: frames) = some w) :
    process env boot (ack :: (frames ++ more)) = some (more.foldl (take env boot) w) := by
  obtain ⟨e, hregister, rfl⟩ := Option.map_eq_some_iff.mp h
  simp only [process, hregister, Option.map_some, List.foldl_append]

/-- The table of a worker process that still runs. -/
theorem process_table (hcpu : env.backends = [makeCpuBackend host])
    (hclosed : env.cfg.persistenceOpen = false) {ack : Frame} {frames : List Frame}
    (h : process env boot (ack :: frames) = some w) (hshort : frames.length < 2 ^ 64)
    (hrun : w.running = true) : ∃ t, w.Tracks frames.length t := by
  obtain ⟨e, -, rfl⟩ := Option.map_eq_some_iff.mp h
  obtain ⟨t, ht, -⟩ := foldl_take_table hcpu hclosed (tracks_registered e) (by omega) hrun
  rw [Nat.zero_add] at ht
  exact ⟨t, ht⟩

/-- **A new request.** A request for the CPU backend, or for none, whose key the worker has not built, is
answered with an artifact under the next number, when the memory is there and every number equals
itself. -/
theorem take_new (hcpu : env.backends = [makeCpuBackend host])
    (hclosed : env.cfg.persistenceOpen = false) (halloc : ∀ tick n, host.allocates tick n = true)
    (hself : ∀ x, host.ops.differ x x = false) (h : w.Tracks n t) (hn : n + 1 < 2 ^ 64)
    {q : DistBuildRequest} {k : KernelCompatibilityKey} (haccepted : w.accepted boot frame = some (q, k))
    (hbackend : k.runtimeBackend = CpuBackend.backendName ∨ k.runtimeBackend = [])
    (hnone : t.built k.digest = none) :
    (w.take env boot frame).Tracks (n + 1) (t.add k.digest (CpuBackend.artifactOf k)) ∧
      (w.take env boot frame).epoch = w.epoch ∧
      (w.take env boot frame).replies = w.replies ++ [(DistMsgType.buildResp.code,
        encodeBuildResponse q.rid (deriveId (CpuBackend.artifactOf k) t.next) t.next 0 [])] := by
  obtain ⟨hkey, hfin⟩ := accepted_finalized haccepted
  have hkeyEq : (buildRequestOf env (buildRequest q k)).key.finalize = k :=
    (congrArg KernelCompatibilityKey.finalize hfin).trans hfin
  obtain ⟨o, hout, hok⟩ := CpuBackend.runBuild_succeeds hcpu (w.cache.tick + 4)
    (buildRequestOf env (buildRequest q k)) t.next (by rw [hkeyEq]; exact hbackend)
    (halloc _) hself
  have hbytes : o.bytes = CpuBackend.artifactOf k :=
    (runBuild_cpu hcpu hout hok).trans (congrArg CpuBackend.artifactOf hkeyEq)
  obtain ⟨c, hrun, hc⟩ := h.cache.made (q := q) h.numbered hkey hfin hclosed hnone hout hok
    (by rw [hbytes]; exact List.cons_ne_nil _ _)
  rw [hbytes] at hrun hc
  rw [(take_accepted env h.running haccepted).trans (buildKey_of_run hrun)]
  exact ⟨h.asked hn h.running hc (.made hnone), rfl, rfl⟩

/-- The replies to requests for new keys: one build after the other, under one number after the other. -/
def newReplies : ArtifactGeneration → List (DistBuildRequest × KernelCompatibilityKey) → List Frame
  | _, [] => []
  | n, (q, k) :: rest => (DistMsgType.buildResp.code,
      encodeBuildResponse q.rid (deriveId (CpuBackend.artifactOf k) n) n 0 []) :: newReplies (n + 1) rest

/-- The replies of a worker to requests for keys of different digests that it has not built. -/
theorem foldl_take_new (hcpu : env.backends = [makeCpuBackend host])
    (hclosed : env.cfg.persistenceOpen = false) (halloc : ∀ tick n, host.allocates tick n = true)
    (hself : ∀ x, host.ops.differ x x = false)
    {requests : List (Frame × DistBuildRequest × KernelCompatibilityKey)} (h : w.Tracks n t)
    (hn : n + requests.length < 2 ^ 64)
    (haccepted : ∀ r ∈ requests, ∀ w' : Worker, w'.epoch = w.epoch → w'.accepted boot r.1 = some r.2)
    (hbackend : ∀ r ∈ requests,
      r.2.2.runtimeBackend = CpuBackend.backendName ∨ r.2.2.runtimeBackend = [])
    (hnone : ∀ r ∈ requests, t.built r.2.2.digest = none)
    (hdistinct : (requests.map fun r => r.2.2.digest).Nodup) :
    ((requests.map Prod.fst).foldl (take env boot) w).replies =
      w.replies ++ newReplies t.next (requests.map Prod.snd) := by
  induction requests generalizing w n t with
  | nil => exact (List.append_nil _).symm
  | cons r requests ih =>
    obtain ⟨g, q, k⟩ := r
    rw [List.length_cons] at hn
    rw [List.map_cons, List.nodup_cons] at hdistinct
    obtain ⟨htracks, hepoch, hreplies⟩ := take_new hcpu hclosed halloc hself h (by omega)
      (haccepted (g, q, k) List.mem_cons_self w rfl) (hbackend (g, q, k) List.mem_cons_self)
      (hnone (g, q, k) List.mem_cons_self)
    have hstill : ∀ r ∈ requests, (t.add k.digest (CpuBackend.artifactOf k)).built r.2.2.digest = none := by
      intro r hr
      have hne : r.2.2.digest ≠ k.digest := fun heq => hdistinct.1 (heq ▸ List.mem_map_of_mem hr)
      exact (Function.update_of_ne hne _ _).trans (hnone r (List.mem_cons_of_mem _ hr))
    have hrest := ih htracks (by omega)
      (fun r hr w' hw' => haccepted r (List.mem_cons_of_mem _ hr) w' (hw'.trans hepoch))
      (fun r hr => hbackend r (List.mem_cons_of_mem _ hr)) hstill hdistinct.2
    rw [List.map_cons, List.foldl_cons, hrest, hreplies, List.append_assoc]
    rfl

/-- **A worker answers what it accepts.** -/
theorem take_answers (hcpu : env.backends = [makeCpuBackend host])
    (hclosed : env.cfg.persistenceOpen = false) (h : w.Tracks n t) (hn : n + 1 < 2 ^ 64)
    {q : DistBuildRequest} {k : KernelCompatibilityKey} (haccepted : w.accepted boot frame = some (q, k))
    (hbackend : k.runtimeBackend = CpuBackend.backendName ∨ k.runtimeBackend = [])
    (halloc : ∀ tick n, host.allocates tick n = true)
    (hself : ∀ x, host.ops.differ x x = false) :
    ∃ out, w.Answers env boot frame k.digest out := by
  cases hbuilt : t.built k.digest with
  | some out => exact ⟨out, (take_repeated h haccepted hbuilt).1⟩
  | none =>
    obtain ⟨htracks, -, hreplies⟩ :=
      take_new hcpu hclosed halloc hself h hn haccepted hbackend hbuilt
    exact ⟨(_, _), htracks.running, q, k, haccepted, rfl, hreplies⟩

/-- **What a worker process tells its coordinator.** Let it have answered a request for one digest.  As
long as fewer than 2^64 frames have come, every later request for that digest is answered with the same
artifact, without a build; and no request for another digest is answered with that id. -/
theorem worker_ids (hcpu : env.backends = [makeCpuBackend host])
    (hclosed : env.cfg.persistenceOpen = false) {ack first later : Frame} {before between : List Frame}
    {w' : Worker} {d : Sha256Digest} {out : ArtifactId × ArtifactGeneration}
    (hw : process env boot (ack :: before) = some w)
    (hw' : process env boot (ack :: (before ++ first :: between)) = some w')
    (hshort : before.length + between.length + 2 < 2 ^ 64)
    (hanswer : w.Answers env boot first d out) (hrunning : w'.running = true) :
    (∀ q k, w'.accepted boot later = some (q, k) → k.digest = d →
      w'.Answers env boot later d out ∧
        (w'.take env boot later).cache.nextGeneration = w'.cache.nextGeneration) ∧
    ∀ d' out', d' ≠ d → w'.Answers env boot later d' out' → out'.1 ≠ out.1 := by
  -- the later worker is the earlier one after the frames from the first request on
  have hsplit := process_append (first :: between) hw
  rw [hw', List.foldl_cons] at hsplit
  obtain rfl := Option.some.inj hsplit
  obtain ⟨hafter, -⟩ := foldl_take_epoch hrunning
  obtain ⟨hthen, -⟩ := take_epoch hafter
  obtain ⟨t, ht⟩ := process_table hcpu hclosed hw (by omega) hthen
  obtain ⟨t₁, ht₁, -, hanswered, -⟩ := take_table hcpu hclosed ht (by omega) hafter
  obtain ⟨t₂, ht₂, hext⟩ := foldl_take_table hcpu hclosed ht₁ (by omega) hrunning
  have hout := hext d out (hanswered d out hanswer)
  refine ⟨fun q k haccepted hk => ?_, fun d' out' hne hanswer' hid => ?_⟩
  · subst hk
    exact take_repeated ht₂ haccepted hout
  · obtain ⟨t₃, ht₃, hext₃, hanswered', -⟩ := take_table hcpu hclosed ht₂ (by omega) hanswer'.1
    have hout' := hanswered' d' out' hanswer'
    have hnum := ht₃.numbered
    refine hne (hnum.injective hout' (hext₃ d out hout) ?_)
    rw [← (hnum.below hout').2, hid, (hnum.below (hext₃ d out hout)).2]

end Table

/-! ## Twice the same request -/

/-- A worker on the CPU backend. -/
def cpuEnv : Env where
  backends := [makeCpuBackend CpuBackend.wholeNumbers]
  backends_nodup := makeCpuBackend_nodup _

theorem cpuEnv_backends : cpuEnv.backends = [makeCpuBackend CpuBackend.wholeNumbers] := rfl

/-- Vectors of three elements. -/
def vectorKey : KernelCompatibilityKey := KernelCompatibilityKey.finalize { shape := [3] }

theorem vectorKey_finalize : vectorKey.wellFormed = true ∧ vectorKey.finalize = vectorKey := by
  refine ⟨?_, KernelCompatibilityKey.finalize_finalize _⟩
  unfold vectorKey
  rw [KernelCompatibilityKey.finalize_toKeyFields, KeyFields.sorted_wellFormed]
  decide

/-- The acknowledgement of epoch 1, and a request for `vectorKey`. -/
def ackFrame : Frame := (DistMsgType.registerAckC.code, encodeRegisterAck 1 7 1)

def vectorFrame : Frame :=
  (DistMsgType.buildReq.code, encodeBuildRequest { epoch := 1 } {} vectorKey.canonical [] [] [])

def registered : Worker := { epoch := 1, cache := Impl.initial {} }

theorem process_ackFrame : process cpuEnv {} [ackFrame] = some registered := by
  have hregister : register ackFrame = some 1 := by
    simp only [register, ackFrame, ne_eq, not_true_eq_false, if_false, decodeRegisterAck_encode,
      if_true]
  simp only [process, hregister, Option.map_some, List.foldl_nil, registered]

theorem vectorKey_sized : vectorKey.toKeyFields.Sized := by
  unfold vectorKey
  rw [KernelCompatibilityKey.finalize_toKeyFields]
  refine KeyFields.sorted_sized ?_
  unfold KeyFields.Sized KeyFields.fields
  simp only [List.forall_mem_cons, List.not_mem_nil, false_imp_iff, implies_true, and_true,
    KeyField.Sized, KeyField.StrsSized, KeyField.StrSized]
  decide

theorem accepted_vectorFrame : registered.accepted {} vectorFrame =
    some (⟨{ epoch := 1 }, {}, vectorKey.canonical, [], [], []⟩, vectorKey) := by
  have hfrom : KernelCompatibilityKey.fromCanonical vectorKey.canonical = .ok vectorKey := by
    have h := KernelCompatibilityKey.fromCanonical_finalize vectorKey_finalize.1 vectorKey_sized
    rwa [vectorKey_finalize.2] at h
  have hdecode : decodeBuildRequest vectorFrame.2 {} =
      (.ok { epoch := 1 }, ⟨{ epoch := 1 }, {}, vectorKey.canonical, [], [], []⟩) :=
    decodeBuildRequest_encode _ _ (by decide +kernel) (by decide) (by decide) (by decide) {}
  have hcode : vectorFrame.1 = DistMsgType.buildReq.code := rfl
  simp only [accepted, hcode, ne_eq, not_true_eq_false, if_false, hdecode, registered, hfrom,
    and_self, if_true, Except.toOption, Option.map_some]

theorem registered_answers : ∃ out,
    registered.Answers cpuEnv {} vectorFrame vectorKey.digest out :=
  take_answers cpuEnv_backends rfl (tracks_registered 1) (by decide) accepted_vectorFrame (.inr rfl)
    (fun _ _ => rfl) (fun _ => by simp [CpuBackend.wholeNumbers])

theorem process_vectorFrame : process cpuEnv {} (ackFrame :: ([] ++ [vectorFrame])) =
    some (registered.take cpuEnv {} vectorFrame) := by
  rw [process_append [vectorFrame] process_ackFrame, List.foldl_cons, List.foldl_nil]

/-- The same request twice: the answer is the same, and nothing is built for the second. -/
theorem worker_ids_repeated : ∃ w w' out,
    process cpuEnv {} [ackFrame] = some w ∧ process cpuEnv {} [ackFrame, vectorFrame] = some w' ∧
    w.Answers cpuEnv {} vectorFrame vectorKey.digest out ∧ w'.running = true ∧
    ((∀ q k, w'.accepted {} vectorFrame = some (q, k) → k.digest = vectorKey.digest →
      w'.Answers cpuEnv {} vectorFrame vectorKey.digest out ∧
        (w'.take cpuEnv {} vectorFrame).cache.nextGeneration = w'.cache.nextGeneration) ∧
    ∀ d' out', d' ≠ vectorKey.digest → w'.Answers cpuEnv {} vectorFrame d' out' →
      out'.1 ≠ out.1) := by
  obtain ⟨out, hanswer⟩ := registered_answers
  have hrunning : (registered.take cpuEnv {} vectorFrame).running = true := hanswer.1
  have hafter := process_vectorFrame
  generalize registered.take cpuEnv {} vectorFrame = w' at hrunning hafter
  exact ⟨_, w', out, process_ackFrame, hafter, hanswer, hrunning,
    worker_ids cpuEnv_backends rfl process_ackFrame hafter (by decide) hanswer hrunning⟩

end Worker

end KernelCache
