/-
# KernelCache.Trimming — the end of the loop of `evict_to_fit` (`residency.cpp`).

The loop has no bound of its own.  It comes to an end because every round that picks a victim leaves
one record less to pick: an eviction moves the victim to a tier that neither scan takes from, whatever
state the record is in, and no section of the round touches another record (`evictables_lt`).  With
operations that run one after the other a victim is never refused, so what is left at the end is a tier
within its budget or one that has nothing to evict (`evictToFit_terminates`).  One thing alone ends the
loop earlier: a loader whose unload throws (`UnloadThrows`).
-/
import KernelCache.Delivery
import KernelCache.Foundation.Serial

namespace KernelCache

open Foundation (Bytes Prog Event)
open Foundation.Prog (sect perform Sat Finishes)

/-! ## What is charged -/

/-- The budget of the tier is enforced. -/
def ResidencyPolicy.applies (policy : ResidencyPolicy) (tier : ResidencyTier) : Bool :=
  if tier == .deviceResident then policy.applyDeviceBudget else policy.applyHostBudget

namespace ArtifactRecord

/-- The size that the budget of the tier is about. -/
def footprint (tier : ResidencyTier) (r : ArtifactRecord) : UInt64 :=
  if tier == .deviceResident then r.deviceFootprint else r.desc.sizes.hostBytes

variable (r : ArtifactRecord) (tier : ResidencyTier)

theorem counts_le_footprint : (r.counts tier).toNat ≤ (r.footprint tier).toNat := by
  unfold counts footprint
  split_ifs
  · exact Nat.zero_le _
  · exact Nat.zero_le _
  · exact Nat.le_refl _
  · exact Nat.le_refl _
  · exact Nat.zero_le _

/-- An evicted record is out of the scan, whatever its state was. -/
theorem evicted_not_evictable : r.evictBegin.evictCommit.evictable tier = false := by
  obtain ⟨hdevice, hhost⟩ := r.evictBegin.fallbackTier_ne
  rw [evictable, evictCommit_tier]
  simp [hdevice, hhost]

theorem evicted_footprint_le :
    (r.evictBegin.evictCommit.footprint tier).toNat ≤ (r.footprint tier).toNat := by
  unfold footprint evictCommit evictBegin
  split_ifs
  · split <;> exact Nat.zero_le _
  · split
    · exact Nat.le_refl _
    · exact Nat.zero_le _
    · exact Nat.le_refl _

end ArtifactRecord

namespace Impl

/-- The first section of an eviction refuses; it does not throw. -/
theorem evictBegin_ne_exception (s : Impl) {id : ArtifactId} {force : Bool} :
    (s.evictBegin id force).1 ≠ .error .exception := by
  unfold evictBegin
  split
  · simp [fail]
  · dsimp only
    split_ifs <;> simp [fail]

/-- The records the scan may evict. -/
def evictables (s : Impl) (tier : ResidencyTier) : Finset Nat :=
  (Finset.range s.nextRecord).filter fun p => (s.records p).evictable tier = true

/-- What the records that are not held are counted as. -/
def countedUse (s : Impl) (tier : ResidencyTier) : Nat := s.total fun r => (r.counts tier).toNat

/-- What the loop works on: a sound state with its lock free, and sizes that add up. -/
structure Trimmable (s : Impl) (tier : ResidencyTier) : Prop where
  sound : s.Sound
  free : s.statsHeld = false
  small : s.total (fun r => (r.footprint tier).toNat) < 2 ^ 64

/-- What the loop stops at. -/
def Trimmed (env : Env) (s : Impl) (tier : ResidencyTier) : Prop :=
  s.countedUse tier ≤ (env.cfg.residency.budget tier).toNat ∨
    ∀ p < s.nextRecord, (s.records p).evictable tier = false

variable {env : Env} {s s' : Impl} {tier : ResidencyTier}

/-- The sum of the scan does not wrap around. -/
theorem Trimmable.usedIn_toNat (h : s.Trimmable tier) :
    (s.usedIn tier).toNat = s.countedUse tier := by
  have hsum : ((s.byId.keys.map (s.countsOf tier)).map UInt64.toNat).sum = s.countedUse tier := by
    rw [List.map_map]
    refine h.sound.sum_ids (List.Perm.refl _) fun p hp => ?_
    rw [Function.comp_apply, countsOf, recordOf, h.sound.indexed p hp]
    rfl
  rw [usedIn, toNat_sum, hsum]
  rw [hsum]
  refine lt_of_le_of_lt (total_le le_rfl (fun p _ => ?_) fun p _ _ => by omega) h.small
  exact (s.records p).counts_le_footprint tier

/-- **A round without a victim** is the last one. -/
theorem Trimmable.trimmed (h : s.Trimmable tier) (hpick : s.pickVictim env tier = none) :
    s.Trimmed env tier := by
  refine (pickVictim_none hpick).imp (fun hfits => ?_) fun hnone p hp => ?_
  · rw [← h.usedIn_toNat]
    exact UInt64.le_iff_toNat_le.mp hfits
  · have hout := hnone (s.records p).id
    rwa [evictableOf, recordOf, h.sound.indexed p hp] at hout

/-- **The measure.** A record that leaves the scan, with the others as they were, is one less. -/
theorem evictables_lt {v : Nat} (hv : v ∈ s.evictables tier) (hnext : s'.nextRecord = s.nextRecord)
    (hgone : (s'.records v).evictable tier = false)
    (hothers : ∀ q, q ≠ v → s'.records q = s.records q) :
    (s'.evictables tier).card < (s.evictables tier).card := by
  have hsubset : s'.evictables tier ⊆ s.evictables tier := by
    intro q hq
    obtain ⟨hlt, hevictable⟩ := Finset.mem_filter.mp hq
    have hne : q ≠ v := by
      rintro rfl
      rw [hgone] at hevictable
      cases hevictable
    rw [hothers q hne] at hevictable
    rw [hnext] at hlt
    exact Finset.mem_filter.mpr ⟨hlt, hevictable⟩
  apply Finset.card_lt_card
  apply (Finset.ssubset_iff_of_subset hsubset).mpr
  refine ⟨v, hv, fun hstill => ?_⟩
  have hevictable := (Finset.mem_filter.mp hstill).2
  rw [hgone] at hevictable
  cases hevictable

end Impl

/-! ## The rounds -/

section Rounds

variable {env : Env} {tier : ResidencyTier}

variable (env) in
/-- A section that waits for nothing but the lock of the statistics. -/
theorem exec_of_free (l : Step) {s : Impl} (hready : s.statsHeld = false → l.ready s = true)
    (hl : l.keepsLock = false) (hfree : s.statsHeld = false) :
    ∃ s', exec env l s = some s' ∧ s'.statsHeld = false := by
  have hstep : exec env l s = some { l.effect env s with tick := s.tick + 1 } :=
    exec_eq_some.mpr ⟨hready hfree, rfl⟩
  exact ⟨_, hstep, exec_keepsLockFree hstep hl hfree⟩

variable (env) in
/-- The section is the unload of an eviction, and the loader throws. -/
def UnloadThrows (e : Event Step Impl) : Prop :=
  ∃ p, e.label = .evictUnload p ∧ (e.before.unloadModule env p).1 = .error .exception

/-- A loader that never throws never throws here. -/
theorem not_unloadThrows (e : Event Step Impl)
    (hquiet : ∀ b ∈ env.backends, ∀ loader, b.loader = some loader →
      ∀ now handle, loader.unload now handle ≠ .error .exception) : ¬ UnloadThrows env e := by
  rintro ⟨p, -, hthrown⟩
  unfold Impl.unloadModule at hthrown
  split at hthrown
  case h_1 loader handle hloader _ =>
    obtain ⟨b, hb, hown⟩ := Option.bind_eq_some_iff.mp hloader
    exact hquiet b (findBackend_mem hb) loader hown _ _ hthrown
  case h_2 => cases hthrown

/-- **An eviction that ends by an exception** has made the unload that threw it. -/
theorem evictImpl_exception {i : Nat} {id : ArtifactId} {force : Bool} {s s' : Impl}
    {tr : List (Event Step Impl)}
    (h : (evictImpl env id force).traced (exec env) i s = some (tr, .error .exception, s')) :
    ∃ e ∈ tr, UnloadThrows env e := by
  unfold evictImpl at h
  rw [Prog.bind_eq, Prog.traced_of_bind] at h
  obtain ⟨tr₁, begun, s₁, tr₂, hbegin, h, rfl⟩ := h
  obtain ⟨-, hbegun, -⟩ := Prog.traced_sect.mp hbegin
  cases begun with
  | error e =>
    cases h
    exact absurd hbegun.symm s.evictBegin_ne_exception
  | ok p =>
    dsimp only at h
    rw [Prog.bind_eq, Prog.traced_of_bind] at h
    obtain ⟨tr₃, unloaded, s₂, tr₄, hunload, h, rfl⟩ := h
    obtain ⟨-, hunloaded, rfl⟩ := Prog.traced_sect.mp hunload
    split at h
    · refine ⟨_, List.mem_append_right _ (List.mem_append_left _ (List.mem_singleton_self _)), p, rfl, ?_⟩
      exact hunloaded.symm
    · rw [Prog.bind_eq, Prog.traced_of_bind] at h
      obtain ⟨tr₅, u, s₃, tr₆, -, h, -⟩ := h
      rw [Prog.bind_eq, Prog.traced_of_bind] at h
      obtain ⟨tr₇, u', s₄, tr₈, -, h, -⟩ := h
      cases h

variable (env) in
/-- The eviction of an idle record is not refused and does not block. -/
theorem evictImpl_finishes {s : Impl} {id : ArtifactId} {p : Nat} (hid : s.byId.lookup id = some p)
    (hlease : (s.records p).leaseCount = 0) (hpin : (s.records p).pinCount = 0)
    (hfree : s.statsHeld = false) :
    (evictImpl env id false).Finishes (exec env) s fun _ s' => s'.statsHeld = false := by
  have hbegin : (s.evictBegin id false).1 = .ok p := by
    unfold Impl.evictBegin
    rw [hid]
    dsimp only
    rw [if_neg (by omega)]
  obtain ⟨s₁, hstep₁, hfree₁⟩ := exec_of_free env (.evictBegin id false) (fun _ => rfl) rfl hfree
  unfold evictImpl
  refine Finishes.first hstep₁ ?_
  rw [hbegin]
  obtain ⟨s₂, hstep₂, hfree₂⟩ := exec_of_free env (.evictUnload p) (fun _ => rfl) rfl hfree₁
  refine Finishes.first hstep₂ ?_
  split
  · exact Finishes.ret hfree₂
  · obtain ⟨s₃, hstep₃, hfree₃⟩ := exec_of_free env (.evictCommit p)
      (fun h => by simp [Step.ready, h]) rfl hfree₂
    refine Finishes.first hstep₃ ?_
    obtain ⟨s₄, hstep₄, hfree₄⟩ := exec_of_free env .recordEvent
      (fun h => by simp [Step.ready, h]) rfl hfree₃
    exact Finishes.first hstep₄ (Finishes.ret hfree₄)

/-- What a round does with the victim `v`: it is the one record that changes, and out of the scan
afterwards unless the loader throws. -/
structure Round (tier : ResidencyTier) (s s' : Impl) (res : Result Unit) (v : Nat) : Prop where
  victim : v ∈ s.evictables tier
  others : ∀ q, q ≠ v → s'.records q = s.records q
  nextRecord : s'.nextRecord = s.nextRecord
  done : res = .error .exception ∨
    (res = .ok () ∧ s'.Trimmable tier ∧ (s'.records v).evictable tier = false)

/-- **One round** that has picked a victim. -/
theorem exists_round (i : Nat) {id : ArtifactId} {s s₁ : Impl} (hs : s.Trimmable tier)
    (hvictim : s.pickVictim env tier = some id) (hstep : exec env (.pickVictim tier) s = some s₁) :
    ∃ tr res s₂ v, (evictImpl env id false).traced (exec env) i s₁ = some (tr, res, s₂) ∧
      (s.records v).id = id ∧ Round tier s s₂ res v := by
  have hindex := exec_sameIndex hstep rfl
  obtain ⟨p, hid, hevictable⟩ := Impl.pickVictim_evictable hvictim
  have hidle := ArtifactRecord.idle_of_not_held (ArtifactRecord.free_of_evictable hevictable)
  have hsame : s₁.records = s.records := by
    obtain ⟨-, rfl⟩ := exec_eq_some.mp hstep
    rfl
  have hid₁ : s₁.byId.lookup id = some p := by
    rw [hindex.byId]
    exact hid
  rw [← hsame] at hidle
  obtain ⟨tr, res, s₂, hevict, hfree₂⟩ := (evictImpl_finishes env hid₁ hidle.1 hidle.2
    (exec_keepsLockFree hstep rfl hs.free)).traced i
  obtain ⟨-, hs₂, hnext⟩ := Sat.traced
    (I := fun s₃ => s₃.Sound ∧ s₃.nextRecord = s.nextRecord) (evictImpl_trims id false)
    (fun l s₃ s₄ hexec hl hI => ⟨exec_sound hexec hl.2 hI.1,
      (exec_trims hexec hl.1).nextRecord.trans hI.2⟩)
    trivial ⟨exec_sound hstep trivial hs.sound, hindex.nextRecord⟩ hevict
  obtain ⟨v, hv, hvid, hvictable, hothers, hdone⟩ := evictImpl_picked hs.sound hvictim hstep hevict
  refine ⟨tr, res, s₂, v, hevict, hvid, ?_⟩
  have hmem : v ∈ s.evictables tier := Finset.mem_filter.mpr ⟨Finset.mem_range.mpr hv, hvictable⟩
  refine ⟨hmem, hothers, hnext, hdone.imp_right fun hevicted => ⟨hevicted.1, ?_, ?_⟩⟩
  · refine ⟨hs₂, hfree₂, lt_of_le_of_lt (Impl.total_le hnext.ge (fun q _ => ?_) ?_) hs.small⟩
    · by_cases hq : q = v
      · subst hq
        rw [hevicted.2]
        exact (s.records q).evicted_footprint_le tier
      · rw [hothers q hq]
    · intro q hge hlt
      omega
  · rw [hevicted.2]
    exact (s.records v).evicted_not_evictable tier

variable (env) in
/-- **The rounds.** With one more of them than there are records to evict they come to an end, by an
unload that throws or where nothing is left to do, and a record that is held or never picked is as it
was. -/
theorem evictRounds_terminates (i : Nat) {n : Nat} {s : Impl} (hs : s.Trimmable tier)
    (hrounds : (s.evictables tier).card < n) :
    ∃ tr res s', (evictRounds env tier n).traced (exec env) i s = some (tr, res, s') ∧
      ((res = .error .exception ∧ ∃ e ∈ tr, UnloadThrows env e) ∨
        (res = .ok () ∧ s'.Trimmed env tier)) ∧
      ∀ p < s.nextRecord, ((s.records p).held = true ∨ ∀ e ∈ tr, ¬ e.label.picks env p e.before) →
        s'.records p = s.records p := by
  induction n generalizing s with
  | zero => exact absurd hrounds (Nat.not_lt_zero _)
  | succ n ih =>
    obtain ⟨s₁, hstep, -⟩ := exec_of_free env (.pickVictim tier) (fun _ => rfl) rfl hs.free
    have hpick : (sect (.pickVictim tier) fun s => s.pickVictim env tier).traced (exec env) i s =
        some ([⟨i, .pickVictim tier, s, s₁⟩], s.pickVictim env tier, s₁) :=
      Prog.traced_sect.mpr ⟨hstep, rfl, rfl⟩
    unfold evictRounds
    cases hvictim : s.pickVictim env tier with
    | none =>
      rw [hvictim] at hpick
      refine ⟨_, _, _, Prog.traced_of_bind.mpr ⟨_, _, _, _, hpick, rfl, rfl⟩, .inr ⟨rfl, ?_⟩, ?_⟩
      · obtain ⟨-, rfl⟩ := exec_eq_some.mp hstep
        exact hs.trimmed hvictim
      · intro p _ _
        obtain ⟨-, rfl⟩ := exec_eq_some.mp hstep
        rfl
    | some id =>
      rw [hvictim] at hpick
      obtain ⟨tr₂, res, s₂, v, hevict, hvid, hround⟩ := exists_round i hs hvictim hstep
      -- the victim was not held, and the first section picks it
      have hother : ∀ p tr, ((s.records p).held = true ∨
          ∀ e ∈ (⟨i, .pickVictim tier, s, s₁⟩ :: tr : List (Event Step Impl)),
            ¬ e.label.picks env p e.before) → p ≠ v := by
        rintro p tr hspared rfl
        rcases hspared with hheld | hunpicked
        · have hevictable := (Finset.mem_filter.mp hround.victim).2
          rw [ArtifactRecord.free_of_evictable hevictable] at hheld
          cases hheld
        · refine hunpicked _ List.mem_cons_self ?_
          show s.pickVictim env tier = some (s.records p).id
          rw [hvictim, hvid]
      rcases hround.done with rfl | ⟨rfl, hs₂, hgone⟩
      · refine ⟨_, _, _, Prog.traced_of_bind.mpr ⟨_, _, _, _, hpick,
          Prog.traced_of_bind.mpr ⟨_, _, _, _, hevict, rfl, rfl⟩, rfl⟩, .inl ⟨rfl, ?_⟩, ?_⟩
        · obtain ⟨e, he, hthrows⟩ := evictImpl_exception hevict
          exact ⟨e, List.mem_append_right _ (List.mem_append_left _ he), hthrows⟩
        · intro p _ hspared
          exact hround.others p (hother p _ hspared)
      · have hless := Impl.evictables_lt hround.victim hround.nextRecord hgone hround.others
        obtain ⟨tr₃, res, s', hrest, hend, hsame⟩ := ih hs₂ (by omega)
        refine ⟨_, _, _, Prog.traced_of_bind.mpr ⟨_, _, _, _, hpick,
          Prog.traced_of_bind.mpr ⟨_, _, _, _, hevict, hrest, rfl⟩, rfl⟩, ?_, ?_⟩
        · refine hend.imp_left fun hthrown => ⟨hthrown.1, ?_⟩
          obtain ⟨e, he, hthrows⟩ := hthrown.2
          exact ⟨e, List.mem_append_right _ (List.mem_append_right _ he), hthrows⟩
        · intro p hp hspared
          have hrecord := hround.others p (hother p _ hspared)
          rw [← hrecord]
          refine hsame p (hround.nextRecord.symm ▸ hp) ?_
          rw [hrecord]
          exact hspared.imp_right fun hunpicked e he =>
            hunpicked e (List.mem_append_right _ (List.mem_append_right _ he))

end Rounds

/-- **`evict_to_fit` comes to an end**, for any policy and either tier, from every state that
operations taken one at a time lead to.  On return the budget is not enforced, or what is counted is
within it, or nothing in the tier can be evicted; it does not return only when the unload of a victim
throws, and then by that exception.  Records that are held, and records that are not picked, are as
they were.  The loop of the source has no bound of rounds; any above the number of records stands for
it. -/
theorem evictToFit_terminates {env : Env} {store : FilePersistenceStore} {calls : List Call} {s : Impl}
    (hseq : Sequence env store calls s) (tier : ResidencyTier)
    (hsmall : s.total (fun r => (r.footprint tier).toNat) < 2 ^ 64)
    (hrounds : s.nextRecord < env.loopBound) (i : Nat) :
    ∃ tr res s', (evictToFit env tier).traced (exec env) i s = some (tr, res, s') ∧
      ((res = .error .exception ∧ ∃ e ∈ tr, UnloadThrows env e) ∨ (res = .ok () ∧
        (env.cfg.residency.applies tier = false ∨
          s'.countedUse tier ≤ (env.cfg.residency.budget tier).toNat ∨
          ∀ p < s'.nextRecord, (s'.records p).evictable tier = false))) ∧
      ∀ p < s.nextRecord, ((s.records p).held = true ∨ ∀ e ∈ tr, ¬ e.label.picks env p e.before) →
        s'.records p = s.records p := by
  have hcard : (s.evictables tier).card ≤ s.nextRecord := by
    refine (Finset.card_filter_le _ _).trans ?_
    rw [Finset.card_range]
  unfold evictToFit
  cases happly : env.cfg.residency.applies tier with
  | false =>
    have hoff := happly
    unfold ResidencyPolicy.applies at hoff
    dsimp only
    rw [hoff]
    exact ⟨[], .ok (), s, rfl, .inr ⟨rfl, .inl rfl⟩, fun _ _ _ => rfl⟩
  | true =>
    have hon := happly
    unfold ResidencyPolicy.applies at hon
    dsimp only
    rw [hon]
    obtain ⟨tr, res, s', hrun, hend, hsame⟩ := evictRounds_terminates env i
      ⟨hseq.sound, hseq.lockFree, hsmall⟩ (lt_of_le_of_lt hcard hrounds)
    exact ⟨tr, res, s', hrun, hend.imp_right fun hdone => ⟨hdone.1, .inr hdone.2⟩, hsame⟩

/-- A module that was loaded while its record was pinned is over the budget once the pin goes; the
loader does not throw, so the loop returns. -/
theorem evictToFit_terminates_full : ∃ calls s, Sequence fullDeviceEnv {} calls s ∧
    (s.records 0).evictable .deviceResident = true ∧
    s.total (fun r => (r.footprint .deviceResident).toNat) = 1 ∧ s.nextRecord = 1 ∧
    ∃ tr s', (evictToFit fullDeviceEnv .deviceResident).traced (exec fullDeviceEnv) 0 s =
        some (tr, .ok (), s') ∧
      (s'.countedUse .deviceResident = 0 ∨
        ∀ p < s'.nextRecord, (s'.records p).evictable .deviceResident = false) ∧
      ∀ p < s.nextRecord,
        ((s.records p).held = true ∨ ∀ e ∈ tr, ¬ e.label.picks fullDeviceEnv p e.before) →
        s'.records p = s.records p := by
  have hput : Sequence fullDeviceEnv {} _ _ := .call .fresh
    (show ((Operation.put sampleArtifact [1]).prog _).run _ _ = some (_, _) from rfl)
  have hpinned := hput.call
    (show ((Operation.pin ⟨⟨1, 7⟩⟩).prog _).run _ _ = some (_, _) from rfl)
  have hloaded := hpinned.call
    (show ((Operation.load ⟨⟨1, 7⟩⟩).prog _).run _ _ = some (_, _) from rfl)
  have hfree := hloaded.call
    (show ((Operation.unpin ⟨⟨1, 7⟩⟩).prog _).run _ _ = some (_, _) from rfl)
  have hquiet : ∀ e, ¬ UnloadThrows fullDeviceEnv e := by
    refine fun e => not_unloadThrows e fun b hb loader hloader now handle => ?_
    obtain rfl := List.mem_singleton.mp hb
    obtain rfl := Option.some.inj hloader
    simp
  refine ⟨_, _, hfree, rfl, rfl, rfl, ?_⟩
  obtain ⟨tr, res, s', hrun, hend, hsame⟩ :=
    evictToFit_terminates hfree .deviceResident (by decide) (by decide) 0
  rcases hend with ⟨-, e, -, hthrows⟩ | ⟨rfl, hfit⟩
  · exact absurd hthrows (hquiet e)
  · refine ⟨tr, s', hrun, ?_, hsame⟩
    rcases hfit with hoff | hfits | hnone
    · cases hoff
    · exact .inl (Nat.le_zero.mp hfits)
    · exact .inr hnone

end KernelCache
