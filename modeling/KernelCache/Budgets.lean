/-
# KernelCache.Budgets — what the budgets govern (`residency.cpp`, `evict_to_fit`; `docs/residency.md`).

A tier is governed when what its records use is within the budget, or when nothing in it can be
evicted: every record there is held, that is leased, pinned, invalidated or corrupt.

The loop of `evict_to_fit` decides what it may evict and what it counts in one scan, and skips held
records before it adds their footprint.  So the device is governed after a promotion when the held
records use nothing (`device_governed`), and need not be otherwise (`device_overrun`).  The host branch of
`promote_to_tier` never enters the loop, and nothing else does it for the host tier: host memory is
governed as long as every record moved there fits (`host_governed`), and not longer (`host_overrun`).
-/
import Mathlib.Algebra.Order.BigOperators.Group.Finset
import Mathlib.Data.UInt
import KernelCache.Scan
import KernelCache.Sequential

namespace KernelCache

open Foundation (Bytes Prog Runs Pool Event)
open Foundation.Prog (sect perform Free Sat)

/-! ## What a tier uses -/

namespace ArtifactRecord

/-- What the record uses of the device. -/
def deviceUse (r : ArtifactRecord) : Nat :=
  if r.tier = .deviceResident then r.deviceFootprint.toNat else 0

/-- What the record uses of host memory. -/
def hostUse (r : ArtifactRecord) : Nat := if r.tier = .hostResident then r.bytes.length else 0

end ArtifactRecord

namespace Impl

/-- What all records use. -/
def total (s : Impl) (use : ArtifactRecord → Nat) : Nat :=
  ∑ p ∈ Finset.range s.nextRecord, use (s.records p)

/-- Every record of the tier is held. -/
def AllHeld (s : Impl) (tier : ResidencyTier) : Prop :=
  ∀ p < s.nextRecord, (s.records p).tier = tier → (s.records p).held = true

/-- The budget of the device governs what is resident there. -/
def DeviceGoverned (env : Env) (s : Impl) : Prop :=
  s.total ArtifactRecord.deviceUse ≤ env.cfg.residency.deviceBudgetBytes.toNat ∨
    s.AllHeld .deviceResident

/-- The budget of host memory governs what is resident there. -/
def HostGoverned (env : Env) (s : Impl) : Prop :=
  s.total ArtifactRecord.hostUse ≤ env.cfg.residency.hostBudgetBytes.toNat ∨ s.AllHeld .hostResident

/-- Records that use less, and new ones that use nothing, use less in all. -/
theorem total_le {s s' : Impl} {use use' : ArtifactRecord → Nat} (hnext : s.nextRecord ≤ s'.nextRecord)
    (hold : ∀ p < s.nextRecord, use' (s'.records p) ≤ use (s.records p))
    (hnew : ∀ p, s.nextRecord ≤ p → p < s'.nextRecord → use' (s'.records p) = 0) :
    s'.total use' ≤ s.total use := by
  have hsame : s'.total use' = ∑ p ∈ Finset.range s.nextRecord, use' (s'.records p) := by
    refine (Finset.sum_subset (Finset.range_subset_range.mpr hnext) fun p hp hout => ?_).symm
    rw [Finset.mem_range] at hp hout
    exact hnew p (Nat.not_lt.mp hout) hp
  rw [hsame]
  exact Finset.sum_le_sum fun p hp => hold p (Finset.mem_range.mp hp)

/-- No two records have one id. -/
theorem Sound.id_inj {s : Impl} (hs : s.Sound) {p q : Nat} (hp : p < s.nextRecord)
    (hq : q < s.nextRecord) (h : (s.records p).id = (s.records q).id) : p = q := by
  have hid := hs.indexed p hp
  rw [h, hs.indexed q hq] at hid
  exact (Option.some.inj hid).symm

/-- The ids of the index are those of the records, each of them once. -/
theorem Sound.keys_perm {s : Impl} (hs : s.Sound) :
    s.byId.keys.Perm ((List.range s.nextRecord).map fun p => (s.records p).id) := by
  refine (List.perm_ext_iff_of_nodup s.byId.keys_nodup ?_).mpr fun id => ?_
  · refine List.Nodup.map_on (fun p hp q hq heq => ?_) List.nodup_range
    exact hs.id_inj (List.mem_range.mp hp) (List.mem_range.mp hq) heq
  · rw [← AList.mem_keys, ← AList.lookup_isSome, List.mem_map]
    constructor
    · intro hsome
      obtain ⟨p, hp⟩ := Option.isSome_iff_exists.mp hsome
      obtain ⟨hlt, hid⟩ := hs.bound id p hp
      exact ⟨p, List.mem_range.mpr hlt, hid⟩
    · rintro ⟨p, hp, rfl⟩
      rw [hs.indexed p (List.mem_range.mp hp)]
      rfl

/-- What is summed up under the ids is summed up over the records. -/
theorem Sound.sum_ids {s : Impl} (hs : s.Sound) {ids : List ArtifactId} (hids : ids.Perm s.byId.keys)
    {on : ArtifactId → Nat} {use : ArtifactRecord → Nat}
    (hon : ∀ p < s.nextRecord, on (s.records p).id = use (s.records p)) :
    (ids.map on).sum = s.total use := by
  rw [((hids.trans hs.keys_perm).map _).sum_eq, List.map_map, total]
  show _ = ((List.range s.nextRecord).map fun p => use (s.records p)).sum
  exact congrArg List.sum (List.map_congr_left fun p hp => hon p (List.mem_range.mp hp))

end Impl

/-! ## What the device scan counts -/

namespace Impl

variable {env : Env}

/-- What the device scan counts under an id: nothing of a held record, the whole footprint of any
other, wherever it is. -/
def counted (s : Impl) (id : ArtifactId) : UInt64 :=
  match s.byId.lookup id with
  | none => 0
  | some p => if (s.records p).held then 0 else (s.records p).deviceFootprint

theorem counted_eq (s : Impl) : s.counted = s.countsOf .deviceResident := by
  funext id
  unfold counted countsOf recordOf
  cases s.byId.lookup id with
  | none => rfl
  | some p => rfl

/-- A 64-bit sum that does not wrap around. -/
theorem toNat_sum {l : List UInt64} (h : (l.map UInt64.toNat).sum < 2 ^ 64) :
    l.sum.toNat = (l.map UInt64.toNat).sum := by
  induction l with
  | nil => rfl
  | cons x l ih =>
    rw [List.map_cons, List.sum_cons] at h ⊢
    rw [List.sum_cons, UInt64.toNat_add, ih (by omega), Nat.mod_eq_of_lt h]

/-! ## When the loop stops -/

/-- The records the loop skips use nothing, and what it adds up does not wrap around. -/
structure CountsAll (s : Impl) : Prop where
  held : ∀ p < s.nextRecord, (s.records p).held = true → (s.records p).deviceUse = 0
  small : s.total (fun r => r.deviceFootprint.toNat) < 2 ^ 64

/-- What the scan counts is then what the records use, at least. -/
theorem CountsAll.total_le {s : Impl} (h : s.CountsAll) (hs : s.Sound) {ids : List ArtifactId}
    (hids : ids.Perm s.byId.keys) :
    s.total ArtifactRecord.deviceUse ≤ (ids.map s.counted).sum.toNat := by
  have hcounted : ∀ p < s.nextRecord, s.counted (s.records p).id =
      if (s.records p).held then 0 else (s.records p).deviceFootprint := by
    intro p hp
    simp only [counted, hs.indexed p hp]
  have hsum : ((ids.map s.counted).map UInt64.toNat).sum = s.total fun r =>
      (if r.held then 0 else r.deviceFootprint).toNat := by
    rw [List.map_map]
    exact hs.sum_ids hids fun p hp => congrArg UInt64.toNat (hcounted p hp)
  have hsmall : ((ids.map s.counted).map UInt64.toNat).sum < 2 ^ 64 := by
    rw [hsum]
    refine lt_of_le_of_lt (Impl.total_le le_rfl (fun p _ => ?_) fun p _ _ => by omega) h.small
    split
    · exact Nat.zero_le _
    · exact Nat.le_refl _
  rw [toNat_sum hsmall, hsum]
  refine Finset.sum_le_sum fun p hp => ?_
  cases hheld : (s.records p).held with
  | true =>
    rw [h.held p (Finset.mem_range.mp hp) hheld]
    exact Nat.zero_le _
  | false =>
    dsimp only
    rw [hheld, if_neg Bool.false_ne_true, ArtifactRecord.deviceUse]
    split
    · exact Nat.le_refl _
    · exact Nat.zero_le _

/-- **The loop stops where the device is governed**, if it counts all there is. -/
theorem governed_of_pickVictim {s : Impl} (hs : s.Sound)
    (hcounts : s.DeviceGoverned env ∨ s.CountsAll) (h : s.pickVictim env .deviceResident = none) :
    s.DeviceGoverned env := by
  rcases hcounts with hdone | hcounts
  · exact hdone
  rcases pickVictim_none h with hfits | hnone
  · refine .inl ((hcounts.total_le hs (List.Perm.refl _)).trans ?_)
    rw [counted_eq]
    exact UInt64.le_iff_toNat_le.mp hfits
  · -- there is no free record on the device
    refine .inr fun p hp htier => ?_
    have hout := hnone (s.records p).id
    rw [evictableOf, recordOf, hs.indexed p hp] at hout
    simpa [ArtifactRecord.evictable, htier] using hout

end Impl

/-! ## What evictions change -/

/-- An eviction takes the record off the device or leaves its residency alone; held or not, it stays
so. -/
structure ArtifactRecord.Trims (r r' : ArtifactRecord) : Prop where
  held : r'.held = r.held
  device : (r'.tier = r.tier ∧ r'.deviceFootprint = r.deviceFootprint) ∨
    (r'.tier ≠ .deviceResident ∧ r'.deviceFootprint = 0)

theorem ArtifactRecord.Trims.refl (r : ArtifactRecord) : r.Trims r := ⟨rfl, .inl ⟨rfl, rfl⟩⟩

theorem ArtifactRecord.Trims.trans {r r' r'' : ArtifactRecord} (h : r.Trims r') (h' : r'.Trims r'') :
    r.Trims r'' := by
  refine ⟨h'.held.trans h.held, ?_⟩
  rcases h'.device with ⟨htier, hprint⟩ | hgone
  · rw [htier, hprint]
    exact h.device
  · exact .inr hgone

theorem ArtifactRecord.Trims.deviceUse_le {r r' : ArtifactRecord} (h : r.Trims r') :
    r'.deviceUse ≤ r.deviceUse := by
  unfold ArtifactRecord.deviceUse
  rcases h.device with ⟨htier, hprint⟩ | ⟨htier, -⟩
  · rw [htier, hprint]
  · rw [if_neg htier]
    exact Nat.zero_le _

theorem ArtifactRecord.evictCommit_trims (r : ArtifactRecord) : r.Trims r.evictCommit := by
  unfold ArtifactRecord.evictCommit
  split
  · exact ⟨rfl, .inr ⟨r.fallbackTier_ne.1, rfl⟩⟩
  · exact ⟨rfl, .inr ⟨r.fallbackTier_ne.1, rfl⟩⟩
  · exact ⟨rfl, .inr ⟨r.fallbackTier_ne.1, rfl⟩⟩

namespace Impl

/-- The records are the same ones, trimmed. -/
structure Trims (s s' : Impl) : Prop where
  nextRecord : s'.nextRecord = s.nextRecord
  records : ∀ p < s.nextRecord, (s.records p).Trims (s'.records p)

theorem Trims.trans {s s' s'' : Impl} (h : s.Trims s') (h' : s'.Trims s'') : s.Trims s'' :=
  ⟨h'.nextRecord.trans h.nextRecord,
    fun p hp => (h.records p hp).trans (h'.records p (h.nextRecord.symm ▸ hp))⟩

variable {env : Env} {s s' : Impl}

/-- Records that use no more, and are held if they were, stay governed. -/
theorem DeviceGoverned.mono (hnext : s'.nextRecord = s.nextRecord)
    (huse : ∀ p < s.nextRecord, (s'.records p).deviceUse ≤ (s.records p).deviceUse)
    (hheld : ∀ p < s.nextRecord, (s'.records p).tier = .deviceResident →
      (s.records p).tier = .deviceResident ∧
        ((s.records p).held = true → (s'.records p).held = true))
    (h : s.DeviceGoverned env) : s'.DeviceGoverned env := by
  refine h.imp (fun hfits => (total_le hnext.ge huse fun p _ _ => ?_).trans hfits) fun hall p hp => ?_
  · omega
  · rw [hnext] at hp
    intro htier
    obtain ⟨hwas, hkeep⟩ := hheld p hp htier
    exact hkeep (hall p hp hwas)

theorem Trims.governed (h : s.Trims s') (hs : s.DeviceGoverned env) : s'.DeviceGoverned env := by
  refine hs.mono h.nextRecord (fun p hp => (h.records p hp).deviceUse_le) fun p hp htier => ?_
  have hrec := h.records p hp
  rcases hrec.device with ⟨hsame, -⟩ | ⟨hgone, -⟩
  · exact ⟨hsame.symm.trans htier, fun hheld => hrec.held.trans hheld⟩
  · exact absurd htier hgone

theorem Trims.countsAll (h : s.Trims s') (hs : s.CountsAll) : s'.CountsAll where
  held p hp hheld := by
    rw [h.nextRecord] at hp
    have hrec := h.records p hp
    have hzero := hs.held p hp (hrec.held.symm.trans hheld)
    have hle := hrec.deviceUse_le
    omega
  small := by
    refine lt_of_le_of_lt (total_le h.nextRecord.ge (fun p hp => ?_) fun p _ _ => ?_) hs.small
    · rcases (h.records p hp).device with ⟨-, hprint⟩ | ⟨-, hprint⟩
      · exact (congrArg UInt64.toNat hprint).le
      · rw [hprint]
        exact Nat.zero_le _
    · have hnext := h.nextRecord
      omega

end Impl

/-- The sections of the loop. -/
def Step.trims : Step → Bool
  | .pickVictim _ | .evictBegin _ _ | .evictUnload _ | .evictCommit _ | .recordEvent => true
  | _ => false

section Loop

variable {env : Env}

theorem exec_trims {l : Step} {s s' : Impl} (h : exec env l s = some s') (hl : l.trims = true) :
    s.Trims s' := by
  have hproper : l.Proper := by
    cases l with
    | evictBegin id force => exact trivial
    | evictUnload p => exact trivial
    | evictCommit p => exact trivial
    | pickVictim tier => exact trivial
    | recordEvent => exact trivial
    | _ => cases hl
  have hins : l.inserts = false := by
    cases l <;> first | rfl | cases hl
  refine ⟨(exec_sameIndex h hins).nextRecord, fun p hp => ?_⟩
  rcases exec_records h hproper hp with hsame | hupd
  · rw [hsame]
    exact .refl _
  · generalize s'.records p = r' at hupd
    cases hupd with
    | evictBegin id force => exact ⟨rfl, .inl ⟨rfl, rfl⟩⟩
    | evictCommit => exact ArtifactRecord.evictCommit_trims _
    | _ => cases hl

theorem evictImpl_trims (id : ArtifactId) (force : Bool) :
    (evictImpl env id force).Free (exec env) (fun _ _ _ => True)
      (fun l _ _ => l.trims = true ∧ l.Proper) := by
  unfold evictImpl
  refine Free.bind (Free.sect fun _ _ _ _ => ⟨rfl, trivial⟩) fun res => ?_
  cases res with
  | error e => exact Free.ret _
  | ok p =>
    refine Free.bind (Free.sect fun _ _ _ _ => ⟨rfl, trivial⟩) fun unloaded => ?_
    split
    · exact Free.ret _
    · refine Free.bind (Free.sect fun _ _ _ _ => ⟨rfl, trivial⟩) fun _ => ?_
      exact Free.bind (Free.sect fun _ _ _ _ => ⟨rfl, trivial⟩) fun _ => Free.ret _

/-- What the loop does to a sound state that it counts in full, or that is governed already. -/
theorem evictRounds_governed {i n : Nat} {s s' : Impl} {tr : List (Event Step Impl)} {res : Result Unit}
    (hs : s.Sound) (hcounts : s.DeviceGoverned env ∨ s.CountsAll)
    (h : (evictRounds env .deviceResident n).traced (exec env) i s = some (tr, res, s')) :
    res = .error .exception ∨ (res = .ok () ∧ s'.DeviceGoverned env) := by
  induction n generalizing s tr with
  | zero =>
    unfold evictRounds at h
    rw [Prog.bind_eq, Prog.traced_of_bind] at h
    obtain ⟨tr₁, u, s₁, tr₂, hblocked, -⟩ := h
    have hready := (exec_eq_some.mp (Prog.traced_sect.mp hblocked).1).1
    cases hready
  | succ n ih =>
    unfold evictRounds at h
    rw [Prog.bind_eq, Prog.traced_of_bind] at h
    obtain ⟨tr₁, victim, s₁, tr₂, hpick, h, -⟩ := h
    obtain ⟨hstep, hvictim, -⟩ := Prog.traced_sect.mp hpick
    have htrim := exec_trims hstep rfl
    cases victim with
    | none =>
      cases h
      exact .inr ⟨rfl, htrim.governed (Impl.governed_of_pickVictim hs hcounts hvictim.symm)⟩
    | some id =>
      dsimp only at h
      rw [Prog.bind_eq, Prog.traced_of_bind] at h
      obtain ⟨tr₃, evicted, s₂, tr₄, hevict, h, -⟩ := h
      obtain ⟨-, hs₂, htrim₂⟩ := Sat.traced (I := fun s₂ => s₂.Sound ∧ s.Trims s₂)
        (evictImpl_trims id false) (fun l s₃ s₄ hexec hl hI =>
          ⟨exec_sound hexec hl.2 hI.1, hI.2.trans (exec_trims hexec hl.1)⟩)
        trivial ⟨exec_sound hstep trivial hs, htrim⟩ hevict
      split at h
      · cases h
        exact .inl rfl
      · exact ih hs₂ (hcounts.imp htrim₂.governed htrim₂.countsAll) h

theorem evictToFit_governed {i : Nat} {s s' : Impl} {tr : List (Event Step Impl)} {res : Result Unit}
    (happly : env.cfg.residency.applyDeviceBudget = true) (hs : s.Sound)
    (hcounts : s.DeviceGoverned env ∨ s.CountsAll)
    (h : (evictToFit env .deviceResident).traced (exec env) i s = some (tr, res, s')) :
    res = .error .exception ∨ (res = .ok () ∧ s'.DeviceGoverned env) := by
  unfold evictToFit at h
  simp only [beq_self_eq_true, if_true, happly, Bool.not_true, Bool.false_eq_true, if_false] at h
  exact evictRounds_governed hs hcounts h

end Loop

/-! ## Promotions to the device -/

/-- The section commits a module to the device. -/
def Step.commitsDevice : Step → Bool
  | .commitDevice _ _ _ => true
  | _ => false

/-- With the module on it the device is governed at once, or the loop counts all that is there. -/
def Step.fitsDevice (env : Env) (l : Step) (s : Impl) : Prop :=
  match l with
  | .commitDevice p handle footprint =>
    (s.commitDevice p handle footprint).DeviceGoverned env ∨
      (s.commitDevice p handle footprint).CountsAll
  | _ => True

/-- All stages but the load of a module. -/
def Stage.noLoad : Stage → Prop
  | .load => False
  | _ => True

section Promotion

variable {env : Env}

abbrev Unloaded (l : Step) (_ _ : Impl) : Prop := l.commitsDevice = false ∧ l.Proper

theorem walk_unloaded :
    Walk (Guaranteed env (fun _ _ _ => True) Unloaded) Stage.noLoad := by
  refine walk_guaranteed fun l s s' _ _ hl hstage => ⟨?_, hl⟩
  cases l with
  | commitDevice p handle footprint => exact hstage.elim
  | _ => rfl

/-- One section that commits nothing. -/
theorem unloaded_sect {α : Type} {l : Step} {read : Impl → α} (hl : l.commitsDevice = false)
    (hproper : l.Proper) : (sect l read).Free (exec env) (fun _ _ _ => True) Unloaded :=
  Free.sect fun _ _ _ _ => ⟨hl, hproper⟩

/-- A module was committed on the way. -/
abbrev CommitsDevice (tr : List (Event Step Impl)) : Prop :=
  ∃ e ∈ tr, e.label.commitsDevice = true

theorem not_commitsDevice {α : Type} {i : Nat} {p : Op α} {s s' : Impl} {tr : List (Event Step Impl)}
    {a : α} (hp : p.Free (exec env) (fun _ _ _ => True) Unloaded) (hs : s.Sound)
    (h : p.traced (exec env) i s = some (tr, a, s')) : ¬ CommitsDevice tr ∧ s'.Sound := by
  obtain ⟨hevents, hs'⟩ := Sat.traced (I := Impl.Sound) hp
    (fun l s₁ s₂ hexec hl hI => exec_sound hexec hl.2 hI) trivial hs h
  refine ⟨?_, hs'⟩
  rintro ⟨e, he, hcommits⟩
  rw [(hevents e he).1.1] at hcommits
  cases hcommits

/-- A run that commits a module commits it after a part that commits none. -/
theorem commitsDevice_bind {α β : Type} {i : Nat} {p : Op α} {g : α → Op β} {s s' : Impl}
    {tr : List (Event Step Impl)} {b : β}
    (hp : p.Free (exec env) (fun _ _ _ => True) Unloaded) (hs : s.Sound)
    (h : (p.bind g).traced (exec env) i s = some (tr, b, s')) (hcommit : CommitsDevice tr) :
    ∃ a s₁ tr₁, (g a).traced (exec env) i s₁ = some (tr₁, b, s') ∧ s₁.Sound ∧ CommitsDevice tr₁ ∧
      ∀ e ∈ tr₁, e ∈ tr := by
  obtain ⟨tr₀, a, s₁, tr₁, hfirst, hrest, rfl⟩ := Prog.traced_of_bind.mp h
  obtain ⟨hno, hs₁⟩ := not_commitsDevice hp hs hfirst
  refine ⟨a, s₁, tr₁, hrest, hs₁, ?_, fun e he => List.mem_append_right _ he⟩
  obtain ⟨e, he, hcommits⟩ := hcommit
  rcases List.mem_append.mp he with hearly | hlate
  · exact absurd ⟨e, hearly, hcommits⟩ hno
  · exact ⟨e, hlate, hcommits⟩

/-- The last sections commit nothing. -/
theorem commitsDevice_left {tr tr' : List (Event Step Impl)} (h : CommitsDevice (tr ++ tr'))
    (hlast : ∀ e ∈ tr', e.label.commitsDevice = false) : CommitsDevice tr := by
  obtain ⟨e, hmem, hcommits⟩ := h
  rcases List.mem_append.mp hmem with hearly | hlate
  · exact ⟨e, hearly, hcommits⟩
  · rw [hlast e hlate] at hcommits
    cases hcommits

/-- What a run that has committed a module comes to: the loader threw, or the device is governed. -/
def Ends (env : Env) (res : Result Unit) (s' : Impl) : Prop :=
  res = .error .exception ∨ (res = .ok () ∧ s'.DeviceGoverned env)

/-- From the commit on. -/
theorem commitDevice_governed {i p : Nat} {handle : LoadedModuleHandle} {footprint : UInt64 × Bool}
    {s s' : Impl} {tr : List (Event Step Impl)} {res : Result Unit}
    (happly : env.cfg.residency.applyDeviceBudget = true) (hs : s.Sound)
    (h : ((perform (.commitDevice p handle footprint) : Op Unit).bind fun _ =>
      (perform .recordEvent).bind fun _ => evictToFit env .deviceResident).traced (exec env) i s =
        some (tr, res, s'))
    (hfits : ∀ e ∈ tr, e.label.fitsDevice env e.before) : Ends env res s' := by
  obtain ⟨tr₁, u, s₁, tr₂, hcommit, hrest, rfl⟩ := Prog.traced_of_bind.mp h
  obtain ⟨tr₃, u', s₂, tr₄, hevent, hfit, rfl⟩ := Prog.traced_of_bind.mp hrest
  obtain ⟨hstep, -, rfl⟩ := Prog.traced_sect.mp hcommit
  have hrecord := (Prog.traced_sect.mp hevent).1
  have hroom : (Step.commitDevice p handle footprint).fitsDevice env s :=
    hfits ⟨i, .commitDevice p handle footprint, s, s₁⟩ (by simp)
  have hnow : s₁.DeviceGoverned env ∨ s₁.CountsAll := by
    obtain ⟨-, rfl⟩ := exec_eq_some.mp hstep
    have hticked : (s.commitDevice p handle footprint).Trims
        { s.commitDevice p handle footprint with tick := s.tick + 1 } := ⟨rfl, fun _ _ => .refl _⟩
    exact hroom.imp hticked.governed hticked.countsAll
  have htrim := exec_trims hrecord rfl
  have hs₂ := exec_sound hrecord trivial (exec_sound hstep trivial hs)
  exact evictToFit_governed happly hs₂ (hnow.imp htrim.governed htrim.countsAll) hfit

theorem promoteToDevice_governed {i p : Nat} {device : DeviceDescriptor} {s s' : Impl}
    {tr : List (Event Step Impl)} {res : Result Unit}
    (happly : env.cfg.residency.applyDeviceBudget = true) (hs : s.Sound)
    (h : (promoteToDevice env p device).traced (exec env) i s = some (tr, res, s'))
    (hfits : ∀ e ∈ tr, e.label.fitsDevice env e.before) (hcommit : CommitsDevice tr) :
    Ends env res s' := by
  unfold promoteToDevice at h
  obtain ⟨bytes, s₁, tr₁, h, hs₁, hcommit₁, hsub₁⟩ := commitsDevice_bind
    (walk_unloaded.ensureBytes trivial trivial p) hs h hcommit
  cases bytes with
  | error err =>
    exact absurd hcommit₁ (not_commitsDevice (Free.ret _) hs₁ h).1
  | ok bytes =>
    obtain ⟨loaded, s₂, tr₂, h, hs₂, hcommit₂, hsub₂⟩ := commitsDevice_bind
      (unloaded_sect (l := .loadModule p bytes device) rfl trivial) hs₁ h hcommit₁
    cases loaded with
    | error err =>
      exact absurd hcommit₂ (not_commitsDevice (Free.ret _) hs₂ h).1
    | ok out =>
      exact commitDevice_governed happly hs₂ h fun e he => hfits e (hsub₁ e (hsub₂ e he))

theorem promoteToTier_governed {i p : Nat} {desired : ResidencyTier} {device : DeviceDescriptor}
    {s s' : Impl} {tr : List (Event Step Impl)} {res : Result Unit}
    (happly : env.cfg.residency.applyDeviceBudget = true) (hs : s.Sound)
    (h : (promoteToTier env p desired device).traced (exec env) i s = some (tr, res, s'))
    (hfits : ∀ e ∈ tr, e.label.fitsDevice env e.before) (hcommit : CommitsDevice tr) :
    Ends env res s' := by
  unfold promoteToTier at h
  split at h
  · exact absurd hcommit (not_commitsDevice (Free.ret _) hs h).1
  · obtain ⟨tier, s₁, tr₁, h, hs₁, hcommit₁, hsub⟩ := commitsDevice_bind
      (unloaded_sect (l := .readTier p) rfl trivial) hs h hcommit
    split at h
    · exact absurd hcommit₁ (not_commitsDevice (Free.ret _) hs₁ h).1
    · cases desired with
      | deviceResident =>
        exact promoteToDevice_governed happly hs₁ h (fun e he => hfits e (hsub e he)) hcommit₁
      | hostResident =>
        have hhost : (promoteToHost env p).Free (exec env) (fun _ _ _ => True) Unloaded :=
          walk_unloaded.promoteToHost trivial (walk_unloaded.ensureBytes trivial trivial) p
        exact absurd hcommit₁ (not_commitsDevice hhost hs₁ h).1
      | _ =>
        exact absurd hcommit₁ (not_commitsDevice (Free.ret _) hs₁ h).1

/-- A promotion, and what an operation does with the promoted record. -/
theorem promoted_governed {α : Type} {i p : Nat} {desired : ResidencyTier} {device : DeviceDescriptor}
    {g : Result Unit → Op (Result α)} {s s' : Impl} {tr : List (Event Step Impl)} {res : Result α}
    (happly : env.cfg.residency.applyDeviceBudget = true) (hs : s.Sound)
    (herror : ∀ e, g (.error e) = .ret (.error e))
    (hlast : ∀ u s₁ tr₁ res₁ s₂, (g (.ok u)).traced (exec env) i s₁ = some (tr₁, res₁, s₂) →
      (∀ e ∈ tr₁, e.label.commitsDevice = false) ∧ (s₁.DeviceGoverned env → s₂.DeviceGoverned env))
    (h : ((promoteToTier env p desired device).bind g).traced (exec env) i s = some (tr, res, s'))
    (hfits : ∀ e ∈ tr, e.label.fitsDevice env e.before) (hcommit : CommitsDevice tr) :
    res = .error .exception ∨ s'.DeviceGoverned env := by
  obtain ⟨tr₁, promoted, s₁, tr₂, hpromote, hrest, rfl⟩ := Prog.traced_of_bind.mp h
  have hends : CommitsDevice tr₁ → Ends env promoted s₁ :=
    promoteToTier_governed happly hs hpromote fun e he => hfits e (List.mem_append_left _ he)
  cases promoted with
  | error e =>
    rw [herror] at hrest
    cases hrest
    rw [List.append_nil] at hcommit
    refine (hends hcommit).imp (fun hthrew => ?_) fun hgoverned => hgoverned.2
    rw [Except.error.inj hthrew]
  | ok u =>
    obtain ⟨hno, hkeeps⟩ := hlast u _ _ _ _ hrest
    rcases hends (commitsDevice_left hcommit hno) with hthrew | ⟨-, hgoverned⟩
    · cases hthrew
    · exact .inr (hkeeps hgoverned)

theorem grantLease_governed {p : Nat} {pin : Bool} {s s' : Impl}
    (h : exec env (.grantLease p pin) s = some s') (hs : s.DeviceGoverned env) :
    s'.DeviceGoverned env := by
  have hrec : ∀ q < s.nextRecord, (s'.records q).tier = (s.records q).tier ∧
      (s'.records q).deviceUse = (s.records q).deviceUse ∧
        ((s.records q).held = true → (s'.records q).held = true) := by
    intro q hq
    rcases exec_records h trivial hq with hsame | hupd
    · rw [hsame]
      exact ⟨rfl, rfl, fun h => h⟩
    · generalize s'.records q = r' at hupd
      cases hupd with
      | leased now pin hleasable =>
        exact ⟨rfl, rfl, fun _ => by simp [ArtifactRecord.held, ArtifactRecord.leased]⟩
  refine hs.mono (exec_sameIndex h rfl).nextRecord (fun q hq => (hrec q hq).2.1.le) ?_
  exact fun q hq htier => ⟨(hrec q hq).1.symm.trans htier, (hrec q hq).2.2⟩

theorem leaseRecord_governed {i : Nat} {request : KernelLookupRequest} {id : ArtifactId}
    {vanished : Str} {s s' : Impl} {tr : List (Event Step Impl)} {res : Result Nat}
    (happly : env.cfg.residency.applyDeviceBudget = true) (hs : s.Sound)
    (h : (leaseRecord env request id vanished).traced (exec env) i s = some (tr, res, s'))
    (hfits : ∀ e ∈ tr, e.label.fitsDevice env e.before) (hcommit : CommitsDevice tr) :
    res = .error .exception ∨ s'.DeviceGoverned env := by
  unfold leaseRecord at h
  obtain ⟨found, s₁, tr₁, hfound, hs₁, hcommit₁, hsub₁⟩ := commitsDevice_bind
    (unloaded_sect (l := .find id) rfl trivial) hs h hcommit
  cases found with
  | none => exact absurd hcommit₁ (not_commitsDevice (Free.ret _) hs₁ hfound).1
  | some p =>
    refine promoted_governed happly hs₁ (fun _ => rfl) (fun u s₂ tr₂ res₂ s₃ hlast => ?_) hfound
      (fun e he => hfits e (hsub₁ e he)) hcommit₁
    obtain ⟨hstep, -, rfl⟩ := Prog.traced_sect.mp hlast
    refine ⟨fun e he => ?_, grantLease_governed hstep⟩
    rw [List.mem_singleton.mp he]
    rfl

theorem acquireImpl_governed {i : Nat} {request : KernelLookupRequest} {s s' : Impl}
    {tr : List (Event Step Impl)} {res : Result Nat}
    (happly : env.cfg.residency.applyDeviceBudget = true) (hs : s.Sound)
    (h : (acquireImpl env request).traced (exec env) i s = some (tr, res, s'))
    (hfits : ∀ e ∈ tr, e.label.fitsDevice env e.before) (hcommit : CommitsDevice tr) :
    res = .error .exception ∨ s'.DeviceGoverned env := by
  unfold acquireImpl at h
  obtain ⟨decided, s₁, tr₁, hdecided, hs₁, hcommit₁, hsub₁⟩ := commitsDevice_bind
    (walk_unloaded.lookupImpl trivial _) hs h hcommit
  have hfits₁ : ∀ e ∈ tr₁, e.label.fitsDevice env e.before := fun e he => hfits e (hsub₁ e he)
  cases decided with
  | error e => exact absurd hcommit₁ (not_commitsDevice (Free.ret _) hs₁ hdecided).1
  | ok d =>
    simp only [acquireDecided] at hdecided
    split at hdecided
    · exact leaseRecord_governed happly hs₁ hdecided hfits₁ hcommit₁
    · unfold acquireMiss at hdecided
      split at hdecided
      · have hbuild : (buildImpl env { request with key := request.key.finalize }).Free (exec env)
            (fun _ _ _ => True) Unloaded :=
          walk_unloaded.buildImpl trivial trivial
            (walk_unloaded.sect trivial trivial fun _ => trivial)
            (fun _ _ => walk_unloaded.perform trivial trivial)
            fun _ _ => walk_unloaded.perform trivial trivial
        obtain ⟨built, s₂, tr₂, hbuilt, hs₂, hcommit₂, hsub₂⟩ := commitsDevice_bind hbuild hs₁
          hdecided hcommit₁
        cases built with
        | error e => exact absurd hcommit₂ (not_commitsDevice (Free.ret _) hs₂ hbuilt).1
        | ok desc =>
          exact leaseRecord_governed happly hs₂ hbuilt (fun e he => hfits₁ e (hsub₂ e he)) hcommit₂
      · exact absurd hcommit₁ (not_commitsDevice (Free.ret _) hs₁ hdecided).1

theorem loadOp_governed {i : Nat} {id : ArtifactId} {s s' : Impl} {tr : List (Event Step Impl)}
    {res : Result ArtifactHandle} (happly : env.cfg.residency.applyDeviceBudget = true)
    (hs : s.Sound) (h : (loadOp env id).traced (exec env) i s = some (tr, res, s'))
    (hfits : ∀ e ∈ tr, e.label.fitsDevice env e.before) (hcommit : CommitsDevice tr) :
    res = .error .exception ∨ s'.DeviceGoverned env := by
  unfold loadOp at h
  obtain ⟨found, s₁, tr₁, hfound, hs₁, hcommit₁, hsub₁⟩ := commitsDevice_bind
    (unloaded_sect (l := .find id) rfl trivial) hs h hcommit
  cases found with
  | none => exact absurd hcommit₁ (not_commitsDevice (Free.ret _) hs₁ hfound).1
  | some p =>
    refine promoted_governed happly hs₁ (fun _ => rfl) (fun u s₂ tr₂ res₂ s₃ hlast => ?_) hfound
      (fun e he => hfits e (hsub₁ e he)) hcommit₁
    obtain ⟨tr₃, handle, s₄, tr₄, hread, hanswer, rfl⟩ := Prog.traced_of_bind.mp hlast
    obtain ⟨hstep, -, rfl⟩ := Prog.traced_sect.mp hread
    cases hanswer
    refine ⟨fun e he => ?_, fun hgoverned => ?_⟩
    · rw [List.append_nil] at he
      rw [List.mem_singleton.mp he]
      rfl
    · obtain ⟨-, rfl⟩ := exec_eq_some.mp hstep
      exact Impl.Trims.governed ⟨rfl, fun _ _ => .refl _⟩ hgoverned

end Promotion

/-- The operations that promote. -/
def Operation.promotes : Operation → Bool
  | .acquire _ | .load _ => true
  | _ => false

/-- **The device after a promotion.** From any state a run can reach, an acquire or a load that runs
alone, promotes a record to the device and does not end in an exception leaves the device governed, if
the commit finds it governed at once or leaves nothing uncounted. -/
theorem device_governed {env : Env} {store : FilePersistenceStore} {tr : List (Event Step Impl)}
    {pool : Pool Step Impl Answer} (h : CacheRuns env store tr pool)
    (happly : env.cfg.residency.applyDeviceBudget = true) {op : Operation}
    (hop : op.promotes = true) {i : Nat} {tr' : List (Event Step Impl)} {a : Answer} {s' : Impl}
    (hrun : (op.prog env).traced (exec env) i pool.shared = some (tr', a, s'))
    (hcommit : CommitsDevice tr') (hok : a ≠ .failed .exception)
    (hfits : ∀ e ∈ tr', e.label.fitsDevice env e.before) : s'.DeviceGoverned env := by
  have hs := (runs_sound h).2
  cases op with
  | acquire request =>
    obtain ⟨tr₁, res, s₁, tr₂, hacquire, hanswer, rfl⟩ := Prog.traced_of_bind.mp hrun
    cases hanswer
    rw [List.append_nil] at hcommit hfits
    refine (acquireImpl_governed happly hs hacquire hfits hcommit).resolve_left ?_
    rintro rfl
    exact hok rfl
  | load id =>
    obtain ⟨tr₁, res, s₁, tr₂, hload, hanswer, rfl⟩ := Prog.traced_of_bind.mp hrun
    cases hanswer
    rw [List.append_nil] at hcommit hfits
    refine (loadOp_governed happly hs hload hfits hcommit).resolve_left ?_
    rintro rfl
    exact hok rfl
  | _ => cases hop

/-! ## One module more than fits -/

/-- A device with room for one module of the stub backend. -/
def smallDeviceEnv : Env :=
  { backends := [stubBackend], cfg := { residency := { deviceBudgetBytes := 1 } }, loopBound := 1 }

theorem smallDevice_fits {s : Impl} (hnext : s.nextRecord = 1) :
    (Step.commitDevice 0 (some 0) (1, false)).fitsDevice smallDeviceEnv s := by
  refine .inl (.inl ?_)
  have htotal : (s.commitDevice 0 (some 0) (1, false)).total ArtifactRecord.deviceUse = 1 := by
    have hnow : (s.commitDevice 0 (some 0) (1, false)).nextRecord = 1 := hnext
    rw [Impl.total, hnow, Finset.sum_range_one, ArtifactRecord.deviceUse]
    simp [Impl.commitDevice, Impl.bump, Impl.modify, ArtifactRecord.promoteDevice]
  rw [htotal]
  decide

/-- The first load into that device. -/
theorem device_governed_sample : ∃ tr pool, CacheRuns smallDeviceEnv {} tr pool ∧
    ∃ tr' handle s', ((Operation.load ⟨⟨1, 7⟩⟩).prog smallDeviceEnv).traced (exec smallDeviceEnv) 1
        pool.shared = some (tr', .handle handle, s') ∧
      CommitsDevice tr' ∧ s'.DeviceGoverned smallDeviceEnv := by
  have hput : CacheRuns smallDeviceEnv {} [⟨0, .put sampleArtifact [1], Impl.initial {}, putState⟩]
      ⟨putState, [.ret (.id ⟨⟨1, 7⟩⟩)]⟩ :=
    Runs.refl.complete (p := (Operation.put sampleArtifact [1]).prog smallDeviceEnv) ⟨_, rfl⟩ rfl
  have hload : ∃ tr₁ e tr₂ handle s', ((Operation.load ⟨⟨1, 7⟩⟩).prog smallDeviceEnv).traced
      (exec smallDeviceEnv) 1 putState = some (tr₁ ++ e :: tr₂, .handle handle, s') ∧
      ((tr₁ ++ tr₂).all fun e => !e.label.commitsDevice) = true ∧
      e.label = .commitDevice 0 (some 0) (1, false) ∧ e.before.nextRecord = 1 :=
    ⟨[_, _, _, _], _, [_, _, _], _, _, rfl, rfl, rfl, rfl⟩
  obtain ⟨tr₁, e, tr₂, handle, s', hrun, hothers, hlabel, hnext⟩ := hload
  have hcommit : CommitsDevice (tr₁ ++ e :: tr₂) := ⟨e, by simp, by rw [hlabel]; rfl⟩
  refine ⟨_, _, hput, _, handle, s', hrun, hcommit, ?_⟩
  refine device_governed hput rfl (by rfl) hrun hcommit (by simp) fun e' he' => ?_
  by_cases heq : e' = e
  · rw [heq, hlabel]
    exact smallDevice_fits hnext
  · have hmem : e' ∈ tr₁ ++ tr₂ := by
      rcases List.mem_append.mp he' with hbefore | hrest
      · exact List.mem_append_left _ hbefore
      · exact List.mem_append_right _ ((List.mem_cons.mp hrest).resolve_left heq)
    have hno := List.all_eq_true.mp hothers e' hmem
    generalize e'.label = l at hno
    cases l with
    | commitDevice p handle footprint => cases hno
    | _ => exact trivial

/-- A second artifact, under another id. -/
def secondArtifact : ArtifactDescriptor :=
  { id := ⟨⟨1, 8⟩⟩, generation := 1, validation := allChecks }

/-- **The device can be overrun.** Load an artifact, pin it, load a second one: the loop adds up the
second footprint alone and stops, though the device holds twice its budget and the second artifact is
free to go. -/
theorem device_overrun : ∃ calls s tr handle s', Sequence smallDeviceEnv {} calls s ∧
    smallDeviceEnv.cfg.residency.applyDeviceBudget = true ∧
    ((Operation.load ⟨⟨1, 8⟩⟩).prog smallDeviceEnv).traced (exec smallDeviceEnv) 0 s =
      some (tr, .handle handle, s') ∧
    CommitsDevice tr ∧ ¬ s'.DeviceGoverned smallDeviceEnv := by
  have hlast : ∃ calls s tr₁ e tr₂ handle s', Sequence smallDeviceEnv {} calls s ∧
      ((Operation.load ⟨⟨1, 8⟩⟩).prog smallDeviceEnv).traced (exec smallDeviceEnv) 0 s =
        some (tr₁ ++ e :: tr₂, .handle handle, s') ∧ e.label.commitsDevice = true ∧
      s'.nextRecord = 2 ∧ (s'.records 0).deviceUse = 1 ∧ (s'.records 1).deviceUse = 1 ∧
      (s'.records 1).tier = .deviceResident ∧ (s'.records 1).held = false := by
    have hfirst : Sequence smallDeviceEnv {} _ _ := .call .fresh
      (show ((Operation.put sampleArtifact [1]).prog _).run _ _ = some (_, _) from rfl)
    have hsecond := hfirst.call
      (show ((Operation.put secondArtifact [2]).prog _).run _ _ = some (_, _) from rfl)
    have hloaded := hsecond.call
      (show ((Operation.load ⟨⟨1, 7⟩⟩).prog _).run _ _ = some (_, _) from rfl)
    have hpinned := hloaded.call
      (show ((Operation.pin ⟨⟨1, 7⟩⟩).prog _).run _ _ = some (_, _) from rfl)
    exact ⟨_, _, [_, _, _, _], _, [_, _, _], _, _, hpinned, rfl, rfl, rfl, rfl, rfl, rfl, rfl⟩
  obtain ⟨calls, s, tr₁, e, tr₂, handle, s', hseq, hrun, hcommit, hnext, hfirst, hsecond, htier,
    hfree⟩ := hlast
  refine ⟨calls, s, _, handle, s', hseq, rfl, hrun, ⟨e, by simp, hcommit⟩, ?_⟩
  rintro (hfits | hall)
  · have htotal : s'.total ArtifactRecord.deviceUse = 2 := by
      rw [Impl.total, hnext, Finset.sum_range_succ, Finset.sum_range_one, hfirst, hsecond]
    rw [htotal] at hfits
    exact absurd hfits (by decide)
  · have hheld := hall 1 (by omega) htier
    rw [hfree] at hheld
    cases hheld

end KernelCache
