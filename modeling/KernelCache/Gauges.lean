/-
# KernelCache.Gauges — what the gauges of `stats()` say and what is there.

`active_leases`, `active_builds` and `active_device_loads` are counters that should stand for something:
the live leases, the owner builds in progress, the records that are device-resident.  Each is counted
up where the thing begins.  Leases are counted down where they end, builds unless the backend throws,
device loads never; `reset_stats` sets all three to zero whatever is there.  `gauges_real_iff` lists the
sections that part a gauge from what it stands for: in a run without them the three agree in every
state, and the first one that is taken ends the agreement.
-/
import KernelCache.Duties
import KernelCache.LeaseCounts
import KernelCache.Records

namespace KernelCache

open Foundation (Prog Runs Pool Event OnPart okOnPart nextOnPart census phases)
open Foundation.Prog (sect perform Phased)

/-! ## What the gauges stand for -/

/-- The duty of a thread of the users. -/
abbrev leaseDuties (env : Env) (tr : List (Event LeaseStep Leasing)) : Nat → Duty :=
  phases (nextOnPart LeaseStep.base Leasing.impl (Duty.next env)) (fun _ => .none) tr

/-- How many owners have a build in progress: the slot is taken, and it is neither counted out nor has
the backend thrown. -/
def buildsInProgress (env : Env) (tr : List (Event LeaseStep Leasing)) : Nat :=
  census (· ≠ Duty.none) (nextOnPart LeaseStep.base Leasing.impl (Duty.next env)) (fun _ => .none) tr

namespace Impl

/-- The leases granted and not counted down. -/
def liveLeases (s : Impl) (tr : List (Event LeaseStep Leasing)) : Finset Nat :=
  (Finset.range s.nextLease).filter fun k => countDowns tr k = 0

/-- The records on the device. -/
def deviceResident (s : Impl) : Finset Nat :=
  (Finset.range s.nextRecord).filter fun p => (s.records p).tier = .deviceResident

end Impl

/-- **The gauges are right.** -/
structure GaugesReal (env : Env) (tr : List (Event LeaseStep Leasing)) (s : Impl) : Prop where
  activeLeases : s.stats.activeLeases = (s.liveLeases tr).card
  activeBuilds : s.stats.activeBuilds = buildsInProgress env tr
  activeDeviceLoads : s.stats.activeDeviceLoads = s.deviceResident.card

/-- The section counts what it does to the records on the device: it brings one there that was not, or
takes none away. -/
def Step.countsLoads (s : Impl) : Step → Prop
  | .commitDevice p _ _ => p < s.nextRecord ∧ (s.records p).tier ≠ .deviceResident
  | .commitHost p | .evictCommit p | .unloadCommit p =>
    p < s.nextRecord → (s.records p).tier ≠ .deviceResident
  | .markPersisted o =>
    ∀ p, s.byId.lookup o.id = some p → p < s.nextRecord → (s.records p).tier ≠ .deviceResident
  | _ => True

/-- The section keeps the gauges right. -/
def KeepsGauges (env : Env) (tr : List (Event LeaseStep Leasing)) (e : Event LeaseStep Leasing) :
    Prop :=
  match e.label.base with
  | some .resetStats => (e.before.impl.liveLeases tr).card = 0 ∧ buildsInProgress env tr = 0 ∧
      e.before.impl.deviceResident.card = 0
  | some l => ¬ l.Throws env e.before.impl ∧ l.countsLoads e.before.impl
  | none => True

/-! ## Records on the device -/

/-- A section that rewrites one record. -/
theorem exec_deviceResident_rewritten {env : Env} {l : Step} {s s' : Impl}
    (h : exec env l s = some s') (hins : l.inserts = false) {p : Nat}
    {f : ArtifactRecord → ArtifactRecord}
    (heffect : (l.effect env s).records = (s.modify p f).records) :
    s'.deviceResident.card +
        (if p < s.nextRecord ∧ (s.records p).tier = .deviceResident then 1 else 0) =
      s.deviceResident.card +
        if p < s.nextRecord ∧ (f (s.records p)).tier = .deviceResident then 1 else 0 := by
  have hnext := (exec_sameIndex h hins).nextRecord
  have hrec := exec_rewritten h heffect
  have hothers : s'.deviceResident.erase p = s.deviceResident.erase p := by
    ext q
    simp only [Impl.deviceResident, Finset.mem_erase, Finset.mem_filter, hnext]
    refine and_congr_right fun hq => ?_
    rw [hrec q, if_neg hq]
  have hold : p ∈ s.deviceResident ↔ p < s.nextRecord ∧ (s.records p).tier = .deviceResident := by
    simp only [Impl.deviceResident, Finset.mem_filter, Finset.mem_range]
  have hnew : p ∈ s'.deviceResident ↔
      p < s.nextRecord ∧ (f (s.records p)).tier = .deviceResident := by
    simp only [Impl.deviceResident, Finset.mem_filter, Finset.mem_range, hnext, hrec p, if_true]
  rw [Foundation.card_eq_erase s.deviceResident p, Foundation.card_eq_erase s'.deviceResident p,
    hothers]
  simp only [hold, hnew]
  omega

/-- The other changes to a record neither bring it to the device nor take it from there. -/
theorem ArtifactRecord.Updates.onDevice {p : Nat} {l : Step} {r r' : ArtifactRecord}
    (h : ArtifactRecord.Updates p r l r') :
    (r'.tier = .deviceResident ↔ r.tier = .deviceResident) ∨
      (∃ handle footprint, l = .commitDevice p handle footprint) ∨ l = .commitHost p ∨
      l = .evictCommit p ∨ l = .unloadCommit p ∨ ∃ o, l = .markPersisted o := by
  cases h with
  | promoteDevice handle footprint => exact .inr (.inl ⟨handle, footprint, rfl⟩)
  | promoteHost => exact .inr (.inr (.inl rfl))
  | evictCommit => exact .inr (.inr (.inr (.inl rfl)))
  | unloaded => exact .inr (.inr (.inr (.inr (.inl rfl))))
  | persisted o => exact .inr (.inr (.inr (.inr (.inr ⟨o, rfl⟩))))
  | validatedBy res =>
    refine .inl ?_
    unfold ArtifactRecord.validatedBy
    split <;> exact Iff.rfl
  | _ => exact .inl Iff.rfl

/-- No record is loaded when it enters the index. -/
theorem Step.offers_onDevice {env : Env} {s : Impl} {l : Step} {r : ArtifactRecord}
    (h : r ∈ l.offers env s) : r.tier ≠ .deviceResident := by
  cases l with
  | publish fence o =>
    obtain rfl := List.mem_singleton.mp h
    exact ResidencyTier.noConfusion
  | put desc bytes =>
    obtain rfl := List.mem_singleton.mp h
    exact ResidencyTier.noConfusion
  | recoverInsert artifacts =>
    obtain ⟨a, -, rfl⟩ := List.mem_map.mp h
    exact ResidencyTier.noConfusion
  | _ => cases h

/-- A section that moves no record between tiers. -/
theorem exec_deviceResident {env : Env} {l : Step} {s s' : Impl} (h : exec env l s = some s')
    (hl : l.Proper) (hkeeps : ∀ p r r', ArtifactRecord.Updates p r l r' →
      (r'.tier = .deviceResident ↔ r.tier = .deviceResident)) :
    s'.deviceResident = s.deviceResident := by
  have hkept := exec_kept (c := fun r => decide (r.tier = .deviceResident)) (z := false) h hl
    (fun p r r' hupd => by rw [decide_eq_decide]; exact hkeeps p r r' hupd)
    fun r hr => decide_eq_false (show r.tier ≠ .deviceResident from Step.offers_onDevice hr)
  have hle := (exec_extends h hl).next_le
  ext q
  simp only [Impl.deviceResident, Finset.mem_filter, Finset.mem_range]
  constructor
  · rintro ⟨hq, htier⟩
    have hq' := hkept q hq
    rw [decide_eq_true htier] at hq'
    split at hq'
    · rename_i hold
      exact ⟨hold, of_decide_eq_true hq'.symm⟩
    · cases hq'
  · rintro ⟨hq, htier⟩
    have hlt : q < s'.nextRecord := by omega
    have hq' := hkept q hlt
    rw [if_pos hq, decide_eq_true htier] at hq'
    exact ⟨hlt, of_decide_eq_true hq'⟩

/-! ## One section -/

/-- Whatever a duty lets a section count, it is no lease and no load. -/
theorem Duty.ok_bump {d : Duty} {f : Stats → Stats} {s : Impl} (h : d.ok (.bump f) s) (st : Stats) :
    (f st).activeLeases = st.activeLeases ∧ (f st).activeDeviceLoads = st.activeDeviceLoads := by
  cases d with
  | built =>
    obtain rfl : f = Stats.buildOver := h
    exact ⟨rfl, rfl⟩
  | _ =>
    have hsame := congrArg Prod.snd (show (f st).gauges = st.gauges from h st)
    exact ⟨congrArg Prod.fst hsame, congrArg Prod.snd hsame⟩

/-- **`active_device_loads`, one section.** -/
theorem exec_activeDeviceLoads {env : Env} {d : Duty} {l : Step} {s s' : Impl}
    (h : exec env l s = some s') (hl : l.Proper) (hok : d.ok l s) (hreset : l ≠ .resetStats)
    (hs : s.stats.activeDeviceLoads = s.deviceResident.card) :
    s'.stats.activeDeviceLoads = s'.deviceResident.card ↔ l.countsLoads s := by
  have hgauge : s'.stats.activeDeviceLoads = (l.gaugesAfter s).2.2 :=
    congrArg (fun g => g.2.2) (exec_gauges h)
  -- a section that rewrites a record and leaves the gauge alone
  have hleaves : ∀ p f, l.inserts = false → (l.effect env s).records = (s.modify p f).records →
      (l.gaugesAfter s).2.2 = s.stats.activeDeviceLoads →
      (f (s.records p)).tier ≠ .deviceResident →
      (s'.stats.activeDeviceLoads = s'.deviceResident.card ↔
        (p < s.nextRecord → (s.records p).tier ≠ .deviceResident)) := by
    intro p f hins heffect hsame htier
    have hcount := exec_deviceResident_rewritten h hins heffect
    have hgone : ¬ (p < s.nextRecord ∧ (f (s.records p)).tier = .deviceResident) :=
      fun hno => htier hno.2
    rw [if_neg hgone] at hcount
    rw [hgauge, hsame, hs]
    by_cases hin : p < s.nextRecord ∧ (s.records p).tier = .deviceResident
    · rw [if_pos hin] at hcount
      exact ⟨fun _ => by omega, fun hno => absurd hin.2 (hno hin.1)⟩
    · rw [if_neg hin] at hcount
      exact ⟨fun _ hp htier => hin ⟨hp, htier⟩, fun _ => by omega⟩
  -- a section that leaves both alone
  have hboth : (l.gaugesAfter s).2.2 = s.stats.activeDeviceLoads →
      (∀ p r r', ArtifactRecord.Updates p r l r' →
        (r'.tier = .deviceResident ↔ r.tier = .deviceResident)) →
      s'.stats.activeDeviceLoads = s'.deviceResident.card := by
    intro hsame hkeeps
    rw [hgauge, hsame, hs, exec_deviceResident h hl hkeeps]
  cases l with
  | commitDevice p handle footprint =>
    have hcount := exec_deviceResident_rewritten h (p := p)
      (f := fun r => r.promoteDevice handle footprint) rfl rfl
    have hgrown : s'.stats.activeDeviceLoads = s.stats.activeDeviceLoads + 1 := hgauge
    have hdevice : (((s.records p).promoteDevice handle footprint).tier = .deviceResident) = True :=
      eq_self _
    simp only [hdevice, and_true] at hcount
    show _ ↔ p < s.nextRecord ∧ (s.records p).tier ≠ .deviceResident
    rw [hgrown, hs]
    by_cases hp : p < s.nextRecord
    · by_cases htier : (s.records p).tier = .deviceResident
      · rw [if_pos ⟨hp, htier⟩, if_pos hp] at hcount
        exact ⟨fun _ => by omega, fun hno => absurd htier hno.2⟩
      · rw [if_neg (fun hno => htier hno.2), if_pos hp] at hcount
        exact ⟨fun _ => ⟨hp, htier⟩, fun _ => by omega⟩
    · rw [if_neg (fun hno => hp hno.1), if_neg hp] at hcount
      exact ⟨fun _ => by omega, fun hno => absurd hno.1 hp⟩
  | commitHost p => exact hleaves p ArtifactRecord.promoteHost rfl rfl rfl ResidencyTier.noConfusion
  | evictCommit p =>
    refine hleaves p ArtifactRecord.evictCommit rfl rfl rfl ?_
    unfold ArtifactRecord.evictCommit
    split <;> exact (s.records p).fallbackTier_ne.1
  | unloadCommit p =>
    exact hleaves p ArtifactRecord.unloaded rfl rfl rfl (s.records p).fallbackTier_ne.1
  | markPersisted o =>
    show _ ↔ ∀ p, s.byId.lookup o.id = some p → p < s.nextRecord → _
    cases hid : s.byId.lookup o.id with
    | some p =>
      have heffect : ((Step.markPersisted o).effect env s).records =
          (s.modify p ArtifactRecord.persisted).records := by
        simp only [Step.effect, Impl.markPersisted, hid, Impl.bump]
      rw [hleaves p ArtifactRecord.persisted rfl heffect rfl ResidencyTier.noConfusion]
      constructor
      · intro hne q hq
        obtain rfl := Option.some.inj hq
        exact hne
      · exact fun hall => hall p rfl
    | none =>
      refine ⟨fun _ p hp => (by cases hp), fun _ => ?_⟩
      have hsame : s'.deviceResident = s.deviceResident := by
        obtain ⟨-, rfl⟩ := exec_eq_some.mp h
        simp only [Impl.deviceResident, Step.effect, Impl.markPersisted, hid, Impl.bump]
      rw [hgauge, hsame]
      exact hs
  | resetStats => exact absurd rfl hreset
  | bump f =>
    refine ⟨fun _ => trivial, fun _ => hboth (Duty.ok_bump hok s.stats).2 ?_⟩
    intro p r r' hupd
    cases hupd
  | join digest =>
    refine ⟨fun _ => trivial, fun _ => hboth ?_ fun p r r' hupd => by cases hupd⟩
    simp only [Step.gaugesAfter]
    split <;> rfl
  | grantLease q pin =>
    refine ⟨fun _ => trivial, fun _ => hboth ?_ fun p r r' hupd => ?_⟩
    · simp only [Step.gaugesAfter]
      split <;> rfl
    · cases hupd
      exact Iff.rfl
  | _ =>
    refine ⟨fun _ => trivial, fun _ => hboth rfl fun p r r' hupd => ?_⟩
    rcases hupd.onDevice with hkept | ⟨_, _, hno⟩ | hno | hno | hno | ⟨_, hno⟩
    · exact hkept
    all_goals cases hno

/-- A section that touches no lease. -/
theorem liveLeases_kept {tr : List (Event LeaseStep Leasing)} {e : Event LeaseStep Leasing}
    (hlabel : ∀ k, e.label.countsDown k = false)
    (hnext : e.after.impl.nextLease = e.before.impl.nextLease) :
    e.after.impl.liveLeases (tr ++ [e]) = e.before.impl.liveLeases tr := by
  unfold Impl.liveLeases
  simp only [hnext, countDowns_other hlabel]

/-- A lease that is granted lives. -/
theorem liveLeases_granted {tr : List (Event LeaseStep Leasing)} {e : Event LeaseStep Leasing}
    (hlabel : ∀ k, e.label.countsDown k = false)
    (hnext : e.after.impl.nextLease = e.before.impl.nextLease + 1)
    (hfresh : countDowns tr e.before.impl.nextLease = 0) :
    (e.after.impl.liveLeases (tr ++ [e])).card = (e.before.impl.liveLeases tr).card + 1 := by
  unfold Impl.liveLeases
  simp only [hnext, countDowns_other hlabel, Finset.range_add_one, Finset.filter_insert, hfresh,
    if_true]
  rw [Finset.card_insert_of_notMem]
  intro hmem
  exact absurd (Finset.mem_range.mp (Finset.mem_filter.mp hmem).1) (Nat.lt_irrefl _)

/-- A lease that is counted down was alive and is no more. -/
theorem liveLeases_countedDown {tr : List (Event LeaseStep Leasing)} {i k p : Nat} {s s' : Leasing}
    (hnext : s'.impl.nextLease = s.impl.nextLease) (hk : k < s.impl.nextLease)
    (hzero : countDowns tr k = 0) :
    (s'.impl.liveLeases (tr ++ [⟨i, .countDown k p, s, s'⟩])).card + 1 =
      (s.impl.liveLeases tr).card := by
  have hmem : k ∈ s.impl.liveLeases tr := Finset.mem_filter.mpr ⟨Finset.mem_range.mpr hk, hzero⟩
  have herase : s'.impl.liveLeases (tr ++ [⟨i, .countDown k p, s, s'⟩]) =
      (s.impl.liveLeases tr).erase k := by
    ext q
    simp only [Impl.liveLeases, Finset.mem_erase, Finset.mem_filter, Finset.mem_range, hnext,
      countDowns_concat, LeaseStep.countsDown, beq_iff_eq]
    by_cases hq : k = q
    · simp [hq]
    · simp [hq, Ne.symm hq]
  rw [herase, Finset.card_erase_add_one hmem]

/-- Only the thread that has marked a lease counts it down. -/
theorem ReleasePhase.marked_of_ok {ph : ReleasePhase} {k p : Nat} {s : Leasing}
    (h : ph.ok (.countDown k p) s) : ph = .marked k p := by
  cases ph with
  | idle => exact h.elim
  | holds k' =>
    rcases h with hno | hno
    · cases hno
    · exact hno.elim
  | marked k' p' =>
    cases h
    rfl

/-- Nobody calls `on_lease_release` but for a lease. -/
theorem ReleasePhase.not_ok_onLeaseRelease (ph : ReleasePhase) {p : Nat} {s : Leasing} :
    ¬ ph.ok (.cache (.onLeaseRelease p)) s := by
  intro h
  cases ph with
  | idle => exact h
  | holds k =>
    rcases h with hno | hno
    · cases hno
    · exact hno
  | marked k p' => cases h

/-- **`active_leases`, one section.** -/
theorem leaseStep_activeLeases {env : Env} {tr : List (Event LeaseStep Leasing)}
    {P : Nat → ReleasePhase} {d : Duty} {i : Nat} {l : LeaseStep} {s s' : Leasing}
    (hb : Balanced tr P s) (hok : (P i).ok l s) (h : leaseStep env l s = some s')
    (hduty : okOnPart LeaseStep.base Leasing.impl Duty.ok d l s) (hreset : l.base ≠ some .resetStats)
    (hs : s.impl.stats.activeLeases = (s.impl.liveLeases tr).card) :
    s'.impl.stats.activeLeases = (s'.impl.liveLeases (tr ++ [⟨i, l, s, s'⟩])).card := by
  have hgauge : ∀ l₀, l.base = some l₀ →
      s'.impl.stats.activeLeases = (l₀.gaugesAfter s.impl).2.1 := fun l₀ hl₀ =>
    congrArg (fun g => g.2.1) (exec_gauges ((leaseStep_extends env).taken _ _ _ _ h hl₀))
  -- a section of an object
  have haside : l.base = none → (∀ k, l.countsDown k = false) →
      s'.impl.stats.activeLeases = (s'.impl.liveLeases (tr ++ [⟨i, l, s, s'⟩])).card := by
    intro hbase hlabel
    have himpl : s'.impl = s.impl := (leaseStep_extends env).aside _ _ _ h hbase
    rw [liveLeases_kept (e := ⟨i, l, s, s'⟩) hlabel (congrArg Impl.nextLease himpl), himpl]
    exact hs
  cases l with
  | countDown k p =>
    obtain ⟨hk, -, -, hzero⟩ := hb.marked i k p (ReleasePhase.marked_of_ok hok)
    have hexec := (leaseStep_extends env).taken _ _ _ _ h rfl
    have hlive := liveLeases_countedDown (i := i) (p := p)
      (exec_onLeaseRelease hexec).1.nextLease hk hzero
    rw [hgauge _ rfl]
    show s.impl.stats.activeLeases - 1 = _
    omega
  | cache l₀ =>
    have hexec := (leaseStep_extends env).taken _ _ _ _ h rfl
    -- a section that leaves the gauge alone and grants nothing
    have hkept : (l₀.gaugesAfter s.impl).2.1 = s.impl.stats.activeLeases →
        s'.impl.nextLease = s.impl.nextLease →
        s'.impl.stats.activeLeases =
          (s'.impl.liveLeases (tr ++ [⟨i, .cache l₀, s, s'⟩])).card := by
      intro hsame hnext
      rw [hgauge _ rfl, hsame, hs, liveLeases_kept (e := ⟨i, .cache l₀, s, s'⟩) (fun _ => rfl) hnext]
    cases l₀ with
    | grantLease p pin =>
      rcases exec_grantLease hexec with ⟨hlease, hgrown, -⟩ | ⟨hsame, -, hno⟩
      · have hlive := liveLeases_granted (e := ⟨i, .cache (.grantLease p pin), s, s'⟩)
          (fun _ => rfl) hgrown (hb.fresh _ le_rfl)
        dsimp only at hlive
        rw [hlive, hgauge _ rfl, Step.gaugesAfter, if_pos hlease, hs]
      · refine hkept ?_ hsame.nextLease
        rw [Step.gaugesAfter, if_neg]
        · rfl
        · intro hlease
          apply hno s.impl.nextLease
          rw [Impl.grantLease, if_pos hlease]
    | exchangeReleased k => exact hkept rfl (exec_exchangeReleased hexec).1
    | onLeaseRelease p => exact absurd hok (P i).not_ok_onLeaseRelease
    | resetStats => exact absurd rfl hreset
    | bump f =>
      exact hkept (Duty.ok_bump (hduty _ rfl) s.impl.stats).1 (exec_sameLeases hexec rfl).nextLease
    | join digest =>
      refine hkept ?_ (exec_sameLeases hexec rfl).nextLease
      simp only [Step.gaugesAfter]
      split <;> rfl
    | _ => exact hkept rfl (exec_sameLeases hexec rfl).nextLease
  | _ => exact haside rfl fun _ => rfl

/-- **`active_builds`, one section.** -/
theorem leaseStep_activeBuilds {env : Env} {tr : List (Event LeaseStep Leasing)}
    {e : Event LeaseStep Leasing} {l : Step} (hbase : e.label.base = some l)
    (h : exec env l e.before.impl = some e.after.impl)
    (hok : (leaseDuties env tr e.thread).ok l e.before.impl) (hreset : l ≠ .resetStats)
    (hs : e.before.impl.stats.activeBuilds = buildsInProgress env tr) :
    e.after.impl.stats.activeBuilds = buildsInProgress env (tr ++ [e]) ↔
      ¬ l.Throws env e.before.impl := by
  have hidle : ∀ _ : Nat, ¬ (Duty.none ≠ .none) := fun _ hno => hno rfl
  have hcensus := Foundation.census_concat (· ≠ Duty.none)
    (nextOnPart LeaseStep.base Leasing.impl (Duty.next env)) hidle tr e
  have hnext : nextOnPart LeaseStep.base Leasing.impl (Duty.next env) (leaseDuties env tr e.thread)
      e.label e.before = (leaseDuties env tr e.thread).next env l e.before.impl := by
    simp only [nextOnPart, hbase]
  have hcounted : (leaseDuties env tr e.thread).count ≤ e.before.impl.stats.activeBuilds := by
    rw [hs, Duty.count]
    split
    · exact Foundation.census_pos (· ≠ Duty.none) hidle ‹_›
    · exact Nat.zero_le _
  rw [← exec_activeBuilds h hok hreset hcounted, hs]
  change buildsInProgress env (tr ++ [e]) + (leaseDuties env tr e.thread).count =
    buildsInProgress env tr + Duty.count (nextOnPart LeaseStep.base Leasing.impl (Duty.next env)
      (leaseDuties env tr e.thread) e.label e.before) at hcensus
  rw [hnext] at hcensus
  omega

/-- A section that moves no duty. -/
theorem buildsInProgress_kept {env : Env} {tr : List (Event LeaseStep Leasing)}
    {e : Event LeaseStep Leasing}
    (h : ∀ d, nextOnPart LeaseStep.base Leasing.impl (Duty.next env) d e.label e.before = d) :
    buildsInProgress env (tr ++ [e]) = buildsInProgress env tr := by
  have hidle : ∀ _ : Nat, ¬ (Duty.none ≠ .none) := fun _ hno => hno rfl
  have hcensus := Foundation.census_concat (· ≠ Duty.none)
    (nextOnPart LeaseStep.base Leasing.impl (Duty.next env)) hidle tr e
  rw [h] at hcensus
  exact Nat.add_right_cancel hcensus

/-- **The gauges, one section.** -/
theorem gaugesReal_step {env : Env} {tr : List (Event LeaseStep Leasing)}
    {P : Nat → ReleasePhase} {e : Event LeaseStep Leasing} (hb : Balanced tr P e.before)
    (hok : (P e.thread).ok e.label e.before)
    (hduty : okOnPart LeaseStep.base Leasing.impl Duty.ok (leaseDuties env tr e.thread) e.label
      e.before)
    (h : leaseStep env e.label e.before = some e.after)
    (hproper : ProperParts e.label e.before e.after) (hreal : GaugesReal env tr e.before.impl) :
    GaugesReal env (tr ++ [e]) e.after.impl ↔ KeepsGauges env tr e := by
  obtain ⟨i, l', s, s'⟩ := e
  dsimp only at hb hok h hproper hreal ⊢
  cases hbase : l'.base with
  | none =>
    have himpl : s'.impl = s.impl := (leaseStep_extends env).aside _ _ _ h hbase
    have hlabel : ∀ k, l'.countsDown k = false := by
      intro k
      cases l' with
      | countDown lease p => cases hbase
      | _ => rfl
    simp only [KeepsGauges, hbase, iff_true]
    refine ⟨?_, ?_, ?_⟩
    · rw [liveLeases_kept (e := ⟨i, l', s, s'⟩) hlabel (congrArg Impl.nextLease himpl), himpl]
      exact hreal.activeLeases
    · rw [buildsInProgress_kept fun d => by simp only [nextOnPart, hbase], himpl]
      exact hreal.activeBuilds
    · rw [himpl]
      exact hreal.activeDeviceLoads
  | some l =>
    have hexec := (leaseStep_extends env).taken _ _ _ _ h hbase
    by_cases hreset : l = .resetStats
    · subst hreset
      -- what the gauges stand for is as before, the gauges are zero
      have hlabel : ∀ k, l'.countsDown k = false := by
        intro k
        cases l' with
        | countDown lease p => cases hbase
        | _ => rfl
      have hgauges := exec_gauges hexec
      have hleases : s'.impl.liveLeases (tr ++ [⟨i, l', s, s'⟩]) = s.impl.liveLeases tr :=
        liveLeases_kept (e := ⟨i, l', s, s'⟩) hlabel (exec_sameLeases hexec rfl).nextLease
      have hbuilds : buildsInProgress env (tr ++ [⟨i, l', s, s'⟩]) = buildsInProgress env tr := by
        refine buildsInProgress_kept fun d => ?_
        simp only [nextOnPart, hbase]
        exact Duty.next_other (fun _ => Step.noConfusion) (fun _ _ => Step.noConfusion)
          (fun _ => Step.noConfusion) d _
      have hdevice : s'.impl.deviceResident = s.impl.deviceResident :=
        exec_deviceResident hexec trivial fun p r r' hupd => by cases hupd
      simp only [KeepsGauges, hbase]
      constructor
      · rintro ⟨h₁, h₂, h₃⟩
        rw [hleases] at h₁
        rw [hbuilds] at h₂
        rw [hdevice] at h₃
        exact ⟨h₁.symm.trans (congrArg (fun g => g.2.1) hgauges),
          h₂.symm.trans (congrArg Prod.fst hgauges),
          h₃.symm.trans (congrArg (fun g => g.2.2) hgauges)⟩
      · rintro ⟨h₁, h₂, h₃⟩
        refine ⟨?_, ?_, ?_⟩
        · rw [hleases, h₁]
          exact congrArg (fun g => g.2.1) hgauges
        · rw [hbuilds, h₂]
          exact congrArg Prod.fst hgauges
        · rw [hdevice, h₃]
          exact congrArg (fun g => g.2.2) hgauges
    · have hkeeps : KeepsGauges env tr ⟨i, l', s, s'⟩ ↔
          ¬ l.Throws env s.impl ∧ l.countsLoads s.impl := by
        unfold KeepsGauges
        simp only [hbase]
      have hleases := leaseStep_activeLeases hb hok h hduty
        (fun heq => hreset (Option.some.inj (hbase.symm.trans heq))) hreal.activeLeases
      have hbuilds := leaseStep_activeBuilds (e := ⟨i, l', s, s'⟩) hbase hexec (hduty l hbase) hreset
        hreal.activeBuilds
      have hloads := exec_activeDeviceLoads hexec (hproper l hbase) (hduty l hbase) hreset
        hreal.activeDeviceLoads
      rw [hkeeps]
      exact ⟨fun hall => ⟨hbuilds.mp hall.activeBuilds, hloads.mp hall.activeDeviceLoads⟩,
        fun hall => ⟨hleases, hbuilds.mpr hall.1, hloads.mpr hall.2⟩⟩

/-! ## The duties of the users -/

section Calls

variable {env : Env} {α β : Type}

/-- A program of the users that begins and ends without a duty. -/
abbrev CallDuty (env : Env) (p : LeaseOp α) : Prop :=
  p.Phased (leaseStep env) SoundParts (okOnPart LeaseStep.base Leasing.impl Duty.ok)
    (nextOnPart LeaseStep.base Leasing.impl (Duty.next env)) (fun _ d _ => d = .none)
    (fun _ => True) .none

theorem CallDuty.ret (a : α) : CallDuty env (.ret a) := Phased.ret fun _ _ => rfl

theorem CallDuty.bind {p : LeaseOp α} {g : α → LeaseOp β} (hp : CallDuty env p)
    (hg : ∀ a, CallDuty env (g a)) : CallDuty env (p.bind g) := by
  refine Phased.bind hp fun a d => Phased.assume ?_
  rintro rfl
  exact hg a

/-- A section that has nothing to do with builds. -/
theorem CallDuty.sect {l : LeaseStep} {read : Leasing → α}
    (h : ∀ l₀, l.base = some l₀ → ∀ s, Duty.ok .none l₀ s ∧ Duty.next env .none l₀ s = .none) :
    CallDuty env (sect l read) := by
  refine Phased.sect (Q := fun _ d => d = Duty.none) fun s _ _ _ =>
    ⟨fun l₀ hl₀ => (h l₀ hl₀ s.impl).1, ?_⟩
  unfold nextOnPart
  cases hbase : l.base with
  | none => rfl
  | some l₀ => exact (h l₀ hbase s.impl).2

theorem CallDuty.onCache {p : Op α} {Q : α → Prop}
    (hp : Dutiless env (fun _ _ _ => True) α Q p) : CallDuty env (onCache p) :=
  ((leaseStep_extends env).phased (fun _ _ _ _ _ _ => trivial) hp).weaken (fun _ _ => trivial)
    fun _ _ _ h => h.2

theorem release_duty (object : Nat) : CallDuty env (KernelLease.release object) := by
  unfold KernelLease.release
  refine CallDuty.bind (CallDuty.sect fun l₀ h => by cases h) fun st => ?_
  cases st with
  | none => exact CallDuty.ret _
  | some k =>
    refine CallDuty.bind (CallDuty.sect fun l₀ h s => ?_) fun old => ?_
    · cases h
      exact ⟨trivial, rfl⟩
    · split
      · exact CallDuty.ret _
      · refine CallDuty.bind (CallDuty.sect fun l₀ h s => ?_) fun _ =>
          CallDuty.sect fun l₀ h => by cases h
        cases h
        exact ⟨trivial, rfl⟩

/-- **No call returns with a duty.** -/
theorem call_duty (call : LeaseCall) : CallDuty env (call.prog env) := by
  have hmove : ∀ object other, CallDuty env (perform (.moveState object other)) :=
    fun object other => CallDuty.sect fun l₀ h => by cases h
  cases call with
  | operation op h => exact CallDuty.onCache (operation_dutiless op)
  | acquire object request =>
    refine CallDuty.bind (CallDuty.onCache (acquireImpl_dutiless request)) fun res => ?_
    cases res with
    | error e => exact CallDuty.ret _
    | ok lease => exact CallDuty.bind (CallDuty.sect fun l₀ h => by cases h) fun _ => CallDuty.ret _
  | moveConstruct object other => exact CallDuty.bind (hmove object other) fun _ => CallDuty.ret _
  | moveAssign object other =>
    refine CallDuty.bind ?_ fun _ => CallDuty.ret _
    unfold KernelLease.moveAssign
    split
    · exact CallDuty.ret _
    · exact CallDuty.bind (release_duty object) fun _ => hmove object other
  | release object => exact CallDuty.bind (release_duty object) fun _ => CallDuty.ret _
  | destroy object => exact CallDuty.bind (release_duty object) fun _ => CallDuty.ret _
  | touch object =>
    refine CallDuty.bind ?_ fun _ => CallDuty.ret _
    unfold KernelLease.touch
    refine CallDuty.bind (CallDuty.sect fun l₀ h => by cases h) fun st => ?_
    cases st with
    | none => exact CallDuty.ret _
    | some k => exact CallDuty.onCache (walk_dutiless.touchLease trivial k)

end Calls

/-! ## Every run -/

section EveryRun

variable {env : Env} {store : FilePersistenceStore} {tr : List (Event LeaseStep Leasing)}
  {pool : Pool LeaseStep Leasing Answer}

theorem leaseRuns_duty (h : LeaseRuns env store tr pool) :
    (∀ tr₁ e, tr₁ ++ [e] <+: tr → okOnPart LeaseStep.base Leasing.impl Duty.ok
      (leaseDuties env tr₁ e.thread) e.label e.before) ∧
    ∀ i a, pool.threads[i]? = some (.ret a) → leaseDuties env tr i = .none := by
  have hstart : ∀ (_ : Nat) (p : LeaseOp Answer), (∃ call : LeaseCall, p = call.prog env) →
      CallDuty env p := by
    rintro _ p ⟨call, rfl⟩
    exact call_duty call
  refine ⟨Runs.allowed (fun i p hp => by cases hp) hstart h (leaseRuns_sound h), ?_⟩
  exact (Runs.protocol (okOnPart LeaseStep.base Leasing.impl Duty.ok)
    (nextOnPart LeaseStep.base Leasing.impl (Duty.next env)) (fun _ => .none)
    (Q := fun _ _ d _ => d = .none) (J := fun _ _ _ => True) (fun i p hp => by cases hp) hstart
    trivial (fun _ _ _ _ _ _ _ _ _ _ => trivial) h (leaseRuns_sound h)).2

/-- **The gauges in every run.** -/
theorem gauges_iff (h : LeaseRuns env store tr pool) :
    ((∀ tr₁ e, tr₁ ++ [e] <+: tr →
        GaugesReal env tr₁ e.before.impl ∧ GaugesReal env (tr₁ ++ [e]) e.after.impl) ∧
      GaugesReal env tr pool.shared.impl) ↔ ∀ tr₁ e, tr₁ ++ [e] <+: tr → KeepsGauges env tr₁ e := by
  refine Runs.history_iff (I := fun tr s => GaugesReal env tr s.impl) (K := KeepsGauges env)
    ⟨rfl, rfl, rfl⟩ h fun tr₁ e hpre hreal => ?_
  have he : e ∈ tr := hpre.subset (by simp)
  obtain ⟨tr₂, htr⟩ := hpre
  obtain ⟨⟨ts, hcut⟩, -⟩ := h.cut
    (show tr = tr₁ ++ e :: tr₂ by rw [← htr, List.append_assoc, List.singleton_append])
  exact gaugesReal_step (leaseRuns_balanced hcut).1 (leaseRuns_allowed h tr₁ e ⟨tr₂, htr⟩)
    ((leaseRuns_duty h).1 tr₁ e ⟨tr₂, htr⟩) (h.event_step e he)
    (fun l hl => (leaseRuns_sound h e he l hl).proper) hreal

/-- When every call has returned, no build is in progress and the live leases are those not
released. -/
theorem gauges_finished (h : LeaseRuns env store tr pool)
    (hdone : ∀ q ∈ pool.threads, ∃ a, q = .ret a) :
    buildsInProgress env tr = 0 ∧ ∀ k, k ∈ pool.shared.impl.liveLeases tr ↔
      k < pool.shared.impl.nextLease ∧ (pool.shared.impl.leases k).released = false := by
  constructor
  · refine Foundation.census_eq_zero _ fun e he hno => hno ?_
    have hget := List.getElem?_eq_getElem (h.thread_lt e he)
    obtain ⟨a, ha⟩ := hdone _ (List.mem_of_getElem? hget)
    rw [ha] at hget
    exact (leaseRuns_duty h).2 e.thread a hget
  · intro k
    have hdowns := leaseRuns_finished h hdone k
    simp only [Impl.liveLeases, Finset.mem_filter, Finset.mem_range]
    refine and_congr_right fun hk => ?_
    rw [hdowns hk]
    cases (pool.shared.impl.leases k).released with
    | false => simp
    | true => simp

/-- **The gauges of `stats()`.** In every interleaved run of the cache and its users, `active_leases`
is the number of live leases, `active_builds` that of the owner builds in progress and
`active_device_loads` that of the records on the device, before and after every section, if and only if
every section keeps the gauges: `reset_stats` runs while nothing is leased, built or loaded, no backend
throws in the build of an owner, a module is committed only to a record that is not on the device, and
no section takes a record from there.  When every call has returned, no build is in progress and the
live leases are those that have not been released. -/
theorem gauges_real_iff (h : LeaseRuns env store tr pool) :
    (((∀ tr₁ e, tr₁ ++ [e] <+: tr →
          GaugesReal env tr₁ e.before.impl ∧ GaugesReal env (tr₁ ++ [e]) e.after.impl) ∧
        GaugesReal env tr pool.shared.impl) ↔
      ∀ tr₁ e, tr₁ ++ [e] <+: tr → KeepsGauges env tr₁ e) ∧
    ((∀ q ∈ pool.threads, ∃ a, q = .ret a) →
      buildsInProgress env tr = 0 ∧ ∀ k, k ∈ pool.shared.impl.liveLeases tr ↔
        k < pool.shared.impl.nextLease ∧ (pool.shared.impl.leases k).released = false) :=
  ⟨gauges_iff h, gauges_finished h⟩

end EveryRun

/-- The sections that keep the gauges whatever they find. -/
def LeaseStep.harmless (l : LeaseStep) : Bool :=
  match l.base with
  | some .resetStats | some (.runBuild _ _) | some (.commitDevice _ _ _) | some (.commitHost _)
  | some (.evictCommit _) | some (.unloadCommit _) | some (.markPersisted _) => false
  | _ => true

theorem keepsGauges_of_harmless {env : Env} {tr : List (Event LeaseStep Leasing)}
    {e : Event LeaseStep Leasing} (h : e.label.harmless = true) : KeepsGauges env tr e := by
  unfold LeaseStep.harmless at h
  unfold KeepsGauges
  cases hbase : e.label.base with
  | none => trivial
  | some l =>
    rw [hbase] at h
    cases l with
    | resetStats => cases h
    | runBuild request gen => cases h
    | commitDevice p handle footprint => cases h
    | commitHost p => cases h
    | evictCommit p => cases h
    | unloadCommit p => cases h
    | markPersisted o => cases h
    | _ => exact ⟨fun hno => hno, trivial⟩

/-- The stub backend, with no budget for the device. -/
def ungovernedEnv : Env :=
  { stubEnv with cfg := { residency := { applyDeviceBudget := false } } }

/-- An artifact put by one call and loaded by another. -/
theorem loaded_runs : ∃ tr₁ e tr₂ s ts, LeaseRuns ungovernedEnv {} (tr₁ ++ e :: tr₂) ⟨s, ts⟩ ∧
    (∀ q ∈ ts, ∃ a, q = .ret a) ∧ ((tr₁ ++ tr₂).all fun e => e.label.harmless) = true ∧
    e.label = .cache (.commitDevice 0 (some 0) (1, false)) ∧ e.before.impl.nextRecord = 1 ∧
    (e.before.impl.records 0).tier = .metadataOnly ∧ s.impl.stats.activeDeviceLoads = 1 ∧
    (∃ evicted, ((LeaseCall.operation (.evict ⟨⟨1, 7⟩⟩ false) rfl).prog ungovernedEnv).traced
        (leaseStep ungovernedEnv) ts.length s = some evicted ∧
      evicted.2.2.impl.stats.activeDeviceLoads = 1 ∧ evicted.2.2.impl.nextRecord = 1 ∧
      (evicted.2.2.impl.records 0).tier = .metadataOnly) ∧
    ∃ reset, ((LeaseCall.operation .resetStats rfl).prog ungovernedEnv).traced
        (leaseStep ungovernedEnv) ts.length s = some reset ∧
      reset.2.2.impl.stats.activeDeviceLoads = 0 ∧ reset.2.2.impl.nextRecord = 1 ∧
      (reset.2.2.impl.records 0).tier = .deviceResident := by
  have hput : LeaseRuns ungovernedEnv {} _ ⟨⟨putState, fun _ => none⟩, [.ret (.id ⟨⟨1, 7⟩⟩)]⟩ :=
    Runs.refl.complete ⟨.operation (.put sampleArtifact [1]) rfl, rfl⟩
      (show _ = some ([_], _, _) from rfl)
  have hload := hput.complete ⟨.operation (.load ⟨⟨1, 7⟩⟩) rfl, rfl⟩
    (show _ = some ([_, _, _, _, _, _, _], _, _) from rfl)
  exact ⟨[_, _, _, _, _], _, [_, _], _, _, hload, by simp, rfl, rfl, rfl, rfl, rfl, ⟨_, rfl, rfl, rfl,
    rfl⟩, ⟨_, rfl, rfl, rfl, rfl⟩⟩
/-- The device of a cache with one record. -/
theorem Impl.deviceResident_single {s : Impl} (hnext : s.nextRecord = 1) :
    s.deviceResident.card = if (s.records 0).tier = .deviceResident then 1 else 0 := by
  rw [Impl.deviceResident, hnext, Finset.range_one, Finset.filter_singleton]
  split <;> rfl

/-- Put and load: one record on the device, one load counted. -/
theorem gauges_real_iff_sample : ∃ tr pool, LeaseRuns ungovernedEnv {} tr pool ∧
    (∀ tr₁ e, tr₁ ++ [e] <+: tr → KeepsGauges ungovernedEnv tr₁ e) ∧
    GaugesReal ungovernedEnv tr pool.shared.impl ∧ pool.shared.impl.stats.activeDeviceLoads = 1 := by
  obtain ⟨tr₁, e, tr₂, s, ts, hruns, -, hothers, hlabel, hnext, htier, hone, -⟩ := loaded_runs
  have hkeeps : ∀ tr₀ e₀, tr₀ ++ [e₀] <+: tr₁ ++ e :: tr₂ → KeepsGauges ungovernedEnv tr₀ e₀ := by
    intro tr₀ e₀ hpre
    have hmem : e₀ ∈ tr₁ ++ e :: tr₂ := hpre.subset (by simp)
    by_cases heq : e₀ = e
    · subst heq
      unfold KeepsGauges
      rw [hlabel]
      refine ⟨fun hno => hno, ?_⟩
      show 0 < _ ∧ _
      rw [hnext, htier]
      exact ⟨Nat.zero_lt_one, ResidencyTier.noConfusion⟩
    · apply keepsGauges_of_harmless
      refine List.all_eq_true.mp hothers e₀ (List.mem_append.mpr ?_)
      exact (List.mem_append.mp hmem).imp_right fun h => (List.mem_cons.mp h).resolve_left heq
  exact ⟨_, _, hruns, hkeeps, ((gauges_real_iff hruns).1.mpr hkeeps).2, hone⟩

/-- **Gauges drift.** Put an artifact, load it, evict it: one load stays counted, and no record is on
the device.  Put an artifact, load it, reset the counters: no load is counted, and a record is on the
device. -/
theorem gauges_drift :
    (∃ tr pool, LeaseRuns ungovernedEnv {} tr pool ∧ (∀ q ∈ pool.threads, ∃ a, q = .ret a) ∧
      pool.shared.impl.stats.activeDeviceLoads = 1 ∧ pool.shared.impl.deviceResident.card = 0 ∧
      ¬ GaugesReal ungovernedEnv tr pool.shared.impl) ∧
    ∃ tr pool, LeaseRuns ungovernedEnv {} tr pool ∧ (∀ q ∈ pool.threads, ∃ a, q = .ret a) ∧
      pool.shared.impl.stats.activeDeviceLoads = 0 ∧ pool.shared.impl.deviceResident.card = 1 ∧
      ¬ GaugesReal ungovernedEnv tr pool.shared.impl := by
  obtain ⟨tr₁, e, tr₂, s, ts, hruns, hdone, -, -, -, -, -, ⟨evicted, hevict, hone, hnext, htier⟩,
    ⟨reset, hreset, hzero, hnext', htier'⟩⟩ := loaded_runs
  -- a call more, and everybody has returned again
  have hall : ∀ a : Answer, ∀ q ∈ ts ++ [Prog.ret a], ∃ a, q = Prog.ret a := by
    intro a q hq
    rcases List.mem_append.mp hq with hold | hnew
    · exact hdone q hold
    · exact ⟨a, List.mem_singleton.mp hnew⟩
  have hnone := Impl.deviceResident_single hnext
  rw [htier, if_neg ResidencyTier.noConfusion] at hnone
  have hsome := Impl.deviceResident_single hnext'
  rw [htier', if_pos rfl] at hsome
  refine ⟨⟨_, _, hruns.complete ⟨_, rfl⟩ hevict, hall _, hone, hnone, fun hreal => ?_⟩,
    ⟨_, _, hruns.complete ⟨_, rfl⟩ hreset, hall _, hzero, hsome, fun hreal => ?_⟩⟩
  · have hbad : evicted.2.2.impl.stats.activeDeviceLoads = evicted.2.2.impl.deviceResident.card :=
      hreal.activeDeviceLoads
    rw [hone, hnone] at hbad
    cases hbad
  · have hbad : reset.2.2.impl.stats.activeDeviceLoads = reset.2.2.impl.deviceResident.card :=
      hreal.activeDeviceLoads
    rw [hzero, hsome] at hbad
    cases hbad

end KernelCache
