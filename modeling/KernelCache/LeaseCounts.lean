/-
# KernelCache.LeaseCounts — every granted lease is counted up once and down at most once.

A lease is counted when it is granted, under the lock, and counted down by `on_lease_release`, which a
release reaches when its `exchange` is the first on the state.  In between, the state is marked but the
record still counts the lease.  So at any moment `lease_count` is the number of leases granted on the
record whose release has not been counted (`Impl.outstanding`), whatever has been moved, assigned,
released twice or destroyed meanwhile (`lease_counts_exact`).

The argument gives each thread a phase: the lease its last section has marked, if it has
(`ReleasePhase.marked`).  A lease that is marked has been counted down, or exactly one thread is about to
do it (`Balanced`).
-/
import KernelCache.Foundation.Protocol
import KernelCache.LeaseSteps
import Mathlib.Data.Finset.Card

namespace KernelCache

open Foundation (Prog Runs Pool Event Stable Extends OnPart phases)
open Foundation.Prog (sect perform Free Sat Phased Keeps)

/-! ## The phases of a release -/

/-- How far a thread is with a release. -/
inductive ReleasePhase where
  | idle
  /-- It has read the state of an object. -/
  | holds (lease : Nat)
  /-- Its exchange was the first; the record of the lease is still to be counted down. -/
  | marked (lease p : Nat)

namespace LeaseStep

/-- The phase a section leads to. -/
def phase (l : LeaseStep) (h : Leasing) : ReleasePhase :=
  match l with
  | .readState object =>
    match h.state object with
    | some lease => .holds lease
    | none => .idle
  | .cache (.exchangeReleased lease) =>
    if (h.impl.leases lease).released then .idle else .marked lease (h.impl.leases lease).record
  | _ => .idle

/-- The section releases nothing, and an object is given a granted lease. -/
def Quiet (l : LeaseStep) (h : Leasing) : Prop :=
  match l with
  | .cache l => l.LeasesKnown h.impl
  | .countDown _ _ => False
  | .setState _ st => ∀ k, st = some k → k < h.impl.nextLease
  | _ => True

/-- The count-down of a lease. -/
def countsDown (k : Nat) : LeaseStep → Bool
  | .countDown lease _ => lease == k
  | _ => false

end LeaseStep

namespace ReleasePhase

/-- The sections a thread may take in a phase. -/
def ok (ph : ReleasePhase) (l : LeaseStep) (h : Leasing) : Prop :=
  match ph with
  | .idle => l.Quiet h
  | .holds lease => l = .cache (.exchangeReleased lease) ∨ l.Quiet h
  | .marked lease p => l = .countDown lease p

/-- The thread owes no count-down. -/
def Unmarked (ph : ReleasePhase) : Prop := ∀ lease p, ph ≠ .marked lease p

theorem unmarked_idle : Unmarked .idle := fun _ _ => ReleasePhase.noConfusion

theorem unmarked_holds (lease : Nat) : Unmarked (.holds lease) := fun _ _ => ReleasePhase.noConfusion

theorem Unmarked.ok {ph : ReleasePhase} (h : ph.Unmarked) {l : LeaseStep} {s : Leasing}
    (hl : l.Quiet s) : ph.ok l s := by
  cases ph with
  | idle => exact hl
  | holds lease => exact .inr hl
  | marked lease p => exact absurd rfl (h lease p)

/-- The phase after a section does not depend on the one before. -/
def next (_ : ReleasePhase) (l : LeaseStep) (h : Leasing) : ReleasePhase := l.phase h

end ReleasePhase

section Calls

variable {env : Env}

/-- The steps considered: those of the cache with proper arguments and from sound states. -/
abbrev SoundParts : LeaseStep → Leasing → Leasing → Prop :=
  OnPart LeaseStep.base Leasing.impl SoundSteps

/-- A program that owes no count-down when it begins and none when it ends. -/
abbrev Releases (env : Env) {α : Type} (p : LeaseOp α) : Prop :=
  ∀ ph, ph.Unmarked → p.Phased (leaseStep env) SoundParts ReleasePhase.ok ReleasePhase.next
    (fun _ ph' _ => ph'.Unmarked) (fun _ => True) ph

theorem Releases.ret {α : Type} (a : α) : Releases env (.ret a) :=
  fun _ hph => Phased.ret fun _ _ => hph

theorem Releases.bind {α β : Type} {p : LeaseOp α} {g : α → LeaseOp β}
    (hp : Releases env p) (hg : ∀ a, Releases env (g a)) :
    Releases env (p.bind g) :=
  fun ph hph => Phased.bind (hp ph hph) fun a ph' => Phased.assume fun hph' => hg a ph' hph'

/-- A section that releases nothing. -/
theorem Releases.sect {α : Type} {l : LeaseStep} {read : Leasing → α} (hl : ∀ s, l.Quiet s)
    (hphase : ∀ s, (l.phase s).Unmarked) : Releases env (sect l read) :=
  fun _ hph => Phased.sect (Q := fun _ ph' => ph'.Unmarked) fun s _ _ _ =>
    ⟨hph.ok (hl s), hphase s⟩

/-- A program of the cache that grants only on known records and releases nothing. -/
theorem onCache_phased {α : Type} {p : Op α} {Q : α → Impl → Prop} {ph : ReleasePhase}
    (hph : ph.Unmarked) (hp : p.Sat (exec env) SoundSteps Known Q (fun _ => True)) :
    (onCache p).Phased (leaseStep env) SoundParts ReleasePhase.ok ReleasePhase.next
      (fun a ph' h => Q a h.impl ∧ ph'.Unmarked) (fun _ => True) ph := by
  refine Sat.phased (Z := ReleasePhase.Unmarked)
    ((leaseStep_extends env).sat (fun _ _ _ h => h) ?_ hp) hph
  intro l s s' hknown ph' hph'
  refine ⟨hph'.ok hknown, ?_⟩
  show (LeaseStep.phase (.cache l) s).Unmarked
  cases l with
  | exchangeReleased lease => exact hknown.elim
  | _ => exact ReleasePhase.unmarked_idle

theorem onCache_releases {α : Type} {p : Op α} (hp : p.Free (exec env) SoundSteps Known) :
    Releases env (onCache p) :=
  fun _ hph => (onCache_phased hph hp).weaken (fun _ h => h) fun _ _ _ h => h.2

theorem release_releases (object : Nat) : Releases env (KernelLease.release object) := by
  intro ph hph
  unfold KernelLease.release
  refine Phased.bind (Phased.sect (Q := fun st ph =>
    ph = match st with | some k => .holds k | none => ReleasePhase.idle) ?_) fun st ph => ?_
  · exact fun s s' _ _ => ⟨hph.ok trivial, rfl⟩
  · refine Phased.assume ?_
    rintro rfl
    cases st with
    | none => exact Phased.ret fun _ _ => ReleasePhase.unmarked_idle
    | some k =>
      refine Phased.bind (Phased.sect (Q := fun old ph =>
        ph = if old.released then .idle else ReleasePhase.marked k old.record) ?_) fun old ph => ?_
      · exact fun s s' _ _ => ⟨.inl rfl, rfl⟩
      · refine Phased.assume ?_
        rintro rfl
        -- the exchange decides whether there is a count-down to make
        split
        · exact Phased.ret fun _ _ => ReleasePhase.unmarked_idle
        · refine Phased.bind (Phased.sect (Q := fun _ ph => ph = ReleasePhase.idle) ?_)
            fun _ ph => Phased.assume ?_
          · exact fun s s' _ _ => ⟨rfl, rfl⟩
          · rintro rfl
            exact Releases.sect (l := .setState object none) (fun _ k hk => by cases hk)
              (fun _ => ReleasePhase.unmarked_idle) _ ReleasePhase.unmarked_idle

theorem touch_releases (object : Nat) : Releases env (KernelLease.touch object) := by
  unfold KernelLease.touch
  refine Releases.bind (Releases.sect (fun _ => trivial) fun s => ?_) fun st => ?_
  · unfold LeaseStep.phase
    dsimp only
    split
    · exact ReleasePhase.unmarked_holds _
    · exact ReleasePhase.unmarked_idle
  · cases st with
    | none => exact Releases.ret _
    | some lease => exact onCache_releases (walk_known.touchLease trivial lease)

theorem acquire_releases (object : Nat) (request : KernelLookupRequest) :
    Releases env (KernelLease.acquire env object request) := by
  intro ph hph
  unfold KernelLease.acquire
  refine Phased.bind (onCache_phased hph (acquireImpl_granted request)) fun res ph' => ?_
  cases res with
  | error e => exact Phased.ret fun _ h => h.2
  | ok lease =>
    refine Phased.bind (Q := fun _ ph' _ => ph'.Unmarked) ?_ fun _ ph'' => Phased.ret fun _ h => h
    intro s s' hs _ _
    refine ⟨hs.2.ok fun k hk => ?_, fun _ => True, Stable.const _ _ True, trivial, fun _ _ => ?_⟩
    · cases hk
      exact hs.1 lease rfl
    · exact ReleasePhase.unmarked_idle

theorem moveState_releases (object other : Nat) :
    Releases env (perform (.moveState object other)) :=
  Releases.sect (fun _ => trivial) fun _ => ReleasePhase.unmarked_idle

/-- **The phases of the calls.** -/
theorem call_releases (call : LeaseCall) : Releases env (call.prog env) := by
  cases call with
  | operation op h => exact onCache_releases (operation_known h)
  | acquire object request => exact acquire_releases object request
  | moveConstruct object other =>
    exact Releases.bind (moveState_releases object other) fun _ => Releases.ret _
  | moveAssign object other =>
    refine Releases.bind ?_ fun _ => Releases.ret _
    unfold KernelLease.moveAssign
    split
    · exact Releases.ret _
    · exact Releases.bind (release_releases object) fun _ => moveState_releases object other
  | release object => exact Releases.bind (release_releases object) fun _ => Releases.ret _
  | destroy object => exact Releases.bind (release_releases object) fun _ => Releases.ret _
  | touch object => exact Releases.bind (touch_releases object) fun _ => Releases.ret _

end Calls

/-! ## Sound steps -/

/-- Every section of the cache has proper arguments. -/
abbrev ProperParts : LeaseStep → Leasing → Leasing → Prop :=
  OnPart LeaseStep.base Leasing.impl fun l _ _ => l.Proper

section Proper

variable {env : Env}

/-- A section that is not one of the cache, or has no arguments that matter. -/
theorem sect_proper {α : Type} {l : LeaseStep} {read : Leasing → α}
    (hl : ∀ l₀, l.base = some l₀ → l₀.Proper) :
    (sect l read).Free (leaseStep env) (fun _ _ _ => True) ProperParts :=
  Free.sect fun _ _ _ _ => hl

theorem onCache_proper {α : Type} {p : Op α}
    (hp : p.Free (exec env) (fun _ _ _ => True) fun l _ _ => l.Proper) :
    (onCache p).Free (leaseStep env) (fun _ _ _ => True) ProperParts :=
  (leaseStep_extends env).sat (fun _ _ _ _ _ _ => trivial)
    (fun l s s' hl l₀ heq => by
      cases heq
      exact hl) hp

theorem release_proper (object : Nat) :
    (KernelLease.release object).Free (leaseStep env) (fun _ _ _ => True) ProperParts := by
  unfold KernelLease.release
  refine Free.bind (sect_proper fun l₀ h => by cases h) fun st => ?_
  cases st with
  | none => exact Free.ret _
  | some k =>
    refine Free.bind (sect_proper fun l₀ h => ?_) fun old => ?_
    · cases h
      exact trivial
    · split
      · exact Free.ret _
      · refine Free.bind (sect_proper fun l₀ h => ?_) fun _ => sect_proper fun l₀ h => by cases h
        cases h
        exact trivial

theorem call_proper (call : LeaseCall) :
    (call.prog env).Free (leaseStep env) (fun _ _ _ => True) ProperParts := by
  have w : Walk (Guaranteed env (fun _ _ _ => True) fun l _ _ => l.Proper) fun _ => True :=
    walk_guaranteed fun _ _ _ _ _ hl _ => hl
  cases call with
  | operation op h => exact onCache_proper (operation_proper env op)
  | acquire object request =>
    have hacquire : (acquireImpl env request).Free (exec env) (fun _ _ _ => True)
        fun l _ _ => l.Proper := by
      refine w.acquireImpl trivial ?_ (w.leaseRecord trivial trivial
        (w.promotes trivial trivial trivial (w.evictImpl trivial trivial)))
      exact w.buildImpl trivial trivial (w.sect trivial trivial fun _ => trivial)
        (fun _ _ => w.perform trivial trivial) fun _ _ => w.perform trivial trivial
    refine Free.bind (onCache_proper hacquire) fun res => ?_
    cases res with
    | error e => exact Free.ret _
    | ok lease => exact Free.bind (sect_proper fun l₀ h => by cases h) fun _ => Free.ret _
  | moveConstruct object other =>
    exact Free.bind (sect_proper fun l₀ h => by cases h) fun _ => Free.ret _
  | moveAssign object other =>
    refine Free.bind ?_ fun _ => Free.ret _
    unfold KernelLease.moveAssign
    split
    · exact Free.ret _
    · exact Free.bind (release_proper object) fun _ => sect_proper fun l₀ h => by cases h
  | release object => exact Free.bind (release_proper object) fun _ => Free.ret _
  | destroy object => exact Free.bind (release_proper object) fun _ => Free.ret _
  | touch object =>
    refine Free.bind ?_ fun _ => Free.ret _
    unfold KernelLease.touch
    refine Free.bind (sect_proper fun l₀ h => by cases h) fun st => ?_
    cases st with
    | none => exact Free.ret _
    | some k => exact onCache_proper (w.touchLease trivial k)

theorem leaseRuns_sound {store : FilePersistenceStore} {tr : List (Event LeaseStep Leasing)}
    {pool : Pool LeaseStep Leasing Answer} (h : LeaseRuns env store tr pool) :
    ∀ e ∈ tr, SoundParts e.label e.before e.after := by
  have hproper : ∀ e ∈ tr, ProperParts e.label e.before e.after := by
    refine Runs.guarantee (C := fun _ _ _ => True) ?_ h fun _ _ => trivial
    rintro p ⟨call, rfl⟩
    exact call_proper call
  have hsound := Runs.invariant (I := fun s : Leasing => s.impl.Sound) (Impl.initial_sound store) h
    fun e he hs => by
      cases hbase : e.label.base with
      | none =>
        rw [(leaseStep_extends env).aside _ _ _ (h.event_step e he) hbase]
        exact hs
      | some l =>
        exact exec_sound ((leaseStep_extends env).taken _ _ _ _ (h.event_step e he) hbase)
          (hproper e he l hbase) hs
  exact fun e he l hl => ⟨hproper e he l hl, (hsound.1 e he).1⟩

end Proper

/-! ## The invariant -/

/-- How often a lease has been counted down. -/
def countDowns (tr : List (Event LeaseStep Leasing)) (k : Nat) : Nat :=
  tr.countP fun e => e.label.countsDown k

/-- The leases granted on a record that have not been counted down. -/
def Impl.outstanding (s : Impl) (tr : List (Event LeaseStep Leasing)) (p : Nat) : Finset Nat :=
  (Finset.range s.nextLease).filter fun k => (s.leases k).record = p ∧ countDowns tr k = 0

/-- The count-down finds its lease counted. -/
def CountedOnce (e : Event LeaseStep Leasing) : Prop :=
  ∀ k p, e.label = .countDown k p → (e.before.impl.leases k).record = p ∧
    (e.before.impl.leases k).released = true ∧
    (e.before.impl.records p).leaseCount = (e.after.impl.records p).leaseCount + 1

/-- **The books.** -/
structure Balanced (tr : List (Event LeaseStep Leasing)) (P : Nat → ReleasePhase) (h : Leasing) :
    Prop where
  known : ∀ k < h.impl.nextLease, (h.impl.leases k).record < h.impl.nextRecord
  granted : ∀ object k, h.state object = some k → k < h.impl.nextLease
  holds : ∀ i k, P i = .holds k → k < h.impl.nextLease
  marked : ∀ i k p, P i = .marked k p → k < h.impl.nextLease ∧ (h.impl.leases k).record = p ∧
    (h.impl.leases k).released = true ∧ countDowns tr k = 0
  alone : ∀ i j k p q, P i = .marked k p → P j = .marked k q → i = j
  settled : ∀ k < h.impl.nextLease, (h.impl.leases k).released = true →
    countDowns tr k = 1 ∨ ∃ i p, P i = .marked k p
  unmarked : ∀ k, k < h.impl.nextLease → (h.impl.leases k).released = false → countDowns tr k = 0
  fresh : ∀ k, h.impl.nextLease ≤ k → countDowns tr k = 0
  once : ∀ k, countDowns tr k ≤ 1
  counts : ∀ p < h.impl.nextRecord,
    (h.impl.records p).leaseCount = (h.impl.outstanding tr p).card
  paid : ∀ e ∈ tr, CountedOnce e

theorem countDowns_concat (tr : List (Event LeaseStep Leasing)) (e : Event LeaseStep Leasing)
    (k : Nat) :
    countDowns (tr ++ [e]) k = countDowns tr k + if e.label.countsDown k = true then 1 else 0 := by
  rw [countDowns, List.countP_append, List.countP_singleton]
  rfl

theorem countDowns_other {tr : List (Event LeaseStep Leasing)} {e : Event LeaseStep Leasing}
    (h : ∀ k, e.label.countsDown k = false) (k : Nat) : countDowns (tr ++ [e]) k = countDowns tr k := by
  rw [countDowns_concat, h k]
  rfl

/-- A section that is no count-down owes nothing. -/
theorem countedOnce_other {e : Event LeaseStep Leasing} (h : ∀ k, e.label.countsDown k = false) :
    CountedOnce e := by
  intro k p hlabel
  have hno := h k
  rw [hlabel] at hno
  simp [LeaseStep.countsDown] at hno

/-- The phase of a thread after a section of thread `i`. -/
theorem update_marked {P : Nat → ReleasePhase} {i j k p : Nat} {ph : ReleasePhase}
    (h : Function.update P i ph j = .marked k p) :
    (j = i ∧ ph = .marked k p) ∨ (j ≠ i ∧ P j = .marked k p) := by
  by_cases hj : j = i
  · subst hj
    rw [Function.update_self] at h
    exact .inl ⟨rfl, h⟩
  · rw [Function.update_of_ne hj] at h
    exact .inr ⟨hj, h⟩

/-- A mark stays when another thread takes a section. -/
theorem marked_update {P : Nat → ReleasePhase} {i j k p : Nat} {ph : ReleasePhase}
    (hi : (P i).Unmarked) (hj : P j = .marked k p) : Function.update P i ph j = .marked k p := by
  have hne : j ≠ i := by
    rintro rfl
    exact hi k p hj
  rw [Function.update_of_ne hne]
  exact hj

theorem paid_concat {tr : List (Event LeaseStep Leasing)} {e : Event LeaseStep Leasing}
    (h : ∀ e ∈ tr, CountedOnce e) (he : CountedOnce e) : ∀ e' ∈ tr ++ [e], CountedOnce e' := by
  intro e' he'
  rcases List.mem_append.mp he' with hold | hnew
  · exact h e' hold
  · obtain rfl := List.mem_singleton.mp hnew
    exact he

namespace Balanced

variable {tr : List (Event LeaseStep Leasing)} {P : Nat → ReleasePhase} {s s' : Leasing} {i : Nat}
  {l : LeaseStep}

theorem initial (store : FilePersistenceStore) :
    Balanced [] (fun _ => .idle) { impl := Impl.initial store } where
  known := fun k hk => absurd hk (Nat.not_lt_zero k)
  granted := fun object k hk => by cases hk
  holds := fun i k hk => by cases hk
  marked := fun i k p hk => by cases hk
  alone := fun i j k p q hk => by cases hk
  settled := fun k hk => absurd hk (Nat.not_lt_zero k)
  unmarked := fun k hk => absurd hk (Nat.not_lt_zero k)
  fresh := fun _ _ => rfl
  once := fun _ => Nat.zero_le 1
  counts := fun p hp => absurd hp (Nat.not_lt_zero p)
  paid := fun e he => by cases he

/-- Whoever has read of a lease has read of a granted one. -/
theorem holds_update (hb : Balanced tr P s) {ph : ReleasePhase}
    (hph : ∀ k, ph = .holds k → k < s.impl.nextLease) {j k : Nat}
    (hj : Function.update P i ph j = .holds k) : k < s.impl.nextLease := by
  by_cases hji : j = i
  · subst hji
    rw [Function.update_self] at hj
    exact hph k hj
  · rw [Function.update_of_ne hji] at hj
    exact hb.holds j k hj

/-- A section that neither grants nor marks nor counts down. -/
theorem frame (hb : Balanced tr P s) {ph : ReleasePhase} (hi : (P i).Unmarked)
    (hph : ph.Unmarked) (hholds : ∀ k, ph = .holds k → k < s.impl.nextLease)
    (hlabel : ∀ k, l.countsDown k = false)
    (hlease : s'.impl.nextLease = s.impl.nextLease)
    (hrecord : ∀ k, (s'.impl.leases k).record = (s.impl.leases k).record)
    (hreleased : ∀ k, (s'.impl.leases k).released = (s.impl.leases k).released)
    (hnext : s.impl.nextRecord ≤ s'.impl.nextRecord)
    (hcount : ∀ q < s'.impl.nextRecord, (s'.impl.records q).leaseCount =
      if q < s.impl.nextRecord then (s.impl.records q).leaseCount else 0)
    (hgranted : ∀ object k, s'.state object = some k → k < s.impl.nextLease) :
    Balanced (tr ++ [⟨i, l, s, s'⟩]) (Function.update P i ph) s' := by
  have hdowns : ∀ k, countDowns (tr ++ [⟨i, l, s, s'⟩]) k = countDowns tr k := countDowns_other hlabel
  refine ⟨fun k hk => ?_, ?_, fun j k hj => ?_, fun j k p hj => ?_, fun j j' k p q hj hj' => ?_,
    fun k hk hrel => ?_, fun k hk hrel => ?_, fun k hk => ?_, fun k => ?_, fun q hq => ?_,
    paid_concat hb.paid (countedOnce_other hlabel)⟩
  · rw [hrecord]
    exact lt_of_lt_of_le (hb.known k (by omega)) hnext
  · rw [hlease]
    exact hgranted
  · rw [hlease]
    exact hb.holds_update hholds hj
  · rcases update_marked hj with ⟨-, heq⟩ | ⟨-, hj⟩
    · exact absurd heq (hph k p)
    · rw [hlease, hrecord, hreleased, hdowns]
      exact hb.marked j k p hj
  · rcases update_marked hj with ⟨-, heq⟩ | ⟨-, hj⟩
    · exact absurd heq (hph k p)
    · rcases update_marked hj' with ⟨-, heq⟩ | ⟨-, hj'⟩
      · exact absurd heq (hph k q)
      · exact hb.alone j j' k p q hj hj'
  · rw [hlease] at hk
    rw [hreleased] at hrel
    rw [hdowns]
    exact (hb.settled k hk hrel).imp_right fun ⟨j, p, hj⟩ => ⟨j, p, marked_update hi hj⟩
  · rw [hlease] at hk
    rw [hreleased] at hrel
    rw [hdowns]
    exact hb.unmarked k hk hrel
  · rw [hlease] at hk
    rw [hdowns]
    exact hb.fresh k hk
  · rw [hdowns]
    exact hb.once k
  · have hsame : s'.impl.outstanding (tr ++ [⟨i, l, s, s'⟩]) q = s.impl.outstanding tr q := by
      unfold Impl.outstanding
      simp only [hlease, hrecord, hdowns]
    rw [hcount q hq, hsame]
    split
    · rename_i hold
      exact hb.counts q hold
    · rename_i hnew
      -- nobody has leased a record that was not there
      symm
      rw [Finset.card_eq_zero, Impl.outstanding, Finset.filter_eq_empty_iff]
      rintro k hk ⟨hrec, -⟩
      have hlt := hb.known k (Finset.mem_range.mp hk)
      omega

/-- The first exchange on a lease. -/
theorem mark (hb : Balanced tr P s) {k₀ : Nat} (hi : (P i).Unmarked)
    (hk₀ : k₀ < s.impl.nextLease) (hfirst : (s.impl.leases k₀).released = false)
    (hlabel : ∀ k, l.countsDown k = false)
    (hlease : s'.impl.nextLease = s.impl.nextLease) (hrecords : s'.impl.records = s.impl.records)
    (hnext : s'.impl.nextRecord = s.impl.nextRecord)
    (hrecord : ∀ k, (s'.impl.leases k).record = (s.impl.leases k).record)
    (hreleased : ∀ k, (s'.impl.leases k).released =
      if k = k₀ then true else (s.impl.leases k).released)
    (hstate : s'.state = s.state) :
    Balanced (tr ++ [⟨i, l, s, s'⟩])
      (Function.update P i (.marked k₀ (s.impl.leases k₀).record)) s' := by
  have hdowns : ∀ k, countDowns (tr ++ [⟨i, l, s, s'⟩]) k = countDowns tr k := countDowns_other hlabel
  have hne : ∀ {j p}, P j ≠ .marked k₀ p := by
    intro j p hj
    have hmarked := (hb.marked j k₀ p hj).2.2.1
    rw [hfirst] at hmarked
    cases hmarked
  refine ⟨fun k hk => ?_, ?_, fun j k hj => ?_, fun j k p hj => ?_, fun j j' k p q hj hj' => ?_,
    fun k hk hrel => ?_, fun k hk hrel => ?_, fun k hk => ?_, fun k => ?_, fun q hq => ?_,
    paid_concat hb.paid (countedOnce_other hlabel)⟩
  · rw [hrecord, hnext]
    exact hb.known k (by omega)
  · rw [hlease, hstate]
    exact hb.granted
  · rw [hlease]
    exact hb.holds_update (fun k hk => by cases hk) hj
  · rw [hlease, hrecord, hreleased, hdowns]
    rcases update_marked hj with ⟨-, heq⟩ | ⟨-, hj⟩
    · cases heq
      exact ⟨hk₀, rfl, if_pos rfl, hb.unmarked k₀ hk₀ hfirst⟩
    · obtain ⟨hlt, hrec, hrel, hzero⟩ := hb.marked j k p hj
      refine ⟨hlt, hrec, ?_, hzero⟩
      rw [hrel]
      exact ite_self _
  · rcases update_marked hj with ⟨rfl, heq⟩ | ⟨-, hold⟩
    · cases heq
      rcases update_marked hj' with ⟨rfl, -⟩ | ⟨-, hold'⟩
      · rfl
      · exact absurd hold' hne
    · rcases update_marked hj' with ⟨rfl, heq⟩ | ⟨-, hold'⟩
      · cases heq
        exact absurd hold hne
      · exact hb.alone j j' k p q hold hold'
  · rw [hlease] at hk
    rw [hdowns]
    by_cases hkk : k = k₀
    · subst hkk
      exact .inr ⟨i, _, Function.update_self ..⟩
    · rw [hreleased, if_neg hkk] at hrel
      exact (hb.settled k hk hrel).imp_right fun ⟨j, p, hj⟩ => ⟨j, p, marked_update hi hj⟩
  · rw [hlease] at hk
    rw [hdowns]
    rw [hreleased] at hrel
    split at hrel
    · cases hrel
    · exact hb.unmarked k hk hrel
  · rw [hlease] at hk
    rw [hdowns]
    exact hb.fresh k hk
  · rw [hdowns]
    exact hb.once k
  · have hsame : s'.impl.outstanding (tr ++ [⟨i, l, s, s'⟩]) q = s.impl.outstanding tr q := by
      unfold Impl.outstanding
      simp only [hlease, hrecord, hdowns]
    rw [hrecords, hsame]
    exact hb.counts q (by omega)

/-- A lease is granted. -/
theorem grant (hb : Balanced tr P s) {p₀ : Nat} (hi : (P i).Unmarked)
    (hp₀ : p₀ < s.impl.nextRecord) (hlabel : ∀ k, l.countsDown k = false)
    (hlease : s'.impl.nextLease = s.impl.nextLease + 1)
    (hrec₀ : (s'.impl.leases s.impl.nextLease).record = p₀)
    (hrel₀ : (s'.impl.leases s.impl.nextLease).released = false)
    (hkept : ∀ k ≠ s.impl.nextLease, s'.impl.leases k = s.impl.leases k)
    (hnext : s'.impl.nextRecord = s.impl.nextRecord)
    (hcount : ∀ q, (s'.impl.records q).leaseCount =
      (s.impl.records q).leaseCount + if q = p₀ then 1 else 0)
    (hstate : s'.state = s.state) :
    Balanced (tr ++ [⟨i, l, s, s'⟩]) (Function.update P i .idle) s' := by
  have hdowns : ∀ k, countDowns (tr ++ [⟨i, l, s, s'⟩]) k = countDowns tr k := countDowns_other hlabel
  have hold : ∀ {k}, k < s.impl.nextLease → s'.impl.leases k = s.impl.leases k :=
    fun hk => hkept _ (Nat.ne_of_lt hk)
  have hmarked : ∀ {j k p}, Function.update P i .idle j = .marked k p → P j = .marked k p := by
    intro j k p hj
    rcases update_marked hj with ⟨-, heq⟩ | ⟨-, hj⟩
    · cases heq
    · exact hj
  refine ⟨fun k hk => ?_, fun object k hk => ?_, fun j k hj => ?_, fun j k p hj => ?_,
    fun j j' k p q hj hj' => hb.alone j j' k p q (hmarked hj) (hmarked hj'),
    fun k hk hrel => ?_, fun k hk hrel => ?_, fun k hk => ?_, fun k => ?_, fun q hq => ?_,
    paid_concat hb.paid (countedOnce_other hlabel)⟩
  · by_cases hk' : k < s.impl.nextLease
    · rw [hold hk', hnext]
      exact hb.known k hk'
    · obtain rfl : k = s.impl.nextLease := by omega
      omega
  · rw [hstate] at hk
    have hlt := hb.granted object k hk
    omega
  · have hlt := hb.holds_update (fun k hk => by cases hk) hj
    omega
  · obtain ⟨hlt, hrec, hrel, hzero⟩ := hb.marked j k p (hmarked hj)
    rw [hold hlt, hdowns]
    exact ⟨by omega, hrec, hrel, hzero⟩
  · by_cases hk' : k < s.impl.nextLease
    · rw [hold hk'] at hrel
      rw [hdowns]
      exact (hb.settled k hk' hrel).imp_right fun ⟨j, p, hj⟩ => ⟨j, p, marked_update hi hj⟩
    · obtain rfl : k = s.impl.nextLease := by omega
      rw [hrel₀] at hrel
      cases hrel
  · rw [hdowns]
    by_cases hk' : k < s.impl.nextLease
    · rw [hold hk'] at hrel
      exact hb.unmarked k hk' hrel
    · exact hb.fresh k (by omega)
  · rw [hdowns]
    exact hb.fresh k (by omega)
  · rw [hdowns]
    exact hb.once k
  · have hsplit : s'.impl.outstanding (tr ++ [⟨i, l, s, s'⟩]) q =
        if q = p₀ then insert s.impl.nextLease (s.impl.outstanding tr q)
        else s.impl.outstanding tr q := by
      have hset : (Finset.range s.impl.nextLease).filter (fun k =>
          (s'.impl.leases k).record = q ∧ countDowns (tr ++ [⟨i, l, s, s'⟩]) k = 0) =
          s.impl.outstanding tr q := by
        refine Finset.filter_congr fun k hk => ?_
        rw [hold (Finset.mem_range.mp hk), hdowns]
      rw [Impl.outstanding, hlease, Finset.range_add_one, Finset.filter_insert, hset, hrec₀, hdowns,
        hb.fresh _ le_rfl]
      by_cases hq : q = p₀
      · rw [if_pos ⟨hq.symm, rfl⟩, if_pos hq]
      · rw [if_neg (fun h => hq h.1.symm), if_neg hq]
    rw [hcount, hsplit, hb.counts q (by omega)]
    split
    · rw [Finset.card_insert_of_notMem]
      intro hmem
      have hlt := Finset.mem_range.mp (Finset.mem_filter.mp hmem).1
      omega
    · rfl

/-- A lease is counted down. -/
theorem pay (hb : Balanced tr P s) {k₀ p₀ : Nat} (hi : P i = .marked k₀ p₀)
    (hlease : s'.impl.nextLease = s.impl.nextLease) (hleases : s'.impl.leases = s.impl.leases)
    (hnext : s'.impl.nextRecord = s.impl.nextRecord)
    (hcount : ∀ q, (s'.impl.records q).leaseCount =
      (s.impl.records q).leaseCount - if q = p₀ then 1 else 0)
    (hstate : s'.state = s.state) :
    Balanced (tr ++ [⟨i, .countDown k₀ p₀, s, s'⟩]) (Function.update P i .idle) s' := by
  obtain ⟨hk₀, hrec₀, hrel₀, hzero₀⟩ := hb.marked i k₀ p₀ hi
  have hdowns : ∀ k, countDowns (tr ++ [⟨i, .countDown k₀ p₀, s, s'⟩]) k =
      countDowns tr k + if k = k₀ then 1 else 0 := by
    intro k
    rw [countDowns_concat]
    by_cases hk : k = k₀
    · simp [LeaseStep.countsDown, hk]
    · simp [LeaseStep.countsDown, hk, Ne.symm hk]
  have hmarked : ∀ {j k p}, Function.update P i .idle j = .marked k p →
      P j = .marked k p ∧ k ≠ k₀ := by
    intro j k p hj
    rcases update_marked hj with ⟨-, heq⟩ | ⟨hji, hj⟩
    · cases heq
    · refine ⟨hj, ?_⟩
      rintro rfl
      exact hji (hb.alone j i k p p₀ hj hi)
  have hmem : k₀ ∈ s.impl.outstanding tr p₀ :=
    Finset.mem_filter.mpr ⟨Finset.mem_range.mpr hk₀, hrec₀, hzero₀⟩
  have hp₀ : p₀ < s.impl.nextRecord := hrec₀ ▸ hb.known k₀ hk₀
  have hpos : 0 < (s.impl.records p₀).leaseCount := by
    rw [hb.counts p₀ hp₀]
    exact Finset.card_pos.mpr ⟨k₀, hmem⟩
  refine ⟨fun k hk => ?_, ?_, fun j k hj => ?_, fun j k p hj => ?_,
    fun j j' k p q hj hj' => hb.alone j j' k p q (hmarked hj).1 (hmarked hj').1,
    fun k hk hrel => ?_, fun k hk hrel => ?_, fun k hk => ?_, fun k => ?_, fun q hq => ?_,
    paid_concat hb.paid ?_⟩
  · rw [hleases, hnext]
    exact hb.known k (by omega)
  · rw [hlease, hstate]
    exact hb.granted
  · rw [hlease]
    exact hb.holds_update (fun k hk => by cases hk) hj
  · obtain ⟨hj, hne⟩ := hmarked hj
    rw [hlease, hleases, hdowns, if_neg hne]
    exact hb.marked j k p hj
  · rw [hlease] at hk
    rw [hleases] at hrel
    rw [hdowns]
    by_cases hkk : k = k₀
    · subst hkk
      rw [if_pos rfl, hzero₀]
      exact .inl rfl
    · rw [if_neg hkk]
      refine (hb.settled k hk hrel).imp_right ?_
      rintro ⟨j, p, hj⟩
      have hji : j ≠ i := by
        rintro rfl
        rw [hi] at hj
        cases hj
        exact hkk rfl
      exact ⟨j, p, (Function.update_of_ne hji ..).trans hj⟩
  · rw [hlease] at hk
    rw [hleases] at hrel
    have hkk : k ≠ k₀ := by
      rintro rfl
      rw [hrel₀] at hrel
      cases hrel
    rw [hdowns, if_neg hkk]
    exact hb.unmarked k hk hrel
  · rw [hlease] at hk
    rw [hdowns, if_neg (by omega)]
    exact hb.fresh k hk
  · rw [hdowns]
    by_cases hkk : k = k₀
    · subst hkk
      rw [if_pos rfl, hzero₀]
    · rw [if_neg hkk]
      exact hb.once k
  · have hsplit : s'.impl.outstanding (tr ++ [⟨i, .countDown k₀ p₀, s, s'⟩]) q =
        (s.impl.outstanding tr q).erase k₀ := by
      ext k
      simp only [Impl.outstanding, hlease, hleases, hdowns, Finset.mem_filter, Finset.mem_range,
        Finset.mem_erase]
      by_cases hkk : k = k₀
      · simp [hkk]
      · simp [hkk]
    rw [hcount, hsplit, hb.counts q (by omega)]
    by_cases hq : q = p₀
    · subst hq
      rw [if_pos rfl, Finset.card_erase_of_mem hmem]
    · rw [if_neg hq, Finset.erase_eq_of_notMem]
      · rfl
      · intro hk
        exact hq ((Finset.mem_filter.mp hk).2.1.symm.trans hrec₀)
  · intro k p heq
    cases heq
    refine ⟨hrec₀, hrel₀, ?_⟩
    show (s.impl.records p₀).leaseCount = (s'.impl.records p₀).leaseCount + 1
    rw [hcount, if_pos rfl]
    omega

end Balanced

/-- What a thread that owes nothing may do: release the lease it has read of, or something quiet. -/
theorem ReleasePhase.Unmarked.cases {ph : ReleasePhase} (h : ph.Unmarked) {l : LeaseStep}
    {s : Leasing} (hok : ph.ok l s) :
    (∃ k, ph = .holds k ∧ l = .cache (.exchangeReleased k)) ∨ l.Quiet s := by
  cases ph with
  | idle => exact .inr hok
  | holds k => exact hok.imp_left fun hl => ⟨k, rfl, hl⟩
  | marked k p => exact absurd rfl (h k p)

/-- A section of the cache keeps the books. -/
theorem cacheStep_balanced {env : Env} {tr : List (Event LeaseStep Leasing)}
    {P : Nat → ReleasePhase} {i : Nat} {l : Step} {s : Leasing} {s₁ : Impl} (hb : Balanced tr P s)
    (hi : (P i).Unmarked) (hok : (P i).ok (.cache l) s) (h : exec env l s.impl = some s₁)
    (hl : l.Proper) :
    Balanced (tr ++ [⟨i, .cache l, s, { s with impl := s₁ }⟩])
      (Function.update P i (LeaseStep.phase (.cache l) s)) { s with impl := s₁ } := by
  by_cases hlease : l.isLease = true
  · cases l with
    | grantLease p pin =>
      have hp : p < s.impl.nextRecord := by
        rcases hi.cases hok with ⟨k, -, heq⟩ | hquiet
        · cases heq
        · exact hquiet
      have hnext := (exec_sameIndex h rfl).nextRecord
      rcases exec_grantLease h with ⟨-, hgrown, hrec, hrel, hkept, -, hcount⟩ | ⟨hsame, hrecs, -⟩
      · exact hb.grant hi hp (fun _ => rfl) hgrown hrec hrel hkept hnext hcount rfl
      · refine hb.frame hi ReleasePhase.unmarked_idle (fun k hk => by cases hk) (fun _ => rfl)
          hsame.nextLease (fun k => ?_) (fun k => ?_) hnext.ge (fun q hq => ?_) hb.granted
        · show (s₁.leases k).record = _
          rw [hsame.leases]
        · show (s₁.leases k).released = _
          rw [hsame.leases]
        · show (s₁.records q).leaseCount = _
          rw [hrecs, if_pos (lt_of_lt_of_eq hq hnext)]
    | exchangeReleased k₀ =>
      obtain ⟨k, hph, heq⟩ : ∃ k, P i = .holds k ∧
          LeaseStep.cache (.exchangeReleased k₀) = .cache (.exchangeReleased k) :=
        (hi.cases hok).resolve_right fun hno => hno
      cases heq
      have hk₀ := hb.holds i k₀ hph
      obtain ⟨hnext, hrecs, hheap, hrecord, hreleased⟩ := exec_exchangeReleased h
      show Balanced _ (Function.update P i (if (s.impl.leases k₀).released then .idle
        else .marked k₀ (s.impl.leases k₀).record)) _
      cases hfirst : (s.impl.leases k₀).released with
      | false =>
        exact hb.mark hi hk₀ hfirst (fun _ => rfl) hnext hrecs hheap hrecord hreleased rfl
      | true =>
        -- the lease was marked already
        refine hb.frame hi ReleasePhase.unmarked_idle (fun k hk => by cases hk) (fun _ => rfl) hnext
          hrecord (fun k => ?_) hheap.ge (fun q hq => ?_) hb.granted
        · rw [hreleased]
          split
          · rename_i heq
            rw [heq, hfirst]
          · rfl
        · show (s₁.records q).leaseCount = _
          rw [hrecs, if_pos (lt_of_lt_of_eq hq hheap)]
    | _ => cases hlease
  · have hno : l.isLease = false := by simpa using hlease
    have hquiet : l.LeasesKnown s.impl := by
      refine (hi.cases hok).resolve_left ?_
      rintro ⟨k, -, heq⟩
      cases heq
      cases hno
    have hphase : LeaseStep.phase (.cache l) s = .idle := by
      cases l with
      | exchangeReleased k => cases hno
      | _ => rfl
    have hsame := exec_sameLeases h hno
    rw [hphase]
    refine hb.frame hi ReleasePhase.unmarked_idle (fun k hk => by cases hk) (fun _ => rfl)
      hsame.nextLease (fun k => ?_) (fun k => ?_) (exec_extends h hl).next_le (fun q hq => ?_)
      hb.granted
    · show (s₁.leases k).record = _
      rw [hsame.leases]
    · show (s₁.leases k).released = _
      rw [hsame.leases]
    · refine exec_leaseCount h hl ?_ ?_ q hq
      · rintro p pin rfl
        cases hno
      · rintro p rfl
        exact hquiet

/-- **One section keeps the books.** -/
theorem leaseStep_balanced {env : Env} {tr : List (Event LeaseStep Leasing)}
    {P : Nat → ReleasePhase} {i : Nat} {l : LeaseStep} {s s' : Leasing} (hb : Balanced tr P s)
    (hok : (P i).ok l s) (h : leaseStep env l s = some s') (hC : SoundParts l s s') :
    Balanced (tr ++ [⟨i, l, s, s'⟩])
      (Function.update P i (ReleasePhase.next (P i) l s)) s' := by
  show Balanced _ (Function.update P i (l.phase s)) s'
  by_cases hi : (P i).Unmarked
  · cases l with
    | countDown k p =>
      rcases hi.cases hok with ⟨k', -, heq⟩ | hno
      · cases heq
      · exact hno.elim
    | readState object =>
      cases h
      refine hb.frame hi ?_ ?_ (fun _ => rfl) rfl (fun _ => rfl) (fun _ => rfl) le_rfl
        (fun q hq => (if_pos hq).symm) hb.granted
      · unfold LeaseStep.phase
        dsimp only
        split
        · exact ReleasePhase.unmarked_holds _
        · exact ReleasePhase.unmarked_idle
      · intro k hk
        simp only [LeaseStep.phase] at hk
        split at hk
        · cases hk
          rename_i hst
          exact hb.granted object k hst
        · cases hk
    | setState object st =>
      cases h
      have hgranted : ∀ k, st = some k → k < s.impl.nextLease := by
        rcases hi.cases hok with ⟨k', -, heq⟩ | hquiet
        · cases heq
        · exact hquiet
      refine hb.frame hi ReleasePhase.unmarked_idle (fun k hk => by cases hk) (fun _ => rfl) rfl
        (fun _ => rfl) (fun _ => rfl) le_rfl (fun q hq => (if_pos hq).symm) fun o k hk => ?_
      have hk' : Function.update s.state object st o = some k := hk
      by_cases ho : o = object
      · subst ho
        rw [Function.update_self] at hk'
        exact hgranted k hk'
      · rw [Function.update_of_ne ho] at hk'
        exact hb.granted o k hk'
    | moveState object other =>
      cases h
      refine hb.frame hi ReleasePhase.unmarked_idle (fun k hk => by cases hk) (fun _ => rfl) rfl
        (fun _ => rfl) (fun _ => rfl) le_rfl (fun q hq => (if_pos hq).symm) fun o k hk => ?_
      have hk' : Function.update (Function.update s.state object (s.state other)) other none o =
        some k := hk
      by_cases ho : o = other
      · subst ho
        rw [Function.update_self] at hk'
        cases hk'
      · rw [Function.update_of_ne ho] at hk'
        by_cases ho' : o = object
        · subst ho'
          rw [Function.update_self] at hk'
          exact hb.granted other k hk'
        · rw [Function.update_of_ne ho'] at hk'
          exact hb.granted o k hk'
    | cache l =>
      obtain ⟨s₁, hs₁, rfl⟩ := Option.map_eq_some_iff.mp h
      exact cacheStep_balanced hb hi hok hs₁ (hC l rfl).proper
  · cases hph : P i with
    | idle => exact absurd (hph ▸ ReleasePhase.unmarked_idle) hi
    | holds k => exact absurd (hph ▸ ReleasePhase.unmarked_holds k) hi
    | marked k p =>
      rw [hph] at hok
      obtain rfl : l = .countDown k p := hok
      obtain ⟨s₁, hs₁, rfl⟩ := Option.map_eq_some_iff.mp h
      obtain ⟨hsame, hnext, hcount⟩ := exec_onLeaseRelease hs₁
      exact hb.pay hph hsame.nextLease hsame.leases hnext hcount rfl

/-! ## Every run -/

/-- Every section of a run is one its thread may take. -/
theorem leaseRuns_allowed {env : Env} {store : FilePersistenceStore}
    {tr : List (Event LeaseStep Leasing)} {pool : Pool LeaseStep Leasing Answer}
    (h : LeaseRuns env store tr pool) : ∀ tr₁ e, tr₁ ++ [e] <+: tr →
      (phases ReleasePhase.next (fun _ => .idle) tr₁ e.thread).ok e.label e.before := by
  refine Runs.allowed (Q := fun _ _ ph _ => ph.Unmarked) (fun i p hp => by cases hp) ?_ h
    (leaseRuns_sound h)
  rintro i p ⟨call, rfl⟩
  exact call_releases call _ ReleasePhase.unmarked_idle

/-- **The books, every run**; and a thread that has finished owes no count-down. -/
theorem leaseRuns_balanced {env : Env} {store : FilePersistenceStore}
    {tr : List (Event LeaseStep Leasing)} {pool : Pool LeaseStep Leasing Answer}
    (h : LeaseRuns env store tr pool) :
    Balanced tr (phases ReleasePhase.next (fun _ => .idle) tr) pool.shared ∧
      ∀ i a, pool.threads[i]? = some (.ret a) →
        (phases ReleasePhase.next (fun _ => .idle) tr i).Unmarked :=
  Runs.protocol (C := SoundParts) ReleasePhase.ok ReleasePhase.next
    (fun _ => .idle) (Q := fun _ _ ph _ => ph.Unmarked) (J := Balanced)
    (fun i p hp => by cases hp)
    (fun i p ⟨call, hcall⟩ => by
      subst hcall
      exact call_releases call _ ReleasePhase.unmarked_idle)
    (Balanced.initial store)
    (fun tr P i l s s' hJ hok hf hC => leaseStep_balanced hJ hok hf hC) h (leaseRuns_sound h)

/-- When nobody is in the middle of a release, the leases that are released are those counted down. -/
theorem leaseRuns_finished {env : Env} {store : FilePersistenceStore}
    {tr : List (Event LeaseStep Leasing)} {pool : Pool LeaseStep Leasing Answer}
    (h : LeaseRuns env store tr pool) (hdone : ∀ q ∈ pool.threads, ∃ a, q = .ret a) :
    ∀ k < pool.shared.impl.nextLease,
      countDowns tr k = if (pool.shared.impl.leases k).released then 1 else 0 := by
  obtain ⟨hb, hends⟩ := leaseRuns_balanced h
  -- a thread that has finished owes no count-down, and a thread that never started owes none
  have hfree : ∀ i, (phases ReleasePhase.next (fun _ => .idle) tr i).Unmarked := by
    intro i
    by_cases hi : i < pool.threads.length
    · have hget := List.getElem?_eq_getElem hi
      obtain ⟨a, ha⟩ := hdone _ (List.mem_of_getElem? hget)
      rw [ha] at hget
      exact hends i a hget
    · rw [Foundation.phases_of_idle]
      · exact ReleasePhase.unmarked_idle
      · intro e he
        have hlt := h.thread_lt e he
        omega
  intro k hk
  cases hrel : (pool.shared.impl.leases k).released with
  | false => exact hb.unmarked k hk hrel
  | true =>
    rcases hb.settled k hk hrel with hone | ⟨i, p, hi⟩
    · exact hone
    · exact absurd hi (hfree i k p)

end KernelCache
