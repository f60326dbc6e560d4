/-
# KernelCache.EpochOrder — rolls that go backwards.

A client may roll the epoch to any value, and a `RollEpoch` payload that is cut short rolls it to zero:
neither the value nor the result of the decoder is checked.  An epoch that was left behind can come
back, and with it every authority that was rejected for it.

`epoch_order_iff` says which runs are free of that: those in which every roll, at the moment its value
is stored, is not behind what is stored.
-/
import KernelCache.Conduct

namespace KernelCache

open Foundation (Event Pool)

/-- The value of the roll in hand. -/
def Place.rollValue (pl : Place) : CoordinatorEpoch :=
  (pl.frame.map fun frame => rolledTo frame.2).getD 0

theorem Place.Rolls.rollValue {pl : Place} {e : CoordinatorEpoch} (h : pl.Rolls e) :
    pl.rollValue = e := by
  obtain ⟨p, hframe, rfl⟩ := h
  rw [Place.rollValue, hframe]
  rfl

/-- A store of a roll whose value is not behind what it replaces. -/
def RollsForward (pl : Place) (e : Event CoordStep Coordinator) : Prop :=
  match e.label with
  | .storeEpoch _ => e.before.epoch ≤ pl.rollValue
  | .storeGen _ => e.before.gen ≤ pl.rollValue
  | _ => True

/-- Neither the epoch nor the generation is behind. -/
def Coordinator.Precedes (s s' : Coordinator) : Prop := s.epoch ≤ s'.epoch ∧ s.gen ≤ s'.gen

instance (s s' : Coordinator) : Decidable (s.Precedes s') := inferInstanceAs (Decidable (_ ∧ _))

theorem Coordinator.Precedes.refl (s : Coordinator) : s.Precedes s :=
  ⟨UInt64.le_refl _, UInt64.le_refl _⟩

theorem Coordinator.Precedes.trans (s s' s'' : Coordinator) (h : s.Precedes s')
    (h' : s'.Precedes s'') : s.Precedes s'' :=
  ⟨UInt64.le_trans h.1 h'.1, UInt64.le_trans h.2 h'.2⟩

/-- Neither the epoch nor the generation ever decreases. -/
def NeverBack (tr : List (Event CoordStep Coordinator)) : Prop :=
  ∀ e ∈ tr, e.before.Precedes e.after

instance (tr : List (Event CoordStep Coordinator)) : Decidable (NeverBack tr) :=
  inferInstanceAs (Decidable (∀ e ∈ tr, _))

/-- The epochs that were checked, each with the epoch that was current. -/
def epochChecks (tr : List (Event CoordStep Coordinator)) : List (UInt64 × UInt64) :=
  tr.filterMap fun e =>
    match e.label with
    | .checkEpoch x => some (x, e.before.epoch)
    | _ => none

/-- The generations that were checked, each with the generation that was current. -/
def genChecks (tr : List (Event CoordStep Coordinator)) : List (UInt64 × UInt64) :=
  tr.filterMap fun e =>
    match e.label with
    | .checkGen x => some (x, e.before.gen)
    | _ => none

/-- What one check finds outdated is not what is current at a later one. -/
def OutdatedForGood (checks : List (UInt64 × UInt64)) : Prop :=
  checks.Pairwise fun c c' => c.1 < c.2 → c'.1 = c.1 → c'.1 ≠ c'.2

instance (checks : List (UInt64 × UInt64)) : Decidable (OutdatedForGood checks) :=
  inferInstanceAs (Decidable (checks.Pairwise _))

/-- An authority that was rejected as outdated is never accepted again. -/
def StaleForGood (tr : List (Event CoordStep Coordinator)) : Prop :=
  OutdatedForGood (epochChecks tr) ∧ OutdatedForGood (genChecks tr)

instance (tr : List (Event CoordStep Coordinator)) : Decidable (StaleForGood tr) :=
  inferInstanceAs (Decidable (_ ∧ _))

section Runs

variable {peers : Peers} {store : FilePersistenceStore} {tr : List (Event CoordStep Coordinator)}
  {pool : Pool CoordStep Coordinator Unit}

/-- One section: only a store can go back. -/
theorem precedes_iff (h : CoordRuns peers store tr pool) {tr₁ : List (Event CoordStep Coordinator)}
    {e : Event CoordStep Coordinator} (hpre : tr₁ ++ [e] <+: tr) :
    e.before.Precedes e.after ↔ RollsForward (places peers tr₁ e.thread) e := by
  have hstep := h.event_step e (hpre.subset (by simp))
  obtain ⟨-, hafter⟩ := coordExec_eq_some.mp hstep
  have hallows := (conducted h hpre).1
  rw [Coordinator.Precedes, hafter, CoordStep.effect_epoch, CoordStep.effect_gen]
  unfold RollsForward
  cases hlabel : e.label with
  | storeEpoch x =>
    rw [hlabel] at hallows
    rw [hallows.2.rollValue]
    exact and_iff_left (UInt64.le_refl _)
  | storeGen x =>
    rw [hlabel] at hallows
    rw [hallows.2.rollValue]
    exact and_iff_right (UInt64.le_refl _)
  | _ => exact iff_of_true ⟨UInt64.le_refl _, UInt64.le_refl _⟩ trivial

/-- The outdated is left behind for good when nothing decreases. -/
theorem outdated_stays {x cur cur' : UInt64} (hstale : x < cur) (hle : cur ≤ cur') : x ≠ cur' := by
  rintro rfl
  exact absurd (UInt64.lt_of_lt_of_le hstale hle) (UInt64.lt_irrefl _)

theorem staleForGood_of_neverBack (h : CoordRuns peers store tr pool) (hback : NeverBack tr) :
    StaleForGood tr := by
  have hlater := h.pairwise Coordinator.Precedes.refl Coordinator.Precedes.trans hback
  -- each check is related to every later one
  have hchecked : tr.Pairwise fun e e' => e.before.Precedes e'.before := by
    refine hlater.imp_of_mem fun he _ hle => ?_
    exact (hback _ he).trans _ _ _ hle
  constructor
  · refine List.pairwise_filterMap.mpr (hchecked.imp fun {e e'} hle c hc c' hc' hstale hsame => ?_)
    split at hc
    · cases hc
      split at hc'
      · cases hc'
        rw [hsame]
        exact outdated_stays hstale hle.1
      · cases hc'
    · cases hc
  · refine List.pairwise_filterMap.mpr (hchecked.imp fun {e e'} hle c hc c' hc' hstale hsame => ?_)
    split at hc
    · cases hc
      split at hc'
      · cases hc'
        rw [hsame]
        exact outdated_stays hstale hle.2
      · cases hc'
    · cases hc

/-- **The epoch never goes backwards**, and what was rejected as outdated is never accepted again, if
and only if every roll stores a value that is not behind. -/
theorem epoch_order_iff (h : CoordRuns peers store tr pool) :
    (NeverBack tr ∧ StaleForGood tr) ↔
      ∀ tr₁ e, tr₁ ++ [e] <+: tr → RollsForward (places peers tr₁ e.thread) e := by
  constructor
  · rintro ⟨hback, -⟩ tr₁ e hpre
    exact (precedes_iff h hpre).mp (hback e (hpre.subset (by simp)))
  · intro hforward
    have hback : NeverBack tr := by
      intro e he
      obtain ⟨tr₁, tr₂, rfl⟩ := List.append_of_mem he
      have hpre : tr₁ ++ [e] <+: tr₁ ++ e :: tr₂ := ⟨tr₂, by simp⟩
      exact (precedes_iff h hpre).mpr (hforward tr₁ e hpre)
    exact ⟨hback, staleForGood_of_neverBack h hback⟩

end Runs

/-- A client that rolls to `e`, looks something up under epoch zero, sends the `roll`, and looks it up
again. -/
def rollingClient (e : CoordinatorEpoch) (roll : List UInt8) : List ConnMove :=
  .connect [(DistMsgType.rollEpoch.code, encodeRollEpoch e),
      (DistMsgType.lookupReq.code, encodeLookupRequest {} {} [] [] [] 0),
      (DistMsgType.rollEpoch.code, roll),
      (DistMsgType.lookupReq.code, encodeLookupRequest {} {} [] [] [] 0)] ::
    List.replicate 19 (.step 0)

/-- Two rolls forward. -/
theorem epoch_order_iff_sample : ∃ tr pool, CoordRuns {} {} tr pool ∧ epochChecks tr = [(0, 2), (0, 3)] ∧
    ∀ tr₁ e, tr₁ ++ [e] <+: tr → RollsForward (places {} tr₁ e.thread) e := by
  have hplay : (playConns {} {} (rollingClient 2 (encodeRollEpoch 3))).map
      (fun out => (epochChecks out.1, decide (NeverBack out.1), decide (StaleForGood out.1))) =
        some ([(0, 2), (0, 3)], true, true) := by
    decide +kernel
  obtain ⟨⟨tr, pool⟩, hplay, hout⟩ := Option.map_eq_some_iff.mp hplay
  obtain ⟨hchecks, hout⟩ := Prod.mk.inj hout
  obtain ⟨hback, hstale⟩ := Prod.mk.inj hout
  have hruns : CoordRuns {} {} tr pool := CoordRuns.of_play hplay
  exact ⟨tr, pool, hruns, hchecks,
    (epoch_order_iff hruns).mp ⟨of_decide_eq_true hback, of_decide_eq_true hstale⟩⟩

/-- A roll whose payload is empty takes the epoch back to zero, and the authority that was rejected is
accepted. -/
theorem epoch_rolled_back : ∃ tr pool, CoordRuns {} {} tr pool ∧
    epochChecks tr = [(0, 2), (0, 0)] ∧ ¬ NeverBack tr ∧ ¬ StaleForGood tr := by
  have hplay : (playConns {} {} (rollingClient 2 [])).map
      (fun out => (epochChecks out.1, decide (NeverBack out.1), decide (StaleForGood out.1))) =
        some ([(0, 2), (0, 0)], false, false) := by
    decide +kernel
  obtain ⟨⟨tr, pool⟩, hplay, hout⟩ := Option.map_eq_some_iff.mp hplay
  obtain ⟨hchecks, hout⟩ := Prod.mk.inj hout
  obtain ⟨hback, hstale⟩ := Prod.mk.inj hout
  exact ⟨tr, pool, CoordRuns.of_play hplay, hchecks, of_decide_eq_false hback,
    of_decide_eq_false hstale⟩

end KernelCache
