/-
# KernelCache.Pins — who holds the pins of a record.

One counter serves two kinds of pins.  `pin` and `unpin` count it up and down; a lease that asks for a
pin counts it up when it is granted.  Nothing counts it down when such a lease is released, and
`unpin` does not know whose pin it takes.  So the pins of a record are those its owners account for,
the explicit ones outstanding (`pinsHeld`) and the live leases granted with a pin
(`Impl.pinnedLeases`), exactly as long as no pinned lease is released and no `unpin` takes the pin of
a lease (`pins_balance_iff`).

What the owners account for is read off the history of a run, so the invariant speaks about the
sections taken so far (`Runs.history_iff`).
-/
import KernelCache.LeaseSteps
import Mathlib.Data.Finset.Card

namespace KernelCache

open Foundation (Prog Runs Pool Event)

/-! ## The account -/

/-- The explicit pins on a record after one more section; an `unpin` without a pin takes none back. -/
def pinsAfter (p n : Nat) (e : Event Step Impl) : Nat :=
  match e.label with
  | .pin id => if e.before.byId.lookup id = some p then n + 1 else n
  | .unpin id => if e.before.byId.lookup id = some p then n - 1 else n
  | _ => n

/-- The pins added to a record by `pin` and not taken back by `unpin`. -/
def pinsHeld (tr : List (Event Step Impl)) (p : Nat) : Nat := tr.foldl (pinsAfter p) 0

/-- The section grants lease `k` with a pin. -/
def grantsPinned (k : Nat) (e : Event Step Impl) : Bool :=
  match e.label with
  | .grantLease p pin => pin && (e.before.records p).leasable && e.before.nextLease == k
  | _ => false

/-- The live leases of a record that were granted with a pin. -/
def Impl.pinnedLeases (s : Impl) (tr : List (Event Step Impl)) (p : Nat) : Finset Nat :=
  (Finset.range s.nextLease).filter fun k =>
    (s.leases k).record = p ∧ (s.leases k).released = false ∧ tr.any (grantsPinned k) = true

/-- **Every pin has an owner.** -/
def PinsBalance (tr : List (Event Step Impl)) (s : Impl) : Prop :=
  ∀ p < s.nextRecord, (s.records p).pinCount = pinsHeld tr p + (s.pinnedLeases tr p).card

/-- The section ends no lease that holds a pin, and takes no pin that `pin` has not added. -/
def KeepsPins (tr : List (Event Step Impl)) (e : Event Step Impl) : Prop :=
  match e.label with
  | .exchangeReleased k => k < e.before.nextLease → (e.before.leases k).released = false →
      tr.any (grantsPinned k) = false
  | .unpin id => ∀ p, e.before.byId.lookup id = some p →
      0 < pinsHeld tr p ∨ (e.before.records p).pinCount = 0
  | _ => True

/-- What holds of the account in every run. -/
structure PinLedger (tr : List (Event Step Impl)) (s : Impl) : Prop where
  /-- No lease is granted before its turn. -/
  fresh : ∀ k, s.nextLease ≤ k → tr.any (grantsPinned k) = false
  /-- Leases are of records that are there. -/
  known : ∀ k < s.nextLease, (s.leases k).record < s.nextRecord
  /-- Pins are on records that are there. -/
  none : ∀ p, s.nextRecord ≤ p → pinsHeld tr p = 0

/-! ## One more section -/

theorem pinsHeld_concat (tr : List (Event Step Impl)) (e : Event Step Impl) (p : Nat) :
    pinsHeld (tr ++ [e]) p = pinsAfter p (pinsHeld tr p) e := by
  unfold pinsHeld
  rw [List.foldl_append]
  rfl

theorem any_grantsPinned_concat (tr : List (Event Step Impl)) (e : Event Step Impl) (k : Nat) :
    (tr ++ [e]).any (grantsPinned k) = (tr.any (grantsPinned k) || grantsPinned k e) := by
  rw [List.any_append]
  simp

/-- The sections that count a pin. -/
def Step.countsPin : Step → Bool
  | .pin _ | .unpin _ | .grantLease _ _ => true
  | _ => false

/-- The other changes to a record do not count pins. -/
theorem ArtifactRecord.Updates.pinCount {p : Nat} {l : Step} {r r' : ArtifactRecord}
    (h : Updates p r l r') (hl : l.countsPin = false) : r'.pinCount = r.pinCount := by
  cases h with
  | leased now pin hlease => cases hl
  | pinned id => cases hl
  | unpinned id => cases hl
  | evictCommit =>
    unfold ArtifactRecord.evictCommit
    split <;> rfl
  | validatedBy res =>
    unfold ArtifactRecord.validatedBy
    split <;> rfl
  | _ => rfl

theorem Step.offers_pinCount {env : Env} {s : Impl} {l : Step} {r : ArtifactRecord}
    (h : r ∈ l.offers env s) : r.pinCount = 0 := by
  cases l with
  | publish fence o =>
    obtain rfl := List.mem_singleton.mp h
    rfl
  | put desc bytes =>
    obtain rfl := List.mem_singleton.mp h
    rfl
  | recoverInsert artifacts =>
    obtain ⟨a, -, rfl⟩ := List.mem_map.mp h
    rfl
  | _ => cases h

section OneSection

variable {env : Env} {s s' : Impl} {tr : List (Event Step Impl)} {i : Nat}

/-- The counts under the sections that count no pin. -/
theorem exec_pinCount {l : Step} (h : exec env l s = some s') (hl : l.Proper)
    (hcounts : l.countsPin = false) (q : Nat) (hq : q < s'.nextRecord) :
    (s'.records q).pinCount = if q < s.nextRecord then (s.records q).pinCount else 0 := by
  apply exec_kept (c := ArtifactRecord.pinCount) h hl
  · exact fun p r r' hupd => hupd.pinCount hcounts
  · exact fun r hr => (Step.offers_pinCount hr : r.pinCount = 0)
  · exact hq

/-- The counts under a grant. -/
theorem exec_grantLease_pinCount {p : Nat} {pin : Bool}
    (h : exec env (.grantLease p pin) s = some s') (q : Nat) :
    (s'.records q).pinCount = (s.records q).pinCount +
      if q = p ∧ pin = true ∧ (s.records p).leasable = true then 1 else 0 := by
  obtain ⟨-, rfl⟩ := exec_eq_some.mp h
  by_cases hl : (s.records p).leasable = true
  · rw [Step.effect, Impl.grantLease, if_pos hl]
    show ((s.modify p fun r => r.leased (env.now s.tick) pin).records q).pinCount = _
    rw [Impl.modify_records]
    by_cases hq : q = p
    · subst hq
      rw [if_pos rfl]
      cases pin with
      | true => rw [if_pos ⟨rfl, rfl, hl⟩]; rfl
      | false => rw [if_neg fun h => Bool.noConfusion h.2.1]; rfl
    · rw [if_neg hq, if_neg fun h => hq h.1]
      rfl
  · rw [Step.effect, Impl.grantLease, if_neg hl, if_neg fun h => hl h.2.2]
    rfl

/-- What is read of a section that grants a lease with a pin. -/
theorem grantsPinned_spec {k : Nat} {e : Event Step Impl} (h : grantsPinned k e = true) :
    ∃ p, e.label = .grantLease p true ∧ (e.before.records p).leasable = true ∧
      e.before.nextLease = k := by
  obtain ⟨i, l, s, s'⟩ := e
  cases l with
  | grantLease p pin =>
    simp only [grantsPinned, Bool.and_eq_true, beq_iff_eq] at h
    obtain ⟨⟨rfl, hlease⟩, hk⟩ := h
    exact ⟨p, rfl, hlease, hk⟩
  | _ => cases h

theorem grantsPinned_other {k : Nat} {e : Event Step Impl} (h : ∀ p pin, e.label ≠ .grantLease p pin) :
    grantsPinned k e = false := by
  by_contra hne
  obtain ⟨p, hlabel, -⟩ := grantsPinned_spec (by simpa using hne)
  exact h p true hlabel

theorem exec_nextLease_le {l : Step} (h : exec env l s = some s') : s.nextLease ≤ s'.nextLease := by
  by_contra hlt
  have hkept := (exec_lease_kept h (k := s'.nextLease) (by omega)).1
  omega

/-- A lease that is new has just been granted. -/
theorem exec_lease_new {l : Step} (h : exec env l s = some s') {k : Nat} (hold : s.nextLease ≤ k)
    (hk : k < s'.nextLease) : ∃ p pin, l = .grantLease p pin ∧ (s'.leases k).record = p := by
  cases l with
  | grantLease p pin =>
    rcases exec_grantLease h with ⟨-, hnext, hrec, -⟩ | ⟨hsame, -⟩
    · obtain rfl : k = s.nextLease := by omega
      exact ⟨p, pin, rfl, hrec⟩
    · have hnext := hsame.nextLease
      omega
  | exchangeReleased lease =>
    have hnext := (exec_exchangeReleased h).1
    omega
  | _ =>
    have hnext := (exec_sameLeases h rfl).nextLease
    omega

/-- **The ledger is kept.** -/
theorem PinLedger.step {l : Step} (hb : PinLedger tr s) (h : exec env l s = some s') (hl : l.Proper)
    (hs : s.Sound) (hground : l.Grounded s) : PinLedger (tr ++ [⟨i, l, s, s'⟩]) s' where
  fresh := by
    intro k hk
    have hle := exec_nextLease_le h
    rw [any_grantsPinned_concat, hb.fresh k (by omega), Bool.false_or]
    by_contra hne
    obtain ⟨p, hlabel, hlease, hnext⟩ := grantsPinned_spec (by simpa using hne)
    dsimp only at hlabel hlease hnext
    subst hlabel
    rcases exec_grantLease h with ⟨-, hgrown, -⟩ | ⟨-, -, hno⟩
    · omega
    · apply hno s.nextLease
      rw [Impl.grantLease, if_pos hlease]
  known := by
    intro k hk
    have hnext := (exec_extends h hl).next_le
    by_cases hold : k < s.nextLease
    · rw [(exec_lease_kept h hold).2]
      exact lt_of_lt_of_le (hb.known k hold) hnext
    · obtain ⟨p, pin, rfl, hrec⟩ := exec_lease_new h (by omega) hk
      rw [hrec]
      exact lt_of_lt_of_le hground hnext
  none := by
    intro p hp
    have hnext := (exec_extends h hl).next_le
    have hzero := hb.none p (by omega)
    have hfree : ∀ id, s.byId.lookup id ≠ some p := by
      intro id hid
      have hlt := (hs.bound id p hid).1
      omega
    rw [pinsHeld_concat, hzero]
    cases l with
    | pin id => exact if_neg (hfree id)
    | unpin id => exact if_neg (hfree id)
    | _ => rfl

/-- A record that is not there is owed no pins. -/
theorem PinLedger.owes_none (hb : PinLedger tr s) {q : Nat} (hq : s.nextRecord ≤ q) :
    pinsHeld tr q = 0 ∧ (s.pinnedLeases tr q).card = 0 := by
  refine ⟨hb.none q hq, Finset.card_eq_zero.mpr (Finset.filter_eq_empty_iff.mpr ?_)⟩
  rintro k hk ⟨hrec, -⟩
  have hlt := hb.known k (Finset.mem_range.mp hk)
  omega

/-! ### What a section changes of the account -/

theorem pinnedLeases_kept {l : Step} (h : exec env l s = some s') (hl : l.isLease = false) (q : Nat) :
    s'.pinnedLeases (tr ++ [⟨i, l, s, s'⟩]) q = s.pinnedLeases tr q := by
  have hsame := exec_sameLeases h hl
  have hno : ∀ k, grantsPinned k ⟨i, l, s, s'⟩ = false := by
    refine fun k => grantsPinned_other ?_
    rintro p pin rfl
    cases hl
  unfold Impl.pinnedLeases
  simp only [hsame.nextLease, hsame.leases, any_grantsPinned_concat, hno, Bool.or_false]

/-- A grant with a pin adds its lease. -/
theorem pinnedLeases_granted (hb : PinLedger tr s) {p : Nat} {pin : Bool}
    (h : exec env (.grantLease p pin) s = some s') (q : Nat) :
    (s'.pinnedLeases (tr ++ [⟨i, .grantLease p pin, s, s'⟩]) q).card =
      (s.pinnedLeases tr q).card +
        if q = p ∧ pin = true ∧ (s.records p).leasable = true then 1 else 0 := by
  rcases exec_grantLease h with ⟨hlease, hnext, hrec, hrel, hkept, -⟩ | ⟨hsame, -, hno⟩
  · have hany : ∀ k, (tr ++ [(⟨i, .grantLease p pin, s, s'⟩ : Event Step Impl)]).any
        (grantsPinned k) = (tr.any (grantsPinned k) || (pin && s.nextLease == k)) := by
      intro k
      rw [any_grantsPinned_concat]
      simp only [grantsPinned, hlease, Bool.and_true]
    have hmem : ∀ k, k ∈ s'.pinnedLeases (tr ++ [⟨i, .grantLease p pin, s, s'⟩]) q ↔
        k ∈ s.pinnedLeases tr q ∨ (k = s.nextLease ∧ q = p ∧ pin = true) := by
      intro k
      simp only [Impl.pinnedLeases, Finset.mem_filter, Finset.mem_range, hnext, hany]
      by_cases hk : k = s.nextLease
      · subst hk
        rw [hrec, hrel, hb.fresh s.nextLease le_rfl, beq_self_eq_true, Bool.and_true, Bool.false_or]
        constructor
        · rintro ⟨-, hpq, -, hpin⟩
          exact .inr ⟨rfl, hpq.symm, hpin⟩
        · rintro (⟨hlt, -⟩ | ⟨-, hpq, hpin⟩)
          · omega
          · exact ⟨by omega, hpq.symm, rfl, hpin⟩
      · have hk' : (s.nextLease == k) = false := beq_eq_false_iff_ne.mpr (Ne.symm hk)
        rw [hkept k hk, hk', Bool.and_false, Bool.or_false]
        constructor
        · rintro ⟨hlt, hrest⟩
          exact .inl ⟨by omega, hrest⟩
        · rintro (⟨hlt, hrest⟩ | ⟨heq, -⟩)
          · exact ⟨by omega, hrest⟩
          · exact absurd heq hk
    by_cases hpinned : q = p ∧ pin = true
    · have hinsert : s'.pinnedLeases (tr ++ [⟨i, .grantLease p pin, s, s'⟩]) q =
          insert s.nextLease (s.pinnedLeases tr q) := by
        ext k
        rw [hmem, Finset.mem_insert]
        constructor
        · rintro (hold | ⟨hnew, -⟩)
          · exact .inr hold
          · exact .inl hnew
        · rintro (hnew | hold)
          · exact .inr ⟨hnew, hpinned⟩
          · exact .inl hold
      rw [hinsert, if_pos ⟨hpinned.1, hpinned.2, hlease⟩, Finset.card_insert_of_notMem]
      intro hin
      have hlt := Finset.mem_range.mp (Finset.mem_filter.mp hin).1
      omega
    · have hsame : s'.pinnedLeases (tr ++ [⟨i, .grantLease p pin, s, s'⟩]) q =
          s.pinnedLeases tr q := by
        ext k
        rw [hmem]
        exact ⟨fun hk => hk.resolve_right fun hnew => hpinned hnew.2, .inl⟩
      rw [hsame, if_neg fun h => hpinned ⟨h.1, h.2.1⟩]
      rfl
  · have hlease : (s.records p).leasable ≠ true := by
      intro hlease
      apply hno s.nextLease
      rw [Impl.grantLease, if_pos hlease]
    have hsame' : s'.pinnedLeases (tr ++ [⟨i, .grantLease p pin, s, s'⟩]) q =
        s.pinnedLeases tr q := by
      unfold Impl.pinnedLeases
      simp only [hsame.nextLease, hsame.leases, any_grantsPinned_concat, grantsPinned, hlease,
        Bool.and_false, Bool.false_and, Bool.or_false]
    rw [hsame', if_neg fun h => hlease h.2.2]
    rfl

/-- The first release of a lease that holds a pin takes the lease out. -/
theorem pinnedLeases_released {lease : Nat} (h : exec env (.exchangeReleased lease) s = some s')
    (q : Nat) : s'.pinnedLeases (tr ++ [⟨i, .exchangeReleased lease, s, s'⟩]) q =
      (s.pinnedLeases tr q).erase lease := by
  obtain ⟨hnext, -, -, hrec, hrel⟩ := exec_exchangeReleased h
  have hno : ∀ k, grantsPinned k ⟨i, .exchangeReleased lease, s, s'⟩ = false := fun k => rfl
  ext k
  simp only [Impl.pinnedLeases, Finset.mem_filter, Finset.mem_range, Finset.mem_erase, hnext, hrec,
    hrel, any_grantsPinned_concat, hno, Bool.or_false]
  by_cases hk : k = lease
  · simp [hk]
  · simp [hk]

/-- What a section that counts explicit pins does to the records. -/
theorem exec_modifyId {l : Step} {id : ArtifactId} {f : ArtifactRecord → ArtifactRecord}
    (h : exec env l s = some s') (heffect : l.effect env s = s.modifyId id f) (q : Nat) :
    s'.records q = if s.byId.lookup id = some q then f (s.records q) else s.records q := by
  obtain ⟨-, rfl⟩ := exec_eq_some.mp h
  rw [heffect]
  exact s.modifyId_records id f q

/-- **The balance, one section.** -/
theorem pinsBalance_step {l : Step} (hledger : PinLedger tr s) (hb : PinsBalance tr s)
    (h : exec env l s = some s') (hl : l.Proper) (hs : s.Sound) :
    PinsBalance (tr ++ [⟨i, l, s, s'⟩]) s' ↔ KeepsPins tr ⟨i, l, s, s'⟩ := by
  cases l with
  | pin id =>
    refine ⟨fun _ => trivial, fun _ q hq => ?_⟩
    have hold := hb q (lt_of_lt_of_eq hq (exec_sameIndex h rfl).nextRecord)
    rw [exec_modifyId h rfl, pinsHeld_concat, pinnedLeases_kept h rfl]
    by_cases hid : s.byId.lookup id = some q
    · have hheld : pinsAfter q (pinsHeld tr q) ⟨i, .pin id, s, s'⟩ = pinsHeld tr q + 1 := if_pos hid
      have hcount : (s.records q).pinned.pinCount = (s.records q).pinCount + 1 := rfl
      rw [if_pos hid, hheld, hcount]
      omega
    · have hheld : pinsAfter q (pinsHeld tr q) ⟨i, .pin id, s, s'⟩ = pinsHeld tr q := if_neg hid
      rw [if_neg hid, hheld]
      exact hold
  | unpin id =>
    have hnext := (exec_sameIndex h rfl).nextRecord
    -- the record the id is bound to is the only one in question
    have hone : ∀ q, s.byId.lookup id = some q →
        ((s'.records q).pinCount = pinsHeld (tr ++ [⟨i, .unpin id, s, s'⟩]) q +
            (s'.pinnedLeases (tr ++ [⟨i, .unpin id, s, s'⟩]) q).card ↔
          0 < pinsHeld tr q ∨ (s.records q).pinCount = 0) := by
      intro q hid
      have hold := hb q (hs.bound id q hid).1
      have hheld : pinsAfter q (pinsHeld tr q) ⟨i, .unpin id, s, s'⟩ = pinsHeld tr q - 1 :=
        if_pos hid
      have hcount : (s.records q).unpinned.pinCount = (s.records q).pinCount - 1 := rfl
      rw [exec_modifyId h rfl, if_pos hid, pinsHeld_concat, pinnedLeases_kept h rfl, hheld, hcount]
      omega
    constructor
    · intro hafter q hid
      have hlt := (hs.bound id q hid).1
      exact (hone q hid).mp (hafter q (by omega))
    · intro hkeeps q hq
      by_cases hid : s.byId.lookup id = some q
      · exact (hone q hid).mpr (hkeeps q hid)
      · have hheld : pinsAfter q (pinsHeld tr q) ⟨i, .unpin id, s, s'⟩ = pinsHeld tr q := if_neg hid
        rw [exec_modifyId h rfl, if_neg hid, pinsHeld_concat, pinnedLeases_kept h rfl, hheld]
        exact hb q (by omega)
  | grantLease p pin =>
    refine ⟨fun _ => trivial, fun _ q hq => ?_⟩
    have hold := hb q (lt_of_lt_of_eq hq (exec_sameIndex h rfl).nextRecord)
    have hheld : pinsHeld (tr ++ [⟨i, .grantLease p pin, s, s'⟩]) q = pinsHeld tr q :=
      pinsHeld_concat _ _ _
    rw [exec_grantLease_pinCount h, hheld, pinnedLeases_granted hledger h]
    omega
  | exchangeReleased lease =>
    obtain ⟨-, hrecs, hnext, -⟩ := exec_exchangeReleased h
    have hheld : ∀ q, pinsHeld (tr ++ [⟨i, .exchangeReleased lease, s, s'⟩]) q = pinsHeld tr q :=
      fun q => pinsHeld_concat _ _ _
    -- the balance goes wrong for the record of a lease that holds a pin
    have hbalance : PinsBalance (tr ++ [⟨i, .exchangeReleased lease, s, s'⟩]) s' ↔
        ∀ q < s.nextRecord, lease ∉ s.pinnedLeases tr q := by
      have hone : ∀ q < s.nextRecord, ((s'.records q).pinCount =
          pinsHeld (tr ++ [⟨i, .exchangeReleased lease, s, s'⟩]) q +
            (s'.pinnedLeases (tr ++ [⟨i, .exchangeReleased lease, s, s'⟩]) q).card ↔
          lease ∉ s.pinnedLeases tr q) := by
        intro q hq
        rw [hrecs, hheld, pinnedLeases_released h, hb q hq]
        by_cases hin : lease ∈ s.pinnedLeases tr q
        · have hcard := Finset.card_erase_add_one hin
          constructor
          · intro heq
            omega
          · exact fun hout => absurd hin hout
        · rw [Finset.erase_eq_of_notMem hin]
          exact ⟨fun _ => hin, fun _ => rfl⟩
      constructor
      · exact fun hafter q hq => (hone q hq).mp (hafter q (by omega))
      · exact fun hout q hq => (hone q (by omega)).mpr (hout q (by omega))
    rw [hbalance]
    constructor
    · intro hout hlt hrel
      by_contra hany
      apply hout _ (hledger.known lease hlt)
      exact Finset.mem_filter.mpr ⟨Finset.mem_range.mpr hlt, rfl, hrel, by simpa using hany⟩
    · intro hkeeps q _ hin
      obtain ⟨hlt, -, hrel, hany⟩ := Finset.mem_filter.mp hin
      rw [hkeeps (Finset.mem_range.mp hlt) hrel] at hany
      cases hany
  | _ =>
    refine ⟨fun _ => trivial, fun _ q hq => ?_⟩
    rw [exec_pinCount h hl rfl q hq, pinsHeld_concat, pinnedLeases_kept h rfl]
    show _ = pinsHeld tr q + _
    split
    · rename_i hold
      exact hb q hold
    · rename_i hnew
      obtain ⟨hheld, hcard⟩ := hledger.owes_none (Nat.le_of_not_lt hnew)
      omega

end OneSection

/-! ## Every run -/

theorem runs_pinLedger {env : Env} {store : FilePersistenceStore} {tr : List (Event Step Impl)}
    {pool : Pool Step Impl Answer} (h : CacheRuns env store tr pool) :
    (∀ tr₁ e, tr₁ ++ [e] <+: tr → PinLedger tr₁ e.before) ∧ PinLedger tr pool.shared := by
  have hinit : PinLedger [] (Impl.initial store) :=
    ⟨fun _ _ => rfl, fun k hk => absurd hk (Nat.not_lt_zero k), fun _ _ => rfl⟩
  have hall := Runs.history hinit h fun tr₁ e hpre hledger => by
    have he : e ∈ tr := hpre.subset (by simp)
    exact hledger.step (h.event_step e he) (runs_proper h e he) ((runs_sound h).1 e he).1
      (runs_grounded h e he)
  exact ⟨fun tr₁ e hpre => (hall.1 tr₁ e hpre).1, hall.2⟩

/-- What a balanced account means for eviction: a record without leases, whose pins are all taken back
and whose pinned leases are all released, can be evicted. -/
theorem PinsBalance.evictable {tr : List (Event Step Impl)} {s : Impl} (hb : PinsBalance tr s)
    (hs : s.Sound) {p : Nat} (hp : p < s.nextRecord) (hleases : (s.records p).leaseCount = 0)
    (hheld : pinsHeld tr p = 0) (hlive : s.pinnedLeases tr p = ∅) (force : Bool) :
    (s.evictBegin (s.records p).id force).1 = .ok p := by
  have hpins := hb p hp
  rw [hheld, hlive, Finset.card_empty] at hpins
  have hidle : ¬ (0 < (s.records p).leaseCount ∨ 0 < (s.records p).pinCount) := by omega
  unfold Impl.evictBegin
  rw [hs.indexed p hp]
  dsimp only
  rw [if_neg hidle]

/-- **Every pin has an owner.** In every interleaved run, each record's pin count is the pins added by
`pin` and not taken back by `unpin` plus the live leases granted with a pin, before and after every
section, if and only if no section releases a lease granted with a pin and no `unpin` meets a record
whose pins are all those of leases; and as long as this is so, a record whose leases are released and
whose pins are taken back can be evicted. -/
theorem pins_balance_iff {env : Env} {store : FilePersistenceStore} {tr : List (Event Step Impl)}
    {pool : Pool Step Impl Answer} (h : CacheRuns env store tr pool) :
    (((∀ tr₁ e, tr₁ ++ [e] <+: tr → PinsBalance tr₁ e.before ∧ PinsBalance (tr₁ ++ [e]) e.after) ∧
      PinsBalance tr pool.shared) ↔ ∀ tr₁ e, tr₁ ++ [e] <+: tr → KeepsPins tr₁ e) ∧
    ((∀ tr₁ e, tr₁ ++ [e] <+: tr → KeepsPins tr₁ e) → ∀ p < pool.shared.nextRecord,
      (pool.shared.records p).leaseCount = 0 → pinsHeld tr p = 0 →
      pool.shared.pinnedLeases tr p = ∅ → ∀ force,
        (pool.shared.evictBegin (pool.shared.records p).id force).1 = .ok p) := by
  have hiff := Runs.history_iff (I := PinsBalance) (K := KeepsPins)
    (fun p hp => absurd hp (Nat.not_lt_zero p)) h fun tr₁ e hpre hb => by
      have he : e ∈ tr := hpre.subset (by simp)
      exact pinsBalance_step ((runs_pinLedger h).1 tr₁ e hpre) hb (h.event_step e he)
        (runs_proper h e he) ((runs_sound h).1 e he).1
  refine ⟨hiff, fun hkeeps p hp hleases hheld hlive force => ?_⟩
  exact (hiff.mpr hkeeps).2.evictable (runs_sound h).2 hp hleases hheld hlive force

/-- The sections that can take a pin from its owner. -/
def Step.takesPin : Step → Bool
  | .exchangeReleased _ | .unpin _ => true
  | _ => false

theorem keepsPins_of_not_takesPin {tr : List (Event Step Impl)} {e : Event Step Impl}
    (h : e.label.takesPin = false) : KeepsPins tr e := by
  obtain ⟨i, l, s, s'⟩ := e
  cases l with
  | exchangeReleased lease => cases h
  | unpin id => cases h
  | _ => exact trivial

/-- An artifact put and leased with a pin. -/
theorem pins_balance_iff_sample : ∃ tr pool, CacheRuns {} {} tr pool ∧
    (∀ tr₁ e, tr₁ ++ [e] <+: tr → KeepsPins tr₁ e) ∧ PinsBalance tr pool.shared ∧
    0 < pool.shared.nextRecord ∧ (pool.shared.records 0).pinCount = 1 := by
  have hrun : ∃ lease, ((Operation.acquire { pin := true }).prog {}).traced (exec {}) 1 putState =
        some lease ∧ (lease.1.all fun e => !e.label.takesPin) = true ∧
      0 < lease.2.2.nextRecord ∧ (lease.2.2.records 0).pinCount = 1 := by
    have hfirst := acquireImpl_traced {} 1 { pin := true } defaultKey_wellFormed (s := putState) rfl
      (putState_lookup rfl rfl rfl rfl {})
    simp only [Operation.prog, Prog.bind_eq, Prog.traced_bind, hfirst]
    exact ⟨_, rfl, rfl, Nat.zero_lt_one, rfl⟩
  obtain ⟨⟨tr, a, s⟩, hlease, hother, hlt, hpins⟩ := hrun
  have hruns := putState_runs.complete ⟨_, rfl⟩ hlease
  have hkeeps : ∀ tr₁ e, tr₁ ++ [e] <+:
      [⟨0, .put sampleArtifact [1], Impl.initial {}, putState⟩] ++ tr → KeepsPins tr₁ e := by
    intro tr₁ e hpre
    have he : e ∈ tr₁ ++ [e] := by simp
    apply keepsPins_of_not_takesPin
    rcases List.mem_append.mp (hpre.subset he) with hput | hacquire
    · obtain rfl := List.mem_singleton.mp hput
      rfl
    · have hno := List.all_eq_true.mp hother e hacquire
      simpa using hno
  exact ⟨_, _, hruns, hkeeps, ((pins_balance_iff hruns).1.mpr hkeeps).2, hlt, hpins⟩

/-- **A pin outlives its lease.** Put an artifact, lease it with a pin, release the lease: nobody has
called `pin`, no lease is live, and the record is still pinned, so it cannot be evicted. -/
theorem pin_outlives_lease : ∃ tr pool, CacheRuns {} {} tr pool ∧ ¬ PinsBalance tr pool.shared ∧
    (∀ q ∈ pool.threads, ∃ a, q = .ret a) ∧ pinsHeld tr 0 = 0 ∧
    (∀ k < pool.shared.nextLease, (pool.shared.leases k).released = true) ∧
    (pool.shared.records 0).leaseCount = 0 ∧ (pool.shared.records 0).pinCount = 1 ∧
    (pool.shared.evictBegin ⟨⟨1, 7⟩⟩ true).1 =
      fail .evictionForbidden (str "cannot evict an actively leased/pinned artifact") := by
  have hrun : ∃ lease, ((Operation.acquire { pin := true }).prog {}).traced (exec {}) 1 putState =
        some lease ∧
      ∃ freed, ((Operation.release 0).prog {}).traced (exec {}) 2 lease.2.2 = some freed ∧
        pinsHeld ([⟨0, .put sampleArtifact [1], Impl.initial {}, putState⟩] ++ lease.1 ++ freed.1) 0
          = 0 ∧ 0 < freed.2.2.nextRecord ∧ freed.2.2.nextLease = 1 ∧
        (freed.2.2.leases 0).released = true ∧ (freed.2.2.records 0).leaseCount = 0 ∧
        (freed.2.2.records 0).pinCount = 1 ∧ (freed.2.2.evictBegin ⟨⟨1, 7⟩⟩ true).1 =
          fail .evictionForbidden (str "cannot evict an actively leased/pinned artifact") := by
    have hfirst := acquireImpl_traced {} 1 { pin := true } defaultKey_wellFormed (s := putState) rfl
      (putState_lookup rfl rfl rfl rfl {})
    simp only [Operation.prog, Prog.bind_eq, Prog.traced_bind, hfirst]
    exact ⟨_, rfl, _, rfl, rfl, Nat.zero_lt_one, rfl, rfl, rfl, rfl, rfl⟩
  obtain ⟨⟨tr, a, s⟩, hlease, ⟨tr', a', s'⟩, hfreed, hheld, hlt, hone, hrel, hcount, hpins,
    hrefused⟩ := hrun
  have hruns := (putState_runs.complete ⟨_, rfl⟩ hlease).complete ⟨_, rfl⟩ hfreed
  have hreleased : ∀ k < s'.nextLease, (s'.leases k).released = true := by
    intro k hk
    obtain rfl : k = 0 := by
      rw [show s'.nextLease = 1 from hone] at hk
      omega
    exact hrel
  refine ⟨_, _, hruns, ?_, by simp, hheld, hreleased, hcount, hpins, hrefused⟩
  intro hb
  have hnone : s'.pinnedLeases ([⟨0, .put sampleArtifact [1], Impl.initial {}, putState⟩] ++ tr ++
      tr') 0 = ∅ := by
    apply Finset.filter_eq_empty_iff.mpr
    rintro k hk ⟨-, hlive, -⟩
    rw [hreleased k (Finset.mem_range.mp hk)] at hlive
    cases hlive
  have hbad := hb 0 hlt
  rw [hheld, hnone, show (s'.records 0).pinCount = 1 from hpins] at hbad
  cases hbad

end KernelCache
