/-
# KernelCache.Records — what holds of every record, and the sections that can end it.

Most of what is to be said of a record between operations holds when the record enters the index and
is kept by almost every section; a few sections keep it only of the records they happen to find.  The
lemmas below carry such a property over one step: a section that acts on one record
(`exec_every_rewritten`), the sections that keep it whatever they find (`exec_every`), and an
invalidation, the one section that acts on several records at once (`exec_every_invalidate`).  With
`Runs.invariant_iff` they give the exact condition under which every state of a run has the property.
-/
import KernelCache.Interleaving

namespace KernelCache

open Foundation (Runs Pool Event)

/-- `I` holds of every record. -/
def Impl.Every (I : ArtifactRecord → Prop) (s : Impl) : Prop :=
  ∀ p < s.nextRecord, I (s.records p)

theorem Impl.initial_every (I : ArtifactRecord → Prop) (store : FilePersistenceStore) :
    (Impl.initial store).Every I :=
  fun p hp => absurd hp (Nat.not_lt_zero p)

section OneStep

variable {env : Env} {l : Step} {s s' : Impl} {I : ArtifactRecord → Prop}

/-- A section that rewrites one record. -/
theorem exec_every_rewritten (h : exec env l s = some s') (hs : s.Every I) {p : Nat}
    {f : ArtifactRecord → ArtifactRecord} (hins : l.inserts = false)
    (heffect : (l.effect env s).records = (s.modify p f).records) :
    s'.Every I ↔ (p < s.nextRecord → I (f (s.records p))) := by
  have hnext := (exec_sameIndex h hins).nextRecord
  have hrec := exec_rewritten h heffect
  constructor
  · intro hafter hp
    have hp' := hafter p (by omega)
    rw [hrec p, if_pos rfl] at hp'
    exact hp'
  · intro hp q hq
    rw [hrec q]
    by_cases hqp : q = p
    · subst hqp
      rw [if_pos rfl]
      exact hp (by omega)
    · rw [if_neg hqp]
      exact hs q (by omega)

/-- A section whose changes keep `I`, and whose new records have it. -/
theorem exec_every (h : exec env l s = some s') (hl : l.Proper) (hs : s.Every I)
    (hkeeps : ∀ p r r', ArtifactRecord.Updates p r l r' → I r → I r')
    (hoffers : ∀ r ∈ l.offers env s, I { r with key := r.key.ensureFinalized }) : s'.Every I := by
  intro p hp
  by_cases hold : p < s.nextRecord
  · rcases exec_records h hl hold with heq | hupd
    · rw [heq]
      exact hs p hold
    · exact hkeeps p _ _ hupd (hs p hold)
  · obtain ⟨r, hr, hrec⟩ := (exec_extends h hl).fresh p (by omega) hp
    rw [hrec]
    exact hoffers r hr

/-- A field that no change of the section touches: an old record keeps it, a new one starts with
`z`. -/
theorem exec_kept {α : Type} {c : ArtifactRecord → α} {z : α} (h : exec env l s = some s')
    (hl : l.Proper) (hkeeps : ∀ p r r', ArtifactRecord.Updates p r l r' → c r' = c r)
    (hoffers : ∀ r ∈ l.offers env s, c { r with key := r.key.ensureFinalized } = z) (q : Nat)
    (hq : q < s'.nextRecord) :
    c (s'.records q) = if q < s.nextRecord then c (s.records q) else z := by
  by_cases hold : q < s.nextRecord
  · rw [if_pos hold]
    rcases exec_records h hl hold with heq | hupd
    · rw [heq]
    · exact hkeeps q _ _ hupd
  · rw [if_neg hold]
    obtain ⟨r, hr, hrec⟩ := (exec_extends h hl).fresh q (by omega) hq
    rw [hrec]
    exact hoffers r hr

/-- What `pin`, `unpin` and the like do to the records. -/
theorem Impl.modifyId_records (s : Impl) (id : ArtifactId) (f : ArtifactRecord → ArtifactRecord)
    (q : Nat) : (s.modifyId id f).records q =
      if s.byId.lookup id = some q then f (s.records q) else s.records q := by
  unfold Impl.modifyId
  cases hid : s.byId.lookup id with
  | none => rfl
  | some p =>
    dsimp only
    rw [modify_records]
    by_cases hq : q = p
    · rw [if_pos hq, if_pos (congrArg some hq.symm)]
    · rw [if_neg hq, if_neg fun heq => hq (Option.some.inj heq).symm]

end OneStep

/-! ## Invalidation -/

/-- What `invalidate_impl` makes of a record it has selected. -/
def ArtifactRecord.struck (r : ArtifactRecord) : ArtifactRecord :=
  if r.invalidated then r else r.invalidate

namespace Impl

/-- The second loop of `invalidate_impl` strikes the records behind the ids it is given, once. -/
theorem invalidateAll_struck (req : InvalidationRequest) (s : Impl) (ids : List ArtifactId)
    (p : Nat) : ((∃ id ∈ ids, s.byId.lookup id = some p) ∧
        (invalidateAll req s ids).2.records p = (s.records p).struck) ∨
      ((∀ id ∈ ids, s.byId.lookup id ≠ some p) ∧
        (invalidateAll req s ids).2.records p = s.records p) := by
  induction ids generalizing s with
  | nil => exact .inr ⟨by simp, rfl⟩
  | cons id ids ih =>
    -- the record behind the first id
    have hfirst : ∀ s₁ : Impl, s₁.byId = s.byId → (invalidateAll req s (id :: ids)).2.records p =
        (invalidateAll req s₁ ids).2.records p →
        (s₁.records p = s.records p ∨
          (s.byId.lookup id = some p ∧ s₁.records p = (s.records p).struck)) →
        (s.byId.lookup id = some p → s₁.records p = (s.records p).struck) →
        ((∃ id' ∈ id :: ids, s.byId.lookup id' = some p) ∧
          (invalidateAll req s (id :: ids)).2.records p = (s.records p).struck) ∨
        ((∀ id' ∈ id :: ids, s.byId.lookup id' ≠ some p) ∧
          (invalidateAll req s (id :: ids)).2.records p = s.records p) := by
      intro s₁ hids hrest hor hhit
      have htwice : (s.records p).struck.struck = (s.records p).struck := by
        unfold ArtifactRecord.struck
        by_cases hinv : (s.records p).invalidated = true
        · simp only [hinv, if_true]
        · simp only [if_neg hinv]
          exact if_pos rfl
      have hih := ih s₁
      rw [hids] at hih
      rw [hrest]
      by_cases hid : s.byId.lookup id = some p
      · refine .inl ⟨⟨id, by simp, hid⟩, ?_⟩
        rcases hih with ⟨-, heq⟩ | ⟨-, heq⟩
        · rw [heq, hhit hid, htwice]
        · rw [heq, hhit hid]
      · have hsame : s₁.records p = s.records p := hor.resolve_right fun h => hid h.1
        rw [hsame] at hih
        rcases hih with ⟨⟨id', hmem, hlook⟩, heq⟩ | ⟨hnone, heq⟩
        · exact .inl ⟨⟨id', List.mem_cons_of_mem _ hmem, hlook⟩, heq⟩
        · refine .inr ⟨fun id' hmem => ?_, heq⟩
          rcases List.mem_cons.mp hmem with rfl | hmem
          · exact hid
          · exact hnone id' hmem
    cases hlook : s.byId.lookup id with
    | none =>
      apply hfirst s rfl _ (.inl rfl)
      · intro hid
        rw [hlook] at hid
        cases hid
      · simp only [invalidateAll, hlook]
    | some q =>
      by_cases hinv : (s.records q).invalidated = true
      · apply hfirst s rfl _ (.inl rfl)
        · intro hid
          obtain rfl := Option.some.inj (hlook.symm.trans hid)
          exact (if_pos hinv).symm
        · simp only [invalidateAll, hlook, hinv, if_true]
      · have hq : ∀ r : ArtifactRecord, r.invalidated ≠ true → r.struck = r.invalidate :=
          fun r hr => if_neg hr
        apply hfirst (s.modify q ArtifactRecord.invalidate) rfl
        · simp only [invalidateAll, hlook, if_neg hinv]
        · by_cases hpq : p = q
          · subst hpq
            refine .inr ⟨hlook, ?_⟩
            rw [modify_records, if_pos rfl, hq _ hinv]
          · rw [modify_records, if_neg hpq]
            exact .inl rfl
        · intro hid
          obtain rfl := Option.some.inj (hlook.symm.trans hid)
          rw [modify_records, if_pos rfl, hq _ hinv]

end Impl

/-- The second loop strikes a record exactly when the request selects it. -/
theorem Impl.invalidate_records {env : Env} {s : Impl} (req : InvalidationRequest) (hs : s.Sound)
    {p : Nat} (hp : p < s.nextRecord) : (s.invalidate env req).2.records p =
      if req.selects (s.records p).id (s.records p) then (s.records p).struck else s.records p := by
  have hbound := hs.indexed p hp
  -- the ids that are bound to `p` and selected
  have hsel : (∃ id ∈ s.selected env req, s.byId.lookup id = some p) ↔
      req.selects (s.records p).id (s.records p) = true := by
    constructor
    · rintro ⟨id, hmem, hlook⟩
      have hany := (List.mem_filter.mp hmem).2
      rw [hlook] at hany
      rw [(hs.bound id p hlook).2]
      exact hany
    · intro hreq
      refine ⟨(s.records p).id, List.mem_filter.mpr ⟨?_, ?_⟩, hbound⟩
      · refine (env.idOrder_perm s.tick _).mem_iff.mpr ?_
        show (s.records p).id ∈ s.byId
        exact AList.lookup_isSome.mp (by rw [hbound]; rfl)
      · rw [hbound]
        exact hreq
  show (Impl.invalidateAll req s (s.selected env req)).2.records p = _
  rcases Impl.invalidateAll_struck req s (s.selected env req) p with ⟨hin, heq⟩ | ⟨hout, heq⟩
  · rw [heq, if_pos (hsel.mp hin)]
  · rw [heq, if_neg fun hreq => ?_]
    obtain ⟨id, hmem, hlook⟩ := hsel.mpr hreq
    exact hout id hmem hlook

/-- **An invalidation strikes what it selects**, and nothing else. -/
theorem exec_invalidate {env : Env} {req : InvalidationRequest} {s s' : Impl}
    (h : exec env (.invalidate req) s = some s') (hs : s.Sound) {p : Nat} (hp : p < s.nextRecord) :
    s'.records p = if req.selects (s.records p).id (s.records p) then (s.records p).struck
      else s.records p := by
  obtain ⟨-, rfl⟩ := exec_eq_some.mp h
  exact Impl.invalidate_records req hs hp

/-- An invalidation, for a property of every record. -/
theorem exec_every_invalidate {env : Env} {req : InvalidationRequest} {s s' : Impl}
    {I : ArtifactRecord → Prop} (h : exec env (.invalidate req) s = some s') (hs : s.Sound)
    (hI : s.Every I) : s'.Every I ↔
      ∀ p < s.nextRecord, req.selects (s.records p).id (s.records p) = true →
        I (s.records p).struck := by
  have hnext := (exec_sameIndex h rfl).nextRecord
  constructor
  · intro hafter p hp hsel
    have hp' := hafter p (by omega)
    rw [exec_invalidate h hs hp, if_pos hsel] at hp'
    exact hp'
  · intro hstruck p hp
    have hold : p < s.nextRecord := by omega
    rw [exec_invalidate h hs hold]
    split
    · rename_i hsel
      exact hstruck p hold hsel
    · exact hI p hold

end KernelCache
