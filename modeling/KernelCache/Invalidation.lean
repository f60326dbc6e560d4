/-
# KernelCache.Invalidation — invalidations are exact, idempotent and commute.

An invalidation MARKS: what a selector picks out gets a flag, and neither the selector nor the flag is
touched by marking.  That is all that idempotence and commutation rest on (`mark_mark`, `mark_comm`).
`Impl.invalidate_records` says that `invalidate_impl` marks the records with the eleven selectors of
`InvalidationRequest.selects`; `reported_invalidateAll` says which ids it reports.
-/
import KernelCache.Records

namespace KernelCache

open Foundation (Runs Pool Event)

/-! ## Marking -/

section Marking

variable {α : Type*} {f : α → α} {sel sel' : α → Bool}

/-- Do `f` to what is selected. -/
def mark (sel : α → Bool) (f : α → α) (a : α) : α := if sel a then f a else a

/-- A selector that does not look at what `f` writes. -/
def Blind (sel : α → Bool) (f : α → α) : Prop := ∀ a, sel (f a) = sel a

theorem Blind.mark (h : Blind sel f) (a : α) : sel (mark sel' f a) = sel a := by
  unfold KernelCache.mark
  split
  · exact h a
  · rfl

theorem mark_mark (hf : ∀ a, f (f a) = f a) (h : Blind sel f) (a : α) :
    mark sel f (mark sel f a) = mark sel f a := by
  have hsame : sel (mark sel f a) = sel a := h.mark a
  by_cases hsel : sel a = true
  · have hmarked : mark sel f a = f a := if_pos hsel
    rw [hmarked] at hsame ⊢
    rw [mark, if_pos (hsame.trans hsel), hf]
  · have hmarked : mark sel f a = a := if_neg hsel
    rw [hmarked, hmarked]

theorem mark_comm (h : Blind sel f) (h' : Blind sel' f) (a : α) :
    mark sel f (mark sel' f a) = mark sel' f (mark sel f a) := by
  have hsel : sel (mark sel' f a) = sel a := h.mark a
  have hsel' : sel' (mark sel f a) = sel' a := h'.mark a
  unfold mark at hsel hsel' ⊢
  rw [hsel, hsel']
  cases sel a <;> cases sel' a <;> rfl

end Marking

/-! ## Records -/

namespace ArtifactRecord

theorem struck_struck (r : ArtifactRecord) : r.struck.struck = r.struck := by
  unfold struck
  by_cases h : r.invalidated = true
  · simp only [h, if_true]
  · simp only [if_neg h]
    exact if_pos rfl

/-- No selector looks at the flag or the state. -/
theorem selects_struck (req : InvalidationRequest) :
    Blind (fun r : ArtifactRecord => req.selects r.id r) struck := by
  intro r
  unfold struck
  split
  · rfl
  · cases htarget : req.target <;> simp only [InvalidationRequest.selects, htarget] <;> rfl

/-- Selected and not yet invalidated. -/
def hitBy (r : ArtifactRecord) (req : InvalidationRequest) : Bool :=
  req.selects r.id r && !r.invalidated

/-- What marking a record means. -/
theorem mark_struck (r : ArtifactRecord) (req : InvalidationRequest) :
    mark (fun r => req.selects r.id r) struck r =
      if r.hitBy req then { r with invalidated := true, state := r.invalidate.state } else r := by
  unfold mark struck hitBy
  by_cases hsel : req.selects r.id r = true
  · by_cases hinv : r.invalidated = true
    · simp [hsel, hinv]
    · simp only [hsel, hinv, Bool.not_false, Bool.and_self, Bool.false_eq_true, if_true, if_false]
      rfl
  · simp [hsel]

end ArtifactRecord

namespace Impl

variable {env : Env} {s : Impl} {req : InvalidationRequest}

/-- An invalidation marks every record. -/
theorem invalidate_marks (hs : s.Sound) {p : Nat} (hp : p < s.nextRecord) :
    (s.invalidate env req).2.records p =
      mark (fun r => req.selects r.id r) ArtifactRecord.struck (s.records p) :=
  invalidate_records req hs hp

/-- It leaves everything but the records and the counters alone. -/
theorem invalidate_frame (env : Env) (s : Impl) (req : InvalidationRequest) :
    ∃ st, (s.invalidate env req).2 =
      { s with records := (s.invalidate env req).2.records, stats := st } := by
  refine ⟨(s.invalidate env req).2.stats, ?_⟩
  simp only [invalidate, bump]
  rw [invalidateAll_index req s (s.selected env req)]

/-! ## Reports -/

/-- The ids that the outcomes of an invalidation list. -/
def reported (outcomes : List InvalidationOutcome) : List ArtifactId :=
  outcomes.flatMap InvalidationOutcome.affectedIds

/-- The second loop reports, of the ids it is given, those whose record it finds not invalidated.
Different ids lead to different records, so no record is invalidated before its turn. -/
theorem reported_invalidateAll {ids : List ArtifactId} (hnodup : ids.Nodup)
    (hinj : ∀ id id' p, s.byId.lookup id = some p → s.byId.lookup id' = some p → id = id') :
    reported (invalidateAll req s ids).1 =
      ids.filter fun id => (s.byId.lookup id).any fun p => !(s.records p).invalidated := by
  induction ids generalizing s with
  | nil => rfl
  | cons id ids ih =>
    obtain ⟨hfresh, hrest⟩ := List.nodup_cons.mp hnodup
    cases hlook : s.byId.lookup id with
    | none =>
      simp only [invalidateAll, hlook, List.filter_cons, Option.any_none, Bool.false_eq_true, if_false]
      exact ih hrest hinj
    | some p =>
      by_cases hinv : (s.records p).invalidated = true
      · simp only [invalidateAll, hlook, hinv, if_true, List.filter_cons, Option.any_some,
          Bool.not_true, Bool.false_eq_true, if_false]
        exact ih hrest hinj
      · have htail := ih (s := s.modify p ArtifactRecord.invalidate) hrest hinj
        simp only [invalidateAll, hlook, hinv, List.filter_cons, Option.any_some, Bool.not_false,
          Bool.false_eq_true, if_false, if_true, reported, List.flatMap_cons, List.singleton_append]
        refine congrArg (id :: ·) (htail.trans (List.filter_congr fun id' hid' => ?_))
        -- the record of another id is another record
        show ((s.byId.lookup id').any _) = _
        cases hlook' : s.byId.lookup id' with
        | none => rfl
        | some q =>
          have hne : q ≠ p := by
            rintro rfl
            obtain rfl := hinj id id' q hlook hlook'
            exact hfresh hid'
          simp only [Option.any_some, modify_records, if_neg hne]

theorem selected_nodup (env : Env) (s : Impl) (req : InvalidationRequest) :
    (s.selected env req).Nodup :=
  (((env.idOrder_perm s.tick _).nodup_iff).mpr s.byId.keys_nodup).filter _

theorem mem_selected {id : ArtifactId} : id ∈ s.selected env req ↔
    ∃ p, s.byId.lookup id = some p ∧ req.selects id (s.records p) = true := by
  unfold selected
  rw [List.mem_filter, (env.idOrder_perm s.tick _).mem_iff]
  constructor
  · rintro ⟨-, hany⟩
    exact (Option.any_eq_true _ _).mp hany
  · rintro ⟨p, hlook, hsel⟩
    refine ⟨?_, (Option.any_eq_true _ _).mpr ⟨p, hlook, hsel⟩⟩
    show id ∈ s.byId
    exact AList.lookup_isSome.mp (by rw [hlook]; rfl)

/-- **What an invalidation reports**: every record it hits, once. -/
theorem reported_invalidate (hs : s.Sound) :
    (reported (s.invalidate env req).1).Nodup ∧
      ∀ id, id ∈ reported (s.invalidate env req).1 ↔
        ∃ p < s.nextRecord, (s.records p).id = id ∧ (s.records p).hitBy req = true := by
  have hinj : ∀ id id' p, s.byId.lookup id = some p → s.byId.lookup id' = some p → id = id' :=
    fun id id' p h h' => (hs.bound id p h).2.symm.trans (hs.bound id' p h').2
  have heq : reported (s.invalidate env req).1 = (s.selected env req).filter fun id =>
      (s.byId.lookup id).any fun p => !(s.records p).invalidated :=
    reported_invalidateAll (selected_nodup env s req) hinj
  rw [heq]
  refine ⟨(selected_nodup env s req).filter _, fun id => ?_⟩
  rw [List.mem_filter, mem_selected]
  unfold ArtifactRecord.hitBy
  constructor
  · rintro ⟨⟨p, hlook, hsel⟩, hany⟩
    obtain ⟨hp, rfl⟩ := hs.bound id p hlook
    rw [hlook, Option.any_some] at hany
    exact ⟨p, hp, rfl, by rw [hsel, hany]; rfl⟩
  · rintro ⟨p, hp, rfl, hhit⟩
    have hlook := hs.indexed p hp
    rw [Bool.and_eq_true] at hhit
    exact ⟨⟨p, hlook, hhit.1⟩, by rw [hlook]; exact hhit.2⟩

end Impl

/-! ## Invalidations one after the other -/

section Sequences

variable {env : Env} {s s' : Impl} {req : InvalidationRequest}

theorem exec_invalidate_marks (h : exec env (.invalidate req) s = some s') (hs : s.Sound) {p : Nat}
    (hp : p < s.nextRecord) : s'.records p =
      mark (fun r => req.selects r.id r) ArtifactRecord.struck (s.records p) :=
  exec_invalidate h hs hp

/-- No record is hit twice. -/
theorem hitBy_mark (r : ArtifactRecord) (req : InvalidationRequest) :
    (mark (fun r => req.selects r.id r) ArtifactRecord.struck r).hitBy req = false := by
  have hsel : req.selects (mark (fun r => req.selects r.id r) ArtifactRecord.struck r).id
      (mark (fun r => req.selects r.id r) ArtifactRecord.struck r) = req.selects r.id r :=
    (ArtifactRecord.selects_struck req).mark r
  unfold ArtifactRecord.hitBy
  rw [hsel]
  cases hr : req.selects r.id r with
  | false => rfl
  | true =>
    have hmarked : mark (fun r => req.selects r.id r) ArtifactRecord.struck r = r.struck := if_pos hr
    rw [hmarked]
    unfold ArtifactRecord.struck
    split
    · rename_i hinv
      rw [hinv]
      rfl
    · rfl

/-- **Invalidations are exact, idempotent and commute.** In every state of every interleaved run: an
invalidation changes, of the records, those it selects that are not invalidated yet, and of these the
flag and the state; it reports the ids of these records, each once.  The same invalidation again
reports nothing and changes no record; and two invalidations leave the same records in either order. -/
theorem invalidations_commute {store : FilePersistenceStore} {tr : List (Event Step Impl)}
    {pool : Pool Step Impl Answer} (h : CacheRuns env store tr pool)
    (req other : InvalidationRequest) :
    (∃ st, (pool.shared.invalidate env req).2 =
      { pool.shared with records := (pool.shared.invalidate env req).2.records, stats := st }) ∧
    (∀ p < pool.shared.nextRecord, (pool.shared.invalidate env req).2.records p =
      if (pool.shared.records p).hitBy req then
        { pool.shared.records p with
          invalidated := true, state := (pool.shared.records p).invalidate.state }
      else pool.shared.records p) ∧
    ((Impl.reported (pool.shared.invalidate env req).1).Nodup ∧
      ∀ id, id ∈ Impl.reported (pool.shared.invalidate env req).1 ↔
        ∃ p < pool.shared.nextRecord,
          (pool.shared.records p).id = id ∧ (pool.shared.records p).hitBy req = true) ∧
    (∀ once twice, exec env (.invalidate req) pool.shared = some once →
      exec env (.invalidate req) once = some twice →
      Impl.reported (once.invalidate env req).1 = [] ∧
        ∀ p < pool.shared.nextRecord, twice.records p = once.records p) ∧
    ∀ a ab b ba, exec env (.invalidate req) pool.shared = some a →
      exec env (.invalidate other) a = some ab → exec env (.invalidate other) pool.shared = some b →
      exec env (.invalidate req) b = some ba →
      ∀ p < pool.shared.nextRecord, ab.records p = ba.records p := by
  have hs := (runs_sound h).2
  have hsound : ∀ {r : InvalidationRequest} {s'}, exec env (.invalidate r) pool.shared = some s' →
      s'.Sound ∧ s'.nextRecord = pool.shared.nextRecord := fun hexec =>
    ⟨exec_sound hexec trivial hs, (exec_sameIndex hexec rfl).nextRecord⟩
  refine ⟨Impl.invalidate_frame env _ req, fun p hp => ?_, Impl.reported_invalidate hs, ?_, ?_⟩
  · rw [Impl.invalidate_marks hs hp, ArtifactRecord.mark_struck]
  · intro once twice h₁ h₂
    obtain ⟨honce, hnext⟩ := hsound h₁
    constructor
    · rw [List.eq_nil_iff_forall_not_mem]
      intro id hid
      obtain ⟨p, hp, -, hhit⟩ := ((Impl.reported_invalidate honce).2 id).mp hid
      rw [exec_invalidate_marks h₁ hs (hnext ▸ hp), hitBy_mark] at hhit
      cases hhit
    · intro p hp
      rw [exec_invalidate_marks h₂ honce (hnext.symm ▸ hp), exec_invalidate_marks h₁ hs hp]
      exact mark_mark ArtifactRecord.struck_struck (ArtifactRecord.selects_struck req) _
  · intro a ab b ba ha hab hb hba p hp
    obtain ⟨hsa, hna⟩ := hsound ha
    obtain ⟨hsb, hnb⟩ := hsound hb
    rw [exec_invalidate_marks hab hsa (hna.symm ▸ hp), exec_invalidate_marks ha hs hp,
      exec_invalidate_marks hba hsb (hnb.symm ▸ hp), exec_invalidate_marks hb hs hp]
    exact mark_comm (ArtifactRecord.selects_struck other) (ArtifactRecord.selects_struck req) _

end Sequences

/-- Of two artifacts one is invalidated by its operation; to invalidate everything then reports the other
one only. -/
theorem invalidations_commute_put : ∃ tr pool, CacheRuns {} {} tr pool ∧ pool.shared.nextRecord = 2 ∧
    (⟨⟨0, 7⟩⟩ : ArtifactId) ∈ Impl.reported (pool.shared.invalidate {} { target := .all }).1 ∧
    (⟨⟨0, 8⟩⟩ : ArtifactId) ∉ Impl.reported (pool.shared.invalidate {} { target := .all }).1 := by
  obtain ⟨tr, pool, hplay, hnext, hid₀, hid₁, hlive, hgone⟩ : ∃ tr pool,
      play {} {} [.start (.put { id := ⟨⟨0, 7⟩⟩ } [1]), .step 0,
        .start (.put { id := ⟨⟨0, 8⟩⟩, key := { operation := str "gemm" } } [2]), .step 1,
        .start (.invalidate { target := .operation, operation := str "gemm" }), .step 2] =
          some (tr, pool) ∧ pool.shared.nextRecord = 2 ∧
      (pool.shared.records 0).id = ⟨⟨0, 7⟩⟩ ∧ (pool.shared.records 1).id = ⟨⟨0, 8⟩⟩ ∧
      (pool.shared.records 0).invalidated = false ∧ (pool.shared.records 1).invalidated = true :=
    ⟨_, _, rfl, rfl, rfl, rfl, rfl, rfl⟩
  have hruns := CacheRuns.of_play hplay
  have hreports := (invalidations_commute hruns { target := .all } { target := .all }).2.2.1.2
  refine ⟨tr, pool, hruns, hnext, (hreports _).mpr ⟨0, by omega, hid₀, ?_⟩, fun hreported => ?_⟩
  · unfold ArtifactRecord.hitBy
    rw [hlive]
    rfl
  · obtain ⟨p, hp, hid, hhit⟩ := (hreports _).mp hreported
    rw [hnext] at hp
    obtain rfl | rfl : p = 0 ∨ p = 1 := by omega
    · rw [hid₀] at hid
      cases hid
    · unfold ArtifactRecord.hitBy at hhit
      rw [hgone] at hhit
      cases hhit

end KernelCache
