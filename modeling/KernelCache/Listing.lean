/-
# KernelCache.Listing — what `list` shows (`list_impl`, `inspect_impl`).

`list_impl` walks the hash map, keeps the records that pass the two filters, and sorts their descriptors
by generation alone.  `std::sort` promises a permutation that the comparator accepts; `GenerationSort` is
that promise.  Every artifact that passes is listed once, but artifacts of one generation come in no order
of their own: the listing is the same for every order of the hash map exactly when no two of the listed
artifacts have the same generation (`listing_order_free_iff`).
-/
import KernelCache.Execution
import KernelCache.LeaseHealth
import KernelCache.Scan

namespace KernelCache

open Foundation (Bytes Event Pool Runs)

/-! ## Listing -/

/-- What the `std::sort` of `list_impl` may be relied on for. -/
structure GenerationSort where
  sort : List ArtifactDescriptor → List ArtifactDescriptor
  perm : ∀ l, (sort l).Perm l
  sorted : ∀ l, (sort l).Pairwise fun a b => a.generation ≤ b.generation

/-- Generations in the order that a stable sort goes by. -/
def generationLE (a b : ArtifactDescriptor) : Bool := decide (a.generation ≤ b.generation)

theorem generationLE_trans (a b c : ArtifactDescriptor) (hab : generationLE a b = true)
    (hbc : generationLE b c = true) : generationLE a c = true :=
  decide_eq_true (UInt64.le_trans (of_decide_eq_true hab) (of_decide_eq_true hbc))

theorem generationLE_total (a b : ArtifactDescriptor) :
    (generationLE a b || generationLE b a) = true := by
  rcases UInt64.le_total a.generation b.generation with h | h
  · simp [generationLE, h]
  · simp [generationLE, h]

/-- A stable sort. -/
def stableGenerations : GenerationSort where
  sort l := l.mergeSort generationLE
  perm l := List.mergeSort_perm l generationLE
  sorted l := (List.pairwise_mergeSort generationLE_trans generationLE_total l).imp of_decide_eq_true

namespace Impl

/-- The body of the loop of `list_impl`. -/
def listed (s : Impl) (ns : Option Str) (state : Option ArtifactState) (id : ArtifactId) :
    Option ArtifactDescriptor :=
  match s.recordOf id with
  | none => none
  | some r =>
    if ns.any fun n => r.tenant != n then none
    else if state.any fun st => r.state != st then none
    else some r.desc

/-- `list_impl`, where `by_id` has this order. -/
def listImpl (sort : GenerationSort) (s : Impl) (order : List ArtifactId) (ns : Option Str)
    (state : Option ArtifactState) : List ArtifactDescriptor :=
  sort.sort (order.filterMap (s.listed ns state))

/-- `inspect_impl`. -/
def inspectImpl (s : Impl) (id : ArtifactId) : Result ArtifactDescriptor :=
  match s.recordOf id with
  | none => fail .notFound (str "artifact not found")
  | some r => .ok r.desc

/-- The artifact passes the filters. -/
structure Lists (s : Impl) (ns : Option Str) (state : Option ArtifactState) (id : ArtifactId)
    (d : ArtifactDescriptor) : Prop where
  found : s.inspectImpl id = .ok d
  passes : ∃ r, s.recordOf id = some r ∧ (∀ n ∈ ns, r.tenant = n) ∧ ∀ st ∈ state, r.state = st

section Lists

variable {s : Impl} {ns : Option Str} {state : Option ArtifactState} {id id' : ArtifactId}
  {d d' : ArtifactDescriptor}

theorem listed_eq_some : s.listed ns state id = some d ↔ s.Lists ns state id d := by
  constructor
  · intro h
    unfold listed at h
    split at h
    · cases h
    · rename_i r hr
      split at h
      · cases h
      · rename_i hns
        split at h
        · cases h
        · rename_i hstate
          cases h
          refine ⟨by rw [inspectImpl, hr], r, hr, ?_, ?_⟩
          · intro n hn
            cases hn
            simpa using hns
          · intro st hst
            cases hst
            simpa using hstate
  · rintro ⟨hfound, r, hr, hns, hstate⟩
    have hfound : r.desc = d := by
      rw [inspectImpl, hr] at hfound
      exact Except.ok.inj hfound
    have hns : (ns.any fun n => r.tenant != n) = false := by
      cases ns with
      | none => rfl
      | some n => simp [hns n rfl]
    have hstate : (state.any fun st => r.state != st) = false := by
      cases state with
      | none => rfl
      | some st => simp [hstate st rfl]
    rw [listed, hr]
    simp [hns, hstate, hfound]

/-- The descriptors of a state tell its artifacts apart. -/
theorem Lists.desc_id (hsound : s.Sound) (hnamed : s.Named) (h : s.Lists ns state id d) : d.id = id := by
  obtain ⟨hfound, r, hr, -⟩ := h
  obtain ⟨p, hp, rfl⟩ := Option.map_eq_some_iff.mp hr
  obtain ⟨hlt, hid⟩ := hsound.bound id p hp
  rw [inspectImpl, hr] at hfound
  obtain rfl := Except.ok.inj hfound
  exact (hnamed p hlt).trans hid

theorem Lists.mem_keys (h : s.Lists ns state id d) : id ∈ s.byId.keys := by
  obtain ⟨-, r, hr, -⟩ := h
  obtain ⟨p, hp, -⟩ := Option.map_eq_some_iff.mp hr
  exact AList.mem_keys.mpr (AList.lookup_isSome.mp (by rw [hp]; rfl))

/-- A listing has the artifacts that pass the filters, each of them once. -/
theorem mem_listImpl (sort : GenerationSort) {order : List ArtifactId} (hperm : order.Perm s.byId.keys) :
    d ∈ s.listImpl sort order ns state ↔ ∃ id, s.Lists ns state id d := by
  rw [listImpl, (sort.perm _).mem_iff, List.mem_filterMap]
  constructor
  · rintro ⟨id, -, hid⟩
    exact ⟨id, listed_eq_some.mp hid⟩
  · rintro ⟨id, hid⟩
    exact ⟨id, hperm.mem_iff.mpr hid.mem_keys, listed_eq_some.mpr hid⟩

variable (ns state) in
theorem nodup_filterMap_listed (hsound : s.Sound) (hnamed : s.Named) {order : List ArtifactId}
    (hperm : order.Perm s.byId.keys) : (order.filterMap (s.listed ns state)).Nodup := by
  refine List.Nodup.filterMap (fun id id' d hd hd' => ?_) (hperm.nodup_iff.mpr s.byId.keys_nodup)
  rw [← (listed_eq_some.mp hd).desc_id hsound hnamed]
  exact (listed_eq_some.mp hd').desc_id hsound hnamed

end Lists

end Impl

/-- Two elements do not stand in both orders. -/
theorem not_both_orders {α : Type} {x y : α} {l : List α} (hnodup : l.Nodup)
    (hxy : [x, y].Sublist l) (hyx : [y, x].Sublist l) : False := by
  induction l with
  | nil => cases hxy
  | cons a l ih =>
    obtain ⟨ha, hl⟩ := List.nodup_cons.mp hnodup
    cases hxy with
    | cons _ hxy =>
      cases hyx with
      | cons _ hyx => exact ih hl hxy hyx
      | cons_cons _ hx => exact ha (hxy.subset (List.mem_cons_of_mem _ List.mem_cons_self))
    | cons_cons _ hy =>
      cases hyx with
      | cons _ hyx => exact ha (hyx.subset (List.mem_cons_of_mem _ List.mem_cons_self))
      | cons_cons _ hx => exact ha (hx.subset List.mem_cons_self)

section Runs

variable {env : Env} {store : FilePersistenceStore} {tr : List (Event Step Impl)}
  {pool : Pool Step Impl Answer}

/-- The records of a state that is reached are named by their descriptors. -/
theorem runs_named_last (h : CacheRuns env store tr pool) : pool.shared.Named := by
  have hinit : (Impl.initial store).Named := fun p hp => absurd hp (Nat.not_lt_zero p)
  refine (Runs.invariant hinit h fun e he hs => ?_).2
  exact exec_named (h.event_step e he) (runs_proper h e he) hs

/-- **When listings are deterministic.** In every state that is reached, and for any filters: whichever
conforming sort `list` is compiled with, its answer does not depend on the order of the hash map, if and
only if no two artifacts that pass the filters have the same generation. -/
theorem listing_order_free_iff (h : CacheRuns env store tr pool) (ns : Option Str)
    (state : Option ArtifactState) :
    (∀ (sort : GenerationSort) (order order' : List ArtifactId), order.Perm pool.shared.byId.keys →
        order'.Perm pool.shared.byId.keys →
        pool.shared.listImpl sort order ns state = pool.shared.listImpl sort order' ns state) ↔
      ∀ id d id' d', pool.shared.Lists ns state id d → pool.shared.Lists ns state id' d' →
        d.generation = d'.generation → id = id' := by
  have hsound := (runs_sound h).2
  have hnamed := runs_named_last h
  constructor
  · intro hsame id d id' d' hd hd' hgen
    by_contra hne
    -- the two at the front of the map, either way round
    let rest := (pool.shared.byId.keys.erase id).erase id'
    have hmem : id' ∈ pool.shared.byId.keys.erase id :=
      (List.mem_erase_of_ne (Ne.symm hne)).mpr hd'.mem_keys
    have hperm : (id :: id' :: rest).Perm pool.shared.byId.keys :=
      ((List.perm_cons_erase hmem).symm.cons id).trans (List.perm_cons_erase hd.mem_keys).symm
    have hperm' : (id' :: id :: rest).Perm pool.shared.byId.keys := (List.Perm.swap id id' rest).trans hperm
    have hfront : ∀ {i j : ArtifactId} {x y : ArtifactDescriptor}, pool.shared.Lists ns state i x →
        pool.shared.Lists ns state j y → x.generation = y.generation →
        [x, y].Sublist (pool.shared.listImpl stableGenerations (i :: j :: rest) ns state) := by
      intro i j x y hx hy hxy
      refine List.pair_sublist_mergeSort generationLE_trans generationLE_total
        (decide_eq_true (UInt64.le_of_eq hxy)) ?_
      rw [List.filterMap_cons_some (Impl.listed_eq_some.mpr hx),
        List.filterMap_cons_some (Impl.listed_eq_some.mpr hy)]
      exact ((List.nil_sublist _).cons_cons y).cons_cons x
    have hnodup := (stableGenerations.perm _).nodup_iff.mpr
      (Impl.nodup_filterMap_listed ns state hsound hnamed hperm)
    refine not_both_orders hnodup (hfront hd hd' hgen) ?_
    have heq := hsame stableGenerations _ _ hperm hperm'
    rw [Impl.listImpl] at heq
    rw [heq]
    exact hfront hd' hd hgen.symm
  · intro hties sort order order' hperm hperm'
    refine List.Perm.eq_of_pairwise ?_ (sort.sorted _) (sort.sorted _) ?_
    · intro a b ha hb hab hba
      obtain ⟨id, hid⟩ := (Impl.mem_listImpl sort hperm).mp ha
      obtain ⟨id', hid'⟩ := (Impl.mem_listImpl sort hperm').mp hb
      obtain rfl := hties id a id' b hid hid' (UInt64.le_antisymm hab hba)
      exact Except.ok.inj (hid.found.symm.trans hid'.found)
    · exact (sort.perm _).trans (((hperm.trans hperm'.symm).filterMap _).trans (sort.perm _).symm)

end Runs

/-- Two artifacts are put, both of the first generation, as `put` gives it out. -/
def putBoth : List Move :=
  [.start (.put { vectorArtifact [] with id := ⟨⟨1, 7⟩⟩ } [1]), .step 0,
    .start (.put { vectorArtifact [] with id := ⟨⟨1, 8⟩⟩ } [2]), .step 1]

/-- The order in which they are listed is the hash map's. -/
theorem listing_order_free_tied : ∃ tr pool, CacheRuns cpuEnv {} tr pool ∧
    ∃ sort order order', order.Perm pool.shared.byId.keys ∧ order'.Perm pool.shared.byId.keys ∧
      pool.shared.listImpl sort order none none ≠ pool.shared.listImpl sort order' none none := by
  have hplay : ∃ tr pool, play cpuEnv {} putBoth = some (tr, pool) ∧
      (∃ r, pool.shared.recordOf ⟨⟨1, 7⟩⟩ = some r ∧ r.desc.generation = 1) ∧
      ∃ r, pool.shared.recordOf ⟨⟨1, 8⟩⟩ = some r ∧ r.desc.generation = 1 :=
    ⟨_, _, rfl, ⟨_, rfl, rfl⟩, _, rfl, rfl⟩
  obtain ⟨tr, pool, hplay, ⟨r, hr, hgen⟩, r', hr', hgen'⟩ := hplay
  have hruns := CacheRuns.of_play hplay
  have hlists : ∀ {id : ArtifactId} {r : ArtifactRecord}, pool.shared.recordOf id = some r →
      pool.shared.Lists none none id r.desc := by
    intro id r hr
    refine ⟨by rw [Impl.inspectImpl, hr], r, hr, ?_, ?_⟩
    · exact fun n hn => absurd hn (Option.not_mem_none n)
    · exact fun st hst => absurd hst (Option.not_mem_none st)
  refine ⟨tr, pool, hruns, ?_⟩
  by_contra hnone
  have hid := (listing_order_free_iff hruns none none).mp
    (fun sort order order' hperm hperm' => by_contra fun hne =>
      hnone ⟨sort, order, order', hperm, hperm', hne⟩)
    _ _ _ _ (hlists hr) (hlists hr') (hgen.trans hgen'.symm)
  exact absurd hid (by decide)

end KernelCache
