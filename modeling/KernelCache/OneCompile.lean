/-
# KernelCache.OneCompile — how often one key is compiled.

Callers that miss in the index go on to `build_impl`, where the table of builds in flight is checked
under another mutex.  Between the two checks another caller may have started, finished and forgotten
the whole build: the late caller then finds neither the record (it looked too early) nor the fence (it
looks too late) and compiles again.

The table has one entry per digest.  `Slots` ties it to the phases of the callers, `SlotStory` follows
it along the trace: until the first erasure there is one build, and every join after an erasure that
is not covered by a newer build starts another one.  Counting builds against joins (`Runs.balanced`)
gives the exact condition (`one_compile_iff`).
-/
import KernelCache.Agreement

namespace KernelCache

open Foundation (Bytes Prog Runs Pool Event phases traceWeight)
open Foundation.Prog (sect perform Phased Free)
open Phase (ok next)

/-! ## The table of builds in flight -/

/-- The entry an owner has in the table. -/
def Phase.holds : Phase → Option (Sha256Digest × Nat)
  | .owner digest fence | .built digest fence | .fulfilled digest fence _ => some (digest, fence)
  | _ => none

/-- Joining and leaving aside, nobody's entry changes. -/
theorem Phase.holds_next {ph : Phase} {l : Step} {s : Impl} (hjoin : ∀ digest, l ≠ .join digest)
    (herase : ∀ fence digest, l ≠ .eraseFence fence digest) : (next ph l s).holds = ph.holds := by
  rcases Phase.next_cases ph l s with heq | ⟨_, hph, -, heq⟩ | ⟨digest, -, hl, -⟩ |
    ⟨_, _, hph, -, heq⟩ | ⟨_, _, _, _, hph, -, heq⟩ | ⟨_, _, _, _, hph, -, heq⟩ |
    ⟨_, _, _, _, hph, -, heq⟩ | ⟨_, _, _, fence, digest, -, hl, -⟩ | ⟨_, _, _, _, hph, -, heq⟩ |
    ⟨_, _, _, _, hph, -, heq⟩
  · rw [heq]
  · rw [heq, hph]
    rfl
  · exact absurd hl (hjoin digest)
  · rw [heq, hph]
    rfl
  · rw [heq, hph]
    rfl
  · rw [heq, hph]
    rfl
  · rw [heq, hph]
    rfl
  · exact absurd hl (herase fence digest)
  · rw [heq, hph]
    rfl
  · rw [heq, hph]
    rfl

/-- The entries of the owners stand in the table, one owner to a digest. -/
structure Slots (P : Nat → Phase) (s : Impl) : Prop where
  held : ∀ i digest fence, (P i).holds = some (digest, fence) →
    s.inFlight.lookup digest = some fence
  one : ∀ i j digest fence fence', (P i).holds = some (digest, fence) →
    (P j).holds = some (digest, fence') → i = j

/-- Only the table's own sections for a digest touch its entry. -/
theorem exec_slot {env : Env} {l : Step} {s s' : Impl} {digest : Sha256Digest}
    (h : exec env l s = some s') (hl : l.Proper) (hjoin : l ≠ .join digest)
    (herase : ∀ fence, l ≠ .eraseFence fence digest) :
    s'.inFlight.lookup digest = s.inFlight.lookup digest := by
  by_cases hfence : l.isFence = false
  · rw [(exec_sameFences h hl hfence).inFlight]
  obtain ⟨-, rfl⟩ := exec_eq_some.mp h
  cases l with
  | join d =>
    have hne : digest ≠ d := by
      rintro rfl
      exact hjoin rfl
    show (s.join d).2.inFlight.lookup digest = _
    unfold Impl.join
    split
    · rfl
    · exact AList.lookup_insert_ne hne
  | fulfil fence o =>
    show (s.fulfil fence o).inFlight.lookup digest = _
    unfold Impl.fulfil
    split <;> rfl
  | eraseFence fence d =>
    have hne : digest ≠ d := by
      rintro rfl
      exact herase fence rfl
    show (s.eraseFence fence d).inFlight.lookup digest = _
    unfold Impl.eraseFence
    split
    · exact AList.lookup_erase_ne hne
    · rfl
  | _ => exact absurd rfl hfence

/-- The phase after joining: an owner when the table has no entry. -/
theorem next_join {ph : Phase} (hph : ph.outside) (digest : Sha256Digest) (s : Impl) :
    next ph (.join digest) s = Phase.joined digest (s.join digest).1 := by
  cases ph with
  | idle => rfl
  | looked candidates => rfl
  | _ => exact hph.elim

theorem join_of_none {s : Impl} {digest : Sha256Digest} (h : s.inFlight.lookup digest = none) :
    (s.join digest).1 = .owner s.nextFence s.nextGeneration ∧
      (s.join digest).2.inFlight.lookup digest = some s.nextFence := by
  simp only [Impl.join, h, true_and]
  exact AList.lookup_insert _

theorem join_of_some {s : Impl} {digest : Sha256Digest} {fence : Nat}
    (h : s.inFlight.lookup digest = some fence) :
    (s.join digest).1 = .waiter fence ∧
      (s.join digest).2.inFlight.lookup digest = some fence := by
  simp only [Impl.join, h, true_and]
  exact h

/-- One caller moves: its entry is there, the other owners keep theirs, for other digests. -/
theorem Slots.move {P : Nat → Phase} {s s' : Impl} {i : Nat} {ph : Phase} (h : Slots P s)
    (hheld : ∀ digest fence, ph.holds = some (digest, fence) →
      s'.inFlight.lookup digest = some fence)
    (hothers : ∀ j digest fence, j ≠ i → (P j).holds = some (digest, fence) →
      s'.inFlight.lookup digest = some fence)
    (halone : ∀ j digest fence fence', j ≠ i → (P j).holds = some (digest, fence) →
      ph.holds ≠ some (digest, fence')) : Slots (Function.update P i ph) s' := by
  refine ⟨?_, ?_⟩
  · intro j digest fence hj
    by_cases hij : j = i
    · subst hij
      rw [Function.update_self] at hj
      exact hheld digest fence hj
    · rw [Function.update_of_ne hij] at hj
      exact hothers j digest fence hij hj
  · intro j k digest fence fence' hj hk
    by_cases hij : j = i
    · by_cases hik : k = i
      · rw [hij, hik]
      · rw [hij, Function.update_self] at hj
        rw [Function.update_of_ne hik] at hk
        exact absurd hj (halone k digest fence' fence hik hk)
    · rw [Function.update_of_ne hij] at hj
      by_cases hik : k = i
      · rw [hik, Function.update_self] at hk
        exact absurd hk (halone j digest fence fence' hij hj)
      · rw [Function.update_of_ne hik] at hk
        exact h.one j k digest fence fence' hj hk

/-- **The table, one step.** -/
theorem exec_slots {env : Env} {P : Nat → Phase} {i : Nat} {l : Step} {s s' : Impl}
    (h : Slots P s) (hok : ok (P i) l s) (hstep : exec env l s = some s') (hl : l.Proper) :
    Slots (Function.update P i (next (P i) l s)) s' := by
  by_cases hjoin : ∃ digest, l = .join digest
  · obtain ⟨digest, rfl⟩ := hjoin
    rw [next_join hok]
    -- entries of other digests stay
    have hkept : ∀ d, d ≠ digest → s'.inFlight.lookup d = s.inFlight.lookup d := by
      intro d hd
      refine exec_slot hstep hl ?_ fun _ => Step.noConfusion
      rintro heq
      exact hd (Step.join.inj heq).symm
    obtain ⟨-, rfl⟩ := exec_eq_some.mp hstep
    cases hslot : s.inFlight.lookup digest with
    | none =>
      obtain ⟨hjoined, hnew⟩ := join_of_none hslot
      have hne : ∀ j d fence, (P j).holds = some (d, fence) → d ≠ digest := by
        rintro j d fence hj rfl
        have hheld := h.held j d fence hj
        rw [hslot] at hheld
        cases hheld
      rw [hjoined]
      refine h.move ?_ ?_ ?_
      · rintro d fence hd
        obtain ⟨rfl, rfl⟩ := Prod.mk.inj (Option.some.inj hd)
        exact hnew
      · intro j d fence _ hj
        rw [hkept d (hne j d fence hj)]
        exact h.held j d fence hj
      · rintro j d fence fence' _ hj hd
        obtain ⟨rfl, -⟩ := Prod.mk.inj (Option.some.inj hd)
        exact hne j _ fence hj rfl
    | some fence =>
      obtain ⟨hjoined, hsame⟩ := join_of_some hslot
      rw [hjoined]
      refine h.move (fun _ _ hnone => by cases hnone) ?_ fun _ _ _ _ _ _ hnone => by cases hnone
      intro j d f _ hj
      by_cases hd : d = digest
      · subst hd
        have hheld := h.held j d f hj
        rw [hslot] at hheld
        rw [← hheld]
        exact hsame
      · rw [hkept d hd]
        exact h.held j d f hj
  by_cases herase : ∃ fence digest, l = .eraseFence fence digest
  · obtain ⟨fence, digest, rfl⟩ := herase
    obtain ⟨o, hP⟩ : ∃ o, P i = .fulfilled digest fence o := hok
    have hmine : (P i).holds = some (digest, fence) := by
      rw [hP]
      rfl
    rw [hP]
    refine h.move (fun _ _ hnone => by cases hnone) ?_ fun _ _ _ _ _ _ hnone => by cases hnone
    intro j d f hij hj
    have hd : d ≠ digest := by
      rintro rfl
      exact hij (h.one j i d f fence hj hmine)
    rw [exec_slot hstep hl Step.noConfusion]
    · exact h.held j d f hj
    · intro fence' heq
      exact hd (Step.eraseFence.inj heq).2.symm
  · have hjoin' : ∀ digest, l ≠ .join digest := fun digest heq => hjoin ⟨digest, heq⟩
    have herase' : ∀ fence digest, l ≠ .eraseFence fence digest :=
      fun fence digest heq => herase ⟨fence, digest, heq⟩
    have hholds : (next (P i) l s).holds = (P i).holds := Phase.holds_next hjoin' herase'
    have hkept : ∀ d, s'.inFlight.lookup d = s.inFlight.lookup d := by
      intro d
      exact exec_slot hstep hl (hjoin' d) fun fence => herase' fence d
    refine h.move ?_ ?_ ?_
    · intro d fence hd
      rw [hkept]
      exact h.held i d fence (hholds ▸ hd)
    · intro j d fence _ hj
      rw [hkept]
      exact h.held j d fence hj
    · intro j d fence fence' hij hj hd
      exact hij (h.one j i d fence fence' hj (hholds ▸ hd))

/-! ## The builds of one digest -/

/-- The section makes its caller the owner of a build of `digest`. -/
def Step.startsFlight (digest : Sha256Digest) (s : Impl) : Step → Bool
  | .join d => decide (d = digest) && (s.inFlight.lookup d).isNone
  | _ => false

/-- The section is a `run_build` for `digest`. -/
def Step.compiles (digest : Sha256Digest) : Step → Bool
  | .runBuild request _ => decide (request.key.ensureFinalized.digest = digest)
  | _ => false

/-- How often the table got an entry for `digest`. -/
def flights (digest : Sha256Digest) (tr : List (Event Step Impl)) : Nat :=
  tr.countP fun e => e.label.startsFlight digest e.before

/-- How often `run_build` was executed for `digest`. -/
def compilesOf (digest : Sha256Digest) (tr : List (Event Step Impl)) : Nat :=
  tr.countP fun e => e.label.compiles digest

/-- A build of `digest` has taken its fence out of the table. -/
def Landed (digest : Sha256Digest) (tr : List (Event Step Impl)) : Prop :=
  ∃ e ∈ tr, ∃ fence, e.label = .eraseFence fence digest

/-- A caller checks the table for `digest` after a build of it has taken its fence out. -/
def JoinsLate (digest : Sha256Digest) (tr : List (Event Step Impl)) : Prop :=
  ∃ tr₁ e tr₂, tr = tr₁ ++ e :: tr₂ ∧ e.label = .join digest ∧ Landed digest tr₁

theorem landed_concat {digest : Sha256Digest} {tr : List (Event Step Impl)} {e : Event Step Impl} :
    Landed digest (tr ++ [e]) ↔ Landed digest tr ∨ ∃ fence, e.label = .eraseFence fence digest := by
  simp only [Landed, List.mem_append, List.mem_singleton, or_and_right, exists_or, exists_eq_left]

theorem joinsLate_concat {digest : Sha256Digest} {tr : List (Event Step Impl)}
    {e : Event Step Impl} : JoinsLate digest (tr ++ [e]) ↔
      JoinsLate digest tr ∨ e.label = .join digest ∧ Landed digest tr := by
  constructor
  · rintro ⟨tr₁, e', tr₂, htr, hl, hlanded⟩
    rcases List.eq_nil_or_concat tr₂ with rfl | ⟨tr₃, last, rfl⟩
    · obtain ⟨rfl, heq⟩ := List.append_inj' htr rfl
      obtain rfl := (List.cons.inj heq).1
      exact .inr ⟨hl, hlanded⟩
    · have hsplit : tr₁ ++ e' :: tr₃.concat last = (tr₁ ++ e' :: tr₃) ++ [last] := by simp
      rw [hsplit] at htr
      obtain ⟨rfl, -⟩ := List.append_inj' htr rfl
      exact .inl ⟨tr₁, e', tr₃, rfl, hl, hlanded⟩
  · rintro (⟨tr₁, e', tr₂, rfl, hl, hlanded⟩ | ⟨hl, hlanded⟩)
    · exact ⟨tr₁, e', tr₂ ++ [e], by simp, hl, hlanded⟩
    · exact ⟨tr, e, [], rfl, hl, hlanded⟩

/-- Late joins are late after a landing. -/
theorem JoinsLate.landed {digest : Sha256Digest} {tr : List (Event Step Impl)}
    (h : JoinsLate digest tr) : Landed digest tr := by
  obtain ⟨tr₁, e, tr₂, rfl, -, e', he', hfence⟩ := h
  exact ⟨e', List.mem_append_left _ he', hfence⟩

theorem flights_concat (digest : Sha256Digest) (tr : List (Event Step Impl)) (e : Event Step Impl) :
    flights digest (tr ++ [e]) =
      flights digest tr + if e.label.startsFlight digest e.before then 1 else 0 := by
  simp [flights, List.countP_append, List.countP_singleton]

theorem Step.startsFlight_of_ne {digest : Sha256Digest} {s : Impl} {l : Step}
    (h : l ≠ .join digest) : l.startsFlight digest s = false := by
  cases l with
  | join d =>
    have hne : d ≠ digest := by
      rintro rfl
      exact h rfl
    simp [Step.startsFlight, hne]
  | _ => rfl

/-- What the trace says about the entry of `digest`. -/
inductive SlotStory (digest : Sha256Digest) (tr : List (Event Step Impl)) (s : Impl) : Prop
  /-- Nobody has asked for it. -/
  | quiet (hnone : s.inFlight.lookup digest = none) (hcount : flights digest tr = 0)
      (hjoins : ∀ e ∈ tr, e.label ≠ .join digest) (hlanded : ¬ Landed digest tr)
  /-- The first build is on its way. -/
  | flying (hsome : s.inFlight.lookup digest ≠ none) (hcount : flights digest tr = 1)
      (hlanded : ¬ Landed digest tr)
  /-- The first build is over and nobody has asked since. -/
  | landed (hnone : s.inFlight.lookup digest = none) (hcount : flights digest tr = 1)
      (hlate : ¬ JoinsLate digest tr) (hlanded : Landed digest tr)
  | late (hcount : 2 ≤ flights digest tr) (hlate : JoinsLate digest tr)

/-- **The entry of one digest, one step.** -/
theorem SlotStory.step {env : Env} {digest : Sha256Digest} {tr : List (Event Step Impl)}
    {P : Nat → Phase} {i : Nat} {l : Step} {s s' : Impl} (h : SlotStory digest tr s)
    (hslots : Slots P s) (hok : ok (P i) l s) (hstep : exec env l s = some s') (hl : l.Proper) :
    SlotStory digest (tr ++ [⟨i, l, s, s'⟩]) s' := by
  by_cases hjoin : l = .join digest
  · subst hjoin
    have hland : Landed digest (tr ++ [⟨i, .join digest, s, s'⟩]) ↔ Landed digest tr := by
      rw [landed_concat]
      exact or_iff_left fun ⟨_, hno⟩ => Step.noConfusion hno
    have hcount := flights_concat digest tr ⟨i, .join digest, s, s'⟩
    have hlate : JoinsLate digest (tr ++ [⟨i, .join digest, s, s'⟩]) ↔
        JoinsLate digest tr ∨ Landed digest tr := by
      rw [joinsLate_concat]
      exact or_congr_right (and_iff_right rfl)
    have hentry : s'.inFlight.lookup digest = (s.join digest).2.inFlight.lookup digest := by
      obtain ⟨-, rfl⟩ := exec_eq_some.mp hstep
      rfl
    cases hslot : s.inFlight.lookup digest with
    | none =>
      -- a new build
      have hstarts : Step.startsFlight digest s (.join digest) = true := by
        simp [Step.startsFlight, hslot]
      rw [(join_of_none hslot).2] at hentry
      simp only [hstarts, if_true] at hcount
      cases h with
      | quiet _ hzero _ hlanded =>
        refine .flying ?_ (by omega) fun hno => hlanded (hland.mp hno)
        rw [hentry]
        exact Option.some_ne_none _
      | flying hsome => exact absurd hslot hsome
      | landed _ hone _ hlanded => exact .late (by omega) (hlate.mpr (.inr hlanded))
      | late htwo hjoins => exact .late (by omega) (hlate.mpr (.inl hjoins))
    | some fence =>
      have hstarts : Step.startsFlight digest s (.join digest) = false := by
        simp [Step.startsFlight, hslot]
      rw [(join_of_some hslot).2] at hentry
      simp only [hstarts, Bool.false_eq_true, if_false, Nat.add_zero] at hcount
      cases h with
      | quiet hnone => exact absurd (hslot.symm.trans hnone) (Option.some_ne_none _)
      | flying _ hone hlanded =>
        refine .flying ?_ (hcount.trans hone) fun hno => hlanded (hland.mp hno)
        rw [hentry]
        exact Option.some_ne_none _
      | landed hnone => exact absurd (hslot.symm.trans hnone) (Option.some_ne_none _)
      | late htwo hjoins => exact .late (by omega) (hlate.mpr (.inl hjoins))
  · have hcount : flights digest (tr ++ [⟨i, l, s, s'⟩]) = flights digest tr := by
      rw [flights_concat, Step.startsFlight_of_ne hjoin]
      rfl
    have hlate : JoinsLate digest (tr ++ [⟨i, l, s, s'⟩]) ↔ JoinsLate digest tr := by
      rw [joinsLate_concat]
      exact or_iff_left fun hno => hjoin hno.1
    by_cases herase : ∃ fence, l = .eraseFence fence digest
    · obtain ⟨fence, rfl⟩ := herase
      obtain ⟨o, hP⟩ : ∃ o, P i = .fulfilled digest fence o := hok
      have hheld : s.inFlight.lookup digest = some fence :=
        hslots.held i digest fence (by rw [hP]; rfl)
      have hland : Landed digest (tr ++ [⟨i, .eraseFence fence digest, s, s'⟩]) :=
        landed_concat.mpr (.inr ⟨fence, rfl⟩)
      have hgone : s'.inFlight.lookup digest = none := by
        obtain ⟨-, rfl⟩ := exec_eq_some.mp hstep
        show (s.eraseFence fence digest).inFlight.lookup digest = none
        simp only [Impl.eraseFence, hheld, if_true]
        exact AList.lookup_erase _ _
      cases h with
      | quiet hnone => exact absurd (hheld.symm.trans hnone) (Option.some_ne_none _)
      | flying _ hone hlanded =>
        exact .landed hgone (hcount.trans hone) (fun hno => hlanded (hlate.mp hno).landed) hland
      | landed hnone => exact absurd (hheld.symm.trans hnone) (Option.some_ne_none _)
      | late htwo hjoins => exact .late (by omega) (hlate.mpr hjoins)
    · have hland : Landed digest (tr ++ [⟨i, l, s, s'⟩]) ↔ Landed digest tr := by
        rw [landed_concat]
        exact or_iff_left herase
      have hkept : s'.inFlight.lookup digest = s.inFlight.lookup digest :=
        exec_slot hstep hl hjoin fun fence heq => herase ⟨fence, heq⟩
      cases h with
      | quiet hnone hzero hjoins hlanded =>
        refine .quiet (hkept.trans hnone) (hcount.trans hzero) ?_ fun hno => hlanded (hland.mp hno)
        intro e he
        rcases List.mem_append.mp he with hprev | hlast
        · exact hjoins e hprev
        · rw [List.mem_singleton.mp hlast]
          exact hjoin
      | flying hsome hone hlanded =>
        exact .flying (hkept ▸ hsome) (hcount.trans hone) fun hno => hlanded (hland.mp hno)
      | landed hnone hone hjoins hlanded =>
        exact .landed (hkept.trans hnone) (hcount.trans hone) (fun hno => hjoins (hlate.mp hno))
          (hland.mpr hlanded)
      | late htwo hjoins => exact .late (by omega) (hlate.mpr hjoins)

/-! ## Builds and owners -/

/-- An owner of `digest` that has not built yet owes one compile. -/
def Phase.dueCompiles (digest : Sha256Digest) : Phase → Int
  | .owner d _ => if d = digest then 1 else 0
  | _ => 0

/-- Becoming an owner of `digest` takes on a compile, `run_build` pays one back. -/
def compileWeight (digest : Sha256Digest) (l : Step) (s : Impl) : Int :=
  (if l.startsFlight digest s then 1 else 0) - if l.compiles digest then 1 else 0

theorem traceWeight_compileWeight (digest : Sha256Digest) (tr : List (Event Step Impl)) :
    traceWeight (compileWeight digest) tr = flights digest tr - compilesOf digest tr := by
  induction tr with
  | nil => rfl
  | cons e tr ih =>
    simp only [traceWeight, List.map_cons, List.sum_cons, flights, compilesOf, compileWeight,
      List.countP_cons, Nat.cast_add] at ih ⊢
    rw [ih]
    push_cast
    omega

theorem Phase.dueCompiles_next {digest : Sha256Digest} {ph : Phase} {l : Step} {s : Impl}
    (hok : ok ph l s) :
    (next ph l s).dueCompiles digest = ph.dueCompiles digest + compileWeight digest l s := by
  by_cases hjoin : ∃ d, l = .join d
  · obtain ⟨d, rfl⟩ := hjoin
    have hzero : ph.dueCompiles digest = 0 := by
      cases ph with
      | owner d' fence => exact (hok : False).elim
      | _ => rfl
    rw [next_join hok, hzero]
    cases hslot : s.inFlight.lookup d with
    | none =>
      rw [(join_of_none hslot).1]
      by_cases hd : d = digest
      · simp [Phase.joined, Phase.dueCompiles, compileWeight, Step.startsFlight, Step.compiles, hd,
          hslot]
      · simp [Phase.joined, Phase.dueCompiles, compileWeight, Step.startsFlight, Step.compiles, hd]
    | some fence =>
      rw [(join_of_some hslot).1]
      simp [Phase.joined, Phase.dueCompiles, compileWeight, Step.startsFlight, Step.compiles, hslot]
  by_cases hbuild : ∃ request gen, l = .runBuild request gen
  · obtain ⟨request, gen, rfl⟩ := hbuild
    obtain ⟨fence, rfl⟩ : ∃ fence, ph = .owner request.key.ensureFinalized.digest fence := hok
    by_cases hd : request.key.ensureFinalized.digest = digest
    · simp [next, Phase.dueCompiles, compileWeight, Step.startsFlight, Step.compiles, hd]
    · simp [next, Phase.dueCompiles, compileWeight, Step.startsFlight, Step.compiles, hd]
  · have hweight : compileWeight digest l s = 0 := by
      cases l with
      | join d => exact absurd ⟨d, rfl⟩ hjoin
      | runBuild request gen => exact absurd ⟨request, gen, rfl⟩ hbuild
      | _ => rfl
    rw [hweight, add_zero]
    rcases Phase.next_cases ph l s with heq | ⟨_, hph, -, heq⟩ | ⟨d, -, hl, -⟩ |
      ⟨_, _, hph, -, heq⟩ | ⟨_, _, _, _, hph, -, heq⟩ | ⟨_, _, request, gen, -, hl, -⟩ |
      ⟨_, _, _, _, hph, -, heq⟩ | ⟨_, _, _, _, _, hph, -, heq⟩ | ⟨_, _, _, _, hph, -, heq⟩ |
      ⟨_, _, _, _, hph, -, heq⟩
    · rw [heq]
    · rw [heq, hph]
      rfl
    · exact absurd ⟨d, hl⟩ hjoin
    · rw [heq, hph]
      rfl
    · rw [heq, hph]
      rfl
    · exact absurd ⟨request, gen, hl⟩ hbuild
    all_goals
      rw [heq, hph]
      rfl

/-! ## Callers of one key -/

section Callers

variable {env : Env} {key : KernelCompatibilityKey} {requests : List KernelLookupRequest}
  {s₀ : Impl} {tr : List (Event Step Impl)} {pool : Pool Step Impl Answer}

/-- The pool of the callers `acquire(request)`, one thread each. -/
def callers (env : Env) (requests : List KernelLookupRequest) : List (Op Answer) :=
  requests.map fun request => (Operation.acquire request).prog env

/-- Runs of these callers and nobody else. -/
abbrev CallerRuns (env : Env) (s₀ : Impl) (requests : List KernelLookupRequest)
    (tr : List (Event Step Impl)) (pool : Pool Step Impl Answer) : Prop :=
  Runs (exec env) (fun _ => False) ⟨s₀, callers env requests⟩ tr pool

/-- The lookup of every caller missed. -/
def MissesAll (requests : List KernelLookupRequest) (tr : List (Event Step Impl)) : Prop :=
  ∀ e ∈ tr, ∀ request, requests[e.thread]? = some request → ∀ k, e.label = .collect k →
    (decideLookup request.key.finalize request.policy
      (e.before.collectCandidates k)).outcome.isHit = false

/-- What the callers of `key` take: proper sections, and joins for the digest of `key` only. -/
def Step.callsFor (digest : Sha256Digest) (l : Step) : Prop :=
  l.Proper ∧ ∀ d, l = .join d → d = digest

theorem acquire_callsFor {request : KernelLookupRequest} (hkey : request.key = key) :
    ((Operation.acquire request).prog env).Free (exec env) (fun _ _ _ => True)
      (fun l _ _ => l.callsFor key.finalize.digest) := by
  -- none of the sections below is a join
  have hother : ∀ l : Step, l.Proper → l.isFence = false → l.callsFor key.finalize.digest := by
    rintro l hl hfence
    refine ⟨hl, ?_⟩
    rintro d rfl
    cases hfence
  refine Free.bind (acquireImpl_free ?_ ?_ ?_ ?_ ?_) fun _ => Free.ret _
  · intro l s s' _ _ hl hplain
    refine hother l hl ?_
    cases l <;> first | rfl | cases hplain
  · intro l s s' _ _ hl hbuild
    refine hother l hl ?_
    cases l <;> first | rfl | cases hbuild
  · intro l s s' h hC hfence hjoin
    exact ⟨coversFences_proper env l s s' h hC hfence hjoin, fun d heq => absurd heq (hjoin d)⟩
  · exact evictsFree_of_covers fun l _ _ _ _ hl hfence _ => hother l hl hfence
  · intro s s' _ _
    refine ⟨trivial, ?_⟩
    rintro d heq
    obtain rfl := Step.join.inj heq
    simp only [buildDigest, buildRequestOf, hkey, KernelCompatibilityKey.finalize_finalize,
      KernelCompatibilityKey.ensureFinalized_finalize]

theorem runs_callsFor (hkeys : ∀ request ∈ requests, request.key = key)
    (h : CallerRuns env s₀ requests tr pool) :
    ∀ e ∈ tr, e.label.callsFor key.finalize.digest := by
  have hruns : Runs (exec env) (fun p => ∃ request ∈ requests,
      p = (Operation.acquire request).prog env) ⟨s₀, []⟩ tr pool := by
    refine h.of_pool ?_ fun _ => False.elim
    intro p hp
    obtain ⟨request, hmem, rfl⟩ := List.mem_map.mp hp
    exact ⟨request, hmem, rfl⟩
  refine Runs.guarantee (C := fun _ _ _ => True)
    (G := fun l _ _ => l.callsFor key.finalize.digest) ?_ hruns fun _ _ => trivial
  rintro p ⟨request, hmem, rfl⟩
  exact acquire_callsFor (hkeys request hmem)

/-- A caller is a party, and one that never joined was refused, saw a hit or may not build. -/
theorem callers_party {C : Step → Impl → Impl → Prop} {i : Nat} {p : Op Answer}
    (hp : (callers env requests)[i]? = some p) :
    p.Phased (exec env) C ok next
      (fun a ph _ => ph.answers a ∧ ∀ request, requests[i]? = some request → ph.declines request)
      (fun _ => True) .idle := by
  obtain ⟨request, hrequest, rfl⟩ : ∃ request, requests[i]? = some request ∧
      p = (Operation.acquire request).prog env := by
    rw [callers, List.getElem?_map] at hp
    obtain ⟨request, hrequest, rfl⟩ := Option.map_eq_some_iff.mp hp
    exact ⟨request, hrequest, rfl⟩
  refine Party.bind (acquireImpl_party request) fun res ph hph => ?_
  refine Phased.ret fun _ _ => ⟨hph.1, fun request' hrequest' => ?_⟩
  rw [hrequest] at hrequest'
  cases hrequest'
  exact hph.2

/-- The entry of the callers' digest, every run. -/
theorem runs_slotStory (hkeys : ∀ request ∈ requests, request.key = key)
    (hquiet : s₀.inFlight.lookup key.finalize.digest = none)
    (h : CallerRuns env s₀ requests tr pool) :
    SlotStory key.finalize.digest tr pool.shared ∧ Story tr (callerPhases tr) ∧
      ∀ i a, pool.threads[i]? = some (.ret a) →
        ∀ request, requests[i]? = some request → (callerPhases tr i).declines request := by
  have hrule := Runs.protocol ok next (fun _ => .idle)
    (C := fun l _ _ => l.callsFor key.finalize.digest)
    (Q := fun i a ph _ => ph.answers a ∧
      ∀ request, requests[i]? = some request → ph.declines request)
    (J := fun tr P s => Slots P s ∧ Story tr P ∧ SlotStory key.finalize.digest tr s)
    (fun i p => callers_party) (fun _ _ => False.elim) ?_ ?_ h (runs_callsFor hkeys h)
  · exact ⟨hrule.1.2.2, hrule.1.2.1, fun i a ha => (hrule.2 i a ha).2⟩
  · refine ⟨⟨?_, ?_⟩, story_nil, .quiet hquiet rfl (by simp) ?_⟩
    · intro i digest fence hno
      cases hno
    · intro i j digest fence fence' hno
      cases hno
    · rintro ⟨e, he, -⟩
      cases he
  · rintro tr P i l s s' ⟨hslots, hstory, hslot⟩ hok hstep hl
    exact ⟨exec_slots hslots hok hstep hl.1, hstory.step hok, hslot.step hslots hok hstep hl.1⟩

/-- In a finished run every build that was started has compiled. -/
theorem runs_compiles (hkeys : ∀ request ∈ requests, request.key = key)
    (h : CallerRuns env s₀ requests tr pool) (hdone : ∀ p ∈ pool.threads, ∃ a, p = Prog.ret a)
    (digest : Sha256Digest) : compilesOf digest tr = flights digest tr := by
  have hbalance := Runs.balanced (Phase.dueCompiles digest) (compileWeight digest)
    (C := fun l _ _ => l.callsFor key.finalize.digest)
    (fun i p => callers_party) (fun _ _ => False.elim) (fun _ => rfl)
    (fun ph l s s' hok _ _ => Phase.dueCompiles_next hok) ?_ h (runs_callsFor hkeys h) hdone
  · rw [traceWeight_compileWeight] at hbalance
    omega
  · rintro i a ph s ⟨hanswers, -⟩
    cases ph with
    | owner d fence => exact hanswers.elim
    | _ => rfl

/-- A finished caller whose lookup missed has joined. -/
theorem runs_joined (hkey : key.wellFormed = true)
    (hrequests : ∀ request ∈ requests, request.key = key ∧ request.allowMissBuild = true)
    (hquiet : s₀.inFlight.lookup key.finalize.digest = none)
    (h : CallerRuns env s₀ requests tr pool) (hmiss : MissesAll requests tr) {i : Nat}
    {request : KernelLookupRequest} (hi : requests[i]? = some request) {a : Answer}
    (ha : pool.threads[i]? = some (.ret a)) :
    ∃ e ∈ tr, e.label = .join key.finalize.digest := by
  have hkeys := fun request hmem => (hrequests request hmem).1
  obtain ⟨-, hstory, hdeclines⟩ := runs_slotStory hkeys hquiet h
  obtain ⟨hrkey, hallow⟩ := hrequests request (List.mem_of_getElem? hi)
  have hinside : ¬ (callerPhases tr i).outside := by
    have hdecline := hdeclines i a ha request hi
    intro hout
    cases hph : callerPhases tr i with
    | idle =>
      rw [hph] at hdecline
      have hrefused : request.key.wellFormed = false := hdecline
      rw [hrkey, hkey] at hrefused
      cases hrefused
    | looked candidates =>
      rw [hph] at hdecline
      obtain ⟨e, he, hthread, k, hlabel, rfl⟩ := hstory.looked i candidates hph
      have hmissed := hmiss e he request (hthread ▸ hi) k hlabel
      rw [hdecline hallow] at hmissed
      cases hmissed
    | _ =>
      rw [hph] at hout
      exact hout
  obtain ⟨e, he, -, d, hlabel⟩ := hstory.joined i hinside
  rw [(runs_callsFor hkeys h e he).2 d hlabel] at hlabel
  exact ⟨e, he, hlabel⟩

/-- **When one key is compiled once.** Any number of callers of `key` whose lookups missed, in any
interleaving: when all are done, `run_build` has been executed exactly once for the key if and only if
no caller checked the table of builds in flight after a build of the key had left it. -/
theorem one_compile_iff (hkey : key.wellFormed = true) (hsome : requests ≠ [])
    (hrequests : ∀ request ∈ requests, request.key = key ∧ request.allowMissBuild = true)
    (hquiet : s₀.inFlight.lookup key.finalize.digest = none)
    (h : CallerRuns env s₀ requests tr pool) (hmiss : MissesAll requests tr)
    (hdone : ∀ p ∈ pool.threads, ∃ a, p = Prog.ret a) :
    compilesOf key.finalize.digest tr = 1 ↔ ¬ JoinsLate key.finalize.digest tr := by
  have hkeys := fun request hmem => (hrequests request hmem).1
  rw [runs_compiles hkeys h hdone]
  cases (runs_slotStory hkeys hquiet h).1 with
  | quiet _ _ hjoins _ =>
    -- the first caller has joined
    exfalso
    obtain ⟨request, rest, rfl⟩ := List.exists_cons_of_ne_nil hsome
    have hlen : 0 < pool.threads.length := by
      refine Nat.lt_of_lt_of_le ?_ h.length_le
      simp [callers]
    have hget := List.getElem?_eq_getElem hlen
    obtain ⟨a, ha⟩ := hdone _ (List.mem_of_getElem? hget)
    rw [ha] at hget
    obtain ⟨e, he, hlabel⟩ := runs_joined hkey hrequests hquiet h hmiss rfl hget
    exact hjoins e he hlabel
  | flying _ hone hlanded => exact iff_of_true hone fun hlate => hlanded hlate.landed
  | landed _ hone hlate _ => exact iff_of_true hone hlate
  | late htwo hlate => exact iff_of_false (by omega) fun hno => hno hlate

end Callers

/-! ## A late caller -/

/-- A caller of the default key. -/
def callerRequest : KernelLookupRequest := { desiredTier := .none, allowMissBuild := true }

/-- Nobody is building, and the stub backend's artifact of generation `gen` is still to come. -/
structure Impl.Ready (s : Impl) (gen : ArtifactGeneration) : Prop where
  free : s.statsHeld = false
  idle : s.FencesIdle
  flight : s.inFlight.lookup ({} : KernelCompatibilityKey).finalize.digest = none
  generation : s.nextGeneration = gen
  older : ∀ g, s.byId.lookup (deriveId [1] g) ≠ none → g < gen

theorem initial_ready : (Impl.initial {}).Ready 0 where
  free := rfl
  idle := Impl.initial_fencesIdle {}
  flight := AList.lookup_empty _
  generation := rfl
  older _ h := absurd (AList.lookup_empty _) h

theorem Impl.Ready.lookedUp {s : Impl} {gen : ArtifactGeneration} (h : s.Ready gen)
    (r : KernelLookupResult) : (s.lookedUp r).Ready gen :=
  ⟨h.free, ⟨h.idle.waiting, h.idle.fresh⟩, h.flight, h.generation, h.older⟩

/-- The same caller after its lookup. -/
def missedRequest : KernelLookupRequest :=
  { callerRequest with key := ({} : KernelCompatibilityKey).finalize }

theorem missedRequest_digest :
    buildDigest stubEnv missedRequest = ({} : KernelCompatibilityKey).finalize.digest := by
  simp only [buildDigest, buildRequestOf, missedRequest, KernelCompatibilityKey.finalize_finalize,
    KernelCompatibilityKey.ensureFinalized_finalize]

/-- The sections of a caller after its lookup: those of its build, and of its lease. -/
def Step.ofCaller (s₀ : Impl) (o : Outcome) (s : Impl) (l : Step) : Prop :=
  l.ofBuild s₀ o s ∨ (∃ id, l = .find id) ∨ ∃ p pin, l = .grantLease p pin

theorem Step.ofCaller.not_collect {s₀ : Impl} {o : Outcome} {s : Impl} {l : Step}
    (h : l.ofCaller s₀ o s) (key : KernelCompatibilityKey) : l ≠ .collect key := by
  rintro rfl
  rcases h with hbuild | ⟨id, hfind⟩ | ⟨p, pin, hgrant⟩
  · exact hbuild
  · cases hfind
  · cases hgrant

/-- Such a caller has built a record of its own and leased it. -/
structure Impl.Rebuilt (s s' : Impl) (gen : ArtifactGeneration) (lease : Nat) : Prop where
  ready : s'.Ready (gen + 1)
  byId : s'.byId = s.byId.insert (deriveId [1] gen) s.nextRecord
  nextRecord : s'.nextRecord = s.nextRecord + 1
  leased : (s'.leases lease).record = s.nextRecord
  generation : (s'.records s.nextRecord).generation = gen
  others : ∀ p < s.nextRecord, (s'.records p).generation = (s.records p).generation ∧
    ((s'.records p).leasable = true → (s.records p).leasable = true)

/-- A caller that has missed builds, publishes and leases. -/
theorem Impl.Ready.build {s : Impl} {gen : ArtifactGeneration} (h : s.Ready gen)
    (hgen : gen < gen + 1) (i : Nat) (outcome : LookupOutcome) : ∃ o tr lease s',
    (acquireMiss stubEnv missedRequest outcome).traced (exec stubEnv) i s =
        some (tr, .ok lease, s') ∧
      0 < compilesOf ({} : KernelCompatibilityKey).finalize.digest tr ∧
      (∀ e ∈ tr, e.label.ofCaller s o e.before) ∧
      (s.byId.lookup o.id = none ∧ o.desc.generation = gen) ∧ s.Rebuilt s' gen lease := by
  obtain ⟨hfree, hidle, hflight, hnext, holder⟩ := h
  obtain ⟨o, hout, hok, hid, hdesc, hnumber, hvalid⟩ : ∃ o, runBuild stubEnv (s.tick + 1)
      (buildRequestOf stubEnv missedRequest) s.nextGeneration = .ok o ∧ o.succeeded = true ∧
        o.id = deriveId [1] s.nextGeneration ∧ o.desc.id = deriveId [1] s.nextGeneration ∧
        o.desc.generation = s.nextGeneration ∧
        ∀ now, (makeRecord now o.desc o.bytes).leasable = true :=
    ⟨_, rfl, rfl, rfl, rfl, rfl, fun _ => rfl⟩
  have hnew : s.byId.lookup o.id = none := by
    by_contra hsome
    rw [hid, hnext] at hsome
    exact UInt64.lt_irrefl _ (holder gen hsome)
  rw [← missedRequest_digest] at hflight
  -- the build
  obtain ⟨tr₁, s₁, hbuild, -, ⟨e, he, hcompile⟩, hlabels, s₀, hindex, hrecords, hfree₀, hnext₀, hland,
    t, hs₁⟩ := buildImpl_traced_of_new missedRequest i hfree hidle hflight hout hok hnew rfl
  have hrun₁ : (buildImpl stubEnv missedRequest).run (exec stubEnv) s = some (.ok o.desc, s₁) := by
    rw [Prog.run_eq_traced i, hbuild]
    rfl
  have hids₁ : s₁.byId = s.byId.insert o.desc.id s₀.nextRecord := by
    rw [hs₁, ← hindex.byId]
    rfl
  -- the lease
  have hbound : s₁.byId.lookup o.desc.id = some s₀.nextRecord := by
    rw [hids₁]
    exact AList.lookup_insert _
  have hrecord : s₁.records s₀.nextRecord = { makeRecord (stubEnv.now s₀.tick) o.desc o.bytes with
      key := o.desc.key.ensureFinalized } := by
    rw [hs₁]
    exact Function.update_self ..
  have hleasable : (s₁.records s₀.nextRecord).leasable = true := by
    rw [hrecord]
    exact hvalid (stubEnv.now s₀.tick)
  obtain ⟨tr₂, s₂, hlease, hlabels₂, hrw, hleased, -⟩ := leaseRecord_traced stubEnv i missedRequest
    (str "built artifact vanished") hbound rfl (hs₁ ▸ hfree₀) hleasable
  have hrun₂ : (leaseRecord stubEnv missedRequest o.desc.id (str "built artifact vanished")).run
      (exec stubEnv) s₁ = some (.ok s₁.nextLease, s₂) := by
    rw [Prog.run_eq_traced i, hlease]
    rfl
  have hfences := leaseRecord_sameFences hrun₂
  refine ⟨o, tr₁ ++ tr₂, s₁.nextLease, s₂, ?_, ?_, ?_, ⟨hnew, hnumber.trans hnext⟩, ?_⟩
  · unfold acquireMiss
    rw [if_pos (show missedRequest.allowMissBuild = true from rfl), Prog.bind_eq, Prog.traced_bind,
      hbuild]
    simp only [Option.bind_some, Prog.tracedThen, hlease, Option.map_some]
  · refine List.countP_pos_iff.mpr ⟨e, List.mem_append_left _ he, ?_⟩
    rw [hcompile, ← missedRequest_digest]
    exact decide_eq_true rfl
  · intro e' he'
    rcases List.mem_append.mp he' with hmem | hmem
    · exact .inl (hlabels e' hmem)
    · rcases hlabels₂ e' hmem with hno | hfind | hgrant
      · cases hno
      · exact .inr (.inl ⟨_, hfind⟩)
      · exact .inr (.inr ⟨_, _, hgrant⟩)
  · have hlast : s₀.nextRecord = s.nextRecord := hindex.nextRecord
    rw [hlast] at hrw hrecord hleased
    refine ⟨⟨hrw.free, hfences.idle ((buildImpl_run hidle hrun₁).fencesIdle hidle), ?_, ?_, ?_⟩,
      ?_, ?_, hleased, ?_, fun p hp => ?_⟩
    · rw [hfences.inFlight, ← missedRequest_digest, hs₁]
      exact hland
    · rw [hfences.nextGeneration, ← hnext, ← hnext₀, hs₁]
      rfl
    · intro g hg
      rw [hrw.index.byId, hids₁, hdesc, hnext] at hg
      by_cases heq : g = gen
      · rw [heq]
        exact hgen
      · have hne : deriveId [1] g ≠ deriveId [1] gen := by
          intro hsame
          exact heq (congrArg (fun id => id.toStrongId128.hi) hsame)
        rw [AList.lookup_insert_ne hne] at hg
        exact UInt64.lt_trans (holder g hg) hgen
    · rw [hrw.index.byId, hids₁, hdesc, hnext, hlast]
    · rw [hrw.index.nextRecord, hs₁, ← hlast]
      rfl
    · rw [hrw.record, hrecord]
      exact hnumber.trans hnext
    · have hsame : s₂.records p = s.records p := by
        have hp₀ : p < s₀.nextRecord := by omega
        rw [hrw.others p (Nat.ne_of_lt hp), hs₁]
        exact (Impl.insertIndexLocked_records _ hp₀).trans (congrFun hrecords p)
      rw [hsame]
      exact ⟨rfl, id⟩

/-- The lookup of a caller in a cache without the default key. -/
theorem Impl.Ready.lookup {s : Impl} {gen : ArtifactGeneration} (h : s.Ready gen) (i : Nat)
    {r : KernelLookupResult} (hr : s.lookup ({} : KernelCompatibilityKey).finalize {} = r) :
    (lookupImpl missedRequest).traced (exec stubEnv) i s =
      some (lookupEvents i s ({} : KernelCompatibilityKey).finalize r, .ok r, s.lookedUp r) := by
  have hkey : missedRequest.key.wellFormed = true := by
    simpa [missedRequest] using defaultKey_wellFormed
  have hlookup := lookupImpl_traced stubEnv i missedRequest hkey h.free
  have hfin : missedRequest.key.finalize = ({} : KernelCompatibilityKey).finalize :=
    KernelCompatibilityKey.finalize_finalize _
  have hpolicy : missedRequest.policy = {} := rfl
  rw [hfin, hpolicy, hr] at hlookup
  exact hlookup

/-- A caller is its lookup and what follows from the answer. -/
theorem caller_prog : (Operation.acquire callerRequest).prog stubEnv =
    (lookupImpl missedRequest).bind fun decided =>
      (acquireDecided stubEnv missedRequest decided).bind fun res =>
        Prog.ret (answer .lease res) :=
  Prog.bind_assoc _ _ _

theorem collectCandidates_of_empty {s : Impl} (hkeys : s.byKey = ∅) (hops : s.byOperation = ∅)
    (k : KernelCompatibilityKey) : s.collectCandidates k = [] := by
  have hkey : s.byKey.lookup k.ensureFinalized.digest = none := by
    rw [hkeys]
    exact AList.lookup_empty _
  have hop : s.byOperation.lookup k.operation = none := by
    rw [hops]
    exact AList.lookup_empty _
  simp [Impl.collectCandidates, hkey, hop, Impl.emitAll]

/-- What a lookup in an empty cache answers. -/
def emptyMiss : KernelLookupResult :=
  { outcome := .missRequiresBuild, notes := [str "no compatible eligible candidate"] }

theorem lookup_of_empty {s : Impl} (hkeys : s.byKey = ∅) (hops : s.byOperation = ∅)
    (k : KernelCompatibilityKey) (policy : CompatibilityPolicy) : s.lookup k policy = emptyMiss := by
  rw [Impl.lookup, collectCandidates_of_empty hkeys hops]
  rfl

/-- Lookups in empty caches, and sections that are no lookups, are misses. -/
theorem missesAll_append {requests : List KernelLookupRequest} {tr tr' : List (Event Step Impl)}
    (h : MissesAll requests tr) (h' : ∀ e ∈ tr', ∀ k, e.label = .collect k →
      e.before.byKey = ∅ ∧ e.before.byOperation = ∅) : MissesAll requests (tr ++ tr') := by
  intro e he request hrequest k hlabel
  rcases List.mem_append.mp he with hmem | hmem
  · exact h e hmem request hrequest k hlabel
  · obtain ⟨hkeys, hops⟩ := h' e hmem k hlabel
    rw [collectCandidates_of_empty hkeys hops]
    rfl

theorem MissesAll.quiet {requests : List KernelLookupRequest} {tr tr' : List (Event Step Impl)}
    (h : MissesAll requests tr) (h' : ∀ e ∈ tr', ∀ k, e.label ≠ .collect k) :
    MissesAll requests (tr ++ tr') :=
  missesAll_append h fun e he k hcollect => absurd hcollect (h' e he k)

theorem lookupEvents_collect {i : Nat} {s : Impl} {key : KernelCompatibilityKey}
    {r : KernelLookupResult} {e : Event Step Impl} (he : e ∈ lookupEvents i s key r)
    {k : KernelCompatibilityKey} (hlabel : e.label = .collect k) : e.before = s := by
  simp only [lookupEvents, List.mem_cons, List.not_mem_nil, or_false] at he
  rcases he with rfl | rfl | rfl
  · rfl
  · cases hlabel
  · cases hlabel

/-- An empty cache in which two lookups have missed. -/
def missedState : Impl := ((Impl.initial {}).lookedUp emptyMiss).lookedUp emptyMiss

/-- What a caller does after its lookup. -/
def missedProg : Op Answer :=
  (acquireMiss stubEnv missedRequest .missRequiresBuild).bind fun res => Prog.ret (answer .lease res)

/-- Two callers look up an empty cache one after the other; the rest of both is to come. -/
theorem callers_missed : ∃ tr, CallerRuns stubEnv (Impl.initial {}) [callerRequest, callerRequest] tr
      ⟨missedState, [missedProg, missedProg]⟩ ∧ MissesAll [callerRequest, callerRequest] tr := by
  have hready := initial_ready
  have hstart : CallerRuns stubEnv (Impl.initial {}) [callerRequest, callerRequest] []
      ⟨Impl.initial {}, [(Operation.acquire callerRequest).prog stubEnv,
        (Operation.acquire callerRequest).prog stubEnv]⟩ := .refl
  simp only [caller_prog] at hstart
  have hruns₁ := hstart.advance (i := 0) rfl (hready.lookup 0 (lookup_of_empty rfl rfl _ _))
  have hready₁ := hready.lookedUp emptyMiss
  have hruns₂ := hruns₁.advance (i := 1) rfl (hready₁.lookup 1 (lookup_of_empty rfl rfl _ _))
  refine ⟨_, hruns₂, ?_⟩
  refine missesAll_append (missesAll_append (fun e he => by cases he) ?_) ?_
  · intro e he k hlabel
    rw [lookupEvents_collect he hlabel]
    exact ⟨rfl, rfl⟩
  · intro e he k hlabel
    rw [lookupEvents_collect he hlabel]
    exact ⟨rfl, rfl⟩

/-- What a caller does with the result of its build. -/
def leaseBuilt (built : Result ArtifactDescriptor) : Op Answer :=
  (match built with
    | .error e => Prog.ret (.error e)
    | .ok desc => leaseRecord stubEnv missedRequest desc.id (str "built artifact vanished") :
      Op (Result Nat)).bind fun res => Prog.ret (answer .lease res)

theorem missedProg_eq : missedProg = (buildImpl stubEnv missedRequest).bind leaseBuilt := by
  unfold missedProg acquireMiss
  rw [if_pos (show missedRequest.allowMissBuild = true from rfl), Prog.bind_eq, Prog.bind_assoc]
  rfl

/-- Both callers join, the second one in time. -/
theorem callers_joined : ∃ tr s, CallerRuns stubEnv (Impl.initial {}) [callerRequest, callerRequest] tr
      ⟨s, [(buildOwner stubEnv (buildRequestOf stubEnv missedRequest)
        (buildDigest stubEnv missedRequest) 0 0).bind leaseBuilt, (buildWaiter 0).bind leaseBuilt]⟩ ∧
    MissesAll [callerRequest, callerRequest] tr ∧
    s.Flying (buildDigest stubEnv missedRequest) 0 none := by
  obtain ⟨tr, hruns, hmiss⟩ := callers_missed
  obtain ⟨s₁, hjoin₁, howner, hfly₁⟩ := missedState.join_empty stubEnv
    (buildDigest stubEnv missedRequest) rfl rfl rfl rfl rfl
  obtain ⟨s₂, hjoin₂, hwaiter, hfly₂⟩ := hfly₁.join stubEnv
  rw [missedProg_eq] at hruns
  have hruns₁ := hruns.step (i := 0) rfl hjoin₁
  unfold buildDigest at howner hwaiter
  simp only [List.set_cons_zero, howner] at hruns₁
  have hruns₂ := hruns₁.step (i := 1) rfl hjoin₂
  simp only [List.set_cons_succ, List.set_cons_zero, hwaiter] at hruns₂
  refine ⟨_, s₂, hruns₂, ?_, hfly₂⟩
  have hjoins : ∀ (e : Event Step Impl) (d : Sha256Digest), e.label = .join d →
      ∀ e' ∈ [e], ∀ k, e'.label ≠ .collect k := by
    intro e d hlabel e' he' k hcollect
    rw [List.mem_singleton.mp he', hlabel] at hcollect
    cases hcollect
  exact (hmiss.quiet (hjoins _ _ rfl)).quiet (hjoins _ _ rfl)

/-- A caller leases what was built. -/
theorem leaseBuilt_traced (i : Nat) {s : Impl} (desc : ArtifactDescriptor) {p : Nat}
    (hid : s.byId.lookup desc.id = some p) (hfree : s.statsHeld = false)
    (hlease : (s.records p).leasable = true) : ∃ tr lease s',
    (leaseBuilt (.ok desc)).traced (exec stubEnv) i s = some (tr, answer .lease (.ok lease), s') ∧
      (∀ e ∈ tr, ∀ k, e.label ≠ .collect k) ∧ s.SameFences s' ∧ s.SameIndex s' ∧
      s'.statsHeld = false ∧ (s'.records p).leasable = true ∧ (s'.records p).desc = (s.records p).desc := by
  obtain ⟨tr, s', hleased, hlabels, hrw, -⟩ := leaseRecord_traced stubEnv i missedRequest
    (str "built artifact vanished") hid rfl hfree hlease
  have hrun : (leaseRecord stubEnv missedRequest desc.id (str "built artifact vanished")).run
      (exec stubEnv) s = some (.ok s.nextLease, s') := by
    rw [Prog.run_eq_traced i, hleased]
    rfl
  obtain ⟨hnext, hids, hkeys, hops⟩ := hrw.index
  refine ⟨tr, s.nextLease, s', ?_, ?_, leaseRecord_sameFences hrun, ⟨hnext, hids, hkeys, hops⟩, hrw.free,
    ?_, ?_⟩
  · unfold leaseBuilt
    rw [Prog.traced_of_bind]
    exact ⟨tr, _, s', [], hleased, rfl, (List.append_nil tr).symm⟩
  · intro e he k
    rcases hlabels e he with hno | hfind | hgrant
    · cases hno
    · rw [hfind]
      exact Step.noConfusion
    · rw [hgrant]
      exact Step.noConfusion
  · rw [hrw.record]
    exact ArtifactRecord.leased_leasable _ _ hlease
  · rw [hrw.record]
    rfl

/-- The waiter finds the record of the outcome in the index. -/
theorem buildWaiter_found (i : Nat) {s : Impl} {o : Outcome} (hpromise : s.fences 0 = some o)
    (hok : o.succeeded = true) (hfound : s.findBuilt o = .ok o.desc) : ∃ tr,
    (buildWaiter 0).traced (exec stubEnv) i s =
        some (tr, .ok o.desc, { s with tick := s.tick + 2 }) ∧
      ∀ e ∈ tr, ∀ k, e.label ≠ .collect k := by
  have hwaited := buildWaiter_traced stubEnv i hpromise hok
  rw [hfound] at hwaited
  refine ⟨_, hwaited, fun e he k => ?_⟩
  rcases List.mem_pair.mp he with rfl | rfl
  · exact Step.noConfusion
  · exact Step.noConfusion

/-- Both callers have been answered. -/
theorem callers_ended (a b : Answer) : ∀ p ∈ [(Prog.ret a : Op Answer), Prog.ret b],
    ∃ x, p = Prog.ret x := by
  intro p hp
  rcases List.mem_pair.mp hp with rfl | rfl
  · exact ⟨a, rfl⟩
  · exact ⟨b, rfl⟩

/-- Two callers of an empty cache: both miss, the first joins and then the second, and the first builds
for both. -/
theorem one_compile_iff_sample : ∃ tr pool,
    CallerRuns stubEnv (Impl.initial {}) [callerRequest, callerRequest] tr pool ∧
    MissesAll [callerRequest, callerRequest] tr ∧
    (∀ p ∈ pool.threads, ∃ a, p = Prog.ret a) ∧
    (compilesOf ({} : KernelCompatibilityKey).finalize.digest tr = 1 ↔
      ¬ JoinsLate ({} : KernelCompatibilityKey).finalize.digest tr) := by
  obtain ⟨tr, s, hruns, hmiss, hfly⟩ := callers_joined
  -- the owner builds, publishes and leases
  obtain ⟨o, hout, hok, hvalid⟩ : ∃ o, runBuild stubEnv s.tick
      (buildRequestOf stubEnv missedRequest) 0 = .ok o ∧ o.succeeded = true ∧
        (makeRecord 0 o.desc o.bytes).leasable = true := ⟨_, rfl, rfl, rfl⟩
  obtain ⟨tr₁, e, s₁, howned, -, hlabel, -, -, hlabels₁, hpromise₁, ⟨-, hid₁, hdesc₁⟩, hfree₁, hlease₁⟩ :=
    hfly.owner 0 hout hok rfl
  have hsame : o.desc.id = o.id := (runBuild_built hout hok).desc_id
  obtain ⟨tr₂, lease₂, s₂, hleased₂, hlabels₂, hfences, hindex, hfree₂, hlease₂, hdesc₂⟩ :=
    leaseBuilt_traced 0 o.desc (by rw [hsame]; exact hid₁) hfree₁ (hlease₁.trans hvalid)
  have hruns₁ := hruns.advance (i := 0) rfl howned
  have hruns₂ := hruns₁.finish (i := 0) rfl hleased₂
  -- the waiter finds the record and leases it as well
  have hpromise₂ : s₂.fences 0 = some o := by
    rw [hfences.fences]
    exact hpromise₁
  have hids₂ : s₂.byId.lookup o.id = some 0 := by
    rw [hindex.byId]
    exact hid₁
  have hfound : s₂.findBuilt o = .ok o.desc := by
    simp only [Impl.findBuilt, hids₂, hdesc₂, hdesc₁]
  obtain ⟨tr₃, hwaited, hlabels₃⟩ := buildWaiter_found 1 hpromise₂ hok hfound
  obtain ⟨tr₄, lease₄, s₄, hleased₄, hlabels₄, -⟩ := leaseBuilt_traced 1 o.desc
    (s := { s₂ with tick := s₂.tick + 2 }) (by rw [hsame]; exact hids₂) hfree₂ hlease₂
  have hruns₄ := (hruns₂.advance (i := 1) rfl hwaited).finish (i := 1) rfl hleased₄
  have howner : ∀ e' ∈ tr₁ ++ [e], ∀ k, e'.label ≠ .collect k := by
    intro e' he' k hcollect
    rcases List.mem_append.mp he' with hmem | hmem
    · have hplain := hlabels₁ e' hmem
      rw [hcollect] at hplain
      cases hplain
    · obtain rfl := List.mem_singleton.mp hmem
      rw [hlabel] at hcollect
      cases hcollect
  have hmissed := ((hmiss.quiet howner).quiet hlabels₂).quiet hlabels₃ |>.quiet hlabels₄
  have hdone := callers_ended (answer .lease (.ok lease₂)) (answer .lease (.ok lease₄))
  have hrequests : ∀ request ∈ [callerRequest, callerRequest],
      request.key = {} ∧ request.allowMissBuild = true := by
    intro request hmem
    rcases List.mem_pair.mp hmem with rfl | rfl
    · exact ⟨rfl, rfl⟩
    · exact ⟨rfl, rfl⟩
  exact ⟨_, _, hruns₄, hmissed, hdone, one_compile_iff defaultKey_wellFormed (List.cons_ne_nil _ _)
    hrequests initial_ready.flight hruns₄ hmissed hdone⟩

/-- **A caller can compile again what is already built.** Two callers miss in the index of an empty
cache; the first builds, takes its fence out of flight and publishes; then the second looks for a
build in flight, finds none and builds once more. -/
theorem compiled_twice : ∃ tr pool,
    CallerRuns stubEnv (Impl.initial {}) [callerRequest, callerRequest] tr pool ∧
    MissesAll [callerRequest, callerRequest] tr ∧ (∀ p ∈ pool.threads, ∃ a, p = Prog.ret a) ∧
    2 ≤ compilesOf ({} : KernelCompatibilityKey).finalize.digest tr := by
  obtain ⟨tr, hruns, hmiss⟩ := callers_missed
  have hready : missedState.Ready 0 := (initial_ready.lookedUp emptyMiss).lookedUp emptyMiss
  obtain ⟨o₁, tr₁, lease₁, s₁, hbuild₁, hcompiles₁, hlabels₁, -, hbuilt₁⟩ :=
    hready.build (by decide) 0 .missRequiresBuild
  obtain ⟨o₂, tr₂, lease₂, s₂, hbuild₂, hcompiles₂, hlabels₂, -⟩ :=
    hbuilt₁.ready.build (by decide) 1 .missRequiresBuild
  have hruns₂ := (hruns.advance (i := 0) rfl hbuild₁).advance (i := 1) rfl hbuild₂
  refine ⟨_, _, hruns₂, ?_, ?_, ?_⟩
  · exact (hmiss.quiet fun e he => (hlabels₁ e he).not_collect).quiet
      fun e he => (hlabels₂ e he).not_collect
  · exact callers_ended (answer .lease (.ok lease₁)) (answer .lease (.ok lease₂))
  · simp only [compilesOf, List.countP_append] at hcompiles₁ hcompiles₂ ⊢
    omega

end KernelCache
