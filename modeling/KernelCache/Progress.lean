/-
# KernelCache.Progress — what an operation can be waiting for.

The threads of a cache wait in two ways: for `stats_mtx_`, which is free unless a store write has failed,
and for the promise of a fence.  A debt runs along with every thread: it stands for the promise the
thread has to keep, from the join that opened the fence to the fulfilment, or waits for another's.  In
every run each open fence has its debtor (`Debts`), a debtor never waits, and only an exception of the
backend ends an operation in debt.  So the chains of waiting threads have length one, and there is no
cycle among them (`cache_progress`).
-/
import KernelCache.Foundation.Scripts
import KernelCache.SlotRelease
import KernelCache.Agreement

namespace KernelCache

open Foundation (Bytes Prog Runs Pool Event phases)
open Foundation.Prog (sect perform Scripted)

/-! ## Debts -/

/-- The promise a thread has to keep, or waits for. -/
inductive Debt where
  | clear
  /-- Attached to a fence. -/
  | waits (fence : Nat)
  /-- The owner of a fence, before `run_build`. -/
  | builds (fence : Nat)
  /-- The owner of a fence, after `run_build`. -/
  | owes (fence : Nat)
  /-- The backend has thrown. -/
  | threw (fence : Nat)

namespace Debt

/-- The debt after joining. -/
def joined : Impl.Joined → Debt
  | .owner fence _ => builds fence
  | .waiter fence => waits fence

/-- The debt after `run_build`. -/
def ran (fence : Nat) : Result Outcome → Debt
  | .error _ => threw fence
  | .ok _ => owes fence

/-- What a section does to the debt of the thread that takes it. -/
def next (env : Env) (d : Debt) (l : Step) (s : Impl) : Debt :=
  match d, l with
  | clear, .join digest => joined (s.join digest).1
  | waits _, .await _ => clear
  | builds fence, .runBuild request gen => ran fence (runBuild env s.tick request gen)
  | owes _, .fulfil _ _ => clear
  | d, _ => d

/-- The sections a thread may come to with a debt. -/
def ok (d : Debt) (l : Step) : Prop :=
  match l with
  | .join _ | .outOfRounds => d = clear
  | .await fence => d = waits fence
  | .runBuild _ _ => ∃ fence, d = builds fence
  | .fulfil fence _ => d = owes fence
  | _ => True

/-- The fence whose promise the thread has to keep. -/
def fence : Debt → Option Nat
  | builds fence | owes fence | threw fence => some fence
  | _ => none

/-- How an operation may end: free of debt, or by an exception of the backend. -/
def settled (a : Answer) (d : Debt) : Prop :=
  d = clear ∨ ∃ fence, d = threw fence ∧ a = .failed .exception

end Debt

section Texts

variable {env : Env} {α : Type}

/-- Programs whose text follows the debts. -/
abbrev Owing (env : Env) (Q : α → Debt → Prop) (p : Op α) (d : Debt) : Prop :=
  p.Scripted Debt.ok (Debt.next env) Q d

/-- Programs that begin and end free of debt. -/
abbrev Debtless (env : Env) (α : Type) (Q : α → Prop) (p : Op α) : Prop :=
  Owing env (fun a d => Q a ∧ d = .clear) p .clear

/-- The stages without debts. -/
def Stage.debtless : Stage → Prop
  | .fence | .build => False
  | _ => True

theorem walk_debtless : Walk (Debtless env) Stage.debtless where
  ret ha := ⟨ha, rfl⟩
  bind := by
    intro α β Q Q' p g hp hg
    refine Scripted.bind hp ?_
    rintro a d ⟨hQ, rfl⟩
    exact hg a hQ
  sect := by
    intro α Q l read hstage _ hQ
    cases l with
    | join digest => exact hstage.elim
    | fulfil fence o => exact hstage.elim
    | await fence => exact hstage.elim
    | runBuild request gen => exact hstage.elim
    | outOfRounds => exact Scripted.sect rfl fun s => ⟨hQ s, rfl⟩
    | _ => exact Scripted.sect trivial fun s => ⟨hQ s, rfl⟩
  buildOver _ hbuild := hbuild.elim

/-- A section that neither joins nor keeps a promise. -/
theorem owing_perform {l : Step} {d : Debt} (hok : d.ok l) (hnext : ∀ s, d.next env l s = d) :
    Owing env (fun _ d' => d' = d) (perform l) d :=
  Scripted.sect hok hnext

/-! ### Builds -/

theorem runBuildOp_owing (request : KernelLookupRequest) (gen : ArtifactGeneration) (fence : Nat) :
    Owing env (fun res d => match res with
      | .error e => e = .exception ∧ d = .threw fence
      | .ok _ => d = .owes fence) (runBuildOp env request gen) (.builds fence) := by
  unfold runBuildOp
  refine Scripted.bind (Q := fun res d => d = Debt.ran fence res ∧ ∀ e, res = .error e → e = .exception)
    (Scripted.sect ⟨fence, rfl⟩ fun s => ⟨rfl, fun e he => runBuild_error he⟩) ?_
  rintro res _ ⟨rfl, hthrown⟩
  cases res with
  | error e => exact ⟨hthrown e rfl, rfl⟩
  | ok o =>
    dsimp only
    split
    · refine Scripted.bind (owing_perform trivial fun _ => rfl) ?_
      rintro _ _ rfl
      refine Scripted.bind (owing_perform trivial fun _ => rfl) ?_
      rintro _ _ rfl
      rfl
    · rfl

theorem persistOp_debtless (o : Outcome) : Debtless env _ Walk.Any (persistOp env o) := by
  have w : Walk (Debtless env) Stage.debtless := walk_debtless
  unfold persistOp
  refine w.bind (Q := Walk.Any) (Scripted.sect trivial fun _ => ⟨trivial, rfl⟩) fun res _ => ?_
  cases res with
  | ok _ => exact Scripted.sect trivial fun _ => ⟨trivial, rfl⟩
  | error e =>
    refine w.bind (Q := Walk.Any) (Scripted.sect trivial fun _ => ⟨trivial, rfl⟩) fun _ _ => ?_
    exact w.perform trivial trivial

theorem publishOp_debtless (fence : Nat) (o : Outcome) :
    Debtless env _ Walk.Any (publishOp env fence o) := by
  have w : Walk (Debtless env) Stage.debtless := walk_debtless
  unfold publishOp
  refine w.bind (w.perform trivial trivial) fun _ _ => ?_
  refine w.bind (Q := Walk.Any) (Scripted.sect trivial fun _ => ⟨trivial, rfl⟩) fun newRecord _ => ?_
  split
  · exact w.bind (persistOp_debtless o) fun _ _ => w.ret trivial
  · exact w.ret trivial

/-- An owner with an outcome keeps its promise. -/
theorem finishBuild_owing (digest : Sha256Digest) (fence : Nat) (o : Outcome) :
    Owing env (fun _ d => d = .clear) (finishBuild env digest fence o) (.owes fence) := by
  have w : Walk (Debtless env) Stage.debtless := walk_debtless
  unfold finishBuild
  refine Scripted.bind (owing_perform trivial fun _ => rfl) ?_
  rintro _ _ rfl
  refine Scripted.bind (Q := fun _ d => d = .clear) (Scripted.sect rfl fun _ => rfl) ?_
  rintro _ _ rfl
  refine Scripted.bind (Q := fun _ d => d = .clear) (Scripted.sect trivial fun _ => rfl) ?_
  rintro _ _ rfl
  split
  · refine Scripted.bind (owing_perform trivial fun _ => rfl) ?_
    rintro _ _ rfl
    refine Scripted.bind (owing_perform trivial fun _ => rfl) ?_
    rintro _ _ rfl
    rfl
  · exact (publishOp_debtless fence o).mono fun _ _ h => h.2

theorem buildWaiter_owing (fence : Nat) :
    Owing env (fun _ d => d = .clear) (buildWaiter fence) (.waits fence) := by
  unfold buildWaiter
  refine Scripted.bind (Q := fun _ d => d = .clear) (Scripted.sect rfl fun _ => rfl) ?_
  rintro o _ rfl
  split
  · rfl
  · exact Scripted.sect trivial fun _ => rfl

/-- How `build_impl` may end. -/
def Debt.over (res : Result α) (d : Debt) : Prop :=
  d = .clear ∨ ∃ fence, d = .threw fence ∧ res = .error .exception

theorem buildImpl_owing (request : KernelLookupRequest) :
    Owing env (fun res d => d.over res) (buildImpl env request) .clear := by
  unfold buildImpl
  refine Scripted.bind (Q := fun joined d => d = Debt.joined joined)
    (Scripted.sect rfl fun _ => rfl) ?_
  rintro joined _ rfl
  cases joined with
  | waiter fence => exact (buildWaiter_owing fence).mono fun _ _ h => .inl h
  | owner fence gen =>
    show Owing env _ (buildOwner env _ _ fence gen) (.builds fence)
    unfold buildOwner
    refine Scripted.bind (runBuildOp_owing _ gen fence) ?_
    intro res d h
    cases res with
    | error e =>
      obtain ⟨rfl, rfl⟩ := h
      exact .inr ⟨fence, rfl, rfl⟩
    | ok o =>
      obtain rfl := h
      exact (finishBuild_owing _ fence o).mono fun _ _ h => .inl h

/-! ### All operations -/

theorem pieces_debtless : Walk.Pieces env (Debtless env) where
  evict := walk_debtless.evictImpl trivial trivial
  load := walk_debtless.loadOp trivial
    (walk_debtless.promotes trivial trivial trivial (walk_debtless.evictImpl trivial trivial))
  unload := walk_debtless.unloadOp trivial trivial
  validate := walk_debtless.validateOp trivial trivial
  put := walk_debtless.putOp trivial
  release := walk_debtless.releaseLease trivial
  recover := walk_debtless.recoverImpl trivial trivial

theorem leaseRecord_debtless (request : KernelLookupRequest) (id : ArtifactId) (vanished : Str) :
    Debtless env _ Walk.Any (leaseRecord env request id vanished) :=
  walk_debtless.leaseRecord trivial trivial
    (walk_debtless.promotes trivial trivial trivial (walk_debtless.evictImpl trivial trivial))
    request id vanished

theorem acquireImpl_owing (request : KernelLookupRequest) :
    Owing env (fun res d => d.over res) (acquireImpl env request) .clear := by
  unfold acquireImpl
  refine Scripted.bind (walk_debtless.lookupImpl trivial _) ?_
  rintro decided _ ⟨-, rfl⟩
  cases decided with
  | error e => exact .inl rfl
  | ok r =>
    simp only [acquireDecided]
    split
    · exact (leaseRecord_debtless _ _ _).mono fun _ _ h => .inl h.2
    · unfold acquireMiss
      split
      · refine Scripted.bind (buildImpl_owing _) ?_
        rintro built d hover
        cases built with
        | error e =>
          rcases hover with rfl | ⟨fence, rfl, heq⟩
          · exact .inl rfl
          · cases heq
            exact .inr ⟨fence, rfl, rfl⟩
        | ok desc =>
          rcases hover with rfl | ⟨fence, -, heq⟩
          · exact (leaseRecord_debtless _ _ _).mono fun _ _ h => .inl h.2
          · cases heq
      · exact .inl rfl

/-- **Every operation settles its debts**, unless the backend throws. -/
theorem operation_owing (op : Operation) :
    Owing env (fun a d => d.settled a) (op.prog env) .clear := by
  have hanswer : ∀ {β : Type} {wrap : β → Answer} {res : Result β} {d : Debt}, d.over res →
      d.settled (answer wrap res) := by
    rintro β wrap res d (rfl | ⟨fence, rfl, rfl⟩)
    · exact .inl rfl
    · exact .inr ⟨fence, rfl, rfl⟩
  by_cases hop : op.builds = true
  · cases op with
    | build request => exact Scripted.bind (buildImpl_owing request) fun res d h => hanswer h
    | acquire request => exact Scripted.bind (acquireImpl_owing request) fun res d h => hanswer h
    | _ => cases hop
  · refine Scripted.mono (walk_debtless.operation_of_not_builds trivial pieces_debtless
      (by simpa using hop)) fun _ _ h => .inl h.2

end Texts

/-! ## Every open fence has a debtor -/

/-- The event opened the fence: its thread joined and became the owner. -/
def Opens (e : Event Step Impl) (fence : Nat) : Prop :=
  ∃ digest gen, e.label = .join digest ∧ (e.before.join digest).1 = .owner fence gen

/-- The threads and the fences of a run. -/
structure Debts (env : Env) (tr : List (Event Step Impl)) (P : Nat → Debt) (s : Impl) : Prop where
  attached : ∀ digest fence, s.inFlight.lookup digest = some fence → fence < s.nextFence
  awaited : ∀ i fence, P i = .waits fence → fence < s.nextFence
  unkept : ∀ fence < s.nextFence, s.fences fence = none → ∃ i, (P i).fence = some fence
  opened : ∀ i fence, (P i).fence = some fence → ∃ e ∈ tr, e.thread = i ∧ Opens e fence
  thrown : ∀ i fence, P i = .threw fence →
    ∃ e ∈ tr, e.thread = i ∧ e.label.Throws env e.before

section Steps

variable {env : Env} {tr : List (Event Step Impl)} {P : Nat → Debt} {s s' : Impl}

theorem debts_initial (env : Env) (store : FilePersistenceStore) :
    Debts env [] (fun _ => .clear) (Impl.initial store) where
  attached _ _ h := by cases h
  awaited _ _ h := by cases h
  unkept fence h := absurd h (Nat.not_lt_zero fence)
  opened _ _ h := by cases h
  thrown _ _ h := by cases h

/-- One section.  What is left to show: the table of fences, the promises, and the thread that moved. -/
theorem Debts.move {e : Event Step Impl} {d : Debt} (h : Debts env tr P s)
    (hattached : ∀ digest fence, s'.inFlight.lookup digest = some fence → fence < s'.nextFence)
    (hnext : s.nextFence ≤ s'.nextFence)
    (hwaits : ∀ fence, d = .waits fence → fence < s'.nextFence)
    (hunkept : ∀ fence < s'.nextFence, s'.fences fence = none → d.fence = some fence ∨
      ((P e.thread).fence ≠ some fence ∧ fence < s.nextFence ∧ s.fences fence = none))
    (hopened : ∀ fence, d.fence = some fence → (P e.thread).fence = some fence ∨ Opens e fence)
    (hthrown : ∀ fence, d = .threw fence →
      P e.thread = .threw fence ∨ e.label.Throws env e.before) :
    Debts env (tr ++ [e]) (Function.update P e.thread d) s' := by
  refine ⟨hattached, ?_, ?_, ?_, ?_⟩
  · intro j fence hj
    by_cases hij : j = e.thread
    · subst hij
      rw [Function.update_self] at hj
      exact hwaits fence hj
    · rw [Function.update_of_ne hij] at hj
      exact Nat.lt_of_lt_of_le (h.awaited j fence hj) hnext
  · intro fence hlt hopen
    rcases hunkept fence hlt hopen with hd | ⟨hother, hlt', hopen'⟩
    · exact ⟨e.thread, by rw [Function.update_self]; exact hd⟩
    · obtain ⟨j, hj⟩ := h.unkept fence hlt' hopen'
      have hij : j ≠ e.thread := fun heq => hother (heq ▸ hj)
      exact ⟨j, by rw [Function.update_of_ne hij]; exact hj⟩
  · intro j fence hj
    by_cases hij : j = e.thread
    · subst hij
      rw [Function.update_self] at hj
      rcases hopened fence hj with hold | hnew
      · obtain ⟨e', he', hthread, hopens⟩ := h.opened _ fence hold
        exact ⟨e', List.mem_append_left _ he', hthread, hopens⟩
      · exact ⟨e, by simp, rfl, hnew⟩
    · rw [Function.update_of_ne hij] at hj
      obtain ⟨e', he', hthread, hopens⟩ := h.opened j fence hj
      exact ⟨e', List.mem_append_left _ he', hthread, hopens⟩
  · intro j fence hj
    by_cases hij : j = e.thread
    · subst hij
      rw [Function.update_self] at hj
      rcases hthrown fence hj with hold | hnew
      · obtain ⟨e', he', hthread, hthrows⟩ := h.thrown _ fence hold
        exact ⟨e', List.mem_append_left _ he', hthread, hthrows⟩
      · exact ⟨e, by simp, rfl, hnew⟩
    · rw [Function.update_of_ne hij] at hj
      obtain ⟨e', he', hthread, hthrows⟩ := h.thrown j fence hj
      exact ⟨e', List.mem_append_left _ he', hthread, hthrows⟩

/-- A section that neither opens a fence nor keeps a promise. -/
theorem Debts.still {e : Event Step Impl} {d : Debt} (h : Debts env tr P s)
    (hattached : ∀ digest fence, s'.inFlight.lookup digest = some fence →
      s.inFlight.lookup digest = some fence)
    (hfences : s'.fences = s.fences) (hnext : s'.nextFence = s.nextFence)
    (hfence : d.fence = (P e.thread).fence)
    (hwaits : ∀ fence, d = .waits fence → fence < s.nextFence)
    (hthrown : ∀ fence, d = .threw fence →
      P e.thread = .threw fence ∨ e.label.Throws env e.before) :
    Debts env (tr ++ [e]) (Function.update P e.thread d) s' := by
  refine h.move ?_ hnext.ge ?_ ?_ (fun fence hd => .inl (hfence ▸ hd)) hthrown
  · intro digest fence hlook
    rw [hnext]
    exact h.attached digest fence (hattached digest fence hlook)
  · intro fence hd
    rw [hnext]
    exact hwaits fence hd
  · intro fence hlt hopen
    by_cases hd : d.fence = some fence
    · exact .inl hd
    · exact .inr ⟨fun hheld => hd (hfence.trans hheld), hnext ▸ hlt, hfences ▸ hopen⟩

/-- The sections outside the single-flight protocol leave the fences alone. -/
theorem effect_sameFences (env : Env) (s : Impl) {l : Step} (hl : l.isFence = false) :
    s.SameFences (l.effect env s) := by
  by_cases hins : l.inserts = true
  · cases l with
    | publish fence o =>
      simp only [Step.effect, Impl.publish]
      cases s.byId.lookup o.id with
      | some p => exact .refl s
      | none => exact ⟨rfl, rfl, rfl, rfl⟩
    | put desc bytes =>
      obtain ⟨st, hst⟩ := Step.effect_inserts env s (l := .put desc bytes) rfl trivial
      rw [hst]
      exact (s.insertAll_frame _).1.trans ⟨rfl, rfl, rfl, rfl⟩
    | recoverInsert artifacts =>
      obtain ⟨st, hst⟩ := Impl.recoverInsert_eq env s artifacts
      simp only [Step.effect, hst]
      exact (s.insertAll_frame _).1.trans ⟨rfl, rfl, rfl, rfl⟩
    | _ => cases hins
  · exact (l.effect_frame env s (by simpa using hins)).2.1 hl

/-- **The debts, one section.** -/
theorem Debts.step {i : Nat} {l : Step} (h : Debts env tr P s) (hok : (P i).ok l)
    (hstep : exec env l s = some s') :
    Debts env (tr ++ [⟨i, l, s, s'⟩]) (Function.update P i ((P i).next env l s)) s' := by
  obtain ⟨hready, rfl⟩ := exec_eq_some.mp hstep
  -- a section that only the thread itself notices
  have hquiet : l.isFence = false → ∀ d : Debt, d.fence = (P i).fence →
      (∀ fence, d = .waits fence → P i = .waits fence) →
      (∀ fence, d = .threw fence → P i = .threw fence ∨ l.Throws env s) →
      Debts env (tr ++ [⟨i, l, s, { l.effect env s with tick := s.tick + 1 }⟩])
        (Function.update P i d) { l.effect env s with tick := s.tick + 1 } := by
    intro hl d hfence hwaits hthrown
    have hsame := effect_sameFences env s hl
    refine h.still ?_ hsame.fences hsame.nextFence hfence
      (fun fence hd => h.awaited i fence (hwaits fence hd)) hthrown
    intro digest fence hlook
    rw [← hsame.inFlight]
    exact hlook
  cases l with
  | join digest =>
    have hd : P i = .clear := hok
    rw [hd]
    cases hlook : s.inFlight.lookup digest with
    | some fence =>
      have hnext : Debt.next env .clear (.join digest) s = .waits fence := by
        simp only [Debt.next, Impl.join, hlook, Debt.joined]
      rw [hnext]
      refine h.still ?_ ?_ ?_ (by rw [hd]; rfl) ?_ (fun _ hd' => by cases hd')
      · intro digest' fence' hlook'
        simpa only [Step.effect, Impl.join, hlook, Impl.bump] using hlook'
      · simp only [Step.effect, Impl.join, hlook, Impl.bump]
      · simp only [Step.effect, Impl.join, hlook, Impl.bump]
      · rintro fence' ⟨⟩
        exact h.attached digest fence hlook
    | none =>
      have hnext : Debt.next env .clear (.join digest) s = .builds s.nextFence := by
        simp only [Debt.next, Impl.join, hlook, Debt.joined]
      have heffect : Step.effect env s (.join digest) = (s.join digest).2 := rfl
      rw [hnext, heffect]
      simp only [Impl.join, hlook]
      refine h.move ?_ (Nat.le_succ _) (fun _ hd' => by cases hd') ?_ ?_
        (fun _ hd' => by cases hd')
      · intro digest' fence' hlook'
        show fence' < s.nextFence + 1
        by_cases hdig : digest' = digest
        · subst hdig
          have := (AList.lookup_insert s.inFlight).symm.trans hlook'
          cases this
          exact Nat.lt_succ_self _
        · have := (AList.lookup_insert_ne hdig).symm.trans hlook'
          exact Nat.lt_succ_of_lt (h.attached digest' fence' this)
      · intro fence' hlt hopen
        by_cases hnew : fence' = s.nextFence
        · subst hnew
          exact .inl rfl
        · have hold : fence' < s.nextFence + 1 := hlt
          have hfree : (P i).fence ≠ some fence' := by
            rw [hd]
            intro hfence
            cases hfence
          exact .inr ⟨hfree, by omega, hopen⟩
      · rintro fence' hfence'
        cases hfence'
        exact .inr ⟨digest, s.nextGeneration, rfl, by simp only [Impl.join, hlook]⟩
  | fulfil fence o =>
    have hd : P i = .owes fence := hok
    have hnext : (P i).next env (.fulfil fence o) s = .clear := by rw [hd]; rfl
    rw [hnext]
    refine h.move ?_ ?_ (fun _ hd' => by cases hd') ?_ (fun _ hd' => by cases hd')
      (fun _ hd' => by cases hd')
    · intro digest fence' hlook
      have := h.attached digest fence' (by
        simp only [Step.effect, Impl.fulfil] at hlook
        split at hlook <;> exact hlook)
      simp only [Step.effect, Impl.fulfil]
      split <;> exact this
    · simp only [Step.effect, Impl.fulfil]
      split <;> exact le_rfl
    · intro fence' hlt hopen
      refine .inr ?_
      simp only [Step.effect, Impl.fulfil] at hlt hopen
      cases hkept : s.fences fence with
      | some o' =>
        rw [hkept] at hlt hopen
        refine ⟨?_, hlt, hopen⟩
        rw [hd]
        rintro ⟨⟩
        rw [hkept] at hopen
        cases hopen
      | none =>
        rw [hkept] at hlt hopen
        by_cases hsame : fence' = fence
        · subst hsame
          simp at hopen
        · refine ⟨?_, hlt, ?_⟩
          · rw [hd]
            rintro ⟨⟩
            exact hsame rfl
          · simpa only [Function.update_of_ne hsame] using hopen
  | eraseFence fence digest =>
    have hnext : (P i).next env (.eraseFence fence digest) s = P i := by cases P i <;> rfl
    rw [hnext]
    refine h.still ?_ ?_ ?_ rfl (fun fence' hd => h.awaited i fence' hd) fun _ hd => .inl hd
    · intro digest' fence' hlook
      simp only [Step.effect, Impl.eraseFence] at hlook
      split at hlook
      · by_cases hdig : digest' = digest
        · subst hdig
          rw [AList.lookup_erase] at hlook
          cases hlook
        · rwa [AList.lookup_erase_ne hdig] at hlook
      · exact hlook
    · simp only [Step.effect, Impl.eraseFence]
      split <;> rfl
    · simp only [Step.effect, Impl.eraseFence]
      split <;> rfl
  | runBuild request gen =>
    obtain ⟨fence, hd⟩ : ∃ fence, P i = .builds fence := hok
    rw [hd]
    show Debts env _ (Function.update P i (Debt.ran fence (runBuild env s.tick request gen))) _
    cases hrun : runBuild env s.tick request gen with
    | error e =>
      have hthrows : env.BuildThrows s.tick request := runBuild_error_iff.mp ⟨e, hrun⟩
      exact hquiet rfl (.threw fence) (by rw [hd]; rfl) (fun _ hd' => by cases hd')
        fun _ _ => .inr hthrows
    | ok o =>
      exact hquiet rfl (.owes fence) (by rw [hd]; rfl) (fun _ hd' => by cases hd')
        fun _ hd' => by cases hd'
  | await fence =>
    have hd : P i = .waits fence := hok
    have hnext : (P i).next env (.await fence) s = .clear := by rw [hd]; rfl
    rw [hnext]
    exact hquiet rfl .clear (by rw [hd]; rfl) (fun _ hd' => by cases hd') fun _ hd' => by cases hd'
  | _ =>
    refine hquiet rfl _ ?_ ?_ ?_
    all_goals
      cases P i with
      | _ => first | rfl | exact fun _ hd => hd | exact fun _ hd => .inl hd

end Steps

/-! ## What a thread can be waiting for -/

section Waiting

variable {env : Env} {store : FilePersistenceStore} {tr : List (Event Step Impl)}
  {pool : Pool Step Impl Answer}

/-- `stats_mtx_` is free at the end of a run in which no store write has failed. -/
theorem runs_lockFree (h : CacheRuns env store tr pool)
    (hwrites : ∀ e ∈ tr, e.label ≠ .persistFailed) : pool.shared.statsHeld = false := by
  refine (Runs.invariant (I := fun s => s.statsHeld = false) rfl h fun e he hfree => ?_).2
  refine exec_keepsLockFree (h.event_step e he) ?_ hfree
  cases hl : e.label with
  | persistFailed => exact absurd hl (hwrites e he)
  | _ => rfl

/-- With the lock free, a section waits for a promise or for the end of a loop. -/
theorem ready_of_lockFree {s : Impl} (hfree : s.statsHeld = false) (l : Step) :
    l.ready s = true ∨ l = .outOfRounds ∨ ∃ fence, l = .await fence ∧ s.fences fence = none := by
  cases l with
  | await fence =>
    cases hkept : s.fences fence with
    | some o => exact .inl (by simp only [Step.ready, hkept, Option.isSome_some])
    | none => exact .inr (.inr ⟨fence, rfl, hkept⟩)
  | outOfRounds => exact .inr (.inl rfl)
  | _ => exact .inl (by simp [Step.ready, hfree])

/-- A thread with a promise to keep can take its next section. -/
theorem Debt.ready {d : Debt} {fence : Nat} {s : Impl} {l : Step} (hd : d.fence = some fence)
    (hok : d.ok l) (hfree : s.statsHeld = false) : l.ready s = true := by
  rcases ready_of_lockFree hfree l with hready | rfl | ⟨fence', rfl, -⟩
  · exact hready
  · obtain rfl : d = .clear := hok
    cases hd
  · obtain rfl : d = .waits fence' := hok
    cases hd

/-- Where the thread is that opened a fence and has not kept its promise. -/
inductive Overdue (env : Env) (tr : List (Event Step Impl)) (pool : Pool Step Impl Answer)
    (thread : Nat) : Prop
  /-- It can take its next section. -/
  | moves {l : Step} {k : Impl → Op Answer} (hthread : pool.threads[thread]? = some (.act l k))
      (hready : l.ready pool.shared = true)
  /-- An exception of the backend has ended its operation. -/
  | thrown {e : Event Step Impl} (hthread : pool.threads[thread]? = some (.ret (.failed .exception)))
      (he : e ∈ tr) (hits : e.thread = thread) (hthrows : e.label.Throws env e.before)

/-- **The fences and their debtors, every run.** -/
theorem runs_debts (h : CacheRuns env store tr pool) :
    Debts env tr (phases (Debt.next env) (fun _ => .clear) tr) pool.shared := by
  refine Runs.scripted_history (Q := Debt.settled) ?_ (debts_initial env store)
    (fun tr P i l s s' hJ hok hs => hJ.step hok hs) h
  rintro p ⟨op, rfl⟩
  exact operation_owing op

/-- The debtor of an open fence is a thread that can move, or that an exception has ended. -/
theorem overdue_of_unkept (h : CacheRuns env store tr pool) (hfree : pool.shared.statsHeld = false)
    {fence : Nat} (hlt : fence < pool.shared.nextFence) (hopen : pool.shared.fences fence = none) :
    ∃ e ∈ tr, Opens e fence ∧ Overdue env tr pool e.thread := by
  have hdebts := runs_debts h
  obtain ⟨j, hj⟩ := hdebts.unkept fence hlt hopen
  obtain ⟨e, he, rfl, hopens⟩ := hdebts.opened j fence hj
  refine ⟨e, he, hopens, ?_⟩
  have hdebtor : phases (Debt.next env) (fun _ => .clear) tr e.thread ≠ .clear := by
    intro hclear
    rw [hclear] at hj
    cases hj
  obtain ⟨q, hq⟩ := h.thread_of_phase hdebtor
  have htext : q.Scripted Debt.ok (Debt.next env) Debt.settled _ := h.scripted (fun p hp => by
    obtain ⟨op, rfl⟩ := hp
    exact operation_owing op) hq
  cases q with
  | act l k => exact .moves hq (Debt.ready hj htext.1 hfree)
  | ret a =>
    rcases htext with hclear | ⟨fence', hthrew, rfl⟩
    · rw [hclear] at hj
      cases hj
    · obtain ⟨e', he', hthread, hthrows⟩ := hdebts.thrown _ fence' hthrew
      exact .thrown hq he' hthread hthrows

/-- **What an operation can be waiting for.** In every run in which no store write has failed, each
unfinished operation can take its next section, or its budget loop has used up its rounds, or it is
attached to a build of another thread; and that thread can take ITS next section, unless an exception of
the backend has ended it without the promise being kept. -/
theorem cache_progress (h : CacheRuns env store tr pool)
    (hwrites : ∀ e ∈ tr, e.label ≠ .persistFailed) {i : Nat} {l : Step} {k : Impl → Op Answer}
    (hi : pool.threads[i]? = some (.act l k)) :
    l.ready pool.shared = true ∨ l = .outOfRounds ∨
      ∃ fence, l = .await fence ∧ ∃ e ∈ tr, Opens e fence ∧ Overdue env tr pool e.thread := by
  have hfree := runs_lockFree h hwrites
  rcases ready_of_lockFree hfree l with hready | hrounds | ⟨fence, rfl, hopen⟩
  · exact .inl hready
  · exact .inr (.inl hrounds)
  · refine .inr (.inr ⟨fence, rfl, overdue_of_unkept h hfree ?_ hopen⟩)
    have htext : (Prog.act (.await fence) k).Scripted Debt.ok (Debt.next env) Debt.settled _ :=
      h.scripted (fun p hp => by
        obtain ⟨op, rfl⟩ := hp
        exact operation_owing op) hi
    exact (runs_debts h).awaited i fence htext.1

/-- Two callers build the default key: the second waits for the first, which can go on. -/
theorem cache_progress_attached : ∃ tr pool k, CacheRuns stubEnv {} tr pool ∧
    (∀ e ∈ tr, e.label ≠ .persistFailed) ∧ pool.threads[1]? = some (.act (.await 0) k) ∧
    exec stubEnv (.await 0) pool.shared = none ∧
    ∃ e ∈ tr, Opens e 0 ∧ Overdue stubEnv tr pool e.thread := by
  have hstart : CacheRuns stubEnv {} [] ⟨Impl.initial {}, [(Operation.build {}).prog stubEnv,
      (Operation.build {}).prog stubEnv]⟩ := (Runs.refl.spawn ⟨_, rfl⟩).spawn ⟨_, rfl⟩
  obtain ⟨s₁, hjoin₁, -, hfly₁⟩ := initial_join stubEnv (buildDigest stubEnv {})
  obtain ⟨s₂, hjoin₂, hwaiter, hfly₂⟩ := hfly₁.join stubEnv
  have hruns := (hstart.step (i := 0) rfl hjoin₁).step (i := 1) rfl hjoin₂
  unfold buildDigest at hwaiter
  simp only [List.set_cons_succ, List.set_cons_zero, hwaiter] at hruns
  have hwrites : ∀ e ∈ [(⟨0, .join (buildDigest stubEnv {}), Impl.initial {}, s₁⟩ : Event Step Impl),
      ⟨1, .join (buildDigest stubEnv {}), s₁, s₂⟩], e.label ≠ .persistFailed := by
    intro e he
    simp only [List.mem_cons, List.not_mem_nil, or_false] at he
    rcases he with rfl | rfl <;> exact Step.noConfusion
  have hopen : (Step.await 0).ready s₂ = false := by simp [Step.ready, hfly₂.promise]
  refine ⟨_, _, _, hruns, hwrites, rfl, if_neg (by simp [hopen]), ?_⟩
  rcases cache_progress hruns hwrites (i := 1) rfl with hready | hrounds | ⟨fence, hawait, hdebtor⟩
  · rw [hopen] at hready
    cases hready
  · cases hrounds
  · cases hawait
    exact hdebtor

end Waiting

end KernelCache
