/-
# KernelCache.Agreement — what the callers of one build return.

A waiter learns the outcome from the promise of the fence and then reads the record out of the index.
The owner fulfils the promise BEFORE it publishes the record, so a waiter that is quick enough finds
nothing there.  When the read comes after the publication, the id was free, and nobody validates the
record again or evicts it from host memory in between, every caller of the flight returns the owner's
descriptor (`waiters_agree`).
-/
import KernelCache.SingleFlight
import KernelCache.Sequential

namespace KernelCache

open Foundation (Bytes Prog Runs Pool Event)
open Foundation.Prog (sect perform)

/-! ## Descriptors -/

/-- The section does not rewrite the descriptor of record `p`: it does not validate it, and does not
evict it from host memory. -/
def Step.keepsDescriptor (p : Nat) (s : Impl) : Step → Prop
  | .validateCommit q _ => q ≠ p
  | .evictCommit q => q = p → (s.records p).tier ≠ .hostResident
  | _ => True

theorem ArtifactRecord.Updates.desc_eq {p : Nat} {l : Step} {s : Impl} {r' : ArtifactRecord}
    (h : Updates p (s.records p) l r') (hl : l.keepsDescriptor p s) :
    r'.desc = (s.records p).desc := by
  cases h with
  | validatedBy res => exact absurd rfl hl
  | evictCommit =>
    have htier := hl rfl
    unfold ArtifactRecord.evictCommit
    split
    · rfl
    · rename_i hhost
      exact absurd hhost htier
    · rfl
  | _ => rfl

/-- What a publication leaves for later readers. -/
def Impl.Holds (s : Impl) (o : Outcome) (p : Nat) : Prop :=
  p < s.nextRecord ∧ s.byId.lookup o.id = some p ∧ (s.records p).desc = o.desc

theorem exec_holds {env : Env} {l : Step} {s s' : Impl} {o : Outcome} {p : Nat}
    (h : exec env l s = some s') (hl : l.Proper) (hkeeps : l.keepsDescriptor p s)
    (hs : s.Holds o p) : s'.Holds o p := by
  obtain ⟨hlt, hbound, hdesc⟩ := hs
  have hext := exec_extends h hl
  refine ⟨lt_of_lt_of_le hlt hext.next_le, hext.keeps _ _ hbound, ?_⟩
  rcases exec_records h hl hlt with heq | hupd
  · rw [heq]
    exact hdesc
  · rw [hupd.desc_eq hkeeps]
    exact hdesc

/-! ## Readers after publishers -/

/-- After `tr`, the owner of the fence has published its record under a free id, and its descriptor
has not been rewritten since. -/
def PublishedBefore (tr : List (Event Step Impl)) (fence : Nat) : Prop :=
  ∃ tr₀ e tr₁ o, tr = tr₀ ++ e :: tr₁ ∧ e.label = .publish fence o ∧
    e.before.byId.lookup o.id = none ∧
    ∀ e' ∈ tr₁, e'.label.keepsDescriptor e.before.nextRecord e'.before

/-- Every waiter of the run reads the index after the owner of its fence has published. -/
def ReadsLate (tr : List (Event Step Impl)) : Prop :=
  ∀ tr₁ e tr₂ fence o, tr = tr₁ ++ e :: tr₂ → e.label = .findBuilt fence o →
    PublishedBefore tr₁ fence

section Runs

variable {env : Env} {store : FilePersistenceStore} {tr : List (Event Step Impl)}
  {pool : Pool Step Impl Answer}

/-- Those who end a flight agree on its outcome. -/
theorem runs_outcome (h : CacheRuns env store tr pool) {e e' : Event Step Impl} (he : e ∈ tr)
    (he' : e' ∈ tr) {fence : Nat} {o o' : Outcome}
    (hl : e.label = .publish fence o ∨ e.label = .findBuilt fence o)
    (hl' : e'.label = .publish fence o' ∨ e'.label = .findBuilt fence o') : o' = o := by
  obtain ⟨hflight, hstory, -⟩ := runs_flight h
  obtain ⟨res, led, hP⟩ := hstory.ended e he fence o hl
  obtain ⟨res', led', hP'⟩ := hstory.ended e' he' fence o' hl'
  have hknown := hflight.known e.thread fence o (by rw [hP]; rfl)
  have hknown' := hflight.known e'.thread fence o' (by rw [hP']; rfl)
  exact Option.some.inj (hknown'.symm.trans hknown)

/-- A late reader finds the owner's descriptor. -/
theorem runs_read (h : CacheRuns env store tr pool) (hlate : ReadsLate tr) {fence : Nat}
    {o o' : Outcome} {e e' : Event Step Impl} (he : e ∈ tr) (hl : e.label = .publish fence o)
    (he' : e' ∈ tr) (hl' : e'.label = .findBuilt fence o') :
    o' = o ∧ e'.before.findBuilt o' = .ok o.desc := by
  obtain rfl : o' = o := runs_outcome h he he' (.inl hl) (.inr hl')
  refine ⟨rfl, ?_⟩
  obtain ⟨tr₁, tr₂, htr⟩ := List.append_of_mem he'
  obtain ⟨tr₀, e₀, tr₁', o₀, htr₁, hl₀, hfree, hkeeps⟩ := hlate tr₁ e' tr₂ fence o' htr hl'
  have htr' : tr = tr₀ ++ e₀ :: (tr₁' ++ e' :: tr₂) := by
    rw [htr, htr₁, List.append_assoc, List.cons_append]
  have hmem₀ : e₀ ∈ tr := by
    rw [htr']
    simp
  obtain rfl : o₀ = o' := runs_outcome h he' hmem₀ (.inr hl') (.inl hl₀)
  -- the publication
  have hstep := h.event_step e₀ hmem₀
  have hproper := runs_proper h e₀ hmem₀
  rw [hl₀] at hstep hproper
  obtain ⟨hnext, hbound, hrec⟩ := exec_publish_new hstep hproper.2 hfree
  have hholds : e₀.after.Holds o₀ e₀.before.nextRecord := by
    refine ⟨Nat.lt_of_lt_of_eq (Nat.lt_succ_self _) hnext.symm, hbound, ?_⟩
    rw [hrec]
    rfl
  -- and the sections up to the read
  obtain ⟨-, ts, -, hfrom⟩ := h.cut htr'
  obtain ⟨⟨ts', hupto⟩, -⟩ := hfrom.cut rfl
  have hreader : e'.before.Holds o₀ e₀.before.nextRecord := by
    refine (Runs.invariant (I := fun s => s.Holds o₀ e₀.before.nextRecord) hholds hupto
      fun e₁ he₁ hI => ?_).2
    have hmem₁ : e₁ ∈ tr := by
      rw [htr']
      simp [he₁]
    exact exec_holds (h.event_step e₁ hmem₁) (runs_proper h e₁ hmem₁) (hkeeps e₁ he₁) hI
  unfold Impl.findBuilt
  rw [hreader.2.1]
  exact congrArg Except.ok hreader.2.2

/-- **The callers of one build agree.** On every run whose waiters read the index after their owner
has published, every waiter of a fence finds the owner's descriptor, and every finished caller of the
flight, owner or waiter, has answered with that descriptor (a build) or has gone on to lease it (an
acquire). -/
theorem waiters_agree (h : CacheRuns env store tr pool) (hlate : ReadsLate tr) {fence : Nat}
    {o : Outcome} {e : Event Step Impl} (he : e ∈ tr) (hl : e.label = .publish fence o) :
    (∀ e' ∈ tr, ∀ o', e'.label = .findBuilt fence o' → e'.before.findBuilt o' = .ok o.desc) ∧
    ∀ (i : Nat) (a : Answer), pool.threads[i]? = some (.ret a) →
      (∃ e' ∈ tr, e'.thread = i ∧ (e'.label = .await fence ∨ e'.label = .publish fence o)) →
      a = .descriptor o.desc ∨ ∃ e' ∈ tr, e'.thread = i ∧ e'.label = .find o.desc.id := by
  have hread := fun e' (he' : e' ∈ tr) o' (hl' : e'.label = .findBuilt fence o') =>
    (runs_read h hlate he hl he' hl').2
  refine ⟨hread, fun i a hdone hparty => ?_⟩
  obtain ⟨hflight, hstory, hanswers⟩ := runs_flight h
  have hanswer := hanswers i a hdone
  have hknown : pool.shared.fences fence = some o := by
    obtain ⟨res, led, hP⟩ := hstory.ended e he fence o (.inl hl)
    exact hflight.known e.thread fence o (by rw [hP]; rfl)
  have hsucceeded : o.succeeded = true := by
    have hproper := runs_proper h e he
    rw [hl] at hproper
    exact hproper.1
  -- where the caller is at the end
  have hphase : ∃ res led, callerPhases tr i = .returned fence o res led := by
    obtain ⟨e', he', rfl, hl' | hl'⟩ := hparty
    · obtain ⟨o', hP | ⟨res, led, hP⟩⟩ := hstory.awaited e' he' fence hl'
      · have hknown' := hflight.known e'.thread fence o' (by rw [hP]; rfl)
        obtain rfl := Option.some.inj (hknown'.symm.trans hknown)
        rw [hP] at hanswer
        have hfailed : o'.succeeded = false := hanswer
        rw [hsucceeded] at hfailed
        cases hfailed
      · have hknown' := hflight.known e'.thread fence o' (by rw [hP]; rfl)
        obtain rfl := Option.some.inj (hknown'.symm.trans hknown)
        exact ⟨res, led, hP⟩
    · exact hstory.ended e' he' fence o (.inl hl')
  obtain ⟨res, led, hP⟩ := hphase
  have hres : res = .ok o.desc := by
    obtain ⟨e', he', -, ⟨hl', hres⟩ | ⟨-, hres⟩⟩ := hstory.returned i fence o res led hP
    · rw [hres]
      exact hread e' he' o hl'
    · exact hres
  subst hres
  rw [hP] at hanswer
  cases led with
  | none => exact .inl hanswer
  | some id =>
    obtain ⟨desc, hdesc, rfl⟩ := hanswer
    cases hdesc
    exact .inr (hstory.led i fence o _ _ hP)

end Runs

/-! ## Two callers of one build -/

/-- A section in which a caller reads the index. -/
def Step.readsIndex : Step → Bool
  | .collect _ | .findBuilt _ _ => true
  | _ => false

/-- One build is in flight, nothing is published. -/
structure Impl.Flying (s : Impl) (digest : Sha256Digest) (fence : Nat) (promise : Option Outcome) :
    Prop where
  free : s.statsHeld = false
  flight : s.inFlight.lookup digest = some fence
  promise : s.fences fence = promise
  byId : s.byId = ∅
  nextRecord : s.nextRecord = 0

theorem Impl.Flying.ticked {s s' : Impl} {digest : Sha256Digest} {fence : Nat}
    {promise : Option Outcome} (h : s.Flying digest fence promise) (ht : s.Ticked s') :
    s'.Flying digest fence promise := by
  obtain ⟨st, t, rfl⟩ := ht
  exact ⟨h.free, h.flight, h.promise, h.byId, h.nextRecord⟩

/-- The first caller joins an empty cache. -/
theorem Impl.join_empty (env : Env) (s : Impl) (digest : Sha256Digest) (hfree : s.statsHeld = false)
    (hflight : s.inFlight = ∅) (hopen : s.fences s.nextFence = none) (hids : s.byId = ∅)
    (hnext : s.nextRecord = 0) : ∃ s', exec env (.join digest) s = some s' ∧
      (s.join digest).1 = .owner s.nextFence s.nextGeneration ∧ s'.Flying digest s.nextFence none := by
  have hnone : s.inFlight.lookup digest = none := by
    rw [hflight]
    exact AList.lookup_empty _
  refine ⟨_, exec_eq_some.mpr ⟨by simp [Step.ready, hfree], rfl⟩, ?_, ?_⟩
  · simp only [Impl.join, hnone]
  · simp only [Step.effect, Impl.join, hnone]
    exact ⟨hfree, AList.lookup_insert _, hopen, hids, hnext⟩

/-- The first caller joins a fresh cache. -/
theorem initial_join (env : Env) (digest : Sha256Digest) : ∃ s,
    exec env (.join digest) (Impl.initial {}) = some s ∧
      ((Impl.initial {}).join digest).1 = .owner 0 0 ∧ s.Flying digest 0 none :=
  Impl.join_empty env _ digest rfl rfl rfl rfl rfl

/-- A later caller attaches. -/
theorem Impl.Flying.join (env : Env) {s : Impl} {digest : Sha256Digest} {fence : Nat}
    {promise : Option Outcome} (h : s.Flying digest fence promise) : ∃ s',
    exec env (.join digest) s = some s' ∧ (s.join digest).1 = .waiter fence ∧
      s'.Flying digest fence promise := by
  refine ⟨_, exec_eq_some.mpr ⟨by simp [Step.ready, h.free], rfl⟩, ?_, ?_⟩
  · simp only [Impl.join, h.flight]
  · simp only [Step.effect, Impl.join, h.flight, Impl.bump]
    exact ⟨h.free, h.flight, h.promise, h.byId, h.nextRecord⟩

/-- The owner builds and keeps its promise. -/
theorem Impl.Flying.build {env : Env} {s : Impl} {digest : Sha256Digest} {fence : Nat}
    {request : KernelLookupRequest} {gen : ArtifactGeneration} {o : Outcome} (i : Nat)
    (h : s.Flying digest fence none) (hout : runBuild env s.tick request gen = .ok o)
    (hok : o.succeeded = true) : ∃ tr s',
    (runBuildOp env request gen).traced (exec env) i s = some (tr, .ok o, s') ∧
      s'.Flying digest fence none ∧ ∀ e ∈ tr, e.label.readsIndex = false := by
  obtain ⟨hfree, hflight, hpromise, hbyId, hnext⟩ := h
  simp only [runBuildOp, Prog.bind_eq, sect, perform, Prog.bind, Prog.traced, exec, Step.ready,
    Step.effect, Impl.bump, hout, hok, hfree, if_true, Bool.not_false, Prog.pure_eq, Option.map_some]
  refine ⟨_, _, rfl, ⟨rfl, hflight, hpromise, hbyId, hnext⟩, ?_⟩
  intro e he
  simp only [List.mem_cons, List.not_mem_nil, or_false] at he
  rcases he with rfl | rfl | rfl
  all_goals rfl

/-- The owner keeps its promise. -/
theorem Impl.Flying.fulfil (env : Env) {s : Impl} {digest : Sha256Digest} {fence : Nat}
    (o : Outcome) (h : s.Flying digest fence none) : ∃ s₁ s₂,
    exec env (.bump fun st => { st with activeBuilds := st.activeBuilds - 1 }) s = some s₁ ∧
      exec env (.fulfil fence o) s₁ = some s₂ ∧ s₂.Flying digest fence (some o) := by
  obtain ⟨hfree, hflight, hpromise, hbyId, hnext⟩ := h
  refine ⟨_, _, exec_eq_some.mpr ⟨by simp [Step.ready, hfree], rfl⟩,
    exec_eq_some.mpr ⟨rfl, rfl⟩, ?_⟩
  simp only [Step.effect, Impl.bump, Impl.fulfil, hpromise]
  exact ⟨hfree, hflight, Function.update_self .., hbyId, hnext⟩

/-- A waiter whose promise is kept reads the index. -/
theorem buildWaiter_traced (env : Env) (i : Nat) {s : Impl} {fence : Nat} {o : Outcome}
    (hpromise : s.fences fence = some o) (hok : o.succeeded = true) :
    (buildWaiter fence).traced (exec env) i s =
      some ([⟨i, .await fence, s, { s with tick := s.tick + 1 }⟩,
        ⟨i, .findBuilt fence o, { s with tick := s.tick + 1 }, { s with tick := s.tick + 2 }⟩],
        s.findBuilt o, { s with tick := s.tick + 2 }) := by
  simp only [buildWaiter, Prog.bind_eq, sect, Prog.bind, Prog.traced, exec, Step.ready, Step.effect,
    hpromise, Option.isSome_some, if_true, Option.getD_some, hok, Bool.not_true, Bool.false_eq_true,
    if_false, Option.map_some]
  rfl

/-- The owner takes its fence out of flight and publishes. -/
theorem Impl.Flying.publish (env : Env) {s : Impl} {digest : Sha256Digest} {fence : Nat}
    {o : Outcome} (i : Nat) (h : s.Flying digest fence (some o)) (hid : o.desc.id = o.id)
    (hclosed : env.cfg.persistenceOpen = false) : ∃ tr e s',
    ((perform (.eraseFence fence digest)).bind fun _ => publishOp env fence o).traced (exec env) i s =
        some (tr ++ [e], .ok o.desc, s') ∧ e.thread = i ∧ e.label = .publish fence o ∧
      e.before.byId.lookup o.id = none ∧ e.before.statsHeld = false ∧
      (∀ e' ∈ tr, e'.label.readsIndex = false) ∧ s'.fences fence = some o ∧ s'.Holds o 0 ∧
      s'.statsHeld = false ∧
      (s'.records 0).leasable = (makeRecord 0 o.desc o.bytes).leasable := by
  obtain ⟨hfree, hflight, hpromise, hbyId, hnext⟩ := h
  have hnone : s.byId.lookup o.id = none := by
    rw [hbyId]
    exact AList.lookup_empty _
  simp only [publishOp, Prog.bind_eq, sect, perform, Prog.bind, Prog.traced, exec, Step.ready,
    Step.effect, Impl.eraseFence, hflight, if_true, hfree, Bool.not_false, Option.map_some,
    Impl.publish, hnone, hclosed, Bool.and_false, Bool.false_eq_true, if_false, Prog.pure_eq]
  refine ⟨[_, _], _, _, rfl, rfl, rfl, hnone, rfl, ?_, hpromise, ?_⟩
  · intro e he
    simp only [List.mem_cons, List.not_mem_nil, or_false] at he
    rcases he with rfl | rfl
    all_goals rfl
  · refine ⟨⟨Nat.succ_pos _, ?_, ?_⟩, rfl, ?_⟩
    · rw [← hid, ← hnext]
      exact AList.lookup_insert _
    · simp only [Impl.insertIndexLocked, hnext, Function.update_self]
      rfl
    · simp only [Impl.insertIndexLocked, hnext, Function.update_self]
      rfl

/-- What `build` does with the result of `build_impl`. -/
def descriptorAnswer (res : Result ArtifactDescriptor) : Op Answer :=
  .ret (answer .descriptor res)

/-- An owner, from its build on. -/
theorem buildOwner_bind (env : Env) (request : KernelLookupRequest) (digest : Sha256Digest)
    (fence : Nat) (gen : ArtifactGeneration) {α : Type} (g : Result ArtifactDescriptor → Op α) :
    (buildOwner env request digest fence gen).bind g = (runBuildOp env request gen).bind fun res =>
      (match res with
        | .error e => Prog.ret (.error e)
        | .ok o => finishBuild env digest fence o : Op (Result ArtifactDescriptor)).bind g := by
  unfold buildOwner
  rw [Prog.bind_eq, Prog.bind_assoc]
  rfl

/-- An owner with a success keeps its promise, takes the fence out of flight and publishes. -/
theorem finishBuild_of_success (env : Env) (digest : Sha256Digest) (fence : Nat) {o : Outcome}
    (hok : o.succeeded = true) :
    finishBuild env digest fence o =
      (perform (.bump fun st => { st with activeBuilds := st.activeBuilds - 1 })).bind fun _ =>
        (perform (.fulfil fence o)).bind fun _ =>
          (perform (.eraseFence fence digest)).bind fun _ => publishOp env fence o := by
  unfold finishBuild
  simp only [hok]
  rfl

/-- An owner that has joined builds, keeps its promise and publishes. -/
theorem Impl.Flying.owner {env : Env} {s : Impl} {request : KernelLookupRequest}
    {digest : Sha256Digest} {fence : Nat} {gen : ArtifactGeneration} {o : Outcome} (i : Nat)
    (h : s.Flying digest fence none) (hout : runBuild env s.tick request gen = .ok o)
    (hok : o.succeeded = true) (hclosed : env.cfg.persistenceOpen = false) : ∃ tr e s',
    (buildOwner env request digest fence gen).traced (exec env) i s =
        some (tr ++ [e], .ok o.desc, s') ∧ e.thread = i ∧ e.label = .publish fence o ∧
      e.before.byId.lookup o.id = none ∧ e.before.statsHeld = false ∧
      (∀ e' ∈ tr, e'.label.readsIndex = false) ∧ s'.fences fence = some o ∧ s'.Holds o 0 ∧
      s'.statsHeld = false ∧ (s'.records 0).leasable = (makeRecord 0 o.desc o.bytes).leasable := by
  obtain ⟨tr₁, s₁, hbuild, hfly₁, hlabels₁⟩ := h.build i hout hok
  obtain ⟨s₂, s₃, hbump, hfulfil, hfly₃⟩ := hfly₁.fulfil env o
  obtain ⟨tr₂, e, s₄, hpublish, hthread, hlabel, hnew, hfree, hlabels₂, hleft⟩ :=
    hfly₃.publish env i (runBuild_built hout hok).desc_id hclosed
  have hfinish : ∃ tr, (finishBuild env digest fence o).traced (exec env) i s₁ =
      some (tr ++ [e], .ok o.desc, s₄) ∧ ∀ e' ∈ tr, e'.label.readsIndex = false := by
    rw [finishBuild_of_success _ _ _ hok, Prog.traced_perform hbump, Prog.traced_perform hfulfil,
      hpublish]
    refine ⟨_ :: _ :: tr₂, rfl, ?_⟩
    rw [List.forall_mem_cons, List.forall_mem_cons]
    exact ⟨rfl, rfl, hlabels₂⟩
  obtain ⟨tr₃, hfinish, hlabels₃⟩ := hfinish
  refine ⟨tr₁ ++ tr₃, e, s₄, ?_, hthread, hlabel, hnew, hfree, ?_, hleft⟩
  · unfold buildOwner
    rw [Prog.bind_eq, Prog.traced_of_bind]
    exact ⟨tr₁, .ok o, s₁, _, hbuild, hfinish, List.append_assoc _ _ _⟩
  · exact List.forall_mem_append.mpr ⟨hlabels₁, hlabels₃⟩

/-- Two callers build the default key; the first has kept its promise and not published yet. -/
theorem stub_flight : ∃ tr s o, CacheRuns stubEnv {} tr
      ⟨s, [((perform (.eraseFence 0 (buildDigest stubEnv {}))).bind
          fun _ => publishOp stubEnv 0 o).bind descriptorAnswer,
        (buildWaiter 0).bind descriptorAnswer]⟩ ∧
    s.Flying (buildDigest stubEnv {}) 0 (some o) ∧ o.succeeded = true ∧ o.desc.id = o.id ∧
    ∀ e ∈ tr, e.label.readsIndex = false := by
  have hstart : CacheRuns stubEnv {} [] ⟨Impl.initial {}, [(Operation.build {}).prog stubEnv,
      (Operation.build {}).prog stubEnv]⟩ := (Runs.refl.spawn ⟨_, rfl⟩).spawn ⟨_, rfl⟩
  -- both join
  obtain ⟨s₁, hjoin₁, howner, hfly₁⟩ := initial_join stubEnv (buildDigest stubEnv {})
  obtain ⟨s₂, hjoin₂, hwaiter, hfly₂⟩ := hfly₁.join stubEnv
  have hruns₁ := hstart.step (i := 0) rfl hjoin₁
  unfold buildDigest at howner hwaiter
  simp only [List.set_cons_zero, howner] at hruns₁
  have hruns₂ := hruns₁.step (i := 1) rfl hjoin₂
  simp only [List.set_cons_succ, List.set_cons_zero, hwaiter] at hruns₂
  have hjoined : CacheRuns stubEnv {} _ ⟨s₂,
      [(buildOwner stubEnv (buildRequestOf stubEnv {}) (buildDigest stubEnv {}) 0 0).bind
        descriptorAnswer, (buildWaiter 0).bind descriptorAnswer]⟩ := hruns₂
  -- the owner builds
  obtain ⟨o, hout, hok⟩ : ∃ o, runBuild stubEnv s₂.tick (buildRequestOf stubEnv {}) 0 = .ok o ∧
      o.succeeded = true := ⟨_, rfl, rfl⟩
  obtain ⟨tr₃, s₃, hbuild, hfly₃, hlabels⟩ := hfly₂.build 0 hout hok
  rw [buildOwner_bind] at hjoined
  have hruns₃ := hjoined.advance (i := 0) rfl hbuild
  simp only [List.set_cons_zero, finishBuild_of_success _ _ _ hok] at hruns₃
  -- and keeps its promise
  obtain ⟨s₄, s₅, hbump, hfulfil, hfly₅⟩ := hfly₃.fulfil stubEnv o
  have hruns₅ := (hruns₃.step (i := 0) rfl hbump).step (i := 0) rfl hfulfil
  refine ⟨_, s₅, o, hruns₅, hfly₅, hok, (runBuild_built hout hok).desc_id, ?_⟩
  intro e he
  simp only [List.mem_append, List.mem_cons, List.not_mem_nil, or_false, List.nil_append] at he
  rcases he with (((rfl | rfl) | he) | rfl) | rfl
  · rfl
  · rfl
  · exact hlabels e he
  · rfl
  · rfl

/-- The owner publishes, then the waiter reads: both answer with the same descriptor. -/
theorem waiters_agree_sample : ∃ tr pool o, CacheRuns stubEnv {} tr pool ∧ ReadsLate tr ∧
    (∃ e ∈ tr, e.label = .publish 0 o) ∧ (∃ e ∈ tr, e.thread = 1 ∧ e.label = .await 0) ∧
    ∃ a, pool.threads[1]? = some (.ret a) ∧
      (a = .descriptor o.desc ∨ ∃ e ∈ tr, e.thread = 1 ∧ e.label = .find o.desc.id) := by
  obtain ⟨tr, s, o, hruns, hfly, hok, hid, hearly⟩ := stub_flight
  obtain ⟨tr₁, e, s₁, hpublish, -, hlabel, hfree, -, hlabels, hpromise, -⟩ :=
    hfly.publish stubEnv 0 hid rfl
  have hruns₁ := hruns.advance (i := 0) rfl hpublish
  have hruns₂ := hruns₁.advance (i := 1) rfl (buildWaiter_traced stubEnv 1 hpromise hok)
  have hlate : ReadsLate (tr ++ (tr₁ ++ [e]) ++
      [⟨1, .await 0, s₁, { s₁ with tick := s₁.tick + 1 }⟩,
        ⟨1, .findBuilt 0 o, { s₁ with tick := s₁.tick + 1 }, { s₁ with tick := s₁.tick + 2 }⟩]) := by
    intro tr₂ e' tr₃ fence o' htr hl
    generalize hawait : (⟨1, .await 0, s₁, _⟩ : Event Step Impl) = w at htr
    have hpre : tr ++ (tr₁ ++ [e]) ++ [w, ⟨1, .findBuilt 0 o, { s₁ with tick := s₁.tick + 1 },
        { s₁ with tick := s₁.tick + 2 }⟩] = ((tr ++ tr₁) ++ e :: [w]) ++ [⟨1, .findBuilt 0 o,
          { s₁ with tick := s₁.tick + 1 }, { s₁ with tick := s₁.tick + 2 }⟩] := by simp
    rw [hpre] at htr
    rcases List.eq_nil_or_concat tr₃ with rfl | ⟨tr₄, last, rfl⟩
    · obtain ⟨rfl, heq⟩ := List.append_inj' htr rfl
      cases heq
      cases hl
      refine ⟨_, e, _, o, rfl, hlabel, hfree, ?_⟩
      intro e₁ he₁
      obtain rfl := List.mem_singleton.mp he₁
      rw [← hawait]
      exact trivial
    · -- nobody else reads the index
      have hsplit : tr₂ ++ e' :: tr₄.concat last = (tr₂ ++ e' :: tr₄) ++ [last] := by simp
      rw [hsplit] at htr
      obtain ⟨hfront, -⟩ := List.append_inj' htr rfl
      have hmem : e' ∈ (tr ++ tr₁) ++ e :: [w] := by
        rw [hfront]
        simp
      simp only [List.mem_append, List.mem_cons, List.not_mem_nil, or_false] at hmem
      rcases hmem with (hmem | hmem) | rfl | rfl
      · have hplain := hearly e' hmem
        rw [hl] at hplain
        cases hplain
      · have hplain := hlabels e' hmem
        rw [hl] at hplain
        cases hplain
      · rw [hlabel] at hl
        cases hl
      · rw [← hawait] at hl
        cases hl
  have hmem : e ∈ tr ++ (tr₁ ++ [e]) ++
      [⟨1, .await 0, s₁, { s₁ with tick := s₁.tick + 1 }⟩,
        ⟨1, .findBuilt 0 o, { s₁ with tick := s₁.tick + 1 }, { s₁ with tick := s₁.tick + 2 }⟩] := by
    simp
  refine ⟨_, _, o, hruns₂, hlate, ⟨e, hmem, hlabel⟩, ?_, _, rfl, ?_⟩
  · exact ⟨_, List.mem_append_right _ (List.mem_cons_self ..), rfl, rfl⟩
  · refine (waiters_agree hruns₂ hlate hmem hlabel).2 1 _ rfl ?_
    exact ⟨_, List.mem_append_right _ (List.mem_cons_self ..), rfl, .inl rfl⟩

/-- **A waiter can miss a build that succeeded.** Two callers build one key; the waiter reads the
index after the promise is kept and before the record is published: it reports `NotFound`, and the
owner returns its descriptor. -/
theorem waiter_not_found : ∃ tr pool o, CacheRuns stubEnv {} tr pool ∧
    (∃ e ∈ tr, e.label = .publish 0 o) ∧ (∃ e ∈ tr, e.thread = 1 ∧ e.label = .await 0) ∧
    pool.threads[0]? = some (.ret (.descriptor o.desc)) ∧
    pool.threads[1]? = some (.ret (.failed (.error .notFound (str "built artifact not in index")))) := by
  obtain ⟨tr, s, o, hruns, hfly, hok, hid, -⟩ := stub_flight
  have hruns₁ := hruns.advance (i := 1) rfl (buildWaiter_traced stubEnv 1 hfly.promise hok)
  have hfly₁ : Impl.Flying { s with tick := s.tick + 2 } (buildDigest stubEnv {}) 0 (some o) :=
    hfly.ticked ⟨_, _, rfl⟩
  obtain ⟨tr₁, e, s₁, hpublish, -, hlabel, -⟩ := hfly₁.publish stubEnv 0 hid rfl
  have hruns₂ := hruns₁.advance (i := 0) rfl hpublish
  have hnone : s.byId.lookup o.id = none := by
    rw [hfly.byId]
    exact AList.lookup_empty _
  refine ⟨_, _, o, hruns₂, ⟨e, by simp, hlabel⟩, ?_, rfl, ?_⟩
  · refine ⟨_, List.mem_append_left _ (List.mem_append_right _ (List.mem_cons_self ..)), rfl, rfl⟩
  · simp only [List.set_cons_succ, List.set_cons_zero, List.getElem?_cons_succ,
      List.getElem?_cons_zero, descriptorAnswer, Impl.findBuilt, hnone]
    rfl

end KernelCache
