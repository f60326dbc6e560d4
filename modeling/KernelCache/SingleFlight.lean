/-
# KernelCache.SingleFlight — the build protocol and its parties.

`build_impl` is a protocol between the callers of one key.  A caller JOINS: it becomes the owner of a
new fence, or attaches to the fence in flight.  The owner builds, fulfils the promise, takes the
fence out of flight and publishes the record, in that order, in four sections.  A waiter waits for the
promise and then reads the index.

`Phase` is where a caller is, with what it has learned; `operation_party` shows that every public
operation is a party of the protocol (most never leave the first phase).  `Flight` is the invariant
that ties the phases of all callers to the fences: an open fence has one owner, and whoever has seen
the promise of a fence has seen the outcome its owner built.
-/
import KernelCache.Foundation.Protocol
import KernelCache.Interleaving

namespace KernelCache

open Foundation (Bytes Prog Runs Pool Event phases)
open Foundation.Prog (sect perform Free Sat Phased)

/-! ## Phases -/

/-- Where a caller is. -/
inductive Phase where
  /-- Not in the protocol. -/
  | idle
  /-- After a lookup that saw these candidates. -/
  | looked (candidates : List Impl.CandidateSnapshot)
  /-- Waiting for the promise of a fence. -/
  | attached (fence : Nat)
  /-- A waiter that has seen the outcome. -/
  | awaited (fence : Nat) (o : Outcome)
  | owner (digest : Sha256Digest) (fence : Nat)
  /-- An owner that has run `run_build`. -/
  | built (digest : Sha256Digest) (fence : Nat)
  /-- An owner that has kept its promise. -/
  | fulfilled (digest : Sha256Digest) (fence : Nat) (o : Outcome)
  /-- An owner that has taken its fence out of flight. -/
  | erased (fence : Nat) (o : Outcome)
  /-- `build_impl` has returned `res`; `led` is the id the caller went on to look up. -/
  | returned (fence : Nat) (o : Outcome) (res : Result ArtifactDescriptor) (led : Option ArtifactId)

namespace Phase

/-- The phase after joining. -/
def joined (digest : Sha256Digest) : Impl.Joined → Phase
  | .owner fence _ => owner digest fence
  | .waiter fence => attached fence

/-- What a section does to the phase of the caller that takes it. -/
def next (ph : Phase) (l : Step) (s : Impl) : Phase :=
  match ph, l with
  | idle, .collect key => looked (s.collectCandidates key)
  | idle, .join digest => joined digest (s.join digest).1
  | looked _, .join digest => joined digest (s.join digest).1
  | attached fence, .await _ => awaited fence ((s.fences fence).getD default)
  | awaited fence o, .findBuilt _ _ => returned fence o (s.findBuilt o) none
  | owner digest fence, .runBuild _ _ => built digest fence
  | built digest fence, .fulfil _ o => fulfilled digest fence o
  | fulfilled _ fence o, .eraseFence _ _ => erased fence o
  | erased fence o, .publish _ _ => returned fence o (.ok o.desc) none
  | returned fence o res none, .find id => returned fence o res (some id)
  | ph, _ => ph

/-- Not in the protocol yet. -/
def outside : Phase → Prop
  | idle | looked _ => True
  | _ => False

/-- The sections a caller may take in a phase. -/
def ok (ph : Phase) (l : Step) (_ : Impl) : Prop :=
  match l with
  | .join _ => ph.outside
  | .await fence => ph = attached fence
  | .findBuilt fence o => ph = awaited fence o
  | .runBuild request _ => ∃ fence, ph = owner request.key.ensureFinalized.digest fence
  | .fulfil fence _ => ∃ digest, ph = built digest fence
  | .eraseFence fence digest => ∃ o, ph = fulfilled digest fence o
  | .publish fence o => ph = erased fence o
  | _ => True

/-- What `build_impl` returns from a phase. -/
def gives (res : Result ArtifactDescriptor) : Phase → Prop
  | awaited _ o => o.succeeded = false ∧ ∃ e, res = .error e
  | built _ _ | fulfilled _ _ _ | erased _ _ => ∃ e, res = .error e
  | returned _ _ r led => r = res ∧ led = none
  | _ => False

/-- What a finished operation answers from a phase: what `build_impl` returned, or it went on to
lease the artifact `build_impl` returned. -/
def answers (a : Answer) : Phase → Prop
  | attached _ | owner _ _ => False
  | awaited _ o => o.succeeded = false
  | returned _ _ res none => a = answer .descriptor res
  | returned _ _ res (some id) => ∃ desc, res = .ok desc ∧ id = desc.id
  | _ => True

theorem answers_of_outside {a : Answer} {ph : Phase} (h : ph.outside) : ph.answers a := by
  cases ph with
  | idle => exact trivial
  | looked candidates => exact trivial
  | _ => exact h.elim

/-- A failed build ends the operation. -/
theorem answers_of_gives {e : Failure} {ph : Phase} (h : ph.gives (.error e)) :
    ph.answers (.failed e) := by
  cases ph with
  | awaited fence o => exact h.1
  | returned fence o r led =>
    obtain ⟨rfl, rfl⟩ := h
    exact rfl
  | built digest fence => exact trivial
  | fulfilled digest fence o => exact trivial
  | erased fence o => exact trivial
  | _ => exact h.elim

/-- A build that succeeded has returned. -/
theorem returned_of_gives {desc : ArtifactDescriptor} {ph : Phase} (h : ph.gives (.ok desc)) :
    ∃ fence o, ph = .returned fence o (.ok desc) none := by
  cases ph with
  | returned fence o r led =>
    obtain ⟨rfl, rfl⟩ := h
    exact ⟨fence, o, rfl⟩
  | awaited fence o =>
    obtain ⟨-, e, he⟩ := h
    cases he
  | built digest fence =>
    obtain ⟨e, he⟩ := h
    cases he
  | fulfilled digest fence o =>
    obtain ⟨e, he⟩ := h
    cases he
  | erased fence o =>
    obtain ⟨e, he⟩ := h
    cases he
  | _ => exact h.elim

end Phase

open Phase (ok next)

/-! ## The operations as parties -/

section Parties

variable {env : Env} {C : Step → Impl → Impl → Prop} {α : Type}

/-- Programs that follow the protocol from a phase on. -/
abbrev Party (env : Env) (C : Step → Impl → Impl → Prop) (Q : α → Phase → Prop) (p : Op α)
    (ph : Phase) : Prop :=
  p.Phased (exec env) C ok next (fun a ph' _ => Q a ph') (fun _ => True) ph

/-- Sections that are not part of a build keep a set of phases which lookups and finds do not
leave. -/
def Inert (Z : Phase → Prop) : Prop :=
  ∀ ph, Z ph → ∀ (l : Step) (s : Impl), l.isFence = false → l.isBuild = false →
    Z (next ph l s)

theorem keeps_of_inert {Z : Phase → Prop} (hZ : Inert Z) {l : Step} {s : Impl}
    (hfence : l.isFence = false) (hbuild : l.isBuild = false) : Prog.Keeps ok next Z l s := by
  intro ph hph
  refine ⟨?_, hZ ph hph l s hfence hbuild⟩
  cases l with
  | join digest => cases hfence
  | fulfil fence o => cases hfence
  | eraseFence fence digest => cases hfence
  | await fence => cases hbuild
  | findBuilt fence o => cases hbuild
  | runBuild request gen => cases hbuild
  | publish fence o => cases hbuild
  | _ => exact trivial

theorem inert_outside : Inert Phase.outside := by
  intro ph hph l s hfence hbuild
  cases ph with
  | idle =>
    cases l with
    | join digest => cases hfence
    | _ => exact trivial
  | looked candidates =>
    cases l with
    | join digest => cases hfence
    | _ => exact trivial
  | _ => exact hph.elim

theorem inert_led (fence : Nat) (o : Outcome) (res : Result ArtifactDescriptor) (id : ArtifactId) :
    Inert (fun ph => ph = .returned fence o res (some id)) := by
  rintro ph rfl l s - -
  rfl

theorem covers_inert {Z : Phase → Prop} (hZ : Inert Z) :
    Covers env C (fun l s _ => Prog.Keeps ok next Z l s) := by
  intro l s s' _ _ _ hplain
  have hkinds : l.isFence = false ∧ l.isBuild = false := by
    cases l <;> first | exact ⟨rfl, rfl⟩ | cases hplain
  exact keeps_of_inert hZ hkinds.1 hkinds.2

theorem evictsFree_inert {Z : Phase → Prop} (hZ : Inert Z) :
    EvictsFree env C (fun l s _ => Prog.Keeps ok next Z l s) :=
  evictsFree_of_covers fun _ _ _ _ _ _ hfence hbuild => keeps_of_inert hZ hfence hbuild

/-- A program that is no build stays where it is. -/
theorem Party.of_free {Z : Phase → Prop} {Q : α → Phase → Prop} {p : Op α} {ph : Phase}
    (h : p.Free (exec env) C (fun l s _ => Prog.Keeps ok next Z l s)) (hph : Z ph)
    (hQ : ∀ a ph', Z ph' → Q a ph') : Party env C Q p ph :=
  (Sat.phased h hph).weaken (fun _ h => h) fun a ph' _ h => hQ a ph' h.2

/-- Sequential composition of parties. -/
theorem Party.bind {β : Type} {Q : α → Phase → Prop} {Q' : β → Phase → Prop} {p : Op α}
    {g : α → Op β} {ph : Phase} (hp : Party env C Q p ph)
    (hg : ∀ a ph', Q a ph' → Party env C Q' (g a) ph') : Party env C Q' (p.bind g) ph :=
  Phased.bind hp fun a ph' => Phased.assume (hg a ph')

/-- A section that does not touch the phase. -/
theorem Party.perform {l : Step} {ph : Phase} (hok : ∀ s, ok ph l s) (hnext : ∀ s, next ph l s = ph) :
    Party env C (fun _ ph' => ph' = ph) (perform l) ph :=
  Phased.sect fun s _ _ _ => ⟨hok s, hnext s⟩

/-! ### Build -/

theorem buildWaiter_party (fence : Nat) :
    Party env C (fun res ph => ph.gives res) (buildWaiter fence) (.attached fence) := by
  unfold buildWaiter
  refine Party.bind (Q := fun o ph => ph = .awaited fence o)
    (Phased.sect fun s _ _ _ => ⟨rfl, rfl⟩) ?_
  rintro o _ rfl
  cases hs : o.succeeded with
  | false => exact Phased.ret fun _ _ => ⟨hs, _, rfl⟩
  | true => exact Phased.sect fun s _ _ _ => ⟨rfl, rfl, rfl⟩

theorem runBuildOp_party (request : KernelLookupRequest) (gen : ArtifactGeneration) (fence : Nat) :
    Party env C (fun _ ph => ph = .built request.key.ensureFinalized.digest fence)
      (runBuildOp env request gen) (.owner request.key.ensureFinalized.digest fence) := by
  unfold runBuildOp
  refine Party.bind (Q := fun _ ph => ph = .built request.key.ensureFinalized.digest fence)
    (Phased.sect fun s _ _ _ => ⟨⟨fence, rfl⟩, rfl⟩) ?_
  rintro res _ rfl
  cases res with
  | error e => exact Phased.ret fun _ _ => rfl
  | ok o =>
    dsimp only
    split
    · refine Party.bind (Party.perform (fun _ => trivial) fun _ => rfl) ?_
      rintro _ _ rfl
      refine Party.bind (Party.perform (fun _ => trivial) fun _ => rfl) ?_
      rintro _ _ rfl
      exact Phased.ret fun _ _ => rfl
    · exact Phased.ret fun _ _ => rfl

theorem persistOp_party (o : Outcome) (fence : Nat) (res : Result ArtifactDescriptor) :
    Party env C (fun _ ph => ph = .returned fence o res none) (persistOp env o)
      (.returned fence o res none) := by
  unfold persistOp
  refine Party.bind (Q := fun _ ph => ph = .returned fence o res none)
    (Phased.sect fun s _ _ _ => ⟨trivial, rfl⟩) ?_
  rintro out _ rfl
  cases out with
  | ok _ => exact Party.perform (fun _ => trivial) fun _ => rfl
  | error e =>
    refine Party.bind (Party.perform (fun _ => trivial) fun _ => rfl) ?_
    rintro _ _ rfl
    exact Party.perform (fun _ => trivial) fun _ => rfl

theorem publishOp_party (fence : Nat) (o : Outcome) :
    Party env C (fun res ph => ph.gives res) (publishOp env fence o) (.erased fence o) := by
  unfold publishOp
  refine Party.bind (Party.perform (fun _ => trivial) fun _ => rfl) ?_
  rintro _ _ rfl
  refine Party.bind (Q := fun _ ph => ph = .returned fence o (.ok o.desc) none)
    (Phased.sect fun s _ _ _ => ⟨rfl, rfl⟩) ?_
  rintro newRecord _ rfl
  split
  · refine Party.bind (persistOp_party o fence _) ?_
    rintro _ _ rfl
    exact Phased.ret fun _ _ => ⟨rfl, rfl⟩
  · exact Phased.ret fun _ _ => ⟨rfl, rfl⟩

theorem finishBuild_party (digest : Sha256Digest) (fence : Nat) (o : Outcome) :
    Party env C (fun res ph => ph.gives res) (finishBuild env digest fence o)
      (.built digest fence) := by
  unfold finishBuild
  refine Party.bind (Party.perform (fun _ => trivial) fun _ => rfl) ?_
  rintro _ _ rfl
  refine Party.bind (Q := fun _ ph => ph = .fulfilled digest fence o)
    (Phased.sect fun s _ _ _ => ⟨⟨digest, rfl⟩, rfl⟩) ?_
  rintro _ _ rfl
  refine Party.bind (Q := fun _ ph => ph = .erased fence o)
    (Phased.sect fun s _ _ _ => ⟨⟨o, rfl⟩, rfl⟩) ?_
  rintro _ _ rfl
  split
  · refine Party.bind (Party.perform (fun _ => trivial) fun _ => rfl) ?_
    rintro _ _ rfl
    refine Party.bind (Party.perform (fun _ => trivial) fun _ => rfl) ?_
    rintro _ _ rfl
    exact Phased.ret fun _ _ => ⟨_, rfl⟩
  · exact publishOp_party fence o

theorem buildImpl_party (request : KernelLookupRequest) {ph : Phase} (hph : ph.outside) :
    Party env C (fun res ph' => ph'.gives res) (buildImpl env request) ph := by
  unfold buildImpl
  dsimp only
  generalize buildRequestOf env request = request
  refine Party.bind (Q := fun joined ph' =>
      ph' = Phase.joined request.key.ensureFinalized.digest joined)
    (Phased.sect fun s _ _ _ => ⟨hph, ?_⟩) ?_
  · cases ph with
    | idle => rfl
    | looked candidates => rfl
    | _ => exact hph.elim
  · rintro joined _ rfl
    cases joined with
    | waiter fence => exact buildWaiter_party fence
    | owner fence gen =>
      show Party env C _ (buildOwner env request _ fence gen) (.owner _ fence)
      unfold buildOwner
      refine Party.bind (runBuildOp_party request gen fence) ?_
      rintro res _ rfl
      cases res with
      | error e => exact Phased.ret fun _ _ => ⟨e, rfl⟩
      | ok o => exact finishBuild_party _ fence o

/-! ### All operations -/

/-- What a lookup answers from a phase. -/
def Phase.finds (request : KernelLookupRequest) (res : Result KernelLookupResult) : Phase → Prop
  | .idle => request.key.wellFormed = false ∧ ∃ e, res = .error e
  | .looked candidates =>
    res = .ok (decideLookup request.key.finalize request.policy candidates)
  | _ => False

theorem lookupImpl_party (request : KernelLookupRequest) :
    Party env C (fun res ph => ph.finds request res) (lookupImpl request) .idle := by
  unfold lookupImpl
  dsimp only
  rw [KernelCompatibilityKey.finalize_finalized]
  cases hkey : request.key.wellFormed with
  | false => exact Phased.ret fun _ _ => ⟨hkey, _, rfl⟩
  | true =>
    refine Party.bind (Q := fun candidates ph => ph = .looked candidates)
      (Phased.sect fun s _ _ _ => ⟨trivial, rfl⟩) ?_
    rintro candidates _ rfl
    refine Party.bind (Party.perform (fun _ => trivial) fun _ => rfl) ?_
    rintro _ _ rfl
    refine Party.bind (Party.perform (fun _ => trivial) fun _ => rfl) ?_
    rintro _ _ rfl
    exact Phased.ret fun _ _ => rfl

/-- Leasing what `build_impl` returned. -/
theorem leaseRecord_party (request : KernelLookupRequest) (vanished : Str) {desc : ArtifactDescriptor}
    {ph : Phase} (hph : ph.gives (.ok desc)) :
    Party env C (fun res ph' => ph'.answers (answer .lease res) ∧ ¬ ph'.outside)
      (leaseRecord env request desc.id vanished) ph := by
  obtain ⟨fence, o, rfl⟩ := Phase.returned_of_gives hph
  have hinert := inert_led fence o (.ok desc) desc.id
  unfold leaseRecord
  refine Party.bind (Q := fun _ ph => ph = .returned fence o (.ok desc) (some desc.id))
    (Phased.sect fun s _ _ _ => ⟨trivial, rfl⟩) ?_
  rintro found _ rfl
  cases found with
  | none => exact Phased.ret fun _ _ => ⟨⟨desc, rfl, rfl⟩, fun h => h⟩
  | some p =>
    refine Party.bind (Q := fun _ ph => ph = .returned fence o (.ok desc) (some desc.id))
      (Party.of_free (promoteToTier_free (covers_inert hinert) (evictsFree_inert hinert) p _ _) rfl
        fun _ _ h => h) ?_
    rintro promoted _ rfl
    cases promoted with
    | error e => exact Phased.ret fun _ _ => ⟨⟨desc, rfl, rfl⟩, fun h => h⟩
    | ok _ => exact Phased.sect fun s _ _ _ => ⟨trivial, ⟨desc, rfl, rfl⟩, fun h => h⟩

/-- A finished acquire that stayed outside the protocol was refused, saw a hit or may not build. -/
def Phase.declines (request : KernelLookupRequest) : Phase → Prop
  | .idle => request.key.wellFormed = false
  | .looked candidates => request.allowMissBuild = true →
      (decideLookup request.key.finalize request.policy candidates).outcome.isHit = true
  | _ => True

theorem Phase.declines_of_inside {request : KernelLookupRequest} {ph : Phase} (h : ¬ ph.outside) :
    ph.declines request := by
  cases ph with
  | idle => exact absurd trivial h
  | looked candidates => exact absurd trivial h
  | _ => exact trivial

theorem Phase.inside_of_gives {res : Result ArtifactDescriptor} {ph : Phase} (h : ph.gives res) :
    ¬ ph.outside := by
  cases ph with
  | idle => exact h.elim
  | looked candidates => exact h.elim
  | _ => exact fun hout => hout

theorem acquireImpl_party (request : KernelLookupRequest) :
    Party env C (fun res ph => ph.answers (answer .lease res) ∧ ph.declines request)
      (acquireImpl env request) .idle := by
  unfold acquireImpl
  refine Party.bind (lookupImpl_party _) ?_
  intro res ph hfinds
  cases ph with
  | idle =>
    obtain ⟨hkey, e, rfl⟩ := hfinds
    exact Phased.ret fun _ _ => ⟨trivial, by simpa [Phase.declines] using hkey⟩
  | looked candidates =>
    have hres : res = .ok (decideLookup request.key.finalize request.policy candidates) := by
      simpa [Phase.finds] using hfinds
    subst hres
    simp only [acquireDecided]
    generalize hd : decideLookup request.key.finalize request.policy candidates = d
    cases hhit : d.outcome.isHit with
    | true =>
      -- a hit: leased without a build
      have hdeclines : Phase.declines request (.looked candidates) := by
        intro _
        rw [hd]
        exact hhit
      have hinert : Inert (fun ph => ph = .looked candidates) := by
        rintro ph rfl l s hfence -
        cases l with
        | join digest => cases hfence
        | _ => rfl
      refine Party.of_free (leaseRecord_free (covers_inert hinert) (evictsFree_inert hinert) _ _ _)
        rfl ?_
      rintro a ph rfl
      exact ⟨trivial, hdeclines⟩
    | false =>
      simp only [acquireMiss, Bool.false_eq_true, if_false]
      split
      · refine Party.bind (buildImpl_party _ trivial) ?_
        intro built ph hgives
        cases built with
        | error e =>
          exact Phased.ret fun _ _ => ⟨Phase.answers_of_gives hgives,
            Phase.declines_of_inside (Phase.inside_of_gives hgives)⟩
        | ok desc =>
          exact (leaseRecord_party _ _ hgives).weaken (fun _ h => h) fun _ _ _ h =>
            ⟨h.1, Phase.declines_of_inside h.2⟩
      · rename_i hno
        exact Phased.ret fun _ _ => ⟨trivial, fun hallow => absurd hallow hno⟩
  | _ => exact hfinds.elim

/-- **Every operation is a party.** -/
theorem operation_party (op : Operation) :
    Party env C (fun a ph => ph.answers a) (op.prog env) .idle := by
  by_cases hop : op.builds = true
  · cases op with
    | build request =>
      refine Party.bind (buildImpl_party request trivial) fun res ph hgives => ?_
      refine Phased.ret fun _ _ => ?_
      cases res with
      | error e => exact Phase.answers_of_gives hgives
      | ok desc =>
        obtain ⟨fence, o, rfl⟩ := Phase.returned_of_gives hgives
        exact rfl
    | acquire request =>
      refine Party.bind (acquireImpl_party request) fun res ph h => ?_
      exact Phased.ret fun _ _ => h.1
    | _ => cases hop
  · refine Party.of_free (operation_free_of_not_builds (covers_inert inert_outside)
      (evictsFree_inert inert_outside) (by simpa using hop)) trivial ?_
    exact fun _ _ => Phase.answers_of_outside

end Parties

/-! ## Fences -/

namespace Phase

/-- The ways a phase can change. -/
theorem next_cases (ph : Phase) (l : Step) (s : Impl) :
    next ph l s = ph ∨
    (∃ key, ph = idle ∧ l = .collect key ∧ next ph l s = looked (s.collectCandidates key)) ∨
    (∃ digest, ph.outside ∧ l = .join digest ∧ next ph l s = joined digest (s.join digest).1) ∨
    (∃ fence fence', ph = attached fence ∧ l = .await fence' ∧
      next ph l s = awaited fence ((s.fences fence).getD default)) ∨
    (∃ fence o fence' o', ph = awaited fence o ∧ l = .findBuilt fence' o' ∧
      next ph l s = returned fence o (s.findBuilt o) none) ∨
    (∃ digest fence request gen, ph = owner digest fence ∧ l = .runBuild request gen ∧
      next ph l s = built digest fence) ∨
    (∃ digest fence fence' o, ph = built digest fence ∧ l = .fulfil fence' o ∧
      next ph l s = fulfilled digest fence o) ∨
    (∃ digest fence o fence' digest', ph = fulfilled digest fence o ∧
      l = .eraseFence fence' digest' ∧ next ph l s = erased fence o) ∨
    (∃ fence o fence' o', ph = erased fence o ∧ l = .publish fence' o' ∧
      next ph l s = returned fence o (.ok o.desc) none) ∨
    (∃ fence o res id, ph = returned fence o res none ∧ l = .find id ∧
      next ph l s = returned fence o res (some id)) := by
  unfold next
  split
  · exact .inr (.inl ⟨_, rfl, rfl, rfl⟩)
  · exact .inr (.inr (.inl ⟨_, trivial, rfl, rfl⟩))
  · exact .inr (.inr (.inl ⟨_, trivial, rfl, rfl⟩))
  · exact .inr (.inr (.inr (.inl ⟨_, _, rfl, rfl, rfl⟩)))
  · exact .inr (.inr (.inr (.inr (.inl ⟨_, _, _, _, rfl, rfl, rfl⟩))))
  · exact .inr (.inr (.inr (.inr (.inr (.inl ⟨_, _, _, _, rfl, rfl, rfl⟩)))))
  · exact .inr (.inr (.inr (.inr (.inr (.inr (.inl ⟨_, _, _, _, rfl, rfl, rfl⟩))))))
  · exact .inr (.inr (.inr (.inr (.inr (.inr (.inr (.inl ⟨_, _, _, _, _, rfl, rfl, rfl⟩)))))))
  · exact .inr (.inr (.inr (.inr (.inr (.inr (.inr (.inr (.inl ⟨_, _, _, _, rfl, rfl, rfl⟩))))))))
  · exact .inr (.inr (.inr (.inr (.inr (.inr (.inr (.inr (.inr ⟨_, _, _, _, rfl, rfl, rfl⟩))))))))
  · exact .inl rfl

/-- The fence an owner has still to fulfil. -/
def owes : Phase → Option Nat
  | owner _ fence | built _ fence => some fence
  | _ => none

/-- The fence whose outcome the caller knows, with the outcome. -/
def knows : Phase → Option (Nat × Outcome)
  | awaited fence o | fulfilled _ fence o | erased fence o | returned fence o _ _ => some (fence, o)
  | _ => none

end Phase

/-- An open fence has one owner, and what callers know about a fence is what its promise holds. -/
structure Flight (P : Nat → Phase) (s : Impl) : Prop where
  fresh : ∀ fence, s.nextFence ≤ fence → s.fences fence = none
  owed : ∀ i fence, (P i).owes = some fence → fence < s.nextFence ∧ s.fences fence = none
  single : ∀ i j fence, (P i).owes = some fence → (P j).owes = some fence → i = j
  known : ∀ i fence o, (P i).knows = some (fence, o) → s.fences fence = some o

theorem flight_initial (store : FilePersistenceStore) :
    Flight (fun _ => .idle) (Impl.initial store) := by
  refine ⟨fun _ _ => rfl, ?_, ?_, ?_⟩
  · intro i fence h
    cases h
  · intro i j fence h
    cases h
  · intro i fence o h
    cases h

/-- Fences stay, and the caller learns nothing it should not: one party moves. -/
theorem Flight.move {P : Nat → Phase} {s s' : Impl} (h : Flight P s) {i : Nat} {ph : Phase}
    (hfences : s'.fences = s.fences) (hnext : s'.nextFence = s.nextFence)
    (howes : ∀ fence, ph.owes = some fence → (P i).owes = some fence)
    (hknows : ∀ fence o, ph.knows = some (fence, o) → s.fences fence = some o) :
    Flight (Function.update P i ph) s' := by
  have howes' : ∀ j fence, (Function.update P i ph j).owes = some fence →
      (P j).owes = some fence := by
    intro j fence hj
    by_cases hij : j = i
    · subst hij
      rw [Function.update_self] at hj
      exact howes fence hj
    · rwa [Function.update_of_ne hij] at hj
  refine ⟨?_, ?_, ?_, ?_⟩
  · rw [hnext, hfences]
    exact h.fresh
  · intro j fence hj
    rw [hnext, hfences]
    exact h.owed j fence (howes' j fence hj)
  · exact fun j k fence hj hk => h.single j k fence (howes' j fence hj) (howes' k fence hk)
  · intro j fence o hj
    rw [hfences]
    by_cases hij : j = i
    · subst hij
      rw [Function.update_self] at hj
      exact hknows fence o hj
    · rw [Function.update_of_ne hij] at hj
      exact h.known j fence o hj

/-- A caller becomes the owner of a new fence. -/
theorem Flight.own {P : Nat → Phase} {s s' : Impl} (h : Flight P s) {i : Nat}
    {digest : Sha256Digest} (hfences : s'.fences = s.fences) (hnext : s'.nextFence = s.nextFence + 1) :
    Flight (Function.update P i (.owner digest s.nextFence)) s' := by
  have howed : ∀ j fence, (Function.update P i (.owner digest s.nextFence) j).owes = some fence →
      (j = i ∧ fence = s.nextFence) ∨ (j ≠ i ∧ (P j).owes = some fence) := by
    intro j fence hj
    by_cases hij : j = i
    · subst hij
      rw [Function.update_self] at hj
      exact .inl ⟨rfl, (Option.some.inj hj).symm⟩
    · rw [Function.update_of_ne hij] at hj
      exact .inr ⟨hij, hj⟩
  refine ⟨?_, ?_, ?_, ?_⟩
  · intro fence hle
    rw [hfences]
    exact h.fresh fence (by omega)
  · intro j fence hj
    rw [hfences, hnext]
    rcases howed j fence hj with ⟨-, rfl⟩ | ⟨-, hj⟩
    · exact ⟨Nat.lt_succ_self _, h.fresh _ le_rfl⟩
    · obtain ⟨hlt, hopen⟩ := h.owed j fence hj
      exact ⟨Nat.lt_succ_of_lt hlt, hopen⟩
  · intro j k fence hj hk
    rcases howed j fence hj with ⟨rfl, rfl⟩ | ⟨-, hj'⟩
    · rcases howed k _ hk with ⟨rfl, -⟩ | ⟨-, hk'⟩
      · rfl
      · exact absurd (h.owed k _ hk').1 (Nat.lt_irrefl _)
    · rcases howed k fence hk with ⟨rfl, rfl⟩ | ⟨-, hk'⟩
      · exact absurd (h.owed j _ hj').1 (Nat.lt_irrefl _)
      · exact h.single j k fence hj' hk'
  · intro j fence o hj
    rw [hfences]
    by_cases hij : j = i
    · subst hij
      rw [Function.update_self] at hj
      cases hj
    · rw [Function.update_of_ne hij] at hj
      exact h.known j fence o hj

/-- An owner keeps its promise. -/
theorem Flight.keep {P : Nat → Phase} {s s' : Impl} (h : Flight P s) {i fence : Nat} {o : Outcome}
    {ph : Phase} (howes : (P i).owes = some fence)
    (hfences : s'.fences = Function.update s.fences fence (some o))
    (hnext : s'.nextFence = s.nextFence) (hpaid : ph.owes = none)
    (hknows : ph.knows = some (fence, o)) : Flight (Function.update P i ph) s' := by
  obtain ⟨hlt, hopen⟩ := h.owed i fence howes
  have howed : ∀ j fence', (Function.update P i ph j).owes = some fence' →
      (P j).owes = some fence' ∧ fence' ≠ fence := by
    intro j fence' hj
    by_cases hij : j = i
    · subst hij
      rw [Function.update_self, hpaid] at hj
      cases hj
    · rw [Function.update_of_ne hij] at hj
      refine ⟨hj, ?_⟩
      rintro rfl
      exact hij (h.single j i _ hj howes)
  refine ⟨?_, ?_, ?_, ?_⟩
  · intro fence' hle
    rw [hnext] at hle
    rw [hfences, Function.update_of_ne (by omega)]
    exact h.fresh fence' hle
  · intro j fence' hj
    obtain ⟨hj, hne⟩ := howed j fence' hj
    rw [hfences, hnext, Function.update_of_ne hne]
    exact h.owed j fence' hj
  · exact fun j k fence' hj hk => h.single j k fence' (howed j fence' hj).1 (howed k fence' hk).1
  · intro j fence' o' hj
    by_cases hij : j = i
    · subst hij
      rw [Function.update_self, hknows] at hj
      cases hj
      rw [hfences, Function.update_self]
    · rw [Function.update_of_ne hij] at hj
      have hheld := h.known j fence' o' hj
      have hne : fence' ≠ fence := by
        rintro rfl
        rw [hopen] at hheld
        cases hheld
      rw [hfences, Function.update_of_ne hne]
      exact hheld

/-- A section outside the single-flight protocol, or the end of a flight, as seen by its caller. -/
theorem Flight.knows_next {env : Env} {P : Nat → Phase} {i : Nat} {l : Step} {s s' : Impl}
    (h : Flight P s) (hok : ok (P i) l s) (hstep : exec env l s = some s')
    (hjoin : ∀ digest, l ≠ .join digest) (hfulfil : ∀ fence o, l ≠ .fulfil fence o) :
    (∀ fence, (next (P i) l s).owes = some fence → (P i).owes = some fence) ∧
      ∀ fence o, (next (P i) l s).knows = some (fence, o) → s.fences fence = some o := by
  -- most phases carry over what was known and owe nothing
  have hcarry : ∀ ph, next (P i) l s = ph → ph.owes = none → ph.knows = (P i).knows →
      (∀ fence, (next (P i) l s).owes = some fence → (P i).owes = some fence) ∧
        ∀ fence o, (next (P i) l s).knows = some (fence, o) → s.fences fence = some o := by
    intro ph heq howes hknows
    rw [heq, howes, hknows]
    exact ⟨(fun _ hnone => by cases hnone), h.known i⟩
  rcases Phase.next_cases (P i) l s with heq | ⟨key, hph, -, heq⟩ | ⟨digest, -, rfl, -⟩ |
    ⟨fence, fence', hph, rfl, heq⟩ | ⟨fence, o, fence', o', hph, -, heq⟩ |
    ⟨digest, fence, request, gen, hph, -, heq⟩ | ⟨digest, fence, fence', o, -, rfl, -⟩ |
    ⟨digest, fence, o, fence', digest', hph, -, heq⟩ | ⟨fence, o, fence', o', hph, -, heq⟩ |
    ⟨fence, o, res, id, hph, -, heq⟩
  · rw [heq]
    exact ⟨fun _ h => h, h.known i⟩
  · exact hcarry _ heq rfl (by rw [hph]; rfl)
  · exact absurd rfl (hjoin digest)
  · -- a promise that is kept is there to be read
    have hfence : fence' = fence := by
      have hok' : P i = .attached fence' := hok
      rw [hph] at hok'
      cases hok'
      rfl
    subst hfence
    have hready : (s.fences fence').isSome = true := (exec_eq_some.mp hstep).1
    obtain ⟨o', ho'⟩ := Option.isSome_iff_exists.mp hready
    rw [heq]
    refine ⟨(fun _ hnone => by cases hnone), fun f o hk => ?_⟩
    simp only [Phase.knows, ho', Option.getD_some, Option.some.injEq, Prod.mk.injEq] at hk
    rw [← hk.1, ← hk.2]
    exact ho'
  · exact hcarry _ heq rfl (by rw [hph]; rfl)
  · -- the promise is still owed
    rw [heq, hph]
    exact ⟨fun _ h => h, fun _ _ hnone => by cases hnone⟩
  · exact absurd rfl (hfulfil fence' o)
  · exact hcarry _ heq rfl (by rw [hph]; rfl)
  · exact hcarry _ heq rfl (by rw [hph]; rfl)
  · exact hcarry _ heq rfl (by rw [hph]; rfl)

/-- **Fences, one step.** -/
theorem exec_flight {env : Env} {P : Nat → Phase} {i : Nat} {l : Step} {s s' : Impl}
    (h : Flight P s) (hok : ok (P i) l s) (hstep : exec env l s = some s') (hl : l.Proper) :
    Flight (Function.update P i (next (P i) l s)) s' := by
  by_cases hfence : l.isFence = false
  · -- the promises stay as they are
    have hsame := exec_sameFences hstep hl hfence
    obtain ⟨howes, hknows⟩ := h.knows_next hok hstep (by rintro digest rfl; cases hfence)
      (by rintro fence o rfl; cases hfence)
    exact h.move hsame.fences hsame.nextFence howes hknows
  cases l with
  | join digest =>
    obtain ⟨-, rfl⟩ := exec_eq_some.mp hstep
    have hnext : next (P i) (.join digest) s = Phase.joined digest (s.join digest).1 := by
      have hout : (P i).outside := hok
      cases hP : P i with
      | idle => rfl
      | looked candidates => rfl
      | _ =>
        rw [hP] at hout
        exact hout.elim
    rw [hnext]
    cases hflight : s.inFlight.lookup digest with
    | some fence =>
      have hjoined : (s.join digest).1 = .waiter fence := by simp only [Impl.join, hflight]
      rw [hjoined]
      refine h.move ?_ ?_ (fun _ h => by cases h) fun _ _ h => by cases h
      · show (s.join digest).2.fences = s.fences
        simp only [Impl.join, hflight, Impl.bump]
      · show (s.join digest).2.nextFence = s.nextFence
        simp only [Impl.join, hflight, Impl.bump]
    | none =>
      have hjoined : (s.join digest).1 = .owner s.nextFence s.nextGeneration := by
        simp only [Impl.join, hflight]
      have hfences : (s.join digest).2.fences = s.fences := by simp only [Impl.join, hflight]
      have hnew : (s.join digest).2.nextFence = s.nextFence + 1 := by
        simp only [Impl.join, hflight]
      rw [hjoined]
      exact h.own hfences hnew
  | fulfil fence o =>
    obtain ⟨digest, hP⟩ : ∃ digest, P i = .built digest fence := hok
    obtain ⟨-, rfl⟩ := exec_eq_some.mp hstep
    have howes : (P i).owes = some fence := by rw [hP]; rfl
    have hopen := (h.owed i fence howes).2
    have hfences : (s.fulfil fence o).fences = Function.update s.fences fence (some o) := by
      simp only [Impl.fulfil, hopen]
    have hsame : (s.fulfil fence o).nextFence = s.nextFence := by simp only [Impl.fulfil, hopen]
    rw [hP]
    exact h.keep howes hfences hsame rfl rfl
  | eraseFence fence digest =>
    obtain ⟨howes, hknows⟩ := h.knows_next hok hstep (by rintro digest h; cases h)
      (by rintro fence o h; cases h)
    obtain ⟨-, rfl⟩ := exec_eq_some.mp hstep
    refine h.move ?_ ?_ howes hknows
    · show (s.eraseFence fence digest).fences = s.fences
      unfold Impl.eraseFence
      split <;> rfl
    · show (s.eraseFence fence digest).nextFence = s.nextFence
      unfold Impl.eraseFence
      split <;> rfl
  | _ => exact absurd rfl hfence

/-! ## What brought a caller to its phase -/

namespace Phase

theorem joined_inside (digest : Sha256Digest) (j : Impl.Joined) : ¬ (joined digest j).outside := by
  cases j with
  | owner fence gen => exact fun h => h
  | waiter fence => exact fun h => h

/-- How a caller comes to have looked. -/
theorem looked_of_next {ph : Phase} {l : Step} {s : Impl} {candidates : List Impl.CandidateSnapshot}
    (h : next ph l s = looked candidates) : ph = looked candidates ∨
      ∃ key, l = .collect key ∧ candidates = s.collectCandidates key := by
  rcases next_cases ph l s with heq | ⟨key, -, hl, heq⟩ | ⟨digest, -, -, heq⟩ | ⟨_, _, -, -, heq⟩ |
    ⟨_, _, _, _, -, -, heq⟩ | ⟨_, _, _, _, -, -, heq⟩ | ⟨_, _, _, _, -, -, heq⟩ |
    ⟨_, _, _, _, _, -, -, heq⟩ | ⟨_, _, _, _, -, -, heq⟩ | ⟨_, _, _, _, -, -, heq⟩
  · exact .inl (heq.symm.trans h)
  · rw [heq] at h
    cases h
    exact .inr ⟨key, hl, rfl⟩
  · have hinside := joined_inside digest (s.join digest).1
    rw [← heq, h] at hinside
    exact absurd trivial hinside
  all_goals
    rw [heq] at h
    cases h

/-- A caller enters the protocol by joining. -/
theorem inside_of_next {ph : Phase} {l : Step} {s : Impl} (h : ¬ (next ph l s).outside) :
    ¬ ph.outside ∨ ∃ digest, l = .join digest := by
  rcases next_cases ph l s with heq | ⟨_, -, -, heq⟩ | ⟨digest, -, hl, -⟩ | ⟨_, _, hph, -, -⟩ |
    ⟨_, _, _, _, hph, -, -⟩ | ⟨_, _, _, _, hph, -, -⟩ | ⟨_, _, _, _, hph, -, -⟩ |
    ⟨_, _, _, _, _, hph, -, -⟩ | ⟨_, _, _, _, hph, -, -⟩ | ⟨_, _, _, _, hph, -, -⟩
  · exact .inl (heq ▸ h)
  · rw [heq] at h
    exact absurd trivial h
  · exact .inr ⟨digest, hl⟩
  all_goals
    rw [hph]
    exact .inl fun hout => hout

/-- How a caller comes to a result of `build_impl`. -/
theorem returned_of_next {ph : Phase} {l : Step} {s : Impl} {fence : Nat} {o : Outcome}
    {res : Result ArtifactDescriptor} {led : Option ArtifactId}
    (h : next ph l s = returned fence o res led) :
    (∃ led', ph = returned fence o res led' ∧ (led = led' ∨ ∃ id, l = .find id ∧ led = some id)) ∨
    (ph = awaited fence o ∧ (∃ fence' o', l = .findBuilt fence' o') ∧ res = s.findBuilt o ∧
      led = none) ∨
    (ph = erased fence o ∧ (∃ fence' o', l = .publish fence' o') ∧ res = .ok o.desc ∧
      led = none) := by
  rcases next_cases ph l s with heq | ⟨_, -, -, heq⟩ | ⟨digest, -, -, heq⟩ | ⟨_, _, -, -, heq⟩ |
    ⟨fence', o', f, o₁, hph, hl, heq⟩ | ⟨_, _, _, _, -, -, heq⟩ | ⟨_, _, _, _, -, -, heq⟩ |
    ⟨_, _, _, _, _, -, -, heq⟩ | ⟨fence', o', f, o₁, hph, hl, heq⟩ |
    ⟨fence', o', res', id, hph, hl, heq⟩
  · exact .inl ⟨led, heq.symm.trans h, .inl rfl⟩
  · rw [heq] at h
    cases h
  · rw [heq] at h
    cases hj : (s.join digest).1 with
    | owner f gen =>
      rw [hj] at h
      cases h
    | waiter f =>
      rw [hj] at h
      cases h
  · rw [heq] at h
    cases h
  · rw [heq] at h
    cases h
    exact .inr (.inl ⟨hph, ⟨f, o₁, hl⟩, rfl, rfl⟩)
  · rw [heq] at h
    cases h
  · rw [heq] at h
    cases h
  · rw [heq] at h
    cases h
  · rw [heq] at h
    cases h
    exact .inr (.inr ⟨hph, ⟨f, o₁, hl⟩, rfl, rfl⟩)
  · rw [heq] at h
    cases h
    exact .inl ⟨none, hph, .inr ⟨id, hl, rfl⟩⟩

/-- Once `build_impl` has returned, its result stays. -/
theorem next_returned (fence : Nat) (o : Outcome) (res : Result ArtifactDescriptor)
    (led : Option ArtifactId) (l : Step) (s : Impl) :
    ∃ led', next (returned fence o res led) l s = returned fence o res led' := by
  unfold next
  split
  all_goals first | exact ⟨led, rfl⟩ | skip
  all_goals rename_i hph
  all_goals cases hph
  exact ⟨_, rfl⟩

theorem next_awaited (fence : Nat) (o : Outcome) (l : Step) (s : Impl) :
    next (awaited fence o) l s = awaited fence o ∨
      ∃ res, next (awaited fence o) l s = returned fence o res none := by
  unfold next
  split
  all_goals first | exact .inl rfl | skip
  all_goals rename_i hph
  all_goals cases hph
  exact .inr ⟨_, rfl⟩

/-- A phase of a caller whose `build_impl` knows the outcome of `fence` as a waiter, or has
returned. -/
def past (fence : Nat) (ph : Phase) : Prop :=
  ∃ o, ph = awaited fence o ∨ ∃ res led, ph = returned fence o res led

theorem past_next {fence : Nat} {ph : Phase} (h : ph.past fence) (l : Step) (s : Impl) :
    (next ph l s).past fence := by
  obtain ⟨o, rfl | ⟨res, led, rfl⟩⟩ := h
  · rcases next_awaited fence o l s with heq | ⟨res, heq⟩
    · exact ⟨o, .inl heq⟩
    · exact ⟨o, .inr ⟨res, none, heq⟩⟩
  · obtain ⟨led', heq⟩ := next_returned fence o res led l s
    exact ⟨o, .inr ⟨res, led', heq⟩⟩

end Phase

/-- The trace accounts for the phases: how a lookup, a result and a find came about, and where those
are that waited for a fence, published or read the index. -/
structure Story (tr : List (Event Step Impl)) (P : Nat → Phase) : Prop where
  looked : ∀ i candidates, P i = .looked candidates → ∃ e ∈ tr, e.thread = i ∧
    ∃ key, e.label = .collect key ∧ candidates = e.before.collectCandidates key
  joined : ∀ i, ¬ (P i).outside → ∃ e ∈ tr, e.thread = i ∧ ∃ digest, e.label = .join digest
  returned : ∀ i fence o res led, P i = .returned fence o res led → ∃ e ∈ tr, e.thread = i ∧
    ((e.label = .findBuilt fence o ∧ res = e.before.findBuilt o) ∨
      (e.label = .publish fence o ∧ res = .ok o.desc))
  led : ∀ i fence o res id, P i = .returned fence o res (some id) →
    ∃ e ∈ tr, e.thread = i ∧ e.label = .find id
  awaited : ∀ e ∈ tr, ∀ fence, e.label = .await fence → (P e.thread).past fence
  ended : ∀ e ∈ tr, ∀ fence o, e.label = .publish fence o ∨ e.label = .findBuilt fence o →
    ∃ res led, P e.thread = .returned fence o res led

theorem story_nil : Story [] (fun _ => .idle) := by
  refine ⟨?_, ?_, ?_, ?_, by simp, by simp⟩
  · intro i candidates h
    cases h
  · intro i h
    exact absurd trivial h
  · intro i fence o res led h
    cases h
  · intro i fence o res id h
    cases h

theorem Story.step {tr : List (Event Step Impl)} {P : Nat → Phase} {i : Nat} {l : Step}
    {s s' : Impl} (h : Story tr P) (hok : ok (P i) l s) :
    Story (tr ++ [⟨i, l, s, s'⟩]) (Function.update P i (next (P i) l s)) := by
  have hnew : (⟨i, l, s, s'⟩ : Event Step Impl) ∈ tr ++ [⟨i, l, s, s'⟩] := by simp
  -- what an earlier section accounts for
  have hold : ∀ {j : Nat} {A : Event Step Impl → Prop}, (∃ e ∈ tr, e.thread = j ∧ A e) →
      ∃ e ∈ tr ++ [⟨i, l, s, s'⟩], e.thread = j ∧ A e := by
    rintro j A ⟨e, he, hA⟩
    exact ⟨e, List.mem_append_left _ he, hA⟩
  refine ⟨?_, ?_, ?_, ?_, ?_, ?_⟩
  · intro j candidates hj
    by_cases hij : j = i
    · subst hij
      rw [Function.update_self] at hj
      rcases Phase.looked_of_next hj with hprev | ⟨key, rfl, rfl⟩
      · exact hold (h.looked j candidates hprev)
      · exact ⟨_, hnew, rfl, key, rfl, rfl⟩
    · rw [Function.update_of_ne hij] at hj
      exact hold (h.looked j candidates hj)
  · intro j hj
    by_cases hij : j = i
    · subst hij
      rw [Function.update_self] at hj
      rcases Phase.inside_of_next hj with hprev | ⟨digest, rfl⟩
      · exact hold (h.joined j hprev)
      · exact ⟨_, hnew, rfl, digest, rfl⟩
    · rw [Function.update_of_ne hij] at hj
      exact hold (h.joined j hj)
  · intro j fence o res led hj
    by_cases hij : j = i
    · subst hij
      rw [Function.update_self] at hj
      rcases Phase.returned_of_next hj with ⟨led', hprev, -⟩ | ⟨hprev, ⟨f, o', rfl⟩, rfl, -⟩ |
        ⟨hprev, ⟨f, o', rfl⟩, rfl, -⟩
      · exact hold (h.returned j fence o res led' hprev)
      · have hok' : P j = .awaited f o' := hok
        rw [hprev] at hok'
        cases hok'
        exact ⟨_, hnew, rfl, .inl ⟨rfl, rfl⟩⟩
      · have hok' : P j = .erased f o' := hok
        rw [hprev] at hok'
        cases hok'
        exact ⟨_, hnew, rfl, .inr ⟨rfl, rfl⟩⟩
    · rw [Function.update_of_ne hij] at hj
      exact hold (h.returned j fence o res led hj)
  · intro j fence o res id hj
    by_cases hij : j = i
    · subst hij
      rw [Function.update_self] at hj
      rcases Phase.returned_of_next hj with ⟨led', hprev, rfl | ⟨id', rfl, hid⟩⟩ | ⟨-, -, -, hled⟩ |
        ⟨-, -, -, hled⟩
      · exact hold (h.led j fence o res id hprev)
      · cases hid
        exact ⟨_, hnew, rfl, rfl⟩
      · cases hled
      · cases hled
    · rw [Function.update_of_ne hij] at hj
      exact hold (h.led j fence o res id hj)
  · intro e he fence hlabel
    rcases List.mem_append.mp he with hprev | hlast
    · by_cases hij : e.thread = i
      · rw [hij, Function.update_self]
        exact Phase.past_next (hij ▸ h.awaited e hprev fence hlabel) l s
      · rw [Function.update_of_ne hij]
        exact h.awaited e hprev fence hlabel
    · obtain rfl := List.mem_singleton.mp hlast
      dsimp only at hlabel ⊢
      subst hlabel
      have hok' : P i = .attached fence := hok
      rw [Function.update_self, hok']
      exact ⟨_, .inl rfl⟩
  · intro e he fence o hlabel
    rcases List.mem_append.mp he with hprev | hlast
    · obtain ⟨res, led, hP⟩ := h.ended e hprev fence o hlabel
      by_cases hij : e.thread = i
      · rw [hij, Function.update_self, ← hij, hP]
        obtain ⟨led', heq⟩ := Phase.next_returned fence o res led l s
        exact ⟨res, led', heq⟩
      · rw [Function.update_of_ne hij]
        exact ⟨res, led, hP⟩
    · obtain rfl := List.mem_singleton.mp hlast
      dsimp only at hlabel ⊢
      rcases hlabel with rfl | rfl
      · have hok' : P i = .erased fence o := hok
        rw [Function.update_self, hok']
        exact ⟨_, _, rfl⟩
      · have hok' : P i = .awaited fence o := hok
        rw [Function.update_self, hok']
        exact ⟨_, _, rfl⟩

/-- The phases of the callers in a run of the cache. -/
abbrev callerPhases (tr : List (Event Step Impl)) : Nat → Phase := phases next (fun _ => .idle) tr

/-- Every section of a run is one its caller may take. -/
theorem runs_party {env : Env} {store : FilePersistenceStore} {tr : List (Event Step Impl)}
    {pool : Pool Step Impl Answer} (h : CacheRuns env store tr pool) : ∀ tr₁ e, tr₁ ++ [e] <+: tr →
      ok (callerPhases tr₁ e.thread) e.label e.before := by
  refine Runs.allowed (C := fun _ _ _ => True) (Q := fun _ a ph _ => ph.answers a)
    (fun i p hp => by cases hp) ?_ h fun _ _ => trivial
  rintro i p ⟨op, rfl⟩
  exact operation_party op

/-- **The protocol, every run.** -/
theorem runs_flight {env : Env} {store : FilePersistenceStore} {tr : List (Event Step Impl)}
    {pool : Pool Step Impl Answer} (h : CacheRuns env store tr pool) :
    Flight (callerPhases tr) pool.shared ∧ Story tr (callerPhases tr) ∧
      ∀ (i : Nat) (a : Answer), pool.threads[i]? = some (.ret a) → (callerPhases tr i).answers a := by
  have hrule := Runs.protocol ok next (fun _ => .idle) (C := fun l _ _ => l.Proper)
    (Q := fun _ a ph _ => ph.answers a) (J := fun tr P s => Flight P s ∧ Story tr P) ?_ ?_
    ⟨flight_initial store, story_nil⟩ ?_ h (runs_proper h)
  · exact ⟨hrule.1.1, hrule.1.2, hrule.2⟩
  · intro i p hp
    simp at hp
  · rintro i p ⟨op, rfl⟩
    exact operation_party op
  · rintro tr P i l s s' ⟨hflight, hstory⟩ hok hstep hl
    exact ⟨exec_flight hflight hok hstep hl, hstory.step hok⟩

end KernelCache
