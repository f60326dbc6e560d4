/-
# KernelCache.ModulePath — the way of a loaded module through an operation.

A module travels: `promote_to_tier` loads it with no lock held and commits it to the record in one
section; eviction and `unload` read the handle, pass it to the loader with no lock held and reset the
record in another section.  `Holding` is what a thread has in hand in between, a module loaded and not
committed, or one unloaded and not reset.  `operation_carries` shows that every operation moves
modules along this path and no other, `runs_grounded` that the records on it are there.
-/
import KernelCache.Foundation.Protocol
import KernelCache.Sequential

namespace KernelCache

open Foundation (Prog Runs Pool Event Stable)
open Foundation.Prog (sect perform Free Sat Phased)

/-- The steps considered at first. -/
structure SoundSteps (l : Step) (s _s' : Impl) : Prop where
  proper : l.Proper
  sound : s.Sound

/-- Every step considered is one of these. -/
abbrev FromSound (C : Step → Impl → Impl → Prop) : Prop := ∀ l s s', C l s s' → SoundSteps l s s'

theorem fromSound_self : FromSound SoundSteps := fun _ _ _ h => h

/-! ## Operations on a record that is there -/

section There

variable {env : Env} {C G : Step → Impl → Impl → Prop} {K : Stage → Prop}

/-- A walk covers single sections. -/
theorem Walk.guarantees (w : Walk (Guaranteed env C G) K) {l : Step} (hstage : K l.stage)
    (hl : l.Ordinary) {s s' : Impl} (h : exec env l s = some s') (hstep : C l s s') : G l s s' :=
  (w.perform hl hstage s s' trivial h hstep).1

theorem stable_there (hC : FromSound C) (p : Nat) :
    Stable (exec env) C (fun s => p < s.nextRecord) :=
  fun l s s' hp h hstep => lt_of_lt_of_le hp (exec_extends h (hC l s s' hstep).proper).next_le

/-- What is found under an id is there. -/
theorem find_there (hC : FromSound C) (w : Walk (Guaranteed env C G) K) (hplain : K .plain)
    (id : ArtifactId) :
    (sect (Step.find id) fun s => s.byId.lookup id).Sat (exec env) C G
      (fun found s => ∀ p, found = some p → p < s.nextRecord) (fun _ => True) := by
  refine Sat.sect ?_ ?_
  · exact fun found l s s' hP h hstep p hp => stable_there hC p l s s' (hP p hp) h hstep
  · intro s s' _ h hstep
    refine ⟨w.guarantees (l := .find id) hplain trivial h hstep, fun p hp => ?_⟩
    have hsound := hC _ s s' hstep
    exact lt_of_lt_of_le (hsound.sound.bound id p hp).1 (exec_extends h hsound.proper).next_le

/-- The program is verified where the record is there. -/
abbrev SatThere (env : Env) (C G : Step → Impl → Impl → Prop) (p : Nat) {α : Type} (q : Op α) :
    Prop :=
  q.Sat (exec env) C G (fun _ _ => True) (fun s => p < s.nextRecord)

theorem Guaranteed.there {α : Type} {Q : α → Prop} {q : Op α} (h : Guaranteed env C G α Q q)
    (p : Nat) : SatThere env C G p q :=
  Sat.weaken h (fun _ _ => trivial) fun _ _ _ => trivial

theorem promoteToTier_there (hC : FromSound C) (w : Walk (Guaranteed env C G) K) (hplain : K .plain)
    {p : Nat} (hdevice : ∀ device, SatThere env C G p (promoteToDevice env p device))
    (hhost : SatThere env C G p (promoteToHost env p)) (desired : ResidencyTier)
    (device : DeviceDescriptor) : SatThere env C G p (promoteToTier env p desired device) := by
  unfold promoteToTier
  split
  · exact Sat.ret fun _ _ => trivial
  · refine Sat.bind (Guaranteed.carry (stable_there hC p)
      (w.sect (Q := Walk.Any) hplain trivial fun _ => trivial)) fun current => ?_
    split
    · exact Sat.ret fun _ _ => trivial
    · cases desired with
      | deviceResident => exact (hdevice device).weaken (fun _ hp => hp.2) fun _ _ h => h
      | hostResident => exact hhost.weaken (fun _ hp => hp.2) fun _ _ h => h
      | _ => exact Sat.ret fun _ _ => trivial

theorem leaseRecord_there (hC : FromSound C) (w : Walk (Guaranteed env C G) K) (hplain : K .plain)
    (hpromote : ∀ p desired device, SatThere env C G p (promoteToTier env p desired device))
    (hlease : ∀ p pin, SatThere env C G p
      (sect (Step.grantLease p pin) fun s => (s.grantLease env p pin).1))
    (request : KernelLookupRequest) (id : ArtifactId) (vanished : Str) :
    (leaseRecord env request id vanished).Free (exec env) C G := by
  unfold leaseRecord
  refine Sat.bind (find_there hC w hplain id) fun found => ?_
  cases found with
  | none => exact Sat.ret fun _ _ => trivial
  | some p =>
    -- the record is still there when the promotion is done
    refine Sat.bind ((Sat.frame (stable_there hC p) (hpromote p _ _)).weaken
      (fun s hs => ⟨hs p rfl, hs p rfl⟩) fun _ _ h => h) fun promoted => ?_
    cases promoted with
    | error e => exact Sat.ret fun _ _ => trivial
    | ok _ => exact (hlease p request.pin).weaken (fun _ hs => hs.2) fun _ _ h => h

theorem loadOp_there (hC : FromSound C) (w : Walk (Guaranteed env C G) K) (hplain : K .plain)
    (hpromote : ∀ p desired device, SatThere env C G p (promoteToTier env p desired device))
    (id : ArtifactId) : (loadOp env id).Free (exec env) C G := by
  unfold loadOp
  refine Sat.bind (find_there hC w hplain id) fun found => ?_
  cases found with
  | none => exact Sat.ret fun _ _ => trivial
  | some p =>
    refine Sat.bind ((hpromote p _ _).weaken (fun s hs => hs p rfl) fun _ _ h => h)
      fun promoted => ?_
    cases promoted with
    | error e => exact Sat.ret fun _ _ => trivial
    | ok _ =>
      exact Sat.bind (w.sect (Q := Walk.Any) hplain trivial fun _ => trivial)
        fun _ => Sat.ret fun _ _ => trivial

/-- **The walk around the reloads.** A walk that leaves out builds and the sections that keep reloaded
bytes is told about builds, and about `ensure_bytes` on a record that is there. -/
theorem operation_around_reloads (hC : FromSound C) (w : Walk (Guaranteed env C G) K)
    (hK : ∀ g : Stage, g ≠ .reload → g ≠ .build → K g)
    (hensure : ∀ p, SatThere env C G p (ensureBytes env p))
    (hbuild : ∀ request, (buildImpl env request).Free (exec env) C G) (op : Operation) :
    (op.prog env).Free (exec env) C G := by
  have hplain : K .plain := hK _ (by decide) (by decide)
  have hevict : ∀ id force, (evictImpl env id force).Free (exec env) C G :=
    w.evictImpl hplain (hK _ (by decide) (by decide))
  have hload : K .load := hK _ (by decide) (by decide)
  have hdevice : ∀ p device, SatThere env C G p (promoteToDevice env p device) := by
    intro p device
    unfold promoteToDevice
    refine Sat.bind (hensure p) fun bytes => ?_
    cases bytes with
    | error e => exact Sat.ret fun _ _ => trivial
    | ok bytes =>
      refine w.bind (w.sect (Q := Walk.Any) hload trivial fun _ => trivial) fun loaded _ => ?_
      cases loaded with
      | error e => exact w.ret trivial
      | ok out =>
        refine w.bind (w.perform trivial hload) fun _ _ => ?_
        refine w.bind (w.perform trivial hplain) fun _ _ => ?_
        exact w.evictToFit hplain hevict _
  have hhost : ∀ p, SatThere env C G p (promoteToHost env p) := by
    intro p
    unfold promoteToHost
    refine Sat.bind (hensure p) fun bytes => ?_
    cases bytes with
    | error e => exact Sat.ret fun _ _ => trivial
    | ok bytes => exact Sat.bind (w.perform trivial hplain) fun _ => Sat.ret fun _ _ => trivial
  have hpromote : ∀ p desired device, SatThere env C G p (promoteToTier env p desired device) :=
    fun p => promoteToTier_there hC w hplain (hdevice p) (hhost p)
  have hlease : K .lease := hK _ (by decide) (by decide)
  have hgrant : ∀ p pin, SatThere env C G p
      (sect (Step.grantLease p pin) fun s => (s.grantLease env p pin).1) := fun p pin =>
    Guaranteed.there
      (w.sect (l := .grantLease p pin) (Q := Walk.Any) hlease trivial fun _ => trivial) p
  have hpieces : Walk.Pieces env (Guaranteed env C G) :=
    { evict := hevict
      load := loadOp_there hC w hplain hpromote
      unload := w.unloadOp hplain (hK _ (by decide) (by decide))
      validate := w.validateOp hplain (hK _ (by decide) (by decide))
      put := w.putOp (hK _ (by decide) (by decide))
      release := w.releaseLease (hK _ (by decide) (by decide))
      recover := w.recoverImpl hplain (hK _ (by decide) (by decide)) }
  exact w.operation hplain hpieces hbuild
    (fun _ => w.acquireImpl hplain (hbuild _) (leaseRecord_there hC w hplain hpromote hgrant)) op

end There

/-! ## Modules are committed to records that are there -/

/-- A module is loaded for, and unloaded from, a record that is there; and so is a leased record. -/
def Step.Grounded (l : Step) (s : Impl) : Prop :=
  match l with
  | .loadModule p _ _ | .commitDevice p _ _ | .evictUnload p | .unloadCall p | .grantLease p _ =>
    p < s.nextRecord
  | _ => True

/-- The stages that move no module and lease nothing. -/
def Stage.idle : Stage → Prop
  | .load | .unload | .evict | .lease => False
  | _ => True

section Grounded

variable {env : Env}

abbrev Grounds (l : Step) (s _s' : Impl) : Prop := l.Grounded s

theorem walk_grounds : Walk (Guaranteed env SoundSteps Grounds) Stage.idle := by
  refine walk_guaranteed fun l s s' _ _ _ hstage => ?_
  cases l with
  | loadModule p bytes device => exact hstage.elim
  | commitDevice p handle footprint => exact hstage.elim
  | evictUnload p => exact hstage.elim
  | unloadCall p => exact hstage.elim
  | grantLease p pin => exact hstage.elim
  | _ => exact trivial

/-- One section after which nothing is remembered. -/
theorem ungrounded {α : Type} {P : Impl → Prop} {l : Step} {read : Impl → α}
    (h : ∀ s, P s → l.Grounded s) :
    (sect l read).Sat (exec env) SoundSteps Grounds (fun _ _ => True) P :=
  Sat.sect (fun _ => Stable.const _ _ True) fun s _ hP _ _ => ⟨h s hP, trivial⟩

theorem evictImpl_grounds (id : ArtifactId) (force : Bool) :
    (evictImpl env id force).Free (exec env) SoundSteps Grounds := by
  unfold evictImpl
  refine Sat.bind (Q := fun res s => ∀ p, res = .ok p → p < s.nextRecord) (Sat.sect ?_ ?_)
    fun res => ?_
  · exact fun res l s s' hP h hC p hp => stable_there fromSound_self p l s s' (hP p hp) h hC
  · intro s s' _ h hC
    refine ⟨trivial, fun p hp => ?_⟩
    obtain ⟨hlt, hnext, -⟩ := exec_evictBegin_ok h hC.sound hp
    omega
  · cases res with
    | error e => exact Sat.ret fun _ _ => trivial
    | ok p =>
      refine Sat.bind (ungrounded (l := .evictUnload p) fun s hs => hs p rfl) fun unloaded => ?_
      split
      · exact Sat.ret fun _ _ => trivial
      · refine Sat.bind (ungrounded (l := .evictCommit p) fun _ _ => trivial) fun _ => ?_
        exact Sat.bind (walk_grounds.perform trivial trivial) fun _ => Sat.ret fun _ _ => trivial

theorem promoteToDevice_grounds (p : Nat) (device : DeviceDescriptor) :
    SatThere env SoundSteps Grounds p (promoteToDevice env p device) := by
  have hthere : Stable (exec env) SoundSteps (fun s => p < s.nextRecord) :=
    stable_there fromSound_self p
  unfold promoteToDevice
  refine Sat.bind (Guaranteed.carry hthere (walk_grounds.ensureBytes trivial trivial p))
    fun bytes => ?_
  cases bytes with
  | error e => exact Sat.ret fun _ _ => trivial
  | ok bytes =>
    refine Sat.bind (Q := fun _ s => p < s.nextRecord) (Sat.sect (fun _ => hthere) ?_)
      fun loaded => ?_
    · exact fun s s' hp h hC => ⟨hp.2, hthere _ s s' hp.2 h hC⟩
    · cases loaded with
      | error e => exact Sat.ret fun _ _ => trivial
      | ok out =>
        refine Sat.bind (ungrounded (l := .commitDevice p out.1 out.2) fun _ hp => hp) fun _ => ?_
        refine Sat.bind (walk_grounds.perform trivial trivial) fun _ => ?_
        exact walk_grounds.evictToFit trivial evictImpl_grounds _

theorem promoteToTier_grounds (p : Nat) (desired : ResidencyTier) (device : DeviceDescriptor) :
    SatThere env SoundSteps Grounds p (promoteToTier env p desired device) := by
  have hhost : Guaranteed env SoundSteps Grounds _ Walk.Any (promoteToHost env p) :=
    walk_grounds.promoteToHost trivial (walk_grounds.ensureBytes trivial trivial) p
  exact promoteToTier_there fromSound_self walk_grounds trivial (promoteToDevice_grounds p)
    (hhost.there p) desired device

theorem leaseRecord_grounds (request : KernelLookupRequest) (id : ArtifactId) (vanished : Str) :
    (leaseRecord env request id vanished).Free (exec env) SoundSteps Grounds :=
  leaseRecord_there fromSound_self walk_grounds trivial promoteToTier_grounds
    (fun _ _ => ungrounded fun _ hp => hp) request id vanished

theorem loadOp_grounds (id : ArtifactId) :
    (loadOp env id).Free (exec env) SoundSteps Grounds :=
  loadOp_there fromSound_self walk_grounds trivial promoteToTier_grounds id

theorem unloadOp_grounds (id : ArtifactId) :
    (unloadOp env id).Free (exec env) SoundSteps Grounds := by
  unfold unloadOp
  refine Sat.bind (find_there fromSound_self walk_grounds trivial id) fun found => ?_
  cases found with
  | none => exact Sat.ret fun _ _ => trivial
  | some p =>
    refine Sat.bind (ungrounded (l := .unloadCall p) fun s hs => hs p rfl) fun unloaded => ?_
    split
    · exact Sat.ret fun _ _ => trivial
    · exact Sat.bind (ungrounded (l := .unloadCommit p) fun _ _ => trivial)
        fun _ => Sat.ret fun _ _ => trivial

theorem pieces_grounds : Walk.Pieces env (Guaranteed env SoundSteps Grounds) where
  evict := evictImpl_grounds
  load := loadOp_grounds
  unload := unloadOp_grounds
  validate := walk_grounds.validateOp trivial trivial
  put := walk_grounds.putOp trivial
  release := walk_grounds.releaseLease trivial
  recover := walk_grounds.recoverImpl trivial trivial

theorem buildImpl_grounds (request : KernelLookupRequest) :
    (buildImpl env request).Free (exec env) SoundSteps Grounds :=
  walk_grounds.buildImpl trivial trivial (walk_grounds.sect trivial trivial fun _ => trivial)
    (fun _ _ => walk_grounds.perform trivial trivial)
    fun _ _ => walk_grounds.perform trivial trivial

theorem operation_grounds (op : Operation) :
    (op.prog env).Free (exec env) SoundSteps Grounds :=
  walk_grounds.operation trivial pieces_grounds buildImpl_grounds
    (fun _ => walk_grounds.acquireImpl trivial (buildImpl_grounds _) leaseRecord_grounds) op

end Grounded

theorem runs_grounded {env : Env} {store : FilePersistenceStore} {tr : List (Event Step Impl)}
    {pool : Pool Step Impl Answer} (h : CacheRuns env store tr pool) :
    ∀ e ∈ tr, e.label.Grounded e.before := by
  refine Runs.guarantee (C := SoundSteps) (G := Grounds) (fun q hq => ?_) h fun e he => ?_
  · obtain ⟨op, rfl⟩ := hq
    exact operation_grounds op
  · exact ⟨runs_proper h e he, ((runs_sound h).1 e he).1⟩

/-! ## What a thread has in hand -/

/-- A module on its way. -/
inductive Holding where
  | nothing
  /-- Loaded for the record and not committed yet. -/
  | loaded (p : Nat) (handle : LoadedModuleHandle)
  /-- Passed to `unload` from the record, which is not reset yet. -/
  | unloaded (p : Nat) (handle : LoadedModuleHandle)

/-- The handle `unloadModule` passes to the loader. -/
def Impl.handed (env : Env) (s : Impl) (p : Nat) : LoadedModuleHandle :=
  if ((findBackend env.backends (s.records p).key).bind KernelBackend.loader).isSome then
    (s.records p).nativeHandle
  else none

/-- What a section leaves the thread that takes it with. -/
def Holding.next (env : Env) (held : Holding) (l : Step) (s : Impl) : Holding :=
  match l with
  | .loadModule p bytes device =>
    match (s.loadModule env p bytes device).1 with
    | .ok (handle, _) => loaded p handle
    | .error _ => nothing
  | .evictUnload p | .unloadCall p =>
    match (s.unloadModule env p).1 with
    | .error .exception => nothing
    | _ => unloaded p (s.handed env p)
  | .commitDevice _ _ _ | .evictCommit _ | .unloadCommit _ => nothing
  | _ => held

/-- The sections a thread may take with what it has in hand: a module is committed, and a record
reset, before anything else is done. -/
def Holding.ok (held : Holding) (l : Step) (_ : Impl) : Prop :=
  match l with
  | .loadModule _ _ _ | .evictUnload _ | .unloadCall _ => held = nothing
  | .commitDevice p handle _ => held = loaded p handle
  | .evictCommit p | .unloadCommit p => ∃ handle, held = unloaded p handle
  | _ => held = nothing

section Carriers

variable {env : Env} {C : Step → Impl → Impl → Prop}

/-- A program that starts and ends with nothing in hand. -/
abbrev Carries (env : Env) (C : Step → Impl → Impl → Prop) (α : Type) (Q : α → Prop) (p : Op α) :
    Prop :=
  p.Phased (exec env) C Holding.ok (Holding.next env) (fun a held _ => Q a ∧ held = .nothing)
    (fun _ => True) .nothing

/-- The stages that move no module. -/
def Stage.empty : Stage → Prop
  | .load | .unload | .evict => False
  | _ => True

theorem walk_carries : Walk (Carries env C) Stage.empty where
  ret ha := Phased.ret fun _ _ => ⟨ha, rfl⟩
  bind := by
    intro α β Q Q' p g hp hg
    refine Phased.bind hp fun a held => Phased.assume ?_
    rintro ⟨hQ, rfl⟩
    exact hg a hQ
  sect := by
    intro α Q l read hstage _ hQ
    refine Phased.sect (Q := fun a held => Q a ∧ held = Holding.nothing) fun s s' _ _ => ?_
    cases l with
    | loadModule p bytes device => exact hstage.elim
    | commitDevice p handle footprint => exact hstage.elim
    | evictUnload p => exact hstage.elim
    | evictCommit p => exact hstage.elim
    | unloadCall p => exact hstage.elim
    | unloadCommit p => exact hstage.elim
    | _ => exact ⟨rfl, hQ s, rfl⟩
  buildOver _ _ := Phased.sect (Q := fun _ held => True ∧ held = Holding.nothing)
    fun _ _ _ _ => ⟨rfl, trivial, rfl⟩

/-- After the call of an unload: it threw, or the module is in hand. -/
def AfterUnload (p : Nat) (res : Result Unit) (held : Holding) : Prop :=
  (res = .error .exception ∧ held = .nothing) ∨
    (res ≠ .error .exception ∧ ∃ handle, held = .unloaded p handle)

theorem next_unloadModule (s : Impl) (p : Nat) :
    AfterUnload p (s.unloadModule env p).1 (match (s.unloadModule env p).1 with
      | .error .exception => .nothing
      | _ => .unloaded p (s.handed env p)) := by
  split
  · rename_i h
    exact .inl ⟨h, rfl⟩
  · rename_i h
    exact .inr ⟨h, _, rfl⟩

theorem evictImpl_carries (id : ArtifactId) (force : Bool) :
    Carries env C _ Walk.Any (evictImpl env id force) := by
  unfold evictImpl
  refine walk_carries.bind (walk_carries.sect (Q := Walk.Any) trivial trivial fun _ => trivial)
    fun res _ => ?_
  cases res with
  | error e => exact walk_carries.ret trivial
  | ok p =>
    refine Phased.bind (Phased.sect (Q := AfterUnload p)
      fun s s' _ _ => ⟨rfl, next_unloadModule s p⟩) fun unloaded held => Phased.assume ?_
    rintro (⟨rfl, rfl⟩ | ⟨hres, handle, rfl⟩)
    · exact walk_carries.ret trivial
    · split
      · exact absurd rfl hres
      · refine Phased.bind (Phased.sect (Q := fun _ held => held = .nothing)
          fun s s' _ _ => ⟨⟨handle, rfl⟩, rfl⟩) fun _ held => Phased.assume ?_
        rintro rfl
        exact walk_carries.bind (walk_carries.perform trivial trivial)
          fun _ _ => walk_carries.ret trivial

theorem unloadOp_carries (id : ArtifactId) : Carries env C _ Walk.Any (unloadOp env id) := by
  unfold unloadOp
  refine walk_carries.bind (walk_carries.sect (Q := Walk.Any) trivial trivial fun _ => trivial)
    fun found _ => ?_
  cases found with
  | none => exact walk_carries.ret trivial
  | some p =>
    refine Phased.bind (Phased.sect (Q := AfterUnload p)
      fun s s' _ _ => ⟨rfl, next_unloadModule s p⟩) fun unloaded held => Phased.assume ?_
    rintro (⟨rfl, rfl⟩ | ⟨hres, handle, rfl⟩)
    · exact walk_carries.ret trivial
    · split
      · exact absurd rfl hres
      · refine Phased.bind (Phased.sect (Q := fun _ held => held = .nothing)
          fun s s' _ _ => ⟨⟨handle, rfl⟩, rfl⟩) fun _ held => Phased.assume ?_
        rintro rfl
        exact walk_carries.ret trivial

theorem promoteToDevice_carries (p : Nat) (device : DeviceDescriptor) :
    Carries env C _ Walk.Any (promoteToDevice env p device) := by
  unfold promoteToDevice
  refine walk_carries.bind (walk_carries.ensureBytes trivial trivial p) fun bytes _ => ?_
  cases bytes with
  | error e => exact walk_carries.ret trivial
  | ok bytes =>
    refine Phased.bind (Phased.sect (Q := fun loaded held =>
        held = match loaded with
          | .ok (handle, _) => Holding.loaded p handle
          | .error _ => .nothing) fun s s' _ _ => ⟨rfl, rfl⟩)
      fun loaded held => Phased.assume ?_
    rintro rfl
    cases loaded with
    | error e => exact walk_carries.ret trivial
    | ok out =>
      obtain ⟨handle, footprint⟩ := out
      refine Phased.bind (Phased.sect (Q := fun _ held => held = .nothing)
        fun s s' _ _ => ⟨rfl, rfl⟩) fun _ held => Phased.assume ?_
      rintro rfl
      refine walk_carries.bind (walk_carries.perform trivial trivial) fun _ _ => ?_
      exact walk_carries.evictToFit trivial evictImpl_carries _

theorem promoteToTier_carries (p : Nat) (desired : ResidencyTier) (device : DeviceDescriptor) :
    Carries env C _ Walk.Any (promoteToTier env p desired device) :=
  walk_carries.promoteToTier trivial promoteToDevice_carries
    (walk_carries.promoteToHost trivial (walk_carries.ensureBytes trivial trivial)) p desired device

theorem pieces_carries : Walk.Pieces env (Carries env C) where
  evict := evictImpl_carries
  load := walk_carries.loadOp trivial promoteToTier_carries
  unload := unloadOp_carries
  validate := walk_carries.validateOp trivial trivial
  put := walk_carries.putOp trivial
  release := walk_carries.releaseLease trivial
  recover := walk_carries.recoverImpl trivial trivial

/-- **The path of a module.** Every operation commits what it has loaded and resets what it has
unloaded, and has nothing in hand when it starts and when it returns. -/
theorem operation_carries (op : Operation) : Carries env C _ Walk.Any (op.prog env) := by
  have hbuild : ∀ request, Carries env C _ Walk.Any (buildImpl env request) := fun request =>
    walk_carries.buildImpl trivial trivial (walk_carries.sect trivial trivial fun _ => trivial)
      (fun _ _ => walk_carries.perform trivial trivial)
      fun _ _ => walk_carries.perform trivial trivial
  refine walk_carries.operation trivial pieces_carries hbuild (fun request => ?_) op
  exact walk_carries.acquireImpl trivial (hbuild _)
    (walk_carries.leaseRecord trivial trivial promoteToTier_carries)

end Carriers

end KernelCache
