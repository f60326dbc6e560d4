/-
# KernelCache.CatchingUp — who has the epoch, and who is still to have it.

A roll stores the epoch, stores the generation, and writes to the workers, and another roll may come in
between.  A worker learns its epoch from the acknowledgement of its registration, computed after its
slot is listed, and then from the rolls that reach it.

`Agreement` is what keeps the parties together as long as no roll acts after a newer one: whoever does
not have the epoch yet will have it from the roll that stored it last, which is still to come.  There is
one lemma for each section of a roll and of a registration.
-/
import KernelCache.WorkerStreams
import KernelCache.Worker

namespace KernelCache

open Foundation (Bytes Event Pool)
open TcpConnection (frameBytes)

/-! ## Rolls and registrations in progress -/

namespace ConnStage

/-- The epoch of the roll in progress. -/
def rollsTo : ConnStage → Option CoordinatorEpoch
  | stored e | settled e | locked e | casting e _ _ _ => some e
  | _ => none

/-- The slot of the registration in progress. -/
def enlisting : ConnStage → Option WorkerSlot
  | registered slot | acking slot _ => some slot
  | _ => none

/-- Neither a roll nor a registration is in progress. -/
def Idle : ConnStage → Prop
  | start | checked _ _ | dispatching _ _ | enlisted _ => True
  | _ => False

/-- The roll has the generation still to store. -/
def Unsettled : ConnStage → Prop
  | stored _ => True
  | _ => False

/-- The roll has the list of the workers still to lock. -/
def Waits : ConnStage → Prop
  | stored _ | settled _ => True
  | _ => False

/-- The roll holds the mutex of the workers. -/
def Holds : ConnStage → Prop
  | locked _ | casting _ _ _ _ => True
  | _ => False

/-- The roll is still to reach the worker. -/
def Nears (w : WorkerSlot) : ConnStage → Prop
  | stored _ | settled _ | locked _ => True
  | casting _ slots reached _ => w ∈ slots ∧ ∀ fd, w.fd = some fd → fd ∉ reached
  | _ => False

end ConnStage

/-- The stages of all threads. -/
def stages (P : Nat → Place) : Nat → ConnStage := fun i => (P i).stage

theorem stages_update (P : Nat → Place) (i : Nat) (pl : Place) :
    stages (Function.update P i pl) = Function.update (stages P) i pl.stage := by
  funext j
  by_cases hji : j = i
  · rw [hji, stages, Function.update_self, Function.update_self]
  · rw [stages, Function.update_of_ne hji, Function.update_of_ne hji, stages]

/-- Of the roll that stored the epoch last. -/
def Newest (S : Nat → ConnStage) (newest : Option Nat) (Q : ConnStage → Prop) : Prop :=
  ∃ i, newest = some i ∧ Q (S i)

/-- The stage of one thread moves. -/
theorem Newest.update {S : Nat → ConnStage} {newest : Option Nat} {Q : ConnStage → Prop} {i : Nat}
    {st : ConnStage} (h : Newest S newest Q) (hst : Q (S i) → Q st) :
    Newest (Function.update S i st) newest Q := by
  obtain ⟨j, hj, hQ⟩ := h
  refine ⟨j, hj, ?_⟩
  by_cases hji : j = i
  · rw [hji, Function.update_self]
    exact hst (hji ▸ hQ)
  · rwa [Function.update_of_ne hji]

/-! ## The mutex of the workers -/

/-- One roll at most holds the mutex. -/
structure OneHolds (S : Nat → ConnStage) (s : Coordinator) : Prop where
  held : ∀ i, (S i).Holds → s.workersHeld = true
  alone : ∀ i j, (S i).Holds → (S j).Holds → i = j

theorem CoordStep.effect_workersHeld (peers : Peers) (s : Coordinator) (l : CoordStep) :
    (l.effect peers s).workersHeld = match l with
      | lockWorkers => true
      | unlockWorkers => false
      | _ => s.workersHeld := by
  cases l <;> rfl

theorem ConnStage.holds_sent (st : ConnStage) (fd : Socket) : (st.sent fd).Holds ↔ st.Holds := by
  cases st <;> exact Iff.rfl

theorem ConnStage.holds_broken (st : ConnStage) : st.broken.Holds ↔ st.Holds := by
  cases st <;> exact Iff.rfl

theorem ConnStage.Resting.not_holds {st : ConnStage} (h : st.Resting) : ¬ st.Holds := by
  cases st with
  | start | checked _ _ | dispatching _ _ => exact id
  | _ => exact h.elim

/-- A roll holds the mutex from its locking on. -/
theorem Place.holds_next (peers : Peers) (pl : Place) (l : CoordStep) (s : Coordinator) :
    pl.Allows l → ((pl.next peers l s).stage.Holds ↔ match l with
      | .lockWorkers => True
      | .unlockWorkers => False
      | _ => pl.stage.Holds) := by
  intro hok
  cases l with
  | receive fd frame => exact iff_of_false id hok.2.2.not_holds
  | send fd frame bytes =>
    rcases stage_send peers pl fd frame bytes s with h | h | h
    · exact iff_of_eq (congrArg ConnStage.Holds h)
    · exact (iff_of_eq (congrArg ConnStage.Holds h)).trans (pl.stage.holds_sent fd)
    · exact (iff_of_eq (congrArg ConnStage.Holds h)).trans pl.stage.holds_broken
  | checkEpoch e =>
    rw [hok.1]
    exact Iff.rfl
  | pickWorker boot =>
    obtain ⟨e, hstage⟩ := hok
    simp only [next, ConnStage.next, hstage, ConnStage.Holds]
  | storeEpoch e =>
    rw [hok.1]
    exact Iff.rfl
  | storeGen e =>
    rw [hok.1]
    exact Iff.rfl
  | lockWorkers | readWorkers =>
    obtain ⟨e, hstage⟩ := hok
    simp only [next, ConnStage.next, hstage, ConnStage.Holds]
  | register slot =>
    rw [hok.1]
    exact Iff.rfl
  | loadEpoch =>
    obtain ⟨slot, hstage⟩ := hok
    simp only [next, ConnStage.next, hstage, ConnStage.Holds]
  | _ => exact Iff.rfl

/-- One section. -/
theorem OneHolds.concat {peers : Peers} {P : Nat → Place} {i : Nat} {l : CoordStep} {s : Coordinator}
    (h : OneHolds (stages P) s) (hok : (P i).Allows l) (hready : l.ready s = true) :
    OneHolds (stages (Function.update P i ((P i).next peers l s))) (l.effect peers s) := by
  have hnext := Place.holds_next peers (P i) l s hok
  have hheld := CoordStep.effect_workersHeld peers s l
  -- who holds the mutex afterwards held it before, or has locked it just now
  have hcases : ∀ j, (Function.update P i ((P i).next peers l s) j).stage.Holds →
      (j = i ∧ l = .lockWorkers) ∨ (P j).stage.Holds ∧ ¬ (j = i ∧ l = .unlockWorkers) := by
    intro j hj
    by_cases hji : j = i
    · subst hji
      rw [Function.update_self, hnext] at hj
      split at hj
      · exact .inl ⟨rfl, rfl⟩
      · exact hj.elim
      · rename_i hunlock
        exact .inr ⟨hj, fun h => hunlock h.2⟩
    · rw [Function.update_of_ne hji] at hj
      exact .inr ⟨hj, fun h => hji h.1⟩
  have hfree : l = .lockWorkers → ∀ j, ¬ (P j).stage.Holds := by
    rintro rfl j hj
    rw [CoordStep.ready, h.held j hj] at hready
    cases hready
  refine ⟨fun j hj => ?_, fun j k hj hk => ?_⟩
  · rw [hheld]
    rcases hcases j hj with ⟨-, rfl⟩ | ⟨hbefore, hunlock⟩
    · rfl
    · split
      · rfl
      · -- it is the thread that holds the mutex which unlocks it
        obtain ⟨_, _, _, _, hstage, -⟩ := hok
        have hi : (P i).stage.Holds := by
          rw [hstage]
          trivial
        exact absurd ⟨h.alone j i hbefore hi, rfl⟩ hunlock
      · exact h.held j hbefore
  · rcases hcases j hj with ⟨rfl, hlock⟩ | ⟨hj, -⟩
    · rcases hcases k hk with ⟨rfl, -⟩ | ⟨hk, -⟩
      · rfl
      · exact absurd hk (hfree hlock k)
    · rcases hcases k hk with ⟨-, hlock⟩ | ⟨hk, -⟩
      · exact absurd hj (hfree hlock j)
      · exact h.alone j k hj hk

theorem oneHolds_history {peers : Peers} {store : FilePersistenceStore}
    {tr : List (Event CoordStep Coordinator)} {pool : Pool CoordStep Coordinator Unit}
    (h : CoordRuns peers store tr pool) {tr₁ : List (Event CoordStep Coordinator)}
    {e : Event CoordStep Coordinator} (hpre : tr₁ ++ [e] <+: tr) :
    OneHolds (stages (places peers tr₁)) e.before := by
  have hinit : OneHolds (stages (places peers [])) (Coordinator.initial store) :=
    ⟨fun _ h => h.elim, fun _ _ h => h.elim⟩
  refine ((Foundation.Runs.history (I := fun tr s => OneHolds (stages (places peers tr)) s)
    hinit h fun tr₁ e hpre hI => ?_).1 tr₁ e hpre).1
  obtain ⟨hready, hafter⟩ := coordExec_eq_some.mp (h.event_step e (hpre.subset (by simp)))
  rw [places_concat, hafter]
  exact hI.concat (conducted h hpre).1 hready

/-! ## Agreement -/

section Agreement

variable (S : Nat → ConnStage) (newest : Option Nat) (comp : Socket → List Frame) (s : Coordinator)

/-- The worker has the epoch, or will have it from the newest roll. -/
def Current (w : WorkerSlot) (e : CoordinatorEpoch) : Prop :=
  e = s.epoch ∨ Newest S newest (ConnStage.Nears w)

/-- The frames completed on the worker's socket bring it to such an epoch. -/
def Knows (w : WorkerSlot) : Prop :=
  ∀ fd, w.fd = some fd → ∃ e, Worker.coordEpoch (comp fd) = some e ∧ Current S newest s w e

/-- No frame is completed on the worker's socket. -/
def Unsent (w : WorkerSlot) : Prop := ∀ fd, w.fd = some fd → comp fd = []

/-- What a thread has in hand does not bring anybody back. -/
def InStep : ConnStage → Prop
  | .casting e slots _ failed =>
    failed = false ∧ (e = s.epoch ∨ Newest S newest ConnStage.Waits ∨ slots = [])
  | .registered w => w ∈ s.workers ∧ Unsent comp w
  | .acking w e => w ∈ s.workers ∧ Unsent comp w ∧ Current S newest s w e
  | _ => True

/-- Whoever does not have the epoch will have it from the newest roll. -/
structure Agreement : Prop where
  value : ∀ i e, newest = some i → (S i).rollsTo = some e → e = s.epoch
  gen : s.gen = s.epoch ∨ Newest S newest ConnStage.Unsettled
  threads : ∀ i, InStep S newest comp s (S i)
  workers : ∀ w ∈ s.workers, (∃ i, (S i).enlisting = some w) ∨ Knows S newest comp s w

end Agreement

namespace Agreement

variable {S : Nat → ConnStage} {newest : Option Nat} {comp comp' : Socket → List Frame}
  {s s' : Coordinator} {i : Nat} {st : ConnStage}

theorem initial (store : FilePersistenceStore) :
    Agreement (fun _ => .start) none (fun _ => []) (Coordinator.initial store) where
  value _ _ h := by cases h
  gen := .inl rfl
  threads _ := trivial
  workers _ hw := absurd hw List.not_mem_nil

/-- A thread moves, and with it what some workers have been sent. -/
theorem move (h : Agreement S newest comp s) (hepoch : s'.epoch = s.epoch)
    (hlist : s'.workers = s.workers) (hrolls : ∀ e, st.rollsTo = some e → (S i).rollsTo = some e)
    (hgen : s'.gen = s.epoch ∨ Newest (Function.update S i st) newest ConnStage.Unsettled)
    (hst : InStep (Function.update S i st) newest comp' s' st)
    (hwaits : (S i).Waits → st.Waits ∨ ∀ j ≠ i, ¬ (S j).Holds)
    (hothers : ∀ j ≠ i, ∀ w ∈ s.workers, (S j).enlisting = some w →
      ((S i).Nears w → st.Nears w) ∧ (Unsent comp w → Unsent comp' w))
    (hworkers : ∀ w ∈ s.workers, (S i).enlisting = some w ∨ Knows S newest comp s w →
      st.enlisting = some w ∨ Knows (Function.update S i st) newest comp' s' w) :
    Agreement (Function.update S i st) newest comp' s' where
  value j e hj he := by
    rw [hepoch]
    by_cases hji : j = i
    · rw [hji, Function.update_self] at he
      exact h.value i e (hji ▸ hj) (hrolls e he)
    · rw [Function.update_of_ne hji] at he
      exact h.value j e hj he
  gen := by rwa [hepoch]
  threads j := by
    by_cases hji : j = i
    · rw [hji, Function.update_self]
      exact hst
    · rw [Function.update_of_ne hji]
      have hbefore := h.threads j
      have hother := hothers j hji
      have hfree : (S j).Holds → (S i).Waits → st.Waits := fun hj hi =>
        (hwaits hi).resolve_right fun hnone => hnone j hji hj
      cases hj : S j with
      | casting e slots reached failed =>
        rw [hj] at hbefore hfree
        obtain ⟨hwhole, hcurrent⟩ := hbefore
        refine ⟨hwhole, ?_⟩
        rw [hepoch]
        exact hcurrent.imp_right fun hwait => hwait.imp_left fun hwait => hwait.update (hfree trivial)
      | registered w =>
        rw [hj] at hbefore hother
        obtain ⟨hw, hunsent⟩ := hbefore
        exact ⟨hlist ▸ hw, (hother w hw rfl).2 hunsent⟩
      | acking w e =>
        rw [hj] at hbefore hother
        obtain ⟨hw, hunsent, hcurrent⟩ := hbefore
        refine ⟨hlist ▸ hw, (hother w hw rfl).2 hunsent, ?_⟩
        rw [Current, hepoch]
        exact hcurrent.imp_right fun hnear => hnear.update (hother w hw rfl).1
      | _ => trivial
  workers w hw := by
    rw [hlist] at hw
    have hthis : (S i).enlisting = some w ∨ Knows S newest comp s w →
        (∃ j, (Function.update S i st j).enlisting = some w) ∨
          Knows (Function.update S i st) newest comp' s' w := fun hknown =>
      (hworkers w hw hknown).imp_left fun hi => ⟨i, by rwa [Function.update_self]⟩
    rcases h.workers w hw with ⟨j, hj⟩ | hknown
    · by_cases hji : j = i
      · exact hthis (.inl (hji ▸ hj))
      · exact .inl ⟨j, by rwa [Function.update_of_ne hji]⟩
    · exact hthis (.inr hknown)

/-- What the workers have been sent brings them where it brought them before. -/
theorem turn (h : Agreement S newest comp s) (hepoch : s'.epoch = s.epoch)
    (hlist : s'.workers = s.workers) (hrolls : ∀ e, st.rollsTo = some e → (S i).rollsTo = some e)
    (hgen : s'.gen = s.epoch ∨ Newest (Function.update S i st) newest ConnStage.Unsettled)
    (hst : InStep (Function.update S i st) newest comp' s' st)
    (hwaits : (S i).Waits → st.Waits ∨ ∀ j ≠ i, ¬ (S j).Holds)
    (hnears : ∀ w ∈ s.workers, (S i).Nears w → st.Nears w)
    (henlisting : ∀ w, (S i).enlisting = some w → st.enlisting = some w)
    (hcomp : ∀ w ∈ s.workers, ∀ fd, w.fd = some fd → comp' fd = comp fd ∨
      comp fd ≠ [] ∧ Worker.coordEpoch (comp' fd) = Worker.coordEpoch (comp fd)) :
    Agreement (Function.update S i st) newest comp' s' := by
  refine h.move hepoch hlist hrolls hgen hst hwaits (fun j _ w hw _ => ⟨hnears w hw, ?_⟩)
    fun w hw => Or.imp (henlisting w) ?_
  · intro hunsent fd hfd
    rcases hcomp w hw fd hfd with hsame | ⟨hne, -⟩
    · rw [hsame, hunsent fd hfd]
    · exact absurd (hunsent fd hfd) hne
  · intro hknown fd hfd
    obtain ⟨e, he, hcurrent⟩ := hknown fd hfd
    refine ⟨e, ?_, ?_⟩
    · rcases hcomp w hw fd hfd with hsame | ⟨-, hsame⟩
      · rwa [hsame]
      · rwa [hsame]
    · rw [Current, hepoch]
      exact hcurrent.imp_right fun hnear => hnear.update (hnears w hw)

/-! ### Rolls -/

/-- The epoch is stored: everybody waits for the roll that stored it. -/
theorem storeEpoch (h : Agreement S newest comp s) (hstage : S i = .start) (e : CoordinatorEpoch) :
    Agreement (Function.update S i (.stored e)) (some i) comp { s with epoch := e } := by
  have hnewest : ∀ Q : ConnStage → Prop, Q (.stored e) →
      Newest (Function.update S i (.stored e)) (some i) Q := fun Q hQ =>
    ⟨i, rfl, by rwa [Function.update_self]⟩
  refine ⟨fun j x hj hx => ?_, .inr (hnewest _ trivial), fun j => ?_, fun w hw => ?_⟩
  · cases hj
    rw [Function.update_self] at hx
    exact (Option.some.inj hx).symm
  · by_cases hji : j = i
    · rw [hji, Function.update_self]
      trivial
    · rw [Function.update_of_ne hji]
      have hbefore := h.threads j
      cases hj : S j with
      | casting x slots reached failed =>
        rw [hj] at hbefore
        exact ⟨hbefore.1, .inr (.inl (hnewest _ trivial))⟩
      | registered w =>
        rw [hj] at hbefore
        exact hbefore
      | acking w x =>
        rw [hj] at hbefore
        exact ⟨hbefore.1, hbefore.2.1, .inr (hnewest _ trivial)⟩
      | _ => trivial
  · rcases h.workers w hw with ⟨j, hj⟩ | hknown
    · refine .inl ⟨j, ?_⟩
      rw [Function.update_of_ne]
      · exact hj
      · rintro rfl
        rw [hstage] at hj
        cases hj
    · refine .inr fun fd hfd => ?_
      obtain ⟨x, hx, -⟩ := hknown fd hfd
      exact ⟨x, hx, .inr (hnewest _ trivial)⟩

/-- The generation is stored, of the epoch or before the newest roll stores its own. -/
theorem storeGen {e : CoordinatorEpoch} (h : Agreement S newest comp s) (hstage : S i = .stored e)
    (horder : e = s.epoch ∨ Newest S newest ConnStage.Unsettled) :
    Agreement (Function.update S i (.settled e)) newest comp { s with gen := e } := by
  refine h.turn rfl rfl (fun x hx => by rwa [hstage]) ?_ trivial (fun _ => .inl trivial)
    (fun w _ _ => trivial) (fun w hw => ?_) fun _ _ _ _ => .inl rfl
  · rcases horder with hsame | ⟨j, hj, hunsettled⟩
    · exact .inl hsame
    · by_cases hji : j = i
      · refine .inl (h.value i e (hji ▸ hj) ?_)
        rw [hstage]
        rfl
      · exact .inr ⟨j, hj, by rwa [Function.update_of_ne hji]⟩
  · rw [hstage] at hw
    cases hw

theorem gen_of_settled (h : Agreement S newest comp s) (hi : ¬ (S i).Unsettled) :
    s.gen = s.epoch ∨ Newest (Function.update S i st) newest ConnStage.Unsettled :=
  h.gen.imp_right fun hnew => hnew.update fun hunsettled => absurd hunsettled hi

/-- The mutex is locked: no roll is writing to the workers. -/
theorem lockWorkers {e : CoordinatorEpoch} (h : Agreement S newest comp s) (hholds : OneHolds S s)
    (hfree : s.workersHeld = false) (hstage : S i = .settled e) :
    Agreement (Function.update S i (.locked e)) newest comp { s with workersHeld := true } := by
  refine h.turn rfl rfl (fun x hx => by rwa [hstage]) (h.gen_of_settled ?_) trivial
    (fun _ => .inr fun j _ hj => ?_) (fun w _ _ => trivial) (fun w hw => ?_) fun _ _ _ _ => .inl rfl
  · rw [hstage]
    exact id
  · rw [hholds.held j hj] at hfree
    cases hfree
  · rw [hstage] at hw
    cases hw

/-- The list is read: by the newest roll, or before the newest reads it. -/
theorem readWorkers {e : CoordinatorEpoch} (h : Agreement S newest comp s) (hstage : S i = .locked e)
    (horder : e = s.epoch ∨ Newest S newest ConnStage.Waits ∨ s.workers = []) :
    Agreement (Function.update S i (.casting e s.workers [] false)) newest comp s := by
  refine h.turn rfl rfl (fun x hx => by rwa [hstage]) (h.gen_of_settled ?_) ⟨rfl, ?_⟩ (fun hi => ?_)
    (fun w hw _ => ⟨hw, fun _ _ => List.not_mem_nil⟩) (fun w hw => ?_) fun _ _ _ _ => .inl rfl
  · rw [hstage]
    exact id
  · refine horder.imp_right fun hwait => hwait.imp_left fun hwait => hwait.update fun hi => ?_
    rw [hstage] at hi
    exact hi.elim
  · rw [hstage] at hi
    exact hi.elim
  · rw [hstage] at hw
    cases hw

/-- The mutex is unlocked: all workers have been reached. -/
theorem unlockWorkers {e : CoordinatorEpoch} {slots : List WorkerSlot} {reached : List Socket}
    {failed : Bool} (h : Agreement S newest comp s) (hstage : S i = .casting e slots reached failed)
    (hfds : ∀ w ∈ s.workers, w.fd.isSome)
    (hreached : failed = false → ∀ w ∈ slots, ∀ fd, w.fd = some fd → fd ∈ reached) :
    Agreement (Function.update S i .start) newest comp { s with workersHeld := false } := by
  have hwhole := h.threads i
  rw [hstage] at hwhole
  refine h.turn rfl rfl (fun x hx => by cases hx) (h.gen_of_settled ?_) trivial (fun hi => ?_)
    (fun w hw hi => ?_) (fun w hw => ?_) fun _ _ _ _ => .inl rfl
  · rw [hstage]
    exact id
  · rw [hstage] at hi
    exact hi.elim
  · -- whoever was still to be reached has no socket
    rw [hstage] at hi
    obtain ⟨hslot, hleft⟩ := hi
    obtain ⟨fd, hfd⟩ := Option.isSome_iff_exists.mp (hfds w hw)
    exact absurd (hreached hwhole.1 w hslot fd hfd) (hleft fd hfd)
  · rw [hstage] at hw
    cases hw

/-! ### Registrations -/

/-- A worker is listed. -/
theorem register {slot : WorkerSlot} (h : Agreement S newest comp s) (hstage : S i = .start)
    (hunsent : Unsent comp slot) :
    Agreement (Function.update S i (.registered slot)) newest comp
      { s with workers := s.workers ++ [slot] } := by
  have hsame : ∀ {Q : ConnStage → Prop}, ¬ Q .start → Newest S newest Q →
      Newest (Function.update S i (.registered slot)) newest Q := fun hQ hnew =>
    hnew.update fun hi => absurd (hstage ▸ hi) hQ
  have hcurrent : ∀ w e, Current S newest s w e → Current (Function.update S i (.registered slot)) newest
      { s with workers := s.workers ++ [slot] } w e := fun w e => Or.imp_right (hsame id)
  refine ⟨fun j e hj he => ?_, h.gen.imp_right (hsame id), fun j => ?_, fun w hw => ?_⟩
  · by_cases hji : j = i
    · rw [hji, Function.update_self] at he
      cases he
    · rw [Function.update_of_ne hji] at he
      exact h.value j e hj he
  · by_cases hji : j = i
    · rw [hji, Function.update_self]
      exact ⟨List.mem_append_right _ (List.mem_singleton.mpr rfl), hunsent⟩
    · rw [Function.update_of_ne hji]
      have hbefore := h.threads j
      cases hj : S j with
      | casting e slots reached failed =>
        rw [hj] at hbefore
        exact ⟨hbefore.1, hbefore.2.imp_right fun hwait => hwait.imp_left (hsame id)⟩
      | registered w =>
        rw [hj] at hbefore
        exact ⟨List.mem_append_left _ hbefore.1, hbefore.2⟩
      | acking w e =>
        rw [hj] at hbefore
        exact ⟨List.mem_append_left _ hbefore.1, hbefore.2.1, hcurrent w e hbefore.2.2⟩
      | _ => trivial
  · rcases List.mem_append.mp hw with hw | hw
    · rcases h.workers w hw with ⟨j, hj⟩ | hknown
      · refine .inl ⟨j, ?_⟩
        rw [Function.update_of_ne]
        · exact hj
        · rintro rfl
          rw [hstage] at hj
          cases hj
      · refine .inr fun fd hfd => ?_
        obtain ⟨e, he, hnow⟩ := hknown fd hfd
        exact ⟨e, he, hcurrent w e hnow⟩
    · refine .inl ⟨i, ?_⟩
      rw [Function.update_self, List.mem_singleton.mp hw]
      rfl

/-- The epoch of the acknowledgement is read. -/
theorem loadEpoch {slot : WorkerSlot} (h : Agreement S newest comp s)
    (hstage : S i = .registered slot) :
    Agreement (Function.update S i (.acking slot s.epoch)) newest comp s := by
  have hslot := h.threads i
  rw [hstage] at hslot
  refine h.turn rfl rfl (fun x hx => by cases hx) (h.gen_of_settled ?_)
    ⟨hslot.1, hslot.2, .inl rfl⟩ (fun hi => ?_) (fun w _ hi => ?_) (fun w hw => ?_)
    fun _ _ _ _ => .inl rfl
  · rw [hstage]
    exact id
  · rw [hstage] at hi
    exact hi.elim
  · rw [hstage] at hi
    exact hi.elim
  · rwa [hstage] at hw

/-! ### Threads that stay where they are -/

/-- Nothing happens to a roll or a registration. -/
theorem stay (h : Agreement S newest comp s) (hepoch : s'.epoch = s.epoch)
    (hlist : s'.workers = s.workers) (hgen : s'.gen = s.gen)
    (hcomp : ∀ w ∈ s.workers, ∀ fd, w.fd = some fd → comp' fd = comp fd ∨
      comp fd ≠ [] ∧ Worker.coordEpoch (comp' fd) = Worker.coordEpoch (comp fd)) :
    Agreement (Function.update S i (S i)) newest comp' s' := by
  have hunsent : ∀ w ∈ s.workers, Unsent comp w → Unsent comp' w := by
    intro w hw hnone fd hfd
    rcases hcomp w hw fd hfd with hsame | ⟨hne, -⟩
    · rw [hsame, hnone fd hfd]
    · exact absurd (hnone fd hfd) hne
  have hthis := h.threads i
  refine h.turn hepoch hlist (fun _ hx => hx) ?_ ?_ .inl (fun _ _ hi => hi) (fun _ hw => hw) hcomp
  · rw [hgen, Function.update_eq_self]
    exact h.gen
  · rw [Function.update_eq_self]
    cases hi : S i with
    | casting e slots reached failed =>
      rw [hi] at hthis
      refine ⟨hthis.1, ?_⟩
      rw [hepoch]
      exact hthis.2
    | registered w =>
      rw [hi] at hthis
      exact ⟨hlist ▸ hthis.1, hunsent w hthis.1 hthis.2⟩
    | acking w e =>
      rw [hi] at hthis
      refine ⟨hlist ▸ hthis.1, hunsent w hthis.1 hthis.2.1, ?_⟩
      rw [Current, hepoch]
      exact hthis.2.2
    | _ => trivial

/-- A thread goes from one frame of its client to the next. -/
theorem rest (h : Agreement S newest comp s) (hi : (S i).Resting) (hst : st.Resting) :
    Agreement (Function.update S i st) newest comp s := by
  have hall : ∀ {st : ConnStage}, st.Resting → st.rollsTo = none ∧ st.enlisting = none ∧
      ¬ st.Unsettled ∧ ¬ st.Waits ∧ ∀ w, ¬ st.Nears w := by
    intro st hst
    cases st with
    | start | checked _ _ | dispatching _ _ => exact ⟨rfl, rfl, id, id, fun _ => id⟩
    | _ => exact hst.elim
  obtain ⟨-, henlisting, hunsettled, hwaits, hnears⟩ := hall hi
  refine h.turn rfl rfl (fun x hx => ?_) (h.gen_of_settled hunsettled) ?_
    (fun hi => absurd hi hwaits) (fun w _ hi => absurd hi (hnears w)) (fun w hw => ?_)
    fun _ _ _ _ => .inl rfl
  · rw [(hall hst).1] at hx
    cases hx
  · cases st with
    | start | checked _ _ | dispatching _ _ => trivial
    | _ => exact hst.elim
  · rw [henlisting] at hw
    cases hw

/-! ### Frames -/

section Frames

variable {fd : Socket} {f : Channel → Channel} {w : WorkerSlot} {e : CoordinatorEpoch}

/-- A worker on another socket knows what it knew. -/
theorem knows_other (hother : ∀ fd' ≠ fd, comp' fd' = comp fd') (hfd : w.fd ≠ some fd)
    (hnears : (S i).Nears w → st.Nears w) (hknown : Knows S newest comp s w) :
    Knows (Function.update S i st) newest comp' (s.onChannel fd f) w := by
  intro fd' hfd'
  have hne : fd' ≠ fd := by
    rintro rfl
    exact hfd hfd'
  obtain ⟨x, hx, hcurrent⟩ := hknown fd' hfd'
  refine ⟨x, ?_, hcurrent.imp_right fun hnear => hnear.update hnears⟩
  rwa [hother fd' hne]

theorem unsent_other (hother : ∀ fd' ≠ fd, comp' fd' = comp fd') (hfd : w.fd ≠ some fd)
    (hunsent : Unsent comp w) : Unsent comp' w := by
  intro fd' hfd'
  rw [hother fd']
  · exact hunsent fd' hfd'
  · rintro rfl
    exact hfd hfd'

/-- An acknowledgement is complete, the first frame on its socket. -/
theorem acked (h : Agreement S newest comp s) (hstage : S i = .acking w e) (hfd : w.fd = some fd)
    (hunique : ∀ w' ∈ s.workers, w'.fd = some fd → w' = w)
    (hsole : ∀ j ≠ i, (S j).enlisting ≠ some w)
    (hcomp : comp' fd = comp fd ++ [(DistMsgType.registerAckC.code, encodeRegisterAck e w.id 1)])
    (hother : ∀ fd' ≠ fd, comp' fd' = comp fd') :
    Agreement (Function.update S i (.enlisted w)) newest comp' (s.onChannel fd f) := by
  have hslot := h.threads i
  rw [hstage] at hslot
  obtain ⟨-, hunsent, hcurrent⟩ := hslot
  have hnears : ∀ {w' : WorkerSlot}, (S i).Nears w' → (ConnStage.enlisted w).Nears w' := by
    intro w' hi
    rw [hstage] at hi
    exact hi.elim
  refine h.move rfl rfl (fun x hx => by cases hx) (h.gen_of_settled ?_) trivial (fun hi => ?_)
    (fun j hji w' hw' hj => ⟨hnears, unsent_other hother fun hfd' => ?_⟩) fun w' hw' hknown => .inr ?_
  · rw [hstage]
    exact id
  · rw [hstage] at hi
    exact hi.elim
  · rw [hunique w' hw' hfd'] at hj
    exact hsole j hji hj
  · by_cases hfd' : w'.fd = some fd
    · obtain rfl := hunique w' hw' hfd'
      intro fd' hfd''
      obtain rfl := Option.some.inj (hfd'.symm.trans hfd'')
      refine ⟨e, ?_, hcurrent.imp_right fun hnear => hnear.update hnears⟩
      rw [hcomp, hunsent fd hfd, List.nil_append]
      simp [Worker.coordEpoch, Worker.register, decodeRegisterAck_encode]
    · refine knows_other hother hfd' hnears (hknown.resolve_left fun hi => ?_)
      rw [hstage] at hi
      cases hi
      exact hfd' hfd

/-- A roll is complete on the socket of a worker that has its acknowledgement. -/
theorem reached {slots : List WorkerSlot} {reached : List Socket} {failed : Bool}
    (h : Agreement S newest comp s) (hstage : S i = .casting e slots reached failed)
    (hslots : slots ≠ []) (hne : comp fd ≠ [])
    (hcomp : comp' fd = comp fd ++ [(DistMsgType.rollEpoch.code, encodeRollEpoch e)])
    (hother : ∀ fd' ≠ fd, comp' fd' = comp fd') :
    Agreement (Function.update S i (.casting e slots (reached ++ [fd]) failed)) newest comp'
      (s.onChannel fd f) := by
  have hcast := h.threads i
  rw [hstage] at hcast
  obtain ⟨hwhole, hcurrent⟩ := hcast
  have hnears : ∀ {w' : WorkerSlot}, w'.fd ≠ some fd → (S i).Nears w' →
      (ConnStage.casting e slots (reached ++ [fd]) failed).Nears w' := by
    intro w' hfd' hi
    rw [hstage] at hi
    refine ⟨hi.1, fun fd' hfd'' hmem => ?_⟩
    rcases List.mem_append.mp hmem with hmem | hmem
    · exact hi.2 fd' hfd'' hmem
    · rw [List.mem_singleton.mp hmem] at hfd''
      exact hfd' hfd''
  have hstill : ∀ {Q : ConnStage → Prop}, ¬ Q (S i) → Newest S newest Q →
      Newest (Function.update S i (.casting e slots (reached ++ [fd]) failed)) newest Q := fun hQ hnew =>
    hnew.update fun hi => absurd hi hQ
  have hwaits : ¬ (S i).Waits := by
    rw [hstage]
    exact id
  refine h.move rfl rfl (fun x hx => by rwa [hstage]) (h.gen_of_settled ?_) ⟨hwhole, ?_⟩
    (fun hi => absurd hi hwaits) (fun j _ w' _ hj => ?_) fun w' _ hknown => .inr ?_
  · rw [hstage]
    exact id
  · exact hcurrent.imp_right fun hwait => hwait.imp_left (hstill hwaits)
  · -- a worker that waits for its acknowledgement is on another socket
    have hunsent : Unsent comp w' := by
      have hthread := h.threads j
      cases hj' : S j with
      | registered w =>
        rw [hj'] at hj hthread
        cases hj
        exact hthread.2
      | acking w x =>
        rw [hj'] at hj hthread
        cases hj
        exact hthread.2.1
      | _ =>
        rw [hj'] at hj
        cases hj
    have hfd' : w'.fd ≠ some fd := fun hfd' => hne (hunsent fd hfd')
    exact ⟨hnears hfd', unsent_other hother hfd'⟩
  · have hbefore := hknown.resolve_left fun hi => by
      rw [hstage] at hi
      cases hi
    by_cases hfd' : w'.fd = some fd
    · intro fd' hfd''
      obtain rfl := Option.some.inj (hfd'.symm.trans hfd'')
      obtain ⟨x, hx, -⟩ := hbefore fd hfd'
      refine ⟨e, ?_, ?_⟩
      · rw [hcomp, Worker.coordEpoch_concat hne, hx]
        simp [Worker.rolledBy, decodeRollEpoch_encode]
      · rcases hcurrent with hsame | hwait | hnone
        · exact .inl hsame
        · obtain ⟨j, hj, hwait⟩ := hwait
          refine .inr (hstill hwaits ⟨j, hj, hwait⟩ |>.imp fun k hk => ⟨hk.1, ?_⟩)
          cases hk' : Function.update S i (.casting e slots (reached ++ [fd]) failed) k with
          | stored _ | settled _ => trivial
          | _ =>
            rw [hk'] at hk
            exact hk.2.elim
        · exact absurd hnone hslots
    · exact knows_other hother hfd' (hnears hfd') hbefore

end Frames

end Agreement

end KernelCache
