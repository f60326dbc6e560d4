/-
# KernelCache.Roster — who serves which socket.

Every connection has a thread of its own, and a thread one connection.  The list of workers is what the
threads of registrations have put into it, each its own socket and once; the sockets to which a dispatch
or a broadcast writes are sockets of listed workers.
-/
import KernelCache.Conduct

namespace KernelCache

open Foundation (Bytes Event Pool)

/-- The slot that a thread has put into the list. -/
def ConnStage.slot : ConnStage → Option WorkerSlot
  | registered slot | acking slot _ | enlisted slot => some slot
  | _ => none

/-- The workers that a thread has in hand are listed. -/
def ConnStage.Targets (workers : List WorkerSlot) : ConnStage → Prop
  | dispatching _ (some fd) => ∃ w ∈ workers, w.fd = some fd
  | casting _ slots _ _ => slots ⊆ workers
  | _ => True

theorem ConnStage.Targets.mono {workers workers' : List WorkerSlot} {st : ConnStage}
    (h : st.Targets workers) (hle : workers ⊆ workers') : st.Targets workers' := by
  cases st with
  | dispatching e worker =>
    cases worker with
    | none => trivial
    | some fd =>
      obtain ⟨w, hw, hfd⟩ := h
      exact ⟨w, hle hw, hfd⟩
  | casting e slots reached failed => exact List.Subset.trans h hle
  | _ => trivial

/-- The list of workers only grows. -/
theorem CoordStep.effect_workers (peers : Peers) (s : Coordinator) (l : CoordStep) :
    (l.effect peers s).workers = match l with
      | register slot => s.workers ++ [slot]
      | _ => s.workers := by
  cases l <;> rfl

theorem CoordStep.effect_accepted (peers : Peers) (s : Coordinator) (l : CoordStep) :
    (l.effect peers s).accepted = match l with
      | accept => s.accepted + 1
      | _ => s.accepted := by
  cases l <;> rfl

namespace Place

variable {peers : Peers} {pl : Place} {l : CoordStep} {s : Coordinator}

/-- Writing moves the stage on, or breaks it off, or leaves it. -/
theorem stage_send (peers : Peers) (pl : Place) (fd : Socket) (frame : Frame) (bytes : Bytes)
    (s : Coordinator) : let st := (pl.next peers (.send fd frame bytes) s).stage
    st = pl.stage ∨ st = pl.stage.sent fd ∨ st = pl.stage.broken := by
  dsimp only [next]
  split
  · exact .inr (.inr rfl)
  · unfold conveyed
    split
    · exact .inr (.inl rfl)
    split
    · exact .inl rfl
    · exact .inl rfl

theorem conn_next (peers : Peers) (pl : Place) (l : CoordStep) (s : Coordinator) :
    (pl.next peers l s).conn = match l with
      | .accept => some s.accepted
      | _ => pl.conn := by
  cases l with
  | send fd frame bytes =>
    dsimp only [next]
    split
    · rfl
    · unfold conveyed
      split
      · rfl
      split
      · rfl
      · rfl
  | _ => rfl

theorem role_next (peers : Peers) (pl : Place) (l : CoordStep) (s : Coordinator) :
    (pl.next peers l s).role = match l with
      | .receive _ frame => pl.role.meets frame
      | _ => pl.role := by
  cases l with
  | send fd frame bytes =>
    dsimp only [next]
    split
    · rfl
    · unfold conveyed
      split
      · rfl
      split
      · rfl
      · rfl
  | _ => rfl

end Place

theorem ConnStage.Resting.slot {st : ConnStage} (h : st.Resting) : st.slot = none := by
  cases st with
  | start | checked _ _ | dispatching _ _ => rfl
  | _ => exact h.elim

theorem ConnStage.slot_sent (st : ConnStage) (fd : Socket) : (st.sent fd).slot = st.slot := by
  cases st <;> rfl

theorem ConnStage.slot_broken (st : ConnStage) : st.broken.slot = st.slot := by
  cases st <;> rfl

theorem ConnStage.Targets.sent {workers : List WorkerSlot} {st : ConnStage} (h : st.Targets workers)
    (fd : Socket) : (st.sent fd).Targets workers := by
  cases st <;> exact h

theorem ConnStage.Targets.broken {workers : List WorkerSlot} {st : ConnStage}
    (h : st.Targets workers) : st.broken.Targets workers := by
  cases st <;> exact h

/-- The worker that is picked is listed. -/
theorem Coordinator.pickWorker_listed {s : Coordinator} {boot : WorkerBootId} {fd : Socket}
    (h : s.pickWorker boot = some fd) : ∃ w ∈ s.workers, w.fd = some fd := by
  unfold Coordinator.pickWorker at h
  split at h
  · rename_i w hfind
    exact ⟨w, List.mem_of_find?_eq_some hfind, h⟩
  · obtain ⟨w, hfind, hfd⟩ := Option.bind_eq_some_iff.mp h
    exact ⟨w, List.mem_of_find?_eq_some hfind, hfd⟩

namespace Place

variable {peers : Peers} {pl : Place} {l : CoordStep} {s : Coordinator}

/-- The client of a thread stays. -/
theorem client_next {fd : Socket} (hok : pl.Allows l) (h : pl.client = some fd) :
    (pl.next peers l s).client = some fd := by
  obtain ⟨hrole, hconn⟩ := client_eq_some.mp h
  refine client_eq_some.mpr ⟨?_, ?_⟩
  · rw [role_next]
    split
    · rw [hrole]
      rfl
    · exact hrole
  · rw [conn_next]
    split
    · rw [hok.1] at hconn
      cases hconn
    · exact hconn

/-- A thread puts a slot into the list when it registers, and has it from then on. -/
theorem slot_next (peers : Peers) (pl : Place) (l : CoordStep) (s : Coordinator) :
    pl.Allows l → (pl.next peers l s).stage.slot = match l with
      | .register slot => some slot
      | _ => pl.stage.slot := by
  intro hok
  cases l with
  | receive fd frame => exact hok.2.2.slot.symm
  | send fd frame bytes =>
    rcases stage_send peers pl fd frame bytes s with h | h | h
    · exact congrArg ConnStage.slot h
    · exact (congrArg ConnStage.slot h).trans (pl.stage.slot_sent fd)
    · exact (congrArg ConnStage.slot h).trans pl.stage.slot_broken
  | checkEpoch e =>
    rw [hok.1]
    rfl
  | pickWorker boot =>
    obtain ⟨e, hstage⟩ := hok
    simp only [next, ConnStage.next, hstage, ConnStage.slot]
  | storeEpoch e =>
    rw [hok.1]
    rfl
  | storeGen e =>
    rw [hok.1]
    rfl
  | lockWorkers | readWorkers =>
    obtain ⟨e, hstage⟩ := hok
    simp only [next, ConnStage.next, hstage, ConnStage.slot]
  | unlockWorkers =>
    obtain ⟨e, slots, reached, failed, hstage, -⟩ := hok
    rw [hstage]
    rfl
  | loadEpoch =>
    obtain ⟨slot, hstage⟩ := hok
    simp only [next, ConnStage.next, hstage, ConnStage.slot]
  | _ => rfl

/-- The workers in hand are taken from the list. -/
theorem targets_next (hok : pl.Allows l) (h : pl.stage.Targets s.workers) :
    (pl.next peers l s).stage.Targets (l.effect peers s).workers := by
  cases l with
  | send fd frame bytes =>
    have hwrite := stage_send peers pl fd frame bytes s
    dsimp only at hwrite
    rcases hwrite with hst | hst | hst
    · rw [hst]
      exact h
    · rw [hst]
      exact h.sent fd
    · rw [hst]
      exact h.broken
  | pickWorker boot =>
    obtain ⟨e, hstage⟩ := hok
    simp only [next, ConnStage.next, hstage]
    cases hpick : s.pickWorker boot with
    | none => trivial
    | some fd => exact Coordinator.pickWorker_listed hpick
  | readWorkers =>
    obtain ⟨e, hstage⟩ := hok
    simp only [next, ConnStage.next, hstage]
    exact List.Subset.refl _
  | lockWorkers | loadEpoch =>
    obtain ⟨e, hstage⟩ := hok
    simp only [next, ConnStage.next, hstage]
    trivial
  | receive _ _ | checkEpoch _ | storeEpoch _ | storeGen _ | unlockWorkers | register _ => trivial
  | _ => exact h

end Place

/-! ## The roster -/

/-- Each connection has its thread, and the workers are the slots of the threads of registrations. -/
structure Roster (P : Nat → Place) (s : Coordinator) : Prop where
  accepted : ∀ i fd, (P i).conn = some fd → fd < s.accepted
  own : ∀ i j fd, (P i).conn = some fd → (P j).conn = some fd → i = j
  listed : ∀ w, w ∈ s.workers ↔ ∃ i, (P i).stage.slot = some w
  slot : ∀ i w, (P i).stage.slot = some w → (P i).role = .worker ∧ w.fd = (P i).conn ∧ w.fd.isSome
  targets : ∀ i, (P i).stage.Targets s.workers

theorem Roster.initial (store : FilePersistenceStore) :
    Roster (fun _ => {}) (Coordinator.initial store) where
  accepted _ _ h := by cases h
  own _ _ _ h := by cases h
  listed w := iff_of_false List.not_mem_nil fun ⟨_, h⟩ => by cases h
  slot _ _ h := by cases h
  targets _ := trivial

/-- The list is what the threads have put into it. -/
theorem Roster.listed_next {peers : Peers} {P : Nat → Place} {i : Nat} {l : CoordStep} {s : Coordinator}
    (h : Roster P s) (hok : (P i).Allows l) (w : WorkerSlot) : w ∈ (l.effect peers s).workers ↔
      ∃ j, (Function.update P i ((P i).next peers l s) j).stage.slot = some w := by
  have hslot := Place.slot_next peers (P i) l s hok
  rw [CoordStep.effect_workers]
  by_cases hregister : ∃ slot, l = .register slot
  · obtain ⟨slot, rfl⟩ := hregister
    have hnone : (P i).stage.slot = none := by
      rw [hok.1]
      rfl
    rw [List.mem_append, List.mem_singleton, h.listed]
    constructor
    · rintro (⟨j, hj⟩ | rfl)
      · have hji : j ≠ i := by
          rintro rfl
          rw [hnone] at hj
          cases hj
        exact ⟨j, by rwa [Function.update_of_ne hji]⟩
      · exact ⟨i, by rwa [Function.update_self]⟩
    · rintro ⟨j, hj⟩
      by_cases hji : j = i
      · rw [hji, Function.update_self, hslot] at hj
        exact .inr (Option.some.inj hj).symm
      · rw [Function.update_of_ne hji] at hj
        exact .inl ⟨j, hj⟩
  · have hsame : ((P i).next peers l s).stage.slot = (P i).stage.slot := by
      rw [hslot]
      split
      · exact absurd ⟨_, rfl⟩ hregister
      · rfl
    have hall : ∀ j, (Function.update P i ((P i).next peers l s) j).stage.slot = (P j).stage.slot := by
      intro j
      by_cases hji : j = i
      · rw [hji, Function.update_self, hsame]
      · rw [Function.update_of_ne hji]
    simp only [hall, ← h.listed]
    split
    · exact absurd ⟨_, rfl⟩ hregister
    · rfl

/-- The slot of a thread is that of its own connection. -/
theorem Roster.slot_next {peers : Peers} {P : Nat → Place} {i : Nat} {l : CoordStep} {s : Coordinator}
    {w : WorkerSlot} (h : Roster P s) (hok : (P i).Allows l)
    (hw : ((P i).next peers l s).stage.slot = some w) :
    ((P i).next peers l s).role = .worker ∧ w.fd = ((P i).next peers l s).conn ∧ w.fd.isSome := by
  rw [Place.slot_next peers (P i) l s hok] at hw
  rw [Place.role_next, Place.conn_next]
  cases l with
  | register slot =>
    obtain ⟨-, hrole, _, _, _, _, -, -, hconn, rfl⟩ := hok
    cases hw
    exact ⟨hrole, rfl, hconn⟩
  | accept =>
    rw [hok.2.2] at hw
    cases hw
  | receive fd frame =>
    rw [hok.2.2.slot] at hw
    cases hw
  | _ => exact h.slot i w hw

/-- One section. -/
theorem Roster.concat {peers : Peers} {P : Nat → Place} {i : Nat} {l : CoordStep} {s : Coordinator}
    (h : Roster P s) (hok : (P i).Allows l) :
    Roster (Function.update P i ((P i).next peers l s)) (l.effect peers s) := by
  have hconn := Place.conn_next peers (P i) l s
  have hworkers := CoordStep.effect_workers peers s l
  have haccepted := CoordStep.effect_accepted peers s l
  have hgrows : s.workers ⊆ (l.effect peers s).workers := by
    rw [hworkers]
    split
    · exact List.subset_append_left _ _
    · exact List.Subset.refl _
  have hlater : s.accepted ≤ (l.effect peers s).accepted := by
    rw [haccepted]
    split
    · exact Nat.le_succ _
    · exact le_rfl
  -- the socket of the thread is its own
  have hnew : ∀ fd, ((P i).next peers l s).conn = some fd →
      fd < (l.effect peers s).accepted ∧ ∀ j ≠ i, (P j).conn ≠ some fd := by
    intro fd hfd
    rw [hconn] at hfd
    rw [haccepted]
    split at hfd
    · cases hfd
      exact ⟨Nat.lt_succ_self _, fun j _ hj => Nat.lt_irrefl _ (h.accepted j _ hj)⟩
    · exact ⟨h.accepted i fd hfd, fun j hji hj => hji (h.own j i fd hj hfd)⟩
  refine ⟨fun j fd hj => ?_, fun j k fd hj hk => ?_, fun w => ?_, fun j w hj => ?_, fun j => ?_⟩
  · by_cases hji : j = i
    · subst hji
      rw [Function.update_self] at hj
      exact (hnew fd hj).1
    · rw [Function.update_of_ne hji] at hj
      exact Nat.lt_of_lt_of_le (h.accepted j fd hj) hlater
  · by_cases hji : j = i
    · by_cases hki : k = i
      · exact hji.trans hki.symm
      · rw [hji, Function.update_self] at hj
        rw [Function.update_of_ne hki] at hk
        exact absurd hk ((hnew fd hj).2 k hki)
    · rw [Function.update_of_ne hji] at hj
      by_cases hki : k = i
      · rw [hki, Function.update_self] at hk
        exact absurd hj ((hnew fd hk).2 j hji)
      · rw [Function.update_of_ne hki] at hk
        exact h.own j k fd hj hk
  · exact h.listed_next hok w
  · by_cases hji : j = i
    · subst hji
      rw [Function.update_self] at hj ⊢
      exact h.slot_next hok hj
    · rw [Function.update_of_ne hji] at hj ⊢
      exact h.slot j w hj
  · by_cases hji : j = i
    · subst hji
      rw [Function.update_self]
      exact Place.targets_next hok (h.targets j)
    · rw [Function.update_of_ne hji]
      exact (h.targets j).mono hgrows

namespace Roster

variable {P : Nat → Place} {s : Coordinator} {i : Nat} {fd : Socket} {frame : Frame}

/-- A socket is that of one worker at most. -/
theorem unique (h : Roster P s) {w w' : WorkerSlot} (hw : w ∈ s.workers) (hw' : w' ∈ s.workers)
    (hfd : w.fd = some fd) (hfd' : w'.fd = some fd) : w = w' := by
  obtain ⟨i, hi⟩ := (h.listed w).mp hw
  obtain ⟨j, hj⟩ := (h.listed w').mp hw'
  obtain ⟨-, hconn, -⟩ := h.slot i w hi
  obtain ⟨-, hconn', -⟩ := h.slot j w' hj
  obtain rfl := h.own i j fd (hconn.symm.trans hfd) (hconn'.symm.trans hfd')
  exact Option.some.inj (hi.symm.trans hj)

/-- No client is served on the socket of a worker. -/
theorem client_ne (h : Roster P s) {w : WorkerSlot} (hw : w ∈ s.workers) (hfd : w.fd = some fd)
    (i : Nat) : (P i).client ≠ some fd := by
  intro hclient
  obtain ⟨hrole, hconn⟩ := Place.client_eq_some.mp hclient
  obtain ⟨j, hj⟩ := (h.listed w).mp hw
  obtain ⟨hworker, hconn', -⟩ := h.slot j w hj
  obtain rfl := h.own i j fd hconn (hconn'.symm.trans hfd)
  rw [hrole] at hworker
  cases hworker

/-- A frame that does not go to a thread's client goes to a listed worker. -/
theorem known (h : Roster P s) (hsends : (P i).stage.Sends (P i).client fd frame)
    (hclient : (P i).client ≠ some fd) : ∃ w ∈ s.workers, w.fd = some fd := by
  have htargets := h.targets i
  cases hstage : (P i).stage with
  | start | checked _ _ =>
    rw [hstage] at hsends
    exact absurd hsends.1 hclient
  | dispatching e worker =>
    rw [hstage] at hsends htargets
    rcases hsends with ⟨rfl, -⟩ | hanswer
    · exact htargets
    · exact absurd hanswer.1 hclient
  | casting e slots reached failed =>
    rw [hstage] at hsends htargets
    obtain ⟨-, w, hw, hfd⟩ := hsends
    exact ⟨w, htargets hw, hfd⟩
  | acking slot e =>
    rw [hstage] at hsends
    exact ⟨slot, (h.listed slot).mpr ⟨i, by rw [hstage]; rfl⟩, hsends.1⟩
  | _ =>
    rw [hstage] at hsends
    exact hsends.elim

/-- An acknowledgement goes to the worker that has registered. -/
theorem acknowledges (h : Roster P s) (hsends : (P i).stage.Sends (P i).client fd frame)
    (hclient : (P i).client ≠ some fd) (htype : frame.1 = DistMsgType.registerAckC.code)
    {w : WorkerSlot} (hw : w ∈ s.workers) (hfd : w.fd = some fd) : ∃ e,
      (P i).stage = .acking w e ∧ frame = (DistMsgType.registerAckC.code, encodeRegisterAck e w.id 1) := by
  cases hstage : (P i).stage with
  | start | checked _ _ =>
    rw [hstage] at hsends
    exact absurd hsends.1 hclient
  | dispatching e worker =>
    rw [hstage] at hsends
    rcases hsends with ⟨-, _, _, _, _, _, _, -, rfl⟩ | hanswer
    · have hne : DistMsgType.buildReq.code ≠ DistMsgType.registerAckC.code := by decide
      exact absurd htype hne
    · exact absurd hanswer.1 hclient
  | casting e slots reached failed =>
    rw [hstage] at hsends
    rw [hsends.1] at htype
    have hne : DistMsgType.rollEpoch.code ≠ DistMsgType.registerAckC.code := by decide
    exact absurd htype hne
  | acking slot e =>
    rw [hstage] at hsends
    have hslot : slot ∈ s.workers := (h.listed slot).mpr ⟨i, by rw [hstage]; rfl⟩
    obtain rfl := h.unique hw hslot hfd hsends.1
    exact ⟨e, rfl, hsends.2⟩
  | _ =>
    rw [hstage] at hsends
    exact hsends.elim

/-- Nobody has registered on the socket of a registration before it. -/
theorem unlisted (h : Roster P s) {slot : WorkerSlot} (hok : (P i).Allows (.register slot))
    (hfd : slot.fd = some fd) : ∀ w ∈ s.workers, w.fd ≠ some fd := by
  intro w hw hfd'
  obtain ⟨hstage, -, _, _, _, _, -, -, -, rfl⟩ := hok
  obtain ⟨j, hj⟩ := (h.listed w).mp hw
  obtain ⟨-, hconn, -⟩ := h.slot j w hj
  obtain rfl := h.own i j fd hfd (hconn.symm.trans hfd')
  rw [hstage] at hj
  cases hj

end Roster

section Runs

variable {peers : Peers} {store : FilePersistenceStore} {tr : List (Event CoordStep Coordinator)}
  {pool : Pool CoordStep Coordinator Unit}

theorem roster_history (h : CoordRuns peers store tr pool) :
    (∀ tr₁ e, tr₁ ++ [e] <+: tr → Roster (places peers tr₁) e.before ∧
      Roster (places peers (tr₁ ++ [e])) e.after) ∧ Roster (places peers tr) pool.shared := by
  have hinit : Roster (places peers []) (Coordinator.initial store) := Roster.initial store
  refine Foundation.Runs.history (I := fun tr s => Roster (places peers tr) s) hinit h fun tr₁ e hpre hI => ?_
  have hstep := h.event_step e (hpre.subset (by simp))
  rw [places_concat, (coordExec_eq_some.mp hstep).2]
  exact hI.concat (conducted h hpre).1

end Runs

end KernelCache
