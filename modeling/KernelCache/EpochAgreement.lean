/-
# KernelCache.EpochAgreement — one epoch for everybody.

The coordinator's epoch, its generation and the epochs of the workers are the same at rest, provided
that the rolls act in the order in which they stored the epoch and that the workers are sent whole
frames.  Nothing in the coordinator sees to the order: a roll that was overtaken stores its generation
and writes to the workers after the newer one.
-/
import KernelCache.CatchingUp

namespace KernelCache

open Foundation (Bytes Event Pool Prog)
open TcpConnection (frameBytes)

/-! ## Frames to the workers -/

/-- The stage moves with the last octet of a frame. -/
theorem Place.stage_written {peers : Peers} {pl : Place} {fd : Socket} {frame : Frame} {bytes : Bytes}
    {s : Coordinator} (htaken : s.taken peers fd bytes ≠ 0) :
    (completion peers fd pl (.send fd frame bytes) s = some frame ∧
        (pl.next peers (.send fd frame bytes) s).stage = pl.stage.sent fd) ∨
      (completion peers fd pl (.send fd frame bytes) s = none ∧
        (pl.next peers (.send fd frame bytes) s).stage = pl.stage) := by
  dsimp only [completion, next]
  rw [if_neg htaken]
  unfold conveyed
  by_cases hdone : pl.transit.done ++ bytes.take (s.taken peers fd bytes) = frameBytes frame
  · rw [if_pos hdone, if_pos ⟨rfl, htaken, hdone⟩]
    exact .inl ⟨rfl, rfl⟩
  · rw [if_neg hdone, if_neg fun h => hdone h.2.2]
    refine .inr ⟨rfl, ?_⟩
    split
    · rfl
    · rfl

section Send

variable {peers : Peers} {P : Nat → Place} {newest : Option Nat} {comp comp' : Socket → List Frame}
  {s : Coordinator} {i : Nat} {fd : Socket} {frame : Frame} {bytes : Bytes}

/-- A frame that is neither an acknowledgement nor a roll. -/
theorem coordEpoch_more {w : WorkerSlot} (hack : frame.1 ≠ DistMsgType.registerAckC.code)
    (hroll : frame.1 ≠ DistMsgType.rollEpoch.code) {f : Option Frame}
    (hf : f = some frame ∨ f = none) (hcomp : comp' fd = comp fd ++ f.toList)
    (hgreet : ∀ g, (comp' fd).head? = some g → Acknowledges w g) : comp' fd = comp fd ∨
      comp fd ≠ [] ∧ Worker.coordEpoch (comp' fd) = Worker.coordEpoch (comp fd) := by
  rcases hf with rfl | rfl
  · have hne : comp fd ≠ [] := by
      intro hnil
      rw [hcomp, hnil] at hgreet
      obtain ⟨e, rfl⟩ := hgreet frame rfl
      exact hack rfl
    refine .inr ⟨hne, ?_⟩
    rw [hcomp]
    simp only [Option.toList_some, Worker.coordEpoch_concat hne, Worker.rolledBy, hroll, if_false,
      Option.map_id']
  · rw [Option.toList_none, List.append_nil] at hcomp
    exact .inl hcomp

/-- **One `::send`.** -/
theorem Agreement.send (h : Agreement (stages P) newest comp s) (hroster : Roster P s)
    (hok : (P i).Allows (.send fd frame bytes))
    (htaken : (∃ w ∈ s.workers, w.fd = some fd) → s.taken peers fd bytes ≠ 0)
    (hcomp : comp' fd = comp fd ++ (completion peers fd (P i) (.send fd frame bytes) s).toList)
    (hother : ∀ fd' ≠ fd, comp' fd' = comp fd')
    (hgreet : ∀ w ∈ s.workers, w.fd = some fd → ∀ f, (comp' fd).head? = some f → Acknowledges w f) :
    Agreement (Function.update (stages P) i ((P i).next peers (.send fd frame bytes) s).stage) newest
      comp' ((CoordStep.send fd frame bytes).effect peers s) := by
  have hsends := hok.2.2.2
  have htargets := hroster.targets i
  have hthis : ∀ st, (P i).stage = st → stages P i = st := fun st hst => hst
  have hsome : completion peers fd (P i) (.send fd frame bytes) s = some frame ∨
      completion peers fd (P i) (.send fd frame bytes) s = none := by
    dsimp only [completion]
    split
    · exact .inl rfl
    · exact .inr rfl
  -- what is on its way to clients, and requests, leave the thread and the epochs
  have hquiet : (P i).stage.sent fd = (P i).stage → (P i).stage.broken = (P i).stage →
      frame.1 ≠ DistMsgType.registerAckC.code → frame.1 ≠ DistMsgType.rollEpoch.code →
      Agreement (Function.update (stages P) i ((P i).next peers (.send fd frame bytes) s).stage) newest
        comp' ((CoordStep.send fd frame bytes).effect peers s) := by
    intro hsent hbroken hack hroll
    have hstage : ((P i).next peers (.send fd frame bytes) s).stage = (P i).stage := by
      rcases Place.stage_send peers (P i) fd frame bytes s with h | h | h
      · exact h
      · exact h.trans hsent
      · exact h.trans hbroken
    rw [hstage]
    refine h.stay rfl rfl rfl fun w hw fd' hfd' => ?_
    by_cases hfd : fd' = fd
    · subst hfd
      exact coordEpoch_more hack hroll hsome hcomp (hgreet w hw hfd')
    · exact .inl (hother fd' hfd)
  -- part of a frame
  have hpart : (∃ w ∈ s.workers, w.fd = some fd) →
      completion peers fd (P i) (.send fd frame bytes) s ≠ some frame →
      Agreement (Function.update (stages P) i ((P i).next peers (.send fd frame bytes) s).stage) newest
        comp' ((CoordStep.send fd frame bytes).effect peers s) := by
    intro hknown hnone
    obtain ⟨hno, hstage⟩ := (Place.stage_written (htaken hknown)).resolve_left fun h => hnone h.1
    rw [hno, Option.toList_none, List.append_nil] at hcomp
    rw [hstage]
    refine h.stay rfl rfl rfl fun w hw fd' hfd' => .inl ?_
    by_cases hfd : fd' = fd
    · rw [hfd, hcomp]
    · exact hother fd' hfd
  cases hstage : (P i).stage with
  | start | checked _ _ =>
    rw [hstage] at hsends hquiet
    refine hquiet rfl rfl ?_ ?_
    · rcases hsends.2 with htype | htype <;> rw [htype] <;> decide
    · rcases hsends.2 with htype | htype <;> rw [htype] <;> decide
  | dispatching e worker =>
    rw [hstage] at hsends hquiet
    have htype : frame.1 = DistMsgType.buildReq.code ∨ frame.1 = DistMsgType.lookupResp.code ∨
        frame.1 = DistMsgType.queryWorkersResp.code := by
      rcases hsends with ⟨-, _, _, _, _, _, _, -, rfl⟩ | ⟨-, htype⟩
      · exact .inl rfl
      · exact .inr htype
    refine hquiet rfl rfl ?_ ?_
    · rcases htype with htype | htype | htype <;> rw [htype] <;> decide
    · rcases htype with htype | htype | htype <;> rw [htype] <;> decide
  | casting e slots reached failed =>
    rw [hstage] at hsends htargets
    obtain ⟨rfl, w, hslot, hfd⟩ := hsends
    have hw : w ∈ s.workers := htargets hslot
    by_cases hdone : completion peers fd (P i)
        (.send fd (DistMsgType.rollEpoch.code, encodeRollEpoch e) bytes) s =
          some (DistMsgType.rollEpoch.code, encodeRollEpoch e)
    · obtain ⟨-, hmoved⟩ := (Place.stage_written (htaken ⟨w, hw, hfd⟩)).resolve_right fun h => by
        rw [hdone] at h
        cases h.1
      rw [hdone] at hcomp
      have hne : comp fd ≠ [] := by
        intro hnil
        have hfirst := hgreet w hw hfd
        rw [hcomp, hnil] at hfirst
        obtain ⟨x, hx⟩ := hfirst _ rfl
        have hne : DistMsgType.rollEpoch.code ≠ DistMsgType.registerAckC.code := by decide
        exact hne (Prod.mk.inj hx).1
      rw [hmoved, hstage, CoordStep.effect]
      exact h.reached (hthis _ hstage) (List.ne_nil_of_mem hslot) hne hcomp hother
    · exact hpart ⟨w, hw, hfd⟩ hdone
  | acking w e =>
    rw [hstage] at hsends
    obtain ⟨hfd, rfl⟩ := hsends
    have hslot : (P i).stage.slot = some w := by
      rw [hstage]
      rfl
    have hw : w ∈ s.workers := (hroster.listed w).mpr ⟨i, hslot⟩
    by_cases hdone : completion peers fd (P i)
        (.send fd (DistMsgType.registerAckC.code, encodeRegisterAck e w.id 1) bytes) s =
          some (DistMsgType.registerAckC.code, encodeRegisterAck e w.id 1)
    · obtain ⟨-, hmoved⟩ := (Place.stage_written (htaken ⟨w, hw, hfd⟩)).resolve_right fun h => by
        rw [hdone] at h
        cases h.1
      rw [hdone] at hcomp
      rw [hmoved, hstage, CoordStep.effect]
      refine h.acked (hthis _ hstage) hfd (fun w' hw' hfd' => hroster.unique hw' hw hfd' hfd)
        (fun j hji hj => hji ?_) hcomp hother
      -- the slot is of one thread only
      have hslot' : (P j).stage.slot = some w := by
        unfold stages at hj
        cases hstage' : (P j).stage with
        | registered _ | acking _ _ =>
          rw [hstage'] at hj
          exact hj
        | _ =>
          rw [hstage'] at hj
          cases hj
      obtain ⟨-, hconn, -⟩ := hroster.slot i w hslot
      obtain ⟨-, hconn', -⟩ := hroster.slot j w hslot'
      exact hroster.own j i fd (hconn'.symm.trans hfd) (hconn.symm.trans hfd)
    · exact hpart ⟨w, hw, hfd⟩ hdone
  | _ =>
    rw [hstage] at hsends
    exact hsends.elim

end Send

/-! ## Runs -/

/-- The thread that stored the epoch last. -/
def newestRoll (tr : List (Event CoordStep Coordinator)) : Option Nat :=
  tr.foldl (fun newest e => match e.label with
    | .storeEpoch _ => some e.thread
    | _ => newest) none

theorem newestRoll_concat (tr : List (Event CoordStep Coordinator)) (e : Event CoordStep Coordinator) :
    newestRoll (tr ++ [e]) = match e.label with
      | .storeEpoch _ => some e.thread
      | _ => newestRoll tr := by
  rw [newestRoll, List.foldl_append]
  rfl

/-- A roll does not store its generation, nor read the list of the workers, after a newer roll has; and
no `::send` to a worker fails. -/
def InOrder (peers : Peers) (newest : Option Nat) (P : Nat → Place) (e : Event CoordStep Coordinator) :
    Prop :=
  match e.label with
  | .storeGen _ => (P e.thread).stage.rollsTo = some e.before.epoch ∨
      Newest (stages P) newest ConnStage.Unsettled
  | .readWorkers => (P e.thread).stage.rollsTo = some e.before.epoch ∨
      Newest (stages P) newest ConnStage.Waits ∨ e.before.workers = []
  | .send fd _ bytes => (∃ w ∈ e.before.workers, w.fd = some fd) → e.before.taken peers fd bytes ≠ 0
  | _ => True

/-- Every roll acts in its order. -/
def RollsInOrder (peers : Peers) (tr : List (Event CoordStep Coordinator)) : Prop :=
  ∀ tr₁ e, tr₁ ++ [e] <+: tr → InOrder peers (newestRoll tr₁) (places peers tr₁) e

/-- After a trace. -/
def Agreed (peers : Peers) (tr : List (Event CoordStep Coordinator)) (s : Coordinator) : Prop :=
  Agreement (stages (places peers tr)) (newestRoll tr) (fun fd => completed peers fd tr) s

/-- The first frame completed on the socket of a worker acknowledges its registration. -/
theorem Streamed.greets {peers : Peers} {tr : List (Event CoordStep Coordinator)} {s : Coordinator}
    (h : Streamed peers tr s) (hroster : Roster (places peers tr) s) {w : WorkerSlot}
    (hw : w ∈ s.workers) {fd : Socket} (hfd : w.fd = some fd) {f : Frame}
    (hf : (completed peers fd tr).head? = some f) : Acknowledges w f := by
  obtain ⟨under, part, -, -, hgreet⟩ := (h fd (hroster.client_ne hw hfd)).1
  refine hgreet w hw hfd f ?_
  rw [List.head?_append, hf]
  rfl

/-- Nothing is completed on the socket of a registration before it. -/
theorem Streamed.unsent {peers : Peers} {tr : List (Event CoordStep Coordinator)} {s : Coordinator}
    (h : Streamed peers tr s) (hroster : Roster (places peers tr) s) {i : Nat} {slot : WorkerSlot}
    (hok : (places peers tr i).Allows (.register slot)) :
    Unsent (fun fd => completed peers fd tr) slot := by
  intro fd hfd
  have hclient : ∀ j, (places peers tr j).client ≠ some fd := by
    intro j hj
    obtain ⟨hrole, hconn⟩ := Place.client_eq_some.mp hj
    obtain ⟨-, hworker, _, _, _, _, -, -, -, rfl⟩ := hok
    obtain rfl := hroster.own i j fd hfd hconn
    rw [hrole] at hworker
    cases hworker
  obtain ⟨⟨under, part, hsent, hcarried, -⟩, hnothing⟩ := h fd hclient
  rw [hnothing (hroster.unlisted hok hfd)] at hsent
  exact (List.append_eq_nil_iff.mp (hcarried.of_nil hsent.symm)).1

/-- One section. -/
theorem Agreed.concat {peers : Peers} {tr : List (Event CoordStep Coordinator)}
    {e : Event CoordStep Coordinator} (h : Agreed peers tr e.before)
    (hroster : Roster (places peers tr) e.before) (hroster' : Roster (places peers (tr ++ [e])) e.after)
    (hholds : OneHolds (stages (places peers tr)) e.before) (hstreamed : Streamed peers tr e.before)
    (hstreamed' : Streamed peers (tr ++ [e]) e.after) (hok : (places peers tr e.thread).Allows e.label)
    (hready : e.label.ready e.before = true) (hafter : e.after = e.label.effect peers e.before)
    (horder : InOrder peers (newestRoll tr) (places peers tr) e) : Agreed peers (tr ++ [e]) e.after := by
  have hcompleted := fun fd => completed_concat peers fd tr e
  have hworkers : ∀ w ∈ e.before.workers, w.fd.isSome := by
    intro w hw
    obtain ⟨i, hi⟩ := (hroster.listed w).mp hw
    exact (hroster.slot i w hi).2.2
  rw [hafter] at hroster' hstreamed'
  rw [hafter, Agreed, newestRoll_concat, places_concat, stages_update]
  by_cases hsend : ∃ fd frame bytes, e.label = .send fd frame bytes
  · obtain ⟨fd, frame, bytes, hlabel⟩ := hsend
    rw [InOrder, hlabel] at horder
    rw [hlabel] at hok hcompleted hroster' hstreamed' ⊢
    refine Agreement.send h hroster hok horder (hcompleted fd) (fun fd' hne => ?_)
      fun w hw hfd f hf => hstreamed'.greets hroster' hw hfd hf
    rw [hcompleted fd', completion_eq_none, Option.toList_none, List.append_nil]
    rintro frame' bytes' ⟨⟩
    exact hne rfl
  · have hsame : (fun fd => completed peers fd (tr ++ [e])) = fun fd => completed peers fd tr := by
      funext fd
      rw [hcompleted fd, completion_eq_none fun frame bytes hlabel => hsend ⟨fd, frame, bytes, hlabel⟩,
        Option.toList_none, List.append_nil]
    rw [hsame]
    rw [InOrder] at horder
    cases hlabel : e.label with
    | send fd frame bytes => exact absurd ⟨fd, frame, bytes, hlabel⟩ hsend
    | receive fd frame =>
      rw [hlabel] at hok
      exact h.rest hok.2.2 trivial
    | checkEpoch x =>
      rw [hlabel] at hok
      refine h.rest ?_ trivial
      rw [stages, hok.1]
      trivial
    | pickWorker boot =>
      rw [hlabel] at hok
      obtain ⟨x, hstage⟩ := hok
      simp only [Place.next, ConnStage.next, hstage]
      refine h.rest ?_ trivial
      rw [stages, hstage]
      trivial
    | storeEpoch x =>
      rw [hlabel] at hok
      exact h.storeEpoch hok.1 x
    | storeGen x =>
      rw [hlabel] at hok horder
      refine h.storeGen hok.1 (horder.imp_left fun hrolls => ?_)
      rw [hok.1] at hrolls
      exact Option.some.inj hrolls
    | lockWorkers =>
      rw [hlabel] at hok hready
      obtain ⟨x, hstage⟩ := hok
      simp only [Place.next, ConnStage.next, hstage]
      refine h.lockWorkers hholds ?_ hstage
      simpa [CoordStep.ready] using hready
    | readWorkers =>
      rw [hlabel] at hok horder
      obtain ⟨x, hstage⟩ := hok
      simp only [Place.next, ConnStage.next, hstage]
      refine h.readWorkers hstage (horder.imp_left fun hrolls => ?_)
      rw [hstage] at hrolls
      exact Option.some.inj hrolls
    | unlockWorkers =>
      rw [hlabel] at hok
      obtain ⟨x, slots, reached, failed, hstage, hreached⟩ := hok
      exact h.unlockWorkers hstage hworkers hreached
    | register slot =>
      rw [hlabel] at hok
      exact h.register hok.1 (hstreamed.unsent hroster hok)
    | loadEpoch =>
      rw [hlabel] at hok
      obtain ⟨slot, hstage⟩ := hok
      simp only [Place.next, ConnStage.next, hstage]
      exact h.loadEpoch hstage
    | _ => exact h.stay rfl rfl rfl fun _ _ _ _ => .inl rfl

section Runs

variable {peers : Peers} {store : FilePersistenceStore} {tr : List (Event CoordStep Coordinator)}
  {pool : Pool CoordStep Coordinator Unit}

/-- Along a run whose rolls act in their order. -/
theorem agreed_history (h : CoordRuns peers store tr pool) (hturn : SendsInTurn peers tr)
    (horder : RollsInOrder peers tr) : Agreed peers tr pool.shared := by
  have hinit : Agreed peers [] (Coordinator.initial store) := Agreement.initial store
  refine (Foundation.Runs.history (I := Agreed peers) hinit h fun tr₁ e hpre hI => ?_).2
  obtain ⟨hready, hafter⟩ := coordExec_eq_some.mp (h.event_step e (hpre.subset (by simp)))
  have hroster := (roster_history h).1 tr₁ e hpre
  have hstreamed := (streamed_history h hturn).1 tr₁ e hpre
  exact hI.concat hroster.1 hroster.2 (oneHolds_history h hpre) hstreamed.1 hstreamed.2
    (conducted h hpre).1 hready hafter (horder tr₁ e hpre)

/-- An idle thread is nobody's roll. -/
theorem ConnStage.Idle.not_newest {S : Nat → ConnStage} {newest : Option Nat} {Q : ConnStage → Prop}
    (hidle : ∀ i, (S i).Idle) (hQ : ∀ st : ConnStage, st.Idle → ¬ Q st) : ¬ Newest S newest Q := by
  rintro ⟨i, -, hi⟩
  exact hQ _ (hidle i) hi

/-- **Epoch agreement.** When every roll has acted in its order and no roll or registration is in
progress, the generation is the epoch, and every worker that has taken the frames it was sent, and still
runs, has the epoch. -/
theorem epoch_agreement (h : CoordRuns peers store tr pool) (hturn : SendsInTurn peers tr)
    (horder : RollsInOrder peers tr) (hidle : ∀ i, (places peers tr i).stage.Idle) :
    pool.shared.gen = pool.shared.epoch ∧
    ∀ w ∈ pool.shared.workers, ∃ fd frames part, w.fd = some fd ∧
      (pool.shared.channels fd).sent = frames.flatMap frameBytes ++ part ∧
      ((∀ i, ¬ (places peers tr i).transit.On fd) → part = [] ∧
        ((∀ f ∈ frames, TcpConnection.Fits f) →
          TcpConnection.framesOf (pool.shared.channels fd).sent = (frames, []))) ∧
      ∀ env boot, ∃ worker, Worker.process env boot frames = some worker ∧
        (worker.running = true → worker.epoch = pool.shared.epoch) := by
  have hagreed := agreed_history h hturn horder
  have hnobody : ∀ {Q : ConnStage → Prop}, (∀ st : ConnStage, st.Idle → ¬ Q st) →
      ¬ Newest (stages (places peers tr)) (newestRoll tr) Q := ConnStage.Idle.not_newest hidle
  refine ⟨hagreed.gen.resolve_right (hnobody fun st hst => ?_), fun w hw => ?_⟩
  · cases st <;> first | exact id | exact hst.elim
  obtain ⟨i, hi⟩ := ((roster_history h).2.listed w).mp hw
  obtain ⟨fd, hfd⟩ := Option.isSome_iff_exists.mp ((roster_history h).2.slot i w hi).2.2
  obtain ⟨under, part, hsent, hcarried, -⟩ := stream_whole h hturn hw hfd
  refine ⟨fd, completed peers fd tr, part, hfd, hsent, fun hclear => ?_, fun env boot => ?_⟩
  · cases hcarried with
    | nobody _ =>
      refine ⟨rfl, fun hfits => ?_⟩
      rw [hsent]
      exact TcpConnection.framesOf_append hfits TcpConnection.frameReader_nil
    | @one j _ _ ht => exact absurd (by rw [ht]; exact rfl) (hclear j)
  have hknown := (hagreed.workers w hw).resolve_left ?_
  · obtain ⟨e, he, hcurrent⟩ := hknown fd hfd
    have hnow : e = pool.shared.epoch := hcurrent.resolve_right (hnobody fun st hst => ?_)
    · rw [← hnow]
      exact Worker.process_epoch he
    · cases st <;> first | exact id | exact hst.elim
  · rintro ⟨j, hj⟩
    have hrest := hidle j
    unfold stages at hj
    cases hstage : (places peers tr j).stage with
    | registered _ | acking _ _ =>
      rw [hstage] at hrest
      exact hrest
    | _ =>
      rw [hstage] at hj
      cases hj

end Runs

/-! ## Runs of a few threads -/

/-- Every roll acts while its epoch is the epoch. -/
def punctual (peers : Peers) (P : Nat → Place) (e : Event CoordStep Coordinator) : Bool :=
  match e.label with
  | .storeGen _ | .readWorkers => (P e.thread).stage.rollsTo == some e.before.epoch
  | .send fd _ bytes => e.before.taken peers fd bytes != 0
  | _ => true

instance ConnStage.decidableIdle : (st : ConnStage) → Decidable st.Idle
  | .start | .checked _ _ | .dispatching _ _ | .enlisted _ => inferInstanceAs (Decidable True)
  | .stored _ | .settled _ | .locked _ | .casting _ _ _ _ | .registered _ | .acking _ _ =>
    inferInstanceAs (Decidable False)

theorem rollsInOrder_of_punctual {peers : Peers} {tr : List (Event CoordStep Coordinator)}
    (h : Foundation.Throughout (Place.next peers) (fun P e => punctual peers P e = true)
      (fun _ => {}) tr) : RollsInOrder peers tr := by
  intro tr₁ e hpre
  have hpunctual := Foundation.throughout_iff.mp h tr₁ e hpre
  change punctual peers (places peers tr₁) e = true at hpunctual
  unfold punctual at hpunctual
  unfold InOrder
  split
  · rename_i hlabel
    rw [hlabel] at hpunctual
    exact .inl (beq_iff_eq.mp hpunctual)
  · rename_i hlabel
    rw [hlabel] at hpunctual
    exact .inl (beq_iff_eq.mp hpunctual)
  · rename_i hlabel
    rw [hlabel] at hpunctual
    exact fun _ => bne_iff_ne.mp hpunctual
  · trivial

/-- There are no other threads. -/
theorem idle_of_among {peers : Peers} {n : Nat} {tr : List (Event CoordStep Coordinator)}
    (hthreads : ∀ e ∈ tr, e.thread < n) (h : ∀ i < n, (places peers tr i).stage.Idle) (i : Nat) :
    (places peers tr i).stage.Idle := by
  by_cases hlt : i < n
  · exact h i hlt
  · rw [places_of_threads hthreads hlt]
    trivial

/-- A roll to 2 behind the acknowledgement. -/
theorem epoch_agreement_sample : ∃ tr pool, CoordRuns {} {} tr pool ∧ SendsInTurn {} tr ∧
    RollsInOrder {} tr ∧ (∀ i, (places {} tr i).stage.Idle) ∧ pool.shared.epoch = 2 ∧
    pool.shared.workers = [firstWorker] ∧ pool.shared.gen = pool.shared.epoch ∧
    ∃ frames part, (pool.shared.channels 0).sent = frames.flatMap frameBytes ++ part ∧
      ∀ env boot, ∃ worker, Worker.process env boot frames = some worker ∧
        (worker.running = true → worker.epoch = pool.shared.epoch) := by
  have hplay : (playConns {} {} (rollAmid 6)).map (fun out => (out.2.shared.epoch,
      out.2.shared.workers, decide (∀ e ∈ out.1, e.thread < 2),
      decide (Foundation.Throughout (Place.next {}) (InTurnAmong {} 2) (fun _ => {}) out.1),
      decide (Foundation.Throughout (Place.next {}) (fun P e => punctual {} P e = true) (fun _ => {}) out.1),
      (List.range 2).all fun i => decide (places {} out.1 i).stage.Idle)) =
        some (2, [firstWorker], true, true, true, true) := by
    decide +kernel
  obtain ⟨⟨tr, pool⟩, hplay, hout⟩ := Option.map_eq_some_iff.mp hplay
  obtain ⟨hepoch, hout⟩ := Prod.mk.inj hout
  obtain ⟨hworkers, hout⟩ := Prod.mk.inj hout
  obtain ⟨hthreads, hout⟩ := Prod.mk.inj hout
  obtain ⟨hturn, hout⟩ := Prod.mk.inj hout
  obtain ⟨hpunctual, hidle⟩ := Prod.mk.inj hout
  have hruns : CoordRuns {} {} tr pool := CoordRuns.of_play hplay
  have hsends := sendsInTurn_of_among (of_decide_eq_true hthreads) (of_decide_eq_true hturn)
  have horder := rollsInOrder_of_punctual (of_decide_eq_true hpunctual)
  have hrest : ∀ i, (places {} tr i).stage.Idle :=
    idle_of_among (of_decide_eq_true hthreads) fun i hi =>
      of_decide_eq_true (List.all_eq_true.mp hidle i (List.mem_range.mpr hi))
  obtain ⟨hgen, hall⟩ := epoch_agreement hruns hsends horder hrest
  obtain ⟨fd, frames, part, hfd, hsent, -, hworker⟩ := hall firstWorker (by
    rw [hworkers]
    exact List.mem_singleton.mpr rfl)
  cases hfd
  exact ⟨tr, pool, hruns, hsends, horder, hrest, hepoch, hworkers, hgen, frames, part, hsent, hworker⟩

/-- A client rolls to 2, and is overtaken by a roll to 3 after so many sections. -/
def overtakenRoll (n rest whole first : Nat) : List ConnMove :=
  .connect [rollTo 2] :: List.replicate n (.step first) ++
    .connect [rollTo 3] :: List.replicate whole (.step (first + 1)) ++ List.replicate rest (.step first)

/-- **Overtaken.** A roll to 3 between the two stores of a roll to 2: when everything has come to its
end, the epoch is 3 and the generation 2.  A roll to 3 between the stores and the broadcast of a roll to
2: the epoch and the generation are 3, and the worker has the epoch 2. -/
theorem rolls_overtaken :
    (∃ tr pool, CoordRuns {} {} tr pool ∧ (∀ q ∈ pool.threads, ∃ u, q = .ret u) ∧
      pool.shared.gen ≠ pool.shared.epoch) ∧
    ∃ tr pool, CoordRuns {} {} tr pool ∧ (∀ q ∈ pool.threads, ∃ u, q = .ret u) ∧
      pool.shared.gen = pool.shared.epoch ∧ pool.shared.workers = [firstWorker] ∧
      ∃ worker, Worker.process {} {} (TcpConnection.framesOf (pool.shared.channels 0).sent).1 = some worker ∧
        (TcpConnection.framesOf (pool.shared.channels 0).sent).2 = [] ∧
        worker.running = true ∧ worker.epoch ≠ pool.shared.epoch := by
  constructor
  · have hplay : (playConns {} {} (overtakenRoll 3 4 7 0)).map (fun out =>
        (out.2.threads.all Prog.ended, out.2.shared.gen, out.2.shared.epoch)) = some (true, 2, 3) := by
      decide +kernel
    obtain ⟨⟨tr, pool⟩, hplay, hout⟩ := Option.map_eq_some_iff.mp hplay
    obtain ⟨hended, hout⟩ := Prod.mk.inj hout
    obtain ⟨hgen, hepoch⟩ := Prod.mk.inj hout
    refine ⟨tr, pool, CoordRuns.of_play hplay,
      fun q hq => Prog.ended_iff.mp (List.all_eq_true.mp hended q hq), ?_⟩
    dsimp only at hgen hepoch
    rw [hgen, hepoch]
    decide
  · have hplay : (playConns {} {} (.connect [registration] :: List.replicate 6 (.step 0) ++
        overtakenRoll 4 5 9 1)).map (fun out =>
        (out.2.threads.all Prog.ended, out.2.shared.gen, out.2.shared.epoch, out.2.shared.workers,
          (TcpConnection.framesOf (out.2.shared.channels 0).sent).2.isEmpty,
          decide ((Worker.process {} {} (TcpConnection.framesOf (out.2.shared.channels 0).sent).1).map
            (fun worker => (worker.running, worker.epoch)) = some (true, 2)))) =
              some (true, 3, 3, [firstWorker], true, true) := by
      decide +kernel
    obtain ⟨⟨tr, pool⟩, hplay, hout⟩ := Option.map_eq_some_iff.mp hplay
    obtain ⟨hended, hout⟩ := Prod.mk.inj hout
    obtain ⟨hgen, hout⟩ := Prod.mk.inj hout
    obtain ⟨hepoch, hout⟩ := Prod.mk.inj hout
    obtain ⟨hworkers, hout⟩ := Prod.mk.inj hout
    obtain ⟨hleft, hout⟩ := Prod.mk.inj hout
    obtain ⟨worker, hworker, hout⟩ := Option.map_eq_some_iff.mp (of_decide_eq_true hout)
    obtain ⟨hrunning, hlast⟩ := Prod.mk.inj hout
    refine ⟨tr, pool, CoordRuns.of_play hplay,
      fun q hq => Prog.ended_iff.mp (List.all_eq_true.mp hended q hq), hgen.trans hepoch.symm, hworkers,
      worker, hworker, List.isEmpty_iff.mp hleft, hrunning, ?_⟩
    dsimp only at hepoch hlast
    rw [hlast, hepoch]
    decide

end KernelCache
