/-
# KernelCache.Conduct — where a thread of the coordinator is.

What one thread may do to the sockets and to the epoch depends on what it has in hand.  `Place` is the
ghost of that: the connection it serves, the frame it has read, what it has done about the frame, and
how far a frame has got that it is writing.  Every section moves the place (`Place.next`), and `Place.ok`
says in which place a section may be taken.

`conducted` is the one walk through the source: in every run, every section is taken where it is
allowed.  The results on epochs, on published builds and on the byte streams of the workers all start
from it.
-/
import KernelCache.Coordinator
import KernelCache.Foundation.Protocol

namespace KernelCache

open Foundation (Bytes Prog)
open Foundation.Prog (sect perform)
open TcpConnection (frameBytes)

/-! ## Places -/

/-- How far a frame has got that a thread is writing. -/
inductive Transit where
  | clear
  | under (fd : Socket) (frame : Frame) (done : Bytes)

/-- What a thread has done about the frame in hand. -/
inductive ConnStage where
  | start
  -- a lookup
  | checked (e : CoordinatorEpoch) (passed : Bool)
  | dispatching (e : CoordinatorEpoch) (worker : Option Socket)
  -- a roll
  | stored (e : CoordinatorEpoch)
  | settled (e : CoordinatorEpoch)
  | locked (e : CoordinatorEpoch)
  | casting (e : CoordinatorEpoch) (slots : List WorkerSlot) (reached : List Socket) (failed : Bool)
  -- a registration
  | registered (slot : WorkerSlot)
  | acking (slot : WorkerSlot) (e : CoordinatorEpoch)
  | enlisted (slot : WorkerSlot)

/-- Whose connection it is: the first frame decides. -/
inductive Role where
  | fresh
  | client
  | worker
  deriving DecidableEq

def Role.meets (frame : Frame) : Role → Role
  | fresh => if frame.1 = DistMsgType.registerW.code then worker else client
  | role => role

structure Place where
  conn : Option Socket := none
  role : Role := .fresh
  frame : Option Frame := none
  stage : ConnStage := .start
  transit : Transit := .clear

/-- The octets of the frame that are written. -/
def Transit.done : Transit → Bytes
  | clear => []
  | under _ _ done => done

/-- Octets of the frame may be written next. -/
def Transit.Fits (fd : Socket) (frame : Frame) : Transit → Prop
  | clear => True
  | under fd' frame' _ => fd' = fd ∧ frame' = frame

namespace ConnStage

/-- The thread is in the middle of neither a roll nor a registration. -/
def Resting : ConnStage → Prop
  | start | checked _ _ | dispatching _ _ => True
  | _ => False

/-- The frames a thread writes: requests and rolls to workers, acknowledgements, and answers to its own
client. -/
def Sends (client : Option Socket) (fd : Socket) (frame : Frame) : ConnStage → Prop
  | start | checked _ _ => client = some fd ∧
      (frame.1 = DistMsgType.lookupResp.code ∨ frame.1 = DistMsgType.queryWorkersResp.code)
  | dispatching e worker =>
      worker = some fd ∧ (∃ auth rid keycan src ns arch, auth.epoch = e ∧
        frame = (DistMsgType.buildReq.code, encodeBuildRequest auth rid keycan src ns arch)) ∨
      client = some fd ∧
        (frame.1 = DistMsgType.lookupResp.code ∨ frame.1 = DistMsgType.queryWorkersResp.code)
  | casting e slots _ _ => frame = (DistMsgType.rollEpoch.code, encodeRollEpoch e) ∧
      ∃ w ∈ slots, w.fd = some fd
  | acking slot e => slot.fd = some fd ∧
      frame = (DistMsgType.registerAckC.code, encodeRegisterAck e slot.id 1)
  | _ => False

/-- A frame is written. -/
def sent (fd : Socket) : ConnStage → ConnStage
  | casting e slots reached failed => casting e slots (reached ++ [fd]) failed
  | acking slot _ => enlisted slot
  | st => st

/-- The connection is gone in the middle of a frame. -/
def broken : ConnStage → ConnStage
  | casting e slots reached _ => casting e slots reached true
  | acking slot _ => enlisted slot
  | st => st

def next (st : ConnStage) (l : CoordStep) (s : Coordinator) : ConnStage :=
  match l, st with
  | .checkEpoch e, _ => checked e (e == s.epoch)
  | .pickWorker boot, checked e _ => dispatching e (s.pickWorker boot)
  | .storeEpoch e, _ => stored e
  | .storeGen e, _ => settled e
  | .lockWorkers, settled e => locked e
  | .readWorkers, locked e => casting e s.workers [] false
  | .unlockWorkers, _ => start
  | .register slot, _ => registered slot
  | .loadEpoch, registered slot => acking slot s.epoch
  | _, st => st

end ConnStage

namespace Place

/-- The frame has got so far: when it is complete, the stage moves. -/
def conveyed (pl : Place) (fd : Socket) (frame : Frame) (done : Bytes) : Place :=
  if done = frameBytes frame then { pl with stage := pl.stage.sent fd, transit := .clear }
  else if done = [] then { pl with transit := .clear }
  else { pl with transit := .under fd frame done }

/-- The connection is gone in the middle of a frame. -/
def broken (pl : Place) : Place := { pl with stage := pl.stage.broken, transit := .clear }

/-- The place behind a section. -/
def next (peers : Peers) (pl : Place) (l : CoordStep) (s : Coordinator) : Place :=
  match l with
  | .accept => { pl with conn := some s.accepted }
  | .receive _ frame => { pl with role := pl.role.meets frame, frame := some frame, stage := .start }
  | .send fd frame bytes =>
    if s.taken peers fd bytes = 0 then pl.broken
    else pl.conveyed fd frame (pl.transit.done ++ bytes.take (s.taken peers fd bytes))
  | l => { pl with stage := pl.stage.next l s }

/-- The socket of the client that is served. -/
def client (pl : Place) : Option Socket := if pl.role = .client then pl.conn else none

/-- The frame in hand rolls to the epoch. -/
def Rolls (pl : Place) (e : CoordinatorEpoch) : Prop :=
  ∃ p, pl.frame = some (DistMsgType.rollEpoch.code, p) ∧ e = rolledTo p

/-- The frame in hand is a lookup request under the epoch. -/
def Asks (pl : Place) (e : CoordinatorEpoch) : Prop :=
  ∃ p auth, pl.frame = some (DistMsgType.lookupReq.code, p) ∧
    (decodeLookupRequest p {}).1 = .ok auth ∧ auth.epoch = e

/-- The sections that may be taken in a place, the state of the socket aside. -/
def Allows (pl : Place) : CoordStep → Prop
  | .accept => pl.conn = none ∧ pl.role = .fresh ∧ pl.stage = .start
  | .receive fd _ => pl.conn = some fd ∧ pl.role ≠ .worker ∧ pl.stage.Resting
  | .send fd frame bytes => pl.transit.Fits fd frame ∧ bytes ≠ [] ∧
      pl.transit.done ++ bytes <+: frameBytes frame ∧ pl.stage.Sends pl.client fd frame
  | .checkEpoch e => pl.stage = .start ∧ pl.Asks e
  | .pickWorker _ => ∃ e, pl.stage = .checked e true
  | .readFrame fd => ∃ e, pl.stage = .dispatching e (some fd)
  | .recordBuilt _ _ _ => ∃ e fd, pl.stage = .dispatching e (some fd) ∧ pl.Asks e
  | .storeEpoch e => pl.stage = .start ∧ pl.Rolls e
  | .storeGen e => pl.stage = .stored e ∧ pl.Rolls e
  | .lockWorkers => ∃ e, pl.stage = .settled e
  | .readWorkers => ∃ e, pl.stage = .locked e
  | .unlockWorkers => ∃ e slots reached failed, pl.stage = .casting e slots reached failed ∧
      (failed = false → ∀ w ∈ slots, ∀ fd, w.fd = some fd → fd ∈ reached)
  | .register slot => pl.stage = .start ∧ pl.role = .worker ∧ ∃ p w boot gen,
      pl.frame = some (DistMsgType.registerW.code, p) ∧ decodeRegister p = .ok (w, boot, gen) ∧
        pl.conn.isSome ∧ slot = ⟨pl.conn, w, boot⟩
  | .loadEpoch => ∃ slot, pl.stage = .registered slot
  | _ => True

/-- Other sections are not taken in the middle of a frame. -/
def ok (pl : Place) (l : CoordStep) : Prop :=
  pl.Allows l ∧ (pl.transit = .clear ∨ ∃ fd frame bytes, l = .send fd frame bytes)

end Place

/-! ## Programs that know their place -/

/-- The program takes its sections where they are allowed, from the place `pl` on, and ends with `Q`. -/
def Conducts {α : Type} (peers : Peers) (p : CoordOp α) (pl : Place) (Q : α → Place → Prop) : Prop :=
  p.Phased (coordExec peers) (fun _ _ _ => True) (fun pl l _ => pl.ok l) (Place.next peers)
    (fun a pl' _ => Q a pl') (fun _ => True) pl

namespace Conducts

variable {α β : Type} {peers : Peers} {pl : Place}

theorem ret {a : α} {Q : α → Place → Prop} (h : Q a pl) : Conducts peers (.ret a) pl Q :=
  fun _ _ => h

theorem sect {l : CoordStep} {read : Coordinator → α} {Q : α → Place → Prop} (hok : pl.ok l)
    (h : ∀ s, Q (read s) (pl.next peers l s)) : Conducts peers (sect l read) pl Q :=
  Prog.Phased.sect fun s _ _ _ => ⟨hok, h s⟩

theorem bind {p : CoordOp α} {g : α → CoordOp β} {Q : α → Place → Prop} {Q' : β → Place → Prop}
    (hp : Conducts peers p pl Q) (hg : ∀ a pl', Q a pl' → Conducts peers (g a) pl' Q') :
    Conducts peers (p.bind g) pl Q' :=
  Prog.Phased.bind hp fun a pl' => Prog.Phased.assume (hg a pl')

theorem mono {p : CoordOp α} {Q Q' : α → Place → Prop} (h : Conducts peers p pl Q)
    (hQ : ∀ a pl', Q a pl' → Q' a pl') : Conducts peers p pl Q' :=
  Prog.Phased.weaken h (fun _ hs => hs) fun a pl' _ => hQ a pl'

/-- A section, and what follows whatever it has read. -/
theorem first {l : CoordStep} {read : Coordinator → α} {g : α → CoordOp β} {Q : β → Place → Prop}
    (hok : pl.ok l) (h : ∀ s, Conducts peers (g (read s)) (pl.next peers l s) Q) :
    Conducts peers ((Prog.sect l read).bind g) pl Q := by
  intro s s' _ _ _
  exact ⟨hok, fun _ => True, Foundation.Stable.const _ _ True, trivial, h s⟩

end Conducts

/-! ### Frames -/

namespace Place

variable {pl : Place} {fd : Socket} {frame : Frame}

theorem conveyed_done {done : Bytes} (hne : done ≠ frameBytes frame) :
    (pl.conveyed fd frame done).transit.done = done := by
  unfold conveyed
  rw [if_neg hne]
  split
  · rename_i hnil
    exact hnil.symm
  · rfl

theorem conveyed_fits (done : Bytes) : (pl.conveyed fd frame done).transit.Fits fd frame := by
  unfold conveyed
  split
  · trivial
  split
  · trivial
  · exact ⟨rfl, rfl⟩

theorem conveyed_stage {done : Bytes} (hne : done ≠ frameBytes frame) :
    (pl.conveyed fd frame done).stage = pl.stage := by
  unfold conveyed
  rw [if_neg hne]
  split
  · rfl
  · rfl

theorem conveyed_client (done : Bytes) : (pl.conveyed fd frame done).client = pl.client := by
  unfold conveyed
  split
  · rfl
  split
  · rfl
  · rfl

/-- Where the frame had got before does not matter. -/
theorem conveyed_conveyed {done : Bytes} (hne : done ≠ frameBytes frame) (done' : Bytes) :
    (pl.conveyed fd frame done).conveyed fd frame done' = pl.conveyed fd frame done' := by
  have hpart : ∃ t, pl.conveyed fd frame done = { pl with transit := t } := by
    unfold conveyed
    rw [if_neg hne]
    split
    · exact ⟨_, rfl⟩
    · exact ⟨_, rfl⟩
  obtain ⟨t, ht⟩ := hpart
  rw [ht]
  rfl

theorem conveyed_broken {done : Bytes} (hne : done ≠ frameBytes frame) :
    (pl.conveyed fd frame done).broken = pl.broken := by
  have hpart : ∃ t, pl.conveyed fd frame done = { pl with transit := t } := by
    unfold conveyed
    rw [if_neg hne]
    split
    · exact ⟨_, rfl⟩
    · exact ⟨_, rfl⟩
  obtain ⟨t, ht⟩ := hpart
  rw [ht]
  rfl

/-- Nothing of a frame is written yet. -/
theorem conveyed_nil (hclear : pl.transit = .clear) : pl.conveyed fd frame [] = pl := by
  unfold conveyed
  rw [if_neg fun h => TcpConnection.frameBytes_ne_nil frame h.symm, if_pos rfl, ← hclear]

/-- One `::send` of a frame. -/
theorem next_send (peers : Peers) (s : Coordinator) {done bytes : Bytes}
    (hne : done ≠ frameBytes frame) :
    (pl.conveyed fd frame done).next peers (.send fd frame bytes) s =
      if s.taken peers fd bytes = 0 then pl.broken
      else pl.conveyed fd frame (done ++ bytes.take (s.taken peers fd bytes)) := by
  simp only [next, conveyed_done hne, conveyed_conveyed hne, conveyed_broken hne]

end Place

/-- The octets `bytes` of a frame of which `done` is written, and their place behind them. -/
theorem writeRounds_conducts (peers : Peers) {pl : Place} {fd : Socket} {frame : Frame}
    (hsends : pl.stage.Sends pl.client fd frame) {fuel : Nat} {done bytes : Bytes}
    (hfuel : bytes.length ≤ fuel) (hpre : done ++ bytes <+: frameBytes frame) :
    Conducts peers (Foundation.writeRounds (offer peers fd frame) fuel bytes)
      (pl.conveyed fd frame done)
      fun b pl' => pl' = if b then pl.conveyed fd frame (done ++ bytes) else pl.broken := by
  induction fuel generalizing done bytes with
  | zero =>
    obtain rfl := List.length_eq_zero_iff.mp (Nat.le_zero.mp hfuel)
    exact Conducts.ret (by simp)
  | succ fuel ih =>
    by_cases hnil : bytes = []
    · subst hnil
      exact Conducts.ret (by simp)
    have hempty : bytes.isEmpty = false := by simpa using hnil
    have hne : done ≠ frameBytes frame := by
      rintro rfl
      obtain ⟨more, hmore⟩ := hpre
      rw [List.append_assoc, List.append_right_eq_self] at hmore
      exact hnil (List.append_eq_nil_iff.mp hmore).1
    have hok : (pl.conveyed fd frame done).ok (.send fd frame bytes) := by
      refine ⟨⟨Place.conveyed_fits done, hnil, ?_, ?_⟩, .inr ⟨fd, frame, bytes, rfl⟩⟩
      · rwa [Place.conveyed_done hne]
      · rwa [Place.conveyed_stage hne, Place.conveyed_client]
    simp only [Foundation.writeRounds, hempty, Bool.false_eq_true, if_false, Prog.bind_eq]
    refine Conducts.first hok fun s => ?_
    rw [Place.next_send peers s hne]
    have hle : s.taken peers fd bytes ≤ bytes.length := Nat.min_le_right _ _
    generalize s.taken peers fd bytes = n at hle
    by_cases hzero : n = 0
    · rw [if_pos hzero, if_pos hzero]
      exact Conducts.ret (by simp)
    · rw [if_neg hzero, if_neg hzero]
      have hleft : (bytes.drop n).length ≤ fuel := by
        rw [List.length_drop]
        omega
      have hsplit : done ++ bytes.take n ++ bytes.drop n = done ++ bytes := by
        rw [List.append_assoc, List.take_append_drop]
      have hpre' : done ++ bytes.take n ++ bytes.drop n <+: frameBytes frame := by rwa [hsplit]
      have hrest := ih hleft hpre'
      rwa [hsplit] at hrest

theorem writeAll_conducts (peers : Peers) {pl : Place} {fd : Socket} {frame : Frame}
    (hsends : pl.stage.Sends pl.client fd frame) (done bytes : Bytes)
    (hpre : done ++ bytes <+: frameBytes frame) :
    Conducts peers (Foundation.writeAll (offer peers fd frame) bytes) (pl.conveyed fd frame done)
      fun b pl' => pl' = if b then pl.conveyed fd frame (done ++ bytes) else pl.broken :=
  writeRounds_conducts peers hsends le_rfl hpre

/-- **A frame.** It is written, or the connection is gone. -/
theorem writeFrame_conducts (peers : Peers) {pl : Place} {fd : Socket} {type : UInt16}
    {payload : Bytes} (hsends : pl.stage.Sends pl.client fd (type, payload))
    (hclear : pl.transit = .clear) :
    Conducts peers (writeFrame peers fd type payload) pl fun b pl' =>
      pl' = if b then { pl with stage := pl.stage.sent fd } else pl.broken := by
  have hwhole : pl.conveyed fd (type, payload) (frameBytes (type, payload)) =
      { pl with stage := pl.stage.sent fd } := by
    unfold Place.conveyed
    rw [if_pos rfl, ← hclear]
  have hheader := writeAll_conducts peers hsends [] (TcpConnection.frameHeader type payload)
    (List.prefix_append _ _)
  rw [Place.conveyed_nil hclear, List.nil_append] at hheader
  refine hheader.bind fun b pl' hpl' => ?_
  subst hpl'
  cases b with
  | false => exact Conducts.ret rfl
  | true =>
    simp only [Bool.not_true, Bool.false_eq_true, if_false, if_true]
    by_cases hnil : payload = []
    · subst hnil
      have hframe : TcpConnection.frameHeader type [] = frameBytes (type, []) :=
        (List.append_nil _).symm
      simp only [List.isEmpty_nil, if_true]
      refine Conducts.ret ?_
      rw [hframe, hwhole]
      rfl
    · have hempty : payload.isEmpty = false := by simpa using hnil
      simp only [hempty, Bool.false_eq_true, if_false]
      have hbody := writeAll_conducts peers hsends (TcpConnection.frameHeader type payload) payload
        (List.prefix_refl _)
      have hframe : TcpConnection.frameHeader type payload ++ payload = frameBytes (type, payload) := rfl
      rw [hframe, hwhole] at hbody
      exact hbody

/-! ### Rolls -/

/-- The broadcast reaches the slots that are left, unless a connection breaks. -/
theorem broadcast_conducts (peers : Peers) {pl : Place} {e : CoordinatorEpoch}
    {slots ws : List WorkerSlot} {reached : List Socket} {failed : Bool} (hws : ∀ w ∈ ws, w ∈ slots)
    (hstage : pl.stage = .casting e slots reached failed) (hclear : pl.transit = .clear) :
    Conducts peers (broadcast peers e ws) pl fun _ pl' => ∃ reached' failed',
      pl' = { pl with stage := .casting e slots reached' failed' } ∧
      (failed' = false → failed = false ∧ (∀ fd ∈ reached, fd ∈ reached') ∧
        ∀ w ∈ ws, ∀ fd, w.fd = some fd → fd ∈ reached') := by
  induction ws generalizing pl reached failed with
  | nil =>
    refine Conducts.ret ⟨reached, failed, by rw [← hstage], fun h => ⟨h, fun _ hfd => hfd, ?_⟩⟩
    exact fun w hw => absurd hw (by simp)
  | cons w ws ih =>
    have hrest : ∀ w' ∈ ws, w' ∈ slots := fun w' hw' => hws w' (List.mem_cons_of_mem w hw')
    unfold broadcast
    cases hfd : w.fd with
    | none =>
      refine (ih hrest hstage hclear).mono ?_
      rintro _ _ ⟨reached', failed', rfl, hreached⟩
      refine ⟨reached', failed', rfl, fun h => ?_⟩
      obtain ⟨hfailed, hold, hnew⟩ := hreached h
      refine ⟨hfailed, hold, fun w' hw' fd hfd' => ?_⟩
      rcases List.mem_cons.mp hw' with rfl | hw'
      · rw [hfd] at hfd'
        cases hfd'
      · exact hnew w' hw' fd hfd'
    | some fd =>
      have hsends : pl.stage.Sends pl.client fd (DistMsgType.rollEpoch.code, encodeRollEpoch e) := by
        rw [hstage]
        exact ⟨rfl, w, hws w (by simp), hfd⟩
      refine (writeFrame_conducts peers hsends hclear).bind fun b pl₁ hpl₁ => ?_
      -- the write moves the stage, and nothing else
      obtain ⟨reached₁, failed₁, rfl, hreached₁⟩ : ∃ reached₁ failed₁,
          pl₁ = { pl with stage := .casting e slots reached₁ failed₁ } ∧
          (failed₁ = false → failed = false ∧ reached₁ = reached ++ [fd]) := by
        cases b with
        | false =>
          refine ⟨reached, true, ?_, Bool.noConfusion⟩
          rw [hpl₁, if_neg Bool.false_ne_true, Place.broken, hstage, ← hclear]
          rfl
        | true =>
          refine ⟨reached ++ [fd], failed, ?_, fun h => ⟨h, rfl⟩⟩
          rw [hpl₁, if_pos rfl, hstage]
          rfl
      refine Conducts.mono (ih hrest rfl hclear) ?_
      rintro _ _ ⟨reached', failed', rfl, hreached⟩
      refine ⟨reached', failed', rfl, fun h => ?_⟩
      obtain ⟨hfailed₁, hold, hnew⟩ := hreached h
      obtain ⟨hfailed, rfl⟩ := hreached₁ hfailed₁
      refine ⟨hfailed, fun fd' hfd' => hold fd' (by simp [hfd']), fun w' hw' fd' hfd' => ?_⟩
      rcases List.mem_cons.mp hw' with rfl | hw'
      · rw [hfd] at hfd'
        cases hfd'
        exact hold fd (by simp)
      · exact hnew w' hw' fd' hfd'

theorem Place.client_eq_some {pl : Place} {fd : Socket} :
    pl.client = some fd ↔ pl.role = .client ∧ pl.conn = some fd := by
  unfold Place.client
  split
  · rename_i hrole
    exact (and_iff_right hrole).symm
  · rename_i hrole
    exact iff_of_false (fun h => by cases h) fun h => hrole h.1

/-- A thread between two frames of its client. -/
def Place.At (pl : Place) (fd : Socket) : Prop :=
  pl.client = some fd ∧ pl.transit = .clear ∧ pl.stage.Resting

/-- A thread that has just read a frame of its client. -/
def Place.Holds (pl : Place) (fd : Socket) (frame : Frame) : Prop :=
  pl.client = some fd ∧ pl.transit = .clear ∧ pl.stage = .start ∧ pl.frame = some frame

theorem Place.Holds.at {pl : Place} {fd : Socket} {frame : Frame} (h : pl.Holds fd frame) : pl.At fd := by
  obtain ⟨hconn, hclear, hstage, -⟩ := h
  refine ⟨hconn, hclear, ?_⟩
  rw [hstage]
  trivial

theorem serveRollEpoch_conducts (peers : Peers) {pl : Place} {fd : Socket} {payload : Bytes}
    (h : pl.Holds fd (DistMsgType.rollEpoch.code, payload)) :
    Conducts peers (serveRollEpoch peers payload) pl fun _ pl' => pl'.At fd := by
  obtain ⟨hconn, hclear, hstage, hframe⟩ := h
  unfold serveRollEpoch
  refine Conducts.first ⟨⟨hstage, payload, hframe, rfl⟩, .inl hclear⟩ fun _ => ?_
  refine Conducts.first ⟨⟨rfl, payload, hframe, rfl⟩, .inl hclear⟩ fun _ => ?_
  refine Conducts.first ⟨⟨_, rfl⟩, .inl hclear⟩ fun _ => ?_
  refine Conducts.first ⟨⟨_, rfl⟩, .inl hclear⟩ fun s => ?_
  refine Conducts.bind (broadcast_conducts peers (fun _ hw => hw) rfl hclear) ?_
  rintro _ _ ⟨reached, failed, rfl, hreached⟩
  refine Conducts.sect ⟨⟨_, _, _, _, rfl, fun hfailed => (hreached hfailed).2.2⟩, .inl hclear⟩ ?_
  exact fun _ => ⟨hconn, hclear, trivial⟩

/-! ### Registrations -/

/-- A thread whose connection has opened with a registration. -/
def Place.Enlists (pl : Place) (fd : Socket) (payload : Bytes) : Prop :=
  pl.conn = some fd ∧ pl.role = .worker ∧ pl.transit = .clear ∧ pl.stage = .start ∧
    pl.frame = some (DistMsgType.registerW.code, payload)

theorem registerWorker_conducts (peers : Peers) {pl : Place} {fd : Socket} {payload : Bytes}
    (h : pl.Enlists fd payload) :
    Conducts peers (registerWorker peers fd payload) pl fun _ pl' => pl'.transit = .clear := by
  obtain ⟨hconn, hrole, hclear, hstage, hframe⟩ := h
  unfold registerWorker
  cases hdecode : decodeRegister payload with
  | error _ => exact Conducts.ret hclear
  | ok out =>
    obtain ⟨w, boot, gen⟩ := out
    refine Conducts.first ⟨⟨hstage, hrole, payload, w, boot, gen, hframe, hdecode, ?_, ?_⟩, .inl hclear⟩
      fun _ => ?_
    · rw [hconn]
      rfl
    · rw [hconn]
    refine Conducts.first ⟨⟨_, rfl⟩, .inl hclear⟩ fun s => ?_
    refine Conducts.bind (writeFrame_conducts peers ?_ hclear) fun b pl' hpl' => ?_
    · exact ⟨rfl, rfl⟩
    subst hpl'
    refine Conducts.ret ?_
    cases b with
    | false => rfl
    | true => exact hclear

/-! ### Lookups -/

theorem dispatchBuild_conducts (peers : Peers) {pl : Place} {e : CoordinatorEpoch}
    (hclear : pl.transit = .clear) (hstage : pl.stage = .checked e true) (keycan : Bytes)
    (src ns arch : Str) {auth : DistAuthority} (hauth : auth.epoch = e) (rid : RequestId)
    (out : BuildResponse) : Conducts peers (dispatchBuild peers keycan src ns arch auth rid out) pl fun reply pl' =>
      ∃ worker, pl' = { pl with stage := .dispatching e worker } ∧
        (reply.1 = true → worker.isSome) := by
  unfold dispatchBuild
  refine Conducts.first ⟨trivial, .inl hclear⟩ fun _ => ?_
  refine Conducts.first ⟨⟨e, hstage⟩, .inl hclear⟩ fun s => ?_
  simp only [Place.next, ConnStage.next, hstage]
  cases s.pickWorker auth.boot with
  | none =>
    refine Conducts.first ⟨trivial, .inl hclear⟩ fun _ => Conducts.ret ?_
    exact ⟨none, rfl, Bool.noConfusion⟩
  | some worker =>
    refine Conducts.bind (writeFrame_conducts peers ?_ hclear) fun b pl' hpl' => ?_
    · exact .inl ⟨rfl, auth, rid, keycan, src, ns, arch, hauth, rfl⟩
    have hpl : pl' = { pl with stage := .dispatching e (some worker) } := by
      rw [hpl']
      cases b with
      | false =>
        rw [if_neg Bool.false_ne_true, Place.broken, hclear]
        rfl
      | true => rfl
    subst hpl
    cases b with
    | false =>
      refine Conducts.first ⟨trivial, .inl hclear⟩ fun _ => Conducts.ret ?_
      exact ⟨some worker, rfl, fun _ => rfl⟩
    | true =>
      refine Conducts.first ⟨⟨e, rfl⟩, .inl hclear⟩ fun _ => ?_
      refine Conducts.first ⟨trivial, .inl hclear⟩ fun _ => Conducts.ret ?_
      exact ⟨some worker, rfl, fun _ => rfl⟩

/-- A thread at a lookup whose epoch check has been passed. -/
def Place.Looks (pl : Place) (fd : Socket) (e : CoordinatorEpoch) : Prop :=
  pl.client = some fd ∧ pl.transit = .clear ∧ pl.stage = .checked e true ∧ pl.Asks e

theorem Place.Looks.at {pl : Place} {fd : Socket} {e : CoordinatorEpoch} (h : pl.Looks fd e) :
    pl.At fd := by
  obtain ⟨hconn, hclear, hstage, -⟩ := h
  refine ⟨hconn, hclear, ?_⟩
  rw [hstage]
  trivial

theorem servePending_conducts (peers : Peers) {pl : Place} {fd : Socket} {e : CoordinatorEpoch}
    (h : pl.Looks fd e) (q : LookupRequest) {auth : DistAuthority} (hauth : auth.epoch = e)
    (kh arch : Str) : Conducts peers (servePending peers q auth kh arch) pl fun _ pl' => pl'.At fd := by
  obtain ⟨hconn, hclear, hstage, hasks⟩ := h
  refine Conducts.bind (dispatchBuild_conducts peers hclear hstage _ _ _ _ hauth _ _) ?_
  rintro ⟨ok, out⟩ _ ⟨worker, rfl, hworker⟩
  refine Conducts.first ⟨trivial, .inl hclear⟩ fun _ => ?_
  cases ok with
  | false => exact Conducts.ret ⟨hconn, hclear, trivial⟩
  | true =>
    obtain ⟨fd', rfl⟩ := Option.isSome_iff_exists.mp (hworker rfl)
    refine Conducts.first ⟨⟨e, fd', rfl, hasks⟩, .inl hclear⟩ fun _ => Conducts.ret ?_
    exact ⟨hconn, hclear, trivial⟩

theorem serveKey_conducts (peers : Peers) {pl : Place} {fd : Socket} {e : CoordinatorEpoch}
    (h : pl.Looks fd e) (q : LookupRequest) {auth : DistAuthority} (hauth : auth.epoch = e)
    (k : KernelCompatibilityKey) : Conducts peers (serveKey peers q auth k) pl fun _ pl' => pl'.At fd := by
  have hclear := h.2.1
  -- the sections of the coordinator's own cache leave the thread where it is
  have hlookup : Conducts peers ((lookupImpl (coordinatorRequest k q.ns)).zoom .cache Coordinator.cache)
      pl fun _ pl' => pl' = pl := by
    refine Prog.Phased.weaken (Prog.Text.phased (Prog.zoom_text _ _ _) ?_ rfl) (fun _ hs => hs)
      fun _ _ _ hq => hq.2.symm
    rintro _ s ⟨l, rfl⟩ _ rfl
    exact ⟨⟨trivial, .inl hclear⟩, rfl⟩
  refine Conducts.bind hlookup ?_
  rintro found _ rfl
  refine Conducts.first ⟨trivial, .inl hclear⟩ fun s => ?_
  generalize s.built.lookup (toHex k.digest) = built
  split
  · exact Conducts.ret h.at
  · exact Conducts.ret h.at
  · refine Conducts.first ⟨trivial, .inl hclear⟩ fun s => ?_
    split
    · exact servePending_conducts peers h q hauth _ _
    · exact Conducts.first ⟨trivial, .inl hclear⟩ fun _ => Conducts.ret h.at

theorem serveLookup_conducts (peers : Peers) {pl : Place} {fd : Socket} {payload : Bytes}
    (h : pl.Holds fd (DistMsgType.lookupReq.code, payload)) :
    Conducts peers (serveLookup peers (decodeLookupRequest payload {}).2
      (decodeLookupRequest payload {}).1) pl fun _ pl' => pl'.At fd := by
  have hat := h.at
  obtain ⟨hconn, hclear, hstage, hframe⟩ := h
  cases hauth : (decodeLookupRequest payload {}).1 with
  | error _ => exact Conducts.ret hat
  | ok auth =>
    refine Conducts.first ⟨⟨hstage, payload, auth, hframe, hauth, rfl⟩, .inl hclear⟩ fun s => ?_
    cases hcurrent : auth.epoch == s.epoch with
    | false => exact Conducts.ret ⟨hconn, hclear, trivial⟩
    | true =>
      have hlooks : (pl.next peers (.checkEpoch auth.epoch) s).Looks fd auth.epoch := by
        refine ⟨hconn, hclear, ?_, payload, auth, hframe, hauth, rfl⟩
        rw [← hcurrent]
        rfl
      refine Conducts.first ⟨trivial, .inl hclear⟩ fun s' => ?_
      cases auth.cacheGen == s'.gen with
      | false => exact Conducts.ret hlooks.at
      | true =>
        simp only [Bool.not_true, Bool.false_eq_true, if_false]
        split
        · exact Conducts.ret hlooks.at
        · exact serveKey_conducts peers hlooks _ rfl _

/-! ### Connections -/

theorem serveFrame_conducts (peers : Peers) {pl : Place} {fd : Socket} {frame : Frame}
    (h : pl.Holds fd frame) : Conducts peers (serveFrame peers frame) pl fun served pl' => pl'.At fd ∧
      ∀ answer, served = .reply answer → answer.1 = DistMsgType.lookupResp.code ∨
        answer.1 = DistMsgType.queryWorkersResp.code := by
  obtain ⟨type, payload⟩ := frame
  unfold serveFrame
  dsimp only
  split
  · rename_i htype
    subst htype
    refine Conducts.bind (serveRollEpoch_conducts peers h) fun _ pl' hpl' => Conducts.ret ⟨hpl', ?_⟩
    exact fun _ h => by cases h
  split
  · rename_i htype
    subst htype
    refine Conducts.bind (serveLookup_conducts peers h) fun a pl' hpl' => Conducts.ret ⟨hpl', ?_⟩
    rintro _ ⟨⟩
    exact .inl rfl
  split
  · refine Conducts.first ⟨trivial, .inl h.2.1⟩ fun _ => Conducts.ret ⟨h.at, ?_⟩
    rintro _ ⟨⟩
    exact .inr rfl
  split
  · exact Conducts.ret ⟨h.at, fun _ h => by cases h⟩
  · exact Conducts.ret ⟨h.at, fun _ h => by cases h⟩

theorem serveRound_conducts (peers : Peers) {pl : Place} {fd : Socket} {frame : Frame}
    (h : pl.Holds fd frame) : Conducts peers (serveRound peers fd frame) pl fun _ pl' => pl'.At fd := by
  refine Conducts.bind (serveFrame_conducts peers h) ?_
  rintro served pl' ⟨hat, hanswer⟩
  cases served with
  | silent => exact Conducts.ret hat
  | closed => exact Conducts.ret hat
  | reply answer =>
    obtain ⟨hconn, hclear, hresting⟩ := hat
    have htype := hanswer answer rfl
    refine Conducts.bind (writeFrame_conducts peers ?_ hclear) fun b pl₁ hpl₁ => Conducts.ret ?_
    · cases hstage : pl'.stage with
      | start => exact ⟨hconn, htype⟩
      | checked e passed => exact ⟨hconn, htype⟩
      | dispatching e worker => exact .inr ⟨hconn, htype⟩
      | _ =>
        rw [hstage] at hresting
        exact hresting.elim
    · -- the stage of a thread that rests does not move
      have hsame : pl'.stage.sent fd = pl'.stage ∧ pl'.stage.broken = pl'.stage := by
        cases hstage : pl'.stage with
        | start => exact ⟨rfl, rfl⟩
        | checked e passed => exact ⟨rfl, rfl⟩
        | dispatching e worker => exact ⟨rfl, rfl⟩
        | _ =>
          rw [hstage] at hresting
          exact hresting.elim
      subst hpl₁
      cases b with
      | false =>
        refine ⟨hconn, rfl, ?_⟩
        show pl'.stage.broken.Resting
        rwa [hsame.2]
      | true =>
        refine ⟨hconn, hclear, ?_⟩
        show (pl'.stage.sent fd).Resting
        rwa [hsame.1]

theorem serveClient_conducts (peers : Peers) {pl : Place} {fd : Socket} {frame : Frame}
    (rest : List Frame) (h : pl.Holds fd frame) :
    Conducts peers (serveClient peers fd frame rest) pl fun _ pl' => pl'.transit = .clear := by
  induction rest generalizing pl frame with
  | nil =>
    exact Conducts.bind (serveRound_conducts peers h) fun _ _ hat => Conducts.ret hat.2.1
  | cons next rest ih =>
    refine Conducts.bind (serveRound_conducts peers h) fun again pl' hat => ?_
    cases again with
    | false => exact Conducts.ret hat.2.1
    | true =>
      obtain ⟨hclient, hclear, hresting⟩ := hat
      obtain ⟨hrole, hconn⟩ := Place.client_eq_some.mp hclient
      have hnot : pl'.role ≠ .worker := by
        rw [hrole]
        exact Role.noConfusion
      refine Conducts.first ⟨⟨hconn, hnot, hresting⟩, .inl hclear⟩ fun s => ih ⟨?_, hclear, rfl, rfl⟩
      exact Place.client_eq_some.mpr ⟨congrArg (Role.meets next) hrole, hconn⟩

theorem handleConn_conducts (peers : Peers) (frames : List Frame) :
    Conducts peers (handleConn peers frames) {} fun _ pl' => pl'.transit = .clear := by
  have haccept : ({} : Place).ok .accept := ⟨⟨rfl, rfl, rfl⟩, .inl rfl⟩
  refine Conducts.first haccept fun s => ?_
  cases frames with
  | nil => exact Conducts.ret rfl
  | cons frame rest =>
    refine Conducts.first ⟨⟨rfl, Role.noConfusion, trivial⟩, .inl rfl⟩ fun _ => ?_
    obtain ⟨type, payload⟩ := frame
    dsimp only
    split
    · rename_i htype
      subst htype
      exact registerWorker_conducts peers ⟨rfl, rfl, rfl, rfl, rfl⟩
    · rename_i htype
      refine serveClient_conducts peers rest ⟨Place.client_eq_some.mpr ⟨?_, rfl⟩, rfl, rfl, rfl⟩
      exact if_neg htype

/-! ## Runs -/

/-- Where each thread is after a trace. -/
def places (peers : Peers) (tr : List (Foundation.Event CoordStep Coordinator)) : Nat → Place :=
  Foundation.phases (Place.next peers) (fun _ => {}) tr

theorem places_concat (peers : Peers) (tr : List (Foundation.Event CoordStep Coordinator))
    (e : Foundation.Event CoordStep Coordinator) : places peers (tr ++ [e]) =
      Function.update (places peers tr) e.thread ((places peers tr e.thread).next peers e.label e.before) :=
  Foundation.phases_concat (Place.next peers) (fun _ => {}) tr e

section Runs

variable {peers : Peers} {store : FilePersistenceStore}
  {tr : List (Foundation.Event CoordStep Coordinator)}
  {pool : Foundation.Pool CoordStep Coordinator Unit}

/-- **Conduct.** In every run, every section is taken where it is allowed. -/
theorem conducted (h : CoordRuns peers store tr pool) {tr₁ : List (Foundation.Event CoordStep Coordinator)}
    {e : Foundation.Event CoordStep Coordinator} (hpre : tr₁ ++ [e] <+: tr) :
    (places peers tr₁ e.thread).ok e.label := by
  have hstart : ∀ (_ : Nat) (p : CoordOp Unit), (∃ frames, p = handleConn peers frames) →
      Conducts peers p {} fun _ pl => pl.transit = .clear := by
    rintro _ _ ⟨frames, rfl⟩
    exact handleConn_conducts peers frames
  exact Foundation.Runs.allowed (fun _ _ hp => by simp at hp) hstart h (fun _ _ => trivial) tr₁ e hpre

end Runs

end KernelCache
