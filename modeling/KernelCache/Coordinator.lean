/-
# KernelCache.Coordinator — the coordinator process (`coordinator.cpp`, `dist_tcp.hpp`).

Every connection is served by a thread of its own, and the threads share the globals: the epoch and the
generation, the workers, the keys that wait for a build and the artifacts that were built.  As for the
cache, `CoordStep` names the atomic sections and a handler is the program its source text spells.  One
`::send` is one section.  `g_pending` and `g_built` have no lock, and each access to them is a section
of its own.

What is on the other side of the sockets is a parameter: how many octets a `::send` takes, and which
frame `read_frame` yields, as functions of all that was sent on and read from the socket before.  A
peer may answer anything at all.
-/
import KernelCache.Distributed
import KernelCache.Operations
import Mathlib.Data.Finset.Erase
import Mathlib.Data.Finset.Insert

namespace KernelCache

open Foundation (Bytes Prog)
open Foundation.Prog (sect perform)

/-- The connections are numbered in the order in which they were accepted. -/
abbrev Socket := Nat

/-- A slot without a socket holds `KC_INVALID_SOCKET`. -/
structure WorkerSlot where
  fd : Option Socket := none
  id : WorkerId := 0
  boot : WorkerBootId := {}
  deriving DecidableEq

/-- What went over a socket: the octets sent, the calls of `::send`, the frames asked for. -/
structure Channel where
  sent : Bytes := []
  sends : Nat := 0
  reads : Nat := 0
  deriving DecidableEq

/-- A `::send` took these octets. -/
def Channel.took (c : Channel) (bytes : Bytes) : Channel :=
  { c with sent := c.sent ++ bytes, sends := c.sends + 1 }

/-- The other side of the sockets, and the environment of the coordinator's own cache. -/
structure Peers where
  cache : Env := {}
  /-- What `::send` returns for the octets it is offered; zero is an error. -/
  send : Socket → Channel → Bytes → Nat := fun _ _ bytes => bytes.length
  /-- What `read_frame` yields. -/
  frame : Socket → Channel → Option Frame := fun _ _ => none

/-- The globals of the process, and what went over each socket. -/
structure Coordinator where
  epoch : CoordinatorEpoch := 1
  gen : CacheGeneration := 1
  workers : List WorkerSlot := []
  /-- `g_wmtx` is held over several sections. -/
  workersHeld : Bool := false
  /-- `g_dispatch_mtx` is held. -/
  dispatchHeld : Bool := false
  pending : Finset Str := ∅
  built : AList (fun _ : Str => ArtifactId × ArtifactGeneration) := ∅
  cache : Impl
  channels : Socket → Channel := fun _ => {}
  /-- The number of connections accepted. -/
  accepted : Nat := 0

/-- A coordinator that has just started, on a store with the given content. -/
def Coordinator.initial (store : FilePersistenceStore) : Coordinator :=
  { cache := Impl.initial store }

/-! ## Sections -/

inductive CoordStep where
  -- connections
  | accept
  | receive (fd : Socket) (frame : Frame)
  | send (fd : Socket) (frame : Frame) (bytes : Bytes)
  | readFrame (fd : Socket)
  -- workers
  | lockDispatch
  | unlockDispatch
  | pickWorker (boot : WorkerBootId)
  | register (slot : WorkerSlot)
  | queryWorkers
  | lockWorkers
  | readWorkers
  | unlockWorkers
  -- epoch and generation
  | loadEpoch
  | checkEpoch (e : CoordinatorEpoch)
  | checkGen (g : CacheGeneration)
  | storeEpoch (e : CoordinatorEpoch)
  | storeGen (g : CacheGeneration)
  -- keys
  | cache (l : Step)
  | findBuilt (kh : Str)
  | isPending (kh : Str)
  | erasePending (kh : Str)
  | insertPending (kh : Str)
  | recordBuilt (kh : Str) (id : ArtifactId) (gen : ArtifactGeneration)

namespace Coordinator

/-- The scan of `dispatch_build`: the worker of the boot, else any that has a socket. -/
def pickWorker (s : Coordinator) (boot : WorkerBootId) : Option Socket :=
  match s.workers.find? fun w => w.fd.isSome && w.boot == boot with
  | some w => w.fd
  | none => (s.workers.find? fun w => w.fd.isSome).bind WorkerSlot.fd

/-- How many of the octets one `::send` takes. -/
def taken (peers : Peers) (s : Coordinator) (fd : Socket) (bytes : Bytes) : Nat :=
  min (peers.send fd (s.channels fd) bytes) bytes.length

/-- The frame a `read_frame` yields. -/
def incoming (peers : Peers) (s : Coordinator) (fd : Socket) : Option Frame :=
  peers.frame fd (s.channels fd)

/-- The boots of the registered workers, as `QueryWorkers` reports them. -/
def boots (s : Coordinator) : List UInt64 :=
  (s.workers.filter fun w => w.fd.isSome).map fun w => w.boot.value.hi

/-- What went over one socket changes. -/
def onChannel (s : Coordinator) (fd : Socket) (f : Channel → Channel) : Coordinator :=
  { s with channels := Function.update s.channels fd (f (s.channels fd)) }

@[simp] theorem onChannel_self (s : Coordinator) (fd : Socket) (f : Channel → Channel) :
    (s.onChannel fd f).channels fd = f (s.channels fd) := by
  simp [onChannel]

theorem onChannel_other (s : Coordinator) {fd fd' : Socket} (h : fd' ≠ fd) (f : Channel → Channel) :
    (s.onChannel fd f).channels fd' = s.channels fd' := by
  simp [onChannel, h]

/-- The last word on a socket. -/
@[simp] theorem onChannel_onChannel (s : Coordinator) (fd : Socket) (f g : Channel → Channel) :
    (s.onChannel fd f).onChannel fd g = s.onChannel fd fun c => g (f c) := by
  simp [onChannel]

theorem onChannel_same (s : Coordinator) (fd : Socket) : s.onChannel fd (fun c => c) = s := by
  simp [onChannel]

end Coordinator

namespace CoordStep

/-- Whether the section can be taken: the mutex it takes is free. -/
def ready (s : Coordinator) : CoordStep → Bool
  | lockDispatch => !s.dispatchHeld
  | pickWorker _ | register _ | queryWorkers | lockWorkers => !s.workersHeld
  | cache l => l.ready s.cache
  | _ => true

/-- The state a section leaves. -/
def effect (peers : Peers) (s : Coordinator) : CoordStep → Coordinator
  | accept => { s with accepted := s.accepted + 1 }
  | send fd _ bytes => s.onChannel fd fun c => c.took (bytes.take (s.taken peers fd bytes))
  | readFrame fd => s.onChannel fd fun c => { c with reads := c.reads + 1 }
  | lockDispatch => { s with dispatchHeld := true }
  | unlockDispatch => { s with dispatchHeld := false }
  | register slot => { s with workers := s.workers ++ [slot] }
  | lockWorkers => { s with workersHeld := true }
  | unlockWorkers => { s with workersHeld := false }
  | storeEpoch e => { s with epoch := e }
  | storeGen g => { s with gen := g }
  | cache l => { s with cache := { l.effect peers.cache s.cache with tick := s.cache.tick + 1 } }
  | erasePending kh => { s with pending := s.pending.erase kh }
  | insertPending kh => { s with pending := insert kh s.pending }
  | recordBuilt kh id gen => { s with built := s.built.insert kh (id, gen) }
  -- sections that only read
  | receive _ _ | pickWorker _ | queryWorkers | readWorkers | loadEpoch | checkEpoch _ | checkGen _
  | findBuilt _ | isPending _ => s

end CoordStep

/-- Only the stores of a roll change the epoch and the generation. -/
theorem CoordStep.effect_epoch (peers : Peers) (s : Coordinator) (l : CoordStep) :
    (l.effect peers s).epoch = match l with
      | storeEpoch e => e
      | _ => s.epoch := by
  cases l <;> rfl

theorem CoordStep.effect_gen (peers : Peers) (s : Coordinator) (l : CoordStep) :
    (l.effect peers s).gen = match l with
      | storeGen g => g
      | _ => s.gen := by
  cases l <;> rfl

/-- One step of the coordinator. -/
def coordExec (peers : Peers) (l : CoordStep) (s : Coordinator) : Option Coordinator :=
  if l.ready s then some (l.effect peers s) else none

theorem coordExec_eq_some {peers : Peers} {l : CoordStep} {s s' : Coordinator} :
    coordExec peers l s = some s' ↔ l.ready s = true ∧ s' = l.effect peers s := by
  unfold coordExec
  split
  · rename_i hready
    simp only [hready, true_and, Option.some.injEq]
    exact eq_comm
  · rename_i hblocked
    simp [hblocked]

/-- Programs over the coordinator. -/
abbrev CoordOp (α : Type) := Prog CoordStep Coordinator α

/-- A section that can be taken, alone. -/
theorem run_coordSect {α : Type} (peers : Peers) {l : CoordStep} {s : Coordinator}
    (h : l.ready s = true) (read : Coordinator → α) :
    (sect l read).run (coordExec peers) s = some (read s, l.effect peers s) :=
  Prog.run_sect.mpr ⟨coordExec_eq_some.mpr ⟨h, rfl⟩, rfl⟩

theorem run_coordPerform (peers : Peers) {l : CoordStep} {s : Coordinator} (h : l.ready s = true) :
    (perform l).run (coordExec peers) s = some ((), l.effect peers s) :=
  run_coordSect peers h _

/-! ## Frames on a socket -/

/-- One `::send` of octets of a frame. -/
def offer (peers : Peers) (fd : Socket) (frame : Frame) (bytes : Bytes) : CoordOp Nat :=
  sect (.send fd frame bytes) (fun s => s.taken peers fd bytes)

/-- `write_frame` on a socket. -/
def writeFrame (peers : Peers) (fd : Socket) (type : UInt16) (payload : Bytes) : CoordOp Bool :=
  TcpConnection.writeFrame (offer peers fd (type, payload)) type payload

/-- No `::send` on the socket fails. -/
def Peers.Up (peers : Peers) (fd : Socket) : Prop :=
  ∀ c bytes, bytes ≠ [] → 0 < peers.send fd c bytes

/-- The octets taken are sent, and nothing else changes. -/
theorem offers (peers : Peers) (fd : Socket) (frame : Frame) (s : Coordinator) :
    Foundation.Offers (coordExec peers) (offer peers fd frame)
      (fun done s' => ∃ c, s' = s.onChannel fd (fun _ => c) ∧ c.sent = (s.channels fd).sent ++ done)
      (peers.Up fd) := by
  rintro done bytes _ hne ⟨c, rfl, hc⟩
  refine ⟨_, _, run_coordSect peers rfl _, Nat.min_le_right _ _,
    ⟨c.took (bytes.take ((s.onChannel fd fun _ => c).taken peers fd bytes)), ?_, ?_⟩, fun hup => ?_⟩
  · rw [CoordStep.effect, Coordinator.onChannel_onChannel]
  · rw [Channel.took, hc, List.append_assoc]
  · rw [Coordinator.taken, Coordinator.onChannel_self]
    exact Nat.lt_min.mpr ⟨hup c bytes hne, List.length_pos_iff.mpr hne⟩

/-- **A frame written alone.** It comes to an end, and only the channel of the socket changes: when the
frame is reported written, by the octets of the frame. -/
theorem writeFrame_alone (peers : Peers) (fd : Socket) (type : UInt16) (payload : Bytes)
    (s : Coordinator) : ∃ b part c,
    (writeFrame peers fd type payload).run (coordExec peers) s =
        some (b, s.onChannel fd fun _ => c) ∧
      c.sent = (s.channels fd).sent ++ part ∧
      (b = true → part = TcpConnection.frameBytes (type, payload)) ∧ (peers.Up fd → b = true) := by
  obtain ⟨b, part, _, hrun, ⟨c, rfl, hc⟩, -, hall, hup⟩ :=
    run_writeFrame_of (offers peers fd (type, payload) s) type payload
      ⟨s.channels fd, (s.onChannel_same fd).symm.trans rfl, (List.append_nil _).symm⟩
  exact ⟨b, part, c, hrun, hc, hall, hup⟩

/-! ## Builds -/

/-- `static_cast<std::uint32_t>(ErrorCode::NotSupported)`. -/
def notSupportedCode : UInt32 := 24

/-- What `dispatch_build` makes of the frame it reads, on the output parameters `out`: what
`decode_build_response` returns, and the request it answers to, are not looked at. -/
def buildReply (frame : Option Frame) (out : BuildResponse) : Bool × BuildResponse :=
  match frame with
  | none => (false, out)
  | some (type, payload) =>
    if type ≠ DistMsgType.buildResp.code then (false, out)
    else
      let out := (decodeBuildResponse payload out).2
      (out.errorCode == 0, out)

/-- `dispatch_build` on the output parameters `out`. -/
def dispatchBuild (peers : Peers) (keycan : Bytes) (src ns arch : Str) (auth : DistAuthority)
    (rid : RequestId) (out : BuildResponse) : CoordOp (Bool × BuildResponse) := do
  perform .lockDispatch
  let worker ← sect (.pickWorker auth.boot) (fun s => s.pickWorker auth.boot)
  match worker with
  | none =>
    perform .unlockDispatch
    return (false, { out with errorCode := notSupportedCode, error := str "no worker" })
  | some fd =>
    let req := encodeBuildRequest auth rid keycan src ns arch
    let written ← writeFrame peers fd DistMsgType.buildReq.code req
    if !written then
      perform .unlockDispatch
      return (false, out)
    else
      let frame ← sect (.readFrame fd) (fun s => s.incoming peers fd)
      perform .unlockDispatch
      return buildReply frame out

/-! ## Serving a connection -/

/-- A lookup response: the outcome, and the artifact of a hit. -/
structure LookupAnswer where
  outcome : UInt8
  id : ArtifactId := {}
  gen : ArtifactGeneration := 0
  compat : UInt8 := 0
  deriving DecidableEq

/-- A hit on an artifact. -/
def LookupAnswer.hit (id : ArtifactId) (gen : ArtifactGeneration) : LookupAnswer :=
  { outcome := 0x00, id := id, gen := gen, compat := 1 }

/-- The branch of `serve_client` for a key that waits for a build. -/
def servePending (peers : Peers) (q : LookupRequest) (auth : DistAuthority) (kh arch : Str) :
    CoordOp LookupAnswer := do
  let (ok, out) ← dispatchBuild peers q.keyCanonical [] q.ns arch auth q.rid {}
  perform (.erasePending kh)
  if ok then
    perform (.recordBuilt kh out.id out.gen)
    return .hit out.id out.gen
  else return { outcome := 0x0F }

/-- The request of the coordinator's own lookup. -/
def coordinatorRequest (k : KernelCompatibilityKey) (ns : Str) : KernelLookupRequest :=
  { key := k
    device := { vendor := .cpu }
    desiredTier := .hostResident
    allowMissBuild := false
    namespace_ := ns }

/-- The artifact of a lookup that is a hit. -/
def hitOf : Result KernelLookupResult → Option (ArtifactId × ArtifactGeneration)
  | .ok r => if r.outcome.isHit then some (r.artifact.getD default, r.generation.getD 0) else none
  | .error _ => none

/-- What `serve_client` does with a key of the current epoch and generation. -/
def serveKey (peers : Peers) (q : LookupRequest) (auth : DistAuthority)
    (k : KernelCompatibilityKey) : CoordOp LookupAnswer := do
  let found ← (lookupImpl (coordinatorRequest k q.ns)).zoom .cache Coordinator.cache
  let kh := toHex k.digest
  let built ← sect (.findBuilt kh) (fun s => s.built.lookup kh)
  match built, hitOf found with
  | some (id, gen), _ => return .hit id gen
  | none, some (id, gen) => return .hit id gen
  | none, none => do
    let waiting ← sect (.isPending kh) (fun s => decide (kh ∈ s.pending))
    if waiting then servePending peers q auth kh k.arch
    else
      perform (.insertPending kh)
      return { outcome := 0x0B }

/-- The checks of `serve_client` on a lookup request, in order. -/
def serveLookup (peers : Peers) (q : LookupRequest) : Result DistAuthority → CoordOp LookupAnswer
  | .error _ => return { outcome := 0x0C }
  | .ok auth => do
    let current ← sect (.checkEpoch auth.epoch) (fun s => auth.epoch == s.epoch)
    if !current then return { outcome := 0x0D }
    else
      let current ← sect (.checkGen auth.cacheGen) (fun s => auth.cacheGen == s.gen)
      if !current then return { outcome := 0x0E }
      else
        match KernelCompatibilityKey.fromCanonical q.keyCanonical with
        | .error _ => return { outcome := 0x0C }
        | .ok k => serveKey peers q auth k

/-- The frame that answers a lookup request. -/
def lookupResponse (q : LookupRequest) (a : LookupAnswer) : Frame :=
  (DistMsgType.lookupResp.code, encodeLookupResponse q.rid a.outcome a.id a.gen a.compat)

/-- The epoch a `RollEpoch` payload rolls to.  What `decode_roll_epoch` returns is not looked at, and a
payload that is cut short leaves the epoch zero. -/
def rolledTo (payload : Bytes) : CoordinatorEpoch := (decodeRollEpoch payload 0).2

/-- The broadcast of a new epoch, slot after slot; a failed write is passed over. -/
def broadcast (peers : Peers) (e : CoordinatorEpoch) : List WorkerSlot → CoordOp Unit
  | [] => return ()
  | w :: ws =>
    match w.fd with
    | none => broadcast peers e ws
    | some fd => do
      let _ ← writeFrame peers fd DistMsgType.rollEpoch.code (encodeRollEpoch e)
      broadcast peers e ws

/-- The `RollEpoch` branch of `serve_client`. -/
def serveRollEpoch (peers : Peers) (payload : Bytes) : CoordOp Unit := do
  let e := rolledTo payload
  perform (.storeEpoch e)
  perform (.storeGen e)
  perform .lockWorkers
  let slots ← sect .readWorkers Coordinator.workers
  broadcast peers e slots
  perform .unlockWorkers

/-- What handling one frame comes to: a frame sent back, none, or the end of the connection. -/
inductive Served where
  | reply (frame : Frame)
  | silent
  | closed
  deriving DecidableEq

/-- The branches of the loop of `serve_client`. -/
def serveFrame (peers : Peers) (frame : Frame) : CoordOp Served :=
  if frame.1 = DistMsgType.rollEpoch.code then do
    serveRollEpoch peers frame.2
    return .silent
  else if frame.1 = DistMsgType.lookupReq.code then do
    let (auth, q) := decodeLookupRequest frame.2 {}
    let a ← serveLookup peers q auth
    return .reply (lookupResponse q a)
  else if frame.1 = DistMsgType.queryWorkers.code then do
    let boots ← sect .queryWorkers Coordinator.boots
    return .reply (DistMsgType.queryWorkersResp.code, encodeQueryWorkersResp boots)
  else if frame.1 = DistMsgType.shutdown.code then return .closed
  else return .silent

/-- One round of the loop of `serve_client`: whether the connection is read again. -/
def serveRound (peers : Peers) (fd : Socket) (frame : Frame) : CoordOp Bool := do
  let served ← serveFrame peers frame
  match served with
  | .reply answer =>
    let _ ← writeFrame peers fd answer.1 answer.2
    return true
  | .silent => return true
  | .closed => return false

/-- `serve_client` on the frames that will be read from the connection. -/
def serveClient (peers : Peers) (fd : Socket) : Frame → List Frame → CoordOp Unit
  | frame, [] => do
    let _ ← serveRound peers fd frame
    return ()
  | frame, next :: rest => do
    let again ← serveRound peers fd frame
    if again then
      perform (.receive fd next)
      serveClient peers fd next rest
    else return ()

/-- `handle_conn` on a connection that opens with `Register_W`.  The slot is in the list before the
epoch is read and the acknowledgement sent. -/
def registerWorker (peers : Peers) (fd : Socket) (payload : Bytes) : CoordOp Unit :=
  match decodeRegister payload with
  | .error _ => return ()
  | .ok (w, boot, _) => do
    perform (.register { fd := some fd, id := w, boot := boot })
    let epoch ← sect .loadEpoch Coordinator.epoch
    let _ ← writeFrame peers fd DistMsgType.registerAckC.code (encodeRegisterAck epoch w 1)
    return ()

/-- `handle_conn`, on the frames that the thread will read from the connection. -/
def handleConn (peers : Peers) (frames : List Frame) : CoordOp Unit := do
  let fd ← sect .accept Coordinator.accepted
  match frames with
  | [] => return ()
  | frame :: rest =>
    perform (.receive fd frame)
    if frame.1 = DistMsgType.registerW.code then registerWorker peers fd frame.2
    else serveClient peers fd frame rest

/-! ## Runs of the coordinator -/

/-- The runs of a coordinator process: any number of connections, in any interleaving. -/
abbrev CoordRuns (peers : Peers) (store : FilePersistenceStore)
    (tr : List (Foundation.Event CoordStep Coordinator))
    (pool : Foundation.Pool CoordStep Coordinator Unit) : Prop :=
  Foundation.Runs (coordExec peers) (fun p => ∃ frames, p = handleConn peers frames)
    ⟨Coordinator.initial store, []⟩ tr pool

/-- What a scheduler of the coordinator can do: accept a connection that will bring these frames, or
let a thread take its next section. -/
inductive ConnMove where
  | connect (frames : List Frame)
  | step (thread : Nat)

def ConnMove.sched (peers : Peers) : ConnMove → Foundation.Sched CoordStep Coordinator Unit
  | connect frames => .spawn (handleConn peers frames)
  | step thread => .step thread

/-- Follow a list of moves from the start. -/
def playConns (peers : Peers) (store : FilePersistenceStore) (moves : List ConnMove) :
    Option (List (Foundation.Event CoordStep Coordinator) ×
      Foundation.Pool CoordStep Coordinator Unit) :=
  Foundation.Pool.follow (coordExec peers) ⟨Coordinator.initial store, []⟩
    (moves.map (ConnMove.sched peers))

/-- Moves that can be followed are a run of the coordinator. -/
theorem CoordRuns.of_play {peers : Peers} {store : FilePersistenceStore} {moves : List ConnMove}
    {tr : List (Foundation.Event CoordStep Coordinator)}
    {pool : Foundation.Pool CoordStep Coordinator Unit}
    (h : playConns peers store moves = some (tr, pool)) : CoordRuns peers store tr pool := by
  refine Foundation.Runs.of_follow (fun q hq => ?_) h
  obtain ⟨m, -, hm⟩ := List.mem_map.mp hq
  cases m with
  | connect frames =>
    cases hm
    exact ⟨frames, rfl⟩
  | step thread => cases hm

end KernelCache
