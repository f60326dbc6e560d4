/-
# KernelCache.Worker — the worker process (`worker.cpp`).

A worker has one thread.  It registers, and then handles the frames of its coordinator one after the
other: a `RollEpoch` sets the epoch it compares with, a `BuildReq` is checked and built in a cache of
the worker's own, anything else is passed over.  So what it has become, and sent back, is a function of
the frames it has read.

A build that never returns, and an exception that passes through, end the process.
-/
import KernelCache.Distributed
import KernelCache.Operations

namespace KernelCache

open Foundation (Bytes Prog)
open Foundation.Prog (sect perform)

/-- What the loop of a worker keeps: the epoch it compares with, its cache, what it has sent back, and
whether it still reads. -/
structure Worker where
  epoch : CoordinatorEpoch
  cache : Impl
  replies : List Frame := []
  running : Bool := true

namespace Worker

/-! ## Registration -/

/-- The epoch of an acknowledgement that the worker accepts. -/
def register (frame : Frame) : Option CoordinatorEpoch :=
  if frame.1 ≠ DistMsgType.registerAckC.code then none
  else
    match decodeRegisterAck frame.2 {} with
    | (.ok (), ack) => if ack.ok = 1 then some ack.epoch else none
    | (.error _, _) => none

/-! ## Builds -/

/-- `static_cast<std::uint32_t>(ErrorCode::MalformedFrame)` and the like. -/
def malformedFrameCode : UInt32 := 62
def epochMismatchCode : UInt32 := 33
def workerBootMismatchCode : UInt32 := 34
def buildFailedCode : UInt32 := 25

/-- `AcceleratorFamily::CPU`. -/
def cpuFamily : AcceleratorFamily := ⟨4⟩

/-- The request of the worker's cache. -/
def buildRequest (q : DistBuildRequest) (k : KernelCompatibilityKey) : KernelLookupRequest where
  key := k
  device := { vendor := .cpu, family := cpuFamily }
  desiredTier := .hostResident
  allowMissBuild := true
  source := q.source
  namespace_ := q.ns

/-- `acquire`, the id and the generation of the lease, `release`. -/
def acquireOnce (env : Env) (request : KernelLookupRequest) :
    Op (Result (ArtifactId × ArtifactGeneration)) := do
  let lease ← acquireImpl env request
  match lease with
  | .error e => return .error e
  | .ok n =>
    let out ← sect (.readLease n) fun s => ((s.records (s.leases n).record).id, (s.leases n).genValue)
    releaseLease n
    return .ok out

/-- A `BuildResp` to the request. -/
def reply (w : Worker) (q : DistBuildRequest) (out : ArtifactId × ArtifactGeneration)
    (errorCode : UInt32) (error : Str) : Worker :=
  { w with replies := w.replies ++
      [(DistMsgType.buildResp.code, encodeBuildResponse q.rid out.1 out.2 errorCode error)] }

/-- A build of a key, once the request has been checked. -/
def buildKey (env : Env) (w : Worker) (q : DistBuildRequest) (k : KernelCompatibilityKey) : Worker :=
  match (acquireOnce env (buildRequest q k)).run (exec env) w.cache with
  | none => { w with running := false }
  | some (.error .exception, c) => { w with cache := c, running := false }
  | some (.error (.error _ message), c) =>
    reply { w with cache := c } q ({}, 0) buildFailedCode message
  | some (.ok out, c) => reply { w with cache := c } q out 0 []

/-- The `BuildReq` branch of the loop. -/
def build (env : Env) (boot : WorkerBootId) (w : Worker) (q : DistBuildRequest) :
    Result DistAuthority → Worker
  | .error _ => w.reply q ({}, 0) malformedFrameCode (str "malformed build request")
  | .ok a =>
    if a.epoch ≠ w.epoch then w.reply q ({}, 0) epochMismatchCode (str "stale epoch")
    else if a.boot ≠ boot then w.reply q ({}, 0) workerBootMismatchCode (str "stale worker boot")
    else
      match KernelCompatibilityKey.fromCanonical q.keyCanonical with
      | .error _ => w.reply q ({}, 0) malformedFrameCode (str "bad key")
      | .ok k => w.buildKey env q k

/-! ## The loop -/

/-- The epoch after a frame. -/
def rolledBy (e : CoordinatorEpoch) (frame : Frame) : CoordinatorEpoch :=
  if frame.1 = DistMsgType.rollEpoch.code then
    match decodeRollEpoch frame.2 0 with
    | (.ok (), e') => e'
    | (.error _, _) => e
  else e

/-- One frame in the loop. -/
def take (env : Env) (boot : WorkerBootId) (w : Worker) (frame : Frame) : Worker :=
  if !w.running then w
  else if frame.1 = DistMsgType.rollEpoch.code then { w with epoch := rolledBy w.epoch frame }
  else if frame.1 = DistMsgType.shutdown.code then { w with running := false }
  else if frame.1 ≠ DistMsgType.buildReq.code then w
  else
    let (auth, q) := decodeBuildRequest frame.2 {}
    w.build env boot q auth

/-- The worker behind the frames it has read; `none` when it is not registered. -/
def process (env : Env) (boot : WorkerBootId) : List Frame → Option Worker
  | [] => none
  | frame :: frames => (register frame).map fun e =>
      frames.foldl (take env boot) { epoch := e, cache := Impl.initial {} }

/-! ## The epoch of a worker -/

/-- The epoch to which the frames have brought a worker. -/
def coordEpoch : List Frame → Option CoordinatorEpoch
  | [] => none
  | frame :: frames => (register frame).map fun e => frames.foldl rolledBy e

theorem coordEpoch_concat {frames : List Frame} (h : frames ≠ []) (frame : Frame) :
    coordEpoch (frames ++ [frame]) = (coordEpoch frames).map fun e => rolledBy e frame := by
  cases frames with
  | nil => exact absurd rfl h
  | cons f fs =>
    simp only [List.cons_append, coordEpoch, List.foldl_append, List.foldl_cons, List.foldl_nil,
      Option.map_map]
    rfl

/-- A build leaves the epoch. -/
theorem build_epoch (env : Env) (boot : WorkerBootId) (w : Worker) (q : DistBuildRequest)
    (auth : Result DistAuthority) : (w.build env boot q auth).epoch = w.epoch := by
  unfold build
  split
  · rfl
  · split
    · rfl
    split
    · rfl
    split
    · rfl
    · unfold buildKey
      split
      · rfl
      · rfl
      · rfl
      · rfl

/-- While it runs, a worker follows the rolls. -/
theorem take_epoch {env : Env} {boot : WorkerBootId} {w : Worker} {frame : Frame}
    (h : (w.take env boot frame).running = true) :
    w.running = true ∧ (w.take env boot frame).epoch = rolledBy w.epoch frame := by
  cases hrunning : w.running with
  | false =>
    have hsame : w.take env boot frame = w := by
      unfold take
      rw [hrunning]
      rfl
    rw [hsame, hrunning] at h
    cases h
  | true =>
    refine ⟨rfl, ?_⟩
    unfold take
    rw [hrunning, if_neg (by simp)]
    by_cases hroll : frame.1 = DistMsgType.rollEpoch.code
    · rw [if_pos hroll]
    rw [if_neg hroll]
    have hsame : rolledBy w.epoch frame = w.epoch := if_neg hroll
    rw [hsame]
    split
    · rfl
    split
    · rfl
    · exact build_epoch env boot w _ _

theorem foldl_take_epoch {env : Env} {boot : WorkerBootId} {frames : List Frame} {w : Worker}
    (h : (frames.foldl (take env boot) w).running = true) :
    w.running = true ∧ (frames.foldl (take env boot) w).epoch = frames.foldl rolledBy w.epoch := by
  induction frames generalizing w with
  | nil => exact ⟨h, rfl⟩
  | cons frame frames ih =>
    rw [List.foldl_cons] at h
    obtain ⟨hrunning, hepoch⟩ := ih h
    obtain ⟨hbefore, htaken⟩ := take_epoch hrunning
    refine ⟨hbefore, ?_⟩
    rw [List.foldl_cons, hepoch, htaken]
    rfl

/-- **The epoch of a worker.** A worker that still runs has the epoch of the frames it has read. -/
theorem process_epoch {env : Env} {boot : WorkerBootId} {frames : List Frame} {e : CoordinatorEpoch}
    (h : coordEpoch frames = some e) : ∃ w, process env boot frames = some w ∧
      (w.running = true → w.epoch = e) := by
  cases frames with
  | nil => cases h
  | cons frame frames =>
    obtain ⟨e₀, hregister, rfl⟩ := Option.map_eq_some_iff.mp h
    refine ⟨_, by rw [process, hregister]; rfl, fun hrunning => ?_⟩
    exact (foldl_take_epoch hrunning).2

end Worker

end KernelCache
