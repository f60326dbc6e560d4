/-
# KernelCache.Standstill — the mutexes of the coordinator.

The threads of the coordinator wait for `g_dispatch_mtx` and for `g_wmtx`.  A dispatch keeps the first
over its exchange with the worker, and takes the second in between for the scan of the workers.  A roll
keeps the second over its broadcast.  Nobody who has the second asks for the first.

`Grip` is what a thread has of the two.  In every run one thread has a mutex that is held, and its next
section is at hand: a chain of waiting threads ends after two steps (`coordinator_progress`).  What a
`::send` or a `::recv` may wait for is not looked at here.
-/
import KernelCache.Foundation.Scripts
import KernelCache.HitOrigins
import KernelCache.Sequential

namespace KernelCache

open Foundation (Bytes Prog Event Pool Runs Guards phases)
open Foundation.Prog (sect perform Scripted)

/-- The section takes `g_wmtx`, to keep it or for itself. -/
def CoordStep.wantsWorkers : CoordStep → Bool
  | .pickWorker _ | .register _ | .queryWorkers | .lockWorkers => true
  | _ => false

/-- The mutexes a thread has. -/
structure Grip where
  dispatch : Bool := false
  workers : Bool := false

namespace Grip

def next (g : Grip) (l : CoordStep) (_ : Coordinator) : Grip :=
  match l with
  | .lockDispatch => { g with dispatch := true }
  | .unlockDispatch => { g with dispatch := false }
  | .lockWorkers => { g with workers := true }
  | .unlockWorkers => { g with workers := false }
  | _ => g

/-- The sections a thread may come to with what it has. -/
def ok (g : Grip) : CoordStep → Prop
  | .cache l => l.looks = true
  | .unlockDispatch => g.dispatch = true
  | .unlockWorkers => g.workers = true
  | .pickWorker _ => g.workers = false
  | .lockDispatch | .register _ | .queryWorkers | .lockWorkers => g = {}
  | _ => True

end Grip

/-! ## Texts -/

/-- The text takes its mutexes in order, and ends with `Q`. -/
abbrev Grips {α : Type} (p : CoordOp α) (g : Grip) (Q : α → Grip → Prop) : Prop :=
  p.Scripted Grip.ok Grip.next Q g

/-- The text ends with the mutexes it began with. -/
abbrev KeepsGrip {α : Type} (p : CoordOp α) (g : Grip) : Prop := Grips p g fun _ g' => g' = g

namespace KeepsGrip

variable {α β : Type} {g : Grip}

theorem bind {p : CoordOp α} {q : α → CoordOp β} {Q : β → Grip → Prop} (hp : KeepsGrip p g)
    (hq : ∀ a, Grips (q a) g Q) : Grips (p.bind q) g Q := by
  refine Scripted.bind hp ?_
  rintro a _ rfl
  exact hq a

end KeepsGrip

section Walk

variable {peers : Peers} {g : Grip}

theorem writeRounds_keepsGrip (fd : Socket) (frame : Frame) (fuel : Nat) (bytes : Bytes) :
    KeepsGrip (Foundation.writeRounds (offer peers fd frame) fuel bytes) g := by
  induction fuel generalizing bytes with
  | zero => exact rfl
  | succ fuel ih =>
    unfold Foundation.writeRounds
    split
    · exact rfl
    · refine Scripted.first trivial fun s => ?_
      split
      · exact rfl
      · exact ih _

theorem writeFrame_keepsGrip (fd : Socket) (type : UInt16) (payload : Bytes) :
    KeepsGrip (writeFrame peers fd type payload) g := by
  refine KeepsGrip.bind (writeRounds_keepsGrip fd _ _ _) fun b => ?_
  cases b with
  | false => exact rfl
  | true =>
    simp only [Bool.not_true, Bool.false_eq_true, if_false]
    split
    · exact rfl
    · exact writeRounds_keepsGrip fd _ _ _

theorem broadcast_keepsGrip (e : CoordinatorEpoch) (ws : List WorkerSlot) :
    KeepsGrip (broadcast peers e ws) g := by
  induction ws with
  | nil => exact rfl
  | cons w ws ih =>
    unfold broadcast
    cases w.fd with
    | none => exact ih
    | some fd => exact KeepsGrip.bind (writeFrame_keepsGrip fd _ _) fun _ => ih

theorem serveRollEpoch_keepsGrip (payload : Bytes) : KeepsGrip (serveRollEpoch peers payload) {} := by
  refine Scripted.first trivial fun _ => Scripted.first trivial fun _ => Scripted.first rfl fun _ => ?_
  refine Scripted.first trivial fun s => KeepsGrip.bind (broadcast_keepsGrip _ _) fun _ => ?_
  exact Scripted.sect rfl fun _ => rfl

theorem registerWorker_keepsGrip (fd : Socket) (payload : Bytes) :
    KeepsGrip (registerWorker peers fd payload) {} := by
  unfold registerWorker
  split
  · exact rfl
  · refine Scripted.first rfl fun _ => Scripted.first trivial fun _ => ?_
    exact KeepsGrip.bind (writeFrame_keepsGrip fd _ _) fun _ => rfl

theorem ownLookup_keepsGrip (request : KernelLookupRequest) :
    KeepsGrip ((lookupImpl request).zoom .cache Coordinator.cache) g := by
  unfold lookupImpl
  dsimp only
  split
  · exact rfl
  · exact ⟨rfl, fun _ => ⟨rfl, fun _ => ⟨rfl, fun _ => rfl⟩⟩⟩

theorem dispatchBuild_keepsGrip (keycan : Bytes) (src ns arch : Str) (auth : DistAuthority)
    (rid : RequestId) (out : BuildResponse) :
    KeepsGrip (dispatchBuild peers keycan src ns arch auth rid out) {} := by
  unfold dispatchBuild
  refine Scripted.first rfl fun _ => Scripted.first rfl fun s => ?_
  split
  · exact Scripted.first rfl fun _ => rfl
  · refine KeepsGrip.bind (writeFrame_keepsGrip _ _ _) fun b => ?_
    cases b with
    | false => exact Scripted.first rfl fun _ => rfl
    | true => exact Scripted.first trivial fun _ => Scripted.first rfl fun _ => rfl

theorem servePending_keepsGrip (q : LookupRequest) (auth : DistAuthority) (kh arch : Str) :
    KeepsGrip (servePending peers q auth kh arch) {} := by
  refine KeepsGrip.bind (dispatchBuild_keepsGrip _ _ _ _ _ _ _) fun reply => ?_
  refine Scripted.first trivial fun _ => ?_
  cases reply.1 with
  | false => exact rfl
  | true => exact Scripted.first trivial fun _ => rfl

theorem serveKey_keepsGrip (q : LookupRequest) (auth : DistAuthority) (k : KernelCompatibilityKey) :
    KeepsGrip (serveKey peers q auth k) {} := by
  refine KeepsGrip.bind (ownLookup_keepsGrip _) fun found => Scripted.first trivial fun s => ?_
  split
  · exact rfl
  · exact rfl
  · refine Scripted.first trivial fun _ => ?_
    split
    · exact servePending_keepsGrip q auth _ _
    · exact Scripted.first trivial fun _ => rfl

theorem serveLookup_keepsGrip (q : LookupRequest) (auth : Result DistAuthority) :
    KeepsGrip (serveLookup peers q auth) {} := by
  cases auth with
  | error _ => exact rfl
  | ok auth =>
    refine Scripted.first trivial fun _ => ?_
    split
    · exact rfl
    · refine Scripted.first trivial fun _ => ?_
      split
      · exact rfl
      · split
        · exact rfl
        · exact serveKey_keepsGrip q auth _

theorem serveFrame_keepsGrip (frame : Frame) : KeepsGrip (serveFrame peers frame) {} := by
  unfold serveFrame
  split
  · exact KeepsGrip.bind (serveRollEpoch_keepsGrip _) fun _ => rfl
  split
  · exact KeepsGrip.bind (serveLookup_keepsGrip _ _) fun _ => rfl
  split
  · exact Scripted.first rfl fun _ => rfl
  split
  · exact rfl
  · exact rfl

theorem serveRound_keepsGrip (fd : Socket) (frame : Frame) :
    KeepsGrip (serveRound peers fd frame) {} := by
  refine KeepsGrip.bind (serveFrame_keepsGrip frame) fun served => ?_
  cases served with
  | reply answer => exact KeepsGrip.bind (writeFrame_keepsGrip fd _ _) fun _ => rfl
  | silent => exact rfl
  | closed => exact rfl

theorem serveClient_keepsGrip (fd : Socket) (frame : Frame) (rest : List Frame) :
    KeepsGrip (serveClient peers fd frame rest) {} := by
  induction rest generalizing frame with
  | nil => exact KeepsGrip.bind (serveRound_keepsGrip fd frame) fun _ => rfl
  | cons next rest ih =>
    refine KeepsGrip.bind (serveRound_keepsGrip fd frame) fun again => ?_
    cases again with
    | false => exact rfl
    | true => exact Scripted.first trivial fun _ => ih next

/-- **A connection ends without a mutex**, whatever comes over it. -/
theorem handleConn_keepsGrip (frames : List Frame) : KeepsGrip (handleConn peers frames) {} := by
  refine Scripted.first trivial fun s => ?_
  cases frames with
  | nil => exact rfl
  | cons frame rest =>
    refine Scripted.first trivial fun _ => ?_
    split
    · exact registerWorker_keepsGrip _ _
    · exact serveClient_keepsGrip _ _ _

end Walk

/-! ## Who has the mutexes -/

/-- The threads and the mutexes of a run. -/
structure Gripped (P : Nat → Grip) (s : Coordinator) : Prop where
  dispatch : Guards s.dispatchHeld fun i => (P i).dispatch
  workers : Guards s.workersHeld fun i => (P i).workers
  /-- A lookup in the coordinator's own cache leaves `stats_mtx_` free. -/
  stats : s.cache.statsHeld = false

namespace Gripped

variable {peers : Peers} {P : Nat → Grip} {s s' : Coordinator} {i : Nat} {l : CoordStep}

theorem dispatch_next (h : Gripped P s) (hok : (P i).ok l) (hready : l.ready s = true) :
    Guards (l.effect peers s).dispatchHeld fun j =>
      (Function.update P i ((P i).next l s) j).dispatch := by
  rw [Foundation.update_has]
  cases l with
  | lockDispatch =>
    have hfree : s.dispatchHeld = false := by simpa [CoordStep.ready] using hready
    exact (hfree ▸ h.dispatch).take i
  | unlockDispatch => exact h.dispatch.give hok
  | _ => exact h.dispatch.keep rfl

theorem workers_next (h : Gripped P s) (hok : (P i).ok l) (hready : l.ready s = true) :
    Guards (l.effect peers s).workersHeld fun j =>
      (Function.update P i ((P i).next l s) j).workers := by
  rw [Foundation.update_has]
  cases l with
  | lockWorkers =>
    have hfree : s.workersHeld = false := by simpa [CoordStep.ready] using hready
    exact (hfree ▸ h.workers).take i
  | unlockWorkers => exact h.workers.give hok
  | _ => exact h.workers.keep rfl

/-- One section. -/
theorem step (h : Gripped P s) (hok : (P i).ok l) (hstep : coordExec peers l s = some s') :
    Gripped (Function.update P i ((P i).next l s)) s' := by
  obtain ⟨hready, rfl⟩ := coordExec_eq_some.mp hstep
  refine ⟨h.dispatch_next hok hready, h.workers_next hok hready, ?_⟩
  cases l with
  | cache l =>
    have hlooks : l.looks = true := hok
    have hquiet : l.keepsLock = false := by
      cases l <;> first | rfl | cases hlooks
    show (l.effect peers.cache s.cache).statsHeld = false
    rw [Step.effect_statsHeld, h.stats, hquiet]
    rfl
  | _ => exact h.stats

end Gripped

/-! ## What a thread waits for -/

section Waiting

variable {peers : Peers} {store : FilePersistenceStore} {tr : List (Event CoordStep Coordinator)}
  {pool : Pool CoordStep Coordinator Unit} {i : Nat} {l : CoordStep} {k : Coordinator → CoordOp Unit}

/-- What every thread has at the end of a run. -/
def grips (tr : List (Event CoordStep Coordinator)) : Nat → Grip :=
  phases Grip.next (fun _ => {}) tr

/-- The next section of the thread can be taken. -/
def Moves (pool : Pool CoordStep Coordinator Unit) (i : Nat) : Prop :=
  ∃ l k, pool.threads[i]? = some (.act l k) ∧ l.ready pool.shared = true

theorem handleConn_text {p : CoordOp Unit} (h : ∃ frames, p = handleConn peers frames) :
    KeepsGrip p {} := by
  obtain ⟨frames, rfl⟩ := h
  exact handleConn_keepsGrip frames

theorem runs_gripped (h : CoordRuns peers store tr pool) : Gripped (grips tr) pool.shared :=
  Runs.scripted_history (J := fun _ => Gripped) (fun _ => handleConn_text)
    ⟨Guards.free, Guards.free, rfl⟩ (fun _ _ _ _ _ _ hJ hok hs => hJ.step hok hs) h

/-- What the next section of a thread may be. -/
theorem next_ok (h : CoordRuns peers store tr pool) (hi : pool.threads[i]? = some (.act l k)) :
    (grips tr i).ok l :=
  (h.scripted (fun _ => handleConn_text) hi).1

/-- A thread that has a mutex is not at its end. -/
theorem unfinished_of_grip (h : CoordRuns peers store tr pool) (hi : grips tr i ≠ {}) :
    ∃ l k, pool.threads[i]? = some (.act l k) := by
  obtain ⟨q, hq⟩ := h.thread_of_phase hi
  cases q with
  | act l k => exact ⟨l, k, hq⟩
  | ret a => exact absurd (h.scripted (fun _ => handleConn_text) hq) hi

theorem ready_of_looks {l : Step} {s : Impl} (hlooks : l.looks = true)
    (hfree : s.statsHeld = false) : l.ready s = true := by
  cases l with
  | collect _ | bump _ | recordEvent => simp [Step.ready, hfree]
  | _ => cases hlooks

/-- A section waits for one of the two mutexes, or for nothing. -/
theorem ready_or_waits {g : Grip} {s : Coordinator} (hok : g.ok l)
    (hstats : s.cache.statsHeld = false) : l.ready s = true ∨
      (l.wantsWorkers = true ∧ s.workersHeld = true) ∨ (l = .lockDispatch ∧ s.dispatchHeld = true) := by
  cases l with
  | lockDispatch =>
    cases hheld : s.dispatchHeld with
    | true => exact .inr (.inr ⟨rfl, rfl⟩)
    | false => exact .inl (by simp [CoordStep.ready, hheld])
  | pickWorker _ | register _ | queryWorkers | lockWorkers =>
    cases hheld : s.workersHeld with
    | true => exact .inr (.inl ⟨rfl, rfl⟩)
    | false => exact .inl (by simp [CoordStep.ready, hheld])
  | cache l => exact .inl (ready_of_looks hok hstats)
  | _ => exact .inl rfl

/-- While `g_wmtx` is held, the thread that has it moves. -/
theorem workers_move (h : CoordRuns peers store tr pool) (hheld : pool.shared.workersHeld = true) :
    ∃ j, (grips tr j).workers = true ∧ Moves pool j := by
  obtain ⟨j, hj⟩ := (runs_gripped h).workers.holder hheld
  obtain ⟨l, k, hthread⟩ := unfinished_of_grip h (i := j) fun hnone => by
    rw [hnone] at hj
    cases hj
  refine ⟨j, hj, l, k, hthread, ?_⟩
  have hok := next_ok h hthread
  rcases ready_or_waits hok (runs_gripped h).stats with hready | ⟨hwants, -⟩ | ⟨rfl, -⟩
  · exact hready
  · cases l with
    | pickWorker boot =>
      have hnone : (grips tr j).workers = false := hok
      rw [hnone] at hj
      cases hj
    | register _ | queryWorkers | lockWorkers =>
      have hnone : grips tr j = {} := hok
      rw [hnone] at hj
      cases hj
    | _ => cases hwants
  · have hnone : grips tr j = {} := hok
    rw [hnone] at hj
    cases hj

/-- While `g_dispatch_mtx` is held, the thread that has it moves, or is about to scan the workers and
waits for a thread that moves. -/
theorem dispatch_moves (h : CoordRuns peers store tr pool)
    (hheld : pool.shared.dispatchHeld = true) : ∃ j, (grips tr j).dispatch = true ∧
      (Moves pool j ∨ ∃ boot k, pool.threads[j]? = some (.act (.pickWorker boot) k) ∧
        ∃ m, (grips tr m).workers = true ∧ Moves pool m) := by
  obtain ⟨j, hj⟩ := (runs_gripped h).dispatch.holder hheld
  obtain ⟨l, k, hthread⟩ := unfinished_of_grip h (i := j) fun hnone => by
    rw [hnone] at hj
    cases hj
  refine ⟨j, hj, ?_⟩
  have hok := next_ok h hthread
  rcases ready_or_waits hok (runs_gripped h).stats with hready | ⟨hwants, hworkers⟩ | ⟨rfl, -⟩
  · exact .inl ⟨l, k, hthread, hready⟩
  · cases l with
    | pickWorker boot => exact .inr ⟨boot, k, hthread, workers_move h hworkers⟩
    | register _ | queryWorkers | lockWorkers =>
      have hnone : grips tr j = {} := hok
      rw [hnone] at hj
      cases hj
    | _ => cases hwants
  · have hnone : grips tr j = {} := hok
    rw [hnone] at hj
    cases hj

/-- **What a thread of the coordinator can be waiting for.** In every run, whatever the peers do: an
unfinished thread can take its next section, or it waits for `g_wmtx` and the thread that has it moves, or
it waits for `g_dispatch_mtx` and the thread that has that moves or is the one that waits for `g_wmtx`. -/
theorem coordinator_progress (h : CoordRuns peers store tr pool)
    (hi : pool.threads[i]? = some (.act l k)) :
    l.ready pool.shared = true ∨
      (l.wantsWorkers = true ∧ ∃ j, (grips tr j).workers = true ∧ Moves pool j) ∨
      (l = .lockDispatch ∧ ∃ j, (grips tr j).dispatch = true ∧
        (Moves pool j ∨ ∃ boot k', pool.threads[j]? = some (.act (.pickWorker boot) k') ∧
          ∃ m, (grips tr m).workers = true ∧ Moves pool m)) := by
  rcases ready_or_waits (next_ok h hi) (runs_gripped h).stats with
    hready | ⟨hwants, hheld⟩ | ⟨rfl, hheld⟩
  · exact .inl hready
  · exact .inr (.inl ⟨hwants, workers_move h hheld⟩)
  · exact .inr (.inr ⟨rfl, dispatch_moves h hheld⟩)

end Waiting

/-- A roll that has taken `g_wmtx`, and a client that asks for the workers. -/
def rollAndQuery : List ConnMove :=
  .connect [(DistMsgType.rollEpoch.code, [])] :: List.replicate 5 (.step 0) ++
    .connect [(DistMsgType.queryWorkers.code, [])] :: List.replicate 2 (.step 1)

/-- The client waits for the roll, which goes on. -/
theorem coordinator_progress_roll : ∃ tr pool k, CoordRuns {} {} tr pool ∧
    pool.threads[1]? = some (.act .queryWorkers k) ∧ CoordStep.queryWorkers.ready pool.shared = false ∧
    ∃ j, (grips tr j).workers = true ∧ Moves pool j := by
  have hplay : playConns {} {} rollAndQuery = some _ := rfl
  have hruns := CoordRuns.of_play hplay
  refine ⟨_, _, _, hruns, rfl, rfl, ?_⟩
  rcases coordinator_progress hruns (i := 1) rfl with hready | ⟨-, hmoves⟩ | ⟨heq, -⟩
  · cases hready
  · exact hmoves
  · cases heq

end KernelCache
