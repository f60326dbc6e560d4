/-
# KernelCache.LeaseObjects — `KernelLease` as its users hold it (`leases.cpp`).

`acquire` returns a `KernelLease`, an object with one member: `state_`, a shared pointer to the state of
the granted lease.  The objects are moved, assigned to and destroyed by the users of the cache; a
release is reached from `release()`, from the move assignment, for what the target held before, and
from the destructor.  Here the cache stands beside the `state_` of every object, and each member
function is a program over both.  What the cache does is what it does alone (`leaseStep_extends`).
-/
import KernelCache.Foundation.Extension
import KernelCache.Interleaving

namespace KernelCache

open Foundation (Prog Runs Pool Event Extends)
open Foundation.Prog (sect perform)

/-! ## The machine -/

/-- The cache and the lease objects of its users. -/
structure Leasing where
  impl : Impl
  /-- `state_` of each object. -/
  state : Nat → Option Nat := fun _ => none

inductive LeaseStep where
  /-- A section of the cache. -/
  | cache (l : Step)
  /-- `on_lease_release`, called for a lease and the record of its state. -/
  | countDown (lease p : Nat)
  | readState (object : Nat)
  | setState (object : Nat) (st : Option Nat)
  /-- `state_(std::move(other.state_))`. -/
  | moveState (object other : Nat)

namespace LeaseStep

/-- The section of the cache, if it is one. -/
def base : LeaseStep → Option Step
  | cache l => some l
  | countDown _ p => some (.onLeaseRelease p)
  | _ => none

end LeaseStep

/-- One step of the cache or of an object. -/
def leaseStep (env : Env) : LeaseStep → Leasing → Option Leasing
  | .cache l, h => (exec env l h.impl).map fun s => { h with impl := s }
  | .countDown _ p, h => (exec env (.onLeaseRelease p) h.impl).map fun s => { h with impl := s }
  | .readState _, h => some h
  | .setState object st, h => some { h with state := Function.update h.state object st }
  | .moveState object other, h =>
    some { h with
      state := Function.update (Function.update h.state object (h.state other)) other none }

theorem leaseStep_extends (env : Env) :
    Extends (exec env) (leaseStep env) LeaseStep.cache LeaseStep.base Leasing.impl where
  base_lab := fun _ => rfl
  taken := by
    intro l' l s s' h hbase
    have hmap : ∀ l₀ : Step, (exec env l₀ s.impl).map (fun s₁ => { s with impl := s₁ }) = some s' →
        exec env l₀ s.impl = some s'.impl := by
      intro l₀ hl₀
      obtain ⟨s₁, hs₁, rfl⟩ := Option.map_eq_some_iff.mp hl₀
      exact hs₁
    cases l' with
    | cache l₀ =>
      cases hbase
      exact hmap _ h
    | countDown lease p =>
      cases hbase
      exact hmap _ h
    | _ => cases hbase
  aside := by
    intro l' s s' h hbase
    cases l' with
    | cache l₀ => cases hbase
    | countDown lease p => cases hbase
    | readState object =>
      cases h
      rfl
    | setState object st =>
      cases h
      rfl
    | moveState object other =>
      cases h
      rfl

/-- Programs over the cache and the objects. -/
abbrev LeaseOp (α : Type) := Prog LeaseStep Leasing α

/-- A program of the cache. -/
abbrev onCache {α : Type} (p : Op α) : LeaseOp α := p.lift LeaseStep.cache Leasing.impl

namespace KernelLease

/-- `release`. -/
def release (object : Nat) : LeaseOp Unit := do
  let st ← sect (.readState object) (fun h => h.state object)
  match st with
  | none => return ()
  | some lease =>
    let old ← sect (.cache (.exchangeReleased lease)) (fun h => h.impl.leases lease)
    if old.released then return ()
    else
      perform (.countDown lease old.record)
      perform (.setState object none)

/-- The move constructor. -/
def moveConstruct (object other : Nat) : LeaseOp Unit := perform (.moveState object other)

/-- `operator=`. -/
def moveAssign (object other : Nat) : LeaseOp Unit :=
  if object = other then return ()
  else do
    release object
    perform (.moveState object other)

/-- `~KernelLease`. -/
def destroy (object : Nat) : LeaseOp Unit := release object

/-- `touch`. -/
def touch (object : Nat) : LeaseOp (Result Unit) := do
  let st ← sect (.readState object) (fun h => h.state object)
  match st with
  | none => return fail .staleArtifact (str "lease is not valid")
  | some lease => onCache (touchLease lease)

/-- `acquire`, with the object that receives the lease. -/
def acquire (env : Env) (object : Nat) (request : KernelLookupRequest) : LeaseOp Answer := do
  let res ← onCache (acquireImpl env request)
  match res with
  | .error e => return .failed e
  | .ok lease =>
    perform (.setState object (some lease))
    return .lease lease

end KernelLease

/-! ## What the users call -/

/-- The operations that neither return nor take a lease. -/
def Operation.leaseless : Operation → Bool
  | .acquire _ | .release _ | .touch _ => false
  | _ => true

inductive LeaseCall where
  | operation (op : Operation) (h : op.leaseless = true)
  | acquire (object : Nat) (request : KernelLookupRequest)
  | moveConstruct (object other : Nat)
  | moveAssign (object other : Nat)
  | release (object : Nat)
  | destroy (object : Nat)
  | touch (object : Nat)

def LeaseCall.prog (env : Env) : LeaseCall → LeaseOp Answer
  | .operation op _ => onCache (op.prog env)
  | .acquire object request => KernelLease.acquire env object request
  | .moveConstruct object other => do
    KernelLease.moveConstruct object other
    return .done
  | .moveAssign object other => do
    KernelLease.moveAssign object other
    return .done
  | .release object => do
    KernelLease.release object
    return .done
  | .destroy object => do
    KernelLease.destroy object
    return .done
  | .touch object => do return answer (fun _ => .done) (← KernelLease.touch object)

/-- Interleaved runs of a fresh cache and its users. -/
abbrev LeaseRuns (env : Env) (store : FilePersistenceStore) (tr : List (Event LeaseStep Leasing))
    (pool : Pool LeaseStep Leasing Answer) : Prop :=
  Runs (leaseStep env) (fun p => ∃ call : LeaseCall, p = call.prog env)
    ⟨{ impl := Impl.initial store }, []⟩ tr pool

end KernelCache
