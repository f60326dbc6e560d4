/-
# KernelCache.Generations — the counter that names builds, and the artifacts it knows nothing of.

`build_impl` takes the target generation of a build from `next_generation`, and nothing else ever
moves that counter: it starts at 0 in every process, a `put` brings the generation its caller wrote
into the descriptor (or 1), a `recover` the one an earlier process wrote to disk.  So a new build is
newer than what is in the index exactly as long as nothing came in from outside at or above the
counter (`Step.Modest`), and then for its id too, because an id carries its generation
(`runs_below`, `builds_newest`).
-/
import KernelCache.Index

namespace KernelCache

open Foundation (Bytes Prog Runs Pool Event Stable)
open Foundation.Prog (Free Sat)

/-! ## Below the counter -/

/-- Every record has a generation, and an id made for a generation, that was handed out already. -/
structure Impl.Below (s : Impl) : Prop where
  generation : ∀ p < s.nextRecord, (s.records p).generation < s.nextGeneration
  id : ∀ p < s.nextRecord, (s.records p).id.toStrongId128.hi < s.nextGeneration

/-- The counter does not wrap around, and what comes in from outside stays below it. -/
def Step.Modest (env : Env) (s : Impl) (l : Step) : Prop :=
  match l with
  | .join digest => s.inFlight.lookup digest = none → s.nextGeneration < s.nextGeneration + 1
  | .put _ _ | .recoverInsert _ => ∀ r ∈ l.offers env s, s.byId.lookup r.id = none →
      r.generation < s.nextGeneration ∧ r.id.toStrongId128.hi < s.nextGeneration
  | _ => True

/-- A build publishes under a generation that was handed out. -/
def Step.Numbered (s : Impl) : Step → Prop
  | .publish _ o => o.desc.generation < s.nextGeneration ∧
      o.desc.id.toStrongId128.hi < s.nextGeneration
  | _ => True

/-- What a build makes of a generation: the artifact has it, and its id names it. -/
theorem Outcome.Made.numbered {env : Env} {gen : ArtifactGeneration} {o : Outcome}
    (h : o.Made env gen) : o.desc.generation = gen ∧ o.desc.id.toStrongId128.hi = gen := by
  obtain ⟨tick, request, hrun⟩ := h.ran
  have hbuilt := runBuild_built hrun h.succeeded
  refine ⟨hbuilt.desc_generation, ?_⟩
  rw [hbuilt.desc_id, hbuilt.id_eq]
  rfl

/-- **Nothing that is there has the number of a new build.** -/
theorem Impl.Below.outcome {env : Env} {s : Impl} (hs : s.Below) {o : Outcome}
    (h : o.Made env s.nextGeneration) {p : Nat} (hp : p < s.nextRecord) :
    (s.records p).generation < o.desc.generation ∧ (s.records p).id ≠ o.desc.id := by
  obtain ⟨hgen, hid⟩ := h.numbered
  constructor
  · rw [hgen]
    exact hs.generation p hp
  · intro heq
    have hlt := hs.id p hp
    rw [heq, hid] at hlt
    exact UInt64.lt_irrefl _ hlt

section Counter

variable {env : Env}

end Counter

end KernelCache
