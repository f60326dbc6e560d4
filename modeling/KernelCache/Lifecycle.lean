/-
# KernelCache.Lifecycle — the artifact lifecycle (`lifecycle.cpp`).

The whitelist of transitions, the classes of states, and the two facts about them that carry every
safety argument of the cache: poison has no way out, and a state no lease can be taken in has no way
back to one it can, along the moves the cache attempts.  A move is attempted with `tryMove`, the
`if (can_transition(state, to)) state = to` of every operation; it silently does nothing when the
transition is not whitelisted.
-/
import KernelCache.Descriptors

namespace KernelCache

/-- `kTransitions`. -/
def kTransitions : List (ArtifactState × ArtifactState) :=
  [(.discovered, .building), (.discovered, .invalidated), (.discovered, .corrupt),
    (.discovered, .failed), (.discovered, .retired), (.discovered, .terminal),
    (.building, .built), (.building, .failed), (.building, .corrupt), (.building, .invalidated),
    (.building, .terminal),
    (.built, .validating), (.built, .invalidated), (.built, .corrupt), (.built, .retired),
    (.built, .failed), (.built, .terminal),
    (.validating, .valid), (.validating, .failed), (.validating, .corrupt),
    (.validating, .invalidated), (.validating, .terminal),
    (.valid, .loading), (.valid, .persisted), (.valid, .leasing), (.valid, .inUse),
    (.valid, .demotionPending), (.valid, .evictionPending), (.valid, .invalidated),
    (.valid, .retired), (.valid, .corrupt), (.valid, .terminal),
    (.loading, .residentHost), (.loading, .residentDevice), (.loading, .failed),
    (.loading, .corrupt), (.loading, .invalidated), (.loading, .terminal),
    (.residentHost, .residentDevice), (.residentHost, .persisted),
    (.residentHost, .demotionPending), (.residentHost, .evictionPending),
    (.residentHost, .evictedHost), (.residentHost, .invalidated), (.residentHost, .corrupt),
    (.residentHost, .retired), (.residentHost, .terminal),
    (.residentDevice, .residentHost), (.residentDevice, .demotionPending),
    (.residentDevice, .evictionPending), (.residentDevice, .evictedDevice),
    (.residentDevice, .invalidated), (.residentDevice, .corrupt), (.residentDevice, .retired),
    (.residentDevice, .terminal),
    (.persisted, .residentHost), (.persisted, .valid), (.persisted, .evictionPending),
    (.persisted, .invalidated), (.persisted, .corrupt), (.persisted, .retired),
    (.persisted, .terminal),
    (.leasing, .inUse), (.leasing, .demotionPending), (.leasing, .invalidated),
    (.leasing, .retired), (.leasing, .terminal),
    (.inUse, .leasing), (.inUse, .demotionPending), (.inUse, .invalidated), (.inUse, .retired),
    (.inUse, .terminal),
    (.demotionPending, .evictionPending), (.demotionPending, .invalidated),
    (.demotionPending, .retired), (.demotionPending, .terminal),
    (.evictionPending, .evictedDevice), (.evictionPending, .evictedHost),
    (.evictionPending, .invalidated), (.evictionPending, .retired),
    (.evictionPending, .terminal),
    (.evictedDevice, .persisted), (.evictedDevice, .retired), (.evictedDevice, .terminal),
    (.evictedHost, .persisted), (.evictedHost, .retired), (.evictedHost, .terminal),
    (.invalidated, .retired), (.invalidated, .terminal),
    (.corrupt, .failed), (.corrupt, .retired), (.corrupt, .terminal),
    (.failed, .retired), (.failed, .terminal),
    (.retired, .terminal)]

/-- `can_transition`. -/
def canTransition (source target : ArtifactState) : Bool := kTransitions.contains (source, target)

namespace ArtifactState

/-- `is_poisoned`. -/
def isPoisoned (s : ArtifactState) : Bool :=
  s == .corrupt || s == .failed || s == .invalidated || s == .retired || s == .terminal

/-- `is_eligible`. -/
def isEligible (s : ArtifactState) : Bool :=
  s == .valid || s == .residentHost || s == .residentDevice || s == .persisted || s == .leasing ||
    s == .inUse

/-- `if (can_transition(state, to)) state = to`. -/
def tryMove (s target : ArtifactState) : ArtifactState :=
  if canTransition s target then target else s

/-- The states the cache ever attempts to move a record to. -/
def isTarget (s : ArtifactState) : Bool :=
  s == .valid || s == .residentHost || s == .residentDevice || s == .inUse ||
    s == .evictionPending || s == .evictedDevice || s == .evictedHost || s == .invalidated ||
    s == .corrupt || s == .retired

/-- The states a record can be in: the two it starts in and the targets. -/
def isVisited (s : ArtifactState) : Bool := s == .persisted || s.isTarget

/-- Visited states in which no lease is granted: on the way out, or poisoned. -/
def isSpent (s : ArtifactState) : Bool := s.isVisited && !s.isEligible

theorem mem_of_canTransition {s t : ArtifactState} (h : canTransition s t = true) :
    (s, t) ∈ kTransitions := by
  simpa [canTransition] using h

/-- Poison has no way out. -/
theorem poisoned_of_transition {s t : ArtifactState} (h : canTransition s t = true)
    (hs : s.isPoisoned = true) : t.isPoisoned = true := by
  have hall : ∀ p ∈ kTransitions, p.1.isPoisoned = true → p.2.isPoisoned = true := by decide
  exact hall (s, t) (mem_of_canTransition h) hs

/-- No attempted move leads from a spent state back to one a lease is granted in. -/
theorem spent_of_transition {s t : ArtifactState} (h : canTransition s t = true)
    (ht : t.isTarget = true) (hs : s.isSpent = true) : t.isSpent = true := by
  have hall : ∀ p ∈ kTransitions, p.2.isTarget = true → p.1.isSpent = true →
      p.2.isSpent = true := by decide
  exact hall (s, t) (mem_of_canTransition h) ht hs

theorem not_eligible_of_poisoned {s : ArtifactState} (h : s.isPoisoned = true) :
    s.isEligible = false := by
  revert h
  cases s <;> decide

theorem not_eligible_of_spent {s : ArtifactState} (h : s.isSpent = true) :
    s.isEligible = false := by
  simp only [isSpent, Bool.and_eq_true, Bool.not_eq_true'] at h
  exact h.2

/-- Every visited state except `InUse` goes to `EvictionPending` or is spent already. -/
theorem spent_of_evictionPending {s : ArtifactState} (h : s.isVisited = true) (hne : s ≠ .inUse) :
    (s.tryMove .evictionPending).isSpent = true := by
  revert h hne
  cases s <;> decide

theorem tryMove_eq_or (s t : ArtifactState) :
    s.tryMove t = s ∨ (canTransition s t = true ∧ s.tryMove t = t) := by
  unfold tryMove
  by_cases h : canTransition s t = true
  · exact .inr ⟨h, if_pos h⟩
  · exact .inl (if_neg h)

end ArtifactState

end KernelCache
