/-
# KernelCache.Foundation.Sweeps — loops that write a buffer from its start to its end.

Each round of a `sweep` writes the next cell of the buffer, and may read any cell of the memory.  What it
reads is what the memory held at the start unless an earlier round has written it, so a sweep over its own
input can still be right (`sweep_cells`).
-/
import Mathlib.Logic.Function.Basic

namespace KernelCache.Foundation

variable {F : Type}

/-- Write the cells from `out` on, one a round. -/
def sweep (out : Nat) (value : Nat → (Nat → F) → F) : Nat → (Nat → F) → Nat → F
  | 0, mem => mem
  | n + 1, mem =>
    let swept := sweep out value n mem
    Function.update swept (out + n) (value n swept)

variable {out : Nat} {value : Nat → (Nat → F) → F} {n : Nat} {mem : Nat → F}

theorem sweep_succ : sweep out value (n + 1) mem =
    Function.update (sweep out value n mem) (out + n) (value n (sweep out value n mem)) :=
  rfl

/-- What is not in the buffer is as before. -/
theorem sweep_other {addr : Nat} (h : ∀ i < n, addr ≠ out + i) :
    sweep out value n mem addr = mem addr := by
  induction n with
  | zero => rfl
  | succ n ih =>
    rw [sweep_succ, Function.update_of_ne (h n (Nat.lt_succ_self n))]
    exact ih fun i hi => h i (Nat.lt_succ_of_lt hi)

/-- A cell keeps what its round has written. -/
theorem sweep_written {i : Nat} (hi : i < n) :
    sweep out value n mem (out + i) = value i (sweep out value i mem) := by
  induction n with
  | zero => exact absurd hi (Nat.not_lt_zero i)
  | succ n ih =>
    rw [sweep_succ]
    rcases Nat.lt_succ_iff_lt_or_eq.mp hi with hlt | rfl
    · have hne : out + i ≠ out + n := by omega
      rw [Function.update_of_ne hne]
      exact ih hlt
    · exact Function.update_self ..

/-- **What a sweep writes.** Each round writes its cell, if it does in every memory that holds the cells
of the earlier rounds and is otherwise as before. -/
theorem sweep_cells {cell : Nat → F} (hvalue : ∀ i < n, ∀ mem' : Nat → F,
      (∀ j < i, mem' (out + j) = cell j) → (∀ addr, (∀ j < i, addr ≠ out + j) → mem' addr = mem addr) →
        value i mem' = cell i) {i : Nat} (hi : i < n) : sweep out value n mem (out + i) = cell i := by
  induction i using Nat.strongRecOn with
  | ind i ih =>
    rw [sweep_written hi]
    refine hvalue i hi _ (fun j hj => ?_) fun addr haddr => sweep_other haddr
    have hbefore := ih j hj (Nat.lt_trans hj hi)
    rw [sweep_written hj]
    rwa [sweep_written (Nat.lt_trans hj hi)] at hbefore

end KernelCache.Foundation
