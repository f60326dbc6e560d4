/-
# KernelCache.Foundation.Blocks — a list in blocks of one length, and a buffer in front of a block
function.

`feed` takes one entry at a time: it waits in the buffer until a block is full, and the block is then
absorbed.  Whatever was fed, the state has absorbed the whole blocks of it in order, and the buffer holds
what is left over (`foldl_feed`).
-/
import Mathlib.Data.List.Induction

namespace KernelCache.Foundation

variable {α σ : Type} {n : Nat}

/-! ## Blocks -/

/-- The first `k` blocks of `n` entries. -/
def chunks (n : Nat) : Nat → List α → List (List α)
  | 0, _ => []
  | k + 1, l => l.take n :: chunks n k (l.drop n)

/-- The whole blocks of `n` entries. -/
def blocks (n : Nat) (l : List α) : List (List α) := chunks n (l.length / n) l

/-- What follows the whole blocks. -/
def leftover (n : Nat) (l : List α) : List α := l.drop (n * (l.length / n))

theorem chunks_full {k : Nat} {l : List α} (h : n * k ≤ l.length) : ∀ b ∈ chunks n k l, b.length = n := by
  induction k generalizing l with
  | zero => exact fun b hb => nomatch hb
  | succ k ih =>
    rw [Nat.mul_succ] at h
    intro b hb
    rcases List.mem_cons.mp hb with rfl | hb
    · rw [List.length_take]
      omega
    · exact ih (by rw [List.length_drop]; omega) b hb

theorem chunks_split (k : Nat) (l : List α) : (chunks n k l).flatten ++ l.drop (n * k) = l := by
  induction k generalizing l with
  | zero => rfl
  | succ k ih =>
    rw [chunks, List.flatten_cons, List.append_assoc, Nat.mul_succ, Nat.add_comm (n * k),
      ← List.drop_drop, ih, List.take_append_drop]

theorem chunks_flatten {bs : List (List α)} (h : ∀ b ∈ bs, b.length = n) (rest : List α) :
    chunks n bs.length (bs.flatten ++ rest) = bs := by
  induction bs with
  | nil => rfl
  | cons b bs ih =>
    have hb := h b List.mem_cons_self
    rw [List.length_cons, List.flatten_cons, List.append_assoc, chunks, List.take_left' hb,
      List.drop_left' hb, ih fun c hc => h c (List.mem_cons_of_mem b hc)]

theorem flatten_length {bs : List (List α)} (h : ∀ b ∈ bs, b.length = n) :
    bs.flatten.length = n * bs.length := by
  induction bs with
  | nil => rfl
  | cons b bs ih =>
    rw [List.flatten_cons, List.length_append, h b List.mem_cons_self,
      ih fun c hc => h c (List.mem_cons_of_mem b hc), List.length_cons, Nat.mul_succ, Nat.add_comm]

theorem blocks_full (l : List α) : ∀ b ∈ blocks n l, b.length = n :=
  chunks_full (Nat.mul_div_le l.length n)

theorem blocks_split (l : List α) : (blocks n l).flatten ++ leftover n l = l :=
  chunks_split (l.length / n) l

theorem leftover_length (l : List α) : (leftover n l).length = l.length % n := by
  rw [leftover, List.length_drop]
  have h := Nat.div_add_mod l.length n
  omega

theorem blocks_length (l : List α) : (blocks n l).length = l.length / n := by
  unfold blocks
  generalize l.length / n = k
  induction k generalizing l with
  | zero => rfl
  | succ k ih => rw [chunks, List.length_cons, ih]

/-- A list is put in blocks in one way. -/
theorem blocks_of_split {bs : List (List α)} {rest : List α} (h : ∀ b ∈ bs, b.length = n)
    (hrest : rest.length < n) :
    blocks n (bs.flatten ++ rest) = bs ∧ leftover n (bs.flatten ++ rest) = rest := by
  have hcount : (bs.flatten ++ rest).length / n = bs.length := by
    rw [List.length_append, flatten_length h, Nat.mul_add_div (Nat.zero_lt_of_lt hrest),
      Nat.div_eq_of_lt hrest, Nat.add_zero]
  refine ⟨?_, ?_⟩
  · rw [blocks, hcount, chunks_flatten h]
  · rw [leftover, hcount, List.drop_left' (flatten_length h)]

theorem blocks_flatten (hn : 0 < n) {bs : List (List α)} (h : ∀ b ∈ bs, b.length = n) :
    blocks n bs.flatten = bs := by
  have hempty : ([] : List α).length < n := hn
  have hsplit := (blocks_of_split h hempty).1
  rwa [List.append_nil] at hsplit

theorem flatten_blocks {l : List α} (h : l.length % n = 0) : (blocks n l).flatten = l := by
  have hsplit := blocks_split (n := n) l
  rwa [List.length_eq_zero_iff.mp ((leftover_length l).trans h), List.append_nil] at hsplit

/-! ## Buffered absorption -/

/-- One more entry for a state and its buffer: `step` absorbs the buffer once it holds `n` entries. -/
def feed (n : Nat) (step : σ → List α → σ) (p : σ × List α) (a : α) : σ × List α :=
  if (p.2 ++ [a]).length = n then (step p.1 (p.2 ++ [a]), []) else (p.1, p.2 ++ [a])

/-- **What was fed.** The whole blocks are absorbed in order, the rest waits. -/
theorem foldl_feed (hn : 0 < n) (step : σ → List α → σ) (start : σ) (l : List α) :
    l.foldl (feed n step) (start, []) = ((blocks n l).foldl step start, leftover n l) := by
  induction l using List.reverseRecOn with
  | nil =>
    have hnone : blocks n ([] : List α) = [] := by
      rw [blocks, List.length_nil, Nat.zero_div]
      rfl
    rw [hnone, leftover, List.drop_nil]
    rfl
  | append_singleton l a ih =>
    have hfull := blocks_full (n := n) l
    have hshort : (leftover n l).length < n := by
      rw [leftover_length]
      exact Nat.mod_lt _ hn
    have hl : l ++ [a] = (blocks n l).flatten ++ (leftover n l ++ [a]) := by
      rw [← List.append_assoc, blocks_split]
    rw [List.foldl_append, ih, List.foldl_cons, List.foldl_nil, feed]
    by_cases h : (leftover n l ++ [a]).length = n
    · -- the entry fills the block
      have hbs : ∀ b ∈ blocks n l ++ [leftover n l ++ [a]], b.length = n := by
        intro b hb
        rcases List.mem_append.mp hb with hb | hb
        · exact hfull b hb
        · rw [List.mem_singleton.mp hb]
          exact h
      have hempty : ([] : List α).length < n := hn
      obtain ⟨hblocks, hleft⟩ := blocks_of_split hbs hempty
      rw [List.append_nil, List.flatten_append, List.flatten_cons, List.flatten_nil, List.append_nil,
        ← hl] at hblocks hleft
      rw [if_pos h, hblocks, hleft, List.foldl_append]
      rfl
    · have hwait : (leftover n l ++ [a]).length < n := by
        rw [List.length_append, List.length_singleton] at h ⊢
        omega
      obtain ⟨hblocks, hleft⟩ := blocks_of_split hfull hwait
      rw [← hl] at hblocks hleft
      rw [if_neg h, hblocks, hleft]

end KernelCache.Foundation
