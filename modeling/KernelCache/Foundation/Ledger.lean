/-
# KernelCache.Foundation.Ledger — programs that borrow resources from a provider.

A provider hands out resources of several kinds, takes them back, and serves requests about those that
are alive; which calls it grants is up to it, also when a resource is handed back.  The `Ledger` is its
account: what is alive in the hands of the programs, what was handed back and refused, and whether anybody
has named a resource that was not in hand.  `Prog.Spends` is a triple about programs over the ledger: what
the program holds when it begins, and what it holds when it ends.  It speaks of the program's own
resources and carries whatever else is alive along, so it composes (`Spends.bind`), and a program that is
shown to spend all it takes leaves no trace in any ledger.
-/
import KernelCache.Foundation.Prog
import Mathlib.Data.Multiset.AddSub

namespace KernelCache.Foundation

/-- One call of a provider with resources of the kinds `κ`. -/
inductive Deal (κ q : Type) where
  /-- Ask for a resource. -/
  | take (kind : κ) (request : q)
  /-- Hand one back. -/
  | give (r : κ × Nat)
  /-- A request about resources that have to be alive. -/
  | use (on : List (κ × Nat)) (request : q)

structure Ledger (κ : Type) where
  live : Multiset (κ × Nat) := 0
  /-- Handed back, and not taken: alive still, and nobody's. -/
  stuck : Multiset (κ × Nat) := 0
  /-- The number of the next resource. -/
  next : Nat := 0
  /-- Calls made so far. -/
  calls : Nat := 0
  /-- A call has named a resource that was not alive. -/
  misused : Bool := false

variable {κ q α β : Type}

namespace Ledger

/-- One call; `granted` says which of them the provider grants.  A resource is out of hand once it has
been handed back, granted or not. -/
def deal [DecidableEq κ] (granted : Nat → Bool) (d : Deal κ q) (l : Ledger κ) : Ledger κ :=
  match d with
  | .take kind _ =>
    if granted l.calls then
      { l with live := (kind, l.next) ::ₘ l.live, next := l.next + 1, calls := l.calls + 1 }
    else { l with calls := l.calls + 1 }
  | .give r =>
    { l with
      live := l.live.erase r
      stuck := if granted l.calls then l.stuck else r ::ₘ l.stuck
      calls := l.calls + 1
      misused := l.misused || !decide (r ∈ l.live) }
  | .use on _ =>
    { l with
      calls := l.calls + 1
      misused := l.misused || !on.all fun r => decide (r ∈ l.live) }

/-- This is in hand, each resource is there once, and nothing has been misused. -/
structure Holds (l : Ledger κ) (held : Multiset (κ × Nat)) : Prop where
  live : l.live = held
  sound : l.misused = false
  distinct : (l.live + l.stuck).Nodup
  below : ∀ r ∈ l.live + l.stuck, r.2 < l.next

theorem holds_empty : ({} : Ledger κ).Holds 0 :=
  ⟨rfl, rfl, Multiset.nodup_zero, fun _ h => absurd h (Multiset.notMem_zero _)⟩

end Ledger

namespace Prog

/-- Run a program whose sections never block. -/
def finish {L σ : Type} (step : L → σ → σ) : Prog L σ α → σ → α × σ
  | ret a, s => (a, s)
  | act l k, s => (k s).finish step (step l s)

theorem finish_bind {L σ : Type} (step : L → σ → σ) (p : Prog L σ α) (g : α → Prog L σ β) (s : σ) :
    (p.bind g).finish step s = (g (p.finish step s).1).finish step (p.finish step s).2 := by
  induction p generalizing s with
  | ret a => rfl
  | act l k ih => exact ih s (step l s)

variable [DecidableEq κ] {granted : Nat → Bool}

/-- The program holds `held` when it begins; when it ends with `a` it holds what `Q a` says.  Whatever
else is alive stays so, and nothing is misused. -/
def Spends (granted : Nat → Bool) (held : Multiset (κ × Nat)) (p : Prog (Deal κ q) (Ledger κ) α)
    (Q : α → Multiset (κ × Nat) → Prop) : Prop :=
  ∀ (l : Ledger κ) (frame : Multiset (κ × Nat)), l.Holds (held + frame) →
    ∃ kept, Q (p.finish (Ledger.deal granted) l).1 kept ∧
      (p.finish (Ledger.deal granted) l).2.Holds (kept + frame)

namespace Spends

variable {held : Multiset (κ × Nat)} {p : Prog (Deal κ q) (Ledger κ) α}
  {Q : α → Multiset (κ × Nat) → Prop}

theorem ret {a : α} (h : Q a held) : Spends (q := q) granted held (.ret a) Q :=
  fun _ _ hl => ⟨held, h, hl⟩

theorem bind {Q' : β → Multiset (κ × Nat) → Prop} {g : α → Prog (Deal κ q) (Ledger κ) β}
    (hp : Spends granted held p Q) (hg : ∀ a kept, Q a kept → Spends granted kept (g a) Q') :
    Spends granted held (p.bind g) Q' := by
  intro l frame hl
  obtain ⟨kept, hQ, hkept⟩ := hp l frame hl
  rw [finish_bind]
  exact hg _ kept hQ _ frame hkept

/-- A resource that was granted is held from then on. -/
theorem take {kind : κ} {request : q} {read : Ledger κ → α}
    (hgranted : ∀ l : Ledger κ, granted l.calls = true → Q (read l) ((kind, l.next) ::ₘ held))
    (hrefused : ∀ l : Ledger κ, granted l.calls = false → Q (read l) held) :
    Spends granted held (sect (.take kind request) read) Q := by
  intro l frame hl
  simp only [sect, finish, Ledger.deal]
  cases hcall : granted l.calls with
  | true =>
    rw [if_pos rfl]
    refine ⟨_, hgranted l hcall, ?_, hl.sound, ?_, fun r hr => ?_⟩
    · rw [Multiset.cons_add, ← hl.live]
    · rw [Multiset.cons_add]
      exact Multiset.nodup_cons.mpr ⟨fun hold => Nat.lt_irrefl _ (hl.below _ hold), hl.distinct⟩
    · rw [Multiset.cons_add] at hr
      rcases Multiset.mem_cons.mp hr with rfl | hold
      · exact Nat.lt_succ_self _
      · exact Nat.lt_succ_of_lt (hl.below r hold)
  | false => exact ⟨_, hrefused l hcall, hl.live, hl.sound, hl.distinct, hl.below⟩

/-- What is handed back was held, and is out of hand whether or not it is taken. -/
theorem give {r : κ × Nat} {read : Ledger κ → α} (hQ : ∀ l, Q (read l) held) :
    Spends (q := q) granted (r ::ₘ held) (sect (.give r) read) Q := by
  intro l frame hl
  have hlive : l.live = r ::ₘ (held + frame) := by rw [hl.live, Multiset.cons_add]
  have hgone : l.live.erase r = held + frame := by rw [hlive, Multiset.erase_cons_head]
  have hrest : (held + frame) + (if granted l.calls then l.stuck else r ::ₘ l.stuck) ≤
      l.live + l.stuck := by
    rw [hlive, Multiset.cons_add]
    split
    · exact Multiset.le_cons_self _ r
    · rw [Multiset.add_cons]
  refine ⟨held, hQ l, hgone, ?_, ?_, fun r' hr' => ?_⟩
  · show (l.misused || !decide (r ∈ l.live)) = false
    rw [hl.sound, decide_eq_true (hlive ▸ Multiset.mem_cons_self r _)]
    rfl
  · refine Multiset.nodup_of_le ?_ hl.distinct
    show l.live.erase r + _ ≤ _
    rw [hgone]
    exact hrest
  · refine hl.below r' (Multiset.mem_of_le hrest ?_)
    rw [← hgone]
    exact hr'

/-- What a request names is held. -/
theorem use {on : List (κ × Nat)} {request : q} {read : Ledger κ → α} (hon : ∀ r ∈ on, r ∈ held)
    (hQ : ∀ l, Q (read l) held) : Spends granted held (sect (.use on request) read) Q := by
  intro l frame hl
  refine ⟨held, hQ l, hl.live, ?_, hl.distinct, hl.below⟩
  have hall : (on.all fun r => decide (r ∈ l.live)) = true := by
    rw [List.all_eq_true]
    intro r hr
    rw [decide_eq_true_iff, hl.live]
    exact Multiset.mem_add.mpr (.inl (hon r hr))
  show (l.misused || !on.all fun r => decide (r ∈ l.live)) = false
  rw [hl.sound, hall]
  rfl

end Spends

end Prog

end KernelCache.Foundation
