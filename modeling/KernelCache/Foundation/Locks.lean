/-
# KernelCache.Foundation.Locks — calls that take mutexes in a ranked order.

A call is seen here as the SCRIPT of what it does to mutexes: acquire one, shared or exclusively,
release one.  A script is `Disciplined` when every mutex it acquires ranks strictly above all those it
holds, which also forbids to acquire a held one, and when it ends with nothing held.

`LockRuns` interleaves any number of such calls action by action, with calls added at any time; an
acquisition waits as long as somebody holds the mutex in a conflicting way, the same call included.
In no state of such a run does a set of disciplined calls wait for itself (`LockRuns.no_deadlock`):
the call that wants the highest rank waits for nobody in the set.  So as long as a call is not
finished, some call can go on (`LockRuns.progress`).
-/
import Mathlib.Data.Finset.Max
import Mathlib.Data.List.Basic

namespace KernelCache.Foundation

variable {M : Type} [DecidableEq M]

inductive LockMode where
  | shared
  | exclusive
  deriving DecidableEq

/-- One action on a mutex. -/
inductive LockAct (M : Type) where
  | acquire (m : M) (mode : LockMode)
  | release (m : M)

/-- Forget one hold of a mutex. -/
def dropHold (m : M) (held : List (M × LockMode)) : List (M × LockMode) :=
  held.eraseP fun h => h.1 = m

/-- The script acquires upwards, releases what it holds, and ends with nothing. -/
def Disciplined (rank : M → Nat) : List (M × LockMode) → List (LockAct M) → Prop
  | held, [] => held = []
  | held, .acquire m mode :: rest =>
    (∀ h ∈ held, rank h.1 < rank m) ∧ Disciplined rank ((m, mode) :: held) rest
  | held, .release m :: rest => (∃ h ∈ held, h.1 = m) ∧ Disciplined rank (dropHold m held) rest

/-- Do `body` with the mutex held. -/
def guarded (m : M) (mode : LockMode) (body : List (LockAct M)) : List (LockAct M) :=
  .acquire m mode :: body ++ [.release m]

namespace Disciplined

variable {rank : M → Nat}

/-- After a disciplined script, nothing is held. -/
theorem append_iff {held : List (M × LockMode)} {a b : List (LockAct M)}
    (ha : Disciplined rank held a) :
    Disciplined rank held (a ++ b) ↔ Disciplined rank [] b := by
  induction a generalizing held with
  | nil =>
    have hheld : held = [] := ha
    rw [hheld, List.nil_append]
  | cons act a ih =>
    cases act with
    | acquire m mode =>
      rw [List.cons_append]
      exact ⟨fun h => (ih ha.2).mp h.2, fun h => ⟨ha.1, (ih ha.2).mpr h⟩⟩
    | release m =>
      rw [List.cons_append]
      exact ⟨fun h => (ih ha.2).mp h.2, fun h => ⟨ha.1, (ih ha.2).mpr h⟩⟩

theorem append {a b : List (LockAct M)} (ha : Disciplined rank [] a) (hb : Disciplined rank [] b) :
    Disciplined rank [] (a ++ b) := ha.append_iff.mpr hb

/-- A disciplined script that acquires above `m` only can be run with `m` held. -/
theorem held_below {m : M} {mode : LockMode} {held : List (M × LockMode)}
    {body : List (LockAct M)} (h : Disciplined rank held body)
    (habove : ∀ x mode', .acquire x mode' ∈ body → rank m < rank x) :
    Disciplined rank (held ++ [(m, mode)]) (body ++ [.release m]) := by
  induction body generalizing held with
  | nil =>
    have hheld : held = [] := h
    subst hheld
    exact ⟨⟨(m, mode), List.mem_singleton_self _, rfl⟩, by simp [dropHold, Disciplined]⟩
  | cons act body ih =>
    have hrest : ∀ x mode', .acquire x mode' ∈ body → rank m < rank x :=
      fun x mode' hx => habove x mode' (List.mem_cons_of_mem _ hx)
    cases act with
    | acquire x mode' =>
      refine ⟨fun y hy => ?_, ih h.2 hrest⟩
      rcases List.mem_append.mp hy with hy | hy
      · exact h.1 y hy
      · rw [List.mem_singleton.mp hy]
        exact habove x mode' List.mem_cons_self
    | release x =>
      obtain ⟨⟨y, hy, hyx⟩, htail⟩ := h
      refine ⟨⟨y, List.mem_append_left _ hy, hyx⟩, ?_⟩
      have hdrop : dropHold x (held ++ [(m, mode)]) = dropHold x held ++ [(m, mode)] :=
        List.eraseP_append_left (by simpa using hyx) _ hy
      rw [hdrop]
      exact ih htail hrest

theorem guarded {m : M} {mode : LockMode} {body : List (LockAct M)}
    (h : Disciplined rank [] body)
    (habove : ∀ x mode', .acquire x mode' ∈ body → rank m < rank x) :
    Disciplined rank [] (guarded m mode body) :=
  ⟨by simp, h.held_below habove⟩

end Disciplined

/-! ## Interleaved calls -/

/-- A call in flight: what it holds and what it still has to do. -/
structure LockThread (M : Type) where
  held : List (M × LockMode) := []
  rest : List (LockAct M)

/-- The call holds the mutex in a way that excludes the mode. -/
def LockThread.refuses (t : LockThread M) (m : M) (mode : LockMode) : Prop :=
  ∃ mode', (m, mode') ∈ t.held ∧ ¬ (mode = .shared ∧ mode' = .shared)

/-- One action of one call.  An acquisition waits for every hold that excludes it. -/
inductive LockStep : List (LockThread M) → List (LockThread M) → Prop
  | acquire {ts : List (LockThread M)} {i : Nat} {held m mode rest} :
      ts[i]? = some ⟨held, .acquire m mode :: rest⟩ → (∀ t ∈ ts, ¬ t.refuses m mode) →
      LockStep ts (ts.set i ⟨(m, mode) :: held, rest⟩)
  | release {ts : List (LockThread M)} {i : Nat} {held m rest} :
      ts[i]? = some ⟨held, .release m :: rest⟩ → LockStep ts (ts.set i ⟨dropHold m held, rest⟩)

/-- The states that interleaved calls can reach; `Start` says which scripts may be added. -/
inductive LockRuns (Start : List (LockAct M) → Prop) : List (LockThread M) → Prop
  | none : LockRuns Start []
  | call {ts script} : LockRuns Start ts → Start script → LockRuns Start (ts ++ [⟨[], script⟩])
  | step {ts ts'} : LockRuns Start ts → LockStep ts ts' → LockRuns Start ts'

/-- Call `i` wants a mutex that call `j` holds.  The modes do not matter here: a shared mutex may make
a reader wait behind a writer that waits for a reader. -/
def Waits (ts : List (LockThread M)) (i j : Nat) : Prop :=
  ∃ t u m mode rest mode', ts[i]? = some t ∧ t.rest = .acquire m mode :: rest ∧
    ts[j]? = some u ∧ (m, mode') ∈ u.held

/-- A set of calls each of which waits for one of the set. -/
def Deadlocked (ts : List (LockThread M)) (D : Finset Nat) : Prop :=
  D.Nonempty ∧ ∀ i ∈ D, ∃ j ∈ D, Waits ts i j

namespace LockRuns

variable {rank : M → Nat} {Start : List (LockAct M) → Prop} {ts : List (LockThread M)}

/-- What a call still has to do is disciplined from what it holds. -/
theorem disciplined (hstart : ∀ script, Start script → Disciplined rank [] script)
    (h : LockRuns Start ts) : ∀ t ∈ ts, Disciplined rank t.held t.rest := by
  induction h with
  | none => exact fun _ ht => nomatch ht
  | call _ hscript ih =>
    intro t ht
    rcases List.mem_append.mp ht with ht | ht
    · exact ih t ht
    · rw [List.mem_singleton.mp ht]
      exact hstart _ hscript
  | step _ hstep ih =>
    intro t ht
    cases hstep with
    | acquire hi _ =>
      rcases List.mem_or_eq_of_mem_set ht with ht | rfl
      · exact ih t ht
      · exact (ih _ (List.mem_of_getElem? hi)).2
    | release hi =>
      rcases List.mem_or_eq_of_mem_set ht with ht | rfl
      · exact ih t ht
      · exact (ih _ (List.mem_of_getElem? hi)).2

/-- The rank of what a call wants next. -/
def wanted (rank : M → Nat) (ts : List (LockThread M)) (i : Nat) : Nat :=
  match ts[i]? with
  | some ⟨_, .acquire m _ :: _⟩ => rank m
  | _ => 0

omit [DecidableEq M] in
theorem wanted_eq {i : Nat} {t : LockThread M} {m : M} {mode : LockMode} {rest : List (LockAct M)}
    (hi : ts[i]? = some t) (ht : t.rest = .acquire m mode :: rest) : wanted rank ts i = rank m := by
  obtain ⟨held, script⟩ := t
  subst ht
  simp only [wanted, hi]

/-- **No deadlock.** No set of disciplined calls waits for itself. -/
theorem no_deadlock (hstart : ∀ script, Start script → Disciplined rank [] script)
    (h : LockRuns Start ts) (D : Finset Nat) : ¬ Deadlocked ts D := by
  rintro ⟨hne, hwait⟩
  -- the call of the set that wants the highest rank
  obtain ⟨i, hi, hmax⟩ := D.exists_max_image (wanted rank ts) hne
  obtain ⟨j, hj, t, u, m, mode, rest, mode', ht, hrest, hu, hheld⟩ := hwait i hi
  obtain ⟨-, -, u', -, m', mode₁, rest', -, hu', hrest', -, -⟩ := hwait j hj
  obtain rfl := Option.some.inj (hu.symm.trans hu')
  have hdisc := h.disciplined hstart u (List.mem_of_getElem? hu)
  rw [hrest'] at hdisc
  have hlt : rank m < rank m' := hdisc.1 _ hheld
  have hle := hmax j hj
  rw [wanted_eq hu hrest', wanted_eq ht hrest] at hle
  omega

/-- **Progress.** While a disciplined call is not finished, some call can go on. -/
theorem progress (hstart : ∀ script, Start script → Disciplined rank [] script)
    (h : LockRuns Start ts) (hopen : ∃ t ∈ ts, t.rest ≠ []) : ∃ ts', LockStep ts ts' := by
  by_contra hstuck
  -- otherwise all the unfinished calls wait for one another
  let D := (Finset.range ts.length).filter fun i => ∃ t, ts[i]? = some t ∧ t.rest ≠ []
  have hmem : ∀ i t, ts[i]? = some t → t.rest ≠ [] → i ∈ D := by
    intro i t hi ht
    have hlt := (List.getElem?_eq_some_iff.mp hi).1
    exact Finset.mem_filter.mpr ⟨Finset.mem_range.mpr hlt, t, hi, ht⟩
  refine h.no_deadlock hstart D ⟨?_, fun i hi => ?_⟩
  · obtain ⟨t, ht, hne⟩ := hopen
    obtain ⟨i, hi⟩ := List.getElem?_of_mem ht
    exact ⟨i, hmem i t hi hne⟩
  · obtain ⟨-, ⟨held, script⟩, hget, hne⟩ := Finset.mem_filter.mp hi
    match script, hne with
    | .release m :: rest, _ => exact absurd ⟨_, .release hget⟩ hstuck
    | .acquire m mode :: rest, _ =>
      have hrefused : ∃ u ∈ ts, u.refuses m mode := by
        by_contra hfree
        refine hstuck ⟨_, .acquire hget fun u hu hr => ?_⟩
        exact hfree ⟨u, hu, hr⟩
      obtain ⟨u, hu, mode', hheld, -⟩ := hrefused
      obtain ⟨j, hj⟩ := List.getElem?_of_mem hu
      -- who holds something is not finished
      have hopen' : u.rest ≠ [] := by
        intro hdone
        have hdisc := h.disciplined hstart u hu
        rw [hdone] at hdisc
        have hnone : u.held = [] := hdisc
        rw [hnone] at hheld
        cases hheld
      exact ⟨j, hmem j u hj hopen', _, u, m, mode, rest, mode', hget, rfl, hj, hheld⟩

/-- A call that is alone runs through a disciplined part of its script. -/
theorem alone {held : List (M × LockMode)} {a b : List (LockAct M)}
    (h : LockRuns Start [⟨held, a ++ b⟩]) (ha : Disciplined rank held a) :
    LockRuns Start [⟨[], b⟩] := by
  induction a generalizing held with
  | nil =>
    have hheld : held = [] := ha
    subst hheld
    exact h
  | cons act a ih =>
    cases act with
    | acquire m mode =>
      refine ih (h.step (.acquire (i := 0) rfl ?_)) ha.2
      -- what ranks below `m` is not `m`
      rintro t ht ⟨mode', hheld, -⟩
      obtain rfl := List.mem_singleton.mp ht
      exact absurd (ha.1 _ hheld) (Nat.lt_irrefl _)
    | release m => exact ih (h.step (.release (i := 0) rfl)) ha.2

end LockRuns

end KernelCache.Foundation
