/-
# KernelCache.Foundation.Simulation — machines that answer calls, and what they are for.

A machine takes calls one after the other, answers each, and goes on in a new state.  What it is for is
said by another machine over the same calls, with a state in the user's terms.  `Simulates` is one call
of both: from related states, a call that the user may make is answered alike and leaves related states.
So every sequence of such calls is answered alike from beginning to end (`Simulates.answers`).

Which calls the user may make is a condition on the state the USER knows, that of the specification.
-/
import Mathlib.Data.List.Forall2

namespace KernelCache.Foundation

variable {C A B σ τ : Type}

/-- The answers to calls made one after the other. -/
def answers (step : C → σ → A × σ) : List C → σ → List A
  | [], _ => []
  | c :: cs, s => (step c s).1 :: answers step cs (step c s).2

/-- The state behind the calls. -/
def behind (step : C → σ → A × σ) (cs : List C) (s : σ) : σ := cs.foldl (fun s c => (step c s).2) s

/-- Each call may be made where it is made. -/
def Legal (spec : C → τ → B × τ) (may : τ → C → Prop) : List C → τ → Prop
  | [], _ => True
  | c :: cs, t => may t c ∧ Legal spec may cs (spec c t).2

/-- Related states answer a call alike and stay related. -/
structure Simulates (step : C → σ → A × σ) (spec : C → τ → B × τ) (may : τ → C → Prop)
    (R : σ → τ → Prop) (Agree : A → B → Prop) : Prop where
  call : ∀ {c s t}, R s t → may t c →
    Agree (step c s).1 (spec c t).1 ∧ R (step c s).2 (spec c t).2

namespace Simulates

variable {step : C → σ → A × σ} {spec : C → τ → B × τ} {may : τ → C → Prop} {R : σ → τ → Prop}
  {Agree : A → B → Prop}

/-- **Simulation along a run.** -/
theorem answers (h : Simulates step spec may R Agree) {cs : List C} {s : σ} {t : τ} (hst : R s t)
    (hcs : Legal spec may cs t) :
    List.Forall₂ Agree (Foundation.answers step cs s) (Foundation.answers spec cs t) ∧
      R (behind step cs s) (behind spec cs t) := by
  induction cs generalizing s t with
  | nil => exact ⟨.nil, hst⟩
  | cons c cs ih =>
    obtain ⟨hmay, hrest⟩ := hcs
    obtain ⟨hagree, hnext⟩ := h.call hst hmay
    obtain ⟨hanswers, hbehind⟩ := ih hnext hrest
    exact ⟨.cons hagree hanswers, hbehind⟩

end Simulates

/-- Calls that may always be made. -/
theorem Legal.always {spec : C → τ → B × τ} {may : τ → C → Prop} {cs : List C}
    (h : ∀ c ∈ cs, ∀ t, may t c) (t : τ) : Legal spec may cs t := by
  induction cs generalizing t with
  | nil => trivial
  | cons c cs ih =>
    exact ⟨h c List.mem_cons_self t, ih (fun c' hc' => h c' (List.mem_cons_of_mem c hc')) _⟩

end KernelCache.Foundation
