/-
# KernelCache.Foundation.Extension — a machine inside a larger one.

A component is verified by itself, and then used: its users have a state of their own beside it and
steps that do not concern it.  `Extends` says so for machines.  The state of the larger machine has a
`part` that is the state of the smaller one, and a step of the larger either is a step of the smaller
on that part (`base` names it) or leaves the part alone.  Programs of the smaller machine are programs
of the larger (`Prog.lift`), stable assertions stay stable (`Extends.stable`), and what has been
verified of a program by rely and guarantee holds of it there (`Extends.sat`), as does the automaton
it follows (`Extends.phased`).
-/
import KernelCache.Foundation.Protocol

namespace KernelCache.Foundation

variable {L L' σ σ' α β Φ : Type}

/-- The larger machine extends the smaller. -/
structure Extends (step : L → σ → Option σ) (step' : L' → σ' → Option σ') (lab : L → L')
    (base : L' → Option L) (part : σ' → σ) : Prop where
  base_lab : ∀ l, base (lab l) = some l
  taken : ∀ l' l s s', step' l' s = some s' → base l' = some l →
    step l (part s) = some (part s')
  aside : ∀ l' s s', step' l' s = some s' → base l' = none → part s' = part s

/-- A condition on the steps of the smaller machine, for the larger. -/
def OnPart (base : L' → Option L) (part : σ' → σ) (C : L → σ → σ → Prop) (l' : L') (s s' : σ') :
    Prop :=
  ∀ l, base l' = some l → C l (part s) (part s')

/-- An automaton of the smaller machine, for the larger: other sections are allowed and leave the
phase alone. -/
def okOnPart (base : L' → Option L) (part : σ' → σ) (ok : Φ → L → σ → Prop) (ph : Φ) (l' : L')
    (s : σ') : Prop :=
  ∀ l, base l' = some l → ok ph l (part s)

def nextOnPart (base : L' → Option L) (part : σ' → σ) (next : Φ → L → σ → Φ) (ph : Φ) (l' : L')
    (s : σ') : Φ :=
  match base l' with
  | some l => next ph l (part s)
  | none => ph

/-- The program, run on the part. -/
def Prog.lift (lab : L → L') (part : σ' → σ) : Prog L σ α → Prog L' σ' α
  | .ret a => .ret a
  | .act l k => .act (lab l) fun s => (k (part s)).lift lab part

namespace Extends

variable {step : L → σ → Option σ} {step' : L' → σ' → Option σ'} {lab : L → L'}
  {base : L' → Option L} {part : σ' → σ}

/-- A section of a lifted program is one of the program. -/
theorem step_lab (h : Extends step step' lab base part) {l : L} {s s' : σ'}
    (hs : step' (lab l) s = some s') : step l (part s) = some (part s') :=
  h.taken _ l s s' hs (h.base_lab l)

/-- **Stable assertions stay stable.** -/
theorem stable (h : Extends step step' lab base part) {C : L → σ → σ → Prop}
    {C' : L' → σ' → σ' → Prop} (hC : ∀ l s s', C' l s s' → OnPart base part C l s s')
    {P : σ → Prop} (hP : Stable step C P) : Stable step' C' (fun s => P (part s)) := by
  intro l' s s' hPs hs hC'
  show P (part s')
  cases hb : base l' with
  | none =>
    rw [h.aside l' s s' hs hb]
    exact hPs
  | some l => exact hP l _ _ hPs (h.taken l' l s s' hs hb) (hC l' s s' hC' l hb)

/-- **Verified programs stay verified.** -/
theorem sat (h : Extends step step' lab base part) {C G : L → σ → σ → Prop}
    {C' G' : L' → σ' → σ' → Prop} (hC : ∀ l s s', C' l s s' → OnPart base part C l s s')
    (hG : ∀ l s s', G l (part s) (part s') → G' (lab l) s s') {Q : α → σ → Prop} {p : Prog L σ α}
    {P : σ → Prop} (hp : p.Sat step C G Q P) :
    (p.lift lab part).Sat step' C' G' (fun a s => Q a (part s)) (fun s => P (part s)) := by
  induction p generalizing P with
  | ret a => exact fun s hs => hp (part s) hs
  | act l k ih =>
    intro s s' hs hf hC'
    obtain ⟨hGs, I, hI, hIs, hk⟩ := hp (part s) (part s') hs (h.step_lab hf)
      (hC _ s s' hC' l (h.base_lab l))
    exact ⟨hG l s s' hGs, fun s => I (part s), h.stable hC hI, hIs, ih (part s) hk⟩

/-- **Parties stay parties.** -/
theorem phased (h : Extends step step' lab base part) {C : L → σ → σ → Prop}
    {C' : L' → σ' → σ' → Prop} (hC : ∀ l s s', C' l s s' → OnPart base part C l s s')
    {ok : Φ → L → σ → Prop} {next : Φ → L → σ → Φ} {Q : α → Φ → σ → Prop} {p : Prog L σ α}
    {P : σ → Prop} {ph : Φ} (hp : p.Phased step C ok next Q P ph) :
    (p.lift lab part).Phased step' C' (okOnPart base part ok) (nextOnPart base part next)
      (fun a ph' s => Q a ph' (part s)) (fun s => P (part s)) ph := by
  induction p generalizing P ph with
  | ret a => exact fun s hs => hp (part s) hs
  | act l k ih =>
    intro s s' hs hf hC'
    obtain ⟨hok, I, hI, hIs, hk⟩ := hp (part s) (part s') hs (h.step_lab hf)
      (hC _ s s' hC' l (h.base_lab l))
    have hnext : nextOnPart base part next ph (lab l) s = next ph l (part s) := by
      simp only [nextOnPart, h.base_lab]
    refine ⟨fun l₀ hl₀ => ?_, fun s => I (part s), h.stable hC hI, hIs, hnext ▸ ih (part s) hk⟩
    obtain rfl := Option.some.inj ((h.base_lab l).symm.trans hl₀)
    exact hok

end Extends

end KernelCache.Foundation
