/-
# KernelCache.Foundation.Protocol — programs as parties of a protocol.

Rely and guarantee (`Prog.Sat`) says what a thread knows about the shared state.  For a protocol
between threads that is not enough: what one party may do depends on where the OTHERS are.  Here each
thread carries a PHASE, a ghost of its own history: `next` moves it at every section the thread
takes, `ok` says which sections are allowed in which phase.  `Prog.Phased` verifies one program
against this automaton, with assertions about the shared state as in `Sat`.

The phases of all threads and the shared state together are then an abstract machine, and an
invariant `J` of it, kept by every allowed section, holds along every interleaved run of verified
programs (`Runs.protocol`).  `J` may speak about the trace, so it can also say which sections brought
a thread to its phase.  A debt that every phase carries counts with the same rule: what every program
has paid back by its end, all of them together have paid back (`Runs.balanced`).
-/
import KernelCache.Foundation.Prog
import Mathlib.Algebra.BigOperators.Fin
import Mathlib.Tactic.Linarith

namespace KernelCache.Foundation

variable {L σ α β Φ : Type}

namespace Prog

variable {step : L → σ → Option σ} {C : L → σ → σ → Prop} {ok : Φ → L → σ → Prop}
  {next : Φ → L → σ → Φ}

/-- `p` follows the automaton from the phase `ph` on, in every run whose sections meet `C`, when the
assertion `P` holds now; it ends with `Q`. -/
def Phased (step : L → σ → Option σ) (C : L → σ → σ → Prop) (ok : Φ → L → σ → Prop)
    (next : Φ → L → σ → Φ) (Q : α → Φ → σ → Prop) : Prog L σ α → (σ → Prop) → Φ → Prop
  | ret a, P, ph => ∀ s, P s → Q a ph s
  | act l k, P, ph => ∀ s s', P s → step l s = some s' → C l s s' →
      ok ph l s ∧ ∃ P', Stable step C P' ∧ P' s' ∧ Phased step C ok next Q (k s) P' (next ph l s)

theorem Phased.weaken {Q Q' : α → Φ → σ → Prop} {p : Prog L σ α} {P P' : σ → Prop} {ph : Φ}
    (h : p.Phased step C ok next Q P ph) (hP : ∀ s, P' s → P s)
    (hQ : ∀ a ph s, Q a ph s → Q' a ph s) : p.Phased step C ok next Q' P' ph := by
  induction p generalizing P P' ph with
  | ret a => exact fun s hs => hQ a ph s (h s (hP s hs))
  | act l k ih =>
    intro s s' hs hf hC
    obtain ⟨hok, I, hI, hIs, hk⟩ := h s s' (hP s hs) hf hC
    exact ⟨hok, I, hI, hIs, ih s hk fun _ hs => hs⟩

theorem Phased.bind {Q : α → Φ → σ → Prop} {Q' : β → Φ → σ → Prop} {p : Prog L σ α}
    {g : α → Prog L σ β} {P : σ → Prop} {ph : Φ} (hp : p.Phased step C ok next Q P ph)
    (hg : ∀ a ph', (g a).Phased step C ok next Q' (Q a ph') ph') :
    (p.bind g).Phased step C ok next Q' P ph := by
  induction p generalizing P ph with
  | ret a => exact (hg a ph).weaken hp fun _ _ _ h => h
  | act l k ih =>
    intro s s' hs hf hC
    obtain ⟨hok, I, hI, hIs, hk⟩ := hp s s' hs hf hC
    exact ⟨hok, I, hI, hIs, ih s hk⟩

/-- One section, when nothing about the shared state is remembered. -/
theorem Phased.sect {Q : α → Φ → Prop} {l : L} {read : σ → α} {ph : Φ}
    (h : ∀ s s', step l s = some s' → C l s s' → ok ph l s ∧ Q (read s) (next ph l s)) :
    (Prog.sect l read).Phased step C ok next (fun a ph' _ => Q a ph') (fun _ => True) ph := by
  intro s s' _ hf hC
  obtain ⟨hok, hq⟩ := h s s' hf hC
  exact ⟨hok, fun _ => True, Stable.const _ _ True, trivial, fun _ _ => hq⟩

theorem Phased.ret {Q : α → Φ → σ → Prop} {a : α} {P : σ → Prop} {ph : Φ}
    (h : ∀ s, P s → Q a ph s) : (Prog.ret a : Prog L σ α).Phased step C ok next Q P ph := h

/-- A precondition that does not mention the state is an assumption. -/
theorem Phased.assume {F : Prop} {Q : α → Φ → σ → Prop} {p : Prog L σ α} {ph : Φ}
    (h : F → p.Phased step C ok next Q (fun _ => True) ph) :
    p.Phased step C ok next Q (fun _ => F) ph := by
  cases p with
  | ret a => exact fun s hF => h hF s trivial
  | act l k => exact fun s s' hF => h hF s s' trivial

/-- The sections that are allowed in every phase of `Z` and do not leave it. -/
def Keeps (ok : Φ → L → σ → Prop) (next : Φ → L → σ → Φ) (Z : Φ → Prop) (l : L) (s : σ) : Prop :=
  ∀ ph, Z ph → ok ph l s ∧ Z (next ph l s)

/-- A program that takes only sections which keep `Z` stays in `Z`. -/
theorem Sat.phased {Z : Φ → Prop} {Q : α → σ → Prop} {p : Prog L σ α} {P : σ → Prop} {ph : Φ}
    (h : p.Sat step C (fun l s _ => Keeps ok next Z l s) Q P) (hph : Z ph) :
    p.Phased step C ok next (fun a ph' s => Q a s ∧ Z ph') P ph := by
  induction p generalizing P ph with
  | ret a => exact fun s hs => ⟨h s hs, hph⟩
  | act l k ih =>
    intro s s' hs hf hC
    obtain ⟨hkeeps, I, hI, hIs, hk⟩ := h s s' hs hf hC
    exact ⟨(hkeeps ph hph).1, I, hI, hIs, ih s hk (hkeeps ph hph).2⟩

/-- A program whose text takes only sections that keep `Z` stays in `Z`. -/
theorem Text.phased {Z : Φ → Prop} {B : L → Prop} {Q : α → Prop} {p : Prog L σ α} {ph : Φ}
    (h : p.Text B Q) (hB : ∀ l s, B l → Keeps ok next Z l s) (hph : Z ph) :
    p.Phased step C ok next (fun a ph' _ => Q a ∧ Z ph') (fun _ => True) ph := by
  induction p generalizing ph with
  | ret a => exact fun _ _ => ⟨h, hph⟩
  | act l k ih =>
    intro s s' _ _ _
    obtain ⟨hok, hnext⟩ := hB l s h.1 ph hph
    exact ⟨hok, fun _ => True, Stable.const _ _ True, trivial, ih s (h.2 s) hnext⟩

end Prog

/-- The phases of all threads after a trace. -/
def phases (next : Φ → L → σ → Φ) (start : Nat → Φ) (tr : List (Event L σ)) : Nat → Φ :=
  tr.foldl (fun P e => Function.update P e.thread (next (P e.thread) e.label e.before)) start

theorem phases_concat (next : Φ → L → σ → Φ) (start : Nat → Φ) (tr : List (Event L σ))
    (e : Event L σ) : phases next start (tr ++ [e]) =
      Function.update (phases next start tr) e.thread
        (next (phases next start tr e.thread) e.label e.before) := by
  simp [phases]

/-- A thread that has taken no section is where it started. -/
theorem phases_of_idle (next : Φ → L → σ → Φ) (start : Nat → Φ) {tr : List (Event L σ)} {i : Nat}
    (h : ∀ e ∈ tr, e.thread ≠ i) : phases next start tr i = start i := by
  induction tr using List.reverseRecOn with
  | nil => rfl
  | append_singleton tr e ih =>
    have hne : i ≠ e.thread := Ne.symm (h e (by simp))
    rw [phases_concat, Function.update_of_ne hne]
    exact ih fun e' he' => h e' (List.mem_append_left _ he')

/-- **The protocol rule.** If every program follows the automaton and every allowed section keeps
`J`, then `J` holds at the end of every run, and every finished thread has ended as it promised. -/
theorem Runs.protocol {step : L → σ → Option σ} {Start : Prog L σ α → Prop}
    {C : L → σ → σ → Prop} (ok : Φ → L → σ → Prop) (next : Φ → L → σ → Φ) (start : Nat → Φ)
    {Q : Nat → α → Φ → σ → Prop} {J : List (Event L σ) → (Nat → Φ) → σ → Prop}
    {p₀ pool : Pool L σ α} {tr : List (Event L σ)}
    (hpool : ∀ (i : Nat) (p : Prog L σ α), p₀.threads[i]? = some p →
      p.Phased step C ok next (Q i) (fun _ => True) (start i))
    (hstart : ∀ i p, Start p → p.Phased step C ok next (Q i) (fun _ => True) (start i))
    (hinit : J [] start p₀.shared)
    (hstep : ∀ tr P i l s s', J tr P s → ok (P i) l s → step l s = some s' → C l s s' →
      J (tr ++ [⟨i, l, s, s'⟩]) (Function.update P i (next (P i) l s)) s')
    (h : Runs step Start p₀ tr pool) (hC : ∀ e ∈ tr, C e.label e.before e.after) :
    J tr (phases next start tr) pool.shared ∧
      ∀ i a, pool.threads[i]? = some (.ret a) → Q i a (phases next start tr i) pool.shared := by
  -- every thread in flight carries a stable assertion under which it follows from its phase on
  suffices hinv : J tr (phases next start tr) pool.shared ∧
      (∀ (i : Nat) (p : Prog L σ α), pool.threads[i]? = some p → ∃ P, Stable step C P ∧ P pool.shared ∧
        p.Phased step C ok next (Q i) P (phases next start tr i)) ∧
      ∀ i, pool.threads.length ≤ i → phases next start tr i = start i by
    refine ⟨hinv.1, fun i a ha => ?_⟩
    obtain ⟨P, -, hP, hphased⟩ := hinv.2.1 i _ ha
    exact hphased _ hP
  induction h with
  | refl =>
    refine ⟨hinit, fun i p hp => ?_, fun _ _ => rfl⟩
    exact ⟨fun _ => True, Stable.const step C True, trivial, hpool i p hp⟩
  | @spawn tr s ts p _ hp ih =>
    obtain ⟨hJ, hthreads, hfresh⟩ := ih hC
    refine ⟨hJ, fun i q hq => ?_, fun i hi => hfresh i ?_⟩
    · by_cases hlt : i < ts.length
      · rw [List.getElem?_append_left hlt] at hq
        exact hthreads i q hq
      · have hi : i = ts.length := by
          have hlen := (List.getElem?_eq_some_iff.mp hq).1
          simp at hlen
          omega
        subst hi
        rw [List.getElem?_concat_length] at hq
        cases hq
        have hnew : phases next start tr ts.length = start ts.length := hfresh ts.length le_rfl
        refine ⟨fun _ => True, Stable.const step C True, trivial, ?_⟩
        rw [hnew]
        exact hstart _ _ hp
    · have hlen : (ts ++ [p]).length ≤ i := hi
      show ts.length ≤ i
      rw [List.length_append] at hlen
      omega
  | @step tr s ts i l k s' _ hi hf ih =>
    obtain ⟨hJ, hthreads, hfresh⟩ := ih fun e he => hC e (List.mem_append_left _ he)
    obtain ⟨P, -, hPs, hphased⟩ := hthreads i _ hi
    have hCstep : C l s s' := hC ⟨i, l, s, s'⟩ (by simp)
    obtain ⟨hok, P', hP', hPs', hk⟩ := hphased s s' hPs hf hCstep
    have hlt : i < ts.length := (List.getElem?_eq_some_iff.mp hi).1
    rw [phases_concat]
    refine ⟨hstep tr _ i l s s' hJ hok hf hCstep, fun j q hq => ?_, fun j hj => ?_⟩
    · by_cases hij : j = i
      · subst hij
        have hq' : (ts.set j (k s))[j]? = some q := hq
        rw [List.getElem?_set_self hlt] at hq'
        cases hq'
        rw [Function.update_self]
        exact ⟨P', hP', hPs', hk⟩
      · have hq' : (ts.set i (k s))[j]? = some q := hq
        rw [List.getElem?_set_ne (Ne.symm hij)] at hq'
        rw [Function.update_of_ne hij]
        obtain ⟨I, hI, hIs, hq''⟩ := hthreads j q hq'
        exact ⟨I, hI, hI l s s' hIs hf hCstep, hq''⟩
    · have hlen : (ts.set i (k s)).length ≤ j := hj
      rw [List.length_set] at hlen
      rw [Function.update_of_ne (by dsimp only; omega)]
      exact hfresh j hlen

/-- The phase a control path leads to. -/
def walked (next : Φ → L → σ → Φ) (ph : Φ) (path : List (L × σ)) : Φ :=
  path.foldl (fun ph a => next ph a.1 a.2) ph

theorem walked_concat (next : Φ → L → σ → Φ) (ph : Φ) (path : List (L × σ)) (a : L × σ) :
    walked next ph (path ++ [a]) = next (walked next ph path) a.1 a.2 := by
  simp [walked]

/-- The phase of a thread is where its own sections have led it. -/
theorem phases_eq_walked (next : Φ → L → σ → Φ) (start : Nat → Φ) (tr : List (Event L σ)) (i : Nat) :
    phases next start tr i = walked next (start i) (pathOf tr i) := by
  induction tr using List.reverseRecOn with
  | nil => rfl
  | append_singleton tr e ih =>
    rw [phases_concat]
    by_cases hi : e.thread = i
    · have hpath : pathOf (tr ++ [e]) i = pathOf tr i ++ [(e.label, e.before)] := by
        simp [pathOf, hi]
      rw [hpath, walked_concat, ← ih, hi, Function.update_self]
    · have hpath : pathOf (tr ++ [e]) i = pathOf tr i := by
        simp [pathOf, hi]
      rw [hpath, ← ih, Function.update_of_ne (Ne.symm hi)]

theorem phases_append (next : Φ → L → σ → Φ) (start : Nat → Φ) (tr tr' : List (Event L σ)) :
    phases next start (tr ++ tr') = phases next (phases next start tr) tr' := by
  simp [phases]

/-- What is put out along a trace, by the phase of the thread that takes the section. -/
def outputs (next : Φ → L → σ → Φ) (out : Φ → L → σ → Option β) (start : Nat → Φ) :
    List (Event L σ) → List β
  | [] => []
  | e :: tr => (out (start e.thread) e.label e.before).toList ++
      outputs next out
        (Function.update start e.thread (next (start e.thread) e.label e.before)) tr

theorem outputs_concat (next : Φ → L → σ → Φ) (out : Φ → L → σ → Option β) (start : Nat → Φ)
    (tr : List (Event L σ)) (e : Event L σ) :
    outputs next out start (tr ++ [e]) = outputs next out start tr ++
      (out (phases next start tr e.thread) e.label e.before).toList := by
  induction tr generalizing start with
  | nil => simp [outputs, phases]
  | cons e' tr ih => simp only [List.cons_append, outputs, ih, phases, List.foldl_cons, List.append_assoc]

/-- What is put out along a trace is put out at one of its sections. -/
theorem outputs_forall {next : Φ → L → σ → Φ} {out : Φ → L → σ → Option β} {start : Nat → Φ}
    {tr : List (Event L σ)} {P : β → Prop} : (∀ b ∈ outputs next out start tr, P b) ↔
      ∀ tr₁ e, tr₁ ++ [e] <+: tr →
        ∀ b, out (phases next start tr₁ e.thread) e.label e.before = some b → P b := by
  induction tr using List.reverseRecOn with
  | nil => simp [outputs]
  | append_singleton tr e ih =>
    rw [outputs_concat]
    simp only [List.mem_append, Option.mem_toList, or_imp, forall_and, ih]
    constructor
    · rintro ⟨hold, hnew⟩ tr₁ e' hpre
      rcases List.prefix_concat_iff.mp hpre with heq | hpre
      · obtain ⟨rfl, hsame⟩ := List.append_inj' heq rfl
        obtain rfl := List.singleton_inj.mp hsame
        exact hnew
      · exact hold tr₁ e' hpre
    · intro hall
      exact ⟨fun tr₁ e' hpre => hall tr₁ e' (hpre.trans (List.prefix_append _ _)),
        hall tr e (List.prefix_refl _)⟩

/-- Every section of a trace meets `K`, which may look at the phases of all threads. -/
def Throughout (next : Φ → L → σ → Φ) (K : (Nat → Φ) → Event L σ → Prop) (start : Nat → Φ) :
    List (Event L σ) → Prop
  | [] => True
  | e :: tr => K start e ∧ Throughout next K
      (Function.update start e.thread (next (start e.thread) e.label e.before)) tr

instance Throughout.decidable {next : Φ → L → σ → Φ} {K : (Nat → Φ) → Event L σ → Prop}
    [∀ P e, Decidable (K P e)] : (start : Nat → Φ) → (tr : List (Event L σ)) →
      Decidable (Throughout next K start tr)
  | _, [] => inferInstanceAs (Decidable True)
  | start, e :: tr =>
    have : Decidable (Throughout next K
        (Function.update start e.thread (next (start e.thread) e.label e.before)) tr) :=
      Throughout.decidable _ tr
    inferInstanceAs (Decidable (_ ∧ _))

theorem throughout_iff {next : Φ → L → σ → Φ} {K : (Nat → Φ) → Event L σ → Prop} {start : Nat → Φ}
    {tr : List (Event L σ)} : Throughout next K start tr ↔
      ∀ tr₁ e, tr₁ ++ [e] <+: tr → K (phases next start tr₁) e := by
  induction tr generalizing start with
  | nil => simp [Throughout]
  | cons e tr ih =>
    rw [Throughout, ih]
    constructor
    · rintro ⟨hfirst, hrest⟩ tr₁ e' hpre
      cases tr₁ with
      | nil =>
        obtain ⟨rfl, -⟩ := List.cons_prefix_cons.mp hpre
        exact hfirst
      | cons e₁ tr₁ =>
        obtain ⟨rfl, hrest'⟩ := List.cons_prefix_cons.mp hpre
        exact hrest tr₁ e' hrest'
    · intro hall
      refine ⟨hall [] e (List.cons_prefix_cons.mpr ⟨rfl, List.nil_prefix⟩), fun tr₁ e' hpre => ?_⟩
      exact hall (e :: tr₁) e' (List.cons_prefix_cons.mpr ⟨rfl, hpre⟩)

/-- **What is allowed.** In a run of programs that follow the automaton, every section is one its
thread may take where it is. -/
theorem Runs.allowed {step : L → σ → Option σ} {Start : Prog L σ α → Prop}
    {C : L → σ → σ → Prop} {ok : Φ → L → σ → Prop} {next : Φ → L → σ → Φ} {start : Nat → Φ}
    {Q : Nat → α → Φ → σ → Prop} {p₀ pool : Pool L σ α} {tr : List (Event L σ)}
    (hpool : ∀ (i : Nat) (p : Prog L σ α), p₀.threads[i]? = some p →
      p.Phased step C ok next (Q i) (fun _ => True) (start i))
    (hstart : ∀ i p, Start p → p.Phased step C ok next (Q i) (fun _ => True) (start i))
    (h : Runs step Start p₀ tr pool) (hC : ∀ e ∈ tr, C e.label e.before e.after) :
    ∀ tr₁ e, tr₁ ++ [e] <+: tr → ok (phases next start tr₁ e.thread) e.label e.before := by
  have hrule := Runs.protocol ok next start (J := fun tr P _ => P = phases next start tr ∧
    ∀ tr₁ e, tr₁ ++ [e] <+: tr → ok (phases next start tr₁ e.thread) e.label e.before) hpool hstart
    ⟨rfl, fun tr₁ e hpre => by simp at hpre⟩ ?_ h hC
  · exact hrule.1.2
  · rintro tr P i l s s' ⟨rfl, hall⟩ hok - -
    refine ⟨(phases_concat next start tr ⟨i, l, s, s'⟩).symm, fun tr₁ e hpre => ?_⟩
    rcases List.prefix_concat_iff.mp hpre with heq | hold
    · obtain ⟨rfl, hsame⟩ := List.append_inj' heq rfl
      obtain rfl := List.singleton_inj.mp hsame
      exact hok
    · exact hall tr₁ e hold

/-- **Calls.** A program that follows the automaton, taken by one thread in the course of a run, keeps
what it promises when it returns, whatever the other threads do meanwhile. -/
theorem Runs.phased_call {step : L → σ → Option σ} {Start : Prog L σ α → Prop}
    {C : L → σ → σ → Prop} {ok : Φ → L → σ → Prop} {next : Φ → L → σ → Φ} {p₀ pool : Pool L σ α}
    {tr : List (Event L σ)} (h : Runs step Start p₀ tr pool)
    (hC : ∀ e ∈ tr, C e.label e.before e.after) {Q : β → Φ → σ → Prop} {p : Prog L σ β}
    {P : σ → Prop} {ph : Φ} (hp : p.Phased step C ok next Q P ph) (hstable : Stable step C P)
    (hP : P p₀.shared) {i : Nat} {b : β} (hpath : p.Leads (pathOf tr i) (.ret b)) :
    Q b (walked next ph (pathOf tr i)) pool.shared := by
  -- what is left of the program is verified under an assertion that holds now
  suffices hrest : ∀ q, p.Leads (pathOf tr i) q → ∃ I, Stable step C I ∧ I pool.shared ∧
      q.Phased step C ok next Q I (walked next ph (pathOf tr i)) by
    obtain ⟨I, -, hI, hret⟩ := hrest _ hpath
    exact hret _ hI
  clear hpath
  induction h with
  | refl =>
    intro q hq
    cases hq
    exact ⟨P, hstable, hP, hp⟩
  | spawn _ _ ih => exact ih hC
  | @step tr s ts j l k s' hrun hj hf ih =>
    have hstep : C l s s' := hC ⟨j, l, s, s'⟩ (by simp)
    have hbefore := ih fun e he => hC e (List.mem_append_left _ he)
    intro q hq
    by_cases hi : j = i
    · have happ : pathOf (tr ++ [⟨j, l, s, s'⟩]) i = pathOf tr i ++ [(l, s)] := by
        simp [pathOf, hi]
      rw [happ] at hq ⊢
      obtain ⟨k', hk, rfl⟩ := hq.of_concat
      obtain ⟨I, -, hI, hphased⟩ := hbefore _ hk
      obtain ⟨-, I', hI', hIs', hnext⟩ := hphased s s' hI hf hstep
      rw [walked_concat]
      exact ⟨I', hI', hIs', hnext⟩
    · have happ : pathOf (tr ++ [⟨j, l, s, s'⟩]) i = pathOf tr i := by
        simp [pathOf, hi]
      rw [happ] at hq ⊢
      obtain ⟨I, hI, hIs, hphased⟩ := hbefore q hq
      exact ⟨I, hI, hI l s s' hIs hf hstep, hphased⟩

/-- Verified sections make a verified call. -/
theorem Runs.sat_call {step : L → σ → Option σ} {Start : Prog L σ α → Prop}
    {C G : L → σ → σ → Prop} {p₀ pool : Pool L σ α} {tr : List (Event L σ)}
    (h : Runs step Start p₀ tr pool) (hC : ∀ e ∈ tr, C e.label e.before e.after)
    {Q : β → σ → Prop} {p : Prog L σ β} {P : σ → Prop} (hp : p.Sat step C G Q P)
    (hstable : Stable step C P) (hP : P p₀.shared) {i : Nat} {b : β}
    (hpath : p.Leads (pathOf tr i) (.ret b)) : Q b pool.shared := by
  have hkeeps : p.Sat step C (fun l s _ => Prog.Keeps (Φ := Unit) (fun _ _ _ => True)
      (fun _ _ _ => ()) (fun _ => True) l s) Q P :=
    hp.mono fun _ _ _ _ _ _ => ⟨trivial, trivial⟩
  have hphased : p.Phased step C (fun _ _ _ => True) (fun _ _ _ => ()) (fun b _ s => Q b s ∧ True) P
      () := hkeeps.phased trivial
  exact (h.phased_call hC hphased hstable hP hpath).1

/-! ## Counting threads -/

/-- A set with one element told apart. -/
theorem card_eq_erase (S : Finset Nat) (a : Nat) :
    S.card = (S.erase a).card + if a ∈ S then 1 else 0 := by
  by_cases ha : a ∈ S
  · rw [if_pos ha, Finset.card_erase_add_one ha]
  · rw [if_neg ha, Finset.erase_eq_of_notMem ha, Nat.add_zero]

/-- A thread that is where no thread starts has taken a section. -/
theorem mem_threads_of_phase {next : Φ → L → σ → Φ} {start : Nat → Φ} {B : Φ → Prop}
    (hstart : ∀ i, ¬ B (start i)) {tr : List (Event L σ)} {i : Nat}
    (h : B (phases next start tr i)) : i ∈ (tr.map Event.thread).toFinset := by
  by_contra hout
  rw [phases_of_idle] at h
  · exact hstart i h
  · intro e he heq
    exact hout (List.mem_toFinset.mpr (List.mem_map.mpr ⟨e, he, heq⟩))

section Census

variable {next : Φ → L → σ → Φ} {start : Nat → Φ} (B : Φ → Prop) [DecidablePred B]

/-- How many threads are in a phase with `B`. -/
def census (next : Φ → L → σ → Φ) (start : Nat → Φ) (tr : List (Event L σ)) : Nat :=
  ((tr.map Event.thread).toFinset.filter fun i => B (phases next start tr i)).card

/-- **Counting threads, one section.** Only the thread that takes the section moves. -/
theorem census_concat (next : Φ → L → σ → Φ) (hstart : ∀ i, ¬ B (start i)) (tr : List (Event L σ)) (e : Event L σ) :
    census B next start (tr ++ [e]) + (if B (phases next start tr e.thread) then 1 else 0) =
      census B next start tr +
        if B (next (phases next start tr e.thread) e.label e.before) then 1 else 0 := by
  unfold census
  generalize hS : ((tr.map Event.thread).toFinset.filter fun i => B (phases next start tr i)) = S
  generalize hS' : (((tr ++ [e]).map Event.thread).toFinset.filter
    fun i => B (phases next start (tr ++ [e]) i)) = S'
  have hphases := phases_concat next start tr e
  -- everybody else stays
  have hothers : S'.erase e.thread = S.erase e.thread := by
    subst hS hS'
    ext i
    simp only [Finset.mem_erase, Finset.mem_filter, List.mem_toFinset, List.map_append,
      List.mem_append, List.map_cons, List.map_nil, List.mem_singleton]
    refine and_congr_right fun hi => ?_
    rw [hphases, Function.update_of_ne hi, or_iff_left hi]
  have hold : e.thread ∈ S ↔ B (phases next start tr e.thread) := by
    subst hS
    exact ⟨fun h => (Finset.mem_filter.mp h).2, fun h =>
      Finset.mem_filter.mpr ⟨mem_threads_of_phase hstart h, h⟩⟩
  have hnew : e.thread ∈ S' ↔ B (next (phases next start tr e.thread) e.label e.before) := by
    subst hS'
    rw [Finset.mem_filter, hphases, Function.update_self]
    exact and_iff_right (by simp)
  rw [card_eq_erase S e.thread, card_eq_erase S' e.thread, hothers]
  simp only [hold, hnew]
  omega

/-- A thread with `B` is counted. -/
theorem census_pos (hstart : ∀ i, ¬ B (start i)) {tr : List (Event L σ)} {i : Nat}
    (h : B (phases next start tr i)) : 1 ≤ census B next start tr :=
  Finset.card_pos.mpr ⟨i, Finset.mem_filter.mpr ⟨mem_threads_of_phase hstart h, h⟩⟩

/-- No thread has `B` when every thread has ended without it. -/
theorem census_eq_zero {tr : List (Event L σ)} (h : ∀ e ∈ tr, ¬ B (phases next start tr e.thread)) :
    census B next start tr = 0 := by
  unfold census
  rw [Finset.card_eq_zero, Finset.filter_eq_empty_iff]
  intro i hi
  obtain ⟨e, he, rfl⟩ := List.mem_map.mp (List.mem_toFinset.mp hi)
  exact h e he

end Census

/-! ## Counting sections -/

/-- The total weight of a trace. -/
def traceWeight (w : L → σ → Int) (tr : List (Event L σ)) : Int :=
  (tr.map fun e => w e.label e.before).sum

/-- **The counting rule.** When every section moves the debt of its thread by its weight, nobody
starts in debt and nobody ends in debt, the trace of a run in which every thread has finished weighs
nothing. -/
theorem Runs.balanced {step : L → σ → Option σ} {Start : Prog L σ α → Prop}
    {C : L → σ → σ → Prop} {ok : Φ → L → σ → Prop} {next : Φ → L → σ → Φ}
    {Q : Nat → α → Φ → σ → Prop} {start : Nat → Φ} (debt : Φ → Int) (w : L → σ → Int)
    {p₀ pool : Pool L σ α} {tr : List (Event L σ)}
    (hpool : ∀ (i : Nat) (p : Prog L σ α), p₀.threads[i]? = some p →
      p.Phased step C ok next (Q i) (fun _ => True) (start i))
    (hstart : ∀ i p, Start p → p.Phased step C ok next (Q i) (fun _ => True) (start i))
    (hzero : ∀ i, debt (start i) = 0)
    (hmove : ∀ ph l s s', ok ph l s → step l s = some s' → C l s s' →
      debt (next ph l s) = debt ph + w l s)
    (hend : ∀ i a ph s, Q i a ph s → debt ph = 0)
    (h : Runs step Start p₀ tr pool) (hC : ∀ e ∈ tr, C e.label e.before e.after)
    (hdone : ∀ p ∈ pool.threads, ∃ a, p = Prog.ret a) : traceWeight w tr = 0 := by
  -- the trace weighs what the threads owe
  have hrule := Runs.protocol ok next start (J := fun tr P _ => ∀ N, (∀ e ∈ tr, e.thread < N) →
    traceWeight w tr = ∑ i ∈ Finset.range N, debt (P i)) hpool hstart ?_ ?_ h hC
  · rw [hrule.1 pool.threads.length h.thread_lt]
    refine Finset.sum_eq_zero fun i hi => ?_
    have hget := List.getElem?_eq_getElem (Finset.mem_range.mp hi)
    obtain ⟨a, ha⟩ := hdone _ (List.mem_of_getElem? hget)
    rw [ha] at hget
    exact hend i a _ _ (hrule.2 i a hget)
  · intro N _
    simp [traceWeight, hzero]
  · intro tr P i l s s' hJ hok hf hCstep N hN
    have hlt : i ∈ Finset.range N := Finset.mem_range.mpr (hN ⟨i, l, s, s'⟩ (by simp))
    have hprev := hJ N fun e he => hN e (List.mem_append_left _ he)
    have hdebt : (fun j => debt (Function.update P i (next (P i) l s) j)) =
        Function.update (fun j => debt (P j)) i (debt (next (P i) l s)) := by
      funext j
      by_cases hij : j = i
      · subst hij
        simp
      · simp [hij]
    have hupd := Finset.sum_update_of_mem hlt (fun j => debt (P j)) (debt (next (P i) l s))
    have hsplit := Finset.add_sum_erase _ (fun j => debt (P j)) hlt
    rw [Finset.sdiff_singleton_eq_erase] at hupd
    simp only [traceWeight, List.map_append, List.map_cons, List.map_nil, List.sum_append,
      List.sum_cons, List.sum_nil, add_zero] at hprev ⊢
    rw [hdebt, hupd, hmove (P i) l s s' hok hf hCstep]
    linarith

end KernelCache.Foundation
