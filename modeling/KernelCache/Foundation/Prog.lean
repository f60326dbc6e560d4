/-
# KernelCache.Foundation.Prog — programs over a shared machine, alone and interleaved.

A machine is a partial step function `step : L → σ → Option σ`: the label `l` names one ATOMIC
SECTION with its arguments, `step l s` is the state after it, `none` when the section is blocked in
`s` (a held lock, an unfulfilled promise).  A `Prog L σ α` is a tree of sections: it takes one, reads
what it needs of the state it found there, and goes on.  Between two sections of one program any
other program may run.  The same program text has two meanings:

* `Prog.run`: the program alone, section after section; `none` when a section blocks;
* `Runs`: a pool of programs whose sections interleave in any order, with programs added at any
  time, recorded as the trace of the sections taken.

Everything a program does to the state goes through `step`, so a fact about single steps is at once
a fact about both meanings (`Sat.run`, `Runs.related`).  What a THREAD knows between its
sections is the business of `Prog.Sat`, a rely/guarantee triple: each section taken from an
assertion meets the guarantee and establishes an assertion that no step of the machine can break.
A step condition `C` restricts which sections may be taken: a run "all of whose steps
meet `C`".
-/
import Mathlib.Data.List.Induction

namespace KernelCache.Foundation

/-- A program: a value, or a section and what follows.  The continuation reads the state BEFORE the
section, so it knows everything the section read. -/
inductive Prog (L σ α : Type) : Type where
  | ret (a : α) : Prog L σ α
  | act (l : L) (k : σ → Prog L σ α) : Prog L σ α

namespace Prog

variable {L σ α β : Type}

def bind : Prog L σ α → (α → Prog L σ β) → Prog L σ β
  | ret a, g => g a
  | act l k, g => act l (fun s => bind (k s) g)

instance : Monad (Prog L σ) where
  pure := ret
  bind := bind

@[simp] theorem pure_eq (a : α) : (pure a : Prog L σ α) = ret a := rfl

@[simp] theorem bind_eq (p : Prog L σ α) (g : α → Prog L σ β) : (p >>= g) = p.bind g := rfl

@[simp] theorem ret_bind (a : α) (g : α → Prog L σ β) : (ret a).bind g = g a := rfl

theorem bind_ret (p : Prog L σ α) : p.bind ret = p := by
  induction p with
  | ret a => rfl
  | act l k ih => simp only [bind, ih]

theorem bind_assoc {γ : Type} (p : Prog L σ α) (g : α → Prog L σ β) (h : β → Prog L σ γ) :
    (p.bind g).bind h = p.bind fun a => (g a).bind h := by
  induction p with
  | ret a => rfl
  | act l k ih => simp only [bind, ih]

/-- Take the section `l` and return what `read` finds in the state before it. -/
def sect (l : L) (read : σ → α) : Prog L σ α := act l (fun s => ret (read s))

/-- Take the section `l`. -/
def perform (l : L) : Prog L σ Unit := sect l (fun _ => ())

/-- The program has come to its end. -/
def ended : Prog L σ α → Bool
  | ret _ => true
  | act _ _ => false

theorem ended_iff {p : Prog L σ α} : p.ended = true ↔ ∃ a, p = ret a := by
  cases p with
  | ret a => exact iff_of_true rfl ⟨a, rfl⟩
  | act l k => exact iff_of_false Bool.false_ne_true fun ⟨_, h⟩ => by cases h

/-! ## The program alone -/

/-- Run the sections of `p` one after the other; `none` when one is blocked. -/
def run (step : L → σ → Option σ) : Prog L σ α → σ → Option (α × σ)
  | ret a, s => some (a, s)
  | act l k, s =>
    match step l s with
    | none => none
    | some s' => (k s).run step s'

variable {step : L → σ → Option σ}

@[simp] theorem run_ret (a : α) (s : σ) : (ret a : Prog L σ α).run step s = some (a, s) := rfl

theorem run_bind (p : Prog L σ α) (g : α → Prog L σ β) (s : σ) :
    (p.bind g).run step s = (p.run step s).bind (fun out => (g out.1).run step out.2) := by
  induction p generalizing s with
  | ret a => rfl
  | act l k ih =>
    simp only [bind, run]
    cases step l s with
    | none => rfl
    | some s' => exact ih s s'

/-- Behind a first part that has finished. -/
theorem run_then {p : Prog L σ α} {s s' : σ} {a : α} (h : p.run step s = some (a, s'))
    (g : α → Prog L σ β) : (p.bind g).run step s = (g a).run step s' := by
  rw [run_bind, h]
  rfl

/-- A finished sequential composition is a finished first part and a finished second part. -/
theorem run_of_bind {p : Prog L σ α} {g : α → Prog L σ β} {s s'' : σ} {b : β} :
    (p.bind g).run step s = some (b, s'') ↔
      ∃ a s', p.run step s = some (a, s') ∧ (g a).run step s' = some (b, s'') := by
  rw [run_bind]
  cases p.run step s with
  | none => simp
  | some out =>
    obtain ⟨a, s'⟩ := out
    simp

theorem run_sect {l : L} {read : σ → α} {s s' : σ} {a : α} :
    (sect l read).run step s = some (a, s') ↔ step l s = some s' ∧ a = read s := by
  simp only [sect, run]
  cases step l s with
  | none => simp
  | some s₁ =>
    simp only [Option.some.injEq, Prod.mk.injEq]
    exact ⟨fun h => ⟨h.2, h.1.symm⟩, fun h => ⟨h.2.symm, h.1⟩⟩

theorem run_perform {l : L} {s s' : σ} {u : Unit} :
    (perform l).run step s = some (u, s') ↔ step l s = some s' := by
  rw [perform, run_sect]
  exact and_iff_left rfl

end Prog

/-! ## Interleaved programs -/

/-- One section taken by one thread. -/
structure Event (L σ : Type) where
  thread : Nat
  label : L
  before : σ
  after : σ

/-- A shared state and the programs in flight over it. -/
structure Pool (L σ α : Type) where
  shared : σ
  threads : List (Prog L σ α)

variable {L σ α β : Type}

/-- Interleaved runs from one pool to another with the sections taken on the way.  `Start` says
which programs may be added. -/
inductive Runs (step : L → σ → Option σ) (Start : Prog L σ α → Prop) (p₀ : Pool L σ α) :
    List (Event L σ) → Pool L σ α → Prop
  | refl : Runs step Start p₀ [] p₀
  | spawn {tr s ts p} : Runs step Start p₀ tr ⟨s, ts⟩ → Start p →
      Runs step Start p₀ tr ⟨s, ts ++ [p]⟩
  | step {tr s ts i l k s'} : Runs step Start p₀ tr ⟨s, ts⟩ → ts[i]? = some (Prog.act l k) →
      step l s = some s' → Runs step Start p₀ (tr ++ [⟨i, l, s, s'⟩]) ⟨s', ts.set i (k s)⟩

/-- Programs that may be added may as well be there from the start. -/
theorem Runs.of_pool {step : L → σ → Option σ} {Start Start' : Prog L σ α → Prop} {s₀ : σ}
    {ts : List (Prog L σ α)} {tr : List (Event L σ)} {pool : Pool L σ α}
    (h : Runs step Start ⟨s₀, ts⟩ tr pool) (hts : ∀ p ∈ ts, Start' p)
    (hstart : ∀ p, Start p → Start' p) : Runs step Start' ⟨s₀, []⟩ tr pool := by
  induction h with
  | refl =>
    induction ts using List.reverseRecOn with
    | nil => exact .refl
    | append_singleton ts p ih =>
      exact (ih fun q hq => hts q (by simp [hq])).spawn (hts p (by simp))
  | spawn _ hp ih => exact ih.spawn (hstart _ hp)
  | step _ hi hf ih => exact ih.step hi hf

/-- What a scheduler can do: add a program, or take the next section of thread `i`. -/
inductive Sched (L σ α : Type) where
  | spawn (p : Prog L σ α)
  | step (i : Nat)

/-- Follow a schedule; `none` when a scheduled section is blocked or the thread is finished. -/
def Pool.follow (step : L → σ → Option σ) (p : Pool L σ α) :
    List (Sched L σ α) → Option (List (Event L σ) × Pool L σ α)
  | [] => some ([], p)
  | .spawn q :: rest => Pool.follow step ⟨p.shared, p.threads ++ [q]⟩ rest
  | .step i :: rest =>
    match p.threads[i]? with
    | some (.act l k) =>
      match step l p.shared with
      | some s' =>
        (Pool.follow step ⟨s', p.threads.set i (k p.shared)⟩ rest).map
          (fun out => (⟨i, l, p.shared, s'⟩ :: out.1, out.2))
      | none => none
    | _ => none

namespace Runs

variable {step : L → σ → Option σ} {Start : Prog L σ α → Prop}

theorem trans {p₀ p₁ p₂ : Pool L σ α} {tr₁ tr₂ : List (Event L σ)}
    (h₁ : Runs step Start p₀ tr₁ p₁) (h₂ : Runs step Start p₁ tr₂ p₂) :
    Runs step Start p₀ (tr₁ ++ tr₂) p₂ := by
  induction h₂ with
  | refl => simpa using h₁
  | spawn _ hp ih => exact ih.spawn hp
  | step _ hi hf ih =>
    rw [← List.append_assoc]
    exact ih.step hi hf

/-- A schedule that can be followed is a run. -/
theorem of_follow {p p' : Pool L σ α} {tr : List (Event L σ)} {sched : List (Sched L σ α)}
    (hstart : ∀ q, Sched.spawn q ∈ sched → Start q) (h : p.follow step sched = some (tr, p')) :
    Runs step Start p tr p' := by
  induction sched generalizing p tr with
  | nil =>
    cases h
    exact .refl
  | cons c rest ih =>
    have hrest : ∀ q, Sched.spawn q ∈ rest → Start q := fun q hq =>
      hstart q (List.mem_cons_of_mem c hq)
    cases c with
    | spawn q =>
      have h₁ : Runs step Start p [] ⟨p.shared, p.threads ++ [q]⟩ :=
        Runs.refl.spawn (hstart q (by simp))
      exact h₁.trans (ih hrest h)
    | step i =>
      simp only [Pool.follow] at h
      split at h
      · rename_i l k hi
        split at h
        · rename_i s' hf
          obtain ⟨⟨tr', p''⟩, hfollow, heq⟩ := Option.map_eq_some_iff.mp h
          cases heq
          have h₁ : Runs step Start p ([] ++ [⟨i, l, p.shared, s'⟩])
              ⟨s', p.threads.set i (k p.shared)⟩ := Runs.refl.step hi hf
          exact h₁.trans (ih hrest hfollow)
        · cases h
      · cases h

/-- Every recorded section is a step of the machine. -/
theorem event_step {p p' : Pool L σ α} {tr : List (Event L σ)} (h : Runs step Start p tr p') :
    ∀ e ∈ tr, step e.label e.before = some e.after := by
  induction h with
  | refl => simp
  | spawn _ _ ih => exact ih
  | step _ _ hf ih =>
    intro e he
    rcases List.mem_append.mp he with hold | hnew
    · exact ih e hold
    · obtain rfl := List.mem_singleton.mp hnew
      exact hf

/-- Threads stay in the pool. -/
theorem length_le {p p' : Pool L σ α} {tr : List (Event L σ)} (h : Runs step Start p tr p') :
    p.threads.length ≤ p'.threads.length := by
  induction h with
  | refl => exact Nat.le_refl _
  | spawn _ _ ih => exact Nat.le_trans ih (by simp)
  | step _ _ _ ih => simpa using ih

/-- The sections are those of the threads in the pool. -/
theorem thread_lt {p p' : Pool L σ α} {tr : List (Event L σ)} (h : Runs step Start p tr p') :
    ∀ e ∈ tr, e.thread < p'.threads.length := by
  induction h with
  | refl => simp
  | spawn _ _ ih =>
    intro e he
    rw [List.length_append]
    exact Nat.lt_add_right _ (ih e he)
  | step _ hi _ ih =>
    intro e he
    rw [List.length_set]
    rcases List.mem_append.mp he with hold | hnew
    · exact ih e hold
    · obtain rfl := List.mem_singleton.mp hnew
      exact (List.getElem?_eq_some_iff.mp hi).1

/-- **Relations along a run.** A reflexive, transitive relation that every section taken respects
relates the first shared state to the last. -/
theorem related {p p' : Pool L σ α} {tr : List (Event L σ)} {R : σ → σ → Prop}
    (hrefl : ∀ s, R s s) (htrans : ∀ s s' s'', R s s' → R s' s'' → R s s'')
    (h : Runs step Start p tr p') (htr : ∀ e ∈ tr, R e.before e.after) : R p.shared p'.shared := by
  induction h with
  | refl => exact hrefl _
  | spawn _ _ ih => exact ih htr
  | step _ _ _ ih =>
    refine htrans _ _ _ (ih fun e he => htr e (List.mem_append_left _ he)) ?_
    exact htr _ (List.mem_append_right _ (List.mem_singleton.mpr rfl))

/-- **Invariants.** What holds first and is kept by every section taken holds before and after every
section, and last. -/
theorem invariant {p p' : Pool L σ α} {tr : List (Event L σ)} {I : σ → Prop} (hinit : I p.shared)
    (h : Runs step Start p tr p') (htr : ∀ e ∈ tr, I e.before → I e.after) :
    (∀ e ∈ tr, I e.before ∧ I e.after) ∧ I p'.shared := by
  induction h with
  | refl => exact ⟨by simp, hinit⟩
  | spawn _ _ ih => exact ih htr
  | step _ _ _ ih =>
    obtain ⟨hev, hI⟩ := ih fun e he => htr e (List.mem_append_left _ he)
    have hlast := htr _ (List.mem_append_right _ (List.mem_singleton.mpr rfl)) hI
    refine ⟨fun e he => ?_, hlast⟩
    rcases List.mem_append.mp he with hold | hnew
    · exact hev e hold
    · obtain rfl := List.mem_singleton.mp hnew
      exact ⟨hI, hlast⟩

/-- **Invariants, exactly.** When a section that finds `I` leaves `I` if and only if it meets `K`, a run
that starts with `I` keeps it throughout if and only if all its sections meet `K`. -/
theorem invariant_iff {p p' : Pool L σ α} {tr : List (Event L σ)} {I : σ → Prop}
    {K : Event L σ → Prop} (hinit : I p.shared) (h : Runs step Start p tr p')
    (hstep : ∀ e ∈ tr, I e.before → (I e.after ↔ K e)) :
    ((∀ e ∈ tr, I e.before ∧ I e.after) ∧ I p'.shared) ↔ ∀ e ∈ tr, K e := by
  constructor
  · intro hall e he
    exact (hstep e he (hall.1 e he).1).mp (hall.1 e he).2
  · intro hok
    exact invariant hinit h fun e he hI => (hstep e he hI).mpr (hok e he)

/-- **Invariants of the history.** `I` speaks about the sections taken so far and the state they have
led to. -/
theorem history {p p' : Pool L σ α} {tr : List (Event L σ)} {I : List (Event L σ) → σ → Prop}
    (hinit : I [] p.shared) (h : Runs step Start p tr p')
    (hstep : ∀ tr₁ e, tr₁ ++ [e] <+: tr → I tr₁ e.before → I (tr₁ ++ [e]) e.after) :
    (∀ tr₁ e, tr₁ ++ [e] <+: tr → I tr₁ e.before ∧ I (tr₁ ++ [e]) e.after) ∧ I tr p'.shared := by
  induction h with
  | refl => exact ⟨fun tr₁ e hpre => by simp at hpre, hinit⟩
  | spawn _ _ ih => exact ih hstep
  | step _ _ _ ih =>
    obtain ⟨hev, hI⟩ := ih fun tr₁ e hpre => hstep tr₁ e (hpre.trans (List.prefix_append _ _))
    have hlast := hstep _ _ (List.prefix_refl _) hI
    refine ⟨fun tr₁ e hpre => ?_, hlast⟩
    rcases List.prefix_concat_iff.mp hpre with heq | hold
    · obtain ⟨rfl, hsame⟩ := List.append_inj' heq rfl
      obtain rfl := List.singleton_inj.mp hsame
      exact ⟨hI, hlast⟩
    · exact hev tr₁ e hold

/-- **Invariants of the history, exactly.** -/
theorem history_iff {p p' : Pool L σ α} {tr : List (Event L σ)}
    {I : List (Event L σ) → σ → Prop} {K : List (Event L σ) → Event L σ → Prop}
    (hinit : I [] p.shared) (h : Runs step Start p tr p')
    (hstep : ∀ tr₁ e, tr₁ ++ [e] <+: tr → I tr₁ e.before → (I (tr₁ ++ [e]) e.after ↔ K tr₁ e)) :
    ((∀ tr₁ e, tr₁ ++ [e] <+: tr → I tr₁ e.before ∧ I (tr₁ ++ [e]) e.after) ∧ I tr p'.shared) ↔
      ∀ tr₁ e, tr₁ ++ [e] <+: tr → K tr₁ e := by
  constructor
  · intro hall tr₁ e hpre
    exact (hstep tr₁ e hpre (hall.1 tr₁ e hpre).1).mp (hall.1 tr₁ e hpre).2
  · intro hok
    exact history hinit h fun tr₁ e hpre hI => (hstep tr₁ e hpre hI).mpr (hok tr₁ e hpre)

/-- A run cut at one of its sections. -/
theorem cut {p p' : Pool L σ α} {tr : List (Event L σ)} (h : Runs step Start p tr p')
    {tr₁ tr₂ : List (Event L σ)} {e : Event L σ} (htr : tr = tr₁ ++ e :: tr₂) :
    (∃ ts, Runs step Start p tr₁ ⟨e.before, ts⟩) ∧
      ∃ ts, Runs step Start p (tr₁ ++ [e]) ⟨e.after, ts⟩ ∧
        Runs step Start ⟨e.after, ts⟩ tr₂ p' := by
  induction h generalizing tr₂ with
  | refl => simp at htr
  | spawn _ hp ih =>
    obtain ⟨hbefore, ts, hupto, hfrom⟩ := ih htr
    exact ⟨hbefore, ts, hupto, hfrom.spawn hp⟩
  | @step tr s ts i l k s' hrun hi hf ih =>
    rcases List.eq_nil_or_concat tr₂ with rfl | ⟨tr₂', e', rfl⟩
    · obtain ⟨rfl, heq⟩ := List.append_inj' htr rfl
      obtain rfl : e = ⟨i, l, s, s'⟩ := by simpa using heq.symm
      exact ⟨⟨ts, hrun⟩, _, hrun.step hi hf, .refl⟩
    · have htr' : tr ++ [⟨i, l, s, s'⟩] = (tr₁ ++ e :: tr₂') ++ [e'] := by
        simpa using htr
      obtain ⟨rfl, heq⟩ := List.append_inj' htr' rfl
      obtain rfl : e' = ⟨i, l, s, s'⟩ := by simpa using heq.symm
      obtain ⟨hbefore, ts', hupto, hfrom⟩ := ih rfl
      refine ⟨hbefore, ts', hupto, ?_⟩
      rw [List.concat_eq_append]
      exact hfrom.step hi hf

/-- A run cut anywhere. -/
theorem split {p p' : Pool L σ α} {tr₁ tr₂ : List (Event L σ)} (h : Runs step Start p (tr₁ ++ tr₂) p') :
    ∃ mid, Runs step Start p tr₁ mid ∧ Runs step Start mid tr₂ p' := by
  rcases List.eq_nil_or_concat tr₁ with rfl | ⟨tr, e, rfl⟩
  · exact ⟨p, .refl, h⟩
  · rw [List.concat_eq_append] at h ⊢
    obtain ⟨-, ts, hupto, hfrom⟩ := h.cut (List.append_assoc tr [e] tr₂)
    exact ⟨_, hupto, hfrom⟩

/-- **Before and after a section.** A reflexive, transitive relation that every section taken respects
relates what was left by each section before a given one to what that one found, and what it left to
what each later one found. -/
theorem ordered {p p' : Pool L σ α} {tr : List (Event L σ)} {R : σ → σ → Prop}
    (hrefl : ∀ s, R s s) (htrans : ∀ s s' s'', R s s' → R s' s'' → R s s'')
    (h : Runs step Start p tr p') (htr : ∀ e ∈ tr, R e.before e.after) {tr₁ tr₂ : List (Event L σ)}
    {e : Event L σ} (hcut : tr = tr₁ ++ e :: tr₂) :
    (∀ e' ∈ tr₁, R e'.after e.before) ∧ ∀ e' ∈ tr₂, R e.after e'.before := by
  subst hcut
  obtain ⟨⟨ts, hupto⟩, ts', -, hfrom⟩ := h.cut rfl
  refine ⟨fun e' he' => ?_, fun e' he' => ?_⟩
  · obtain ⟨tr₃, tr₄, rfl⟩ := List.append_of_mem he'
    obtain ⟨-, _, -, hbetween⟩ := hupto.cut rfl
    exact related hrefl htrans hbetween fun e'' he'' => htr e'' (by simp [he''])
  · obtain ⟨tr₃, tr₄, rfl⟩ := List.append_of_mem he'
    obtain ⟨⟨_, hbetween⟩, -⟩ := hfrom.cut rfl
    exact related hrefl htrans hbetween fun e'' he'' => htr e'' (by simp [he''])

/-- What each section left is related to what every later one found. -/
theorem pairwise {p p' : Pool L σ α} {tr : List (Event L σ)} {R : σ → σ → Prop}
    (hrefl : ∀ s, R s s) (htrans : ∀ s s' s'', R s s' → R s' s'' → R s s'')
    (h : Runs step Start p tr p') (htr : ∀ e ∈ tr, R e.before e.after) :
    tr.Pairwise fun e e' => R e.after e'.before := by
  induction h with
  | refl => exact .nil
  | spawn _ _ ih => exact ih htr
  | @step tr s ts i l k s' hrun hi hf ih =>
    rw [List.pairwise_append]
    refine ⟨ih fun e he => htr e (List.mem_append_left _ he), List.pairwise_singleton _ _, ?_⟩
    intro e he e' he'
    obtain rfl := List.mem_singleton.mp he'
    exact (ordered hrefl htrans (hrun.step hi hf) htr rfl).1 e he

end Runs

/-! ## A program alone among others -/

namespace Prog

variable {step : L → σ → Option σ}

/-- Run `p` alone, as thread `i`, with the sections it takes. -/
def traced (step : L → σ → Option σ) (i : Nat) :
    Prog L σ α → σ → Option (List (Event L σ) × α × σ)
  | ret a, s => some ([], a, s)
  | act l k, s =>
    match step l s with
    | none => none
    | some s' => ((k s).traced step i s').map fun out => (⟨i, l, s, s'⟩ :: out.1, out.2)

/-- The sections aside, it is the run of the program alone. -/
theorem run_eq_traced (i : Nat) (p : Prog L σ α) (s : σ) :
    p.run step s = (p.traced step i s).map Prod.snd := by
  induction p generalizing s with
  | ret a => rfl
  | act l k ih =>
    simp only [run, traced]
    cases step l s with
    | none => rfl
    | some s' =>
      dsimp only
      rw [ih s s', Option.map_map]
      rfl

/-- Go on with `g` after a run with the sections `out.1`. -/
def tracedThen (step : L → σ → Option σ) (i : Nat) (g : α → Prog L σ β)
    (out : List (Event L σ) × α × σ) : Option (List (Event L σ) × β × σ) :=
  ((g out.2.1).traced step i out.2.2).map fun out' => (out.1 ++ out'.1, out'.2)

theorem traced_bind (i : Nat) (p : Prog L σ α) (g : α → Prog L σ β) (s : σ) :
    (p.bind g).traced step i s = (p.traced step i s).bind (tracedThen step i g) := by
  induction p generalizing s with
  | ret a =>
    cases h : (g a).traced step i s with
    | none => simp [bind, traced, tracedThen, h]
    | some out => simp [bind, traced, tracedThen, h]
  | act l k ih =>
    simp only [bind, traced]
    cases step l s with
    | none => rfl
    | some s' =>
      dsimp only
      rw [ih s s']
      cases (k s).traced step i s' with
      | none => rfl
      | some out =>
        simp only [Option.bind_some, Option.map_some, tracedThen]
        cases (g out.2.1).traced step i out.2.2 with
        | none => rfl
        | some out' => rfl

theorem traced_of_bind {i : Nat} {p : Prog L σ α} {g : α → Prog L σ β} {s s'' : σ}
    {tr : List (Event L σ)} {b : β} :
    (p.bind g).traced step i s = some (tr, b, s'') ↔
      ∃ tr₁ a s' tr₂, p.traced step i s = some (tr₁, a, s') ∧
        (g a).traced step i s' = some (tr₂, b, s'') ∧ tr = tr₁ ++ tr₂ := by
  rw [traced_bind, Option.bind_eq_some_iff]
  constructor
  · rintro ⟨⟨tr₁, a, s'⟩, hp, hg⟩
    obtain ⟨⟨tr₂, b', s₂⟩, hrun, heq⟩ := Option.map_eq_some_iff.mp hg
    cases heq
    exact ⟨tr₁, a, s', tr₂, hp, hrun, rfl⟩
  · rintro ⟨tr₁, a, s', tr₂, hp, hg, rfl⟩
    exact ⟨_, hp, Option.map_eq_some_iff.mpr ⟨_, hg, rfl⟩⟩

/-- One section, and what follows it. -/
theorem traced_perform {i : Nat} {l : L} {g : Unit → Prog L σ β} {s s' : σ} (h : step l s = some s') :
    ((perform l).bind g).traced step i s =
      ((g ()).traced step i s').map fun out => (⟨i, l, s, s'⟩ :: out.1, out.2) := by
  simp only [perform, sect, bind, traced, h]

theorem traced_sect {i : Nat} {l : L} {read : σ → α} {s s' : σ} {tr : List (Event L σ)} {a : α} :
    (sect l read).traced step i s = some (tr, a, s') ↔
      step l s = some s' ∧ a = read s ∧ tr = [⟨i, l, s, s'⟩] := by
  simp only [sect, traced]
  cases step l s with
  | none => simp
  | some s₁ =>
    simp only [Option.map_some, Option.some.injEq, Prod.mk.injEq]
    constructor
    · rintro ⟨rfl, rfl, rfl⟩
      exact ⟨rfl, rfl, rfl⟩
    · rintro ⟨rfl, rfl, rfl⟩
      exact ⟨rfl, rfl, rfl⟩

end Prog

/-- A thread whose first part can run alone may do so now. -/
theorem Runs.advance {step : L → σ → Option σ} {Start : Prog L σ α → Prop} {p₀ : Pool L σ α}
    {tr tr' : List (Event L σ)} {s s' : σ} {ts : List (Prog L σ α)} {i : Nat} {p : Prog L σ β}
    {g : β → Prog L σ α} {b : β} (h : Runs step Start p₀ tr ⟨s, ts⟩)
    (hi : ts[i]? = some (p.bind g)) (hrun : p.traced step i s = some (tr', b, s')) :
    Runs step Start p₀ (tr ++ tr') ⟨s', ts.set i (g b)⟩ := by
  induction p generalizing tr tr' s ts with
  | ret b' =>
    cases hrun
    obtain ⟨hlt, hget⟩ := List.getElem?_eq_some_iff.mp hi
    have hset : ts.set i (g b) = ts := by
      show ts.set i ((Prog.ret b).bind g) = ts
      rw [← hget, List.set_getElem_self]
    rw [List.append_nil, hset]
    exact h
  | act l k ih =>
    simp only [Prog.traced] at hrun
    cases hl : step l s with
    | none => simp [hl] at hrun
    | some s₁ =>
      simp only [hl] at hrun
      obtain ⟨⟨tr₁, b', s₂⟩, hk, heq⟩ := Option.map_eq_some_iff.mp hrun
      cases heq
      have hlt : i < ts.length := (List.getElem?_eq_some_iff.mp hi).1
      have hnext := ih s (h.step hi hl) (List.getElem?_set_self hlt) hk
      rw [List.set_set] at hnext
      simpa using hnext

/-- A thread whose program can run alone may do so now. -/
theorem Runs.finish {step : L → σ → Option σ} {Start : Prog L σ α → Prop} {p₀ : Pool L σ α}
    {tr tr' : List (Event L σ)} {s s' : σ} {ts : List (Prog L σ α)} {i : Nat} {p : Prog L σ α}
    {a : α} (h : Runs step Start p₀ tr ⟨s, ts⟩) (hi : ts[i]? = some p)
    (hrun : p.traced step i s = some (tr', a, s')) :
    Runs step Start p₀ (tr ++ tr') ⟨s', ts.set i (.ret a)⟩ :=
  h.advance (by rw [Prog.bind_ret]; exact hi) hrun

/-- A program that can run alone may be added and run now. -/
theorem Runs.complete {step : L → σ → Option σ} {Start : Prog L σ α → Prop} {p₀ : Pool L σ α}
    {tr tr' : List (Event L σ)} {s s' : σ} {ts : List (Prog L σ α)} {p : Prog L σ α} {a : α}
    (h : Runs step Start p₀ tr ⟨s, ts⟩) (hp : Start p)
    (hrun : p.traced step ts.length s = some (tr', a, s')) :
    Runs step Start p₀ (tr ++ tr') ⟨s', ts ++ [.ret a]⟩ := by
  have hdone := (h.spawn hp).finish (i := ts.length) (by simp) hrun
  simpa using hdone

/-! ## Rely and guarantee -/

/-- No step of the machine that meets `C` breaks the assertion `P`. -/
def Stable (step : L → σ → Option σ) (C : L → σ → σ → Prop) (P : σ → Prop) : Prop :=
  ∀ l s s', P s → step l s = some s' → C l s s' → P s'

theorem Stable.and {step : L → σ → Option σ} {C : L → σ → σ → Prop} {P Q : σ → Prop}
    (hP : Stable step C P) (hQ : Stable step C Q) : Stable step C (fun s => P s ∧ Q s) :=
  fun l s s' h hs hC => ⟨hP l s s' h.1 hs hC, hQ l s s' h.2 hs hC⟩

/-- What does not mention the state is stable. -/
theorem Stable.const (step : L → σ → Option σ) (C : L → σ → σ → Prop) (P : Prop) :
    Stable step C (fun _ => P) :=
  fun _ _ _ h _ _ => h

namespace Prog

variable {step : L → σ → Option σ} {C G : L → σ → σ → Prop}

/-- The triple `{P} p {Q}` with every section of `p` in the guarantee `G`, for runs whose sections
meet the step condition `C`.  Assertions kept between sections are stable. -/
def Sat (step : L → σ → Option σ) (C G : L → σ → σ → Prop) (Q : α → σ → Prop) :
    Prog L σ α → (σ → Prop) → Prop
  | ret a, P => ∀ s, P s → Q a s
  | act l k, P => ∀ s s', P s → step l s = some s' → C l s s' →
      G l s s' ∧ ∃ P', Stable step C P' ∧ P' s' ∧ Sat step C G Q (k s) P'

theorem Sat.weaken {Q Q' : α → σ → Prop} {p : Prog L σ α} {P P' : σ → Prop}
    (h : p.Sat step C G Q P) (hP : ∀ s, P' s → P s) (hQ : ∀ a s, Q a s → Q' a s) :
    p.Sat step C G Q' P' := by
  induction p generalizing P P' with
  | ret a => exact fun s hs => hQ a s (h s (hP s hs))
  | act l k ih =>
    intro s s' hs hf hC
    obtain ⟨hG, I, hI, hIs, hk⟩ := h s s' (hP s hs) hf hC
    exact ⟨hG, I, hI, hIs, ih s hk fun _ hs => hs⟩

/-- A guarantee that says less. -/
theorem Sat.mono {G' : L → σ → σ → Prop} {Q : α → σ → Prop} {p : Prog L σ α} {P : σ → Prop}
    (h : p.Sat step C G Q P) (hG : ∀ l s s', G l s s' → G' l s s') : p.Sat step C G' Q P := by
  induction p generalizing P with
  | ret a => exact h
  | act l k ih =>
    intro s s' hs hf hC
    obtain ⟨hl, I, hI, hIs, hk⟩ := h s s' hs hf hC
    exact ⟨hG l s s' hl, I, hI, hIs, ih s hk⟩

/-- Sequential composition through a stable intermediate assertion. -/
theorem Sat.bind {Q : α → σ → Prop} {Q' : β → σ → Prop} {p : Prog L σ α} {g : α → Prog L σ β}
    {P : σ → Prop} (hp : p.Sat step C G Q P) (hg : ∀ a, (g a).Sat step C G Q' (Q a)) :
    (p.bind g).Sat step C G Q' P := by
  induction p generalizing P with
  | ret a => exact (hg a).weaken hp fun _ _ h => h
  | act l k ih =>
    intro s s' hs hf hC
    obtain ⟨hG, I, hI, hIs, hk⟩ := hp s s' hs hf hC
    exact ⟨hG, I, hI, hIs, ih s hk⟩

/-- One section: it meets the guarantee and establishes the (stable) postcondition. -/
theorem Sat.sect {l : L} {read : σ → α} {P : σ → Prop} {Q : α → σ → Prop}
    (hQ : ∀ a, Stable step C (Q a))
    (h : ∀ s s', P s → step l s = some s' → C l s s' → G l s s' ∧ Q (read s) s') :
    (sect l read).Sat step C G Q P := by
  intro s s' hs hf hC
  obtain ⟨hG, hq⟩ := h s s' hs hf hC
  exact ⟨hG, Q (read s), hQ _, hq, fun _ h => h⟩

theorem Sat.ret {a : α} {P : σ → Prop} {Q : α → σ → Prop} (h : ∀ s, P s → Q a s) :
    (ret a : Prog L σ α).Sat step C G Q P := h

/-- A precondition that does not mention the state is an assumption. -/
theorem Sat.assume {F : Prop} {Q : α → σ → Prop} {p : Prog L σ α}
    (h : F → p.Sat step C G Q (fun _ => True)) : p.Sat step C G Q (fun _ => F) := by
  cases p with
  | ret a => exact fun s hF => h hF s trivial
  | act l k => exact fun s s' hF => h hF s s' trivial

/-- The same beside an assertion. -/
theorem Sat.given {F : Prop} {Q : α → σ → Prop} {p : Prog L σ α} {P : σ → Prop}
    (h : F → p.Sat step C G Q P) : p.Sat step C G Q (fun s => F ∧ P s) := by
  cases p with
  | ret a => exact fun s hs => h hs.1 s hs.2
  | act l k => exact fun s s' hs => h hs.1 s s' hs.2

/-- What no step can break is kept beside everything else. -/
theorem Sat.frame {Q : α → σ → Prop} {p : Prog L σ α} {P R : σ → Prop} (hR : Stable step C R)
    (h : p.Sat step C G Q P) :
    p.Sat step C G (fun a s => Q a s ∧ R s) (fun s => P s ∧ R s) := by
  induction p generalizing P with
  | ret a => exact fun s hs => ⟨h s hs.1, hs.2⟩
  | act l k ih =>
    intro s s' hs hf hC
    obtain ⟨hG, I, hI, hIs, hk⟩ := h s s' hs.1 hf hC
    exact ⟨hG, fun s => I s ∧ R s, hI.and hR, ⟨hIs, hR l s s' hs.2 hf hC⟩, ih s hk⟩

/-- Every program keeps what no step can break. -/
theorem Sat.of_stable {p : Prog L σ α} {R : σ → Prop} (hR : Stable step C R) :
    p.Sat step C (fun _ _ _ => True) (fun _ s => R s) R := by
  induction p with
  | ret a => exact fun s hs => hs
  | act l k ih => exact fun s s' hs hf hC => ⟨trivial, R, hR, hR l s s' hs hf hC, ih s⟩

/-- The program is verified whatever is known before it and claims nothing after it. -/
def Free (step : L → σ → Option σ) (C G : L → σ → σ → Prop) (p : Prog L σ α) : Prop :=
  p.Sat step C G (fun _ _ => True) (fun _ => True)

theorem Free.ret (a : α) : (Prog.ret a : Prog L σ α).Free step C G := fun _ _ => trivial

theorem Free.bind {p : Prog L σ α} {g : α → Prog L σ β} (hp : p.Free step C G)
    (hg : ∀ a, (g a).Free step C G) : (p.bind g).Free step C G :=
  Sat.bind hp hg

theorem Free.sect {l : L} {read : σ → α}
    (h : ∀ s s', step l s = some s' → C l s s' → G l s s') : (Prog.sect l read).Free step C G :=
  Sat.sect (fun _ => Stable.const step C True) fun s s' _ hs hC => ⟨h s s' hs hC, trivial⟩

theorem Sat.free {Q : α → σ → Prop} {p : Prog L σ α} (h : p.Sat step C G Q (fun _ => True)) :
    p.Free step C G :=
  h.weaken (fun _ h => h) fun _ _ _ => trivial

/-- A verified program run alone: its postcondition holds at the end, and a reflexive, transitive
relation that every guaranteed step respects relates the first state to the last. -/
theorem Sat.run {R : σ → σ → Prop} (hrefl : ∀ s, R s s)
    (htrans : ∀ s s' s'', R s s' → R s' s'' → R s s'')
    (hstep : ∀ l s s', step l s = some s' → G l s s' → R s s') {Q : α → σ → Prop}
    {p : Prog L σ α} {P : σ → Prop} (hp : p.Sat step (fun _ _ _ => True) G Q P) {s s' : σ} {a : α}
    (hs : P s) (h : p.run step s = some (a, s')) : R s s' ∧ Q a s' := by
  induction p generalizing s P with
  | ret b =>
    cases h
    exact ⟨hrefl _, hp _ hs⟩
  | act l k ih =>
    simp only [Prog.run] at h
    cases hl : step l s with
    | none => simp [hl] at h
    | some s₁ =>
      simp only [hl] at h
      obtain ⟨hG, P', -, hP', hk⟩ := hp s s₁ hs hl trivial
      obtain ⟨hR, hQ⟩ := ih s hk hP' h
      exact ⟨htrans _ _ _ (hstep l s s₁ hl hG) hR, hQ⟩

/-- The sections of a verified program run alone are guaranteed, and what guaranteed steps keep holds
before and after each of them, and at the end. -/
theorem Sat.traced {i : Nat} {Q : α → σ → Prop} {p : Prog L σ α} {P : σ → Prop}
    (hp : p.Sat step (fun _ _ _ => True) G Q P) {I : σ → Prop}
    (hI : ∀ l s s', step l s = some s' → G l s s' → I s → I s') {s s' : σ}
    {tr : List (Event L σ)} {a : α} (hP : P s) (hs : I s)
    (h : p.traced step i s = some (tr, a, s')) :
    (∀ e ∈ tr, G e.label e.before e.after ∧ I e.before ∧ I e.after) ∧ I s' := by
  induction p generalizing s tr P with
  | ret b =>
    cases h
    exact ⟨by simp, hs⟩
  | act l k ih =>
    simp only [Prog.traced] at h
    cases hl : step l s with
    | none => simp [hl] at h
    | some s₁ =>
      simp only [hl] at h
      obtain ⟨⟨tr₁, b, s₂⟩, hrest, heq⟩ := Option.map_eq_some_iff.mp h
      cases heq
      obtain ⟨hG, P', -, hP', hk⟩ := hp s s₁ hP hl trivial
      have hI₁ := hI l s s₁ hl hG hs
      obtain ⟨hevents, hlast⟩ := ih s hk hP' hI₁ hrest
      refine ⟨fun e he => ?_, hlast⟩
      rcases List.mem_cons.mp he with rfl | he
      · exact ⟨hG, hs, hI₁⟩
      · exact hevents e he

end Prog

/-- **The rely/guarantee rule.** If every program that may be added is verified, then every section
of every run whose sections meet `C` is a guaranteed one. -/
theorem Runs.guarantee {step : L → σ → Option σ} {Start : Prog L σ α → Prop}
    {C G : L → σ → σ → Prop} (hstart : ∀ p, Start p → p.Free step C G)
    {s₀ : σ} {tr : List (Event L σ)} {pool : Pool L σ α} (h : Runs step Start ⟨s₀, []⟩ tr pool)
    (hC : ∀ e ∈ tr, C e.label e.before e.after) :
    ∀ e ∈ tr, G e.label e.before e.after := by
  -- Every thread in flight carries a stable assertion that holds now and verifies what is left.
  suffices hinv : (∀ e ∈ tr, G e.label e.before e.after) ∧ ∀ p ∈ pool.threads, ∃ P,
      Stable step C P ∧ P pool.shared ∧ p.Sat step C G (fun _ _ => True) P from hinv.1
  induction h with
  | refl => simp
  | spawn _ hp ih =>
    obtain ⟨hG, hthreads⟩ := ih hC
    refine ⟨hG, fun p hmem => ?_⟩
    rcases List.mem_append.mp hmem with hold | hnew
    · exact hthreads p hold
    · obtain rfl := List.mem_singleton.mp hnew
      exact ⟨fun _ => True, Stable.const step C True, trivial, hstart _ hp⟩
  | @step tr s ts i l k s' _ hi hf ih =>
    obtain ⟨hG, hthreads⟩ := ih fun e he => hC e (List.mem_append_left _ he)
    obtain ⟨P, -, hPs, hsat⟩ := hthreads _ (List.mem_of_getElem? hi)
    have hCstep : C l s s' := hC ⟨i, l, s, s'⟩ (by simp)
    obtain ⟨hGstep, P', hP', hPs', hk⟩ := hsat s s' hPs hf hCstep
    refine ⟨?_, fun p hmem => ?_⟩
    · intro e he
      rcases List.mem_append.mp he with hold | hnew
      · exact hG e hold
      · obtain rfl := List.mem_singleton.mp hnew
        exact hGstep
    · rcases List.mem_or_eq_of_mem_set hmem with hold | rfl
      · obtain ⟨I, hI, hIs, hp⟩ := hthreads p hold
        exact ⟨I, hI, hI l s s' hIs hf hCstep, hp⟩
      · exact ⟨P', hP', hPs', hk⟩

/-- **Invariants by guarantee.** The programs keep `G` as long as every section finds `I`, and a
section that keeps `G` keeps `I`: then every section finds `I` and keeps `G`. -/
theorem Runs.invariant_of_guarantee {step : L → σ → Option σ} {Start : Prog L σ α → Prop}
    {C G : L → σ → σ → Prop} {I : σ → Prop} {s₀ : σ} {tr : List (Event L σ)} {pool : Pool L σ α}
    (hstart : ∀ p, Start p → p.Free step (fun l s s' => C l s s' ∧ I s) G) (hinit : I s₀)
    (h : Runs step Start ⟨s₀, []⟩ tr pool) (hC : ∀ e ∈ tr, C e.label e.before e.after)
    (hkeep : ∀ e ∈ tr, G e.label e.before e.after → I e.before → I e.after) :
    (∀ e ∈ tr, G e.label e.before e.after ∧ I e.before ∧ I e.after) ∧ I pool.shared := by
  induction h with
  | refl => exact ⟨by simp, hinit⟩
  | spawn _ _ ih => exact ih hC hkeep
  | @step tr s ts i l k s' hrun hi hf ih =>
    obtain ⟨hev, hI⟩ := ih (fun e he => hC e (List.mem_append_left _ he))
      fun e he => hkeep e (List.mem_append_left _ he)
    have hmem : (⟨i, l, s, s'⟩ : Event L σ) ∈ tr ++ [⟨i, l, s, s'⟩] := by simp
    -- every section so far, the last one included, has found `I`
    have hG := Runs.guarantee hstart (hrun.step hi hf) fun e he => by
      refine ⟨hC e he, ?_⟩
      rcases List.mem_append.mp he with hold | hnew
      · exact (hev e hold).2.1
      · obtain rfl := List.mem_singleton.mp hnew
        exact hI
    have hlast := hkeep _ hmem (hG _ hmem) hI
    refine ⟨fun e he => ?_, hlast⟩
    rcases List.mem_append.mp he with hold | hnew
    · exact hev e hold
    · obtain rfl := List.mem_singleton.mp hnew
      exact ⟨hG _ hmem, hI, hlast⟩

/-! ## Control paths -/

/-- The control path leads `p` to `q`: the sections on it are those of the program text, with whatever
state each of them may find. -/
inductive Prog.Leads : Prog L σ α → List (L × σ) → Prog L σ α → Prop
  | stay (p : Prog L σ α) : Leads p [] p
  | take {l : L} {k : σ → Prog L σ α} {s : σ} {path : List (L × σ)} {q : Prog L σ α} :
      Leads (k s) path q → Leads (.act l k) ((l, s) :: path) q

theorem Prog.Leads.concat {p : Prog L σ α} {path : List (L × σ)} {l : L}
    {k : σ → Prog L σ α} (h : p.Leads path (.act l k)) (s : σ) :
    p.Leads (path ++ [(l, s)]) (k s) := by
  generalize hq : Prog.act l k = q at h
  induction h with
  | stay p =>
    subst hq
    exact .take (.stay _)
  | take _ ih => exact .take (ih hq)

theorem Prog.Leads.of_nil {p q : Prog L σ α} (h : p.Leads [] q) : q = p := by
  cases h
  rfl

/-- The last section of a path. -/
theorem Prog.Leads.of_concat {p : Prog L σ α} {path : List (L × σ)} {l : L} {s : σ}
    {q : Prog L σ α} (h : p.Leads (path ++ [(l, s)]) q) :
    ∃ k, p.Leads path (.act l k) ∧ q = k s := by
  induction path generalizing p with
  | nil =>
    cases h with
    | take h => exact ⟨_, .stay _, h.of_nil⟩
  | cons a path ih =>
    cases h with
    | take h =>
      obtain ⟨k, hk, hq⟩ := ih h
      exact ⟨k, .take hk, hq⟩

/-- A path through a section and what follows begins with the section. -/
theorem Prog.Leads.of_sect {l : L} {read : σ → α} {g : α → Prog L σ β} {path : List (L × σ)} {b : β}
    (h : ((Prog.sect l read).bind g).Leads path (.ret b)) :
    ∃ s rest, path = (l, s) :: rest ∧ (g (read s)).Leads rest (.ret b) := by
  cases h with
  | take h => exact ⟨_, _, rfl, h⟩

theorem Prog.Leads.of_ret {a b : α} {path : List (L × σ)}
    (h : (Prog.ret a : Prog L σ α).Leads path (.ret b)) : a = b := by
  cases h
  rfl

/-- What can be read off the text of a program: its sections have `B`, and what it returns has `Q`. -/
def Prog.Text (B : L → Prop) (Q : α → Prop) : Prog L σ α → Prop
  | .ret a => Q a
  | .act l k => B l ∧ ∀ s, (k s).Text B Q

theorem Prog.Text.bind {B : L → Prop} {Q : α → Prop} {Q' : β → Prop} {p : Prog L σ α}
    {g : α → Prog L σ β} (hp : p.Text B Q) (hg : ∀ a, Q a → (g a).Text B Q') :
    (p.bind g).Text B Q' := by
  induction p with
  | ret a => exact hg a hp
  | act l k ih => exact ⟨hp.1, fun s => ih s (hp.2 s)⟩

/-- Nothing is read off. -/
theorem Prog.text_true (p : Prog L σ α) : p.Text (fun _ => True) fun _ => True := by
  induction p with
  | ret a => exact trivial
  | act l k ih => exact ⟨trivial, ih⟩

theorem Prog.Text.mono {B B' : L → Prop} {Q Q' : α → Prop} {p : Prog L σ α} (h : p.Text B Q)
    (hB : ∀ l, B l → B' l) (hQ : ∀ a, Q a → Q' a) : p.Text B' Q' := by
  induction p with
  | ret a => exact hQ a h
  | act l k ih => exact ⟨hB l h.1, fun s => ih s (h.2 s)⟩

/-- What the text says of the sections adds to what they guarantee, and what it says of the values to what
holds in the end. -/
theorem Prog.Text.sat_post {step : L → σ → Option σ} {C G : L → σ → σ → Prop} {B : L → Prop}
    {Q : α → Prop} {Q' : α → σ → Prop} {p : Prog L σ α} {P : σ → Prop} (ht : p.Text B Q)
    (h : p.Sat step C G Q' P) :
    p.Sat step C (fun l s s' => B l ∧ G l s s') (fun a s => Q a ∧ Q' a s) P := by
  induction p generalizing P with
  | ret a => exact fun s hs => ⟨ht, h s hs⟩
  | act l k ih =>
    intro s s' hs hf hC
    obtain ⟨hG, I, hI, hIs, hk⟩ := h s s' hs hf hC
    exact ⟨⟨ht.1, hG⟩, I, hI, hIs, ih s (ht.2 s) hk⟩

theorem Prog.Text.sat {step : L → σ → Option σ} {C G : L → σ → σ → Prop} {B : L → Prop}
    {Q : α → Prop} {Q' : α → σ → Prop} {p : Prog L σ α} {P : σ → Prop} (ht : p.Text B Q)
    (h : p.Sat step C G Q' P) : p.Sat step C (fun l s s' => B l ∧ G l s s') Q' P :=
  (ht.sat_post h).weaken (fun _ hs => hs) fun _ _ hs => hs.2

/-- A section, and what follows whatever it has read. -/
theorem Prog.Text.first {B : L → Prop} {Q : β → Prop} {l : L} {read : σ → α} {g : α → Prog L σ β}
    (hl : B l) (hg : ∀ s, (g (read s)).Text B Q) : ((Prog.sect l read).bind g).Text B Q :=
  ⟨hl, hg⟩

/-- Control paths are made of the sections of the text. -/
theorem Prog.Leads.of_text {B : L → Prop} {Q : α → Prop} {p : Prog L σ α} {path : List (L × σ)}
    {a : α} (h : p.Leads path (.ret a)) (hp : p.Text B Q) : (∀ x ∈ path, B x.1) ∧ Q a := by
  generalize hq : Prog.ret a = q at h
  induction h with
  | stay p =>
    subst hq
    exact ⟨fun x hx => (by cases hx), hp⟩
  | take h ih =>
    obtain ⟨hpath, ha⟩ := ih (hp.2 _) hq
    refine ⟨fun x hx => ?_, ha⟩
    rcases List.mem_cons.mp hx with rfl | hrest
    · exact hp.1
    · exact hpath x hrest

/-- The sections a thread has taken, with the states they found. -/
def pathOf (tr : List (Event L σ)) (i : Nat) : List (L × σ) :=
  (tr.filter fun e => e.thread == i).map fun e => (e.label, e.before)

theorem pathOf_cons_self (e : Event L σ) (tr : List (Event L σ)) :
    pathOf (e :: tr) e.thread = (e.label, e.before) :: pathOf tr e.thread := by
  simp [pathOf]

theorem pathOf_concat_self (tr : List (Event L σ)) (e : Event L σ) :
    pathOf (tr ++ [e]) e.thread = pathOf tr e.thread ++ [(e.label, e.before)] := by
  simp [pathOf]

theorem pathOf_concat_other (tr : List (Event L σ)) {e : Event L σ} {i : Nat} (h : e.thread ≠ i) :
    pathOf (tr ++ [e]) i = pathOf tr i := by
  simp [pathOf, h]

theorem mem_pathOf {tr : List (Event L σ)} {e : Event L σ} (he : e ∈ tr) :
    (e.label, e.before) ∈ pathOf tr e.thread :=
  List.mem_map.mpr ⟨e, List.mem_filter.mpr ⟨he, beq_self_eq_true _⟩, rfl⟩

/-- A program run alone follows a control path. -/
theorem Prog.Leads.of_traced {step : L → σ → Option σ} {i : Nat} {p : Prog L σ α} {s s' : σ}
    {tr : List (Event L σ)} {a : α} (h : p.traced step i s = some (tr, a, s')) :
    p.Leads (pathOf tr i) (.ret a) := by
  induction p generalizing s tr with
  | ret b =>
    cases h
    exact .stay _
  | act l k ih =>
    simp only [Prog.traced] at h
    cases hl : step l s with
    | none => simp [hl] at h
    | some s₁ =>
      simp only [hl] at h
      obtain ⟨⟨tr₁, b, s₂⟩, hrest, heq⟩ := Option.map_eq_some_iff.mp h
      cases heq
      rw [pathOf_cons_self ⟨i, l, s, s₁⟩ tr₁]
      exact .take (ih s hrest)

theorem exists_of_mem_pathOf {tr : List (Event L σ)} {i : Nat} {x : L × σ} (hx : x ∈ pathOf tr i) :
    ∃ e ∈ tr, e.thread = i ∧ x = (e.label, e.before) := by
  obtain ⟨e, he, rfl⟩ := List.mem_map.mp hx
  obtain ⟨he, hi⟩ := List.mem_filter.mp he
  exact ⟨e, he, beq_iff_eq.mp hi, rfl⟩

/-- **Threads follow control paths.** -/
theorem Runs.leads {step : L → σ → Option σ} {Start : Prog L σ α → Prop} {s₀ : σ}
    {tr : List (Event L σ)} {pool : Pool L σ α} (h : Runs step Start ⟨s₀, []⟩ tr pool) {i : Nat}
    {q : Prog L σ α} (hi : pool.threads[i]? = some q) :
    ∃ p, Start p ∧ p.Leads (pathOf tr i) q := by
  induction h generalizing i q with
  | refl => cases hi
  | @spawn tr s ts p hrun hp ih =>
    by_cases hlt : i < ts.length
    · rw [List.getElem?_append_left hlt] at hi
      exact ih hi
    · have heq : i = ts.length := by
        have hlen := (List.getElem?_eq_some_iff.mp hi).1
        simp at hlen
        omega
      subst heq
      rw [List.getElem?_concat_length] at hi
      cases hi
      -- a thread that was just added has taken no section
      have hnone : (tr.filter fun e => e.thread == ts.length) = [] := by
        rw [List.filter_eq_nil_iff]
        intro e he
        have hlt := hrun.thread_lt e he
        simp only [beq_iff_eq]
        exact Nat.ne_of_lt hlt
      refine ⟨_, hp, ?_⟩
      rw [pathOf, hnone]
      exact .stay _
  | @step tr s ts j l k s' _ hj _ ih =>
    by_cases hij : j = i
    · subst hij
      have hlt := (List.getElem?_eq_some_iff.mp hj).1
      have hi' : (ts.set j (k s))[j]? = some q := hi
      rw [List.getElem?_set_self hlt] at hi'
      cases hi'
      obtain ⟨p, hp, hpath⟩ := ih hj
      refine ⟨p, hp, ?_⟩
      have happ : pathOf (tr ++ [⟨j, l, s, s'⟩]) j = pathOf tr j ++ [(l, s)] := by
        simp [pathOf]
      rw [happ]
      exact hpath.concat s
    · have hi' : (ts.set j (k s))[i]? = some q := hi
      rw [List.getElem?_set_ne hij] at hi'
      obtain ⟨p, hp, hpath⟩ := ih hi'
      have happ : pathOf (tr ++ [⟨j, l, s, s'⟩]) i = pathOf tr i := by
        simp [pathOf, hij]
      exact ⟨p, hp, happ ▸ hpath⟩

/-! ## A machine inside another -/

section Zoom

variable {L' σ' : Type}

/-- The program on a part of a larger machine: `lift` names its sections there, `get` finds the part. -/
def Prog.zoom (lift : L → L') (get : σ' → σ) : Prog L σ α → Prog L' σ' α
  | .ret a => .ret a
  | .act l k => .act (lift l) fun s => (k (get s)).zoom lift get

theorem Prog.zoom_text (lift : L → L') (get : σ' → σ) (p : Prog L σ α) :
    (p.zoom lift get).Text (fun l => ∃ part, l = lift part) (fun _ => True) := by
  induction p with
  | ret a => trivial
  | act l k ih => exact ⟨⟨l, rfl⟩, fun s => ih (get s)⟩

/-- When the sections of the larger machine are those of the part and change nothing else, the program
runs there as it does on the part. -/
theorem Prog.run_zoom {step : L → σ → Option σ} {step' : L' → σ' → Option σ'} {lift : L → L'}
    {get : σ' → σ} {put : σ' → σ → σ'}
    (hstep : ∀ l s, step' (lift l) s = (step l (get s)).map (put s))
    (hget : ∀ s part, get (put s part) = part) (hsame : ∀ s, put s (get s) = s)
    (hput : ∀ s part part', put (put s part) part' = put s part') (p : Prog L σ α) (s : σ') :
    (p.zoom lift get).run step' s = (p.run step (get s)).map fun out => (out.1, put s out.2) := by
  induction p generalizing s with
  | ret a => simp only [Prog.zoom, Prog.run, Option.map_some, hsame]
  | act l k ih =>
    simp only [Prog.zoom, Prog.run, hstep]
    cases step l (get s) with
    | none => rfl
    | some part =>
      simp only [Option.map_some, ih, hget, hput]

end Zoom

end KernelCache.Foundation
