/-
# KernelCache.Foundation.Scripts — automata that a program follows in its text.

`Prog.Phased` says what a program does when its sections are taken.  A thread that is BLOCKED takes
none, and what it waits for can only be read off its text: `Prog.Scripted` says that on every control
path each section is one the automaton allows, whether or not the section can be taken.  So at any
moment of a run the program of every thread, blocked or not, is scripted from its phase
(`Runs.scripted`), and what allowed sections keep holds along the run (`Runs.scripted_history`).
-/
import KernelCache.Foundation.Protocol

namespace KernelCache.Foundation

variable {L σ α β Φ : Type}

namespace Prog

/-- The text of a program follows the automaton from a phase on, and ends as `Q` says. -/
def Scripted (ok : Φ → L → Prop) (next : Φ → L → σ → Φ) (Q : α → Φ → Prop) : Prog L σ α → Φ → Prop
  | .ret a, ph => Q a ph
  | .act l k, ph => ok ph l ∧ ∀ s, (k s).Scripted ok next Q (next ph l s)

variable {ok : Φ → L → Prop} {next : Φ → L → σ → Φ}

theorem Scripted.bind {Q : α → Φ → Prop} {Q' : β → Φ → Prop} {p : Prog L σ α} {g : α → Prog L σ β}
    {ph : Φ} (hp : p.Scripted ok next Q ph) (hg : ∀ a ph', Q a ph' → (g a).Scripted ok next Q' ph') :
    (p.bind g).Scripted ok next Q' ph := by
  induction p generalizing ph with
  | ret a => exact hg a ph hp
  | act l k ih => exact ⟨hp.1, fun s => ih s (hp.2 s)⟩

theorem Scripted.mono {Q Q' : α → Φ → Prop} {p : Prog L σ α} {ph : Φ} (h : p.Scripted ok next Q ph)
    (hQ : ∀ a ph', Q a ph' → Q' a ph') : p.Scripted ok next Q' ph := by
  induction p generalizing ph with
  | ret a => exact hQ a ph h
  | act l k ih => exact ⟨h.1, fun s => ih s (h.2 s)⟩

/-- One section. -/
theorem Scripted.sect {Q : α → Φ → Prop} {l : L} {read : σ → α} {ph : Φ} (hok : ok ph l)
    (hQ : ∀ s, Q (read s) (next ph l s)) : (Prog.sect l read).Scripted ok next Q ph :=
  ⟨hok, hQ⟩

/-- One section, and what follows whatever it has read. -/
theorem Scripted.first {Q : β → Φ → Prop} {l : L} {read : σ → α} {g : α → Prog L σ β} {ph : Φ}
    (hok : ok ph l) (hg : ∀ s, (g (read s)).Scripted ok next Q (next ph l s)) :
    ((Prog.sect l read).bind g).Scripted ok next Q ph :=
  ⟨hok, hg⟩

/-- What is said of the text holds of the sections that are taken. -/
theorem Scripted.phased {step : L → σ → Option σ} {C : L → σ → σ → Prop} {Q : α → Φ → Prop}
    {p : Prog L σ α} {ph : Φ} (h : p.Scripted ok next Q ph) :
    p.Phased step C (fun ph l _ => ok ph l) next (fun a ph' _ => Q a ph') (fun _ => True) ph := by
  induction p generalizing ph with
  | ret a => exact fun _ _ => h
  | act l k ih =>
    intro s s' _ _ _
    exact ⟨h.1, fun _ => True, Stable.const _ _ True, trivial, ih s (h.2 s)⟩

/-- What is left of a scripted program is scripted. -/
theorem Leads.scripted {Q : α → Φ → Prop} {p q : Prog L σ α} {path : List (L × σ)} {ph : Φ}
    (h : p.Leads path q) (hp : p.Scripted ok next Q ph) :
    q.Scripted ok next Q (walked next ph path) := by
  induction h generalizing ph with
  | stay p => exact hp
  | take h ih => exact ih (hp.2 _)

end Prog

section Runs

variable {ok : Φ → L → Prop} {next : Φ → L → σ → Φ} {start : Φ} {step : L → σ → Option σ}
  {Start : Prog L σ α → Prop} {Q : α → Φ → Prop} {s₀ : σ} {tr : List (Event L σ)}
  {pool : Pool L σ α}

/-- **Every thread is scripted from its phase**, also while it is blocked. -/
theorem Runs.scripted (hstart : ∀ p, Start p → p.Scripted ok next Q start)
    (h : Runs step Start ⟨s₀, []⟩ tr pool) {i : Nat} {q : Prog L σ α}
    (hi : pool.threads[i]? = some q) :
    q.Scripted ok next Q (phases next (fun _ => start) tr i) := by
  obtain ⟨p, hp, hleads⟩ := h.leads hi
  rw [phases_eq_walked]
  exact hleads.scripted (hstart p hp)

/-- What allowed sections keep holds at the end of every run. -/
theorem Runs.scripted_history {J : List (Event L σ) → (Nat → Φ) → σ → Prop}
    (hstart : ∀ p, Start p → p.Scripted ok next Q start) (hinit : J [] (fun _ => start) s₀)
    (hstep : ∀ tr P i l s s', J tr P s → ok (P i) l → step l s = some s' →
      J (tr ++ [⟨i, l, s, s'⟩]) (Function.update P i (next (P i) l s)) s')
    (h : Runs step Start ⟨s₀, []⟩ tr pool) :
    J tr (phases next (fun _ => start) tr) pool.shared :=
  (Runs.protocol (C := fun _ _ _ => True) (fun ph l _ => ok ph l) next (fun _ => start)
    (Q := fun _ a ph _ => Q a ph) (fun i p hp => by simp at hp)
    (fun i p hp => (hstart p hp).phased) hinit (fun tr P i l s s' hJ hok hs _ => hstep tr P i l s s' hJ hok hs)
    h fun _ _ => trivial).1

/-- A phase that is not the first belongs to a thread of the pool. -/
theorem Runs.thread_of_phase (h : Runs step Start ⟨s₀, []⟩ tr pool) {i : Nat}
    (hi : phases next (fun _ => start) tr i ≠ start) : ∃ q, pool.threads[i]? = some q := by
  by_contra hnone
  refine hi (phases_of_idle next (fun _ => start) fun e he hthread => hnone ?_)
  have hlt := h.thread_lt e he
  rw [hthread] at hlt
  exact ⟨_, List.getElem?_eq_getElem hlt⟩

end Runs

/-! ## A mutex and who has it -/

/-- The mutex is held, and one thread has it; or it is free, and none has. -/
structure Guards (held : Bool) (has : Nat → Bool) : Prop where
  holder : held = true → ∃ i, has i = true
  held : ∀ i, has i = true → held = true
  alone : ∀ i j, has i = true → has j = true → i = j

namespace Guards

variable {held : Bool} {has : Nat → Bool} {i : Nat}

theorem free : Guards false fun _ => false where
  holder h := by cases h
  held _ h := by cases h
  alone _ _ h := by cases h

/-- The mutex is taken. -/
theorem take (h : Guards false has) (i : Nat) : Guards true (Function.update has i true) := by
  have honly : ∀ j, Function.update has i true j = true → j = i := by
    intro j hj
    by_contra hji
    rw [Function.update_of_ne hji] at hj
    cases h.held j hj
  exact ⟨fun _ => ⟨i, Function.update_self i true has⟩, fun _ _ => rfl,
    fun j k hj hk => (honly j hj).trans (honly k hk).symm⟩

/-- The thread that has the mutex gives it back. -/
theorem give (h : Guards held has) (hi : has i = true) :
    Guards false (Function.update has i false) := by
  have hnone : ∀ j, Function.update has i false j ≠ true := by
    intro j hj
    by_cases hji : j = i
    · rw [hji, Function.update_self] at hj
      cases hj
    · rw [Function.update_of_ne hji] at hj
      exact hji (h.alone j i hj hi)
  exact ⟨fun hfalse => (by cases hfalse), fun j hj => absurd hj (hnone j),
    fun j _ hj => absurd hj (hnone j)⟩

/-- Another section. -/
theorem keep (h : Guards held has) {b : Bool} (hb : b = has i) :
    Guards held (Function.update has i b) := by
  rwa [hb, Function.update_eq_self]

end Guards

/-- One thread moves, and with it what it has. -/
theorem update_has {Φ : Type} (P : Nat → Φ) (i : Nat) (ph : Φ) (has : Φ → Bool) :
    (fun j => has (Function.update P i ph j)) = Function.update (fun j => has (P j)) i (has ph) := by
  funext j
  by_cases hj : j = i
  · rw [hj, Function.update_self, Function.update_self]
  · rw [Function.update_of_ne hj, Function.update_of_ne hj]

end KernelCache.Foundation
