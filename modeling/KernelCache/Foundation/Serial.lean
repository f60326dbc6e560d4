/-
# KernelCache.Foundation.Serial — programs one after the other.

`Prog.Finishes` is total correctness of a program alone: no section blocks, and the value and the state
behind it satisfy an assertion.  `serveAll` handles a list of requests, each to its end before the next
one.  A request can be marked at its turn; when marked requests leave the state as it is, they can be
deleted from the list and nothing else changes (`serveAll_purged`).
-/
import KernelCache.Foundation.Prog

namespace KernelCache.Foundation

variable {L σ α β : Type}

namespace Prog

variable {step : L → σ → Option σ}

/-- Alone, the program comes to its end, with `Q`. -/
def Finishes (step : L → σ → Option σ) (p : Prog L σ α) (s : σ) (Q : α → σ → Prop) : Prop :=
  ∃ a s', p.run step s = some (a, s') ∧ Q a s'

theorem Finishes.ret {a : α} {s : σ} {Q : α → σ → Prop} (h : Q a s) :
    Finishes step (Prog.ret a) s Q :=
  ⟨a, s, rfl, h⟩

theorem Finishes.mono {p : Prog L σ α} {s : σ} {Q Q' : α → σ → Prop} (h : Finishes step p s Q)
    (hQ : ∀ a s', Q a s' → Q' a s') : Finishes step p s Q' := by
  obtain ⟨a, s', hrun, hq⟩ := h
  exact ⟨a, s', hrun, hQ a s' hq⟩

theorem Finishes.bind {p : Prog L σ α} {g : α → Prog L σ β} {s : σ} {Q : α → σ → Prop}
    {Q' : β → σ → Prop} (hp : Finishes step p s Q)
    (hg : ∀ a s', Q a s' → Finishes step (g a) s' Q') : Finishes step (p.bind g) s Q' := by
  obtain ⟨a, s', hrun, hq⟩ := hp
  obtain ⟨b, s'', hrun', hq'⟩ := hg a s' hq
  exact ⟨b, s'', (run_then hrun g).trans hrun', hq'⟩

/-- A section that can be taken, and what follows. -/
theorem Finishes.first {l : L} {read : σ → α} {g : α → Prog L σ β} {s s' : σ} {Q : β → σ → Prop}
    (h : step l s = some s') (hg : Finishes step (g (read s)) s' Q) :
    Finishes step ((sect l read).bind g) s Q := by
  obtain ⟨b, s'', hrun, hq⟩ := hg
  exact ⟨b, s'', (run_then (run_sect.mpr ⟨h, rfl⟩) g).trans hrun, hq⟩

theorem Finishes.sect {l : L} {read : σ → α} {s s' : σ} {Q : α → σ → Prop}
    (h : step l s = some s') (hq : Q (read s) s') : Finishes step (sect l read) s Q :=
  ⟨_, s', run_sect.mpr ⟨h, rfl⟩, hq⟩

/-- What it did on the way there. -/
theorem Finishes.traced {p : Prog L σ α} {s : σ} {Q : α → σ → Prop} (h : Finishes step p s Q)
    (i : Nat) : ∃ tr a s', p.traced step i s = some (tr, a, s') ∧ Q a s' := by
  obtain ⟨a, s', hrun, hq⟩ := h
  rw [run_eq_traced i] at hrun
  obtain ⟨⟨tr, out⟩, htraced, rfl⟩ := Option.map_eq_some_iff.mp hrun
  exact ⟨tr, a, s', htraced, hq⟩

end Prog

/-! ## Requests -/

/-- One request at its turn. -/
structure Turn (E R : Type) where
  request : E
  marked : Bool
  answer : R

section Serve

variable {E R : Type} (step : L → σ → Option σ) (handle : E → Prog L σ R) (mark : σ → E → Bool)

/-- Handle the requests one after the other. -/
def serveAll : List E → σ → Option (List (Turn E R) × σ)
  | [], s => some ([], s)
  | e :: es, s =>
    match (handle e).run step s with
    | none => none
    | some (a, s') =>
      match serveAll es s' with
      | none => none
      | some (turns, s'') => some (⟨e, mark s e, a⟩ :: turns, s'')

variable {step handle mark}

theorem serveAll_cons {e : E} {es : List E} {s s' : σ} {turns : List (Turn E R)} :
    serveAll step handle mark (e :: es) s = some (turns, s') ↔
      ∃ a s₁ rest, (handle e).run step s = some (a, s₁) ∧
        serveAll step handle mark es s₁ = some (rest, s') ∧ turns = ⟨e, mark s e, a⟩ :: rest := by
  rw [serveAll]
  constructor
  · intro h
    split at h
    · cases h
    · rename_i a s₁ hrun
      split at h
      · cases h
      · rename_i rest s₂ hrest
        cases h
        exact ⟨a, s₁, rest, hrun, hrest, rfl⟩
  · rintro ⟨a, s₁, rest, hrun, hrest, rfl⟩
    rw [hrun]
    dsimp only
    rw [hrest]

/-- Every list of requests is handled when each request comes to its end and keeps the invariant. -/
theorem serveAll_total {I : σ → Prop}
    (hhandle : ∀ e s, I s → (handle e).Finishes step s fun _ s' => I s') (es : List E) {s : σ}
    (hs : I s) : ∃ turns s', serveAll step handle mark es s = some (turns, s') ∧
      turns.map Turn.request = es := by
  induction es generalizing s with
  | nil => exact ⟨[], s, rfl, rfl⟩
  | cons e es ih =>
    obtain ⟨a, s₁, hrun, hs₁⟩ := hhandle e s hs
    obtain ⟨rest, s', hrest, hmap⟩ := ih hs₁
    exact ⟨_, s', serveAll_cons.mpr ⟨a, s₁, rest, hrun, hrest, rfl⟩, congrArg (e :: ·) hmap⟩

/-- What holds of the answer to every marked request. -/
theorem serveAll_marked {Q : E → R → Prop}
    (hanswer : ∀ e s a s', mark s e = true → (handle e).run step s = some (a, s') → Q e a)
    {es : List E} {s s' : σ} {turns : List (Turn E R)}
    (h : serveAll step handle mark es s = some (turns, s')) :
    ∀ t ∈ turns, t.marked = true → Q t.request t.answer := by
  induction es generalizing s turns with
  | nil =>
    cases h
    exact fun t ht => absurd ht List.not_mem_nil
  | cons e es ih =>
    obtain ⟨a, s₁, rest, hrun, hrest, rfl⟩ := serveAll_cons.mp h
    intro t ht hmarked
    rcases List.mem_cons.mp ht with rfl | ht
    · exact hanswer e s a s₁ hmarked hrun
    · exact ih hrest t ht hmarked

/-- **Purging.** Requests that leave the state as it is can be deleted: every other request is handled
as before, and the last state is the same. -/
theorem serveAll_purged
    (hnoop : ∀ e s a s', mark s e = true → (handle e).run step s = some (a, s') → s' = s)
    {es : List E} {s s' : σ} {turns : List (Turn E R)}
    (h : serveAll step handle mark es s = some (turns, s')) :
    serveAll step handle mark ((turns.filter fun t => !t.marked).map Turn.request) s =
      some (turns.filter fun t => !t.marked, s') := by
  induction es generalizing s turns with
  | nil =>
    cases h
    rfl
  | cons e es ih =>
    obtain ⟨a, s₁, rest, hrun, hrest, rfl⟩ := serveAll_cons.mp h
    have hpurged := ih hrest
    cases hmark : mark s e with
    | true =>
      obtain rfl := hnoop e s a s₁ hmark hrun
      exact hpurged
    | false =>
      refine serveAll_cons.mpr ⟨a, s₁, _, hrun, hpurged, ?_⟩
      rw [hmark]
      rfl

end Serve

/-! ## What the requests are for -/

/-- A run of a specification that leaves choices: requests with their answers, one after the other. -/
inductive Path {E R τ : Type} (spec : τ → E → R → τ → Prop) (t : τ) : List (E × R) → τ → Prop
  | start : Path spec t [] t
  | snoc {past : List (E × R)} {t₁ t₂ : τ} {e : E} {a : R} (h : Path spec t past t₁)
      (hstep : spec t₁ e a t₂) : Path spec t (past ++ [(e, a)]) t₂

theorem Path.cons {E R τ : Type} {spec : τ → E → R → τ → Prop} {t t₁ t₂ : τ} {e : E} {a : R}
    {rest : List (E × R)} (hstep : spec t e a t₁) (h : Path spec t₁ rest t₂) :
    Path spec t ((e, a) :: rest) t₂ := by
  induction h with
  | start => exact .snoc .start hstep
  | snoc _ hlast ih => exact .snoc ih hlast

/-- **Refinement of a specification.** When each request is handled as the specification says, from any
state with the invariant, every list of requests is. -/
theorem serveAll_path {E R τ : Type} {step : L → σ → Option σ} {handle : E → Prog L σ R}
    {mark : σ → E → Bool} {I : σ → Prop} {view : σ → τ} {spec : τ → E → R → τ → Prop}
    (hhandle : ∀ e s, I s → (handle e).Finishes step s fun a s' => I s' ∧ spec (view s) e a (view s'))
    (es : List E) {s : σ} (hs : I s) : ∃ turns s', serveAll step handle mark es s = some (turns, s') ∧
      turns.map Turn.request = es ∧ I s' ∧
        Path spec (view s) (turns.map fun t => (t.request, t.answer)) (view s') := by
  induction es generalizing s with
  | nil => exact ⟨[], s, rfl, rfl, hs, .start⟩
  | cons e es ih =>
    obtain ⟨a, s₁, hrun, hs₁, hspec⟩ := hhandle e s hs
    obtain ⟨rest, s', hrest, hmap, hs', hpath⟩ := ih hs₁
    exact ⟨_, s', serveAll_cons.mpr ⟨a, s₁, rest, hrun, hrest, rfl⟩, congrArg (e :: ·) hmap, hs',
      .cons hspec hpath⟩

end KernelCache.Foundation
