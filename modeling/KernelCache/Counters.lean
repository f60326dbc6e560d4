/-
# KernelCache.Counters — the counters of lookups add up.

`lookup_impl` decides on copies of the records and counts what it has decided: `lookups`, and one of six
counters by the outcome.  Nothing else moves the seven, except `reset_stats`, which clears them all at
once.  So they balance in every state of every run (`runs_balanced`), whoever looks up: `lookup`,
`acquire`, which starts with one, and `explain`, which makes a lookup to describe it.

The operations of the cache are joined by `explain` here: `UserCall` is either, and a call answers with
itself and its reply, so that a thread that is done tells what it was asked.
-/
import KernelCache.Duties
import KernelCache.Overtaken

namespace KernelCache

open Foundation (Bytes Prog Runs Pool Event pathOf)
open Foundation.Prog (sect perform Sat Free)

/-! ## Explaining a lookup -/

structure ExplainNode where
  topic : Str
  summary : Str
  details : List Str

structure Explain where
  text : Str := []
  json : Str := []
  nodes : List ExplainNode := []
  ok : Bool := true

/-- `digest_hex()`.  It is set with the canonical encoding, which is never empty. -/
def KernelCompatibilityKey.digestHex (k : KernelCompatibilityKey) : Str :=
  if k.canonical.isEmpty then [] else toHex k.digest

/-- The explanation with this summary, of the request as the caller made it. -/
def Explain.ofSummary (request : KernelLookupRequest) (summary : Str) (ok : Bool) : Explain where
  text := summary
  nodes := [{
    topic := str "lookup"
    summary := summary
    details := [str "op=" ++ request.key.operation, str "digest=" ++ request.key.digestHex] }]
  ok := ok

/-- `KernelCache::explain(const KernelLookupRequest&)`. -/
def explain (request : KernelLookupRequest) : Op (Result Explain) := do
  let r ← lookupImpl request
  match r with
  | .ok result =>
    return .ok (.ofSummary request (str "outcome=" ++ result.outcome.name) true)
  | .error (.error _ message) => return .ok (.ofSummary request (str "error=" ++ message) false)
  | .error .exception => return .error .exception

/-! ## Calls -/

inductive UserCall where
  | operation (op : Operation)
  | explain (request : KernelLookupRequest)

inductive UserReply where
  | answer (a : Answer)
  | explain (res : Result Explain)

/-- A call answers with itself and its reply. -/
def UserCall.prog (env : Env) : UserCall → Op (UserCall × UserReply)
  | .operation op => do return (.operation op, .answer (← op.prog env))
  | .explain request => do return (.explain request, .explain (← KernelCache.explain request))

def IsCall (env : Env) (p : Op (UserCall × UserReply)) : Prop := ∃ call : UserCall, p = call.prog env

/-- Interleaved runs of a fresh cache on a store, explanations among the operations. -/
abbrev CallRuns (env : Env) (store : FilePersistenceStore) (tr : List (Event Step Impl))
    (pool : Pool Step Impl (UserCall × UserReply)) : Prop :=
  Runs (exec env) (IsCall env) ⟨Impl.initial store, []⟩ tr pool

/-- The lookup a call makes. -/
def UserCall.looksUp : UserCall → Option KernelLookupRequest
  | .operation (.lookup request) => some request
  | .operation (.acquire request) => some request
  | .explain request => some request
  | _ => none

/-! ## The counters -/

/-- The counters a lookup can fall under. -/
inductive LookupCounter where
  | exactHits
  | compatibleHits
  | persistentHits
  | hostHits
  | deviceHits
  | misses
  deriving DecidableEq

def LookupCounter.read (st : Stats) : LookupCounter → Nat
  | exactHits => st.exactHits
  | compatibleHits => st.compatibleHits
  | persistentHits => st.persistentHits
  | hostHits => st.hostHits
  | deviceHits => st.deviceHits
  | misses => st.misses

/-- The counter that matches an outcome. -/
def LookupOutcome.counter : LookupOutcome → LookupCounter
  | exactHit => .exactHits
  | compatibleHit => .compatibleHits
  | persistedHit => .persistentHits
  | hostResidentHit => .hostHits
  | deviceResidentHit => .deviceHits
  | missRequiresBuild | missInvalidated => .misses

namespace Stats

/-- Every lookup is a hit of some kind or a miss. -/
def Balanced (st : Stats) : Prop :=
  st.lookups = st.exactHits + st.compatibleHits + st.persistentHits + st.hostHits + st.deviceHits +
    st.misses

/-- No lookup is counted. -/
structure Idle (st st' : Stats) : Prop where
  lookups : st'.lookups = st.lookups
  counters : ∀ c, LookupCounter.read st' c = LookupCounter.read st c

/-- A lookup is counted under `c`, and under nothing else. -/
structure Raises (c : LookupCounter) (st st' : Stats) : Prop where
  lookups : st'.lookups = st.lookups + 1
  raised : LookupCounter.read st' c = LookupCounter.read st c + 1
  others : ∀ c', c' ≠ c → LookupCounter.read st' c' = LookupCounter.read st c'

theorem Idle.of_lookupCounters {st st' : Stats} (h : st'.lookupCounters = st.lookupCounters) :
    Idle st st' := by
  simp only [lookupCounters, List.cons.injEq] at h
  obtain ⟨hlookups, hexact, hcompatible, hpersistent, hhost, hdevice, hmisses, -⟩ := h
  refine ⟨hlookups, fun c => ?_⟩
  cases c with
  | exactHits => exact hexact
  | compatibleHits => exact hcompatible
  | persistentHits => exact hpersistent
  | hostHits => exact hhost
  | deviceHits => exact hdevice
  | misses => exact hmisses

/-- A lookup is counted once, under the counter of its outcome. -/
theorem raises_count (o : LookupOutcome) (st : Stats) : Raises o.counter st (o.count st) := by
  cases o with
  | _ =>
    refine ⟨rfl, rfl, fun c' hc' => ?_⟩
    cases c' with
    | _ => first | rfl | exact absurd rfl hc'

theorem balanced_iff (st : Stats) : st.Balanced ↔
    st.lookups = LookupCounter.read st .exactHits + LookupCounter.read st .compatibleHits +
      LookupCounter.read st .persistentHits + LookupCounter.read st .hostHits +
      LookupCounter.read st .deviceHits + LookupCounter.read st .misses :=
  Iff.rfl

theorem Idle.balanced {st st' : Stats} (h : Idle st st') (hst : st.Balanced) : st'.Balanced := by
  rw [balanced_iff] at hst ⊢
  simp only [h.lookups, h.counters]
  exact hst

theorem Balanced.count {st : Stats} (hst : st.Balanced) (o : LookupOutcome) :
    (o.count st).Balanced := by
  cases o with
  | _ =>
    simp only [Balanced, LookupOutcome.count] at hst ⊢
    omega

end Stats

/-! ## What sections do to them -/

/-- What the section counts is no lookup, or one lookup by its outcome. -/
def Step.CountsLookups : Step → Prop
  | .bump f => (∃ o : LookupOutcome, f = o.count) ∨ ∀ st, (f st).lookupCounters = st.lookupCounters
  | _ => True

theorem Step.Ordinary.countsLookups {l : Step} (h : l.Ordinary) : l.CountsLookups := by
  cases l with
  | bump f =>
    cases h with
    | lookup o => exact .inl ⟨o, rfl⟩
    | other _ hlookups => exact .inr hlookups
  | _ => exact trivial

/-- What a section may do to the counters of lookups: leave them, count one lookup, clear them. -/
inductive Tallies (st st' : Stats) : Prop
  | idle (h : Stats.Idle st st')
  | lookup (o : LookupOutcome) (h : st' = o.count st)
  | reset (h : st' = {})

theorem Tallies.balanced {st st' : Stats} (h : Tallies st st') (hst : st.Balanced) :
    st'.Balanced := by
  cases h with
  | idle h => exact h.balanced hst
  | lookup o h =>
    rw [h]
    exact hst.count o
  | reset h =>
    rw [h]
    rfl

section Sections

variable {env : Env} {l : Step} {s s' : Impl}

theorem exec_lookupCounters (h : exec env l s = some s') :
    s'.stats.lookupCounters = l.lookupsAfter s := by
  obtain ⟨-, rfl⟩ := exec_eq_some.mp h
  exact l.effect_lookupCounters env s

theorem exec_tallies (h : exec env l s = some s') (hl : l.CountsLookups) :
    Tallies s.stats s'.stats := by
  have hafter := exec_lookupCounters h
  cases l with
  | bump f =>
    rcases hl with ⟨o, rfl⟩ | hf
    · obtain ⟨-, rfl⟩ := exec_eq_some.mp h
      exact .lookup o rfl
    · exact .idle (.of_lookupCounters (hafter.trans (hf s.stats)))
  | resetStats =>
    obtain ⟨-, rfl⟩ := exec_eq_some.mp h
    exact .reset rfl
  | _ => exact .idle (.of_lookupCounters hafter)

end Sections

/-! ## What calls do to them -/

section Calls

variable {env : Env}

/-- The sections count lookups properly. -/
abbrev CountingSteps (l : Step) (_ _ : Impl) : Prop := l.CountsLookups

theorem walk_counting {K : Stage → Prop} :
    Walk (Guaranteed env (fun _ _ _ => True) CountingSteps) K where
  ret ha := Sat.ret fun _ _ => ha
  bind hp hg := Sat.bind hp fun a => Sat.assume (hg a)
  sect _ hl hQ := Sat.sect (fun _ => Foundation.Stable.const _ _ _) fun s _ _ _ _ =>
    ⟨hl.countsLookups, hQ s⟩
  buildOver _ _ := Free.sect fun _ _ _ _ => .inr fun _ => rfl

theorem buildImpl_counting (request : KernelLookupRequest) :
    (buildImpl env request).Free (exec env) (fun _ _ _ => True) CountingSteps := by
  have w : Walk (Guaranteed env (fun _ _ _ => True) CountingSteps) fun _ => True := walk_counting
  exact w.buildImpl trivial trivial (Free.sect fun _ _ _ _ => trivial)
    (fun _ _ => Free.sect fun _ _ _ _ => trivial) fun _ _ => Free.sect fun _ _ _ _ => trivial

theorem operation_counting (op : Operation) :
    (op.prog env).Free (exec env) (fun _ _ _ => True) CountingSteps :=
  operation_free_of_builds walk_counting buildImpl_counting op

theorem call_counting (call : UserCall) :
    (call.prog env).Free (exec env) (fun _ _ _ => True) CountingSteps := by
  have w : Walk (Guaranteed env (fun _ _ _ => True) CountingSteps) fun _ => True := walk_counting
  cases call with
  | operation op => exact w.bind (operation_counting op) fun _ _ => w.ret trivial
  | explain request =>
    refine w.bind (Q := Walk.Any) ?_ fun _ _ => w.ret trivial
    refine w.bind (w.lookupImpl trivial request) fun r _ => ?_
    cases r with
    | ok result => exact w.ret trivial
    | error e => cases e <;> exact w.ret trivial

end Calls

/-! ## Every run -/

section Runs

variable {env : Env} {store : FilePersistenceStore} {tr : List (Event Step Impl)}
  {pool : Pool Step Impl (UserCall × UserReply)}

theorem runs_tallies (h : CallRuns env store tr pool) :
    ∀ e ∈ tr, Tallies e.before.stats e.after.stats := by
  intro e he
  refine exec_tallies (h.event_step e he) ?_
  refine Runs.guarantee (C := fun _ _ _ => True) (G := CountingSteps) ?_ h (fun _ _ => trivial) e he
  rintro p ⟨call, rfl⟩
  exact call_counting call

/-- **Balance, every run.** -/
theorem runs_balanced (h : CallRuns env store tr pool) :
    (∀ e ∈ tr, e.before.stats.Balanced ∧ e.after.stats.Balanced) ∧
      pool.shared.stats.Balanced := by
  have hinit : (Impl.initial store).stats.Balanced := rfl
  exact Runs.invariant (I := fun s : Impl => s.stats.Balanced) hinit h fun e he hs =>
    (runs_tallies h e he).balanced hs

/-- The sections of one thread. -/
def eventsOf (tr : List (Event Step Impl)) (j : Nat) : List (Event Step Impl) :=
  tr.filter fun e => e.thread == j

/-- How a call goes on when its lookup has returned: an acquire with whatever it does then, the others
with their reply. -/
def UserCall.Ends {α : Type} (result : KernelLookupResult) (rest : List α) :
    UserCall → UserReply → Prop
  | .operation (.lookup _), reply => rest = [] ∧ reply = .answer (.lookup result)
  | .explain request, reply => rest = [] ∧ reply =
      .explain (.ok (.ofSummary request (str "outcome=" ++ result.outcome.name) true))
  | _, _ => True

theorem UserCall.Ends.of_map {α β : Type} {call : UserCall} {reply : UserReply}
    {result : KernelLookupResult} {f : α → β} {rest : List α}
    (h : call.Ends result (rest.map f) reply) : call.Ends result rest reply := by
  cases call with
  | explain request => exact ⟨List.map_eq_nil_iff.mp h.1, h.2⟩
  | operation op =>
    cases op with
    | lookup request => exact ⟨List.map_eq_nil_iff.mp h.1, h.2⟩
    | _ => exact trivial

theorem UserCall.prog_text (call : UserCall) :
    (call.prog env).Text (fun _ => True) fun b => b.1 = call := by
  cases call with
  | operation op => exact (Prog.text_true _).bind fun _ _ => rfl
  | explain request => exact (Prog.text_true _).bind fun _ _ => rfl

/-- The sections of a call that makes a lookup begin with those of the lookup. -/
theorem UserCall.looksUp_leads {call : UserCall} {reply : UserReply} {request : KernelLookupRequest}
    {path : List (Step × Impl)} (hlooks : call.looksUp = some request)
    (hfin : request.key.finalize.finalized = true)
    (h : (call.prog env).Leads path (.ret (call, reply))) :
    ∃ s₁ s₂ s₃ rest, path = (.collect request.key.finalize, s₁) ::
        (.bump (s₁.lookup request.key.finalize request.policy).outcome.count, s₂) ::
        (.recordEvent, s₃) :: rest ∧
      call.Ends (s₁.lookup request.key.finalize request.policy) rest reply := by
  cases call with
  | explain asked =>
    obtain rfl := Option.some.inj hlooks
    change (Prog.bind (Prog.bind (lookupImpl asked) _) _).Leads path _ at h
    rw [Prog.bind_assoc] at h
    obtain ⟨s₁, s₂, s₃, rest, hpath, hrest⟩ := lookupImpl_leads hfin h
    cases hrest
    exact ⟨s₁, s₂, s₃, [], hpath, rfl, rfl⟩
  | operation op =>
    cases op with
    | lookup asked =>
      obtain rfl := Option.some.inj hlooks
      change (Prog.bind (Prog.bind (lookupImpl asked) _) _).Leads path _ at h
      rw [Prog.bind_assoc] at h
      obtain ⟨s₁, s₂, s₃, rest, hpath, hrest⟩ := lookupImpl_leads hfin h
      cases hrest
      exact ⟨s₁, s₂, s₃, [], hpath, rfl, rfl⟩
    | acquire asked =>
      obtain rfl := Option.some.inj hlooks
      change (Prog.bind (Prog.bind (Prog.bind
        (lookupImpl { asked with key := asked.key.finalize }) _) _) _).Leads path _ at h
      rw [Prog.bind_assoc, Prog.bind_assoc] at h
      have hkey := asked.key.finalize_finalize
      generalize hrequest : ({ asked with key := asked.key.finalize } : KernelLookupRequest) =
        request at h
      have hfinal : request.key.finalize = asked.key.finalize := by
        rw [← hrequest]
        exact hkey
      have hpolicy : request.policy = asked.policy := by rw [← hrequest]
      obtain ⟨s₁, s₂, s₃, rest, hpath, -⟩ := lookupImpl_leads (hfinal ▸ hfin) h
      rw [hfinal, hpolicy] at hpath
      exact ⟨s₁, s₂, s₃, rest, hpath, trivial⟩
    | _ => cases hlooks

/-- **Lookup counters are conserved.** In every run of operations and explanations, interleaved in any
way, every lookup counted is counted as a hit of some kind or as a miss, in every state.  A lookup that
has returned, in a call that has, took three sections: one of them raised `lookups` and the counter of
the outcome it decided on, no other counter, and the other two none. -/
theorem lookup_counters_conserved (h : CallRuns env store tr pool) :
    ((∀ e ∈ tr, e.before.stats.Balanced ∧ e.after.stats.Balanced) ∧ pool.shared.stats.Balanced) ∧
    ∀ j call reply request, pool.threads[j]? = some (.ret (call, reply)) →
      call.looksUp = some request → request.key.finalize.finalized = true →
      ∃ e₁ e₂ e₃ rest, eventsOf tr j = e₁ :: e₂ :: e₃ :: rest ∧
        Stats.Idle e₁.before.stats e₁.after.stats ∧
        Stats.Raises (e₁.before.lookup request.key.finalize request.policy).outcome.counter
          e₂.before.stats e₂.after.stats ∧
        Stats.Idle e₃.before.stats e₃.after.stats ∧
        call.Ends (e₁.before.lookup request.key.finalize request.policy) rest reply := by
  refine ⟨runs_balanced h, fun j call reply request hj hlooks hfin => ?_⟩
  obtain ⟨p, ⟨asked, rfl⟩, hleads⟩ := h.leads hj
  obtain rfl : call = asked := (hleads.of_text asked.prog_text).2
  obtain ⟨s₁, s₂, s₃, rest, hpath, hends⟩ := UserCall.looksUp_leads hlooks hfin hleads
  -- the sections on the path are those of the thread, and each was taken by the cache
  obtain ⟨e₁, rest₁, hevents, he₁, hrest₁⟩ := List.map_eq_cons_iff.mp hpath
  obtain ⟨e₂, rest₂, rfl, he₂, hrest₂⟩ := List.map_eq_cons_iff.mp hrest₁
  obtain ⟨e₃, rest₃, rfl, he₃, hrest₃⟩ := List.map_eq_cons_iff.mp hrest₂
  obtain ⟨hlabel₁, rfl⟩ := Prod.mk.inj he₁
  obtain ⟨hlabel₂, rfl⟩ := Prod.mk.inj he₂
  obtain ⟨hlabel₃, rfl⟩ := Prod.mk.inj he₃
  have hstep : ∀ e ∈ e₁ :: e₂ :: e₃ :: rest₃, exec env e.label e.before = some e.after :=
    fun e he => h.event_step e (List.mem_filter.mp (hevents ▸ he)).1
  have hexec₁ := hstep e₁ (by simp)
  have hexec₂ := hstep e₂ (by simp)
  have hexec₃ := hstep e₃ (by simp)
  refine ⟨e₁, e₂, e₃, rest₃, hevents, ?_, ?_, ?_, ?_⟩
  · rw [hlabel₁] at hexec₁
    exact .of_lookupCounters (exec_lookupCounters hexec₁)
  · rw [hlabel₂] at hexec₂
    obtain ⟨-, hafter⟩ := exec_eq_some.mp hexec₂
    rw [hafter]
    exact Stats.raises_count _ _
  · rw [hlabel₃] at hexec₃
    exact .of_lookupCounters (exec_lookupCounters hexec₃)
  · rw [← hrest₃] at hends
    exact hends.of_map

/-- An explanation alone, of an accepted key. -/
theorem explain_traced (env : Env) (i : Nat) {s : Impl} (request : KernelLookupRequest)
    (hkey : request.key.wellFormed = true) (hfree : s.statsHeld = false) :
    ((UserCall.explain request).prog env).traced (exec env) i s =
      some (lookupEvents i s request.key.finalize (s.lookup request.key.finalize request.policy),
        (.explain request, .explain (.ok (.ofSummary request (str "outcome=" ++
          (s.lookup request.key.finalize request.policy).outcome.name) true))),
        s.lookedUp (s.lookup request.key.finalize request.policy)) := by
  show (Prog.bind (Prog.bind (lookupImpl request) _) _).traced _ _ _ = _
  rw [Prog.bind_assoc, Prog.traced_bind, lookupImpl_traced env i request hkey hfree]
  rfl

theorem initial_lookup (key : KernelCompatibilityKey) (policy : CompatibilityPolicy) :
    ((Impl.initial {}).lookup key policy).outcome = .missRequiresBuild := by
  have hnone : (Impl.initial {}).collectCandidates key = [] := by
    unfold Impl.collectCandidates
    dsimp only
    split <;> rfl
  unfold Impl.lookup
  rw [hnone]
  rfl

/-- A lookup in an empty cache, made to explain it, is a miss. -/
theorem lookup_counters_conserved_miss : ∃ tr pool, CallRuns {} {} tr pool ∧
    pool.shared.stats.Balanced ∧ pool.shared.stats.misses = 1 ∧
    ∃ e₁ e₂ e₃, eventsOf tr 0 = [e₁, e₂, e₃] ∧
      Stats.Raises .misses e₂.before.stats e₂.after.stats := by
  have hkey : (({} : KernelLookupRequest).key).wellFormed = true := defaultKey_wellFormed
  have hruns : CallRuns {} {} _ _ :=
    Runs.refl.complete ⟨.explain {}, rfl⟩ (explain_traced {} 0 {} hkey (s := Impl.initial {}) rfl)
  have hmiss := initial_lookup (({} : KernelLookupRequest).key.finalize) {}
  obtain ⟨⟨-, hbalanced⟩, hcounted⟩ := lookup_counters_conserved hruns
  have hfin : (({} : KernelLookupRequest).key.finalize).finalized = true := by
    rw [KernelCompatibilityKey.finalize_finalized]
    exact hkey
  obtain ⟨e₁, e₂, e₃, rest, hevents, -, hraises, -, rfl, -⟩ := hcounted 0 _ _ {} rfl rfl hfin
  refine ⟨_, _, hruns, hbalanced, ?_, e₁, e₂, e₃, hevents, ?_⟩
  · show (LookupOutcome.count _ _).misses = 1
    rw [hmiss]
    rfl
  · have hfirst : e₁.before = Impl.initial {} :=
      congrArg Event.before (List.cons.inj hevents).1.symm
    rw [hfirst, hmiss] at hraises
    exact hraises

end Runs

end KernelCache
