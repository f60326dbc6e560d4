/-
# KernelCache.Modules — what becomes of a loaded module.

Nothing in the code makes two journeys of modules on one record exclude each other.  `Step.orderly`
says where a section does not run into another one's business: a handle is overwritten or reset only
where there is none, or one that a thread has passed to `unload` already.  Where all sections are
orderly, modules are conserved (`modules_conserved`); two loads that meet lose one (`module_lost`).

The invariant `Conserved` keeps the books: where each module that was ever loaded is now.  Its step
lemmas follow the path of a module: `load`, `commit`, `call`, `reset`, and `quiet` for the rest.
-/
import KernelCache.ModulePath

namespace KernelCache

open Foundation (Prog Runs Pool Event phases phases_concat)

/-! ## What one section does to handles and to the loader's log -/

/-- How often a handle has been passed to `unload`. -/
def Impl.unloads (s : Impl) (handle : LoadedModuleHandle) : Nat :=
  s.loaderLog.countP fun
    | .unload h => h == handle
    | .load _ => false

/-- The section is a load for the record that succeeds with the handle. -/
def Step.Loads (env : Env) (s : Impl) (l : Step) (p : Nat) (handle : LoadedModuleHandle) : Prop :=
  ∃ bytes device footprint, l = .loadModule p bytes device ∧
    (s.loadModule env p bytes device).1 = .ok (handle, footprint)

/-- The handle a record has after the section. -/
def Step.rehandle (p : Nat) (old : LoadedModuleHandle) : Step → LoadedModuleHandle
  | .commitDevice q handle _ => if p = q then handle else old
  | .evictCommit q | .unloadCommit q => if p = q then none else old
  | _ => old

/-- How often the section passes a handle to `unload`. -/
def Step.unloadsOf (env : Env) (s : Impl) (handle : LoadedModuleHandle) : Step → Nat
  | .evictUnload p | .unloadCall p => if s.handed env p = handle ∧ handle ≠ none then 1 else 0
  | _ => 0

/-- The sections that call a loader. -/
def Step.callsLoader : Step → Bool
  | .loadModule _ _ _ | .evictUnload _ | .unloadCall _ => true
  | _ => false

theorem ArtifactRecord.evictCommit_nativeHandle (r : ArtifactRecord) :
    r.evictCommit.nativeHandle = none := by
  unfold ArtifactRecord.evictCommit
  split <;> rfl

theorem ArtifactRecord.validatedBy_nativeHandle (r : ArtifactRecord)
    (res : Result ValidationDescriptor) : (r.validatedBy res).nativeHandle = r.nativeHandle := by
  unfold ArtifactRecord.validatedBy
  split <;> rfl

theorem ArtifactRecord.Updates.nativeHandle {p : Nat} {l : Step} {r r' : ArtifactRecord}
    (h : Updates p r l r') : r'.nativeHandle = l.rehandle p r.nativeHandle := by
  cases h with
  | promoteDevice handle footprint => exact (if_pos rfl).symm
  | evictCommit => exact r.evictCommit_nativeHandle.trans (if_pos rfl).symm
  | unloaded => exact (if_pos rfl).symm
  | validatedBy res => exact r.validatedBy_nativeHandle res
  | _ => rfl

section Handles

variable {env : Env} {l : Step} {s s' : Impl}

/-- **Handles, one step.** -/
theorem exec_nativeHandle (h : exec env l s = some s') (hl : l.Proper) {p : Nat}
    (hp : p < s.nextRecord) :
    (s'.records p).nativeHandle = l.rehandle p (s.records p).nativeHandle := by
  cases l with
  | commitDevice q handle footprint =>
    rw [exec_rewritten h (f := fun r => r.promoteDevice handle footprint) rfl p]
    simp only [Step.rehandle]
    split <;> rfl
  | evictCommit q =>
    rw [exec_rewritten h (f := ArtifactRecord.evictCommit) rfl p]
    simp only [Step.rehandle]
    split
    · exact ArtifactRecord.evictCommit_nativeHandle _
    · rfl
  | unloadCommit q =>
    rw [exec_rewritten h (f := ArtifactRecord.unloaded) rfl p]
    simp only [Step.rehandle]
    split <;> rfl
  | _ =>
    rcases exec_records h hl hp with heq | hupd
    · rw [heq]
      rfl
    · exact hupd.nativeHandle

/-- Records start out without a module. -/
theorem exec_nativeHandle_fresh (h : exec env l s = some s') (hl : l.Proper) {p : Nat}
    (hp : s.nextRecord ≤ p) (hp' : p < s'.nextRecord) : (s'.records p).nativeHandle = none := by
  obtain ⟨r, hr, hrec⟩ := (exec_extends h hl).fresh p hp hp'
  have hnone : r.nativeHandle = none := by
    cases l with
    | publish fence o => exact (List.mem_singleton.mp hr) ▸ rfl
    | put desc bytes => exact (List.mem_singleton.mp hr) ▸ rfl
    | recoverInsert artifacts =>
      obtain ⟨a, -, rfl⟩ := List.mem_map.mp hr
      rfl
    | _ => cases hr
  rw [hrec]
  exact hnone

theorem Impl.insertAll_loaderLog (s : Impl) (rs : List ArtifactRecord) :
    (s.insertAll rs).loaderLog = s.loaderLog :=
  Impl.insertAll_induction (P := fun s' => s'.loaderLog = s.loaderLog) rfl fun _ _ _ h _ => h

theorem effect_loaderLog (hl : l.Proper) (hcall : l.callsLoader = false) :
    (l.effect env s).loaderLog = s.loaderLog := by
  by_cases hins : l.inserts = true
  · obtain ⟨st, hst⟩ := l.effect_inserts env s hins hl
    rw [hst]
    exact s.insertAll_loaderLog _
  · cases l with
    | publish fence o => exact absurd rfl hins
    | put desc bytes => exact absurd rfl hins
    | recoverInsert artifacts => exact absurd rfl hins
    | loadModule p bytes device => cases hcall
    | evictUnload p => cases hcall
    | unloadCall p => cases hcall
    | join digest =>
      simp only [Step.effect, Impl.join]
      split <;> rfl
    | fulfil fence o =>
      simp only [Step.effect, Impl.fulfil]
      split <;> rfl
    | eraseFence fence digest =>
      simp only [Step.effect, Impl.eraseFence]
      split <;> rfl
    | invalidate req =>
      simp only [Step.effect, Impl.invalidate, Impl.bump]
      rw [Impl.invalidateAll_index req s (s.selected env req)]
    | markPersisted o =>
      simp only [Step.effect, Impl.markPersisted, Impl.bump]
      split <;> rfl
    | evictBegin id force =>
      simp only [Step.effect, Impl.evictBegin]
      split
      · rfl
      · split
        · split <;> rfl
        · rfl
    | grantLease p withPin =>
      simp only [Step.effect, Impl.grantLease]
      split <;> rfl
    | pin id =>
      simp only [Step.effect, Impl.modifyId]
      split <;> rfl
    | unpin id =>
      simp only [Step.effect, Impl.modifyId]
      split <;> rfl
    | _ => rfl

/-- What a call of `unload` adds to the log. -/
theorem unloadModule_loaderLog (s : Impl) (p : Nat) : ((s.unloadModule env p).2).loaderLog =
    s.loaderLog ++ ((s.handed env p).map fun n => LoaderCall.unload (some n)).toList := by
  unfold Impl.unloadModule Impl.handed
  split
  · rename_i loader handle hloader hhandle
    rw [hloader, hhandle]
    rfl
  · rename_i hnone
    split
    · rename_i hloader
      obtain ⟨loader, hloader⟩ := Option.isSome_iff_exists.mp hloader
      cases hhandle : (s.records p).nativeHandle with
      | none => simp
      | some n => exact absurd hhandle (hnone loader n hloader)
    · simp

theorem unloadModule_unloads (s : Impl) (p : Nat) (handle : LoadedModuleHandle) :
    ((s.unloadModule env p).2).unloads handle =
      s.unloads handle + if s.handed env p = handle ∧ handle ≠ none then 1 else 0 := by
  rw [Impl.unloads, unloadModule_loaderLog, List.countP_append]
  congr 1
  cases hhanded : s.handed env p with
  | none =>
    rw [if_neg]
    · rfl
    · rintro ⟨rfl, hne⟩
      exact hne rfl
  | some n =>
    by_cases heq : some n = handle
    · subst heq
      simp
    · simp [heq]

/-- **The loader's log, one step.** -/
theorem exec_unloads (h : exec env l s = some s') (hl : l.Proper) (handle : LoadedModuleHandle) :
    s'.unloads handle = s.unloads handle + l.unloadsOf env s handle := by
  obtain ⟨-, rfl⟩ := exec_eq_some.mp h
  show (l.effect env s).unloads handle = _
  cases l with
  | evictUnload p => exact unloadModule_unloads s p handle
  | unloadCall p => exact unloadModule_unloads s p handle
  | loadModule p bytes device =>
    simp only [Step.effect, Impl.loadModule, Step.unloadsOf]
    split
    · rfl
    · split
      · rfl
      · simp [Impl.unloads]
  | _ =>
    simp only [Impl.unloads, effect_loaderLog hl rfl, Step.unloadsOf]
    rfl

end Handles

/-! ## The condition -/

/-- A module that some loader may give out at a time. -/
def Env.GivesOut (env : Env) (tick : Nat) (handle : LoadedModuleHandle) : Prop :=
  ∃ b ∈ env.backends, ∃ loader, b.loader = some loader ∧
    ∃ key bytes device, loader.load tick key bytes device = .ok handle

/-- What a successful `load` returns is a module, and a new one. -/
structure Env.FreshLoads (env : Env) : Prop where
  notNull : ∀ tick, ¬ env.GivesOut tick none
  once : ∀ t t' handle, env.GivesOut t handle → env.GivesOut t' handle → t = t'

theorem Step.Loads.givesOut {env : Env} {s : Impl} {l : Step} {p : Nat}
    {handle : LoadedModuleHandle} (h : l.Loads env s p handle) : env.GivesOut s.tick handle := by
  obtain ⟨bytes, device, footprint, -, hload⟩ := h
  unfold Impl.loadModule at hload
  split at hload
  · cases hload
  · rename_i loader hloader
    obtain ⟨backend, hbackend, hb⟩ := Option.bind_eq_some_iff.mp hloader
    split at hload
    · cases hload
    · rename_i handle' hok
      cases hload
      exact ⟨backend, findBackend_mem hbackend, loader, hb, _, _, _, hok⟩

theorem Step.Loads.ne_none {env : Env} {s : Impl} {l : Step} {p : Nat}
    {handle : LoadedModuleHandle} (h : l.Loads env s p handle) (hfresh : env.FreshLoads) :
    handle ≠ none := by
  rintro rfl
  exact hfresh.notNull _ h.givesOut

/-- What every thread has in hand after a trace. -/
def inHand (env : Env) (tr : List (Event Step Impl)) : Nat → Holding :=
  phases (Holding.next env) (fun _ => .nothing) tr

/-- The record has no module, or one that a thread has passed to `unload` and not reset yet. -/
def Impl.Idle (s : Impl) (P : Nat → Holding) (p : Nat) : Prop :=
  (s.records p).nativeHandle = none ∨ ∃ j, P j = .unloaded p (s.records p).nativeHandle

/-- The section does not run into another one's business with the record: a handle is overwritten or
reset on an idle record only, a module is passed to `unload` while no other thread is unloading it,
and `unload` does not throw. -/
def Step.orderly (env : Env) (P : Nat → Holding) (s : Impl) : Step → Prop
  | .commitDevice p _ _ | .evictCommit p | .unloadCommit p => s.Idle P p
  | .evictUnload p | .unloadCall p => (s.unloadModule env p).1 ≠ .error .exception ∧
      ∀ j n, (s.records p).nativeHandle = some n → P j ≠ .unloaded p (some n)
  | _ => True

/-- Every section of the trace is orderly where it is taken. -/
def Orderly (env : Env) (tr : List (Event Step Impl)) : Prop :=
  ∀ tr₁ e tr₂, tr = tr₁ ++ e :: tr₂ → e.label.orderly env (inHand env tr₁) e.before

theorem Orderly.of_concat {env : Env} {tr : List (Event Step Impl)} {e : Event Step Impl}
    (h : Orderly env (tr ++ [e])) :
    Orderly env tr ∧ e.label.orderly env (inHand env tr) e.before := by
  refine ⟨fun tr₁ e' tr₂ heq => h tr₁ e' (tr₂ ++ [e]) ?_, h tr e [] rfl⟩
  rw [heq, List.append_assoc, List.cons_append]

/-! ## Conservation -/

/-- The last section a thread has taken. -/
def lastOf (tr : List (Event Step Impl)) (i : Nat) : Option (Event Step Impl) :=
  (tr.filter fun e => e.thread == i).getLast?

theorem lastOf_concat (tr : List (Event Step Impl)) (e : Event Step Impl) (i : Nat) :
    lastOf (tr ++ [e]) i = if e.thread = i then some e else lastOf tr i := by
  unfold lastOf
  rw [List.filter_append]
  by_cases h : e.thread = i
  · simp [h]
  · simp [h]

theorem lastOf_mem {tr : List (Event Step Impl)} {i : Nat} {e : Event Step Impl}
    (h : lastOf tr i = some e) : e ∈ tr ∧ e.thread = i := by
  have hmem := List.mem_of_getLast? h
  rw [List.mem_filter] at hmem
  exact ⟨hmem.1, by simpa using hmem.2⟩

/-- The books of the modules: every module that was loaded is in the hand of the thread that loaded
it, or with its record, or has been passed to `unload` once. -/
structure Conserved (env : Env) (tr : List (Event Step Impl)) (P : Nat → Holding) (s : Impl) :
    Prop where
  before : ∀ e ∈ tr, e.before.tick < s.tick
  once : ∀ e ∈ tr, ∀ e' ∈ tr, ∀ p p' handle, e.label.Loads env e.before p handle →
    e'.label.Loads env e'.before p' handle → e = e'
  hand : ∀ i p handle, P i = .loaded p handle →
    (∃ e, lastOf tr i = some e ∧ e.label.Loads env e.before p handle) ∧ s.unloads handle = 0 ∧
      ∀ q < s.nextRecord, (s.records q).nativeHandle ≠ handle
  record : ∀ p < s.nextRecord, ∀ n, (s.records p).nativeHandle = some n →
    (∃ e ∈ tr, e.label.Loads env e.before p (some n)) ∧
      (s.unloads (some n) = 0 ∨ ∃ j, P j = .unloaded p (some n))
  called : ∀ i p n, P i = .unloaded p (some n) → s.unloads (some n) = 1
  known : ∀ n, s.unloads (some n) ≠ 0 → ∃ e ∈ tr, ∃ p, e.label.Loads env e.before p (some n)
  account : ∀ e ∈ tr, ∀ p handle, e.label.Loads env e.before p handle → p < s.nextRecord ∧
    (P e.thread = .loaded p handle ∨
      ((s.records p).nativeHandle = handle ∧ s.unloads handle = 0) ∨ s.unloads handle = 1)

namespace Conserved

section Steps

variable {env : Env} {tr : List (Event Step Impl)} {P : Nat → Holding} {i : Nat} {l : Step}
  {s s' : Impl}

theorem update_of_hand {j : Nat} {held ph : Holding} (hi : P i = .nothing) (hj : P j = ph)
    (hph : ph ≠ .nothing) : Function.update P i held j = ph := by
  rw [Function.update_of_ne]
  · exact hj
  · rintro rfl
    exact hph (hj.symm.trans hi)

theorem tick_lt (hc : Conserved env tr P s) (h : exec env l s = some s') :
    ∀ e ∈ tr ++ [⟨i, l, s, s'⟩], e.before.tick < s'.tick := by
  obtain ⟨-, rfl⟩ := exec_eq_some.mp h
  intro e he
  show e.before.tick < s.tick + 1
  rcases List.mem_append.mp he with he | he
  · have hlt := hc.before e he
    omega
  · obtain rfl := List.mem_singleton.mp he
    exact Nat.lt_succ_self _

/-- A load that happens now gives out a module that none gave out before. -/
theorem unloaded_before (hc : Conserved env tr P s) (hfresh : env.FreshLoads)
    {handle : LoadedModuleHandle} {p : Nat} (hload : l.Loads env s p handle) :
    ∀ e ∈ tr, ∀ q, ¬ e.label.Loads env e.before q handle := by
  intro e he q hq
  have heq := hfresh.once _ _ handle hq.givesOut hload.givesOut
  have hlt := hc.before e he
  omega

theorem loads_once (hc : Conserved env tr P s) (hfresh : env.FreshLoads) :
    ∀ e ∈ tr ++ [⟨i, l, s, s'⟩], ∀ e' ∈ tr ++ [⟨i, l, s, s'⟩], ∀ p p' handle,
      e.label.Loads env e.before p handle → e'.label.Loads env e'.before p' handle → e = e' := by
  intro e he e' he' p p' handle hp hp'
  rcases List.mem_append.mp he with he | he <;> rcases List.mem_append.mp he' with he' | he'
  · exact hc.once e he e' he' p p' handle hp hp'
  · obtain rfl := List.mem_singleton.mp he'
    exact absurd hp (hc.unloaded_before hfresh hp' e he p)
  · obtain rfl := List.mem_singleton.mp he
    exact absurd hp' (hc.unloaded_before hfresh hp e' he' p')
  · rw [List.mem_singleton.mp he, List.mem_singleton.mp he']

/-- The loads of a trace after a section that is none. -/
theorem loads_of_concat {e₀ e : Event Step Impl} {p : Nat} {handle : LoadedModuleHandle}
    (hnone : ∀ p handle, ¬ e₀.label.Loads env e₀.before p handle) (he : e ∈ tr ++ [e₀])
    (hload : e.label.Loads env e.before p handle) : e ∈ tr := by
  rcases List.mem_append.mp he with he | he
  · exact he
  · obtain rfl := List.mem_singleton.mp he
    exact absurd hload (hnone p handle)

/-- The module of an idle record has been passed to `unload`. -/
theorem unloads_of_idle (hc : Conserved env tr P s) {p : Nat} {handle : LoadedModuleHandle}
    (hidle : s.Idle P p) (hp : (s.records p).nativeHandle = handle) (hne : handle ≠ none) :
    s.unloads handle = 1 := by
  obtain ⟨n, rfl⟩ := Option.ne_none_iff_exists'.mp hne
  rcases hidle with hnone | ⟨j, hj⟩
  · rw [hnone] at hp
    cases hp
  · rw [hp] at hj
    exact hc.called j p n hj

/-- With nothing in hand, a thread is not among those that unload. -/
theorem unloaded_of_update {j q : Nat} {handle : LoadedModuleHandle}
    (hj : Function.update P i .nothing j = .unloaded q handle) : P j = .unloaded q handle := by
  by_cases hij : i = j
  · subst hij
    rw [Function.update_self] at hj
    cases hj
  · rwa [Function.update_of_ne (Ne.symm hij)] at hj

/-- A section that gives out no module.  What is left to show speaks about the section's own change to
handles, to the log and to what its thread has in hand. -/
theorem of_unloaded (hc : Conserved env tr P s) (h : exec env l s = some s') (hl : l.Proper)
    (hfresh : env.FreshLoads) (hload : ∀ p handle, ¬ l.Loads env s p handle) {P' : Nat → Holding}
    (hhand : ∀ j p handle, P' j = .loaded p handle → i ≠ j ∧ P j = .loaded p handle ∧
      l.unloadsOf env s handle = 0 ∧
      ∀ q < s.nextRecord, l.rehandle q (s.records q).nativeHandle ≠ handle)
    (hrecord : ∀ p < s.nextRecord, ∀ n, l.rehandle p (s.records p).nativeHandle = some n →
      (∃ e ∈ tr, e.label.Loads env e.before p (some n)) ∧
        (s.unloads (some n) + l.unloadsOf env s (some n) = 0 ∨ ∃ j, P' j = .unloaded p (some n)))
    (hcalled : ∀ j p n, P' j = .unloaded p (some n) →
      s.unloads (some n) + l.unloadsOf env s (some n) = 1)
    (hknown : ∀ n, l.unloadsOf env s (some n) ≠ 0 →
      ∃ e ∈ tr, ∃ p, e.label.Loads env e.before p (some n))
    (haccount : ∀ e ∈ tr, ∀ p handle, e.label.Loads env e.before p handle →
      P' e.thread = .loaded p handle ∨
        (l.rehandle p (s.records p).nativeHandle = handle ∧
          s.unloads handle + l.unloadsOf env s handle = 0) ∨
        s.unloads handle + l.unloadsOf env s handle = 1) :
    Conserved env (tr ++ [⟨i, l, s, s'⟩]) P' s' := by
  have hunloads := exec_unloads h hl
  have hold := fun {p} => exec_nativeHandle (p := p) h hl
  have hnext := (exec_extends h hl).next_le
  -- what has a handle was there before
  have hfew : ∀ p < s'.nextRecord, ∀ n, (s'.records p).nativeHandle = some n →
      p < s.nextRecord := by
    intro p hp n hn
    by_contra hge
    rw [exec_nativeHandle_fresh h hl (by omega) hp] at hn
    cases hn
  constructor
  · exact hc.tick_lt h
  · exact hc.loads_once hfresh
  · intro j p handle hj
    obtain ⟨hne, hj, hcount, hnot⟩ := hhand j p handle hj
    obtain ⟨⟨e, hlast, he⟩, hzero, -⟩ := hc.hand j p handle hj
    refine ⟨⟨e, ?_, he⟩, ?_, fun q hq heq => ?_⟩
    · rw [lastOf_concat, if_neg hne]
      exact hlast
    · rw [hunloads, hzero, hcount]
    · cases hn : (s'.records q).nativeHandle with
      | none =>
        rw [hn] at heq
        subst heq
        exact hfresh.notNull _ he.givesOut
      | some n =>
        have hlt := hfew q hq n hn
        rw [hold hlt] at heq
        exact hnot q hlt heq
  · intro p hp n hn
    have hlt := hfew p hp n hn
    rw [hold hlt] at hn
    obtain ⟨⟨e, he, hload'⟩, hzero⟩ := hrecord p hlt n hn
    rw [hunloads]
    exact ⟨⟨e, List.mem_append_left _ he, hload'⟩, hzero⟩
  · intro j p n hj
    rw [hunloads]
    exact hcalled j p n hj
  · intro n hn
    rw [hunloads] at hn
    have hsome : ∃ e ∈ tr, ∃ p, e.label.Loads env e.before p (some n) := by
      by_cases hzero : s.unloads (some n) = 0
      · exact hknown n (by omega)
      · exact hc.known n hzero
    obtain ⟨e, he, hload'⟩ := hsome
    exact ⟨e, List.mem_append_left _ he, hload'⟩
  · intro e he p handle hp
    have hmem := loads_of_concat hload he hp
    have hlt := (hc.account e hmem p handle hp).1
    rw [hold hlt, hunloads]
    exact ⟨by omega, haccount e hmem p handle hp⟩

/-- A section that touches no handle and calls no loader with success, by a thread with nothing in
hand. -/
theorem quiet (hc : Conserved env tr P s) (h : exec env l s = some s') (hl : l.Proper)
    (hfresh : env.FreshLoads) (hload : ∀ p handle, ¬ l.Loads env s p handle)
    (hhandle : ∀ p old, l.rehandle p old = old) (hcount : ∀ handle, l.unloadsOf env s handle = 0)
    (hhand : P i = .nothing) : Conserved env (tr ++ [⟨i, l, s, s'⟩]) P s' := by
  refine hc.of_unloaded h hl hfresh hload ?_ ?_ ?_ ?_ ?_
  · intro j p handle hj
    have hne : i ≠ j := by
      rintro rfl
      rw [hhand] at hj
      cases hj
    refine ⟨hne, hj, hcount handle, fun q hq => ?_⟩
    rw [hhandle]
    exact (hc.hand j p handle hj).2.2 q hq
  · intro p hp n hn
    rw [hhandle] at hn
    rw [hcount]
    exact hc.record p hp n hn
  · intro j p n hj
    rw [hcount]
    exact hc.called j p n hj
  · intro n hn
    exact absurd (hcount (some n)) hn
  · intro e he p handle hp
    rw [hhandle, hcount]
    exact (hc.account e he p handle hp).2

/-- A load that succeeds puts a new module in hand. -/
theorem load (hc : Conserved env tr P s) (h : exec env l s = some s') (hl : l.Proper)
    (hfresh : env.FreshLoads) (hground : l.Grounded s) (hhand : P i = .nothing) {p : Nat}
    {handle : LoadedModuleHandle} (hload : l.Loads env s p handle) :
    Conserved env (tr ++ [⟨i, l, s, s'⟩]) (Function.update P i (.loaded p handle)) s' := by
  obtain ⟨n, rfl⟩ := Option.ne_none_iff_exists'.mp (hload.ne_none hfresh)
  obtain ⟨bytes, device, footprint, rfl, hok⟩ := id hload
  have hnew := hc.unloaded_before hfresh hload
  have hnext : s'.nextRecord = s.nextRecord := by
    obtain ⟨-, rfl⟩ := exec_eq_some.mp h
    exact ((Step.loadModule p bytes device).effect_frame env s rfl).1.nextRecord
  have hunloads : ∀ handle', s'.unloads handle' = s.unloads handle' := exec_unloads h hl
  have hold : ∀ q < s.nextRecord, (s'.records q).nativeHandle = (s.records q).nativeHandle :=
    fun q hq => exec_nativeHandle h hl hq
  have hzero : s.unloads (some n) = 0 := by
    by_contra hne
    obtain ⟨e, he, q, hq⟩ := hc.known n hne
    exact hnew e he q hq
  have hnot : ∀ q < s.nextRecord, (s.records q).nativeHandle ≠ some n := by
    intro q hq heq
    obtain ⟨⟨e, he, hq⟩, -⟩ := hc.record q hq n heq
    exact hnew e he q hq
  constructor
  · exact hc.tick_lt h
  · exact hc.loads_once hfresh
  · intro j q handle' hj
    rw [hunloads, hnext, lastOf_concat]
    by_cases hij : i = j
    · subst hij
      rw [Function.update_self] at hj
      cases hj
      refine ⟨⟨_, if_pos rfl, hload⟩, hzero, fun q hq => ?_⟩
      rw [hold q hq]
      exact hnot q hq
    · rw [Function.update_of_ne (Ne.symm hij)] at hj
      obtain ⟨hlast, hzero', hnot'⟩ := hc.hand j q handle' hj
      rw [if_neg hij]
      refine ⟨hlast, hzero', fun q hq => ?_⟩
      rw [hold q hq]
      exact hnot' q hq
  · intro q hq n hn
    rw [hnext] at hq
    rw [hold q hq] at hn
    obtain ⟨⟨e, he, hload'⟩, hwhere⟩ := hc.record q hq n hn
    rw [hunloads]
    refine ⟨⟨e, List.mem_append_left _ he, hload'⟩, hwhere.imp_right ?_⟩
    rintro ⟨j, hj⟩
    exact ⟨j, update_of_hand hhand hj nofun⟩
  · intro j q n hj
    rw [hunloads]
    refine hc.called j q n ?_
    by_cases hij : i = j
    · subst hij
      rw [Function.update_self] at hj
      cases hj
    · rwa [Function.update_of_ne (Ne.symm hij)] at hj
  · intro n hn
    rw [hunloads] at hn
    obtain ⟨e, he, hload'⟩ := hc.known n hn
    exact ⟨e, List.mem_append_left _ he, hload'⟩
  · intro e he q handle' hq
    rw [hnext]
    rcases List.mem_append.mp he with he | he
    · obtain ⟨hlt, hwhere⟩ := hc.account e he q handle' hq
      rw [hold q hlt, hunloads]
      exact ⟨hlt, hwhere.imp_left fun hj => update_of_hand hhand hj nofun⟩
    · obtain rfl := List.mem_singleton.mp he
      obtain ⟨_, _, _, hlabel, hok'⟩ := hq
      cases hlabel
      rw [hok] at hok'
      cases hok'
      exact ⟨hground, .inl (Function.update_self ..)⟩

/-- The commit of a load: what was in hand is with the record now. -/
theorem commit (hc : Conserved env tr P s) {p : Nat} {handle : LoadedModuleHandle}
    {footprint : UInt64 × Bool} (h : exec env (.commitDevice p handle footprint) s = some s')
    (hfresh : env.FreshLoads) (hhand : P i = .loaded p handle) (hidle : s.Idle P p) :
    Conserved env (tr ++ [⟨i, .commitDevice p handle footprint, s, s'⟩])
      (Function.update P i .nothing) s' := by
  obtain ⟨⟨e₀, hlast₀, hload₀⟩, hzero₀, hnot₀⟩ := hc.hand i p handle hhand
  obtain ⟨hmem₀, hthread₀⟩ := lastOf_mem hlast₀
  refine hc.of_unloaded h trivial hfresh (by rintro q handle' ⟨_, _, _, hlabel, -⟩; cases hlabel)
    ?_ ?_ ?_ ?_ ?_
  · intro j q handle' hj
    by_cases hij : i = j
    · subst hij
      rw [Function.update_self] at hj
      cases hj
    · rw [Function.update_of_ne (Ne.symm hij)] at hj
      refine ⟨hij, hj, rfl, fun q' hq' => ?_⟩
      obtain ⟨⟨e, hlast, hload⟩, -, hnot⟩ := hc.hand j q handle' hj
      simp only [Step.rehandle]
      split
      · -- no module is in two hands
        rintro rfl
        obtain ⟨hmem, hthread⟩ := lastOf_mem hlast
        have heq := hc.once e₀ hmem₀ e hmem p q handle hload₀ hload
        rw [← heq, hthread₀] at hthread
        exact hij hthread
      · exact hnot q' hq'
  · intro q hq n hn
    simp only [Step.rehandle] at hn
    split at hn
    · rename_i hqp
      subst hqp hn
      exact ⟨⟨e₀, hmem₀, hload₀⟩, .inl hzero₀⟩
    · obtain ⟨hknown, hwhere⟩ := hc.record q hq n hn
      refine ⟨hknown, hwhere.imp_right ?_⟩
      rintro ⟨j, hj⟩
      refine ⟨j, ?_⟩
      rw [Function.update_of_ne]
      · exact hj
      · rintro rfl
        rw [hhand] at hj
        cases hj
  · intro j q n hj
    exact hc.called j q n (unloaded_of_update hj)
  · intro n hn
    exact absurd rfl hn
  · intro e he q handle' hq
    rcases (hc.account e he q handle' hq).2 with hj | ⟨hq', hzero⟩ | hone
    · by_cases hij : i = e.thread
      · -- the module that was in hand
        rw [← hij, hhand] at hj
        cases hj
        exact .inr (.inl ⟨if_pos rfl, hzero₀⟩)
      · rw [Function.update_of_ne (Ne.symm hij)]
        exact .inl hj
    · simp only [Step.rehandle]
      split
      · -- an idle record has lost no module
        rename_i hqp
        subst hqp
        exact .inr (.inr (hc.unloads_of_idle hidle hq' (hq.ne_none hfresh)))
      · exact .inr (.inl ⟨hq', hzero⟩)
    · exact .inr (.inr hone)

/-- The call of an unload that is orderly passes a module on for the first time. -/
theorem call (hc : Conserved env tr P s) {p : Nat} (h : exec env l s = some s')
    (hfresh : env.FreshLoads) (hcall : l = .evictUnload p ∨ l = .unloadCall p)
    (hground : p < s.nextRecord) (hhand : P i = .nothing)
    (hfirst : ∀ j n, (s.records p).nativeHandle = some n → P j ≠ .unloaded p (some n)) :
    Conserved env (tr ++ [⟨i, l, s, s'⟩])
      (Function.update P i (.unloaded p (s.handed env p))) s' := by
  have hl : l.Proper := by
    rcases hcall with rfl | rfl <;> trivial
  have hload : ∀ q handle, ¬ l.Loads env s q handle := by
    rintro q handle ⟨_, _, _, rfl, -⟩
    rcases hcall with heq | heq <;> cases heq
  have hhandle : ∀ q old, l.rehandle q old = old := by
    rcases hcall with rfl | rfl <;> exact fun _ _ => rfl
  have hcount : ∀ handle, l.unloadsOf env s handle =
      if s.handed env p = handle ∧ handle ≠ none then 1 else 0 := by
    rcases hcall with rfl | rfl <;> exact fun _ => rfl
  -- what is handed over is the module of the record, and it is handed over for the first time
  have hhanded : ∀ n, s.handed env p = some n → (s.records p).nativeHandle = some n ∧
      s.unloads (some n) = 0 := by
    intro n hn
    have hrec : (s.records p).nativeHandle = some n := by
      unfold Impl.handed at hn
      split at hn
      · exact hn
      · cases hn
    refine ⟨hrec, ?_⟩
    rcases (hc.record p hground n hrec).2 with hzero | ⟨j, hj⟩
    · exact hzero
    · exact absurd hj (hfirst j n hrec)
  refine hc.of_unloaded h hl hfresh hload ?_ ?_ ?_ ?_ ?_
  · intro j q handle hj
    by_cases hij : i = j
    · subst hij
      rw [Function.update_self] at hj
      cases hj
    · rw [Function.update_of_ne (Ne.symm hij)] at hj
      obtain ⟨-, -, hnot⟩ := hc.hand j q handle hj
      refine ⟨hij, hj, ?_, fun q' hq' => ?_⟩
      · rw [hcount, if_neg]
        rintro ⟨rfl, hne⟩
        obtain ⟨n, hn⟩ := Option.ne_none_iff_exists'.mp hne
        rw [hn] at hnot
        exact hnot p hground (hhanded n hn).1
      · rw [hhandle]
        exact hnot q' hq'
  · intro q hq n hn
    rw [hhandle] at hn
    obtain ⟨hknown, hwhere⟩ := hc.record q hq n hn
    refine ⟨hknown, ?_⟩
    rw [hcount]
    split
    · rename_i hmine
      -- the module is that of one record only
      have hsame := hc.record p hground n (hhanded n hmine.1).1
      obtain ⟨⟨e, he, hq⟩, -⟩ := And.intro hknown hwhere
      obtain ⟨⟨e', he', hp⟩, -⟩ := hsame
      obtain rfl := hc.once e he e' he' q p (some n) hq hp
      obtain ⟨_, _, _, hlabel, -⟩ := hq
      obtain ⟨_, _, _, hlabel', -⟩ := hp
      rw [hlabel] at hlabel'
      cases hlabel'
      exact .inr ⟨i, by rw [Function.update_self, hmine.1]⟩
    · refine hwhere.imp_right ?_
      rintro ⟨j, hj⟩
      exact ⟨j, update_of_hand hhand hj nofun⟩
  · intro j q n hj
    by_cases hij : i = j
    · subst hij
      rw [Function.update_self] at hj
      injection hj with _ hn
      rw [hcount, if_pos ⟨hn, nofun⟩, (hhanded n hn).2]
    · rw [Function.update_of_ne (Ne.symm hij)] at hj
      have hone := hc.called j q n hj
      rw [hcount, if_neg, hone]
      rintro ⟨hn, -⟩
      have hzero := (hhanded n hn).2
      omega
  · intro n hn
    rw [hcount] at hn
    have hmine : s.handed env p = some n := by
      by_contra hne
      exact hn (if_neg fun hboth => hne hboth.1)
    obtain ⟨e, he, hq⟩ := (hc.record p hground n (hhanded n hmine).1).1
    exact ⟨e, he, p, hq⟩
  · intro e he q handle hq
    rw [hhandle, hcount]
    rcases (hc.account e he q handle hq).2 with hj | ⟨hq', hzero⟩ | hone
    · exact .inl (update_of_hand hhand hj nofun)
    · split
      · right; right
        omega
      · exact .inr (.inl ⟨hq', hzero⟩)
    · rw [if_neg]
      · exact .inr (.inr hone)
      · rintro ⟨hmine, hne⟩
        obtain ⟨n, rfl⟩ := Option.ne_none_iff_exists'.mp hne
        have hzero := (hhanded n hmine).2
        omega

/-- The reset of an idle record loses nothing. -/
theorem reset (hc : Conserved env tr P s) {p : Nat} (h : exec env l s = some s')
    (hfresh : env.FreshLoads) (hreset : l = .evictCommit p ∨ l = .unloadCommit p)
    {handle : LoadedModuleHandle} (hhand : P i = .unloaded p handle) (hidle : s.Idle P p) :
    Conserved env (tr ++ [⟨i, l, s, s'⟩]) (Function.update P i .nothing) s' := by
  have hl : l.Proper := by
    rcases hreset with rfl | rfl <;> trivial
  have hload : ∀ q handle, ¬ l.Loads env s q handle := by
    rintro q handle ⟨_, _, _, rfl, -⟩
    rcases hreset with heq | heq <;> cases heq
  have hhandle : ∀ q old, l.rehandle q old = if q = p then none else old := by
    rcases hreset with rfl | rfl <;> exact fun _ _ => rfl
  have hcount : ∀ handle, l.unloadsOf env s handle = 0 := by
    rcases hreset with rfl | rfl <;> exact fun _ => rfl
  refine hc.of_unloaded h hl hfresh hload ?_ ?_ ?_ ?_ ?_
  · intro j q handle' hj
    by_cases hij : i = j
    · subst hij
      rw [Function.update_self] at hj
      cases hj
    · rw [Function.update_of_ne (Ne.symm hij)] at hj
      obtain ⟨⟨e, -, hload'⟩, -, hnot⟩ := hc.hand j q handle' hj
      refine ⟨hij, hj, hcount handle', fun q' hq' => ?_⟩
      rw [hhandle]
      split
      · exact (hload'.ne_none hfresh).symm
      · exact hnot q' hq'
  · intro q hq n hn
    rw [hhandle] at hn
    rw [hcount]
    split at hn
    · cases hn
    · rename_i hqp
      obtain ⟨hknown, hwhere⟩ := hc.record q hq n hn
      refine ⟨hknown, hwhere.imp_right ?_⟩
      rintro ⟨j, hj⟩
      refine ⟨j, ?_⟩
      rw [Function.update_of_ne]
      · exact hj
      · rintro rfl
        rw [hhand] at hj
        injection hj with heq
        exact hqp heq.symm
  · intro j q n hj
    rw [hcount]
    exact hc.called j q n (unloaded_of_update hj)
  · intro n hn
    exact absurd (hcount (some n)) hn
  · intro e he q handle' hq
    rw [hhandle, hcount]
    rcases (hc.account e he q handle' hq).2 with hj | ⟨hq', hzero⟩ | hone
    · left
      rw [Function.update_of_ne]
      · exact hj
      · intro heq
        rw [heq, hhand] at hj
        cases hj
    · split
      · rename_i hqp
        subst hqp
        exact .inr (.inr (hc.unloads_of_idle hidle hq' (hq.ne_none hfresh)))
      · exact .inr (.inl ⟨hq', hzero⟩)
    · exact .inr (.inr hone)

/-- **One step.** An orderly section keeps the books. -/
theorem step (hc : Conserved env tr P s) (h : exec env l s = some s') (hl : l.Proper)
    (hfresh : env.FreshLoads) (hground : l.Grounded s) (hok : (P i).ok l s)
    (horderly : l.orderly env P s) :
    Conserved env (tr ++ [⟨i, l, s, s'⟩]) (Function.update P i ((P i).next env l s)) s' := by
  -- a section by which nothing changes hands
  have hquiet : P i = .nothing → (P i).next env l s = P i → (∀ p handle, ¬ l.Loads env s p handle) →
      (∀ p old, l.rehandle p old = old) → (∀ handle, l.unloadsOf env s handle = 0) →
      Conserved env (tr ++ [⟨i, l, s, s'⟩]) (Function.update P i ((P i).next env l s)) s' := by
    intro hhand hsame hload hhandle hcount
    rw [hsame, Function.update_eq_self]
    exact hc.quiet h hl hfresh hload hhandle hcount hhand
  have hcall : ∀ p, (l = .evictUnload p ∨ l = .unloadCall p) → p < s.nextRecord → P i = .nothing →
      (s.unloadModule env p).1 ≠ .error .exception ∧
        (∀ j n, (s.records p).nativeHandle = some n → P j ≠ .unloaded p (some n)) →
      Conserved env (tr ++ [⟨i, l, s, s'⟩]) (Function.update P i ((P i).next env l s)) s' := by
    intro p hl' hlt hhand hfirst
    have hnext : (P i).next env l s = .unloaded p (s.handed env p) := by
      rcases hl' with rfl | rfl
      all_goals
        simp only [Holding.next]
        split
        · rename_i hthrow
          exact absurd hthrow hfirst.1
        · rfl
    rw [hnext]
    exact hc.call h hfresh hl' hlt hhand hfirst.2
  cases l with
  | loadModule p bytes device =>
    cases hload : (s.loadModule env p bytes device).1 with
    | error e =>
      refine hquiet hok ?_ ?_ (fun _ _ => rfl) fun _ => rfl
      · simp only [Holding.next, hload]
        exact hok.symm
      · rintro q handle ⟨_, _, _, hlabel, hload'⟩
        cases hlabel
        rw [hload] at hload'
        cases hload'
    | ok out =>
      obtain ⟨handle, footprint⟩ := out
      have hnext : (P i).next env (.loadModule p bytes device) s = .loaded p handle := by
        simp only [Holding.next, hload]
      rw [hnext]
      exact hc.load h hl hfresh hground hok ⟨bytes, device, footprint, rfl, hload⟩
  | commitDevice p handle footprint => exact hc.commit h hfresh hok horderly
  | evictUnload p => exact hcall p (.inl rfl) hground hok horderly
  | unloadCall p => exact hcall p (.inr rfl) hground hok horderly
  | evictCommit p =>
    obtain ⟨handle, hhand⟩ := hok
    exact hc.reset h hfresh (.inl rfl) hhand horderly
  | unloadCommit p =>
    obtain ⟨handle, hhand⟩ := hok
    exact hc.reset h hfresh (.inr rfl) hhand horderly
  | _ =>
    refine hquiet hok rfl ?_ (fun _ _ => rfl) fun _ => rfl
    rintro q handle ⟨_, _, _, hlabel, -⟩
    cases hlabel

end Steps

end Conserved

theorem initial_conserved (env : Env) (store : FilePersistenceStore) :
    Conserved env [] (fun _ => .nothing) (Impl.initial store) where
  before _ he := by cases he
  once _ he := by cases he
  hand _ _ _ h := by cases h
  record _ hp := absurd hp (Nat.not_lt_zero _)
  called _ _ _ h := by cases h
  known _ h := absurd rfl h
  account _ he := by cases he

/-- The steps considered. -/
structure GroundedSteps (l : Step) (s _s' : Impl) : Prop where
  proper : l.Proper
  grounded : l.Grounded s

/-- **Modules are conserved.** In every interleaved run whose sections are orderly, with loaders that
give out every module once: a module returned by a load is still in the hand of its thread, for which
the load is the last section it has taken, or it is the handle of its record and has not been passed
to `unload`, or it has been passed to `unload` exactly once. -/
theorem modules_conserved {env : Env} {store : FilePersistenceStore}
    {tr : List (Event Step Impl)} {pool : Pool Step Impl Answer} (h : CacheRuns env store tr pool)
    (hfresh : env.FreshLoads) (horderly : Orderly env tr) {e : Event Step Impl} (he : e ∈ tr)
    {p : Nat} {handle : LoadedModuleHandle} (hload : e.label.Loads env e.before p handle) :
    (lastOf tr e.thread = some e ∧ pool.shared.unloads handle = 0) ∨
      ((pool.shared.records p).nativeHandle = handle ∧ pool.shared.unloads handle = 0) ∨
      pool.shared.unloads handle = 1 := by
  have hrule := Runs.protocol Holding.ok (Holding.next env) (fun _ => .nothing)
    (C := GroundedSteps) (Q := fun _ _ held _ => held = .nothing)
    (J := fun tr P s => P = inHand env tr ∧ (Orderly env tr → Conserved env tr P s))
    (fun i p hp => by cases hp) ?_ ⟨rfl, fun _ => initial_conserved env store⟩ ?_ h
    fun e he => ⟨runs_proper h e he, runs_grounded h e he⟩
  · have hc := hrule.1.2 horderly
    rcases (hc.account e he p handle hload).2 with hhand | hrest
    · left
      obtain ⟨⟨e', hlast, hload'⟩, hzero, -⟩ := hc.hand _ _ _ hhand
      obtain rfl := hc.once e he e' (lastOf_mem hlast).1 p p handle hload hload'
      exact ⟨hlast, hzero⟩
    · exact .inr hrest
  · rintro i q ⟨op, rfl⟩
    exact (operation_carries op).weaken (fun _ h => h) fun _ _ _ hq => hq.2
  · rintro tr P i l s s' ⟨hP, hbooks⟩ hok hstep hC
    refine ⟨?_, fun horderly' => ?_⟩
    · rw [hP]
      exact (phases_concat (Holding.next env) _ tr ⟨i, l, s, s'⟩).symm
    · obtain ⟨hbefore, hnow⟩ := horderly'.of_concat
      rw [← hP] at hnow
      exact (hbooks hbefore).step hstep hC.proper hfresh hC.grounded hok hnow

/-! ## A loader that numbers its modules -/

/-- A backend whose loader names a module after the time of its load. -/
def countingBackend : KernelBackend :=
  { stubBackend with
    loader := some
      { load := fun t _ _ _ => .ok (some t), unload := fun _ _ => .ok ()
        residentFootprint := fun _ _ => (1, false) } }

def countingEnv : Env := { backends := [countingBackend] }

theorem countingEnv_givesOut {t : Nat} {handle : LoadedModuleHandle}
    (h : countingEnv.GivesOut t handle) : handle = some t := by
  obtain ⟨b, hb, loader, hloader, key, bytes, device, hload⟩ := h
  obtain rfl := List.mem_singleton.mp hb
  cases hloader
  cases hload
  rfl

theorem countingEnv_freshLoads : countingEnv.FreshLoads where
  notNull _ h := nomatch countingEnv_givesOut h
  once t t' handle h h' := by
    have hsame := (countingEnv_givesOut h).symm.trans (countingEnv_givesOut h')
    injection hsame

/-- Every section of a trace is orderly, told from what the threads have in hand at its start. -/
def OrderlyFrom (env : Env) : (Nat → Holding) → List (Event Step Impl) → Prop
  | _, [] => True
  | P, e :: tr => e.label.orderly env P e.before ∧
      OrderlyFrom env (Function.update P e.thread ((P e.thread).next env e.label e.before)) tr

theorem OrderlyFrom.orderly {env : Env} {tr : List (Event Step Impl)} {P : Nat → Holding}
    (h : OrderlyFrom env P tr) (tr₁ : List (Event Step Impl)) (e : Event Step Impl)
    (tr₂ : List (Event Step Impl)) (heq : tr = tr₁ ++ e :: tr₂) :
    e.label.orderly env (tr₁.foldl (fun P e =>
      Function.update P e.thread ((P e.thread).next env e.label e.before)) P) e.before := by
  induction tr₁ generalizing tr P with
  | nil =>
    subst heq
    exact h.1
  | cons e₁ tr₁ ih =>
    subst heq
    exact ih h.2 rfl

theorem not_unloaded {P : Nat → Holding} (h : ∀ j, P j = .nothing) (j p n : Nat) :
    P j ≠ .unloaded p (some n) := by
  rw [h j]
  nofun

/-- An artifact is put, loaded and unloaded; its module has been passed to `unload` once. -/
theorem modules_conserved_sample : ∃ tr pool e, CacheRuns countingEnv {} tr pool ∧
    Orderly countingEnv tr ∧ e ∈ tr ∧ e.label.Loads countingEnv e.before 0 (some 4) ∧
    pool.shared.unloads (some 4) = 1 ∧
    ((lastOf tr e.thread = some e ∧ pool.shared.unloads (some 4) = 0) ∨
      ((pool.shared.records 0).nativeHandle = some 4 ∧ pool.shared.unloads (some 4) = 0) ∨
      pool.shared.unloads (some 4) = 1) := by
  have hplay : ∃ tr pool e, play countingEnv {} [.start (.put sampleArtifact [1]), .step 0,
        .start (.load ⟨⟨1, 7⟩⟩), .step 1, .step 1, .step 1, .step 1, .step 1,
        .start (.unload ⟨⟨1, 7⟩⟩), .step 2, .step 2, .step 2] = some (tr, pool) ∧
      OrderlyFrom countingEnv (fun _ => .nothing) tr ∧ tr[4]? = some e ∧
      e.label.Loads countingEnv e.before 0 (some 4) ∧ pool.shared.unloads (some 4) = 1 := by
    refine ⟨_, _, _, rfl, ?_, rfl, ⟨_, _, _, rfl, rfl⟩, rfl⟩
    refine ⟨trivial, trivial, trivial, trivial, trivial, .inl rfl, trivial, ⟨nofun, ?_⟩,
      .inr ⟨2, rfl⟩, trivial⟩
    -- the loading thread has committed, the others have not called a loader yet
    refine fun j n _ => not_unloaded (fun j => ?_) j 0 n
    match j with
    | 0 => rfl
    | 1 => rfl
    | 2 => rfl
    | j + 3 => rfl
  obtain ⟨tr, pool, e, hplay, horderly, he, hload, hone⟩ := hplay
  have hruns := CacheRuns.of_play hplay
  have hmem := List.mem_of_getElem? he
  exact ⟨tr, pool, e, hruns, horderly.orderly, hmem, hload, hone,
    modules_conserved hruns countingEnv_freshLoads horderly.orderly hmem hload⟩

/-- **A module can be lost.** Two loads of one artifact both see it off the device and both load it;
the second commit overwrites the module of the first, which nobody has passed to `unload` and nobody
can any more. -/
theorem module_lost : countingEnv.FreshLoads ∧ ∃ tr pool e, CacheRuns countingEnv {} tr pool ∧
    e ∈ tr ∧ e.label.Loads countingEnv e.before 0 (some 4) ∧
    (∃ e' footprint, lastOf tr e.thread = some e' ∧
      e'.label = .commitDevice 0 (some 4) footprint) ∧
    (pool.shared.records 0).nativeHandle = some 8 ∧ pool.shared.unloads (some 4) = 0 := by
  have hplay : ∃ tr pool e, play countingEnv {} [.start (.put sampleArtifact [1]), .step 0,
        .start (.load ⟨⟨1, 7⟩⟩), .step 1, .step 1, .step 1, .step 1,
        .start (.load ⟨⟨1, 7⟩⟩), .step 2, .step 2, .step 2, .step 2, .step 1, .step 2] =
          some (tr, pool) ∧
      tr[4]? = some e ∧ e.label.Loads countingEnv e.before 0 (some 4) ∧
      (∃ e' footprint, lastOf tr e.thread = some e' ∧
        e'.label = .commitDevice 0 (some 4) footprint) ∧
      (pool.shared.records 0).nativeHandle = some 8 ∧ pool.shared.unloads (some 4) = 0 := by
    refine ⟨_, _, _, rfl, rfl, ?_, ?_, ?_, ?_⟩
    · exact ⟨_, _, _, rfl, rfl⟩
    · exact ⟨_, _, rfl, rfl⟩
    · rfl
    · rfl
  obtain ⟨tr, pool, e, hplay, he, hrest⟩ := hplay
  exact ⟨countingEnv_freshLoads, tr, pool, e, CacheRuns.of_play hplay, List.mem_of_getElem? he,
    hrest⟩

end KernelCache
