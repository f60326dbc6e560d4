/-
# KernelCache.LockDiscipline — the mutexes of the cache (`impl.hpp`, `stats.hpp`).

Four mutexes guard a cache: `build_mtx_` the builds in flight, `mtx_` the records and their indices
(the one that can be shared), `stats_mtx_` the counters, and `EventHistory::mtx_` the events.  The
helpers `bump` and `record_event` take the last two themselves and are called from inside and from
outside the regions of the others.

`Step.locks` writes down what each section does to mutexes, region by region as the source nests
them, and a public call does what the sections on its control path do.  Every region is disciplined
but one: `build_impl` reports a failed store write by calling `record_event` with `stats_mtx_` held.
`lock_discipline` says exactly that, for every call and every control path, and that calls which keep
clear of it never deadlock.
-/
import KernelCache.Foundation.Locks
import KernelCache.Sequential

namespace KernelCache

open Foundation (Prog Runs Pool Event LockMode LockAct LockThread LockRuns LockStep Disciplined
  Deadlocked Waits guarded pathOf)

/-! ## What a section does to mutexes -/

inductive Mutex where
  | buildMtx
  | mtx
  | statsMtx
  | eventHistory
  deriving DecidableEq

/-- The one global order. -/
def Mutex.rank : Mutex → Nat
  | buildMtx | mtx => 0
  | statsMtx => 1
  | eventHistory => 2

/-- A script of the cache. -/
abbrev LockScript := List (LockAct Mutex)

/-- `std::lock_guard` around `body`. -/
def lockGuard (m : Mutex) (body : LockScript) : LockScript := guarded m .exclusive body

/-- `bump`. -/
def bumpLocks : LockScript := lockGuard .statsMtx []

/-- `record_event`, which calls `EventHistory::record`. -/
def recordEventLocks : LockScript := lockGuard .statsMtx (lockGuard .eventHistory [])

/-- What a section does to mutexes.  `mode` is how a search by id takes `mtx_`: `acquire_impl` shares
it after a hit, the others exclude. -/
def Step.locks (env : Env) (mode : LockMode) (s : Impl) : Step → LockScript
  | .collect _ | .findBuilt _ _ => guarded .mtx .shared []
  | .find _ => guarded .mtx mode []
  | .bump _ => bumpLocks
  | .recordEvent => recordEventLocks
  | .join digest =>
    match s.inFlight.lookup digest with
    | some _ => lockGuard .buildMtx bumpLocks
    | none => lockGuard .buildMtx (bumpLocks ++ recordEventLocks)
  | .eraseFence _ _ => lockGuard .buildMtx []
  -- the event of a failed store write is recorded under the lock of the counters
  | .persistFailed => lockGuard .statsMtx recordEventLocks
  | .grantLease p _ => lockGuard .mtx (if (s.records p).leasable then bumpLocks else [])
  | .markPersisted _ | .commitDevice _ _ _ | .evictCommit _ | .onLeaseRelease _ | .invalidate _ =>
    lockGuard .mtx bumpLocks
  -- one bump for each record inserted
  | .recoverInsert artifacts =>
    lockGuard .mtx (List.replicate (Impl.recoverInsert env s artifacts).1 bumpLocks).flatten
  | .publish _ _ | .readTier _ | .readBytes _ | .storeBytes _ _ | .commitHost _ | .readHandle _
  | .pickVictim _ | .evictBegin _ _ | .touch _ | .validateCommit _ _ | .unloadCommit _ | .pin _
  | .unpin _ | .put _ _ | .rollCacheGeneration => lockGuard .mtx []
  | .resetStats => lockGuard .statsMtx []
  -- backends, files, promises and atomics
  | .runBuild _ _ | .fulfil _ _ | .persist _ | .await _ | .reload _ | .loadModule _ _ _
  | .outOfRounds | .evictUnload _ | .readLease _ | .exchangeReleased _ | .validateCall _ _
  | .unloadCall _ | .recoverRead => []

/-- What the sections of a control path do to mutexes.  The event of a failed store write is part of
the region of `persistFailed`. -/
def pathLocks (env : Env) (mode : LockMode) : List (Step × Impl) → LockScript
  | (.persistFailed, s) :: (.recordEvent, _) :: path =>
    Step.locks env mode s .persistFailed ++ pathLocks env mode path
  | (l, s) :: path => l.locks env mode s ++ pathLocks env mode path
  | [] => []

/-! ## Public calls -/

/-- The public calls that `Operation` leaves out: they change nothing a lock of the cache guards but
the events. -/
inductive Observation where
  /-- `KernelCache::KernelCache`, with an event more when the store cannot be opened. -/
  | construct (openFailed : Bool)
  /-- `KernelCache::~KernelCache`. -/
  | destroy
  | list
  | inspect
  | snapshot
  /-- `explain` of an artifact; that of a request is a lookup. -/
  | explain
  | stats
  | evictionCandidates
  /-- `EventHistory::record`, `recent` and `size` on `events()`. -/
  | events
  /-- `config`, `register_backend`, `execute`, `current_cache_generation` and the getters of leases
  and reservations take no mutex. -/
  | unguarded

def Observation.locks : Observation → LockScript
  | construct openFailed => (if openFailed then recordEventLocks else []) ++ recordEventLocks
  | destroy => recordEventLocks
  | list | inspect | evictionCandidates => lockGuard .mtx []
  | snapshot => lockGuard .mtx (lockGuard .statsMtx [])
  | explain => guarded .mtx .shared []
  | stats => lockGuard .statsMtx []
  | events => lockGuard .eventHistory []
  | unguarded => []

/-- A public call with the control path it takes. -/
inductive PublicCall where
  | operation (op : Operation) (path : List (Step × Impl)) (mode : LockMode)
  | observation (o : Observation)

namespace PublicCall

/-- The control path is one of the operation's. -/
def Possible (env : Env) : PublicCall → Prop
  | operation op path _ => ∃ q, (op.prog env).Leads path q
  | observation _ => True

def script (env : Env) : PublicCall → LockScript
  | operation _ path mode => pathLocks env mode path
  | observation o => o.locks

/-- The call takes the branch of `build_impl` that reports a failed store write. -/
def reportsFailedPersist : PublicCall → Prop
  | operation _ path _ => ∃ s, (Step.persistFailed, s) ∈ path
  | observation _ => False

end PublicCall

/-! ## Discipline -/

theorem bumpLocks_disciplined : Disciplined Mutex.rank [] bumpLocks := by
  simp [bumpLocks, lockGuard, guarded, Disciplined, Foundation.dropHold]

theorem recordEventLocks_disciplined : Disciplined Mutex.rank [] recordEventLocks := by
  simp [recordEventLocks, lockGuard, guarded, Disciplined, Foundation.dropHold, Mutex.rank]

/-- The script takes the mutexes of counters and events only. -/
def AboveMtx (script : LockScript) : Prop :=
  ∀ m mode, LockAct.acquire m mode ∈ script → 0 < m.rank

theorem bumpLocks_above : AboveMtx bumpLocks := by
  intro m mode h
  simp [bumpLocks, lockGuard, guarded] at h
  rw [h.1]
  decide

theorem recordEventLocks_above : AboveMtx recordEventLocks := by
  intro m mode h
  simp [recordEventLocks, lockGuard, guarded] at h
  rcases h with ⟨rfl, -⟩ | ⟨rfl, -⟩ <;> decide

theorem AboveMtx.append {a b : LockScript} (ha : AboveMtx a) (hb : AboveMtx b) :
    AboveMtx (a ++ b) := by
  intro m mode h
  rcases List.mem_append.mp h with h | h
  · exact ha m mode h
  · exact hb m mode h

theorem aboveMtx_nil : AboveMtx [] := fun _ _ h => nomatch h

/-- A region of one of the two outer mutexes around helpers. -/
theorem outer_disciplined {m : Mutex} {mode : LockMode} {body : LockScript} (hm : m.rank = 0)
    (hbody : Disciplined Mutex.rank [] body) (habove : AboveMtx body) :
    Disciplined Mutex.rank [] (guarded m mode body) := by
  refine hbody.guarded fun x mode' hx => ?_
  rw [hm]
  exact habove x mode' hx

theorem flatten_bumpLocks (n : Nat) :
    Disciplined Mutex.rank [] (List.replicate n bumpLocks).flatten ∧
      AboveMtx (List.replicate n bumpLocks).flatten := by
  induction n with
  | zero => exact ⟨rfl, aboveMtx_nil⟩
  | succ n ih =>
    rw [List.replicate_succ, List.flatten_cons]
    exact ⟨bumpLocks_disciplined.append ih.1, bumpLocks_above.append ih.2⟩

/-- **Every section but one is disciplined.** -/
theorem locks_disciplined (env : Env) (mode : LockMode) (s : Impl) {l : Step}
    (h : l ≠ .persistFailed) : Disciplined Mutex.rank [] (l.locks env mode s) := by
  have hplain : ∀ (m : Mutex) (mode : LockMode), Disciplined Mutex.rank [] (guarded m mode []) := by
    intro m mode
    simp [guarded, Disciplined, Foundation.dropHold]
  have hbump : Disciplined Mutex.rank [] (lockGuard .mtx bumpLocks) :=
    outer_disciplined rfl bumpLocks_disciplined bumpLocks_above
  cases l with
  | persistFailed => exact absurd rfl h
  | bump f => exact bumpLocks_disciplined
  | recordEvent => exact recordEventLocks_disciplined
  | join digest =>
    simp only [Step.locks]
    split
    · exact outer_disciplined rfl bumpLocks_disciplined bumpLocks_above
    · exact outer_disciplined rfl (bumpLocks_disciplined.append recordEventLocks_disciplined)
        (bumpLocks_above.append recordEventLocks_above)
  | grantLease p pin =>
    simp only [Step.locks]
    split
    · exact hbump
    · exact hplain _ _
  | recoverInsert artifacts =>
    obtain ⟨hdisc, habove⟩ := flatten_bumpLocks (Impl.recoverInsert env s artifacts).1
    exact outer_disciplined rfl hdisc habove
  | markPersisted o => exact hbump
  | commitDevice p handle footprint => exact hbump
  | evictCommit p => exact hbump
  | onLeaseRelease p => exact hbump
  | invalidate req => exact hbump
  | runBuild request gen => rfl
  | fulfil fence o => rfl
  | persist o => rfl
  | await fence => rfl
  | reload p => rfl
  | loadModule p bytes device => rfl
  | outOfRounds => rfl
  | evictUnload p => rfl
  | readLease lease => rfl
  | exchangeReleased lease => rfl
  | validateCall p device => rfl
  | unloadCall p => rfl
  | recoverRead => rfl
  | _ => exact hplain _ _

/-- The region of a failed store write takes a mutex it holds. -/
theorem persistFailed_undisciplined (env : Env) (mode : LockMode) (s : Impl) (rest : LockScript) :
    ¬ Disciplined Mutex.rank [] (Step.locks env mode s .persistFailed ++ rest) := by
  intro h
  exact absurd (h.2.1 (.statsMtx, .exclusive) List.mem_cons_self) (lt_irrefl _)

theorem pathLocks_disciplined_iff (env : Env) (mode : LockMode) (path : List (Step × Impl)) :
    Disciplined Mutex.rank [] (pathLocks env mode path) ↔
      ¬ ∃ s, (Step.persistFailed, s) ∈ path := by
  fun_induction pathLocks env mode path with
  | case1 s s' path ih =>
    constructor
    · intro h
      exact absurd h (persistFailed_undisciplined env mode s _)
    · intro h
      exact absurd ⟨s, List.mem_cons_self⟩ h
  | case2 l s path hnot ih =>
    by_cases hl : l = .persistFailed
    · subst hl
      constructor
      · intro h
        exact absurd h (persistFailed_undisciplined env mode s _)
      · intro h
        exact absurd ⟨s, List.mem_cons_self⟩ h
    · rw [(locks_disciplined env mode s hl).append_iff, ih]
      constructor
      · rintro h ⟨s', hs'⟩
        rcases List.mem_cons.mp hs' with heq | hmem
        · exact hl (congrArg Prod.fst heq).symm
        · exact h ⟨s', hmem⟩
      · rintro h ⟨s', hs'⟩
        exact h ⟨s', List.mem_cons_of_mem _ hs'⟩
  | case3 =>
    constructor
    · rintro - ⟨s, hs⟩
      cases hs
    · intro _
      rfl

theorem Observation.locks_disciplined (o : Observation) : Disciplined Mutex.rank [] o.locks := by
  cases o with
  | construct openFailed =>
    cases openFailed with
    | false => exact recordEventLocks_disciplined
    | true => exact recordEventLocks_disciplined.append recordEventLocks_disciplined
  | destroy => exact recordEventLocks_disciplined
  | snapshot => exact outer_disciplined rfl bumpLocks_disciplined bumpLocks_above
  | unguarded => rfl
  | _ => simp [locks, lockGuard, guarded, Disciplined, Foundation.dropHold]

theorem PublicCall.disciplined_iff (env : Env) (call : PublicCall) :
    Disciplined Mutex.rank [] (call.script env) ↔ ¬ call.reportsFailedPersist := by
  cases call with
  | operation op path mode => exact pathLocks_disciplined_iff env mode path
  | observation o => exact ⟨fun _ => not_false, fun _ => o.locks_disciplined⟩

/-- The scripts of the public calls that report no failed store write. -/
def KeepsClear (env : Env) (script : LockScript) : Prop :=
  ∃ call : PublicCall, call.Possible env ∧ ¬ call.reportsFailedPersist ∧ script = call.script env

/-- **Lock discipline.** Whatever control path a public call takes: it acquires mutexes in the one
order, none it holds already, and releases them all, if and only if it does not take the branch that
reports a failed store write.  And however public calls that do not take it interleave, no set of them
ever waits for itself, and as long as one is not finished some can go on. -/
theorem lock_discipline (env : Env) :
    (∀ call : PublicCall, call.Possible env →
      (Disciplined Mutex.rank [] (call.script env) ↔ ¬ call.reportsFailedPersist)) ∧
    ∀ ts, LockRuns (KeepsClear env) ts →
      (∀ D, ¬ Deadlocked ts D) ∧ ((∃ t ∈ ts, t.rest ≠ []) → ∃ ts', LockStep ts ts') := by
  refine ⟨fun call _ => call.disciplined_iff env, fun ts h => ?_⟩
  have hstart : ∀ script, KeepsClear env script → Disciplined Mutex.rank [] script := by
    rintro script ⟨call, -, hclear, rfl⟩
    exact (call.disciplined_iff env).mpr hclear
  exact ⟨h.no_deadlock hstart, h.progress hstart⟩

/-- A snapshot and a new cache generation, side by side. -/
theorem lock_discipline_sample : ∃ ts, LockRuns (KeepsClear stubEnv) ts ∧ (∀ D, ¬ Deadlocked ts D) ∧
    (∃ ts', LockStep ts ts') ∧
    Disciplined Mutex.rank [] ((PublicCall.observation .snapshot).script stubEnv) := by
  have hsnapshot : KeepsClear stubEnv (Observation.locks .snapshot) :=
    ⟨.observation .snapshot, trivial, not_false, rfl⟩
  have hroll : KeepsClear stubEnv (pathLocks stubEnv .exclusive
      [(.rollCacheGeneration, Impl.initial {})]) := by
    refine ⟨.operation .rollCacheGeneration _ _, ⟨_, .take (.stay _)⟩, ?_, rfl⟩
    rintro ⟨s, hs⟩
    cases List.mem_singleton.mp hs
  have hruns := (LockRuns.none.call hsnapshot).call hroll
  obtain ⟨hcalls, hall⟩ := lock_discipline stubEnv
  obtain ⟨hfree, hprogress⟩ := hall _ hruns
  exact ⟨_, hruns, hfree, hprogress ⟨_, List.mem_cons_self, List.cons_ne_nil _ _⟩,
    (hcalls (.observation .snapshot) trivial).mpr not_false⟩

/-! ## A failed store write -/

/-- A cache with a store that cannot be written. -/
def failingEnv : Env :=
  { stubEnv with cfg := { persistenceOpen := true }, putFaults := fun _ => { openBlob := true } }

/-- The owner takes its own fence out of flight. -/
theorem exec_eraseFence_own {env : Env} {s : Impl} {fence : Nat} {digest : Sha256Digest}
    (h : s.inFlight.lookup digest = some fence) : exec env (.eraseFence fence digest) s =
      some { s with inFlight := s.inFlight.erase digest, tick := s.tick + 1 } := by
  simp only [exec, Step.ready, Step.effect, Impl.eraseFence, if_pos h, if_true]

/-- A build whose artifact cannot be stored, up to the lock it takes to report so. -/
theorem failed_persist_run : ∃ tr pool e, Runs (exec failingEnv)
      (fun p => p = (Operation.build {}).prog failingEnv) ⟨Impl.initial {}, []⟩ (tr ++ [e]) pool ∧
    pool.threads ≠ [] ∧ (∀ x ∈ tr ++ [e], x.thread = 0) ∧ e.label = .persistFailed ∧
    ∀ x ∈ tr, x.label ≠ .persistFailed := by
  have hstart : Runs (exec failingEnv) (fun p => p = (Operation.build {}).prog failingEnv)
      ⟨Impl.initial {}, []⟩ [] ⟨Impl.initial {}, [(Operation.build {}).prog failingEnv]⟩ :=
    Runs.refl.spawn rfl
  -- join, build, count, report, count, and keep the promise
  have hpromised := (((((hstart.step (i := 0) rfl rfl).step (i := 0) rfl rfl).step (i := 0) rfl
    rfl).step (i := 0) rfl rfl).step (i := 0) rfl rfl).step (i := 0) rfl rfl
  have herased := hpromised.step (i := 0) rfl (exec_eraseFence_own (AList.lookup_insert _))
  -- report, publish, try to store, and lock the counters
  have hfailed := (((herased.step (i := 0) rfl rfl).step (i := 0) rfl rfl).step (i := 0) rfl
    rfl).step (i := 0) rfl rfl
  refine ⟨_, _, _, hfailed, List.cons_ne_nil _ _, ?_, rfl, ?_⟩
  · intro x hx
    simp only [List.mem_append, List.mem_singleton, List.not_mem_nil, false_or] at hx
    rcases hx with
      (((((((((rfl | rfl) | rfl) | rfl) | rfl) | rfl) | rfl) | rfl) | rfl) | rfl) | rfl
    all_goals rfl
  · intro x hx
    simp only [List.mem_append, List.mem_singleton, List.not_mem_nil, false_or] at hx
    rcases hx with ((((((((rfl | rfl) | rfl) | rfl) | rfl) | rfl) | rfl) | rfl) | rfl) | rfl
    all_goals exact Step.noConfusion

/-- A path on which no store write failed before. -/
theorem pathLocks_append {env : Env} {mode : LockMode} {path path' : List (Step × Impl)}
    (h : ∀ x ∈ path, x.1 ≠ .persistFailed) :
    pathLocks env mode (path ++ path') = pathLocks env mode path ++ pathLocks env mode path' := by
  induction path with
  | nil => rfl
  | cons x path ih =>
    obtain ⟨l, s⟩ := x
    have hl : l ≠ .persistFailed := h _ List.mem_cons_self
    have hstep : ∀ rest, pathLocks env mode ((l, s) :: rest) =
        l.locks env mode s ++ pathLocks env mode rest := by
      intro rest
      rw [pathLocks]
      rintro s' path'' - hlabel
      exact hl hlabel
    rw [List.cons_append, hstep, hstep, ih fun y hy => h y (List.mem_cons_of_mem _ hy),
      List.append_assoc]

/-- **A failed store write deadlocks.** A build whose artifact cannot be stored takes `stats_mtx_` and
then calls `record_event`, which takes it again: alone on the cache, the call waits for itself. -/
theorem persist_failure_deadlocks : ∃ tr pool q ts, CacheRuns failingEnv {} tr pool ∧
    ((Operation.build {}).prog failingEnv).Leads (pathOf tr 0) q ∧
    ¬ Disciplined Mutex.rank [] (pathLocks failingEnv .exclusive (pathOf tr 0)) ∧
    LockRuns (fun script => script = pathLocks failingEnv .exclusive (pathOf tr 0)) ts ∧
    Deadlocked ts {0} := by
  obtain ⟨tr₁, pool, e, hruns, hne, halone, hlabel, hbefore₁⟩ := failed_persist_run
  generalize htr : tr₁ ++ [e] = tr at hruns halone
  -- the path of the call ends with the failure, and has none before
  have hfilter : (tr.filter fun x => x.thread == 0) = tr :=
    List.filter_eq_self.mpr fun x hx => by simpa using halone x hx
  have hpath : pathOf tr 0 = tr₁.map (fun x => (x.label, x.before)) ++ [(.persistFailed, e.before)] := by
    rw [pathOf, hfilter, ← htr, List.map_append, ← hlabel]
    rfl
  have hclean : ∀ x ∈ tr₁.map (fun x => (x.label, x.before)), x.1 ≠ .persistFailed := by
    intro x hx
    obtain ⟨y, hy, rfl⟩ := List.mem_map.mp hx
    exact hbefore₁ y hy
  generalize tr₁.map (fun x => (x.label, x.before)) = path at hpath hclean
  generalize e.before = s at hpath
  obtain ⟨q, rest, hthreads⟩ := List.exists_cons_of_ne_nil hne
  obtain ⟨p, rfl, hleads⟩ := hruns.leads (i := 0) (q := q) (by rw [hthreads]; rfl)
  have hcache : CacheRuns failingEnv {} tr pool :=
    hruns.of_pool (fun p hp => absurd hp List.not_mem_nil) fun p hp => ⟨_, hp⟩
  have hsplit : pathLocks failingEnv .exclusive (pathOf tr 0) =
      pathLocks failingEnv .exclusive path ++ Step.locks failingEnv .exclusive s .persistFailed := by
    rw [hpath, pathLocks_append hclean]
    simp [pathLocks]
  have hbefore : Disciplined Mutex.rank [] (pathLocks failingEnv .exclusive path) := by
    rw [pathLocks_disciplined_iff]
    rintro ⟨s', hs'⟩
    exact hclean _ hs' rfl
  have hstart : LockRuns (fun script => script = pathLocks failingEnv .exclusive (pathOf tr 0))
      [⟨[], pathLocks failingEnv .exclusive path ++
        Step.locks failingEnv .exclusive s .persistFailed⟩] :=
    LockRuns.none.call hsplit.symm
  -- the call gets as far as taking the mutex for the first time
  have hlocked := (hstart.alone hbefore).step (.acquire (i := 0) rfl (by
    rintro t ht ⟨mode, hheld, -⟩
    obtain rfl := List.mem_singleton.mp ht
    cases hheld))
  refine ⟨tr, pool, q, _, hcache, hleads, ?_, hlocked, Finset.singleton_nonempty 0, ?_⟩
  · rw [pathLocks_disciplined_iff, hpath]
    exact fun h => h ⟨s, by simp⟩
  · intro i hi
    obtain rfl := Finset.mem_singleton.mp hi
    exact ⟨0, Finset.mem_singleton_self 0, _, _, _, _, _, _, rfl, rfl, rfl, List.mem_cons_self⟩

end KernelCache
