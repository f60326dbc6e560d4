/-
# KernelCache.Execution — from a loaded artifact to the numbers in memory (`execute`).

`load` answers with a handle: the module of the record, and the name of a backend.  `execute` goes by the
name, while the module was made by the backend that `find_backend` chose for the record's KEY, and is cast
to the module type of the loader that gets it.  The two agree for every artifact that was built, and for a
put or recovered one exactly when it came with the right name (`execute_reaches_loader_iff`).

The CPU loader then runs `op_kernel` over the caller's memory.  The pure `opKernel` reads its buffers
before it writes any, the loop does not: `kernel_inplace_iff` says which overlaps of the buffers it bears.
Addresses count floats, so buffers overlap in whole elements.
-/
import KernelCache.CpuBackend
import KernelCache.Foundation.Sweeps
import KernelCache.Modules
import KernelCache.Overtaken

namespace KernelCache

open Foundation (Bytes Prog Runs Pool Event sweep sweep_other sweep_cells sweep_succ sweep_written)

/-! ## Kernels over a memory -/

namespace CpuBackend

section Memory

variable {F : Type} (fl : FloatOps F)

/-- What a round of the loop of `op_kernel` writes to `out[i]`. -/
def kernelValue (op : CpuOp) (a : Nat) (b : Option Nat) (out i : Nat) (mem : Nat → F) : F :=
  let x := mem (a + i)
  let y := b.elim fl.zero fun b => mem (b + i)
  match op with
  | .vecAdd => fl.add x y
  | .vecMul => fl.mul x y
  | .reductionSum => if i = 0 then x else fl.add (mem (out + (i - 1))) x

/-- `op_kernel`. -/
def runKernel (op : CpuOp) (a : Nat) (b : Option Nat) (out : Nat) (n : UInt64) (mem : Nat → F) :
    Nat → F :=
  sweep out (kernelValue fl op a b out) n.toNat mem

/-- `CpuLoader::execute` of a module, on the three pointers of the blob. -/
def executeIn (loaded : Option CpuKernel) (argBytes : Nat) (a : Nat) (b : Option Nat) (out : Nat)
    (mem : Nat → F) : Result (Nat → F) :=
  match loaded with
  | none => fail .invalidArgument (KernelCache.str "null handle")
  | some k =>
    if argBytes < 3 * 8 then fail .invalidArgument (KernelCache.str "args blob too small")
    else .ok (runKernel fl k.op a b out (countElems k.shape) mem)

/-- The element `i` that an operation makes of two buffers. -/
def element (op : CpuOp) (xs ys : Nat → F) : Nat → F
  | 0 => match op with
    | .vecAdd => fl.add (xs 0) (ys 0)
    | .vecMul => fl.mul (xs 0) (ys 0)
    | .reductionSum => xs 0
  | i + 1 => match op with
    | .vecAdd => fl.add (xs (i + 1)) (ys (i + 1))
    | .vecMul => fl.mul (xs (i + 1)) (ys (i + 1))
    | .reductionSum => fl.add (element op xs ys i) (xs (i + 1))

/-- The element of the buffers at two addresses. -/
def elementAt (op : CpuOp) (a : Nat) (b : Option Nat) (mem : Nat → F) (i : Nat) : F :=
  element fl op (fun i => mem (a + i)) (fun i => b.elim fl.zero fun b => mem (b + i)) i

end Memory

/-- The buffer at `out` begins inside the buffer at `buf`, behind its first element. -/
def Clobbers (out buf n : Nat) : Prop := buf < out ∧ out < buf + n

instance (out buf n : Nat) : Decidable (Clobbers out buf n) := inferInstanceAs (Decidable (_ ∧ _))

/-- The kernel overwrites no input that it has still to read. -/
def Spares (op : CpuOp) (a : Nat) (b : Option Nat) (out n : Nat) : Prop :=
  ¬ Clobbers out a n ∧ (op ≠ .reductionSum → ∀ b' ∈ b, ¬ Clobbers out b' n)

section Memory

variable {F : Type} {fl : FloatOps F} {op : CpuOp} {a : Nat} {b : Option Nat} {out : Nat} {n : UInt64}
  {mem : Nat → F}

/-- An input that is not clobbered is read as it was at the start. -/
theorem read_spared {buf : Nat} (hspared : ¬ Clobbers out buf n.toNat) {i : Nat} (hi : i < n.toNat)
    {mem' : Nat → F} (hother : ∀ addr, (∀ j < i, addr ≠ out + j) → mem' addr = mem addr) :
    mem' (buf + i) = mem (buf + i) := by
  refine hother _ fun j hj heq => hspared ⟨?_, ?_⟩
  · omega
  · omega

/-- **A kernel in memory.** Where it spares its inputs, it writes what the operation makes of the buffers
as they were, and nothing else. -/
theorem runKernel_cells (hspares : Spares op a b out n.toNat) {i : Nat} (hi : i < n.toNat) :
    runKernel fl op a b out n mem (out + i) = elementAt fl op a b mem i := by
  refine sweep_cells (fun i hi mem' hcells hother => ?_) hi
  have hx : mem' (a + i) = mem (a + i) := read_spared hspares.1 hi hother
  have hy : op ≠ .reductionSum →
      (b.elim fl.zero fun b => mem' (b + i)) = b.elim fl.zero fun b => mem (b + i) := by
    intro hop
    cases b with
    | none => rfl
    | some b => exact read_spared (hspares.2 hop b rfl) hi hother
  unfold kernelValue elementAt
  rw [hx]
  cases op with
  | vecAdd =>
    dsimp only
    rw [hy (by decide)]
    cases i <;> rfl
  | vecMul =>
    dsimp only
    rw [hy (by decide)]
    cases i <;> rfl
  | reductionSum =>
    cases i with
    | zero => rfl
    | succ i =>
      have hlast : mem' (out + (i + 1 - 1)) = elementAt fl .reductionSum a b mem i :=
        hcells i (Nat.lt_succ_self i)
      simp only [Nat.add_eq_zero_iff, Nat.one_ne_zero, and_false, if_false, hlast]
      rfl

theorem runKernel_other {addr : Nat} (h : ∀ i < n.toNat, addr ≠ out + i) :
    runKernel fl op a b out n mem addr = mem addr :=
  sweep_other h

end Memory

/-! ### Overlaps that the kernel does not bear -/

/-- Whole numbers, with a sum for both operations. -/
def sums : FloatOps Nat where
  add := (· + ·)
  mul := (· + ·)
  zero := 1
  differ := fun x y => x != y

section Overlap

variable {op : CpuOp} {a : Nat} {b : Option Nat} {out : Nat} {n : UInt64}

/-- A cell that was written holds its element, also in the middle of the loop. -/
theorem sweep_right {mem : Nat → Nat} (hright : ∀ i < n.toNat,
      runKernel sums op a b out n mem (out + i) = elementAt sums op a b mem i) {i k : Nat}
    (hik : i < k) (hk : k ≤ n.toNat) :
    sweep out (kernelValue sums op a b out) k mem (out + i) = elementAt sums op a b mem i := by
  have hdone := hright i (Nat.lt_of_lt_of_le hik hk)
  unfold runKernel at hdone
  rw [sweep_written (Nat.lt_of_lt_of_le hik hk)] at hdone
  rw [sweep_written hik]
  exact hdone

/-- Over a memory of ones nothing is ever zero. -/
theorem sweep_pos (hop : op ≠ .reductionSum) (k addr : Nat) :
    1 ≤ sweep out (kernelValue sums op a b out) k (fun _ => 1) addr := by
  induction k generalizing addr with
  | zero => exact le_rfl
  | succ k ih =>
    rw [sweep_succ]
    by_cases haddr : addr = out + k
    · subst haddr
      rw [Function.update_self]
      cases op with
      | reductionSum => exact absurd rfl hop
      | _ => exact Nat.le_add_right_of_le (ih (a + k))
    · rw [Function.update_of_ne haddr]
      exact ih addr

/-- A sum of two cells, one of which an earlier round has written. -/
theorem spares_of_right (hop : op ≠ .reductionSum) (hright : ∀ i < n.toNat,
      runKernel sums op a b out n (fun _ => 1) (out + i) = elementAt sums op a b (fun _ => 1) i) :
    Spares op a b out n.toNat := by
  have helement : ∀ i, elementAt sums op a b (fun _ => 1) i = 2 := by
    intro i
    cases op with
    | reductionSum => exact absurd rfl hop
    | _ => cases b <;> cases i <;> rfl
  have hpos : ∀ k addr, 1 ≤ sweep out (kernelValue sums op a b out) k (fun _ => 1) addr :=
    sweep_pos hop
  have hsum : ∀ i < n.toNat, sweep out (kernelValue sums op a b out) i (fun _ => 1) (a + i) +
      (b.elim 1 fun b' => sweep out (kernelValue sums op a b out) i (fun _ => 1) (b' + i)) = 2 := by
    intro i hi
    have hcell := hright i hi
    unfold runKernel at hcell
    rw [sweep_written hi, helement] at hcell
    cases op with
    | reductionSum => exact absurd rfl hop
    | _ => exact hcell
  -- what the first round has written is read again where a buffer is clobbered
  have hread : ∀ buf, Clobbers out buf n.toNat → ∃ i, i < n.toNat ∧
      sweep out (kernelValue sums op a b out) i (fun _ => 1) (buf + i) = 2 := by
    rintro buf ⟨hbehind, hinside⟩
    refine ⟨out - buf, by omega, ?_⟩
    have hstart : buf + (out - buf) = out + 0 := by omega
    rw [hstart, sweep_right hright (by omega) (by omega), helement]
  refine ⟨fun hclob => ?_, fun _ b' hb' hclob => ?_⟩
  · obtain ⟨i, hi, hread⟩ := hread a hclob
    have hs := hsum i hi
    rw [hread] at hs
    cases b with
    | none => simp at hs
    | some b =>
      have := hpos i (b + i)
      simp only [Option.elim_some] at hs
      omega
  · obtain ⟨i, hi, hread⟩ := hread b' hclob
    have hs := hsum i hi
    have := hpos i (a + i)
    obtain rfl : b = some b' := hb'
    simp only [Option.elim_some, hread] at hs
    omega

/-- A prefix sum over a growing memory, of which the first round has overwritten a cell. -/
theorem spares_of_right_sum (hright : ∀ i < n.toNat, runKernel sums .reductionSum a b out n (· + 1)
      (out + i) = elementAt sums .reductionSum a b (· + 1) i) :
    Spares .reductionSum a b out n.toNat := by
  refine ⟨?_, fun h => absurd rfl h⟩
  rintro ⟨hbehind, hinside⟩
  obtain ⟨d, hd⟩ : ∃ d, out = a + (d + 1) := ⟨out - a - 1, by omega⟩
  have hlt : d + 1 < n.toNat := by omega
  have hcell := hright (d + 1) hlt
  unfold runKernel at hcell
  rw [sweep_written hlt] at hcell
  have hlast := sweep_right hright (Nat.lt_succ_self d) (Nat.le_of_lt hlt)
  have hfirst := sweep_right hright (Nat.succ_pos d) (Nat.le_of_lt hlt)
  have hvalue : sweep out (kernelValue sums .reductionSum a b out) (d + 1) (· + 1) (out + d) +
      sweep out (kernelValue sums .reductionSum a b out) (d + 1) (· + 1) (a + (d + 1)) =
        elementAt sums .reductionSum a b (· + 1) d + (a + (d + 1) + 1) := hcell
  rw [← hd, ← Nat.add_zero out, Nat.add_zero out, hlast] at hvalue
  have hzero : sweep out (kernelValue sums .reductionSum a b out) (d + 1) (· + 1) out = a + 0 + 1 :=
    hfirst
  omega

/-- **Which overlaps the kernel bears.** For every arithmetic and every memory the output is what the
operation makes of the buffers as they were, if and only if the output begins in no input that is read,
save at its first element. -/
theorem kernel_inplace_iff (op : CpuOp) (a : Nat) (b : Option Nat) (out : Nat) (n : UInt64) :
    (∀ (F : Type) (fl : FloatOps F) (mem : Nat → F), ∀ i < n.toNat,
      runKernel fl op a b out n mem (out + i) = elementAt fl op a b mem i) ↔
    Spares op a b out n.toNat := by
  refine ⟨fun h => ?_, fun hspares F fl mem i hi => runKernel_cells hspares hi⟩
  by_cases hop : op = .reductionSum
  · subst hop
    exact spares_of_right_sum (h Nat sums (· + 1))
  · exact spares_of_right hop (h Nat sums fun _ => 1)

end Overlap

end CpuBackend

open CpuBackend (parseKey executeIn runKernel_cells runKernel_other elementAt Spares countElems)

/-! ## Whose loader gets the module -/

/-- The loop of `KernelCache::execute` over the registry: the backend of the name. -/
def backendNamed (backends : List KernelBackend) (name : Str) : Option KernelBackend :=
  backends.foldl (fun be b => if b.name == name then some b else be) none

/-- `KernelCache::execute` up to the call of the loader: whose loader is called. -/
def executor (env : Env) (h : ArtifactHandle) : Result KernelBackend :=
  match backendNamed env.backends h.backend with
  | none => fail .notSupported (str "no backend registered for handle backend=" ++ h.backend)
  | some b => if b.loader.isSome then .ok b else fail .notSupported (str "backend has no loader")

section Names

variable {backends : List KernelBackend} {name : Str} {b : KernelBackend}

theorem foldl_unnamed (start : Option KernelBackend) (h : ∀ c ∈ backends, c.name ≠ name) :
    backends.foldl (fun be b => if b.name == name then some b else be) start = start := by
  induction backends generalizing start with
  | nil => rfl
  | cons c backends ih =>
    have hc : (c.name == name) = false := beq_false_of_ne (h c (List.mem_cons_self ..))
    rw [List.foldl_cons, hc]
    exact ih start fun c' hc' => h c' (List.mem_cons_of_mem _ hc')

/-- Under distinct names the loop finds every backend by its own. -/
theorem backendNamed_name (hnames : (backends.map KernelBackend.name).Nodup) (hb : b ∈ backends) :
    backendNamed backends b.name = some b := by
  unfold backendNamed
  generalize hstart : (none : Option KernelBackend) = start
  clear hstart
  induction backends generalizing start with
  | nil => cases hb
  | cons c backends ih =>
    rw [List.map_cons, List.nodup_cons] at hnames
    rw [List.foldl_cons]
    rcases List.mem_cons.mp hb with rfl | hmem
    · rw [beq_self_eq_true, if_pos rfl]
      exact foldl_unnamed _ fun c hc heq => hnames.1 (heq ▸ List.mem_map_of_mem hc)
    · exact ih hnames.2 hmem _

theorem name_of_backendNamed (h : backendNamed backends name = some b) : b.name = name := by
  have hfold : ∀ start : Option KernelBackend, (∀ c, start = some c → c.name = name) →
      ∀ c, backends.foldl (fun be b => if b.name == name then some b else be) start = some c →
        c.name = name := by
    clear h
    induction backends with
    | nil => exact fun start hstart => hstart
    | cons c backends ih =>
      intro start hstart
      rw [List.foldl_cons]
      refine ih _ fun c' hc' => ?_
      split at hc'
      · rename_i hname
        cases hc'
        exact eq_of_beq hname
      · exact hstart c' hc'
  exact hfold none (fun c hc => by cases hc) b h

/-- The loader that is called is that of a certain backend exactly when the handle has its name. -/
theorem executor_eq_ok_iff {env : Env} {h : ArtifactHandle} (hb : b ∈ env.backends)
    (hloader : b.loader.isSome = true) : executor env h = .ok b ↔ h.backend = b.name := by
  unfold executor
  constructor
  · intro hok
    cases hfound : backendNamed env.backends h.backend with
    | none =>
      rw [hfound] at hok
      cases hok
    | some c =>
      rw [hfound] at hok
      dsimp only at hok
      split at hok
      · cases hok
        exact (name_of_backendNamed hfound).symm
      · cases hok
  · intro hname
    rw [hname, backendNamed_name env.backends_nodup hb]
    exact if_pos hloader

end Names

/-! ## Where a handle comes from -/

theorem ArtifactRecord.validatedBy_backend (r : ArtifactRecord) (res : Result ValidationDescriptor) :
    (r.validatedBy res).backend = r.backend := by
  unfold ArtifactRecord.validatedBy
  split <;> rfl

theorem ArtifactRecord.evictCommit_backend (r : ArtifactRecord) :
    r.evictCommit.backend = r.backend := by
  unfold ArtifactRecord.evictCommit
  split <;> rfl

/-- A record keeps the name it came with. -/
theorem ArtifactRecord.Updates.backend {p : Nat} {l : Step} {r r' : ArtifactRecord}
    (h : Updates p r l r') : r'.backend = r.backend := by
  cases h with
  | validatedBy res => exact r.validatedBy_backend res
  | evictCommit => exact r.evictCommit_backend
  | _ => rfl

theorem exec_backend {env : Env} {l : Step} {s s' : Impl} (h : exec env l s = some s')
    (hl : l.Proper) {p : Nat} (hp : p < s.nextRecord) :
    (s'.records p).backend = (s.records p).backend := by
  rcases exec_records h hl hp with heq | hupd
  · rw [heq]
  · exact hupd.backend

/-- The record came into the cache with the event. -/
def Enters (e : Event Step Impl) (p : Nat) : Prop :=
  e.before.nextRecord ≤ p ∧ p < e.after.nextRecord

/-- A load of the run made the module, for this record and with the key it has. -/
def Sourced (env : Env) (tr : List (Event Step Impl)) (s : Impl) (p : Nat)
    (handle : LoadedModuleHandle) : Prop :=
  ∃ e ∈ tr, e.label.Loads env e.before p handle ∧ (e.before.records p).key = (s.records p).key

/-- The modules that threads and records have, and where the records came from. -/
structure Traced (env : Env) (tr : List (Event Step Impl)) (P : Nat → Holding) (s : Impl) : Prop where
  before : ∀ e ∈ tr, e.before.tick < s.tick
  atOnce : ∀ e ∈ tr, ∀ e' ∈ tr, e.before.tick = e'.before.tick → e = e'
  hand : ∀ i p handle, P i = .loaded p handle → p < s.nextRecord ∧ Sourced env tr s p handle
  record : ∀ p < s.nextRecord, ∀ m, (s.records p).nativeHandle = some m → Sourced env tr s p (some m)
  entered : ∀ p < s.nextRecord, ∃ e ∈ tr, Enters e p ∧
    (e.after.records p).backend = (s.records p).backend ∧ (e.after.records p).key = (s.records p).key

section Steps

variable {env : Env} {tr : List (Event Step Impl)} {P : Nat → Holding} {i : Nat} {l : Step}
  {s s' : Impl} {p : Nat} {handle : LoadedModuleHandle}

/-- What a thread has loaded after a section, the section has loaded. -/
theorem Holding.loads_of_next {held : Holding} (hok : held.ok l s)
    (h : held.next env l s = .loaded p handle) : l.Loads env s p handle := by
  cases l with
  | loadModule q bytes device =>
    simp only [Holding.next] at h
    split at h
    · rename_i out hload
      cases h
      exact ⟨bytes, device, _, rfl, hload⟩
    · cases h
  | evictUnload q =>
    simp only [Holding.next] at h
    split at h <;> cases h
  | unloadCall q =>
    simp only [Holding.next] at h
    split at h <;> cases h
  | commitDevice q handle' footprint => cases h
  | evictCommit q => cases h
  | unloadCommit q => cases h
  | _ =>
    obtain rfl : held = .nothing := hok
    cases h

/-- A record has the module it had, or the one that is being committed. -/
theorem Step.rehandle_eq_some {old : LoadedModuleHandle} {m : Nat}
    (h : l.rehandle p old = some m) :
    old = some m ∨ ∃ footprint, l = .commitDevice p (some m) footprint := by
  cases l with
  | commitDevice q handle footprint =>
    simp only [Step.rehandle] at h
    split at h
    · rename_i hpq
      subst hpq
      subst h
      exact .inr ⟨footprint, rfl⟩
    · exact .inl h
  | evictCommit q =>
    simp only [Step.rehandle] at h
    split at h
    · cases h
    · exact .inl h
  | unloadCommit q =>
    simp only [Step.rehandle] at h
    split at h
    · cases h
    · exact .inl h
  | _ => exact .inl h

theorem Sourced.concat (h : Sourced env tr s p handle) (e : Event Step Impl)
    (hkey : (s'.records p).key = (s.records p).key) : Sourced env (tr ++ [e]) s' p handle := by
  obtain ⟨e', he', hloads, hsame⟩ := h
  exact ⟨e', List.mem_append_left _ he', hloads, hsame.trans hkey.symm⟩

/-- One section. -/
theorem Traced.step (ht : Traced env tr P s) (h : exec env l s = some s') (hl : l.Proper)
    (hground : l.Grounded s) (hok : (P i).ok l s) :
    Traced env (tr ++ [⟨i, l, s, s'⟩]) (Function.update P i ((P i).next env l s)) s' := by
  have hext := exec_extends h hl
  have hkey : ∀ p < s.nextRecord, (s'.records p).key = (s.records p).key :=
    fun p hp => (exec_evolves h hl hp).key_eq
  have htick : s'.tick = s.tick + 1 := by
    obtain ⟨-, rfl⟩ := exec_eq_some.mp h
    rfl
  refine ⟨fun e he => ?_, fun e he e' he' heq => ?_, fun j p handle hj => ?_, fun p hp m hm => ?_,
    fun p hp => ?_⟩
  · rw [htick]
    rcases List.mem_append.mp he with hold | hnew
    · exact Nat.lt_succ_of_lt (ht.before e hold)
    · obtain rfl := List.mem_singleton.mp hnew
      exact Nat.lt_succ_self _
  · rcases List.mem_append.mp he with hold | hnew
    · rcases List.mem_append.mp he' with hold' | hnew'
      · exact ht.atOnce e hold e' hold' heq
      · obtain rfl := List.mem_singleton.mp hnew'
        exact absurd heq (Nat.ne_of_lt (ht.before e hold))
    · obtain rfl := List.mem_singleton.mp hnew
      rcases List.mem_append.mp he' with hold' | hnew'
      · exact absurd heq.symm (Nat.ne_of_lt (ht.before e' hold'))
      · exact (List.mem_singleton.mp hnew').symm
  · by_cases hji : j = i
    · subst hji
      rw [Function.update_self] at hj
      have hloads := Holding.loads_of_next hok hj
      have hp : p < s.nextRecord := by
        obtain ⟨bytes, device, footprint, rfl, -⟩ := hloads
        exact hground
      exact ⟨Nat.lt_of_lt_of_le hp hext.next_le, _, List.mem_append_right _ (List.mem_singleton_self _),
        hloads, (hkey p hp).symm⟩
    · rw [Function.update_of_ne hji] at hj
      obtain ⟨hp, hsourced⟩ := ht.hand j p handle hj
      exact ⟨Nat.lt_of_lt_of_le hp hext.next_le, hsourced.concat _ (hkey p hp)⟩
  · by_cases hold : p < s.nextRecord
    · rw [exec_nativeHandle h hl hold] at hm
      rcases Step.rehandle_eq_some hm with hbefore | ⟨footprint, rfl⟩
      · exact (ht.record p hold m hbefore).concat _ (hkey p hold)
      · exact (ht.hand i p (some m) hok).2.concat _ (hkey p hold)
    · rw [exec_nativeHandle_fresh h hl (Nat.le_of_not_lt hold) hp] at hm
      cases hm
  · by_cases hold : p < s.nextRecord
    · obtain ⟨e, he, henters, hbackend, hkey'⟩ := ht.entered p hold
      exact ⟨e, List.mem_append_left _ he, henters, hbackend.trans (exec_backend h hl hold).symm,
        hkey'.trans (hkey p hold).symm⟩
    · exact ⟨_, List.mem_append_right _ (List.mem_singleton_self _), ⟨Nat.le_of_not_lt hold, hp⟩, rfl,
        rfl⟩

end Steps

section Runs

variable {env : Env} {store : FilePersistenceStore} {tr : List (Event Step Impl)}
  {pool : Pool Step Impl Answer}

/-- At the end of every run. -/
theorem runs_traced (h : CacheRuns env store tr pool) :
    Traced env tr (inHand env tr) pool.shared := by
  refine (Runs.protocol (C := GroundedSteps) Holding.ok (Holding.next env) (fun _ => .nothing)
    (Q := fun _ _ _ _ => True) (fun i p hp => by cases hp) ?_ ?_ ?_ h
    fun e he => ⟨runs_proper h e he, runs_grounded h e he⟩).1
  · rintro i q ⟨op, rfl⟩
    exact (operation_carries op).weaken (fun _ h => h) fun _ _ _ _ => trivial
  · exact ⟨fun e he => (by cases he), fun e he => (by cases he), fun _ _ _ hj => (by cases hj),
      fun p hp => absurd hp (Nat.not_lt_zero p), fun p hp => absurd hp (Nat.not_lt_zero p)⟩
  · exact fun tr P i l s s' ht hok hexec hC => ht.step hexec hC.proper hC.grounded hok

/-- A build names its artifact after the backend of the key. -/
theorem Outcome.Made.named {gen : ArtifactGeneration} {o : Outcome} (h : o.Made env gen)
    {b : KernelBackend} (hfind : findBackend env.backends o.desc.key = some b) :
    o.desc.backend = b.name := by
  obtain ⟨tick, request, hrun⟩ := h.ran
  have hkey := (runBuild_built hrun h.succeeded).desc_key
  rw [hkey] at hfind
  simp only [runBuild, hfind] at hrun
  split at hrun
  · split at hrun
    · cases hrun
    · cases hrun
      cases h.succeeded
    · obtain ⟨vd, -, hdesc, -⟩ := validateBuilt_succeeded hrun h.succeeded
      rw [hdesc]
      rfl
  · cases hrun
    cases h.succeeded

/-- An artifact that was built has the name of the backend of its key. -/
theorem named_of_published (h : CacheRuns env store tr pool) {e : Event Step Impl} (he : e ∈ tr)
    {fence : Nat} {o : Outcome} (hpub : e.label = .publish fence o) {p : Nat} (henters : Enters e p)
    {b : KernelBackend} (hfind : findBackend env.backends (e.after.records p).key = some b) :
    (e.after.records p).backend = b.name := by
  obtain ⟨r, hr, hrec⟩ :=
    (exec_extends (h.event_step e he) (runs_proper h e he)).fresh p henters.1 henters.2
  have hmade := runs_publishesMade h e he
  rw [hpub] at hr hmade
  obtain ⟨gen, hmade⟩ := hmade
  obtain rfl := List.mem_singleton.mp hr
  have hkey : (e.after.records p).key = o.desc.key := by
    have hfinal := KernelCompatibilityKey.ensureFinalized_finalize o.desc.key
    rw [hmade.key_finalize] at hfinal
    rw [hrec]
    exact hfinal
  rw [hkey] at hfind
  rw [hrec]
  exact hmade.named hfind

/-- The loader of the backend made the module for the record, in the section of the event. -/
def LoadedBy (b : KernelBackend) (e : Event Step Impl) (p m : Nat) : Prop :=
  ∃ loader bytes device, b.loader = some loader ∧ e.label = .loadModule p bytes device ∧
    loader.load e.before.tick (e.before.records p).key bytes device = .ok (some m)

theorem Sourced.loadedBy {s : Impl} {p m : Nat} (h : Sourced env tr s p (some m)) :
    ∃ b, findBackend env.backends (s.records p).key = some b ∧ ∃ e ∈ tr, LoadedBy b e p m := by
  obtain ⟨e, he, ⟨bytes, device, footprint, hlabel, hload⟩, hkey⟩ := h
  unfold Impl.loadModule at hload
  split at hload
  · cases hload
  · rename_i loader hloader
    obtain ⟨b, hfind, hb⟩ := Option.bind_eq_some_iff.mp hloader
    split at hload
    · cases hload
    · rename_i handle hok
      cases hload
      rw [hkey] at hfind
      exact ⟨b, hfind, e, he, loader, bytes, device, hb, hlabel, hok⟩

/-- **Whose loader executes a module.** In every run, the module of an artifact in the index was made for
it by the loader of the backend of its key; and `execute`, given the handle that `load` reads off the
record, calls that loader exactly when the artifact was built, or was put or recovered under the name of
that backend. -/
theorem execute_reaches_loader_iff (h : CacheRuns env store tr pool) {id : ArtifactId} {p m : Nat}
    (hid : pool.shared.byId.lookup id = some p)
    (hmod : (pool.shared.records p).nativeHandle = some m) :
    ∃ b, findBackend env.backends (pool.shared.records p).key = some b ∧
      (∃ e ∈ tr, LoadedBy b e p m) ∧ ∃ entry ∈ tr, Enters entry p ∧
        (executor env (pool.shared.records p).handle = .ok b ↔
          (∃ fence o, entry.label = .publish fence o) ∨
            (entry.after.records p).backend = b.name) := by
  have ht := runs_traced h
  have hp : p < pool.shared.nextRecord := ((runs_sound h).2.bound id p hid).1
  obtain ⟨b, hfind, hloaded⟩ := (ht.record p hp m hmod).loadedBy
  obtain ⟨entry, hentry, henters, hbackend, hkey⟩ := ht.entered p hp
  have hloader : b.loader.isSome = true := by
    obtain ⟨e, -, loader, bytes, device, hb, -⟩ := hloaded
    rw [hb]
    rfl
  refine ⟨b, hfind, hloaded, entry, hentry, henters, ?_⟩
  rw [executor_eq_ok_iff (findBackend_mem hfind) hloader, hbackend]
  constructor
  · exact fun hname => .inr hname
  · rintro (⟨fence, o, hpub⟩ | hname)
    · exact hbackend.symm.trans (named_of_published h hentry hpub henters (hkey ▸ hfind))
    · exact hname

/-! ## What a handle computes -/

/-- The key is one of the CPU backend. -/
def goesToCpu (env : Env) (key : KernelCompatibilityKey) : Bool :=
  (findBackend env.backends key).any fun b => b.name == CpuBackend.backendName

/-- The kernel that a load of the CPU backend puts into a new `HostModule` at the address. -/
def kernelMade (env : Env) (e : Event Step Impl) (m : Nat) : Option CpuKernel :=
  match e.label with
  | .loadModule p bytes device =>
    match (e.before.loadModule env p bytes device).1 with
    | .ok (handle, _) =>
      if handle = some m ∧ goesToCpu env (e.before.records p).key = true then
        some (parseKey (e.before.records p).key)
      else none
    | .error _ => none
  | _ => none

/-- The kernel in the `HostModule` at the address: the last that was put there. -/
def kernelAt (env : Env) (tr : List (Event Step Impl)) (m : Nat) : Option CpuKernel :=
  tr.reverse.findSome? fun e => kernelMade env e m

theorem kernelMade_eq_some {e : Event Step Impl} {m : Nat} {k : CpuKernel}
    (h : kernelMade env e m = some k) :
    ∃ p, e.label.Loads env e.before p (some m) ∧ k = parseKey (e.before.records p).key := by
  unfold kernelMade at h
  split at h
  · rename_i p bytes device hlabel
    split at h
    · rename_i handle footprint hload
      split at h
      · rename_i hsame
        obtain ⟨rfl, -⟩ := hsame
        cases h
        exact ⟨p, ⟨bytes, device, footprint, hlabel, hload⟩, rfl⟩
      · cases h
    · cases h
  · cases h

theorem kernelMade_of_loads {e : Event Step Impl} {p m : Nat}
    (h : e.label.Loads env e.before p (some m))
    (hcpu : goesToCpu env (e.before.records p).key = true) :
    kernelMade env e m = some (parseKey (e.before.records p).key) := by
  obtain ⟨bytes, device, footprint, hlabel, hload⟩ := h
  unfold kernelMade
  rw [hlabel]
  dsimp only
  rw [hload]
  exact if_pos ⟨rfl, hcpu⟩

/-- The module of an artifact holds the kernel of its key. -/
theorem kernelAt_record (h : CacheRuns env store tr pool) (hfresh : env.FreshLoads) {p m : Nat}
    (hp : p < pool.shared.nextRecord) (hmod : (pool.shared.records p).nativeHandle = some m)
    (hcpu : goesToCpu env (pool.shared.records p).key = true) :
    kernelAt env tr m = some (parseKey (pool.shared.records p).key) := by
  have ht := runs_traced h
  obtain ⟨e, he, hloads, hkey⟩ := ht.record p hp m hmod
  have hmade := kernelMade_of_loads hloads (hkey ▸ hcpu)
  unfold kernelAt
  cases hfound : tr.reverse.findSome? fun e => kernelMade env e m with
  | none =>
    have hnone := List.findSome?_eq_none_iff.mp hfound e (List.mem_reverse.mpr he)
    rw [hnone] at hmade
    cases hmade
  | some k =>
    obtain ⟨e', he', hk⟩ := List.exists_of_findSome?_eq_some hfound
    obtain ⟨p', hloads', -⟩ := kernelMade_eq_some hk
    -- a module is given out once, so the two loads are one
    have hsame := ht.atOnce e he e' (List.mem_reverse.mp he')
      (hfresh.once _ _ _ hloads.givesOut hloads'.givesOut)
    subst hsame
    rw [← hk, hmade, hkey]

/-- **What executing an artifact computes.** In every run, with loaders that give out every module once:
the handle of an artifact whose key is the CPU backend's runs the operation of that key over as many
elements as the key says.  On pointers that spare its inputs, it writes to `out` what the operation makes
of the two buffers, and nothing anywhere else. -/
theorem execute_computes {F : Type} {host : CpuBackend.Host F} (h : CacheRuns env store tr pool)
    (hfresh : env.FreshLoads) {id : ArtifactId} {p m : Nat}
    (hid : pool.shared.byId.lookup id = some p)
    (hmod : (pool.shared.records p).nativeHandle = some m)
    (hcpu : findBackend env.backends (pool.shared.records p).key = some (makeCpuBackend host))
    {k : CpuKernel} (hk : k = parseKey (pool.shared.records p).key) {argBytes a out : Nat} {b : Option Nat}
    (hargs : 3 * 8 ≤ argBytes) (hspares : Spares k.op a b out (countElems k.shape).toNat)
    (mem : Nat → F) :
    ∃ mem', executeIn host.ops (kernelAt env tr m) argBytes a b out mem = .ok mem' ∧
      (∀ i < (countElems k.shape).toNat, mem' (out + i) = elementAt host.ops k.op a b mem i) ∧
        ∀ addr, (∀ i < (countElems k.shape).toNat, addr ≠ out + i) → mem' addr = mem addr := by
  have hp : p < pool.shared.nextRecord := ((runs_sound h).2.bound id p hid).1
  have hgoes : goesToCpu env (pool.shared.records p).key = true := by
    unfold goesToCpu
    rw [hcpu]
    exact beq_self_eq_true CpuBackend.backendName
  rw [kernelAt_record h hfresh hp hmod hgoes, ← hk]
  exact ⟨_, if_neg (Nat.not_lt.mpr hargs), fun i hi => runKernel_cells hspares hi,
    fun addr haddr => runKernel_other haddr⟩

end Runs

/-! ## An artifact that is put, loaded and executed -/

/-- A cache with the CPU backend alone. -/
def cpuEnv : Env where
  backends := [makeCpuBackend CpuBackend.wholeNumbers]
  backends_nodup := makeCpuBackend_nodup _

theorem cpuEnv_freshLoads : cpuEnv.FreshLoads := by
  have hgives : ∀ {t : Nat} {handle : LoadedModuleHandle}, cpuEnv.GivesOut t handle →
      handle = some t := by
    rintro t handle ⟨b, hb, loader, hloader, key, bytes, device, hload⟩
    obtain rfl := List.mem_singleton.mp hb
    cases hloader
    cases hload
    rfl
  refine ⟨fun t h => ?_, fun t t' handle h h' => ?_⟩
  · cases hgives h
  · exact Option.some.inj ((hgives h).symm.trans (hgives h'))

/-- An artifact for a vector of three elements, under the name of a backend. -/
def vectorArtifact (backend : Str) : ArtifactDescriptor :=
  { id := ⟨⟨1, 7⟩⟩, generation := 1, key := { shape := [3] }, backend := backend
    validation := allChecks }

/-- The artifact is put and loaded. -/
def putAndLoad (backend : Str) : List Move :=
  [.start (.put (vectorArtifact backend) [1]), .step 0, .start (.load ⟨⟨1, 7⟩⟩), .step 1, .step 1, .step 1,
    .step 1, .step 1]

/-- The artifact goes to the CPU loader, which made its module, when it was put under its name. -/
theorem execute_reaches_loader_put : ∃ tr pool, CacheRuns cpuEnv {} tr pool ∧
    (pool.shared.records 0).nativeHandle = some 4 ∧
    ∃ b, executor cpuEnv (pool.shared.records 0).handle = .ok b ∧ ∃ e ∈ tr, LoadedBy b e 0 4 := by
  have hplay : ∃ tr pool, play cpuEnv {} (putAndLoad CpuBackend.backendName) = some (tr, pool) ∧
      pool.shared.byId.lookup ⟨⟨1, 7⟩⟩ = some 0 ∧ (pool.shared.records 0).nativeHandle = some 4 ∧
      (pool.shared.records 0).backend = CpuBackend.backendName :=
    ⟨_, _, rfl, rfl, rfl, rfl⟩
  obtain ⟨tr, pool, hplay, hid, hmod, hname⟩ := hplay
  have hruns := CacheRuns.of_play hplay
  obtain ⟨b, hfind, hloaded, -⟩ := execute_reaches_loader_iff hruns hid hmod
  refine ⟨tr, pool, hruns, hmod, b, ?_, hloaded⟩
  have hb : b = makeCpuBackend CpuBackend.wholeNumbers :=
    List.mem_singleton.mp (findBackend_mem hfind)
  rw [executor_eq_ok_iff (findBackend_mem hfind) (by rw [hb]; rfl), hb]
  exact hname

/-- Its module adds two vectors in place, over the first of them. -/
theorem execute_computes_inPlace : ∃ tr pool, CacheRuns cpuEnv {} tr pool ∧
    ∃ mem', executeIn CpuBackend.wholeNumbers.ops (kernelAt cpuEnv tr 4) 24 0 (some 10) 0
        (fun addr => addr) = .ok mem' ∧ mem' 2 = 14 ∧ mem' 12 = 12 := by
  have hplay : ∃ tr pool, play cpuEnv {} (putAndLoad CpuBackend.backendName) = some (tr, pool) ∧
      pool.shared.byId.lookup ⟨⟨1, 7⟩⟩ = some 0 ∧ (pool.shared.records 0).nativeHandle = some 4 ∧
      findBackend cpuEnv.backends (pool.shared.records 0).key =
        some (makeCpuBackend CpuBackend.wholeNumbers) ∧
      parseKey (pool.shared.records 0).key = { op := .vecAdd, shape := [3] } :=
    ⟨_, _, rfl, rfl, rfl, rfl, by decide⟩
  obtain ⟨tr, pool, hplay, hid, hmod, hcpu, hkernel⟩ := hplay
  have hruns := CacheRuns.of_play hplay
  have hspares : Spares .vecAdd 0 (some 10) 0 (countElems [3]).toNat :=
    ⟨fun h => absurd h.1 (Nat.not_lt_zero 0), fun _ b _ h => absurd h.1 (Nat.not_lt_zero b)⟩
  obtain ⟨mem', hexec, hcells, hother⟩ := execute_computes hruns cpuEnv_freshLoads hid hmod hcpu
    hkernel.symm (le_refl 24) hspares (fun addr => addr)
  exact ⟨tr, pool, hruns, mem', hexec, hcells 2 (by decide), hother 12 (by decide)⟩

end KernelCache
