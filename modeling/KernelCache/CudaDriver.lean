/-
# KernelCache.CudaDriver — the CUDA backend and what it borrows from the driver (`cuda_backend.cpp`).

The backend compiles through NVRTC and loads, validates and launches through the CUDA driver.  Both are
outside the repository: a `CudaHost` answers each call, in the order they are made, with whatever code,
size and data it likes.  NVRTC programs, driver modules and device buffers are resources of a `Ledger`,
and the functions below are programs over it, call by call and error path by error path.

Every statement that fills a string or a vector is a host allocation, and may throw.  One call at a time:
every path hands back what it has taken (`build_spends` to `execute_spends`), except where an allocation
throws with a program or a module in hand.  Over a whole run what the backend has in hand are the modules
of the objects that were loaded and not unloaded, and at most one program for each build and one module for
each validation that ended so (`driver_resources`).  What a destroy call has answered with an error is alive
as well, and never named again.
-/
import KernelCache.Foundation.Ledger
import KernelCache.Foundation.Simulation
import KernelCache.CudaBackend
import Mathlib.Data.Multiset.MapFold
import Mathlib.Data.Multiset.OrderedMonoid

namespace KernelCache

open Foundation (Bytes Prog Ledger Deal answers behind)
open Foundation.Prog (sect Spends)

/-! ## The driver -/

inductive CudaResource where
  | program
  | module
  | buffer
  deriving DecidableEq

abbrev CudaHandle := CudaResource × Nat

/-- A call of NVRTC or of the driver, or a host allocation. -/
inductive CudaRequest where
  | nvrtcCreateProgram (source name : Str)
  | nvrtcCompileProgram (options : List Str)
  | nvrtcGetProgramLogSize
  | nvrtcGetProgramLog
  | nvrtcGetCUBINSize
  | nvrtcGetCUBIN
  | cuModuleLoadDataEx (image : Bytes)
  | cuModuleGetFunction (name : Str)
  | cuMemAlloc (bytes : UInt64)
  | cuMemcpyHtoD (bytes : UInt64)
  | cuLaunchKernel (grid block : UInt32) (n : Int32)
  | cuCtxSynchronize
  | cuMemcpyDtoH (bytes : UInt64)
  /-- Strings or vectors of this many elements. -/
  | allocate (n : UInt64)

structure CudaReply where
  /-- `CUresult` or `nvrtcResult`. -/
  code : Int := 0
  size : UInt64 := 0
  data : Bytes := []
  /-- The allocation throws. -/
  throws : Bool := false
  /-- The results that were copied back are those of the reference, up to the tolerance. -/
  agrees : Bool := false

structure CudaHost where
  /-- `cuda_ready()`. -/
  ready : Bool := true
  /-- `nvrtc().ok`. -/
  nvrtc : Bool := true
  /-- The replies, call after call. -/
  reply : Nat → CudaReply := fun _ => {}

/-- Programs over the driver. -/
abbrev Cuda (α : Type) := Prog (Deal CudaResource CudaRequest) (Ledger CudaResource) α

namespace CudaHost

def granted (host : CudaHost) (n : Nat) : Bool := (host.reply n).code == 0

/-- A call that makes a resource, if its code is 0. -/
def create (host : CudaHost) (kind : CudaResource) (request : CudaRequest) :
    Cuda (CudaReply × CudaHandle) :=
  sect (.take kind request) fun l => (host.reply l.calls, (kind, l.next))

/-- `nvrtcDestroyProgram`, `cuModuleUnload`, `cuMemFree`: the code is not looked at. -/
def destroy (h : CudaHandle) : Cuda Unit := sect (.give h) fun _ => ()

def ask (host : CudaHost) (on : List CudaHandle) (request : CudaRequest) : Cuda CudaReply :=
  sect (.use on request) fun l => host.reply l.calls

/-- An allocation, and what follows unless it throws. -/
def allocated {α : Type} (host : CudaHost) (n : UInt64) (k : Cuda (Result α)) : Cuda (Result α) := do
  let r ← host.ask [] (.allocate n)
  if r.throws then return .error .exception else k

/-- An error, with the string for its message. -/
def refused {α : Type} (host : CudaHost) (code : ErrorCode) (message : Str) : Cuda (Result α) :=
  host.allocated (UInt64.ofNat message.length) (Prog.ret (fail code message))

end CudaHost

namespace CudaBackend

/-- `std::to_string` of an `int`. -/
def intStr (n : Int) : Str := if n < 0 then str "-" ++ natStr n.natAbs else natStr n.natAbs

/-- `cu_str_result`. -/
def cuStrResult (code : Int) (sym : Str) : Str :=
  if code = 1 then sym ++ str ": invalid value"
  else if code = 2 then sym ++ str ": out of memory"
  else if code = 3 then sym ++ str ": not initialized"
  else if code = 100 then sym ++ str ": invalid handle"
  else if code = 500 then sym ++ str ": invalid context"
  else if code = 700 then sym ++ str ": launch failed"
  else if code = 719 then sym ++ str ": launch out of resources"
  else sym ++ str ": error " ++ intStr code

/-- `ErrorCode::BuildFailed`. -/
def buildFailed : ErrorCode := .backend 25

/-- `ErrorCode::LoadFailed`. -/
def loadFailed : ErrorCode := .backend 27

/-- A string of `size` zero bytes after the driver has written into it. -/
def filled (size : UInt64) (data : Bytes) : Bytes :=
  (data ++ List.replicate size.toNat 0).take size.toNat

/-- The function a module is asked for. -/
def kernelName (key : KernelCompatibilityKey) : Str :=
  if key.operation.isEmpty then str "vec_add" else key.operation

def blockX (key : KernelCompatibilityKey) : UInt32 := if key.blockX = 0 then 256 else key.blockX

/-- The blocks of a launch over `n` elements. -/
def gridOf (n : UInt64) (block : UInt32) : UInt32 := ((n + block.toUInt64 - 1) / block.toUInt64).toUInt32

variable (host : CudaHost)

/-! ## CudaBuilder -/

/-- Fetch a text of a known size into a string of that size; an empty one is not asked for. -/
def fetch (prog : CudaHandle) (size : UInt64) (request : CudaRequest) : Cuda Bytes :=
  if size = 0 then return []
  else do
    let fetched ← host.ask [prog] request
    return filled size fetched.data

/-- The failure path of the compilation: fetch the log. -/
def compileFailed (prog : CudaHandle) (code : Int) : Cuda (Result BuildResult) := do
  let logSize ← host.ask [prog] .nvrtcGetProgramLogSize
  host.allocated logSize.size do
    let log ← fetch host prog logSize.size .nvrtcGetProgramLog
    CudaHost.destroy prog
    host.refused buildFailed (str "nvrtcCompileProgram failed (" ++ intStr code ++ str "): " ++ log)

def cubinResult (req : BuildRequest) (arch : Str) (cubin : Bytes) : BuildResult :=
  let size := UInt64.ofNat cubin.length
  { artifactFormat := str "cubin"
    bytes := cubin
    sizes := { artifactBytes := size, hostBytes := size, storageBytes := size
               deviceBytesEstimated := true }
    provenance := { producer := str "cuda", buildCommand := str "nvrtc " ++ arch }
    compilation :=
      { compiler := { name := str "nvrtc", versionMajor := req.key.compilerVersionMajor
                      versionMinor := req.key.compilerVersionMinor }
        target := { archName := req.key.arch, computeCapability := req.key.capability } }
    kernelCount := 1 }

/-- The cubin of a compiled program; the result copies it once more. -/
def takeCubin (req : BuildRequest) (arch : Str) (prog : CudaHandle) : Cuda (Result BuildResult) := do
  let cubinSize ← host.ask [prog] .nvrtcGetCUBINSize
  host.allocated cubinSize.size do
    let cubin ← fetch host prog cubinSize.size .nvrtcGetCUBIN
    CudaHost.destroy prog
    if cubinSize.size = 0 then host.refused buildFailed (str "empty cubin from nvrtc")
    else host.allocated cubinSize.size (Prog.ret (.ok (cubinResult req arch cubin)))

/-- The compilation of a program that has been created; the options are strings. -/
def compile (req : BuildRequest) (arch : Str) (prog : CudaHandle) : Cuda (Result BuildResult) :=
  let option := str "--gpu-architecture=" ++ arch
  host.allocated (UInt64.ofNat option.length) do
    let compiled ← host.ask [prog] (.nvrtcCompileProgram [option, str "--std=c++14"])
    if compiled.code ≠ 0 then compileFailed host prog compiled.code
    else takeCubin host req arch prog

/-- `CudaBuilder::build`. -/
def build (req : BuildRequest) : Cuda (Result BuildResult) :=
  if !host.ready then host.refused .notSupported (str "CUDA driver not available")
  else if req.source.isEmpty then
    host.refused .invalidArgument (str "CUDA build requires kernel source")
  else if !host.nvrtc then
    host.refused .notSupported (str "NVRTC not available for runtime compilation")
  else
    let arch := if req.key.arch.isEmpty then str "sm_120" else req.key.arch
    let fname := kernelName req.key
    host.allocated (UInt64.ofNat (fname.length + arch.length)) do
      let (created, prog) ← host.create .program (.nvrtcCreateProgram req.source fname)
      if created.code ≠ 0 then
        host.refused buildFailed (str "nvrtcCreateProgram rc=" ++ intStr created.code)
      else compile host req arch prog

/-! ## Device buffers -/

/-- Allocate `da`, `db` and `dout`; a failure frees those before it. -/
def withBuffers {α : Type} (bytes : UInt64) (failed : Str → Int → Cuda α)
    (k : CudaHandle → CudaHandle → CudaHandle → Cuda α) : Cuda α := do
  let (ra, da) ← host.create .buffer (.cuMemAlloc bytes)
  if ra.code ≠ 0 then failed (str "alloc a") ra.code
  else
    let (rb, db) ← host.create .buffer (.cuMemAlloc bytes)
    if rb.code ≠ 0 then
      CudaHost.destroy da
      failed (str "alloc b") rb.code
    else
      let (rout, dout) ← host.create .buffer (.cuMemAlloc bytes)
      if rout.code ≠ 0 then
        CudaHost.destroy da
        CudaHost.destroy db
        failed (str "alloc out") rout.code
      else k da db dout

def freeBuffers (da db dout : CudaHandle) : Cuda Unit := do
  CudaHost.destroy da
  CudaHost.destroy db
  CudaHost.destroy dout

/-- Copy the operands in and launch; the codes of the copies are not looked at. -/
def launch (mod da db dout : CudaHandle) (bytes n : UInt64) (block : UInt32) : Cuda CudaReply := do
  let _ ← host.ask [da] (.cuMemcpyHtoD bytes)
  let _ ← host.ask [db] (.cuMemcpyHtoD bytes)
  host.ask [mod, dout, da, db] (.cuLaunchKernel (gridOf n block) block n.toUInt32.toInt32)

/-! ## CudaValidator -/

/-- What a validation answers, with the string for its reason. -/
def reasoned (vd : ValidationDescriptor) (reason : Str) : Cuda (Result ValidationDescriptor) :=
  host.allocated (UInt64.ofNat reason.length) (Prog.ret (.ok { vd with backendReason := reason }))

/-- The launch of a validation and the comparison. -/
def compareLaunch (key : KernelCompatibilityKey) (vd : ValidationDescriptor) (mod : CudaHandle)
    (n : UInt64) (da db dout : CudaHandle) : Cuda (Result ValidationDescriptor) := do
  let launched ← launch host mod da db dout (n * 4) n (blockX key)
  if launched.code ≠ 0 then
    freeBuffers da db dout
    CudaHost.destroy mod
    reasoned host vd (str "launch: " ++ cuStrResult launched.code (str "cuLaunchKernel"))
  else
    let _ ← host.ask [] .cuCtxSynchronize
    let copied ← host.ask [dout] (.cuMemcpyDtoH (n * 4))
    freeBuffers da db dout
    CudaHost.destroy mod
    reasoned host
      { vd with
        executionSmoke := true
        referenceCompare := copied.agrees
        archChecked := true
        abiChecked := true }
      (if copied.agrees then str "gpu matches cpu reference"
        else str "gpu result mismatch vs cpu reference")

/-- The validation of a module that has been loaded. -/
def validateLoaded (key : KernelCompatibilityKey) (vd : ValidationDescriptor) (mod : CudaHandle) :
    Cuda (Result ValidationDescriptor) :=
  let fname := kernelName key
  host.allocated (UInt64.ofNat fname.length) do
    let found ← host.ask [mod] (.cuModuleGetFunction fname)
    if found.code ≠ 0 then
      CudaHost.destroy mod
      reasoned host vd
        (str "get function: " ++ cuStrResult found.code (str "cuModuleGetFunction") ++
          str " (" ++ fname ++ str ")")
    else
      -- the operands, the output and the reference
      host.allocated (keyN key) <|
        withBuffers host (keyN key * 4)
          (fun which code => do
            CudaHost.destroy mod
            reasoned host vd (which ++ str ": " ++ cuStrResult code (str "cuMemAlloc")))
          (compareLaunch host key vd mod (keyN key))

/-- `CudaValidator::validate`. -/
def validate (key : KernelCompatibilityKey) (bytes : Bytes) : Cuda (Result ValidationDescriptor) :=
  if !host.ready then reasoned host {} (str "CUDA not ready")
  else do
    let vd : ValidationDescriptor :=
      { integrityHashChecked := !bytes.isEmpty, formatChecked := !bytes.isEmpty
        metadataConsistent := true }
    let (loaded, mod) ← host.create .module (.cuModuleLoadDataEx bytes)
    if loaded.code ≠ 0 then
      reasoned host vd
        (str "module load: " ++ cuStrResult loaded.code (str "cuModuleLoadDataEx"))
    else validateLoaded host key { vd with loadable := true } mod

/-! ## CudaLoader -/

/-- `CudaModule`; `module` is the null pointer before the load and after the unload. -/
structure CudaModule where
  module : Option CudaHandle := none
  cubin : Bytes := []
  blockX : UInt32 := 256
  kernelName : Str := []

/-- `CudaLoader::load`; the object is made first, with the image and the name in it. -/
def load (key : KernelCompatibilityKey) (bytes : Bytes) : Cuda (Result CudaModule) :=
  if !host.ready then host.refused .notSupported (str "CUDA not available")
  else
    host.allocated (UInt64.ofNat (bytes.length + (kernelName key).length)) do
      let (loaded, mod) ← host.create .module (.cuModuleLoadDataEx bytes)
      if loaded.code ≠ 0 then
        host.refused loadFailed
          (str "load: " ++ cuStrResult loaded.code (str "cuModuleLoadDataEx"))
      else
        let found ← host.ask [mod] (.cuModuleGetFunction (kernelName key))
        if found.code ≠ 0 then
          CudaHost.destroy mod
          host.refused loadFailed
            (str "get fn: " ++ cuStrResult found.code (str "cuModuleGetFunction"))
        else return .ok { module := some mod, cubin := bytes, blockX := blockX key
                          kernelName := kernelName key }

/-- `CudaLoader::unload` of a module object. -/
def unload (m : CudaModule) : Cuda CudaModule :=
  match m.module with
  | none => return m
  | some mod => do
    CudaHost.destroy mod
    return { m with module := none }

/-- The launch of an execution. -/
def executeLaunch (m : CudaModule) (mod : CudaHandle) (n : UInt64) (da db dout : CudaHandle) :
    Cuda (Result Unit) := do
  let launched ← launch host mod da db dout (n * 4) n m.blockX
  if launched.code ≠ 0 then
    freeBuffers da db dout
    host.refused loadFailed (str "launch: " ++ cuStrResult launched.code (str "cuLaunchKernel"))
  else
    let _ ← host.ask [] .cuCtxSynchronize
    let _ ← host.ask [dout] (.cuMemcpyDtoH (n * 4))
    freeBuffers da db dout
    return .ok ()

/-- `CudaLoader::execute` of a module object, with the size of the blob and the count it points to. -/
def execute (m : CudaModule) (argBytes : UInt64) (count : Int32) : Cuda (Result Unit) :=
  match m.module with
  | none => host.refused .invalidArgument (str "module not loaded")
  | some mod =>
    if argBytes < 4 * 8 then host.refused .invalidArgument (str "args blob too small")
    else
      let n := count.toInt64.toUInt64
      withBuffers host (n * 4) (fun which _ => host.refused loadFailed which)
        (executeLaunch host m mod n)

/-- `CudaLoader::resident_footprint`. -/
def residentFootprint (m : CudaModule) : UInt64 × Bool := (UInt64.ofNat m.cubin.length * 4 + 4096, true)

/-! ## What each function holds when it returns -/

/-- An exception is passing through. -/
def thrown {α : Type} : Result α → Bool
  | .error .exception => true
  | _ => false

/-- Everything is handed back, or an exception leaves a resource of this kind behind. -/
def Settles {α : Type} (kind : CudaResource) (res : Result α) (kept : Multiset CudaHandle) : Prop :=
  kept = 0 ∨ thrown res = true ∧ ∃ n, kept = {(kind, n)}

theorem Settles.nothing {α : Type} {kind : CudaResource} {res : Result α} : Settles kind res 0 := .inl rfl

theorem Settles.lost {α : Type} (kind : CudaResource) (n : Nat) :
    Settles kind (.error .exception : Result α) {(kind, n)} := .inr ⟨rfl, n, rfl⟩

variable {host} {held : Multiset CudaHandle} {α : Type}

/-- A resource is asked for: without it on one path, with it on the other. -/
theorem create_spends {β : Type} {kind : CudaResource} {request : CudaRequest}
    {g : CudaReply × CudaHandle → Cuda β} {Q : β → Multiset CudaHandle → Prop}
    (hrefused : ∀ r h, r.code ≠ 0 → Spends host.granted held (g (r, h)) Q)
    (hgranted : ∀ r n, r.code = 0 → Spends host.granted ((kind, n) ::ₘ held) (g (r, (kind, n))) Q) :
    Spends host.granted held ((host.create kind request).bind g) Q := by
  refine Spends.bind (Q := fun out kept => (out.1.code ≠ 0 → kept = held) ∧
    (out.1.code = 0 → kept = out.2 ::ₘ held ∧ out.2.1 = kind))
    (Spends.take (fun l hl => ?_) fun l hl => ?_) ?_
  · have hcode : (host.reply l.calls).code = 0 := by simpa [CudaHost.granted] using hl
    exact ⟨fun hne => absurd hcode hne, fun _ => ⟨rfl, rfl⟩⟩
  · have hcode : (host.reply l.calls).code ≠ 0 := by simpa [CudaHost.granted] using hl
    exact ⟨fun _ => rfl, fun heq => absurd heq hcode⟩
  · rintro ⟨r, kind', n⟩ kept ⟨hnone, hone⟩
    by_cases hcode : r.code = 0
    · obtain ⟨rfl, rfl⟩ := hone hcode
      exact hgranted r n hcode
    · rw [hnone hcode]
      exact hrefused r _ hcode

theorem destroy_spends (h : CudaHandle) :
    Spends host.granted (h ::ₘ held) (CudaHost.destroy h) fun _ kept => kept = held :=
  Spends.give fun _ => rfl

theorem ask_spends {on : List CudaHandle} {request : CudaRequest} (hon : ∀ r ∈ on, r ∈ held) :
    Spends host.granted held (host.ask on request) fun _ kept => kept = held :=
  Spends.use hon fun _ => rfl

theorem mem_held (h : CudaHandle) : ∀ r ∈ [h], r ∈ h ::ₘ held := by simp

/-- An allocation: the exception leaves what is in hand where it is. -/
theorem allocated_spends {n : UInt64} {k : Cuda (Result α)} {Q : Result α → Multiset CudaHandle → Prop}
    (hthrows : Q (.error .exception) held) (hk : Spends host.granted held k Q) :
    Spends host.granted held (host.allocated n k) Q := by
  unfold CudaHost.allocated
  refine Spends.bind (ask_spends (by simp)) ?_
  rintro r _ rfl
  split
  · exact Spends.ret hthrows
  · exact hk

theorem refused_spends {code : ErrorCode} {message : Str} {Q : Result α → Multiset CudaHandle → Prop}
    (hQ : ∀ e, Q (.error e) held) : Spends host.granted held (host.refused code message) Q :=
  allocated_spends (hQ _) (Spends.ret (hQ _))

theorem reasoned_spends {vd : ValidationDescriptor} {reason : Str} :
    Spends host.granted 0 (reasoned host vd reason) (Settles .module) :=
  allocated_spends .nothing (Spends.ret .nothing)

theorem fetch_spends {prog : CudaHandle} (hprog : prog ∈ held) (size : UInt64)
    (request : CudaRequest) :
    Spends host.granted held (fetch host prog size request) fun _ kept => kept = held := by
  unfold fetch
  split
  · exact Spends.ret rfl
  · refine Spends.bind (ask_spends (by simpa using hprog)) ?_
    rintro fetched _ rfl
    exact Spends.ret rfl

theorem compileFailed_spends (n : Nat) (code : Int) :
    Spends host.granted {(.program, n)} (compileFailed host (.program, n) code) (Settles .program) := by
  unfold compileFailed
  refine Spends.bind (ask_spends (mem_held _)) ?_
  rintro logSize _ rfl
  refine allocated_spends (.lost _ n) ?_
  refine Spends.bind (fetch_spends (Multiset.mem_singleton_self _) _ _) ?_
  rintro log _ rfl
  refine Spends.bind (destroy_spends _) ?_
  rintro _ _ rfl
  exact refused_spends fun _ => .nothing

theorem takeCubin_spends (req : BuildRequest) (arch : Str) (n : Nat) :
    Spends host.granted {(.program, n)} (takeCubin host req arch (.program, n)) (Settles .program) := by
  unfold takeCubin
  refine Spends.bind (ask_spends (mem_held _)) ?_
  rintro cubinSize _ rfl
  refine allocated_spends (.lost _ n) ?_
  refine Spends.bind (fetch_spends (Multiset.mem_singleton_self _) _ _) ?_
  rintro cubin _ rfl
  refine Spends.bind (destroy_spends _) ?_
  rintro _ _ rfl
  split
  · exact refused_spends fun _ => .nothing
  · exact allocated_spends .nothing (Spends.ret .nothing)

theorem compile_spends (req : BuildRequest) (arch : Str) (n : Nat) :
    Spends host.granted {(.program, n)} (compile host req arch (.program, n)) (Settles .program) := by
  unfold compile
  refine allocated_spends (.lost _ n) ?_
  refine Spends.bind (ask_spends (mem_held _)) ?_
  rintro compiled _ rfl
  split
  · exact compileFailed_spends n _
  · exact takeCubin_spends req _ n

/-- A build destroys its program on every path, unless the string for the options, a log or a cubin
throws. -/
theorem build_spends (req : BuildRequest) :
    Spends host.granted 0 (build host req) (Settles .program) := by
  unfold build
  split
  · exact refused_spends fun _ => .nothing
  split
  · exact refused_spends fun _ => .nothing
  split
  · exact refused_spends fun _ => .nothing
  refine allocated_spends .nothing ?_
  refine create_spends (fun created h hcode => ?_) fun created n hcode => ?_
  · dsimp only
    rw [if_pos hcode]
    exact refused_spends fun _ => .nothing
  · dsimp only
    rw [if_neg (not_not.mpr hcode)]
    exact compile_spends req _ n

theorem withBuffers_spends {bytes : UInt64} {failed : Str → Int → Cuda α}
    {k : CudaHandle → CudaHandle → CudaHandle → Cuda α} {Q : α → Multiset CudaHandle → Prop}
    (hfailed : ∀ which code, Spends host.granted held (failed which code) Q)
    (hk : ∀ da db dout, Spends host.granted (da ::ₘ db ::ₘ dout ::ₘ held) (k da db dout) Q) :
    Spends host.granted held (withBuffers host bytes failed k) Q := by
  unfold withBuffers
  refine create_spends (fun ra h hcode => ?_) fun ra a hcode => ?_
  · dsimp only
    rw [if_pos hcode]
    exact hfailed _ _
  dsimp only
  rw [if_neg (not_not.mpr hcode)]
  refine create_spends (fun rb h hcode => ?_) fun rb b hcode => ?_
  · dsimp only
    rw [if_pos hcode]
    refine Spends.bind (destroy_spends _) ?_
    rintro _ _ rfl
    exact hfailed _ _
  dsimp only
  rw [if_neg (not_not.mpr hcode)]
  refine create_spends (fun rout h hcode => ?_) fun rout out hcode => ?_
  · dsimp only
    rw [if_pos hcode, Multiset.cons_swap]
    refine Spends.bind (destroy_spends _) ?_
    rintro _ _ rfl
    refine Spends.bind (destroy_spends _) ?_
    rintro _ _ rfl
    exact hfailed _ _
  dsimp only
  rw [if_neg (not_not.mpr hcode)]
  have hlist : ∀ da db dout : CudaHandle,
      dout ::ₘ db ::ₘ da ::ₘ held = da ::ₘ db ::ₘ dout ::ₘ held := by
    intro da db dout
    rw [Multiset.cons_swap dout, Multiset.cons_swap dout, Multiset.cons_swap db]
  rw [hlist]
  exact hk _ _ _

theorem freeBuffers_spends (da db dout : CudaHandle) :
    Spends host.granted (da ::ₘ db ::ₘ dout ::ₘ held) (freeBuffers da db dout)
      fun _ kept => kept = held := by
  unfold freeBuffers
  refine Spends.bind (destroy_spends da) ?_
  rintro _ _ rfl
  refine Spends.bind (destroy_spends db) ?_
  rintro _ _ rfl
  exact destroy_spends dout

theorem launch_spends {mod da db dout : CudaHandle} {bytes n : UInt64} {block : UInt32}
    (hmod : mod ∈ held) : Spends host.granted (da ::ₘ db ::ₘ dout ::ₘ held)
      (launch host mod da db dout bytes n block)
      fun _ kept => kept = da ::ₘ db ::ₘ dout ::ₘ held := by
  unfold launch
  refine Spends.bind (ask_spends (by simp)) ?_
  rintro _ _ rfl
  refine Spends.bind (ask_spends (by simp)) ?_
  rintro _ _ rfl
  exact ask_spends (by simp [hmod])

theorem compareLaunch_spends (key : KernelCompatibilityKey) (vd : ValidationDescriptor)
    (mod : CudaHandle) (n : UInt64) (da db dout : CudaHandle) :
    Spends host.granted (da ::ₘ db ::ₘ dout ::ₘ {mod})
      (compareLaunch host key vd mod n da db dout) (Settles .module) := by
  unfold compareLaunch
  refine Spends.bind (launch_spends (Multiset.mem_singleton_self mod)) ?_
  rintro launched _ rfl
  split
  · refine Spends.bind (freeBuffers_spends da db dout) ?_
    rintro _ _ rfl
    refine Spends.bind (destroy_spends mod) ?_
    rintro _ _ rfl
    exact reasoned_spends
  · refine Spends.bind (ask_spends (by simp)) ?_
    rintro _ _ rfl
    refine Spends.bind (ask_spends (by simp)) ?_
    rintro copied _ rfl
    refine Spends.bind (freeBuffers_spends da db dout) ?_
    rintro _ _ rfl
    refine Spends.bind (destroy_spends mod) ?_
    rintro _ _ rfl
    exact reasoned_spends

/-- A validation unloads its module and frees its buffers on every path, unless the name of the function
or the vectors for the operands throw. -/
theorem validate_spends (key : KernelCompatibilityKey) (bytes : Bytes) :
    Spends host.granted 0 (validate host key bytes) (Settles .module) := by
  unfold validate
  split
  · exact reasoned_spends
  refine create_spends (fun loaded h hcode => ?_) fun loaded n hcode => ?_
  · dsimp only
    rw [if_pos hcode]
    exact reasoned_spends
  dsimp only
  rw [if_neg (not_not.mpr hcode)]
  unfold validateLoaded
  refine allocated_spends (.lost _ n) ?_
  refine Spends.bind (ask_spends (mem_held _)) ?_
  rintro found _ rfl
  split
  · refine Spends.bind (destroy_spends _) ?_
    rintro _ _ rfl
    exact reasoned_spends
  refine allocated_spends (.lost _ n) ?_
  refine withBuffers_spends (fun which code => ?_) fun da db dout =>
    compareLaunch_spends key _ _ _ da db dout
  refine Spends.bind (destroy_spends _) ?_
  rintro _ _ rfl
  exact reasoned_spends

/-- A load that succeeds keeps its module, in the object it returns; one that fails keeps nothing. -/
theorem load_spends (host : CudaHost) (key : KernelCompatibilityKey) (bytes : Bytes) :
    Spends host.granted 0 (load host key bytes) fun res kept => match res with
      | .ok m => ∃ mod, m.module = some mod ∧ kept = {mod}
      | .error _ => kept = 0 := by
  unfold load
  split
  · exact refused_spends fun _ => rfl
  refine allocated_spends rfl ?_
  refine create_spends (fun loaded h hcode => ?_) fun loaded n hcode => ?_
  · dsimp only
    rw [if_pos hcode]
    exact refused_spends fun _ => rfl
  dsimp only
  rw [if_neg (not_not.mpr hcode)]
  refine Spends.bind (ask_spends (mem_held _)) ?_
  rintro found _ rfl
  split
  · refine Spends.bind (destroy_spends _) ?_
    rintro _ _ rfl
    exact refused_spends fun _ => rfl
  · exact Spends.ret ⟨_, rfl, rfl⟩

/-- An unload gives the module of its object back, once. -/
theorem unload_spends (host : CudaHost) (m : CudaModule) :
    Spends host.granted (m.module.elim 0 fun mod => {mod}) (unload m)
      fun m' kept => m' = { m with module := none } ∧ kept = 0 := by
  unfold unload
  cases hmod : m.module with
  | none =>
    obtain ⟨module, cubin, blockX, kernelName⟩ := m
    obtain rfl : module = none := hmod
    exact Spends.ret ⟨rfl, rfl⟩
  | some mod =>
    show Spends host.granted (mod ::ₘ 0) _ _
    refine Spends.bind (destroy_spends mod) ?_
    rintro _ _ rfl
    exact Spends.ret ⟨rfl, rfl⟩

theorem executeLaunch_spends {m : CudaModule} {mod : CudaHandle} (hmod : mod ∈ held) (n : UInt64)
    (da db dout : CudaHandle) : Spends host.granted (da ::ₘ db ::ₘ dout ::ₘ held)
      (executeLaunch host m mod n da db dout) fun _ kept => kept = held := by
  unfold executeLaunch
  refine Spends.bind (launch_spends hmod) ?_
  rintro launched _ rfl
  split
  · refine Spends.bind (freeBuffers_spends da db dout) ?_
    rintro _ _ rfl
    exact refused_spends fun _ => rfl
  · refine Spends.bind (ask_spends (by simp)) ?_
    rintro _ _ rfl
    refine Spends.bind (ask_spends (by simp)) ?_
    rintro _ _ rfl
    refine Spends.bind (freeBuffers_spends da db dout) ?_
    rintro _ _ rfl
    exact Spends.ret rfl

/-- An execution frees its buffers on every path and leaves the module alone. -/
theorem execute_spends (host : CudaHost) {m : CudaModule}
    (hheld : ∀ mod, m.module = some mod → mod ∈ held) (argBytes : UInt64) (count : Int32) :
    Spends host.granted held (execute host m argBytes count) fun _ kept => kept = held := by
  unfold execute
  cases hmod : m.module with
  | none => exact refused_spends fun _ => rfl
  | some mod =>
    dsimp only
    split
    · exact refused_spends fun _ => rfl
    · exact withBuffers_spends (fun _ _ => refused_spends fun _ => rfl) fun da db dout =>
        executeLaunch_spends (hheld mod hmod) _ da db dout

end CudaBackend

/-! ## Runs of the backend -/

/-- The backend in use: the driver's account, and the module objects that `load` has returned. -/
structure CudaState where
  ledger : Ledger CudaResource := {}
  modules : List CudaBackend.CudaModule := []

/-- A call of the backend; a handle is the number of the load that returned it, and one that no load has
returned is the null pointer. -/
inductive CudaCall where
  | build (req : BuildRequest)
  | validate (key : KernelCompatibilityKey) (bytes : Bytes)
  | load (key : KernelCompatibilityKey) (bytes : Bytes)
  | unload (handle : LoadedModuleHandle)
  | execute (handle : LoadedModuleHandle) (argBytes : UInt64) (count : Int32)

inductive CudaAnswer where
  | built (res : Result BuildResult)
  | validated (res : Result ValidationDescriptor)
  | loaded (res : Result LoadedModuleHandle)
  | done (res : Result Unit)

/-- What an exception that has gone through to the caller can have left behind. -/
def CudaAnswer.mayLose : CudaAnswer → Option CudaResource
  | built res => if CudaBackend.thrown res then some .program else none
  | validated res => if CudaBackend.thrown res then some .module else none
  | loaded _ | done _ => none

namespace CudaState

/-- Run a program over the driver. -/
def run {α : Type} (host : CudaHost) (p : Cuda α) (s : CudaState) : α × Ledger CudaResource :=
  p.finish (Ledger.deal host.granted) s.ledger

/-- The object of a load that has succeeded is kept under the next handle. -/
def keep (s : CudaState) : Result CudaBackend.CudaModule × Ledger CudaResource →
    CudaAnswer × CudaState
  | (.error e, ledger) => (.loaded (.error e), { s with ledger := ledger })
  | (.ok m, ledger) =>
    (.loaded (.ok (some s.modules.length)), { ledger := ledger, modules := s.modules ++ [m] })

/-- `unload` of the handle of an object. -/
def unloadAt (host : CudaHost) (s : CudaState) (i : Nat) :
    Option CudaBackend.CudaModule → CudaAnswer × CudaState
  | none => (.done (.ok ()), s)
  | some m =>
    let (m', ledger) := s.run host (CudaBackend.unload m)
    (.done (.ok ()), { ledger := ledger, modules := s.modules.set i m' })

/-- `execute` of the null pointer. -/
def executeNull (host : CudaHost) (s : CudaState) : CudaAnswer × CudaState :=
  let (res, ledger) := s.run host (host.refused .invalidArgument (str "null handle"))
  (.done res, { s with ledger := ledger })

/-- `execute` of the handle of an object. -/
def executeOn (host : CudaHost) (s : CudaState) (argBytes : UInt64) (count : Int32) :
    Option CudaBackend.CudaModule → CudaAnswer × CudaState
  | none => s.executeNull host
  | some m =>
    let (res, ledger) := s.run host (CudaBackend.execute host m argBytes count)
    (.done res, { s with ledger := ledger })

/-- One call. -/
def call (host : CudaHost) (c : CudaCall) (s : CudaState) : CudaAnswer × CudaState :=
  match c with
  | .build req =>
    let (res, ledger) := s.run host (CudaBackend.build host req)
    (.built res, { s with ledger := ledger })
  | .validate key bytes =>
    let (res, ledger) := s.run host (CudaBackend.validate host key bytes)
    (.validated res, { s with ledger := ledger })
  | .load key bytes => s.keep (s.run host (CudaBackend.load host key bytes))
  | .unload none => (.done (.ok ()), s)
  | .unload (some i) => s.unloadAt host i s.modules[i]?
  | .execute none _ _ => s.executeNull host
  | .execute (some i) argBytes count => s.executeOn host argBytes count s.modules[i]?

/-- The modules that the objects hold. -/
def held (s : CudaState) : Multiset CudaHandle := s.modules.filterMap (·.module)

variable {host : CudaHost} {s : CudaState} {leaked : Multiset CudaHandle}

/-- A call that holds nothing beforehand, on the account of a run. -/
theorem run_settles {α : Type} {p : Cuda α} {Q : α → Multiset CudaHandle → Prop}
    (hp : Spends host.granted 0 p Q) (h : s.ledger.Holds (s.held + leaked)) :
    ∃ kept, Q (s.run host p).1 kept ∧ (s.run host p).2.Holds (s.held + (leaked + kept)) := by
  obtain ⟨kept, hQ, hkept⟩ := hp s.ledger (s.held + leaked) (by rwa [Multiset.zero_add])
  refine ⟨kept, hQ, ?_⟩
  rw [← Multiset.add_assoc, Multiset.add_comm _ kept]
  exact hkept

/-- The modules held once an object has given up its own. -/
theorem held_set {ms : List CudaBackend.CudaModule} {i : Nat} {m : CudaBackend.CudaModule}
    (hi : ms[i]? = some m) : (ms.filterMap (·.module) : Multiset CudaHandle) =
      (m.module.elim 0 fun mod => {mod}) +
        ((ms.set i { m with module := none }).filterMap (·.module) : Multiset CudaHandle) := by
  induction ms generalizing i with
  | nil => cases hi
  | cons m₀ ms ih =>
    cases i with
    | zero =>
      cases hi
      rw [List.set_cons_zero]
      cases hmod : m.module with
      | none => rw [List.filterMap_cons_none hmod, List.filterMap_cons_none rfl]; rfl
      | some mod =>
        rw [List.filterMap_cons_some hmod, List.filterMap_cons_none rfl]
        rfl
    | succ i =>
      have hrest := ih hi
      rw [List.set_cons_succ]
      cases hmod : m₀.module with
      | none => rw [List.filterMap_cons_none hmod, List.filterMap_cons_none hmod, hrest]
      | some mod =>
        rw [List.filterMap_cons_some hmod, List.filterMap_cons_some hmod, ← Multiset.cons_coe, hrest,
          ← Multiset.cons_coe, Multiset.add_cons]

/-- What a call that settles has lost. -/
theorem kinds_of_settles {α : Type} {kind : CudaResource} {res : Result α} {kept : Multiset CudaHandle}
    (h : CudaBackend.Settles kind res kept) :
    kept.map Prod.fst ≤ ((if CudaBackend.thrown res then some kind else none).toList :
      Multiset CudaResource) := by
  rcases h with rfl | ⟨hthrown, n, rfl⟩
  · exact Multiset.zero_le _
  · rw [hthrown]
    exact le_rfl

/-- A call that gives back all it takes, whatever it answers. -/
theorem run_balanced {α : Type} {p : Cuda (Result α)}
    (hp : ∀ held, Spends host.granted held p fun _ kept => kept = held)
    (h : s.ledger.Holds (s.held + leaked)) : (s.run host p).2.Holds (s.held + leaked) := by
  obtain ⟨kept, rfl, hkept⟩ := run_settles (hp 0) h
  rwa [Multiset.add_zero] at hkept

/-- One call: the account stays in balance, and an exception adds at most one resource to what is lost. -/
theorem call_accounts (host : CudaHost) (c : CudaCall) (h : s.ledger.Holds (s.held + leaked)) : ∃ lost,
    lost.map Prod.fst ≤ ((s.call host c).1.mayLose.toList : Multiset CudaResource) ∧
      (s.call host c).2.ledger.Holds ((s.call host c).2.held + (leaked + lost)) := by
  have hnone : s.ledger.Holds (s.held + (leaked + 0)) := by rwa [Multiset.add_zero]
  have hnull : (s.executeNull host).2.ledger.Holds ((s.executeNull host).2.held + (leaked + 0)) := by
    rw [Multiset.add_zero]
    exact run_balanced (fun _ => CudaBackend.refused_spends fun _ => rfl) h
  cases c with
  | build req =>
    obtain ⟨kept, hsettles, hkept⟩ := run_settles (CudaBackend.build_spends req) h
    exact ⟨kept, kinds_of_settles hsettles, hkept⟩
  | validate key bytes =>
    obtain ⟨kept, hsettles, hkept⟩ := run_settles (CudaBackend.validate_spends key bytes) h
    exact ⟨kept, kinds_of_settles hsettles, hkept⟩
  | load key bytes =>
    obtain ⟨kept, hQ, hkept⟩ := run_settles (CudaBackend.load_spends host key bytes) h
    refine ⟨0, Multiset.zero_le _, ?_⟩
    show (s.keep (s.run host (CudaBackend.load host key bytes))).2.ledger.Holds
      ((s.keep (s.run host (CudaBackend.load host key bytes))).2.held + (leaked + 0))
    generalize s.run host (CudaBackend.load host key bytes) = ran at hQ hkept ⊢
    obtain ⟨res, ledger⟩ := ran
    cases res with
    | error e =>
      obtain rfl : kept = 0 := hQ
      exact hkept
    | ok m =>
      obtain ⟨mod, hmod, rfl⟩ := hQ
      have hheld : ((s.modules ++ [m]).filterMap (·.module) : Multiset CudaHandle) =
          s.held + {mod} := by
        rw [List.filterMap_append, List.filterMap_cons_some hmod, List.filterMap_nil,
          ← Multiset.coe_add]
        rfl
      show ledger.Holds (((s.modules ++ [m]).filterMap (·.module) : Multiset CudaHandle) + _)
      rw [hheld, Multiset.add_zero, Multiset.add_assoc, Multiset.add_comm {mod}]
      exact hkept
  | unload handle =>
    refine ⟨0, Multiset.zero_le _, ?_⟩
    cases handle with
    | none => exact hnone
    | some i =>
      show (s.unloadAt host i s.modules[i]?).2.ledger.Holds
        ((s.unloadAt host i s.modules[i]?).2.held + (leaked + 0))
      cases hi : s.modules[i]? with
      | none => exact hnone
      | some m =>
        have hset := held_set hi
        obtain ⟨kept, ⟨hm', rfl⟩, hkept⟩ := CudaBackend.unload_spends host m s.ledger
          (((s.modules.set i { m with module := none }).filterMap (·.module) :
            Multiset CudaHandle) + leaked) (by rw [← Multiset.add_assoc, ← hset]; exact h)
        rw [Multiset.zero_add] at hkept
        rw [Multiset.add_zero]
        show (s.run host (CudaBackend.unload m)).2.Holds
          (((s.modules.set i (s.run host (CudaBackend.unload m)).1).filterMap (·.module) :
            Multiset CudaHandle) + leaked)
        rw [show (s.run host (CudaBackend.unload m)).1 = { m with module := none } from hm']
        exact hkept
  | execute handle argBytes count =>
    refine ⟨0, Multiset.zero_le _, ?_⟩
    cases handle with
    | none => exact hnull
    | some i =>
      show (s.executeOn host argBytes count s.modules[i]?).2.ledger.Holds
        ((s.executeOn host argBytes count s.modules[i]?).2.held + (leaked + 0))
      cases hi : s.modules[i]? with
      | none => exact hnull
      | some m =>
        have hheld : ∀ mod, m.module = some mod → mod ∈ s.held := fun mod hmod =>
          Multiset.mem_coe.mpr (List.mem_filterMap.mpr ⟨m, List.mem_of_getElem? hi, hmod⟩)
        obtain ⟨kept, rfl, hkept⟩ :=
          CudaBackend.execute_spends host hheld argBytes count s.ledger leaked h
        rw [Multiset.add_zero]
        exact hkept

/-- Any number of calls. -/
theorem calls_account (host : CudaHost) (calls : List CudaCall)
    (h : s.ledger.Holds (s.held + leaked)) : ∃ lost,
    lost.map Prod.fst ≤
        ((answers (call host) calls s).filterMap CudaAnswer.mayLose : Multiset CudaResource) ∧
      (behind (call host) calls s).ledger.Holds
        ((behind (call host) calls s).held + (leaked + lost)) := by
  induction calls generalizing s leaked with
  | nil => exact ⟨0, Multiset.zero_le _, by rwa [Multiset.add_zero]⟩
  | cons c calls ih =>
    obtain ⟨lost, hkinds, hnext⟩ := call_accounts host c h
    obtain ⟨lost', hkinds', hlast⟩ := ih hnext
    rw [Multiset.add_assoc] at hlast
    refine ⟨lost + lost', ?_, hlast⟩
    have hsplit : ((answers (call host) (c :: calls) s).filterMap CudaAnswer.mayLose :
        Multiset CudaResource) = ((s.call host c).1.mayLose.toList : Multiset CudaResource) +
          ((answers (call host) calls (s.call host c).2).filterMap CudaAnswer.mayLose :
            Multiset CudaResource) := by
      rw [answers, List.filterMap_cons, Multiset.coe_add]
      cases (s.call host c).1.mayLose <;> rfl
    rw [Multiset.map_add, hsplit]
    exact add_le_add hkinds hkinds'

end CudaState

/-- **What the backend borrows it gives back.** Whatever the driver answers, and whatever sequence of
builds, validations, loads, unloads and executions is made of the backend: no call ever names a program,
a module or a buffer that is not alive and in hand, and none is handed back twice.  What is in hand in the
end are the modules of the objects that were loaded and not unloaded, and besides at most a program for
each build, and a module for each validation, that a failed host allocation has ended by an exception.
What else is alive are resources whose destroy call was answered by an error. -/
theorem driver_resources (host : CudaHost) (calls : List CudaCall) :
    let s := behind (CudaState.call host) calls {}
    s.ledger.misused = false ∧ (s.ledger.live + s.ledger.stuck).Nodup ∧ ∃ lost,
      s.ledger.live = s.held + lost ∧ lost.map Prod.fst ≤
        ((answers (CudaState.call host) calls {}).filterMap CudaAnswer.mayLose :
          Multiset CudaResource) := by
  have hempty : ({} : CudaState).ledger.Holds (({} : CudaState).held + 0) :=
    Foundation.Ledger.holds_empty
  obtain ⟨lost, hkinds, hholds⟩ := CudaState.calls_account host calls hempty
  exact ⟨hholds.sound, hholds.distinct, lost, by rw [hholds.live, Multiset.zero_add], hkinds⟩

end KernelCache
