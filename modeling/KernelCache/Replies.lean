/-
# KernelCache.Replies — what the coordinator takes for a successful build.

`dispatch_build` hands its own output parameters to `decode_build_response`, does not look at what the
decoder returns, and judges the reply by the error code it finds afterwards.  The caller has set the
code to zero, so a reply that is cut short before the code counts as a success, and so does one that
is cut short later, or that answers another request.

`dispatch_reply_iff` says for which payloads the judgement is right all the same.
-/
import KernelCache.Coordinator

namespace KernelCache

open Foundation (Bytes Reader Exact Fill Prog)
open Foundation.Prog (sect perform)

/-! ## Build responses, octet by octet -/

namespace BuildResponse

/-- What stands behind the error code. -/
def fillCode : Fill BuildResponse :=
  (Fill.field DistReader.u8 fun c r => { r with errorCode := c.toUInt32 }).andThen
    (Fill.field DistReader.str fun s r => { r with error := s })

/-- Request, artifact and generation. -/
def idsReader : Reader ((StrongId128 × StrongId128) × UInt64) :=
  (DistReader.id.prod DistReader.id).prod DistReader.u64

theorem idsReader_fixed : Reader.Fixed 40 idsReader :=
  (DistReader.id_fixed.prod DistReader.id_fixed).prod DistReader.u64_fixed

theorem fillIds_reads :
    fillIds.Reads idsReader fun ids r => { r with rid := ⟨ids.1.1⟩, id := ⟨ids.1.2⟩, gen := ids.2 } :=
  ((Fill.field_reads _ _).andThen (Fill.field_reads _ _)).andThen (Fill.field_reads _ _)

theorem fillIds_leaves : fillIds.Leaves errorCode := by
  unfold fillIds
  refine Fill.Leaves.andThen (Fill.Leaves.andThen ?_ ?_) ?_
  all_goals exact Fill.field_leaves fun _ _ => rfl

theorem fillCode_reads : fillCode.Reads (DistReader.u8.prod DistReader.str)
    fun code r => { r with errorCode := code.1.toUInt32, error := code.2 } :=
  (Fill.field_reads _ _).andThen (Fill.field_reads _ _)

theorem fillCode_errorCode (rest : Bytes) (r : BuildResponse) :
    (fillCode rest r).2.errorCode = (rest.head?.map UInt8.toUInt32).getD r.errorCode := by
  cases rest with
  | nil => rfl
  | cons b bs =>
    have hleaves : (Fill.field DistReader.str fun s (r : BuildResponse) => { r with error := s }).Leaves
        errorCode := Fill.field_leaves fun _ _ => rfl
    rw [fillCode, u8_andThen]
    exact hleaves bs _

/-- The whole of a build response is there: the length of its text does not reach beyond the end. -/
def Complete (p : Bytes) : Prop :=
  49 ≤ p.length ∧ Foundation.beNat 0 ((p.drop 41).take 8) ≤ p.length - 49

instance (p : Bytes) : Decidable (Complete p) := inferInstanceAs (Decidable (_ ∧ _))

theorem idsReader_none {p : Bytes} (h : p.length < 40) : idsReader p = none :=
  idsReader_fixed.none_iff.mpr h

theorem idsReader_some {p : Bytes} (h : 40 ≤ p.length) :
    ∃ ids, idsReader p = some (ids, p.drop 40) := by
  cases hread : idsReader p with
  | none =>
    have := idsReader_fixed.none_iff.mp hread
    omega
  | some out =>
    obtain ⟨ids, rest⟩ := out
    obtain ⟨-, rfl⟩ := idsReader_fixed.rest hread
    exact ⟨ids, rfl⟩

theorem decode_snd (p : Bytes) (out : BuildResponse) :
    (decodeBuildResponse p out).2 = (BuildResponse.fill p out).2 := by
  unfold decodeBuildResponse
  split
  · rename_i h
    rw [h]
  · rename_i h
    rw [h]

theorem decode_ok (p : Bytes) (out : BuildResponse) :
    (decodeBuildResponse p out).1 = .ok () ↔ (BuildResponse.fill p out).1.isSome = true := by
  unfold decodeBuildResponse
  split
  · rename_i h
    simp [h]
  · rename_i h
    simp [h, fail]

/-- The error code that is found afterwards: octet 40, or zero when there is none. -/
theorem decode_errorCode (p : Bytes) :
    (decodeBuildResponse p {}).2.errorCode = ((p[40]?).getD 0).toUInt32 := by
  rw [decode_snd]
  refine (Fill.andThen_get fillIds_leaves fillIds_reads p {}).trans ?_
  by_cases hlen : 40 ≤ p.length
  · obtain ⟨ids, hread⟩ := idsReader_some hlen
    rw [hread]
    refine (fillCode_errorCode _ _).trans ?_
    rw [List.head?_drop]
    cases p[40]? with
    | none => rfl
    | some b => rfl
  · rw [idsReader_none (by omega), List.getElem?_eq_none (by omega)]
    rfl

/-- What `decode_build_response` accepts. -/
theorem decode_ok_iff (p : Bytes) (out : BuildResponse) :
    (decodeBuildResponse p out).1 = .ok () ↔ Complete p := by
  have hreads : BuildResponse.fill.Reads (idsReader.prod (DistReader.u8.prod DistReader.str)) _ :=
    fillIds_reads.andThen fillCode_reads
  rw [decode_ok, hreads.isSome, idsReader_fixed.prod_isSome,
    Reader.Fixed.prod_isSome (r := DistReader.u8) Reader.Fixed.byte, List.drop_drop, List.length_drop]
  have htext : (DistReader.str (p.drop 41)).isSome = true ↔ _ := Reader.blob_isSome 8 (p.drop 41)
  rw [htext, List.length_drop]
  unfold Complete
  constructor
  · rintro ⟨hids, hcode, hlen, hle⟩
    exact ⟨by omega, by omega⟩
  · rintro ⟨hlen, hle⟩
    exact ⟨by omega, by omega, by omega, by omega⟩

theorem appendId_inj {i j : StrongId128} : appendId i = appendId j ↔ i = j := by
  constructor
  · intro h
    have hi := DistReader.id_exact.complete i [] trivial
    rw [h, DistReader.id_exact.complete j [] trivial] at hi
    exact (Prod.mk.inj (Option.some.inj hi)).1.symm
  · exact congrArg appendId

/-- The request a response answers is what its first sixteen octets say. -/
theorem decode_rid {p : Bytes} (h : 16 ≤ p.length) (rid : RequestId) :
    (decodeBuildResponse p {}).2.rid = rid ↔ p.take 16 = appendId rid.toStrongId128 := by
  cases hread : DistReader.id p with
  | none =>
    have := DistReader.id_fixed.none_iff.mp hread
    omega
  | some out =>
    obtain ⟨i, rest⟩ := out
    have hrid : (decodeBuildResponse p {}).2.rid = ⟨i⟩ := by
      rw [decode_snd, BuildResponse.fill, fillIds, Fill.andThen_assoc, Fill.andThen_assoc,
        andThen_through ((Fill.field_reads _ _).through _ _ _ _ hread)]
      -- nothing behind the first field writes the request
      have hleaves : ∀ f g h k : Fill BuildResponse, f.Leaves BuildResponse.rid → g.Leaves BuildResponse.rid →
          h.Leaves BuildResponse.rid → k.Leaves BuildResponse.rid →
          (f.andThen (g.andThen (h.andThen k))).Leaves BuildResponse.rid :=
        fun _ _ _ _ hf hg hh hk => hf.andThen (hg.andThen (hh.andThen hk))
      apply hleaves
      all_goals exact Fill.field_leaves fun _ _ => rfl
    obtain ⟨-, hp⟩ := DistReader.id_exact.sound p i rest hread
    have htake : p.take 16 = appendId i := by
      rw [hp]
      exact List.take_left' (appendId_length i)
    rw [hrid, htake, appendId_inj]
    constructor
    · rintro rfl
      rfl
    · rintro rfl
      rfl

end BuildResponse

/-! ## The judgement of a reply -/

/-- The payload is a matching success reply: it decodes, its error code is zero, and it answers the
request. -/
def MatchingSuccess (rid : RequestId) (p : Bytes) : Prop :=
  (decodeBuildResponse p {}).1 = .ok () ∧ (decodeBuildResponse p {}).2.errorCode = 0 ∧
    (decodeBuildResponse p {}).2.rid = rid

/-- The payload is one that `dispatch_build` judges rightly: there is an error code in it that is not
zero, or it is complete and begins with the request. -/
def JudgedRightly (rid : RequestId) (p : Bytes) : Prop :=
  (∃ code, p[40]? = some code ∧ code ≠ 0) ∨
    BuildResponse.Complete p ∧ p.take 16 = appendId rid.toStrongId128

/-- What `dispatch_build` returns on a build response. -/
theorem buildReply_fst (p : Bytes) :
    (buildReply (some (DistMsgType.buildResp.code, p)) {}).1 = true ↔ (p[40]?).getD 0 = 0 := by
  have hcode : ∀ code : UInt8, code.toUInt32 = 0 ↔ code = 0 := by
    intro code
    rw [← UInt32.toNat_inj, ← UInt8.toNat_inj, UInt8.toNat_toUInt32]
    rfl
  simp only [buildReply, ne_eq, not_true_eq_false, if_false, beq_iff_eq,
    BuildResponse.decode_errorCode, hcode]

theorem judged_iff (rid : RequestId) (p : Bytes) :
    ((buildReply (some (DistMsgType.buildResp.code, p)) {}).1 = true → MatchingSuccess rid p) ↔
      JudgedRightly rid p := by
  rw [buildReply_fst, MatchingSuccess, BuildResponse.decode_ok_iff]
  unfold JudgedRightly
  constructor
  · intro h
    cases hcode : p[40]? with
    | none =>
      obtain ⟨⟨hlen, -⟩, -⟩ := h (by rw [hcode]; rfl)
      rw [List.getElem?_eq_none_iff] at hcode
      omega
    | some code =>
      by_cases hzero : code = 0
      · obtain ⟨hcomplete, -, hrid⟩ := h (by rw [hcode]; exact hzero)
        have hlen : 49 ≤ p.length := hcomplete.1
        exact .inr ⟨hcomplete, (BuildResponse.decode_rid (by omega) rid).mp hrid⟩
      · exact .inl ⟨code, rfl, hzero⟩
  · rintro (⟨code, hcode, hne⟩ | ⟨hcomplete, hrid⟩) hzero
    · rw [hcode] at hzero
      exact absurd hzero hne
    · have hlen : 49 ≤ p.length := hcomplete.1
      refine ⟨hcomplete, ?_, (BuildResponse.decode_rid (by omega) rid).mpr hrid⟩
      rw [BuildResponse.decode_errorCode, hzero]
      rfl

/-! ## Dispatch -/

section Dispatch

variable {peers : Peers} {s : Coordinator} {auth : DistAuthority} {fd : Socket} {p : Bytes}

/-- **A build dispatched alone** to a worker that replies: the reply decides, and only the channel of
the worker changes. -/
theorem dispatchBuild_alone (hfree : s.dispatchHeld = false) (hworkers : s.workersHeld = false)
    (hpick : s.pickWorker auth.boot = some fd) (hup : peers.Up fd)
    (hreply : ∀ c, peers.frame fd c = some (DistMsgType.buildResp.code, p)) (keycan : Bytes)
    (src ns arch : Str) (rid : RequestId) (out : BuildResponse) : ∃ c,
    (dispatchBuild peers keycan src ns arch auth rid out).run (coordExec peers) s =
      some (buildReply (some (DistMsgType.buildResp.code, p)) out, s.onChannel fd fun _ => c) := by
  have hlock : CoordStep.lockDispatch.ready s = true := by simp [CoordStep.ready, hfree]
  have hpicked : (CoordStep.pickWorker auth.boot).ready
      (CoordStep.lockDispatch.effect peers s) = true := by
    simp [CoordStep.ready, CoordStep.effect, hworkers]
  have hsame : (CoordStep.lockDispatch.effect peers s).pickWorker auth.boot = some fd := hpick
  obtain ⟨b, part, c, hwrite, -, -, hdone⟩ := writeFrame_alone peers fd DistMsgType.buildReq.code
    (encodeBuildRequest auth rid keycan src ns arch) (CoordStep.lockDispatch.effect peers s)
  obtain rfl := hdone hup
  have hread : ((CoordStep.lockDispatch.effect peers s).onChannel fd fun _ => c).incoming peers fd =
      some (DistMsgType.buildResp.code, p) := hreply _
  refine ⟨{ c with reads := c.reads + 1 }, ?_⟩
  refine (Prog.run_then (run_coordPerform peers hlock) _).trans ?_
  refine (Prog.run_then (run_coordSect peers hpicked _) _).trans ?_
  simp only [hsame]
  refine (Prog.run_then hwrite _).trans ?_
  refine (Prog.run_then (run_coordSect peers rfl _) _).trans ?_
  refine (Prog.run_then (run_coordPerform peers rfl) _).trans ?_
  rw [hread]
  have hlast : CoordStep.unlockDispatch.effect peers ((CoordStep.readFrame fd).effect peers
      ((CoordStep.lockDispatch.effect peers s).onChannel fd fun _ => c)) =
        s.onChannel fd fun _ => { c with reads := c.reads + 1 } := by
    simp [CoordStep.effect, Coordinator.onChannel, hfree]
  exact congrArg (fun s' => some (_, s')) hlast

/-- The branch for a key that waits for a build, alone: a reply that counts as a success is recorded
and answered, whatever it says. -/
theorem servePending_alone (q : LookupRequest) (hfree : s.dispatchHeld = false)
    (hworkers : s.workersHeld = false) (hpick : s.pickWorker auth.boot = some fd) (hup : peers.Up fd)
    (hreply : ∀ c, peers.frame fd c = some (DistMsgType.buildResp.code, p)) (kh arch : Str) :
    ∃ a s', (servePending peers q auth kh arch).run (coordExec peers) s = some (a, s') ∧
      if (buildReply (some (DistMsgType.buildResp.code, p)) {}).1 = true then
        a = .hit (decodeBuildResponse p {}).2.id (decodeBuildResponse p {}).2.gen ∧
          s'.built = s.built.insert kh
            ((decodeBuildResponse p {}).2.id, (decodeBuildResponse p {}).2.gen)
      else a.outcome = 0x0F ∧ s'.built = s.built := by
  obtain ⟨c, hrun⟩ := dispatchBuild_alone hfree hworkers hpick hup hreply q.keyCanonical [] q.ns arch
    q.rid {}
  unfold servePending
  rw [Prog.bind_eq, Prog.run_then hrun]
  have hout : (buildReply (some (DistMsgType.buildResp.code, p)) {}).2 = (decodeBuildResponse p {}).2 :=
    rfl
  generalize buildReply (some (DistMsgType.buildResp.code, p)) {} = reply at hout
  obtain ⟨ok, out⟩ := reply
  dsimp only at hout
  subst hout
  cases ok with
  | true =>
    exact ⟨_, _, rfl, rfl, rfl⟩
  | false =>
    exact ⟨_, _, rfl, rfl, rfl⟩

/-- **A dispatched build counts as built.** When the worker replies with the payload `p`, what
`dispatch_build` returns, what `serve_client` records and what it answers rest on a matching success
reply if and only if `p` is one that is judged rightly. -/
theorem dispatch_reply_iff (q : LookupRequest) (hfree : s.dispatchHeld = false)
    (hworkers : s.workersHeld = false) (hpick : s.pickWorker auth.boot = some fd) (hup : peers.Up fd)
    (hreply : ∀ c, peers.frame fd c = some (DistMsgType.buildResp.code, p)) (src kh arch : Str) :
    (∃ ok out s', (dispatchBuild peers q.keyCanonical src q.ns arch auth q.rid {}).run
        (coordExec peers) s = some ((ok, out), s') ∧
      ((ok = true → MatchingSuccess q.rid p) ↔ JudgedRightly q.rid p)) ∧
    ∃ a s', (servePending peers q auth kh arch).run (coordExec peers) s = some (a, s') ∧
      ((a.outcome = 0x00 ∨ s'.built ≠ s.built → MatchingSuccess q.rid p ∧
          a.id = (decodeBuildResponse p {}).2.id ∧
          s'.built.lookup kh =
            some ((decodeBuildResponse p {}).2.id, (decodeBuildResponse p {}).2.gen)) ↔
        JudgedRightly q.rid p) := by
  constructor
  · obtain ⟨c, hrun⟩ := dispatchBuild_alone hfree hworkers hpick hup hreply q.keyCanonical src q.ns arch
      q.rid {}
    exact ⟨_, _, _, hrun, judged_iff q.rid p⟩
  · obtain ⟨a, s', hrun, hout⟩ := servePending_alone q hfree hworkers hpick hup hreply kh arch
    refine ⟨a, s', hrun, ?_⟩
    rw [← judged_iff q.rid p]
    split at hout
    · rename_i htrue
      obtain ⟨rfl, hbuilt⟩ := hout
      rw [hbuilt, AList.lookup_insert]
      constructor
      · exact fun h _ => (h (.inl rfl)).1
      · exact fun h _ => ⟨h htrue, rfl, rfl⟩
    · rename_i hfalse
      obtain ⟨houtcome, hbuilt⟩ := hout
      refine iff_of_true (fun h => ?_) (fun h => absurd h hfalse)
      rcases h with hzero | hnew
      · rw [houtcome] at hzero
        exact absurd hzero (by decide)
      · exact absurd hbuilt hnew

end Dispatch

/-- One worker, which answers every request with the payload `p`. -/
def answering (p : Bytes) : Peers :=
  { frame := fun _ _ => some (DistMsgType.buildResp.code, p) }

def oneWorker : Coordinator :=
  { Coordinator.initial {} with workers := [{ fd := some 0 }] }

theorem answering_up (p : Bytes) (fd : Socket) : (answering p).Up fd :=
  fun _ _ hne => List.length_pos_iff.mpr hne

theorem oneWorker_picks : oneWorker.pickWorker ({} : DistAuthority).boot = some 0 := rfl

/-- A reply to the request. -/
def successReply : Bytes := encodeBuildResponse {} ⟨⟨1, 2⟩⟩ 1 0 []

theorem dispatch_reply_iff_sample :
    ∃ ok out s', (dispatchBuild (answering successReply) [] [] [] [] {} {} {}).run
        (coordExec (answering successReply)) oneWorker = some ((ok, out), s') ∧
      (ok = true → MatchingSuccess {} successReply) := by
  obtain ⟨ok, out, s', hrun, hiff⟩ := (dispatch_reply_iff {} rfl rfl oneWorker_picks
    (answering_up successReply 0) (fun _ => rfl) [] [] []).1
  exact ⟨ok, out, s', hrun, hiff.mpr (.inr (by decide))⟩

/-- An empty reply counts as a build: the zero id is recorded for the key, and answered as a hit. -/
theorem empty_reply_taken :
    ¬ MatchingSuccess {} [] ∧
      (∃ out s', (dispatchBuild (answering []) [] [] [] [] {} {} {}).run (coordExec (answering []))
        oneWorker = some ((true, out), s')) ∧
      ∃ s', (servePending (answering []) {} {} (str "k") []).run (coordExec (answering [])) oneWorker =
          some (.hit {} 0, s') ∧ s'.built.lookup (str "k") = some ({}, 0) := by
  refine ⟨fun h => absurd h.1 (by decide), ?_, ?_⟩
  · obtain ⟨c, hrun⟩ := dispatchBuild_alone rfl rfl oneWorker_picks (answering_up [] 0) (fun _ => rfl)
      [] [] [] [] {} {}
    exact ⟨_, _, hrun⟩
  · obtain ⟨a, s', hrun, hout⟩ := servePending_alone {} rfl rfl oneWorker_picks (answering_up [] 0)
      (fun _ => rfl) (str "k") []
    rw [if_pos (by decide)] at hout
    obtain ⟨rfl, hbuilt⟩ := hout
    refine ⟨s', hrun, ?_⟩
    rw [hbuilt, AList.lookup_insert]
    rfl

end KernelCache
