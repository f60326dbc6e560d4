/-
# KernelCache.HitOrigins — where the hits of the coordinator come from.

`serve_client` answers a lookup with an artifact in three cases: the key is in `g_built`, the
coordinator's own cache has a record for it, or the build that was just dispatched came off.  `Errand` is
what a thread has found out about the lookup in hand, and every section of the thread adds to it.

The coordinator opens its own cache and only ever looks up in it, so that cache stays empty.  What is left
is the other two, and an entry of `g_built` is the reply to an earlier dispatch: in every run each hit
goes back to a reply that was read from a registered worker, behind a whole request for a key of the same
digest (`hits_backed`).
-/
import KernelCache.Coordinator
import KernelCache.Foundation.Scripts
import KernelCache.Obsolete
import KernelCache.OneCompile
import KernelCache.Roster
import KernelCache.RoundTrip

namespace KernelCache

open Foundation (Bytes Prog Event Pool)
open Foundation.Prog (sect perform)
open TcpConnection (frameBytes)

/-! ## Errands -/

/-- What a thread of the coordinator has found out about the frame in hand. -/
structure Errand where
  frame : Option Frame := none
  /-- The candidates of the coordinator's own cache. -/
  candidates : List Impl.CandidateSnapshot := []
  /-- The entry of `g_built`. -/
  built : Option (ArtifactId × ArtifactGeneration) := none
  /-- The thread has `g_dispatch_mtx`. -/
  holding : Bool := false
  worker : Option Socket := none
  /-- The octets of the build request that the worker has been sent. -/
  asked : Bytes := []
  /-- What `dispatch_build` makes of the frame it has read. -/
  reply : Option (Bool × BuildResponse) := none

namespace Errand

/-- Octets of a frame are written. -/
def wrote (er : Errand) (frame : Frame) (bytes : Bytes) : Errand :=
  if frame.1 = DistMsgType.buildReq.code then { er with asked := er.asked ++ bytes } else er

/-- The errand behind a section. -/
def next (peers : Peers) (er : Errand) (l : CoordStep) (s : Coordinator) : Errand :=
  match l with
  | .receive _ frame => { frame := some frame }
  | .send fd frame bytes => er.wrote frame (bytes.take (s.taken peers fd bytes))
  | .readFrame fd => { er with reply := some (buildReply (s.incoming peers fd) {}) }
  | .lockDispatch => { er with holding := true }
  | .unlockDispatch => { er with holding := false }
  | .pickWorker boot => { er with worker := s.pickWorker boot }
  | .cache (.collect key) => { er with candidates := s.cache.collectCandidates key }
  | .findBuilt kh => { er with built := s.built.lookup kh }
  | _ => er

/-- The frame in hand is a lookup request with this authority and this key. -/
def Asks (er : Errand) (q : LookupRequest) (auth : DistAuthority) (k : KernelCompatibilityKey) : Prop :=
  (∃ p, er.frame = some (DistMsgType.lookupReq.code, p) ∧ decodeLookupRequest p {} = (.ok auth, q)) ∧
    KernelCompatibilityKey.fromCanonical q.keyCanonical = .ok k

/-- The request that `dispatch_build` writes for a lookup. -/
def buildRequest (q : LookupRequest) (auth : DistAuthority) (k : KernelCompatibilityKey) : Frame :=
  (DistMsgType.buildReq.code, encodeBuildRequest auth q.rid q.keyCanonical [] q.ns k.arch)

/-- The frame is a build request to this worker for the lookup in hand, and no reply has been read. -/
def Requests (er : Errand) (fd : Socket) (frame : Frame) : Prop :=
  er.holding = true ∧ er.worker = some fd ∧ er.reply = none ∧
    ∃ q auth k, er.Asks q auth k ∧ frame = buildRequest q auth k

/-- The worker has been sent the whole of the request, and its reply has not been read. -/
def Awaits (er : Errand) (fd : Socket) (frame : Frame) : Prop :=
  er.Requests fd frame ∧ er.asked = frameBytes frame

/-- The reply is a success with this artifact. -/
def Replied (er : Errand) (id : ArtifactId) (gen : ArtifactGeneration) : Prop :=
  ∃ out, er.reply = some (true, out) ∧ out.id = id ∧ out.gen = gen

/-- The artifact is one that was found for the lookup in hand. -/
def Found (er : Errand) (id : ArtifactId) (gen : ArtifactGeneration) : Prop :=
  er.built = some (id, gen) ∨
    (∃ key policy, hitOf (.ok (decideLookup key policy er.candidates)) = some (id, gen)) ∨
    er.Replied id gen

/-- A hit that is answered was found. -/
def Vouches (er : Errand) (a : LookupAnswer) : Prop :=
  a.outcome = 0x00 → ∃ id gen, a = .hit id gen ∧ er.Found id gen

/-- The frame answers the lookup in hand. -/
def Answers (er : Errand) (frame : Frame) : Prop :=
  ∃ p a, er.frame = some (DistMsgType.lookupReq.code, p) ∧
    frame = lookupResponse (decodeLookupRequest p {}).2 a ∧ er.Vouches a

end Errand

/-- The sections of `lookup_impl`. -/
def Step.looks : Step → Bool
  | .collect _ | .bump _ | .recordEvent => true
  | _ => false

/-- The sections a thread may take on its errand. -/
def Errand.ok (er : Errand) : CoordStep → Prop
  | .receive _ _ => er.holding = false
  | .cache l => l.looks = true
  | .findBuilt kh => ∃ q auth k, er.Asks q auth k ∧ kh = toHex k.digest
  | .lockDispatch => er.holding = false ∧ er.asked = []
  | .pickWorker _ => er.holding = true ∧ er.asked = []
  | .readFrame fd => ∃ frame, er.Awaits fd frame
  | .unlockDispatch => er.holding = true ∧ ∀ fd frame, ¬ er.Awaits fd frame
  | .recordBuilt kh id gen => (∃ q auth k, er.Asks q auth k ∧ kh = toHex k.digest) ∧ er.Replied id gen
  | .send fd frame bytes =>
    (frame.1 = DistMsgType.buildReq.code → er.Requests fd frame ∧ bytes ≠ [] ∧
      er.asked ++ bytes <+: frameBytes frame) ∧
    (frame.1 = DistMsgType.lookupResp.code → er.Answers frame)
  | _ => True

/-! ## Programs on an errand -/

/-- The program keeps to its errand, and ends with `Q`. -/
abbrev Pursues {α : Type} (peers : Peers) (p : CoordOp α) (er : Errand) (Q : α → Errand → Prop) :
    Prop :=
  p.Scripted Errand.ok (Errand.next peers) Q er

namespace Errand

variable {er : Errand}

theorem wrote_nil (frame : Frame) : er.wrote frame [] = er := by
  unfold wrote
  split
  · rw [List.append_nil]
  · rfl

theorem wrote_wrote (frame : Frame) (bs bs' : Bytes) :
    (er.wrote frame bs).wrote frame bs' = er.wrote frame (bs ++ bs') := by
  unfold wrote
  split
  · rw [List.append_assoc]
  · rfl

theorem wrote_request {frame : Frame} (h : frame.1 = DistMsgType.buildReq.code) (bs : Bytes) :
    er.wrote frame bs = { er with asked := er.asked ++ bs } :=
  if_pos h

/-- A frame that is no build request leaves the errand as it is. -/
theorem wrote_other {frame : Frame} (h : frame.1 ≠ DistMsgType.buildReq.code) (bs : Bytes) :
    er.wrote frame bs = er :=
  if_neg h

end Errand

section Walk

variable {peers : Peers} {er : Errand}

/-- The octets `bytes` of a frame of which `done` is written: some are written, all of them when the
writer says so, and only then. -/
theorem writeRounds_pursues (peers : Peers) {fd : Socket} {frame : Frame}
    (hok : ∀ part bytes, bytes ≠ [] → part ++ bytes <+: frameBytes frame →
      (er.wrote frame part).ok (.send fd frame bytes)) {fuel : Nat} {done bytes : Bytes}
    (hfuel : bytes.length ≤ fuel) (hpre : done ++ bytes <+: frameBytes frame) :
    Pursues peers (Foundation.writeRounds (offer peers fd frame) fuel bytes) (er.wrote frame done)
      fun b er' => ∃ part, er' = er.wrote frame (done ++ part) ∧ part <+: bytes ∧
        (b = true ↔ part = bytes) := by
  induction fuel generalizing done bytes with
  | zero =>
    obtain rfl := List.length_eq_zero_iff.mp (Nat.le_zero.mp hfuel)
    exact ⟨[], by rw [List.append_nil], List.nil_prefix, by simp⟩
  | succ fuel ih =>
    by_cases hnil : bytes = []
    · subst hnil
      exact ⟨[], by rw [List.append_nil], List.nil_prefix, by simp⟩
    have hempty : bytes.isEmpty = false := by simpa using hnil
    simp only [Foundation.writeRounds, hempty, Bool.false_eq_true, if_false, Prog.bind_eq]
    refine .bind (Q := fun n er' => n ≤ bytes.length ∧
      er' = er.wrote frame (done ++ bytes.take n)) ?_ ?_
    · refine .sect (hok done bytes hnil hpre) fun s => ⟨Nat.min_le_right _ _, ?_⟩
      exact Errand.wrote_wrote frame _ _
    rintro n _ ⟨hn, rfl⟩
    by_cases hzero : n = 0
    · subst hzero
      rw [if_pos rfl]
      exact ⟨[], rfl, List.nil_prefix, iff_of_false Bool.false_ne_true fun h => hnil h.symm⟩
    · rw [if_neg hzero]
      have hleft : (bytes.drop n).length ≤ fuel := by
        rw [List.length_drop]
        omega
      have hsplit : done ++ bytes.take n ++ bytes.drop n = done ++ bytes := by
        rw [List.append_assoc, List.take_append_drop]
      refine (ih hleft (hsplit ▸ hpre)).mono ?_
      rintro b _ ⟨part, rfl, hpart, hall⟩
      refine ⟨bytes.take n ++ part, by rw [List.append_assoc], ?_, hall.trans ⟨?_, ?_⟩⟩
      · conv_rhs => rw [← List.take_append_drop n bytes]
        exact (List.prefix_append_right_inj _).mpr hpart
      · rintro rfl
        exact List.take_append_drop n bytes
      · exact fun heq => List.append_cancel_left (heq.trans (List.take_append_drop n bytes).symm)

/-- **A frame.** What is written is a beginning of it, all of it when the writer says so, and only
then. -/
theorem writeFrame_pursues {fd : Socket} {type : UInt16} {payload : Bytes}
    (hok : ∀ part bytes, bytes ≠ [] → part ++ bytes <+: frameBytes (type, payload) →
      (er.wrote (type, payload) part).ok (.send fd (type, payload) bytes)) :
    Pursues peers (writeFrame peers fd type payload) er fun b er' =>
      ∃ part, er' = er.wrote (type, payload) part ∧ (b = true ↔ part = frameBytes (type, payload)) := by
  have hstart : ([] : Bytes) ++ TcpConnection.frameHeader type payload <+: frameBytes (type, payload) :=
    List.prefix_append _ _
  refine .bind (Q := fun b er' => ∃ part, er' = er.wrote (type, payload) part ∧
    part <+: TcpConnection.frameHeader type payload ∧
      (b = true ↔ part = TcpConnection.frameHeader type payload)) ?_ ?_
  · have hheader := writeRounds_pursues peers hok le_rfl hstart
    rw [Errand.wrote_nil] at hheader
    exact hheader
  rintro b _ ⟨header, rfl, hpart, hall⟩
  cases b with
  | false =>
    refine ⟨header, rfl, iff_of_false Bool.false_ne_true fun heq => ?_⟩
    -- the whole frame would be a beginning of its header
    have hle : (TcpConnection.frameHeader type payload ++ payload).length ≤ _ := heq ▸ hpart.length_le
    rw [List.length_append] at hle
    have hnil : payload = [] := List.length_eq_zero_iff.mp (by omega)
    refine absurd (hall.mpr (heq.trans ?_)) Bool.false_ne_true
    rw [hnil]
    exact List.append_nil _
  | true =>
    obtain rfl := hall.mp rfl
    simp only [Bool.not_true, Bool.false_eq_true, if_false]
    by_cases hnil : payload = []
    · subst hnil
      exact ⟨_, rfl, iff_of_true rfl (List.append_nil _).symm⟩
    · have hempty : payload.isEmpty = false := by simpa using hnil
      simp only [hempty, Bool.false_eq_true, if_false]
      refine (writeRounds_pursues peers hok le_rfl (List.prefix_refl _)).mono ?_
      rintro b _ ⟨part, rfl, -, hall⟩
      exact ⟨_, rfl, hall.trans (List.append_right_inj _).symm⟩

/-- A frame that is neither a build request nor an answer to a lookup. -/
theorem writeOther_pursues (fd : Socket) {type : UInt16} (payload : Bytes)
    (hreq : type ≠ DistMsgType.buildReq.code) (hresp : type ≠ DistMsgType.lookupResp.code) :
    Pursues peers (writeFrame peers fd type payload) er fun _ er' => er' = er := by
  refine (writeFrame_pursues fun _ _ _ _ => ⟨fun h => absurd h hreq, fun h => absurd h hresp⟩).mono ?_
  rintro _ _ ⟨part, rfl, -⟩
  exact Errand.wrote_other hreq part

theorem broadcast_pursues (e : CoordinatorEpoch) (ws : List WorkerSlot) :
    Pursues peers (broadcast peers e ws) er fun _ er' => er' = er := by
  induction ws with
  | nil => exact rfl
  | cons w ws ih =>
    unfold broadcast
    cases w.fd with
    | none => exact ih
    | some fd =>
      refine .bind (writeOther_pursues fd _ (by decide) (by decide)) ?_
      rintro _ _ rfl
      exact ih

theorem serveRollEpoch_pursues (payload : Bytes) :
    Pursues peers (serveRollEpoch peers payload) er fun _ er' => er' = er := by
  refine .first trivial fun _ => .first trivial fun _ => .first trivial fun _ => ?_
  refine .first trivial fun s => .bind (broadcast_pursues _ _) ?_
  rintro _ _ rfl
  exact .sect trivial fun _ => rfl

theorem registerWorker_pursues (fd : Socket) (payload : Bytes) :
    Pursues peers (registerWorker peers fd payload) er fun _ er' => er' = er := by
  unfold registerWorker
  split
  · exact rfl
  · refine .first trivial fun _ => .first trivial fun s => ?_
    refine .bind (writeOther_pursues fd _ (by decide) (by decide)) ?_
    rintro _ _ rfl
    exact rfl

/-- The lookup in the coordinator's own cache. -/
theorem ownLookup_pursues (request : KernelLookupRequest) :
    Pursues peers ((lookupImpl request).zoom .cache Coordinator.cache) er fun found er' =>
      ∃ cs, er' = { er with candidates := cs } ∧ ∀ hit, hitOf found = some hit →
        ∃ key policy, hitOf (.ok (decideLookup key policy cs)) = some hit := by
  unfold lookupImpl
  dsimp only
  split
  · exact ⟨er.candidates, rfl, fun _ h => by cases h⟩
  · exact ⟨rfl, fun s => ⟨rfl, fun _ => ⟨rfl, fun _ => ⟨_, rfl, fun hit h => ⟨_, _, h⟩⟩⟩⟩⟩

namespace Errand

theorem Asks.congr {er' : Errand} {q : LookupRequest} {auth : DistAuthority}
    {k : KernelCompatibilityKey} (h : er.Asks q auth k) (hframe : er'.frame = er.frame) :
    er'.Asks q auth k := by
  obtain ⟨⟨p, hp, hdecode⟩, hkey⟩ := h
  exact ⟨⟨p, hframe.trans hp, hdecode⟩, hkey⟩

theorem Asks.unique {q q' : LookupRequest} {auth auth' : DistAuthority}
    {k k' : KernelCompatibilityKey} (h : er.Asks q auth k) (h' : er.Asks q' auth' k') :
    q = q' ∧ auth = auth' ∧ k = k' := by
  obtain ⟨⟨p, hp, hdecode⟩, hkey⟩ := h
  obtain ⟨⟨p', hp', hdecode'⟩, hkey'⟩ := h'
  rw [hp] at hp'
  cases hp'
  rw [hdecode] at hdecode'
  cases hdecode'
  rw [hkey] at hkey'
  cases hkey'
  exact ⟨rfl, rfl, rfl⟩

/-- The thread has not begun to dispatch. -/
structure Fresh (er : Errand) : Prop where
  holding : er.holding = false
  asked : er.asked = []
  reply : er.reply = none

end Errand

/-- A build that is dispatched for the lookup in hand. -/
theorem dispatchBuild_pursues {q : LookupRequest} {auth : DistAuthority} {k : KernelCompatibilityKey}
    (hasks : er.Asks q auth k) (hfresh : er.Fresh) :
    Pursues peers (dispatchBuild peers q.keyCanonical [] q.ns k.arch auth q.rid {}) er fun r er' =>
      er'.frame = er.frame ∧ er'.holding = false ∧ (r.1 = true → er'.reply = some r) := by
  unfold dispatchBuild
  refine .first ⟨hfresh.holding, hfresh.asked⟩ fun _ => .first ⟨rfl, hfresh.asked⟩ fun s => ?_
  simp only [Errand.next]
  cases s.pickWorker auth.boot with
  | none =>
    refine .first ⟨rfl, fun fd frame hawaits => ?_⟩ fun _ => ⟨rfl, rfl, Bool.noConfusion⟩
    cases hawaits.1.2.1
  | some fd =>
    have hcode : (Errand.buildRequest q auth k).1 = DistMsgType.buildReq.code := rfl
    have hrequests : ∀ part, Errand.Requests
        (Errand.wrote { er with holding := true, worker := some fd } (Errand.buildRequest q auth k) part)
        fd (Errand.buildRequest q auth k) := by
      intro part
      rw [Errand.wrote_request hcode]
      exact ⟨rfl, rfl, hfresh.reply, q, auth, k, hasks, rfl⟩
    refine .bind (writeFrame_pursues fun part bytes hne hpre => ⟨fun _ => ⟨hrequests part, hne, ?_⟩, fun h => ?_⟩) ?_
    · rw [Errand.wrote_request rfl, hfresh.asked]
      exact hpre
    · exact absurd h (by decide : DistMsgType.buildReq.code ≠ DistMsgType.lookupResp.code)
    rintro b _ ⟨part, rfl, hall⟩
    have hwrote := hrequests part
    rw [Errand.wrote_request hcode, hfresh.asked, List.nil_append] at hwrote
    rw [Errand.wrote_request rfl, hfresh.asked, List.nil_append]
    cases b with
    | false =>
      refine .first ⟨rfl, fun fd' frame hawaits => ?_⟩ fun _ => ⟨rfl, rfl, Bool.noConfusion⟩
      -- the request of the lookup in hand is this one, and it is not written
      obtain ⟨⟨-, -, -, q', auth', k', hasks', rfl⟩, hasked⟩ := hawaits
      have hbefore : er.Asks q' auth' k' := hasks'
      obtain ⟨rfl, rfl, rfl⟩ := hasks.unique hbefore
      exact Bool.false_ne_true (hall.mpr hasked)
    | true =>
      refine .first ⟨_, hwrote, hall.mp rfl⟩ fun s => .first ⟨rfl, fun fd' frame hawaits => ?_⟩ fun _ => ?_
      · cases hawaits.1.2.2.1
      · exact ⟨rfl, rfl, fun _ => rfl⟩

theorem servePending_pursues {q : LookupRequest} {auth : DistAuthority} {k : KernelCompatibilityKey}
    (hasks : er.Asks q auth k) (hfresh : er.Fresh) :
    Pursues peers (servePending peers q auth (toHex k.digest) k.arch) er
      fun a er' => er'.frame = er.frame ∧ er'.holding = false ∧ er'.Vouches a := by
  refine .bind (dispatchBuild_pursues hasks hfresh) ?_
  rintro ⟨ok, out⟩ er' ⟨hframe, hfree, hreply⟩
  refine .first trivial fun _ => ?_
  cases ok with
  | false => exact ⟨hframe, hfree, fun hzero => absurd hzero (by decide)⟩
  | true =>
    have hreplied : er'.Replied out.id out.gen := ⟨out, hreply rfl, rfl, rfl⟩
    refine .first ⟨⟨q, auth, k, hasks.congr hframe, rfl⟩, hreplied⟩ fun _ => ⟨hframe, hfree, fun _ => ?_⟩
    exact ⟨_, _, rfl, .inr (.inr hreplied)⟩

theorem serveKey_pursues {q : LookupRequest} {auth : DistAuthority} {k : KernelCompatibilityKey}
    (hasks : er.Asks q auth k) (hfresh : er.Fresh) : Pursues peers (serveKey peers q auth k) er
      fun a er' => er'.frame = er.frame ∧ er'.holding = false ∧ er'.Vouches a := by
  refine .bind (ownLookup_pursues _) ?_
  rintro found _ ⟨cs, rfl, hown⟩
  refine .first ⟨q, auth, k, hasks, rfl⟩ fun s => ?_
  simp only [Errand.next]
  cases hbuilt : s.built.lookup (toHex k.digest) with
  | some entry =>
    obtain ⟨id, gen⟩ := entry
    exact ⟨rfl, hfresh.holding, fun _ => ⟨id, gen, rfl, .inl rfl⟩⟩
  | none =>
    cases hhit : hitOf found with
    | some hit =>
      obtain ⟨id, gen⟩ := hit
      exact ⟨rfl, hfresh.holding, fun _ => ⟨id, gen, rfl, .inr (.inl (hown _ hhit))⟩⟩
    | none =>
      refine .first trivial fun s => ?_
      cases decide (toHex k.digest ∈ s.pending) with
      | true => exact servePending_pursues hasks ⟨hfresh.holding, hfresh.asked, hfresh.reply⟩
      | false =>
        exact .first trivial fun _ => ⟨rfl, hfresh.holding, fun hzero => absurd hzero (by decide)⟩

theorem serveLookup_pursues {p : Bytes} (hframe : er.frame = some (DistMsgType.lookupReq.code, p))
    (hfresh : er.Fresh) : Pursues peers (serveLookup peers (decodeLookupRequest p {}).2
      (decodeLookupRequest p {}).1) er
        fun a er' => er'.frame = er.frame ∧ er'.holding = false ∧ er'.Vouches a := by
  have hrefused : ∀ o : UInt8, o ≠ 0x00 → er.frame = er.frame ∧ er.holding = false ∧
      er.Vouches { outcome := o } := fun o ho => ⟨rfl, hfresh.holding, fun hzero => absurd hzero ho⟩
  cases hauth : (decodeLookupRequest p {}).1 with
  | error _ => exact hrefused _ (by decide)
  | ok auth =>
    refine .first trivial fun s => ?_
    cases auth.epoch == s.epoch with
    | false => exact hrefused _ (by decide)
    | true =>
      refine .first trivial fun s => ?_
      cases auth.cacheGen == s.gen with
      | false => exact hrefused _ (by decide)
      | true =>
        simp only [Bool.not_true, Bool.false_eq_true, if_false]
        cases hkey : KernelCompatibilityKey.fromCanonical (decodeLookupRequest p {}).2.keyCanonical with
        | error _ => exact hrefused _ (by decide)
        | ok k => exact serveKey_pursues ⟨⟨p, hframe, Prod.ext hauth rfl⟩, hkey⟩ hfresh

/-- A frame that is sent back to the client: an answer to the lookup in hand, or no lookup response. -/
theorem serveFrame_pursues {frame : Frame} (hframe : er.frame = some frame) (hfresh : er.Fresh) :
    Pursues peers (serveFrame peers frame) er fun served er' => er'.holding = false ∧
      ∀ answer, served = .reply answer → answer.1 ≠ DistMsgType.buildReq.code ∧
        (answer.1 = DistMsgType.lookupResp.code → er'.Answers answer) := by
  obtain ⟨type, p⟩ := frame
  unfold serveFrame
  dsimp only
  split
  · refine .bind (serveRollEpoch_pursues p) ?_
    rintro _ _ rfl
    exact ⟨hfresh.holding, fun _ h => Served.noConfusion h⟩
  split
  · rename_i htype
    subst htype
    refine .bind (serveLookup_pursues hframe hfresh) ?_
    rintro a er' ⟨hsame, hfree, hvouches⟩
    refine ⟨hfree, ?_⟩
    rintro _ ⟨⟩
    exact ⟨(by decide : DistMsgType.lookupResp.code ≠ DistMsgType.buildReq.code),
      fun _ => ⟨p, a, hsame.trans hframe, rfl, hvouches⟩⟩
  split
  · refine .first trivial fun s => ⟨hfresh.holding, ?_⟩
    rintro _ ⟨⟩
    exact ⟨(by decide : DistMsgType.queryWorkersResp.code ≠ DistMsgType.buildReq.code), fun h =>
      absurd h (by decide : DistMsgType.queryWorkersResp.code ≠ DistMsgType.lookupResp.code)⟩
  split
  · exact ⟨hfresh.holding, fun _ h => Served.noConfusion h⟩
  · exact ⟨hfresh.holding, fun _ h => Served.noConfusion h⟩

theorem serveRound_pursues (fd : Socket) {frame : Frame} (hframe : er.frame = some frame)
    (hfresh : er.Fresh) :
    Pursues peers (serveRound peers fd frame) er fun _ er' => er'.holding = false := by
  refine .bind (serveFrame_pursues hframe hfresh) ?_
  rintro served er' ⟨hfree, hanswer⟩
  cases served with
  | silent => exact hfree
  | closed => exact hfree
  | reply answer =>
    obtain ⟨hreq, hresp⟩ := hanswer answer rfl
    refine .bind (writeFrame_pursues fun part bytes _ _ => ?_) ?_
    · rw [Errand.wrote_other hreq]
      exact ⟨fun h => absurd h hreq, hresp⟩
    · rintro _ _ ⟨part, rfl, -⟩
      rw [Errand.wrote_other hreq]
      exact hfree

theorem serveClient_pursues (fd : Socket) {frame : Frame} (rest : List Frame)
    (hframe : er.frame = some frame) (hfresh : er.Fresh) :
    Pursues peers (serveClient peers fd frame rest) er fun _ _ => True := by
  induction rest generalizing er frame with
  | nil => exact .bind (serveRound_pursues fd hframe hfresh) fun _ _ _ => trivial
  | cons next rest ih =>
    refine .bind (serveRound_pursues fd hframe hfresh) fun again _ hfree => ?_
    cases again with
    | false => exact trivial
    | true => exact .first hfree fun s => ih rfl ⟨rfl, rfl, rfl⟩

/-- A connection. -/
theorem handleConn_pursues (frames : List Frame) :
    Pursues peers (handleConn peers frames) {} fun _ _ => True := by
  refine .first trivial fun s => ?_
  cases frames with
  | nil => exact trivial
  | cons frame rest =>
    refine .first rfl fun _ => ?_
    split
    · exact (registerWorker_pursues _ _).mono fun _ _ _ => trivial
    · exact serveClient_pursues _ rest rfl ⟨rfl, rfl, rfl⟩

end Walk

/-! ## Runs -/

/-- What each thread has found out after a trace. -/
def errands (peers : Peers) (tr : List (Event CoordStep Coordinator)) : Nat → Errand :=
  Foundation.phases (Errand.next peers) (fun _ => {}) tr

theorem errands_concat (peers : Peers) (tr : List (Event CoordStep Coordinator))
    (e : Event CoordStep Coordinator) : errands peers (tr ++ [e]) =
      Function.update (errands peers tr) e.thread ((errands peers tr e.thread).next peers e.label e.before) :=
  Foundation.phases_concat (Errand.next peers) (fun _ => {}) tr e

/-- The artifact was read from the socket of a registered worker, as the reply to a whole build request
for a key of this digest. -/
def Backed (peers : Peers) (tr : List (Event CoordStep Coordinator)) (fd : Socket) (d : Sha256Digest)
    (id : ArtifactId) (gen : ArtifactGeneration) : Prop :=
  ∃ tr₁ e, tr₁ ++ [e] <+: tr ∧ e.label = .readFrame fd ∧ (∃ w ∈ e.before.workers, w.fd = some fd) ∧
    (∃ q auth k, (errands peers tr₁ e.thread).Asks q auth k ∧ k.digest = d ∧
      (errands peers tr₁ e.thread).Awaits fd (Errand.buildRequest q auth k)) ∧
    ∃ out, buildReply (e.before.incoming peers fd) {} = (true, out) ∧ out.id = id ∧ out.gen = gen

/-- Where everything that can become a hit comes from. -/
structure Origins (peers : Peers) (tr : List (Event CoordStep Coordinator)) (P : Nat → Errand)
    (s : Coordinator) : Prop where
  phases : P = errands peers tr
  ownKeys : s.cache.byKey = ∅
  ownOperations : s.cache.byOperation = ∅
  candidates : ∀ i, (P i).candidates = []
  worker : ∀ i fd, (P i).worker = some fd → ∃ w ∈ s.workers, w.fd = some fd
  found : ∀ i id gen, (P i).Found id gen →
    ∃ q auth k, (P i).Asks q auth k ∧ ∃ fd, Backed peers tr fd k.digest id gen
  built : ∀ kh id gen, s.built.lookup kh = some (id, gen) →
    ∃ fd d, toHex d = kh ∧ Backed peers tr fd d id gen

section Runs

variable {peers : Peers} {store : FilePersistenceStore} {tr : List (Event CoordStep Coordinator)}
  {pool : Pool CoordStep Coordinator Unit} {P : Nat → Errand} {s : Coordinator}

theorem Backed.mono {fd : Socket} {d : Sha256Digest} {id : ArtifactId} {gen : ArtifactGeneration}
    {tr' : List (Event CoordStep Coordinator)} (h : Backed peers tr fd d id gen) (hpre : tr <+: tr') :
    Backed peers tr' fd d id gen := by
  obtain ⟨tr₁, e, hpre₁, hread⟩ := h
  exact ⟨tr₁, e, hpre₁.trans hpre, hread⟩

theorem Backed.concat {fd : Socket} {d : Sha256Digest} {id : ArtifactId} {gen : ArtifactGeneration}
    (h : Backed peers tr fd d id gen) (e : Event CoordStep Coordinator) :
    Backed peers (tr ++ [e]) fd d id gen :=
  h.mono (List.prefix_append _ _)

/-- Of an empty cache there is no hit. -/
theorem Errand.found_iff (er : Errand) (hnone : er.candidates = []) {id : ArtifactId}
    {gen : ArtifactGeneration} : er.Found id gen ↔ er.built = some (id, gen) ∨ er.Replied id gen := by
  refine or_congr_right (or_iff_right ?_)
  rintro ⟨key, policy, hhit⟩
  rw [hnone] at hhit
  cases hhit

theorem Errand.wrote_fields (er : Errand) (frame : Frame) (bs : Bytes) :
    (er.wrote frame bs).frame = er.frame ∧ (er.wrote frame bs).candidates = er.candidates ∧
      (er.wrote frame bs).worker = er.worker ∧
      ∀ id gen, (er.wrote frame bs).Found id gen ↔ er.Found id gen := by
  unfold wrote
  split
  · exact ⟨rfl, rfl, rfl, fun _ _ => Iff.rfl⟩
  · exact ⟨rfl, rfl, rfl, fun _ _ => Iff.rfl⟩

/-- A lookup leaves the indexes of the cache. -/
theorem Step.effect_looks (env : Env) (s : Impl) {l : Step} (h : l.looks = true) :
    (l.effect env s).byKey = s.byKey ∧ (l.effect env s).byOperation = s.byOperation := by
  cases l with
  | collect _ | bump _ | recordEvent => exact ⟨rfl, rfl⟩
  | _ => cases h

/-- What a section does to the own cache, to the workers and to `g_built`. -/
theorem CoordStep.effect_origins (peers : Peers) (s : Coordinator) {l : CoordStep} {er : Errand}
    (hok : er.ok l) : (l.effect peers s).cache.byKey = s.cache.byKey ∧
      (l.effect peers s).cache.byOperation = s.cache.byOperation ∧
      (∀ w ∈ s.workers, w ∈ (l.effect peers s).workers) ∧
      ∀ kh id gen, (l.effect peers s).built.lookup kh = some (id, gen) →
        l = .recordBuilt kh id gen ∨ s.built.lookup kh = some (id, gen) := by
  cases l with
  | cache l =>
    obtain ⟨hkeys, hops⟩ := Step.effect_looks peers.cache s.cache hok
    exact ⟨hkeys, hops, fun _ hw => hw, fun _ _ _ h => .inr h⟩
  | register slot => exact ⟨rfl, rfl, fun _ hw => List.mem_append_left _ hw, fun _ _ _ h => .inr h⟩
  | recordBuilt kh id gen =>
    refine ⟨rfl, rfl, fun _ hw => hw, fun kh' id' gen' h => ?_⟩
    by_cases hsame : kh' = kh
    · subst hsame
      have hentry := (AList.lookup_insert s.built).symm.trans h
      cases hentry
      exact .inl rfl
    · exact .inr ((AList.lookup_insert_ne hsame).symm.trans h)
  | _ => exact ⟨rfl, rfl, fun _ hw => hw, fun _ _ _ h => .inr h⟩

/-- The thread that takes a section: what it finds comes from where it should. -/
theorem Origins.moved {i : Nat} {l : CoordStep} (h : Origins peers tr P s) (s' : Coordinator)
    (hok : (P i).ok l) : ((P i).next peers l s).candidates = [] ∧
      (∀ fd, ((P i).next peers l s).worker = some fd → ∃ w ∈ s.workers, w.fd = some fd) ∧
      ∀ id gen, ((P i).next peers l s).Found id gen → ∃ q auth k,
        ((P i).next peers l s).Asks q auth k ∧
          ∃ fd, Backed peers (tr ++ [⟨i, l, s, s'⟩]) fd k.digest id gen := by
  have hcands := h.candidates i
  have hworker := h.worker i
  have hold : ∀ id gen, (P i).Found id gen → ∃ q auth k, (P i).Asks q auth k ∧
      ∃ fd, Backed peers (tr ++ [⟨i, l, s, s'⟩]) fd k.digest id gen := by
    intro id gen hfound
    obtain ⟨q, auth, k, hasks, fd, hbacked⟩ := h.found i id gen hfound
    exact ⟨q, auth, k, hasks, fd, hbacked.concat _⟩
  cases l with
  | receive fd frame =>
    refine ⟨rfl, fun fd hfd => (by cases hfd), fun id gen hfound => ?_⟩
    rcases (Errand.found_iff _ rfl).mp hfound with hbuilt | ⟨out, hreply, -⟩
    · cases hbuilt
    · cases hreply
  | send fd frame bytes =>
    obtain ⟨hframe, hc, hw, hf⟩ := (P i).wrote_fields frame (bytes.take (s.taken peers fd bytes))
    refine ⟨hc.trans hcands, fun fd' hfd' => hworker fd' (hw ▸ hfd'), fun id gen hfound => ?_⟩
    obtain ⟨q, auth, k, hasks, hbacked⟩ := hold id gen ((hf id gen).mp hfound)
    exact ⟨q, auth, k, hasks.congr hframe, hbacked⟩
  | pickWorker boot =>
    exact ⟨hcands, fun fd hfd => Coordinator.pickWorker_listed hfd, hold⟩
  | cache l =>
    cases l with
    | collect key =>
      have hempty : s.cache.collectCandidates key = [] :=
        collectCandidates_of_empty h.ownKeys h.ownOperations key
      refine ⟨hempty, hworker, fun id gen hfound => ?_⟩
      have hfound' := (Errand.found_iff ((P i).next peers (.cache (.collect key)) s) hempty).mp hfound
      exact hold id gen ((Errand.found_iff _ hcands).mpr hfound')
    | _ => exact ⟨hcands, hworker, hold⟩
  | findBuilt kh =>
    refine ⟨hcands, hworker, fun id gen hfound => ?_⟩
    obtain ⟨q, auth, k, hasks, rfl⟩ := hok
    rcases (Errand.found_iff ((P i).next peers (.findBuilt _) s) hcands).mp hfound with hbuilt | hreply
    · obtain ⟨fd, d, hhex, hbacked⟩ := h.built _ id gen hbuilt
      obtain rfl := toHex_injective hhex
      exact ⟨q, auth, k, hasks, fd, hbacked.concat _⟩
    · exact hold id gen ((Errand.found_iff _ hcands).mpr (.inr hreply))
  | readFrame fd =>
    refine ⟨hcands, hworker, fun id gen hfound => ?_⟩
    rcases (Errand.found_iff ((P i).next peers (.readFrame fd) s) hcands).mp hfound with
      hbuilt | ⟨out, hreply, hid, hgen⟩
    · exact hold id gen ((Errand.found_iff _ hcands).mpr (.inl hbuilt))
    · obtain ⟨frame, hawaits⟩ := hok
      obtain ⟨q, auth, k, hasks, rfl⟩ := hawaits.1.2.2.2
      rw [h.phases] at hawaits hasks hworker ⊢
      exact ⟨q, auth, k, hasks, fd, tr, _, List.prefix_refl _, rfl, hworker fd hawaits.1.2.1,
        ⟨q, auth, k, hasks, rfl, hawaits⟩, out, Option.some.inj hreply, hid, hgen⟩
  | _ => exact ⟨hcands, hworker, hold⟩

/-- One section. -/
theorem Origins.step {i : Nat} {l : CoordStep} {s' : Coordinator} (h : Origins peers tr P s)
    (hok : (P i).ok l) (hstep : coordExec peers l s = some s') :
    Origins peers (tr ++ [⟨i, l, s, s'⟩]) (Function.update P i ((P i).next peers l s)) s' := by
  obtain ⟨-, rfl⟩ := coordExec_eq_some.mp hstep
  obtain ⟨hkeys, hops, hworkers, hbuilt⟩ := CoordStep.effect_origins peers s hok
  have hmoved := h.moved (l.effect peers s) hok
  refine ⟨?_, hkeys.trans h.ownKeys, hops.trans h.ownOperations, fun j => ?_, fun j fd hfd => ?_,
    fun j id gen hfound => ?_, fun kh id gen hentry => ?_⟩
  · rw [h.phases]
    exact (errands_concat peers tr ⟨i, l, s, _⟩).symm
  · by_cases hj : j = i
    · subst hj
      rw [Function.update_self]
      exact hmoved.1
    · rw [Function.update_of_ne hj]
      exact h.candidates j
  · have hpicked : ∃ w ∈ s.workers, w.fd = some fd := by
      by_cases hj : j = i
      · subst hj
        rw [Function.update_self] at hfd
        exact hmoved.2.1 fd hfd
      · rw [Function.update_of_ne hj] at hfd
        exact h.worker j fd hfd
    obtain ⟨w, hw, hwfd⟩ := hpicked
    exact ⟨w, hworkers w hw, hwfd⟩
  · by_cases hj : j = i
    · subst hj
      rw [Function.update_self] at hfound ⊢
      exact hmoved.2.2 id gen hfound
    · rw [Function.update_of_ne hj] at hfound ⊢
      obtain ⟨q, auth, k, hasks, fd, hbacked⟩ := h.found j id gen hfound
      exact ⟨q, auth, k, hasks, fd, hbacked.concat _⟩
  · rcases hbuilt kh id gen hentry with rfl | hold
    · obtain ⟨⟨q, auth, k, hasks, rfl⟩, hreplied⟩ := hok
      obtain ⟨q', auth', k', hasks', fd, hbacked⟩ := h.found i id gen (.inr (.inr hreplied))
      obtain ⟨-, -, rfl⟩ := hasks.unique hasks'
      exact ⟨fd, _, rfl, hbacked.concat _⟩
    · obtain ⟨fd, d, hhex, hbacked⟩ := h.built kh id gen hold
      exact ⟨fd, d, hhex, hbacked.concat _⟩

theorem origins_initial : Origins peers [] (fun _ => {}) (Coordinator.initial store) := by
  refine ⟨rfl, rfl, rfl, fun _ => rfl, fun _ _ h => (by cases h), fun i id gen hfound => ?_,
    fun kh id gen h => ?_⟩
  · rcases (Errand.found_iff _ rfl).mp hfound with hbuilt | ⟨out, hreply, -⟩
    · cases hbuilt
    · cases hreply
  · cases h

/-- At the end of every run. -/
theorem runs_origins (h : CoordRuns peers store tr pool) :
    Origins peers tr (errands peers tr) pool.shared := by
  refine Foundation.Runs.scripted_history (Q := fun _ _ => True) ?_ origins_initial
    (fun tr P i l s s' hJ hok hs => hJ.step hok hs) h
  rintro _ ⟨frames, rfl⟩
  exact handleConn_pursues frames

/-- Every section is one its thread may take on its errand. -/
theorem runs_pursue (h : CoordRuns peers store tr pool) {tr₁ : List (Event CoordStep Coordinator)}
    {e : Event CoordStep Coordinator} (hpre : tr₁ ++ [e] <+: tr) :
    (errands peers tr₁ e.thread).ok e.label := by
  have hstart : ∀ (_ : Nat) (p : CoordOp Unit), (∃ frames, p = handleConn peers frames) →
      p.Phased (coordExec peers) (fun _ _ _ => True) (fun er l _ => er.ok l) (Errand.next peers)
        (fun _ _ _ => True) (fun _ => True) {} := by
    rintro _ _ ⟨frames, rfl⟩
    exact (handleConn_pursues frames).phased
  exact Foundation.Runs.allowed (fun _ _ hp => by simp at hp) hstart h (fun _ _ => trivial) tr₁ e hpre

/-- What a lookup response is, and where the artifact of a hit comes from. -/
theorem answer_origins (h : CoordRuns peers store tr pool) {tr₁ : List (Event CoordStep Coordinator)}
    {e : Event CoordStep Coordinator} (hpre : tr₁ ++ [e] <+: tr) {fd : Socket} {payload bytes : Bytes}
    (hsend : e.label = .send fd (DistMsgType.lookupResp.code, payload) bytes) :
    ∃ p a, (errands peers tr₁ e.thread).frame = some (DistMsgType.lookupReq.code, p) ∧
      payload = (lookupResponse (decodeLookupRequest p {}).2 a).2 ∧
      (a.outcome = 0x00 → ∃ id gen, a = .hit id gen ∧ ∃ q auth k,
        (errands peers tr₁ e.thread).Asks q auth k ∧
          ∃ worker, Backed peers tr₁ worker k.digest id gen) := by
  obtain ⟨tr₂, rfl⟩ := hpre
  have hok := runs_pursue h (List.prefix_append (tr₁ ++ [e]) tr₂)
  obtain ⟨⟨ts, hbefore⟩, -⟩ := h.cut (List.append_assoc tr₁ [e] tr₂)
  have horigins := runs_origins hbefore
  rw [hsend] at hok
  obtain ⟨p, a, hframe, hanswer, hvouches⟩ := hok.2 rfl
  refine ⟨p, a, hframe, (Prod.mk.inj hanswer).2, fun hzero => ?_⟩
  obtain ⟨id, gen, rfl, hfound⟩ := hvouches hzero
  exact ⟨id, gen, rfl, horigins.found _ id gen hfound⟩

/-- **Where a hit comes from.** Whatever the interleaving of the connections, and whatever the peers
answer: a lookup response is written by a thread that has a lookup request in hand, for that request; and
when it is a hit, the artifact in it was read from a registered worker in reply to a whole build request
for a key of the same digest. -/
theorem hits_backed (h : CoordRuns peers store tr pool) {tr₁ : List (Event CoordStep Coordinator)}
    {e : Event CoordStep Coordinator} (hpre : tr₁ ++ [e] <+: tr) {fd : Socket} {payload bytes : Bytes}
    (hsend : e.label = .send fd (DistMsgType.lookupResp.code, payload) bytes) :
    ∃ p, (errands peers tr₁ e.thread).frame = some (DistMsgType.lookupReq.code, p) ∧
      (decodeLookupResponse payload {}).2.rid = (decodeLookupRequest p {}).2.rid ∧
      ((decodeLookupResponse payload {}).2.outcome = 0x00 → ∃ k worker,
        KernelCompatibilityKey.fromCanonical (decodeLookupRequest p {}).2.keyCanonical = .ok k ∧
          Backed peers tr₁ worker k.digest (decodeLookupResponse payload {}).2.id
            (decodeLookupResponse payload {}).2.gen) := by
  obtain ⟨p, a, hframe, rfl, horigins⟩ := answer_origins h hpre hsend
  rw [lookupResponse, decodeLookupResponse_encode]
  refine ⟨p, hframe, rfl, fun hzero => ?_⟩
  obtain ⟨id, gen, rfl, q, auth, k, ⟨⟨p', hp', hdecode⟩, hkey⟩, worker, hbacked⟩ := horigins hzero
  rw [hframe] at hp'
  cases hp'
  rw [hdecode]
  exact ⟨k, worker, hkey, hbacked⟩

end Runs

/-- The frame that is being written, and the octets that are offered. -/
def CoordStep.writing : CoordStep → Option (Socket × Frame × Bytes)
  | .send fd frame bytes => some (fd, frame, bytes)
  | _ => none

/-- What the building worker's client is answered at last. -/
def builtAnswer : Bytes := encodeLookupResponse {} 0x00 ⟨⟨1, 2⟩⟩ 1 1

/-- A client looks a key up twice: the second answer is a hit, and was read from the worker. -/
theorem hits_backed_sample : ∃ tr₁ e pool, CoordRuns buildingWorker {} (tr₁ ++ [e]) pool ∧
    e.label = .send 1 (DistMsgType.lookupResp.code, builtAnswer) builtAnswer ∧
    ∃ worker d, Backed buildingWorker tr₁ worker d ⟨⟨1, 2⟩⟩ 1 := by
  have hplay : ((playConns buildingWorker {} (buildThrough [])).bind fun out =>
      out.1.getLast?.bind fun e => e.label.writing) =
        some (1, (DistMsgType.lookupResp.code, builtAnswer), builtAnswer) := by
    decide +kernel
  obtain ⟨⟨tr, pool⟩, hplay, hout⟩ := Option.bind_eq_some_iff.mp hplay
  obtain ⟨e, hlast, hwriting⟩ := Option.bind_eq_some_iff.mp hout
  obtain ⟨tr₁, rfl⟩ := List.getLast?_eq_some_iff.mp hlast
  have hsend : e.label = .send 1 (DistMsgType.lookupResp.code, builtAnswer) builtAnswer := by
    cases hlabel : e.label with
    | send fd frame bytes =>
      rw [hlabel] at hwriting
      cases hwriting
      rfl
    | _ =>
      rw [hlabel] at hwriting
      cases hwriting
  have hruns : CoordRuns buildingWorker {} (tr₁ ++ [e]) pool := CoordRuns.of_play hplay
  obtain ⟨p, -, -, hhit⟩ := hits_backed hruns (List.prefix_refl _) hsend
  obtain ⟨k, worker, -, hbacked⟩ := hhit rfl
  exact ⟨tr₁, e, pool, hruns, hsend, worker, k.digest, hbacked⟩

end KernelCache
