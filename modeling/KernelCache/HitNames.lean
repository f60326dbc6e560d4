/-
# KernelCache.HitNames — one artifact for one digest, over the whole deployment.

A coordinator, and behind one of its sockets a worker process with the CPU backend.  What the coordinator
answers to its clients it has read from the worker (`hits_backed`), and a worker names one artifact for
one digest for as long as it lives (`take_table`).  What connects the two is that the replies are matched
by their order alone: no request id is compared.

`Ordered` is the invariant of that.  The dispatch mutex lets one request out at a time, so on each socket
the replies that were read are as many as the requests that were written, or one fewer while a thread
waits.  With it, every reply that is read is the worker's answer to the request of the thread that reads
it, and two hits that are answered anywhere, to any clients, have the same artifact if and only if they
are for the same digest (`hits_name_digests`).
-/
import KernelCache.BuildTable
import KernelCache.Replies
import KernelCache.ReplyOrder

namespace KernelCache

open Foundation (Bytes Prog Event Pool Fill Reader)
open TcpConnection (frameBytes framesOf frameReader Sane)

/-! ## The replies of a worker -/

namespace Worker

variable {env : Env} {boot : WorkerBootId} {w : Worker} {f g : Frame}

/-- What a worker process has sent back on a socket on which it was sent this, reply after reply. -/
def replyOn (env : Env) (boot : WorkerBootId) (c : Channel) : Option Frame :=
  (process env boot (framesOf c.sent).1).bind fun w => w.replies[c.reads]?

/-- A reply with an error code in its octet. -/
theorem buildReply_error {rid : RequestId} {out : ArtifactId × ArtifactGeneration} {code : UInt32}
    (hcode : code.toUInt8 ≠ 0) (message : Str) : (buildReply (some (DistMsgType.buildResp.code,
      encodeBuildResponse rid out.1 out.2 code message)) {}).1 = false := by
  rw [Bool.eq_false_iff, ne_eq, buildReply_fst, encodeBuildResponse_code]
  exact hcode

/-- A reply without one. -/
theorem buildReply_success (rid : RequestId) (out : ArtifactId × ArtifactGeneration) :
    buildReply (some (DistMsgType.buildResp.code, encodeBuildResponse rid out.1 out.2 0 [])) {} =
      (true, ⟨rid, out.1, out.2, 0, []⟩) := by
  have hdecode : decodeBuildResponse (encodeBuildResponse rid out.1 out.2 0 []) {} =
      (.ok (), ⟨rid, out.1, out.2, 0, []⟩) :=
    decodeBuildResponse_encode rid out.1 out.2 (by decide) (by decide) {}
  unfold buildReply
  dsimp only
  rw [hdecode]
  rfl

/-- A frame is answered by one reply, or by none. -/
theorem build_replies (env : Env) (boot : WorkerBootId) (w : Worker) (q : DistBuildRequest)
    (auth : Result DistAuthority) :
    (w.build env boot q auth).running = false ∧ (w.build env boot q auth).replies = w.replies ∨
      (w.build env boot q auth).running = w.running ∧
        ∃ f, (w.build env boot q auth).replies = w.replies ++ [f] := by
  unfold build
  split
  · exact .inr ⟨rfl, _, rfl⟩
  split
  · exact .inr ⟨rfl, _, rfl⟩
  split
  · exact .inr ⟨rfl, _, rfl⟩
  split
  · exact .inr ⟨rfl, _, rfl⟩
  unfold buildKey
  split
  · exact .inl ⟨rfl, rfl⟩
  · exact .inl ⟨rfl, rfl⟩
  · exact .inr ⟨rfl, _, rfl⟩
  · exact .inr ⟨rfl, _, rfl⟩

/-- One frame: a worker that runs on has answered it when it is a request; a worker that stops has
not. -/
theorem take_replies (env : Env) (boot : WorkerBootId) (w : Worker) (g : Frame) :
    (w.take env boot g).replies = w.replies ∧
        ((w.take env boot g).running = true → isRequest g = false) ∨
      isRequest g = true ∧ w.running = true ∧ (w.take env boot g).running = true ∧
        ∃ f, (w.take env boot g).replies = w.replies ++ [f] := by
  unfold take
  cases hrunning : w.running with
  | false => exact .inl ⟨rfl, fun h => by simp [hrunning] at h⟩
  | true =>
    simp only [Bool.not_true, Bool.false_eq_true, if_false]
    by_cases hroll : g.1 = DistMsgType.rollEpoch.code
    · rw [if_pos hroll]
      exact .inl ⟨rfl, fun _ => by rw [isRequest, hroll]; decide⟩
    rw [if_neg hroll]
    by_cases hshut : g.1 = DistMsgType.shutdown.code
    · rw [if_pos hshut]
      exact .inl ⟨rfl, fun h => by cases h⟩
    rw [if_neg hshut]
    by_cases hreq : g.1 = DistMsgType.buildReq.code
    · rw [if_neg (not_not.mpr hreq)]
      rcases build_replies env boot w (decodeBuildRequest g.2 {}).2 (decodeBuildRequest g.2 {}).1 with
        ⟨hstopped, hsame⟩ | ⟨hruns, hmore⟩
      · exact .inl ⟨hsame, fun h => by rw [hstopped] at h; cases h⟩
      · exact .inr ⟨beq_iff_eq.mpr hreq, trivial, hruns.trans hrunning, hmore⟩
    · rw [if_pos hreq]
      exact .inl ⟨rfl, fun _ => beq_eq_false_iff_ne.mpr hreq⟩

/-- Replies are counted by requests: one for each as long as the worker runs, and never more. -/
theorem replies_length (env : Env) (boot : WorkerBootId) (w : Worker) (frames : List Frame) :
    (frames.foldl (take env boot) w).replies.length ≤ w.replies.length + (frames.filter isRequest).length ∧
      ((frames.foldl (take env boot) w).running = true →
        (frames.foldl (take env boot) w).replies.length =
          w.replies.length + (frames.filter isRequest).length) := by
  induction frames using List.reverseRecOn with
  | nil => exact ⟨le_rfl, fun _ => rfl⟩
  | append_singleton frames g ih =>
    rw [List.foldl_append, List.filter_append, List.length_append, List.foldl_cons, List.foldl_nil]
    generalize frames.foldl (take env boot) w = w₁ at ih
    have hstill : (w₁.take env boot g).running = true → w₁.running = true := fun h => (take_epoch h).1
    rcases take_replies env boot w₁ g with ⟨hsame, hnone⟩ | ⟨hreq, hruns, -, f, hmore⟩
    · rw [hsame]
      refine ⟨by omega, fun h => ?_⟩
      have hzero : ([g].filter isRequest).length = 0 := by simp [hnone h]
      rw [hzero, ih.2 (hstill h), Nat.add_zero]
    · have hcount := ih.2 hruns
      have hone : ([g].filter isRequest).length = 1 := by simp [hreq]
      rw [hmore, hone, List.length_append, List.length_singleton]
      omega

/-- **A reply, and the request it answers.** They have the same number. -/
theorem request_of_reply (env : Env) (boot : WorkerBootId) (w : Worker) {frames : List Frame} {n : Nat}
    (h : (frames.foldl (take env boot) w).replies[w.replies.length + n]? = some f) :
    ∃ pre g post, frames = pre ++ g :: post ∧ isRequest g = true ∧ (pre.filter isRequest).length = n ∧
      (pre.foldl (take env boot) w).running = true ∧
      ((pre.foldl (take env boot) w).take env boot g).replies =
        (pre.foldl (take env boot) w).replies ++ [f] := by
  induction frames using List.reverseRecOn with
  | nil =>
    rw [List.foldl_nil, List.getElem?_eq_none (Nat.le_add_right _ _)] at h
    cases h
  | append_singleton frames g ih =>
    have hsplit : ∀ {pre g' post}, frames = pre ++ g' :: post →
        frames ++ [g] = pre ++ g' :: (post ++ [g]) := by
      rintro pre g' post rfl
      simp
    have hcount := (replies_length env boot w frames).2
    rw [List.foldl_append, List.foldl_cons, List.foldl_nil] at h
    rcases take_replies env boot (frames.foldl (take env boot) w) g with
      ⟨hsame, -⟩ | ⟨hreq, hruns, -, f', hmore⟩
    · rw [hsame] at h
      obtain ⟨pre, g', post, hframes, hrest⟩ := ih h
      exact ⟨pre, g', post ++ [g], hsplit hframes, hrest⟩
    · rw [hmore] at h
      by_cases hold : w.replies.length + n < (frames.foldl (take env boot) w).replies.length
      · rw [List.getElem?_append_left hold] at h
        obtain ⟨pre, g', post, hframes, hrest⟩ := ih h
        exact ⟨pre, g', post ++ [g], hsplit hframes, hrest⟩
      · -- it is the reply to the last frame
        rw [List.getElem?_append_right (Nat.le_of_not_lt hold)] at h
        obtain ⟨hlast, rfl⟩ := List.getElem?_eq_some_iff.mp h
        have hn := hcount hruns
        rw [List.length_singleton] at hlast
        refine ⟨frames, g, [], rfl, hreq, by omega, hruns, ?_⟩
        rw [hmore, List.getElem_singleton]

/-- A request that is not accepted is answered by an error. -/
theorem unaccepted_replies (hsent : ∀ {rid : RequestId} {res : ArtifactId × ArtifactGeneration}
      {code : UInt32} {message : Str},
      w.replies ++ [(DistMsgType.buildResp.code, encodeBuildResponse rid res.1 res.2 code message)] =
        w.replies ++ [f] → code.toUInt8 = 0)
    (hnothing : w.replies ≠ w.replies ++ [f]) (h : w.accepted boot g = none) :
    (w.take env boot g).replies ≠ w.replies ++ [f] := by
  unfold accepted at h
  unfold take
  split
  · exact hnothing
  split
  · exact hnothing
  split
  · exact hnothing
  split
  · exact hnothing
  · rename_i hcode
    rw [if_neg hcode] at h
    cases hdecode : decodeBuildRequest g.2 {} with
    | mk auth q =>
      rw [hdecode] at h
      unfold build
      cases auth with
      | error e => exact fun heq => absurd (hsent heq) (by decide)
      | ok a =>
        dsimp only at h ⊢
        split
        · exact fun heq => absurd (hsent heq) (by decide)
        split
        · exact fun heq => absurd (hsent heq) (by decide)
        · rename_i hepoch hboot
          rw [if_pos ⟨by simpa using hepoch, by simpa using hboot⟩] at h
          cases hfrom : KernelCompatibilityKey.fromCanonical q.keyCanonical with
          | error e => exact fun heq => absurd (hsent heq) (by decide)
          | ok k =>
            rw [hfrom] at h
            cases h

/-- A reply that counts as a success is the worker's answer. -/
theorem answers_of_success {out : BuildResponse} (hrunning : w.running = true)
    (hreplies : (w.take env boot g).replies = w.replies ++ [f])
    (hsuccess : buildReply (some f) {} = (true, out)) : ∃ q k, w.accepted boot g = some (q, k) ∧
      w.Answers env boot g k.digest (out.id, out.gen) := by
  have hsent : ∀ {rid : RequestId} {res : ArtifactId × ArtifactGeneration} {code : UInt32} {message : Str},
      w.replies ++ [(DistMsgType.buildResp.code, encodeBuildResponse rid res.1 res.2 code message)] =
        w.replies ++ [f] → code.toUInt8 = 0 := by
    intro rid res code message heq
    have hf := List.append_cancel_left heq
    rw [List.singleton_inj] at hf
    by_contra hcode
    have hfailed : (buildReply (some (_, encodeBuildResponse rid res.1 res.2 code message)) {}).1 = false :=
      buildReply_error hcode message
    rw [hf, hsuccess] at hfailed
    cases hfailed
  have hnothing : w.replies ≠ w.replies ++ [f] := fun heq => by simp at heq
  cases haccepted : w.accepted boot g with
  | none => exact absurd hreplies (unaccepted_replies hsent hnothing haccepted)
  | some request =>
    obtain ⟨q, k⟩ := request
    refine ⟨q, k, rfl, ?_⟩
    have htaken := take_accepted env hrunning haccepted
    cases hrun : (acquireOnce env (buildRequest q k)).run (exec env) w.cache with
    | none =>
      rw [htaken, buildKey, hrun] at hreplies
      exact absurd hreplies hnothing
    | some done =>
      obtain ⟨res, c⟩ := done
      rw [htaken, buildKey_of_run hrun] at hreplies
      cases res with
      | error e =>
        cases e with
        | exception => exact absurd hreplies hnothing
        | error code message => exact absurd (hsent hreplies) (by decide)
      | ok res =>
        have hf := List.singleton_inj.mp (List.append_cancel_left hreplies)
        rw [← hf, buildReply_success] at hsuccess
        cases hsuccess
        refine ⟨?_, q, k, haccepted, rfl, ?_⟩
        · rw [htaken, buildKey_of_run hrun]
          exact hrunning
        · rw [htaken, buildKey_of_run hrun]
          rfl

/-- The builds a worker sets out on, frame after frame. -/
def newBuilds (env : Env) (boot : WorkerBootId) :
    Worker → List Frame → List (KernelCompatibilityKey × ArtifactGeneration)
  | _, [] => []
  | w, g :: frames => (w.newBuild boot g).toList ++ newBuilds env boot (w.take env boot g) frames

theorem newBuilds_concat (env : Env) (boot : WorkerBootId) (w : Worker) (frames : List Frame) (g : Frame) :
    newBuilds env boot w (frames ++ [g]) =
      newBuilds env boot w frames ++ ((frames.foldl (take env boot) w).newBuild boot g).toList := by
  induction frames generalizing w with
  | nil => exact List.append_nil _
  | cons f frames ih => rw [List.cons_append, newBuilds, newBuilds, ih, List.append_assoc, List.foldl_cons]

/-- **All the answers of a worker** are in one table, also when the worker stops, and what is in the table
was built. -/
theorem answered_table {F : Type} {host : CpuBackend.Host F}
    (hcpu : env.backends = [makeCpuBackend host]) (hclosed : env.cfg.persistenceOpen = false)
    (e : CoordinatorEpoch) {frames : List Frame} (hshort : frames.length < 2 ^ 64) :
    ∃ t : BuildTable, t.Numbered ∧
      (∀ w, w = frames.foldl (take env boot) { epoch := e, cache := Impl.initial {} } →
        w.running = true → w.Tracks frames.length t) ∧
      (∀ pre g post, frames = pre ++ g :: post → ∀ d out,
        (pre.foldl (take env boot) { epoch := e, cache := Impl.initial {} }).Answers env boot g d out →
          t.built d = some out) ∧
      ∀ d out, t.built d = some out →
        ∃ k, (k, out.2) ∈ newBuilds env boot { epoch := e, cache := Impl.initial {} } frames ∧
          k.digest = d ∧ out.1 = deriveId (CpuBackend.artifactOf k) out.2 := by
  induction frames using List.reverseRecOn with
  | nil =>
    refine ⟨{}, BuildTable.empty_numbered, ?_, fun pre g post h => ?_, fun d out h => ?_⟩
    · rintro _ rfl -
      exact tracks_registered e
    · simp at h
    · cases h
  | append_singleton frames g ih =>
    rw [List.length_append, List.length_singleton] at hshort
    obtain ⟨t, hnumbered, htracks, hanswers, hbuilds⟩ := ih (by omega)
    have hcases : ∀ {pre g' post}, frames ++ [g] = pre ++ g' :: post →
        (pre = frames ∧ g' = g) ∨ ∃ post', frames = pre ++ g' :: post' := by
      intro pre g' post heq
      rcases List.eq_nil_or_concat post with rfl | ⟨post', g'', rfl⟩
      · obtain ⟨rfl, hg⟩ := List.append_inj' heq rfl
        exact .inl ⟨rfl, (List.singleton_inj.mp hg).symm⟩
      · rw [List.concat_eq_append, ← List.cons_append, ← List.append_assoc] at heq
        exact .inr ⟨post', (List.append_inj' heq rfl).1⟩
    have hgrown : ∀ {d out}, t.built d = some out → ∃ k,
        (k, out.2) ∈ newBuilds env boot { epoch := e, cache := Impl.initial {} } (frames ++ [g]) ∧
          k.digest = d ∧ out.1 = deriveId (CpuBackend.artifactOf k) out.2 := by
      intro d out hout
      obtain ⟨k, hk, hdigest, hid⟩ := hbuilds d out hout
      rw [newBuilds_concat]
      exact ⟨k, List.mem_append_left _ hk, hdigest, hid⟩
    have hnew := newBuilds_concat env boot { epoch := e, cache := Impl.initial {} } frames g
    simp only [List.foldl_append, List.foldl_cons, List.foldl_nil, List.length_append,
      List.length_singleton]
    generalize hw : frames.foldl (take env boot) { epoch := e, cache := Impl.initial {} } = w
      at htracks hnew
    cases hruns : (w.take env boot g).running with
    | false =>
      -- nothing is answered any more
      refine ⟨t, hnumbered, ?_, fun pre g' post heq d out hanswer => ?_, fun d out hout => hgrown hout⟩
      · rintro _ rfl hrunning
        rw [hruns] at hrunning
        cases hrunning
      · rcases hcases heq with ⟨rfl, rfl⟩ | ⟨post', hframes⟩
        · rw [hw] at hanswer
          rw [hanswer.1] at hruns
          cases hruns
        · exact hanswers pre g' post' hframes d out hanswer
    | true =>
      obtain ⟨t', ht', hext, hlast, hentries⟩ :=
        take_table hcpu hclosed (htracks w rfl (take_epoch hruns).1) hshort hruns
      refine ⟨t', ht'.numbered, ?_, fun pre g' post heq d out hanswer => ?_, fun d out hout => ?_⟩
      · rintro _ rfl -
        exact ht'
      · rcases hcases heq with ⟨rfl, rfl⟩ | ⟨post', hframes⟩
        · rw [hw] at hanswer
          exact hlast d out hanswer
        · exact hext d out (hanswers pre g' post' hframes d out hanswer)
      · rcases hentries d out hout with hold | ⟨k, hk, hdigest, hid⟩
        · exact hgrown hold
        · rw [hnew, hk]
          exact ⟨k, List.mem_append_right _ List.mem_cons_self, hdigest, hid⟩

end Worker

/-! ## Lengths -/

namespace LookupRequest

/-- The octets of the request that go on to a worker. -/
def passedOn (q : LookupRequest) : Nat := q.keyCanonical.length + q.ns.length

theorem fixed_draws {α : Type} {n : Nat} {r : Reader α} (hr : r.Fixed n)
    {set : α → LookupRequest → LookupRequest} (hset : ∀ a q, (set a q).passedOn = q.passedOn) :
    (Fill.field r set).Draws passedOn := by
  refine Fill.field_draws fun a q input rest hread => ?_
  obtain ⟨-, rfl⟩ := hr.rest hread
  rw [hset, List.length_drop]
  omega

theorem str_draws {set : Bytes → LookupRequest → LookupRequest}
    (hset : ∀ s q, (set s q).passedOn ≤ q.passedOn + s.length) :
    (Fill.field DistReader.str set).Draws passedOn := by
  refine Fill.field_draws fun s q input rest hread => ?_
  obtain ⟨-, rfl⟩ := CanonicalReader.str_exact.sound _ _ _ hread
  have hle := hset s q
  rw [List.length_append, CanonicalWriter.str, List.length_append]
  omega

theorem fill_draws : fill.Draws passedOn := by
  have hu64 := DistReader.u64_fixed
  have hid := DistReader.id_fixed
  have hbody : fillBody.Draws passedOn := by
    refine .andThen (fixed_draws hid fun _ _ => rfl) (.andThen (str_draws fun s q => ?_)
      (.andThen (str_draws fun s q => ?_) (.andThen (str_draws fun s q => ?_)
        (fixed_draws Reader.Fixed.byte fun _ _ => rfl))))
    · exact Nat.le_add_right _ _
    · show s.length + q.ns.length ≤ q.keyCanonical.length + q.ns.length + s.length
      omega
    · show q.keyCanonical.length + s.length ≤ q.keyCanonical.length + q.ns.length + s.length
      omega
  exact .andThen (.andThen (fixed_draws hu64 fun _ _ => rfl) (.andThen (fixed_draws hu64 fun _ _ => rfl)
    (.andThen (fixed_draws hid fun _ _ => rfl) (.andThen (fixed_draws hu64 fun _ _ => rfl)
      (.andThen (fixed_draws hu64 fun _ _ => rfl) (.andThen (fixed_draws hid fun _ _ => rfl)
        (fixed_draws hid fun _ _ => rfl))))))) hbody

/-- What goes on of a lookup request is no longer than the request. -/
theorem decode_passedOn (p : Bytes) : (decodeLookupRequest p {}).2.passedOn ≤ p.length := by
  unfold decodeLookupRequest
  cases p with
  | nil => exact Nat.zero_le _
  | cons marker rest =>
    have hfill := fill_draws rest {}
    have hnone : ({} : LookupRequest).passedOn = 0 := rfl
    rw [hnone, Nat.zero_add] at hfill
    rw [u8_cons, List.length_cons]
    dsimp only
    split
    · exact Nat.zero_le _
    · generalize fill rest {} = out at hfill
      obtain ⟨_ | left, q⟩ := out
      · exact Nat.le_succ_of_le (Nat.le_of_add_right_le hfill)
      · exact Nat.le_succ_of_le (Nat.le_of_add_right_le hfill)

end LookupRequest

namespace KeyField

/-- One field of a key makes the architecture no longer than what it is read from. -/
theorem store_arch (k : KeyFields) (f : KeyField) :
    (store k f).arch.length ≤ k.arch.length + f.write.length := by
  cases f with
  | arch s =>
    show s.length ≤ k.arch.length + (_ :: (_ ++ s)).length
    rw [List.length_cons, List.length_append]
    omega
  | _ => exact Nat.le_add_right _ _

theorem foldl_store_arch (fs : List KeyField) (k : KeyFields) :
    (fs.foldl store k).arch.length ≤ k.arch.length + (fs.flatMap write).length := by
  induction fs generalizing k with
  | nil => exact Nat.le_add_right _ _
  | cons f fs ih =>
    have hfirst := store_arch k f
    have hrest := ih (store k f)
    rw [List.foldl_cons, List.flatMap_cons, List.length_append]
    omega

end KeyField

/-- The architecture of a key is no longer than its canonical form. -/
theorem KernelCompatibilityKey.fromCanonical_arch {bytes : Bytes} {k : KernelCompatibilityKey}
    (h : fromCanonical bytes = .ok k) : k.arch.length ≤ bytes.length := by
  obtain ⟨f, hdecode, -, rfl⟩ := fromCanonical_ok_iff.mp h
  obtain ⟨fs, -, rfl, rfl⟩ := decode_ok_iff.mp hdecode
  have hle := KeyField.foldl_store_arch fs {}
  have hnone : ({} : KeyFields).arch.length = 0 := rfl
  rw [hnone, Nat.zero_add] at hle
  rw [finalize_toKeyFields]
  exact hle

/-- A request that goes on to a worker is less than four times the limit of the frame it came in. -/
theorem Errand.Asks.sane {er : Errand} {q : LookupRequest} {auth : DistAuthority}
    {k : KernelCompatibilityKey} (h : er.Asks q auth k)
    (hfits : ∀ f, er.frame = some f → TcpConnection.Fits f) :
    q.keyCanonical.length ≤ kDistMaxFrameBytes ∧ q.ns.length ≤ kDistMaxFrameBytes ∧
      k.arch.length ≤ kDistMaxFrameBytes := by
  obtain ⟨⟨p, hp, hdecode⟩, hkey⟩ := h
  have hpassed := LookupRequest.decode_passedOn p
  have hlimit : p.length ≤ kDistMaxFrameBytes - kDistHeaderBytes := hfits _ hp
  have harch := KernelCompatibilityKey.fromCanonical_arch hkey
  rw [hdecode] at hpassed
  unfold LookupRequest.passedOn at hpassed
  dsimp only at hpassed
  omega

theorem sane_buildRequest {q : LookupRequest} (auth : DistAuthority) {k : KernelCompatibilityKey}
    (hkey : q.keyCanonical.length ≤ kDistMaxFrameBytes) (hns : q.ns.length ≤ kDistMaxFrameBytes)
    (harch : k.arch.length ≤ kDistMaxFrameBytes) : Sane (Errand.buildRequest q auth k) := by
  have hmax : kDistMaxFrameBytes = 67108864 := rfl
  unfold Sane Errand.buildRequest encodeBuildRequest
  simp only [encodeAuthority, appendSized, List.length_append, List.length_cons, List.length_nil,
    appendU64Be_length, appendId_length]
  omega

/-! ## What is sent to a worker -/

section Runs

variable {peers : Peers} {store : FilePersistenceStore} {tr tr₁ : List (Event CoordStep Coordinator)}
  {pool : Pool CoordStep Coordinator Unit} {e : Event CoordStep Coordinator}

/-- The frame that a section receives from a client or from a worker that registers. -/
def CoordStep.received : CoordStep → Option Frame
  | .receive _ frame => some frame
  | _ => none

/-- The frames that were received are within the limit, as `read_frame` sees to it. -/
def ReceivesFit (tr : List (Event CoordStep Coordinator)) : Prop :=
  ∀ e ∈ tr, ∀ f ∈ e.label.received, TcpConnection.Fits f

/-- The frame in hand was received. -/
theorem hand_fits (hfits : ReceivesFit tr) (i : Nat) {f : Frame}
    (h : (errands peers tr i).frame = some f) : TcpConnection.Fits f := by
  induction tr using List.reverseRecOn with
  | nil => cases h
  | append_singleton tr e ih =>
    have hbefore : ReceivesFit tr := fun e' he' => hfits e' (List.mem_append_left _ he')
    rw [errands_concat] at h
    by_cases hthread : i = e.thread
    · rw [hthread, Function.update_self] at h
      rw [hthread] at ih
      cases hlabel : e.label with
      | receive fd frame =>
        rw [hlabel] at h
        cases h
        exact hfits e (by simp) f (by rw [hlabel]; rfl)
      | send fd frame bytes =>
        rw [hlabel, Errand.next, (Errand.wrote_fields _ _ _).1] at h
        exact ih hbefore h
      | cache l =>
        rw [hlabel] at h
        cases l <;> exact ih hbefore h
      | _ =>
        rw [hlabel] at h
        exact ih hbefore h
    · rw [Function.update_of_ne hthread] at h
      exact ih hbefore h

/-- Who serves a client serves it to the end. -/
theorem client_stays (h : CoordRuns peers store tr pool) (hpre : tr₁ <+: tr) {i : Nat} {fd : Socket}
    (hclient : (places peers tr₁ i).client = some fd) : (places peers tr i).client = some fd := by
  obtain ⟨tr₂, rfl⟩ := hpre
  have hall : ∀ more, tr₁ ++ more <+: tr₁ ++ tr₂ → (places peers (tr₁ ++ more) i).client = some fd := by
    intro more
    induction more using List.reverseRecOn with
    | nil => exact fun _ => by rwa [List.append_nil]
    | append_singleton more e ih =>
      intro hpre
      rw [← List.append_assoc] at hpre ⊢
      have hbefore := ih ((List.prefix_append _ _).trans hpre)
      rw [places_concat]
      by_cases hthread : i = e.thread
      · subst hthread
        rw [Function.update_self]
        exact Place.client_next (conducted h hpre).1 hbefore
      · rwa [Function.update_of_ne hthread]
  exact hall tr₂ (List.prefix_refl _)

/-- A `::send` on a socket that is no client's. -/
theorem sends_sane (h : CoordRuns peers store tr pool) (hfits : ReceivesFit tr) (hpre : tr₁ ++ [e] <+: tr)
    {fd : Socket} {frame : Frame} {bytes : Bytes} (hsend : e.label = .send fd frame bytes)
    (hclient : ∀ i, (places peers tr i).client ≠ some fd) : Sane frame := by
  have hok := runs_pursue h hpre
  obtain ⟨⟨-, -, -, hsends⟩, -⟩ : (places peers tr₁ e.thread).ok (.send fd frame bytes) :=
    hsend ▸ conducted h hpre
  have hown : (places peers tr₁ e.thread).client ≠ some fd := fun hi =>
    hclient e.thread (client_stays h ((List.prefix_append _ _).trans hpre) hi)
  rw [hsend] at hok
  cases hframe : isRequest frame with
  | true =>
    obtain ⟨⟨-, -, -, q, auth, k, hasks, rfl⟩, -⟩ := hok.1 (isRequest_iff.mp hframe)
    have hreceived : ReceivesFit tr₁ := fun e' he' =>
      hfits e' (hpre.subset (List.mem_append_left _ he'))
    obtain ⟨hkey, hns, harch⟩ := hasks.sane fun f hf => hand_fits hreceived e.thread hf
    exact sane_buildRequest auth hkey hns harch
  | false =>
    cases hstage : (places peers tr₁ e.thread).stage with
    | start | checked _ _ =>
      rw [hstage] at hsends
      exact absurd hsends.1 hown
    | dispatching e worker =>
      rw [hstage] at hsends
      rcases hsends with ⟨-, _, _, _, _, _, _, -, rfl⟩ | hanswer
      · cases hframe
      · exact absurd hanswer.1 hown
    | casting e slots reached failed =>
      rw [hstage] at hsends
      obtain ⟨rfl, -⟩ := hsends
      unfold Sane encodeRollEpoch
      rw [appendU64Be_length]
      decide
    | acking slot e =>
      rw [hstage] at hsends
      obtain ⟨-, rfl⟩ := hsends
      unfold Sane encodeRegisterAck
      simp only [List.length_append, List.length_cons, List.length_nil, appendU64Be_length]
      decide
    | _ =>
      rw [hstage] at hsends
      exact hsends.elim

/-- A frame that was completed was sent. -/
theorem completed_sent {fd : Socket} {f : Frame} (hf : f ∈ completed peers fd tr) :
    ∃ tr₁ e bytes, tr₁ ++ [e] <+: tr ∧ e.label = .send fd f bytes := by
  have hall : ∀ f ∈ completed peers fd tr,
      ∃ tr₁ e bytes, tr₁ ++ [e] <+: tr ∧ e.label = .send fd f bytes := by
    refine Foundation.outputs_forall.mpr fun tr₁ e hpre f hout => ?_
    unfold completion at hout
    split at hout
    · rename_i fd' frame bytes hlabel
      split at hout
      · rename_i hdone
        cases hout
        exact ⟨tr₁, e, bytes, hpre, hdone.1 ▸ hlabel⟩
      · cases hout
    · cases hout
  exact hall f hf

/-- A frame that is under way was sent, and not all of it. -/
theorem under_sent {i : Nat} {fd : Socket} {f : Frame} {part : Bytes}
    (h : (places peers tr i).transit = .under fd f part) : part ≠ frameBytes f ∧
      ∃ tr₁ e bytes, tr₁ ++ [e] <+: tr ∧ e.label = .send fd f bytes := by
  induction tr using List.reverseRecOn with
  | nil => cases h
  | append_singleton tr e ih =>
    have hlift : (part ≠ frameBytes f ∧ ∃ tr₁ e bytes, tr₁ ++ [e] <+: tr ∧ e.label = .send fd f bytes) →
        part ≠ frameBytes f ∧ ∃ tr₁ e' bytes, tr₁ ++ [e'] <+: tr ++ [e] ∧ e'.label = .send fd f bytes := by
      rintro ⟨hne, tr₁, e', bytes, hpre, hsend⟩
      exact ⟨hne, tr₁, e', bytes, hpre.trans (List.prefix_append _ _), hsend⟩
    rw [places_concat] at h
    by_cases hthread : i = e.thread
    · subst hthread
      rw [Function.update_self] at h
      by_cases hsend : ∃ fd' frame bytes, e.label = .send fd' frame bytes
      · obtain ⟨fd', frame, bytes, hlabel⟩ := hsend
        rw [hlabel] at h
        dsimp only [Place.next] at h
        split at h
        · cases h
        unfold Place.conveyed at h
        split at h
        · cases h
        split at h
        · cases h
        · rename_i hne _
          cases h
          exact ⟨hne, tr, e, bytes, List.prefix_refl _, hlabel⟩
      · rw [Place.transit_next peers _ _ fun fd' frame bytes heq => hsend ⟨fd', frame, bytes, heq⟩] at h
        exact hlift (ih h)
    · rw [Function.update_of_ne hthread] at h
      exact hlift (ih h)

/-- **What a worker reads** is frames that were completed on its socket, in their order. -/
theorem worker_reads (h : CoordRuns peers store tr pool) (hsends : SendsUndisturbed peers tr)
    (hfits : ReceivesFit tr) {w : WorkerSlot} (hw : w ∈ pool.shared.workers) {fd : Socket}
    (hfd : w.fd = some fd) : (framesOf (pool.shared.channels fd).sent).1 <+: completed peers fd tr := by
  have hclient := (roster_history h).2.client_ne hw hfd
  obtain ⟨under, part, hsent, hcarried⟩ := written_history h hsends fd hclient
  have hsane : ∀ f ∈ completed peers fd tr, Sane f := by
    intro f hf
    obtain ⟨tr₁, e, bytes, hpre, hsend⟩ := completed_sent hf
    exact sends_sane h hfits hpre hsend hclient
  rw [hsent]
  refine TcpConnection.framesOf_sane hsane ?_
  cases hcarried with
  | nobody _ => exact TcpConnection.frameReader_nil
  | @one i frame _ ht _ hpart =>
    obtain ⟨hne, tr₁, e, bytes, hpre, hsend⟩ := under_sent ht
    exact TcpConnection.frameReader_part (sends_sane h hfits hpre hsend hclient) hpart hne

/-- The workers that are listed stay listed. -/
theorem workers_stay (h : CoordRuns peers store tr pool) (hpre : tr₁ ++ [e] <+: tr) {w : WorkerSlot}
    (hw : w ∈ e.before.workers) : w ∈ pool.shared.workers := by
  have hstay : ∀ e' : Event CoordStep Coordinator,
      coordExec peers e'.label e'.before = some e'.after → w ∈ e'.before.workers →
        w ∈ e'.after.workers := by
    intro e' hstep hbefore
    rw [(coordExec_eq_some.mp hstep).2, CoordStep.effect_workers]
    split
    · exact List.mem_append_left _ hbefore
    · exact hbefore
  obtain ⟨tr₂, rfl⟩ := hpre
  have hafter := hstay e (h.event_step e (by simp)) hw
  obtain ⟨-, ts, -, hrest⟩ := h.cut (List.append_assoc tr₁ [e] tr₂)
  exact (Foundation.Runs.invariant (I := fun s => w ∈ s.workers) hafter hrest fun e' he' hbefore =>
    hstay e' (hrest.event_step e' he') hbefore).2

theorem completed_mono (peers : Peers) (fd : Socket) (hpre : tr₁ <+: tr) :
    completed peers fd tr₁ <+: completed peers fd tr := by
  obtain ⟨tr₂, rfl⟩ := hpre
  induction tr₂ using List.reverseRecOn with
  | nil => rw [List.append_nil]
  | append_singleton tr₂ e ih =>
    rw [← List.append_assoc, completed_concat]
    exact ih.trans (List.prefix_append _ _)

theorem completed_length (peers : Peers) (fd : Socket) (tr : List (Event CoordStep Coordinator)) :
    (completed peers fd tr).length ≤ tr.length := by
  induction tr using List.reverseRecOn with
  | nil => exact le_rfl
  | append_singleton tr e ih =>
    have hone : (completion peers fd (places peers tr e.thread) e.label e.before).toList.length ≤ 1 := by
      cases completion peers fd (places peers tr e.thread) e.label e.before with
      | none => exact Nat.zero_le _
      | some f => exact le_rfl
    rw [completed_concat, List.length_append, List.length_append, List.length_singleton]
    omega

end Runs

/-! ## What a worker was asked, and what it answered -/

/-- A request that a worker accepts, and the key in it. -/
theorem Worker.accepted_buildRequest {boot : WorkerBootId} {w : Worker} {q : LookupRequest}
    {auth : DistAuthority} {k : KernelCompatibilityKey} {q' : DistBuildRequest}
    {k' : KernelCompatibilityKey} (hkey : q.keyCanonical.length ≤ kDistMaxFrameBytes)
    (hns : q.ns.length ≤ kDistMaxFrameBytes) (harch : k.arch.length ≤ kDistMaxFrameBytes)
    (hfrom : KernelCompatibilityKey.fromCanonical q.keyCanonical = .ok k)
    (h : w.accepted boot (Errand.buildRequest q auth k) = some (q', k')) : k' = k := by
  have hmax : kDistMaxFrameBytes < 2 ^ 64 := by decide
  have hdecode : decodeBuildRequest (Errand.buildRequest q auth k).2 {} =
      (.ok auth, ⟨auth, q.rid, q.keyCanonical, [], q.ns, k.arch⟩) :=
    decodeBuildRequest_encode auth q.rid (by omega) (by decide) (by omega) (by omega) {}
  unfold accepted at h
  rw [if_neg (fun hne => hne rfl), hdecode] at h
  dsimp only at h
  split at h
  · rw [hfrom] at h
    cases h
    rfl
  · cases h

section Hits

variable {peers : Peers} {store : FilePersistenceStore} {tr : List (Event CoordStep Coordinator)}
  {pool : Pool CoordStep Coordinator Unit} {env : Env} {boot : WorkerBootId} {fd : Socket}

/-- The frames that the worker was sent, with an answer of the worker among them. -/
def Answered (env : Env) (boot : WorkerBootId) (frames : List Frame) (d : Sha256Digest)
    (out : ArtifactId × ArtifactGeneration) : Prop :=
  ∃ ack x pre g post, frames = ack :: (pre ++ g :: post) ∧ Worker.register ack = some x ∧
    (pre.foldl (Worker.take env boot) { epoch := x, cache := Impl.initial {} }).Answers env boot g d out

/-- **A reply that is read is the worker's answer**, to the request of the thread that reads it. -/
theorem Backed.answered (h : CoordRuns peers store tr pool) (hsends : SendsUndisturbed peers tr)
    (hfits : ReceivesFit tr)
    (hworker : ∀ c f, peers.frame fd c = some f → Worker.replyOn env boot c = some f) {d : Sha256Digest}
    {id : ArtifactId} {gen : ArtifactGeneration} (hbacked : Backed peers tr fd d id gen) :
    Answered env boot (completed peers fd tr) d (id, gen) := by
  obtain ⟨tr₁, e, hpre, hread, ⟨w, hw, hwfd⟩, ⟨q, auth, k, hasks, rfl, hwaits⟩, out, hreply, rfl, rfl⟩ :=
    hbacked
  have hpre' : tr₁ <+: tr := (List.prefix_append _ _).trans hpre
  have hordered := ((ordered_history h hsends.unbroken).1 tr₁ e hpre).1
  obtain ⟨earlier, hlast, hlen⟩ := (hordered.counted fd).last hordered.mutex.alone hwaits
  have hreceived : ReceivesFit tr₁ := fun e' he' => hfits e' (hpre'.subset he')
  -- what the worker has read by now
  have hreads : (framesOf (e.before.channels fd).sent).1 <+: completed peers fd tr₁ := by
    obtain ⟨tr₂, hsplit⟩ := hpre
    obtain ⟨⟨ts, hbefore⟩, -⟩ := h.cut ((List.append_assoc tr₁ [e] tr₂).symm.trans hsplit).symm
    exact worker_reads hbefore (fun tr₃ e' hpre₃ => hsends tr₃ e' (hpre₃.trans hpre')) hreceived hw hwfd
  -- the frame that is read is one of its replies
  cases hframe : e.before.incoming peers fd with
  | none =>
    rw [hframe] at hreply
    cases hreply
  | some f =>
    rw [hframe] at hreply
    obtain ⟨w₁, hprocess, hnth⟩ := Option.bind_eq_some_iff.mp (hworker _ f hframe)
    cases hframes : (framesOf (e.before.channels fd).sent).1 with
    | nil =>
      rw [hframes] at hprocess
      cases hprocess
    | cons ack frames =>
      rw [hframes] at hprocess hreads
      obtain ⟨x, hregister, rfl⟩ := Option.map_eq_some_iff.mp hprocess
      rw [← Nat.zero_add (e.before.channels fd).reads] at hnth
      obtain ⟨pre, g, post, rfl, hg, hcount, hrunning, hreplies⟩ :=
        Worker.request_of_reply env boot { epoch := x, cache := Impl.initial {} } hnth
      obtain ⟨more, hmore⟩ := hreads.trans (completed_mono peers fd hpre')
      obtain ⟨more₁, hmore₁⟩ := hreads
      -- it answers the request of this thread: they have the same number
      have hsame : g = Errand.buildRequest q auth k := by
        have hack : isRequest ack = false := by
          unfold Worker.register at hregister
          split at hregister
          · cases hregister
          · rename_i hcode
            rw [isRequest, Decidable.not_not.mp hcode]
            decide
        have hrequests : requestsOn peers tr₁ fd =
            pre.filter isRequest ++ g :: (post ++ more₁).filter isRequest := by
          rw [requestsOn, ← hmore₁, List.cons_append, List.filter_cons_of_neg (by rw [hack]; decide),
            List.append_assoc, List.cons_append, List.filter_append, List.filter_cons_of_pos hg]
        rw [hlast] at hrequests
        exact (List.cons.inj (List.append_inj hrequests (hlen.trans hcount.symm)).2).1.symm
      subst hsame
      obtain ⟨q', k', haccepted, hanswers⟩ := Worker.answers_of_success hrunning hreplies hreply
      obtain ⟨hkey, hns, harch⟩ := hasks.sane fun f hf => hand_fits hreceived e.thread hf
      obtain rfl := Worker.accepted_buildRequest hkey hns harch hasks.2 haccepted
      exact ⟨ack, x, pre, _, post ++ more, by rw [← hmore]; simp, hregister, hanswers⟩

/-- Answers of one worker: one artifact for one digest. -/
theorem Answered.names {F : Type} {host : CpuBackend.Host F} {frames : List Frame}
    (hcpu : env.backends = [makeCpuBackend host]) (hclosed : env.cfg.persistenceOpen = false)
    (hshort : frames.length < 2 ^ 64) {d d' : Sha256Digest} {out out' : ArtifactId × ArtifactGeneration}
    (h : Answered env boot frames d out) (h' : Answered env boot frames d' out') :
    (out.1 = out'.1 ↔ d = d') ∧ (d = d' → out = out') := by
  obtain ⟨ack, x, pre, g, post, rfl, hregister, hanswers⟩ := h
  obtain ⟨ack', x', pre', g', post', hframes, hregister', hanswers'⟩ := h'
  obtain ⟨rfl, hrest⟩ := List.cons.inj hframes
  rw [hregister] at hregister'
  cases hregister'
  rw [List.length_cons] at hshort
  obtain ⟨t, hnumbered, -, hall, -⟩ := Worker.answered_table hcpu hclosed x (Nat.lt_of_succ_lt hshort)
  have hout := hall pre g post rfl d out hanswers
  have hout' := hall pre' g' post' hrest d' out' hanswers'
  have hnames : d = d' → out = out' := by
    rintro rfl
    exact Option.some.inj (hout.symm.trans hout')
  refine ⟨⟨fun hid => hnumbered.injective hout hout' ?_, fun heq => congrArg Prod.fst (hnames heq)⟩, hnames⟩
  rw [← (hnumbered.below hout).2, hid, (hnumbered.below hout').2]

/-- A `::send` of a lookup response that is a hit: the key that was looked up, and the artifact. -/
def Errand.hit (er : Errand) (l : CoordStep) :
    Option (KernelCompatibilityKey × ArtifactId × ArtifactGeneration) :=
  match l, er.frame with
  | .send _ (type, payload) _, some (type', p) =>
    let r := (decodeLookupResponse payload {}).2
    if type = DistMsgType.lookupResp.code ∧ type' = DistMsgType.lookupReq.code ∧ r.outcome = 0x00 then
      (KernelCompatibilityKey.fromCanonical (decodeLookupRequest p {}).2.keyCanonical).toOption.map
        fun k => (k, r.id, r.gen)
    else none
  | _, _ => none

/-- The hits that clients were answered. -/
def hits (peers : Peers) (tr : List (Event CoordStep Coordinator)) :
    List (KernelCompatibilityKey × ArtifactId × ArtifactGeneration) :=
  Foundation.outputs (Errand.next peers) (fun er l _ => er.hit l) (fun _ => {}) tr

/-- The keys of the hits are finalized. -/
theorem hits_finalized : ∀ hit ∈ hits peers tr, hit.1.wellFormed = true ∧ hit.1.finalize = hit.1 := by
  refine Foundation.outputs_forall.mpr fun tr₁ e hpre hit hout => ?_
  change (errands peers tr₁ e.thread).hit e.label = some hit at hout
  unfold Errand.hit at hout
  split at hout
  · dsimp only at hout
    split at hout
    · obtain ⟨k, hkey, rfl⟩ := Option.map_eq_some_iff.mp hout
      cases hfrom : KernelCompatibilityKey.fromCanonical _ with
      | error e =>
        rw [hfrom] at hkey
        cases hkey
      | ok k' =>
        rw [hfrom] at hkey
        cases hkey
        exact KernelCompatibilityKey.fromCanonical_wellFormed hfrom
    · cases hout
  · cases hout

/-- Every hit was read from a worker. -/
theorem backed_of_hit (h : CoordRuns peers store tr pool) :
    ∀ hit ∈ hits peers tr, ∃ fd, Backed peers tr fd hit.1.digest hit.2.1 hit.2.2 := by
  refine Foundation.outputs_forall.mpr fun tr₁ e hpre hit hout => ?_
  change (errands peers tr₁ e.thread).hit e.label = some hit at hout
  unfold Errand.hit at hout
  split at hout
  · rename_i fd type payload bytes type' p hsend hframe
    dsimp only at hout
    split at hout
    · rename_i htypes
      obtain ⟨rfl, rfl, houtcome⟩ := htypes
      obtain ⟨k, hkey, rfl⟩ := Option.map_eq_some_iff.mp hout
      obtain ⟨p', a, hframe', rfl, horigins⟩ := answer_origins h hpre hsend
      rw [hframe] at hframe'
      cases hframe'
      rw [lookupResponse, decodeLookupResponse_encode] at houtcome ⊢
      obtain ⟨id, gen, rfl, q, auth, k', ⟨⟨p', hp', hdecode⟩, hkey'⟩, worker, hbacked⟩ :=
        horigins houtcome
      rw [hframe] at hp'
      cases hp'
      rw [hdecode, hkey'] at hkey
      cases hkey
      exact ⟨worker, hbacked.mono ((List.prefix_append _ _).trans hpre)⟩
    · cases hout
  · cases hout

/-- **One artifact for one digest.** A coordinator, and one worker process with the CPU backend behind it,
on a connection that may be lost at any time.  Whatever the interleaving of the connections, as long as
sends are made in their turn: any two hits that clients are answered, on whatever connections and in
whatever epochs, name the same artifact if and only if they are for the same digest, and then of the same
generation. -/
theorem hits_name_digests {F : Type} {host : CpuBackend.Host F}
    (hcpu : env.backends = [makeCpuBackend host]) (hclosed : env.cfg.persistenceOpen = false)
    (h : CoordRuns peers store tr pool) (hturn : SendsInTurn peers tr) (hfits : ReceivesFit tr)
    (hshort : tr.length < 2 ^ 64)
    (hone : ∀ w ∈ pool.shared.workers, ∀ fd', w.fd = some fd' → fd' = fd)
    (hworker : ∀ c f, peers.frame fd c = some f → Worker.replyOn env boot c = some f)
    {k k' : KernelCompatibilityKey} {id id' : ArtifactId} {gen gen' : ArtifactGeneration}
    (hhit : (k, id, gen) ∈ hits peers tr) (hhit' : (k', id', gen') ∈ hits peers tr) :
    (id = id' ↔ k.digest = k'.digest) ∧ (k.digest = k'.digest → gen = gen') := by
  have hanswered : ∀ {k id gen}, (k, id, gen) ∈ hits peers tr →
      Answered env boot (completed peers fd tr) k.digest (id, gen) := by
    intro k id gen hhit
    obtain ⟨fd', hbacked⟩ := backed_of_hit h _ hhit
    have hread := hbacked
    obtain ⟨tr₁, e, hpre, -, ⟨w, hw, hwfd⟩, -⟩ := hread
    obtain rfl := hone w (workers_stay h hpre hw) fd' hwfd
    exact hbacked.answered h hturn.undisturbed hfits hworker
  have hlen : (completed peers fd tr).length < 2 ^ 64 :=
    Nat.lt_of_le_of_lt (completed_length peers fd tr) hshort
  obtain ⟨hids, hnames⟩ :=
    Answered.names hcpu hclosed hlen (hanswered hhit) (hanswered hhit')
  exact ⟨hids, fun heq => congrArg Prod.snd (hnames heq)⟩

end Hits

/-! ## A worker that is asked for new keys -/

/-- A key for the CPU backend, or for none, that goes through a frame as it is. -/
structure KernelCompatibilityKey.Plain (k : KernelCompatibilityKey) : Prop where
  decodes : fromCanonical k.canonical = .ok k
  backend : k.runtimeBackend = []
  arch : k.arch = []
  short : k.canonical.length ≤ 1000

theorem KernelCompatibilityKey.plain_finalize {k : KernelCompatibilityKey} (hkey : k.wellFormed = true)
    (hsized : k.toKeyFields.Sized) (hbackend : k.runtimeBackend = []) (harch : k.arch = [])
    (hshort : k.finalize.canonical.length ≤ 1000) : k.finalize.Plain where
  decodes := fromCanonical_finalize hkey hsized
  backend := by rwa [finalize_of_wellFormed hkey]
  arch := by rwa [finalize_of_wellFormed hkey]
  short := hshort

/-- A finalized key is given by its fields. -/
theorem KernelCompatibilityKey.eq_of_fields {k k' : KernelCompatibilityKey}
    (hk : k.wellFormed = true ∧ k.finalize = k) (hk' : k'.finalize = k')
    (h : k.toKeyFields = k'.toKeyFields) : k = k' := by
  have hkey' : k'.wellFormed = true := h ▸ hk.1
  rw [← hk.2, ← hk', finalize_of_wellFormed hk.1, finalize_of_wellFormed hkey', h]

namespace Worker

/-- The request for a key, as a coordinator in its first epoch writes it. -/
def requestFor (boot : WorkerBootId) (k : KernelCompatibilityKey) : Frame :=
  Errand.buildRequest { keyCanonical := k.canonical } { epoch := 1, cacheGen := 1, boot := boot } k

/-- What a worker decodes it to. -/
def askedFor (boot : WorkerBootId) (k : KernelCompatibilityKey) : DistBuildRequest :=
  ⟨{ epoch := 1, cacheGen := 1, boot := boot }, {}, k.canonical, [], [], k.arch⟩

/-- What it is sent until it has been asked for some keys. -/
def streamOf (wid : WorkerId) (boot : WorkerBootId) (ks : List KernelCompatibilityKey) : Bytes :=
  ((DistMsgType.registerAckC.code, encodeRegisterAck 1 wid 1) :: ks.map (requestFor boot)).flatMap
    frameBytes

theorem accepted_requestFor {boot : WorkerBootId} {k : KernelCompatibilityKey} (hk : k.Plain) {w : Worker}
    (hw : w.epoch = 1) : w.accepted boot (requestFor boot k) = some (askedFor boot k, k) := by
  have hlen := hk.short
  have hdecode : decodeBuildRequest (requestFor boot k).2 {} =
      (.ok { epoch := 1, cacheGen := 1, boot := boot }, askedFor boot k) :=
    decodeBuildRequest_encode { epoch := 1, cacheGen := 1, boot := boot } {}
      (show k.canonical.length < 2 ^ 64 by omega) (show ([] : Str).length < 2 ^ 64 by decide)
      (show ([] : Str).length < 2 ^ 64 by decide) (by rw [hk.arch]; decide) {}
  have hcode : (requestFor boot k).1 = DistMsgType.buildReq.code := rfl
  simp only [accepted, hcode, ne_eq, not_true_eq_false, if_false, hdecode, hw, askedFor, hk.decodes,
    and_self, if_true, Except.toOption, Option.map_some]

theorem fits_requestFor {boot : WorkerBootId} {k : KernelCompatibilityKey} (hk : k.Plain) :
    TcpConnection.Fits (requestFor boot k) := by
  have hlen := hk.short
  have hmax : kDistMaxFrameBytes - kDistHeaderBytes = 67108856 := rfl
  unfold TcpConnection.Fits requestFor Errand.buildRequest encodeBuildRequest
  simp only [encodeAuthority, appendSized, List.length_append, List.length_cons, List.length_nil,
    appendU64Be_length, appendId_length, hk.arch]
  omega

/-- The replies of a process that has been asked for keys of different digests. -/
theorem replyOn_new {wid : WorkerId} {boot : WorkerBootId} {ks : List KernelCompatibilityKey}
    (hplain : ∀ k ∈ ks, k.Plain) (hdistinct : (ks.map KernelCompatibilityKey.digest).Nodup)
    (hshort : ks.length < 2 ^ 64) {c : Channel} (hsent : c.sent = streamOf wid boot ks) :
    replyOn cpuEnv boot c = (newReplies 0 (ks.map fun k => (askedFor boot k, k)))[c.reads]? := by
  have hfits : ∀ f ∈ (DistMsgType.registerAckC.code, encodeRegisterAck 1 wid 1) ::
      ks.map (requestFor boot), TcpConnection.Fits f := by
    intro f hf
    rcases List.mem_cons.mp hf with rfl | hf
    · unfold TcpConnection.Fits encodeRegisterAck
      simp only [List.length_append, List.length_cons, List.length_nil, appendU64Be_length]
      decide
    · obtain ⟨k, hk, rfl⟩ := List.mem_map.mp hf
      exact fits_requestFor (hplain k hk)
  have hframes := TcpConnection.framesOf_append hfits TcpConnection.frameReader_nil
  rw [List.append_nil] at hframes
  have hregister : register (DistMsgType.registerAckC.code, encodeRegisterAck 1 wid 1) = some 1 := by
    simp only [register, ne_eq, not_true_eq_false, if_false, decodeRegisterAck_encode, if_true]
  let requests := ks.map fun k => (requestFor boot k, askedFor boot k, k)
  have hreplies : ((requests.map Prod.fst).foldl (take cpuEnv boot) registered).replies =
      registered.replies ++ newReplies 0 (requests.map Prod.snd) := by
    refine foldl_take_new cpuEnv_backends rfl (fun _ _ => rfl)
      (fun _ => by simp [CpuBackend.wholeNumbers]) (tracks_registered 1) ?_ ?_ ?_ (fun _ _ => rfl) ?_
    · rw [List.length_map, Nat.zero_add]
      exact hshort
    · intro r hr w' hw'
      obtain ⟨k, hk, rfl⟩ := List.mem_map.mp hr
      exact accepted_requestFor (hplain k hk) hw'
    · intro r hr
      obtain ⟨k, hk, rfl⟩ := List.mem_map.mp hr
      exact .inr (hplain k hk).backend
    · rw [List.map_map]
      exact hdistinct
  rw [List.map_map, List.map_map] at hreplies
  unfold replyOn
  rw [hsent, streamOf, hframes]
  dsimp only
  rw [process, hregister, Option.map_some, Option.bind_some]
  exact congrArg (fun replies => replies[c.reads]?) hreplies

/-- The replies to some sequences of new keys are known. -/
def knownReply (wid : WorkerId) (boot : WorkerBootId) (known : List (List KernelCompatibilityKey))
    (c : Channel) : Option Frame :=
  match known.find? fun ks => c.sent == streamOf wid boot ks with
  | some ks => (newReplies 0 (ks.map fun k => (askedFor boot k, k)))[c.reads]?
  | none => replyOn cpuEnv boot c

theorem knownReply_eq {wid : WorkerId} {boot : WorkerBootId} {known : List (List KernelCompatibilityKey)}
    (hplain : ∀ ks ∈ known, ∀ k ∈ ks, k.Plain)
    (hdistinct : ∀ ks ∈ known, (ks.map KernelCompatibilityKey.digest).Nodup)
    (hshort : ∀ ks ∈ known, ks.length < 2 ^ 64) : knownReply wid boot known = replyOn cpuEnv boot := by
  funext c
  unfold knownReply
  split
  · rename_i ks hfound
    have hmem := List.mem_of_find?_eq_some hfound
    have hsent := List.find?_some hfound
    exact (replyOn_new (hplain ks hmem) (hdistinct ks hmem) (hshort ks hmem) (by simpa using hsent)).symm
  · rfl

end Worker

/-! ## Two keys -/

/-- A worker with the CPU backend behind the first socket. -/
def cpuWorker : Peers := { frame := fun _ c => Worker.replyOn Worker.cpuEnv {} c }

/-- Matrices of three rows and three columns. -/
def matrixKey : KernelCompatibilityKey := KernelCompatibilityKey.finalize { shape := [3, 3] }

def lookupOf (k : KernelCompatibilityKey) : Frame :=
  (DistMsgType.lookupReq.code, encodeLookupRequest { epoch := 1, cacheGen := 1 } {} [] k.canonical [] 0)

/-- A worker registers; a client looks each of two keys up twice, and the second request for a key goes
to the worker. -/
def twoKeys : List ConnMove :=
  .connect [registration] :: List.replicate 6 (.step 0) ++
    .connect [lookupOf Worker.vectorKey, lookupOf Worker.vectorKey, lookupOf matrixKey,
      lookupOf matrixKey] :: List.replicate 59 (.step 1)

/-- A key with dimensions and a model revision. -/
theorem shaped_sized {dims : List Int64} {revision : Str} (hdims : dims.length < 256 ^ 4)
    (hrevision : revision.length < 256 ^ 8) :
    ({ shape := dims, modelRevision := revision } : KernelCompatibilityKey).toKeyFields.Sized := by
  unfold KeyFields.Sized KeyFields.fields
  simp only [List.forall_mem_cons, List.not_mem_nil, false_imp_iff, implies_true, and_true, true_and,
    KeyField.Sized, KeyField.StrsSized, KeyField.StrSized, List.length_nil, hdims, hrevision]
  decide

theorem vectorKey_plain : Worker.vectorKey.Plain :=
  KernelCompatibilityKey.plain_finalize (by decide) (shaped_sized (by decide) (by decide)) rfl rfl
    (by decide +kernel)

theorem matrixKey_plain : matrixKey.Plain :=
  KernelCompatibilityKey.plain_finalize (by decide) (shaped_sized (by decide) (by decide)) rfl rfl
    (by decide +kernel)

theorem vectorKey_ne_matrixKey : Worker.vectorKey.digest ≠ matrixKey.digest := by
  decide +kernel

/-- What the worker replies is known for as long as it has been asked for these keys. -/
theorem cpuWorker_eq : cpuWorker =
    { frame := fun _ => Worker.knownReply 1 {} [[Worker.vectorKey], [Worker.vectorKey, matrixKey]] } := by
  unfold cpuWorker
  rw [Worker.knownReply_eq]
  · simp only [List.forall_mem_cons, List.not_mem_nil, false_imp_iff, implies_true, and_true]
    exact ⟨vectorKey_plain, vectorKey_plain, matrixKey_plain⟩
  · simp [vectorKey_ne_matrixKey]
  · simp

/-- The client is answered a hit for each key, on two artifacts. -/
theorem hits_name_digests_twoKeys : ∃ tr pool k k' id id' gen gen', CoordRuns cpuWorker {} tr pool ∧
    SendsInTurn cpuWorker tr ∧ (k, id, gen) ∈ hits cpuWorker tr ∧ (k', id', gen') ∈ hits cpuWorker tr ∧
    id ≠ id' := by
  have hplay : (playConns cpuWorker {} twoKeys).map (fun out =>
      (decide ((∀ e ∈ out.1, e.thread < 2) ∧ (∀ e ∈ out.1, ∀ f ∈ e.label.received,
          f.2.length ≤ kDistMaxFrameBytes - kDistHeaderBytes) ∧ out.1.length < 2 ^ 64),
        decide (Foundation.Throughout (Place.next cpuWorker) (InTurnAmong cpuWorker 2) (fun _ => {}) out.1),
        out.2.shared.workers,
        decide (((hits cpuWorker out.1).map fun hit => hit.1.toKeyFields) =
          [Worker.vectorKey.toKeyFields, Worker.vectorKey.toKeyFields, matrixKey.toKeyFields,
            matrixKey.toKeyFields]))) = some (true, true, [firstWorker], true) := by
    rw [cpuWorker_eq]
    decide +kernel
  obtain ⟨⟨tr, pool⟩, hplay, hout⟩ := Option.map_eq_some_iff.mp hplay
  obtain ⟨hevents, hout⟩ := Prod.mk.inj hout
  obtain ⟨hthreads, hfits, hshort⟩ := of_decide_eq_true hevents
  obtain ⟨hamong, hout⟩ := Prod.mk.inj hout
  obtain ⟨hworkers, hhits⟩ := Prod.mk.inj hout
  have hruns : CoordRuns cpuWorker {} tr pool := CoordRuns.of_play hplay
  have hturn := sendsInTurn_of_among hthreads (of_decide_eq_true hamong)
  have hone : ∀ w ∈ pool.shared.workers, ∀ fd', w.fd = some fd' → fd' = 0 := by
    intro w hw fd' hfd
    rw [hworkers] at hw
    obtain rfl := List.mem_singleton.mp hw
    exact (Option.some.inj hfd).symm
  have hfields := of_decide_eq_true hhits
  have hvector : Worker.vectorKey.toKeyFields ∈ (hits cpuWorker tr).map fun hit => hit.1.toKeyFields := by
    rw [hfields]
    exact List.mem_cons_self
  have hmatrix : matrixKey.toKeyFields ∈ (hits cpuWorker tr).map fun hit => hit.1.toKeyFields := by
    rw [hfields]
    exact List.mem_cons_of_mem _ (List.mem_cons_of_mem _ List.mem_cons_self)
  obtain ⟨⟨k, id, gen⟩, hhit, hk⟩ := List.mem_map.mp hvector
  obtain ⟨⟨k', id', gen'⟩, hhit', hk'⟩ := List.mem_map.mp hmatrix
  obtain rfl : k = Worker.vectorKey := KernelCompatibilityKey.eq_of_fields (hits_finalized _ hhit)
    (KernelCompatibilityKey.finalize_finalize _) hk
  obtain rfl : k' = matrixKey := KernelCompatibilityKey.eq_of_fields (hits_finalized _ hhit')
    (KernelCompatibilityKey.finalize_finalize _) hk'
  refine ⟨tr, pool, _, _, id, id', gen, gen', hruns, hturn, hhit, hhit', fun hid => ?_⟩
  have hnames := hits_name_digests Worker.cpuEnv_backends rfl hruns hturn hfits hshort hone
    (fun _ _ hframe => hframe) hhit hhit'
  exact vectorKey_ne_matrixKey (hnames.1.mp hid)

end KernelCache
