/-
# KernelCache.ReplyOrder — which request a reply is for.

`dispatch_build` writes a request to a worker and takes the next frame on the socket for its reply.  The
request id in the reply is not compared, so a reply is for the request only because of the order: the
dispatch mutex lets one request out at a time, and whoever has written one reads a frame before the mutex
is free again.

`Ordered` counts that.  On each socket the frames that were read are as many as the requests that were
written, or one fewer while a thread waits for the reply to the last of them.  So the reply that is read
has the number of the request of the thread that reads it (`replies_in_order`).

It takes sends that do not fail in the middle of a frame (`SendsUnbroken`): a request that stops there
leaves the socket with a part of a frame, and then nothing on it can be counted any more.
-/
import KernelCache.HitOrigins
import KernelCache.WorkerStreams

namespace KernelCache

open Foundation (Bytes Event Pool Guards)
open TcpConnection (frameBytes)

/-- The frame asks for a build. -/
def isRequest (f : Frame) : Bool := f.1 == DistMsgType.buildReq.code

theorem isRequest_iff {f : Frame} : isRequest f = true ↔ f.1 = DistMsgType.buildReq.code :=
  beq_iff_eq

/-! ## One request at a time -/

/-- The octets of a request that is under way. -/
def Transit.requested : Transit → Bytes
  | clear => []
  | under _ frame done => if isRequest frame then done else []

/-- What the thread has asked for is under way, or all of it is written. -/
def Matched (pl : Place) (er : Errand) : Prop :=
  er.asked = pl.transit.requested ∨
    pl.transit.requested = [] ∧
      ∃ q auth k, er.Asks q auth k ∧ er.asked = frameBytes (Errand.buildRequest q auth k)

/-- The requests that were written on the socket, against the frames that were read from it. -/
def Counted (P : Nat → Errand) (s : Coordinator) (fd : Socket) (requests : List Frame) : Prop :=
  (∀ i frame, ¬ (P i).Awaits fd frame) ∧ requests.length = (s.channels fd).reads ∨
    ∃ i frame earlier, (P i).Awaits fd frame ∧ requests = earlier ++ [frame] ∧
      earlier.length = (s.channels fd).reads

namespace Errand

variable {er : Errand} {fd fd' : Socket} {frame frame' : Frame} {peers : Peers} {l : CoordStep}
  {s : Coordinator}

theorem Requests.isRequest (h : er.Requests fd frame) : KernelCache.isRequest frame = true := by
  obtain ⟨-, -, -, q, auth, k, -, rfl⟩ := h
  rfl

/-- A thread asks one worker for one build. -/
theorem Requests.unique (h : er.Requests fd frame) (h' : er.Requests fd' frame') :
    fd = fd' ∧ frame = frame' := by
  obtain ⟨-, hfd, -, q, auth, k, hasks, rfl⟩ := h
  obtain ⟨-, hfd', -, q', auth', k', hasks', rfl⟩ := h'
  obtain ⟨rfl, rfl, rfl⟩ := hasks.unique hasks'
  exact ⟨Option.some.inj (hfd.symm.trans hfd'), rfl⟩

/-- A thread that is still writing does not wait. -/
theorem not_awaits_of_more {bytes : Bytes} (h : er.Requests fd frame) (hne : bytes ≠ [])
    (hpre : er.asked ++ bytes <+: frameBytes frame) : ¬ er.Awaits fd' frame' := by
  rintro ⟨hrequests, hasked⟩
  obtain ⟨-, rfl⟩ := h.unique hrequests
  rw [hasked] at hpre
  have hle := hpre.length_le
  rw [List.length_append] at hle
  exact hne (List.length_eq_zero_iff.mp (by omega))

theorem not_awaits_of_free (h : er.holding = false) : ¬ er.Awaits fd frame := by
  rintro ⟨hrequests, -⟩
  rw [hrequests.1] at h
  cases h

theorem not_awaits_of_nothing (h : er.asked = []) : ¬ er.Awaits fd frame := by
  rintro ⟨-, hasked⟩
  exact TcpConnection.frameBytes_ne_nil frame (hasked.symm.trans h)

/-- A thread begins to wait with a `::send`, and stops with a frame that is read. -/
theorem awaits_next (hok : er.ok l) (hsend : ∀ fd frame bytes, l ≠ .send fd frame bytes)
    (hread : ∀ fd, l ≠ .readFrame fd) : (er.next peers l s).Awaits fd frame ↔ er.Awaits fd frame := by
  cases l with
  | send fd frame bytes => exact absurd rfl (hsend fd frame bytes)
  | readFrame fd => exact absurd rfl (hread fd)
  | receive fd' frame' =>
    exact iff_of_false (not_awaits_of_nothing rfl) (not_awaits_of_free hok)
  | lockDispatch =>
    have hnothing : (er.next peers .lockDispatch s).asked = [] := hok.2
    exact iff_of_false (not_awaits_of_nothing hnothing) (not_awaits_of_free hok.1)
  | unlockDispatch => exact iff_of_false (not_awaits_of_free rfl) (hok.2 fd frame)
  | pickWorker boot =>
    have hnothing : (er.next peers (.pickWorker boot) s).asked = [] := hok.2
    exact iff_of_false (not_awaits_of_nothing hnothing) (not_awaits_of_nothing hok.2)
  | cache l => cases l <;> exact Iff.rfl
  | _ => exact Iff.rfl

end Errand

/-! ### What is asked for, and what is under way -/

namespace Matched

variable {pl : Place} {er : Errand} {peers : Peers} {l : CoordStep} {s : Coordinator} {fd : Socket}
  {frame : Frame} {bytes : Bytes}

/-- While a thread writes a request, what it has asked for is what is under way. -/
theorem asked_eq (h : Matched pl er) (hfits : pl.transit.Fits fd frame) (hrequests : er.Requests fd frame)
    (hne : bytes ≠ []) (hpre : er.asked ++ bytes <+: frameBytes frame) :
    er.asked = pl.transit.done := by
  rcases h with hasked | ⟨-, q, auth, k, hasks, hall⟩
  · rw [hasked]
    cases ht : pl.transit with
    | clear => rfl
    | under fd' frame' done =>
      rw [ht] at hfits
      obtain ⟨-, rfl⟩ := hfits
      exact if_pos hrequests.isRequest
  · have hwaits : ¬ er.Awaits fd (Errand.buildRequest q auth k) :=
      Errand.not_awaits_of_more hrequests hne hpre
    obtain ⟨hhold, hworker, hreply, -⟩ := hrequests
    exact absurd ⟨⟨hhold, hworker, hreply, q, auth, k, hasks, rfl⟩, hall⟩ hwaits

/-- A `::send` of a request. -/
theorem request (h : Matched pl er) (hfits : pl.transit.Fits fd frame)
    (hrequests : er.Requests fd frame) (hne : bytes ≠ [])
    (hpre : er.asked ++ bytes <+: frameBytes frame)
    (hfails : s.taken peers fd bytes = 0 → pl.transit = .clear) :
    Matched (pl.next peers (.send fd frame bytes) s) (er.next peers (.send fd frame bytes) s) := by
  have hasked := h.asked_eq hfits hrequests hne hpre
  have hwrote : er.wrote frame (bytes.take (s.taken peers fd bytes)) = _ :=
    Errand.wrote_request (isRequest_iff.mp hrequests.isRequest) _
  dsimp only [Place.next, Errand.next]
  rw [hwrote]
  by_cases hzero : s.taken peers fd bytes = 0
  · rw [if_pos hzero, hzero, List.take_zero, List.append_nil, hasked, hfails hzero]
    exact .inl rfl
  rw [if_neg hzero, hasked]
  generalize pl.transit.done ++ bytes.take (s.taken peers fd bytes) = done
  unfold Place.conveyed
  by_cases hdone : done = frameBytes frame
  · rw [if_pos hdone]
    obtain ⟨-, -, -, q, auth, k, hasks, rfl⟩ := hrequests
    exact .inr ⟨rfl, q, auth, k, hasks, hdone⟩
  rw [if_neg hdone]
  by_cases hnil : done = []
  · rw [if_pos hnil]
    exact .inl hnil
  · rw [if_neg hnil]
    exact .inl (if_pos hrequests.isRequest).symm

/-- A `::send` of another frame. -/
theorem other (h : Matched pl er) (hfits : pl.transit.Fits fd frame) (hframe : isRequest frame = false) :
    Matched (pl.next peers (.send fd frame bytes) s) (er.next peers (.send fd frame bytes) s) := by
  have hcode : frame.1 ≠ DistMsgType.buildReq.code := fun h => by
    rw [isRequest_iff.mpr h] at hframe
    cases hframe
  have hbefore : pl.transit.requested = [] := by
    cases ht : pl.transit with
    | clear => rfl
    | under fd' frame' done =>
      rw [ht] at hfits
      obtain ⟨-, rfl⟩ := hfits
      exact if_neg (by rw [hframe]; exact Bool.false_ne_true)
  have hafter : (pl.next peers (.send fd frame bytes) s).transit.requested = [] := by
    dsimp only [Place.next]
    split
    · rfl
    · unfold Place.conveyed
      split
      · rfl
      split
      · rfl
      · exact if_neg (by rw [hframe]; exact Bool.false_ne_true)
  unfold Matched at h ⊢
  rw [hbefore] at h
  rw [hafter, Errand.next, Errand.wrote_other hcode]
  exact h

/-- Another section. -/
theorem quiet (h : Matched pl er) (hplace : pl.ok l) (hsend : ∀ fd frame bytes, l ≠ .send fd frame bytes) :
    Matched (pl.next peers l s) (er.next peers l s) := by
  have htransit := Place.transit_next peers pl s hsend
  have hclear : pl.transit = .clear := by
    rcases hplace.2 with hclear | ⟨fd, frame, bytes, hl⟩
    · exact hclear
    · exact absurd hl (hsend fd frame bytes)
  have hsame : ∀ er' : Errand, er'.frame = er.frame → er'.asked = er.asked →
      Matched (pl.next peers l s) er' := by
    intro er' hframe hasked
    unfold Matched at h ⊢
    rw [htransit, hasked]
    refine h.imp_right ?_
    rintro ⟨hnone, q, auth, k, hasks, hall⟩
    exact ⟨hnone, q, auth, k, hasks.congr hframe, hall⟩
  cases l with
  | send fd frame bytes => exact absurd rfl (hsend fd frame bytes)
  | receive fd frame =>
    refine .inl ?_
    rw [htransit, hclear]
    rfl
  | cache l => cases l <;> exact hsame _ rfl rfl
  | _ => exact hsame _ rfl rfl

end Matched

/-! ### Requests against replies -/

/-- The frames that were read from a socket. -/
theorem CoordStep.effect_reads (peers : Peers) (s : Coordinator) {l : CoordStep} {fd : Socket}
    (hl : l ≠ .readFrame fd) : ((l.effect peers s).channels fd).reads = (s.channels fd).reads := by
  cases l with
  | send fd' frame bytes =>
    by_cases hfd : fd = fd'
    · subst hfd
      rw [effect, Coordinator.onChannel_self]
      rfl
    · rw [effect, Coordinator.onChannel_other s hfd]
  | readFrame fd' =>
    have hfd : fd ≠ fd' := by
      rintro rfl
      exact hl rfl
    rw [effect, Coordinator.onChannel_other s hfd]
  | _ => rfl

/-- What a thread has asked for, with the mutex of the dispatch. -/
structure Ordered (P : Nat → Errand) (pl : Nat → Place) (s : Coordinator)
    (requests : Socket → List Frame) : Prop where
  mutex : Guards s.dispatchHeld fun i => (P i).holding
  matched : ∀ i, Matched (pl i) (P i)
  counted : ∀ fd, Counted P s fd (requests fd)

namespace Counted

variable {P P' : Nat → Errand} {s s' : Coordinator} {fd : Socket} {requests : List Frame}

/-- Nobody begins or stops to wait. -/
theorem same (h : Counted P s fd requests) (hreads : (s'.channels fd).reads = (s.channels fd).reads)
    (hawaits : ∀ i frame, (P' i).Awaits fd frame ↔ (P i).Awaits fd frame) :
    Counted P' s' fd requests := by
  rcases h with ⟨hnobody, hlen⟩ | ⟨i, frame, earlier, hwaits, hlast, hlen⟩
  · exact .inl ⟨fun i frame h => hnobody i frame ((hawaits i frame).mp h), hlen.trans hreads.symm⟩
  · exact .inr ⟨i, frame, earlier, (hawaits i frame).mpr hwaits, hlast, hlen.trans hreads.symm⟩

/-- **What a thread waits for** is the reply to the last request, and all others have theirs. -/
theorem last (h : Counted P s fd requests)
    (halone : ∀ i j, (P i).holding = true → (P j).holding = true → i = j) {i : Nat} {frame : Frame}
    (hwaits : (P i).Awaits fd frame) :
    ∃ earlier, requests = earlier ++ [frame] ∧ earlier.length = (s.channels fd).reads := by
  rcases h with ⟨hnobody, -⟩ | ⟨j, frame', earlier, hwaits', hlast, hlen⟩
  · exact absurd hwaits (hnobody i frame)
  · obtain rfl := halone i j hwaits.1.1 hwaits'.1.1
    obtain ⟨-, rfl⟩ := hwaits.1.unique hwaits'.1
    exact ⟨earlier, hlast, hlen⟩

/-- While nobody waits, every request has its reply. -/
theorem settled (h : Counted P s fd requests) (hnobody : ∀ i frame, ¬ (P i).Awaits fd frame) :
    requests.length = (s.channels fd).reads := by
  rcases h with ⟨-, hlen⟩ | ⟨i, frame, -, hwaits, -⟩
  · exact hlen
  · exact absurd hwaits (hnobody i frame)

end Counted

namespace Ordered

variable {peers : Peers} {P : Nat → Errand} {pl : Nat → Place} {s : Coordinator} {i : Nat}
  {l : CoordStep} {requests : Socket → List Frame} {fd : Socket} {frame : Frame}

/-- The mutex is taken when nobody has it, and given back by the thread that has it. -/
theorem mutex_next (h : Ordered P pl s requests) (hok : (P i).ok l) (hready : l.ready s = true) :
    Guards (l.effect peers s).dispatchHeld fun j =>
      (Function.update P i ((P i).next peers l s) j).holding := by
  rw [Foundation.update_has]
  cases l with
  | lockDispatch =>
    have hfree : s.dispatchHeld = false := by simpa [CoordStep.ready] using hready
    exact (hfree ▸ h.mutex).take i
  | unlockDispatch => exact h.mutex.give hok.1
  | receive fd frame => exact h.mutex.keep hok.symm
  | send fd frame bytes =>
    refine h.mutex.keep ?_
    dsimp only [Errand.next]
    unfold Errand.wrote
    split
    · rfl
    · rfl
  | cache l => cases l <;> exact h.mutex.keep rfl
  | _ => exact h.mutex.keep rfl

/-- A frame is read by the thread that waits for it. -/
theorem counted_read (h : Ordered P pl s requests) (hwaits : (P i).Awaits fd frame) (fd' : Socket) :
    Counted (Function.update P i ((P i).next peers (.readFrame fd) s))
      ((CoordStep.readFrame fd).effect peers s) fd' (requests fd') := by
  have hdone : ∀ fd₁ frame₁, ¬ ((P i).next peers (.readFrame fd) s).Awaits fd₁ frame₁ := by
    rintro fd₁ frame₁ ⟨⟨-, -, hreply, -⟩, -⟩
    cases hreply
  by_cases hfd : fd' = fd
  · subst hfd
    obtain ⟨earlier, hlast, hlen⟩ := (h.counted fd').last h.mutex.alone hwaits
    refine .inl ⟨fun j frame' hj => ?_, ?_⟩
    · by_cases hji : j = i
      · rw [hji, Function.update_self] at hj
        exact hdone _ _ hj
      · rw [Function.update_of_ne hji] at hj
        exact hji (h.mutex.alone j i hj.1.1 hwaits.1.1)
    · rw [hlast, List.length_append, List.length_singleton, hlen, CoordStep.effect,
        Coordinator.onChannel_self]
  · refine (h.counted fd').same (CoordStep.effect_reads peers s ?_) fun j frame' => ?_
    · rintro ⟨rfl⟩
      exact hfd rfl
    · by_cases hji : j = i
      · subst hji
        rw [Function.update_self]
        -- it waits for a reply on the other socket
        exact iff_of_false (hdone _ _) fun hj => hfd (hj.1.unique hwaits.1).1
      · rw [Function.update_of_ne hji]

/-- A `::send` of a request: nobody waits before it, and behind it the thread waits if it was the last. -/
theorem counted_request {bytes : Bytes} (h : Ordered P pl s requests)
    (hfits : (pl i).transit.Fits fd frame) (hrequests : (P i).Requests fd frame) (hne : bytes ≠ [])
    (hpre : (P i).asked ++ bytes <+: frameBytes frame) (fd' : Socket) :
    Counted (Function.update P i ((P i).next peers (.send fd frame bytes) s))
      ((CoordStep.send fd frame bytes).effect peers s) fd' (requests fd' ++
        (completion peers fd' (pl i) (.send fd frame bytes) s).toList.filter isRequest) := by
  have hasked := (h.matched i).asked_eq hfits hrequests hne hpre
  have hnobody : ∀ j fd₁ frame₁, ¬ (P j).Awaits fd₁ frame₁ := by
    intro j fd₁ frame₁ hj
    obtain rfl := h.mutex.alone i j hrequests.1 hj.1.1
    exact Errand.not_awaits_of_more hrequests hne hpre hj
  have hlen := (h.counted fd').settled fun j frame' => hnobody j fd' frame'
  have hreads : ((CoordStep.effect peers s (.send fd frame bytes)).channels fd').reads =
      (s.channels fd').reads := CoordStep.effect_reads peers s (fun heq => by cases heq)
  have hafter : ∀ fd₁ frame₁, ((P i).next peers (.send fd frame bytes) s).Awaits fd₁ frame₁ →
      fd₁ = fd ∧ frame₁ = frame ∧
        (pl i).transit.done ++ bytes.take (s.taken peers fd bytes) = frameBytes frame := by
    rintro fd₁ frame₁ ⟨hrequests', hasked'⟩
    rw [Errand.next, Errand.wrote_request (isRequest_iff.mp hrequests.isRequest)] at hrequests' hasked'
    have hsame : (P i).Requests fd₁ frame₁ := hrequests'
    obtain ⟨rfl, rfl⟩ := hsame.unique hrequests
    rw [← hasked]
    exact ⟨rfl, rfl, hasked'⟩
  by_cases hdone : fd = fd' ∧
      (pl i).transit.done ++ bytes.take (s.taken peers fd bytes) = frameBytes frame
  · obtain ⟨rfl, hall⟩ := hdone
    have htaken : s.taken peers fd bytes ≠ 0 := by
      intro hzero
      rw [hzero, List.take_zero, List.append_nil, ← hasked] at hall
      exact hnobody i fd frame ⟨hrequests, hall⟩
    have hcompletion : completion peers fd (pl i) (.send fd frame bytes) s = some frame :=
      if_pos ⟨rfl, htaken, hall⟩
    have hwaits : ((P i).next peers (.send fd frame bytes) s).Awaits fd frame := by
      rw [Errand.next, Errand.wrote_request (isRequest_iff.mp hrequests.isRequest)]
      refine ⟨hrequests, ?_⟩
      rw [hasked]
      exact hall
    refine .inr ⟨i, frame, requests fd, ?_, ?_, hlen.trans hreads.symm⟩
    · rwa [Function.update_self]
    · rw [hcompletion, Option.toList_some, List.filter_singleton, hrequests.isRequest]
      rfl
  · have hcompletion : completion peers fd' (pl i) (.send fd frame bytes) s = none :=
      if_neg fun hall => hdone ⟨hall.1, hall.2.2⟩
    rw [hcompletion, Option.toList_none, List.filter_nil, List.append_nil]
    refine .inl ⟨fun j frame' hj => ?_, hlen.trans hreads.symm⟩
    by_cases hji : j = i
    · rw [hji, Function.update_self] at hj
      obtain ⟨rfl, -, hall⟩ := hafter _ _ hj
      exact hdone ⟨rfl, hall⟩
    · rw [Function.update_of_ne hji] at hj
      exact hnobody j fd' frame' hj

/-- Another section: nobody begins or stops to wait. -/
theorem counted_quiet (h : Ordered P pl s requests) (hread : ∀ fd, l ≠ .readFrame fd)
    (hawaits : ∀ fd frame, ((P i).next peers l s).Awaits fd frame ↔ (P i).Awaits fd frame)
    (fd : Socket) : Counted (Function.update P i ((P i).next peers l s)) (l.effect peers s) fd
      (requests fd) := by
  refine (h.counted fd).same (CoordStep.effect_reads peers s (hread fd)) fun j frame => ?_
  by_cases hji : j = i
  · subst hji
    rw [Function.update_self]
    exact hawaits fd frame
  · rw [Function.update_of_ne hji]

/-- The thread that takes a section. -/
theorem counted_step (h : Ordered P pl s requests) (hok : (P i).ok l) (hplace : (pl i).ok l)
    (fd : Socket) : Counted (Function.update P i ((P i).next peers l s)) (l.effect peers s) fd
      (requests fd ++ (completion peers fd (pl i) l s).toList.filter isRequest) := by
  by_cases hsend : ∃ fd' frame bytes, l = .send fd' frame bytes
  · obtain ⟨fd', frame, bytes, rfl⟩ := hsend
    cases hframe : isRequest frame with
    | true =>
      obtain ⟨hrequests, hne, hpre⟩ := hok.1 (isRequest_iff.mp hframe)
      exact h.counted_request hplace.1.1 hrequests hne hpre fd
    | false =>
      have hcode : frame.1 ≠ DistMsgType.buildReq.code := fun heq => by
        rw [isRequest_iff.mpr heq] at hframe
        cases hframe
      have hnone : (completion peers fd (pl i) (.send fd' frame bytes) s).toList.filter isRequest =
          [] := by
        unfold completion
        dsimp only
        split
        · rw [Option.toList_some, List.filter_singleton, hframe]
          rfl
        · rfl
      rw [hnone, List.append_nil]
      refine h.counted_quiet (fun fd heq => by cases heq) (fun fd₁ frame₁ => ?_) fd
      rw [Errand.next, Errand.wrote_other hcode]
  · have hl : ∀ fd' frame bytes, l ≠ .send fd' frame bytes := fun fd' frame bytes heq =>
      hsend ⟨fd', frame, bytes, heq⟩
    rw [completion_eq_none (hl fd), Option.toList_none, List.filter_nil, List.append_nil]
    by_cases hread : ∃ fd', l = .readFrame fd'
    · obtain ⟨fd', rfl⟩ := hread
      obtain ⟨frame, hwaits⟩ := hok
      exact h.counted_read hwaits fd
    · have hl' : ∀ fd', l ≠ .readFrame fd' := fun fd' heq => hread ⟨fd', heq⟩
      exact h.counted_quiet hl' (fun fd frame => Errand.awaits_next hok hl hl') fd

/-- **One section**, when a request does not stop in the middle. -/
theorem step (h : Ordered P pl s requests) (hok : (P i).ok l) (hplace : (pl i).ok l)
    (hready : l.ready s = true)
    (hturn : ∀ fd frame bytes, l = .send fd frame bytes → isRequest frame = true →
      s.taken peers fd bytes = 0 → (pl i).transit = .clear) :
    Ordered (Function.update P i ((P i).next peers l s))
      (Function.update pl i ((pl i).next peers l s)) (l.effect peers s)
      fun fd => requests fd ++ (completion peers fd (pl i) l s).toList.filter isRequest where
  mutex := h.mutex_next hok hready
  counted := h.counted_step hok hplace
  matched j := by
    by_cases hji : j = i
    · subst hji
      rw [Function.update_self, Function.update_self]
      by_cases hsend : ∃ fd frame bytes, l = .send fd frame bytes
      · obtain ⟨fd, frame, bytes, rfl⟩ := hsend
        cases hframe : isRequest frame with
        | true =>
          obtain ⟨hrequests, hne, hpre⟩ := hok.1 (isRequest_iff.mp hframe)
          exact (h.matched j).request hplace.1.1 hrequests hne hpre (hturn fd frame bytes rfl hframe)
        | false => exact (h.matched j).other hplace.1.1 hframe
      · exact (h.matched j).quiet hplace fun fd frame bytes heq => hsend ⟨fd, frame, bytes, heq⟩
    · rw [Function.update_of_ne hji, Function.update_of_ne hji]
      exact h.matched j

end Ordered

/-! ## Runs -/

section Runs

variable {peers : Peers} {store : FilePersistenceStore} {tr : List (Event CoordStep Coordinator)}
  {pool : Pool CoordStep Coordinator Unit}

/-- The requests that were written on a socket, one after the other. -/
def requestsOn (peers : Peers) (tr : List (Event CoordStep Coordinator)) (fd : Socket) : List Frame :=
  (completed peers fd tr).filter isRequest

/-- No `::send` to a worker fails in the middle of a frame. -/
def SendsUnbroken (peers : Peers) (tr : List (Event CoordStep Coordinator)) : Prop :=
  ∀ tr₁ e, tr₁ ++ [e] <+: tr → ∀ fd frame bytes, e.label = .send fd frame bytes →
    (∃ w ∈ e.before.workers, w.fd = some fd) → e.before.taken peers fd bytes = 0 →
      (places peers tr₁ e.thread).transit = .clear

/-- So it is where sends are not disturbed. -/
theorem SendsUndisturbed.unbroken (hsends : SendsUndisturbed peers tr) : SendsUnbroken peers tr := by
  intro tr₁ e hpre fd frame bytes hlabel hknown hzero
  have hsend := hsends tr₁ e hpre
  rw [Undisturbed, hlabel] at hsend
  exact (hsend hknown).2 hzero

/-- Along a run whose sends do not fail in the middle of a frame. -/
theorem ordered_history (h : CoordRuns peers store tr pool) (hsends : SendsUnbroken peers tr) :
    (∀ tr₁ e, tr₁ ++ [e] <+: tr →
      Ordered (errands peers tr₁) (places peers tr₁) e.before (requestsOn peers tr₁) ∧
      Ordered (errands peers (tr₁ ++ [e])) (places peers (tr₁ ++ [e])) e.after
        (requestsOn peers (tr₁ ++ [e]))) ∧
    Ordered (errands peers tr) (places peers tr) pool.shared (requestsOn peers tr) := by
  have hinit : Ordered (errands peers []) (places peers []) (Coordinator.initial store)
      (requestsOn peers []) := by
    refine ⟨Guards.free, fun i => .inl rfl, fun fd => .inl ⟨?_, rfl⟩⟩
    exact fun i frame => Errand.not_awaits_of_free rfl
  refine Foundation.Runs.history (I := fun tr s =>
    Ordered (errands peers tr) (places peers tr) s (requestsOn peers tr)) hinit h fun tr₁ e hpre hI => ?_
  obtain ⟨hready, hafter⟩ := coordExec_eq_some.mp (h.event_step e (hpre.subset (by simp)))
  have hok := runs_pursue h hpre
  obtain ⟨tr₂, hsplit⟩ := hpre
  obtain ⟨⟨ts, hbefore⟩, -⟩ := h.cut ((List.append_assoc tr₁ [e] tr₂).symm.trans hsplit).symm
  have horigins := runs_origins hbefore
  have hrequests : requestsOn peers (tr₁ ++ [e]) = fun fd => requestsOn peers tr₁ fd ++
      (completion peers fd (places peers tr₁ e.thread) e.label e.before).toList.filter isRequest := by
    funext fd
    rw [requestsOn, completed_concat, List.filter_append]
    rfl
  rw [errands_concat, places_concat, hafter, hrequests]
  refine hI.step hok (conducted h ⟨tr₂, hsplit⟩) hready fun fd frame bytes hlabel hframe hzero => ?_
  -- a request goes to a worker, and there no send fails in the middle
  rw [hlabel] at hok
  obtain ⟨hrequests, -⟩ := hok.1 (isRequest_iff.mp hframe)
  exact hsends tr₁ e ⟨tr₂, hsplit⟩ fd frame bytes hlabel (horigins.worker e.thread fd hrequests.2.1) hzero

/-- **Replies come in the order of the requests.** Whatever the interleaving of the connections: a frame
that is read from a worker is read by a thread that has written a whole request to it for the lookup in
hand, and that request is the last of as many as the frames that were read with this one.  When no send
to a worker fails in the middle of a frame. -/
theorem replies_in_order (h : CoordRuns peers store tr pool) (hsends : SendsUnbroken peers tr)
    {tr₁ : List (Event CoordStep Coordinator)} {e : Event CoordStep Coordinator} (hpre : tr₁ ++ [e] <+: tr)
    {fd : Socket} (hread : e.label = .readFrame fd) : ∃ q auth k earlier,
      (errands peers tr₁ e.thread).Asks q auth k ∧
      requestsOn peers tr₁ fd = earlier ++ [Errand.buildRequest q auth k] ∧
      (e.after.channels fd).reads = (requestsOn peers tr₁ fd).length := by
  have hordered := ((ordered_history h hsends).1 tr₁ e hpre).1
  have hok := runs_pursue h hpre
  have hafter := (coordExec_eq_some.mp (h.event_step e (hpre.subset (by simp)))).2
  rw [hread] at hok hafter
  obtain ⟨frame, hwaits⟩ := hok
  obtain ⟨earlier, hlast, hlen⟩ := (hordered.counted fd).last hordered.mutex.alone hwaits
  obtain ⟨-, -, -, q, auth, k, hasks, rfl⟩ := hwaits.1
  refine ⟨q, auth, k, earlier, hasks, hlast, ?_⟩
  rw [hlast, List.length_append, List.length_singleton, hlen, hafter, CoordStep.effect,
    Coordinator.onChannel_self]

end Runs

/-- The socket on which a reply is read. -/
def CoordStep.reading : CoordStep → Option Socket
  | .readFrame fd => some fd
  | _ => none

/-- A client looks a key up twice, and the reply to the build is the first frame of the worker. -/
theorem replies_in_order_sample : ∃ tr pool tr₁ e, CoordRuns buildingWorker {} tr pool ∧
    SendsUnbroken buildingWorker tr ∧ tr₁ ++ [e] <+: tr ∧ e.label = .readFrame 0 ∧
    ∃ q auth k earlier, (errands buildingWorker tr₁ e.thread).Asks q auth k ∧
      requestsOn buildingWorker tr₁ 0 = earlier ++ [Errand.buildRequest q auth k] ∧
      (e.after.channels 0).reads = (requestsOn buildingWorker tr₁ 0).length := by
  have hplay : (playConns buildingWorker {} (buildThrough [])).map (fun out =>
      (decide (∀ e ∈ out.1, e.thread < 2),
        decide (Foundation.Throughout (Place.next buildingWorker) (InTurnAmong buildingWorker 2)
          (fun _ => {}) out.1), out.1.any fun e => e.label.reading == some 0)) =
        some (true, true, true) := by
    decide +kernel
  obtain ⟨⟨tr, pool⟩, hplay, hout⟩ := Option.map_eq_some_iff.mp hplay
  obtain ⟨hthreads, hout⟩ := Prod.mk.inj hout
  obtain ⟨hamong, hany⟩ := Prod.mk.inj hout
  have hruns : CoordRuns buildingWorker {} tr pool := CoordRuns.of_play hplay
  have hturn := sendsInTurn_of_among (of_decide_eq_true hthreads) (of_decide_eq_true hamong)
  have hsends := hturn.undisturbed.unbroken
  obtain ⟨e, he, hreading⟩ := List.any_eq_true.mp hany
  obtain ⟨tr₁, tr₂, rfl⟩ := List.append_of_mem he
  have hpre : tr₁ ++ [e] <+: tr₁ ++ e :: tr₂ := ⟨tr₂, by simp⟩
  have hlabel : e.label = .readFrame 0 := by
    cases hl : e.label with
    | readFrame fd =>
      rw [hl] at hreading
      obtain rfl := Option.some.inj (beq_iff_eq.mp hreading)
      rfl
    | _ =>
      rw [hl] at hreading
      cases hreading
  obtain ⟨q, auth, k, earlier, hasks, hlast, hreads⟩ := replies_in_order hruns hsends hpre hlabel
  exact ⟨_, pool, tr₁, e, hruns, hsends, hpre, hlabel, q, auth, k, earlier, hasks, hlast, hreads⟩

end KernelCache
