/-
# KernelCache.WorkerStreams — what the workers are sent.

Three kinds of threads write to a worker's socket: the one that registered it writes the
acknowledgement, a dispatch writes a request under the dispatch mutex, a roll writes under the mutex of
the workers.  They exclude one another nowhere, a frame takes two `::send`s or more, and the slot is
listed before the acknowledgement is written.  So frames can be torn apart and the acknowledgement
overtaken.

`worker_streams_whole` says when they are not: when no `::send` to a worker is made, or fails, in the
middle of a frame, and the first is of an acknowledgement.  Without the acknowledgement what is sent is
still frames and a part of one (`written_history`).
-/
import KernelCache.Roster

namespace KernelCache

open Foundation (Bytes Event Pool Prog)
open TcpConnection (frameBytes)

/-! ## Frames on a socket -/

/-- The thread is in the middle of a frame on the socket. -/
def Transit.On (fd : Socket) : Transit → Prop
  | clear => False
  | under fd' _ _ => fd' = fd

instance (fd : Socket) : (t : Transit) → Decidable (t.On fd)
  | .clear => inferInstanceAs (Decidable False)
  | .under fd' _ _ => inferInstanceAs (Decidable (fd' = fd))

/-- The frame that a section completes on the socket. -/
def completion (peers : Peers) (fd : Socket) (pl : Place) (l : CoordStep) (s : Coordinator) :
    Option Frame :=
  match l with
  | .send fd' frame bytes =>
    if fd' = fd ∧ s.taken peers fd' bytes ≠ 0 ∧
        pl.transit.done ++ bytes.take (s.taken peers fd' bytes) = frameBytes frame then some frame
    else none
  | _ => none

/-- The frames completed on the socket. -/
def completed (peers : Peers) (fd : Socket) (tr : List (Event CoordStep Coordinator)) : List Frame :=
  Foundation.outputs (Place.next peers) (completion peers fd) (fun _ => {}) tr

theorem completed_concat (peers : Peers) (fd : Socket) (tr : List (Event CoordStep Coordinator))
    (e : Event CoordStep Coordinator) : completed peers fd (tr ++ [e]) = completed peers fd tr ++
      (completion peers fd (places peers tr e.thread) e.label e.before).toList :=
  Foundation.outputs_concat _ _ _ tr e

/-- The frame that is under way on the socket, and its octets that are written. -/
inductive Carried (P : Nat → Place) (fd : Socket) : List Frame → Bytes → Prop
  | nobody (h : ∀ i, ¬ (P i).transit.On fd) : Carried P fd [] []
  | one {i : Nat} {frame : Frame} {part : Bytes} (h : (P i).transit = .under fd frame part)
      (hne : part ≠ []) (hpre : part <+: frameBytes frame)
      (hothers : ∀ j ≠ i, ¬ (P j).transit.On fd) : Carried P fd [frame] part

/-- The frame acknowledges the worker's registration. -/
def Acknowledges (w : WorkerSlot) (frame : Frame) : Prop :=
  ∃ e, frame = (DistMsgType.registerAckC.code, encodeRegisterAck e w.id 1)

/-- What was sent on the socket is the frames completed and the part under way, and the first of these
acknowledges the worker's registration. -/
def Whole (P : Nat → Place) (s : Coordinator) (fd : Socket) (frames : List Frame) : Prop :=
  ∃ under part, (s.channels fd).sent = frames.flatMap frameBytes ++ part ∧ Carried P fd under part ∧
    ∀ w ∈ s.workers, w.fd = some fd → ∀ f, (frames ++ under).head? = some f → Acknowledges w f

/-- A `::send` to a worker in its turn: nobody else is in the middle of a frame on the socket, it does
not fail in the middle of a frame, and the first is of an acknowledgement. -/
def InTurn (peers : Peers) (P : Nat → Place) (e : Event CoordStep Coordinator) : Prop :=
  match e.label with
  | .send fd frame bytes => (∃ w ∈ e.before.workers, w.fd = some fd) →
      (∀ j ≠ e.thread, ¬ (P j).transit.On fd) ∧
      (e.before.taken peers fd bytes = 0 → (P e.thread).transit = .clear) ∧
      ((e.before.channels fd).sent = [] → frame.1 = DistMsgType.registerAckC.code)
  | _ => True

/-- A `::send` to a worker that is not disturbed: in its turn, except that the first need not be of an
acknowledgement. -/
def Undisturbed (peers : Peers) (P : Nat → Place) (e : Event CoordStep Coordinator) : Prop :=
  match e.label with
  | .send fd _ bytes => (∃ w ∈ e.before.workers, w.fd = some fd) →
      (∀ j ≠ e.thread, ¬ (P j).transit.On fd) ∧
      (e.before.taken peers fd bytes = 0 → (P e.thread).transit = .clear)
  | _ => True

theorem InTurn.undisturbed {peers : Peers} {P : Nat → Place} {e : Event CoordStep Coordinator}
    (h : InTurn peers P e) : Undisturbed peers P e := by
  unfold Undisturbed
  unfold InTurn at h
  split
  · rename_i hlabel
    rw [hlabel] at h
    exact fun hknown => ⟨(h hknown).1, (h hknown).2.1⟩
  · trivial

section Send

variable {peers : Peers} {P : Nat → Place} {i : Nat} {s : Coordinator} {fd : Socket} {frame : Frame}
  {bytes : Bytes} {frames : List Frame}

/-- What is under way on a socket on which a thread goes on with a frame is that frame. -/
theorem Carried.of_fits {under : List Frame} {part : Bytes} (h : Carried P fd under part)
    (hfits : (P i).transit.Fits fd frame) (hothers : ∀ j ≠ i, ¬ (P j).transit.On fd) :
    part = (P i).transit.done ∧ (under = [] ∨ under = [frame]) := by
  cases h with
  | nobody hclear =>
    refine ⟨?_, .inl rfl⟩
    cases ht : (P i).transit with
    | clear => rfl
    | under fd' frame' done =>
      rw [ht] at hfits
      exact absurd (by rw [ht]; exact hfits.1) (hclear i)
  | @one j frame' _ ht =>
    have hij : j = i := by
      by_contra hne
      exact hothers j hne (by rw [ht]; exact rfl)
    subst hij
    rw [ht] at hfits ⊢
    obtain ⟨-, rfl⟩ := hfits
    exact ⟨rfl, .inr rfl⟩

/-- The first frame is the one that was first, or the one that goes on. -/
theorem head_of_fits {under : List Frame} (h : under = [] ∨ under = [frame]) (hany : frames ++ under ≠ []) :
    (frames ++ [frame]).head? = (frames ++ under).head? := by
  rcases h with rfl | rfl
  · rw [List.append_nil] at hany ⊢
    exact List.head?_append_of_ne_nil _ hany
  · rfl

/-- **A send that is not disturbed.** What was sent stays frames and a part of one, and what comes first
stays first. -/
theorem Carried.send {under : List Frame} {part : Bytes} (hcarried : Carried P fd under part)
    (hsent : (s.channels fd).sent = frames.flatMap frameBytes ++ part)
    (hok : (P i).Allows (.send fd frame bytes)) (hothers : ∀ j ≠ i, ¬ (P j).transit.On fd)
    (hfails : s.taken peers fd bytes = 0 → (P i).transit = .clear) :
    ∃ frames' under' part',
      frames' = frames ++ (completion peers fd (P i) (.send fd frame bytes) s).toList ∧
      (((CoordStep.send fd frame bytes).effect peers s).channels fd).sent =
        frames'.flatMap frameBytes ++ part' ∧
      Carried (Function.update P i ((P i).next peers (.send fd frame bytes) s)) fd under' part' ∧
      ∀ f, (frames' ++ under').head? = some f → (frames ++ [frame]).head? = some f := by
  obtain ⟨hfits, hne, hpre, -⟩ := hok
  obtain ⟨hpart, -⟩ := hcarried.of_fits hfits hothers
  have hothers' : ∀ pl : Place, ∀ j ≠ i, ¬ (Function.update P i pl j).transit.On fd := by
    intro pl j hj
    rw [Function.update_of_ne hj]
    exact hothers j hj
  have hsent' : (((CoordStep.send fd frame bytes).effect peers s).channels fd).sent =
      (s.channels fd).sent ++ bytes.take (s.taken peers fd bytes) := by
    rw [CoordStep.effect, Coordinator.onChannel_self]
    rfl
  dsimp only [Place.next, completion]
  by_cases hzero : s.taken peers fd bytes = 0
  · -- nothing is written, and nothing was under way
    have hclear := hfails hzero
    have hnil : part = [] := by
      rw [hpart, hclear]
      rfl
    refine ⟨_, [], [], rfl, ?_, .nobody fun j => ?_, fun f hf => ?_⟩
    · rw [hsent', hsent, hnil, if_neg fun h => h.2.1 hzero, hzero]
      simp
    · by_cases hj : j = i
      · subst hj
        rw [Function.update_self, if_pos hzero]
        exact id
      · exact hothers' _ j hj
    · rw [if_neg fun h => h.2.1 hzero, Option.toList_none, List.append_nil, List.append_nil] at hf
      rw [List.head?_append, hf]
      rfl
  · have hwritten : (((CoordStep.send fd frame bytes).effect peers s).channels fd).sent =
        frames.flatMap frameBytes ++ ((P i).transit.done ++ bytes.take (s.taken peers fd bytes)) := by
      rw [hsent', hsent, hpart, List.append_assoc]
    have hpart' : (P i).transit.done ++ bytes.take (s.taken peers fd bytes) <+: frameBytes frame :=
      (List.prefix_append_right_inj _ |>.mpr (List.take_prefix _ _)).trans hpre
    have htake : bytes.take (s.taken peers fd bytes) ≠ [] := by
      intro hnil
      rcases List.take_eq_nil_iff.mp hnil with h | h
      · exact hzero h
      · exact hne h
    have hmore : (P i).transit.done ++ bytes.take (s.taken peers fd bytes) ≠ [] := fun hnil =>
      htake (List.append_eq_nil_iff.mp hnil).2
    rw [if_neg hzero]
    generalize (P i).transit.done ++ bytes.take (s.taken peers fd bytes) = done at *
    unfold Place.conveyed
    by_cases hdone : done = frameBytes frame
    · -- the frame is complete
      rw [if_pos hdone, if_pos ⟨rfl, hzero, hdone⟩]
      refine ⟨_, [], [], rfl, ?_, .nobody fun j => ?_, fun f hf => ?_⟩
      · rw [hwritten, hdone]
        simp
      · by_cases hj : j = i
        · subst hj
          rw [Function.update_self]
          exact id
        · exact hothers' _ j hj
      · rwa [List.append_nil] at hf
    · rw [if_neg hdone, if_neg hmore, if_neg fun h => hdone h.2.2]
      refine ⟨_, [frame], done, rfl, ?_, .one (i := i) ?_ hmore hpart' (hothers' _), fun f hf => ?_⟩
      · rw [Option.toList_none, List.append_nil, hwritten]
      · rw [Function.update_self]
      · rwa [Option.toList_none, List.append_nil] at hf

/-- **A send in its turn.** What was sent stays whole. -/
theorem Whole.send (h : Whole P s fd frames) (hok : (P i).Allows (.send fd frame bytes))
    (hothers : ∀ j ≠ i, ¬ (P j).transit.On fd)
    (hfails : s.taken peers fd bytes = 0 → (P i).transit = .clear)
    (hfirst : (s.channels fd).sent = [] → ∀ w ∈ s.workers, w.fd = some fd → Acknowledges w frame) :
    Whole (Function.update P i ((P i).next peers (.send fd frame bytes) s))
      ((CoordStep.send fd frame bytes).effect peers s) fd
      (frames ++ (completion peers fd (P i) (.send fd frame bytes) s).toList) := by
  obtain ⟨under, part, hsent, hcarried, hgreet⟩ := h
  obtain ⟨-, hunder⟩ := hcarried.of_fits hok.1 hothers
  -- the first frame acknowledges, whether it is this one or not
  have hhead : ∀ w ∈ s.workers, w.fd = some fd → ∀ f, (frames ++ [frame]).head? = some f →
      Acknowledges w f := by
    intro w hw hfd f hf
    by_cases hany : frames ++ under = []
    · obtain ⟨rfl, rfl⟩ := List.append_eq_nil_iff.mp hany
      cases hf
      cases hcarried
      exact hfirst hsent w hw hfd
    · rw [head_of_fits hunder hany] at hf
      exact hgreet w hw hfd f hf
  obtain ⟨frames', under', part', rfl, hsent', hcarried', hfirst'⟩ :=
    hcarried.send hsent hok hothers hfails
  exact ⟨under', part', hsent', hcarried', fun w hw hfd f hf => hhead w hw hfd f (hfirst' f hf)⟩

end Send

/-! ## Other sections -/

/-- Only a `::send` moves a frame. -/
theorem Place.transit_next (peers : Peers) (pl : Place) {l : CoordStep} (s : Coordinator)
    (hl : ∀ fd frame bytes, l ≠ .send fd frame bytes) :
    (pl.next peers l s).transit = pl.transit := by
  cases l with
  | send fd frame bytes => exact absurd rfl (hl fd frame bytes)
  | _ => rfl

/-- A `::send` leaves no frame under way on another socket. -/
theorem Place.on_send {peers : Peers} {pl : Place} {fd fd' : Socket} {frame : Frame} {bytes : Bytes}
    {s : Coordinator} (hfd : fd' ≠ fd) :
    ¬ (pl.next peers (.send fd' frame bytes) s).transit.On fd := by
  dsimp only [Place.next]
  split
  · exact id
  · unfold Place.conveyed
    split
    · exact id
    split
    · exact id
    · exact hfd

/-- What was sent on a socket changes with a `::send` only. -/
theorem CoordStep.effect_sent (peers : Peers) (s : Coordinator) {l : CoordStep} {fd : Socket}
    (hl : ∀ frame bytes, l ≠ .send fd frame bytes) :
    ((l.effect peers s).channels fd).sent = (s.channels fd).sent := by
  cases l with
  | send fd' frame bytes =>
    have hfd : fd ≠ fd' := by
      rintro rfl
      exact hl frame bytes rfl
    rw [effect, Coordinator.onChannel_other s hfd]
  | readFrame fd' =>
    by_cases hfd : fd = fd'
    · subst hfd
      rw [effect, Coordinator.onChannel_self]
    · rw [effect, Coordinator.onChannel_other s hfd]
  | _ => rfl

theorem completion_eq_none {peers : Peers} {fd : Socket} {pl : Place} {l : CoordStep}
    {s : Coordinator} (hl : ∀ frame bytes, l ≠ .send fd frame bytes) :
    completion peers fd pl l s = none := by
  cases l with
  | send fd' frame bytes =>
    exact if_neg fun h => hl frame bytes (by rw [h.1])
  | _ => rfl

section Other

variable {peers : Peers} {P P' : Nat → Place} {i : Nat} {s : Coordinator} {fd : Socket} {l : CoordStep}
  {frames : List Frame}

theorem Carried.same {under : List Frame} {part : Bytes} (h : Carried P fd under part)
    (hon : ∀ j, (P' j).transit.On fd ∨ (P j).transit.On fd → (P' j).transit = (P j).transit) :
    Carried P' fd under part := by
  have hoff : ∀ j, ¬ (P j).transit.On fd → ¬ (P' j).transit.On fd := by
    intro j hj hj'
    rw [hon j (.inl hj')] at hj'
    exact hj hj'
  cases h with
  | nobody hclear => exact .nobody fun j => hoff j (hclear j)
  | @one j _ _ ht hne hpre hothers =>
    have hthis : (P' j).transit = (P j).transit := by
      refine hon j (.inr ?_)
      rw [ht]
      exact rfl
    exact .one (hthis.trans ht) hne hpre fun k hk => hoff k (hothers k hk)

/-- Nothing sent is no frame, complete or under way. -/
theorem Carried.of_nil {under : List Frame} {part : Bytes} (h : Carried P fd under part)
    (hsent : frames.flatMap frameBytes ++ part = []) : frames ++ under = [] := by
  obtain ⟨hframes, rfl⟩ := List.append_eq_nil_iff.mp hsent
  have hnone : frames = [] := by
    cases frames with
    | nil => rfl
    | cons f frames =>
      rw [List.flatMap_cons] at hframes
      exact absurd (List.append_eq_nil_iff.mp hframes).1 (TcpConnection.frameBytes_ne_nil f)
  cases h with
  | nobody _ => rw [hnone, List.append_nil]
  | one _ hne => exact absurd rfl hne

/-- Another section leaves what is under way on the socket as it is. -/
theorem Carried.other {under : List Frame} {part : Bytes} (h : Carried P fd under part)
    (hok : (P i).ok l) (hl : ∀ frame bytes, l ≠ .send fd frame bytes) :
    Carried (Function.update P i ((P i).next peers l s)) fd under part := by
  refine h.same fun j hj => ?_
  by_cases hji : j = i
  · subst hji
    rw [Function.update_self] at hj ⊢
    by_cases hsend : ∃ fd' frame bytes, l = .send fd' frame bytes
    · obtain ⟨fd', frame, bytes, rfl⟩ := hsend
      have hfd' : fd' ≠ fd := by
        rintro rfl
        exact hl frame bytes rfl
      -- the thread is not on the socket, before and after
      rcases hj with hafter | hbefore
      · exact absurd hafter (Place.on_send hfd')
      · have hfits := hok.1.1
        cases ht : (P j).transit with
        | clear =>
          rw [ht] at hbefore
          exact hbefore.elim
        | under fd₁ frame₁ done =>
          rw [ht] at hbefore hfits
          exact absurd (hfits.1.symm.trans hbefore) hfd'
    · exact Place.transit_next peers _ s fun fd' frame bytes heq => hsend ⟨fd', frame, bytes, heq⟩
  · rw [Function.update_of_ne hji]

/-- **Another section.** It leaves what was sent on the socket as it is. -/
theorem Whole.other (h : Whole P s fd frames) (hok : (P i).ok l)
    (hl : ∀ frame bytes, l ≠ .send fd frame bytes)
    (hnew : ∀ slot, l = .register slot → slot.fd = some fd → (s.channels fd).sent = []) :
    Whole (Function.update P i ((P i).next peers l s)) (l.effect peers s) fd frames := by
  obtain ⟨under, part, hsent, hcarried, hgreet⟩ := h
  refine ⟨under, part, ?_, hcarried.other hok hl, fun w hw hfd f hf => ?_⟩
  · rw [CoordStep.effect_sent peers s hl, hsent]
  · rw [CoordStep.effect_workers] at hw
    split at hw
    · rename_i slot
      rcases List.mem_append.mp hw with hw | hw
      · exact hgreet w hw hfd f hf
      · obtain rfl := List.mem_singleton.mp hw
        have hnil := hcarried.of_nil (hsent.symm.trans (hnew w rfl hfd))
        rw [hnil] at hf
        cases hf
    · exact hgreet w hw hfd f hf

end Other

/-! ## Runs -/

/-- On every socket that is not a client's, what was sent is whole; and it is nothing as long as no
worker is listed with the socket. -/
def Streamed (peers : Peers) (tr : List (Event CoordStep Coordinator)) (s : Coordinator) : Prop :=
  ∀ fd, (∀ i, (places peers tr i).client ≠ some fd) →
    Whole (places peers tr) s fd (completed peers fd tr) ∧
      ((∀ w ∈ s.workers, w.fd ≠ some fd) → (s.channels fd).sent = [])

theorem Streamed.initial (peers : Peers) (store : FilePersistenceStore) :
    Streamed peers [] (Coordinator.initial store) := by
  intro fd _
  refine ⟨⟨[], [], rfl, .nobody fun _ => id, fun w hw => ?_⟩, fun _ => rfl⟩
  exact absurd hw List.not_mem_nil

/-- A socket that is no client's was none before. -/
theorem client_before {peers : Peers} {tr : List (Event CoordStep Coordinator)}
    {e : Event CoordStep Coordinator} (hok : (places peers tr e.thread).ok e.label) {fd : Socket}
    (hclient : ∀ i, (places peers (tr ++ [e]) i).client ≠ some fd) (i : Nat) :
    (places peers tr i).client ≠ some fd := by
  rw [places_concat] at hclient
  intro hi
  by_cases hthread : i = e.thread
  · subst hthread
    refine hclient e.thread ?_
    rw [Function.update_self]
    exact Place.client_next hok.1 hi
  · refine hclient i ?_
    rw [Function.update_of_ne hthread]
    exact hi

/-- One section. -/
theorem Streamed.concat {peers : Peers} {tr : List (Event CoordStep Coordinator)}
    {e : Event CoordStep Coordinator} (h : Streamed peers tr e.before)
    (hroster : Roster (places peers tr) e.before) (hok : (places peers tr e.thread).ok e.label)
    (hturn : InTurn peers (places peers tr) e) (hafter : e.after = e.label.effect peers e.before) :
    Streamed peers (tr ++ [e]) e.after := by
  intro fd hclient
  obtain ⟨hwhole, hnothing⟩ := h fd (client_before hok hclient)
  have hbefore := client_before hok hclient
  rw [completed_concat, hafter, places_concat]
  by_cases hsend : ∃ frame bytes, e.label = .send fd frame bytes
  · obtain ⟨frame, bytes, hlabel⟩ := hsend
    rw [hlabel] at hok ⊢
    have hknown := hroster.known hok.1.2.2.2 (hbefore e.thread)
    obtain ⟨hothers, hfails, hfirst⟩ : _ := by
      rw [InTurn, hlabel] at hturn
      exact hturn hknown
    refine ⟨hwhole.send hok.1 hothers hfails fun hnil w hw hfd => ?_, fun hnobody => ?_⟩
    · obtain ⟨x, -, hframe⟩ := hroster.acknowledges hok.1.2.2.2 (hbefore e.thread) (hfirst hnil) hw hfd
      exact ⟨x, hframe⟩
    · obtain ⟨w, hw, hfd⟩ := hknown
      exact absurd hfd (hnobody w hw)
  · have hl : ∀ frame bytes, e.label ≠ .send fd frame bytes := fun frame bytes heq =>
      hsend ⟨frame, bytes, heq⟩
    rw [completion_eq_none hl, Option.toList_none, List.append_nil]
    have hunlisted : ∀ slot, e.label = .register slot → slot.fd = some fd →
        (e.before.channels fd).sent = [] := by
      intro slot hslot hfd
      have hregister := hok.1
      rw [hslot] at hregister
      exact hnothing (hroster.unlisted hregister hfd)
    refine ⟨hwhole.other hok hl hunlisted, fun hnobody => ?_⟩
    rw [CoordStep.effect_sent peers _ hl]
    refine hnothing fun w hw => hnobody w ?_
    rw [CoordStep.effect_workers]
    split
    · exact List.mem_append_left _ hw
    · exact hw

/-- On every socket that is not a client's, what was sent is the frames completed and a part of one. -/
def Written (peers : Peers) (tr : List (Event CoordStep Coordinator)) (s : Coordinator) : Prop :=
  ∀ fd, (∀ i, (places peers tr i).client ≠ some fd) → ∃ under part,
    (s.channels fd).sent = (completed peers fd tr).flatMap frameBytes ++ part ∧
      Carried (places peers tr) fd under part

/-- One section. -/
theorem Written.concat {peers : Peers} {tr : List (Event CoordStep Coordinator)}
    {e : Event CoordStep Coordinator} (h : Written peers tr e.before)
    (hroster : Roster (places peers tr) e.before) (hok : (places peers tr e.thread).ok e.label)
    (hsend : Undisturbed peers (places peers tr) e) (hafter : e.after = e.label.effect peers e.before) :
    Written peers (tr ++ [e]) e.after := by
  intro fd hclient
  have hbefore := client_before hok hclient
  obtain ⟨under, part, hsent, hcarried⟩ := h fd hbefore
  rw [completed_concat, hafter, places_concat]
  by_cases hlabel : ∃ frame bytes, e.label = .send fd frame bytes
  · obtain ⟨frame, bytes, hlabel⟩ := hlabel
    rw [hlabel] at hok ⊢
    obtain ⟨hothers, hfails⟩ : _ := by
      rw [Undisturbed, hlabel] at hsend
      exact hsend (hroster.known hok.1.2.2.2 (hbefore e.thread))
    obtain ⟨frames', under', part', rfl, hsent', hcarried', -⟩ :=
      hcarried.send hsent hok.1 hothers hfails
    exact ⟨under', part', hsent', hcarried'⟩
  · have hl : ∀ frame bytes, e.label ≠ .send fd frame bytes := fun frame bytes heq =>
      hlabel ⟨frame, bytes, heq⟩
    rw [completion_eq_none hl, Option.toList_none, List.append_nil, CoordStep.effect_sent peers _ hl]
    exact ⟨under, part, hsent, hcarried.other hok hl⟩

section Runs

variable {peers : Peers} {store : FilePersistenceStore} {tr : List (Event CoordStep Coordinator)}
  {pool : Pool CoordStep Coordinator Unit}

/-- No `::send` to a worker is disturbed. -/
def SendsUndisturbed (peers : Peers) (tr : List (Event CoordStep Coordinator)) : Prop :=
  ∀ tr₁ e, tr₁ ++ [e] <+: tr → Undisturbed peers (places peers tr₁) e

/-- Along a run whose sends are not disturbed. -/
theorem written_history (h : CoordRuns peers store tr pool) (hsends : SendsUndisturbed peers tr) :
    Written peers tr pool.shared := by
  have hinit : Written peers [] (Coordinator.initial store) :=
    fun fd _ => ⟨[], [], rfl, .nobody fun _ => id⟩
  refine (Foundation.Runs.history (I := Written peers) hinit h fun tr₁ e hpre hI => ?_).2
  have hstep := h.event_step e (hpre.subset (by simp))
  exact hI.concat ((roster_history h).1 tr₁ e hpre).1 (conducted h hpre) (hsends tr₁ e hpre)
    (coordExec_eq_some.mp hstep).2

/-- Every `::send` to a worker is made in its turn. -/
def SendsInTurn (peers : Peers) (tr : List (Event CoordStep Coordinator)) : Prop :=
  ∀ tr₁ e, tr₁ ++ [e] <+: tr → InTurn peers (places peers tr₁) e

theorem SendsInTurn.undisturbed (hturn : SendsInTurn peers tr) : SendsUndisturbed peers tr :=
  fun tr₁ e hpre => (hturn tr₁ e hpre).undisturbed

/-- Along a run whose sends are made in their turn. -/
theorem streamed_history (h : CoordRuns peers store tr pool) (hturn : SendsInTurn peers tr) :
    (∀ tr₁ e, tr₁ ++ [e] <+: tr → Streamed peers tr₁ e.before ∧
      Streamed peers (tr₁ ++ [e]) e.after) ∧ Streamed peers tr pool.shared := by
  refine Foundation.Runs.history (I := Streamed peers) (Streamed.initial peers store) h
    fun tr₁ e hpre hI => ?_
  have hstep := h.event_step e (hpre.subset (by simp))
  exact hI.concat ((roster_history h).1 tr₁ e hpre).1 (conducted h hpre) (hturn tr₁ e hpre)
    (coordExec_eq_some.mp hstep).2

/-- The stream of a worker: the frames completed on its socket, and the part under way. -/
theorem stream_whole (h : CoordRuns peers store tr pool) (hturn : SendsInTurn peers tr)
    {w : WorkerSlot} (hw : w ∈ pool.shared.workers) {fd : Socket} (hfd : w.fd = some fd) :
    Whole (places peers tr) pool.shared fd (completed peers fd tr) :=
  ((streamed_history h hturn).2 fd ((roster_history h).2.client_ne hw hfd)).1

/-- **Workers receive whole frames in protocol order.** When every `::send` to a worker is made in its
turn, what was sent to a worker is complete frames, and octets of one more while a thread is in the
middle of it; and the first frame, complete or not, acknowledges the worker's registration. -/
theorem worker_streams_whole (h : CoordRuns peers store tr pool) (hturn : SendsInTurn peers tr) :
    ∀ w ∈ pool.shared.workers, ∀ fd, w.fd = some fd → ∃ frames under part,
      (pool.shared.channels fd).sent = frames.flatMap frameBytes ++ part ∧
      (∀ f, (frames ++ under).head? = some f → Acknowledges w f) ∧
      ((∀ i, ¬ (places peers tr i).transit.On fd) ∧ under = [] ∧ part = [] ∨
        ∃ i frame, (places peers tr i).transit = .under fd frame part ∧ under = [frame] ∧
          part <+: frameBytes frame) := by
  intro w hw fd hfd
  obtain ⟨under, part, hsent, hcarried, hgreet⟩ := stream_whole h hturn hw hfd
  refine ⟨_, under, part, hsent, hgreet w hw hfd, ?_⟩
  cases hcarried with
  | nobody hclear => exact .inl ⟨hclear, rfl, rfl⟩
  | @one i frame _ ht _ hpre => exact .inr ⟨i, frame, ht, rfl, hpre⟩

end Runs

/-! ## Runs of two threads -/

/-- In its turn, as far as the first `n` threads are concerned. -/
def InTurnAmong (peers : Peers) (n : Nat) (P : Nat → Place) (e : Event CoordStep Coordinator) : Prop :=
  match e.label with
  | .send fd frame bytes => (∃ w ∈ e.before.workers, w.fd = some fd) →
      (∀ j < n, j ≠ e.thread → ¬ (P j).transit.On fd) ∧
      e.before.taken peers fd bytes ≠ 0 ∧
      ((e.before.channels fd).sent = [] → frame.1 = DistMsgType.registerAckC.code)
  | _ => True

instance (peers : Peers) (n : Nat) (P : Nat → Place) (e : Event CoordStep Coordinator) :
    Decidable (InTurnAmong peers n P e) := by
  unfold InTurnAmong
  split <;> infer_instance

/-- There are no other threads. -/
theorem places_of_threads {peers : Peers} {n : Nat} {tr : List (Event CoordStep Coordinator)}
    (hthreads : ∀ e ∈ tr, e.thread < n) {j : Nat} (hj : ¬ j < n) : places peers tr j = {} := by
  refine Foundation.phases_of_idle _ _ fun e he => ?_
  rintro rfl
  exact hj (hthreads e he)

theorem sendsInTurn_of_among {peers : Peers} {n : Nat} {tr : List (Event CoordStep Coordinator)}
    (hthreads : ∀ e ∈ tr, e.thread < n)
    (h : Foundation.Throughout (Place.next peers) (InTurnAmong peers n) (fun _ => {}) tr) :
    SendsInTurn peers tr := by
  intro tr₁ e hpre
  have hamong := Foundation.throughout_iff.mp h tr₁ e hpre
  change InTurnAmong peers n (places peers tr₁) e at hamong
  unfold InTurn
  unfold InTurnAmong at hamong
  split
  · rename_i fd frame bytes hlabel
    rw [hlabel] at hamong
    intro hknown
    obtain ⟨hothers, hfails, hfirst⟩ := hamong hknown
    refine ⟨fun j hj => ?_, fun hzero => absurd hzero hfails, hfirst⟩
    by_cases hlt : j < n
    · exact hothers j hlt hj
    · rw [places_of_threads (fun e' he' => hthreads e' (hpre.subset (List.mem_append_left _ he'))) hlt]
      exact id
  · trivial

/-- A worker registers. -/
def registration : Frame := (DistMsgType.registerW.code, encodeRegister 1 {} 1)

def rollTo (e : CoordinatorEpoch) : Frame := (DistMsgType.rollEpoch.code, encodeRollEpoch e)

/-- A worker has taken so many sections of its registration when a client rolls the epoch. -/
def rollAmid (n : Nat) : List ConnMove :=
  .connect [registration] :: List.replicate n (.step 0) ++
    .connect [rollTo 2] :: List.replicate 9 (.step 1) ++ List.replicate (6 - n) (.step 0)

def firstWorker : WorkerSlot := { fd := some 0, id := 1 }

/-- A roll after the acknowledgement. -/
theorem worker_streams_whole_sample : ∃ tr pool, CoordRuns {} {} tr pool ∧ SendsInTurn {} tr ∧
    pool.shared.workers = [firstWorker] ∧ ∃ (frames under : List Frame) (part : Bytes),
      (pool.shared.channels 0).sent = frames.flatMap frameBytes ++ part ∧
      ∀ f, (frames ++ under).head? = some f → Acknowledges firstWorker f := by
  have hplay : (playConns {} {} (rollAmid 6)).map (fun out => (out.2.shared.workers,
      decide (∀ e ∈ out.1, e.thread < 2),
      decide (Foundation.Throughout (Place.next {}) (InTurnAmong {} 2) (fun _ => {}) out.1))) =
        some ([firstWorker], true, true) := by
    decide +kernel
  obtain ⟨⟨tr, pool⟩, hplay, hout⟩ := Option.map_eq_some_iff.mp hplay
  obtain ⟨hworkers, hout⟩ := Prod.mk.inj hout
  obtain ⟨hthreads, hturn⟩ := Prod.mk.inj hout
  have hruns : CoordRuns {} {} tr pool := CoordRuns.of_play hplay
  have hsends := sendsInTurn_of_among (of_decide_eq_true hthreads) (of_decide_eq_true hturn)
  have hlisted : firstWorker ∈ pool.shared.workers := by
    rw [hworkers]
    exact List.mem_singleton.mpr rfl
  obtain ⟨frames, under, part, hsent, hgreet, -⟩ :=
    worker_streams_whole hruns hsends firstWorker hlisted 0 rfl
  exact ⟨tr, pool, hruns, hsends, hworkers, frames, under, part, hsent, hgreet⟩

/-- The frames of a short stream can be read back. -/
theorem framesOf_of_flatMap {stream : Bytes} {frames : List Frame} (hlen : stream.length ≤ 100)
    (h : stream = frames.flatMap frameBytes) : TcpConnection.framesOf stream = (frames, []) := by
  subst h
  have hfits : ∀ f ∈ frames, TcpConnection.Fits f := by
    intro f hf
    have hmem := (List.sublist_flatten_of_mem (List.mem_map_of_mem (f := frameBytes) hf)).length_le
    rw [← List.flatMap_def, TcpConnection.frameBytes_length] at hmem
    have hmax : 100 ≤ kDistMaxFrameBytes - kDistHeaderBytes := by decide
    exact le_trans (by omega) hmax
  have hread := TcpConnection.framesOf_append hfits TcpConnection.frameReader_nil
  rwa [List.append_nil] at hread

/-- **Torn and overtaken.** A roll between the two `::send`s of the acknowledgement: when everything
has come to its end, what was sent to the worker is not made of frames.  A roll before the
acknowledgement: the first frame is the roll. -/
theorem torn_and_overtaken :
    (∃ tr pool, CoordRuns {} {} tr pool ∧ (∀ q ∈ pool.threads, ∃ u, q = .ret u) ∧
      pool.shared.workers = [firstWorker] ∧
      ¬ ∃ frames : List Frame, (pool.shared.channels 0).sent = frames.flatMap frameBytes) ∧
    ∃ tr pool, CoordRuns {} {} tr pool ∧ (∀ q ∈ pool.threads, ∃ u, q = .ret u) ∧
      pool.shared.workers = [firstWorker] ∧
      ¬ ∃ frames : List Frame, (pool.shared.channels 0).sent = frames.flatMap frameBytes ∧
        ∀ f, frames.head? = some f → Acknowledges firstWorker f := by
  constructor
  · have hplay : (playConns {} {} (rollAmid 5)).map (fun out =>
        (out.2.threads.all Prog.ended, out.2.shared.workers,
          decide ((out.2.shared.channels 0).sent.length ≤ 100),
          (TcpConnection.framesOf (out.2.shared.channels 0).sent).2.isEmpty)) =
            some (true, [firstWorker], true, false) := by
      decide +kernel
    obtain ⟨⟨tr, pool⟩, hplay, hout⟩ := Option.map_eq_some_iff.mp hplay
    obtain ⟨hended, hout⟩ := Prod.mk.inj hout
    obtain ⟨hworkers, hout⟩ := Prod.mk.inj hout
    obtain ⟨hlen, hleft⟩ := Prod.mk.inj hout
    refine ⟨tr, pool, CoordRuns.of_play hplay, fun q hq => Prog.ended_iff.mp (List.all_eq_true.mp hended q hq),
      hworkers, ?_⟩
    rintro ⟨frames, hsent⟩
    rw [framesOf_of_flatMap (of_decide_eq_true hlen) hsent] at hleft
    cases hleft
  · have hplay : (playConns {} {} (rollAmid 3)).map (fun out =>
        (out.2.threads.all Prog.ended, out.2.shared.workers,
          decide ((out.2.shared.channels 0).sent.length ≤ 100),
          decide ((TcpConnection.framesOf (out.2.shared.channels 0).sent).1.head? = some (rollTo 2)))) =
            some (true, [firstWorker], true, true) := by
      decide +kernel
    obtain ⟨⟨tr, pool⟩, hplay, hout⟩ := Option.map_eq_some_iff.mp hplay
    obtain ⟨hended, hout⟩ := Prod.mk.inj hout
    obtain ⟨hworkers, hout⟩ := Prod.mk.inj hout
    obtain ⟨hlen, hhead⟩ := Prod.mk.inj hout
    refine ⟨tr, pool, CoordRuns.of_play hplay, fun q hq => Prog.ended_iff.mp (List.all_eq_true.mp hended q hq),
      hworkers, ?_⟩
    rintro ⟨frames, hsent, hgreet⟩
    rw [framesOf_of_flatMap (of_decide_eq_true hlen) hsent] at hhead
    obtain ⟨x, hx⟩ := hgreet _ (of_decide_eq_true hhead)
    have hne : DistMsgType.rollEpoch.code ≠ DistMsgType.registerAckC.code := by decide
    exact hne (Prod.mk.inj hx).1

end KernelCache
