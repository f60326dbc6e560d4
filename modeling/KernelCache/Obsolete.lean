/-
# KernelCache.Obsolete — builds that are published after a roll.

The epoch of a lookup is checked once, before the dispatch.  A roll that is stored while the worker
builds is not seen: the request went to the worker ahead of the roll, on the same socket, so the worker
accepts it, and the coordinator records the reply without another look at its epoch.

`published_current_iff` says which runs are free of that.
-/
import KernelCache.Conduct

namespace KernelCache

open Foundation (Event Pool)

/-! ## The epoch since a check -/

/-- The epoch under which the lookup in hand goes on, once it has been checked. -/
def ConnStage.authority : ConnStage → Option CoordinatorEpoch
  | checked e true | dispatching e _ => some e
  | _ => none

theorem ConnStage.authority_sent (st : ConnStage) (fd : Socket) :
    (st.sent fd).authority = st.authority := by
  cases st <;> rfl

theorem ConnStage.authority_broken (st : ConnStage) : st.broken.authority = st.authority := by
  cases st <;> rfl

/-- Writing has no part in it. -/
theorem Place.authority_send (peers : Peers) (pl : Place) (fd : Socket) (frame : Frame)
    (bytes : Foundation.Bytes) (s : Coordinator) :
    (pl.next peers (.send fd frame bytes) s).stage.authority = pl.stage.authority := by
  unfold Place.next
  dsimp only
  split
  · exact pl.stage.authority_broken
  · unfold Place.conveyed
    split
    · exact pl.stage.authority_sent fd
    split
    · rfl
    · rfl

/-- An authority comes from a check that it passed, and is gone with a roll. -/
theorem Place.authority_next {peers : Peers} {pl : Place} {l : CoordStep} {s : Coordinator}
    {ε : CoordinatorEpoch} (hok : pl.Allows l)
    (h : (pl.next peers l s).stage.authority = some ε) :
    (l = .checkEpoch ε ∧ s.epoch = ε) ∨
      (∀ x, l ≠ .checkEpoch x ∧ l ≠ .storeEpoch x) ∧ pl.stage.authority = some ε := by
  cases l with
  | checkEpoch x =>
    cases hcurrent : x == s.epoch with
    | false =>
      simp [Place.next, ConnStage.next, hcurrent, ConnStage.authority] at h
    | true =>
      simp only [Place.next, ConnStage.next, hcurrent, ConnStage.authority, Option.some.injEq] at h
      subst h
      exact .inl ⟨rfl, (eq_of_beq hcurrent).symm⟩
  | send fd frame bytes =>
    rw [Place.authority_send] at h
    exact .inr ⟨fun x => ⟨CoordStep.noConfusion, CoordStep.noConfusion⟩, h⟩
  | pickWorker boot =>
    obtain ⟨x, hstage⟩ := hok
    rw [hstage]
    simp only [Place.next, ConnStage.next, hstage] at h
    exact .inr ⟨fun x => ⟨CoordStep.noConfusion, CoordStep.noConfusion⟩, h⟩
  | receive _ _ | storeEpoch _ | storeGen _ | unlockWorkers | register _ => cases h
  | lockWorkers | readWorkers | loadEpoch =>
    obtain ⟨x, hstage⟩ := hok
    simp only [Place.next, ConnStage.next, hstage, ConnStage.authority] at h
    cases h
  -- what is left does not move the thread
  | _ => exact .inr ⟨fun x => ⟨CoordStep.noConfusion, CoordStep.noConfusion⟩, h⟩

/-- What was last stored as the epoch since the thread's last check. -/
def rolledSince (i : Nat) (tr : List (Event CoordStep Coordinator)) : Option CoordinatorEpoch :=
  tr.foldl (fun last e =>
    match e.label with
    | .checkEpoch _ => if e.thread = i then none else last
    | .storeEpoch x => some x
    | _ => last) none

theorem rolledSince_concat (i : Nat) (tr : List (Event CoordStep Coordinator))
    (e : Event CoordStep Coordinator) : rolledSince i (tr ++ [e]) =
      match e.label with
      | .checkEpoch _ => if e.thread = i then none else rolledSince i tr
      | .storeEpoch x => some x
      | _ => rolledSince i tr := by
  rw [rolledSince, List.foldl_append]
  rfl

section Runs

variable {peers : Peers} {store : FilePersistenceStore} {tr : List (Event CoordStep Coordinator)}
  {pool : Pool CoordStep Coordinator Unit}

/-- The epoch is the one a thread has checked, or what was stored since. -/
def Followed (peers : Peers) (tr : List (Event CoordStep Coordinator)) (s : Coordinator) : Prop :=
  ∀ i ε, (places peers tr i).stage.authority = some ε → s.epoch = (rolledSince i tr).getD ε

theorem followed_concat {e : Event CoordStep Coordinator}
    (hok : (places peers tr e.thread).Allows e.label) (hafter : e.after = e.label.effect peers e.before)
    (h : Followed peers tr e.before) : Followed peers (tr ++ [e]) e.after := by
  intro i ε hε
  rw [rolledSince_concat, hafter, CoordStep.effect_epoch]
  rw [places_concat] at hε
  by_cases hi : i = e.thread
  · subst hi
    rw [Function.update_self] at hε
    rcases Place.authority_next hok hε with ⟨hlabel, hcurrent⟩ | ⟨hlabel, hold⟩
    · simp [hlabel, hcurrent]
    · have hbefore := h e.thread ε hold
      cases hl : e.label with
      | checkEpoch x => exact absurd hl (hlabel x).1
      | storeEpoch x => exact absurd hl (hlabel x).2
      | _ => exact hbefore
  · rw [Function.update_of_ne hi] at hε
    have hbefore := h i ε hε
    have hne : e.thread ≠ i := fun heq => hi heq.symm
    cases e.label with
    | checkEpoch x =>
      simp only [hne, if_false]
      exact hbefore
    | storeEpoch x => rfl
    | _ => exact hbefore

theorem followed (h : CoordRuns peers store tr pool) {tr₁ : List (Event CoordStep Coordinator)}
    {e : Event CoordStep Coordinator} (hpre : tr₁ ++ [e] <+: tr) : Followed peers tr₁ e.before := by
  refine (Foundation.Runs.history ?_ h fun tr₁ e hpre hI => ?_).1 tr₁ e hpre |>.1
  · exact fun i ε hε => by cases hε
  · have hstep := h.event_step e (hpre.subset (by simp))
    exact followed_concat (conducted h hpre).1 (coordExec_eq_some.mp hstep).2 hI

/-! ## Published builds -/

/-- The epoch of the lookup request in hand. -/
def Place.asked (pl : Place) : Option CoordinatorEpoch :=
  match pl.frame with
  | some (type, p) =>
    if type = DistMsgType.lookupReq.code then
      match (decodeLookupRequest p {}).1 with
      | .ok auth => some auth.epoch
      | .error _ => none
    else none
  | none => none

theorem Place.Asks.asked {pl : Place} {e : CoordinatorEpoch} (h : pl.Asks e) : pl.asked = some e := by
  obtain ⟨p, auth, hframe, hauth, rfl⟩ := h
  unfold Place.asked
  rw [hframe]
  simp only [if_true, hauth]

/-- A build that is recorded, to be answered as a hit: the epoch of its request, and the epoch. -/
def publication (pl : Place) (l : CoordStep) (s : Coordinator) :
    Option (Option CoordinatorEpoch × CoordinatorEpoch) :=
  match l with
  | .recordBuilt _ _ _ => some (pl.asked, s.epoch)
  | _ => none

def publications (peers : Peers) (tr : List (Event CoordStep Coordinator)) :
    List (Option CoordinatorEpoch × CoordinatorEpoch) :=
  Foundation.outputs (Place.next peers) publication (fun _ => {}) tr

/-- Every build is recorded while the epoch is that of its request. -/
def PublishedCurrent (peers : Peers) (tr : List (Event CoordStep Coordinator)) : Prop :=
  ∀ c ∈ publications peers tr, c.1 = some c.2

/-- Between the epoch check of a request and the recording of its build no roll is stored, or the last
one is back to the epoch of the request. -/
def RolledBack (peers : Peers) (tr : List (Event CoordStep Coordinator)) : Prop :=
  ∀ tr₁ e, tr₁ ++ [e] <+: tr → ∀ kh id gen, e.label = .recordBuilt kh id gen →
    ∀ x, rolledSince e.thread tr₁ = some x → (places peers tr₁ e.thread).asked = some x

/-- **Obsolete completions.** Every build is recorded under the epoch of its request if and only if no
other epoch is stored between the check of the request and the recording, to stay. -/
theorem published_current_iff (h : CoordRuns peers store tr pool) :
    PublishedCurrent peers tr ↔ RolledBack peers tr := by
  rw [PublishedCurrent, publications, Foundation.outputs_forall]
  refine forall_congr' fun tr₁ => forall_congr' fun e => forall_congr' fun hpre => ?_
  have hallows := (conducted h hpre).1
  have hfollowed := followed h hpre e.thread
  change (∀ c, publication (places peers tr₁ e.thread) e.label e.before = some c → _) ↔ _
  cases hlabel : e.label with
  | recordBuilt kh id gen =>
    rw [hlabel] at hallows
    obtain ⟨ε, fd, hstage, hasks⟩ := hallows
    have hepoch := hfollowed ε (by rw [hstage]; rfl)
    simp only [publication, Option.some.injEq, forall_eq', hasks.asked, hepoch]
    cases hrolled : rolledSince e.thread tr₁ with
    | none => simp
    | some x =>
      constructor
      · rintro heq _ _ _ _ _ ⟨⟩
        exact heq
      · intro hback
        exact hback kh id gen rfl x rfl
  | _ => exact iff_of_true (fun c hc => by cases hc) fun _ _ _ heq => by cases heq

end Runs

/-- A worker that builds whatever it is asked to. -/
def buildingWorker : Peers :=
  { frame := fun _ _ => some (DistMsgType.buildResp.code, encodeBuildResponse {} ⟨⟨1, 2⟩⟩ 1 0 []) }

/-- A lookup of a key under epoch and generation one. -/
def firstEpochLookup : Frame :=
  (DistMsgType.lookupReq.code, encodeLookupRequest { epoch := 1, cacheGen := 1 } {} []
    (KernelCompatibilityKey.finalize { operation := str "gemm" }).canonical [] 0)

/-- A worker registers; a client looks a key up twice, and the second request goes to the worker; then
there are these moves before the reply is read. -/
def buildThrough (moves : List ConnMove) : List ConnMove :=
  .connect [(DistMsgType.registerW.code, encodeRegister 1 {} 1)] :: List.replicate 6 (.step 0) ++
    .connect [firstEpochLookup, firstEpochLookup] :: List.replicate 24 (.step 1) ++
    moves ++ List.replicate 6 (.step 1)

/-- A client rolls the epoch to two. -/
def rollToTwo : List ConnMove :=
  .connect [(DistMsgType.rollEpoch.code, encodeRollEpoch 2)] :: List.replicate 9 (.step 2)

/-- Without a roll the build is published. -/
theorem published_current_iff_sample : ∃ tr pool, CoordRuns buildingWorker {} tr pool ∧
    publications buildingWorker tr = [(some 1, 1)] ∧ RolledBack buildingWorker tr := by
  have hplay : (playConns buildingWorker {} (buildThrough [])).map
      (fun out => publications buildingWorker out.1) = some [(some 1, 1)] := by
    decide +kernel
  obtain ⟨⟨tr, pool⟩, hplay, hout⟩ := Option.map_eq_some_iff.mp hplay
  have hcurrent : PublishedCurrent buildingWorker tr := by
    intro c hc
    rw [hout] at hc
    obtain rfl := List.mem_singleton.mp hc
    rfl
  have hruns : CoordRuns buildingWorker {} tr pool := CoordRuns.of_play hplay
  exact ⟨tr, pool, hruns, hout, (published_current_iff hruns).mp hcurrent⟩

/-- A roll after the request has gone to the worker: the build is recorded, and answered as a hit, in
the next epoch. -/
theorem published_after_roll : ∃ tr pool, CoordRuns buildingWorker {} tr pool ∧
    publications buildingWorker tr = [(some 1, 2)] ∧ ¬ PublishedCurrent buildingWorker tr ∧
    (pool.shared.channels 1).sent =
      TcpConnection.frameBytes (lookupResponse {} { outcome := 0x0B }) ++
        TcpConnection.frameBytes (lookupResponse {} (.hit ⟨⟨1, 2⟩⟩ 1)) := by
  have hplay : (playConns buildingWorker {} (buildThrough rollToTwo)).map
      (fun out => (publications buildingWorker out.1, (out.2.shared.channels 1).sent)) =
        some ([(some 1, 2)], TcpConnection.frameBytes (lookupResponse {} { outcome := 0x0B }) ++
          TcpConnection.frameBytes (lookupResponse {} (.hit ⟨⟨1, 2⟩⟩ 1))) := by
    decide +kernel
  obtain ⟨⟨tr, pool⟩, hplay, hout⟩ := Option.map_eq_some_iff.mp hplay
  obtain ⟨hpublished, hsent⟩ := Prod.mk.inj hout
  have hobsolete : ¬ PublishedCurrent buildingWorker tr := by
    intro hcurrent
    have hone := hcurrent (some 1, 2) (by rw [hpublished]; exact List.mem_singleton.mpr rfl)
    exact absurd (Option.some.inj hone) (by decide)
  exact ⟨tr, pool, CoordRuns.of_play hplay, hpublished, hobsolete, hsent⟩

end KernelCache
