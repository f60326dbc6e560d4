/-
# KernelCache.Immutable — the bytes under an id never change (`docs/lifecycle.md`).

A record gets its bytes when it is published.  An eviction drops them, and `ensure_bytes` reads them
back from the root by the id; what it finds there may be half written, and a reload that began before
an eviction may end after it.  Still, in a root that was empty, the files of an id come from the one
build that published it, since only a build whose record is NEW persists it; its metadata gives the
checksum of its bytes, and `get` refuses a blob that does not match.  So the record holds the bytes it
was published with or none, and every reload returns them (`bytes_never_change`), as long as no part
of them has their checksum.
-/
import KernelCache.ModulePath
import KernelCache.Reload
import KernelCache.Restart
import KernelCache.TornWrites

namespace KernelCache

open Foundation (Bytes Prog Runs Pool Event Stable pathOf)
open Foundation.Prog (sect perform Free Sat)
open FilePersistenceStore (fullMeta)

/-! ## What a reload can return -/

/-- The checksum in the text of an artifact. -/
theorem lastField_metaLines (a : StoredArtifact) :
    lastField "artifact_sha256" (metaLines a) = some (a.sha256Hex.getD []) := by
  simp (disch := decide) only [metaLines, metaFields, List.map_cons, List.map_nil, lastField,
    field?_same, field?_other, Option.none_or, Option.or_none]

/-- The artifact is named by the checksum of its bytes. -/
def StoredArtifact.Checked (a : StoredArtifact) : Prop :=
  a.sha256Hex = some (toHex (Sha256.digest a.bytes))

theorem StoredArtifact.Checked.printableSha {a : StoredArtifact} (h : a.Checked) :
    a.PrintableSha := by
  unfold StoredArtifact.PrintableSha
  rw [h, Option.getD_some]
  exact toHex_printable _

/-- What the text of such an artifact lets pass has the checksum of its bytes. -/
theorem parse_checked {a b : StoredArtifact} (ha : a.Checked) {blob : Option Bytes}
    (h : parseArtifactInner (fullMeta a) blob = .ok b) :
    blob = some b.bytes ∧ Sha256.digest b.bytes = Sha256.digest a.bytes := by
  rw [parseArtifactInner_fullMeta ha.printableSha] at h
  cases hlines : parseLines {} (metaLines a) with
  | error e =>
    rw [hlines] at h
    cases h
  | ok fields =>
    rw [hlines] at h
    obtain ⟨bytes, hblob, -, -, hsha, rfl⟩ := checkBlob_ok_iff.mp h
    refine ⟨hblob, ?_⟩
    have hfield : fields.sha256Hex.getD [] = toHex (Sha256.digest a.bytes) := by
      rw [parseLines_sha hlines, lastField_metaLines, ha]
      rfl
    rw [hfield] at hsha
    rcases hsha with hnil | hsame
    · exact absurd hnil (toHex_ne_nil _)
    · exact (toHex_injective hsame).symm

/-- No part of the bytes has their checksum. -/
def PartsApart (b : Bytes) : Prop :=
  ∀ part, part <+: b → Sha256.digest part = Sha256.digest b → part = b

/-- An artifact of the root; under the id `x` it has the bytes `b`. -/
def StoredAs (x : ArtifactId) (b : Bytes) (a : StoredArtifact) : Prop :=
  a.Checked ∧ (a.id = x → a.bytes = b)

/-- **A reload returns the bytes of the id**, or fails. -/
theorem get_storedAs {st : FilePersistenceStore} {x : ArtifactId} {b : Bytes}
    (h : st.Backed (StoredAs x b)) (hsha : PartsApart b) {a : StoredArtifact}
    (hget : st.get x = .ok a) : a.bytes = b := by
  unfold FilePersistenceStore.get at hget
  dsimp only at hget
  split at hget
  · cases hget
  · cases hmeta : st.artifacts.lookup (metaName x) with
    | none =>
      rw [hmeta] at hget
      cases hget
    | some text =>
      rw [hmeta, Option.getD_some] at hget
      obtain ⟨a₀, ⟨hchecked, hbytes⟩, hid, htext⟩ := h.metas x text hmeta
      rcases parse_prefix hchecked.printableSha htext (st.artifacts.lookup (blobName x)) with
        hsame | ⟨e, herr⟩
      · rw [hsame] at hget
        obtain ⟨hblob, hdigest⟩ := parse_checked hchecked hget
        obtain ⟨a₁, ⟨-, hbytes₁⟩, hid₁, hpart⟩ := h.blobs x a.bytes hblob
        rw [hbytes₁ hid₁] at hpart
        rw [hbytes hid] at hdigest
        exact hsha a.bytes hpart hdigest
      · rw [herr] at hget
        cases hget

/-! ## What builds persist -/

/-- A build that publishes the id has these bytes. -/
def Step.Binds (x : ArtifactId) (b : Bytes) (l : Step) (s : Impl) : Prop :=
  match l with
  | .publish _ o => o.id = x → s.byId.lookup x = none → o.bytes = b
  | _ => True

/-- What is persisted is checked, and under the id it has these bytes. -/
def Step.Persists (x : ArtifactId) (b : Bytes) (l : Step) : Prop :=
  match l with
  | .persist o => o.desc.bytesSha256 = toHex (Sha256.digest o.bytes) ∧ (o.desc.id = x → o.bytes = b)
  | _ => True

section Persist

variable {env : Env} {x : ArtifactId} {b : Bytes}

theorem builds_persist : BuildsWith env (fun l s _ => l.Binds x b s) (fun l _ _ => l.Persists x b)
    (fun _ _ => True)
    (fun o _ => o.desc.bytesSha256 = toHex (Sha256.digest o.bytes) ∧ (o.desc.id = x → o.bytes = b))
    where
  stable _ := Stable.const _ _ _
  stable_published _ := Stable.const _ _ _
  join _ _ _ _ _ := ⟨trivial, fun _ _ _ => trivial⟩
  publish fence gen o s s' ho _ _ hbinds := by
    refine ⟨trivial, fun hnew => ⟨ho.bytesSha256, fun hid => ?_⟩⟩
    rw [ho.desc_id] at hid
    refine hbinds hid ?_
    -- a build whose id is taken is not new
    unfold Impl.publish at hnew
    rw [hid] at hnew
    cases hfree : s.byId.lookup x with
    | none => rfl
    | some p =>
      rw [hfree] at hnew
      cases hnew
  persist _ _ _ hs _ _ := hs
  other l _ _ _ _ hl _ _ := by
    cases l with
    | persist o => cases hl
    | _ => exact trivial

theorem operation_persists (op : Operation) :
    (op.prog env).Free (exec env) (fun l s _ => l.Binds x b s) (fun l _ _ => l.Persists x b) := by
  refine operation_free_of_builds (walk_guaranteed fun l s s' _ _ _ hstage => ?_)
    builds_persist.buildImpl op
  cases l with
  | persist o => exact hstage.elim
  | _ => exact trivial

/-- The files of the id, one step. -/
theorem exec_storedAs {l : Step} {s s' : Impl} (h : exec env l s = some s') (hl : l.Proper)
    (hpersist : l.Persists x b) (hs : s.store.Backed (StoredAs x b)) :
    s'.store.Backed (StoredAs x b) := by
  by_cases hstore : l.isStore = true
  · obtain ⟨-, rfl⟩ := exec_eq_some.mp h
    cases l with
    | persist o =>
      have ho : StoredAs x b (Impl.storedArtifact (env.now s.tick) o) :=
        ⟨congrArg some hpersist.1, hpersist.2⟩
      exact hs.put ho _
    | recoverRead => exact hs.recover (env.dirOrder s.tick s.store.artifacts.keys)
    | _ => cases hstore
  · rw [exec_store h hl (by simpa using hstore)]
    exact hs

theorem runs_storedAs {store : FilePersistenceStore} {tr : List (Event Step Impl)}
    {pool : Pool Step Impl Answer} (h : CacheRuns env store tr pool)
    (hroot : env.cfg.persistenceOpen = true → store = {})
    (hbinds : ∀ e ∈ tr, e.label.Binds x b e.before) :
    ∀ e ∈ tr, env.cfg.persistenceOpen = true → e.before.store.Backed (StoredAs x b) := by
  have hpersists : ∀ e ∈ tr, e.label.Persists x b := by
    refine Runs.guarantee (C := fun l s _ => l.Binds x b s) (G := fun l _ _ => l.Persists x b) ?_ h
      hbinds
    rintro p ⟨op, rfl⟩
    exact operation_persists op
  have hinv := Runs.invariant
    (I := fun s : Impl => env.cfg.persistenceOpen = true → s.store.Backed (StoredAs x b)) ?_ h
    fun e he hs hopen =>
      exec_storedAs (h.event_step e he) (runs_proper h e he) (hpersists e he) (hs hopen)
  · exact fun e he => (hinv.1 e he).1
  · intro hopen
    rw [show (Impl.initial store).store = store from rfl, hroot hopen]
    exact .empty

end Persist

/-! ## The record of a publication -/

/-- The section publishes the record `p` with the bytes `b`: the outcome of a build, or what is put. -/
def PublishesBytes (e : Event Step Impl) (p : Nat) (b : Bytes) : Prop :=
  (e.before.nextRecord ≤ p ∧ p < e.after.nextRecord) ∧
    ((∃ fence o, e.label = .publish fence o ∧ o.bytes = b) ∨ ∃ desc, e.label = .put desc b)

/-- The index only grows. -/
structure Impl.Grows (s s' : Impl) : Prop where
  next_le : s.nextRecord ≤ s'.nextRecord
  keeps : ∀ id p, s.byId.lookup id = some p → s'.byId.lookup id = some p

theorem Impl.Grows.refl (s : Impl) : s.Grows s := ⟨le_rfl, fun _ _ h => h⟩

theorem Impl.Grows.trans {s s' s'' : Impl} (h : s.Grows s') (h' : s'.Grows s'') : s.Grows s'' :=
  ⟨h.next_le.trans h'.next_le, fun id p hp => h'.keeps id p (h.keeps id p hp)⟩

section Publication

variable {env : Env} {store : FilePersistenceStore} {tr : List (Event Step Impl)}
  {pool : Pool Step Impl Answer}

theorem runs_grow (h : CacheRuns env store tr pool) : ∀ e ∈ tr, e.before.Grows e.after := by
  intro e he
  have hext := exec_extends (h.event_step e he) (runs_proper h e he)
  exact ⟨hext.next_le, hext.keeps⟩

/-- Its id was free, is bound to it from now on, and it has its bytes. -/
theorem runs_published (h : CacheRuns env store tr pool) {e : Event Step Impl} (he : e ∈ tr) {p : Nat}
    {b : Bytes} (hnew : PublishesBytes e p b) :
    (e.after.records p).bytes = b ∧ e.before.byId.lookup (e.after.records p).id = none ∧
      e.after.byId.lookup (e.after.records p).id = some p := by
  obtain ⟨⟨hle, hlt⟩, hlabel⟩ := hnew
  have hext := exec_extends (h.event_step e he) (runs_proper h e he)
  have hbound := hext.indexed p hle hlt
  obtain ⟨r, hr, hrec⟩ := hext.fresh p hle hlt
  refine ⟨?_, ?_, hbound⟩
  · rw [hrec]
    rcases hlabel with ⟨fence, o, hlabel, rfl⟩ | ⟨desc, hlabel⟩
    · rw [hlabel] at hr
      obtain rfl := List.mem_singleton.mp hr
      rfl
    · rw [hlabel] at hr
      obtain rfl := List.mem_singleton.mp hr
      rfl
  · rcases hext.new _ p hbound with hold | hfree
    · have hold := (((runs_sound h).1 e he).1.bound _ p hold).1
      omega
    · exact hfree.1

variable {tr₁ tr₂ : List (Event Step Impl)} {e : Event Step Impl} {p : Nat} {b : Bytes}

/-- Only that publication has bound the id. -/
theorem runs_binds (h : CacheRuns env store tr pool) (htr : tr = tr₁ ++ e :: tr₂)
    (hnew : PublishesBytes e p b) :
    ∀ e' ∈ tr, e'.label.Binds (e.after.records p).id b e'.before := by
  have he : e ∈ tr := by simp [htr]
  obtain ⟨-, hfree, hbound⟩ := runs_published h he hnew
  obtain ⟨hearlier, hlater⟩ := h.ordered Impl.Grows.refl (fun _ _ _ => Impl.Grows.trans)
    (runs_grow h) htr
  intro e' he'
  cases hl : e'.label with
  | publish fence o =>
    intro hid hnone
    rw [htr] at he'
    rcases List.mem_append.mp he' with hbefore | hrest
    · -- the id would have been taken before
      have hmem : e' ∈ tr := by simp [htr, hbefore]
      have hstep := h.event_step e' hmem
      have hproper := runs_proper h e' hmem
      rw [hl] at hstep hproper
      rw [← hid] at hnone
      have htaken := (exec_publish_new hstep hproper.2 hnone).2.1
      rw [hid] at htaken
      rw [(hearlier e' hbefore).keeps _ _ htaken] at hfree
      cases hfree
    · rcases List.mem_cons.mp hrest with rfl | hafter
      · rcases hnew.2 with ⟨fence', o', hl', hbytes⟩ | ⟨desc, hl'⟩
        · rw [hl] at hl'
          cases hl'
          exact hbytes
        · rw [hl] at hl'
          cases hl'
      · rw [(hlater e' hafter).keeps _ _ hbound] at hnone
        cases hnone
  | _ => exact trivial

/-- Behind the pointer is always the record of that id. -/
theorem runs_own (h : CacheRuns env store tr pool) (htr : tr = tr₁ ++ e :: tr₂)
    (hnew : PublishesBytes e p b) :
    ∀ e' ∈ tr, p < e'.before.nextRecord → (e'.before.records p).id = (e.after.records p).id := by
  have he : e ∈ tr := by simp [htr]
  obtain ⟨-, -, hbound⟩ := runs_published h he hnew
  obtain ⟨hearlier, hlater⟩ := h.ordered Impl.Grows.refl (fun _ _ _ => Impl.Grows.trans)
    (runs_grow h) htr
  have hle := hnew.1.1
  intro e' he' hp
  have hgrows := (runs_grow h e' he').next_le
  have hsound := ((runs_sound h).1 e' he').1
  rw [htr] at he'
  rcases List.mem_append.mp he' with hbefore | hrest
  · have hnext := (hearlier e' hbefore).next_le
    omega
  · rcases List.mem_cons.mp hrest with rfl | hafter
    · omega
    · exact (hsound.bound _ p ((hlater e' hafter).keeps _ _ hbound)).2

end Publication

/-! ## What reloads return -/

/-- The steps considered: the root holds the bytes under the id, and the pointer's record has the
id. -/
structure Owned (env : Env) (x : ArtifactId) (b : Bytes) (p : Nat) (l : Step) (s s' : Impl) : Prop
    extends SoundSteps l s s' where
  stored : env.cfg.persistenceOpen = true → s.store.Backed (StoredAs x b)
  own : p < s.nextRecord → (s.records p).id = x

/-- What is kept of a reload of the record are its bytes. -/
def Step.Reloads (p : Nat) (b : Bytes) (l : Step) : Prop :=
  match l with
  | .storeBytes q bytes => q = p → bytes = b
  | _ => True

/-- All stages but the reload. -/
def Stage.noReload : Stage → Prop
  | .reload => False
  | _ => True

section Reloads

variable {env : Env} {x : ArtifactId} {b : Bytes} {p : Nat}

theorem Owned.fromSound : FromSound (Owned env x b p) := fun _ _ _ h => h.toSoundSteps

abbrev ReloadsOf (p : Nat) (b : Bytes) (l : Step) (_ _ : Impl) : Prop := l.Reloads p b

theorem walk_reloads : Walk (Guaranteed env (Owned env x b p) (ReloadsOf p b)) Stage.noReload := by
  refine walk_guaranteed fun l s s' _ _ _ hstage => ?_
  cases l with
  | storeBytes q bytes => exact hstage.elim
  | _ => exact trivial

/-- The store returns the bytes of the record. -/
theorem Owned.get {q : Nat} {l : Step} {s s' : Impl} (h : Owned env x b p l s s')
    (hopen : env.cfg.persistenceOpen = true) (hsha : PartsApart b) (hq : q < s.nextRecord)
    (hqp : q = p) {a : StoredArtifact} (hget : s.store.get (s.records q).id = .ok a) :
    a.bytes = b := by
  subst hqp
  rw [h.own hq] at hget
  exact get_storedAs (h.stored hopen) hsha hget

theorem ensureBytes_reloads (hsha : PartsApart b) (q : Nat) :
    SatThere env (Owned env x b p) (ReloadsOf p b) q (ensureBytes env q) := by
  unfold ensureBytes
  refine Sat.bind (Guaranteed.carry (stable_there Owned.fromSound q)
    (walk_reloads.sect (Q := Walk.Any) trivial trivial fun _ => trivial)) fun bytes => ?_
  split
  · exact Sat.ret fun _ _ => trivial
  · split
    · rename_i hopen
      refine Sat.bind (Q := fun res _ => ∀ a, res = .ok a → q = p → a.bytes = b)
        (Sat.sect (fun _ => Stable.const _ _ _) ?_) fun res => ?_
      · exact fun s s' hq _ hC => ⟨trivial, fun a hget hqp => hC.get hopen hsha hq.2 hqp hget⟩
      · cases res with
        | error e => exact Sat.ret fun _ _ => trivial
        | ok a =>
          refine Sat.bind (Q := fun _ _ => True) (Sat.sect (fun _ => Stable.const _ _ _) ?_)
            fun _ => Sat.ret fun _ _ => trivial
          exact fun s s' ha _ _ => ⟨ha a rfl, trivial⟩
    · exact Sat.ret fun _ _ => trivial

theorem operation_reloads (hsha : PartsApart b) (op : Operation) :
    (op.prog env).Free (exec env) (Owned env x b p) (ReloadsOf p b) := by
  have w : Walk (Guaranteed env (Owned env x b p) (ReloadsOf p b)) Stage.noReload := walk_reloads
  apply operation_around_reloads Owned.fromSound w
  · intro g hreload _
    cases g with
    | reload => exact absurd rfl hreload
    | _ => exact trivial
  · exact ensureBytes_reloads hsha
  · exact fun request => w.buildImpl trivial trivial (w.sect trivial trivial fun _ => trivial)
      (fun _ _ => w.perform trivial trivial) fun _ _ => w.perform trivial trivial

end Reloads

/-! ## The bytes of a record -/

/-- The record holds the bytes `b` or none. -/
def Impl.HoldsBytes (s : Impl) (p : Nat) (b : Bytes) : Prop :=
  (s.records p).bytes = b ∨ (s.records p).bytes = []

theorem exec_holdsBytes {env : Env} {l : Step} {s s' : Impl} {p : Nat} {b : Bytes}
    (h : exec env l s = some s') (hl : l.Proper) (hreload : l.Reloads p b) (hp : p < s.nextRecord)
    (hs : s.HoldsBytes p b) : s'.HoldsBytes p b := by
  unfold Impl.HoldsBytes at hs ⊢
  rcases exec_bytes h hl hp with hkept | hstored | ⟨-, -, hdropped⟩
  · rw [hkept]
    exact hs
  · rw [hstored] at hreload
    exact .inl (hreload rfl)
  · exact .inr hdropped

section Immutable

variable {env : Env} {store : FilePersistenceStore} {tr tr₁ tr₂ : List (Event Step Impl)}
  {pool : Pool Step Impl Answer} {e : Event Step Impl} {p : Nat} {b : Bytes}

/-- In a root that was empty every step is one of those considered. -/
theorem runs_owned (h : CacheRuns env store tr pool)
    (hroot : env.cfg.persistenceOpen = true → store = {}) (htr : tr = tr₁ ++ e :: tr₂)
    (hnew : PublishesBytes e p b) :
    ∀ e' ∈ tr, Owned env (e.after.records p).id b p e'.label e'.before e'.after := fun e' he' =>
  { proper := runs_proper h e' he'
    sound := ((runs_sound h).1 e' he').1
    stored := runs_storedAs h hroot (runs_binds h htr hnew) e' he'
    own := runs_own h htr hnew e' he' }

/-- A whole `ensure_bytes` among the sections considered returns the bytes of the record. -/
theorem ensureBytes_leads {x : ArtifactId} {path : List (Step × Impl)} {bytes : Bytes}
    (hsha : PartsApart b) (hpath : (ensureBytes env p).Leads path (.ret (.ok bytes)))
    (hheld : ∀ a ∈ path, a.2.HoldsBytes p b ∧ p < a.2.nextRecord ∧
      ∃ s', Owned env x b p a.1 a.2 s') : bytes = b := by
  unfold ensureBytes at hpath
  obtain ⟨s, rest, rfl, hrest⟩ := hpath.of_sect
  have hbytes : s.HoldsBytes p b := (hheld _ List.mem_cons_self).1
  split at hrest
  · rename_i hne
    have heq := hrest.of_ret
    cases heq
    refine hbytes.resolve_right fun hnil => ?_
    rw [hnil] at hne
    cases hne
  · split at hrest
    · rename_i hopen
      obtain ⟨s₁, rest₁, rfl, hread⟩ := hrest.of_sect
      obtain ⟨-, hp, s', howned⟩ := hheld (.reload p, s₁) (by simp)
      cases hget : s₁.store.get (s₁.records p).id with
      | error err =>
        rw [hget] at hread
        cases hread.of_ret
      | ok a =>
        rw [hget] at hread
        obtain ⟨-, rest₂, -, hlast⟩ := hread.of_sect
        have heq := hlast.of_ret
        cases heq
        exact howned.get hopen hsha hp rfl hget
    · cases hrest.of_ret

/-- **The bytes under an id never change.** On every run of a cache whose root was empty, or that has
none: after a record was published with the bytes `b`, it holds `b` or nothing, and whatever a whole
`ensure_bytes` on it returns is `b`. -/
theorem bytes_never_change (h : CacheRuns env store tr pool)
    (hroot : env.cfg.persistenceOpen = true → store = {}) (htr : tr = tr₁ ++ e :: tr₂)
    (hnew : PublishesBytes e p b) (hsha : PartsApart b) :
    ((∀ e' ∈ tr₂, e'.before.HoldsBytes p b ∧ e'.after.HoldsBytes p b) ∧
      pool.shared.HoldsBytes p b) ∧
    ∀ mid, mid <:+: tr₂ → ∀ i bytes,
      (ensureBytes env p).Leads (pathOf mid i) (.ret (.ok bytes)) → bytes = b := by
  have howned := runs_owned h hroot htr hnew
  have hreloads := Runs.guarantee (C := Owned env (e.after.records p).id b p) (G := ReloadsOf p b)
    (fun q hq => by
      obtain ⟨op, rfl⟩ := hq
      exact operation_reloads hsha op) h howned
  have he : e ∈ tr := by simp [htr]
  obtain ⟨hbytes, -⟩ := runs_published h he hnew
  obtain ⟨-, ts, -, hfrom⟩ := h.cut htr
  have hinv := Runs.invariant (I := fun s => p < s.nextRecord ∧ s.HoldsBytes p b)
    ⟨hnew.1.2, .inl hbytes⟩ hfrom fun e' he' hI => by
      have hmem : e' ∈ tr := by simp [htr, he']
      have hstep := h.event_step e' hmem
      have hproper := (howned e' hmem).proper
      exact ⟨lt_of_lt_of_le hI.1 (exec_extends hstep hproper).next_le,
        exec_holdsBytes hstep hproper (hreloads e' hmem) hI.1 hI.2⟩
  refine ⟨⟨fun e' he' => ⟨(hinv.1 e' he').1.2, (hinv.1 e' he').2.2⟩, hinv.2.2⟩, ?_⟩
  intro mid hmid i bytes hpath
  refine ensureBytes_leads (x := (e.after.records p).id) hsha hpath fun a ha => ?_
  obtain ⟨e', he', rfl⟩ := List.mem_map.mp ha
  have hmem : e' ∈ tr₂ := hmid.subset (List.mem_filter.mp he').1
  have hbefore := (hinv.1 e' hmem).1
  exact ⟨hbefore.2, hbefore.1, e'.after, howned e' (by simp [htr, hmem])⟩

end Immutable

/-- The byte of the sample artifact: what is put is what an acquire finds. -/
theorem partsApart_sample : PartsApart [1] := by
  intro part hpart hdigest
  rcases List.prefix_cons_iff.mp hpart with rfl | ⟨rest, rfl, hrest⟩
  · exact absurd hdigest (by decide +kernel)
  · rw [List.prefix_nil.mp hrest]

/-- What is put is leased into host memory, released and evicted: the bytes are those that were put for
as long as there are any. -/
theorem bytes_never_change_sample : ∃ tr pool, CacheRuns {} {}
    (⟨0, .put sampleArtifact [1], Impl.initial {}, putState⟩ :: tr) pool ∧
    (∃ e ∈ tr, e.label = .evictCommit 0) ∧ (pool.shared.records 0).bytes = [] ∧
    pool.shared.HoldsBytes 0 [1] ∧
    ∃ mid, mid <:+: tr ∧ ∃ bytes,
      (ensureBytes {} 0).Leads (pathOf mid 1) (.ret (.ok bytes)) ∧ bytes = [1] := by
  obtain ⟨tr₁, e₁, tr₂, a, s₁, tr₃, s₂, tr₄, s₃, hacquire, hpath, hrelease, hevict, hends, hgone⟩ :
      ∃ tr₁ e₁ tr₂ a s₁ tr₃ s₂ tr₄ s₃,
        ((Operation.acquire {}).prog {}).traced (exec {}) 1 putState =
          some (tr₁ ++ [e₁] ++ tr₂, a, s₁) ∧
        (ensureBytes {} 0).Leads (pathOf [e₁] 1) (.ret (.ok [1])) ∧
        ((Operation.release 0).prog {}).traced (exec {}) 2 s₁ = some (tr₃, .done, s₂) ∧
        ((Operation.evict ⟨⟨1, 7⟩⟩ false).prog {}).traced (exec {}) 3 s₂ = some (tr₄, .done, s₃) ∧
        (∃ e ∈ tr₄, e.label = .evictCommit 0) ∧ (s₃.records 0).bytes = [] := by
    have hfirst := acquireImpl_traced {} 1 {} defaultKey_wellFormed (s := putState) rfl
      (putState_lookup rfl rfl rfl rfl {})
    simp only [Operation.prog, Prog.bind_eq, Prog.traced_bind, hfirst]
    exact ⟨[_, _, _, _, _], _, [_, _], _, _, _, _, _, _, rfl, .take (.stay _), rfl, rfl,
      ⟨_, List.mem_of_getElem? (i := 2) rfl, rfl⟩, rfl⟩
  have hruns := ((putState_runs.complete ⟨_, rfl⟩ hacquire).complete ⟨_, rfl⟩ hrelease).complete
    ⟨_, rfl⟩ hevict
  have hnew : PublishesBytes ⟨0, .put sampleArtifact [1], Impl.initial {}, putState⟩ 0 [1] :=
    ⟨⟨Nat.le_refl 0, Nat.zero_lt_one⟩, .inr ⟨sampleArtifact, rfl⟩⟩
  have hmid : [e₁] <:+: tr₁ ++ [e₁] ++ tr₂ ++ tr₃ ++ tr₄ := ⟨tr₁, tr₂ ++ tr₃ ++ tr₄, by simp⟩
  obtain ⟨e, he, hlabel⟩ := hends
  obtain ⟨⟨-, hheld⟩, hensure⟩ := bytes_never_change hruns (fun _ => rfl) (List.nil_append _).symm hnew
    partsApart_sample
  exact ⟨_, _, hruns, ⟨e, List.mem_append_right _ he, hlabel⟩, hgone, hheld, _, hmid, _, hpath,
    hensure _ hmid 1 _ hpath⟩

end KernelCache
