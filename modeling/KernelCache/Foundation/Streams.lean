/-
# KernelCache.Foundation.Streams — byte streams that arrive and leave in pieces.

A reader on a stream socket asks for `n` bytes and gets fewer; a writer offers a buffer and is told how
much of it was taken.  Both loop.  This file says once what the loops come to.

Reading: a stream is the list of the pieces in which it arrives, none of them empty.  `readExact`
gathers bytes over the pieces, and `Piecewise` relates a reader of pieces to a `Reader` of the whole
string: it answers the same, wherever the cuts are.  Reading again and again (`drain`) then gives back
the values that were written, and of a stream that ends too early a prefix of them
(`Exact.drain_flatMap`, `Exact.split_prefix`).

Writing: `writeAll` is a program over any machine that can offer bytes, and `Outgoing.step` the machine
of one connection that takes as much of each offer as it likes.
-/
import KernelCache.Foundation.Prog
import KernelCache.Foundation.Wire

namespace KernelCache.Foundation

variable {α β : Type}

/-! ## Reading in pieces -/

/-- What a connection will deliver, in the pieces in which it does.  The empty list is a stream that
has ended. -/
abbrev Pieces := List Bytes

namespace Pieces

/-- One call that asks for at most `n` bytes: the bytes, none at the end of the stream. -/
def recv (n : Nat) : Pieces → Bytes × Pieces
  | [] => ([], [])
  | p :: ps => if p.length ≤ n then (p, ps) else (p.take n, p.drop n :: ps)

/-- No piece is empty. -/
def Proper (ps : Pieces) : Prop := ∀ p ∈ ps, p ≠ []

/-- The loop that gathers `n` bytes; every round that goes on has got some. -/
def readRounds : Nat → Nat → Pieces → Option (Bytes × Pieces)
  | _, 0, ps => some ([], ps)
  | 0, _ + 1, _ => none
  | fuel + 1, n + 1, ps =>
    let (bytes, rest) := recv (n + 1) ps
    if bytes = [] then none
    else (readRounds fuel (n + 1 - bytes.length) rest).map fun out => (bytes ++ out.1, out.2)

/-- Exactly `n` bytes, or a failure. -/
def readExact (n : Nat) (ps : Pieces) : Option (Bytes × Pieces) := readRounds n n ps

theorem Proper.tail {p : Bytes} {ps : Pieces} (h : Proper (p :: ps)) : Proper ps :=
  fun q hq => h q (List.mem_cons_of_mem p hq)

/-- A call takes bytes from the front, at most `n` and at least one if there are any. -/
theorem recv_spec {n : Nat} (hn : 0 < n) {ps : Pieces} (h : Proper ps) :
    (recv n ps).1 ++ (recv n ps).2.flatten = ps.flatten ∧ (recv n ps).1.length ≤ n ∧
      Proper (recv n ps).2 ∧ ((recv n ps).1 = [] → ps = []) := by
  cases ps with
  | nil => exact ⟨rfl, Nat.zero_le n, h, fun _ => rfl⟩
  | cons p ps =>
    have hp : p ≠ [] := h p (by simp)
    simp only [recv]
    split
    · rename_i hle
      exact ⟨rfl, hle, h.tail, fun hnil => absurd hnil hp⟩
    · rename_i hlt
      refine ⟨?_, by simp, ?_, ?_⟩
      · simp [← List.append_assoc]
      · intro q hq
        rcases List.mem_cons.mp hq with rfl | hq
        · simpa using hlt
        · exact h.tail q hq
      · intro hnil
        rcases List.take_eq_nil_iff.mp hnil with hzero | hnil
        · omega
        · exact absurd hnil hp

/-- **Gathering.** The loop gets the first `n` bytes, however they arrive, and fails when there are
fewer. -/
theorem readRounds_spec {fuel n : Nat} (hfuel : n ≤ fuel) {ps : Pieces} (h : Proper ps) :
    match Reader.take n ps.flatten with
    | none => readRounds fuel n ps = none
    | some (bytes, rest) =>
      ∃ ps', readRounds fuel n ps = some (bytes, ps') ∧ ps'.flatten = rest ∧ Proper ps' := by
  induction fuel generalizing n ps with
  | zero =>
    obtain rfl := Nat.le_zero.mp hfuel
    exact ⟨ps, by simp [readRounds], rfl, h⟩
  | succ fuel ih =>
    cases n with
    | zero => exact ⟨ps, by simp [readRounds], rfl, h⟩
    | succ n =>
      obtain ⟨hsplit, hle, hproper, hend⟩ := recv_spec (Nat.succ_pos n) h
      generalize hrecv : recv (n + 1) ps = out at hsplit hle hproper hend
      obtain ⟨bytes, rest⟩ := out
      dsimp only at hsplit hle hproper hend
      simp only [readRounds, hrecv]
      by_cases hnil : bytes = []
      · -- the stream has ended
        have hps := hend hnil
        subst hps
        simp [Reader.take, hnil]
      · have hpos : 0 < bytes.length := List.length_pos_iff.mpr hnil
        have hrest := ih (n := n + 1 - bytes.length) (by omega) hproper
        have htake : Reader.take (n + 1) ps.flatten =
            (Reader.take (n + 1 - bytes.length) rest.flatten).map
              fun out => (bytes ++ out.1, out.2) := by
          rw [← hsplit]
          simp only [Reader.take, List.length_append]
          by_cases hlen : n + 1 - bytes.length ≤ rest.flatten.length
          · rw [if_pos hlen, if_pos (by omega), List.take_append, List.drop_append,
              List.take_of_length_le hle, List.drop_of_length_le hle]
            rfl
          · rw [if_neg hlen, if_neg (by omega)]
            rfl
        rw [if_neg hnil, htake]
        cases htail : Reader.take (n + 1 - bytes.length) rest.flatten with
        | none =>
          rw [htail] at hrest
          simp [hrest]
        | some out =>
          obtain ⟨more, left⟩ := out
          rw [htail] at hrest
          obtain ⟨ps', hread, hflat, hps'⟩ := hrest
          exact ⟨ps', by simp [hread], hflat, hps'⟩

/-- A reader of pieces answers as `r` does on the whole string, and leaves the same bytes. -/
def Piecewise (f : Pieces → Option (α × Pieces)) (r : Reader α) : Prop :=
  ∀ ps, Proper ps → match r ps.flatten with
    | none => f ps = none
    | some (a, rest) => ∃ ps', f ps = some (a, ps') ∧ ps'.flatten = rest ∧ Proper ps'

theorem piecewise_readExact (n : Nat) : Piecewise (readExact n) (Reader.take n) := by
  intro ps h
  have hspec := readRounds_spec (le_refl n) h
  cases htake : Reader.take n ps.flatten with
  | none =>
    rw [htake] at hspec
    exact hspec
  | some out =>
    rw [htake] at hspec
    exact hspec

theorem Piecewise.pure (a : α) : Piecewise (fun ps => some (a, ps)) (Reader.pure a) :=
  fun ps h => ⟨ps, rfl, rfl, h⟩

theorem Piecewise.fail : Piecewise (fun _ => none) (fun _ => (none : Option (α × Bytes))) :=
  fun _ _ => rfl

theorem Piecewise.bind {f : Pieces → Option (α × Pieces)} {r : Reader α}
    {g : α → Pieces → Option (β × Pieces)} {q : α → Reader β} (hf : Piecewise f r)
    (hg : ∀ a, Piecewise (g a) (q a)) :
    Piecewise (fun ps => (f ps).bind fun out => g out.1 out.2) (r.bind q) := by
  intro ps h
  have hfirst := hf ps h
  unfold Reader.bind
  cases hr : r ps.flatten with
  | none =>
    rw [hr] at hfirst
    simp [hfirst]
  | some out =>
    obtain ⟨a, rest⟩ := out
    rw [hr] at hfirst
    obtain ⟨ps', hread, rfl, hps'⟩ := hfirst
    simp only [hread, Option.bind_some]
    exact hg a ps' hps'

theorem Piecewise.some {f : Pieces → Option (α × Pieces)} {r : Reader α} (h : Piecewise f r)
    {ps : Pieces} (hps : Proper ps) {a : α} {rest : Bytes} (hr : r ps.flatten = some (a, rest)) :
    ∃ ps', f ps = some (a, ps') ∧ ps'.flatten = rest ∧ Proper ps' := by
  have hread := h ps hps
  rw [hr] at hread
  exact hread

theorem Piecewise.none {f : Pieces → Option (α × Pieces)} {r : Reader α} (h : Piecewise f r)
    {ps : Pieces} (hps : Proper ps) (hr : r ps.flatten = none) : f ps = none := by
  have hread := h ps hps
  rw [hr] at hread
  exact hread

end Pieces

/-! ## Reading again and again -/

/-- Read until the reader fails, at most `fuel` times: what was read, and what is left. -/
def drain {S : Type} (read : S → Option (α × S)) : Nat → S → List α × S
  | 0, s => ([], s)
  | fuel + 1, s =>
    match read s with
    | none => ([], s)
    | some (a, s') => (a :: (drain read fuel s').1, (drain read fuel s').2)

theorem drain_none {S : Type} {read : S → Option (α × S)} {s : S} (h : read s = none) (fuel : Nat) :
    drain read fuel s = ([], s) := by
  cases fuel with
  | zero => rfl
  | succ fuel => simp only [drain, h]

theorem drain_some {S : Type} {read : S → Option (α × S)} {s s' : S} {a : α}
    (h : read s = some (a, s')) (fuel : Nat) :
    drain read (fuel + 1) s = (a :: (drain read fuel s').1, (drain read fuel s').2) := by
  simp only [drain, h]

/-- When every read uses something up, as many reads as there is something to use go on to the end. -/
theorem drain_stuck {S : Type} {read : S → Option (α × S)} {size : S → Nat}
    (hsize : ∀ s a s', read s = some (a, s') → size s' < size s) {fuel : Nat} {s : S}
    (hfuel : size s ≤ fuel) : read (drain read fuel s).2 = none := by
  induction fuel generalizing s with
  | zero =>
    show read s = none
    cases hr : read s with
    | none => rfl
    | some out =>
      have := hsize s out.1 out.2 hr
      omega
  | succ fuel ih =>
    cases hr : read s with
    | none => rw [drain_none hr, hr]
    | some out =>
      have hlt := hsize s out.1 out.2 hr
      rw [drain_some hr]
      exact ih (by omega)

/-- A reader of pieces drains a stream as the reader of the whole string does. -/
theorem Pieces.Piecewise.drain {f : Pieces → Option (α × Pieces)} {r : Reader α}
    (h : Piecewise f r) (fuel : Nat) {ps : Pieces} (hps : Proper ps) :
    (Foundation.drain f fuel ps).1 = (Foundation.drain r fuel ps.flatten).1 ∧
      (Foundation.drain f fuel ps).2.flatten = (Foundation.drain r fuel ps.flatten).2 ∧
      Proper (Foundation.drain f fuel ps).2 := by
  induction fuel generalizing ps with
  | zero => exact ⟨rfl, rfl, hps⟩
  | succ fuel ih =>
    cases hr : r ps.flatten with
    | none =>
      rw [drain_none hr, drain_none (h.none hps hr)]
      exact ⟨rfl, rfl, hps⟩
    | some out =>
      obtain ⟨a, rest⟩ := out
      obtain ⟨ps', hread, rfl, hps'⟩ := h.some hps hr
      obtain ⟨hvalues, hleft, hproper⟩ := ih hps'
      rw [drain_some hr, drain_some hread]
      exact ⟨by simp only [hvalues], hleft, hproper⟩

namespace Exact

variable {w : α → Bytes} {D : α → Prop} {r : Reader α}

/-- What a writer writes is no proper beginning of what it writes for another value. -/
theorem prefix_free (h : Exact w D r) {a : α} (ha : D a) {input : Bytes} (hpre : input <+: w a)
    (hne : input ≠ w a) : r input = none := by
  cases hr : r input with
  | none => rfl
  | some out =>
    obtain ⟨a', rest⟩ := out
    obtain ⟨ha', rfl⟩ := h.sound _ _ _ hr
    obtain ⟨more, hmore⟩ := hpre
    -- both values can be read from what was written for `a`
    have hread := h.complete a' (rest ++ more) ha'
    rw [← List.append_assoc, hmore, ← List.append_nil (w a), h.complete a [] ha] at hread
    obtain ⟨rfl, hnil⟩ := Prod.mk.inj (Option.some.inj hread)
    obtain ⟨hrest, -⟩ := List.append_eq_nil_iff.mp hnil.symm
    exact absurd (by rw [hrest, List.append_nil]) hne

/-- **A drained stream.** Everything that was written is read back, in order. -/
theorem drain_flatMap (h : Exact w D r) {as : List α} (has : ∀ a ∈ as, D a) {rest : Bytes}
    (hrest : r rest = none) {fuel : Nat} (hfuel : as.length ≤ fuel) :
    drain r fuel (as.flatMap w ++ rest) = (as, rest) := by
  induction as generalizing fuel with
  | nil => exact drain_none hrest fuel
  | cons a as ih =>
    obtain ⟨fuel, rfl⟩ := Nat.exists_eq_add_one.mpr (Nat.lt_of_lt_of_le (Nat.succ_pos _) hfuel)
    have hread := h.complete a (as.flatMap w ++ rest) (has a (by simp))
    rw [List.flatMap_cons, List.append_assoc, drain_some hread,
      ih (fun b hb => has b (List.mem_cons_of_mem a hb)) (by simpa using hfuel)]

/-- A beginning of a stream: whole values, and a beginning of the next. -/
theorem split_prefix {as : List α} {input : Bytes} (hpre : input <+: as.flatMap w) :
    ∃ done part, input = done.flatMap w ++ part ∧
      (part = [] ∧ done <+: as ∨ ∃ a, done ++ [a] <+: as ∧ part <+: w a ∧ part ≠ w a) := by
  induction as generalizing input with
  | nil => exact ⟨[], [], List.prefix_nil.mp hpre, .inl ⟨rfl, List.nil_prefix⟩⟩
  | cons a as ih =>
    rw [List.flatMap_cons] at hpre
    by_cases hlen : (w a).length ≤ input.length
    · obtain ⟨input, rfl⟩ := List.prefix_of_prefix_length_le (List.prefix_append _ _) hpre hlen
      obtain ⟨done, part, rfl, hpart⟩ := ih ((List.prefix_append_right_inj _).mp hpre)
      refine ⟨a :: done, part, by simp, ?_⟩
      rcases hpart with ⟨rfl, hdone⟩ | ⟨b, hdone, hb⟩
      · exact .inl ⟨rfl, List.cons_prefix_cons.mpr ⟨rfl, hdone⟩⟩
      · exact .inr ⟨b, List.cons_prefix_cons.mpr ⟨rfl, hdone⟩, hb⟩
    · have hshort := List.prefix_of_prefix_length_le hpre (List.prefix_append _ _) (by omega)
      refine ⟨[], input, rfl, .inr ⟨a, ?_, hshort, ?_⟩⟩
      · exact List.cons_prefix_cons.mpr ⟨rfl, List.nil_prefix⟩
      · rintro rfl
        exact hlen le_rfl

end Exact

/-! ## Writing in pieces -/

section Writing

variable {L σ : Type}

/-- The loop of a writer: `offer` says how many of the bytes offered were taken, zero when the
connection is gone. -/
def writeRounds (offer : Bytes → Prog L σ Nat) : Nat → Bytes → Prog L σ Bool
  | 0, _ => return true
  | fuel + 1, bytes =>
    if bytes.isEmpty then return true
    else do
      let taken ← offer bytes
      if taken = 0 then return false else writeRounds offer fuel (bytes.drop taken)

/-- Write all the bytes; every round that goes on has written some. -/
def writeAll (offer : Bytes → Prog L σ Nat) (bytes : Bytes) : Prog L σ Bool :=
  writeRounds offer bytes.length bytes

/-- What a call of `offer` comes to: `I` says what the bytes taken so far have made of the state, and a
connection with `Up` takes some of what it is offered. -/
def Offers (step : L → σ → Option σ) (offer : Bytes → Prog L σ Nat) (I : Bytes → σ → Prop)
    (Up : Prop) : Prop :=
  ∀ done bytes s, bytes ≠ [] → I done s → ∃ n s', (offer bytes).run step s = some (n, s') ∧
    n ≤ bytes.length ∧ I (done ++ bytes.take n) s' ∧ (Up → 0 < n)

variable {step : L → σ → Option σ} {offer : Bytes → Prog L σ Nat} {I : Bytes → σ → Prop} {Up : Prop}

/-- **Writing.** What is sent is a beginning of the bytes, all of them when the writer says so. -/
theorem run_writeRounds (hoffer : Offers step offer I Up) {fuel : Nat} {bytes done : Bytes}
    (hfuel : bytes.length ≤ fuel) {s : σ} (hs : I done s) :
    ∃ b part s', (writeRounds offer fuel bytes).run step s = some (b, s') ∧ I (done ++ part) s' ∧
      part <+: bytes ∧ (b = true → part = bytes) ∧ (Up → b = true) := by
  have hnone : I (done ++ []) s := by rwa [List.append_nil]
  induction fuel generalizing bytes done s with
  | zero =>
    obtain rfl := List.length_eq_zero_iff.mp (Nat.le_zero.mp hfuel)
    exact ⟨true, [], s, rfl, hnone, List.nil_prefix, fun _ => rfl, fun _ => rfl⟩
  | succ fuel ih =>
    by_cases hne : bytes = []
    · subst hne
      exact ⟨true, [], s, rfl, hnone, List.nil_prefix, fun _ => rfl, fun _ => rfl⟩
    have hempty : bytes.isEmpty = false := by simpa using hne
    obtain ⟨n, s₁, hrun, hle, hI, hup⟩ := hoffer done bytes s hne hs
    simp only [writeRounds, hempty, Bool.false_eq_true, if_false, Prog.bind_eq, Prog.run_bind, hrun,
      Option.bind_some]
    by_cases hzero : n = 0
    · subst hzero
      exact ⟨false, [], s₁, rfl, hI, List.nil_prefix, Bool.noConfusion, fun h => absurd (hup h) (by simp)⟩
    · rw [if_neg hzero]
      have hleft : (bytes.drop n).length ≤ fuel := by
        rw [List.length_drop]
        omega
      obtain ⟨b, part, s', hrest, hI', hpre, hall, hb⟩ := ih hleft hI (by rwa [List.append_nil])
      have hsplit := List.take_append_drop n bytes
      refine ⟨b, bytes.take n ++ part, s', hrest, by rwa [← List.append_assoc], ?_, ?_, hb⟩
      · obtain ⟨more, hmore⟩ := hpre
        exact ⟨more, by rw [List.append_assoc, hmore, hsplit]⟩
      · intro hb
        rw [hall hb, hsplit]

theorem run_writeAll (hoffer : Offers step offer I Up) (bytes : Bytes) {done : Bytes} {s : σ}
    (hs : I done s) : ∃ b part s', (writeAll offer bytes).run step s = some (b, s') ∧
      I (done ++ part) s' ∧ part <+: bytes ∧ (b = true → part = bytes) ∧ (Up → b = true) :=
  run_writeRounds hoffer le_rfl hs

end Writing

namespace Outgoing

/-- How many of the bytes offered one call takes, by what was sent before; zero is an error. -/
abbrev Accept := Bytes → Bytes → Nat

/-- A connection that never fails takes some of what it is offered. -/
def Accept.Positive (accept : Accept) : Prop :=
  ∀ sent offered, offered ≠ [] → 0 < accept sent offered

/-- One call on a connection whose state is what was sent on it. -/
def step (accept : Accept) (offered sent : Bytes) : Option Bytes :=
  some (sent ++ offered.take (accept sent offered))

/-- Offer bytes, and learn how many were taken. -/
def offer (accept : Accept) (offered : Bytes) : Prog Bytes Bytes Nat :=
  Prog.sect offered fun sent => min (accept sent offered) offered.length

theorem offers (accept : Accept) (sent : Bytes) :
    Offers (step accept) (offer accept) (fun done s => s = sent ++ done) accept.Positive := by
  rintro done bytes s hne rfl
  refine ⟨_, _, rfl, Nat.min_le_right _ _, ?_, fun hpos => ?_⟩
  · show sent ++ done ++ bytes.take _ = sent ++ (done ++ bytes.take (min _ bytes.length))
    rw [List.append_assoc]
    rcases Nat.le_total (accept (sent ++ done) bytes) bytes.length with hle | hle
    · rw [Nat.min_eq_left hle]
    · rw [Nat.min_eq_right hle, List.take_of_length_le hle, List.take_length]
  · exact Nat.lt_min.mpr ⟨hpos _ _ hne, List.length_pos_iff.mpr hne⟩

end Outgoing

end KernelCache.Foundation
