import QeliSsPlugin.Carrier.RecordBuf

/-! # The reader loop

`readerLoop` is `reader_loop` on a tunnel's read half: it alternates between dispatching every
complete buffered record (`drain`) and one socket read, and ends with the cause of the tunnel's
death. What a read gives, and the dead flag as the loop sees it, are its input (`Wake`, one per turn
of the outer loop); the codec is a parameter, a stateful `decrypt`.

`readerLoop_eq_feed` removes the buffering: however the stream is cut into reads, the loop handles
the complete records of the whole stream, one after the other (`feed`). `readerLoop_spec` says which
of them are dispatched and why the loop ends: at the first record that completes
`maxConsecutiveBadRecords` bad ones in a row (`FirstRun`), else at the end of the stream. -/

namespace QeliSsPlugin.Carrier

open QeliSsPlugin.Lib QeliSsPlugin.Mux

/-- Why a tunnel died. -/
inductive DeathCause
  | peerClosed | readError | writeError | wireCorruption | badFrame | keepaliveTimeout | killed
  deriving DecidableEq

/-- Consecutive undecryptable or malformed records tolerated before the tunnel is declared dead. -/
def maxConsecutiveBadRecords : ℕ := 8

/-- What becomes of one record: a frame, an AEAD failure, or a malformed mux frame. -/
inductive Outcome
  | good (frame : Frame)
  | undecryptable
  | malformed
  deriving DecidableEq

namespace Outcome

def isBad : Outcome → Bool
  | .good _ => false
  | .undecryptable | .malformed => true

def frame? : Outcome → Option Frame
  | .good f => some f
  | .undecryptable | .malformed => none

/-- The cause of death a bad record gives when it completes the streak. -/
def cause : Outcome → DeathCause
  | .undecryptable => .wireCorruption
  | .malformed | .good _ => .badFrame

end Outcome

/-- The streak of bad records after one more record, and the cause if the tunnel dies of it. -/
def judge (badStreak : ℕ) (o : Outcome) : ℕ × Option DeathCause :=
  match o with
  | .good _ => (0, none)
  | .undecryptable =>
    (badStreak + 1,
      if badStreak + 1 ≥ maxConsecutiveBadRecords then some .wireCorruption else none)
  | .malformed =>
    (badStreak + 1, if badStreak + 1 ≥ maxConsecutiveBadRecords then some .badFrame else none)

section Loop

variable {κ ε : Type*} (decryptPacket : κ → Bytes → Except ε Bytes × κ)

/-- Decrypt and decode one record. -/
def outcome (codec : κ) (record : Bytes) : Outcome × κ :=
  match decryptPacket codec record with
  | (.error _, codec) => (.undecryptable, codec)
  | (.ok plain, codec) =>
    match Frame.decode plain with
    | .error _ => (.malformed, codec)
    | .ok frame => (.good frame, codec)

/-- What the loop carries from record to record: the codec, the streak of bad records, and the
frames dispatched so far. -/
structure Progress (κ : Type*) where
  codec : κ
  badStreak : ℕ
  dispatched : List Frame

/-- **The body of the inner loop**, for one record. -/
def onRecord (p : Progress κ) (record : Bytes) : Progress κ × Option DeathCause :=
  let (o, codec) := outcome decryptPacket p.codec record
  let (badStreak, dead) := judge p.badStreak o
  (⟨codec, badStreak, p.dispatched ++ o.frame?.toList⟩, dead)

/-- The locals of `reader_loop`. -/
structure ReaderState (κ : Type*) where
  records : RecordBuf
  progress : Progress κ

theorem takeRecord_decreases {rb rb' : RecordBuf} {r : Bytes}
    (h : rb.takeRecord = (some r, rb')) : rb'.unread.length < rb.unread.length :=
  tls.take?_length_lt (RecordBuf.take?_of_takeRecord_some h).1

/-- Induction along the records a buffer still gives. -/
theorem takeRecord_induction {P : RecordBuf → Prop}
    (hnone : ∀ rb rb', rb.takeRecord = (none, rb') → P rb)
    (hsome : ∀ rb r rb', rb.takeRecord = (some r, rb') → P rb' → P rb) : ∀ rb, P rb := by
  intro rb
  induction hn : rb.unread.length using Nat.strongRecOn generalizing rb with
  | _ n ih =>
    rcases h : rb.takeRecord with ⟨_ | r, rb'⟩
    · exact hnone rb rb' h
    · have hlt := takeRecord_decreases h
      exact hsome rb r rb' h (ih _ (by omega) rb' rfl)

/-- **Dispatch every complete record already buffered.** -/
def drain (st : ReaderState κ) : ReaderState κ × Option DeathCause :=
  match _h : st.records.takeRecord with
  | (none, records) => ({ st with records }, none)
  | (some record, records) =>
    match onRecord decryptPacket st.progress record with
    | (progress, some cause) => (⟨records, progress⟩, some cause)
    | (progress, none) => drain ⟨records, progress⟩
termination_by st.records.unread.length
decreasing_by exact takeRecord_decreases _h

theorem drain_of_none {st : ReaderState κ} {rb : RecordBuf}
    (h : st.records.takeRecord = (none, rb)) :
    drain decryptPacket st = ({ st with records := rb }, none) := by
  rw [drain]
  split
  · next h' => rw [h] at h'; cases h'; rfl
  · next h' => rw [h] at h'; cases h'

theorem drain_of_some {st : ReaderState κ} {rb : RecordBuf} {r : Bytes}
    (h : st.records.takeRecord = (some r, rb)) :
    drain decryptPacket st =
      match onRecord decryptPacket st.progress r with
      | (progress, some cause) => (⟨rb, progress⟩, some cause)
      | (progress, none) => drain decryptPacket ⟨rb, progress⟩ := by
  rw [drain]
  split
  · next h' => rw [h] at h'; cases h'
  · next h' => rw [h] at h'; cases h'; rfl

/-- What ends the wait of one turn of the outer loop. -/
inductive Wake
  /-- A read returned these bytes; none at the end of the stream. -/
  | read (chunk : Bytes)
  /-- A read failed. -/
  | readErr
  /-- The dead flag was set. -/
  | dead

/-- **`reader_loop`**: each turn sees the current dead flag and what ends its wait. The cause is
`none` while the loop still runs. -/
def readerLoop (st : ReaderState κ) : List (Bool × Wake) → ReaderState κ × Option DeathCause
  | [] => (st, none)
  | (dead, wake) :: rest =>
    if dead then (st, some .killed)
    else
      match drain decryptPacket st with
      | (st, some cause) => (st, some cause)
      | (st, none) =>
        match wake with
        | .dead => (st, some .killed)
        | .readErr => (st, some .readError)
        | .read [] => (st, some .peerClosed)
        | .read (b :: chunk) =>
          readerLoop { st with records := st.records.push (b :: chunk) } rest

/-- The loop's locals at the start. -/
def ReaderState.start (codec : κ) : ReaderState κ := ⟨.new, ⟨codec, 0, []⟩⟩

/-- The turns on a tunnel nobody else kills: the reads of a stream, then the end of the stream. -/
def turns (chunks : List Bytes) : List (Bool × Wake) :=
  chunks.map (fun c => (false, .read c)) ++ [(false, .read [])]

/-! ### The loop handles the records of the whole stream -/

/-- The body of the inner loop on records one after the other, up to the first that kills. -/
def feed (p : Progress κ) : List Bytes → Progress κ × Option DeathCause
  | [] => (p, none)
  | r :: rs =>
    match onRecord decryptPacket p r with
    | (p, some cause) => (p, some cause)
    | (p, none) => feed p rs

theorem feed_append : ∀ (rs rs' : List Bytes) (p : Progress κ),
    feed decryptPacket p (rs ++ rs') =
      match feed decryptPacket p rs with
      | (p, some cause) => (p, some cause)
      | (p, none) => feed decryptPacket p rs'
  | [], rs', p => rfl
  | r :: rs, rs', p => by
    simp only [List.cons_append, feed]
    rcases onRecord decryptPacket p r with ⟨p', _ | cause⟩
    · exact feed_append rs rs' p'
    · rfl

/-- Draining handles the complete records among the unread bytes and keeps the rest. -/
theorem drain_spec (st : ReaderState κ) (hwf : st.records.WF) :
    (drain decryptPacket st).2 = (feed decryptPacket st.progress (tls.split st.records.unread).1).2 ∧
    (drain decryptPacket st).1.progress =
      (feed decryptPacket st.progress (tls.split st.records.unread).1).1 ∧
    ((drain decryptPacket st).2 = none → (drain decryptPacket st).1.records.WF ∧
      (drain decryptPacket st).1.records.unread = (tls.split st.records.unread).2) := by
  obtain ⟨rb, p⟩ := st
  induction rb using takeRecord_induction generalizing p with
  | hnone rb rb' h =>
    obtain ⟨ht, rfl⟩ := RecordBuf.take?_of_takeRecord_none h
    rw [drain_of_none decryptPacket h, tls.split_none ht]
    exact ⟨rfl, rfl, fun _ => ⟨RecordBuf.wf_compact hwf, RecordBuf.unread_compact _⟩⟩
  | hsome rb r rb' h ih =>
    obtain ⟨ht, -, hwf'⟩ := RecordBuf.take?_of_takeRecord_some h
    rw [drain_of_some decryptPacket h, tls.split_some ht]
    rcases hrec : onRecord decryptPacket p r with ⟨p', _ | cause⟩
    · simp only [feed, hrec]
      exact ih p' (hwf' hwf)
    · simp only [feed, hrec]
      exact ⟨trivial, trivial, fun h => by cases h⟩

/-- **Buffering is invisible**: on the reads of a stream the loop handles the complete records of
the whole stream, and if none of them kills it, it ends with the stream. -/
theorem readerLoop_eq_feed : ∀ (chunks : List Bytes) (st : ReaderState κ), st.records.WF →
    (∀ c ∈ chunks, c ≠ []) →
    ((readerLoop decryptPacket st (turns chunks)).1.progress,
      (readerLoop decryptPacket st (turns chunks)).2) =
    ((feed decryptPacket st.progress (tls.split (st.records.unread ++ chunks.flatten)).1).1,
      some ((feed decryptPacket st.progress
        (tls.split (st.records.unread ++ chunks.flatten)).1).2.getD .peerClosed))
  | [], st, hwf, _ => by
    obtain ⟨h1, h2, -⟩ := drain_spec decryptPacket st hwf
    simp only [turns, List.map_nil, List.nil_append, readerLoop, List.flatten_nil, List.append_nil,
      Bool.false_eq_true, if_false]
    rcases hd : drain decryptPacket st with ⟨st', _ | cause⟩
    · rw [hd] at h1 h2
      simp [← h1, ← h2]
    · rw [hd] at h1 h2
      simp [← h1, ← h2]
  | c :: chunks, st, hwf, hne => by
    obtain ⟨b, c', rfl⟩ := List.exists_cons_of_ne_nil (hne c (by simp))
    obtain ⟨h1, h2, h3⟩ := drain_spec decryptPacket st hwf
    rw [List.flatten_cons, tls.split_append, feed_append]
    simp only [turns, List.map_cons, List.cons_append, readerLoop, Bool.false_eq_true, if_false]
    rcases hd : drain decryptPacket st with ⟨st', _ | cause⟩
    · rw [hd] at h1 h2 h3
      obtain ⟨hwf', hu⟩ := h3 rfl
      have hpush := RecordBuf.unread_push hwf' (b :: c')
      have ih := readerLoop_eq_feed chunks { st' with records := st'.records.push (b :: c') }
        (RecordBuf.wf_push hwf' _) (fun d hd => hne d (by simp [hd]))
      rcases hf : feed decryptPacket st.progress (tls.split st.records.unread).1 with ⟨p, dead⟩
      rw [hf] at h1 h2
      simp only at h1 h2
      subst h1 h2
      simp only [turns, hpush, hu, List.append_assoc, List.cons_append] at ih ⊢
      exact ih
    · rw [hd] at h1 h2
      rcases hf : feed decryptPacket st.progress (tls.split st.records.unread).1 with ⟨p, dead⟩
      rw [hf] at h1 h2
      simp only at h1 h2
      subst h1 h2
      rfl

end Loop

/-! ### Which records are dispatched, and why the loop ends -/

/-- The outcomes of records handled one after the other, the codec carried along. -/
def outcomes {κ ε : Type*} (decryptPacket : κ → Bytes → Except ε Bytes × κ) :
    κ → List Bytes → List Outcome
  | _, [] => []
  | codec, r :: rs =>
    (outcome decryptPacket codec r).1 ::
      outcomes decryptPacket (outcome decryptPacket codec r).2 rs

/-- The frames of the good records. -/
def goods (os : List Outcome) : List Frame := os.filterMap Outcome.frame?

theorem goods_cons (o : Outcome) (os : List Outcome) :
    goods (o :: os) = o.frame?.toList ++ goods os := by cases o <;> rfl

/-- Record `n` completes `maxConsecutiveBadRecords` bad records in a row. -/
def CompletesRun (os : List Outcome) (n : ℕ) : Prop :=
  n < os.length ∧ maxConsecutiveBadRecords ≤ n + 1 ∧
    ∀ o ∈ (os.take (n + 1)).drop (n + 1 - maxConsecutiveBadRecords), o.isBad = true

/-- Record `n` is the first to do so. -/
def FirstRun (os : List Outcome) (n : ℕ) : Prop :=
  CompletesRun os n ∧ ∀ m < n, ¬ CompletesRun os m

/-- How many bad records a list ends with. -/
def trail (os : List Outcome) : ℕ := (os.reverse.takeWhile Outcome.isBad).length

theorem le_length_takeWhile {α : Type*} (p : α → Bool) : ∀ (l : List α) (k : ℕ),
    k ≤ (l.takeWhile p).length ↔ k ≤ l.length ∧ ∀ x ∈ l.take k, p x = true
  | [], k => by simp
  | x :: l, 0 => by simp
  | x :: l, k + 1 => by
    have ih := le_length_takeWhile p l k
    by_cases hx : p x = true
    · simp [hx, ih]
    · simp [hx]

theorem completesRun_iff {os : List Outcome} {n : ℕ} (h : n < os.length) :
    CompletesRun os n ↔ maxConsecutiveBadRecords ≤ trail (os.take (n + 1)) := by
  have hl : (os.take (n + 1)).length = n + 1 := by rw [List.length_take]; omega
  unfold CompletesRun trail
  rw [le_length_takeWhile, List.length_reverse, hl, List.take_reverse, hl]
  simp [h]

theorem isBad_of_completesRun {os : List Outcome} {n : ℕ} {o : Outcome} (h : CompletesRun os n)
    (ho : os[n]? = some o) : o.isBad = true := by
  refine h.2.2 o (List.mem_iff_getElem?.mpr ⟨maxConsecutiveBadRecords - 1, ?_⟩)
  have h1 := h.2.1
  have h8 : maxConsecutiveBadRecords = 8 := rfl
  rw [List.getElem?_drop, List.getElem?_take, if_pos (by omega),
    show n + 1 - maxConsecutiveBadRecords + (maxConsecutiveBadRecords - 1) = n by omega]
  exact ho

theorem trail_concat (os : List Outcome) (o : Outcome) :
    trail (os ++ [o]) = if o.isBad then trail os + 1 else 0 := by
  unfold trail
  rw [List.reverse_append, List.reverse_singleton, List.singleton_append, List.takeWhile_cons]
  split_ifs <;> simp

/-- The streak the loop keeps is the number of bad records it has just seen. -/
theorem judge_fst (os : List Outcome) (o : Outcome) :
    (judge (trail os) o).1 = trail (os ++ [o]) := by
  rw [trail_concat]
  cases o <;> rfl

theorem judge_snd (s : ℕ) (o : Outcome) :
    (judge s o).2 = if maxConsecutiveBadRecords ≤ (judge s o).1 then some o.cause else none := by
  cases o <;> simp [judge, Outcome.cause, maxConsecutiveBadRecords]

/-- The first record, among those still to come, at which the loop dies. -/
def firstKill : ℕ → List Outcome → Option ℕ
  | _, [] => none
  | s, o :: os =>
    if (judge s o).2.isSome then some 0 else (firstKill (judge s o).1 os).map (· + 1)

/-- The loop dies at the first record that completes a run of bad ones. -/
theorem firstKill_spec : ∀ (os done : List Outcome),
    (∀ n, firstKill (trail done) os = some n →
      CompletesRun (done ++ os) (done.length + n) ∧
        ∀ m < n, ¬ CompletesRun (done ++ os) (done.length + m)) ∧
    (firstKill (trail done) os = none → ∀ m, ¬ CompletesRun (done ++ os) (done.length + m))
  | [], done => by
    refine ⟨fun n h => by simp [firstKill] at h, fun _ m h => ?_⟩
    have := h.1
    simp at this
  | o :: os, done => by
    have hlt : done.length < (done ++ o :: os).length := by simp
    have htake : (done ++ o :: os).take (done.length + 1) = done ++ [o] := by
      rw [List.take_append, List.take_of_length_le (by omega)]; simp
    have h0 : CompletesRun (done ++ o :: os) done.length ↔ (judge (trail done) o).2.isSome := by
      rw [completesRun_iff hlt, htake, ← judge_fst, judge_snd]
      split_ifs with h <;> simp [h]
    have happ : done ++ o :: os = (done ++ [o]) ++ os := by simp
    have hlen : ∀ m, done.length + (m + 1) = (done ++ [o]).length + m := by
      intro m; simp; omega
    obtain ⟨ih1, ih2⟩ := firstKill_spec os (done ++ [o])
    rw [← judge_fst] at ih1 ih2
    by_cases hk : (judge (trail done) o).2.isSome
    · refine ⟨fun n h => ?_, fun h => by simp [firstKill, hk] at h⟩
      simp only [firstKill, hk, if_true, Option.some.injEq] at h
      subst h
      exact ⟨h0.mpr hk, fun m hm => absurd hm (Nat.not_lt_zero m)⟩
    · refine ⟨fun n h => ?_, fun h m => ?_⟩
      · simp only [firstKill, hk, Bool.false_eq_true, if_false, Option.map_eq_some_iff] at h
        obtain ⟨n, hn, rfl⟩ := h
        obtain ⟨h1, h2⟩ := ih1 n hn
        rw [happ, hlen]
        refine ⟨h1, fun m hm => ?_⟩
        rcases m with _ | m
        · rw [← happ]; exact fun h => hk (h0.mp h)
        · rw [hlen]; exact h2 m (by omega)
      · simp only [firstKill, hk, Bool.false_eq_true, if_false, Option.map_eq_none_iff] at h
        rcases m with _ | m
        · exact fun h => hk (h0.mp h)
        · rw [happ, hlen]; exact ih2 h m

theorem firstKill_eq_some {os : List Outcome} {n : ℕ} :
    firstKill 0 os = some n ↔ FirstRun os n := by
  have h1 := (firstKill_spec os []).1
  have h2 := (firstKill_spec os []).2
  simp only [show trail [] = 0 from rfl, List.nil_append, List.length_nil, Nat.zero_add] at h1 h2
  constructor
  · exact fun h => h1 n h
  · intro hr
    cases hk : firstKill 0 os with
    | none => exact absurd hr.1 (h2 hk n)
    | some m =>
      obtain ⟨hm1, hm2⟩ := h1 m hk
      rcases Nat.lt_trichotomy m n with h | h | h
      · exact absurd hm1 (hr.2 m h)
      · rw [h]
      · exact absurd hr.1 (hm2 n h)

section Feed

variable {κ ε : Type*} (decryptPacket : κ → Bytes → Except ε Bytes × κ)

/-- Handling records in order dispatches the good ones, up to the one at which the loop dies. -/
theorem feed_spec : ∀ (rs : List Bytes) (p : Progress κ),
    (∀ n, firstKill p.badStreak (outcomes decryptPacket p.codec rs) = some n →
      (feed decryptPacket p rs).1.dispatched =
        p.dispatched ++ goods ((outcomes decryptPacket p.codec rs).take (n + 1)) ∧
      ∃ o, (outcomes decryptPacket p.codec rs)[n]? = some o ∧
        (feed decryptPacket p rs).2 = some o.cause) ∧
    (firstKill p.badStreak (outcomes decryptPacket p.codec rs) = none →
      (feed decryptPacket p rs).1.dispatched =
        p.dispatched ++ goods (outcomes decryptPacket p.codec rs) ∧
      (feed decryptPacket p rs).2 = none)
  | [], p => by simp [outcomes, firstKill, feed, goods]
  | r :: rs, p => by
    rcases ho : outcome decryptPacket p.codec r with ⟨o, codec⟩
    rcases hj : judge p.badStreak o with ⟨s, dead⟩
    have hrec : onRecord decryptPacket p r =
        (⟨codec, s, p.dispatched ++ o.frame?.toList⟩, dead) := by
      simp only [onRecord, ho, hj]
    have hout : outcomes decryptPacket p.codec (r :: rs) =
        o :: outcomes decryptPacket codec rs := by simp only [outcomes, ho]
    have hjs := judge_snd p.badStreak o
    rw [hj] at hjs
    simp only at hjs
    rw [hout]
    cases hdead : dead with
    | some cause =>
      rw [hdead] at hj hrec hjs
      have hcause : cause = o.cause := by
        split_ifs at hjs; exact Option.some.inj hjs
      simp only [firstKill, hj, Option.isSome_some, if_true, Option.some.injEq, feed, hrec]
      refine ⟨fun n hn => ?_, fun h => by cases h⟩
      subst hn
      refine ⟨?_, o, rfl, by rw [hcause]⟩
      rw [List.take_succ_cons, List.take_zero, goods_cons]
      simp [goods]
    | none =>
      rw [hdead] at hj hrec
      obtain ⟨ih1, ih2⟩ := feed_spec rs ⟨codec, s, p.dispatched ++ o.frame?.toList⟩
      simp only [firstKill, hj, Option.isSome_none, Bool.false_eq_true, if_false, feed, hrec]
      refine ⟨fun n hn => ?_, fun h => ?_⟩
      · obtain ⟨n, hn', rfl⟩ := Option.map_eq_some_iff.mp hn
        obtain ⟨h1, o', h2, h3⟩ := ih1 n hn'
        refine ⟨?_, o', h2, h3⟩
        rw [h1, List.take_succ_cons, goods_cons, List.append_assoc]
      · obtain ⟨h1, h2⟩ := ih2 (Option.map_eq_none_iff.mp h)
        refine ⟨?_, h2⟩
        rw [h1, goods_cons, List.append_assoc]

/-- **The reader's semantics does not depend on how the stream is read, and its tolerance is
exact.** Of the complete records of the whole stream, the good ones are dispatched in order, up to
the first record that completes a run of bad ones, whose kind is the cause of death; without such a
record the cause is the end of the stream. -/
theorem readerLoop_spec (codec : κ) (chunks : List Bytes) (hne : ∀ c ∈ chunks, c ≠ []) :
    let os := outcomes decryptPacket codec (tls.split chunks.flatten).1
    let result := readerLoop decryptPacket (.start codec) (turns chunks)
    (∀ n, FirstRun os n →
      result.1.progress.dispatched = goods (os.take (n + 1)) ∧
      ((os[n]? = some .undecryptable ∧ result.2 = some .wireCorruption) ∨
        (os[n]? = some .malformed ∧ result.2 = some .badFrame))) ∧
    ((¬ ∃ n, FirstRun os n) →
      result.1.progress.dispatched = goods os ∧ result.2 = some .peerClosed) := by
  intro os result
  have hloop := readerLoop_eq_feed decryptPacket chunks (.start codec) RecordBuf.wf_new hne
  obtain ⟨h1, h2⟩ := feed_spec decryptPacket (tls.split chunks.flatten).1 ⟨codec, 0, []⟩
  simp only [ReaderState.start, RecordBuf.unread_new, List.nil_append, Prod.mk.injEq] at hloop h1 h2
  obtain ⟨hp, hc⟩ := hloop
  refine ⟨fun n hn => ?_, fun hno => ?_⟩
  · obtain ⟨hd, o, ho, hk⟩ := h1 n (firstKill_eq_some.mpr hn)
    have hres : result.2 = some o.cause := by rw [show result.2 = _ from hc, hk]; rfl
    refine ⟨by rw [← hd, ← hp]; rfl, ?_⟩
    have hbad := isBad_of_completesRun hn.1 ho
    cases o with
    | good f => cases hbad
    | undecryptable => exact Or.inl ⟨ho, hres⟩
    | malformed => exact Or.inr ⟨ho, hres⟩
  · have hnone : firstKill 0 os = none := by
      cases hk : firstKill 0 os with
      | none => rfl
      | some n => exact absurd ⟨n, firstKill_eq_some.mp hk⟩ hno
    obtain ⟨hd, hk⟩ := h2 hnone
    exact ⟨by rw [← hd, ← hp]; rfl, by rw [show result.2 = _ from hc, hk]; rfl⟩

end Feed

/-- A codec that strips the record header, and fails on a record that ends in `0xff`. -/
def markedCodec (_ : Unit) (record : Bytes) : Except Unit Bytes × Unit :=
  if record.getLast? = some 0xff then (.error (), ()) else (.ok (record.drop header), ())

def closeRecord (id : UInt8) : Bytes := [23, 3, 3, 0, 7, 3, 0, 0, 0, id, 0, 0]

/-- A CLOSE, seven bad records of both kinds, a CLOSE. -/
def toleratedRecords : List Bytes :=
  [closeRecord 1] ++ List.replicate 4 [23, 3, 3, 0, 1, 9] ++
    List.replicate 3 [23, 3, 3, 0, 2, 3, 0xff] ++ [closeRecord 2]

/-- The same, seven malformed records, an undecryptable one, a CLOSE. -/
def streakRecords : List Bytes :=
  toleratedRecords ++ List.replicate 7 [23, 3, 3, 0, 1, 9] ++ [[23, 3, 3, 0, 2, 3, 0xff]] ++
    [closeRecord 3]

/-- The stream of the records, in reads of five bytes. -/
def cut (rs : List Bytes) : List Bytes :=
  (List.range ((rs.flatten.length + 4) / 5)).map fun i => (rs.flatten.drop (i * 5)).take 5

/-- Streaks of bad records cut inside their headers and payloads: the first is tolerated, the second is the
end of the loop. -/
theorem readerLoop_spec_cut_streak :
    (readerLoop markedCodec (.start ()) (turns (cut toleratedRecords))).2 = some .peerClosed ∧
      (readerLoop markedCodec (.start ()) (turns (cut streakRecords))).2 = some .wireCorruption ∧
      (readerLoop markedCodec (.start ()) (turns (cut streakRecords))).1.progress.dispatched =
        [.close 1, .close 2] := by
  have hsplit : ∀ rs, (∀ r ∈ rs, tls.IsRecord r) → (cut rs).flatten = rs.flatten →
      tls.split (cut rs).flatten = (rs, []) := by
    intro rs hrec hcut
    have h := tls.split_records hrec []
    rw [tls.split_nil] at h
    simpa [hcut] using h
  have htolerated := (readerLoop_spec markedCodec () (cut toleratedRecords) (by decide +kernel)).2
  have hstreak := (readerLoop_spec markedCodec () (cut streakRecords) (by decide +kernel)).1
  simp only [hsplit toleratedRecords (by decide +kernel) (by decide +kernel)] at htolerated
  simp only [hsplit streakRecords (by decide +kernel) (by decide +kernel)] at hstreak
  have hnone : ¬ ∃ n, FirstRun (outcomes markedCodec () toleratedRecords) n := by
    rintro ⟨n, hn⟩
    have hkill := firstKill_eq_some.mpr hn
    rw [show firstKill 0 (outcomes markedCodec () toleratedRecords) = none by decide +kernel] at hkill
    cases hkill
  obtain ⟨hdispatched, hcause⟩ := hstreak 16 (firstKill_eq_some.mp (by decide +kernel))
  refine ⟨(htolerated hnone).2, ?_, hdispatched.trans (by decide +kernel)⟩
  rcases hcause with ⟨-, h⟩ | ⟨hno, -⟩
  · exact h
  · exact absurd hno (by decide +kernel)

end QeliSsPlugin.Carrier
