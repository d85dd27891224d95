import QeliSsPlugin.Carrier.Endpoint

/-! # The reassembly buffer is bounded

`reader_loop` uses its `RecordBuf` in a cycle: it takes records until none is complete, then reads at
most `readBuf` bytes and pushes them. `Cycle` is this cycle, one call at a time, for whatever bytes the
peer sends (`readerLoop_cycle`: the buffer of `readerLoop` goes through states of the cycle only).

The buffer holds at most `65539 + readBuf` bytes in every state of every run. It is not the calls
alone that give this: `takeRecord` leaves consumed bytes where they are as long as it returns records,
so the bound rests on the compaction at the end of a drain, where less than one record is unread, and
on the reads being made only there. -/

namespace QeliSsPlugin.Carrier

open QeliSsPlugin.Lib QeliSsPlugin.Lib.Runs QeliSsPlugin.Mux

/-- The largest record a header can announce. -/
def maxRecord : ℕ := 65540

theorem total_le_maxRecord (bs : Bytes) : tls.total bs ≤ maxRecord := by
  have hlt := u16FromBe_lt ((bs.take header).getD 3 0) ((bs.take header).getD 4 0)
  show header + u16FromBe ((bs.take header).getD 3 0) ((bs.take header).getD 4 0) ≤ maxRecord
  unfold header maxRecord at *
  omega

namespace RecordBuf

variable {rb rb' : RecordBuf} {r : Bytes}

/-- **Fewer bytes than a record can have are left** when no record is complete, at the front of the
buffer. -/
theorem takeRecord_none_bounds (h : rb.takeRecord = (none, rb')) :
    rb'.pos = 0 ∧ rb'.buf.length < maxRecord := by
  obtain ⟨ht, rfl⟩ := take?_of_takeRecord_none h
  have hpos := pos_compact rb
  have hlen : rb.compact.buf.length = rb.unread.length := by
    rw [← unread_compact, length_unread, hpos, Nat.sub_zero]
  have hlt := tls.length_lt_total ht
  have hle := total_le_maxRecord rb.unread
  exact ⟨hpos, by omega⟩

/-- A record that is returned is consumed. -/
theorem takeRecord_some_bounds (h : rb.takeRecord = (some r, rb')) :
    header ≤ r.length ∧ rb'.unread.length + r.length = rb.unread.length := by
  obtain ⟨hr, hsplit⟩ := tls.take?_eq_some_iff.mp (take?_of_takeRecord_some h).1
  refine ⟨hr.1, ?_⟩
  rw [hsplit, List.length_append]
  omega

theorem length_push (rb : RecordBuf) (chunk : Bytes) :
    (rb.push chunk).buf.length ≤ rb.buf.length + chunk.length := by
  unfold push
  split_ifs <;> simp

/-! ### Taking every complete record -/

/-- The `while let Some(record) = records.take_record()` loop: the records it takes, and the buffer
it leaves. -/
def takeRecords (rb : RecordBuf) : List Bytes × RecordBuf :=
  match _h : rb.takeRecord with
  | (none, rb') => ([], rb')
  | (some r, rb') => (r :: (takeRecords rb').1, (takeRecords rb').2)
termination_by rb.unread.length
decreasing_by all_goals exact takeRecord_decreases _h

theorem takeRecords_of_none (h : rb.takeRecord = (none, rb')) : rb.takeRecords = ([], rb') := by
  rw [takeRecords]
  split
  · next h' => rw [h] at h'; cases h'; rfl
  · next h' => rw [h] at h'; cases h'

theorem takeRecords_of_some (h : rb.takeRecord = (some r, rb')) :
    rb.takeRecords = (r :: rb'.takeRecords.1, rb'.takeRecords.2) := by
  rw [takeRecords]
  split
  · next h' => rw [h] at h'; cases h'
  · next h' => rw [h] at h'; cases h'; rfl

/-- The records taken are those of the unread bytes. -/
theorem takeRecords_spec (rb : RecordBuf) (hwf : rb.WF) :
    rb.takeRecords.1 = (tls.split rb.unread).1 ∧
      rb.takeRecords.2.unread = (tls.split rb.unread).2 ∧ rb.takeRecords.2.WF := by
  induction rb using takeRecord_induction with
  | hnone rb rb' h =>
    obtain ⟨ht, rfl⟩ := take?_of_takeRecord_none h
    rw [takeRecords_of_none h, tls.split_none ht]
    exact ⟨rfl, unread_compact rb, wf_compact hwf⟩
  | hsome rb r rb' h ih =>
    obtain ⟨ht, -, hwf'⟩ := take?_of_takeRecord_some h
    obtain ⟨h1, h2, h3⟩ := ih (hwf' hwf)
    rw [takeRecords_of_some h, tls.split_some ht, h1, h2]
    exact ⟨rfl, rfl, h3⟩

/-- The loop takes at most one record for every five bytes. -/
theorem length_takeRecords (rb : RecordBuf) :
    header * rb.takeRecords.1.length ≤ rb.unread.length := by
  induction rb using takeRecord_induction with
  | hnone rb rb' h => rw [takeRecords_of_none h]; simp
  | hsome rb r rb' h ih =>
    obtain ⟨hr, hunread⟩ := takeRecord_some_bounds h
    rw [takeRecords_of_some h, List.length_cons, Nat.mul_succ]
    omega

/-- Push the chunks, taking every complete record after each: the records taken. -/
def drainEach (rb : RecordBuf) : List Bytes → List Bytes
  | [] => []
  | chunk :: chunks =>
    (rb.push chunk).takeRecords.1 ++ drainEach (rb.push chunk).takeRecords.2 chunks

/-- However a stream is pushed, its complete records are taken. -/
theorem drainEach_eq (chunks : List Bytes) (rb : RecordBuf) (hwf : rb.WF)
    (h : tls.take? rb.unread = none) :
    rb.drainEach chunks = (tls.split (rb.unread ++ chunks.flatten)).1 := by
  induction chunks generalizing rb with
  | nil => simp [drainEach, tls.split_none h]
  | cons chunk chunks ih =>
    obtain ⟨h1, h2, h3⟩ := takeRecords_spec (rb.push chunk) (wf_push hwf chunk)
    rw [unread_push hwf] at h1 h2
    have hrest := tls.take?_split_rest (rb.unread ++ chunk)
    rw [drainEach, ih _ h3 (by rw [h2]; exact hrest), h1, h2, List.flatten_cons,
      ← List.append_assoc, tls.split_append (rb.unread ++ chunk)]

end RecordBuf

/-! ### The cycle -/

/-- Where the loop is between two uses of its buffer. -/
inductive Point
  /-- About to take a record. -/
  | drain
  /-- No record was complete: about to read. -/
  | refill
  deriving DecidableEq

/-- What the loop does next with its buffer. -/
inductive Use
  | takeRecord
  /-- A read returned these bytes. -/
  | push (chunk : Bytes)
  /-- The wait for a read ended without one, and the tunnel is not dead. -/
  | again
  deriving DecidableEq

structure Cycle where
  rb : RecordBuf
  point : Point
  deriving DecidableEq

namespace Cycle

def start : Cycle := ⟨.new, .drain⟩

/-- **One use of the buffer**; a read returns at most `readBuf` bytes, and none at the end of the
stream, where the loop ends. -/
def step (c : Cycle) : Use → Option Cycle
  | .takeRecord =>
    match c.point, c.rb.takeRecord with
    | .drain, (some _, rb) => some ⟨rb, .drain⟩
    | .drain, (none, rb) => some ⟨rb, .refill⟩
    | .refill, _ => none
  | .push chunk =>
    match c.point with
    | .refill =>
      if chunk ≠ [] ∧ chunk.length ≤ readBuf then some ⟨c.rb.push chunk, .drain⟩ else none
    | .drain => none
  | .again =>
    match c.point with
    | .refill => some { c with point := .drain }
    | .drain => none

/-- Every use of the buffer, with its effect. -/
inductive Step (c : Cycle) : Use → Cycle → Prop
  | record {r rb} : c.point = .drain → c.rb.takeRecord = (some r, rb) →
      Step c .takeRecord ⟨rb, .drain⟩
  | drained {rb} : c.point = .drain → c.rb.takeRecord = (none, rb) →
      Step c .takeRecord ⟨rb, .refill⟩
  | push {chunk} : c.point = .refill → chunk ≠ [] → chunk.length ≤ readBuf →
      Step c (.push chunk) ⟨c.rb.push chunk, .drain⟩
  | again : c.point = .refill → Step c .again { c with point := .drain }

variable {c c' : Cycle} {u : Use}

theorem Step.of_step (h : c.step u = some c') : Step c u c' := by
  rcases c with ⟨rb, _ | _⟩ <;> rcases u with _ | chunk | _ <;> simp only [step] at h
  · rcases ht : rb.takeRecord with ⟨_ | r, rb'⟩ <;> rw [ht] at h <;> cases h
    · exact .drained rfl ht
    · exact .record rfl ht
  · cases h
  · cases h
  · cases h
  · split_ifs at h with hc
    cases h
    exact .push rfl hc.1 hc.2
  · cases h
    exact .again rfl

/-- **The bound, and where the loop is when it reads.** -/
structure Bounded (c : Cycle) : Prop where
  length : c.rb.buf.length < maxRecord + readBuf
  refill : c.point = .refill → c.rb.pos = 0 ∧ c.rb.buf.length < maxRecord

theorem bounded_start : Bounded start := ⟨by decide, by simp [start]⟩

theorem bounded_step (hb : Bounded c) (h : Step c u c') : Bounded c' := by
  cases h with
  | record _ ht =>
    have hbuf := (RecordBuf.take?_of_takeRecord_some ht).2.1
    exact ⟨by rw [hbuf]; exact hb.length, by simp⟩
  | drained _ ht =>
    obtain ⟨hpos, hlen⟩ := RecordBuf.takeRecord_none_bounds ht
    exact ⟨by simp only; omega, fun _ => ⟨hpos, hlen⟩⟩
  | @push chunk hp _ hchunk =>
    have hlen := (hb.refill hp).2
    have hpush := RecordBuf.length_push c.rb chunk
    exact ⟨by simp only; omega, by simp⟩
  | again => exact ⟨hb.length, by simp⟩

/-- The calls of one drain end with the loop about to read. -/
theorem exec_drain (rb : RecordBuf) :
    exec step ⟨rb, .drain⟩ (List.replicate (rb.takeRecords.1.length + 1) .takeRecord) =
      some ⟨rb.takeRecords.2, .refill⟩ := by
  induction rb using takeRecord_induction with
  | hnone rb rb' h =>
    rw [RecordBuf.takeRecords_of_none h]
    simp [exec, step, h]
  | hsome rb r rb' h ih =>
    rw [RecordBuf.takeRecords_of_some h, List.length_cons, List.replicate_succ]
    simp only [exec, step, h, Option.bind_some]
    exact ih

/-- **The reassembly buffer is bounded.** In every state of every run of the cycle the buffer holds at
most `65539 + readBuf` bytes; when `takeRecord` returns nothing the cursor is 0 and fewer than 65540
bytes are left; and a drain ends, since every record it returns consumes at least five bytes. -/
theorem buffer_bounded (h : Reachable step start c) :
    c.rb.buf.length ≤ 65539 + readBuf ∧
      (∀ rb, c.rb.takeRecord = (none, rb) → rb.pos = 0 ∧ rb.buf.length < 65540) ∧
      (c.point = .refill → c.rb.pos = 0 ∧ c.rb.buf.length < 65540) ∧
      (∀ r rb, c.rb.takeRecord = (some r, rb) →
        5 ≤ r.length ∧ rb.unread.length + r.length = c.rb.unread.length) ∧
      (c.point = .drain → ∃ n rb, 5 * n ≤ c.rb.unread.length ∧
        exec step c (List.replicate (n + 1) .takeRecord) = some ⟨rb, .refill⟩) := by
  have hb : Bounded c := h.invariant bounded_start fun hb _ hs => bounded_step hb (.of_step hs)
  have hlen := hb.length
  refine ⟨by unfold maxRecord at hlen; omega, fun rb ht => RecordBuf.takeRecord_none_bounds ht,
    hb.refill, fun r rb ht => RecordBuf.takeRecord_some_bounds ht, fun hp => ?_⟩
  obtain ⟨rb, point⟩ := c
  obtain rfl : point = .drain := hp
  exact ⟨_, _, RecordBuf.length_takeRecords rb, exec_drain rb⟩

/-- A record cut inside its header, followed by the header of the largest record. -/
def cutHeader : List Use :=
  [.takeRecord, .push [23, 3, 3], .takeRecord, .push [0, 1, 7, 23, 3, 3, 255, 255], .takeRecord,
    .takeRecord]

theorem buffer_bounded_cutHeader :
    ∃ c, Reachable step start c ∧ c.rb.buf = [23, 3, 3, 255, 255] ∧
      c.rb.buf.length ≤ 65539 + readBuf := by
  have hrun : ∃ c, Reachable step start c ∧ decide (c.rb.buf = [23, 3, 3, 255, 255]) = true :=
    reaches_of_exec (fun _ _ => true) cutHeader (fun _ _ _ => trivial) (by decide +kernel)
  obtain ⟨c, hc, hbuf⟩ := hrun
  exact ⟨c, hc, of_decide_eq_true hbuf, (buffer_bounded hc).1⟩

end Cycle

/-! ### The loop goes through the cycle -/

section Loop

variable {κ ε : Type*} (decryptPacket : κ → Bytes → Except ε Bytes × κ)

theorem drain_cycle (st : ReaderState κ) (h : Reachable Cycle.step .start ⟨st.records, .drain⟩) :
    Reachable Cycle.step .start ⟨(drain decryptPacket st).1.records,
      if (drain decryptPacket st).2.isSome then .drain else .refill⟩ := by
  obtain ⟨rb, p⟩ := st
  induction rb using takeRecord_induction generalizing p with
  | hnone rb rb' ht =>
    rw [drain_of_none decryptPacket ht]
    exact .tail h (a := .takeRecord) trivial (by simp [Cycle.step, ht])
  | hsome rb r rb' ht ih =>
    have hnext : Reachable Cycle.step .start ⟨rb', .drain⟩ :=
      .tail h (a := .takeRecord) trivial (by simp [Cycle.step, ht])
    rw [drain_of_some decryptPacket ht]
    rcases hrec : onRecord decryptPacket p r with ⟨p', _ | cause⟩
    · exact ih p' hnext
    · exact hnext

/-- Whether the wait of a turn ended with a read that fits the loop's buffer. -/
def Wake.fits : Wake → Bool
  | .read chunk => chunk.length ≤ readBuf
  | .readErr | .dead => true

/-- **The reader's buffer goes through states of the cycle only**, whatever the wakes are. -/
theorem readerLoop_cycle : ∀ (turns : List (Bool × Wake)) (st : ReaderState κ),
    (∀ t ∈ turns, t.2.fits = true) → Reachable Cycle.step .start ⟨st.records, .drain⟩ →
    ∃ p, Reachable Cycle.step .start ⟨(readerLoop decryptPacket st turns).1.records, p⟩
  | [], st, _, h => ⟨.drain, h⟩
  | (dead, wake) :: turns, st, hfits, h => by
    have hdrain := drain_cycle decryptPacket st h
    rw [readerLoop]
    split_ifs
    · exact ⟨.drain, h⟩
    rcases hd : drain decryptPacket st with ⟨st', _ | cause⟩
    · rw [hd] at hdrain
      rcases wake with (_ | ⟨b, chunk⟩) | _ | _
      · exact ⟨_, hdrain⟩
      · have hlen : (b :: chunk).length ≤ readBuf := by
          simpa [Wake.fits] using hfits _ List.mem_cons_self
        refine readerLoop_cycle turns _ (fun t ht => hfits t (by simp [ht])) ?_
        exact .tail hdrain (a := .push (b :: chunk)) trivial (by simp [Cycle.step]; simpa using hlen)
      · exact ⟨_, hdrain⟩
      · exact ⟨_, hdrain⟩
    · rw [hd] at hdrain
      exact ⟨_, hdrain⟩

end Loop

end QeliSsPlugin.Carrier
