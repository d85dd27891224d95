import QeliSsPlugin.Lib.Framing
import QeliSsPlugin.Mux.Frame

/-! # Record extraction

`RecordBuf` collects the chunks read from the socket and hands out complete TLS-dressed records
(5-byte header whose last two bytes are the big-endian payload length, then the payload). Records
are consumed by a cursor `pos`; consumed bytes are given back in two places, on `push` when
everything was consumed and on `takeRecord` when no complete record is left (`compact`).

Both operations are specified through the unread bytes `unread = buf[pos..]`: `push` appends to
them (`unread_push`), `takeRecord` takes the first record of them, by the framing `tls`
(`takeRecord_none`, `takeRecord_some`). `calls_lossless` is what follows for any sequence of calls. -/

namespace QeliSsPlugin.Carrier

open QeliSsPlugin.Lib QeliSsPlugin.Mux

/-- The size of a record header. -/
def header : ℕ := 5

/-- The framing of the wire: `type(1) ‖ version(2) ‖ payload_len(2, BE) ‖ payload`. -/
def tls : Framing UInt8 where
  header := header
  header_pos := by decide
  payload h := u16FromBe (h.getD 3 0) (h.getD 4 0)

/-- Buffered TLS-record extraction: push socket chunks, take complete records. -/
structure RecordBuf where
  buf : Bytes
  /-- Read cursor: records are consumed from `buf[pos..]`. -/
  pos : ℕ
  deriving DecidableEq

namespace RecordBuf

def new : RecordBuf := ⟨[], 0⟩

/-- Append bytes read from the socket. -/
def push (rb : RecordBuf) (chunk : Bytes) : RecordBuf :=
  -- The buffer was fully consumed: reuse it without growing.
  let rb := if rb.pos = rb.buf.length then ⟨[], 0⟩ else rb
  { rb with buf := rb.buf ++ chunk }

/-- Drop consumed bytes. -/
def compact (rb : RecordBuf) : RecordBuf :=
  if rb.pos > 0 then ⟨rb.buf.drop rb.pos, 0⟩ else rb

/-- Take one complete record, if a whole record is buffered. -/
def takeRecord (rb : RecordBuf) : Option Bytes × RecordBuf :=
  let avail := rb.buf.length - rb.pos
  if avail < header then (none, rb.compact)
  else
    let payloadLen := u16FromBe (rb.buf.getD (rb.pos + 3) 0) (rb.buf.getD (rb.pos + 4) 0)
    let total := header + payloadLen
    if avail < total then (none, rb.compact)
    else (some ((rb.buf.drop rb.pos).take total), { rb with pos := rb.pos + total })

/-- The bytes not consumed yet. -/
def unread (rb : RecordBuf) : Bytes := rb.buf.drop rb.pos

/-- The cursor is inside the buffer. -/
def WF (rb : RecordBuf) : Prop := rb.pos ≤ rb.buf.length

@[simp] theorem unread_new : new.unread = [] := rfl

theorem wf_new : new.WF := Nat.le_refl _

theorem length_unread (rb : RecordBuf) : rb.unread.length = rb.buf.length - rb.pos := by
  simp [unread]

theorem wf_push {rb : RecordBuf} (h : rb.WF) (chunk : Bytes) : (rb.push chunk).WF := by
  unfold push WF at *
  split_ifs <;> simp; omega

theorem unread_push {rb : RecordBuf} (h : rb.WF) (chunk : Bytes) :
    (rb.push chunk).unread = rb.unread ++ chunk := by
  unfold push unread WF at *
  split_ifs with hp
  · simp [hp]
  · rw [List.drop_append_of_le_length h]

theorem wf_compact {rb : RecordBuf} (h : rb.WF) : rb.compact.WF := by
  unfold compact
  split_ifs
  · exact Nat.zero_le _
  · exact h

@[simp] theorem unread_compact (rb : RecordBuf) : rb.compact.unread = rb.unread := by
  unfold compact unread
  split_ifs <;> simp

theorem pos_compact (rb : RecordBuf) : rb.compact.pos = 0 := by
  unfold compact
  split_ifs
  · rfl
  · omega

theorem total_unread (rb : RecordBuf) :
    tls.total rb.unread =
      header + u16FromBe (rb.buf.getD (rb.pos + 3) 0) (rb.buf.getD (rb.pos + 4) 0) := by
  unfold Framing.total unread tls
  simp [header, List.getD_eq_getElem?_getD, List.getElem?_drop]

/-- `takeRecord` is the framing's `take?` on the unread bytes. -/
theorem takeRecord_eq (rb : RecordBuf) :
    rb.takeRecord = match tls.take? rb.unread with
      | none => (none, rb.compact)
      | some (r, _) => (some r, { rb with pos := rb.pos + r.length }) := by
  have hl := length_unread rb
  have ht := total_unread rb
  simp only [takeRecord, Framing.take?]
  rw [← ht, ← hl]
  by_cases h1 : rb.unread.length < header
  · rw [if_pos h1, if_neg (fun h => absurd h.1 (not_le.mpr h1))]
  · rw [if_neg h1]
    by_cases h2 : rb.unread.length < tls.total rb.unread
    · rw [if_pos h2, if_neg (fun h => absurd h.2 (not_le.mpr h2))]
    · have hle : tls.header ≤ rb.unread.length := not_lt.mp h1
      rw [if_neg h2, if_pos ⟨hle, not_lt.mp h2⟩]
      simp only [List.length_take, Nat.min_eq_left (not_lt.mp h2)]
      rfl

/-- **No complete record is unread**: nothing is lost, and the cursor is back at 0. -/
theorem takeRecord_none {rb : RecordBuf} (h : tls.take? rb.unread = none) :
    rb.takeRecord = (none, rb.compact) := by rw [takeRecord_eq, h]

/-- **A complete record is unread**: it is returned, and what follows it stays. -/
theorem takeRecord_some {rb : RecordBuf} {r rest : Bytes}
    (h : tls.take? rb.unread = some (r, rest)) :
    ∃ rb', rb.takeRecord = (some r, rb') ∧ rb'.unread = rest ∧ (rb.WF → rb'.WF) := by
  refine ⟨{ rb with pos := rb.pos + r.length }, by rw [takeRecord_eq, h], ?_, fun hwf => ?_⟩
  · have hr := (tls.take?_eq_some_iff.mp h).2
    unfold unread at hr ⊢
    rw [← List.drop_drop, hr]
    simp
  · have hr := congrArg List.length (tls.take?_eq_some_iff.mp h).2
    rw [length_unread, List.length_append] at hr
    unfold WF at hwf ⊢
    simp only
    omega

/-- What a call that returns nothing found and did. -/
theorem take?_of_takeRecord_none {rb rb' : RecordBuf} (h : rb.takeRecord = (none, rb')) :
    tls.take? rb.unread = none ∧ rb' = rb.compact := by
  rw [takeRecord_eq] at h
  cases ht : tls.take? rb.unread with
  | none => rw [ht] at h; exact ⟨rfl, (congrArg Prod.snd h).symm⟩
  | some q => rw [ht] at h; cases h

/-- What a call that returns a record found and did. -/
theorem take?_of_takeRecord_some {rb rb' : RecordBuf} {r : Bytes}
    (h : rb.takeRecord = (some r, rb')) :
    tls.take? rb.unread = some (r, rb'.unread) ∧ rb'.buf = rb.buf ∧ (rb.WF → rb'.WF) := by
  cases ht : tls.take? rb.unread with
  | none => rw [takeRecord_none ht] at h; cases h
  | some q =>
    obtain ⟨r', rest⟩ := q
    obtain ⟨rb'', htake, hunread, hwf⟩ := takeRecord_some ht
    have hbuf : rb.takeRecord.2.buf = rb.buf := by rw [takeRecord_eq, ht]
    rw [h] at htake hbuf
    cases htake
    exact ⟨by rw [hunread], hbuf, hwf⟩

/-! ### Any sequence of calls -/

/-- A call of one of the two operations. -/
inductive Call
  | push (chunk : Bytes)
  | takeRecord
  deriving DecidableEq

/-- A buffer, with the chunks pushed and the records returned so far. -/
structure Usage where
  rb : RecordBuf
  pushed : List Bytes
  returned : List Bytes

/-- The buffer before the first call. -/
def Usage.start : Usage := ⟨new, [], []⟩

/-- One call. -/
def Usage.call (u : Usage) : Call → Usage
  | .push chunk => { u with rb := u.rb.push chunk, pushed := u.pushed ++ [chunk] }
  | .takeRecord =>
    { u with rb := u.rb.takeRecord.2, returned := u.returned ++ u.rb.takeRecord.1.toList }

/-- **The buffer loses nothing**: the cursor is inside it, what was returned and what is unread is
what was pushed, and only records were returned. -/
structure Lossless (u : Usage) : Prop where
  wf : u.rb.WF
  bytes : u.returned.flatten ++ u.rb.unread = u.pushed.flatten
  records : ∀ r ∈ u.returned, tls.IsRecord r

theorem lossless_start : Lossless Usage.start := ⟨wf_new, rfl, by simp [Usage.start]⟩

theorem Lossless.call {u : Usage} (h : Lossless u) (c : Call) : Lossless (u.call c) := by
  obtain ⟨hwf, hbytes, hrecords⟩ := h
  cases c with
  | push chunk =>
    refine ⟨wf_push hwf chunk, ?_, hrecords⟩
    show u.returned.flatten ++ (u.rb.push chunk).unread = (u.pushed ++ [chunk]).flatten
    rw [unread_push hwf, ← List.append_assoc, hbytes]
    simp
  | takeRecord =>
    cases ht : tls.take? u.rb.unread with
    | none =>
      have hcall : u.call .takeRecord = { u with rb := u.rb.compact } := by
        simp [Usage.call, takeRecord_none ht]
      rw [hcall]
      exact ⟨wf_compact hwf, by simpa using hbytes, hrecords⟩
    | some q =>
      obtain ⟨r, rest⟩ := q
      obtain ⟨rb', htake, hunread, hwf'⟩ := takeRecord_some ht
      obtain ⟨hr, hsplit⟩ := tls.take?_eq_some_iff.mp ht
      have hcall : u.call .takeRecord = { u with rb := rb', returned := u.returned ++ [r] } := by
        simp [Usage.call, htake]
      rw [hcall]
      refine ⟨hwf' hwf, ?_, fun r' hr' => ?_⟩
      · rw [← hbytes, hsplit]
        simp [hunread]
      · rcases List.mem_append.mp hr' with hr' | hr'
        · exact hrecords r' hr'
        · rw [List.mem_singleton.mp hr']; exact hr

theorem lossless_calls (calls : List Call) : Lossless (calls.foldl Usage.call .start) := by
  induction calls using List.reverseRecOn with
  | nil => exact lossless_start
  | append_singleton calls c ih => rw [List.foldl_concat]; exact ih.call c

theorem takeRecord_eq_none_iff (rb : RecordBuf) :
    rb.takeRecord.1 = none ↔ ¬ ∃ r, tls.IsRecord r ∧ r <+: rb.unread := by
  constructor
  · rintro hnone ⟨r, hr, rest, hrest⟩
    obtain ⟨rb', htake, -⟩ := takeRecord_some (tls.take?_eq_some_iff.mpr ⟨hr, hrest.symm⟩)
    rw [htake] at hnone; cases hnone
  · intro hno
    cases ht : tls.take? rb.unread with
    | none => rw [takeRecord_none ht]
    | some q =>
      obtain ⟨hr, hsplit⟩ := tls.take?_eq_some_iff.mp ht
      exact absurd ⟨q.1, hr, q.2, hsplit.symm⟩ hno

/-- A record is as long as its header says. -/
theorem length_of_isRecord {r : Bytes} (h : tls.IsRecord r) :
    r.length = header + u16FromBe (r.getD 3 0) (r.getD 4 0) := by
  have htotal := total_unread ⟨r, 0⟩
  simp only [unread, List.drop_zero, Nat.zero_add] at htotal
  rw [← htotal]; exact h.2

/-- **`RecordBuf` is a lossless record splitter.** After any sequence of calls the cursor is inside
the buffer, the header bytes and the record that the next `takeRecord` reads are in range, the records
returned followed by the unread bytes are the chunks pushed, every record returned is as long as its
header says, and the next `takeRecord` returns nothing exactly when no complete record is unread. -/
theorem calls_lossless (calls : List Call) :
    let u := calls.foldl Usage.call .start
    u.rb.pos ≤ u.rb.buf.length ∧
      (header ≤ u.rb.buf.length - u.rb.pos → u.rb.pos + 4 < u.rb.buf.length) ∧
      (∀ r, u.rb.takeRecord.1 = some r → u.rb.pos + r.length ≤ u.rb.buf.length) ∧
      u.returned.flatten ++ u.rb.unread = u.pushed.flatten ∧
      (∀ r ∈ u.returned, header ≤ r.length ∧
        r.length = header + u16FromBe (r.getD 3 0) (r.getD 4 0)) ∧
      (u.rb.takeRecord.1 = none ↔ ¬ ∃ r, tls.IsRecord r ∧ r <+: u.rb.unread) := by
  intro u
  obtain ⟨hwf, hbytes, hrecords⟩ := lossless_calls calls
  refine ⟨hwf, fun havail => ?_, fun r hr => ?_, hbytes, fun r hr => ?_, takeRecord_eq_none_iff _⟩
  · unfold header at havail
    omega
  · -- the record is a part of the unread bytes
    cases ht : tls.take? u.rb.unread with
    | none => rw [takeRecord_none ht] at hr; cases hr
    | some q =>
      obtain ⟨rb', htake, -⟩ := takeRecord_some ht
      rw [htake] at hr
      obtain rfl := Option.some.inj hr
      have hlen := congrArg List.length (tls.take?_eq_some_iff.mp ht).2
      rw [length_unread, List.length_append] at hlen
      have hpos : u.rb.pos ≤ u.rb.buf.length := hwf
      omega
  · exact ⟨(hrecords r hr).1, length_of_isRecord (hrecords r hr)⟩

end RecordBuf

end QeliSsPlugin.Carrier
