import QeliSsPlugin.Carrier.Refill

/-! # The handshake's record reader

`RecordReader` is what the handshake reads its records with. Unlike `RecordBuf` it drains the front of
its buffer, and reads by itself until a record is complete or the stream ends. Both cut the stream by
the framing `tls` (`readRecords_eq`, `RecordBuf.drainEach_eq`), so on the same stream they return the
same records, however each of them reads it. -/

namespace QeliSsPlugin.Handshake

open QeliSsPlugin.Lib QeliSsPlugin.Mux QeliSsPlugin.Carrier

inductive ErrorKind
  | unexpectedEof
  | other
  deriving DecidableEq

/-- `io::Error`. -/
structure IoError where
  kind : ErrorKind
  message : String
  deriving DecidableEq

/-- The error of a stream that ends inside a record. -/
def closedMidHandshake : IoError := ⟨.unexpectedEof, "peer closed mid-handshake"⟩

/-- What the coming reads of a socket give; after them the stream ends. -/
abbrev Reads := List (Except IoError Bytes)

namespace Reads

/-- The bytes still to come. -/
def bytes (io : Reads) : Bytes := io.flatMap fun r => r.toOption.getD []

/-- A stream that comes in these chunks, and ends. -/
def ofChunks (chunks : List Bytes) : Reads := chunks.map .ok

@[simp] theorem bytes_ofChunks (chunks : List Bytes) : bytes (ofChunks chunks) = chunks.flatten := by
  unfold bytes ofChunks
  rw [List.flatMap_map, List.flatMap_def]
  congr 1
  exact List.map_id' chunks

end Reads

/-- Buffered reading of records. -/
structure RecordReader where
  buf : Bytes
  deriving DecidableEq

namespace RecordReader

def new : RecordReader := ⟨[]⟩

/-- The record at the front of the buffer, drained, if it is complete. -/
def drain? (rr : RecordReader) : Option (Bytes × RecordReader) :=
  if rr.buf.length ≥ header then
    let payloadLen := u16FromBe (rr.buf.getD 3 0) (rr.buf.getD 4 0)
    let total := header + payloadLen
    if rr.buf.length ≥ total then some (rr.buf.take total, ⟨rr.buf.drop total⟩) else none
  else none

/-- **Read until one complete record is buffered, return it.** -/
def readRecord (rr : RecordReader) (io : Reads) : Except IoError Bytes × RecordReader × Reads :=
  match rr.drain? with
  | some (r, rr') => (.ok r, rr', io)
  | none =>
    match io with
    | [] => (.error closedMidHandshake, rr, [])
    | .error e :: io => (.error e, rr, io)
    | .ok [] :: io => (.error closedMidHandshake, rr, io)
    | .ok (b :: chunk) :: io => readRecord ⟨rr.buf ++ b :: chunk⟩ io

/-! ### One call -/

theorem drain?_eq (rr : RecordReader) :
    rr.drain? = (tls.take? rr.buf).map fun q => (q.1, ⟨q.2⟩) := by
  have htotal : tls.total rr.buf =
      header + u16FromBe (rr.buf.getD 3 0) (rr.buf.getD 4 0) :=
    RecordBuf.total_unread ⟨rr.buf, 0⟩
  unfold drain? Framing.take?
  simp only [← htotal]
  by_cases h1 : rr.buf.length ≥ header
  · by_cases h2 : rr.buf.length ≥ tls.total rr.buf
    · rw [if_pos h1, if_pos h2, if_pos ⟨h1, h2⟩]
      rfl
    · rw [if_pos h1, if_neg h2, if_neg (fun h => h2 h.2)]
      rfl
  · rw [if_neg h1, if_neg (fun h => h1 h.1)]
    rfl

section Call

variable {rr rr' : RecordReader} {io io' : Reads} {r rest : Bytes}

/-- A record that is complete already is returned without a read. -/
theorem readRecord_buffered (h : tls.take? rr.buf = some (r, rest)) (io : Reads) :
    rr.readRecord io = (.ok r, ⟨rest⟩, io) := by
  have hd : rr.drain? = some (r, ⟨rest⟩) := by rw [drain?_eq, h]; rfl
  rw [readRecord.eq_def, hd]

theorem readRecord_end (h : tls.take? rr.buf = none) :
    rr.readRecord [] = (.error closedMidHandshake, rr, []) := by
  have hd : rr.drain? = none := by rw [drain?_eq, h]; rfl
  rw [readRecord, hd]

theorem readRecord_read (h : tls.take? rr.buf = none) (read : Except IoError Bytes) (io : Reads) :
    rr.readRecord (read :: io) =
      match read with
      | .error e => (.error e, rr, io)
      | .ok [] => (.error closedMidHandshake, rr, io)
      | .ok (b :: chunk) => readRecord ⟨rr.buf ++ b :: chunk⟩ io := by
  have hd : rr.drain? = none := by rw [drain?_eq, h]; rfl
  rw [readRecord.eq_def, hd]
  rcases read with e | _ | ⟨b, chunk⟩ <;> rfl

theorem ok_of_buffered {q : Bytes × Bytes} (ht : tls.take? rr.buf = some q)
    (h : rr.readRecord io = (.ok r, rr', io')) :
    tls.IsRecord r ∧ rr.buf ++ io.bytes = r ++ (rr'.buf ++ io'.bytes) := by
  obtain ⟨hr, hsplit⟩ := tls.take?_eq_some_iff.mp ht
  rw [readRecord_buffered ht] at h
  cases h
  exact ⟨hr, by rw [hsplit, List.append_assoc]⟩

/-- What is returned is a complete record, the first of what was still to be read, and nothing else
is consumed. -/
theorem readRecord_ok (h : rr.readRecord io = (.ok r, rr', io')) :
    tls.IsRecord r ∧ rr.buf ++ io.bytes = r ++ (rr'.buf ++ io'.bytes) := by
  induction io generalizing rr with
  | nil =>
    cases ht : tls.take? rr.buf with
    | none => rw [readRecord_end ht] at h; cases h
    | some q => exact ok_of_buffered ht h
  | cons read io ih =>
    cases ht : tls.take? rr.buf with
    | none =>
      rw [readRecord_read ht] at h
      rcases read with e | _ | ⟨b, chunk⟩
      · cases h
      · cases h
      · obtain ⟨hr, hbytes⟩ := ih h
        refine ⟨hr, ?_⟩
        rw [← hbytes]
        simp [Reads.bytes, Except.toOption]
    | some q => exact ok_of_buffered ht h

end Call

/-- A call on a stream that comes in non-empty chunks: it returns the first complete record of what
is buffered and still to come, else it fails with the end of the stream. -/
theorem readRecord_spec (chunks : List Bytes) (rr : RecordReader) (hne : ∀ c ∈ chunks, c ≠ []) :
    match tls.take? (rr.buf ++ chunks.flatten) with
    | some (r, rest) => ∃ rr' chunks', (∀ c ∈ chunks', c ≠ []) ∧
        rr'.buf ++ chunks'.flatten = rest ∧
        rr.readRecord (.ofChunks chunks) = (.ok r, rr', .ofChunks chunks')
    | none => ∃ rr', rr.readRecord (.ofChunks chunks) = (.error closedMidHandshake, rr', []) := by
  induction chunks generalizing rr with
  | nil =>
    rw [List.flatten_nil, List.append_nil]
    cases ht : tls.take? rr.buf with
    | none => exact ⟨rr, readRecord_end ht⟩
    | some q => exact ⟨⟨q.2⟩, [], hne, by simp, readRecord_buffered ht []⟩
  | cons chunk chunks ih =>
    cases ht : tls.take? rr.buf with
    | none =>
      obtain ⟨b, c, rfl⟩ := List.exists_cons_of_ne_nil (hne chunk List.mem_cons_self)
      have hread := readRecord_read ht (.ok (b :: c)) (.ofChunks chunks)
      have ih := ih ⟨rr.buf ++ b :: c⟩ fun d hd => hne d (List.mem_cons_of_mem _ hd)
      rw [List.append_assoc] at ih
      exact hread ▸ ih
    | some q =>
      rw [tls.take?_append ht]
      exact ⟨⟨q.2⟩, chunk :: chunks, hne, rfl, readRecord_buffered ht _⟩

/-! ### Calls until one fails -/

/-- The records returned by calling `readRecord` until it fails, and the error. -/
def readRecords (rr : RecordReader) (io : Reads) : List Bytes × IoError :=
  match _h : rr.readRecord io with
  | (.error e, _, _) => ([], e)
  | (.ok r, rr', io') => (r :: (readRecords rr' io').1, (readRecords rr' io').2)
termination_by (rr.buf ++ io.bytes).length
decreasing_by
  all_goals
    obtain ⟨hr, hbytes⟩ := readRecord_ok _h
    have hpos := List.length_pos_iff.mpr (Framing.IsRecord.ne_nil tls hr)
    have hlen := congrArg List.length hbytes
    simp only [List.length_append] at hlen ⊢
    omega

theorem readRecords_of_ok {rr rr' : RecordReader} {io io' : Reads} {r : Bytes}
    (h : rr.readRecord io = (.ok r, rr', io')) :
    rr.readRecords io = (r :: (rr'.readRecords io').1, (rr'.readRecords io').2) := by
  rw [readRecords]
  split
  · next h' => rw [h] at h'; cases h'
  · next h' => rw [h] at h'; cases h'; rfl

theorem readRecords_of_error {rr rr' : RecordReader} {io io' : Reads} {e : IoError}
    (h : rr.readRecord io = (.error e, rr', io')) : rr.readRecords io = ([], e) := by
  rw [readRecords]
  split
  · next h' => rw [h] at h'; cases h'; rfl
  · next h' => rw [h] at h'; cases h'

/-- However a stream is read, its complete records are returned, and then its end is met. -/
theorem readRecords_eq (bs : Bytes) : ∀ (rr : RecordReader) (chunks : List Bytes),
    (∀ c ∈ chunks, c ≠ []) → rr.buf ++ chunks.flatten = bs →
    rr.readRecords (.ofChunks chunks) = ((tls.split bs).1, closedMidHandshake) := by
  induction bs using tls.split_induction with
  | hnone bs ht =>
    intro rr chunks hne hbs
    have hspec := readRecord_spec chunks rr hne
    rw [hbs, ht] at hspec
    obtain ⟨rr', h⟩ := hspec
    rw [readRecords_of_error h, tls.split_none ht]
  | hsome r rest hr ih =>
    intro rr chunks hne hbs
    have hspec := readRecord_spec chunks rr hne
    rw [hbs, tls.take?_record hr] at hspec
    obtain ⟨rr', chunks', hne', hrest, h⟩ := hspec
    rw [readRecords_of_ok h, ih rr' chunks' hne' hrest, tls.split_record hr]

/-- **The two record readers agree.** On one stream, the records that `readRecord` returns until it
fails are those that `takeRecord` gives when it is called after every push, however the stream is cut
into reads and into pushes. `readRecord` fails with the end of the stream exactly when no complete
record is buffered and still to come, and whatever it returns is a complete record. -/
theorem readers_agree {reads pushes : List Bytes} (hne : ∀ c ∈ reads, c ≠ [])
    (h : reads.flatten = pushes.flatten) :
    new.readRecords (.ofChunks reads) =
        (RecordBuf.new.drainEach pushes, closedMidHandshake) ∧
      (∀ (rr : RecordReader) (rest : List Bytes), (∀ c ∈ rest, c ≠ []) →
        ((rr.readRecord (.ofChunks rest)).1 = .error closedMidHandshake ↔
          ¬ ∃ r, tls.IsRecord r ∧ r <+: rr.buf ++ rest.flatten)) ∧
      (∀ (rr : RecordReader) (io : Reads) (r : Bytes), (rr.readRecord io).1 = .ok r →
        tls.IsRecord r ∧ r <+: rr.buf ++ io.bytes) := by
  refine ⟨?_, fun rr rest hrest => ?_, fun rr io r hok => ?_⟩
  · have hdrain := RecordBuf.drainEach_eq pushes .new RecordBuf.wf_new tls.take?_nil
    rw [hdrain]
    exact readRecords_eq _ new reads hne h
  · have hspec := readRecord_spec rest rr hrest
    cases ht : tls.take? (rr.buf ++ rest.flatten) with
    | none =>
      rw [ht] at hspec
      obtain ⟨rr', hcall⟩ := hspec
      rw [hcall]
      refine iff_of_true rfl ?_
      rintro ⟨r, hr, tail, htail⟩
      rw [← htail, tls.take?_record hr] at ht
      cases ht
    | some q =>
      rw [ht] at hspec
      obtain ⟨rr', chunks', -, -, hcall⟩ := hspec
      obtain ⟨hr, hsplit⟩ := tls.take?_eq_some_iff.mp ht
      rw [hcall]
      exact iff_of_false (by simp) (not_not.mpr ⟨q.1, hr, q.2, hsplit.symm⟩)
  · rcases hcall : rr.readRecord io with ⟨result, rr', io'⟩
    rw [hcall] at hok
    obtain rfl : result = .ok r := hok
    obtain ⟨hr, hbytes⟩ := readRecord_ok hcall
    exact ⟨hr, _, hbytes.symm⟩

/-- Two records and a part of a third, in one read and byte by byte. -/
theorem readers_agree_bytewise :
    new.readRecords (.ofChunks [[23, 3, 3, 0, 1, 9, 20, 3, 3, 0, 0, 23, 3]]) =
      (RecordBuf.new.drainEach [[23], [3], [3], [0], [1], [9], [20], [3], [3], [0], [0], [23], [3]],
        closedMidHandshake) :=
  (readers_agree (by decide) (by decide)).1

end RecordReader

end QeliSsPlugin.Handshake
