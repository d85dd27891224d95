import QeliSsPlugin.Handshake.Handover
import QeliSsPlugin.Mux.Codec

/-!
# The byte stream from one tunnel to the other

A `Pipe` is one direction of a connection: the writer loop and its codec at one end, the bytes on their
way, the `RecordBuf` of the reader loop and its codec at the other. `Carries` says which frames it
carries, as the records of the model with whole records: those complete in the reader's buffer, and
those that are not. One lemma for each thing that can happen to a pipe: a record is taken, bytes are read,
a frame is encrypted, a part of a packet goes out, the rest of it goes out.
-/

namespace QeliSsPlugin.Handshake

open Mux Carrier Lib

/-- One direction of a connection. -/
structure Pipe (core : Core) where
  writer : Writer
  packet : Bytes
  tx : core.PacketCodec
  /-- How many bytes of the packet being written are out. -/
  out : ℕ
  /-- The bytes that are out and not read. -/
  bytes : Bytes
  records : RecordBuf
  rx : core.PacketCodec

variable {core : Core}

/-- Records that decrypt to these frames, one after the other, and leave `rx` matched with `tx`. -/
inductive Decrypts (tx : core.PacketCodec) : core.PacketCodec → List Bytes → List Frame → Prop
  | nil {rx} : core.Synced tx rx → Decrypts tx rx [] []
  | cons {rx rx' r rs f fs} : outcome core.decryptPacket rx r = (.good f, rx') →
      Decrypts tx rx' rs fs → Decrypts tx rx (r :: rs) (f :: fs)

theorem Decrypts.length {tx rx : core.PacketCodec} {rs : List Bytes} {fs : List Frame}
    (h : Decrypts tx rx rs fs) : fs.length = rs.length := by
  induction h with
  | nil => rfl
  | cons _ _ ih => simp [ih]

/-- One more frame is encrypted. -/
theorem Decrypts.snoc {tx tx' rx : core.PacketCodec} {rs : List Bytes} {fs : List Frame} {f : Frame}
    {packet : Bytes} (h : Decrypts tx rx rs fs) (hfits : f.fits = true)
    (he : core.encryptPacket tx f.encode = (.ok packet, tx')) :
    Decrypts tx' rx (rs ++ [packet]) (fs ++ [f]) := by
  induction h with
  | nil hsync =>
    obtain ⟨rx', hd, hsync'⟩ := hsync.next he
    refine .cons ?_ (.nil hsync')
    unfold outcome
    rw [hd]
    simp only [Frame.decode_of_fits hfits]
  | cons ho _ ih => exact .cons ho ih

namespace Pipe

variable {p : Pipe core} {buffered wire : List Outcome} {f : Frame}

/-- What the reader has not taken of what is out. -/
def stream (p : Pipe core) : Bytes := p.records.unread ++ p.bytes

/-- What follows the last complete record: what is out of the packet being written, or what was when the
write failed. -/
def Ends (p : Pipe core) (tx : core.PacketCodec) : Prop :=
  match p.writer with
  | .top | .select => (tls.split p.stream).2 = [] ∧ p.out = 0 ∧ p.tx = tx
  | .writing f => f.fits = true ∧ (tls.split p.stream).2 = p.packet.take p.out ∧
      p.out < p.packet.length ∧ core.encryptPacket tx f.encode = (.ok p.packet, p.tx)
  | .left => True

/-- **What a pipe carries**: as many records are complete in the buffer as `buffered` says, and all the
complete ones decrypt to `buffered` and `wire`. -/
structure Carries (p : Pipe core) (buffered wire : List Outcome) : Prop where
  wf : p.records.WF
  count : buffered.length = (tls.split p.records.unread).1.length
  frames : ∃ fs tx, Decrypts tx p.rx (tls.split p.stream).1 fs ∧ buffered ++ wire = fs.map .good ∧
    p.Ends tx

/-- The bytes that follow are cut where the buffer ends. -/
theorem split_stream (p : Pipe core) :
    tls.split p.stream =
      ((tls.split p.records.unread).1 ++
          (tls.split ((tls.split p.records.unread).2 ++ p.bytes)).1,
        (tls.split ((tls.split p.records.unread).2 ++ p.bytes)).2) :=
  tls.split_append _ _

theorem carries_start {tx rx : core.PacketCodec} (h : core.Synced tx rx) :
    (⟨.top, [], tx, 0, [], .new, rx⟩ : Pipe core).Carries [] [] where
  wf := RecordBuf.wf_new
  count := by simp
  frames := by
    have hstream : (⟨.top, [], tx, 0, [], .new, rx⟩ : Pipe core).stream = [] := rfl
    refine ⟨[], tx, ?_, rfl, ?_⟩
    · rw [hstream, tls.split_nil]
      exact .nil h
    · unfold Ends
      rw [hstream, tls.split_nil]
      exact ⟨rfl, rfl, rfl⟩

/-- With no bytes on their way no record is. -/
theorem Carries.wire_nil (h : p.Carries buffered wire) (hb : p.bytes = []) : wire = [] := by
  obtain ⟨-, hcount, fs, tx, hdec, hmap, -⟩ := h
  have hlen := congrArg List.length hmap
  have hstream : p.stream = p.records.unread := by
    unfold stream
    rw [hb, List.append_nil]
  rw [List.length_append, List.length_map, hdec.length, hstream, ← hcount] at hlen
  exact List.length_eq_zero_iff.mp (by omega)

/-! ### The reader's end -/

/-- **The reader takes a record**: it decrypts to the first frame carried. -/
theorem Carries.take {r : Bytes} {rb : RecordBuf} (h : p.Carries buffered wire)
    (ht : p.records.takeRecord = (some r, rb)) :
    ∃ f rx rest, outcome core.decryptPacket p.rx r = (.good f, rx) ∧ buffered = .good f :: rest ∧
      ({ p with records := rb, rx := rx } : Pipe core).Carries rest wire := by
  obtain ⟨hwf, hcount, fs, tx, hdec, hmap, hends⟩ := h
  obtain ⟨htake, -, hwf'⟩ := RecordBuf.take?_of_takeRecord_some ht
  have hunread := tls.split_some htake
  have hstream : tls.split p.stream =
      (r :: (tls.split (rb.unread ++ p.bytes)).1, (tls.split (rb.unread ++ p.bytes)).2) :=
    tls.split_some (tls.take?_append htake p.bytes)
  rw [hunread, List.length_cons] at hcount
  obtain ⟨o, rest, rfl⟩ := List.exists_cons_of_length_eq_add_one hcount
  rw [hstream] at hdec
  generalize hrx : p.rx = rx at hdec
  cases hdec with
  | @cons rx rx' _ _ f fs ho hdec =>
    simp only [List.cons_append, List.map_cons, List.cons.injEq] at hmap
    obtain ⟨rfl, hmap⟩ := hmap
    refine ⟨f, rx', rest, ho, rfl, hwf' hwf, ?_, fs, tx, hdec, hmap, ?_⟩
    · simpa using hcount
    · unfold Ends at hends ⊢
      rw [hstream] at hends
      exact hends

/-- **The buffer holds no record**: none was complete. -/
theorem Carries.compact {rb : RecordBuf} (h : p.Carries buffered wire)
    (ht : p.records.takeRecord = (none, rb)) :
    buffered = [] ∧ ({ p with records := rb } : Pipe core).Carries [] wire := by
  obtain ⟨hwf, hcount, fs, tx, hdec, hmap, hends⟩ := h
  obtain ⟨hnone, rfl⟩ := RecordBuf.take?_of_takeRecord_none ht
  rw [tls.split_none hnone] at hcount
  obtain rfl := List.length_eq_zero_iff.mp hcount
  have hstream : ({ p with records := p.records.compact } : Pipe core).stream = p.stream := by
    unfold stream
    rw [RecordBuf.unread_compact]
  refine ⟨rfl, RecordBuf.wf_compact hwf, ?_, fs, tx, ?_, hmap, ?_⟩
  · rw [RecordBuf.unread_compact, tls.split_none hnone]
    rfl
  · rw [hstream]
    exact hdec
  · unfold Ends at hends ⊢
    rw [hstream]
    exact hends

/-- **The reader reads**: some of the records on the wire are now complete in the buffer. -/
theorem Carries.read (n : ℕ) (h : p.Carries buffered wire) :
    ∃ m ≤ wire.length, ({ p with
      records := p.records.push (p.bytes.take n), bytes := p.bytes.drop n } : Pipe core).Carries
        (buffered ++ wire.take m) (wire.drop m) := by
  obtain ⟨hwf, hcount, fs, tx, hdec, hmap, hends⟩ := h
  have hunread := RecordBuf.unread_push hwf (p.bytes.take n)
  have hstream : ({ p with
      records := p.records.push (p.bytes.take n), bytes := p.bytes.drop n } : Pipe core).stream =
        p.stream := by
    unfold stream
    simp only [hunread, List.append_assoc, List.take_append_drop]
  have hpushed := tls.split_append p.records.unread (p.bytes.take n)
  have hwhole := tls.split_append (p.records.unread ++ p.bytes.take n) (p.bytes.drop n)
  rw [List.append_assoc, List.take_append_drop] at hwhole
  -- how many records the bytes read complete
  obtain ⟨m, hm⟩ : ∃ m, m = (tls.split ((tls.split p.records.unread).2 ++ p.bytes.take n)).1.length :=
    ⟨_, rfl⟩
  have hle : buffered.length + m ≤ (tls.split p.stream).1.length := by
    unfold stream
    rw [hwhole, hpushed, hcount, hm]
    simp
  have hlen : buffered.length + wire.length = (tls.split p.stream).1.length := by
    rw [← hdec.length, ← List.length_append, hmap, List.length_map]
  refine ⟨m, by omega, RecordBuf.wf_push hwf _, ?_, fs, tx, ?_, ?_, ?_⟩
  · rw [hunread, hpushed, List.length_append, List.length_append, List.length_take, hcount, ← hm]
    have hmle : m ≤ wire.length := by omega
    omega
  · rw [hstream]
    exact hdec
  · rw [List.append_assoc, List.take_append_drop]
    exact hmap
  · unfold Ends at hends ⊢
    rw [hstream]
    exact hends

/-! ### The writer's end -/

/-- The writer moves on without a frame, or leaves its loop. -/
theorem Carries.move {w : Writer} {tx : core.PacketCodec} (h : p.Carries buffered wire)
    (hw : w = .left ∨ tx = p.tx ∧ (w = p.writer ∨ p.writer = .top ∧ w = .select)) :
    ({ p with writer := w, tx := tx } : Pipe core).Carries buffered wire := by
  obtain ⟨hwf, hcount, fs, tx', hdec, hmap, hends⟩ := h
  refine ⟨hwf, hcount, fs, tx', hdec, hmap, ?_⟩
  rcases hw with rfl | ⟨rfl, rfl | ⟨hp, rfl⟩⟩
  · trivial
  · exact hends
  · unfold Ends at hends
    rw [hp] at hends
    exact hends

/-- **The writer encrypts a frame.** -/
theorem Carries.encrypt {packet : Bytes} {tx : core.PacketCodec} (laws : core.Laws)
    (h : p.Carries buffered wire) (hw : p.writer = .select) (hfits : f.fits = true)
    (he : core.encryptPacket p.tx f.encode = (.ok packet, tx)) :
    ({ p with writer := .writing f, packet := packet, tx := tx } : Pipe core).Carries
      buffered wire := by
  obtain ⟨hwf, hcount, fs, tx', hdec, hmap, hends⟩ := h
  unfold Ends at hends
  rw [hw] at hends
  obtain ⟨hrest, hout, rfl⟩ := hends
  refine ⟨hwf, hcount, fs, p.tx, hdec, hmap, hfits, ?_, ?_, he⟩
  · rw [hout, List.take_zero]
    exact hrest
  · rw [hout]
    exact List.length_pos_iff.mpr (Framing.IsRecord.ne_nil tls (laws.packet_record he))

/-- What goes out of a packet before its end completes no record. -/
theorem split_take {packet : Bytes} {k : ℕ} (hr : tls.IsRecord packet) (hk : k < packet.length) :
    tls.split (packet.take k) = ([], packet.take k) := by
  refine tls.split_none ?_
  cases ht : tls.take? (packet.take k) with
  | none => rfl
  | some q =>
    obtain ⟨r, rest⟩ := q
    have hpacket := tls.take?_append ht (packet.drop k)
    have hself := tls.take?_record hr []
    rw [List.take_append_drop] at hpacket
    rw [List.append_nil, hpacket] at hself
    simp only [Option.some.injEq, Prod.mk.injEq, List.append_eq_nil_iff, List.drop_eq_nil_iff] at hself
    omega

/-- **A part of the packet goes out.** -/
theorem Carries.part {n : ℕ} (laws : core.Laws) (h : p.Carries buffered wire)
    (hw : p.writer = .writing f) (hn : p.out + n < p.packet.length) :
    ({ p with bytes := p.bytes ++ (p.packet.drop p.out).take n, out := p.out + n } :
      Pipe core).Carries buffered wire := by
  obtain ⟨hwf, hcount, fs, tx, hdec, hmap, hends⟩ := h
  unfold Ends at hends
  rw [hw] at hends
  obtain ⟨hfits, hrest, hout, he⟩ := hends
  have hsplit := tls.split_append p.stream ((p.packet.drop p.out).take n)
  have htake : p.packet.take p.out ++ (p.packet.drop p.out).take n = p.packet.take (p.out + n) :=
    List.take_add.symm
  rw [hrest, htake, split_take (laws.packet_record he) hn, List.append_nil] at hsplit
  unfold stream at hsplit
  rw [List.append_assoc] at hsplit
  refine ⟨hwf, hcount, fs, tx, ?_, hmap, ?_⟩
  · unfold stream
    rw [hsplit]
    exact hdec
  · unfold Ends stream
    rw [hw, hsplit]
    exact ⟨hfits, rfl, hn, he⟩

/-- **The rest of the packet goes out**: the frame is carried. -/
theorem Carries.wrote (laws : core.Laws) (h : p.Carries buffered wire)
    (hw : p.writer = .writing f) :
    ({ p with writer := .top, bytes := p.bytes ++ p.packet.drop p.out, out := 0 } :
      Pipe core).Carries buffered (wire ++ [.good f]) := by
  obtain ⟨hwf, hcount, fs, tx, hdec, hmap, hends⟩ := h
  unfold Ends at hends
  rw [hw] at hends
  obtain ⟨hfits, hrest, hout, he⟩ := hends
  have hrecord := tls.split_record (laws.packet_record he) []
  have hsplit := tls.split_append p.stream (p.packet.drop p.out)
  rw [List.append_nil, tls.split_nil] at hrecord
  rw [hrest, List.take_append_drop, hrecord] at hsplit
  unfold stream at hsplit
  rw [List.append_assoc] at hsplit
  refine ⟨hwf, hcount, fs ++ [f], p.tx, ?_, ?_, ?_⟩
  · unfold stream
    rw [hsplit]
    exact hdec.snoc hfits he
  · rw [← List.append_assoc, hmap, List.map_append]
    rfl
  · unfold Ends stream
    rw [hsplit]
    exact ⟨rfl, rfl, rfl⟩

end Pipe

end QeliSsPlugin.Handshake
