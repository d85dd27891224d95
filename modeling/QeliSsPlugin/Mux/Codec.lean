import QeliSsPlugin.Mux.Frame

/-! # Encoding and decoding frames

Decoding inverts encoding on every frame it can: all but the DATA frames with a payload above
`maxData`, which are rejected whatever their length field says (`decode_encode`). In the other
direction `decode` accepts exactly the byte strings of the grammar `WellFormed`, and re-encoding what
was decoded gives the string back, up to the stream id of PING and PONG, which is read but not kept
(`decode_canonical`). -/

namespace QeliSsPlugin.Mux

/-! ### Big-endian numbers -/

theorem u32FromBe_u32ToBe (x : UInt32) :
    u32FromBe (UInt8.ofNat (x.toNat / 16777216)) (UInt8.ofNat (x.toNat / 65536))
      (UInt8.ofNat (x.toNat / 256)) (UInt8.ofNat x.toNat) = x := by
  have hx := x.toNat_lt
  unfold u32FromBe
  simp only [UInt8.toNat_ofNat']
  apply UInt32.toNat_inj.mp
  rw [UInt32.toNat_ofNat']
  omega

theorem u32ToBe_u32FromBe (a b c d : UInt8) : u32ToBe (u32FromBe a b c d) = [a, b, c, d] := by
  have ha := a.toNat_lt
  have hb := b.toNat_lt
  have hc := c.toNat_lt
  have hd := d.toNat_lt
  unfold u32ToBe u32FromBe
  rw [UInt32.toNat_ofNat', Nat.mod_eq_of_lt (by omega)]
  simp only [List.cons.injEq, and_true, ← UInt8.toNat_inj, UInt8.toNat_ofNat']
  omega

/-- The length field keeps the low 16 bits of the length. -/
theorem u16FromBe_u16ToBe (n : ℕ) :
    u16FromBe (UInt8.ofNat (n % 65536 / 256)) (UInt8.ofNat (n % 256)) = n % 65536 := by
  unfold u16FromBe
  simp only [UInt8.toNat_ofNat']
  omega

theorem u16ToBe_u16FromBe (a b : UInt8) : u16ToBe (u16FromBe a b) = [a, b] := by
  have ha := a.toNat_lt
  have hb := b.toNat_lt
  unfold u16ToBe u16FromBe
  simp only [List.cons.injEq, and_true, ← UInt8.toNat_inj, UInt8.toNat_ofNat']
  omega

namespace Frame

/-! ### Decoding what was encoded -/

/-- Whether a frame can be sent: a DATA payload is bounded. -/
def fits : Frame → Bool
  | .data _ p => p.length ≤ maxData
  | _ => true

/-- An encoded frame is its header followed by its payload; `decode` compares the payload with the
length that was kept. -/
theorem decode_encode_eq (f : Frame) :
    decode f.encode =
      if f.payload.length ≠ f.payload.length % 65536 then
        .error (.truncated (f.payload.length % 65536) f.payload.length)
      else decodePayload f.frameType f.stream f.payload := by
  have hcons : f.encode = f.frameType :: UInt8.ofNat (f.stream.toNat / 16777216) ::
      UInt8.ofNat (f.stream.toNat / 65536) :: UInt8.ofNat (f.stream.toNat / 256) ::
      UInt8.ofNat f.stream.toNat :: UInt8.ofNat (f.payload.length % 65536 / 256) ::
      UInt8.ofNat (f.payload.length % 256) :: f.payload := rfl
  rw [hcons]
  simp only [decode, u16FromBe_u16ToBe, u32FromBe_u32ToBe]

/-- The payload of a frame other than DATA has the length its type asks for. -/
theorem decodePayload_self (f : Frame) :
    decodePayload f.frameType f.stream f.payload =
      if f.fits then .ok f else .error (.payloadTooLarge f.payload.length maxData) := by
  rcases f with s | ⟨s, p⟩ | s | n | n
  · rfl
  · by_cases hp : p.length ≤ maxData
    · have hnot : ¬ p.length > maxData := by omega
      simp [decodePayload, frameType, payload, stream, fits, typeOpen, typeClose, typeData, hp, hnot]
    · have hgt : p.length > maxData := by omega
      simp [decodePayload, frameType, payload, fits, typeOpen, typeClose, typeData, hp, hgt]
  · rfl
  · have hn := n.property
    simp [decodePayload, frameType, payload, fits, typeOpen, typeClose, typeData, typePing, typePong,
      hn]
  · have hn := n.property
    simp [decodePayload, frameType, payload, fits, typeOpen, typeClose, typeData, typePing, typePong,
      hn]

theorem length_payload_of_fits {f : Frame} (h : f.fits = true) : f.payload.length ≤ maxData := by
  rcases f with s | ⟨s, p⟩ | s | n | n
  · exact Nat.zero_le _
  · exact of_decide_eq_true h
  · exact Nat.zero_le _
  · exact n.property.trans_le (by decide)
  · exact n.property.trans_le (by decide)

theorem decode_of_fits {f : Frame} (h : f.fits = true) : decode f.encode = .ok f := by
  have hlen := length_payload_of_fits h
  have hmod : f.payload.length % 65536 = f.payload.length := by
    unfold maxData at hlen
    exact Nat.mod_eq_of_lt (by omega)
  rw [decode_encode_eq, decodePayload_self, if_pos h, if_neg (not_not.mpr hmod.symm)]

/-- **Round trip over all frames**: a frame whose payload is in bounds is found again, any other is
rejected, also when its length field wrapped. -/
theorem decode_encode (f : Frame) :
    if f.fits then decode f.encode = .ok f else ∃ e, decode f.encode = .error e := by
  rw [decode_encode_eq]
  by_cases hf : f.fits = true
  · have hlen := length_payload_of_fits hf
    have hmax : maxData = 16384 := rfl
    rw [if_pos hf, if_neg (not_not.mpr (Nat.mod_eq_of_lt (by omega)).symm), decodePayload_self,
      if_pos hf]
  · rw [if_neg hf]
    by_cases hwrap : f.payload.length ≠ f.payload.length % 65536
    · exact ⟨_, if_pos hwrap⟩
    · refine ⟨.payloadTooLarge f.payload.length maxData, ?_⟩
      rw [if_neg hwrap, decodePayload_self, if_neg hf]

/-! ### The grammar of frames -/

/-- The length a header declares. -/
def declaredLen (b : Bytes) : ℕ := u16FromBe (b.getD 5 0) (b.getD 6 0)

/-- Whether a frame of this type may have a payload of this length. -/
def lengthOk (type : UInt8) (len : ℕ) : Prop :=
  (type = typeOpen ∨ type = typeClose) ∧ len = 0 ∨
  type = typeData ∧ len ≤ maxData ∨
  (type = typePing ∨ type = typePong) ∧ len = keepaliveLen

/-- **The grammar**: a whole header, the length it declares, and a length its type allows. -/
structure WellFormed (b : Bytes) : Prop where
  header : frameHeader ≤ b.length
  declared : declaredLen b = b.length - frameHeader
  kind : lengthOk (b.getD 0 0) (declaredLen b)

/-- A byte string with the stream id zeroed where the decoder does not keep it. -/
def canonical (b : Bytes) : Bytes :=
  if b.getD 0 0 = typePing ∨ b.getD 0 0 = typePong then b.take 1 ++ [0, 0, 0, 0] ++ b.drop 5 else b

/-- What `decodePayload` returns: a frame with these fields, the stream id of PING and PONG apart. -/
theorem decodePayload_ok {t : UInt8} {s : UInt32} {p : Bytes} {f : Frame}
    (h : decodePayload t s p = .ok f) :
    lengthOk t p.length ∧ f.frameType = t ∧ f.payload = p ∧
      f.stream = if t = typePing ∨ t = typePong then 0 else s := by
  unfold decodePayload at h
  split_ifs at h with h₁ h₂ h₃ h₄ h₅ h₆ h₇ h₈ <;> cases h
  · have hp : p = [] := by simpa using h₂
    subst hp h₃
    exact ⟨.inl ⟨.inl rfl, rfl⟩, rfl, rfl, rfl⟩
  · have hp : p = [] := by simpa using h₂
    obtain rfl : t = typeClose := h₁.resolve_left h₃
    subst hp
    exact ⟨.inl ⟨.inr rfl, rfl⟩, rfl, rfl, rfl⟩
  · subst h₄
    exact ⟨.inr (.inl ⟨rfl, by omega⟩), rfl, rfl, rfl⟩
  · subst h₈
    exact ⟨.inr (.inr ⟨.inl rfl, h₇⟩), rfl, rfl, rfl⟩
  · obtain rfl : t = typePong := h₆.resolve_left h₈
    exact ⟨.inr (.inr ⟨.inr rfl, h₇⟩), rfl, rfl, rfl⟩

theorem decodePayload_of_lengthOk {t : UInt8} {s : UInt32} {p : Bytes}
    (h : lengthOk t p.length) : ∃ f, decodePayload t s p = .ok f := by
  have hmax : ∀ {n}, n ≤ maxData → ¬ n > maxData := by omega
  rcases h with ⟨rfl | rfl, h⟩ | ⟨rfl, h⟩ | ⟨rfl | rfl, h⟩
  · exact ⟨.open s, by simp [decodePayload, h]⟩
  · exact ⟨.close s, by simp [decodePayload, h, typeOpen, typeClose]⟩
  · exact ⟨.data s p, by simp [decodePayload, hmax h, typeOpen, typeClose, typeData]⟩
  · exact ⟨.ping ⟨p, h⟩, by
      simp [decodePayload, h, typeOpen, typeClose, typeData, typePing, typePong]⟩
  · exact ⟨.pong ⟨p, h⟩, by
      simp [decodePayload, h, typeOpen, typeClose, typeData, typePing, typePong]⟩

/-- A byte string that decodes, cut into its header fields and its payload. -/
theorem decode_ok {b : Bytes} {f : Frame} (h : decode b = .ok f) :
    ∃ t b₁ b₂ b₃ b₄ b₅ b₆ p, b = t :: b₁ :: b₂ :: b₃ :: b₄ :: b₅ :: b₆ :: p ∧
      p.length = u16FromBe b₅ b₆ ∧ decodePayload t (u32FromBe b₁ b₂ b₃ b₄) p = .ok f := by
  unfold decode at h
  split at h
  · next t b₁ b₂ b₃ b₄ b₅ b₆ p =>
    simp only at h
    split_ifs at h with hp
    exact ⟨t, b₁, b₂, b₃, b₄, b₅, b₆, p, rfl, not_not.mp hp, h⟩
  · cases h

theorem wellFormed_of_decode {b : Bytes} {f : Frame} (h : decode b = .ok f) : WellFormed b := by
  obtain ⟨t, b₁, b₂, b₃, b₄, b₅, b₆, p, rfl, hp, hf⟩ := decode_ok h
  have hlen : declaredLen (t :: b₁ :: b₂ :: b₃ :: b₄ :: b₅ :: b₆ :: p) = p.length := hp.symm
  refine ⟨by simp [frameHeader], ?_, ?_⟩
  · rw [hlen]; simp [frameHeader]
  · rw [hlen]; exact (decodePayload_ok hf).1

theorem decode_of_wellFormed {b : Bytes} (h : WellFormed b) : ∃ f, decode b = .ok f := by
  obtain ⟨hheader, hlen, hkind⟩ := h
  rcases b with _ | ⟨t, _ | ⟨b₁, _ | ⟨b₂, _ | ⟨b₃, _ | ⟨b₄, _ | ⟨b₅, _ | ⟨b₆, p⟩⟩⟩⟩⟩⟩⟩
  case cons.cons.cons.cons.cons.cons.cons =>
    have hdecl : declaredLen (t :: b₁ :: b₂ :: b₃ :: b₄ :: b₅ :: b₆ :: p) = u16FromBe b₅ b₆ := rfl
    have hp : p.length = u16FromBe b₅ b₆ := by
      rw [hdecl] at hlen
      simp only [List.length_cons, frameHeader] at hlen
      omega
    obtain ⟨f, hf⟩ := decodePayload_of_lengthOk (t := t) (s := u32FromBe b₁ b₂ b₃ b₄) (p := p)
      (by rw [hp]; exact hkind)
    exact ⟨f, by simp [decode, hp, hf]⟩
  all_goals simp [frameHeader] at hheader

/-- Re-encoding what was decoded. -/
theorem encode_of_decode {b : Bytes} {f : Frame} (h : decode b = .ok f) : f.encode = canonical b := by
  obtain ⟨t, b₁, b₂, b₃, b₄, b₅, b₆, p, rfl, hp, hf⟩ := decode_ok h
  obtain ⟨-, htype, hpayload, hstream⟩ := decodePayload_ok hf
  have hencode : f.encode = t :: u32ToBe f.stream ++ [b₅, b₆] ++ p := by
    rw [← u16ToBe_u16FromBe b₅ b₆, ← hp, ← htype, ← hpayload]
    rfl
  rw [hencode, hstream]
  unfold canonical
  simp only [List.getD_cons_zero]
  split_ifs
  · rfl
  · rw [u32ToBe_u32FromBe]; rfl

/-- Whether a frame belongs to a stream. -/
def isStreamFrame : Frame → Bool
  | .open _ | .data _ _ | .close _ => true
  | .ping _ | .pong _ => false

theorem type_of_isStreamFrame {f : Frame} (h : f.isStreamFrame = true) :
    ¬ (f.frameType = typePing ∨ f.frameType = typePong) := by
  rcases f with s | ⟨s, p⟩ | s | n | n
  · show ¬ (typeOpen = typePing ∨ typeOpen = typePong); decide
  · show ¬ (typeData = typePing ∨ typeData = typePong); decide
  · show ¬ (typeClose = typePing ∨ typeClose = typePong); decide
  · cases h
  · cases h

/-- A stream frame is decoded from its own encoding only. -/
theorem encode_of_decode_stream {b : Bytes} {f : Frame} (h : decode b = .ok f)
    (hf : f.isStreamFrame = true) : f.encode = b := by
  have hcanon := encode_of_decode h
  obtain ⟨t, b₁, b₂, b₃, b₄, b₅, b₆, p, rfl, -, hd⟩ := decode_ok h
  have htype := (decodePayload_ok hd).2.1
  unfold canonical at hcanon
  rw [if_neg] at hcanon
  · exact hcanon
  · simp only [List.getD_cons_zero, ← htype]
    exact type_of_isStreamFrame hf

/-- **`decode` accepts exactly its grammar and is canonical**: it succeeds on the well-formed byte
strings and on no others, what it returns is encoded as the string it was read from (up to the stream
id of PING and PONG), and so a stream frame has one encoding. -/
theorem decode_canonical (b : Bytes) :
    ((∃ f, decode b = .ok f) ↔ WellFormed b) ∧
      (∀ f, decode b = .ok f → f.encode = canonical b) ∧
      (∀ f b', f.isStreamFrame = true → decode b = .ok f → decode b' = .ok f → b = b') := by
  refine ⟨⟨fun ⟨_, hf⟩ => wellFormed_of_decode hf, decode_of_wellFormed⟩, fun _ => encode_of_decode,
    fun f b' hf hb hb' => ?_⟩
  rw [← encode_of_decode_stream hb hf, encode_of_decode_stream hb' hf]

end Frame

end QeliSsPlugin.Mux
