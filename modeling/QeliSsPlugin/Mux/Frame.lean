import Mathlib.Tactic

/-! # Mux frames

The plaintext of one AEAD record is one frame:

    `type(1) ‖ stream_id(4, BE) ‖ payload_len(2, BE) ‖ payload`.

`Frame.encode` writes a frame, `Frame.decode` reads one back; every malformed input is an error.
The payload length is written through a cast to `u16`, so it wraps at `2^16`. -/

namespace QeliSsPlugin.Mux

/-- A byte string. -/
abbrev Bytes := List UInt8

/-- Frame header size: type(1) + stream_id(4) + payload_len(2). -/
def frameHeader : ℕ := 7

/-- Maximum DATA payload per frame. -/
def maxData : ℕ := 16384

def typeOpen : UInt8 := 1
def typeData : UInt8 := 2
def typeClose : UInt8 := 3
def typePing : UInt8 := 4
def typePong : UInt8 := 5

/-- PING/PONG carry exactly 8 random bytes. -/
def keepaliveLen : ℕ := 8

/-- The random bytes of a PING, echoed by its PONG. -/
abbrev Nonce := {l : Bytes // l.length = keepaliveLen}

instance : Inhabited Nonce := ⟨⟨List.replicate keepaliveLen 0, by simp⟩⟩

/-! ### Big-endian numbers -/

/-- `u16::from_be_bytes`, as a number. -/
def u16FromBe (a b : UInt8) : ℕ := a.toNat * 256 + b.toNat

/-- `(n as u16).to_be_bytes()`: the cast keeps the low 16 bits. -/
def u16ToBe (n : ℕ) : Bytes := [UInt8.ofNat (n % 65536 / 256), UInt8.ofNat (n % 256)]

/-- `u32::from_be_bytes`. -/
def u32FromBe (a b c d : UInt8) : UInt32 :=
  UInt32.ofNat (((a.toNat * 256 + b.toNat) * 256 + c.toNat) * 256 + d.toNat)

/-- `u32::to_be_bytes`. -/
def u32ToBe (x : UInt32) : Bytes :=
  [UInt8.ofNat (x.toNat / 16777216), UInt8.ofNat (x.toNat / 65536), UInt8.ofNat (x.toNat / 256),
    UInt8.ofNat x.toNat]

theorem u16FromBe_lt (a b : UInt8) : u16FromBe a b < 65536 := by
  have ha := a.toNat_lt
  have hb := b.toNat_lt
  unfold u16FromBe; omega

/-! ### Frames -/

inductive Frame
  | open (stream : UInt32)
  | data (stream : UInt32) (payload : Bytes)
  | close (stream : UInt32)
  | ping (nonce : Nonce)
  | pong (nonce : Nonce)
  deriving DecidableEq

inductive MuxError
  | tooShort (len : ℕ)
  | unknownType (type : UInt8)
  | payloadTooLarge (declared cap : ℕ)
  | truncated (declared got : ℕ)
  | emptyPayloadRequired (type : UInt8)
  | badKeepalive (len : ℕ)
  deriving DecidableEq

namespace Frame

/-- The wire type byte of this frame. -/
def frameType : Frame → UInt8
  | .open _ => typeOpen
  | .data _ _ => typeData
  | .close _ => typeClose
  | .ping _ => typePing
  | .pong _ => typePong

/-- The stream id this frame addresses (0 for PING/PONG). -/
def stream : Frame → UInt32
  | .open s | .data s _ | .close s => s
  | .ping _ | .pong _ => 0

/-- The payload bytes of this frame. -/
def payload : Frame → Bytes
  | .open _ | .close _ => []
  | .data _ p => p
  | .ping n | .pong n => n.1

/-- Encode into caller-owned storage, which is cleared first. -/
def encodeInto (f : Frame) (_out : Bytes) : Bytes :=
  let out := []
  let out := out ++ [f.frameType]
  let out := out ++ u32ToBe f.stream
  let out := out ++ u16ToBe f.payload.length
  out ++ f.payload

/-- Allocating convenience wrapper. -/
def encode (f : Frame) : Bytes := f.encodeInto []

/-- Decode the fields of a frame whose payload has the declared length. -/
def decodePayload (type : UInt8) (stream : UInt32) (payload : Bytes) : Except MuxError Frame :=
  if type = typeOpen ∨ type = typeClose then
    if payload.length ≠ 0 then .error (.emptyPayloadRequired type)
    else if type = typeOpen then .ok (.open stream)
    else .ok (.close stream)
  else if type = typeData then
    if payload.length > maxData then .error (.payloadTooLarge payload.length maxData)
    else .ok (.data stream payload)
  else if type = typePing ∨ type = typePong then
    if h : payload.length = keepaliveLen then
      if type = typePing then .ok (.ping ⟨payload, h⟩) else .ok (.pong ⟨payload, h⟩)
    else .error (.badKeepalive payload.length)
  else .error (.unknownType type)

/-- **Decode one complete frame.** -/
def decode : Bytes → Except MuxError Frame
  | t :: a :: b :: c :: d :: e :: f :: payload =>
    let declared := u16FromBe e f
    if payload.length ≠ declared then .error (.truncated declared payload.length)
    else decodePayload t (u32FromBe a b c d) payload
  | buf => .error (.tooShort buf.length)

end Frame

end QeliSsPlugin.Mux
