import QeliSsPlugin.Carrier.RecordBuf

/-! # What the handshake uses of `qeli_core`

The key exchange, the fake-TLS messages, the identity proof and the record codec come from the
`qeli_core` library. `Core` is what the handshake calls of it, with the randomness of a call as an
explicit `Seed`; `Core.Laws` is what the handshake relies on: a builder returns one record, a parser
inverts its builder, both sides of the key exchange get the same secrets, a record codec decrypts
in order what a codec with the same key encrypted (`Synced`), and the identity proof of a server is
accepted by the client it was made for. -/

namespace QeliSsPlugin.Handshake

open Mux Carrier

/-- A 32-byte array. -/
abbrev Key32 := {l : Bytes // l.length = 32}

/-- `DEVICE_ID_LEN`. -/
def deviceIdLen : ℕ := 16

abbrev DeviceId := {l : Bytes // l.length = deviceIdLen}

/-- The functions of `qeli_core` that the handshake calls. -/
structure Core where
  Seed : Type
  Keypair : Type
  StaticKeypair : Type
  PublicKey : Type
  MlkemDk : Type
  Key : Type
  PacketCodec : Type
  -- X25519
  generate : Seed → Keypair
  publicOf : Keypair → PublicKey
  fromBytes : Key32 → PublicKey
  deriveShared : Keypair → PublicKey → Key32
  /-- `none` for a low-order public key. -/
  deriveSharedChecked : Keypair → PublicKey → Option Key32
  staticPublic : StaticKeypair → Key32
  -- ML-KEM-768
  mlkem768Encapsulate : Seed → Bytes → Option (Bytes × Bytes)
  mlkem768Decapsulate : MlkemDk → Bytes → Option Bytes
  -- the fake-TLS messages
  /-- Whether the hello builder takes this server name. -/
  acceptsSni : String → Prop
  buildClientHelloPq : Seed → PublicKey → String → Bytes × MlkemDk
  parseClientHello : Bytes → Option Bytes
  extractClientMlkemEk : Bytes → Option Bytes
  buildServerHelloPq : Seed → PublicKey → Bytes → Bytes
  parseServerHelloPq : Bytes → Option (Bytes × Key32)
  buildChangeCipherSpec : Bytes
  buildCertificate : Seed → Bytes
  buildFinished : Seed → Bytes
  buildNewSessionTicket : Seed → Bytes
  -- keys, transcript and identity proof
  /-- The server-to-client and the client-to-server key. -/
  deriveKeysHybrid : Key32 → Key32 → Key × Key
  handshakeTranscriptHash : List Bytes → Bytes
  buildServerAuthMessage : StaticKeypair → PublicKey → Key32 → Bytes → Bytes
  verifyServerAuthMessage : Bytes → Keypair → Key32 → Bytes → Except String Key32
  computeClientKeyProof : Key32 → Key32 → Bytes → Key32
  ctEq : Bytes → Bytes → Bool
  -- the record codec
  newCodec : Key → PacketCodec
  encryptPacket : PacketCodec → Bytes → Except String Bytes × PacketCodec
  decryptPacket : PacketCodec → Bytes → Except String Bytes × PacketCodec

namespace Core

variable (core : Core)

/-- Encrypted one after the other by `tx`, the messages are decrypted one after the other by
`rx`. -/
def Inverts : core.PacketCodec → core.PacketCodec → List Bytes → Prop
  | _, _, [] => True
  | tx, rx, m :: ms => ∀ r tx', core.encryptPacket tx m = (.ok r, tx') →
      ∃ rx', core.decryptPacket rx r = (.ok m, rx') ∧ Inverts tx' rx' ms

/-- **Matched codecs**: whatever is encrypted by `tx` is decrypted in order by `rx`. -/
def Synced (tx rx : core.PacketCodec) : Prop := ∀ ms, core.Inverts tx rx ms

/-- Whether a codec can encrypt a message. -/
def Encrypts (tx : core.PacketCodec) (m : Bytes) : Prop :=
  ∃ r tx', core.encryptPacket tx m = (.ok r, tx')

/-- Whether every new codec can encrypt a message as its first one. -/
def EncryptsFirst (m : Bytes) : Prop := ∀ key, core.Encrypts (core.newCodec key) m

/-- Whether every codec that has encrypted one message can encrypt this one. -/
def EncryptsSecond (m : Bytes) : Prop :=
  ∀ key m₁ r tx, core.encryptPacket (core.newCodec key) m₁ = (.ok r, tx) → core.Encrypts tx m

variable {core}

/-- Matched codecs stay matched. -/
theorem Synced.next {tx tx' rx : core.PacketCodec} {m r : Bytes} (h : core.Synced tx rx)
    (he : core.encryptPacket tx m = (.ok r, tx')) :
    ∃ rx', core.decryptPacket rx r = (.ok m, rx') ∧ core.Synced tx' rx' := by
  obtain ⟨rx', hd, -⟩ := h [m] r tx' he
  refine ⟨rx', hd, fun ms => ?_⟩
  obtain ⟨rx'', hd', hms⟩ := h (m :: ms) r tx' he
  rw [hd] at hd'
  cases hd'
  exact hms

variable (core)

/-- **What the handshake relies on.** -/
structure Laws : Prop where
  -- one record each
  clientHello_record {sni} : core.acceptsSni sni →
    ∀ seed pub, tls.IsRecord (core.buildClientHelloPq seed pub sni).1
  serverHello_record {seed ek ct ss} : core.mlkem768Encapsulate seed ek = some (ct, ss) →
    ∀ seed' pub, tls.IsRecord (core.buildServerHelloPq seed' pub ct)
  changeCipherSpec_record : tls.IsRecord core.buildChangeCipherSpec
  /-- The content type of a ChangeCipherSpec. -/
  changeCipherSpec_type : core.buildChangeCipherSpec.head? = some 0x14
  certificate_record : ∀ seed, tls.IsRecord (core.buildCertificate seed)
  finished_record : ∀ seed, tls.IsRecord (core.buildFinished seed)
  newSessionTicket_record : ∀ seed, tls.IsRecord (core.buildNewSessionTicket seed)
  packet_record {tx m r tx'} : core.encryptPacket tx m = (.ok r, tx') → tls.IsRecord r
  -- parsing inverts building
  parse_clientHello {sni} : core.acceptsSni sni → ∀ seed kp, ∃ pub : Key32,
    core.parseClientHello (core.buildClientHelloPq seed (core.publicOf kp) sni).1 =
        some pub.val ∧
      core.fromBytes pub = core.publicOf kp
  parse_serverHello {seed ek ct ss} : core.mlkem768Encapsulate seed ek = some (ct, ss) →
    ∀ seed' kp, ∃ pub : Key32,
      core.parseServerHelloPq (core.buildServerHelloPq seed' (core.publicOf kp) ct) =
        some (ct, pub) ∧ core.fromBytes pub = core.publicOf kp
  -- the same secrets on both sides
  x25519 : ∀ seed seed', ∃ shared,
    core.deriveSharedChecked (core.generate seed) (core.publicOf (core.generate seed')) =
        some shared ∧
      core.deriveSharedChecked (core.generate seed') (core.publicOf (core.generate seed)) =
        some shared
  mlkem {sni} : core.acceptsSni sni → ∀ seed pub, ∃ ek,
    core.extractClientMlkemEk (core.buildClientHelloPq seed pub sni).1 = some ek ∧
      ∀ seed', ∃ ct, ∃ ss : Key32, core.mlkem768Encapsulate seed' ek = some (ct, ss.val) ∧
        core.mlkem768Decapsulate (core.buildClientHelloPq seed pub sni).2 ct = some ss.val
  -- decrypting inverts encrypting, under equal keys
  codec : ∀ key, core.Synced (core.newCodec key) (core.newCodec key)
  encrypts_proof : ∀ st pub shared th,
    core.EncryptsFirst (core.buildServerAuthMessage st pub shared th)
  -- the identity proof
  verify : ∀ st kp shared th,
    core.verifyServerAuthMessage
        (core.buildServerAuthMessage st (core.publicOf kp) shared th) kp shared th =
      .ok (core.staticPublic st)
  ctEq_iff {a b} : core.ctEq a b = true ↔ a = b

end Core

end QeliSsPlugin.Handshake
