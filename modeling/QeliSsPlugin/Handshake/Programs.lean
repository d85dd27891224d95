import QeliSsPlugin.Handshake.Core
import QeliSsPlugin.Lib.Session

/-! # The two sides of the handshake

`clientHandshakeInner` and `serverHandshakeInner` as programs that write bytes and receive records
(`Lib.Session`), with the order of the calls and the text of every error as in the source. The
records a side receives are cut from the byte stream by its `RecordReader`: the buffer of the party
that runs the program, filled by reads of at most `readChunk` bytes (`link`). -/

namespace QeliSsPlugin.Handshake

open Mux Carrier Lib.Session

/-! ### Text -/

/-- `str::as_bytes`. -/
def asBytes (s : String) : Bytes := s.toByteArray.data.toList

/-- `std::str::from_utf8`. -/
def fromUtf8 (bs : Bytes) : Option String := String.fromUTF8? ⟨bs.toArray⟩

/-- A UTF-8 continuation byte. -/
def isCont (b : UInt8) : Bool := 0x80 ≤ b ∧ b ≤ 0xBF

/-- Whether `c` may follow the first byte `b` of a sequence of three or four bytes. -/
def secondOk (b c : UInt8) : Bool :=
  if b = 0xE0 then 0xA0 ≤ c ∧ c ≤ 0xBF
  else if b = 0xED then 0x80 ≤ c ∧ c ≤ 0x9F
  else if b = 0xF0 then 0x90 ≤ c ∧ c ≤ 0xBF
  else if b = 0xF4 then 0x80 ≤ c ∧ c ≤ 0x8F
  else isCont c

/-- The payload bits of a continuation byte. -/
def contBits (b : UInt8) : ℕ := b.toNat % 64

/-- U+FFFD. -/
def replacement : Char := Char.ofNat 0xFFFD

/-- `String::from_utf8_lossy`: every maximal invalid part of a sequence becomes U+FFFD. -/
def fromUtf8Lossy : Bytes → List Char
  | [] => []
  | b :: rest =>
    if b < 0x80 then Char.ofNat b.toNat :: fromUtf8Lossy rest
    else if 0xC2 ≤ b ∧ b ≤ 0xDF then
      match rest with
      | c :: rest' =>
        if isCont c then
          Char.ofNat (b.toNat % 32 * 64 + contBits c) :: fromUtf8Lossy rest'
        else replacement :: fromUtf8Lossy (c :: rest')
      | [] => [replacement]
    else if 0xE0 ≤ b ∧ b ≤ 0xEF then
      match rest with
      | c :: d :: rest' =>
        if secondOk b c then
          if isCont d then
            Char.ofNat ((b.toNat % 16 * 64 + contBits c) * 64 + contBits d) :: fromUtf8Lossy rest'
          else replacement :: fromUtf8Lossy (d :: rest')
        else replacement :: fromUtf8Lossy (c :: d :: rest')
      | [c] => if secondOk b c then [replacement] else replacement :: fromUtf8Lossy [c]
      | [] => [replacement]
    else if 0xF0 ≤ b ∧ b ≤ 0xF4 then
      match rest with
      | c :: d :: e :: rest' =>
        if secondOk b c then
          if isCont d then
            if isCont e then
              Char.ofNat (((b.toNat % 8 * 64 + contBits c) * 64 + contBits d) * 64 + contBits e) ::
                fromUtf8Lossy rest'
            else replacement :: fromUtf8Lossy (e :: rest')
          else replacement :: fromUtf8Lossy (d :: e :: rest')
        else replacement :: fromUtf8Lossy (c :: d :: e :: rest')
      | [c, d] =>
        if secondOk b c then
          if isCont d then [replacement] else replacement :: fromUtf8Lossy [d]
        else replacement :: fromUtf8Lossy [c, d]
      | [c] => if secondOk b c then [replacement] else replacement :: fromUtf8Lossy [c]
      | [] => [replacement]
    else replacement :: fromUtf8Lossy rest

theorem fromUtf8Lossy_ascii {b : UInt8} (hb : b < 0x80) (bs : Bytes) :
    fromUtf8Lossy (b :: bs) = Char.ofNat b.toNat :: fromUtf8Lossy bs := by
  rw [fromUtf8Lossy.eq_def]
  exact if_pos hb

theorem asBytes_append (s t : String) : asBytes (s ++ t) = asBytes s ++ asBytes t := by
  simp [asBytes]

theorem fromUtf8_asBytes (s : String) : fromUtf8 (asBytes s) = some s := by
  unfold fromUtf8 asBytes String.fromUTF8?
  simp [s.isValidUTF8]
  rfl

theorem asBytes_inj {s t : String} : asBytes s = asBytes t ↔ s = t := by
  constructor
  · intro h
    have hsome := congrArg fromUtf8 h
    rw [fromUtf8_asBytes, fromUtf8_asBytes] at hsome
    exact Option.some.inj hsome
  · intro h; rw [h]

/-! ### Reading, writing and failing -/

/-- Chunk size for buffered handshake reads. -/
def readChunk : ℕ := 16384

/-- The connection under a handshake: `RecordReader` cuts the stream into records. -/
def link : Link UInt8 String where
  framing := tls
  chunk := readChunk
  chunk_pos := by decide
  eof := "peer closed mid-handshake"
  broken := "Broken pipe"

section Steps

variable {α : Type}

/-- `bail!`. -/
def bail (e : String) : Prog UInt8 String α := .fail e

/-- `io.write_all(..).await?`. -/
def writeAll (bs : Bytes) : Prog UInt8 String Unit :=
  .write bs fun
    | .ok _ => .ret ()
    | .error e => .fail e

/-- `reader.read_record(io).await`, with its error mapped. -/
def readRecord (what : String) : Prog UInt8 String Bytes :=
  .recv fun
    | .ok r => .ret r
    | .error e => .fail s!"failed to read {what}: {e}"

/-- `ok_or_else(..)?`. -/
def okOr (o : Option α) (e : String) : Prog UInt8 String α :=
  match o with
  | some a => .ret a
  | none => .fail e

/-- `map_err(..)?`. -/
def mapErr (r : Except String α) (what : String) : Prog UInt8 String α :=
  match r with
  | .ok a => .ret a
  | .error e => .fail s!"{what}: {e}"

@[simp] theorem okOr_some (a : α) (e : String) : okOr (some a) e = .ret a := rfl

@[simp] theorem mapErr_ok (a : α) (what : String) : mapErr (.ok a) what = .ret a := rfl

end Steps

/-- `try_into` of a slice to `[u8; 32]`. -/
def toKey32 (bs : Bytes) : Option Key32 := if h : bs.length = 32 then some ⟨bs, h⟩ else none

@[simp] theorem toKey32_val (k : Key32) : toKey32 k.val = some k := by simp [toKey32, k.property]

/-! ### The two sides -/

/-- Marker byte after the client key proof, introducing the device id. -/
def deviceMarker : UInt8 := 0

/-- Server response prefix on success. -/
def authOkPrefix : String := "OK:"

/-- The server's response on success. -/
def okResponse (version : String) : Bytes :=
  asBytes (authOkPrefix ++ "qeli-ss-plugin/" ++ version)

/-- The client's auth message: `[proof:32][0x00][device_id:16][password]`. -/
def authMessage (proof : Key32) (deviceId : DeviceId) (password : String) : Bytes :=
  proof.val ++ [deviceMarker] ++ deviceId.val ++ asBytes password

/-- The password in an auth message. -/
def parseClientAuth (auth : Bytes) : Except String String :=
  if auth.length < 33 then .error "client auth message too short"
  else
    let password :=
      if auth.length ≥ 33 + deviceIdLen ∧ auth.getD 32 0 = deviceMarker then
        auth.drop (33 + deviceIdLen)
      else auth.drop 32
    match fromUtf8 password with
    | some s => .ok s
    | none => .error "password is not valid UTF-8"

/-- The password of an auth message is found again. -/
theorem parseClientAuth_authMessage (proof : Key32) (deviceId : DeviceId) (password : String) :
    parseClientAuth (authMessage proof deviceId password) = .ok password := by
  have hproof := proof.property
  have hdev := deviceId.property
  have hlen : (authMessage proof deviceId password).length =
      33 + deviceIdLen + (asBytes password).length := by
    simp only [authMessage, List.length_append, List.length_cons, List.length_nil]
    omega
  have hmark : (authMessage proof deviceId password).getD 32 0 = deviceMarker := by
    simp [authMessage, List.getD_eq_getElem?_getD, hproof]
  have hdrop : (authMessage proof deviceId password).drop (33 + deviceIdLen) =
      asBytes password := by
    have hpre : (proof.val ++ [deviceMarker] ++ deviceId.val).length = 33 + deviceIdLen := by
      simp only [List.length_append, List.length_cons, List.length_nil]
      omega
    rw [authMessage, ← hpre, List.drop_left]
  unfold parseClientAuth
  rw [if_neg (by omega), if_pos ⟨by omega, hmark⟩, hdrop]
  simp [fromUtf8_asBytes]

/-- The client accepts the server's response, whatever the version. -/
theorem isPrefixOf_okResponse (version : String) :
    authOkPrefix.toList.isPrefixOf (fromUtf8Lossy (okResponse version)) = true := by
  have hOk : asBytes authOkPrefix = [0x4F, 0x4B, 0x3A] := by decide
  unfold okResponse
  rw [String.append_assoc, asBytes_append, hOk]
  simp only [List.cons_append, List.nil_append]
  rw [fromUtf8Lossy_ascii (by decide), fromUtf8Lossy_ascii (by decide),
    fromUtf8Lossy_ascii (by decide)]
  have hlist : authOkPrefix.toList = ['O', 'K', ':'] := by decide
  rw [hlist]
  simp

variable (core : Core)

/-- The client's result: matched codecs and the server's static key. -/
structure ClientHandshake where
  /-- Decrypts server-to-client records. -/
  rx : core.PacketCodec
  /-- Encrypts client-to-server records. -/
  tx : core.PacketCodec
  serverStatic : Key32

/-- The server's result: matched codecs. -/
structure ServerHandshake where
  /-- Decrypts client-to-server records. -/
  rx : core.PacketCodec
  /-- Encrypts server-to-client records. -/
  tx : core.PacketCodec

/-- `client_handshake_inner` from the auth message on. -/
def clientAuth (rx tx : core.PacketCodec) (clientProof : Key32) (deviceId : DeviceId)
    (password : String) (serverStatic : Key32) : Prog UInt8 String (ClientHandshake core) := do
  let (authPacket, tx) := core.encryptPacket tx (authMessage clientProof deviceId password)
  let authPacket ← mapErr authPacket "failed to encrypt auth message"
  writeAll authPacket
  let responseRecord ← readRecord "auth response"
  let (response, rx) := core.decryptPacket rx responseRecord
  let response ← mapErr response "failed to decrypt auth response"
  let response := fromUtf8Lossy response
  if ¬ authOkPrefix.toList.isPrefixOf response then
    bail ("auth rejected by server: " ++ String.ofList (response.take 64))
  return { rx, tx, serverStatic }

/-- **The client side of the handshake**; `rng` is its source of randomness. -/
def clientHandshakeInner (rng : ℕ → core.Seed) (sni password : String) (deviceId : DeviceId)
    (pinnedServerKey : Option Key32) : Prog UInt8 String (ClientHandshake core) := do
  let clientKp := core.generate (rng 0)
  let clientHello := core.buildClientHelloPq (rng 1) (core.publicOf clientKp) sni
  writeAll clientHello.1
  let serverHello ← readRecord "ServerHello"
  let (mlkemCt, serverX25519) ←
    okOr (core.parseServerHelloPq serverHello) "failed to parse hybrid ServerHello"
  let changeCipherSpec ← readRecord "ChangeCipherSpec"
  if changeCipherSpec.head? ≠ some 0x14 then
    bail "expected ChangeCipherSpec before the encrypted handshake flight"
  let certificate ← readRecord "Certificate"
  let finished ← readRecord "Finished"
  let _newSessionTicket ← readRecord "NewSessionTicket"
  let shared ← okOr (core.deriveSharedChecked clientKp (core.fromBytes serverX25519))
    "rejected low-order server public key"
  let mlkemShared ← okOr (core.mlkem768Decapsulate clientHello.2 mlkemCt)
    "ML-KEM decapsulation failed"
  let mlkemShared ← okOr (toKey32 mlkemShared) "ML-KEM shared secret not 32 bytes"
  let keys := core.deriveKeysHybrid shared mlkemShared
  let rx := core.newCodec keys.1
  let tx := core.newCodec keys.2
  let transcriptHash :=
    core.handshakeTranscriptHash [clientHello.1, serverHello, certificate, finished]
  -- server identity proof: static key and transcript binding
  let proofRecord ← readRecord "server identity proof"
  let (proof, rx) := core.decryptPacket rx proofRecord
  let proof ← mapErr proof "failed to decrypt server identity proof"
  let serverStatic ← mapErr (core.verifyServerAuthMessage proof clientKp shared transcriptHash)
    "server identity verification failed"
  match pinnedServerKey with
  | none =>
    clientAuth core rx tx ⟨List.replicate 32 0, List.length_replicate⟩ deviceId password
      serverStatic
  | some pinned =>
    if ¬ core.ctEq serverStatic.val pinned.val then
      bail "server identity mismatch: the pinned key does not match this server"
    let staticShared := core.deriveShared clientKp (core.fromBytes pinned)
    clientAuth core rx tx (core.computeClientKeyProof staticShared shared transcriptHash) deviceId
      password serverStatic

/-- `server_handshake_inner` from the client's auth message on; `version` is what the plugin was
built as. -/
def serverAuth (version : String) (rx tx : core.PacketCodec) (password : String) :
    Prog UInt8 String (ServerHandshake core) := do
  let authRecord ← readRecord "client auth"
  let (auth, rx) := core.decryptPacket rx authRecord
  let auth ← mapErr auth "failed to decrypt client auth"
  match parseClientAuth auth with
  | .error e => bail e
  | .ok presented =>
    if ¬ core.ctEq (asBytes presented) (asBytes password) then
      bail "auth failed: wrong password"
    let (okPacket, tx) := core.encryptPacket tx (okResponse version)
    let okPacket ← mapErr okPacket "failed to encrypt auth response"
    writeAll okPacket
    return { rx, tx }

/-- **The server side of the handshake.** -/
def serverHandshakeInner (version : String) (rng : ℕ → core.Seed)
    (staticKp : core.StaticKeypair) (password : String) :
    Prog UInt8 String (ServerHandshake core) := do
  let clientHello ← readRecord "ClientHello"
  let clientPubBytes ← okOr (core.parseClientHello clientHello) "failed to parse ClientHello"
  let clientPubBytes ← okOr (toKey32 clientPubBytes) "invalid client public key length"
  let clientPub := core.fromBytes clientPubBytes
  let clientEk ← okOr (core.extractClientMlkemEk clientHello)
    "ClientHello missing the X25519MLKEM768 key share"
  let (mlkemCt, mlkemShared) ← okOr (core.mlkem768Encapsulate (rng 0) clientEk)
    "ML-KEM encapsulation failed (malformed ek)"
  let mlkemShared ← okOr (toKey32 mlkemShared) "ML-KEM shared secret not 32 bytes"
  let serverKp := core.generate (rng 1)
  let serverHello := core.buildServerHelloPq (rng 2) (core.publicOf serverKp) mlkemCt
  let certificate := core.buildCertificate (rng 3)
  let finished := core.buildFinished (rng 4)
  let newSessionTicket := core.buildNewSessionTicket (rng 5)
  let transcriptHash :=
    core.handshakeTranscriptHash [clientHello, serverHello, certificate, finished]
  writeAll serverHello
  writeAll core.buildChangeCipherSpec
  writeAll certificate
  writeAll finished
  writeAll newSessionTicket
  let shared ← okOr (core.deriveSharedChecked serverKp clientPub)
    "rejected low-order client public key"
  let keys := core.deriveKeysHybrid shared mlkemShared
  let rx := core.newCodec keys.2
  let tx := core.newCodec keys.1
  -- server identity proof: static_pub(32) ‖ proof(32), transcript-bound
  let authMsg := core.buildServerAuthMessage staticKp clientPub shared transcriptHash
  let (proofPacket, tx) := core.encryptPacket tx authMsg
  let proofPacket ← mapErr proofPacket "failed to encrypt identity proof"
  writeAll proofPacket
  serverAuth core version rx tx password

end QeliSsPlugin.Handshake
