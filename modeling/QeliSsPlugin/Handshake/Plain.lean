import QeliSsPlugin.Handshake.Programs

/-! # A core without secrets

`plain` is a `Core` that sends everything in the clear: a key pair is its public key, a packet is
the key, a counter and the message. It shows that the laws can be met (`plain_laws`), and it is the
core of the concrete runs. -/

namespace QeliSsPlugin.Handshake

open Mux Carrier Lib

/-- The record with a content type and a payload. -/
def record (contentType : UInt8) (payload : Bytes) : Bytes :=
  [contentType, 3, 3] ++ u16ToBe payload.length ++ payload

theorem isRecord_record (contentType : UInt8) {payload : Bytes} (h : payload.length < 65536) :
    tls.IsRecord (record contentType payload) := by
  have hlen : u16FromBe (UInt8.ofNat (payload.length % 65536 / 256))
      (UInt8.ofNat (payload.length % 256)) = payload.length := by
    have h1 : payload.length % 65536 / 256 < 256 := by omega
    have h2 : payload.length % 256 < 256 := by omega
    unfold u16FromBe
    rw [UInt8.toNat_ofNat_of_lt' h1, UInt8.toNat_ofNat_of_lt' h2]
    omega
  constructor
  · simp [record, tls, header, u16ToBe]
  · simp only [Framing.total, tls, header, record, u16ToBe]
    simp [hlen]
    omega

/-- The sum of two keys, byte by byte. -/
def mix (a b : Key32) : Key32 :=
  ⟨List.zipWith (· + ·) a.val b.val, by simp [a.property, b.property]⟩

theorem mix_comm (a b : Key32) : mix a b = mix b a := by
  apply Subtype.ext
  exact List.zipWith_comm_of_comm fun x y => UInt8.add_comm x y

/-- A packet: the key, the counter and the message. -/
def sealPacket (codec : UInt8 × ℕ) (m : Bytes) : Except String Bytes × (UInt8 × ℕ) :=
  if m.length ≤ 60000 then
    (.ok (record 0x17 (codec.1 :: UInt8.ofNat codec.2 :: m)), (codec.1, codec.2 + 1))
  else (.error "packet too large", codec)

/-- The message of a packet with the right key and counter. -/
def openPacket (codec : UInt8 × ℕ) (r : Bytes) : Except String Bytes × (UInt8 × ℕ) :=
  if r.getD 5 0 = codec.1 ∧ r.getD 6 0 = UInt8.ofNat codec.2 then
    (.ok (r.drop 7), (codec.1, codec.2 + 1))
  else (.error "bad record", codec)

theorem sealPacket_eq_ok {codec codec' : UInt8 × ℕ} {m r : Bytes}
    (h : sealPacket codec m = (.ok r, codec')) :
    m.length ≤ 60000 ∧ r = record 0x17 (codec.1 :: UInt8.ofNat codec.2 :: m) ∧
      codec' = (codec.1, codec.2 + 1) := by
  unfold sealPacket at h
  split_ifs at h with hm
  · simp only [Prod.mk.injEq, Except.ok.injEq] at h
    exact ⟨hm, h.1.symm, h.2.symm⟩
  · simp at h

/-- The static key of a proof made with this shared secret. -/
def openProof (msg : Bytes) (shared : Key32) : Except String Key32 :=
  match toKey32 (msg.take 32) with
  | some st => if msg.drop 32 = shared.val then .ok st else .error "bad proof"
  | none => .error "bad length"

/-- **The core in the clear.** -/
def plain : Core where
  Seed := Key32
  Keypair := Key32
  StaticKeypair := Key32
  PublicKey := Key32
  MlkemDk := Unit
  Key := UInt8
  PacketCodec := UInt8 × ℕ
  generate seed := seed
  publicOf kp := kp
  fromBytes pub := pub
  deriveShared := mix
  deriveSharedChecked kp pub := some (mix kp pub)
  staticPublic kp := kp
  mlkem768Encapsulate seed _ := some (seed.val, seed.val)
  mlkem768Decapsulate _ ct := some ct
  acceptsSni sni := (asBytes sni).length ≤ 255
  buildClientHelloPq _ pub sni := (record 0x16 (pub.val ++ asBytes sni), ())
  parseClientHello r := some ((r.drop 5).take 32)
  extractClientMlkemEk r := some ((r.drop 5).take 32)
  buildServerHelloPq _ pub ct := record 0x16 (pub.val ++ ct)
  parseServerHelloPq r := (toKey32 ((r.drop 5).take 32)).map fun pub => (r.drop 37, pub)
  buildChangeCipherSpec := record 0x14 [1]
  buildCertificate _ := record 0x17 [11]
  buildFinished _ := record 0x17 [20]
  buildNewSessionTicket _ := record 0x17 [4]
  deriveKeysHybrid shared _ := (shared.val.headD 0, shared.val.headD 0 + 1)
  handshakeTranscriptHash rs := rs.flatten.take 32
  buildServerAuthMessage st _ shared _ := st.val ++ shared.val
  verifyServerAuthMessage msg _ shared _ := openProof msg shared
  computeClientKeyProof static _ _ := static
  ctEq a b := a = b
  newCodec key := (key, 0)
  encryptPacket := sealPacket
  decryptPacket := openPacket

theorem plain_encrypts {m : Bytes} (h : m.length ≤ 60000) (tx : plain.PacketCodec) :
    plain.Encrypts tx m :=
  ⟨record 0x17 (tx.1 :: UInt8.ofNat tx.2 :: m), (tx.1, tx.2 + 1), if_pos h⟩

theorem plain_inverts : ∀ (ms : List Bytes) (codec : UInt8 × ℕ), plain.Inverts codec codec ms
  | [], _ => trivial
  | m :: ms, codec => by
    intro r tx' he
    obtain ⟨-, rfl, rfl⟩ := sealPacket_eq_ok he
    have hopen : openPacket codec (record 0x17 (codec.1 :: UInt8.ofNat codec.2 :: m)) =
        (.ok m, (codec.1, codec.2 + 1)) := by
      simp [openPacket, record, u16ToBe]
    exact ⟨_, hopen, plain_inverts ms _⟩

/-- **The laws can be met.** -/
theorem plain_laws : plain.Laws where
  clientHello_record := by
    intro sni h seed (pub : Key32)
    refine isRecord_record _ ?_
    have hsni : (asBytes sni).length ≤ 255 := h
    rw [List.length_append, pub.property]
    omega
  serverHello_record := by
    rintro (seed : Key32) ek ct ss h seed' (pub : Key32)
    cases h
    refine isRecord_record _ ?_
    rw [List.length_append, pub.property, seed.property]
    omega
  changeCipherSpec_record := by decide
  changeCipherSpec_type := rfl
  certificate_record _ := isRecord_record _ (by decide)
  finished_record _ := isRecord_record _ (by decide)
  newSessionTicket_record _ := isRecord_record _ (by decide)
  packet_record := by
    intro tx m r tx' h
    obtain ⟨hm, rfl, -⟩ := sealPacket_eq_ok h
    refine isRecord_record _ ?_
    simp only [List.length_cons]
    omega
  parse_clientHello := by
    intro sni _ seed (kp : Key32)
    refine ⟨kp, ?_, rfl⟩
    show some (((record 0x16 (kp.val ++ asBytes sni)).drop 5).take 32) = some kp.val
    simp [record, u16ToBe, kp.property]
  parse_serverHello := by
    rintro (seed : Key32) ek ct ss - seed' (kp : Key32)
    refine ⟨kp, ?_, rfl⟩
    have htake : ((record 0x16 (kp.val ++ ct)).drop 5).take 32 = kp.val := by
      simp [record, u16ToBe, kp.property]
    have hdrop : (record 0x16 (kp.val ++ ct)).drop 37 = ct := by
      simp [record, u16ToBe, kp.property]
    show (toKey32 (((record 0x16 (kp.val ++ ct)).drop 5).take 32)).map
        (fun pub => ((record 0x16 (kp.val ++ ct)).drop 37, pub)) = some (ct, kp)
    rw [htake, hdrop, toKey32_val]
    rfl
  x25519 (seed : Key32) (seed' : Key32) :=
    ⟨mix seed seed', rfl, congrArg some (mix_comm seed' seed)⟩
  mlkem _ seed pub := ⟨_, rfl, fun (seed' : Key32) => ⟨seed'.val, seed', rfl, rfl⟩⟩
  codec key ms := plain_inverts ms _
  encrypts_proof (st : Key32) pub shared th := by
    refine fun key => plain_encrypts ?_ _
    show (st.val ++ shared.val).length ≤ 60000
    rw [List.length_append, st.property, shared.property]
    omega
  verify (st : Key32) kp shared th := by
    have htake : (st.val ++ shared.val).take 32 = st.val := by simp [st.property]
    have hdrop : (st.val ++ shared.val).drop 32 = shared.val := by simp [st.property]
    show openProof (st.val ++ shared.val) shared = .ok st
    unfold openProof
    rw [htake, hdrop, toKey32_val]
    exact if_pos rfl
  ctEq_iff := by
    intro a b
    show decide (a = b) = true ↔ a = b
    exact decide_eq_true_iff

end QeliSsPlugin.Handshake
