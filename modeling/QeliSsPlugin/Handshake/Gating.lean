import QeliSsPlugin.Handshake.Agreement
import QeliSsPlugin.Lib.Exposed

/-! # When the client sends its password

The client against an arbitrary server. `Checked` is what the client has seen of a server before it
writes its auth message: six records that pass every check. `client_gating`: whatever the server sends,
in whatever pieces, the client writes its ClientHello, and after it nothing but one auth message, to a
server that is `Checked`; and it succeeds only if the next record says so. -/

namespace QeliSsPlugin.Handshake

open Mux Carrier Lib.Runs Lib.Session

/-! ### Rules for the steps of a handshake -/

section Rules

variable {α γ : Type} {I F : List Bytes → Bytes → Prop} {R : List Bytes → Bytes → γ → Prop}
  {rs : List Bytes} {out : Bytes}

theorem guarantees_writeAll {bs : Bytes} {f : Unit → Prog UInt8 String γ}
    (hI : I rs out) (hF : ∀ p, p <+: bs → F rs (out ++ p))
    (h : Guarantees link I F R (f ()) rs (out ++ bs)) :
    Guarantees link I F R (writeAll bs >>= f) rs out :=
  ⟨hI, fun n _ => hF _ (List.take_prefix n bs), h⟩

theorem guarantees_readRecord {what : String} {f : Bytes → Prog UInt8 String γ} (hI : I rs out)
    (hF : F rs out) (h : ∀ r, Guarantees link I F R (f r) (rs ++ [r]) out) :
    Guarantees link I F R (readRecord what >>= f) rs out :=
  ⟨hI, fun _ => hF, fun r _ => h r⟩

theorem guarantees_okOr {o : Option α} {e : String} {f : α → Prog UInt8 String γ} (hF : F rs out)
    (h : ∀ a, o = some a → Guarantees link I F R (f a) rs out) :
    Guarantees link I F R (okOr o e >>= f) rs out := by
  cases o with
  | none => exact hF
  | some a => exact h a rfl

theorem guarantees_mapErr {r : Except String α} {what : String} {f : α → Prog UInt8 String γ}
    (hF : F rs out) (h : ∀ a, r = .ok a → Guarantees link I F R (f a) rs out) :
    Guarantees link I F R (mapErr r what >>= f) rs out := by
  cases r with
  | error e => exact hF
  | ok a => exact h a rfl

end Rules

/-! ### The checks -/

variable (core : Core) (rng : ℕ → core.Seed) (sni password : String) (deviceId : DeviceId)
  (pin : Option Key32)

/-- The client's ephemeral key pair. -/
def clientKp : core.Keypair := core.generate (rng 0)

/-- The ClientHello with its decapsulation key. -/
def clientHello : Bytes × core.MlkemDk :=
  core.buildClientHelloPq (rng 1) (core.publicOf (clientKp core rng)) sni

/-- **A server that passes the client's checks.** -/
structure Checked where
  serverHello : Bytes
  changeCipherSpec : Bytes
  certificate : Bytes
  finished : Bytes
  newSessionTicket : Bytes
  proofRecord : Bytes
  mlkemCt : Bytes
  serverX25519 : Key32
  parsed : core.parseServerHelloPq serverHello = some (mlkemCt, serverX25519)
  changes : changeCipherSpec.head? = some 0x14
  shared : Key32
  derived : core.deriveSharedChecked (clientKp core rng) (core.fromBytes serverX25519) = some shared
  mlkemShared : Key32
  decapsulated : core.mlkem768Decapsulate (clientHello core rng sni).2 mlkemCt =
    some mlkemShared.val
  proof : Bytes
  rx : core.PacketCodec
  decrypted : core.decryptPacket (core.newCodec (core.deriveKeysHybrid shared mlkemShared).1)
    proofRecord = (.ok proof, rx)
  serverStatic : Key32
  /-- On the transcript of the messages as written and as read. -/
  verified : core.verifyServerAuthMessage proof (clientKp core rng) shared
    (core.handshakeTranscriptHash [(clientHello core rng sni).1, serverHello, certificate, finished]) =
      .ok serverStatic
  pinned : ∀ key, pin = some key → serverStatic = key

namespace Checked

variable {core rng sni pin} (c : Checked core rng sni pin)

/-- The six records, in the order in which they are read. -/
def records : List Bytes :=
  [c.serverHello, c.changeCipherSpec, c.certificate, c.finished, c.newSessionTicket, c.proofRecord]

def transcriptHash : Bytes :=
  core.handshakeTranscriptHash [(clientHello core rng sni).1, c.serverHello, c.certificate, c.finished]

/-- The codec of the client's messages. -/
def tx : core.PacketCodec := core.newCodec (core.deriveKeysHybrid c.shared c.mlkemShared).2

/-- The proof that the client knows the pinned key; without a pin, 32 zeros. -/
def clientProof : Key32 :=
  (pin.map fun key => core.computeClientKeyProof
    (core.deriveShared (clientKp core rng) (core.fromBytes key)) c.shared c.transcriptHash).getD
      (seed 0)

end Checked

/-- **What the client has written**: up to the sixth record a part `part` of its ClientHello, or all of
it and such a part of one more record, its auth message to a server that has passed the checks. -/
def Gated (part : Bytes → Bytes → Prop) (rs : List Bytes) (out : Bytes) : Prop :=
  part out (clientHello core rng sni).1 ∧ rs.length ≤ 6 ∨
    ∃ (c : Checked core rng sni pin) (packet : Bytes) (tx : core.PacketCodec),
      c.records <+: rs ∧
      core.encryptPacket c.tx (authMessage c.clientProof deviceId password) = (.ok packet, tx) ∧
      tls.IsRecord packet ∧ ∃ p, part p packet ∧ out = (clientHello core rng sni).1 ++ p

/-- Nothing or all of it. -/
def Whole (p bs : Bytes) : Prop := p = [] ∨ p = bs

/-- The client has returned: the server has passed the checks, the auth message is written, and the next
record has been accepted. -/
def Accepted (rs : List Bytes) (out : Bytes) (result : ClientHandshake core) : Prop :=
  ∃ (c : Checked core rng sni pin) (packet : Bytes) (tx : core.PacketCodec) (response text : Bytes)
    (rx : core.PacketCodec),
    core.encryptPacket c.tx (authMessage c.clientProof deviceId password) = (.ok packet, tx) ∧
    tls.IsRecord packet ∧ out = (clientHello core rng sni).1 ++ packet ∧
    rs = c.records ++ [response] ∧ core.decryptPacket c.rx response = (.ok text, rx) ∧
    authOkPrefix.toList <+: fromUtf8Lossy text ∧ result = ⟨rx, tx, c.serverStatic⟩

variable {core rng sni password deviceId pin}

/-- The auth message, to a server that has passed the checks. -/
theorem guarantees_clientAuth
    (hrecord : ∀ {tx m r tx'}, core.encryptPacket tx m = (.ok r, tx') → tls.IsRecord r)
    (c : Checked core rng sni pin) :
    Guarantees link (Gated core rng sni password deviceId pin Whole)
      (Gated core rng sni password deviceId pin (· <+: ·))
      (Accepted core rng sni password deviceId pin)
      (clientAuth core c.rx c.tx c.clientProof deviceId password c.serverStatic) c.records
      (clientHello core rng sni).1 := by
  have hgated : ∀ {part : Bytes → Bytes → Prop} {packet tx rs p},
      core.encryptPacket c.tx (authMessage c.clientProof deviceId password) = (.ok packet, tx) →
      c.records <+: rs → part p packet →
      Gated core rng sni password deviceId pin part rs ((clientHello core rng sni).1 ++ p) :=
    fun henc hrs hp => .inr ⟨c, _, _, hrs, henc, hrecord henc, _, hp, rfl⟩
  unfold clientAuth
  rcases henc : core.encryptPacket c.tx (authMessage c.clientProof deviceId password) with ⟨r, tx⟩
  refine guarantees_mapErr (.inl ⟨List.prefix_rfl, le_rfl⟩) fun packet hpacket => ?_
  subst hpacket
  refine guarantees_writeAll (.inl ⟨.inr rfl, le_rfl⟩)
    (fun p hp => hgated henc List.prefix_rfl hp) ?_
  refine guarantees_readRecord (hgated henc List.prefix_rfl (.inr rfl))
    (hgated henc List.prefix_rfl List.prefix_rfl) fun response => ?_
  have hread : c.records <+: c.records ++ [response] := List.prefix_append _ _
  rcases hdec : core.decryptPacket c.rx response with ⟨r', rx⟩
  refine guarantees_mapErr (hgated henc hread List.prefix_rfl) fun text htext => ?_
  subst htext
  by_cases hok : authOkPrefix.toList.isPrefixOf (fromUtf8Lossy text) = true
  · simp only [hok, not_true_eq_false, if_false]
    exact ⟨hgated henc hread (.inr rfl), c, packet, tx, response, text, rx, henc, hrecord henc, rfl,
      rfl, hdec, List.isPrefixOf_iff_prefix.mp hok, rfl⟩
  · rw [if_pos hok]
    exact hgated henc hread List.prefix_rfl

/-- The whole handshake. -/
theorem guarantees_clientHandshakeInner
    (hrecord : ∀ {tx m r tx'}, core.encryptPacket tx m = (.ok r, tx') → tls.IsRecord r)
    (hct : ∀ {a b}, core.ctEq a b = true ↔ a = b) :
    Guarantees link (Gated core rng sni password deviceId pin Whole)
      (Gated core rng sni password deviceId pin (· <+: ·))
      (Accepted core rng sni password deviceId pin)
      (clientHandshakeInner core rng sni password deviceId pin) [] [] := by
  have hlive : ∀ rs : List Bytes, rs.length ≤ 6 →
      Gated core rng sni password deviceId pin Whole rs (clientHello core rng sni).1 :=
    fun rs hrs => .inl ⟨.inr rfl, hrs⟩
  have hfail : ∀ rs : List Bytes, rs.length ≤ 6 →
      Gated core rng sni password deviceId pin (· <+: ·) rs (clientHello core rng sni).1 :=
    fun rs hrs => .inl ⟨List.prefix_rfl, hrs⟩
  unfold clientHandshakeInner
  refine guarantees_writeAll (.inl ⟨.inl rfl, Nat.zero_le 6⟩)
    (fun p hp => .inl ⟨hp, Nat.zero_le 6⟩) ?_
  refine guarantees_readRecord (hlive _ (by simp)) (hfail _ (by simp)) fun serverHello => ?_
  refine guarantees_okOr (hfail _ (by simp)) fun parts hparsed => ?_
  obtain ⟨mlkemCt, serverX25519⟩ := parts
  refine guarantees_readRecord (hlive _ (by simp)) (hfail _ (by simp)) fun changeCipherSpec => ?_
  by_cases hccs : changeCipherSpec.head? = some 0x14
  swap
  · rw [if_pos hccs]
    exact hfail _ (by simp)
  rw [if_neg (not_not.mpr hccs)]
  refine guarantees_readRecord (hlive _ (by simp)) (hfail _ (by simp)) fun certificate => ?_
  refine guarantees_readRecord (hlive _ (by simp)) (hfail _ (by simp)) fun finished => ?_
  refine guarantees_readRecord (hlive _ (by simp)) (hfail _ (by simp)) fun newSessionTicket => ?_
  refine guarantees_okOr (hfail _ (by simp)) fun shared hshared => ?_
  refine guarantees_okOr (hfail _ (by simp)) fun mlkemBytes hmlkem => ?_
  refine guarantees_okOr (hfail _ (by simp)) fun mlkemShared hkey => ?_
  have hbytes : mlkemBytes = mlkemShared.val := by
    unfold toKey32 at hkey
    split_ifs at hkey
    exact congrArg Subtype.val (Option.some.inj hkey)
  subst hbytes
  refine guarantees_readRecord (hlive _ (by simp)) (hfail _ (by simp)) fun proofRecord => ?_
  rcases hdec : core.decryptPacket
    (core.newCodec (core.deriveKeysHybrid shared mlkemShared).1) proofRecord with ⟨r, rx⟩
  refine guarantees_mapErr (hfail _ (by simp)) fun proof hproof => ?_
  subst hproof
  refine guarantees_mapErr (hfail _ (by simp)) fun serverStatic hverify => ?_
  let checked (hpin : ∀ key, pin = some key → serverStatic = key) : Checked core rng sni pin :=
    ⟨serverHello, changeCipherSpec, certificate, finished, newSessionTicket, proofRecord, mlkemCt,
      serverX25519, hparsed, hccs, shared, hshared, mlkemShared, hmlkem, proof, rx, hdec,
      serverStatic, hverify, hpin⟩
  cases pin with
  | none => exact guarantees_clientAuth hrecord (checked fun key h => by cases h)
  | some key =>
    dsimp only
    by_cases heq : core.ctEq serverStatic.val key.val = true
    · rw [if_neg (not_not.mpr heq)]
      have hpin : serverStatic = key := Subtype.ext (hct.mp heq)
      exact guarantees_clientAuth hrecord (checked fun key' h => by cases h; exact hpin)
    · rw [if_pos heq]
      exact hfail _ (by simp)

/-- **The password goes to a checked server only.** Against any peer, whatever bytes it sends and however
they are read: the records the client has received are cut from these bytes; it has written its
ClientHello and nothing else, unless the first six of the records pass all its checks, and then exactly
one record more, the auth message (of what is written last only a part, if the write has failed); and it
succeeds only if the seventh record decrypts to a text that begins with `AUTH_OK_PREFIX`. -/
theorem client_gating
    (hrecord : ∀ {tx m r tx'}, core.encryptPacket tx m = (.ok r, tx') → tls.IsRecord r)
    (hct : ∀ {a b}, core.ctEq a b = true ↔ a = b)
    {s : Exposed UInt8 String (ClientHandshake core)}
    (h : Reachable (Exposed.step link)
      (.start (clientHandshakeInner core rng sni password deviceId pin)) s) :
    ∃ rs, (∀ r ∈ rs, tls.IsRecord r) ∧ s.sent = rs.flatten ++ s.peer.buf ++ s.inp ∧
      (s.peer.prog.failed = false → Gated core rng sni password deviceId pin Whole rs s.out) ∧
      (s.peer.prog.failed = true → Gated core rng sni password deviceId pin (· <+: ·) rs s.out) ∧
      ∀ result, s.peer.prog = .ret result →
        Accepted core rng sni password deviceId pin rs s.out result := by
  have hprog : Guarantees link (Gated core rng sni password deviceId pin Whole)
      (Gated core rng sni password deviceId pin (· <+: ·))
      (Accepted core rng sni password deviceId pin)
      (clientHandshakeInner core rng sni password deviceId pin) [] [] :=
    guarantees_clientHandshakeInner hrecord hct
  exact hprog.reachable h

/-- The six records of an honest server, and its response. -/
def flight : Bytes :=
  record 0x16 ((seed 2).val ++ (seed 2).val) ++ record 0x14 [1] ++ record 0x17 [11] ++
    record 0x17 [20] ++ record 0x17 [4] ++ record 0x17 (3 :: 0 :: (seed 3).val ++ (seed 3).val)

def response : Bytes := record 0x17 (3 :: 1 :: okResponse "0.1")

/-- The client reads the flight in two pieces, and returns. -/
def accepted : List (Exposed.Event UInt8 String) :=
  [.move .write, .send flight, .move (.read 3), .move (.read (flight.length - 3)), .move .take,
    .move .take, .move .take, .move .take, .move .take, .move .take, .move .write, .send response,
    .move (.read response.length), .move .take]

theorem client_gating_accepted :
    ∃ s result, Reachable (Exposed.step link)
      (.start (clientHandshakeInner plain (fun _ => seed 1) "a.example" "secret" device
        (some (seed 3)))) s ∧
      s.peer.prog = .ret result ∧
      ∃ rs, Accepted plain (fun _ => seed 1) "a.example" "secret" device (some (seed 3)) rs s.out
        result := by
  have hexec : (exec (guard (fun _ _ => true) (Exposed.step link))
      (.start (clientHandshakeInner plain (fun _ => seed 1) "a.example" "secret" device
        (some (seed 3)))) accepted).map (·.peer.prog.returned) = some true := by
    decide +kernel
  obtain ⟨s, hs, hprog⟩ := Option.map_eq_some_iff.mp hexec
  obtain ⟨result, hret⟩ : ∃ result, s.peer.prog = .ret result := by
    cases hp : s.peer.prog with
    | ret result => exact ⟨result, rfl⟩
    | _ => rw [hp] at hprog; cases hprog
  have h : Reachable (Exposed.step link) _ s := exec_reaches (fun _ _ _ => trivial) _ hs
  obtain ⟨rs, -, -, -, -, haccepted⟩ := client_gating plain_laws.packet_record plain_laws.ctEq_iff h
  exact ⟨s, result, h, hret, rs, haccepted result hret⟩

end QeliSsPlugin.Handshake
