import QeliSsPlugin.Handshake.Gating

/-!
# Whom the server admits

The server against an arbitrary client. What it has written at any point is a prefix of a fixed list of
messages (`Greeted.flight`, then the identity proof), which depend on its key and the first record it read
and not on the password, until a second record decrypts to an auth message with exactly the password; only
then it writes its response, and only then it succeeds (`server_admission`).
-/

namespace QeliSsPlugin.Handshake

open Mux Carrier Lib.Runs Lib.Session

/-! ### The checks -/

variable (core : Core) (version : String) (rng : ℕ → core.Seed) (staticKp : core.StaticKeypair)
  (password : String)

/-- **A ClientHello that passes the server's checks.** -/
structure Greeted where
  clientHello : Bytes
  clientPub : Key32
  parsed : core.parseClientHello clientHello = some clientPub.val
  clientEk : Bytes
  extracted : core.extractClientMlkemEk clientHello = some clientEk
  mlkemCt : Bytes
  mlkemShared : Key32
  encapsulated : core.mlkem768Encapsulate (rng 0) clientEk = some (mlkemCt, mlkemShared.val)

namespace Greeted

variable {core rng} (g : Greeted core rng)

/-- The server's ephemeral key pair. -/
def serverKp (_g : Greeted core rng) : core.Keypair := core.generate (rng 1)

def serverHello : Bytes := core.buildServerHelloPq (rng 2) (core.publicOf g.serverKp) g.mlkemCt

/-- The five messages the server answers with. -/
def flight : List Bytes :=
  [g.serverHello, core.buildChangeCipherSpec, core.buildCertificate (rng 3),
    core.buildFinished (rng 4), core.buildNewSessionTicket (rng 5)]

def transcriptHash : Bytes :=
  core.handshakeTranscriptHash [g.clientHello, g.serverHello, core.buildCertificate (rng 3),
    core.buildFinished (rng 4)]

end Greeted

/-- **A client whose key gives a shared secret**, and the identity proof made for it. -/
structure Keyed extends Greeted core rng where
  shared : Key32
  derived : core.deriveSharedChecked toGreeted.serverKp (core.fromBytes clientPub) = some shared
  proofPacket : Bytes
  /-- Encrypts what follows the proof. -/
  tx : core.PacketCodec
  proved : core.encryptPacket (core.newCodec (core.deriveKeysHybrid shared mlkemShared).1)
    (core.buildServerAuthMessage staticKp (core.fromBytes clientPub) shared
      toGreeted.transcriptHash) = (.ok proofPacket, tx)

namespace Keyed

variable {core rng staticKp} (k : Keyed core rng staticKp)

/-- The codec of the client's messages. -/
def rx : core.PacketCodec := core.newCodec (core.deriveKeysHybrid k.shared k.mlkemShared).2

/-- All that is written before the client's auth message is read. -/
def greeting : Bytes := k.flight.flatten ++ k.proofPacket

end Keyed

/-- **An auth message with the password**, and the response to it. -/
structure Admitted extends Keyed core rng staticKp where
  authRecord : Bytes
  auth : Bytes
  /-- Decrypts what follows the auth message. -/
  rxNext : core.PacketCodec
  decrypted : core.decryptPacket toKeyed.rx authRecord = (.ok auth, rxNext)
  accepted : parseClientAuth auth = .ok password
  okPacket : Bytes
  txNext : core.PacketCodec
  responded : core.encryptPacket tx (okResponse version) = (.ok okPacket, txNext)

/-- **What the server has written**, `part` of the message written last: of the flight after a greeting
client's hello, of the proof for a keyed one's; of the response after an auth message with the password
alone. -/
inductive Answered (part : Bytes → Bytes → Prop) : List Bytes → Bytes → Prop
  | silent {rs} : rs.length ≤ 1 → Answered part rs []
  | flight {p} (g : Greeted core rng) (n : ℕ) : part p (g.flight.getD n []) →
      Answered part [g.clientHello] ((g.flight.take n).flatten ++ p)
  | proof {p} (k : Keyed core rng staticKp) : part p k.proofPacket →
      Answered part [k.clientHello] (k.flight.flatten ++ p)
  | refused {r} (k : Keyed core rng staticKp) : Answered part [k.clientHello, r] k.greeting
  | response {p} (a : Admitted core version rng staticKp password) : part p a.okPacket →
      Answered part [a.clientHello, a.authRecord] (a.greeting ++ p)

/-- The server has returned: the client knows the password, and the response is written. -/
def Admits (rs : List Bytes) (out : Bytes) (result : ServerHandshake core) : Prop :=
  ∃ a : Admitted core version rng staticKp password,
    rs = [a.clientHello, a.authRecord] ∧ out = a.greeting ++ a.okPacket ∧
      result = ⟨a.rxNext, a.txNext⟩

variable {core version rng staticKp password}

theorem toKey32_eq {bs : Bytes} {key : Key32} (h : toKey32 bs = some key) : bs = key.val := by
  unfold toKey32 at h
  split_ifs at h
  exact congrArg Subtype.val (Option.some.inj h)

/-- The password exchange. -/
theorem guarantees_serverAuth (hct : ∀ {a b}, core.ctEq a b = true ↔ a = b)
    (k : Keyed core rng staticKp) :
    Guarantees link (Answered core version rng staticKp password Whole)
      (Answered core version rng staticKp password (· <+: ·))
      (Admits core version rng staticKp password)
      (serverAuth core version k.rx k.tx password) [k.clientHello] k.greeting := by
  have hrefused : ∀ {part : Bytes → Bytes → Prop} {r},
      Answered core version rng staticKp password part ([k.clientHello] ++ [r]) k.greeting :=
    .refused k
  unfold serverAuth
  refine guarantees_readRecord (.proof k (.inr rfl)) (.proof k List.prefix_rfl) fun r => ?_
  rcases hdec : core.decryptPacket k.rx r with ⟨auth, rx⟩
  refine guarantees_mapErr hrefused fun auth hauth => ?_
  subst hauth
  cases hparse : parseClientAuth auth with
  | error e => exact hrefused
  | ok presented =>
    by_cases heq : core.ctEq (asBytes presented) (asBytes password) = true
    · obtain rfl : presented = password := asBytes_inj.mp (hct.mp heq)
      rcases henc : core.encryptPacket k.tx (okResponse version) with ⟨packet, tx⟩
      simp only [heq, not_true_eq_false, if_false]
      refine guarantees_mapErr hrefused fun packet hpacket => ?_
      subst hpacket
      let a : Admitted core version rng staticKp presented :=
        ⟨k, r, auth, rx, hdec, hparse, packet, tx, henc⟩
      refine guarantees_writeAll hrefused (fun p hp => .response a hp) ?_
      exact ⟨.response a (.inr rfl), a, rfl, rfl, rfl⟩
    · simp only [heq]
      exact hrefused

/-- The flight. -/
theorem guarantees_flight {γ : Type} {R : List Bytes → Bytes → γ → Prop} (g : Greeted core rng)
    {f : Prog UInt8 String γ} (n : ℕ) (hn : n < 5)
    (h : Guarantees link (Answered core version rng staticKp password Whole)
      (Answered core version rng staticKp password (· <+: ·)) R f [g.clientHello]
      (g.flight.take (n + 1)).flatten) :
    Guarantees link (Answered core version rng staticKp password Whole)
      (Answered core version rng staticKp password (· <+: ·)) R
      (writeAll (g.flight.getD n []) >>= fun _ => f) [g.clientHello]
      (g.flight.take n).flatten := by
  have hwhole : Answered core version rng staticKp password Whole [g.clientHello]
      (g.flight.take n).flatten := by
    rw [← List.append_nil (g.flight.take n).flatten]
    exact .flight g n (.inl rfl)
  refine guarantees_writeAll hwhole (fun p hp => .flight g n hp) ?_
  have htake : (g.flight.take n).flatten ++ g.flight.getD n [] = (g.flight.take (n + 1)).flatten := by
    have hlt : n < g.flight.length := hn
    rw [List.take_add_one, List.flatten_append, List.getD_eq_getElem?_getD,
      List.getElem?_eq_getElem hlt]
    simp
  rw [htake]
  exact h

/-- The whole handshake. -/
theorem guarantees_serverHandshakeInner (hct : ∀ {a b}, core.ctEq a b = true ↔ a = b) :
    Guarantees link (Answered core version rng staticKp password Whole)
      (Answered core version rng staticKp password (· <+: ·))
      (Admits core version rng staticKp password)
      (serverHandshakeInner core version rng staticKp password) [] [] := by
  have hsilent : ∀ {part : Bytes → Bytes → Prop} (rs : List Bytes), rs.length ≤ 1 →
      Answered core version rng staticKp password part rs [] := fun rs hrs => .silent hrs
  unfold serverHandshakeInner
  refine guarantees_readRecord (hsilent _ (by simp)) (hsilent _ (by simp)) fun clientHello => ?_
  refine guarantees_okOr (hsilent _ (by simp)) fun pubBytes hparsed => ?_
  refine guarantees_okOr (hsilent _ (by simp)) fun clientPub hpub => ?_
  refine guarantees_okOr (hsilent _ (by simp)) fun clientEk hek => ?_
  refine guarantees_okOr (hsilent _ (by simp)) fun encapsulated henc => ?_
  obtain ⟨mlkemCt, ssBytes⟩ := encapsulated
  refine guarantees_okOr (hsilent _ (by simp)) fun mlkemShared hss => ?_
  obtain rfl := toKey32_eq hpub
  obtain rfl := toKey32_eq hss
  let g : Greeted core rng :=
    ⟨clientHello, clientPub, hparsed, clientEk, hek, mlkemCt, mlkemShared, henc⟩
  refine guarantees_flight g 0 (by decide) ?_
  refine guarantees_flight g 1 (by decide) ?_
  refine guarantees_flight g 2 (by decide) ?_
  refine guarantees_flight g 3 (by decide) ?_
  refine guarantees_flight g 4 (by decide) ?_
  have hflight : Answered core version rng staticKp password (· <+: ·) [clientHello]
      (g.flight.take 5).flatten := by
    rw [← List.append_nil (g.flight.take 5).flatten]
    exact .flight g 5 List.prefix_rfl
  refine guarantees_okOr hflight fun shared hshared => ?_
  rcases hproof : core.encryptPacket (core.newCodec (core.deriveKeysHybrid shared mlkemShared).1)
    (core.buildServerAuthMessage staticKp (core.fromBytes clientPub) shared g.transcriptHash)
      with ⟨packet, tx⟩
  have hproof' := hproof
  unfold Greeted.transcriptHash Greeted.serverHello Greeted.serverKp at hproof'
  simp only [g] at hproof'
  simp only [hproof']
  refine guarantees_mapErr hflight fun packet hpacket => ?_
  subst hpacket
  let k : Keyed core rng staticKp := ⟨g, shared, hshared, packet, tx, hproof⟩
  have hall : (g.flight.take 5).flatten = k.flight.flatten := rfl
  have hwhole : Answered core version rng staticKp password Whole [k.clientHello]
      k.flight.flatten := by
    rw [← List.append_nil k.flight.flatten]
    exact .proof k (.inl rfl)
  rw [hall]
  exact guarantees_writeAll hwhole (fun p hp => .proof k hp) (guarantees_serverAuth hct k)

/-- **Only the password opens the server.** Against any client, whatever bytes it sends and however they are
read: the records the server has received are cut from these bytes, and what it has written is `Answered`
by them: nothing before a ClientHello passes its checks, then of one fixed flight and one identity proof,
none of which depends on the password; its response only after a second record that decrypts, under the
keys of this handshake, to an auth message with exactly the password. It succeeds only when that is written,
with the codecs as they are after the two messages. -/
theorem server_admission (hct : ∀ {a b}, core.ctEq a b = true ↔ a = b)
    {s : Exposed UInt8 String (ServerHandshake core)}
    (h : Reachable (Exposed.step link)
      (.start (serverHandshakeInner core version rng staticKp password)) s) :
    ∃ rs, (∀ r ∈ rs, tls.IsRecord r) ∧ s.sent = rs.flatten ++ s.peer.buf ++ s.inp ∧
      (s.peer.prog.failed = false →
        Answered core version rng staticKp password Whole rs s.out) ∧
      (s.peer.prog.failed = true →
        Answered core version rng staticKp password (· <+: ·) rs s.out) ∧
      ∀ result, s.peer.prog = .ret result →
        Admits core version rng staticKp password rs s.out result := by
  have hprog : Guarantees link (Answered core version rng staticKp password Whole)
      (Answered core version rng staticKp password (· <+: ·))
      (Admits core version rng staticKp password)
      (serverHandshakeInner core version rng staticKp password) [] [] :=
    guarantees_serverHandshakeInner hct
  exact hprog.reachable h

/-- A ClientHello and an auth message with the password. -/
def knock : Bytes := record 0x16 ((seed 1).val ++ asBytes "a.example")

def knockAuth : Bytes :=
  record 0x17 (4 :: 0 :: authMessage (seed 0) device "secret")

/-- The client sends both messages at once; the server reads them in pieces, and returns. -/
def admitted : List (Exposed.Event UInt8 String) :=
  [.send (knock ++ knockAuth), .move (.read 7), .move (.read (knock.length - 3)), .move .take,
    .move .write, .move .write, .move .write, .move .write, .move .write, .move .write,
    .move (.read (knockAuth.length - 4)), .move .take, .move .write]

theorem server_admission_admitted :
    ∃ s result, Reachable (Exposed.step link)
      (.start (serverHandshakeInner plain "0.1" (fun _ => seed 2) (seed 3) "secret")) s ∧
      s.peer.prog = .ret result ∧
      ∃ rs, Admits plain "0.1" (fun _ => seed 2) (seed 3) "secret" rs s.out result := by
  have hexec : (exec (guard (fun _ _ => true) (Exposed.step link))
      (.start (serverHandshakeInner plain "0.1" (fun _ => seed 2) (seed 3) "secret"))
        admitted).map (·.peer.prog.returned) = some true := by
    decide +kernel
  obtain ⟨s, hs, hprog⟩ := Option.map_eq_some_iff.mp hexec
  obtain ⟨result, hret⟩ : ∃ result, s.peer.prog = .ret result := by
    cases hp : s.peer.prog with
    | ret result => exact ⟨result, rfl⟩
    | _ => rw [hp] at hprog; cases hprog
  have h : Reachable (Exposed.step link) _ s := exec_reaches (fun _ _ _ => trivial) _ hs
  obtain ⟨rs, -, -, -, -, hadmits⟩ := server_admission plain_laws.ctEq_iff h
  exact ⟨s, result, h, hret, rs, hadmits result hret⟩

end QeliSsPlugin.Handshake
