import QeliSsPlugin.Handshake.Plain

/-! # The two sides agree

An honest client and an honest server run against each other. Record by record they stay in step
(`settles`): they exchange the nine records of the handshake, and end in one of three ways, by the
pin and by the password. `handshake_agreement` carries this to the byte streams: however these are
cut into reads, both sides return, and both succeed or both fail. -/

namespace QeliSsPlugin.Handshake

open Mux Carrier Lib.Runs Lib.Session

variable {α α' : Type}

/-- The programs, run record by record, end with results in the relation `V`. -/
def Settles (V : Except String α → Except String α' → Prop) (P : Prog UInt8 String α)
    (Q : Prog UInt8 String α') : Prop :=
  ∃ n x y, Lockstep link n P Q x y ∧ V x y

namespace Settles

variable {V : Except String α → Except String α' → Prop} {bs : Bytes} {what : String}

theorem left {f : Unit → Prog UInt8 String α} {g : Bytes → Prog UInt8 String α'}
    (hr : tls.IsRecord bs) (hlive : (f ()).returned = false) (h : Settles V (f ()) (g bs)) :
    Settles V (writeAll bs >>= f) (readRecord what >>= g) := by
  obtain ⟨n, x, y, hl, hv⟩ := h
  exact ⟨_, x, y, .writeLeft hr hlive hl, hv⟩

theorem right {f : Bytes → Prog UInt8 String α} {g : Unit → Prog UInt8 String α'}
    (hr : tls.IsRecord bs) (h : Settles V (f bs) (g ())) :
    Settles V (readRecord what >>= f) (writeAll bs >>= g) := by
  obtain ⟨n, x, y, hl, hv⟩ := h
  exact ⟨_, x, y, .writeRight hr hl, hv⟩

end Settles

variable {core : Core}

/-- How a handshake should end: both sides succeed with matched codecs, and the client knows the
server's static key, or both fail. -/
def Verdict (core : Core) (succeeds : Prop) (staticPublic : Key32) :
    Except String (ClientHandshake core) → Except String (ServerHandshake core) → Prop
  | .ok c, .ok s => succeeds ∧ core.Synced s.tx c.rx ∧ core.Synced c.tx s.rx ∧
      c.serverStatic = staticPublic
  | .error _, .error _ => ¬ succeeds
  | _, _ => False

/-- Concrete randomness and a concrete device id. -/
def seed (b : UInt8) : Key32 := ⟨List.replicate 32 b, List.length_replicate⟩

def device : DeviceId := ⟨List.replicate deviceIdLen 0x42, List.length_replicate⟩

section Honest

variable {version sni clientPassword serverPassword : String} {clientRng serverRng : ℕ → core.Seed}
  {deviceId : DeviceId} {pin : Option Key32} {staticKp : core.StaticKeypair} {key : Key32}

/-- The password exchange, after the client has accepted the server. -/
theorem settles_auth (laws : core.Laws) {rxC txC rxS txS : core.PacketCodec} {proof : Key32}
    (hup : core.Synced txC rxS) (hdown : core.Synced txS rxC)
    (hauth : core.Encrypts txC (authMessage proof deviceId clientPassword))
    (hok : core.Encrypts txS (okResponse version)) :
    Settles (Verdict core (clientPassword = serverPassword) key)
      (clientAuth core rxC txC proof deviceId clientPassword key)
      (serverAuth core version rxS txS serverPassword) := by
  obtain ⟨r₁, tx₁, he₁⟩ := hauth
  obtain ⟨rx₁, hd₁, hup₁⟩ := hup.next he₁
  obtain ⟨r₂, tx₂, he₂⟩ := hok
  obtain ⟨rx₂, hd₂, hdown₂⟩ := hdown.next he₂
  unfold clientAuth serverAuth
  simp only [he₁, mapErr_ok, Prog.ret_bind]
  refine .left (laws.packet_record he₁) rfl ?_
  simp only [hd₁, mapErr_ok, Prog.ret_bind, parseClientAuth_authMessage]
  by_cases hpw : clientPassword = serverPassword
  · have hct : core.ctEq (asBytes clientPassword) (asBytes serverPassword) = true :=
      laws.ctEq_iff.mpr (asBytes_inj.mpr hpw)
    simp only [hct, not_true_eq_false, if_false, he₂, mapErr_ok, Prog.ret_bind]
    refine .right (laws.packet_record he₂) ?_
    simp only [hd₂, mapErr_ok, Prog.ret_bind, isPrefixOf_okResponse, not_true_eq_false, if_false]
    exact ⟨0, _, _, .done, hpw, hdown₂, hup₁, rfl⟩
  · have hct : ¬ core.ctEq (asBytes clientPassword) (asBytes serverPassword) = true :=
      fun h => hpw (asBytes_inj.mp (laws.ctEq_iff.mp h))
    rw [if_pos hct]
    -- the server closes the connection, the client's read of the response fails
    exact ⟨1, _, _, .failRight rfl, hpw⟩

/-- **Honest sides, record by record**: in step through the nine records, they end as the pin and
the passwords say. -/
theorem settles (laws : core.Laws) (hsni : core.acceptsSni sni)
    (hauth : ∀ proof, core.EncryptsFirst (authMessage proof deviceId clientPassword))
    (hok : core.EncryptsSecond (okResponse version)) :
    Settles
      (Verdict core
        (clientPassword = serverPassword ∧ (pin = none ∨ pin = some (core.staticPublic staticKp)))
        (core.staticPublic staticKp))
      (clientHandshakeInner core clientRng sni clientPassword deviceId pin)
      (serverHandshakeInner core version serverRng staticKp serverPassword) := by
  obtain ⟨pubC, hparseC, hpubC⟩ := laws.parse_clientHello hsni (clientRng 1)
    (core.generate (clientRng 0))
  obtain ⟨ek, hek, hmlkem⟩ := laws.mlkem hsni (clientRng 1)
    (core.publicOf (core.generate (clientRng 0)))
  obtain ⟨ct, ss, henc, hdec⟩ := hmlkem (serverRng 0)
  obtain ⟨pubS, hparseS, hpubS⟩ := laws.parse_serverHello henc (serverRng 2)
    (core.generate (serverRng 1))
  obtain ⟨shared, hsharedC, hsharedS⟩ := laws.x25519 (clientRng 0) (serverRng 1)
  unfold clientHandshakeInner serverHandshakeInner
  -- the hellos
  refine .left (laws.clientHello_record hsni _ _) rfl ?_
  simp only [hparseC, okOr_some, Prog.ret_bind, toKey32_val, hek, henc]
  refine .right (laws.serverHello_record henc _ _) ?_
  simp only [hparseS, okOr_some, Prog.ret_bind]
  -- the server's flight
  refine .right laws.changeCipherSpec_record ?_
  simp only [laws.changeCipherSpec_type, ne_eq, not_true_eq_false, if_false]
  refine .right (laws.certificate_record _) ?_
  refine .right (laws.finished_record _) ?_
  refine .right (laws.newSessionTicket_record _) ?_
  simp only [hpubC, hpubS, hsharedC, hsharedS, hdec, okOr_some, Prog.ret_bind, toKey32_val]
  generalize core.deriveKeysHybrid shared ss = keys
  generalize core.handshakeTranscriptHash _ = th
  -- the identity proof
  obtain ⟨r₁, tx₁, he₁⟩ := laws.encrypts_proof staticKp
    (core.publicOf (core.generate (clientRng 0))) shared th keys.1
  obtain ⟨rx₁, hd₁, hdown₁⟩ := (laws.codec keys.1).next he₁
  simp only [he₁, mapErr_ok, Prog.ret_bind]
  refine .right (laws.packet_record he₁) ?_
  simp only [hd₁, mapErr_ok, Prog.ret_bind, laws.verify]
  have hup := laws.codec keys.2
  cases pin with
  | none =>
    simp only [true_or, and_true]
    exact settles_auth laws hup hdown₁ (hauth _ keys.2) (hok _ _ _ _ he₁)
  | some pinned =>
    simp only [reduceCtorEq, Option.some.injEq, false_or]
    by_cases hpin : pinned = core.staticPublic staticKp
    · subst hpin
      rw [if_neg (not_not.mpr (laws.ctEq_iff.mpr rfl))]
      simp only [and_true]
      exact settles_auth laws hup hdown₁ (hauth _ keys.2) (hok _ _ _ _ he₁)
    · have hct : ¬ core.ctEq (core.staticPublic staticKp).val pinned.val = true :=
        fun h => hpin (Subtype.ext (laws.ctEq_iff.mp h)).symm
      rw [if_pos hct]
      simp only [hpin, and_false]
      -- the client closes the connection, the server's read of the auth message fails
      exact ⟨1, _, _, .failLeft rfl, not_false⟩

/-- **Handshake agreement**: an honest client and an honest server are run against each other on
two byte streams, with any interleaving and any way of cutting the streams into reads. Every run is
of bounded length and ends with the same two results: both sides succeed if the passwords are equal
and the pin is absent or the server's static key, and both fail otherwise. -/
theorem handshake_agreement (version sni clientPassword serverPassword : String)
    (clientRng serverRng : ℕ → core.Seed) (deviceId : DeviceId) (pin : Option Key32)
    (staticKp : core.StaticKeypair) (laws : core.Laws) (hsni : core.acceptsSni sni)
    (hauth : ∀ proof, core.EncryptsFirst (authMessage proof deviceId clientPassword))
    (hok : core.EncryptsSecond (okResponse version)) :
    ∃ n x y,
      Verdict core
        (clientPassword = serverPassword ∧ (pin = none ∨ pin = some (core.staticPublic staticKp)))
        (core.staticPublic staticKp) x y ∧
      ∀ as s,
        exec (Duplex.step link)
          (.start (clientHandshakeInner core clientRng sni clientPassword deviceId pin)
            (serverHandshakeInner core version serverRng staticKp serverPassword)) as = some s →
        as.length ≤ n ∧ (∀ r, s.left.prog.result = some r → r = x) ∧
          (∀ r, s.right.prog.result = some r → r = y) ∧
          ((∀ a, s.step link a = none) →
            s.left.prog.result = some x ∧ s.right.prog.result = some y) := by
  have hsettles : Settles _
      (clientHandshakeInner core clientRng sni clientPassword deviceId pin)
      (serverHandshakeInner core version serverRng staticKp serverPassword) :=
    settles laws hsni hauth hok
  obtain ⟨n, x, y, hl, hv⟩ := hsettles
  exact ⟨n, x, y, hv, fun as s he => hl.outcome he⟩

theorem plain_encrypts_auth (proof : Key32) :
    plain.EncryptsFirst (authMessage proof device "secret") := by
  refine fun key => plain_encrypts ?_ _
  have hproof := proof.property
  simp only [authMessage, List.length_append, hproof]
  decide

theorem plain_encrypts_ok : plain.EncryptsSecond (okResponse "0.1") :=
  fun _ _ _ tx _ => plain_encrypts (by decide) tx

theorem plain_acceptsSni : plain.acceptsSni "a.example" :=
  show (asBytes "a.example").length ≤ 255 by decide

/-- A client with the right password and the right pin: both sides succeed. -/
theorem handshake_agreement_pinned :
    ∃ n c v, ∀ as s,
      exec (Duplex.step link)
        (.start
          (clientHandshakeInner plain (fun _ => seed 1) "a.example" "secret" device (some (seed 3)))
          (serverHandshakeInner plain "0.1" (fun _ => seed 2) (seed 3) "secret")) as = some s →
      as.length ≤ n ∧ ((∀ a, s.step link a = none) →
        s.left.prog.result = some (.ok c) ∧ s.right.prog.result = some (.ok v)) := by
  obtain ⟨n, x, y, hv, hrun⟩ := handshake_agreement "0.1" "a.example" "secret" "secret"
    (fun _ => seed 1) (fun _ => seed 2) device (some (seed 3)) (seed 3) plain_laws
    plain_acceptsSni plain_encrypts_auth plain_encrypts_ok
  rcases x with e | c <;> rcases y with e' | v
  · exact absurd ⟨rfl, .inr rfl⟩ hv
  · exact hv.elim
  · exact hv.elim
  · exact ⟨n, c, v, fun as s he => ⟨(hrun as s he).1, (hrun as s he).2.2.2⟩⟩

end Honest

end QeliSsPlugin.Handshake
