import QeliSsPlugin.Handshake.Linked

/-!
# From the first byte of a connection to the streams

A connection of an honest client and an honest server, with the handshakes and whatever is on its way
between them, is the pair of endpoints on intact wires from the moment both tunnels are up
(`connection_refines`), so the streams of the tunnels are delivered (`connection_delivers`).

`Joined` pairs a connection with the two tunnels it will have: a side that is still in its handshake
stands for its tunnel just spawned, with the codecs that the handshake will return.
-/

namespace QeliSsPlugin.Handshake

open Mux Carrier Lib Lib.Runs Lib.Session

variable {core : Core}

/-! ### A step of one tunnel -/

theorem Tunnel.act_written {t t' : Tunnel core} {a : Act} (h : t.act a = some t') :
    t'.written = t.written := by
  cases Tunnel.Acts.of_act h <;> rfl

namespace Linked

variable {l : Linked core} {t' : Tunnel core} {x : Side} {out inp' out' : Bytes} {gone : Bool}
  {a : PartyAct} {ok : Act → Bool}

/-- A step of a tunnel on its streams is one of the two tunnels. -/
theorem of_tunnel (hout : l.out x = 0) (hgone : gone = true → Net.closed (l.tun x.peer).ep = true)
    (hok : ∀ b, a = .act b → ok b = true)
    (h : (l.tun x).step (l.bytes x.peer) out gone a = some (t', inp', out')) :
    ∃ b l', OkAct ok l b ∧ l.step b = some l' ∧ l'.tun = Function.update l.tun x t' ∧
      l'.bytes x.peer = inp' ∧ (∀ y, l.out y = 0 → l'.out y = 0) ∧
      ∃ ws, out' = out ++ ws ∧ l'.bytes x = l.bytes x ++ ws ∧
        t'.written.flatten = (l.tun x).written.flatten ++ ws := by
  cases a with
  | act b =>
    obtain ⟨t, ht, heq⟩ := Option.map_eq_some_iff.mp h
    simp only [Prod.mk.injEq] at heq
    obtain ⟨rfl, rfl, rfl⟩ := heq
    refine ⟨.act x b, l.set x t, ?_, ?_, rfl, rfl, fun _ h => h, [], by simp, by simp [set], ?_⟩
    · rintro y c hc
      cases hc
      exact hok b rfl
    · simp [step, ht]
    · rw [Tunnel.act_written ht, List.append_nil]
  | write =>
    obtain ⟨e, he, heq⟩ := Option.map_eq_some_iff.mp h
    simp only [Prod.mk.injEq] at heq
    obtain ⟨rfl, rfl, rfl⟩ := heq
    refine ⟨.write x, { l.set x { l.tun x with
        ep := e, written := (l.tun x).written ++ [(l.tun x).packet] } with
      bytes := Function.update l.bytes x (l.bytes x ++ (l.tun x).packet.drop (l.out x))
      out := Function.update l.out x 0 }, fun y c hc => (by cases hc), ?_, rfl, ?_, fun y hy => ?_,
      (l.tun x).packet, rfl, ?_, by simp⟩
    · simp [step, Tunnel.step, he]
    · simp [Function.update_of_ne x.peer_ne]
    · simp only [Function.update_apply]
      split_ifs
      · rfl
      · exact hy
    · simp [hout]
  | read n =>
    simp only [Tunnel.step] at h
    split at h
    · next hn =>
      obtain ⟨e, he, heq⟩ := Option.map_eq_some_iff.mp h
      simp only [Prod.mk.injEq] at heq
      obtain ⟨rfl, rfl, rfl⟩ := heq
      refine ⟨.read x n, { l.set x { l.tun x with
          ep := e, records := (l.tun x).records.push ((l.bytes x.peer).take n),
          seen := (l.tun x).seen ++ (l.bytes x.peer).take n } with
        bytes := Function.update l.bytes x.peer ((l.bytes x.peer).drop n) },
        fun y c hc => (by cases hc), ?_, rfl, ?_, fun _ h => h, [], by simp, ?_, by simp⟩
      · simp [step, Tunnel.step, hn, he]
      · simp
      · simp [Function.update_of_ne x.peer_ne.symm]
    · cases h
  | eof =>
    simp only [Tunnel.step] at h
    split at h
    · next hg =>
      obtain ⟨e, he, heq⟩ := Option.map_eq_some_iff.mp h
      simp only [Prod.mk.injEq] at heq
      obtain ⟨rfl, rfl, rfl⟩ := heq
      refine ⟨.eof x, l.set x { l.tun x with ep := e }, fun y c hc => (by cases hc), ?_, rfl, rfl,
        fun _ h => h, [], by simp, by simp [set], by simp⟩
      simp [step, Tunnel.step, hgone hg.1, hg.2, he]
    · cases h
  | shake | spawn => cases h

end Linked

/-! ### The tunnels that a connection will have -/

/-- A side plays a tunnel: its own, or the one it will start. -/
def Party.Plays {α : Type} (p : Party core α) (start t : Tunnel core) : Prop :=
  match p with
  | .handshake _ => t = start
  | .tunnel t' => t = t'

/-- The bytes on their way to the tunnel of a side: what its stream holds, or, before the tunnel is up,
all that the peer's has written. -/
def Party.Gets {α : Type} (p : Party core α) (inp bytes written : Bytes) : Prop :=
  match p with
  | .handshake _ => bytes = written
  | .tunnel _ => inp = bytes

namespace Conn

variable {c : ClientHandshake core} {v : ServerHandshake core} {pingSecs : Side → ℕ}
  {s s' : Conn core} {l : Linked core} {ok : Act → Bool}

/-- **The two tunnels of a connection** whose handshakes return `c` and `v`. -/
structure Joined (c : ClientHandshake core) (v : ServerHandshake core) (pingSecs : Side → ℕ)
    (s : Conn core) (l : Linked core) : Prop where
  inv : Inv (.ok c) (.ok v) pingSecs s
  returns : ∀ q b, s.server = .handshake q → q.prog = .ret b → b = v
  client : s.client.Plays (.start .client (pingSecs .client) c.rx c.tx) (l.tun .client)
  server : s.server.Plays (.start .server (pingSecs .server) v.rx v.tx) (l.tun .server)
  out : ∀ x, l.out x = 0
  toClient : s.client.Gets s.toClient (l.bytes .server) (l.tun .server).written.flatten
  toServer : s.server.Gets s.toServer (l.bytes .client) (l.tun .client).written.flatten

/-- The condition on the steps: `Apart`, and the tasks' actions are in `ok`. -/
def Allowed (ok : Act → Bool) (pingSecs : Side → ℕ) (s : Conn core) (a : ConnAct) : Prop :=
  Apart pingSecs s a ∧ ∀ b, a = .client (.act b) ∨ a = .server (.act b) → ok b = true

/-- Before the client's tunnel is up there is nothing for the server's to read. -/
theorem Inv.toServer_nil {x : Except String (ClientHandshake core)}
    {y : Except String (ServerHandshake core)} {p : Peer UInt8 String (ClientHandshake core)}
    {t : Tunnel core} {toC toS : Bytes}
    (h : Inv x y pingSecs ⟨.handshake p, .tunnel t, toC, toS⟩) : toS = [] := by
  cases h
  rfl

/-- Before the server's tunnel is up there is nothing for the client's to read. -/
theorem Inv.toClient_nil {x : Except String (ClientHandshake core)}
    {y : Except String (ServerHandshake core)} {q : Peer UInt8 String (ServerHandshake core)}
    {t : Tunnel core} {toC toS : Bytes}
    (h : Inv x y pingSecs ⟨.tunnel t, .handshake q, toC, toS⟩) : toC = [] := by
  cases h
  rfl

/-- A client whose handshake succeeds does not close the connection in it. -/
theorem Inv.client_lives {y : Except String (ServerHandshake core)}
    {p : Peer UInt8 String (ClientHandshake core)} {t : Tunnel core} {toC toS : Bytes}
    (h : Inv (.ok c) y pingSecs ⟨.handshake p, .tunnel t, toC, toS⟩) : p.prog.failed = false := by
  cases h with
  | served hin =>
    cases hP : p.prog with
    | fail e =>
      have hx := hin.result_left (r := .error e) (by simp only [hP]; rfl)
      cases hx
    | _ => rfl

/-- A server whose peer's tunnel is up has not closed the connection. -/
theorem Inv.server_lives {x : Except String (ClientHandshake core)}
    {y : Except String (ServerHandshake core)} {q : Peer UInt8 String (ServerHandshake core)}
    {t : Tunnel core} {toC toS : Bytes}
    (h : Inv x y pingSecs ⟨.tunnel t, .handshake q, toC, toS⟩) : q.prog.failed = false := by
  cases h
  rfl

/-- The client's tunnel starts on what the server's has written. -/
theorem Inv.toClient_of_ret {x : Except String (ClientHandshake core)}
    {y : Except String (ServerHandshake core)} {p : Peer UInt8 String (ClientHandshake core)}
    {q : Party core (ServerHandshake core)} {toC toS : Bytes} {r : ClientHandshake core}
    (h : Inv x y pingSecs ⟨.handshake p, q, toC, toS⟩) (hr : p.prog = .ret r) :
    x = .ok r ∧ ((∃ q', q = .handshake q') ∧ toC = [] ∨
      ∃ t, q = .tunnel t ∧ toC = t.written.flatten) := by
  have hret : p.prog.returned = true := by rw [hr]; rfl
  cases h with
  | shaking hin =>
    have hx := hin.result_left (show _ = some (.ok r) by simp only [hr]; rfl)
    exact ⟨hx.symm, .inl ⟨⟨_, rfl⟩, (hin.returned_left hret).2.2.2.1⟩⟩
  | served hin =>
    have hx := hin.result_left (show _ = some (.ok r) by simp only [hr]; rfl)
    have hrest := (hin.returned_left hret).2.2.2.1
    simp only at hrest
    subst hrest
    exact ⟨hx.symm, .inr ⟨_, rfl, rfl⟩⟩

/-- The server's tunnel starts on what the client's has written. -/
theorem Inv.toServer_of_ret {x : Except String (ClientHandshake core)}
    {y : Except String (ServerHandshake core)} {p : Party core (ClientHandshake core)}
    {q : Peer UInt8 String (ServerHandshake core)} {toC toS : Bytes} {r : ServerHandshake core}
    (h : Inv x y pingSecs ⟨p, .handshake q, toC, toS⟩) (hr : q.prog = .ret r) :
    (∃ p', p = .handshake p') ∧ toS = [] ∨ ∃ t, p = .tunnel t ∧ toS = t.written.flatten := by
  have hret : q.prog.returned = true := by rw [hr]; rfl
  cases h with
  | shaking hin => exact .inl ⟨⟨_, rfl⟩, (hin.returned_right hret).2⟩
  | dialed => exact .inr ⟨_, rfl, rfl⟩

theorem joined_start {P : Prog UInt8 String (ClientHandshake core)}
    {Q : Prog UInt8 String (ServerHandshake core)} {n : ℕ}
    (h : Lockstep link n P Q (.ok c) (.ok v)) :
    Joined c v pingSecs (.start P Q)
      (.connect pingSecs (fun | .client => c.rx | .server => v.rx)
        (fun | .client => c.tx | .server => v.tx)) where
  inv := .shaking (.start h)
  returns q b hq hb := by
    cases hq
    have hy := (Duplex.InStep.start h).result_right (r := .ok b) (by
      show Q.result = some (.ok b)
      rw [show Q = .ret b from hb]
      rfl)
    exact Except.ok.inj hy
  client := rfl
  server := rfl
  out _ := rfl
  toClient := rfl
  toServer := rfl

/-- **A step of the client** is one of its tunnel, once that is up. -/
theorem Joined.client_step {a : PartyAct} (laws : core.Laws) (h : Joined c v pingSecs s l)
    (hC : Allowed ok pingSecs s (.client a)) (hs : Conn.step pingSecs s (.client a) = some s') :
    ∃ l', Reaches Linked.step (Linked.OkAct ok) l l' ∧ Joined c v pingSecs s' l' := by
  have hinv := inv_client laws h.inv hC.1 hs
  obtain ⟨⟨p', inp, out⟩, hp, rfl⟩ := Option.map_eq_some_iff.mp hs
  obtain ⟨p, q, toC, toS⟩ := s
  obtain ⟨hold, hreturns, hclient, hserver, hout, hdown, hup⟩ := h
  cases p with
  | handshake p =>
    rcases Party.step_handshake hp with ⟨m, p₁, rfl, -, rfl⟩ | ⟨r, rfl, hr, rfl, rfl, rfl⟩
    · refine ⟨l, .refl, hinv, hreturns, hclient, hserver, hout, hdown, ?_⟩
      cases q with
      | handshake q => exact hup
      | tunnel t =>
        have htoS : toS = l.bytes .client := hup
        show out = l.bytes .client
        rw [hinv.toServer_nil, ← htoS, hold.toServer_nil]
    · obtain ⟨hx, hrest⟩ := hold.toClient_of_ret hr
      cases hx
      have hwritten : l.bytes .server = (l.tun .server).written.flatten := hdown
      refine ⟨l, .refl, hinv, hreturns, hclient, hserver, hout, ?_, hup⟩
      show inp = l.bytes .server
      rw [hwritten]
      rcases hrest with ⟨⟨q', rfl⟩, rfl⟩ | ⟨t, rfl, rfl⟩
      · rw [show l.tun .server = _ from hserver]
        rfl
      · rw [show l.tun .server = t from hserver]
  | tunnel t =>
    obtain ⟨t', ht, rfl⟩ := Party.step_tunnel hp
    have htun : l.tun .client = t := hclient
    have htoC : toC = l.bytes .server := hdown
    subst htun htoC
    have hgone : q.gone = true → Net.closed (l.tun .server).ep = true := by
      intro hq
      cases q with
      | handshake q =>
        have hlive := hold.server_lives
        rw [show q.prog.failed = true from hq] at hlive
        cases hlive
      | tunnel w =>
        rw [show l.tun .server = w from hserver]
        exact hq
    obtain ⟨b, l', hok, hb, htun', hin', hout', ws, hws, hbytes, hwritten⟩ :=
      Linked.of_tunnel (x := .client) (hout _) hgone
        (fun b hab => hC.2 b (.inl (by rw [hab]))) ht
    have hself : l'.tun .client = t' := by
      rw [htun', Function.update_self]
    have hpeer : l'.tun .server = l.tun .server := by
      rw [htun', Function.update_of_ne (by decide)]
    refine ⟨l', .tail .refl hok hb, hinv, hreturns, hself, ?_, fun y => hout' y (hout y), hin'.symm,
      ?_⟩
    · rw [hpeer]
      exact hserver
    · cases q with
      | handshake q =>
        show l'.bytes .client = (l'.tun .client).written.flatten
        rw [hself, hwritten, hbytes, show l.bytes .client = _ from hup]
      | tunnel w =>
        show out = l'.bytes .client
        rw [hws, hbytes, show toS = _ from hup]

/-- **A step of the server.** -/
theorem Joined.server_step {a : PartyAct} (laws : core.Laws) (h : Joined c v pingSecs s l)
    (hC : Allowed ok pingSecs s (.server a)) (hs : Conn.step pingSecs s (.server a) = some s') :
    ∃ l', Reaches Linked.step (Linked.OkAct ok) l l' ∧ Joined c v pingSecs s' l' := by
  have hinv := inv_server laws h.inv hs
  obtain ⟨⟨q', inp, out⟩, hp, rfl⟩ := Option.map_eq_some_iff.mp hs
  obtain ⟨p, q, toC, toS⟩ := s
  obtain ⟨hold, hreturns, hclient, hserver, hout, hdown, hup⟩ := h
  cases q with
  | handshake q =>
    rcases Party.step_handshake hp with ⟨m, q₁, rfl, h₁, rfl⟩ | ⟨r, rfl, hr, rfl, rfl, rfl⟩
    · cases p with
      | handshake p =>
        refine ⟨l, .refl, hinv, fun q b hq hb => ?_, hclient, hserver, hout, hdown, hup⟩
        cases hq
        cases hinv with
        | shaking hin =>
          have hy := hin.result_right (r := .ok b) (by simp only [hb]; rfl)
          exact Except.ok.inj hy
      | tunnel t =>
        -- the server's handshake has returned before the client's
        cases hold
        cases Peer.Step.of_step h₁ <;> contradiction
    · have hrv := hreturns q r rfl hr
      subst hrv
      have hrest := hold.toServer_of_ret hr
      have hwritten : l.bytes .client = (l.tun .client).written.flatten := hup
      refine ⟨l, .refl, hinv, by simp, hclient, hserver, hout, hdown, ?_⟩
      show inp = l.bytes .client
      rw [hwritten]
      rcases hrest with ⟨⟨p', rfl⟩, rfl⟩ | ⟨t, rfl, rfl⟩
      · rw [show l.tun .client = _ from hclient]
        rfl
      · rw [show l.tun .client = t from hclient]
  | tunnel t =>
    obtain ⟨t', ht, rfl⟩ := Party.step_tunnel hp
    have htun : l.tun .server = t := hserver
    have htoS : toS = l.bytes .client := hup
    subst htun htoS
    have hgone : p.gone = true → Net.closed (l.tun .client).ep = true := by
      intro hg
      cases p with
      | handshake p =>
        have hlive := hold.client_lives
        rw [show p.prog.failed = true from hg] at hlive
        cases hlive
      | tunnel w =>
        rw [show l.tun .client = w from hclient]
        exact hg
    obtain ⟨b, l', hok, hb, htun', hin', hout', ws, hws, hbytes, hwritten⟩ :=
      Linked.of_tunnel (x := .server) (hout _) hgone
        (fun b hab => hC.2 b (.inr (by rw [hab]))) ht
    have hself : l'.tun .server = t' := by
      rw [htun', Function.update_self]
    have hpeer : l'.tun .client = l.tun .client := by
      rw [htun', Function.update_of_ne (by decide)]
    refine ⟨l', .tail .refl hok hb, hinv, by simp, ?_, hself, fun y => hout' y (hout y), ?_,
      hin'.symm⟩
    · rw [hpeer]
      exact hclient
    · cases p with
      | handshake p =>
        show l'.bytes .server = (l'.tun .server).written.flatten
        rw [hself, hwritten, hbytes, show l.bytes .server = _ from hdown]
      | tunnel w =>
        show out = l'.bytes .server
        rw [hws, hbytes, show toC = _ from hdown]

theorem Joined.step {a : ConnAct} (laws : core.Laws) (h : Joined c v pingSecs s l)
    (hC : Allowed ok pingSecs s a) (hs : Conn.step pingSecs s a = some s') :
    ∃ l', Reaches Linked.step (Linked.OkAct ok) l l' ∧ Joined c v pingSecs s' l' := by
  rcases a with a | a
  · exact h.client_step laws hC hs
  · exact h.server_step laws hC hs

/-- Without a successful handshake no tunnel is up. -/
theorem Inv.no_tunnel {e e' : String} {a : ConnAct} (hs : Conn.step pingSecs s a = some s')
    (h : Inv (.error e) (.error e') pingSecs s)
    (hshaking : (∃ p, s.client = .handshake p) ∧ ∃ q, s.server = .handshake q) :
    (∃ p, s'.client = .handshake p) ∧ ∃ q, s'.server = .handshake q := by
  obtain ⟨⟨p, hp⟩, q, hq⟩ := hshaking
  obtain ⟨_, _, toC, toS⟩ := s
  simp only at hp hq
  subst hp hq
  cases h with
  | shaking hin =>
    rcases a with a | a
    · obtain ⟨⟨p', inp, out⟩, hstep, rfl⟩ := Option.map_eq_some_iff.mp hs
      rcases Party.step_handshake hstep with ⟨m, p₁, -, -, rfl⟩ | ⟨r, -, hr, -, -, -⟩
      · exact ⟨⟨p₁, rfl⟩, q, rfl⟩
      · have hx := hin.result_left (r := .ok r) (by simp only [hr]; rfl)
        cases hx
    · obtain ⟨⟨q', inp, out⟩, hstep, rfl⟩ := Option.map_eq_some_iff.mp hs
      rcases Party.step_handshake hstep with ⟨m, q₁, -, -, rfl⟩ | ⟨r, -, hr, -, -, -⟩
      · exact ⟨⟨p, rfl⟩, q₁, rfl⟩
      · have hy := hin.result_right (r := .ok r) (by simp only [hr]; rfl)
        cases hy

/-- **Once both tunnels are up, they are the two tunnels**, with matched codecs. -/
theorem joined {P : Prog UInt8 String (ClientHandshake core)}
    {Q : Prog UInt8 String (ServerHandshake core)} {succeeds : Prop} {key : Key32}
    {t u : Tunnel core} (laws : core.Laws) (hsettles : Settles (Verdict core succeeds key) P Q)
    (hrun : Reaches (Conn.step pingSecs) (Allowed ok pingSecs) (.start P Q) s)
    (hc : s.client = .tunnel t) (hv : s.server = .tunnel u) :
    ∃ rx tx : Side → core.PacketCodec, (∀ x : Side, core.Synced (tx x) (rx x.peer)) ∧
      ∃ l, Reaches Linked.step (Linked.OkAct ok) (.connect pingSecs rx tx) l ∧
        l.tun .client = t ∧ l.tun .server = u ∧ l.bytes .server = s.toClient ∧
        l.bytes .client = s.toServer := by
  obtain ⟨n, x, y, hl, hverdict⟩ := hsettles
  have hinv : Inv x y pingSecs s :=
    hrun.invariant (.shaking (.start hl)) fun hi hC hs => inv_step laws hi hC.1 hs
  rcases x with e | c <;> rcases y with e' | v
  · have hno : Inv (.error e) (.error e') pingSecs s ∧
        (∃ p, s.client = .handshake p) ∧ ∃ q, s.server = .handshake q :=
      hrun.invariant (I := fun s => Inv (.error e) (.error e') pingSecs s ∧
          (∃ p, s.client = .handshake p) ∧ ∃ q, s.server = .handshake q)
        ⟨.shaking (.start hl), ⟨_, rfl⟩, _, rfl⟩
        fun hi hC hs => ⟨inv_step laws hi.1 hC.1 hs, Inv.no_tunnel hs hi.1 hi.2⟩
    obtain ⟨-, ⟨p, hp⟩, -⟩ := hno
    rw [hc] at hp
    cases hp
  · exact hverdict.elim
  · exact hverdict.elim
  · obtain ⟨-, hdown, hup, -⟩ := hverdict
    obtain ⟨l, hl, hjoined⟩ := hrun.simulate (joined_start hl) fun _ hR hC hs =>
      hR.step laws hC hs
    obtain ⟨-, -, hclient, hserver, -, htoC, htoS⟩ := hjoined
    rw [hc] at hclient htoC
    rw [hv] at hserver htoS
    refine ⟨_, _, ?_, l, hl, hclient, hserver, Eq.symm htoC, Eq.symm htoS⟩
    rintro (_ | _)
    · exact hup
    · exact hdown

/-- The endpoints of two tunnels, with nothing on the wires. -/
def endpoints (t u : Tunnel core) : Net :=
  ⟨fun | .client => t.ep | .server => u.ep, fun _ => []⟩

end Conn

/-- A connection just made between an honest client and an honest server. -/
def Conn.honest (version sni clientPassword serverPassword : String)
    (clientRng serverRng : ℕ → core.Seed) (deviceId : DeviceId) (pin : Option Key32)
    (staticKp : core.StaticKeypair) : Conn core :=
  .start (clientHandshakeInner core clientRng sni clientPassword deviceId pin)
    (serverHandshakeInner core version serverRng staticKp serverPassword)

/-! ### A run with a ping during the handshake -/

def writeWhole (client : Bool) : List ConnAct :=
  [.act .writerTop, .act .writerTake, .write].map fun a => if client then .client a else .server a

/-- After the handshake: the client answers the server's first ping and opens a stream; the server closes
its half, and the client sends one chunk. -/
def pingedStream : List ConnAct :=
  [untilPing,
    [.client (.shake (.read 28)), .client (.shake .take), .client .spawn,
      .client (.act .readerTop), .client (.act .dispatch), .client (.read 22),
      .client (.act .readerTop), .client (.act .dispatch), .client (.act .reply)],
    writeWhole true,
    [.server (.act .readerTop), .server (.act .dispatch), .server (.read 22),
      .server (.act .readerTop), .server (.act .dispatch), .server (.act .dispatch)],
    [.accept, .register 0, .open 0, .spawn 0].map fun a => .client (.act a),
    writeWhole true,
    [.server (.read 14), .server (.act .readerTop), .server (.act .dispatch),
      .server (.act (.dialOk 0)), .server (.act (.upEof 0)), .server (.act (.upClose 0))],
    writeWhole false,
    [.client (.act .dispatch), .client (.read 14), .client (.act .readerTop),
      .client (.act .dispatch), .client (.act (.upRead 0 [7])), .client (.act (.upSend 0)),
      .client (.act (.upEof 0)), .client (.act (.upClose 0))],
    writeWhole true, writeWhole true,
    [.server (.act .dispatch), .server (.read 29), .server (.act .readerTop),
      .server (.act .dispatch), .server (.act .delivered), .server (.act .dispatch),
      .server (.act (.downRecv 0)), .server (.act (.downWrote 0)),
      .server (.act (.downEnd 0))]].flatten

def smoothApart (pingSecs : Side → ℕ) (s : Conn core) (a : ConnAct) : Bool :=
  apart pingSecs s a && match a with
    | .client (.act b) | .server (.act b) => b.isSmooth
    | _ => true

theorem allowed_of_check {pingSecs : Side → ℕ} {s : Conn core} {a : ConnAct}
    (h : smoothApart pingSecs s a = true) : Conn.Allowed Act.isSmooth pingSecs s a := by
  unfold smoothApart at h
  rw [Bool.and_eq_true] at h
  refine ⟨apart_of_check h.1, ?_⟩
  rintro b (rfl | rfl)
  · exact h.2
  · exact h.2

/-- Whether one chunk has gone through a stream. -/
def streamDone (s : Conn plain) : Bool :=
  match s.client, s.server with
  | .tunnel t, .tunnel u =>
    t.ep.n = 1 ∧ t.ep.dead = false ∧ u.ep.dead = false ∧
      (u.ep.inst 0).phase = .pump .done .done ∧ (u.ep.inst 0).received = [[7]]
  | _, _ => false

/-- The connection of `pair`. -/
theorem pingedStream_run :
    ∃ s, Reaches (Conn.step fun _ => 30) (Conn.Allowed Act.isSmooth fun _ => 30)
      (.honest "0.1" "a.example" "secret" "secret" (fun _ => seed 1) (fun _ => seed 2) device none
        (seed 3) : Conn plain) s ∧ streamDone s = true :=
  reaches_of_exec (smoothApart fun _ => 30) pingedStream (fun _ _ => allowed_of_check)
    (by decide +kernel)

/-! ### The refinement -/

section Honest

variable (version sni clientPassword serverPassword : String) (clientRng serverRng : ℕ → core.Seed)
  (deviceId : DeviceId) (pin : Option Key32) (staticKp : core.StaticKeypair) (pingSecs : Side → ℕ)
  (s : Conn core) (t u : Tunnel core)

/-- **From the handshake to the pair.** In every run of a connection between an honest client and an
honest server in which no read of the client's handshake takes bytes of the server's tunnel: once both
tunnels are up, with whatever was read, written and left on its way before, they simulate a state that the
pair of endpoints reaches on intact wires. -/
theorem connection_refines (laws : core.Laws) (hsni : core.acceptsSni sni)
    (hauth : ∀ proof, core.EncryptsFirst (authMessage proof deviceId clientPassword))
    (hok : core.EncryptsSecond (okResponse version))
    (hrun : Reaches (Conn.step pingSecs) (Conn.Apart pingSecs)
      (.honest version sni clientPassword serverPassword clientRng serverRng deviceId pin staticKp)
      s)
    (hc : s.client = .tunnel t) (hv : s.server = .tunnel u) :
    ∃ (l : Linked core) (n : Net), l.tun .client = t ∧ l.tun .server = u ∧
      l.bytes .server = s.toClient ∧ l.bytes .client = s.toServer ∧ l.Simulates n ∧
      Reaches (Net.step fun _ _ => true) Net.IntactStep (Net.connect pingSecs) n := by
  have hall : Reaches (Conn.step pingSecs) (Conn.Allowed (fun _ => true) pingSecs) _ s :=
    hrun.mono fun _ _ hC => ⟨hC, fun _ _ => rfl⟩
  obtain ⟨rx, tx, hsync, l, hl, htc, htv, hbc, hbv⟩ :=
    Conn.joined laws (settles laws hsni hauth hok) hall hc hv
  obtain ⟨n, hn, hsim⟩ := Linked.simulated laws hsync rfl rfl hl
  exact ⟨l, n, htc, htv, hbc, hbv, hsim, hn.mono fun _ _ h => h.1⟩

theorem connection_refines_pinged :
    ∃ (s : Conn plain) (l : Linked plain) (n : Net), streamDone s = true ∧
      l.bytes .server = s.toClient ∧ l.bytes .client = s.toServer ∧ l.Simulates n ∧
      Reaches (Net.step fun _ _ => true) Net.IntactStep (Net.connect fun _ => 30) n := by
  obtain ⟨s, hs, hdone⟩ := pingedStream_run
  have hup : (∃ t, s.client = .tunnel t) ∧ ∃ u, s.server = .tunnel u := by
    unfold streamDone at hdone
    split at hdone
    · next t u hc hv => exact ⟨⟨t, hc⟩, u, hv⟩
    · cases hdone
  obtain ⟨⟨t, hc⟩, u, hv⟩ := hup
  obtain ⟨l, n, -, -, hdown, hbytes, hsim, hn⟩ := @connection_refines plain "0.1" "a.example"
    "secret" "secret" (fun _ => seed 1) (fun _ => seed 2) device none (seed 3) (fun _ => 30) s t u plain_laws
    plain_acceptsSni plain_encrypts_auth plain_encrypts_ok (hs.mono fun _ _ hC => hC.1) hc hv
  exact ⟨s, l, n, hdone, hdown, hbytes, hsim, hn⟩

/-- **Delivery from the first byte on**, with fewer than `2^32 - 1` ids allocated: in such a run what each
pump receives is in the order in which the peer's pump of the same stream sent it; and all of it, if the
tunnels are alive, no consumer stalls or fails and every dial succeeds. -/
theorem connection_delivers (laws : core.Laws) (hsni : core.acceptsSni sni)
    (hauth : ∀ proof, core.EncryptsFirst (authMessage proof deviceId clientPassword))
    (hok : core.EncryptsSecond (okResponse version))
    (hc : s.client = .tunnel t) (hv : s.server = .tunnel u) (hids : t.ep.n < 2 ^ 32 - 1) :
    (Reaches (Conn.step pingSecs) (Conn.Apart pingSecs)
        (.honest version sni clientPassword serverPassword clientRng serverRng deviceId pin
          staticKp) s →
      Net.Ordered (Conn.endpoints t u)) ∧
    (Reaches (Conn.step pingSecs) (Conn.Allowed Act.isSmooth pingSecs)
        (.honest version sni clientPassword serverPassword clientRng serverRng deviceId pin
          staticKp) s →
      t.ep.dead = false → u.ep.dead = false → Net.Complete (Conn.endpoints t u)) := by
  have hends : ∀ l : Linked core, l.tun .client = t → l.tun .server = u →
      l.endpoints = Conn.endpoints t u := by
    rintro l rfl rfl
    unfold Linked.endpoints Conn.endpoints
    congr 1
    funext x
    cases x <;> rfl
  refine ⟨fun hrun => ?_, fun hrun hlive hlive' => ?_⟩
  · have hall : Reaches (Conn.step pingSecs) (Conn.Allowed (fun _ => true) pingSecs) _ s :=
      hrun.mono fun _ _ hC => ⟨hC, fun _ _ => rfl⟩
    obtain ⟨rx, tx, hsync, l, hl, htc, htv, -, -⟩ :=
      Conn.joined laws (settles laws hsni hauth hok) hall hc hv
    rw [← hends l htc htv]
    exact Linked.ordered_of_reaches laws hsync (by rw [htc]; exact hids) rfl rfl hl
  · obtain ⟨rx, tx, hsync, l, hl, htc, htv, -, -⟩ :=
      Conn.joined laws (settles laws hsni hauth hok) hrun hc hv
    rw [← hends l htc htv]
    refine Linked.complete_of_reaches laws hsync (by rw [htc]; exact hids) hl ?_
    rintro (_ | _)
    · rw [htc]
      exact hlive
    · rw [htv]
      exact hlive'

theorem connection_delivers_pinged :
    ∃ t u : Tunnel plain, Net.Ordered (Conn.endpoints t u) ∧ Net.Complete (Conn.endpoints t u) ∧
      (u.ep.inst 0).received = [[7]] := by
  obtain ⟨s, hs, hdone⟩ := pingedStream_run
  unfold streamDone at hdone
  split at hdone
  · next t u hc hv =>
    obtain ⟨hn, hlive, hlive', -, hrecv⟩ := of_decide_eq_true hdone
    have hids : t.ep.n < 2 ^ 32 - 1 := by omega
    obtain ⟨hordered, hcomplete⟩ := @connection_delivers plain "0.1" "a.example" "secret" "secret"
      (fun _ => seed 1) (fun _ => seed 2) device none (seed 3) (fun _ => 30) s t u plain_laws
      plain_acceptsSni plain_encrypts_auth plain_encrypts_ok hc hv hids
    exact ⟨t, u, hordered (hs.mono fun _ _ hC => hC.1), hcomplete hs hlive hlive', hrecv⟩
  · cases hdone

end Honest

end QeliSsPlugin.Handshake
