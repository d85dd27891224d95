import QeliSsPlugin.Handshake.Agreement
import QeliSsPlugin.Net.Pair

/-! # From the handshake to the tunnel

`Conn` is one connection from its first byte on: each side runs its handshake and, once that has
returned, the tunnel on the same byte streams. The tunnel (`Tunnel`) is an `Endpoint` with its
codecs and the `RecordBuf` of its `reader_loop`, which starts empty: what the handshake's
`RecordReader` has read and not consumed is dropped.

`Lossless` says that the tunnels get each other's records: the bytes a `reader_loop` sees are the
bytes the peer's `writer_loop` wrote, from the first on, and the records taken are the records
written. It can fail: the client may read the server's first PING together with the response that
ends its handshake (`handover_loses`). It holds in every run in which the server does not ping, or
no read of the client's handshake reaches past that response (`handover_lossless`). -/

namespace QeliSsPlugin.Handshake

open Mux Carrier Lib Lib.Runs Lib.Session

/-- A tunnel on its connection. -/
structure Tunnel (core : Core) where
  ep : Endpoint
  /-- Decrypts the records of the peer. -/
  rx : core.PacketCodec
  /-- Encrypts our records. -/
  tx : core.PacketCodec
  /-- The buffer of the reader loop. -/
  records : RecordBuf
  /-- The packet the writer loop is writing. -/
  packet : Bytes
  /-- Every byte the reader loop has read. -/
  seen : Bytes
  /-- Every record the reader loop has taken. -/
  taken : List Bytes
  /-- Every record the writer loop has written. -/
  written : List Bytes

/-- One side of a connection. -/
inductive Party (core : Core) (α : Type)
  | handshake (p : Peer UInt8 String α)
  | tunnel (t : Tunnel core)

/-- The steps of a side: a step of the handshake, the start of the tunnel, a step of one of the
tunnel's tasks, and the tunnel's socket. -/
inductive PartyAct
  | shake (m : Move)
  | spawn
  | act (a : Act)
  | write
  | read (n : ℕ)
  | eof
  deriving DecidableEq

variable {core : Core}

namespace Tunnel

/-- The tunnel as `spawn_tunnel` leaves it. -/
def start (side : Side) (pingSecs : ℕ) (rx tx : core.PacketCodec) : Tunnel core :=
  ⟨.spawnTunnel side pingSecs, rx, tx, .new, [], [], [], []⟩

/-- A step of a task. The reader loop takes a record from its buffer and decrypts it when it
dispatches it, the writer loop encrypts a frame when it takes it. -/
def act (t : Tunnel core) : Act → Option (Tunnel core)
  | .dispatch =>
    match t.records.takeRecord with
    | (none, records) => (t.ep.step .dispatch).map fun ep => { t with ep, records }
    | (some r, records) =>
      let (o, rx) := outcome core.decryptPacket t.rx r
      ({ t.ep with records := [o] }.step .dispatch).map fun ep =>
        { t with ep, rx, records, taken := t.taken ++ [r] }
  | .writerTake =>
    match t.ep.frames with
    | f :: _ =>
      match core.encryptPacket t.tx f.encode with
      | (.ok packet, tx) => (t.ep.step .writerTake).map fun ep => { t with ep, tx, packet }
      | (.error _, tx) => (t.ep.step .encryptErr).map fun ep => { t with ep, tx }
    | [] => none
  | .encryptErr | .readerRead _ | .readerEof | .wrote => none
  | a => (t.ep.step a).map fun ep => { t with ep }

/-- **A step of a tunnel**, on the stream it reads and the stream it writes. -/
def step (t : Tunnel core) (inp out : Bytes) (gone : Bool) :
    PartyAct → Option (Tunnel core × Bytes × Bytes)
  | .act a => (t.act a).map fun t => (t, inp, out)
  | .write =>
    (t.ep.step .wrote).map fun ep =>
      ({ t with ep, written := t.written ++ [t.packet] }, inp, out ++ t.packet)
  | .read n =>
    if 0 < n ∧ n ≤ readBuf ∧ n ≤ inp.length then
      (t.ep.step (.readerRead [])).map fun ep =>
        ({ t with ep, records := t.records.push (inp.take n), seen := t.seen ++ inp.take n },
          inp.drop n, out)
    else none
  | .eof =>
    if gone ∧ inp = [] then
      (t.ep.step .readerEof).map fun ep => ({ t with ep }, inp, out)
    else none
  | .shake _ | .spawn => none

end Tunnel

/-- **A step of a side**; `codecs` are the `rx` and `tx` of a successful handshake. -/
def Party.step {α : Type} (side : Side) (pingSecs : ℕ)
    (codecs : α → core.PacketCodec × core.PacketCodec) (p : Party core α) (inp out : Bytes)
    (gone : Bool) (a : PartyAct) : Option (Party core α × Bytes × Bytes) :=
  match p, a with
  | .handshake p, .shake m =>
    (p.step link inp out gone m).map fun (p, inp, out) => (.handshake p, inp, out)
  | .handshake p, .spawn =>
    match p.prog with
    | .ret r => some (.tunnel (.start side pingSecs (codecs r).1 (codecs r).2), inp, out)
    | _ => none
  | .handshake _, _ => none
  | .tunnel t, a => (t.step inp out gone a).map fun (t, inp, out) => (.tunnel t, inp, out)

/-- Whether a side has closed the connection. -/
def Party.gone {α : Type} : Party core α → Bool
  | .handshake p => p.prog.failed
  | .tunnel t => Net.closed t.ep

/-- One connection. -/
structure Conn (core : Core) where
  client : Party core (ClientHandshake core)
  server : Party core (ServerHandshake core)
  toClient : Bytes
  toServer : Bytes

/-- A step of one of the sides. -/
inductive ConnAct
  | client (a : PartyAct)
  | server (a : PartyAct)
  deriving DecidableEq

namespace Conn

/-- A connection just made. -/
def start (P : Prog UInt8 String (ClientHandshake core))
    (Q : Prog UInt8 String (ServerHandshake core)) : Conn core :=
  ⟨.handshake ⟨P, []⟩, .handshake ⟨Q, []⟩, [], []⟩

/-- **One step of a connection.** -/
def step (pingSecs : Side → ℕ) (s : Conn core) : ConnAct → Option (Conn core)
  | .client a =>
    (s.client.step .client (pingSecs .client) (fun r => (r.rx, r.tx)) s.toClient s.toServer
      s.server.gone a).map fun (p, inp, out) => ⟨p, s.server, inp, out⟩
  | .server a =>
    (s.server.step .server (pingSecs .server) (fun r => (r.rx, r.tx)) s.toServer s.toClient
      s.client.gone a).map fun (p, inp, out) => ⟨s.client, p, out, inp⟩

end Conn

/-! ### What a tunnel does to the streams -/

namespace Tunnel

variable {t t' : Tunnel core} {inp out inp' out' : Bytes} {gone : Bool} {a : PartyAct}

/-- The books of a tunnel: what was read was taken or is buffered, and only whole records are
taken and written. -/
structure Inv (t : Tunnel core) : Prop where
  wf : t.records.WF
  seen : t.seen = t.taken.flatten ++ t.records.unread
  taken : ∀ r ∈ t.taken, tls.IsRecord r
  written : ∀ r ∈ t.written, tls.IsRecord r
  packet : ∀ f, t.ep.writer = .writing f → tls.IsRecord t.packet

theorem inv_start (side : Side) (pingSecs : ℕ) (rx tx : core.PacketCodec) :
    (start side pingSecs rx tx).Inv where
  wf := RecordBuf.wf_new
  seen := rfl
  taken := by simp [start]
  written := by simp [start]
  packet := by simp [start, Endpoint.spawnTunnel]

/-- Only `writerTake` makes the writer write a packet. -/
theorem writer_of_step {e e' : Endpoint} {a : Act} (h : e.step a = some e')
    (ha : a ≠ .writerTake) {f : Frame} (hw : e'.writer = .writing f) : e.writer = .writing f := by
  cases Endpoint.Step.of_step h with
  | writerTake => exact absurd rfl ha
  | writerTop | writerExit | encryptErr | wrote => cases hw
  | _ => exact hw

/-- The steps of the tasks, with their effects. -/
inductive Acts (t : Tunnel core) : Act → Tunnel core → Prop
  | task {a e} : t.ep.step a = some e → a ≠ .writerTake → (∀ rs, a ≠ .readerRead rs) →
      Acts t a { t with ep := e }
  | idle {records e} : t.records.takeRecord = (none, records) → t.ep.step .dispatch = some e →
      Acts t .dispatch { t with ep := e, records := records }
  | take {r records e} : t.records.takeRecord = (some r, records) →
      { t.ep with records := [(outcome core.decryptPacket t.rx r).1] }.step .dispatch = some e →
      Acts t .dispatch { t with
        ep := e, rx := (outcome core.decryptPacket t.rx r).2, records := records,
        taken := t.taken ++ [r] }
  | encrypt {m packet tx e} : core.encryptPacket t.tx m = (.ok packet, tx) →
      t.ep.step .writerTake = some e →
      Acts t .writerTake { t with ep := e, tx := tx, packet := packet }
  | encryptErr {tx e} : t.ep.step .encryptErr = some e →
      Acts t .writerTake { t with ep := e, tx := tx }

theorem Acts.of_act {a : Act} (h : t.act a = some t') : t.Acts a t' := by
  cases a with
  | dispatch =>
    simp only [act] at h
    split at h
    · next htake =>
      obtain ⟨e, he, rfl⟩ := Option.map_eq_some_iff.mp h
      exact .idle htake he
    · next htake =>
      obtain ⟨e, he, rfl⟩ := Option.map_eq_some_iff.mp h
      exact .take htake he
  | writerTake =>
    simp only [act] at h
    split at h
    · split at h
      · next henc =>
        obtain ⟨e, he, rfl⟩ := Option.map_eq_some_iff.mp h
        exact .encrypt henc he
      · obtain ⟨e, he, rfl⟩ := Option.map_eq_some_iff.mp h
        exact .encryptErr he
    · cases h
  | encryptErr | readerRead | readerEof | wrote => cases h
  | _ =>
    obtain ⟨e, he, rfl⟩ := Option.map_eq_some_iff.mp h
    exact .task he (by simp) (by simp)

/-- A step of a task keeps the books, and touches no stream. -/
theorem inv_act (laws : core.Laws) (hi : t.Inv) {a : Act} (h : t.Acts a t') :
    t'.Inv ∧ t'.seen = t.seen ∧ t'.written = t.written := by
  cases h with
  | task he ha _ =>
    exact ⟨⟨hi.wf, hi.seen, hi.taken, hi.written,
      fun f hw => hi.packet f (writer_of_step he ha hw)⟩, rfl, rfl⟩
  | @idle records e htake he =>
    have hnone : tls.take? t.records.unread = none := by
      by_contra hne
      obtain ⟨⟨r, rest⟩, hsome⟩ := Option.ne_none_iff_exists'.mp hne
      obtain ⟨rb, htake', -⟩ := RecordBuf.takeRecord_some hsome
      rw [htake] at htake'; cases htake'
    rw [RecordBuf.takeRecord_none hnone] at htake
    cases htake
    refine ⟨⟨RecordBuf.wf_compact hi.wf, ?_, hi.taken, hi.written,
      fun f hw => hi.packet f (writer_of_step he (by simp) hw)⟩, rfl, rfl⟩
    rw [RecordBuf.unread_compact]; exact hi.seen
  | @take r records e htake he =>
    have hw' : ∀ f, e.writer = .writing f → t.ep.writer = .writing f :=
      fun f hw => writer_of_step (e := { t.ep with records := _ }) he (by simp) hw
    cases hnone : tls.take? t.records.unread with
    | none => rw [RecordBuf.takeRecord_none hnone] at htake; cases htake
    | some p =>
      obtain ⟨r', rest⟩ := p
      obtain ⟨rb, htake', hunread, hwf⟩ := RecordBuf.takeRecord_some hnone
      rw [htake] at htake'
      cases htake'
      obtain ⟨hr, hcut⟩ := tls.take?_eq_some_iff.mp hnone
      refine ⟨⟨hwf hi.wf, ?_, ?_, hi.written, fun f hw => hi.packet f (hw' f hw)⟩, rfl, rfl⟩
      · simp only [List.flatten_append, List.flatten_cons, List.flatten_nil, List.append_nil]
        rw [hunread, List.append_assoc, ← hcut]
        exact hi.seen
      · intro q hq
        rcases List.mem_append.mp hq with hq | hq
        · exact hi.taken q hq
        · rw [List.mem_singleton.mp hq]; exact hr
  | encrypt henc he =>
    exact ⟨⟨hi.wf, hi.seen, hi.taken, hi.written, fun f hw => laws.packet_record henc⟩, rfl, rfl⟩
  | encryptErr he =>
    exact ⟨⟨hi.wf, hi.seen, hi.taken, hi.written,
      fun f hw => hi.packet f (writer_of_step he (by simp) hw)⟩, rfl, rfl⟩

/-- **A step of a tunnel on its streams**: it reads on where it was, and writes whole records. -/
theorem inv_step (laws : core.Laws) (hi : t.Inv)
    (h : t.step inp out gone a = some (t', inp', out')) :
    t'.Inv ∧ t'.seen ++ inp' = t.seen ++ inp ∧
      ∃ ws, t'.written = t.written ++ ws ∧ out' = out ++ ws.flatten := by
  cases a with
  | act a =>
    obtain ⟨t₁, h₁, heq⟩ := Option.map_eq_some_iff.mp h
    cases heq
    obtain ⟨hi', hseen, hwritten⟩ := inv_act laws hi (.of_act h₁)
    exact ⟨hi', by rw [hseen], [], by simp [hwritten], by simp⟩
  | write =>
    obtain ⟨e, he, heq⟩ := Option.map_eq_some_iff.mp h
    cases heq
    obtain ⟨f, hf⟩ : ∃ f, t.ep.writer = .writing f := by
      simp only [Endpoint.step] at he
      split at he
      · next f hf => exact ⟨f, hf⟩
      · cases he
    refine ⟨⟨hi.wf, hi.seen, hi.taken, ?_, ?_⟩, rfl, [t.packet], rfl, by simp⟩
    · intro q hq
      rcases List.mem_append.mp hq with hq | hq
      · exact hi.written q hq
      · rw [List.mem_singleton.mp hq]; exact hi.packet f hf
    · exact fun f hw => hi.packet f (writer_of_step he (by simp) hw)
  | read n =>
    simp only [step] at h
    split at h
    · obtain ⟨e, he, heq⟩ := Option.map_eq_some_iff.mp h
      cases heq
      refine ⟨⟨RecordBuf.wf_push hi.wf _, ?_, hi.taken, hi.written,
        fun f hw => hi.packet f (writer_of_step he (by simp) hw)⟩, by simp, [], by simp, by simp⟩
      rw [RecordBuf.unread_push hi.wf, ← List.append_assoc, ← hi.seen]
    · cases h
  | eof =>
    simp only [step] at h
    split at h
    · obtain ⟨e, he, heq⟩ := Option.map_eq_some_iff.mp h
      cases heq
      exact ⟨⟨hi.wf, hi.seen, hi.taken, hi.written,
        fun f hw => hi.packet f (writer_of_step he (by simp) hw)⟩, rfl, [], by simp, by simp⟩
    · cases h
  | shake | spawn => cases h

/-- A server's endpoint that does not ping and has handled nothing: it has no task that could
enqueue a frame, and nothing to write. -/
structure Quiet (e : Endpoint) : Prop where
  side : e.side = .server
  keepalive : e.keepalive = .off
  phase : ∀ k, (e.inst k).phase = .dropped
  frames : e.frames = []
  records : e.records = []
  writer : ∀ f, e.writer ≠ .writing f
  reader : e.reader = .top ∨ e.reader = .drain ∨ e.reader = .select ∨ e.reader = .left

theorem quiet_spawnTunnel : Quiet (.spawnTunnel .server 0) where
  side := rfl
  keepalive := rfl
  phase _ := rfl
  frames := rfl
  records := rfl
  writer := by simp [Endpoint.spawnTunnel]
  reader := .inl rfl

/-- A quiet endpoint stays quiet until it reads. -/
theorem quiet_step {e e' : Endpoint} {a : Act} (hq : Quiet e) (h : e.step a = some e')
    (ha : ∀ rs, a ≠ .readerRead rs) : Quiet e' := by
  cases Endpoint.Step.of_step h with
  | accept hs => rw [hq.side] at hs; cases hs
  -- no instance has a task
  | register hp | move hp | unregister hp | post hp | upRead hp | upSend hp | downRecv hp =>
    rw [hq.phase] at hp; cases hp
  | goto hg =>
    have hr := hq.reader
    generalize e.reader = r at hg hr
    cases hg with
    | top => exact { hq with reader := .inr (.inl rfl) }
    | drained => exact { hq with reader := .inr (.inr (.inl rfl)) }
    | _ => simp at hr
  | readerExit => exact { hq with reader := by simp }
  | readerRead => exact absurd rfl (ha _)
  -- no record is buffered
  | handleKill _ hrec | handleBad _ hrec | handleOpen _ hrec | handleData _ hrec
  | handleUnknown _ hrec | handleClose _ hrec | handlePing _ hrec | handlePong _ hrec =>
    rw [hq.records] at hrec; cases hrec
  | delivered hr | dropStalled hr => simpa [hr] using hq.reader
  | reply hr =>
    rcases hr with ⟨-, hr⟩ | ⟨-, hr⟩ <;> simpa [hr] using hq.reader
  | writerTop | writerExit | wrote => exact { hq with writer := by simp }
  | writerTake _ hf | encryptErr _ hf => rw [hq.frames] at hf; cases hf
  | writerReturn => exact { hq with frames := rfl }
  | beat hk | ping hk | graceLost hk => rw [hq.keepalive] at hk; cases hk
  | exitMove | logLine | setCause | setKilled | setDead | closeAll => exact { hq with }

/-- With nothing to read, a quiet tunnel writes nothing. -/
theorem quiet_tunnel (hq : Quiet t.ep) (hu : t.records.unread = [])
    (h : t.step [] out gone a = some (t', inp', out')) :
    Quiet t'.ep ∧ t'.written = t.written := by
  cases a with
  | act a =>
    obtain ⟨t₁, h₁, heq⟩ := Option.map_eq_some_iff.mp h
    cases heq
    cases Acts.of_act h₁ with
    | task he _ ha => exact ⟨quiet_step hq he ha, rfl⟩
    | idle _ he => exact ⟨quiet_step hq he (by simp), rfl⟩
    | take htake =>
      have hnone : tls.take? t.records.unread = none := by rw [hu]; exact tls.take?_nil
      rw [RecordBuf.takeRecord_none hnone] at htake
      cases htake
    | encrypt _ he | encryptErr he => exact ⟨quiet_step hq he (by simp), rfl⟩
  | write =>
    obtain ⟨e, he, -⟩ := Option.map_eq_some_iff.mp h
    simp only [Endpoint.step] at he
    split at he
    · next f hf => exact absurd hf (hq.writer f)
    · cases he
  | read n =>
    simp only [step, List.length_nil] at h
    split at h
    · omega
    · cases h
  | eof =>
    simp only [step] at h
    split at h
    · obtain ⟨e, he, heq⟩ := Option.map_eq_some_iff.mp h
      cases heq
      exact ⟨quiet_step hq he (by simp), rfl⟩
    · cases h
  | shake | spawn => cases h

end Tunnel

/-! ### The hand-over -/

section PartySteps

variable {α : Type} {side : Side} {secs : ℕ} {codecs : α → core.PacketCodec × core.PacketCodec}
  {p : Peer UInt8 String α} {t : Tunnel core} {q : Party core α} {inp out inp' out' : Bytes}
  {gone : Bool} {a : PartyAct}

theorem Party.step_handshake
    (h : (Party.handshake p).step side secs codecs inp out gone a = some (q, inp', out')) :
    (∃ m p', a = .shake m ∧ p.step link inp out gone m = some (p', inp', out') ∧
      q = .handshake p') ∨
    ∃ r, a = .spawn ∧ p.prog = .ret r ∧
      q = .tunnel (.start side secs (codecs r).1 (codecs r).2) ∧ inp' = inp ∧ out' = out := by
  cases a with
  | shake m =>
    obtain ⟨⟨p', i, o⟩, hp, heq⟩ := Option.map_eq_some_iff.mp h
    simp only [Prod.mk.injEq] at heq
    obtain ⟨rfl, rfl, rfl⟩ := heq
    exact .inl ⟨m, p', rfl, hp, rfl⟩
  | spawn =>
    simp only [Party.step] at h
    split at h
    · next r hr =>
      simp only [Option.some.injEq, Prod.mk.injEq] at h
      obtain ⟨rfl, rfl, rfl⟩ := h
      exact .inr ⟨r, rfl, hr, rfl, rfl, rfl⟩
    · cases h
  | _ => cases h

theorem Party.step_tunnel
    (h : (Party.tunnel t).step side secs codecs inp out gone a = some (q, inp', out')) :
    ∃ t', t.step inp out gone a = some (t', inp', out') ∧ q = .tunnel t' := by
  obtain ⟨⟨t', i, o⟩, ht, heq⟩ := Option.map_eq_some_iff.mp h
  simp only [Prod.mk.injEq] at heq
  obtain ⟨rfl, rfl, rfl⟩ := heq
  exact ⟨t', ht, rfl⟩

end PartySteps

/-- A reader loop follows the peer's writer loop: it has read what that wrote, from the first byte
on and up to what is still in flight, and has taken the first of the records written. -/
def Follows (t peer : Tunnel core) (inFlight : Bytes) : Prop :=
  t.seen ++ inFlight = peer.written.flatten ∧ t.seen = t.taken.flatten ++ t.records.unread ∧
    t.taken <+: peer.written

theorem follows_of_seen {t peer : Tunnel core} {inFlight : Bytes} (hi : t.Inv) (hp : peer.Inv)
    (h : t.seen ++ inFlight = peer.written.flatten) : Follows t peer inFlight := by
  refine ⟨h, hi.seen, ?_⟩
  have hsplit := tls.split_records hp.written []
  rw [List.append_nil, ← h, hi.seen, List.append_assoc, tls.split_records hi.taken] at hsplit
  exact ⟨(tls.split (t.records.unread ++ inFlight)).1, by simpa using congrArg Prod.fst hsplit⟩

namespace Conn

variable {x : Except String (ClientHandshake core)} {y : Except String (ServerHandshake core)}
  {pingSecs : Side → ℕ} {s s' : Conn core}

/-- **Nothing is lost between the handshakes and the tunnels.** -/
def Lossless (s : Conn core) : Prop :=
  ∀ c v, s.client = .tunnel c → s.server = .tunnel v →
    Follows c v s.toClient ∧ Follows v c s.toServer

/-- **The server does not ping, or a read of the client's handshake does not reach the bytes that
the server's tunnel has written.** -/
def Apart (pingSecs : Side → ℕ) (s : Conn core) (a : ConnAct) : Prop :=
  ∀ n v, a = .client (.shake (.read n)) → s.server = .tunnel v →
    pingSecs .server = 0 ∨ n + v.written.flatten.length ≤ s.toClient.length

/-- Where a connection is between the handshakes and the tunnels. -/
inductive Inv (x : Except String (ClientHandshake core)) (y : Except String (ServerHandshake core))
    (pingSecs : Side → ℕ) : Conn core → Prop
  | shaking {n p q toC toS} : Duplex.InStep link x y n ⟨p, q, toC, toS⟩ →
      Inv x y pingSecs ⟨.handshake p, .handshake q, toC, toS⟩
  /-- Only the server's tunnel is up: its records are behind the last of the handshake's. -/
  | served {n p b rest v} : Duplex.InStep link x y n ⟨p, ⟨.ret b, []⟩, rest, []⟩ → v.Inv →
      v.seen = [] → (pingSecs .server = 0 → Tunnel.Quiet v.ep ∧ v.written = []) →
      Inv x y pingSecs ⟨.handshake p, .tunnel v, rest ++ v.written.flatten, []⟩
  /-- Only the client's tunnel is up; the server's handshake has returned. -/
  | dialed {b c} : c.Inv → c.seen = [] →
      Inv x y pingSecs ⟨.tunnel c, .handshake ⟨.ret b, []⟩, [], c.written.flatten⟩
  | up {c v toC toS} : c.Inv → v.Inv → c.seen ++ toC = v.written.flatten →
      v.seen ++ toS = c.written.flatten → Inv x y pingSecs ⟨.tunnel c, .tunnel v, toC, toS⟩

theorem Inv.lossless (h : Inv x y pingSecs s) : s.Lossless := by
  rintro c v hc hv
  cases h with
  | up hic hiv hdown hup =>
    cases hc; cases hv
    exact ⟨follows_of_seen hic hiv hdown, follows_of_seen hiv hic hup⟩
  | shaking | served => cases hc
  | dialed => cases hv

/-- A read of the client's handshake that meets the condition stays in the handshake's bytes. -/
theorem read_le {v : Tunnel core} {rest : Bytes} {n : ℕ} (hq : pingSecs .server = 0 → v.written = [])
    (hC : pingSecs .server = 0 ∨
      n + v.written.flatten.length ≤ (rest ++ v.written.flatten).length)
    (hn : n ≤ (rest ++ v.written.flatten).length) : n ≤ rest.length := by
  rw [List.length_append] at hC hn
  rcases hC with hping | hle
  · rw [hq hping] at hn
    simpa using hn
  · omega

/-- A step of the client's handshake while the server's tunnel is up. -/
theorem shake_served {n : ℕ} {p p' : Peer UInt8 String (ClientHandshake core)}
    {b : ServerHandshake core} {v : Tunnel core} {rest inp out : Bytes} {gone : Bool} {m : Move}
    (hin : Duplex.InStep link x y n ⟨p, ⟨.ret b, []⟩, rest, []⟩)
    (hread : ∀ k, m = .read k → k ≤ (rest ++ v.written.flatten).length → k ≤ rest.length)
    (h : p.step link (rest ++ v.written.flatten) [] gone m = some (p', inp, out)) :
    ∃ n' rest', Duplex.InStep link x y n' ⟨p', ⟨.ret b, []⟩, rest', []⟩ ∧
      inp = rest' ++ v.written.flatten ∧ out = [] := by
  obtain ⟨P, buf⟩ := p
  cases Peer.Step.of_step h with
  | write hP | broken hP => cases hP; cases hin.write_of_returned
  | take hP ht =>
    cases hP
    obtain ⟨n', -, hin'⟩ := hin.take_left ht
    exact ⟨n', rest, hin', rfl, rfl⟩
  | @read _ k hP ht h0 _ hle =>
    have hk := hread k rfl hle
    obtain ⟨n', -, hin'⟩ := hin.read_left h0 hk
    refine ⟨n', rest.drop k, ?_, List.drop_append_of_le_length hk, rfl⟩
    rwa [List.take_append_of_le_length hk]
  | eof hP ht _ hnil =>
    cases hP
    exact absurd (List.append_eq_nil_iff.mp hnil).1 (hin.recv_of_returned rfl ht)

theorem inv_client (laws : core.Laws) {a : PartyAct} (h : Inv x y pingSecs s)
    (hC : Apart pingSecs s (.client a)) (hs : step pingSecs s (.client a) = some s') :
    Inv x y pingSecs s' := by
  obtain ⟨⟨p', inp, out⟩, hp, rfl⟩ := Option.map_eq_some_iff.mp hs
  cases h with
  | @shaking n p q toC toS hin =>
    rcases Party.step_handshake hp with ⟨m, p₁, rfl, h₁, rfl⟩ | ⟨r, rfl, hr, rfl, rfl, rfl⟩
    · have hstep : Duplex.step link ⟨p, q, toC, toS⟩ (.left m) = some ⟨p₁, q, inp, out⟩ :=
        Option.map_eq_some_iff.mpr ⟨_, h₁, rfl⟩
      obtain ⟨n', -, hin'⟩ := hin.step hstep
      exact .shaking hin'
    · obtain ⟨hret, -, hbuf, htoC, htoS⟩ := hin.returned_left (by simp [hr, Prog.returned])
      obtain ⟨Q, buf⟩ := q
      simp only at hret hbuf htoC htoS
      subst hbuf htoC htoS
      cases Q with
      | ret b => exact .dialed (Tunnel.inv_start _ _ _ _) rfl
      | _ => cases hret
  | @served n p b rest v hin hv hseen hquiet =>
    rcases Party.step_handshake hp with ⟨m, p₁, rfl, h₁, rfl⟩ | ⟨r, rfl, hr, rfl, rfl, rfl⟩
    · have hread : ∀ k, m = .read k → k ≤ (rest ++ v.written.flatten).length →
          k ≤ rest.length := by
        rintro k rfl hk
        exact read_le (fun hping => (hquiet hping).2) (hC k v rfl rfl) hk
      obtain ⟨n', rest', hin', rfl, rfl⟩ := shake_served hin hread h₁
      exact .served hin' hv hseen hquiet
    · obtain ⟨-, -, -, hrest, -⟩ := hin.returned_left (by simp [hr, Prog.returned])
      simp only at hrest
      subst hrest
      exact .up (Tunnel.inv_start _ _ _ _) hv rfl (by rw [hseen]; rfl)
  | @dialed b c hc hseen =>
    obtain ⟨t, ht, rfl⟩ := Party.step_tunnel hp
    obtain ⟨hi, hread, ws, hw, rfl⟩ := Tunnel.inv_step laws hc ht
    rw [hseen] at hread
    obtain ⟨hnil, rfl⟩ := List.append_eq_nil_iff.mp hread
    rw [← List.flatten_append, ← hw]
    exact .dialed hi hnil
  | up hc hv hdown hup =>
    obtain ⟨t, ht, rfl⟩ := Party.step_tunnel hp
    obtain ⟨hi, hread, ws, hw, rfl⟩ := Tunnel.inv_step laws hc ht
    refine .up hi hv (hread.trans hdown) ?_
    rw [hw, List.flatten_append, ← List.append_assoc, hup]

theorem inv_server (laws : core.Laws) {a : PartyAct} (h : Inv x y pingSecs s)
    (hs : step pingSecs s (.server a) = some s') : Inv x y pingSecs s' := by
  obtain ⟨⟨p', inp, out⟩, hp, rfl⟩ := Option.map_eq_some_iff.mp hs
  cases h with
  | @shaking n p q toC toS hin =>
    rcases Party.step_handshake hp with ⟨m, q₁, rfl, h₁, rfl⟩ | ⟨r, rfl, hr, rfl, rfl, rfl⟩
    · have hstep : Duplex.step link ⟨p, q, toC, toS⟩ (.right m) = some ⟨p, q₁, out, inp⟩ :=
        Option.map_eq_some_iff.mpr ⟨_, h₁, rfl⟩
      obtain ⟨n', -, hin'⟩ := hin.step hstep
      exact .shaking hin'
    · obtain ⟨hbuf, htoS⟩ := hin.returned_right (by simp [hr, Prog.returned])
      obtain ⟨Q, buf⟩ := q
      simp only at hr hbuf htoS
      subst hr hbuf htoS
      have hquiet : pingSecs .server = 0 →
          Tunnel.Quiet (Tunnel.start .server (pingSecs .server) r.rx r.tx).ep ∧
            (Tunnel.start .server (pingSecs .server) r.rx r.tx).written = [] := by
        intro hping
        rw [hping]
        exact ⟨Tunnel.quiet_spawnTunnel, rfl⟩
      have hserved := Inv.served hin (Tunnel.inv_start _ _ _ _) rfl hquiet
      simpa [Tunnel.start] using hserved
  | @served n p b rest v hin hv hseen hquiet =>
    obtain ⟨t, ht, rfl⟩ := Party.step_tunnel hp
    have hunread : v.records.unread = [] := by
      have hnil := hv.seen
      rw [hseen] at hnil
      exact (List.append_eq_nil_iff.mp hnil.symm).2
    obtain ⟨hi, hread, ws, hw, rfl⟩ := Tunnel.inv_step laws hv ht
    rw [hseen] at hread
    obtain ⟨hnil, rfl⟩ := List.append_eq_nil_iff.mp hread
    rw [List.append_assoc, ← List.flatten_append, ← hw]
    refine .served hin hi hnil fun hping => ?_
    obtain ⟨hq, hwritten⟩ := Tunnel.quiet_tunnel (hquiet hping).1 hunread ht
    exact ⟨hq, hwritten.trans (hquiet hping).2⟩
  | @dialed b c hc hseen =>
    rcases Party.step_handshake hp with ⟨m, q₁, rfl, h₁, rfl⟩ | ⟨r, rfl, hr, rfl, rfl, rfl⟩
    · cases Peer.Step.of_step h₁ <;> contradiction
    · exact .up hc (Tunnel.inv_start _ _ _ _) (by rw [hseen]; rfl) rfl
  | up hc hv hdown hup =>
    obtain ⟨t, ht, rfl⟩ := Party.step_tunnel hp
    obtain ⟨hi, hread, ws, hw, rfl⟩ := Tunnel.inv_step laws hv ht
    refine .up hc hi ?_ (hread.trans hup)
    rw [hw, List.flatten_append, ← List.append_assoc, hdown]

/-- **Every step keeps the books of the connection**, if it meets the condition. -/
theorem inv_step (laws : core.Laws) {a : ConnAct} (h : Inv x y pingSecs s)
    (hC : Apart pingSecs s a) (hs : step pingSecs s a = some s') : Inv x y pingSecs s' := by
  rcases a with a | a
  · exact inv_client laws h hC hs
  · exact inv_server laws h hs

end Conn

/-- **Lossless hand-over**: in every run of a connection between an honest client and an honest
server, if the server does not ping or no read of the client's handshake reaches the bytes of the
server's tunnel, both tunnels get exactly the records that the other one writes. -/
theorem handover_lossless (version sni clientPassword serverPassword : String)
    (clientRng serverRng : ℕ → core.Seed) (deviceId : DeviceId) (pin : Option Key32)
    (staticKp : core.StaticKeypair) (pingSecs : Side → ℕ) (s : Conn core) (laws : core.Laws)
    (hsni : core.acceptsSni sni)
    (hauth : ∀ proof, core.EncryptsFirst (authMessage proof deviceId clientPassword))
    (hok : core.EncryptsSecond (okResponse version))
    (hrun : Reaches (Conn.step pingSecs) (Conn.Apart pingSecs)
      (.start (clientHandshakeInner core clientRng sni clientPassword deviceId pin)
        (serverHandshakeInner core version serverRng staticKp serverPassword)) s) :
    s.Lossless := by
  have hsettles : Settles _
      (clientHandshakeInner core clientRng sni clientPassword deviceId pin)
      (serverHandshakeInner core version serverRng staticKp serverPassword) :=
    settles laws hsni hauth hok
  obtain ⟨n, x, y, hl, -⟩ := hsettles
  have hinv : Conn.Inv x y pingSecs s :=
    hrun.invariant (.shaking (.start hl)) fun hi hC hs => Conn.inv_step laws hi hC hs
  exact hinv.lossless

/-! ### The read that reaches too far -/

/-- A client and a server with the same password. -/
def pair : Conn plain :=
  .start (clientHandshakeInner plain (fun _ => seed 1) "a.example" "secret" device none)
    (serverHandshakeInner plain "0.1" (fun _ => seed 2) (seed 3) "secret")

/-- The handshake up to the server's response, and the server's first PING behind it. -/
def untilPing : List ConnAct := [
  [.client (.shake .write), .server (.shake (.read 46)), .server (.shake .take)],
  List.replicate 6 (.server (.shake .write)),
  [.client (.shake (.read 164))],
  List.replicate 6 (.client (.shake .take)),
  [.client (.shake .write), .server (.shake (.read 62)), .server (.shake .take),
    .server (.shake .write), .server .spawn],
  [.server (.act .keepaliveTop), .server (.act .tick), .server (.act (.ping default)),
    .server (.act .writerTop), .server (.act .writerTake), .server .write]].flatten

/-- Whether the client's tunnel misses bytes of the server's. -/
def missesBytes (s : Conn plain) : Bool :=
  match s.client, s.server with
  | .tunnel c, .tunnel v => c.seen ++ s.toClient ≠ v.written.flatten
  | _, _ => false

/-- One read returns the response (28 bytes) and the PING (22 bytes): the PING is lost. -/
theorem handover_loses :
    ∃ s, Reachable (Conn.step fun _ => 30) pair s ∧ ¬ s.Lossless := by
  have hmiss : ∃ s, Reachable (Conn.step fun _ => 30) pair s ∧ missesBytes s = true :=
    reaches_of_exec (fun _ _ => true)
      (untilPing ++ [.client (.shake (.read 50)), .client (.shake .take), .client .spawn])
      (fun _ _ _ => trivial) (by decide +kernel)
  obtain ⟨s, hs, hm⟩ := hmiss
  refine ⟨s, hs, fun hless => ?_⟩
  unfold missesBytes at hm
  split at hm
  · next c v hc hv => exact absurd (hless c v hc hv).1.1 (by simpa using hm)
  · cases hm

/-- The condition, checked. -/
def apart (pingSecs : Side → ℕ) (s : Conn core) : ConnAct → Bool
  | .client (.shake (.read n)) =>
    match s.server with
    | .tunnel v => pingSecs .server = 0 ∨ n + v.written.flatten.length ≤ s.toClient.length
    | .handshake _ => true
  | _ => true

theorem apart_of_check {pingSecs : Side → ℕ} {s : Conn core} {a : ConnAct}
    (h : apart pingSecs s a = true) : Conn.Apart pingSecs s a := by
  rintro n v rfl hv
  simpa [apart, hv] using h

/-- Whether both tunnels are up and the client's has taken a record. -/
def clientTook (s : Conn plain) : Bool :=
  match s.client, s.server with
  | .tunnel c, .tunnel _ => c.taken ≠ []
  | _, _ => false

/-- The same run with a read that ends with the response: the client's tunnel takes the PING. -/
theorem handover_lossless_pinged :
    ∃ s, clientTook s = true ∧
      Reaches (Conn.step fun _ => 30) (Conn.Apart fun _ => 30) pair s ∧ s.Lossless := by
  obtain ⟨s, hs, htook⟩ : ∃ s, Reaches (Conn.step fun _ => 30) (Conn.Apart fun _ => 30) pair s ∧
      clientTook s = true :=
    reaches_of_exec (apart fun _ => 30)
      (untilPing ++ [.client (.shake (.read 28)), .client (.shake .take), .client .spawn,
        .client (.act .readerTop), .client (.act .dispatch), .client (.read 22),
        .client (.act .readerTop), .client (.act .dispatch)])
      (fun _ _ => apart_of_check) (by decide +kernel)
  have hlossless : s.Lossless := @handover_lossless plain "0.1" "a.example" "secret" "secret"
    (fun _ => seed 1) (fun _ => seed 2) device none (seed 3) (fun _ => 30) s plain_laws
    plain_acceptsSni plain_encrypts_auth plain_encrypts_ok hs
  exact ⟨s, htook, hs, hlossless⟩

end QeliSsPlugin.Handshake
