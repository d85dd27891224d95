import QeliSsPlugin.Carrier.Independence
import QeliSsPlugin.Handshake.Pipe
import QeliSsPlugin.Net.Delivery
import QeliSsPlugin.Net.Teardown

/-!
# Two tunnels on a byte stream

`Linked` is a client's and a server's tunnel with their codecs and record buffers, and a byte stream in
each direction: packets go out in any number of parts, a write can fail in the middle of one, and reads
are cut anywhere. `Linked.refines` shows that this is the pair of endpoints `Net` on wires that damage
nothing: every state reached is one of `Net`, up to what the reader has buffered.

The simulation (`Simulates`) lets a read that completes no record be no step at all: the reader is then
behind the one of `Net`, which still waits (`Stands.behind`).
-/

namespace QeliSsPlugin

open Lib Lib.Runs Mux Carrier

theorem Carrier.Side.forall_of {P : Side → Prop} (x : Side) (h : P x) (h' : P x.peer) (y : Side) :
    P y := by
  cases x <;> cases y <;> assumption

/-! ### What is sent fits -/

namespace Carrier.Endpoint

variable {e e' : Endpoint} {a : Act} {k : ℕ}

/-- Every frame sent, and every chunk to be sent, is one that the peer's decoder takes. -/
structure Fitting (e : Endpoint) : Prop where
  sent : ∀ f ∈ e.sent, f.fits = true
  pending : ∀ k, ∀ c ∈ (e.inst k).phase.pending, c.length ≤ maxData

theorem fits_of_ne_data {f : Frame} (h : ∀ id p, f ≠ .data id p) : f.fits = true := by
  cases f with
  | data id p => exact absurd rfl (h id p)
  | _ => rfl

theorem Move.pending_sub {p p' : Phase} (h : Move e k a p p') : ∀ c ∈ p'.pending, c ∈ p.pending := by
  cases h <;> simp [Phase.pending, Up.pending]

theorem Change.pending_le {s : Stream} (hc : Change e k s)
    (h : ∀ c ∈ (e.inst k).phase.pending, c.length ≤ maxData) :
    ∀ c ∈ s.phase.pending, c.length ≤ maxData := by
  cases hc with
  | move hm => exact fun c hcm => h c (hm.pending_sub c hcm)
  | post hp => exact fun c hcm => h c (hp.pending ▸ hcm)
  | @upRead data down hp hne hle =>
    intro c hcm
    -- one read is one chunk
    have hone : chunks maxData data = [data] := chunks_of_length_le hne hle
    change c ∈ chunks maxData data at hcm
    rw [hone, List.mem_singleton] at hcm
    exact hcm ▸ hle
  | @upSend c rest down hp =>
    intro c' hcm
    change c' ∈ (afterChunk rest).pending at hcm
    rw [pending_afterChunk] at hcm
    refine h c' ?_
    rw [hp]
    exact List.mem_cons_of_mem _ hcm
  | downRecv hp =>
    rw [hp] at h
    exact h
  | delivered => exact h
  | register | unregister => exact fun c hcm => absurd hcm (List.not_mem_nil)

theorem fitting_step (hr : Replies e) (hf : Fitting e) (h : e.Step a e') : Fitting e' := by
  refine ⟨fun f hmem => ?_, fun k => ?_⟩
  · rcases step_chunks hr h with ⟨-, hs | ⟨g, hg, hs⟩⟩ | ⟨j, c, rest, down, hp, hs, -, -⟩
    · exact hf.sent f (hs ▸ hmem)
    · rw [hs, List.mem_append, List.mem_singleton] at hmem
      rcases hmem with hmem | rfl
      · exact hf.sent f hmem
      · exact fits_of_ne_data hg
    · rw [hs, List.mem_append, List.mem_singleton] at hmem
      rcases hmem with hmem | rfl
      · exact hf.sent f hmem
      · have hle := hf.pending j c (by rw [hp]; exact List.mem_cons_self)
        exact decide_eq_true hle
  · have hupd : ∀ {j s}, e'.inst = Function.update e.inst j s →
        (∀ c ∈ s.phase.pending, c.length ≤ maxData) →
        ∀ c ∈ (e'.inst k).phase.pending, c.length ≤ maxData := by
      intro j s hinst hs
      rw [hinst, Function.update_apply]
      split_ifs
      · exact hs
      · exact hf.pending k
    rcases step_inst h with ⟨-, hinst⟩ | ⟨hc, -, hinst⟩ | ⟨hp, -, hinst⟩
    · rw [hinst]
      exact hf.pending k
    · exact hupd hinst (hc.pending_le (hf.pending _))
    · refine hupd hinst ?_
      rcases hp with ⟨-, -, rfl⟩ | rfl
      · exact fun c hcm => absurd hcm (List.not_mem_nil)
      · rcases e.side with _ | _ <;> exact fun c hcm => absurd hcm (List.not_mem_nil)

theorem fitting_reachable {side : Side} {pingSecs : ℕ}
    (h : Reachable step (spawnTunnel side pingSecs) e) : Fitting e := by
  have hinv : Local e ∧ Fitting e := by
    refine h.invariant (I := fun e => Local e ∧ Fitting e) ⟨local_spawnTunnel, ?_, ?_⟩ ?_
    · simp [spawnTunnel]
    · simp [spawnTunnel, Stream.fresh, Phase.pending]
    · intro e e' a hi _ hs
      have hs' := Step.of_step hs
      exact ⟨local_step hi.1 hs', fitting_step hi.1.replies hi.2 hs'⟩
  exact hinv.2

end Carrier.Endpoint

/-! ### The system -/

namespace Handshake

/-- Two tunnels on a byte stream in each direction. -/
structure Linked (core : Core) where
  tun : Side → Tunnel core
  /-- The bytes a side wrote that its peer has not read. -/
  bytes : Side → Bytes
  /-- How many bytes of the packet a side is writing are out. -/
  out : Side → ℕ

/-- A step of a task, a part of a packet going out, the rest of it, a read, an end of stream. -/
inductive LinkAct
  | act (x : Side) (a : Act)
  | part (x : Side) (n : ℕ)
  | write (x : Side)
  | read (x : Side) (n : ℕ)
  | eof (x : Side)
  deriving DecidableEq

variable {core : Core}

namespace Linked

/-- Two tunnels just spawned, with the codecs of the handshake. -/
def connect (pingSecs : Side → ℕ) (rx tx : Side → core.PacketCodec) : Linked core :=
  ⟨fun x => .start x (pingSecs x) (rx x) (tx x), fun _ => [], fun _ => 0⟩

/-- Change one tunnel. -/
@[simps] def set (s : Linked core) (x : Side) (t : Tunnel core) : Linked core :=
  { s with tun := Function.update s.tun x t }

/-- **One step.** `write_all` writes a packet in any number of parts; a step of the writer that fails
leaves the rest of the packet unwritten. -/
def step (s : Linked core) : LinkAct → Option (Linked core)
  | .act x a => ((s.tun x).act a).map (s.set x)
  | .part x n =>
    match (s.tun x).ep.writer with
    | .writing _ =>
      if s.out x + n < (s.tun x).packet.length then
        some { s with
          bytes := Function.update s.bytes x
            (s.bytes x ++ ((s.tun x).packet.drop (s.out x)).take n)
          out := Function.update s.out x (s.out x + n) }
      else none
    | _ => none
  | .write x =>
    ((s.tun x).step [] [] false .write).map fun (t, _, packet) =>
      { s.set x t with
        bytes := Function.update s.bytes x (s.bytes x ++ packet.drop (s.out x))
        out := Function.update s.out x 0 }
  | .read x n =>
    ((s.tun x).step (s.bytes x.peer) [] false (.read n)).map fun (t, inp, _) =>
      { s.set x t with bytes := Function.update s.bytes x.peer inp }
  | .eof x =>
    ((s.tun x).step (s.bytes x.peer) [] (Net.closed (s.tun x.peer).ep) .eof).map fun (t, _, _) =>
      s.set x t

end Linked

/-- The stream from the tunnel `t` to the tunnel `u`. -/
def Tunnel.pipe (t u : Tunnel core) (out : ℕ) (bytes : Bytes) : Pipe core :=
  ⟨t.ep.writer, t.packet, t.tx, out, bytes, u.records, u.rx⟩

/-! ### What the tasks of a tunnel do -/

namespace Tunnel

variable {t t' : Tunnel core} {a : Act}

/-- A step of a task that is not at the record codec. -/
theorem act_task (h : t.act a = some t') (hd : a ≠ .dispatch) (hw : a ≠ .writerTake) :
    a.isWire = false ∧ a ≠ .encryptErr ∧ ∃ e, t.ep.step a = some e ∧ t' = { t with ep := e } := by
  cases a with
  | dispatch => exact absurd rfl hd
  | writerTake => exact absurd rfl hw
  | encryptErr | readerRead | readerEof | wrote => cases h
  | _ =>
    obtain ⟨e, he, rfl⟩ := Option.map_eq_some_iff.mp h
    exact ⟨rfl, by simp, e, he, rfl⟩

/-- `writerTake` encrypts the first frame of the channel. -/
theorem act_writerTake (h : t.act .writerTake = some t') :
    ∃ f fs, t.ep.frames = f :: fs ∧
      ((∃ packet tx e, core.encryptPacket t.tx f.encode = (.ok packet, tx) ∧
          t.ep.step .writerTake = some e ∧ t' = { t with ep := e, tx := tx, packet := packet }) ∨
        ∃ tx e, t.ep.step .encryptErr = some e ∧ t' = { t with ep := e, tx := tx }) := by
  simp only [act] at h
  split at h
  · next f fs hf =>
    refine ⟨f, fs, hf, ?_⟩
    split at h
    · next packet tx henc =>
      obtain ⟨e, he, rfl⟩ := Option.map_eq_some_iff.mp h
      exact .inl ⟨packet, tx, e, henc, he, rfl⟩
    · next tx _ =>
      obtain ⟨e, he, rfl⟩ := Option.map_eq_some_iff.mp h
      exact .inr ⟨tx, e, he, rfl⟩
  · cases h

/-- `dispatch` takes a record from the buffer, or finds none. -/
theorem act_dispatch (h : t.act .dispatch = some t') :
    (∃ rb e, t.records.takeRecord = (none, rb) ∧ t.ep.step .dispatch = some e ∧
      t' = { t with ep := e, records := rb }) ∨
    ∃ r rb e, t.records.takeRecord = (some r, rb) ∧
      { t.ep with records := [(outcome core.decryptPacket t.rx r).1] }.step .dispatch = some e ∧
      t' = { t with
        ep := e, rx := (outcome core.decryptPacket t.rx r).2, records := rb,
        taken := t.taken ++ [r] } := by
  simp only [act] at h
  split at h
  · next rb ht =>
    obtain ⟨e, he, rfl⟩ := Option.map_eq_some_iff.mp h
    exact .inl ⟨rb, e, ht, he, rfl⟩
  · next r rb ht =>
    obtain ⟨e, he, rfl⟩ := Option.map_eq_some_iff.mp h
    exact .inr ⟨r, rb, e, ht, he, rfl⟩

end Tunnel

/-! ### A tunnel and its endpoint -/

section Stands

variable {e e' A : Endpoint} {a : Act}

/-- The steps that bring the reader to wait, and those that find it there. -/
theorem select_of_step (h : e.Step a e') (hr : e'.reader = .select) :
    e.reader = .select ∨ a = .dispatch ∧ e.records = [] := by
  cases h with
  | goto hg =>
    simp only at hr
    subst hr
    generalize e.reader = q at hg
    cases hg with
    | drained hrec => exact .inr ⟨rfl, hrec⟩
  | readerExit | readerRead | handleKill | delivered | dropStalled | reply => cases hr
  | handleData | handleUnknown | handlePing => cases hr
  | _ => exact .inl hr

theorem drain_of_dispatch (h : e.step .dispatch = some e') : e.reader = .drain := by
  simp only [Endpoint.step] at h
  split at h
  · assumption
  · assumption
  · cases h

/-- What a task other than the writer at its codec does to the writer. -/
theorem writer_of_task (h : e.Step a e') (ht : a ≠ .writerTake) (hx : a ≠ .encryptErr)
    (hw : a.isWire = false) :
    e'.writer = .left ∨ e'.writer = e.writer ∨ e.writer = .top ∧ e'.writer = .select := by
  cases h with
  | writerTop hwr => exact .inr (.inr ⟨hwr, rfl⟩)
  | writerExit => exact .inl rfl
  | writerTake => exact absurd rfl ht
  | encryptErr => exact absurd rfl hx
  | wrote => cases hw
  | _ => exact .inr (.inl rfl)

/-- **The endpoint that stands for a tunnel's**: it is at the same point, with the records that are
complete in the buffer; or no record is complete and it still waits, the tunnel's reader having been
woken by a part of a record. -/
inductive Stands (e : Endpoint) : Endpoint → Prop
  | inStep {rs} : (e.reader = .select → rs = []) → Stands e (e.withRecords rs)
  | behind : e.reader = .top ∨ e.reader = .drain → Stands e (e.withReader .select)

theorem Stands.same (h : Stands e A) :
    A.frames = e.frames ∧ A.writer = e.writer ∧ Net.closed A = Net.closed e := by
  cases h <;> exact ⟨rfl, rfl, rfl⟩

theorem Stands.streams (h : Stands e A) : A.inst = e.inst ∧ A.n = e.n ∧ A.dead = e.dead := by
  cases h <;> exact ⟨rfl, rfl, rfl⟩

/-- **A step of a task that is not at the record codec** is one of the endpoint, or none. -/
theorem Stands.task (h : Stands e A) (hs : e.step a = some e') (hw : a.isWire = false)
    (hd : a ≠ .dispatch) :
    ∃ A', (A' = A ∨ ∃ b, (b = a ∨ b = .readerDead) ∧ A.step b = some A') ∧ Stands e' A' ∧
      A'.records = A.records ∧ e'.records = e.records := by
  have hread : ∀ rs, a ≠ .readerRead rs := by
    rintro rs rfl
    cases hw
  have hrec : e' = e'.withRecords e.records := by
    have hself := Endpoint.step_withRecords (e := e) e.records hd hread
    rw [show e.withRecords e.records = e from rfl, hs] at hself
    exact Option.some.inj hself
  have hrecords : e'.records = e.records := by
    have h := congrArg Endpoint.records hrec
    exact h
  cases h with
  | @inStep rs hrs =>
    refine ⟨e'.withRecords rs, .inr ⟨a, .inl rfl, ?_⟩, .inStep fun hr => ?_, rfl, hrecords⟩
    · rw [Endpoint.step_withRecords rs hd hread, hs]
      rfl
    · rcases select_of_step (.of_step hs) hr with hold | ⟨rfl, -⟩
      · exact hrs hold
      · exact absurd rfl hd
  | behind hr =>
    by_cases ha : a.isReaders = true
    · -- the reader at the top of its loop
      cases a with
      | readerTop =>
        simp only [Endpoint.step] at hs
        split at hs
        · by_cases hdead : e.dead = true
          · rw [if_pos hdead] at hs
            cases hs
            refine ⟨e.leaveReader .killed, .inr ⟨.readerDead, .inr rfl, ?_⟩, ?_, rfl, rfl⟩
            · exact if_pos hdead
            · exact @Stands.inStep _ e.records (by simp)
          · rw [if_neg hdead] at hs
            cases hs
            exact ⟨_, .inl rfl, .behind (.inr rfl), rfl, rfl⟩
        · cases hs
      | dispatch => exact absurd rfl hd
      | readerRead | readerEof => cases hw
      | _ =>
        rcases hr with hr | hr <;> simp [Endpoint.step, hr, Act.isReaders] at hs ha
    · have ha' : a.isReaders = false := by simpa using ha
      have he : e.reader.isDelivering = false := by rcases hr with hr | hr <;> rw [hr] <;> rfl
      have hself := Endpoint.step_withReader (r := e.reader) he he ha'
      rw [show e.withReader e.reader = e from rfl, hs] at hself
      have hreader : e'.reader = e.reader := by
        have h := congrArg Endpoint.reader (Option.some.inj hself)
        exact h
      refine ⟨e'.withReader .select, .inr ⟨a, .inl rfl, ?_⟩, .behind (hreader ▸ hr), hrecords, hrecords⟩
      rw [Endpoint.step_withReader he rfl ha', hs]
      rfl

/-- **No record is complete**: both wait. -/
theorem Stands.drained (h : Stands e A) (hrec : e.records = []) (hA : A.records = [])
    (hs : e.step .dispatch = some e') :
    (A = e' ∨ A.step .dispatch = some e') ∧ e'.records = [] := by
  have hself : e.withRecords [] = e := by
    rw [← hrec]
    rfl
  simp only [Endpoint.step] at hs
  split at hs
  · next hr _ =>
    cases hs
    refine ⟨?_, hrec⟩
    cases h with
    | inStep =>
      right
      simp only [Endpoint.withRecords_records] at hA
      rw [hA, hself]
      simp [Endpoint.step, hr, hrec]
    | behind => exact .inl rfl
  · next h' =>
    rw [hrec] at h'
    cases h'
  · cases hs

/-- **A record is complete**: both dispatch it. -/
theorem Stands.dispatched {o : Outcome} {rest : List Outcome} (h : Stands e A)
    (hrec : e.records = []) (hA : A.records = o :: rest)
    (hs : { e with records := [o] }.step .dispatch = some e') :
    A.step .dispatch = some (e'.withRecords rest) ∧ Stands e' (e'.withRecords rest) ∧
      e'.records = [] := by
  have hself := Endpoint.dispatch_withRecords (e := e) o []
  rw [show e.withRecords [o] = { e with records := [o] } from rfl, hs] at hself
  have hnil : e'.records = [] := congrArg Endpoint.records (Option.some.inj hself)
  cases h with
  | inStep =>
    simp only [Endpoint.withRecords_records] at hA
    subst hA
    refine ⟨?_, .inStep fun hr => ?_, hnil⟩
    · rw [Endpoint.dispatch_withRecords, show e.withRecords [o] = { e with records := [o] } from rfl,
        hs]
      rfl
    · rcases select_of_step (.of_step hs) hr with hold | ⟨-, hold⟩
      · have hdrain := drain_of_dispatch hs
        rw [hold] at hdrain
        cases hdrain
      · cases hold
  | behind =>
    rw [show (e.withReader .select).records = e.records from rfl, hrec] at hA
    cases hA

/-- While the tunnel's reader waits, the endpoint is the same. -/
theorem Stands.waiting (h : Stands e A) (hrec : e.records = []) (hr : e.reader = .select) : A = e := by
  cases h with
  | inStep hrs =>
    rw [hrs hr, ← hrec]
    rfl
  | behind hr' => rcases hr' with hr' | hr' <;> rw [hr] at hr' <;> cases hr'

/-- **A read**: without a record the reader falls behind, with some both read. -/
theorem Stands.read (h : Stands e A) (hrec : e.records = [])
    (hs : e.step (.readerRead []) = some e') :
    A.records = [] ∧ A.reader = .select ∧ e'.records = [] ∧ Stands e' A ∧
      ∀ rs, A.step (.readerRead rs) = some (e'.withRecords rs) ∧ Stands e' (e'.withRecords rs) := by
  simp only [Endpoint.step] at hs
  split at hs
  · next hr =>
    obtain rfl := h.waiting hrec hr
    cases hs
    refine ⟨hrec, hr, by simpa using hrec, ?_, fun rs => ⟨?_, .inStep fun h => by cases h⟩⟩
    · have hback : ({ A with reader := .top, records := A.records ++ [] } : Endpoint).withReader
          .select = A := by
        rw [List.append_nil]
        unfold Endpoint.withReader
        rw [← hr]
      have hbehind := Stands.behind (e := { A with reader := .top, records := A.records ++ [] }) (.inl rfl)
      rwa [hback] at hbehind
    · simp only [Endpoint.step, hr, hrec]
      rfl
  · cases hs

/-- The end of the stream. -/
theorem Stands.eof (h : Stands e A) (hrec : e.records = []) (hs : e.step .readerEof = some e') :
    A.records = [] ∧ A.step .readerEof = some e' ∧ e'.records = [] := by
  have hs' := hs
  simp only [Endpoint.step] at hs'
  split at hs'
  · next hr =>
    obtain rfl := h.waiting hrec hr
    cases hs'
    exact ⟨hrec, hs, hrec⟩
  · cases hs'

/-- The end of a write. -/
theorem Stands.wrote (h : Stands e A) (hs : e.step .wrote = some e') :
    ∃ f, e.writer = .writing f ∧ e' = { e with writer := .top } ∧
      Stands e' { A with writer := .top } := by
  simp only [Endpoint.step] at hs
  split at hs
  · next f hw =>
    cases hs
    refine ⟨f, hw, rfl, ?_⟩
    cases h with
    | inStep hrs => exact .inStep (e := { e with writer := .top }) hrs
    | behind hr => exact .behind (e := { e with writer := .top }) hr
  · cases hs

end Stands

/-! ### The simulation -/

/-- Actions of the pair on intact wires, with the tasks' actions in `ok`. -/
def OkStep (ok : Act → Bool) (_n : Net) (a : NetAct) : Prop :=
  a.isIntact = true ∧ ∀ x b, a = .act x b → ok b = true

namespace Linked

variable {s s' : Linked core} {n n' : Net} {pingSecs : Side → ℕ} {ok : Act → Bool}

/-- The tasks' actions are in `ok`. -/
def OkAct (ok : Act → Bool) (_s : Linked core) (a : LinkAct) : Prop :=
  ∀ x b, a = .act x b → ok b = true

/-- **The pair of endpoints that a pair of tunnels is**: its endpoints stand for theirs, and its wires
and buffers hold what the byte streams carry. -/
structure Simulates (s : Linked core) (n : Net) : Prop where
  records : ∀ x, (s.tun x).ep.records = []
  stands : ∀ x, Stands (s.tun x).ep (n.ep x)
  carries : ∀ x, ((s.tun x).pipe (s.tun x.peer) (s.out x) (s.bytes x)).Carries
    (n.ep x.peer).records (n.wire x)

/-- The stream to a side. -/
theorem Simulates.incoming (h : Simulates s n) (x : Side) :
    ((s.tun x.peer).pipe (s.tun x) (s.out x.peer) (s.bytes x.peer)).Carries
      (n.ep x).records (n.wire x.peer) := by
  simpa using h.carries x.peer

/-- One side of each stream at a time. -/
theorem Simulates.of_sides (x : Side) (hrec : ∀ y, (s.tun y).ep.records = [])
    (hst : ∀ y, Stands (s.tun y).ep (n.ep y))
    (hout : ((s.tun x).pipe (s.tun x.peer) (s.out x) (s.bytes x)).Carries
      (n.ep x.peer).records (n.wire x))
    (hin : ((s.tun x.peer).pipe (s.tun x) (s.out x.peer) (s.bytes x.peer)).Carries
      (n.ep x).records (n.wire x.peer)) : Simulates s n :=
  ⟨hrec, hst, Side.forall_of x hout (by simpa using hin)⟩

theorem simulates_connect {rx tx : Side → core.PacketCodec}
    (hsync : ∀ x : Side, core.Synced (tx x) (rx x.peer)) :
    Simulates (connect pingSecs rx tx) (Net.connect pingSecs) where
  records _ := rfl
  stands _ := @Stands.inStep _ [] fun _ => rfl
  carries x := Pipe.carries_start (hsync x)

/-- A step of a side's tasks. -/
theorem Simulates.set {x : Side} {t : Tunnel core} {A : Endpoint} (h : Simulates s n)
    (hrec : t.ep.records = []) (hst : Stands t.ep A)
    (hout : (t.pipe (s.tun x.peer) (s.out x) (s.bytes x)).Carries (n.ep x.peer).records (n.wire x))
    (hin : ((s.tun x.peer).pipe t (s.out x.peer) (s.bytes x.peer)).Carries A.records
      (n.wire x.peer)) : Simulates (s.set x t) (n.set x A) := by
  refine .of_sides x (fun y => ?_) (fun y => ?_) ?_ ?_
  · simp only [set_tun, Function.update_apply]
    split_ifs with hy
    · exact hrec
    · exact h.records y
  · simp only [set_tun, Net.set_ep, Function.update_apply]
    split_ifs with hy
    · exact hst
    · exact h.stands y
  · simpa [Function.update_of_ne x.peer_ne] using hout
  · simpa [Function.update_of_ne x.peer_ne] using hin

/-- A step of an endpoint's tasks. -/
theorem reaches_act {x : Side} {b : Act} {A : Endpoint} (hw : b.isWire = false) (hok : ok b = true)
    (hs : (n.ep x).step b = some A) :
    Reaches (Net.step fun _ _ => true) (OkStep ok) n (n.set x A) := by
  refine .tail .refl ⟨rfl, ?_⟩ (a := .act x b) ?_
  · rintro y c hc
    cases hc
    exact hok
  · simp [Net.step, hw, hs]

theorem net_set_self (x : Side) : n.set x (n.ep x) = n := by
  simp [Net.set]

/-- The stream to the peer, after a task has moved the writer. -/
theorem Simulates.outgoing {x : Side} {e e' : Endpoint} {a : Act} (h : Simulates s n)
    (he : e.step a = some e') (hw : a.isWire = false) (ht : a ≠ .writerTake) (hx : a ≠ .encryptErr)
    (heq : e.writer = (s.tun x).ep.writer) {t : Tunnel core} (hep : t.ep = e')
    (hpacket : t.packet = (s.tun x).packet) (htx : t.tx = (s.tun x).tx) :
    (t.pipe (s.tun x.peer) (s.out x) (s.bytes x)).Carries (n.ep x.peer).records (n.wire x) := by
  have hmove := writer_of_task (.of_step he) ht hx hw
  rw [heq] at hmove
  have hcarries := @Pipe.Carries.move _ _ _ _ e'.writer (s.tun x).tx (h.carries x)
    (hmove.imp id fun hor => ⟨rfl, hor⟩)
  unfold Tunnel.pipe at hcarries ⊢
  rw [hep, hpacket, htx]
  exact hcarries

/-- A task that is not at the buffer. -/
theorem Simulates.task {x : Side} {a : Act} {e : Endpoint} {t : Tunnel core} (h : Simulates s n)
    (he : (s.tun x).ep.step a = some e) (hw : a.isWire = false) (hd : a ≠ .dispatch)
    (hok : ok a = true) (hdead : ok .readerDead = true) (hep : t.ep = e)
    (hrecords : t.records = (s.tun x).records) (hrx : t.rx = (s.tun x).rx)
    (hout : (t.pipe (s.tun x.peer) (s.out x) (s.bytes x)).Carries (n.ep x.peer).records
      (n.wire x)) :
    ∃ n', Reaches (Net.step fun _ _ => true) (OkStep ok) n n' ∧ Simulates (s.set x t) n' := by
  obtain ⟨A, hA, hst, hsame, hrec⟩ := (h.stands x).task he hw hd
  subst hep
  refine ⟨n.set x A, ?_, h.set (hrec.trans (h.records x)) hst hout ?_⟩
  · rcases hA with rfl | ⟨b, hb, hA⟩
    · rw [net_set_self]
      exact .refl
    · rcases hb with rfl | rfl
      · exact reaches_act hw hok hA
      · exact reaches_act rfl hdead hA
  · have hin := h.incoming x
    unfold Tunnel.pipe at hin ⊢
    rw [hrecords, hrx, hsame]
    exact hin

/-- The writer takes a frame. -/
theorem Simulates.writerTake {x : Side} {t : Tunnel core} (laws : core.Laws) (h : Simulates s n)
    (hfits : ∀ f ∈ (s.tun x).ep.frames, f.fits = true) (htake : ok .writerTake = true)
    (herr : ok .encryptErr = true) (hdead : ok .readerDead = true)
    (ht : (s.tun x).act .writerTake = some t) :
    ∃ n', Reaches (Net.step fun _ _ => true) (OkStep ok) n n' ∧ Simulates (s.set x t) n' := by
  obtain ⟨f, fs, hf, ⟨packet, tx, e, henc, he, rfl⟩ | ⟨tx, e, he, rfl⟩⟩ := Tunnel.act_writerTake ht
  · refine h.task he rfl (by simp) htake hdead rfl rfl rfl ?_
    have hfit : f.fits = true := hfits f (by rw [hf]; exact List.mem_cons_self)
    have he' := he
    simp only [Endpoint.step] at he'
    split at he'
    · next g gs hwr hg =>
      rw [hf] at hg
      obtain ⟨rfl, rfl⟩ := List.cons.inj hg
      cases he'
      exact (h.carries x).encrypt laws hwr hfit henc
    · cases he'
  · refine h.task he rfl (by simp) herr hdead rfl rfl rfl ?_
    have hleft : e.writer = .left := by
      simp only [Endpoint.step] at he
      split at he
      · cases he
        rfl
      · cases he
    have hcarries := @Pipe.Carries.move _ _ _ _ .left tx (h.carries x) (.inl rfl)
    unfold Tunnel.pipe at hcarries ⊢
    rw [hleft]
    exact hcarries

/-- The reader dispatches. -/
theorem Simulates.dispatch {x : Side} {t : Tunnel core} (h : Simulates s n)
    (hok : ok .dispatch = true) (ht : (s.tun x).act .dispatch = some t) :
    ∃ n', Reaches (Net.step fun _ _ => true) (OkStep ok) n n' ∧ Simulates (s.set x t) n' := by
  rcases Tunnel.act_dispatch ht with ⟨rb, e, htake, he, rfl⟩ | ⟨r, rb, e, htake, he, rfl⟩
  · obtain ⟨hnil, hin⟩ := (h.incoming x).compact htake
    obtain ⟨hA, hrec⟩ := (h.stands x).drained (h.records x) hnil he
    have hst : Stands e e := by
      have hstands : Stands e (e.withRecords []) := .inStep fun _ => rfl
      rwa [← hrec] at hstands
    refine ⟨n.set x e, ?_, h.set hrec hst ?_ ?_⟩
    · rcases hA with hA | hA
      · rw [← hA, net_set_self]
        exact .refl
      · exact reaches_act rfl hok hA
    · exact h.outgoing he rfl (by simp) (by simp) rfl rfl rfl rfl
    · rw [hrec]
      exact hin
  · obtain ⟨f, rx, rest, ho, hbuf, hin⟩ := (h.incoming x).take htake
    have ho' : outcome core.decryptPacket (s.tun x).rx r = (.good f, rx) := ho
    rw [ho'] at he ⊢
    obtain ⟨hA, hst, hrec⟩ := (h.stands x).dispatched (h.records x) hbuf he
    refine ⟨n.set x (e.withRecords rest), reaches_act rfl hok hA, h.set hrec hst ?_ hin⟩
    exact h.outgoing he rfl (by simp) (by simp) rfl rfl rfl rfl

/-- **A step of the tasks.** -/
theorem Simulates.act {x : Side} {a : Act} {t : Tunnel core} (laws : core.Laws) (h : Simulates s n)
    (hfits : ∀ f ∈ (s.tun x).ep.frames, f.fits = true) (hok : ok a = true)
    (herr : ok .encryptErr = true) (hdead : ok .readerDead = true) (ht : (s.tun x).act a = some t) :
    ∃ n', Reaches (Net.step fun _ _ => true) (OkStep ok) n n' ∧ Simulates (s.set x t) n' := by
  by_cases hd : a = .dispatch
  · subst hd
    exact h.dispatch hok ht
  by_cases hw : a = .writerTake
  · subst hw
    exact h.writerTake laws hfits hok herr hdead ht
  obtain ⟨hwire, hx, e, he, rfl⟩ := Tunnel.act_task ht hd hw
  exact h.task he hwire hd hok hdead rfl rfl rfl (h.outgoing he hwire hw hx rfl rfl rfl rfl)

/-- **A part of a packet goes out**: nothing happens. -/
theorem Simulates.part {x : Side} {k : ℕ} (laws : core.Laws) (h : Simulates s n)
    (hs : s.step (.part x k) = some s') : Simulates s' n := by
  simp only [step] at hs
  split at hs
  · next f hw =>
    split_ifs at hs with hlt
    cases hs
    refine .of_sides x h.records h.stands ?_ ?_
    · simpa [Tunnel.pipe] using (h.carries x).part laws hw hlt
    · simpa [Function.update_of_ne x.peer_ne] using h.incoming x
  · cases hs

/-- **A packet is out.** -/
theorem Simulates.write {x : Side} (laws : core.Laws) (h : Simulates s n)
    (hs : s.step (.write x) = some s') :
    ∃ n', Reaches (Net.step fun _ _ => true) (OkStep ok) n n' ∧ Simulates s' n' := by
  obtain ⟨⟨t, inp, packet⟩, ht, rfl⟩ := Option.map_eq_some_iff.mp hs
  obtain ⟨e, he, heq⟩ := Option.map_eq_some_iff.mp ht
  simp only [List.nil_append, Prod.mk.injEq] at heq
  obtain ⟨rfl, -, rfl⟩ := heq
  obtain ⟨f, hw, rfl, hst⟩ := (h.stands x).wrote he
  have hwA : (n.ep x).writer = .writing f := (h.stands x).same.2.1.trans hw
  refine ⟨(n.set x { n.ep x with writer := .top }).setWire x (n.wire x ++ [.good f]), ?_, ?_⟩
  · refine .tail .refl ⟨rfl, by simp⟩ (a := .write x .intact) ?_
    simp [Net.step, hwA, Endpoint.step, Fate.arrives]
  · refine .of_sides x (fun y => ?_) (fun y => ?_) ?_ ?_
    · simp only [set_tun, Function.update_apply]
      split_ifs with hy
      · exact h.records x
      · exact h.records y
    · simp only [set_tun, Net.set_ep, Net.setWire_ep, Function.update_apply]
      split_ifs with hy
      · exact hst
      · exact h.stands y
    · simpa [Tunnel.pipe, Function.update_of_ne x.peer_ne] using (h.carries x).wrote laws hw
    · simpa [Tunnel.pipe, Function.update_of_ne x.peer_ne] using h.incoming x

/-- The steps of the socket's read half leave the writer where it is. -/
theorem writer_of_read {e e' : Endpoint} {a : Act} (ha : a = .readerRead [] ∨ a = .readerEof)
    (h : e.step a = some e') : e'.writer = e.writer := by
  rcases ha with rfl | rfl
  all_goals
    simp only [Endpoint.step] at h
    split at h
    · cases h
      rfl
    · cases h

/-- **A read**: it completes no record, or the endpoint reads those that it completes. -/
theorem Simulates.read {x : Side} {k : ℕ} (h : Simulates s n)
    (hs : s.step (.read x k) = some s') :
    ∃ n', Reaches (Net.step fun _ _ => true) (OkStep ok) n n' ∧ Simulates s' n' := by
  obtain ⟨⟨t, inp, out⟩, ht, rfl⟩ := Option.map_eq_some_iff.mp hs
  simp only [Tunnel.step] at ht
  split at ht
  · obtain ⟨e, he, heq⟩ := Option.map_eq_some_iff.mp ht
    simp only [Prod.mk.injEq] at heq
    obtain ⟨rfl, rfl, -⟩ := heq
    obtain ⟨hA, -, hrec, hst, hread⟩ := (h.stands x).read (h.records x) he
    obtain ⟨m, hm, hin⟩ := (h.incoming x).read k
    have hwriter := writer_of_read (.inl rfl) he
    have hrecords : ∀ y, ((s.set x { s.tun x with
        ep := e, records := (s.tun x).records.push ((s.bytes x.peer).take k),
        seen := (s.tun x).seen ++ (s.bytes x.peer).take k }).tun y).ep.records = [] := by
      intro y
      simp only [set_tun, Function.update_apply]
      split_ifs with hy
      · exact hrec
      · exact h.records y
    have hout := h.carries x
    simp only [Tunnel.pipe] at hin hout
    rw [hA, List.nil_append] at hin
    rcases Nat.eq_zero_or_pos m with rfl | hpos
    · refine ⟨n, .refl, .of_sides x hrecords (fun y => ?_) ?_ ?_⟩
      · simp only [set_tun, Function.update_apply]
        split_ifs with hy
        · subst hy
          exact hst
        · exact h.stands y
      · simpa [Tunnel.pipe, hwriter, Function.update_of_ne x.peer_ne,
          Function.update_of_ne x.peer_ne.symm] using hout
      · simpa [Tunnel.pipe, hA, Function.update_of_ne x.peer_ne] using hin
    · obtain ⟨hstep, hst'⟩ := hread ((n.wire x.peer).take m)
      refine ⟨(n.set x (e.withRecords ((n.wire x.peer).take m))).setWire x.peer
        ((n.wire x.peer).drop m), ?_, .of_sides x hrecords (fun y => ?_) ?_ ?_⟩
      · refine .tail .refl ⟨rfl, by simp⟩ (a := .read x m) ?_
        simp [Net.step, hpos, hm, hstep]
      · simp only [set_tun, Net.set_ep, Net.setWire_ep, Function.update_apply]
        split_ifs with hy
        · exact hst'
        · exact h.stands y
      · simpa [Tunnel.pipe, hwriter, Function.update_of_ne x.peer_ne,
          Function.update_of_ne x.peer_ne.symm] using hout
      · simpa [Tunnel.pipe, Function.update_of_ne x.peer_ne] using hin
  · cases ht

/-- **The end of a stream**: all its records have been read. -/
theorem Simulates.eof {x : Side} (h : Simulates s n) (hs : s.step (.eof x) = some s') :
    ∃ n', Reaches (Net.step fun _ _ => true) (OkStep ok) n n' ∧ Simulates s' n' := by
  obtain ⟨⟨t, inp, out⟩, ht, rfl⟩ := Option.map_eq_some_iff.mp hs
  simp only [Tunnel.step] at ht
  split at ht
  · next hgone =>
    obtain ⟨hclosed, hbytes⟩ := hgone
    obtain ⟨e, he, heq⟩ := Option.map_eq_some_iff.mp ht
    simp only [Prod.mk.injEq] at heq
    obtain ⟨rfl, -, -⟩ := heq
    obtain ⟨hnil, hA, hrec⟩ := (h.stands x).eof (h.records x) he
    have hwriter := writer_of_read (.inr rfl) he
    have hout := h.carries x
    have hin := h.incoming x
    have hwire : n.wire x.peer = [] := hin.wire_nil hbytes
    have hclosedA : Net.closed (n.ep x.peer) = true := by
      rw [(h.stands x.peer).same.2.2]
      exact hclosed
    have hst : Stands e e := by
      have hstands : Stands e (e.withRecords []) := .inStep fun _ => rfl
      rwa [← hrec] at hstands
    refine ⟨n.set x e, .tail .refl ⟨rfl, by simp⟩ (a := .eof x) ?_, h.set hrec hst ?_ ?_⟩
    · simp [Net.step, hclosedA, hwire, hA]
    · simp only [Tunnel.pipe] at hout ⊢
      rw [hwriter]
      exact hout
    · rw [hrec, ← hnil]
      exact hin
  · cases ht

/-- **A step of the tunnels is matched by a run of the pair.** -/
theorem Simulates.step {a : LinkAct} (laws : core.Laws) (h : Simulates s n)
    (hn : Reachable (Net.step fun _ _ => true) (Net.connect pingSecs) n)
    (herr : ok .encryptErr = true) (hdead : ok .readerDead = true) (hok : OkAct ok s a)
    (hs : s.step a = some s') :
    ∃ n', Reaches (Net.step fun _ _ => true) (OkStep ok) n n' ∧ Simulates s' n' := by
  cases a with
  | act x a =>
    obtain ⟨t, ht, rfl⟩ := Option.map_eq_some_iff.mp hs
    have hbase : Net.Base n :=
      hn.invariant (Net.base_connect pingSecs) fun hb _ hs => Net.base_step hb (.of_step hs)
    have hfit := Endpoint.fitting_reachable (Net.endpoint_reachable hn x)
    have hsame := (h.stands x).same
    have hqueued : (n.ep x).frames ⊆ (n.ep x).sent := by
      intro f hf
      refine (hbase.order x).subset (List.mem_append_right _ ?_)
      unfold Endpoint.queued
      exact List.mem_append_right _ hf
    have hfits : ∀ f ∈ (s.tun x).ep.frames, f.fits = true := by
      intro f hf
      rw [← hsame.1] at hf
      exact hfit.sent f (hqueued hf)
    exact h.act laws hfits (hok x a rfl) herr hdead ht
  | part x k => exact ⟨n, .refl, h.part laws hs⟩
  | write x => exact h.write laws hs
  | read x k => exact h.read hs
  | eof x => exact h.eof hs

/-! ### A run with packets cut in two -/

/-- The writer of a side takes a frame and writes it in two parts. -/
def writeInTwo (x : Side) : List LinkAct :=
  [.act x .writerTop, .act x .writerTake, .part x 3, .write x]

/-- One stream, half-closed by the server; the first packet is read in two parts. -/
def halfCloseBytes : List LinkAct :=
  [[.act .client .accept, .act .client (.register 0), .act .client (.open 0),
      .act .client (.spawn 0)],
    writeInTwo .client,
    [.act .server .readerTop, .act .server .dispatch, .read .server 9, .act .server .readerTop,
      .act .server .dispatch, .read .server 5, .act .server .readerTop, .act .server .dispatch,
      .act .server (.dialOk 0), .act .server (.upEof 0), .act .server (.upClose 0)],
    writeInTwo .server,
    [.act .client .readerTop, .act .client .dispatch, .read .client 14, .act .client .readerTop,
      .act .client .dispatch, .act .client (.upRead 0 [7]), .act .client (.upSend 0),
      .act .client (.upEof 0), .act .client (.upClose 0)],
    writeInTwo .client, writeInTwo .client,
    [.act .server .dispatch, .read .server 29, .act .server .readerTop, .act .server .dispatch,
      .act .server .delivered, .act .server .dispatch, .act .server (.downRecv 0),
      .act .server (.downWrote 0), .act .server (.downEnd 0)]].flatten

/-- The codec that a side encrypts with. -/
def codec : Side → plain.PacketCodec
  | .client => (1, 0)
  | .server => (2, 0)

theorem codec_synced (x : Side) : plain.Synced (codec x) (codec x.peer.peer) := by
  rw [Side.peer_peer]
  exact fun ms => plain_inverts ms _

def okCheck (ok : Act → Bool) (_s : Linked core) : LinkAct → Bool
  | .act _ b => ok b
  | _ => true

theorem okAct_of_check {a : LinkAct} (h : okCheck ok s a = true) : OkAct ok s a := by
  rintro x b rfl
  exact h

/-- Whether one chunk has gone through, and both directions of the stream are closed. -/
def isThrough (s : Linked plain) : Bool :=
  (s.tun .client).ep.n = 1 ∧ (s.tun .client).ep.dead = false ∧ (s.tun .server).ep.dead = false ∧
    ((s.tun .server).ep.inst 0).phase = .pump .done .done ∧
    ((s.tun .server).ep.inst 0).received = [[7]]

theorem halfCloseBytes_run :
    ∃ s, Reaches Linked.step (OkAct Act.isSmooth)
      (connect (fun _ => 0) (fun x => codec x.peer) codec) s ∧ isThrough s = true :=
  reaches_of_exec (okCheck Act.isSmooth) halfCloseBytes (fun _ _ => okAct_of_check)
    (by decide +kernel)

/-! ### The refinement -/

theorem simulated {rx tx : Side → core.PacketCodec} (laws : core.Laws)
    (hsync : ∀ x : Side, core.Synced (tx x) (rx x.peer)) (herr : ok .encryptErr = true)
    (hdead : ok .readerDead = true)
    (h : Reaches Linked.step (OkAct ok) (connect pingSecs rx tx) s) :
    ∃ n, Reaches (Net.step fun _ _ => true) (OkStep ok) (Net.connect pingSecs) n ∧ Simulates s n :=
  h.simulate (simulates_connect hsync) fun ht hR hC hs =>
    hR.step laws ht.reachable herr hdead hC hs

/-- **Two tunnels on byte streams are the pair of endpoints on intact wires.** However the packets are cut
into writes and reads, and wherever writes and reads fail: every state that two tunnels with matched
codecs reach simulates one that the pair reaches. -/
theorem refines (rx tx : Side → core.PacketCodec) (laws : core.Laws)
    (hsync : ∀ x : Side, core.Synced (tx x) (rx x.peer))
    (h : Reachable Linked.step (connect pingSecs rx tx) s) :
    ∃ n, Reaches (Net.step fun _ _ => true) Net.IntactStep (Net.connect pingSecs) n ∧
      Simulates s n := by
  have hall : Reaches Linked.step (OkAct fun _ => true) (connect pingSecs rx tx) s :=
    h.mono fun _ _ _ _ _ _ => rfl
  obtain ⟨n, hn, hsim⟩ := simulated laws hsync rfl rfl hall
  exact ⟨n, hn.mono fun _ _ hc => hc.1, hsim⟩

theorem refines_halfClose :
    ∃ s n, Reaches (Net.step fun _ _ => true) Net.IntactStep (Net.connect fun _ => 0) n ∧
      Simulates s n ∧ isThrough s = true := by
  obtain ⟨s, hs, hthrough⟩ := halfCloseBytes_run
  obtain ⟨n, hn, hsim⟩ := refines (fun x => codec x.peer) codec plain_laws codec_synced hs.reachable
  exact ⟨s, n, hn, hsim, hthrough⟩

/-! ### Delivery on byte streams -/

/-- The two endpoints, with nothing on the wires. -/
def endpoints (s : Linked core) : Net := ⟨fun x => (s.tun x).ep, fun _ => []⟩

theorem Simulates.streams (h : Simulates s n) (x : Side) :
    (n.ep x).inst = (s.endpoints.ep x).inst ∧ (n.ep x).n = (s.endpoints.ep x).n ∧
      (n.ep x).dead = (s.endpoints.ep x).dead :=
  (h.stands x).streams

theorem Simulates.ordered (h : Simulates s n) (ho : Net.Ordered n) : Net.Ordered s.endpoints := by
  obtain ⟨hdist, hsub, hiso⟩ := ho
  have hinst := fun x => (h.streams x).1
  have hn := fun x => (h.streams x).2.1
  unfold Endpoint.IdsDistinct at hdist
  simp only [hinst, hn] at hdist hsub hiso
  exact ⟨hdist, hsub, hiso⟩

theorem Simulates.complete (h : Simulates s n) (hc : Net.Complete n) : Net.Complete s.endpoints := by
  have hinst := fun x => (h.streams x).1
  have hn := fun x => (h.streams x).2.1
  unfold Net.Complete at hc ⊢
  simp only [hinst, hn] at hc
  exact hc

/-- No id was allocated twice in the pair either. -/
theorem Simulates.ids (h : Simulates s n) (hids : (s.tun .client).ep.n < 2 ^ 32 - 1) :
    (n.ep .client).n ≤ 2 ^ 32 := by
  have hn : (n.ep .client).n = (s.tun .client).ep.n := (h.streams .client).2.1
  omega

section Delivery

variable {rx tx : Side → core.PacketCodec} (laws : core.Laws)
  (hsync : ∀ x : Side, core.Synced (tx x) (rx x.peer))
  (hids : (s.tun .client).ep.n < 2 ^ 32 - 1)

include laws hsync hids

theorem ordered_of_reaches (herr : ok .encryptErr = true) (hdead : ok .readerDead = true)
    (h : Reaches Linked.step (OkAct ok) (connect pingSecs rx tx) s) : Net.Ordered s.endpoints := by
  obtain ⟨n, hn, hsim⟩ := simulated laws hsync herr hdead h
  have hbase : Net.Base n :=
    hn.invariant (Net.base_connect pingSecs) fun hb _ hs => Net.base_step hb (.of_step hs)
  exact hsim.ordered (Net.ordered_of_base hbase (hsim.ids hids))

theorem complete_of_reaches
    (h : Reaches Linked.step (OkAct Act.isSmooth) (connect pingSecs rx tx) s)
    (halive : ∀ x, (s.tun x).ep.dead = false) : Net.Complete s.endpoints := by
  obtain ⟨n, hn, hsim⟩ := simulated laws hsync rfl rfl h
  have hinv : Net.SmoothInv n :=
    hn.invariant Net.smoothInv_connect fun hi hc hs =>
      Net.smoothInv_step hi ⟨hc.1, hc.2⟩ (.of_step hs)
  refine hsim.complete (Net.complete_of_smooth hinv (fun x => ?_) (hsim.ids hids))
  rw [(hsim.streams x).2.2]
  exact halive x

end Delivery

/-- **Delivery on byte streams**, with fewer than `2^32 - 1` ids allocated: per stream, what a pump
receives is in the order in which the peer's pump sent it; and all of it, if the tunnels are alive, no
consumer stalls or fails and every dial succeeds. -/
theorem delivers (rx tx : Side → core.PacketCodec) (laws : core.Laws)
    (hsync : ∀ x : Side, core.Synced (tx x) (rx x.peer))
    (hids : (s.tun .client).ep.n < 2 ^ 32 - 1) :
    (Reachable Linked.step (connect pingSecs rx tx) s → Net.Ordered s.endpoints) ∧
    (Reaches Linked.step (OkAct Act.isSmooth) (connect pingSecs rx tx) s →
      (∀ x, (s.tun x).ep.dead = false) → Net.Complete s.endpoints) := by
  refine ⟨fun h => ?_, complete_of_reaches laws hsync hids⟩
  have hall : Reaches Linked.step (OkAct fun _ => true) (connect pingSecs rx tx) s :=
    h.mono fun _ _ _ _ _ _ => rfl
  exact ordered_of_reaches laws hsync hids rfl rfl hall

theorem delivers_halfClose :
    ∃ s : Linked plain, Net.Ordered s.endpoints ∧ Net.Complete s.endpoints ∧
      isThrough s = true := by
  obtain ⟨s, hs, hthrough⟩ := halfCloseBytes_run
  obtain ⟨hn, hclient, hserver, -⟩ := of_decide_eq_true hthrough
  have hids : (s.tun .client).ep.n < 2 ^ 32 - 1 := by omega
  obtain ⟨hordered, hcomplete⟩ :=
    @delivers plain s (fun _ => 0) (fun x => codec x.peer) codec plain_laws codec_synced hids
  refine ⟨s, hordered hs.reachable, hcomplete hs ?_, hthrough⟩
  rintro (_ | _)
  · exact hclient
  · exact hserver

end Linked

end Handshake

end QeliSsPlugin
