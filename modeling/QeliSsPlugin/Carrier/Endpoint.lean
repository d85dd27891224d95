import QeliSsPlugin.Carrier.ReaderLoop
import QeliSsPlugin.Lib.Runs

/-! # One endpoint of a tunnel

The state of one `Tunnel` and of every task that works on it, at the granularity of the awaits and
locks of the source: the three loops of `spawn_tunnel` (reader, writer, keepalive), the
`accept_connection` and `on_open` tasks, the two halves of every `pump_stream`, and every call of
`kill`. A step (`step`) runs one task from one point where others can interfere to the next, so a
list of actions is an interleaving of the tasks.

A stream instance (`Stream`) is one inbound channel with the task that owns its receiver: an
`accept_connection` attempt, an `on_open` task, then a pump. The registry maps a stream id to the
instance whose sender it holds. The records the reader handles are `Outcome`s: `ReaderLoop` shows
that this is all the loop sees of the wire.

`sent`, `handled`, `log` and the instances' `received`, `taken` and `pumped` are history: nothing
in `step` reads them. -/

namespace QeliSsPlugin.Carrier

open QeliSsPlugin.Mux

/-- Frames queued from stream pumps towards the wire writer. -/
def frameChannelCapacity : ℕ := 256

/-- Per-stream inbound chunks buffered before the tunnel reader backpressures. -/
def inboundCapacity : ℕ := 64

/-- Local socket read size; also the largest single mux DATA chunk. -/
def readBuf : ℕ := maxData

/-- Which side of the tunnel an endpoint is: it decides the `on_open` it was spawned with. -/
inductive Side
  | client | server
  deriving DecidableEq

/-- The uplink half of a pump: reading the local socket, sending the chunks of one read, sending
the final CLOSE, finished. -/
inductive Up
  | reading
  | sending (rest : List Bytes)
  | closing
  | done
  deriving DecidableEq

/-- The downlink half of a pump: waiting for a chunk, writing one, finished (the local socket is
FINned and the receiver dropped). -/
inductive Down
  | receiving
  | writing (chunk : Bytes)
  | done
  deriving DecidableEq

/-- Where the task that owns an inbound receiver is. -/
inductive Phase
  /-- `accept_connection`: the id is allocated, the channel not registered yet. -/
  | allocated
  /-- `accept_connection`: registered, OPEN not sent yet. -/
  | registered
  /-- `accept_connection`: OPEN sent, `is_dead` not checked yet. -/
  | opened
  /-- `on_open` of the server: connecting upstream. -/
  | dialing
  /-- `on_open` of the server: the connect failed, not unregistered yet. -/
  | dialFailed
  /-- `on_open` of the server: unregistered, CLOSE not sent yet. -/
  | refusing
  /-- `on_open` of the client: the receiver is dropped, CLOSE not sent yet. -/
  | rejecting
  | pump (up : Up) (down : Down)
  /-- The task ended and no pump runs. -/
  | dropped
  deriving DecidableEq

/-- Whether the inbound receiver is still there. -/
def Phase.hasReceiver : Phase → Bool
  | .pump _ .done | .rejecting | .dropped => false
  | _ => true

/-- One inbound channel and the task that owns its receiver. -/
structure Stream where
  id : UInt32
  phase : Phase
  /-- The chunks buffered in the channel. -/
  inbound : List Bytes
  /-- The chunks the pump received from the channel. -/
  received : List Bytes
  /-- What the pump read from its local socket, read by read. -/
  taken : List Bytes
  /-- The chunks the pump enqueued as DATA. -/
  pumped : List Bytes
  deriving DecidableEq

/-- A channel with nothing in it. -/
def Stream.fresh (id : UInt32) (phase : Phase) : Stream := ⟨id, phase, [], [], [], []⟩

/-- Where `reader_loop` is. -/
inductive Reader
  /-- At the top of the outer loop, about to check the dead flag. -/
  | top
  /-- Dispatching the buffered records. -/
  | drain
  /-- Waiting for a read or the dead flag. -/
  | select
  /-- In `deliver`, sending a chunk to instance `k`. -/
  | delivering (k : ℕ) (id : UInt32) (payload : Bytes)
  /-- In `deliver`, timed out with the sender of instance `k` in hand, about to remove the stream. -/
  | stalled (k : ℕ) (id : UInt32)
  /-- About to enqueue a PONG or an echoed CLOSE. -/
  | replying (frame : Frame)
  /-- Found the frame channel full, waiting to enqueue. -/
  | waiting (frame : Frame)
  /-- Out of the loop. -/
  | left
  deriving DecidableEq

/-- Where `writer_loop` is. -/
inductive Writer
  | top
  | select
  | writing (frame : Frame)
  | left
  deriving DecidableEq

/-- Where `keepalive_loop` is; `before` is the PONG count sampled at the tick. -/
inductive Keepalive
  | off
  | top
  | select
  | pinging (before : ℕ)
  | grace (before : ℕ)
  | left
  deriving DecidableEq

/-- A task on its way through `log_tunnel_death` and `kill_with`. -/
inductive Exit
  | idle
  /-- Check whether a cause is recorded. -/
  | logCheck (cause : DeathCause)
  /-- Lock the registry to count the streams. -/
  | logLen (cause : DeathCause)
  /-- Emit the log line. -/
  | logLine (cause : DeathCause)
  /-- `kill_with`: record the cause. -/
  | setCause (cause : DeathCause)
  /-- `kill`: record `Killed`. -/
  | setKilled
  /-- `kill`: set the dead flag. -/
  | setDead
  /-- `kill`: close every stream. -/
  | closeAll
  | done
  deriving DecidableEq

/-- Who kills: one of the loops, or one of the external `kill()` calls. -/
inductive Who
  | reader | writer | keepalive
  | caller (n : ℕ)
  deriving DecidableEq

structure Endpoint where
  side : Side
  /-- The registry: the instance whose sender is held for an id. -/
  streams : UInt32 → Option ℕ
  /-- The instances; those created so far are `0, …, n - 1`. -/
  inst : ℕ → Stream
  n : ℕ
  nextId : UInt32
  /-- The frame channel. -/
  frames : List Frame
  /-- Whether the writer still holds its receiver. -/
  framesOpen : Bool
  dead : Bool
  cause : Option DeathCause
  pongs : ℕ
  reader : Reader
  /-- Complete records read from the socket and not dispatched yet. -/
  records : List Outcome
  badStreak : ℕ
  writer : Writer
  keepalive : Keepalive
  exit : Who → Exit
  /-- Every frame enqueued so far. -/
  sent : List Frame
  /-- Every record dispatched so far. -/
  handled : List Outcome
  /-- The tunnel-down lines logged so far. -/
  log : List (Who × DeathCause)

namespace Endpoint

/-- The endpoint as `spawn_tunnel` leaves it. -/
def spawnTunnel (side : Side) (pingSecs : ℕ) : Endpoint where
  side := side
  streams _ := none
  inst _ := .fresh 0 .dropped
  n := 0
  nextId := 1
  frames := []
  framesOpen := true
  dead := false
  cause := none
  pongs := 0
  reader := .top
  records := []
  badStreak := 0
  writer := .top
  keepalive := if pingSecs > 0 then .top else .off
  exit _ := .idle
  sent := []
  handled := []
  log := []

/-- Whether the frame channel has a free slot. -/
def hasRoom (e : Endpoint) : Bool := e.frames.length < frameChannelCapacity

/-- Enqueue a frame. -/
@[simps] def push (e : Endpoint) (f : Frame) : Endpoint :=
  { e with frames := e.frames ++ [f], sent := e.sent ++ [f] }

/-- Change the instance `k`. -/
@[simps] def setStream (e : Endpoint) (k : ℕ) (s : Stream) : Endpoint :=
  { e with inst := Function.update e.inst k s }

/-- Move the task of instance `k`. -/
@[simps] def setPhase (e : Endpoint) (k : ℕ) (p : Phase) : Endpoint :=
  { e with inst := Function.update e.inst k { e.inst k with phase := p } }

/-- Create an instance. -/
@[simps] def addStream (e : Endpoint) (s : Stream) : Endpoint :=
  { e.setStream e.n s with n := e.n + 1 }

/-- `StreamRegistry::register`; a previous sender is dropped. -/
@[simps] def register (e : Endpoint) (id : UInt32) (k : ℕ) : Endpoint :=
  { e with streams := Function.update e.streams id (some k) }

/-- `StreamRegistry::remove`. -/
@[simps] def remove (e : Endpoint) (id : UInt32) : Endpoint :=
  { e with streams := Function.update e.streams id none }

/-- Set the task `w` on its way through the death sequence. -/
@[simps] def setExit (e : Endpoint) (w : Who) (x : Exit) : Endpoint :=
  { e with exit := Function.update e.exit w x }

/-- Leave the reader loop with a cause. -/
@[simps] def leaveReader (e : Endpoint) (cause : DeathCause) : Endpoint :=
  { e.setExit .reader (.logCheck cause) with reader := .left }

/-- Leave the writer loop with a cause. -/
@[simps] def leaveWriter (e : Endpoint) (cause : DeathCause) : Endpoint :=
  { e.setExit .writer (.logCheck cause) with writer := .left }

/-- Whether a sender of the inbound channel of instance `k` is still held, by the registry or by
the reader inside `deliver`. -/
def senderHeld (e : Endpoint) (k : ℕ) : Bool :=
  e.streams (e.inst k).id = some k ||
    match e.reader with
    | .delivering k' _ _ | .stalled k' _ => k' = k
    | _ => false

end Endpoint

/-- `<[u8]>::chunks`. -/
def chunks (size : ℕ) (data : Bytes) : List Bytes :=
  (List.range ((data.length + size - 1) / size)).map fun i => (data.drop (i * size)).take size

theorem chunks_of_length_le {size : ℕ} {data : Bytes} (hne : data ≠ []) (h : data.length ≤ size) :
    chunks size data = [data] := by
  have hpos := List.length_pos_iff.mpr hne
  have hdiv : (data.length + size - 1) / size = 1 := by
    rw [Nat.div_eq_iff (by omega)]; omega
  unfold chunks
  rw [hdiv]
  simp [List.take_of_length_le h]

/-- The actions of an endpoint's tasks. `k` is the instance whose task acts. -/
inductive Act
  -- `accept_connection`
  | accept
  | register (k : ℕ)
  | open (k : ℕ)
  | spawn (k : ℕ)
  -- `on_open`
  | dialOk (k : ℕ)
  | dialErr (k : ℕ)
  | unregister (k : ℕ)
  | refuse (k : ℕ)
  -- the pump
  | upRead (k : ℕ) (data : Bytes)
  | upEof (k : ℕ)
  | upSend (k : ℕ)
  | upClose (k : ℕ)
  | downRecv (k : ℕ)
  | downEnd (k : ℕ)
  | downWrote (k : ℕ)
  | downFail (k : ℕ)
  -- the reader
  | readerTop
  | dispatch
  | readerRead (rs : List Outcome)
  | readerEof
  | readerErr
  | readerDead
  | delivered
  | undeliverable
  | stall
  | dropStalled
  | reply
  | resume
  -- the writer
  | writerTop
  | writerTake
  | encryptErr
  | wrote
  | writeErr
  | writerDead
  | writerReturn
  -- the keepalive
  | keepaliveTop
  | tick
  | ping (nonce : Nonce)
  | graceOver
  | keepaliveDead
  -- death
  | exit (w : Who)
  | kill (n : ℕ)
  deriving DecidableEq

namespace Endpoint

/-! ### The steps -/

/-- Move the uplink half after one chunk: the next chunk of this read, or the next read. -/
def afterChunk (rest : List Bytes) : Up := if rest = [] then .reading else .sending rest

/-- The task spawned for an OPEN: the server dials upstream, the client refuses the stream. -/
def onOpen : Side → Phase
  | .server => .dialing
  | .client => .rejecting

/-- The reader's `match frame`. -/
def dispatchFrame (e : Endpoint) : Frame → Endpoint
  | .open id => (e.addStream (.fresh id (onOpen e.side))).register id e.n
  | .data id payload =>
    match e.streams id with
    | some k => { e with reader := .delivering k id payload }
    | none => { e with reader := .replying (.close id) }
  | .close id => e.remove id
  | .ping nonce => { e with reader := .replying (.pong nonce) }
  | .pong _ => { e with pongs := e.pongs + 1 }

/-- Handle one buffered record. -/
def dispatchRecord (e : Endpoint) (o : Outcome) (rest : List Outcome) : Endpoint :=
  let verdict := judge e.badStreak o
  let e := { e with records := rest, badStreak := verdict.1, handled := e.handled ++ [o] }
  match verdict.2, o with
  | some cause, _ => e.leaveReader cause
  | none, .good f => e.dispatchFrame f
  | none, _ => e

/-- One step of `log_tunnel_death` followed by `kill_with` (or of `kill` alone). -/
def exitStep (e : Endpoint) (w : Who) : Option Endpoint :=
  match e.exit w with
  | .idle | .done => none
  | .logCheck c => some (e.setExit w (if e.cause.isSome then .setCause c else .logLen c))
  | .logLen c => some (e.setExit w (.logLine c))
  | .logLine c => some { e.setExit w (.setCause c) with log := e.log ++ [(w, c)] }
  | .setCause c => some { e.setExit w .setKilled with cause := e.cause.or (some c) }
  | .setKilled => some { e.setExit w .setDead with cause := e.cause.or (some .killed) }
  | .setDead => some { e.setExit w .closeAll with dead := true }
  | .closeAll => some { e.setExit w .done with streams := fun _ => none }

/-- Try to enqueue the reader's reply: a closed channel is ignored, a full one is waited for. -/
def replyStep (e : Endpoint) (f : Frame) : Endpoint :=
  if e.framesOpen = false then { e with reader := .drain }
  else if e.hasRoom then { e.push f with reader := .drain }
  else { e with reader := .waiting f }

/-- **One step of one task**; `none` if the task is not at that point or has to wait. -/
def step (e : Endpoint) : Act → Option Endpoint
  | .accept =>
    if e.side = .client then
      some { e.addStream (.fresh e.nextId .allocated) with nextId := e.nextId + 1 }
    else none
  | .register k =>
    match (e.inst k).phase with
    | .allocated => some ((e.setPhase k .registered).register (e.inst k).id k)
    | _ => none
  | .open k =>
    match (e.inst k).phase with
    | .registered =>
      if e.framesOpen = false then some (e.setPhase k .dropped)
      else if e.hasRoom then some ((e.setPhase k .opened).push (.open (e.inst k).id))
      else none
    | _ => none
  | .spawn k =>
    match (e.inst k).phase with
    | .opened =>
      some (e.setPhase k (if e.dead then .dropped else .pump .reading .receiving))
    | _ => none
  | .dialOk k =>
    match (e.inst k).phase with
    | .dialing => some (e.setPhase k (.pump .reading .receiving))
    | _ => none
  | .dialErr k =>
    match (e.inst k).phase with
    | .dialing => some (e.setPhase k .dialFailed)
    | _ => none
  | .unregister k =>
    match (e.inst k).phase with
    | .dialFailed => some ((e.setPhase k .refusing).remove (e.inst k).id)
    | _ => none
  | .refuse k =>
    match (e.inst k).phase with
    | .refusing | .rejecting =>
      if e.framesOpen = false then some (e.setPhase k .dropped)
      else if e.hasRoom then some ((e.setPhase k .dropped).push (.close (e.inst k).id))
      else none
    | _ => none
  | .upRead k data =>
    match (e.inst k).phase with
    | .pump .reading down =>
      if data ≠ [] ∧ data.length ≤ readBuf then
        some (e.setStream k { e.inst k with
          phase := .pump (.sending (chunks maxData data)) down,
          taken := (e.inst k).taken ++ [data] })
      else none
    | _ => none
  | .upEof k =>
    match (e.inst k).phase with
    | .pump .reading down => some (e.setPhase k (.pump .closing down))
    | _ => none
  | .upSend k =>
    match (e.inst k).phase with
    | .pump (.sending (c :: rest)) down =>
      if e.framesOpen = false then some (e.setPhase k (.pump .closing down))
      else if e.hasRoom then
        some ((e.setStream k { e.inst k with
          phase := .pump (afterChunk rest) down,
          pumped := (e.inst k).pumped ++ [c] }).push (.data (e.inst k).id c))
      else none
    | _ => none
  | .upClose k =>
    match (e.inst k).phase with
    | .pump .closing down =>
      if e.framesOpen = false then some (e.setPhase k (.pump .done down))
      else if e.hasRoom then
        some ((e.setPhase k (.pump .done down)).push (.close (e.inst k).id))
      else none
    | _ => none
  | .downRecv k =>
    match (e.inst k).phase, (e.inst k).inbound with
    | .pump up .receiving, c :: cs =>
      some (e.setStream k { e.inst k with
        phase := .pump up (.writing c), inbound := cs, received := (e.inst k).received ++ [c] })
    | _, _ => none
  | .downEnd k =>
    match (e.inst k).phase, (e.inst k).inbound with
    | .pump up .receiving, [] =>
      if e.senderHeld k then none else some (e.setPhase k (.pump up .done))
    | _, _ => none
  | .downWrote k =>
    match (e.inst k).phase with
    | .pump up (.writing _) => some (e.setPhase k (.pump up .receiving))
    | _ => none
  | .downFail k =>
    match (e.inst k).phase with
    | .pump up (.writing _) => some (e.setPhase k (.pump up .done))
    | _ => none
  | .readerTop =>
    match e.reader with
    | .top => some (if e.dead then e.leaveReader .killed else { e with reader := .drain })
    | _ => none
  | .dispatch =>
    match e.reader, e.records with
    | .drain, [] => some { e with reader := .select }
    | .drain, o :: rest => some (e.dispatchRecord o rest)
    | _, _ => none
  | .readerRead rs =>
    match e.reader with
    | .select => some { e with reader := .top, records := e.records ++ rs }
    | _ => none
  | .readerEof =>
    match e.reader with
    | .select => some (e.leaveReader .peerClosed)
    | _ => none
  | .readerErr =>
    match e.reader with
    | .select => some (e.leaveReader .readError)
    | _ => none
  | .readerDead =>
    match e.reader with
    | .select => if e.dead then some (e.leaveReader .killed) else none
    | _ => none
  | .delivered =>
    match e.reader with
    | .delivering k _ payload =>
      if (e.inst k).phase.hasReceiver ∧ (e.inst k).inbound.length < inboundCapacity then
        some { e.setStream k { e.inst k with inbound := (e.inst k).inbound ++ [payload] } with
          reader := .drain }
      else none
    | _ => none
  | .undeliverable =>
    match e.reader with
    | .delivering k id _ =>
      if (e.inst k).phase.hasReceiver then none
      else some { e with reader := .replying (.close id) }
    | _ => none
  | .stall =>
    match e.reader with
    | .delivering k id _ =>
      if (e.inst k).phase.hasReceiver ∧ inboundCapacity ≤ (e.inst k).inbound.length then
        some { e with reader := .stalled k id }
      else none
    | _ => none
  | .dropStalled =>
    match e.reader with
    | .stalled _ id => some { e.remove id with reader := .replying (.close id) }
    | _ => none
  | .reply =>
    match e.reader with
    | .replying f => some (e.replyStep f)
    | _ => none
  | .resume =>
    match e.reader with
    | .waiting f => if e.framesOpen ∧ ¬ e.hasRoom then none else some (e.replyStep f)
    | _ => none
  | .writerTop =>
    match e.writer with
    | .top => some (if e.dead then e.leaveWriter .killed else { e with writer := .select })
    | _ => none
  | .writerTake =>
    match e.writer, e.frames with
    | .select, f :: fs => some { e with writer := .writing f, frames := fs }
    | _, _ => none
  | .encryptErr =>
    match e.writer, e.frames with
    | .select, _ :: fs => some { e.leaveWriter .wireCorruption with frames := fs }
    | _, _ => none
  | .wrote =>
    match e.writer with
    | .writing _ => some { e with writer := .top }
    | _ => none
  | .writeErr =>
    match e.writer with
    | .writing _ => some (e.leaveWriter .writeError)
    | _ => none
  | .writerDead =>
    match e.writer with
    | .select => if e.dead then some (e.leaveWriter .killed) else none
    | _ => none
  | .writerReturn =>
    match e.exit .writer with
    | .done => if e.framesOpen then some { e with framesOpen := false, frames := [] } else none
    | _ => none
  | .keepaliveTop =>
    match e.keepalive with
    | .top => some { e with keepalive := if e.dead then .left else .select }
    | _ => none
  | .tick =>
    match e.keepalive with
    | .select => some { e with keepalive := .pinging e.pongs }
    | _ => none
  | .ping nonce =>
    match e.keepalive with
    | .pinging before =>
      if e.framesOpen = false then some { e with keepalive := .left }
      else if e.hasRoom then some { e.push (.ping nonce) with keepalive := .grace before }
      else none
    | _ => none
  | .graceOver =>
    match e.keepalive with
    | .grace before =>
      if e.pongs ≤ before then
        some { e.setExit .keepalive (.logCheck .keepaliveTimeout) with keepalive := .left }
      else some { e with keepalive := .top }
    | _ => none
  | .keepaliveDead =>
    match e.keepalive with
    | .select | .grace _ => if e.dead then some { e with keepalive := .left } else none
    | _ => none
  | .exit w => e.exitStep w
  | .kill n =>
    match e.exit (.caller n) with
    | .idle => some (e.setExit (.caller n) .setKilled)
    | _ => none

end Endpoint

end QeliSsPlugin.Carrier
