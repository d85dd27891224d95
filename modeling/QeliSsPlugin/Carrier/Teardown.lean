import QeliSsPlugin.Carrier.Streams

/-!
# A dead tunnel winds down

Once the dead flag is set, every task of the tunnel comes to its end: the loops leave, the writer's return
closes the frame channel, and with it the pumps lose both their ways to wait. Two facts make this up.

* `teardown_bounded`: a dead tunnel has only so many steps left. Each step lowers `effort`, which counts
  what the tasks have still to do. A pump may go round its loop again only by enqueueing a chunk, and the
  frame channel has room for a bounded number of frames, since the writer takes at most one more.
* `teardown_complete`: a dead tunnel whose tasks can take no step has been torn down. No task waits for
  another: whoever waits for room in the frame channel waits for the writer, and the writer for nobody.
-/

namespace QeliSsPlugin.Carrier

open QeliSsPlugin.Lib.Runs QeliSsPlugin.Mux

/-! ### What is still to be done -/

def Up.effort : Up → ℕ
  | .reading => 3
  | .sending _ => 2
  | .closing => 1
  | .done => 0

def Down.effort : Down → ℕ
  | .writing _ => 2
  | .receiving => 1
  | .done => 0

def Phase.effort : Phase → ℕ
  | .allocated => 8
  | .registered => 7
  | .opened => 6
  | .dialing => 5
  | .dialFailed => 2
  | .refusing | .rejecting => 1
  | .pump up down => up.effort + down.effort
  | .dropped => 0

/-- A chunk in the channel is received and written. -/
def Stream.effort (s : Stream) : ℕ := s.phase.effort + 2 * s.inbound.length

/-- The reader handles its `m` records only before it has seen the dead flag. -/
def Reader.effort (m : ℕ) : Reader → ℕ
  | .delivering _ _ _ => 10 * m + 7
  | .stalled _ _ => 10 * m + 6
  | .replying _ => 10 * m + 5
  | .waiting _ => 10 * m + 4
  | .drain => 10 * m + 3
  | .select => 2
  | .top => 1
  | .left => 0

def Writer.effort : Writer → ℕ
  | .select => 3
  | .writing _ => 2
  | .top => 1
  | .left => 0

def Keepalive.effort : Keepalive → ℕ
  | .select => 4
  | .pinging _ => 3
  | .grace _ => 2
  | .top => 1
  | .off | .left => 0

def Exit.effort : Exit → ℕ
  | .idle | .logCheck _ => 7
  | .logLen _ => 6
  | .logLine _ => 5
  | .setCause _ => 4
  | .setKilled => 3
  | .setDead => 2
  | .closeAll => 1
  | .done => 0

/-- The actions of the tunnel's own tasks: all but new connections and external `kill`s. -/
def Act.isTask : Act → Bool
  | .accept | .kill _ | .exit (.caller _) => false
  | _ => true

def Act.isAccept : Act → Bool
  | .accept => true
  | _ => false

/-- What happens to a tunnel from outside: calls, the sockets, the keepalive's timers. -/
def Act.isExternal : Act → Bool
  | .accept | .kill _ => true
  | .upRead _ _ | .upEof _ | .downWrote _ | .downFail _ | .dialOk _ | .dialErr _ => true
  | .readerRead _ | .readerEof | .readerErr | .wrote | .writeErr => true
  | .tick | .graceOver => true
  | _ => false

def Up.isAtRest : Up → Bool
  | .reading | .done => true
  | _ => false

def Down.isAtRest : Down → Bool
  | .writing _ | .done => true
  | _ => false

/-- Whether the uplink has no chunk to send; `upSend` takes one. -/
def Phase.sendsNothing : Phase → Bool
  | .pump up _ => up = .sending []
  | _ => false

/-- Whether a stream's task is over or waits for its own socket. -/
def Phase.isAtRest : Phase → Bool
  | .dropped | .dialing => true
  | .pump up down => up.isAtRest && down.isAtRest
  | _ => false

namespace Endpoint

variable {e e' : Endpoint} {a : Act} {side : Side} {pingSecs : ℕ} {w : Who}

/-- How many frames can still be enqueued: the free slots, and one more if the writer takes a frame. -/
def slots (e : Endpoint) : ℕ :=
  if e.framesOpen then
    frameChannelCapacity - e.frames.length + (match e.writer with
      | .select => 1
      | _ => 0)
  else 0

/-- What the loops have to do on their way through the death sequence. -/
def exits (exit : Who → Exit) : ℕ :=
  (exit .reader).effort + (exit .writer).effort + (exit .keepalive).effort

/-- What all but the streams have still to do. -/
def loopsEffort (e : Endpoint) : ℕ :=
  4 * e.slots + e.reader.effort e.records.length + e.writer.effort + e.keepalive.effort +
    exits e.exit + e.framesOpen.toNat

/-- **What the tasks of a dead tunnel have still to do.** -/
def effort (e : Endpoint) : ℕ := ∑ k ∈ Finset.range e.n, (e.inst k).effort + e.loopsEffort

/-! ### Every step is work done -/

theorem sum_effort_update (inst : ℕ → Stream) {k n : ℕ} (hk : k < n) (s : Stream) :
    ∑ i ∈ Finset.range n, (Function.update inst k s i).effort + (inst k).effort =
      ∑ i ∈ Finset.range n, (inst i).effort + s.effort := by
  have hmem : k ∈ Finset.range n := Finset.mem_range.mpr hk
  have hrest : ∑ i ∈ (Finset.range n).erase k, (Function.update inst k s i).effort =
      ∑ i ∈ (Finset.range n).erase k, (inst i).effort :=
    Finset.sum_congr rfl fun i hi => by rw [Function.update_of_ne (Finset.ne_of_mem_erase hi)]
  rw [← Finset.add_sum_erase _ _ hmem, ← Finset.add_sum_erase (Finset.range n) _ hmem, hrest,
    Function.update_self]
  omega

theorem slots_push (hopen : e.framesOpen = true) (hroom : e.hasRoom = true) (f : Frame) :
    (e.push f).slots + 1 = e.slots := by
  have hlt : e.frames.length < frameChannelCapacity := of_decide_eq_true hroom
  simp only [slots, push_framesOpen, push_frames, push_writer, hopen, if_true, List.length_append,
    List.length_singleton]
  omega

theorem exits_update {exit : Who → Exit} {y : Exit} (h : y.effort < (exit w).effort) :
    exits (Function.update exit w y) + (Act.exit w).isTask.toNat ≤ exits exit := by
  cases w with
  | reader | writer | keepalive =>
    simp [exits, Act.isTask]
    omega
  | caller n => simp [exits, Act.isTask]

theorem Move.effort_lt {k : ℕ} {p p' : Phase} (hd : e.dead = true) (h : Move e k a p p') :
    p'.effort < p.effort := by
  cases h with
  | spawn hlive => rw [hd] at hlive; cases hlive
  | _ => simp [Phase.effort, Up.effort, Down.effort]

theorem Post.effort_lt {id : UInt32} {k : ℕ} {p p' : Phase} {f : Frame} (h : Post id k a p p' f) :
    p'.effort < p.effort := by
  cases h <;> simp [Phase.effort, Up.effort]

theorem Goto.effort_lt {r r' : Reader} (hd : e.dead = true) (h : Goto e a r r') :
    r'.effort e.records.length < r.effort e.records.length := by
  cases h with
  | top hlive => rw [hd] at hlive; cases hlive
  | drained hrec => simp [Reader.effort, hrec]
  | _ => simp [Reader.effort]

theorem Beat.effort_lt {k k' : Keepalive} (hd : e.dead = true) (h : Beat e a k k') :
    k'.effort < k.effort := by
  cases h with
  | top hlive => rw [hd] at hlive; cases hlive
  | _ => simp [Keepalive.effort]

/-- A step that leaves the instances alone. -/
theorem effort_of_loops {c d : ℕ} (hn : e'.n = e.n) (hinst : e'.inst = e.inst)
    (h : e'.loopsEffort + c ≤ e.loopsEffort + d) : e'.effort + c ≤ e.effort + d := by
  unfold effort
  rw [hn, hinst]
  omega

/-- A step that changes the instance `k`. -/
theorem effort_of_inst {c d k : ℕ} {s : Stream} (hk : k < e.n) (hn : e'.n = e.n)
    (hinst : e'.inst = Function.update e.inst k s)
    (h : s.effort + e'.loopsEffort + c ≤ (e.inst k).effort + e.loopsEffort + d) :
    e'.effort + c ≤ e.effort + d := by
  have hsum := sum_effort_update e.inst hk s
  unfold effort
  rw [hn, hinst]
  omega

/-- A step that puts more into the instance `k`, for which the loops pay. -/
theorem effort_of_paid {c d k p : ℕ} {s : Stream} (hk : k < e.n) (hn : e'.n = e.n)
    (hinst : e'.inst = Function.update e.inst k s) (hs : s.effort ≤ (e.inst k).effort + p)
    (h : e'.loopsEffort + (p + c) ≤ e.loopsEffort + d) : e'.effort + c ≤ e.effort + d :=
  effort_of_inst hk hn hinst (by omega)

/-- A step that adds an instance, for which the loops pay. -/
theorem effort_of_addStream {c d p : ℕ} {s : Stream} (hn : e'.n = e.n + 1)
    (hinst : e'.inst = Function.update e.inst e.n s) (hs : s.effort ≤ p)
    (h : e'.loopsEffort + (p + c) ≤ e.loopsEffort + d) : e'.effort + c ≤ e.effort + d := by
  have hold : ∑ k ∈ Finset.range e.n, (Function.update e.inst e.n s k).effort =
      ∑ k ∈ Finset.range e.n, (e.inst k).effort := by
    refine Finset.sum_congr rfl fun k hk => ?_
    rw [Function.update_of_ne (Finset.mem_range.mp hk).ne]
  unfold effort
  rw [hn, hinst, Finset.sum_range_succ, hold, Function.update_self]
  omega

/-- An enqueued frame takes a slot. -/
theorem loopsEffort_push_eq (hopen : e.framesOpen = true) (hroom : e.hasRoom = true) (f : Frame) :
    (e.push f).loopsEffort + 4 = e.loopsEffort := by
  have hslots := slots_push hopen hroom f
  have hexits : exits (e.push f).exit = exits e.exit := rfl
  simp only [loopsEffort, hexits, push_reader, push_records, push_writer, push_keepalive,
    push_framesOpen]
  omega

/-- The writer moves on: it does not free a slot that was not counted. -/
theorem slots_writer (h : e'.framesOpen = e.framesOpen) (hw : e'.writer ≠ .select)
    (hf : e'.frames = e.frames ∨ e.writer = .select ∧ ∃ f, e.frames = f :: e'.frames) :
    e'.slots ≤ e.slots := by
  unfold slots
  rw [h]
  split_ifs with ho
  · rcases hf with hf | ⟨hs, f, hf⟩
    · rw [hf]
      generalize e'.writer = w at hw
      cases w <;> simp at hw ⊢
    · rw [hf, hs, List.length_cons]
      generalize e'.writer = w at hw
      cases w <;> simp at hw ⊢ <;> omega
  · exact le_rfl

/-- A loop leaves its loop to kill the tunnel. -/
theorem exits_leave {c : DeathCause} (h : e.exit w = .idle) :
    exits (Function.update e.exit w (.logCheck c)) = exits e.exit := by
  cases w <;> simp [exits, Exit.effort, h]

/-- A step of the reader that enqueues nothing. -/
theorem loopsEffort_of_reader {c d : ℕ} (hs : e'.slots = e.slots) (hw : e'.writer = e.writer)
    (hk : e'.keepalive = e.keepalive) (ho : e'.framesOpen = e.framesOpen)
    (hx : exits e'.exit = exits e.exit)
    (h : e'.reader.effort e'.records.length + c ≤ e.reader.effort e.records.length + d) :
    e'.loopsEffort + c ≤ e.loopsEffort + d := by
  unfold loopsEffort
  rw [hs, hw, hk, ho, hx]
  omega

/-- A step of the reader that enqueues nothing and leaves the instances alone. -/
theorem effort_of_reader {c d : ℕ}
    (hrest : e' = { e with
      reader := e'.reader, records := e'.records, badStreak := e'.badStreak,
      handled := e'.handled, streams := e'.streams, pongs := e'.pongs, exit := e'.exit })
    (hx : exits e'.exit = exits e.exit)
    (h : e'.reader.effort e'.records.length + c ≤ e.reader.effort e.records.length + d) :
    e'.effort + c ≤ e.effort + d := by
  have hsame : e'.n = e.n ∧ e'.inst = e.inst ∧ e'.slots = e.slots ∧ e'.writer = e.writer ∧
      e'.keepalive = e.keepalive ∧ e'.framesOpen = e.framesOpen := by
    rw [hrest]
    exact ⟨rfl, rfl, rfl, rfl, rfl, rfl⟩
  obtain ⟨hn, hinst, hs, hw, hk, ho⟩ := hsame
  exact effort_of_loops hn hinst (loopsEffort_of_reader hs hw hk ho hx h)

/-- A step of the writer that leaves the channel open. -/
theorem effort_of_writer {c d : ℕ}
    (hrest : e' = { e with writer := e'.writer, frames := e'.frames, exit := e'.exit })
    (hs : e'.slots ≤ e.slots) (hx : exits e'.exit = exits e.exit)
    (h : e'.writer.effort + c ≤ e.writer.effort + d) : e'.effort + c ≤ e.effort + d := by
  have hsame : e'.n = e.n ∧ e'.inst = e.inst ∧ e'.reader = e.reader ∧ e'.records = e.records ∧
      e'.keepalive = e.keepalive ∧ e'.framesOpen = e.framesOpen := by
    rw [hrest]
    exact ⟨rfl, rfl, rfl, rfl, rfl, rfl⟩
  obtain ⟨hn, hinst, hr, hrec, hk, ho⟩ := hsame
  refine effort_of_loops hn hinst ?_
  unfold loopsEffort
  rw [hr, hrec, hk, ho, hx]
  omega

/-- A step of the keepalive or of the death sequence that enqueues nothing. -/
theorem effort_of_exits {c d : ℕ}
    (hrest : e' = { e with
      keepalive := e'.keepalive, exit := e'.exit, log := e'.log, cause := e'.cause,
      dead := e'.dead, streams := e'.streams })
    (h : e'.keepalive.effort + exits e'.exit + c ≤ e.keepalive.effort + exits e.exit + d) :
    e'.effort + c ≤ e.effort + d := by
  have hsame : e'.n = e.n ∧ e'.inst = e.inst ∧ e'.slots = e.slots ∧ e'.reader = e.reader ∧
      e'.records = e.records ∧ e'.writer = e.writer ∧ e'.framesOpen = e.framesOpen := by
    rw [hrest]
    exact ⟨rfl, rfl, rfl, rfl, rfl, rfl, rfl⟩
  obtain ⟨hn, hinst, hs, hr, hrec, hw, ho⟩ := hsame
  refine effort_of_loops hn hinst ?_
  unfold loopsEffort
  rw [hs, hr, hrec, hw, ho]
  omega

/-- A task moves on in the death sequence. -/
theorem effort_of_exit {y : Exit} {c d : ℕ} (hy : y.effort < (e.exit w).effort)
    (hexit : e'.exit = Function.update e.exit w y)
    (hrest : e' = { e with
      keepalive := e.keepalive, exit := e'.exit, log := e'.log, cause := e'.cause,
      dead := e'.dead, streams := e'.streams })
    (hc : c ≤ (Act.exit w).isTask.toNat) : e'.effort + c ≤ e.effort + d := by
  have hle := exits_update hy
  have hk : e'.keepalive = e.keepalive := by rw [hrest]
  refine effort_of_exits (by rw [hk]; exact hrest) ?_
  rw [hk, hexit]
  omega

/-- **Every step of a dead tunnel's tasks is work done**; only a new connection brings more. -/
theorem effort_step (hl : LoopsInv e) (hi : Instances e) (hd : e.dead = true) (h : e.Step a e') :
    e'.effort + a.isTask.toNat ≤ e.effort + 8 * a.isAccept.toNat := by
  have htask : a.isTask.toNat ≤ 1 := Bool.toNat_le _
  cases h with
  | accept => exact effort_of_addStream (p := 8) rfl rfl le_rfl le_rfl
  | @register k hp =>
    have hk : k < e.n := hi.lt (by simp [hp])
    refine effort_of_inst hk rfl rfl ?_
    show 7 + 2 * (e.inst k).inbound.length + e.loopsEffort + _ ≤ _
    rw [Stream.effort, hp, Phase.effort]
    omega
  | @move _ k p hm =>
    have hlt := hm.effort_lt hd
    refine effort_of_inst (hi.lt hm.onward.not_dropped) rfl rfl ?_
    show p.effort + 2 * (e.inst k).inbound.length + e.loopsEffort + _ ≤ _
    rw [Stream.effort]
    omega
  | @unregister k hp =>
    have hk : k < e.n := hi.lt (by simp [hp])
    refine effort_of_inst hk rfl rfl ?_
    show 1 + 2 * (e.inst k).inbound.length + e.loopsEffort + _ ≤ _
    rw [Stream.effort, hp, Phase.effort]
    omega
  | @post _ k p f hp ho hr =>
    have hlt := hp.effort_lt
    have hloops : ((e.setPhase k p).push f).loopsEffort + 4 = e.loopsEffort :=
      loopsEffort_push_eq (e := e.setPhase k p) ho hr f
    refine effort_of_inst (hi.lt hp.onward.not_dropped) rfl rfl ?_
    show p.effort + 2 * (e.inst k).inbound.length + _ + _ ≤ _
    rw [Stream.effort]
    omega
  | @upRead k data down hp =>
    have hk : k < e.n := hi.lt (by simp [hp])
    refine effort_of_inst hk rfl rfl ?_
    show 2 + down.effort + 2 * (e.inst k).inbound.length + e.loopsEffort + _ ≤ _
    rw [Stream.effort, hp, Phase.effort, Up.effort]
    omega
  | @upSend k c rest down hp ho hr =>
    have hk : k < e.n := hi.lt (by simp [hp])
    have hafter : (afterChunk rest).effort ≤ 3 := by
      unfold afterChunk
      split_ifs <;> simp [Up.effort]
    refine effort_of_inst hk rfl rfl ?_
    have hloops := loopsEffort_push_eq (e := e.setStream k { e.inst k with
      phase := .pump (afterChunk rest) down, pumped := (e.inst k).pumped ++ [c] }) ho hr
        (.data (e.inst k).id c)
    show (afterChunk rest).effort + down.effort + 2 * (e.inst k).inbound.length + _ + _ ≤ _
    have heq : (e.setStream k { e.inst k with
      phase := .pump (afterChunk rest) down, pumped := (e.inst k).pumped ++ [c] }).loopsEffort =
        e.loopsEffort := rfl
    rw [Stream.effort, hp, Phase.effort, Up.effort]
    omega
  | @downRecv k up c cs hp hin =>
    have hk : k < e.n := hi.lt (by simp [hp])
    refine effort_of_inst hk rfl rfl ?_
    show up.effort + 2 + 2 * cs.length + e.loopsEffort + _ ≤ _
    rw [Stream.effort, hp, hin, Phase.effort, Down.effort, List.length_cons]
    omega
  | @goto _ r hg =>
    have hlt := hg.effort_lt hd
    exact effort_of_reader rfl rfl (by show r.effort e.records.length + _ ≤ _; omega)
  | @readerExit _ cause hx =>
    have hne : e.reader ≠ .left := by
      intro hr; rw [hr] at hx; cases hx
    refine effort_of_reader rfl (exits_leave (hl.reader hne)) ?_
    have hpos : 1 ≤ e.reader.effort e.records.length := by
      generalize e.reader = r at hx
      cases hx <;> simp [Reader.effort]
    show 0 + _ ≤ _
    omega
  | @readerRead rs hr =>
    refine effort_of_reader rfl rfl ?_
    rw [hr]
    show 1 + _ ≤ 2 + _
    omega
  | handleKill hr hrec hj =>
    refine effort_of_reader rfl (exits_leave (hl.reader (by simp [hr]))) ?_
    rw [hr]
    show 0 + _ ≤ 10 * _ + 3 + _
    omega
  | @handleBad o rest hr hrec hf hj =>
    refine effort_of_reader rfl rfl ?_
    simp only [handle_reader, handle_records, hr, hrec, Reader.effort, List.length_cons]
    omega
  | @handleOpen id rest hr hrec =>
    -- the record pays for the new instance
    have hnew : (Stream.fresh id (onOpen e.side)).effort ≤ 5 := by
      rcases e.side with _ | _ <;> simp [Stream.effort, Stream.fresh, onOpen, Phase.effort]
    refine effort_of_addStream rfl rfl hnew (loopsEffort_of_reader rfl rfl rfl rfl rfl ?_)
    show e.reader.effort rest.length + _ ≤ _
    rw [hr, hrec, Reader.effort, Reader.effort, List.length_cons]
    omega
  | @handleData id p k rest hr hrec | @handleUnknown id p rest hr hrec
  | @handlePing nonce rest hr hrec =>
    refine effort_of_reader rfl rfl ?_
    simp only [handle_records, hr, hrec, Reader.effort, List.length_cons]
    omega
  | @handleClose id rest hr hrec =>
    refine effort_of_reader rfl rfl ?_
    simp only [remove_reader, remove_records, handle_reader, handle_records, hr, hrec, Reader.effort,
      List.length_cons]
    omega
  | @handlePong nonce rest hr hrec =>
    refine effort_of_reader rfl rfl ?_
    simp only [handle_reader, handle_records, hr, hrec, Reader.effort, List.length_cons]
    omega
  | @delivered k id payload hr hrecv hroom =>
    -- the reader pays for the chunk it puts into the channel
    have hchunk : ({ e.inst k with inbound := (e.inst k).inbound ++ [payload] } : Stream).effort ≤
        (e.inst k).effort + 2 := by
      simp only [Stream.effort, List.length_append, List.length_singleton]
      omega
    refine effort_of_paid (hi.delivering k id payload hr).1 rfl rfl hchunk
      (loopsEffort_of_reader rfl rfl rfl rfl rfl ?_)
    rw [hr]
    show 10 * e.records.length + 3 + _ ≤ 10 * e.records.length + 7 + _
    omega
  | dropStalled hr =>
    refine effort_of_reader rfl rfl ?_
    simp only [remove_records, hr, Reader.effort]
    omega
  | @reply _ f hr ho hroom =>
    have hslots := slots_push ho hroom f
    have hreader : 10 * e.records.length + 4 ≤ e.reader.effort e.records.length := by
      rcases hr with ⟨-, hr⟩ | ⟨-, hr⟩ <;> simp [hr, Reader.effort]
    refine effort_of_loops rfl rfl ?_
    show 4 * (e.push f).slots + (10 * e.records.length + 3) + e.writer.effort + e.keepalive.effort +
      exits e.exit + e.framesOpen.toNat + _ ≤ e.loopsEffort + _
    unfold loopsEffort
    omega
  | writerTop hw hlive => rw [hd] at hlive; cases hlive
  | @writerExit _ cause hx =>
    have hne : e.writer ≠ .left := by
      intro hw; rw [hw] at hx; cases hx
    refine effort_of_writer rfl (slots_writer rfl (by simp) (.inl rfl))
      (exits_leave (hl.writer hne)) ?_
    have hpos : 1 ≤ e.writer.effort := by
      generalize e.writer = y at hx
      cases hx <;> simp [Writer.effort]
    show 0 + _ ≤ _
    omega
  | @writerTake f fs hw hf =>
    refine effort_of_writer rfl (slots_writer rfl (by simp) (.inr ⟨hw, f, hf⟩)) rfl ?_
    rw [hw]
    show 2 + _ ≤ 3 + _
    omega
  | @encryptErr f fs hw hf =>
    refine effort_of_writer rfl (slots_writer rfl (by simp) (.inr ⟨hw, f, hf⟩))
      (exits_leave (hl.writer (by simp [hw]))) ?_
    rw [hw]
    show 0 + _ ≤ 3 + _
    omega
  | wrote hw =>
    refine effort_of_writer rfl (slots_writer rfl (by simp) (.inl rfl)) rfl ?_
    rw [hw]
    show 1 + _ ≤ 2 + _
    omega
  | writerReturn hx ho =>
    refine effort_of_loops rfl rfl ?_
    show 4 * 0 + e.reader.effort e.records.length + e.writer.effort + e.keepalive.effort +
      exits e.exit + 0 + _ ≤ e.loopsEffort + _
    unfold loopsEffort
    rw [ho, Bool.toNat_true]
    omega
  | @beat _ ka hb =>
    have hlt := hb.effort_lt hd
    exact effort_of_exits rfl (by show ka.effort + exits e.exit + _ ≤ _; omega)
  | @ping nonce before hk ho hroom =>
    have hslots := slots_push ho hroom (.ping nonce)
    refine effort_of_loops rfl rfl ?_
    show 4 * (e.push (.ping nonce)).slots + e.reader.effort e.records.length + e.writer.effort + 2 +
      exits e.exit + e.framesOpen.toNat + _ ≤ e.loopsEffort + _
    unfold loopsEffort
    rw [hk, Keepalive.effort]
    omega
  | graceLost hk =>
    refine effort_of_exits rfl ?_
    have hexits := exits_leave (c := .keepaliveTimeout) (hl.keepalive (by simp [hk]))
    rw [hk]
    show 0 + exits (Function.update e.exit .keepalive _) + _ ≤ 2 + _ + _
    omega
  | @exitMove _ w x hx =>
    generalize hy : e.exit w = y at hx
    cases hx with
    | known | unknown | len => exact effort_of_exit (by rw [hy]; simp [Exit.effort]) rfl rfl le_rfl
    | @kill n hw =>
      subst hw
      refine effort_of_exits rfl ?_
      have hsame : exits (Function.update e.exit (.caller n) .setKilled) = exits e.exit := by
        simp [exits]
      show e.keepalive.effort + exits (Function.update e.exit (.caller n) .setKilled) + 0 ≤ _
      omega
  | logLine hx | setCause hx | setKilled hx | setDead hx | closeAll hx =>
    exact effort_of_exit (by rw [hx]; simp [Exit.effort]) rfl rfl le_rfl

/-- **Bounded teardown.** Once the tunnel is dead, the tasks it has take no more steps than `effort`
says, whatever the interleaving, the peer and the local sockets do; every connection accepted later
brings at most eight more. -/
theorem teardown_bounded {e₀ : Endpoint} {t : List (Endpoint × Act)}
    (h₀ : Reachable step (spawnTunnel side pingSecs) e₀) (hd : e₀.dead = true)
    (h : Trace step e₀ t e) :
    e.effort + t.countP (·.2.isTask) ≤ e₀.effort + 8 * t.countP (·.2.isAccept) := by
  have hstep : ∀ {s s' : Endpoint} {a : Act},
      LoopsInv s ∧ Instances s ∧ s.dead = true → step s a = some s' →
        (LoopsInv s' ∧ Instances s' ∧ s'.dead = true) ∧
          s'.effort + a.isTask.toNat ≤ s.effort + 8 * a.isAccept.toNat := by
    intro s s' a hi hs
    have hs := Step.of_step hs
    exact ⟨⟨loopsInv_step hi.1 hs, instances_step hi.2.1 hs, dead_mono hs hi.2.2⟩,
      effort_step hi.1 hi.2.1 hi.2.2 hs⟩
  exact (h.countP_le ⟨loopsInv_reachable h₀, instances_reachable h₀, hd⟩ hstep).2

/-- A tunnel with one pump is killed from outside. -/
def killedRunning : List Act :=
  [Act.accept, .register 0, .open 0, .spawn 0, .writerTop, .readerTop, .dispatch, .keepaliveTop,
    .kill 0] ++ List.replicate 2 (Act.exit (.caller 0))

/-- Its tasks come to their end; a connection accepted meanwhile is given up. -/
def windsDown : List Act :=
  [Act.exit (.caller 0), .accept, .register 1, .writerDead] ++
    List.replicate 5 (Act.exit .writer) ++ [Act.writerReturn, .open 1, .readerDead] ++
    List.replicate 5 (Act.exit .reader) ++ [Act.keepaliveDead, .downEnd 0]

theorem teardown_bounded_windsDown :
    ∃ e₀ e t, Reachable step (spawnTunnel .client 1) e₀ ∧ e₀.dead = true ∧ Trace step e₀ t e ∧
      e.effort + t.countP (·.2.isTask) ≤ e₀.effort + 8 * t.countP (·.2.isAccept) := by
  have h₀ : ∃ e₀, exec (guard (fun _ _ => true) step) (spawnTunnel .client 1) killedRunning = some e₀ ∧
      e₀.dead = true ∧
      (exec (guard (fun _ _ => true) step) e₀ windsDown).isSome = true := ⟨_, rfl, rfl, rfl⟩
  obtain ⟨e₀, he₀, hd, hsome⟩ := h₀
  obtain ⟨e, he⟩ := Option.isSome_iff_exists.mp hsome
  obtain ⟨t, ht, -⟩ := exec_trace _ he
  have hr : Reachable step (spawnTunnel .client 1) e₀ := exec_reaches (fun _ _ _ => trivial) _ he₀
  exact ⟨e₀, e, t, hr, hd, ht, teardown_bounded hr hd ht⟩

/-! ### No task waits for another -/

/-- No task can go on without something from outside. -/
def Quiet (e : Endpoint) : Prop := ∀ a, a.isExternal = false → e.step a = none

/-- **What is left of a tunnel**: its loops have returned and have killed it, no `kill` is under way, the
frame channel is closed, no sender of a pump is registered, and a stream's task is over or waits for its
own socket. -/
structure TornDown (e : Endpoint) : Prop where
  reader : e.reader = .left ∧ e.exit .reader = .done
  writer : e.writer = .left ∧ e.exit .writer = .done
  keepalive : e.keepalive = .off ∨ e.keepalive = .left
  exits : ∀ w, e.exit w = .idle ∨ e.exit w = .done
  channel : e.framesOpen = false ∧ e.frames = []
  registry : ∀ id k, e.streams id = some k → e.side = .client ∧ (e.inst k).phase.isPump = false
  streams : ∀ k, (e.inst k).phase.isAtRest = true

/-- A loop that has left goes on to kill the tunnel; a closed channel holds nothing; a pump that sends
has something to send. -/
structure Returned (e : Endpoint) : Prop where
  reader : e.reader = .left → e.exit .reader ≠ .idle
  writer : e.writer = .left → e.exit .writer ≠ .idle
  channel : e.framesOpen = false → e.frames = []
  sending : ∀ k, (e.inst k).phase.sendsNothing = false

theorem returned_spawnTunnel : Returned (spawnTunnel side pingSecs) := by
  constructor <;> simp [spawnTunnel, Stream.fresh, Phase.sendsNothing]

/-- Nobody goes back to before its `kill`. -/
theorem exit_ne_idle (h : e.Step a e') (hw : e.exit w ≠ .idle) : e'.exit w ≠ .idle := by
  have hupdate : ∀ {w' y}, y ≠ Exit.idle → Function.update e.exit w' y w ≠ .idle := by
    intro w' y hy
    rw [Function.update_apply]
    split_ifs
    · exact hy
    · exact hw
  cases h with
  | readerExit | handleKill | writerExit | encryptErr | graceLost => exact hupdate (by simp)
  | @exitMove _ w' x hx =>
    refine hupdate ?_
    rintro rfl
    generalize e.exit w' = y at hx
    cases hx
  | logLine | setCause | setKilled | setDead | closeAll => exact hupdate (by simp)
  | _ => exact hw

theorem Change.sending {k : ℕ} {s : Stream} (h : Change e k s)
    (hk : (e.inst k).phase.sendsNothing = false) : s.phase.sendsNothing = false := by
  cases h with
  | move hm =>
    generalize (e.inst k).phase = p at hm hk
    cases hm <;> simp_all [Phase.sendsNothing]
  | post hp =>
    generalize (e.inst k).phase = p at hp
    cases hp <;> simp [Phase.sendsNothing]
  | @upRead data down' hp hne hle =>
    have hc : chunks maxData data = [data] := chunks_of_length_le hne hle
    simp [hc, Phase.sendsNothing]
  | @upSend c rest down' hp =>
    by_cases hr : rest = [] <;> simp [afterChunk, hr, Phase.sendsNothing]
  | @downRecv up c cs hp => rw [hp] at hk; exact hk
  | delivered => exact hk
  | register | unregister => rfl

theorem returned_step (hi : Returned e) (h : e.Step a e') : Returned e' := by
  have hreader : e.reader = .left → e'.exit .reader ≠ .idle := fun hl =>
    exit_ne_idle h (hi.reader hl)
  have hwriter : e.writer = .left → e'.exit .writer ≠ .idle := fun hl =>
    exit_ne_idle h (hi.writer hl)
  have hinst : ∀ k, (e'.inst k).phase.sendsNothing = false := by
    intro k
    have hold := hi.sending k
    rcases step_inst h with ⟨-, hinst⟩ | ⟨hc, -, hinst⟩ | ⟨hp, -, hinst⟩
    · rw [hinst]
      exact hold
    · rw [hinst, Function.update_apply]
      split_ifs with hj
      · subst hj
        exact hc.sending hold
      · exact hold
    · rw [hinst, Function.update_apply]
      split_ifs
      · rcases hp with ⟨-, -, rfl⟩ | rfl
        · rfl
        · rcases e.side with _ | _ <;> rfl
      · exact hold
  refine ⟨fun hr => ?_, fun hw => ?_, fun ho => ?_, hinst⟩
  · cases h with
    | readerExit | handleKill => simp
    | @goto _ r hg =>
      obtain rfl : r = .left := hr
      generalize e.reader = r at hg
      cases hg
    | readerRead | handleData | handleUnknown | handlePing | delivered | dropStalled | reply =>
      cases hr
    | _ => exact hreader hr
  · cases h with
    | writerExit | encryptErr => simp
    | writerTop | writerTake | wrote => cases hw
    | _ => exact hwriter hw
  · cases h with
    | post _ hopen | upSend _ hopen | reply _ hopen | ping _ hopen =>
      rw [show e.framesOpen = false from ho] at hopen
      cases hopen
    | writerTake _ hf | encryptErr _ hf =>
      rw [hi.channel ho] at hf
      cases hf
    | writerReturn => rfl
    | _ => exact hi.channel ho

theorem returned_reachable (h : Reachable step (spawnTunnel side pingSecs) e) : Returned e :=
  h.invariant returned_spawnTunnel fun hi _ hs => returned_step hi (.of_step hs)

section Quiet

variable (hq : Quiet e)

include hq

theorem Quiet.exits (w : Who) : e.exit w = .idle ∨ e.exit w = .done := by
  have hexit : e.exitStep w = none := hq (.exit w) rfl
  unfold exitStep at hexit
  split at hexit
  · exact .inl ‹_›
  · exact .inr ‹_›
  all_goals cases hexit

/-- The writer waits for nobody. -/
theorem Quiet.writer (hd : e.dead = true) (hwrite : ∀ f, e.writer ≠ .writing f) :
    e.writer = .left := by
  rcases hw : e.writer with _ | _ | f | _
  · have := hq .writerTop rfl
    simp [step, hw] at this
  · have := hq .writerDead rfl
    simp [step, hw, hd] at this
  · exact absurd hw (hwrite f)
  · rfl

/-- Nobody waits for room in the frame channel but while the writer writes. -/
theorem Quiet.channel (hi : Returned e) (hwrite : ∀ f, e.writer ≠ .writing f) :
    e.framesOpen = false ∨ e.hasRoom = true := by
  rcases hw : e.writer with _ | _ | f | _
  · have := hq .writerTop rfl
    simp [step, hw] at this
  · right
    have hnil : e.frames = [] := by
      have := hq .writerTake rfl
      rcases hf : e.frames with _ | ⟨f, fs⟩
      · rfl
      · simp [step, hw, hf] at this
    simp [hasRoom, hnil, frameChannelCapacity]
  · exact absurd hw (hwrite f)
  · left
    have hdone : e.exit .writer = .done := (hq.exits .writer).resolve_left (hi.writer hw)
    have := hq .writerReturn rfl
    simpa [step, hdone] using this

/-- The reader waits for the wire only, unless it waits for room in the frame channel. -/
theorem Quiet.reader (hc : ∀ f, e.reader = .waiting f → e.framesOpen = false ∨ e.hasRoom = true) :
    e.reader = .select ∨ e.reader = .left := by
  rcases hr : e.reader with _ | _ | _ | ⟨k, id, payload⟩ | id | f | f | _
  · have := hq .readerTop rfl
    simp [step, hr] at this
  · have := hq .dispatch rfl
    rcases hrec : e.records with _ | ⟨o, rest⟩ <;> simp [step, hr, hrec] at this
  · exact .inl rfl
  · have h1 := hq .delivered rfl
    have h2 := hq .undeliverable rfl
    have h3 := hq .stall rfl
    simp only [step, hr] at h1 h2 h3
    by_cases hrecv : (e.inst k).phase.hasReceiver = true
    · by_cases hroom : (e.inst k).inbound.length < inboundCapacity
      · simp [hrecv, hroom] at h1
      · simp [hrecv, not_lt.mp hroom] at h3
    · simp [hrecv] at h2
  · have := hq .dropStalled rfl
    simp [step, hr] at this
  · have := hq .reply rfl
    simp [step, hr] at this
  · have := hq .resume rfl
    rcases hc f hr with ho | hroom
    · simp [step, hr, ho] at this
    · simp [step, hr, hroom] at this
  · exact .inr rfl

theorem Quiet.keepalive (hd : e.dead = true) (ho : e.framesOpen = false) :
    e.keepalive = .off ∨ e.keepalive = .left := by
  rcases hk : e.keepalive with _ | _ | _ | before | before | _
  · exact .inl rfl
  · have := hq .keepaliveTop rfl
    simp [step, hk] at this
  · have := hq .keepaliveDead rfl
    simp [step, hk, hd] at this
  · have := hq (.ping default) rfl
    simp [step, hk, ho] at this
  · have := hq .keepaliveDead rfl
    simp [step, hk, hd] at this
  · exact .inr rfl

/-- With the channel closed an uplink waits for its local socket only. -/
theorem Quiet.up {k : ℕ} {up : Up} {down : Down} (hp : (e.inst k).phase = .pump up down)
    (ho : e.framesOpen = false) (hs : (e.inst k).phase.sendsNothing = false) :
    up.isAtRest = true := by
  rcases up with _ | (_ | ⟨c, rest⟩) | _ | _
  · rfl
  · rw [hp] at hs
    cases hs
  · have := hq (.upSend k) rfl
    simp [step, hp, ho] at this
  · have := hq (.upClose k) rfl
    simp [step, hp, ho] at this
  · rfl

/-- With its sender gone a downlink waits for its local socket only. -/
theorem Quiet.down {k : ℕ} {up : Up} {down : Down} (hp : (e.inst k).phase = .pump up down)
    (hheld : e.senderHeld k = false) : down.isAtRest = true := by
  rcases down with _ | c | _
  · rcases hin : (e.inst k).inbound with _ | ⟨c, cs⟩
    · have := hq (.downEnd k) rfl
      simp [step, hp, hin, hheld] at this
    · have := hq (.downRecv k) rfl
      simp [step, hp, hin] at this
  · rfl
  · rfl

/-- With the channel closed and no sender of a pump held, a stream's task is over or waits for its own
socket. -/
theorem Quiet.stream {k : ℕ} (ho : e.framesOpen = false)
    (hs : (e.inst k).phase.sendsNothing = false)
    (hheld : (e.inst k).phase.isPump = true → e.senderHeld k = false) :
    (e.inst k).phase.isAtRest = true := by
  rcases hp : (e.inst k).phase with _ | _ | _ | _ | _ | _ | _ | ⟨up, down⟩ | _
  · have := hq (.register k) rfl
    simp [step, hp] at this
  · have := hq (.open k) rfl
    simp [step, hp, ho] at this
  · have := hq (.spawn k) rfl
    simp [step, hp] at this
  · rfl
  · have := hq (.unregister k) rfl
    simp [step, hp] at this
  · have := hq (.refuse k) rfl
    simp [step, hp, ho] at this
  · have := hq (.refuse k) rfl
    simp [step, hp, ho] at this
  · have hup := hq.up hp ho hs
    have hdown := hq.down hp (hheld (by rw [hp]; rfl))
    simp [Phase.isAtRest, hup, hdown]
  · rfl

end Quiet

/-- A dead tunnel in which no task can go on by itself has been torn down, once the writer's last write
has ended. -/
theorem tornDown_of_quiet (h : Reachable step (spawnTunnel side pingSecs) e) (hd : e.dead = true)
    (hq : Quiet e) (hwrite : ∀ f, e.writer ≠ .writing f) : TornDown e := by
  have hi := returned_reachable h
  have hfan := fanOut_reachable h
  have hwriter := hq.writer hd hwrite
  have hwdone : e.exit .writer = .done := (hq.exits .writer).resolve_left (hi.writer hwriter)
  have hopen : e.framesOpen = false := by
    have := hq .writerReturn rfl
    simpa [step, hwdone] using this
  have hreader : e.reader = .left := by
    refine (hq.reader fun _ _ => .inl hopen).resolve_left fun hr => ?_
    have := hq .readerDead rfl
    simp [step, hr, hd] at this
  have hrdone : e.exit .reader = .done := (hq.exits .reader).resolve_left (hi.reader hreader)
  have hregistry : ∀ id k, e.streams id = some k →
      e.side = .client ∧ (e.inst k).phase.isPump = false := by
    intro id k hk
    rcases hside : e.side with _ | _
    · refine ⟨rfl, Bool.eq_false_iff.mpr fun hp => ?_⟩
      obtain ⟨w, hw⟩ := hfan.client hside id k hk hp hd
      rcases hq.exits w with h | h <;> rw [hw] at h <;> cases h
    · exact absurd hrdone (hfan.server hside id k hk)
  refine ⟨⟨hreader, hrdone⟩, ⟨hwriter, hwdone⟩, hq.keepalive hd hopen, hq.exits,
    ⟨hopen, hi.channel hopen⟩, hregistry, fun k => hq.stream hopen (hi.sending k) fun hp => ?_⟩
  have hnone : e.streams (e.inst k).id ≠ some k := by
    intro hk
    rw [(hregistry _ k hk).2] at hp
    cases hp
  simp [senderHeld, hnone, hreader]

/-- A tunnel that has been torn down stays as it is until something comes from outside. -/
theorem TornDown.quiet (h : TornDown e) : Quiet e := by
  have hr := h.reader.1
  have hw := h.writer.1
  have ho := h.channel.1
  intro a ha
  cases a with
  | accept | dialOk | dialErr | upRead | upEof | downWrote | downFail | readerRead | readerEof
  | readerErr | wrote | writeErr | tick | graceOver | kill => cases ha
  | register k | «open» k | spawn k | unregister k | refuse k | upSend k | upClose k | downRecv k
  | downEnd k =>
    have hrest := h.streams k
    rcases hp : (e.inst k).phase with _ | _ | _ | _ | _ | _ | _ | ⟨up, down⟩ | _ <;>
      rw [hp] at hrest <;> first | cases hrest | skip
    · simp [step, hp]
    · rw [Phase.isAtRest, Bool.and_eq_true] at hrest
      rcases up with _ | _ | _ | _ <;> rcases down with _ | _ | _ <;> simp_all [Up.isAtRest, Down.isAtRest, step]
    · simp [step, hp]
  | exit w => rcases h.exits w with hx | hx <;> simp [step, exitStep, hx]
  | keepaliveTop | ping | keepaliveDead => rcases h.keepalive with hk | hk <;> simp [step, hk]
  | writerReturn => simp [step, h.writer.2, ho]
  | _ => simp [step, hr, hw]

/-- **Teardown is complete.** Once the writer's last write has ended, the tasks of a dead tunnel can go on
by themselves until nothing is left but tasks that wait for their own local socket: the loops have
returned, every `kill` has finished, the frame channel is closed, and the registry holds no sender of a
pump. -/
theorem teardown_complete (h : Reachable step (spawnTunnel side pingSecs) e) (hd : e.dead = true)
    (hwrite : ∀ f, e.writer ≠ .writing f) : Quiet e ↔ TornDown e :=
  ⟨fun hq => tornDown_of_quiet h hd hq hwrite, TornDown.quiet⟩

theorem teardown_complete_windsDown :
    ∃ e, Reachable step (spawnTunnel .client 1) e ∧ (e.inst 0).phase = .pump .reading .done ∧
      Quiet e := by
  have hexec : ∃ e, exec (guard (fun _ _ => true) step) (spawnTunnel .client 1)
        (killedRunning ++ windsDown) = some e ∧ e.dead = true ∧ e.reader = .left ∧
      e.writer = .left ∧ e.keepalive = .left ∧ e.framesOpen = false ∧ e.frames = [] ∧
      e.streams = (fun _ => none) ∧ e.exit = Function.update (Function.update (Function.update
        (fun _ => .idle) (.caller 0) .done) .writer .done) .reader .done ∧
      (fun k => (e.inst k).phase) = Function.update (fun _ => .dropped) 0 (.pump .reading .done) := by
    refine ⟨_, rfl, rfl, rfl, rfl, rfl, rfl, rfl, rfl, ?_, ?_⟩
    · funext w
      rcases w with _ | _ | _ | _ | n <;> rfl
    · funext k
      rcases k with _ | _ | k <;> rfl
  obtain ⟨e, he, hd, hreader, hwriter, hkeep, hopen, hnil, hstreams, hexit, hinst⟩ := hexec
  have hr : Reachable step (spawnTunnel .client 1) e := exec_reaches (fun _ _ _ => trivial) _ he
  have hphase : ∀ k, (e.inst k).phase = if k = 0 then .pump .reading .done else .dropped := by
    intro k
    have hk := congrFun hinst k
    simpa only [Function.update_apply] using hk
  have htorn : TornDown e := by
    refine ⟨⟨hreader, by simp [hexit]⟩, ⟨hwriter, by simp [hexit]⟩, .inr hkeep, fun w => ?_,
      ⟨hopen, hnil⟩, fun id k hk => ?_, fun k => ?_⟩
    · rw [hexit]
      simp only [Function.update_apply]
      split_ifs <;> simp
    · rw [hstreams] at hk
      cases hk
    · rw [hphase]
      split_ifs <;> rfl
  exact ⟨e, hr, hphase 0, (teardown_complete hr hd (by simp [hwriter])).mpr htorn⟩

end Endpoint

end QeliSsPlugin.Carrier
