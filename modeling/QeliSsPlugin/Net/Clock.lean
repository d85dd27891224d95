import QeliSsPlugin.Net.Keepalive

/-!
# The keepalive and the clock

`Timed` is a pair of endpoints with a discrete clock, in milliseconds, and no delay: what the loops
and the wire can do takes no time, and time passes only when nothing of it is left to do, up to the
next timer at most (the tick and the grace of a keepalive, the stall timeout of `deliver`). The tasks
that work for a local connection take as long as they like.

A reader that blocks in `deliver` answers no PING and counts no PONG, for up to
`streamStallTimeout`, and a round waits for its PONG for `keepaliveGrace` only, which is shorter: a
consumer that stops reading kills the tunnel (`stalled_stream_kills`). It does not as long as no
reader is blocked when the grace of a round that waits for its PONG is over (`survives_of_clear`).
-/

namespace QeliSsPlugin

open Lib.Runs Mux Carrier

/-- How long a round waits for its PONG, in milliseconds. -/
def keepaliveGrace : ℕ := 2000

/-- How long `deliver` waits for a place in a full channel, in milliseconds. -/
def streamStallTimeout : ℕ := 5000

structure Timed where
  net : Net
  now : ℕ
  /-- When the ticker of a side is due. -/
  tickAt : Side → ℕ
  /-- When the grace of a side's round ends. -/
  graceAt : Side → ℕ
  /-- When the reader of a side called `deliver`. -/
  since : Side → ℕ

/-- A step of the pair, or some time passes. -/
inductive TimedAct
  | net (a : NetAct)
  | pass (d : ℕ)
  deriving DecidableEq

namespace Carrier.Endpoint

variable {e e' : Endpoint} {a : Act}

/-- Whether the reader is in `deliver`. -/
def inDeliver (e : Endpoint) : Bool :=
  match e.reader with
  | .delivering _ _ _ => true
  | _ => false

/-- Whether the keepalive's round still waits for its PONG. -/
def awaitsPong (e : Endpoint) : Bool :=
  match e.keepalive with
  | .grace before => e.pongs ≤ before
  | _ => false

theorem inDeliver_iff : e.inDeliver = true ↔ ∃ k id p, e.reader = .delivering k id p := by
  unfold inDeliver
  split
  · next k id p hr => simp [hr]
  · next hr => simpa using hr

theorem awaitsPong_iff : e.awaitsPong = true ↔ ∃ b, e.keepalive = .grace b ∧ e.pongs ≤ b := by
  unfold awaitsPong
  split
  · next b hk => simp [hk]
  · next hk => simpa using fun b hb => absurd hb (hk b)

/-- A reader that waits for a read has dispatched every record it has. -/
theorem idle_step (hi : e.reader = .select → e.records = []) (h : e.Step a e') :
    e'.reader = .select → e'.records = [] := by
  cases h with
  | goto hg =>
    intro hr
    generalize e.reader = r at hg
    cases hg with
    | drained hrec => exact hrec
    | _ => cases hr
  | handleBad hd | handleOpen hd | handleClose hd | handlePong hd =>
    intro hr
    rw [show e.reader = .select from hr] at hd
    cases hd
  | readerRead | handleKill | handleData | handleUnknown | handlePing | readerExit | delivered
  | dropStalled | reply => intro hr; cases hr
  | _ => exact hi

/-- Only a PING starts the grace, and PONGs are only added. -/
theorem grace_of_step {b : ℕ} (h : e.Step a e') (hk : e'.keepalive = .grace b) :
    (∃ nonce, a = .ping nonce) ∨ e.keepalive = .grace b ∧ e.pongs ≤ e'.pongs := by
  cases h with
  | beat hb =>
    exfalso
    generalize e.keepalive = k at hb
    cases hb <;> cases hk
  | ping => exact .inl ⟨_, rfl⟩
  | graceLost => cases hk
  | handlePong => exact .inr ⟨hk, Nat.le_succ _⟩
  | _ => exact .inr ⟨hk, le_rfl⟩

/-- While nobody has started to kill the tunnel, no cause is recorded. -/
theorem cause_step (hc : Calm e) (h : e.Step a e') : e'.cause = e.cause := by
  cases h with
  | setCause hx | setKilled hx => rw [hc.exit] at hx; cases hx
  | _ => rfl

/-- While nobody has started to kill the tunnel, the reader is in its loop. -/
theorem reader_step (hne : e.reader ≠ .left) (hc : Calm e') (h : e.Step a e') :
    e'.reader ≠ .left := by
  cases h with
  | goto hg =>
    generalize e.reader = r at hg
    cases hg <;> simp
  | readerExit | handleKill => exact absurd (hc.exit .reader) (by simp)
  | readerRead | handleData | handleUnknown | handlePing | delivered | dropStalled | reply => simp
  | _ => exact hne

/-- `deliver` is called when a record is dispatched. -/
theorem delivering_of_step {k : ℕ} {id : UInt32} {p : Bytes} (h : e.Step a e')
    (hd : e'.reader = .delivering k id p) : a = .dispatch ∨ e.reader = .delivering k id p := by
  cases h with
  | goto hg =>
    exfalso
    generalize e.reader = r at hg
    cases hg <;> cases hd
  | handleKill | handleBad | handleOpen | handleData | handleUnknown | handleClose | handlePing
  | handlePong => exact .inl rfl
  | readerRead | readerExit | delivered | dropStalled | reply => cases hd
  | _ => exact .inr hd

end Carrier.Endpoint

namespace Timed

/-- Two endpoints just spawned; the keepalive of a side starts at `firstTick`. -/
def start (pingSecs firstTick : Side → ℕ) : Timed :=
  ⟨.connect pingSecs, 0, firstTick, fun _ => 0, fun _ => 0⟩

/-- Whether the reader of a side is in `deliver`. -/
def delivering (s : Timed) (x : Side) : Bool := (s.net.ep x).inDeliver

/-- Whether a side's round still waits for its PONG. -/
def awaiting (s : Timed) (x : Side) : Bool := (s.net.ep x).awaitsPong

/-! ### What is due -/

/-- Whether the reader can go on at once. -/
def readerDue (s : Timed) (x : Side) : Bool :=
  let e := s.net.ep x
  match e.reader with
  | .top | .drain | .stalled _ _ | .replying _ => true
  | .select => e.dead || s.net.wire x.peer ≠ [] || Net.closed (s.net.ep x.peer)
  | .delivering k _ _ =>
    !(e.inst k).phase.hasReceiver || (e.inst k).inbound.length < inboundCapacity ||
      s.since x + streamStallTimeout ≤ s.now
  | .waiting _ => !e.framesOpen || e.hasRoom
  | .left => false

/-- Whether the writer can go on at once. -/
def writerDue (e : Endpoint) : Bool :=
  match e.writer with
  | .top | .writing _ => true
  | .select => e.dead || e.frames ≠ []
  | .left => e.exit .writer = .done && e.framesOpen

/-- Whether the keepalive can go on at once. -/
def keepaliveDue (s : Timed) (x : Side) : Bool :=
  let e := s.net.ep x
  match e.keepalive with
  | .top => true
  | .select => e.dead || s.tickAt x ≤ s.now
  | .pinging _ => !e.framesOpen || e.hasRoom
  | .grace _ => e.dead || s.graceAt x ≤ s.now
  | .off | .left => false

/-- Whether a loop is on its way through the death sequence. -/
def exitDue (e : Endpoint) (w : Who) : Bool := e.exit w ≠ .idle ∧ e.exit w ≠ .done

/-- Whether one of a side's loops can go on at once. -/
def busy (s : Timed) (x : Side) : Bool :=
  s.readerDue x || writerDue (s.net.ep x) || s.keepaliveDue x || exitDue (s.net.ep x) .reader ||
    exitDue (s.net.ep x) .writer || exitDue (s.net.ep x) .keepalive

/-- Whether a side lets time pass until `t`: no loop can go on, and no timer is due before. -/
def lets (s : Timed) (t : ℕ) (x : Side) : Bool :=
  !s.busy x &&
    (match (s.net.ep x).keepalive with
      | .select => t ≤ s.tickAt x
      | .grace _ => t ≤ s.graceAt x
      | _ => true) &&
    (!s.delivering x || t ≤ s.since x + streamStallTimeout)

/-- Whether an action that a timer triggers is due. -/
def onTime (s : Timed) : NetAct → Bool
  | .act x .tick => s.tickAt x ≤ s.now
  | .act x .graceOver => s.graceAt x ≤ s.now
  | .act x .stall => s.since x + streamStallTimeout ≤ s.now
  | _ => true

/-- The ticker's period: `interval(ping_secs.max(1))`. -/
def period (pingSecs : Side → ℕ) (x : Side) : ℕ := max (pingSecs x) 1 * 1000

/-- The timers an action sets: the next tick is a period after this one
(`MissedTickBehavior::Delay`), the grace starts when the PING is sent, and `deliver` is called for a
record that is dispatched. -/
def after (pingSecs : Side → ℕ) (s : Timed) (a : NetAct) (net : Net) : Timed where
  net := net
  now := s.now
  tickAt := match a with
    | .act x .tick => Function.update s.tickAt x (s.now + period pingSecs x)
    | _ => s.tickAt
  graceAt := match a with
    | .act x (.ping _) => Function.update s.graceAt x (s.now + keepaliveGrace)
    | _ => s.graceAt
  since := match a with
    | .act x .dispatch => Function.update s.since x s.now
    | _ => s.since

/-- **One step of the pair, or of the clock.** -/
def step (pingSecs : Side → ℕ) (s : Timed) : TimedAct → Option Timed
  | .net a =>
    if s.onTime a then (Net.step (fun _ _ => true) s.net a).map (s.after pingSecs a) else none
  | .pass d =>
    if 0 < d ∧ s.lets (s.now + d) .client ∧ s.lets (s.now + d) .server then
      some { s with now := s.now + d }
    else none

/-- **Healthy endpoints on a healthy wire**: no failure comes from outside. -/
def healthy : TimedAct → Bool
  | .net (.act _ a) => !a.isFault
  | .net a => a.isIntact
  | .pass _ => true

/-- **While a reader is blocked and a round waits for its PONG, time passes only to before the end of the
round's grace.** -/
def Clear (s : Timed) (a : TimedAct) : Prop :=
  ∀ d x y, a = .pass d → s.awaiting x = true → s.delivering y = true → s.now + d < s.graceAt x

/-- **No tunnel has died**, no reader is blocked for longer than the stall timeout, a reader whose wait
has timed out removes that stream alone, and one whose timeout is due can do so at once. -/
structure Survives (pingSecs : Side → ℕ) (s : Timed) : Prop where
  cause : ∀ x, (s.net.ep x).cause = none
  alive : ∀ x, (s.net.ep x).dead = false
  blocked : ∀ x, s.delivering x = true → s.now ≤ s.since x + streamStallTimeout
  alone : ∀ x k id s', (s.net.ep x).reader = .stalled k id →
    step pingSecs s (.net (.act x .dropStalled)) = some s' →
    (s'.net.ep x).streams = Function.update (s.net.ep x).streams id none
  freed : ∀ x k id p, (s.net.ep x).reader = .delivering k id p →
    ((s.net.ep x).inst k).phase.hasReceiver = true →
    inboundCapacity ≤ ((s.net.ep x).inst k).inbound.length →
    s.since x + streamStallTimeout ≤ s.now →
    ∃ s₁ s₂, step pingSecs s (.net (.act x .stall)) = some s₁ ∧
      step pingSecs s₁ (.net (.act x .dropStalled)) = some s₂ ∧
      (s₂.net.ep x).streams = Function.update (s.net.ep x).streams id none ∧
      (s₂.net.ep x).reader = .replying (.close id) ∧ s₂.net.ep x.peer = s.net.ep x.peer

/-! ### Nothing is under way when time passes -/

variable {pingSecs firstTick : Side → ℕ} {s s' : Timed} {a : TimedAct}

/-- What holds in every healthy run in which time passes only as `Clear` says. -/
structure Inv (s : Timed) : Prop where
  rounds : Net.Rounds s.net
  clean : ∀ x o, o ∈ s.net.arrived x → ∃ f, o = .good f
  idle : ∀ x, (s.net.ep x).reader = .select → (s.net.ep x).records = []
  reader : ∀ x, (s.net.ep x).reader ≠ .left
  cause : ∀ x, (s.net.ep x).cause = none
  due : ∀ x, s.awaiting x = true → s.now < s.graceAt x
  blocked : ∀ x, s.delivering x = true → s.now ≤ s.since x + streamStallTimeout

theorem inv_start : Inv (start pingSecs firstTick) where
  rounds := Net.rounds_connect
  clean := by simp [start, Net.connect, Net.arrived, Endpoint.spawnTunnel]
  idle := by simp [start, Net.connect, Endpoint.spawnTunnel]
  reader := by simp [start, Net.connect, Endpoint.spawnTunnel]
  cause _ := rfl
  due := by
    intro x h
    obtain ⟨b, hk, -⟩ := Endpoint.awaitsPong_iff.mp h
    simp only [start, Net.connect, Endpoint.spawnTunnel] at hk
    split_ifs at hk
  blocked := by
    intro x h
    obtain ⟨k, id, p, hr⟩ := Endpoint.inDeliver_iff.mp h
    cases hr

/-- A side whose loops have nothing to do has written everything it had to. -/
theorem queued_eq_nil (hi : Inv s) {x : Side} (hb : s.busy x = false) :
    (s.net.ep x).queued = [] ∧ (s.net.ep x).frames = [] := by
  have hcalm := hi.rounds.calm x
  simp only [busy, Bool.or_eq_false_iff] at hb
  have hw := hb.1.1.1.1.2
  unfold writerDue at hw
  unfold Endpoint.queued
  cases hwr : (s.net.ep x).writer with
  | top | writing => simp [hwr] at hw
  | left => exact absurd hwr hcalm.writer
  | select =>
    have hf : (s.net.ep x).frames = [] := by simpa [hwr, hcalm.dead] using hw
    simp [hf]

/-- A side whose loops have nothing to do is blocked in `deliver`, or has read and dispatched every
record that was written for it. -/
theorem delivering_or_idle (hi : Inv s) {x : Side} (hb : s.busy x = false) :
    s.delivering x = true ∨
      (s.net.ep x).reader = .select ∧ s.net.wire x.peer = [] ∧ (s.net.ep x).records = [] := by
  have hcalm := hi.rounds.calm x
  have hframes := (queued_eq_nil hi hb).2
  simp only [busy, Bool.or_eq_false_iff] at hb
  have hr := hb.1.1.1.1.1
  unfold readerDue at hr
  cases hrd : (s.net.ep x).reader with
  | delivering => exact .inl (Endpoint.inDeliver_iff.mpr ⟨_, _, _, hrd⟩)
  | select =>
    have hwire : s.net.wire x.peer = [] := by
      simp only [hrd, Bool.or_eq_false_iff] at hr
      simpa using hr.1.2
    exact .inr ⟨rfl, hwire, hi.idle x hrd⟩
  | waiting f =>
    -- the frame channel is empty, so the reader is not kept waiting
    simp [hrd, Endpoint.hasRoom, hframes, frameChannelCapacity] at hr
  | left => exact absurd hrd (hi.reader x)
  | top | drain | stalled | replying => simp [hrd] at hr

/-- **When time passes, a round that still waits for its PONG waits for a blocked reader.** -/
theorem blocked_of_awaiting (hi : Inv s) (hb : ∀ x, s.busy x = false) {x : Side}
    (ha : s.awaiting x = true) : ∃ y, s.delivering y = true := by
  by_contra hno
  push Not at hno
  have hidle : ∀ y, (s.net.ep y).reader = .select ∧ s.net.wire y.peer = [] ∧
      (s.net.ep y).records = [] := fun y => (delivering_or_idle hi (hb y)).resolve_left (hno y)
  have hnone : ∀ y, s.net.underway y = [] := by
    intro y
    have hwire := (hidle y.peer).2.1
    rw [Side.peer_peer] at hwire
    simp [Net.underway, (hidle y.peer).2.2, hwire, (queued_eq_nil hi (hb y)).1, goods]
  have hover : s.net.roundOver x = true := by
    simp [Net.roundOver, hnone, Endpoint.ponging, (hidle x.peer).1]
  obtain ⟨b, hk, hle⟩ := Endpoint.awaitsPong_iff.mp ha
  have hlt := hi.rounds.lt_pongs hover hk
  omega

/-! ### The steps -/

theorem graceAt_after (s : Timed) (b : NetAct) (net : Net) (x : Side) :
    (s.after pingSecs b net).graceAt x = s.graceAt x ∨
      (s.after pingSecs b net).graceAt x = s.now + keepaliveGrace := by
  simp only [after]
  split
  · next y _ =>
    by_cases hx : x = y
    · subst hx; simp
    · simp [Function.update_of_ne hx]
  · exact .inl rfl

theorem since_after (s : Timed) (b : NetAct) (net : Net) (x : Side) :
    (s.after pingSecs b net).since x = s.since x ∨ (s.after pingSecs b net).since x = s.now := by
  simp only [after]
  split
  · next y =>
    by_cases hx : x = y
    · subst hx; simp
    · simp [Function.update_of_ne hx]
  · exact .inl rfl

section NetSteps

variable {b : NetAct} {net : Net} (hi : Inv s) (h : Net.Step (fun _ _ => true) s.net b net)

include hi h

/-- A round that waits for its PONG has time left: it was waiting before, or its grace starts. -/
theorem due_net {x : Side} (ha : (s.after pingSecs b net).awaiting x = true) :
    s.now < (s.after pingSecs b net).graceAt x := by
  have hpos : s.now < s.now + keepaliveGrace := by unfold keepaliveGrace; omega
  have hold : s.awaiting x = true → s.now < (s.after pingSecs b net).graceAt x := by
    intro hw
    rcases graceAt_after s b net x with heq | heq <;> rw [heq]
    · exact hi.due x hw
    · exact hpos
  obtain ⟨n, hk, hle⟩ := Endpoint.awaitsPong_iff.mp ha
  rcases h.endpoint x with heq | ⟨c, hc, hact⟩
  · refine hold (Endpoint.awaitsPong_iff.mpr ⟨n, ?_⟩)
    rw [← heq]; exact ⟨hk, hle⟩
  · rcases Endpoint.grace_of_step hc hk with ⟨nonce, rfl⟩ | ⟨hk', hmono⟩
    · rcases hact with rfl | ⟨hwire, -⟩
      · simpa [after] using hpos
      · cases hwire
    · exact hold (Endpoint.awaitsPong_iff.mpr ⟨n, hk', hmono.trans hle⟩)

/-- A reader in `deliver` was there before, or enters it now. -/
theorem blocked_net {x : Side} (hd : (s.after pingSecs b net).delivering x = true) :
    s.now ≤ (s.after pingSecs b net).since x + streamStallTimeout := by
  have hold : s.delivering x = true →
      s.now ≤ (s.after pingSecs b net).since x + streamStallTimeout := by
    intro hw
    rcases since_after s b net x with heq | heq <;> rw [heq]
    · exact hi.blocked x hw
    · omega
  obtain ⟨k, id, p, hr⟩ := Endpoint.inDeliver_iff.mp hd
  rcases h.endpoint x with heq | ⟨c, hc, hact⟩
  · refine hold (Endpoint.inDeliver_iff.mpr ⟨k, id, p, ?_⟩)
    rw [← heq]; exact hr
  · rcases Endpoint.delivering_of_step hc hr with rfl | hr'
    · rcases hact with rfl | ⟨hwire, -⟩
      · simp [after]
      · cases hwire
    · exact hold (Endpoint.inDeliver_iff.mpr ⟨k, id, p, hr'⟩)

/-- A healthy step adds only good records. -/
theorem clean_net (hh : healthy (.net b) = true) {x : Side} {o : Outcome}
    (ho : o ∈ net.arrived x) : ∃ f, o = .good f := by
  rcases Net.flow_step hi.rounds.base.endpoint h x with
    ⟨harr, -⟩ | ⟨harr, -⟩ | ⟨harr, -⟩ | @⟨fate, f, hb, -, harr, -⟩
  · exact hi.clean x o (harr ▸ ho)
  · exact hi.clean x o (harr ▸ ho)
  · exact hi.clean x o (harr ▸ ho)
  · rw [harr] at ho
    obtain rfl : fate = .intact := by subst hb; simpa [healthy, NetAct.isIntact] using hh
    rcases List.mem_append.mp ho with ho | ho
    · exact hi.clean x o ho
    · exact ⟨f, by simpa [Fate.arrives] using ho⟩

theorem rounds_net (hh : healthy (.net b) = true) (ht : s.onTime b = true) : Net.Rounds net := by
  refine Net.rounds_step hi.rounds ?_ ?_ ?_ ?_ h
  · rintro x fate f rfl - -
    simpa [healthy, NetAct.isIntact] using hh
  · rintro x c rfl
    simpa [healthy] using hh
  · rintro x o rest rfl hrec
    have hmem : o ∈ s.net.arrived x.peer := by simp [Net.arrived, hrec]
    obtain ⟨f, rfl⟩ := hi.clean _ o hmem
    rfl
  · rintro x n rfl hk
    -- the timer of a round that waits is not due yet
    by_contra hle
    have hdue := hi.due x (Endpoint.awaitsPong_iff.mpr ⟨n, hk, by omega⟩)
    have htime : s.graceAt x ≤ s.now := by simpa [onTime] using ht
    omega

end NetSteps

theorem inv_net {b : NetAct} (hi : Inv s) (hh : healthy (.net b) = true)
    (hs : step pingSecs s (.net b) = some s') : Inv s' := by
  simp only [step] at hs
  split at hs
  · next ht =>
    obtain ⟨net, hnet, rfl⟩ := Option.map_eq_some_iff.mp hs
    have h := Net.Step.of_step hnet
    have hr := rounds_net hi h hh ht
    refine ⟨hr, fun x o => clean_net hi h hh, fun x => ?_, fun x => ?_, fun x => ?_,
      fun x => due_net hi h, fun x => blocked_net hi h⟩
    · rcases h.endpoint x with heq | ⟨c, hc, -⟩
      · simp only [after, heq]; exact hi.idle x
      · exact Endpoint.idle_step (hi.idle x) hc
    · rcases h.endpoint x with heq | ⟨c, hc, -⟩
      · simp only [after, heq]; exact hi.reader x
      · exact Endpoint.reader_step (hi.reader x) (hr.calm x) hc
    · rcases h.endpoint x with heq | ⟨c, hc, -⟩
      · simp only [after, heq]; exact hi.cause x
      · exact (Endpoint.cause_step (hi.rounds.calm x) hc).trans (hi.cause x)
  · cases hs

/-- Time passes: a round that waits does so for a blocked reader, which comes back in time. -/
theorem inv_pass {d : ℕ} (hi : Inv s) (hc : Clear s (.pass d))
    (hs : step pingSecs s (.pass d) = some s') : Inv s' := by
  simp only [step] at hs
  split at hs
  · next hpass =>
    cases hs
    have hlets : ∀ x, s.lets (s.now + d) x = true := by
      intro x
      cases x
      · exact hpass.2.1
      · exact hpass.2.2
    have hbusy : ∀ x, s.busy x = false := by
      intro x
      have hx := hlets x
      simp only [lets, Bool.and_eq_true, Bool.not_eq_true'] at hx
      exact hx.1.1
    have hstall : ∀ x, s.delivering x = true → s.now + d ≤ s.since x + streamStallTimeout := by
      intro x hx
      have hl := hlets x
      simp only [lets, hx, Bool.and_eq_true, Bool.not_true, Bool.false_or,
        decide_eq_true_eq] at hl
      exact hl.2
    refine ⟨hi.rounds, hi.clean, hi.idle, hi.reader, hi.cause, fun x hx => ?_, hstall⟩
    obtain ⟨y, hy⟩ := blocked_of_awaiting hi hbusy hx
    exact hc d x y rfl hx hy
  · cases hs

theorem inv_step (hi : Inv s) (hh : healthy a = true) (hc : Clear s a)
    (hs : step pingSecs s a = some s') : Inv s' := by
  rcases a with b | d
  · exact inv_net hi hh hs
  · exact inv_pass hi hc hs

/-- A round that was started late enough in a block, or before one that ends in time, needs no other
condition: time passes up to the end of the block at most. -/
theorem clear_of_block {d : ℕ} (hs : step pingSecs s (.pass d) = some s')
    (h : ∀ x y, s.awaiting x = true → s.delivering y = true →
      s.since y + streamStallTimeout < s.graceAt x) : Clear s (.pass d) := by
  rintro d' x y heq hx hy
  cases heq
  simp only [step] at hs
  split at hs
  · next hpass =>
    have hlets : s.lets (s.now + d) y = true := by
      cases y
      · exact hpass.2.1
      · exact hpass.2.2
    simp only [lets, hy, Bool.and_eq_true, Bool.not_true, Bool.false_or, decide_eq_true_eq] at hlets
    have hend := h x y hx hy
    omega
  · cases hs

/-- A step of an endpoint that no timer holds up. -/
theorem step_act {x : Side} {b : Act} {e : Endpoint} (hb : b.isWire = false)
    (ht : s.onTime (.act x b) = true) (he : (s.net.ep x).step b = some e) :
    step pingSecs s (.net (.act x b)) = some (s.after pingSecs (.act x b) (s.net.set x e)) := by
  simp [step, ht, Net.step, hb, he]

/-- **A blocked delivery whose timeout is due can end at once**: it times out, and its stream is removed. -/
theorem freed_of_due {x : Side} {k : ℕ} {id : UInt32} {p : Bytes}
    (hr : (s.net.ep x).reader = .delivering k id p)
    (hreceiver : ((s.net.ep x).inst k).phase.hasReceiver = true)
    (hfull : inboundCapacity ≤ ((s.net.ep x).inst k).inbound.length)
    (hdue : s.since x + streamStallTimeout ≤ s.now) :
    ∃ s₁ s₂, step pingSecs s (.net (.act x .stall)) = some s₁ ∧
      step pingSecs s₁ (.net (.act x .dropStalled)) = some s₂ ∧
      (s₂.net.ep x).streams = Function.update (s.net.ep x).streams id none ∧
      (s₂.net.ep x).reader = .replying (.close id) ∧ s₂.net.ep x.peer = s.net.ep x.peer := by
  obtain ⟨e, he, hreader, hstreams⟩ : ∃ e, (s.net.ep x).step .stall = some e ∧
      e.reader = .stalled k id ∧ e.streams = (s.net.ep x).streams := by
    refine ⟨{ s.net.ep x with reader := .stalled k id }, ?_, rfl, rfl⟩
    simp [Endpoint.step, hr, hreceiver, hfull]
  have hdrop : ((s.after pingSecs (.act x .stall) (s.net.set x e)).net.ep x).step .dropStalled =
      some { e.remove id with reader := .replying (.close id) } := by
    simp [after, Endpoint.step, hreader]
  refine ⟨_, _, step_act rfl (by simpa [onTime] using hdue) he, step_act rfl rfl hdrop, ?_, ?_, ?_⟩
  · simp [after, Endpoint.remove, hstreams]
  · simp [after]
  · simp [after, Function.update_of_ne x.peer_ne]

/-- **A healthy pair survives a stalled stream**, if no reader is blocked at the end of the grace of a
round that waits for its PONG. -/
theorem survives_of_clear
    (h : Reaches (step pingSecs) (fun s a => healthy a = true ∧ Clear s a)
      (start pingSecs firstTick) s) : Survives pingSecs s := by
  have hi : Inv s := h.invariant inv_start fun hi hc hs => inv_step hi hc.1 hc.2 hs
  refine ⟨hi.cause, fun x => (hi.rounds.calm x).dead, hi.blocked, ?_,
    fun x k id p hr hreceiver hfull hdue => freed_of_due hr hreceiver hfull hdue⟩
  rintro x k id s' hr hs
  obtain ⟨net, hnet, rfl⟩ := Option.map_eq_some_iff.mp hs
  obtain ⟨e, he, rfl⟩ := Option.map_eq_some_iff.mp hnet
  simp only [Endpoint.step, hr, Option.some.injEq] at he
  subst he
  exact congrArg Endpoint.streams (Function.update_self x _ s.net.ep)

/-! ### A consumer that stops reading -/

/-- The writer of a side writes a frame. -/
def flush (x : Side) : List NetAct := [.act x .writerTake, .write x .intact, .act x .writerTop]

/-- The loops of a side start. -/
def settle (x : Side) : List NetAct :=
  [.act x .readerTop, .act x .dispatch, .act x .writerTop, .act x .keepaliveTop]

def ping (x : Side) : List NetAct := [.act x .tick, .act x (.ping default)] ++ flush x

/-- A side reads a PING and answers it. -/
def pong (x : Side) : List NetAct :=
  [.read x 1, .act x .readerTop, .act x .dispatch, .act x .reply, .act x .dispatch] ++ flush x

/-- A side reads a PONG. -/
def countPong (x : Side) : List NetAct :=
  [.read x 1, .act x .readerTop, .act x .dispatch, .act x .dispatch]

def firstRounds : List NetAct := [
  settle .client, settle .server, ping .client, pong .server, countPong .client,
  ping .server, pong .client, countPong .server].flatten

/-- A round ends with its PONG. -/
def endRound (x : Side) : List NetAct := [.act x .graceOver, .act x .keepaliveTop]

def openStream : List NetAct := [
  [.act .client .accept, .act .client (.register 0), .act .client (.open 0), .act .client (.spawn 0)],
  flush .client,
  [.read .server 1, .act .server .readerTop, .act .server .dispatch, .act .server .dispatch,
    .act .server (.dialOk 0)]].flatten

/-- The client sends a chunk. -/
def sendChunk : List NetAct :=
  [.act .client (.upRead 0 [1]), .act .client (.upSend 0)] ++ flush .client

/-- The server's reader puts a chunk into the stream's channel. -/
def deliverChunk : List NetAct :=
  [.read .server 1, .act .server .readerTop, .act .server .dispatch, .act .server .delivered,
    .act .server .dispatch]

/-- The server's consumer stops reading after one chunk, and the client goes on sending until the
channel is full and the server's reader blocks in `deliver`. -/
def fillChannel : List NetAct := [
  openStream, sendChunk, deliverChunk, [.act .server (.downRecv 0)],
  (List.replicate inboundCapacity (sendChunk ++ deliverChunk)).flatten,
  sendChunk, [.read .server 1, .act .server .readerTop, .act .server .dispatch]].flatten

/-- Both sides ping every second; the reader blocks at 100 ms, and the PINGs of 2000 ms are not
answered by 4000 ms. -/
def pingedBlock : List TimedAct := [
  firstRounds.map .net, [.pass 100], fillChannel.map .net, [.pass 1900],
  [endRound .client, endRound .server, ping .client, ping .server, pong .client].flatten.map .net,
  [.pass 2000],
  (.act .client .graceOver :: List.replicate 4 (.act .client (.exit .keepalive))).map .net].flatten

/-- **One stalled stream kills the tunnel.** -/
theorem stalled_stream_kills :
    ∃ s, Reaches (step fun _ => 1) (fun _ a => healthy a = true)
        (start (fun _ => 1) fun _ => 0) s ∧
      (s.net.ep .client).cause = some .keepaliveTimeout ∧ (s.net.ep .server).n = 1 := by
  have hrun : ∃ s, Reaches (step fun _ => 1) (fun _ a => healthy a = true)
        (start (fun _ => 1) fun _ => 0) s ∧
      decide ((s.net.ep .client).cause = some .keepaliveTimeout ∧
        (s.net.ep .server).n = 1) = true :=
    reaches_of_exec (fun _ a => healthy a) pingedBlock (fun _ _ h => h) (by decide +kernel)
  obtain ⟨s, hs, hp⟩ := hrun
  exact ⟨s, hs, of_decide_eq_true hp⟩

/-- The conditions of `survives_of_clear`, checked. -/
def clear (s : Timed) (a : TimedAct) : Bool :=
  healthy a && match a with
    | .pass d => [Side.client, .server].all fun x => [Side.client, .server].all fun y =>
        !s.awaiting x || !s.delivering y || s.now + d < s.graceAt x
    | .net _ => true

theorem clear_of_check (h : clear s a = true) : healthy a = true ∧ Clear s a := by
  unfold clear at h
  rw [Bool.and_eq_true] at h
  refine ⟨h.1, ?_⟩
  rintro d x y rfl hx hy
  have hall := h.2
  simp only [List.all_eq_true] at hall
  have hside : ∀ z : Side, z ∈ [Side.client, .server] := by intro z; cases z <;> simp
  simpa [hx, hy] using hall x (hside x) y (hside y)

/-- Both sides ping every ten seconds; the reader blocks at 2000 ms, and the stream is dropped at
7000 ms. -/
def quietBlock : List TimedAct := [
  firstRounds.map .net, [.pass 2000],
  [endRound .client, endRound .server, fillChannel].flatten.map .net, [.pass 5000],
  [[.act .server .stall, .act .server .dropStalled, .act .server .reply, .act .server .dispatch],
    flush .server].flatten.map .net].flatten

theorem survives_of_quietBlock :
    ∃ s, Reaches (step fun _ => 10) (fun s a => healthy a = true ∧ Clear s a)
        (start (fun _ => 10) fun _ => 0) s ∧
      (s.now = 7000 ∧ (s.net.ep .server).streams 1 = none ∧
        (s.net.ep .client).streams 1 = some 0) ∧ Survives (fun _ => 10) s := by
  have hrun : ∃ s, Reaches (step fun _ => 10) (fun s a => healthy a = true ∧ Clear s a)
        (start (fun _ => 10) fun _ => 0) s ∧
      decide (s.now = 7000 ∧ (s.net.ep .server).streams 1 = none ∧
        (s.net.ep .client).streams 1 = some 0) = true :=
    reaches_of_exec clear quietBlock (fun _ _ => clear_of_check) (by decide +kernel)
  obtain ⟨s, hs, hp⟩ := hrun
  exact ⟨s, hs, of_decide_eq_true hp, survives_of_clear hs⟩

end Timed

end QeliSsPlugin
