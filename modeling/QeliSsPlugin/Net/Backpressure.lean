import QeliSsPlugin.Net.Pair

/-!
# Circular wait

Both readers answer from inside their loop: a PONG or an echoed CLOSE is enqueued with an awaiting
send, and a reader that waits for a slot of its own full frame channel does not read. Two readers that
do so at once are stuck: each frame channel waits for its writer, each writer for its wire, each wire
for the peer's reader (`circularWait_reachable`; `deliver`, the reader's other wait, is bounded by a
timeout, this one is not).

`not_circularWait` says what it takes to exclude it: no reader that has to reply finds its own channel
full while the peer's reader is already waiting.
-/

namespace QeliSsPlugin.Net

open Lib.Runs Mux Carrier

variable {capacity : Side → ℕ} {pingSecs : Side → ℕ} {s s' : Net} {a : NetAct}

/-- Wires of finite capacity. -/
def bounded (capacity : Side → ℕ) (x : Side) (n : ℕ) : Bool := n < capacity x

/-- One endpoint's part of the cycle: its frame channel is full, its writer waits for room on a full
wire, its reader for room in the frame channel. -/
structure Stuck (capacity : Side → ℕ) (s : Net) (x : Side) : Prop where
  channel : (s.ep x).hasRoom = false
  writer : ∃ f, (s.ep x).writer = .writing f
  wire : capacity x ≤ (s.wire x).length
  reader : ∃ f, (s.ep x).reader = .waiting f

/-- **The circular wait.** -/
def CircularWait (capacity : Side → ℕ) (s : Net) : Prop := ∀ x, Stuck capacity s x

/-- A reader that has to reply does not find its own frame channel full while the peer's reader is
waiting. This says nothing of the writers and the wires: once both readers wait, only the room that the wires
still have keeps the circle open, and the pumps can fill it. So it also leaves out runs in which one of the
two gets its slot before they have. -/
def TurnStep (s : Net) (a : NetAct) : Prop :=
  ∀ x, a = .act x .reply → (s.ep x).hasRoom = false → ∀ f, (s.ep x.peer).reader ≠ .waiting f

/-- A reader starts to wait only for a reply that finds the channel full. -/
theorem waiting_of_step {e e' : Endpoint} {b : Act} (h : e.Step b e')
    (hw : ∃ f, e'.reader = .waiting f) :
    (∃ f, e.reader = .waiting f) ∨ b = .reply ∧ e.hasRoom = false := by
  obtain ⟨f, hw⟩ := hw
  cases h with
  | goto hg =>
    generalize e.reader = r at hg
    simp only at hw
    subst hw
    cases hg with
    | replyFull _ hroom => exact .inr ⟨rfl, hroom⟩
  | readerExit | readerRead | handleKill | handleData | handleUnknown | handlePing | delivered
  | dropStalled | reply => simp at hw
  | _ => exact .inl ⟨f, hw⟩

theorem one_waiting_step {room : Side → ℕ → Bool}
    (hi : ¬ ∀ x, ∃ f, (s.ep x).reader = .waiting f) (hc : TurnStep s a) (h : Step room s a s') :
    ¬ ∀ x, ∃ f, (s'.ep x).reader = .waiting f := by
  intro hboth
  -- one of the two started to wait in this step
  have hnew : ∃ x, a = .act x .reply ∧ (s.ep x).hasRoom = false ∧
      (s'.ep x.peer) = (s.ep x.peer) := by
    by_contra hno
    refine hi fun x => ?_
    rcases h.endpoint x with heq | ⟨b, hs, hact⟩
    · rw [← heq]; exact hboth x
    rcases waiting_of_step hs (hboth x) with hw | ⟨rfl, hroom⟩
    · exact hw
    · rcases hact with rfl | ⟨hwire, -⟩
      · refine absurd ⟨x, rfl, hroom, ?_⟩ hno
        rcases h with ⟨-, -⟩
        simp [Function.update_of_ne x.peer_ne]
      · cases hwire
  obtain ⟨x, ha, hroom, heq⟩ := hnew
  obtain ⟨f, hf⟩ := hboth x.peer
  exact hc x ha hroom f (heq ▸ hf)

/-- **No circular wait** in a run in which no reader starts to wait while the other waits. -/
theorem not_circularWait
    (h : Reaches (step (bounded capacity)) TurnStep (connect pingSecs) s) :
    ¬ CircularWait capacity s := by
  have hi : ¬ ∀ x, ∃ f, (s.ep x).reader = .waiting f := by
    refine h.invariant (fun hw => ?_) fun hi hc hs => one_waiting_step hi hc (.of_step hs)
    obtain ⟨f, hf⟩ := hw .client
    simp [connect, Endpoint.spawnTunnel] at hf
  exact fun hw => hi fun x => (hw x).reader

/-- The pump of a side reads and enqueues one chunk. -/
def pumpOne (x : Side) : List NetAct := [.act x (.upRead 0 [0]), .act x (.upSend 0)]

/-- One stream, and a PING from each side that its peer has read and not answered yet. -/
def exchangePings : List NetAct :=
  [[.act .client .accept, .act .client (.register 0), .act .client (.open 0),
      .act .client (.spawn 0)],
    writeOne .client,
    [.act .server .readerTop, .act .server .dispatch, .read .server 1, .act .server .readerTop,
      .act .server .dispatch, .act .server (.dialOk 0), .act .server .dispatch,
      .act .client .readerTop, .act .client .dispatch,
      .act .client .keepaliveTop, .act .client .tick, .act .client (.ping default),
      .act .server .keepaliveTop, .act .server .tick, .act .server (.ping default)],
    writeOne .client, writeOne .server, [.read .server 1, .read .client 1]].flatten

/-- The pump of a side sends more than its queues hold, then its reader answers the PING. -/
def saturate (x : Side) : List NetAct :=
  [pumpOne x, writeOne x, pumpOne x, [.act x .writerTop, .act x .writerTake],
    (List.replicate frameChannelCapacity (pumpOne x)).flatten,
    [.act x .readerTop, .act x .dispatch, .act x .reply]].flatten

/-- Whether an endpoint is stuck. -/
def stuckCheck (capacity : Side → ℕ) (s : Net) (x : Side) : Bool :=
  !(s.ep x).hasRoom && decide (capacity x ≤ (s.wire x).length) &&
    (match (s.ep x).writer with
      | .writing _ => true
      | _ => false) &&
    match (s.ep x).reader with
      | .waiting _ => true
      | _ => false

theorem stuck_of_check {x : Side} (h : stuckCheck capacity s x = true) : Stuck capacity s x := by
  simp only [stuckCheck, Bool.and_eq_true, Bool.not_eq_true', decide_eq_true_eq] at h
  obtain ⟨⟨⟨h1, h2⟩, h3⟩, h4⟩ := h
  refine ⟨h1, ?_, h2, ?_⟩
  · split at h3
    · next f hw => exact ⟨f, hw⟩
    · cases h3
  · split at h4
    · next f hr => exact ⟨f, hr⟩
    · cases h4

set_option maxRecDepth 100000 in
/-- Two saturated endpoints that each have a PING to answer wait for each other for ever. -/
theorem circularWait_reachable :
    ∃ s, Reachable (step (bounded fun _ => 1)) (connect fun _ => 1) s ∧
      CircularWait (fun _ => 1) s := by
  have hrun : ∃ s, Reachable (step (bounded fun _ => 1)) (connect fun _ => 1) s ∧
      (stuckCheck (fun _ => 1) s .client && stuckCheck (fun _ => 1) s .server) = true :=
    reaches_of_exec (fun _ _ => true) (exchangePings ++ saturate .client ++ saturate .server)
      (fun _ _ _ => trivial) (by decide +kernel)
  obtain ⟨s, hs, hp⟩ := hrun
  rw [Bool.and_eq_true] at hp
  refine ⟨s, hs, ?_⟩
  rintro (_ | _)
  · exact stuck_of_check hp.1
  · exact stuck_of_check hp.2

/-- A check for `TurnStep`. -/
def turnCheck (s : Net) : NetAct → Bool
  | .act x .reply => (s.ep x).hasRoom ||
      match (s.ep x.peer).reader with
      | .waiting _ => false
      | _ => true
  | _ => true

theorem turnStep_of_check (h : turnCheck s a = true) : TurnStep s a := by
  rintro x rfl hroom f hf
  simp [turnCheck, hroom, hf] at h

set_option maxRecDepth 100000 in
/-- One saturated endpoint alone: its reader waits, the peer's does not. -/
theorem not_circularWait_saturate :
    ∃ s, Reaches (step (bounded fun _ => 1)) TurnStep (connect fun _ => 1) s ∧
      Stuck (fun _ => 1) s .client ∧ ¬ CircularWait (fun _ => 1) s := by
  have hrun : ∃ s, Reaches (step (bounded fun _ => 1)) TurnStep (connect fun _ => 1) s ∧
      stuckCheck (fun _ => 1) s .client = true :=
    reaches_of_exec turnCheck (exchangePings ++ saturate .client)
      (fun _ _ => turnStep_of_check) (by decide +kernel)
  obtain ⟨s, hs, hp⟩ := hrun
  exact ⟨s, hs, stuck_of_check hp, not_circularWait hs⟩

end QeliSsPlugin.Net
