import QeliSsPlugin.Carrier.Teardown
import QeliSsPlugin.Net.Pair

/-!
# Death spreads over the wire

A tunnel that has been torn down holds neither half of its socket, so its peer reads what is left on the
wire and then the end of the stream: when a pair can do nothing more by itself and one side is dead,
both sides have been torn down (`death_spreads`). This holds whatever the wire has done to the records
and however few of them it can hold: a write that finds no room ends with its timeout.
-/

namespace QeliSsPlugin

open Lib.Runs Mux Carrier

/-- What the pair does by itself. A write ends, by its timeout at the latest. -/
def NetAct.isInternal : NetAct → Bool
  | .act _ a => !a.isExternal || a = .writeErr
  | .write _ _ | .read _ _ | .eof _ => true

namespace Net

variable {room : Side → ℕ → Bool} {pingSecs : Side → ℕ} {s s' : Net} {a : NetAct}

/-- A run of the pair is a run of each of its endpoints. -/
theorem endpoint_reachable (h : Reachable (step room) (connect pingSecs) s) (x : Side) :
    Reachable Endpoint.step (.spawnTunnel x (pingSecs x)) (s.ep x) := by
  refine h.invariant (I := fun s => Reachable Endpoint.step (.spawnTunnel x (pingSecs x)) (s.ep x))
    .refl fun {s s' a} hr _ hs => ?_
  have hset : ∀ {y e b}, (s.ep y).step b = some e → s'.ep = Function.update s.ep y e →
      Reachable Endpoint.step (.spawnTunnel x (pingSecs x)) (s'.ep x) := by
    intro y e b he hep
    rw [hep, Function.update_apply]
    split_ifs with hx
    · subst hx
      exact .tail hr trivial he
    · exact hr
  rcases a with ⟨y, b⟩ | ⟨y, fate⟩ | ⟨y, m⟩ | y
  · simp only [step] at hs
    split at hs
    · cases hs
    · obtain ⟨e, he, rfl⟩ := Option.map_eq_some_iff.mp hs
      exact hset he rfl
  · simp only [step] at hs
    split at hs
    · split at hs
      · obtain ⟨e, he, rfl⟩ := Option.map_eq_some_iff.mp hs
        exact hset he rfl
      · cases hs
    · cases hs
  · simp only [step] at hs
    split at hs
    · obtain ⟨e, he, rfl⟩ := Option.map_eq_some_iff.mp hs
      exact hset he rfl
    · cases hs
  · simp only [step] at hs
    split at hs
    · obtain ⟨e, he, rfl⟩ := Option.map_eq_some_iff.mp hs
      exact hset he rfl
    · cases hs

/-- The pair can do nothing more by itself. -/
def Quiet (room : Side → ℕ → Bool) (s : Net) : Prop :=
  ∀ a, a.isInternal = true → step room s a = none

section Quiet

variable (hq : Quiet room s)

include hq

theorem Quiet.endpoint (x : Side) : (s.ep x).Quiet := by
  intro a ha
  have hnone : step room s (.act x a) = none := hq _ (by simp [NetAct.isInternal, ha])
  have hwire : a.isWire = false := by
    cases a <;> simp_all [Act.isWire, Act.isExternal]
  simpa [step, hwire] using hnone

theorem Quiet.writer (x : Side) (f : Frame) : (s.ep x).writer ≠ .writing f := by
  intro hw
  have hnone : step room s (.act x .writeErr) = none := hq _ (by simp [NetAct.isInternal])
  simp [step, Act.isWire, Endpoint.step, hw] at hnone

/-- A reader whose peer has been torn down reads the rest of the wire and its end. -/
theorem Quiet.reader (x : Side) (hp : (s.ep x.peer).TornDown) :
    (s.ep x).reader ≠ .select := by
  intro hr
  by_cases hwire : s.wire x.peer = []
  · have hnone : step room s (.eof x) = none := hq _ rfl
    have hclosed : closed (s.ep x.peer) = true := by
      simp [closed, hp.channel.1, hp.reader.2]
    simp [step, hclosed, hwire, Endpoint.step, hr] at hnone
  · have hnone : step room s (.read x 1) = none := hq _ rfl
    have hlen : 1 ≤ (s.wire x.peer).length := List.length_pos_iff.mpr hwire
    simp [step, hlen, Endpoint.step, hr] at hnone

end Quiet

/-- Two tunnels that have been torn down stay as they are. -/
theorem quiet_of_tornDown (h : ∀ x, (s.ep x).TornDown) : Quiet room s := by
  intro a ha
  rcases a with ⟨x, b⟩ | ⟨x, fate⟩ | ⟨x, m⟩ | x
  · have hnone : (s.ep x).step b = none := by
      by_cases hb : b = .writeErr
      · subst hb
        simp [Endpoint.step, (h x).writer.1]
      · exact (h x).quiet b (by simpa [NetAct.isInternal, hb] using ha)
    simp [step, hnone]
  · simp [step, (h x).writer.1]
  · simp [step, Endpoint.step, (h x).reader.1]
  · simp [step, Endpoint.step, (h x).reader.1]

theorem tornDown_of_quiet (h : Reachable (step room) (connect pingSecs) s) (hq : Quiet room s)
    {x : Side} (hd : (s.ep x).dead = true) : (s.ep x).TornDown :=
  Endpoint.tornDown_of_quiet (endpoint_reachable h x) hd (hq.endpoint x) (hq.writer x)

/-- A side whose peer has been torn down is dead. -/
theorem dead_of_peer (h : Reachable (step room) (connect pingSecs) s) (hq : Quiet room s) {x : Side}
    (hp : (s.ep x.peer).TornDown) : (s.ep x).dead = true := by
  have hr := endpoint_reachable h x
  have hi := Endpoint.returned_reachable hr
  have hfirst : (s.ep x).DeadFirst :=
    (hr.invariant Endpoint.local_spawnTunnel fun hi _ hs =>
      Endpoint.local_step hi (.of_step hs)).deadFirst
  have hchannel := (hq.endpoint x).channel hi (hq.writer x)
  have hleft : (s.ep x).reader = .left :=
    ((hq.endpoint x).reader fun _ _ => hchannel).resolve_left (hq.reader x hp)
  have hdone : (s.ep x).exit .reader = .done :=
    ((hq.endpoint x).exits .reader).resolve_left (hi.reader hleft)
  exact hfirst.exit .reader (.inr hdone)

/-- **Death spreads.** In every reachable state of the pair with one side dead, the pair can do nothing
more by itself exactly when both sides have been torn down. -/
theorem death_spreads (h : Reachable (step room) (connect pingSecs) s) {x : Side}
    (hd : (s.ep x).dead = true) : Quiet room s ↔ ∀ y, (s.ep y).TornDown := by
  refine ⟨fun hq y => ?_, quiet_of_tornDown⟩
  have hx := tornDown_of_quiet h hq hd
  by_cases hy : y = x
  · rw [hy]
    exact hx
  · have hpeer : y.peer = x := by
      cases x <;> cases y <;> simp_all [Side.peer]
    exact tornDown_of_quiet h hq (dead_of_peer h hq (hpeer ▸ hx))

/-- The loops of a side start. -/
def startLoops (x : Side) : List NetAct :=
  [.act x .readerTop, .act x .dispatch, .act x .writerTop, .act x .keepaliveTop]

/-- The writer and the keepalive of a dead side leave. -/
def stopLoops (x : Side) : List NetAct :=
  [.act x .writerDead] ++ List.replicate 5 (.act x (.exit .writer)) ++
    [.act x .writerReturn, .act x .keepaliveDead]

/-- The server sends a PING and its connection breaks; the client reads the PING, answers it and reads
the end. -/
def serverBreaks : List NetAct :=
  startLoops .client ++ startLoops .server ++
    [.act .server .tick, .act .server (.ping default), .act .server .writerTake,
      .write .server .intact, .act .server .writerTop, .act .server .readerErr] ++
    List.replicate 7 (.act .server (.exit .reader)) ++ stopLoops .server ++
    [.read .client 1, .act .client .readerTop, .act .client .dispatch, .act .client .reply,
      .act .client .writerTake, .write .client .intact, .act .client .writerTop,
      .act .client .dispatch, .eof .client] ++
    List.replicate 7 (.act .client (.exit .reader)) ++ stopLoops .client

/-- Whether the loops of an endpoint without streams have ended. -/
def ended (e : Endpoint) : Bool :=
  e.n = 0 ∧ e.dead = true ∧ e.reader = .left ∧ e.writer = .left ∧ e.keepalive = .left ∧
    e.framesOpen = false ∧ e.frames = [] ∧ e.exit .reader = .done ∧ e.exit .writer = .done ∧
    e.exit .keepalive = .idle

theorem tornDown_of_ended {e : Endpoint} (hi : e.Instances) (h : ended e = true)
    (hkills : ∀ n, e.exit (.caller n) = .idle) : e.TornDown := by
  obtain ⟨hn, -, hreader, hwriter, hkeep, hopen, hnil, hrdone, hwdone, hkdone⟩ := of_decide_eq_true h
  refine ⟨⟨hreader, hrdone⟩, ⟨hwriter, hwdone⟩, .inr hkeep, fun w => ?_, ⟨hopen, hnil⟩,
    fun id k hk => ?_, fun k => ?_⟩
  · rcases w with _ | _ | _ | n
    · exact .inr hrdone
    · exact .inr hwdone
    · exact .inl hkdone
    · exact .inl (hkills n)
  · have hlt := (hi.registered id k hk).1
    omega
  · rw [hi.range k (by omega)]
    rfl

theorem death_spreads_serverBreaks :
    ∃ s, Reachable (step fun _ _ => true) (connect fun _ => 1) s ∧
      (s.ep .client).cause = some .peerClosed ∧ Quiet (fun _ _ => true) s := by
  have hexec : ∃ s, exec (guard (fun _ _ => true) (step fun _ _ => true)) (connect fun _ => 1)
      serverBreaks = some s ∧ (∀ x n, (s.ep x).exit (.caller n) = .idle) ∧
      decide ((s.ep .client).cause = some .peerClosed ∧ ended (s.ep .client) = true ∧
        ended (s.ep .server) = true) = true := by
    refine ⟨_, rfl, fun x n => ?_, by decide +kernel⟩
    rcases x with _ | _ <;> rfl
  obtain ⟨s, hs, hkills, hp⟩ := hexec
  obtain ⟨hcause, hclient, hserver⟩ := of_decide_eq_true hp
  have hended : ∀ x, ended (s.ep x) = true := by
    intro x
    cases x
    · exact hclient
    · exact hserver
  have hr : Reachable (step fun _ _ => true) (connect fun _ => 1) s :=
    exec_reaches (fun _ _ _ => trivial) _ hs
  have htorn : ∀ x, (s.ep x).TornDown := fun x =>
    tornDown_of_ended (Endpoint.instances_reachable (endpoint_reachable hr x)) (hended x) (hkills x)
  exact ⟨s, hr, hcause, (death_spreads hr (of_decide_eq_true hserver).2.1).mpr htorn⟩

end Net

end QeliSsPlugin
