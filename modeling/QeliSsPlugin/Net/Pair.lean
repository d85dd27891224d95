import QeliSsPlugin.Carrier.History

/-!
# Two connected endpoints

`Net` is a client endpoint and a server endpoint with one FIFO wire in each direction. A wire holds
the records written and not yet read, as the outcomes they will have at the reader; what the wire
does to a record (`Fate`) is chosen when the record is written. How many records a wire can hold is
the parameter `room`.

The wire invariants are `Net.Sublist` (whatever the wire does, what was handled, buffered, on the
wire and queued are in the order sent) and `Net.Exact` (the frames of a kind that the wire never
damages are all there).
-/

namespace QeliSsPlugin

open Lib.Runs Mux Carrier
open scoped List

/-- The other side. -/
def Carrier.Side.peer : Side → Side
  | .client => .server
  | .server => .client

@[simp] theorem Carrier.Side.peer_peer (x : Side) : x.peer.peer = x := by cases x <;> rfl

theorem Carrier.Side.peer_ne (x : Side) : x.peer ≠ x := by cases x <;> decide

/-- What the wire does to one record. -/
inductive Fate
  | intact
  | undecryptable
  | malformed
  | lost
  deriving DecidableEq

/-- What arrives of a record with a frame. -/
def Fate.arrives (f : Frame) : Fate → List Outcome
  | .intact => [.good f]
  | .undecryptable => [.undecryptable]
  | .malformed => [.malformed]
  | .lost => []

/-- Whether an action of an endpoint is one of its socket's. -/
def Carrier.Act.isWire : Act → Bool
  | .readerRead _ | .readerEof | .wrote => true
  | _ => false

structure Net where
  ep : Side → Endpoint
  /-- The records a side wrote that its peer has not read. -/
  wire : Side → List Outcome

/-- An action of an endpoint's task, a write of a record, a read of some records, an end of
stream. -/
inductive NetAct
  | act (x : Side) (a : Act)
  | write (x : Side) (fate : Fate)
  | read (x : Side) (m : ℕ)
  | eof (x : Side)
  deriving DecidableEq

/-- Whether the action damages no record. -/
def NetAct.isIntact : NetAct → Bool
  | .write _ fate => fate = .intact
  | _ => true

/-- The writer of a side takes one frame and writes it. -/
def writeOne (x : Side) : List NetAct := [.act x .writerTop, .act x .writerTake, .write x .intact]

namespace Net

/-- Two endpoints just spawned. -/
def connect (pingSecs : Side → ℕ) : Net := ⟨fun x => .spawnTunnel x (pingSecs x), fun _ => []⟩

/-- Change one endpoint. -/
@[simps] def set (s : Net) (x : Side) (e : Endpoint) : Net :=
  { s with ep := Function.update s.ep x e }

/-- Change one wire. -/
@[simps] def setWire (s : Net) (x : Side) (w : List Outcome) : Net :=
  { s with wire := Function.update s.wire x w }

/-- Whether an endpoint has dropped both halves of its socket. -/
def closed (e : Endpoint) : Bool := e.framesOpen = false ∧ e.exit .reader = .done

variable (room : Side → ℕ → Bool)

/-- **One step of the pair.** -/
def step (s : Net) : NetAct → Option Net
  | .act x a => if a.isWire then none else ((s.ep x).step a).map (s.set x)
  | .write x fate =>
    match (s.ep x).writer with
    | .writing f =>
      if room x (s.wire x).length then
        ((s.ep x).step .wrote).map fun e =>
          (s.set x e).setWire x (s.wire x ++ fate.arrives f)
      else none
    | _ => none
  | .read x m =>
    if 0 < m ∧ m ≤ (s.wire x.peer).length then
      ((s.ep x).step (.readerRead ((s.wire x.peer).take m))).map fun e =>
        (s.set x e).setWire x.peer ((s.wire x.peer).drop m)
    else none
  | .eof x =>
    if closed (s.ep x.peer) ∧ s.wire x.peer = [] then
      ((s.ep x).step .readerEof).map (s.set x)
    else none

/-- Every step of the pair, with its effect. -/
inductive Step (s : Net) : NetAct → Net → Prop
  | act {x a e} : a.isWire = false → (s.ep x).Step a e → Step s (.act x a) (s.set x e)
  | write {x fate f} : (s.ep x).writer = .writing f → room x (s.wire x).length = true →
      Step s (.write x fate)
        ((s.set x { s.ep x with writer := .top }).setWire x (s.wire x ++ fate.arrives f))
  | read {x m} : (s.ep x).reader = .select → 0 < m → m ≤ (s.wire x.peer).length →
      Step s (.read x m)
        ((s.set x { s.ep x with
          reader := .top, records := (s.ep x).records ++ (s.wire x.peer).take m }).setWire
            x.peer ((s.wire x.peer).drop m))
  | eof {x} : (s.ep x).reader = .select → closed (s.ep x.peer) = true → s.wire x.peer = [] →
      Step s (.eof x) (s.set x ((s.ep x).leaveReader .peerClosed))

variable {room} {s s' : Net} {a : NetAct}

theorem Step.of_step (h : step room s a = some s') : Step room s a s' := by
  rcases a with ⟨x, a⟩ | ⟨x, fate⟩ | ⟨x, m⟩ | x
  · simp only [step] at h
    split at h
    · cases h
    · next ha =>
      obtain ⟨e, he, rfl⟩ := Option.map_eq_some_iff.mp h
      exact .act (by simpa using ha) (.of_step he)
  · simp only [step] at h
    split at h
    · next f hw =>
      split at h
      · next hroom =>
        simp only [Endpoint.step, hw, Option.map_some, Option.some.injEq] at h
        subst h
        exact .write hw hroom
      · cases h
    · cases h
  · simp only [step] at h
    split at h
    · next hm =>
      obtain ⟨e, he, rfl⟩ := Option.map_eq_some_iff.mp h
      simp only [Endpoint.step] at he
      split at he
      · next hr =>
        cases he
        exact .read hr hm.1 hm.2
      · cases he
    · cases h
  · simp only [step] at h
    split at h
    · next hc =>
      obtain ⟨e, he, rfl⟩ := Option.map_eq_some_iff.mp h
      simp only [Endpoint.step] at he
      split at he
      · next hr =>
        cases he
        exact .eof hr hc.1 hc.2
      · cases he
    · cases h

/-- A step of the pair is a step of one endpoint. -/
theorem Step.endpoint (h : Step room s a s') (y : Side) :
    s'.ep y = s.ep y ∨
      ∃ b, (s.ep y).Step b (s'.ep y) ∧
        (a = .act y b ∨ b.isWire = true ∧ (b = .readerEof → a = .eof y)) := by
  rcases h with @⟨x, b, e, -, hs⟩ | @⟨x, fate, f, hw, -⟩ | @⟨x, m, hr, -, -⟩ | @⟨x, hr, -, -⟩
  all_goals by_cases hy : y = x
  all_goals first | subst hy | skip
  · right
    exact ⟨b, by simpa using hs, .inl rfl⟩
  · left; simp [Function.update_of_ne hy]
  · right
    exact ⟨.wrote, by simpa using Endpoint.Step.wrote hw, .inr ⟨rfl, by simp⟩⟩
  · left; simp [Function.update_of_ne hy]
  · right
    exact ⟨.readerRead ((s.wire y.peer).take m), by simpa using Endpoint.Step.readerRead hr,
      .inr ⟨rfl, by simp⟩⟩
  · left; simp [Function.update_of_ne hy]
  · right
    exact ⟨.readerEof, by simpa using Endpoint.Step.readerExit (e := s.ep y) (hr ▸ .eof),
      .inr ⟨rfl, fun _ => rfl⟩⟩
  · left; simp [Function.update_of_ne hy]

theorem local_connect (pingSecs : Side → ℕ) (x : Side) : ((connect pingSecs).ep x).Local :=
  Endpoint.local_spawnTunnel

theorem local_step (hl : ∀ x, (s.ep x).Local) (h : Step room s a s') (x : Side) :
    (s'.ep x).Local := by
  rcases h.endpoint x with heq | ⟨b, hb, -⟩
  · rw [heq]; exact hl x
  · exact Endpoint.local_step (hl x) hb

theorem side_step (h : Step room s a s') (x : Side) : (s'.ep x).side = (s.ep x).side := by
  rcases h.endpoint x with heq | ⟨b, hb, -⟩
  · rw [heq]
  · exact Endpoint.step_side hb

end Net

/-! ### The queues -/

namespace Carrier.Endpoint

variable {e e' : Endpoint} {a : Act}

/-- The frames enqueued and not written yet. -/
def queued (e : Endpoint) : List Frame :=
  (match e.writer with
    | .writing f => [f]
    | _ => []) ++ e.frames

/-- What a step other than a completed write does to the queue: nothing, one frame more, or the
writer has left and some of it is gone. -/
theorem step_queue (hl : LoopsInv e) (h : e.Step a e') (ha : a.isWire = false) :
    (e'.queued = e.queued ∧ e'.sent = e.sent ∧ (e'.writer = .left ↔ e.writer = .left)) ∨
    (∃ f, e'.queued = e.queued ++ [f] ∧ e'.sent = e.sent ++ [f] ∧ e'.writer = e.writer) ∨
    (e'.queued <+ e.queued ∧ e'.sent = e.sent ∧ e'.writer = .left) := by
  cases h with
  | post | upSend | reply | ping => exact .inr (.inl ⟨_, by simp [queued], rfl, rfl⟩)
  | writerTop hw => exact .inl ⟨by simp [queued, hw], rfl, by simp [hw]⟩
  | writerTake hw hf => exact .inl ⟨by simp [queued, hw, hf], rfl, by simp [hw]⟩
  | writerExit => exact .inr (.inr ⟨by simp [queued], rfl, rfl⟩)
  | encryptErr hw hf =>
    refine .inr (.inr ⟨?_, rfl, rfl⟩)
    simp [queued, hw, hf]
  | wrote => cases ha
  | writerReturn hx =>
    have hleft : e.writer = .left := by
      by_contra hne
      have := hl.writer hne
      rw [hx] at this; cases this
    exact .inr (.inr ⟨by simp [queued, hleft], rfl, hleft⟩)
  | _ => exact .inl ⟨rfl, rfl, Iff.rfl⟩

/-- A step other than a read moves records from the buffer to those handled. -/
theorem step_records (h : e.Step a e') (ha : a.isWire = false) :
    e'.handled ++ e'.records = e.handled ++ e.records := by
  refine (step_received h).resolve_right ?_
  rintro ⟨rs, rfl, -⟩
  cases ha

end Carrier.Endpoint

namespace Net

variable {room : Side → ℕ → Bool} {s s' : Net} {a : NetAct}

/-- The records a side wrote that were not lost: handled by its peer, buffered there, or on the
wire. -/
def arrived (s : Net) (x : Side) : List Outcome :=
  (s.ep x.peer).handled ++ (s.ep x.peer).records ++ s.wire x

/-- What a step does to the records of a side, on their way from its writer to its peer. -/
inductive FlowStep (s : Net) (a : NetAct) (s' : Net) (x : Side) : Prop
  /-- Records move on, or nothing happens to them. -/
  | same : s'.arrived x = s.arrived x → (s'.ep x).queued = (s.ep x).queued →
      (s'.ep x).sent = (s.ep x).sent → ((s'.ep x).writer = .left ↔ (s.ep x).writer = .left) →
      FlowStep s a s' x
  /-- A frame is enqueued. -/
  | push {f} : s'.arrived x = s.arrived x → (s'.ep x).queued = (s.ep x).queued ++ [f] →
      (s'.ep x).sent = (s.ep x).sent ++ [f] → (s'.ep x).writer = (s.ep x).writer →
      FlowStep s a s' x
  /-- The writer has left. -/
  | drop : s'.arrived x = s.arrived x → (s'.ep x).queued <+ (s.ep x).queued →
      (s'.ep x).sent = (s.ep x).sent → (s'.ep x).writer = .left → FlowStep s a s' x
  /-- A record is written. -/
  | write {fate f} : a = .write x fate → (s.ep x).writer = .writing f →
      s'.arrived x = s.arrived x ++ fate.arrives f →
      (s.ep x).queued = f :: (s'.ep x).queued → (s'.ep x).sent = (s.ep x).sent →
      FlowStep s a s' x

theorem flow_step (hl : ∀ x, (s.ep x).Local) (h : Step room s a s') (x : Side) :
    FlowStep s a s' x := by
  rcases h with @⟨y, b, e, hb, hs⟩ | @⟨y, fate, f, hw, -⟩ | @⟨y, m, hr, -, hm⟩ | @⟨y, hr, -, -⟩
  · have harr : (s.set y e).arrived x = s.arrived x := by
      unfold arrived
      by_cases hy : x.peer = y
      · subst hy
        simp [Endpoint.step_records hs hb]
      · simp [Function.update_of_ne hy]
    by_cases hy : x = y
    · subst hy
      rcases Endpoint.step_queue (hl x).loops hs hb with h | ⟨f, h⟩ | h
      · exact .same harr (by simpa using h.1) (by simpa using h.2.1) (by simpa using h.2.2)
      · exact .push harr (by simpa using h.1) (by simpa using h.2.1) (by simpa using h.2.2)
      · exact .drop harr (by simpa using h.1) (by simpa using h.2.1) (by simpa using h.2.2)
    · exact .same harr (by simp [Function.update_of_ne hy]) (by simp [Function.update_of_ne hy])
        (by simp [Function.update_of_ne hy])
  · by_cases hy : x = y
    · subst hy
      refine .write (f := f) rfl hw ?_ (by simp [Endpoint.queued, hw]) (by simp)
      simp [arrived, Function.update_of_ne x.peer_ne]
    · have hp : x.peer = y := by cases x <;> cases y <;> simp_all [Side.peer]
      subst hp
      refine .same ?_ (by simp [Function.update_of_ne hy]) (by simp [Function.update_of_ne hy])
        (by simp [Function.update_of_ne hy])
      simp [arrived, Function.update_of_ne hy]
  · by_cases hy : x = y
    · subst hy
      refine .same ?_ (by simp [Endpoint.queued]) (by simp) (by simp)
      simp [arrived, Function.update_of_ne x.peer_ne, Function.update_of_ne x.peer_ne.symm]
    · have hp : y = x.peer := by cases x <;> cases y <;> simp_all [Side.peer]
      subst hp
      refine .same ?_ (by simp [Function.update_of_ne hy]) (by simp [Function.update_of_ne hy])
        (by simp [Function.update_of_ne hy])
      simp only [Side.peer_peer] at hm ⊢
      simp [arrived]
  · by_cases hy : x = y
    · subst hy
      exact .same (by simp [arrived, Function.update_of_ne x.peer_ne]) (by simp [Endpoint.queued])
        (by simp) (by simp)
    · have hp : y = x.peer := by cases x <;> cases y <;> simp_all [Side.peer]
      subst hp
      exact .same (by simp [arrived]) (by simp [Function.update_of_ne hy])
        (by simp [Function.update_of_ne hy]) (by simp [Function.update_of_ne hy])

/-- **Whatever the wire does**, the frames that arrive and those still queued are in the order
sent. -/
def Sublist (s : Net) (x : Side) : Prop :=
  goods (s.arrived x) ++ (s.ep x).queued <+ (s.ep x).sent

theorem goods_arrives_sublist (fate : Fate) (f : Frame) : goods (fate.arrives f) <+ [f] := by
  cases fate <;> simp [Fate.arrives, goods, Outcome.frame?]

theorem sublist_step (hl : ∀ x, (s.ep x).Local) (hi : ∀ x, s.Sublist x) (h : Step room s a s')
    (x : Side) : s'.Sublist x := by
  have hx := hi x
  unfold Sublist at hx ⊢
  rcases flow_step hl h x with ⟨h1, h2, h3, -⟩ | ⟨h1, h2, h3, -⟩ | ⟨h1, h2, h3, -⟩ |
    ⟨-, -, h1, h2, h3⟩
  · rw [h1, h2, h3]; exact hx
  · rw [h1, h2, h3, ← List.append_assoc]
    exact hx.append_right _
  · rw [h1, h3]
    exact (h2.append_left _).trans hx
  · rw [h1, h3, goods_append, List.append_assoc]
    rw [h2] at hx
    refine List.Sublist.trans ?_ hx
    exact ((goods_arrives_sublist _ _).append_right _).append_left _

/-- **The frames of a kind the wire never damages** all arrive, in order, as long as the writer
writes them; what has arrived is a prefix of what was sent. -/
structure Exact (p : Frame → Bool) (s : Net) (x : Side) : Prop where
  le : (goods (s.arrived x)).filter p <+: (s.ep x).sent.filter p
  eq : (s.ep x).writer ≠ .left →
    (goods (s.arrived x) ++ (s.ep x).queued).filter p = (s.ep x).sent.filter p

/-- The action writes no frame of the kind other than intact. -/
def SpareStep (p : Frame → Bool) (s : Net) (a : NetAct) : Prop :=
  ∀ x fate f, a = .write x fate → (s.ep x).writer = .writing f → p f = true → fate = .intact

theorem exact_connect (p : Frame → Bool) (pingSecs : Side → ℕ) (x : Side) :
    Exact p (connect pingSecs) x := by
  refine ⟨?_, fun _ => ?_⟩ <;>
    simp [connect, arrived, Endpoint.spawnTunnel, goods, Endpoint.queued]

theorem exact_step {p : Frame → Bool} (hl : ∀ x, (s.ep x).Local) (hi : ∀ x, Exact p s x)
    (hp : SpareStep p s a) (h : Step room s a s') (x : Side) : Exact p s' x := by
  obtain ⟨hle, heq⟩ := hi x
  rcases flow_step hl h x with ⟨h1, h2, h3, h4⟩ | ⟨h1, h2, h3, h4⟩ | ⟨h1, h2, h3, h4⟩ |
    ⟨ha, hw, h1, h2, h3⟩
  · refine ⟨by rw [h1, h3]; exact hle, fun hne => ?_⟩
    rw [h1, h2, h3]
    exact heq (fun hl => hne (h4.mpr hl))
  · refine ⟨?_, fun hne => ?_⟩
    · rw [h1, h3, List.filter_append]
      exact hle.trans (List.prefix_append _ _)
    · rw [h1, h2, h3, ← List.append_assoc, List.filter_append, heq (h4 ▸ hne),
        List.filter_append]
  · exact ⟨by rw [h1, h3]; exact hle, fun hne => absurd h4 hne⟩
  · rename_i fate f
    have heq' := heq (by simp [hw])
    rw [h2] at heq'
    have harr : ((goods (s'.arrived x)) ++ (s'.ep x).queued).filter p =
        (s'.ep x).sent.filter p := by
      rw [h1, h3, ← heq', goods_append]
      by_cases hpf : p f = true
      · obtain rfl := hp x fate f ha hw hpf
        simp [Fate.arrives, goods, Outcome.frame?]
      · have hno : (goods (fate.arrives f)).filter p = [] := by
          cases fate <;> simp [Fate.arrives, goods, Outcome.frame?, hpf]
        simp [List.filter_append, hno, hpf]
    exact ⟨by rw [← harr, List.filter_append]; exact List.prefix_append _ _, fun _ => harr⟩

/-! ### What holds in every run -/

/-- The invariants of every run, whatever the wire does. -/
structure Base (s : Net) : Prop where
  endpoint : ∀ x, (s.ep x).Local
  side : ∀ x, (s.ep x).side = x
  order : ∀ x, s.Sublist x

theorem base_connect (pingSecs : Side → ℕ) : Base (connect pingSecs) := by
  refine ⟨local_connect pingSecs, fun _ => rfl, fun x => ?_⟩
  simp [Sublist, connect, arrived, Endpoint.spawnTunnel, goods, Endpoint.queued]

theorem base_step (hb : Base s) (h : Step room s a s') : Base s' :=
  ⟨local_step hb.endpoint h, fun x => (side_step h x).trans (hb.side x),
    sublist_step hb.endpoint hb.order h⟩

/-- What an endpoint has handled is a sublist of what its peer has sent. -/
theorem Base.handled_sublist (hb : Base s) (x : Side) :
    goods (s.ep x).handled <+ (s.ep x.peer).sent := by
  have := hb.order x.peer
  simp only [Sublist, arrived, Side.peer_peer, goods_append, List.append_assoc] at this
  exact (List.sublist_append_left _ _).trans this

/-- The client handles no OPEN. -/
theorem Base.opens_client (hb : Base s) : opens (goods (s.ep .client).handled) = [] := by
  have hsub := opens_sublist (hb.handled_sublist .client)
  have hno : opens (s.ep Side.client.peer).sent = [] :=
    (hb.endpoint .server).announced.server (hb.side .server)
  rw [hno] at hsub
  exact List.sublist_nil.mp hsub

/-- No two streams of an endpoint have the same id while the client allocated no id twice. -/
theorem Base.idsDistinct (hb : Base s) (hn : (s.ep .client).n ≤ 2 ^ 32) (x : Side) :
    (s.ep x).IdsDistinct := by
  have hclient : (s.ep .client).IdsDistinct :=
    (hb.endpoint .client).numbered.idsDistinct (hb.side _) hb.opens_client hn
  rcases x with _ | _
  · exact hclient
  · refine (hb.endpoint .server).numbered.idsDistinct_of_nodup (hb.side _) ?_
    have hnodup := (hb.endpoint .client).announced.nodup hclient
    exact hnodup.sublist (opens_sublist (hb.handled_sublist .server))

/-- The frame of every kind. -/
def anyFrame : Frame → Bool := fun _ => true

theorem filter_anyFrame (fs : List Frame) : fs.filter anyFrame = fs := List.filter_true fs

/-- The wire damages no record. -/
def IntactStep (_s : Net) (a : NetAct) : Prop := a.isIntact = true

theorem IntactStep.spare (h : IntactStep s a) (p : Frame → Bool) : SpareStep p s a := by
  rintro x fate f rfl _ _
  exact of_decide_eq_true h

/-- On an intact wire, what an endpoint has handled is a prefix of what its peer has sent. -/
theorem handled_initial (he : ∀ x, Exact anyFrame s x) (x : Side) :
    goods (s.ep x).handled <+: (s.ep x.peer).sent := by
  have := (he x.peer).le
  simp only [filter_anyFrame, arrived, Side.peer_peer, goods_append,
    List.append_assoc] at this
  exact (List.prefix_append _ _).trans this

/-- On an intact wire, DATA is handled only for streams that are, or were, registered. -/
theorem Base.known (hb : Base s) (he : ∀ x, Exact anyFrame s x) {x : Side} {id : UInt32} {p : Bytes}
    (hd : .data id p ∈ goods (s.ep x).handled) :
    ∃ k < (s.ep x).n, ((s.ep x).inst k).id = id ∧ ((s.ep x).inst k).phase ≠ .allocated := by
  rcases x with _ | _
  · -- the server's pump exists because the client's OPEN was handled
    have hsent := (hb.handled_sublist .client).subset hd
    obtain ⟨k, hk, hid⟩ := (hb.endpoint .server).outbox.known id p hsent
    have hmem : id ∈ opens (goods (s.ep .server).handled) := by
      rw [← (hb.endpoint .server).numbered.server (hb.side _)]
      exact List.mem_map.mpr ⟨k, List.mem_range.mpr hk, hid⟩
    have hopen : .open id ∈ (s.ep .client).sent :=
      (hb.handled_sublist .server).subset (mem_opens.mp hmem)
    obtain ⟨j, hj, hid', hann⟩ := (hb.endpoint .client).announced.known id (mem_opens.mpr hopen)
    exact ⟨j, hj, hid', fun hp => by rw [hp] at hann; cases hann⟩
  · have hfirst := ((hb.endpoint .client).announced.first (hb.side _)).of_initial
      (handled_initial he .server)
    obtain ⟨pre, post, heq⟩ := List.append_of_mem hd
    have hopen : .open id ∈ goods (s.ep .server).handled := by
      rw [heq]
      exact List.mem_append_left _ (hfirst pre id p post heq)
    have hmem : id ∈ (List.range (s.ep .server).n).map fun k => ((s.ep .server).inst k).id := by
      rw [(hb.endpoint .server).numbered.server (hb.side _)]
      exact mem_opens.mpr hopen
    obtain ⟨k, hk, hid⟩ := List.mem_map.mp hmem
    refine ⟨k, List.mem_range.mp hk, hid, fun hp => ?_⟩
    have hno := (hb.endpoint .server).fanOut.noAccept (hb.side _) k
    rw [hp] at hno; cases hno

end Net

end QeliSsPlugin
