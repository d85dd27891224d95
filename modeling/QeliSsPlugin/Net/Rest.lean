import QeliSsPlugin.Net.Clock
import QeliSsPlugin.Net.Delivery
import QeliSsPlugin.Net.Teardown

/-!
# Nothing gets stuck on the way

What a pair of live tunnels does when nobody outside does anything: it comes to rest, and then nothing is
left on the way. Each frame that was enqueued has been handled by the peer, and each chunk that a pump read
has been received by the peer's pump of the stream, or is in its inbound channel while the local socket, or
the upstream, is waited for: `quiet_delivered`.

The counterpart for dead tunnels is `death_spreads`; a pair with one dead side does not rest before both have
been torn down.
-/

namespace QeliSsPlugin

open Lib.Runs Mux Carrier
open scoped List

/-! ### A live endpoint -/

namespace Carrier.Endpoint

variable {e : Endpoint} {k : ℕ}

/-- Whether the task of a stream waits for something outside the tunnel, or for its peer. -/
def waits (e : Endpoint) (k : ℕ) : Bool :=
  match (e.inst k).phase with
  | .dialing | .dropped => true
  | .pump up .receiving => up.isAtRest && (e.inst k).inbound.isEmpty && e.senderHeld k
  | .pump up _ => up.isAtRest
  | _ => false

/-- **An endpoint at rest**: its writer waits for a frame and its reader for a record, its keepalive for a
timer, and each stream's task for something outside. -/
structure AtRest (e : Endpoint) : Prop where
  writer : e.writer = .select ∧ e.frames = []
  reader : e.reader = .select ∧ e.records = []
  keepalive : e.keepalive ≠ .top ∧ ∀ before, e.keepalive ≠ .pinging before
  exits : ∀ w, e.exit w = .idle
  streams : ∀ k, e.waits k = true

/-- What is known of a live tunnel. -/
structure Live (e : Endpoint) : Prop where
  alive : e.dead = false
  deadFirst : DeadFirst e
  returned : Returned e
  idle : e.reader = .select → e.records = []

namespace Live

variable (hl : Live e)

include hl

theorem framesOpen : e.framesOpen = true := hl.deadFirst.framesOpen hl.alive

variable (hq : Quiet e)

include hq

theorem exits (w : Who) : e.exit w = .idle :=
  (hq.exits w).resolve_right (hl.deadFirst.exit_ne hl.alive w).2

variable (hwrite : ∀ f, e.writer ≠ .writing f)

include hwrite

theorem writer : e.writer = .select ∧ e.frames = [] := by
  rcases hw : e.writer with _ | _ | f | _
  · have hstep := hq .writerTop rfl
    simp [step, hw] at hstep
  · refine ⟨rfl, ?_⟩
    have hstep := hq .writerTake rfl
    rcases hf : e.frames with _ | ⟨f, fs⟩
    · rfl
    · simp [step, hw, hf] at hstep
  · exact absurd hw (hwrite f)
  · exact absurd (hl.exits hq .writer) (hl.returned.writer hw)

theorem hasRoom : e.hasRoom = true := by
  simp [Endpoint.hasRoom, (hl.writer hq hwrite).2, frameChannelCapacity]

theorem reader : e.reader = .select := by
  refine (hq.reader fun _ _ => .inr (hl.hasRoom hq hwrite)).resolve_right fun hleft => ?_
  exact hl.returned.reader hleft (hl.exits hq .reader)

theorem keepalive : e.keepalive ≠ .top ∧ ∀ before, e.keepalive ≠ .pinging before := by
  refine ⟨fun hk => ?_, fun before hk => ?_⟩
  · have hstep := hq .keepaliveTop rfl
    simp [step, hk] at hstep
  · have hstep := hq (.ping default) rfl
    simp [step, hk, hl.framesOpen, hl.hasRoom hq hwrite] at hstep

/-- With room in the frame channel an uplink waits for its local socket only. -/
theorem up {up : Up} {down : Down} (hp : (e.inst k).phase = .pump up down) : up.isAtRest = true := by
  have ho := hl.framesOpen
  have hroom := hl.hasRoom hq hwrite
  rcases up with _ | (_ | ⟨c, rest⟩) | _ | _
  · rfl
  · have hsends := hl.returned.sending k
    rw [hp] at hsends
    cases hsends
  · have hstep := hq (.upSend k) rfl
    simp [step, hp, ho, hroom] at hstep
  · have hstep := hq (.upClose k) rfl
    simp [step, hp, ho, hroom] at hstep
  · rfl

theorem streams (k : ℕ) : e.waits k = true := by
  have ho := hl.framesOpen
  have hroom := hl.hasRoom hq hwrite
  unfold waits
  rcases hp : (e.inst k).phase with _ | _ | _ | _ | _ | _ | _ | ⟨up, down⟩ | _
  · have hstep := hq (.register k) rfl
    simp [step, hp] at hstep
  · have hstep := hq (.open k) rfl
    simp [step, hp, ho, hroom] at hstep
  · have hstep := hq (.spawn k) rfl
    simp [step, hp] at hstep
  · rfl
  · have hstep := hq (.unregister k) rfl
    simp [step, hp] at hstep
  · have hstep := hq (.refuse k) rfl
    simp [step, hp, ho, hroom] at hstep
  · have hstep := hq (.refuse k) rfl
    simp [step, hp, ho, hroom] at hstep
  · have hup := hl.up hq hwrite hp
    rcases down with _ | c | _
    · have hin : (e.inst k).inbound = [] := by
        rcases hin : (e.inst k).inbound with _ | ⟨c, cs⟩
        · rfl
        · have hstep := hq (.downRecv k) rfl
          simp [step, hp, hin] at hstep
      have hheld : e.senderHeld k = true := by
        by_contra hno
        have hstep := hq (.downEnd k) rfl
        simp [step, hp, hin, hno] at hstep
      simp [hup, hin, hheld]
    · exact hup
    · exact hup
  · rfl

/-- A live tunnel that can do nothing by itself is at rest. -/
theorem atRest : AtRest e :=
  ⟨hl.writer hq hwrite, ⟨hl.reader hq hwrite, hl.idle (hl.reader hq hwrite)⟩, hl.keepalive hq hwrite,
    hl.exits hq, hl.streams hq hwrite⟩

end Live

/-- An endpoint at rest stays as it is, as long as it lives. -/
theorem AtRest.quiet (h : AtRest e) (hd : e.dead = false) : Quiet e := by
  have hr := h.reader.1
  have hw := h.writer.1
  intro a ha
  cases a with
  | accept | dialOk | dialErr | upRead | upEof | downWrote | downFail | readerRead | readerEof
  | readerErr | wrote | writeErr | tick | graceOver | kill => cases ha
  | register k | «open» k | spawn k | unregister k | refuse k | upSend k | upClose k | downRecv k
  | downEnd k =>
    have hwaits := h.streams k
    unfold waits at hwaits
    rcases hp : (e.inst k).phase with _ | _ | _ | _ | _ | _ | _ | ⟨up, down⟩ | _ <;>
      rw [hp] at hwaits <;> first | cases hwaits | skip
    · simp [step, hp]
    · rcases up with _ | _ | _ | _ <;> rcases down with _ | _ | _ <;>
        simp_all [Up.isAtRest, step]
    · simp [step, hp]
  | exit w => simp [step, exitStep, h.exits w]
  | keepaliveTop => simp [step, h.keepalive.1]
  | ping =>
    simp only [step]
    split
    · next before hk => exact absurd hk (h.keepalive.2 before)
    · rfl
  | keepaliveDead => simp only [step, hd]; split <;> simp
  | writerReturn => simp [step, h.exits .writer]
  | writerTake | encryptErr => simp [step, hw, h.writer.2]
  | _ => simp [step, hr, hw, hd]

/-- At rest, everything that was read from the local socket has been enqueued. -/
theorem AtRest.taken (h : AtRest e) (hd : Drained e) (ho : e.framesOpen = true) (k : ℕ) :
    (e.inst k).taken = (e.inst k).pumped := by
  have hpending : (e.inst k).phase.pending = [] := by
    have hwaits := h.streams k
    unfold waits at hwaits
    rcases hp : (e.inst k).phase with _ | _ | _ | _ | _ | _ | _ | ⟨up, down⟩ | _ <;>
      rw [hp] at hwaits <;> first | rfl | skip
    rcases up with _ | _ | _ | _ <;> rcases down with _ | _ | _ <;>
      simp_all [Up.isAtRest, Phase.pending, Up.pending]
  rw [hd ho k, hpending, List.append_nil]

/-- At rest, what a running stream has not received waits for its local socket or its upstream. -/
theorem AtRest.inbound (h : AtRest e) (hs : Smooth e) (hk : k < e.n) :
    (e.inst k).inbound = [] ∨ (e.inst k).phase = .dialing ∨
      ∃ up c, (e.inst k).phase = .pump up (.writing c) := by
  have hwaits := h.streams k
  have hrunning := hs.running k hk
  unfold waits at hwaits
  rcases hp : (e.inst k).phase with _ | _ | _ | _ | _ | _ | _ | ⟨up, down⟩ | _ <;>
    rw [hp] at hwaits hrunning <;> first | (cases hwaits; done) | (cases hrunning; done) | skip
  · exact .inr (.inl rfl)
  · rcases down with _ | c | _
    · simp only [Bool.and_eq_true, List.isEmpty_iff] at hwaits
      exact .inl hwaits.1.2
    · exact .inr (.inr ⟨up, c, rfl⟩)
    · exact .inl (hs.ended k hk up hp).2

end Carrier.Endpoint

/-! ### The pair -/

namespace Net

variable {room : Side → ℕ → Bool} {pingSecs : Side → ℕ} {s : Net}

theorem live_of_reachable (h : Reachable (step room) (connect pingSecs) s) {x : Side}
    (hd : (s.ep x).dead = false) : (s.ep x).Live := by
  have hr := endpoint_reachable h x
  have hlocal : (s.ep x).Local :=
    hr.invariant Endpoint.local_spawnTunnel fun hi _ hs => Endpoint.local_step hi (.of_step hs)
  have hidle : (s.ep x).reader = .select → (s.ep x).records = [] :=
    hr.invariant (I := fun e => e.reader = .select → e.records = []) (fun h => by cases h)
      fun hi _ hs => Endpoint.idle_step hi (.of_step hs)
  exact ⟨hd, hlocal.deadFirst, Endpoint.returned_reachable hr, hidle⟩

/-- **A pair at rest**: both endpoints are, and the wires are empty. -/
def AtRest (s : Net) : Prop := ∀ x, (s.ep x).AtRest ∧ s.wire x = []

/-- A pair of live tunnels can do nothing more by itself exactly when it is at rest. -/
theorem quiet_iff_atRest (h : Reachable (step room) (connect pingSecs) s)
    (hlive : ∀ x, (s.ep x).dead = false) : Quiet room s ↔ AtRest s := by
  constructor
  · intro hq x
    have hrest : ∀ y, (s.ep y).AtRest := fun y =>
      (live_of_reachable h (hlive y)).atRest (hq.endpoint y) (hq.writer y)
    refine ⟨hrest x, ?_⟩
    by_contra hwire
    have hnone : step room s (.read x.peer 1) = none := hq _ rfl
    have hlen : 1 ≤ (s.wire x).length := List.length_pos_iff.mpr hwire
    simp [step, hlen, Endpoint.step, (hrest x.peer).reader.1] at hnone
  · intro hrest a ha
    rcases a with ⟨x, b⟩ | ⟨x, fate⟩ | ⟨x, m⟩ | x
    · have hnone : (s.ep x).step b = none := by
        by_cases hb : b = .writeErr
        · subst hb
          simp [Endpoint.step, (hrest x).1.writer.1]
        · exact (hrest x).1.quiet (hlive x) b (by simpa [NetAct.isInternal, hb] using ha)
      simp [step, hnone]
    · simp [step, (hrest x).1.writer.1]
    · simp [step, (hrest x.peer).2]
      omega
    · have hopen := (live_of_reachable h (hlive x.peer)).framesOpen
      simp [step, closed, hopen]

/-- On an intact wire, everything that was enqueued has been handled by the peer of a pair at rest. -/
theorem AtRest.handled (hr : AtRest s) (he : ∀ x, Exact anyFrame s x) (x : Side) :
    goods (s.ep x).handled = (s.ep x.peer).sent := by
  have heq := (he x.peer).eq (by simp [(hr x.peer).1.writer.1])
  have hqueued : (s.ep x.peer).queued = [] := by
    simp [Endpoint.queued, (hr x.peer).1.writer.1, (hr x.peer).1.writer.2]
  simpa [filter_anyFrame, arrived, hqueued, (hr x).1.reader.2, (hr x.peer).2] using heq

/-- **Everything is delivered**: the pump of a stream has received what the peer's pump of the same stream
read from its local socket, but for what waits in the inbound channel for the local socket or for the
upstream. -/
def Delivered (s : Net) : Prop :=
  ∀ x, ∀ j < (s.ep x.peer).n, ((s.ep x.peer).inst j).taken ≠ [] → ∃ k < (s.ep x).n,
    ((s.ep x).inst k).id = ((s.ep x.peer).inst j).id ∧
    ((s.ep x).inst k).received ++ ((s.ep x).inst k).inbound = ((s.ep x.peer).inst j).taken ∧
    (((s.ep x).inst k).inbound = [] ∨ ((s.ep x).inst k).phase = .dialing ∨
      ∃ up c, ((s.ep x).inst k).phase = .pump up (.writing c))

theorem AtRest.delivered (hr : AtRest s) (hi : SmoothInv s) (hlive : ∀ x, (s.ep x).dead = false)
    (hids : (s.ep .client).n ≤ 2 ^ 32) : Delivered s := by
  have hdist := hi.base.idsDistinct hids
  have hsm := hi.streams hlive hids
  intro x j hj hne
  have hopen := (hi.base.endpoint x.peer).deadFirst.framesOpen (hlive x.peer)
  have htaken := (hr x.peer).1.taken (hi.base.endpoint x.peer).drained hopen j
  have hpumped := (hi.base.endpoint x.peer).outbox.pumped (hdist x.peer) j hj
  have hall := hr.handled hi.exact x
  -- a chunk that was read was sent and handled, so its stream is known here
  obtain ⟨p, hp⟩ := List.exists_mem_of_ne_nil _ hne
  rw [htaken, ← hpumped, ← hall] at hp
  obtain ⟨k, hk, hid, -⟩ := hi.base.known hi.exact (mem_dataOf.mp hp)
  have hintake := (hsm x).1.exact k hk
  have hdelivery : (s.ep x).inDelivery k = [] :=
    Endpoint.inDelivery_eq_nil fun id q hd => by rw [(hr x).1.reader.1] at hd; cases hd
  unfold Endpoint.intake at hintake
  rw [hdelivery, List.append_nil, hall, hid, hpumped, ← htaken] at hintake
  exact ⟨k, hk, hid, hintake, (hr x).1.inbound (hsm x).1 hk⟩

/-- **Nothing gets stuck on the way.** When a pair of live tunnels can do nothing more by itself, it is at
rest; if the wires damage nothing, every frame that was enqueued has then been handled; and if besides no
consumer stalls or fails and no id is used twice, all data is delivered. -/
theorem quiet_delivered (hq : Quiet room s) (hlive : ∀ x, (s.ep x).dead = false) :
    (Reachable (step room) (connect pingSecs) s → AtRest s) ∧
    (Reaches (step room) IntactStep (connect pingSecs) s →
      ∀ x, goods (s.ep x).handled = (s.ep x.peer).sent) ∧
    (Reaches (step room) SmoothStep (connect pingSecs) s → (s.ep .client).n ≤ 2 ^ 32 →
      Delivered s) := by
  have hrest : ∀ {C : Net → NetAct → Prop}, Reaches (step room) C (connect pingSecs) s → AtRest s :=
    fun h => (quiet_iff_atRest h.reachable hlive).mp hq
  refine ⟨hrest, fun h => ?_, fun h hids => ?_⟩
  · have hi : Base s ∧ ∀ x, Exact anyFrame s x :=
      h.invariant (I := fun s => Base s ∧ ∀ x, Exact anyFrame s x)
        ⟨base_connect pingSecs, exact_connect _ pingSecs⟩ fun hi hC hs =>
          ⟨base_step hi.1 (.of_step hs),
            exact_step hi.1.endpoint hi.2 (hC.spare _) (.of_step hs)⟩
    exact (hrest h).handled hi.2
  · have hi : SmoothInv s :=
      h.invariant smoothInv_connect fun hi hc hs => smoothInv_step hi hc (.of_step hs)
    exact (hrest h).delivered hi hlive hids

/-- What is left of an endpoint at rest, checked; its calls of `kill` apart. -/
def restCheck (e : Endpoint) : Bool :=
  e.writer = .select ∧ e.frames = [] ∧ e.reader = .select ∧ e.records = [] ∧ e.dead = false ∧
    e.keepalive = .select ∧ e.exit .reader = .idle ∧ e.exit .writer = .idle ∧
    e.exit .keepalive = .idle ∧ ∀ k < e.n, e.waits k = true

theorem atRest_of_check {e : Endpoint} (hi : e.Instances) (h : restCheck e = true)
    (hkills : ∀ n, e.exit (.caller n) = .idle) : e.AtRest := by
  obtain ⟨hw, hf, hr, hrec, -, hk, h1, h2, h3, hwaits⟩ := of_decide_eq_true h
  refine ⟨⟨hw, hf⟩, ⟨hr, hrec⟩, by simp [hk], fun w => ?_, fun k => ?_⟩
  · rcases w with _ | _ | _ | n
    · exact h1
    · exact h2
    · exact h3
    · exact hkills n
  · by_cases hlt : k < e.n
    · exact hwaits k hlt
    · rw [Endpoint.waits, hi.range k (by omega)]

/-- A smooth run in which nobody calls `kill`. -/
def unkilledCheck (s : Net) (a : NetAct) : Bool :=
  smoothCheck s a && match a with
    | .act _ (.kill _) | .act _ (.exit (.caller _)) => false
    | _ => true

theorem idle_of_unkilled
    (h : Reaches (step room) (fun s a => unkilledCheck s a = true) (connect pingSecs) s) (x : Side)
    (n : ℕ) : (s.ep x).exit (.caller n) = .idle := by
  refine h.invariant (I := fun s => ∀ x, (s.ep x).exit (.caller n) = .idle) (fun _ => rfl) ?_ x
  intro s s' a hi hc hs x
  rcases (Step.of_step hs).endpoint x with heq | ⟨b, hb, hact⟩
  · rw [heq]
    exact hi x
  · have hne : ∀ c : Act, c.isWire = false → unkilledCheck s (.act x c) = false → b ≠ c := by
      rintro c hlocal hcheck rfl
      rcases hact with rfl | ⟨hwire, -⟩
      · rw [hc] at hcheck
        cases hcheck
      · rw [hwire] at hlocal
        cases hlocal
    have hexit : b ≠ .exit (.caller n) := hne _ rfl (by simp [unkilledCheck])
    have hkill : b ≠ .kill n := hne _ rfl (by simp [unkilledCheck])
    rw [Endpoint.exit_caller_eq hb hexit hkill]
    exact hi x

/-- The loops of a side come to rest. -/
def settle (x : Side) : List NetAct := [.act x .writerTop, .act x .dispatch, .act x .keepaliveTop]

/-- The run with the half-closed stream, until nothing is left to do. -/
def settledRun : List NetAct :=
  halfCloseRun ++ [.act .client (.downEnd 0)] ++ settle .client ++ settle .server

theorem quiet_delivered_halfClose :
    ∃ s, Reaches (step fun _ _ => true) SmoothStep (connect fun _ => 1) s ∧
      AtRest s ∧ Delivered s ∧ ((s.ep .client).inst 0).taken = [[7]] := by
  have hrun : ∃ s, Reaches (step fun _ _ => true) (fun s a => unkilledCheck s a = true)
      (connect fun _ => 1) s ∧
      decide ((s.ep .client).n = 1 ∧ ((s.ep .client).inst 0).taken = [[7]] ∧
        restCheck (s.ep .client) = true ∧ restCheck (s.ep .server) = true ∧
        s.wire .client = [] ∧ s.wire .server = []) = true :=
    reaches_of_exec unkilledCheck settledRun (fun _ _ h => h) (by decide +kernel)
  obtain ⟨s, hs, hp⟩ := hrun
  obtain ⟨hn, htaken, hclient, hserver, hwc, hws⟩ := of_decide_eq_true hp
  have hr : Reaches (step fun _ _ => true) SmoothStep (connect fun _ => 1) s :=
    hs.mono fun _ _ hc => smoothStep_of_check (Bool.and_eq_true_iff.mp hc).1
  have hcheck : ∀ x, restCheck (s.ep x) = true := by
    intro x
    cases x
    · exact hclient
    · exact hserver
  have hlive : ∀ x, (s.ep x).dead = false := fun x => (of_decide_eq_true (hcheck x)).2.2.2.2.1
  have hrest : AtRest s := by
    intro x
    have hi := Endpoint.instances_reachable (endpoint_reachable hr.reachable x)
    refine ⟨atRest_of_check hi (hcheck x) (idle_of_unkilled hs x), ?_⟩
    cases x
    · exact hwc
    · exact hws
  obtain ⟨-, -, hdelivered⟩ := @quiet_delivered (fun _ _ => true) (fun _ => 1) s
    ((quiet_iff_atRest hr.reachable hlive).mpr hrest) hlive
  exact ⟨s, hr, hrest, hdelivered hr (by omega), htaken⟩

end Net

end QeliSsPlugin
