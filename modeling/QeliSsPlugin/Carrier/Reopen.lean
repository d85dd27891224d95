import QeliSsPlugin.Carrier.History

/-!
# OPEN for an id that is in use

The reader registers a new inbound channel for every OPEN, before the `on_open` of its side runs, and
whatever the id was registered for before is displaced.

* At the client an OPEN is a protocol violation that is said to be ignored. It never is: the id is
  mapped to a channel whose receiver is already dropped (`open_not_ignored`), and the stream that had the
  id, if any, sees the end of its input.
* At the server a second OPEN takes the inbound channel from the running pump of the id, but not its
  uplink: two pumps then send under one id. `onePump_iff` says when exactly this does not happen. A later
  channel counts there also when its own connect has failed; `unique_of_standing` is for those that stand.
-/

namespace QeliSsPlugin.Carrier

open QeliSsPlugin.Lib.Runs QeliSsPlugin.Mux

/-- Whether a pump can still enqueue DATA. -/
def Phase.canSend : Phase → Bool
  | .pump up _ => up.canSend
  | _ => false

namespace Endpoint

variable {e e' e₁ e₂ : Endpoint} {a : Act} {side : Side} {pingSecs k : ℕ} {id : UInt32}
  {rest : List Outcome} {t : List (Endpoint × Act)}

/-! ### An unexpected OPEN at the client -/

/-- A step of the `on_open` task of instance `k`, or one that leaves the registry alone. -/
def OnOpenStep (k : ℕ) (e : Endpoint) (a : Act) : Prop :=
  a = .refuse k ∨ ∀ e', e.step a = some e' → e'.streams = e.streams

/-- **The reader handles the record it has taken, and the `on_open` task runs**, to any point up to its
end. Other tasks may run meanwhile if they leave the registry alone. -/
def Processing (e e₂ : Endpoint) : Prop :=
  ∃ e₁, e.step .dispatch = some e₁ ∧ Reaches step (OnOpenStep e.n) e₁ e₂

/-- **Ignoring an OPEN**: the registry is as it was, and no running stream lost its inbound channel. -/
structure Ignored (e e₂ : Endpoint) : Prop where
  streams : ∀ i, e₂.streams i = e.streams i
  channels : ∀ k, (e.inst k).phase.isPump = true → e.senderHeld k = true → e₂.senderHeld k = true

theorem dispatch_open (hr : e.reader = .drain) (hrec : e.records = .good (.open id) :: rest) :
    e.step .dispatch = some (((e.handle (.good (.open id)) rest).addStream
      (.fresh id (onOpen e.side))).register id e.n) := by
  simp only [step, hr, hrec]
  rfl

theorem refuse_streams (h : e.step (.refuse k) = some e') : e'.streams = e.streams := by
  simp only [step] at h
  split at h
  · split_ifs at h <;> cases h <;> rfl
  · split_ifs at h <;> cases h <;> rfl
  · cases h

/-- A task whose receiver is gone and that is no pump does not get one back. -/
theorem rejected_of_step (h : e.Step a e') (hk : k < e.n)
    (hp : (e.inst k).phase = .rejecting ∨ (e.inst k).phase = .dropped) :
    (e'.inst k).phase = .rejecting ∨ (e'.inst k).phase = .dropped := by
  rcases step_inst h with ⟨-, hinst⟩ | ⟨hc, -, hinst⟩ | ⟨-, -, hinst⟩
  · rw [hinst]; exact hp
  · rw [hinst, Function.update_apply]
    split_ifs with hj
    · subst hj
      cases hc with
      | move hm => generalize (e.inst k).phase = p at hm hp; cases hm <;> simp_all
      | post hpo => generalize (e.inst k).phase = p at hpo hp; cases hpo <;> simp_all
      | delivered => exact hp
      | register hq | unregister hq | upRead hq | upSend hq | downRecv hq => simp [hq] at hp
    · exact hp
  · rw [hinst, Function.update_of_ne (by omega)]; exact hp

/-- What stays as it is while the `on_open` task runs: the registry, the task's lack of a receiver, and
that the reader holds senders of registered instances only. -/
structure Rejected (registry : UInt32 → Option ℕ) (k : ℕ) (e : Endpoint) : Prop where
  streams : e.streams = registry
  lt : k < e.n
  phase : (e.inst k).phase = .rejecting ∨ (e.inst k).phase = .dropped
  delivering : ∀ j i p, e.reader = .delivering j i p → registry i = some j
  stalled : ∀ j i, e.reader = .stalled j i → registry i = some j

theorem rejected_step {registry : UInt32 → Option ℕ} (hi : Rejected registry k e)
    (hc : OnOpenStep k e a) (hs : e.step a = some e') : Rejected registry k e' := by
  have hsame : e'.streams = e.streams := by
    rcases hc with rfl | hquiet
    · exact refuse_streams hs
    · exact hquiet e' hs
  have h := Step.of_step hs
  have hn := le_n_of_step h
  have hlt := hi.lt
  refine ⟨hsame.trans hi.streams, by omega, rejected_of_step h hi.lt hi.phase, fun j i p hr => ?_,
    fun j i hr => ?_⟩
  · rcases step_delivering h hr with hr | ⟨-, hs, -⟩
    · exact hi.delivering j i p hr
    · rw [← hi.streams]; exact hs
  · rcases step_stalled h hr with hr | ⟨p, hr⟩
    · exact hi.stalled j i hr
    · exact hi.delivering j i p hr

theorem rejected_of_processing (hside : e.side = .client) (hr : e.reader = .drain)
    (hrec : e.records = .good (.open id) :: rest) (hp : Processing e e₂) :
    Rejected (Function.update e.streams id (some e.n)) e.n e₂ := by
  obtain ⟨e₁, h₁, hrun⟩ := hp
  rw [dispatch_open hr hrec] at h₁
  obtain rfl := Option.some.inj h₁
  refine hrun.invariant ⟨rfl, Nat.lt_succ_self _, .inl ?_, fun j i p hd => ?_, fun j i hd => ?_⟩
    (fun hi hc hs => rejected_step hi hc hs)
  · simp [Stream.fresh, onOpen, hside]
  · have hd : e.reader = .delivering j i p := hd
    rw [hr] at hd; cases hd
  · have hd : e.reader = .stalled j i := hd
    rw [hr] at hd; cases hd

/-- **An OPEN is never ignored by the client.** From the moment the reader has handled it, also when
its `on_open` task has run to its end, the registry maps the id to a new channel without a receiver, so
later DATA for the id is refused; and the stream that had the id has lost its channel. -/
theorem open_not_ignored (h : Reachable step (spawnTunnel .client pingSecs) e)
    (hr : e.reader = .drain) (hrec : e.records = .good (.open id) :: rest)
    (hp : Processing e e₂) :
    ¬ Ignored e e₂ ∧ e₂.streams id ≠ e.streams id ∧
      (∃ k, e₂.streams id = some k ∧ (e₂.inst k).phase.hasReceiver = false) ∧
      ∀ k, e.streams id = some k → e₂.senderHeld k = false := by
  have hside : e.side = .client := h.invariant (I := fun e => e.side = .client) rfl
    fun hi _ hs => (step_side (.of_step hs)).trans hi
  have hreg := (instances_reachable h).registered
  have hi := rejected_of_processing hside hr hrec hp
  have hmap : e₂.streams id = some e.n := by rw [hi.streams, Function.update_self]
  have hne : e₂.streams id ≠ e.streams id := by
    intro heq
    have := (hreg id e.n (heq ▸ hmap)).1
    omega
  refine ⟨fun hig => hne (hig.streams id), hne, ⟨e.n, hmap, ?_⟩, fun k hk => ?_⟩
  · rcases hi.phase with hph | hph <;> rw [hph] <;> rfl
  · -- no id is mapped to the displaced instance any more
    have hgone : ∀ i, Function.update e.streams id (some e.n) i ≠ some k := by
      intro i hik
      rw [Function.update_apply] at hik
      obtain ⟨hlt, hid, -⟩ := hreg id k hk
      split_ifs at hik with hi
      · have := Option.some.inj hik
        omega
      · exact hi ((hreg i k hik).2.1.symm.trans hid)
    unfold senderHeld
    rw [hi.streams]
    split
    · next j i p hd =>
      have hj : j ≠ k := fun hj => hgone i (hj ▸ hi.delivering j i p hd)
      simp [hgone, hj]
    · next j i hd =>
      have hj : j ≠ k := fun hj => hgone i (hj ▸ hi.stalled j i hd)
      simp [hgone, hj]
    · simp [hgone]

/-- A client with one running stream (id 1) reads an OPEN for the id 1. -/
def openedTwice : List Act :=
  [.accept, .register 0, .open 0, .spawn 0, .readerTop, .dispatch, .readerRead [.good (.open 1)],
    .readerTop]

theorem open_displaces_stream :
    ∃ e e₂, Reachable step (spawnTunnel .client 0) e ∧ e.reader = .drain ∧
      e.records = [.good (.open 1)] ∧ (e.inst 0).phase = .pump .reading .receiving ∧
      e.senderHeld 0 = true ∧ Processing e e₂ ∧ (e₂.inst e.n).phase = .dropped ∧
      ¬ Ignored e e₂ ∧ e₂.senderHeld 0 = false := by
  have hexec : ∃ e, exec (guard (fun _ _ => true) step) (spawnTunnel .client 0) openedTwice = some e ∧
      e.reader = .drain ∧ e.records = [.good (.open 1)] ∧
      (e.inst 0).phase = .pump .reading .receiving ∧ e.senderHeld 0 = true ∧
      ∃ e₁ e₂, e.step .dispatch = some e₁ ∧ e₁.step (.refuse e.n) = some e₂ ∧
        (e₂.inst e.n).phase = .dropped ∧ e₂.senderHeld 0 = false :=
    ⟨_, rfl, rfl, rfl, rfl, rfl, _, _, rfl, rfl, rfl, rfl⟩
  obtain ⟨e, he, hr, hrec, hph, hheld, e₁, e₂, h₁, h₂, hend, hlost⟩ := hexec
  refine ⟨e, e₂, exec_reaches (fun _ _ _ => trivial) _ he, hr, hrec, hph, hheld,
    ⟨e₁, h₁, .tail .refl (.inl rfl) h₂⟩, hend, fun hig => ?_, hlost⟩
  have hkept := hig.channels 0 (by rw [hph]; rfl) hheld
  rw [hlost] at hkept; cases hkept

/-- Also an OPEN for an id that is not in use changes the registry. -/
theorem open_not_ignored_unused :
    ∃ e e₂, Reachable step (spawnTunnel .client 0) e ∧ e.streams 7 = none ∧ Processing e e₂ ∧
      ¬ Ignored e e₂ ∧ ∃ k, e₂.streams 7 = some k ∧ (e₂.inst k).phase.hasReceiver = false := by
  have hexec : ∃ e, exec (guard (fun _ _ => true) step) (spawnTunnel .client 0)
      [.readerTop, .dispatch, .readerRead [.good (.open 7)], .readerTop] = some e ∧
      e.reader = .drain ∧ e.records = [.good (.open 7)] ∧ e.streams 7 = none ∧
      ∃ e₁ e₂, e.step .dispatch = some e₁ ∧ e₁.step (.refuse e.n) = some e₂ :=
    ⟨_, rfl, rfl, rfl, rfl, _, _, rfl, rfl⟩
  obtain ⟨e, he, hr, hrec, hnone, e₁, e₂, h₁, h₂⟩ := hexec
  have hreach : Reachable step (spawnTunnel .client 0) e := exec_reaches (fun _ _ _ => trivial) _ he
  have hp : Processing e e₂ := ⟨e₁, h₁, .tail .refl (.inl rfl) h₂⟩
  obtain ⟨hno, -, hmap, -⟩ := open_not_ignored hreach hr hrec hp
  exact ⟨e, e₂, hreach, hnone, hp, hno, hmap⟩

/-! ### A second OPEN at the server -/

/-- **One pump per stream id**, while frames can be enqueued: no two pumps can send under one id, and
a pump whose id was registered again has ended sending, whatever has become of the later one. -/
structure OnePump (e : Endpoint) : Prop where
  unique : e.framesOpen = true → ∀ j k, (e.inst j).phase.canSend = true →
    (e.inst k).phase.canSend = true → (e.inst j).id = (e.inst k).id → j = k
  ended : e.framesOpen = true → ∀ j k, j < k → k < e.n → (e.inst j).id = (e.inst k).id →
    (e.inst j).phase.canSend = false

/-- An OPEN is handled only when no pump of its id can still send, and an upstream connect succeeds
only when its id was not opened again meanwhile, also if the stream of the later OPEN is gone by then. -/
structure FreshStep (e : Endpoint) (a : Act) : Prop where
  reopen : e.framesOpen = true → a = .dispatch → e.reader = .drain →
    ∀ id rest, e.records = .good (.open id) :: rest →
      ∀ k < e.n, (e.inst k).id = id → (e.inst k).phase.canSend = false
  dial : e.framesOpen = true → ∀ k, a = .dialOk k →
    ∀ j, k < j → j < e.n → (e.inst k).id ≠ (e.inst j).id

theorem OnePump.of_ended (hi : Instances e)
    (h : e.framesOpen = true → ∀ j k, j < k → k < e.n → (e.inst j).id = (e.inst k).id →
      (e.inst j).phase.canSend = false) : OnePump e := by
  have hlt : ∀ {k}, (e.inst k).phase.canSend = true → k < e.n :=
    fun hk => hi.lt fun hd => by rw [hd] at hk; cases hk
  refine ⟨fun ho j k hj hk hid => ?_, h⟩
  rcases lt_trichotomy j k with hjk | hjk | hjk
  · rw [h ho j k hjk (hlt hk) hid] at hj; cases hj
  · exact hjk
  · rw [h ho k j hjk (hlt hj) hid.symm] at hk; cases hk

theorem Move.canSend {p p' : Phase} (h : Move e k a p p') (hp : p'.canSend = true) :
    p.canSend = true ∨ a = .dialOk k ∨ p = .opened := by
  cases h with
  | spawn => exact .inr (.inr rfl)
  | dialOk => exact .inr (.inl rfl)
  | downEnd | downWrote | downFail => exact .inl hp
  | _ => cases hp

theorem Post.canSend {p p' : Phase} {f : Frame} (h : Post id k a p p' f) : p'.canSend = false := by
  cases h <;> rfl

/-- A pump starts to send when an upstream connect succeeds (or, at a client, when it is spawned). -/
theorem canSend_of_step (h : e.Step a e') (hp : (e'.inst k).phase.canSend = true) :
    (e.inst k).phase.canSend = true ∨ a = .dialOk k ∨ (e.inst k).phase = .opened := by
  have hother : ∀ {j : ℕ} {s : Stream}, (Function.update e.inst j s k).phase.canSend = true →
      (s.phase.canSend = true → (e.inst j).phase.canSend = true ∨ a = .dialOk j ∨
        (e.inst j).phase = .opened) →
      (e.inst k).phase.canSend = true ∨ a = .dialOk k ∨ (e.inst k).phase = .opened := by
    intro j s hk hs
    rw [Function.update_apply] at hk
    split_ifs at hk with hj
    · subst hj; exact hs hk
    · exact .inl hk
  cases h with
  | accept | register => exact hother hp fun h => by cases h
  | handleOpen =>
    refine hother hp fun h => ?_
    rcases hside : e.side with _ | _ <;> simp [hside, Stream.fresh, onOpen, Phase.canSend] at h
  | unregister => exact hother hp fun h => by cases h
  | move hm => exact hother hp fun h => hm.canSend h
  | post hpo =>
    refine hother hp fun h => ?_
    rw [hpo.canSend] at h; cases h
  | upRead hq => exact hother hp fun _ => .inl (by rw [hq]; rfl)
  | upSend hq => exact hother hp fun _ => .inl (by rw [hq]; rfl)
  | downRecv hq => exact hother hp fun h => .inl (by rw [hq]; exact h)
  | delivered => exact hother hp fun h => .inl h
  | _ => exact .inl hp

/-- At a server only an OPEN creates an instance. -/
theorem create_server (h : e.Step a e') (hside : e.side = .server) (hn : e'.n ≠ e.n) :
    a = .dispatch ∧ e.reader = .drain ∧ e'.n = e.n + 1 ∧
      ∃ rest, e.records = .good (.open (e'.inst e.n).id) :: rest := by
  cases h with
  | accept hc => rw [hc] at hside; cases hside
  | @handleOpen id rest hr hrec => exact ⟨rfl, hr, rfl, rest, by simpa [Stream.fresh] using hrec⟩
  | _ => exact absurd rfl hn

theorem freshStep_of_onePump (hs : e.step a = some e') (h' : OnePump e') :
    FreshStep e a := by
  refine ⟨fun ho ha hr id rest hrec k hlt hid => ?_, fun ho k ha j hkj hj hid => ?_⟩
  · subst ha
    rw [dispatch_open hr hrec] at hs
    obtain rfl := Option.some.inj hs
    have hend := h'.ended ho k e.n hlt (Nat.lt_succ_self _)
    simp only [register_inst, addStream_inst, setStream_inst, handle_inst, handle_n,
      Function.update_self, Function.update_of_ne hlt.ne] at hend
    exact hend hid
  · subst ha
    simp only [step] at hs
    split at hs
    · obtain rfl := Option.some.inj hs
      have hend := h'.ended ho k j hkj hj
      simp only [setPhase_inst, Function.update_self, Function.update_of_ne hkj.ne'] at hend
      exact absurd (hend hid) (by simp [Phase.canSend, Up.canSend])
    · cases hs

/-- The pumps of an id that was opened again have ended sending, if the later stream counts. -/
def EndedBy (counts : Phase → Prop) (e : Endpoint) : Prop :=
  e.framesOpen = true → ∀ j k, j < k → k < e.n → (e.inst j).id = (e.inst k).id →
    counts (e.inst k).phase → (e.inst j).phase.canSend = false

theorem endedBy_step {counts : Phase → Prop} (hfan : FanOut e) (hside : e.side = .server)
    (hi : EndedBy counts e)
    (hreopen : e.framesOpen = true → a = .dispatch → e.reader = .drain →
      ∀ id rest, e.records = .good (.open id) :: rest →
        ∀ k < e.n, (e.inst k).id = id → (e.inst k).phase.canSend = false)
    (hdial : e.framesOpen = true → ∀ k, a = .dialOk k →
      ∀ j, k < j → j < e.n → counts (e.inst j).phase → (e.inst k).id ≠ (e.inst j).id)
    (hcounts : ∀ k < e.n, counts (e'.inst k).phase → counts (e.inst k).phase)
    (h : e.Step a e') : EndedBy counts e' := by
  intro ho' j k hjk hk hid hc
  have ho := step_framesOpen h ho'
  by_contra hnot
  have hsend : (e'.inst j).phase.canSend = true := by simpa using hnot
  -- a server accepts nothing: a pump that starts to send has just been dialed
  have hstart : (e.inst j).phase.canSend = true ∨ a = .dialOk j := by
    rcases canSend_of_step h hsend with hold | hd | hop
    · exact .inl hold
    · exact .inr hd
    · have hacc := hfan.noAccept hside j
      rw [hop] at hacc; cases hacc
  by_cases hn : e'.n = e.n
  · rw [hn] at hk
    rw [id_of_step h (by omega), id_of_step h hk] at hid
    rcases hstart with hold | rfl
    · rw [hi ho j k hjk hk hid (hcounts k hk hc)] at hold; cases hold
    · exact hdial ho j rfl k hjk hk (hcounts k hk hc) hid
  · obtain ⟨rfl, hr, hn', rest, hrec⟩ := create_server h hside hn
    rw [id_of_step h (by omega)] at hid
    have hold := hstart.resolve_right (by simp)
    rcases (show k < e.n ∨ k = e.n by omega) with hk | rfl
    · rw [id_of_step h hk] at hid
      rw [hi ho j k hjk hk hid (hcounts k hk hc)] at hold; cases hold
    · rw [hreopen ho rfl hr _ rest hrec j hjk hid] at hold; cases hold

theorem onePump_of_freshStep (hinst : Instances e) (hfan : FanOut e) (hside : e.side = .server)
    (hi : OnePump e) (hf : FreshStep e a) (h : e.Step a e') : OnePump e' := by
  have hended : EndedBy (fun _ => True) e' :=
    endedBy_step hfan hside (fun ho j k hjk hk hid _ => hi.ended ho j k hjk hk hid) hf.reopen
      (fun ho k ha j hkj hj _ => hf.dial ho k ha j hkj hj) (fun _ _ h => h) h
  exact .of_ended (instances_step hinst h) fun ho j k hjk hk hid => hended ho j k hjk hk hid trivial

theorem onePump_spawnTunnel : OnePump (spawnTunnel side pingSecs) :=
  .of_ended instances_spawnTunnel fun _ _ _ _ hk => absurd hk (Nat.not_lt_zero _)

/-- **When a server endpoint has one pump per stream id**: in a run, whatever frames the client sends,
every state has at most one pump that can send under an id, with the pumps of a reopened id ended, if
and only if every step is fresh. -/
theorem onePump_iff (h : Trace step (spawnTunnel .server pingSecs) t e) :
    (∀ x ∈ t, FreshStep x.1 x.2) ↔ (∀ x ∈ t, OnePump x.1) ∧ OnePump e := by
  induction h with
  | nil => simp [onePump_spawnTunnel]
  | @snoc t s s' a ht hs ih =>
    have hinst := instances_reachable ht.reachable
    have hfan := fanOut_reachable ht.reachable
    have hside : s.side = .server := ht.invariant (I := fun _ e => e.side = .server) rfl
      fun hi hs => (step_side (.of_step hs)).trans hi
    simp only [List.mem_append, List.mem_singleton, or_imp, forall_and, forall_eq]
    rw [ih]
    constructor
    · rintro ⟨⟨hall, hone⟩, hf⟩
      exact ⟨⟨hall, hone⟩, onePump_of_freshStep hinst hfan hside hone hf (.of_step hs)⟩
    · rintro ⟨⟨hall, hone⟩, h'⟩
      exact ⟨⟨hall, hone⟩, freshStep_of_onePump hs h'⟩

/-- `FreshStep`, with a later stream counted only as long as it is not dropped. -/
structure StandingStep (e : Endpoint) (a : Act) : Prop where
  reopen : e.framesOpen = true → a = .dispatch → e.reader = .drain →
    ∀ id rest, e.records = .good (.open id) :: rest →
      ∀ k < e.n, (e.inst k).id = id → (e.inst k).phase.canSend = false
  dial : e.framesOpen = true → ∀ k, a = .dialOk k →
    ∀ j, k < j → j < e.n → (e.inst j).phase ≠ .dropped → (e.inst k).id ≠ (e.inst j).id

theorem endedBy_of_standing (h : Reaches step StandingStep (spawnTunnel .server pingSecs) e) :
    EndedBy (· ≠ .dropped) e := by
  induction h with
  | refl => exact fun _ _ _ _ hk => absurd hk (Nat.not_lt_zero _)
  | @tail s s' a hr hc hs ih =>
    have hside : s.side = .server := hr.invariant (I := fun e => e.side = .server) rfl
      fun hi _ hs => (step_side (.of_step hs)).trans hi
    refine endedBy_step (fanOut_reachable hr.reachable) hside ih hc.reopen hc.dial
      (fun k hk hne hd => hne ?_) (.of_step hs)
    -- a stream that is gone does not come back
    rcases onward_of_step (.of_step hs) hk with heq | hon
    · rw [heq]; exact hd
    · exact absurd hd hon.not_dropped

/-- A pump may start under an id that was opened again meanwhile, if the later stream is gone: still no two
pumps can send under one id. -/
theorem unique_of_standing (h : Reaches step StandingStep (spawnTunnel .server pingSecs) e)
    (ho : e.framesOpen = true) {j k : ℕ} (hj : (e.inst j).phase.canSend = true)
    (hk : (e.inst k).phase.canSend = true) (hid : (e.inst j).id = (e.inst k).id) : j = k := by
  have hended := endedBy_of_standing h
  have hinst := instances_reachable h.reachable
  have hne : ∀ {k}, (e.inst k).phase.canSend = true → (e.inst k).phase ≠ .dropped := by
    intro k hk hd
    rw [hd] at hk; cases hk
  rcases lt_trichotomy j k with hjk | hjk | hjk
  · rw [hended ho j k hjk (hinst.lt (hne hk)) hid (hne hk)] at hj; cases hj
  · exact hjk
  · rw [hended ho k j hjk (hinst.lt (hne hj)) hid.symm (hne hj)] at hk; cases hk

/-- A server that reads two OPENs for the id 1, with both upstream connects done, and the bytes of the
two upstreams sent in turn. -/
def mixedRun : List Act :=
  [.readerTop, .dispatch, .readerRead [.good (.open 1), .good (.open 1)], .readerTop, .dispatch,
    .dialOk 0, .dispatch, .dialOk 1, .upRead 0 [1], .upSend 0, .upRead 1 [2], .upSend 1, .upRead 0 [3],
    .upSend 0]

theorem onePump_fails :
    ∃ e, Reachable step (spawnTunnel .server 0) e ∧ e.dead = false ∧ ¬ OnePump e ∧
      e.sent = [.data 1 [1], .data 1 [2], .data 1 [3]] ∧ (e.inst 0).pumped = [[1], [3]] ∧
      (e.inst 1).pumped = [[2]] := by
  have hexec : ∃ e, exec (guard (fun _ _ => true) step) (spawnTunnel .server 0) mixedRun = some e ∧
      e.framesOpen = true ∧ (e.inst 0).phase.canSend = true ∧ (e.inst 1).phase.canSend = true ∧
      (e.inst 0).id = (e.inst 1).id ∧ e.dead = false ∧
      e.sent = [.data 1 [1], .data 1 [2], .data 1 [3]] ∧ (e.inst 0).pumped = [[1], [3]] ∧
      (e.inst 1).pumped = [[2]] := ⟨_, rfl, rfl, rfl, rfl, rfl, rfl, rfl, rfl, rfl⟩
  obtain ⟨e, he, ho, h0, h1, hid, hdead, hsent, hp0, hp1⟩ := hexec
  refine ⟨e, exec_reaches (fun _ _ _ => trivial) _ he, hdead, fun hone => ?_, hsent, hp0, hp1⟩
  exact absurd (hone.unique ho 0 1 h0 h1 hid) (by decide)

/-- `FreshStep`, evaluated. -/
def freshCheck (e : Endpoint) : Act → Bool
  | .dispatch =>
    match e.records with
    | .good (.open id) :: _ =>
      (List.range e.n).all fun k => (e.inst k).id ≠ id || !(e.inst k).phase.canSend
    | _ => true
  | .dialOk k => (List.range e.n).all fun j => j ≤ k || (e.inst k).id ≠ (e.inst j).id
  | _ => true

theorem freshStep_of_check (h : freshCheck e a = true) : FreshStep e a := by
  refine ⟨fun _ ha _ id rest hrec k hk hid => ?_, fun _ k ha j hkj hj => ?_⟩
  · subst ha
    simp only [freshCheck, hrec, List.all_eq_true, List.mem_range] at h
    simpa [hid] using h k hk
  · subst ha
    simp only [freshCheck, List.all_eq_true, List.mem_range] at h
    simpa [not_le.mpr hkj] using h j hj

/-- The id 1 is opened again when its first pump has closed its uplink. -/
def reopenedRun : List Act :=
  [.readerTop, .dispatch, .readerRead [.good (.open 1), .good (.open 1)], .readerTop, .dispatch,
    .dialOk 0, .upRead 0 [1], .upSend 0, .upEof 0, .dispatch, .dialOk 1]

theorem onePump_reopened :
    ∃ t e, Trace step (spawnTunnel .server 0) t e ∧ (e.inst 0).id = (e.inst 1).id ∧
      (e.inst 1).phase.canSend = true ∧ OnePump e := by
  have hexec : ∃ e, exec (guard freshCheck step) (spawnTunnel .server 0) reopenedRun = some e ∧
      (e.inst 0).id = (e.inst 1).id ∧ (e.inst 1).phase.canSend = true := ⟨_, rfl, rfl, rfl⟩
  obtain ⟨e, he, hid, hsend⟩ := hexec
  obtain ⟨t, ht, hcheck⟩ := exec_trace _ he
  have hfresh : ∀ x ∈ t, FreshStep x.1 x.2 := fun x hx => freshStep_of_check (hcheck x hx)
  exact ⟨t, e, ht, hid, hsend, ((onePump_iff ht).mp hfresh).2⟩

end Endpoint

end QeliSsPlugin.Carrier
