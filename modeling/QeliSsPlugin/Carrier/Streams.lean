import QeliSsPlugin.Carrier.Death

/-!
# The streams of one endpoint

Invariants of an endpoint whatever its peer does. They relate the instances to the frames enqueued
(`sent`) and the records dispatched (`handled`).
-/

namespace QeliSsPlugin.Carrier

open QeliSsPlugin.Lib.Runs QeliSsPlugin.Mux

/-- The ids opened by a list of frames. -/
def opens (fs : List Frame) : List UInt32 :=
  fs.filterMap fun
    | .open id => some id
    | _ => none

/-- The chunks a list of frames carries for a stream. -/
def dataOf (id : UInt32) (fs : List Frame) : List Bytes :=
  fs.filterMap fun
    | .data id' payload => if id' = id then some payload else none
    | _ => none

/-- Whether the uplink half of a pump can still enqueue DATA. -/
def Up.canSend : Up → Bool
  | .reading | .sending _ => true
  | .closing | .done => false

/-- Whether the task may still send DATA. -/
def Phase.maySend : Phase → Bool
  | .allocated | .registered | .opened | .dialing => true
  | .pump up _ => up.canSend
  | _ => false

/-- Whether the task may still send DATA or the CLOSE behind it. -/
def Phase.uplinkOpen : Phase → Bool
  | .allocated | .registered | .opened | .dialing => true
  | .pump up _ => up ≠ .done
  | _ => false

/-- Whether the OPEN of an `accept_connection` attempt is still to be sent. -/
def Phase.isUnannounced : Phase → Bool
  | .allocated | .registered => true
  | _ => false

theorem Phase.uplinkOpen_of_maySend {p : Phase} (h : p.maySend = true) : p.uplinkOpen = true := by
  rcases p with _ | _ | _ | _ | _ | _ | _ | ⟨_ | _ | _ | _, down⟩ | _ <;> first | rfl | cases h

theorem opens_append (fs gs : List Frame) : opens (fs ++ gs) = opens fs ++ opens gs :=
  List.filterMap_append

theorem dataOf_append (id : UInt32) (fs gs : List Frame) :
    dataOf id (fs ++ gs) = dataOf id fs ++ dataOf id gs := List.filterMap_append

theorem opens_sublist {fs gs : List Frame} (h : fs.Sublist gs) : (opens fs).Sublist (opens gs) :=
  h.filterMap _

theorem dataOf_sublist {fs gs : List Frame} (h : fs.Sublist gs) (id : UInt32) :
    (dataOf id fs).Sublist (dataOf id gs) := h.filterMap _

theorem goods_append (os os' : List Outcome) : goods (os ++ os') = goods os ++ goods os' :=
  List.filterMap_append

theorem goods_good (f : Frame) : goods [.good f] = [f] := rfl

theorem mem_opens {id : UInt32} {fs : List Frame} : id ∈ opens fs ↔ .open id ∈ fs := by
  unfold opens
  rw [List.mem_filterMap]
  constructor
  · rintro ⟨f, hf, h⟩
    cases f <;> simp at h
    subst h; exact hf
  · exact fun h => ⟨_, h, rfl⟩

theorem mem_dataOf {id : UInt32} {p : Bytes} {fs : List Frame} :
    p ∈ dataOf id fs ↔ .data id p ∈ fs := by
  unfold dataOf
  rw [List.mem_filterMap]
  constructor
  · rintro ⟨f, hf, h⟩
    cases f <;> simp at h
    obtain ⟨rfl, rfl⟩ := h; exact hf
  · exact fun h => ⟨_, h, by simp⟩

namespace Endpoint

variable {e e' : Endpoint} {a : Act} {side : Side} {pingSecs : ℕ} {k : ℕ}

/-- No two instances have the same stream id. -/
def IdsDistinct (e : Endpoint) : Prop :=
  ∀ k < e.n, ∀ j < e.n, (e.inst k).id = (e.inst j).id → k = j

/-- The chunk the reader is about to put into the channel of instance `k`. -/
def inDelivery (e : Endpoint) (k : ℕ) : List Bytes :=
  match e.reader with
  | .delivering j _ payload => if j = k then [payload] else []
  | _ => []

/-! ### The instances -/

/-- How a step changes an existing instance `k`: its new value. -/
inductive Change (e : Endpoint) (k : ℕ) : Stream → Prop
  | register : (e.inst k).phase = .allocated → Change e k { e.inst k with phase := .registered }
  | move {a p} : Move e k a (e.inst k).phase p → Change e k { e.inst k with phase := p }
  | unregister : (e.inst k).phase = .dialFailed → Change e k { e.inst k with phase := .refusing }
  | post {a p f} : Post (e.inst k).id k a (e.inst k).phase p f →
      Change e k { e.inst k with phase := p }
  | upRead {data down} : (e.inst k).phase = .pump .reading down → data ≠ [] →
      data.length ≤ readBuf → Change e k { e.inst k with
        phase := .pump (.sending (chunks maxData data)) down,
        taken := (e.inst k).taken ++ [data] }
  | upSend {c rest down} : (e.inst k).phase = .pump (.sending (c :: rest)) down →
      Change e k { e.inst k with
        phase := .pump (afterChunk rest) down, pumped := (e.inst k).pumped ++ [c] }
  | downRecv {up c cs} : (e.inst k).phase = .pump up .receiving → (e.inst k).inbound = c :: cs →
      Change e k { e.inst k with
        phase := .pump up (.writing c), inbound := cs, received := (e.inst k).received ++ [c] }
  | delivered {payload} : (e.inst k).phase.hasReceiver = true →
      Change e k { e.inst k with inbound := (e.inst k).inbound ++ [payload] }

/-- What a step does to the instances: nothing, a change of one of them, or a new one. -/
inductive InstStep (e e' : Endpoint) : Prop
  | same : e'.n = e.n → e'.inst = e.inst → InstStep e e'
  | change {k s} : Change e k s → e'.n = e.n → e'.inst = Function.update e.inst k s →
      InstStep e e'
  | create {id p} : (e.side = .client ∧ id = e.nextId ∧ p = .allocated ∨ p = onOpen e.side) →
      e'.n = e.n + 1 → e'.inst = Function.update e.inst e.n (.fresh id p) → InstStep e e'

theorem step_inst (h : e.Step a e') : InstStep e e' := by
  cases h with
  | accept hc => exact .create (.inl ⟨hc, rfl, rfl⟩) rfl rfl
  | register hp => exact .change (.register hp) rfl rfl
  | move hm => exact .change (.move hm) rfl rfl
  | unregister hp => exact .change (.unregister hp) rfl rfl
  | post hp => exact .change (.post hp) rfl rfl
  | upRead hp hne hle => exact .change (.upRead hp hne hle) rfl rfl
  | upSend hp => exact .change (.upSend hp) rfl rfl
  | downRecv hp hin => exact .change (.downRecv hp hin) rfl rfl
  | delivered _ hr => exact .change (.delivered hr) rfl rfl
  | handleOpen => exact .create (.inr rfl) rfl rfl
  | _ => exact .same rfl rfl

/-- What a task never does: become unregistered, unannounced, or open its uplink, again. -/
structure Onward (p p' : Phase) : Prop where
  not_dropped : p ≠ .dropped
  allocated : p' = .allocated → p = .allocated
  unannounced : p'.isUnannounced = true → p.isUnannounced = true
  uplink : p'.uplinkOpen = true → p.uplinkOpen = true
  sends : p'.maySend = true → p.maySend = true

theorem Move.onward {p p' : Phase} (h : Move e k a p p') : Onward p p' := by
  cases h <;> refine ⟨?_, ?_, ?_, ?_, ?_⟩ <;>
    simp [Phase.isUnannounced, Phase.uplinkOpen, Phase.maySend, Up.canSend]

theorem Post.onward {id : UInt32} {p p' : Phase} {f : Frame} (h : Post id k a p p' f) :
    Onward p p' := by
  cases h <;> refine ⟨?_, ?_, ?_, ?_, ?_⟩ <;>
    simp [Phase.isUnannounced, Phase.uplinkOpen, Phase.maySend, Up.canSend]

theorem Change.id_eq {s : Stream} (h : Change e k s) : s.id = (e.inst k).id := by
  cases h <;> rfl

theorem Change.onward {s : Stream} (h : Change e k s) : Onward (e.inst k).phase s.phase := by
  cases h with
  | move hm => exact hm.onward
  | post hp => exact hp.onward
  | delivered hr => exact ⟨fun h => (by rw [h] at hr; cases hr), id, id, id, id⟩
  | register hp | unregister hp | upRead hp | upSend hp | downRecv hp =>
    rw [hp]
    refine ⟨?_, ?_, ?_, ?_, ?_⟩ <;>
      simp [Phase.isUnannounced, Phase.uplinkOpen, Phase.maySend, Up.canSend]

/-- The tasks and registrations of the instances created so far, and of no others. -/
structure Instances (e : Endpoint) : Prop where
  range : ∀ k, e.n ≤ k → (e.inst k).phase = .dropped
  registered : ∀ id k, e.streams id = some k →
    k < e.n ∧ (e.inst k).id = id ∧ (e.inst k).phase ≠ .allocated
  delivering : ∀ k id p, e.reader = .delivering k id p →
    k < e.n ∧ (e.inst k).id = id ∧ (e.inst k).phase ≠ .allocated

theorem Instances.lt (hi : Instances e) (h : (e.inst k).phase ≠ .dropped) : k < e.n := by
  by_contra hk
  exact h (hi.range k (by omega))

theorem instances_spawnTunnel : Instances (spawnTunnel side pingSecs) :=
  ⟨fun _ _ => rfl, by simp [spawnTunnel], by simp [spawnTunnel]⟩

/-- An instance that was registered stays as registered as it was. -/
theorem registered_of_step (h : e.Step a e') {id : UInt32}
    (hk : k < e.n ∧ (e.inst k).id = id ∧ (e.inst k).phase ≠ .allocated) :
    k < e'.n ∧ (e'.inst k).id = id ∧ (e'.inst k).phase ≠ .allocated := by
  rcases step_inst h with ⟨hn, hinst⟩ | ⟨hc, hn, hinst⟩ | ⟨-, hn, hinst⟩
  · rw [hn, hinst]; exact hk
  · rw [hn, hinst, Function.update_apply]
    split_ifs with hj
    · subst hj
      exact ⟨hk.1, hc.id_eq.trans hk.2.1, fun hp => hk.2.2 (hc.onward.allocated hp)⟩
    · exact hk
  · rw [hn, hinst, Function.update_of_ne (by omega)]
    exact ⟨by omega, hk.2⟩

/-- What a step does to the registry: it registers one instance, or only removes entries. -/
theorem step_streams (h : e.Step a e') :
    (∀ id j, e'.streams id = some j → e.streams id = some j) ∨
    (∃ k, (e.inst k).phase = .allocated ∧ (e'.inst k).phase = .registered ∧
      e'.streams = Function.update e.streams (e.inst k).id (some k)) ∨
    (∃ id, e'.n = e.n + 1 ∧ e'.inst e.n = .fresh id (onOpen e.side) ∧
      e'.streams = Function.update e.streams id (some e.n)) := by
  cases h with
  | @register k hp => exact .inr (.inl ⟨k, hp, by simp, rfl⟩)
  | @handleOpen id => exact .inr (.inr ⟨id, rfl, by simp, rfl⟩)
  | unregister | handleClose | dropStalled =>
    left
    intro id j hj
    simp only [remove_streams, setPhase_streams, handle_streams, Function.update_apply] at hj
    split_ifs at hj; exact hj
  | closeAll =>
    left
    intro id j hj
    simp at hj
  | _ => exact .inl fun _ _ h => h

/-- What a step does to a delivery: only a DATA record starts one. -/
theorem step_delivering (h : e.Step a e') {id : UInt32} {p : Bytes}
    (hr : e'.reader = .delivering k id p) :
    e.reader = .delivering k id p ∨
      (e.reader = .drain ∧ e.streams id = some k ∧ ∃ rest, e.records = .good (.data id p) :: rest ∧
        e'.handled = e.handled ++ [.good (.data id p)]) := by
  cases h with
  | goto hg =>
    simp only at hr
    subst hr
    generalize e.reader = r at hg
    cases hg
  | @handleData id' p' k' rest hd hrec hs =>
    simp only [Reader.delivering.injEq] at hr
    obtain ⟨rfl, rfl, rfl⟩ := hr
    exact .inr ⟨hd, hs, rest, hrec, rfl⟩
  | handleUnknown | handlePing | readerExit | readerRead | handleKill | delivered | dropStalled
  | reply => simp at hr
  | _ => exact .inl hr

/-- A delivery times out with the sender that it waits with. -/
theorem step_stalled (h : e.Step a e') {id : UInt32} (hr : e'.reader = .stalled k id) :
    e.reader = .stalled k id ∨ ∃ p, e.reader = .delivering k id p := by
  cases h with
  | goto hg =>
    simp only at hr
    subst hr
    generalize e.reader = r at hg
    cases hg with
    | stall => exact .inr ⟨_, rfl⟩
  | handleUnknown | handlePing | handleData | readerExit | readerRead | handleKill | delivered
  | dropStalled | reply => simp at hr
  | _ => exact .inl hr

theorem instances_step (hi : Instances e) (h : e.Step a e') : Instances e' := by
  refine ⟨fun k hk => ?_, fun id k hk => ?_, fun k id p hr => ?_⟩
  · rcases step_inst h with ⟨hn, hinst⟩ | ⟨hc, hn, hinst⟩ | ⟨-, hn, hinst⟩
    · rw [hinst]; exact hi.range k (by omega)
    · have hlt := hi.lt hc.onward.not_dropped
      rw [hinst, Function.update_of_ne (by omega)]
      exact hi.range k (by omega)
    · rw [hinst, Function.update_of_ne (by omega)]
      exact hi.range k (by omega)
  · rcases step_streams h with hs | ⟨j, hp, hp', hs⟩ | ⟨id', hn, hfresh, hs⟩
    · exact registered_of_step h (hi.registered id k (hs id k hk))
    · have hlt : j < e.n := hi.lt (by simp [hp])
      rw [hs, Function.update_apply] at hk
      split_ifs at hk with hid
      · obtain rfl := Option.some.inj hk
        rcases step_inst h with ⟨hn, hinst⟩ | ⟨hc, hn, hinst⟩ | ⟨-, hn, hinst⟩
        · rw [hinst] at hp'; rw [hp] at hp'; cases hp'
        · refine ⟨by omega, ?_, by simp [hp']⟩
          rw [hinst, Function.update_apply, hid]
          split_ifs with hj
          · subst hj; exact hc.id_eq
          · rfl
        · refine ⟨by omega, ?_, by simp [hp']⟩
          rw [hinst, Function.update_of_ne (by omega), hid]
      · exact registered_of_step h (hi.registered id k hk)
    · rw [hs, Function.update_apply] at hk
      split_ifs at hk with hid
      · obtain rfl := Option.some.inj hk
        refine ⟨by omega, by rw [hfresh, hid]; rfl, ?_⟩
        rw [hfresh]
        rcases e.side with _ | _ <;> simp [Stream.fresh, onOpen]
      · exact registered_of_step h (hi.registered id k hk)
  · rcases step_delivering h hr with hr | ⟨-, hs, -⟩
    · exact registered_of_step h (hi.delivering k id p hr)
    · exact registered_of_step h (hi.registered id k hs)

theorem instances_reachable (h : Reachable step (spawnTunnel side pingSecs) e) : Instances e :=
  h.invariant instances_spawnTunnel fun hi _ hs => instances_step hi (.of_step hs)

theorem le_n_of_step (h : e.Step a e') : e.n ≤ e'.n := by
  rcases step_inst h with ⟨hn, -⟩ | ⟨-, hn, -⟩ | ⟨-, hn, -⟩ <;> omega

theorem id_of_step (h : e.Step a e') (hk : k < e.n) : (e'.inst k).id = (e.inst k).id := by
  rcases step_inst h with ⟨-, hinst⟩ | ⟨hc, -, hinst⟩ | ⟨-, -, hinst⟩
  · rw [hinst]
  · rw [hinst, Function.update_apply]
    split_ifs with hj
    · subst hj; exact hc.id_eq
    · rfl
  · rw [hinst, Function.update_of_ne (by omega)]

theorem onward_of_step (h : e.Step a e') (hk : k < e.n) :
    e'.inst k = e.inst k ∨ Onward (e.inst k).phase (e'.inst k).phase := by
  rcases step_inst h with ⟨-, hinst⟩ | ⟨hc, -, hinst⟩ | ⟨-, -, hinst⟩
  · rw [hinst]; exact .inl rfl
  · rw [hinst, Function.update_apply]
    split_ifs with hj
    · subst hj; exact .inr hc.onward
    · exact .inl rfl
  · rw [hinst, Function.update_of_ne (by omega)]; exact .inl rfl

theorem IdsDistinct.of_step (hd : IdsDistinct e') (h : e.Step a e') : IdsDistinct e := by
  intro k hk j hj hid
  have hn := le_n_of_step h
  refine hd k (by omega) j (by omega) ?_
  rw [id_of_step h hk, id_of_step h hj, hid]

end Endpoint

end QeliSsPlugin.Carrier
