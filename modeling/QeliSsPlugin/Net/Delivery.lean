import QeliSsPlugin.Net.Close

/-!
# Ordered and complete delivery

For every stream and each direction, what the stream's pump receives is a sublist of what the peer's
pump of the same stream sent, whatever the wire drops or damages. If nothing is dropped, no consumer
stalls or fails and both tunnels stay alive, then a pump whose inbound channel has ended has received
exactly what the peer's pump read from its local socket.

`Smooth` is the invariant of one endpoint in such runs: every stream stays registered until the peer's
CLOSE, and every chunk handled goes into its stream's channel. It rests on the finality of the peer's
CLOSE, which in turn needs that the reader echoes none; `SmoothInv` carries both through a run.
-/

namespace QeliSsPlugin

open Lib.Runs Mux Carrier
open scoped List

namespace Carrier

/-- The phases of a stream that was not refused and did not fail. -/
def Phase.isRunning : Phase → Bool
  | .allocated | .registered | .opened | .dialing | .pump _ _ => true
  | _ => false

/-- The actions of a run in which no consumer stalls or fails and every dial succeeds. A consumer stalls when
its channel stays full for the stall timeout, as `deliver` has it: so does a stream that is still being dialed
then, whose channel fills before the pump is there to read it. -/
def Act.isSmooth : Act → Bool
  | .stall | .downFail _ | .dialErr _ => false
  | _ => true

namespace Endpoint

variable {e e' : Endpoint} {a : Act} {k : ℕ}

/-- A stream keeps its registration until the peer's CLOSE, and all its chunks. -/
structure Smooth (e : Endpoint) : Prop where
  running : ∀ k < e.n, (e.inst k).phase.isRunning = true
  registered : ∀ k < e.n, (e.inst k).phase ≠ .allocated →
    e.streams (e.inst k).id = some k ∨ .close (e.inst k).id ∈ goods e.handled
  ended : ∀ k < e.n, ∀ up, (e.inst k).phase = .pump up .done →
    .close (e.inst k).id ∈ goods e.handled ∧ (e.inst k).inbound = []
  closing : ∀ id, .close id ∈ e.sent →
    ∃ k < e.n, (e.inst k).id = id ∧ (e.inst k).phase.uplinkOpen = false
  quiet : ∀ id, e.reader ≠ .replying (.close id) ∧ e.reader ≠ .waiting (.close id) ∧
    ∀ k, e.reader ≠ .stalled k id
  last : ∀ k id p, e.reader = .delivering k id p → ∃ hs, e.handled = hs ++ [.good (.data id p)]
  exact : ∀ k < e.n, e.intake k = dataOf (e.inst k).id (goods e.handled)

theorem dead_of_step (h : e.Step a e') (hd : e'.dead = false) : e.dead = false := by
  cases h with
  | setDead => cases hd
  | _ => exact hd

/-- A DATA record changes no instance when it is dispatched. -/
theorem inst_of_data (h : e.Step a e') {id : UInt32} {p : Bytes}
    (hh : e'.handled = e.handled ++ [.good (.data id p)]) : e'.n = e.n ∧ e'.inst = e.inst := by
  cases h with
  | handleOpen => simp at hh
  | accept | register | move | unregister | post | upRead | upSend | downRecv | delivered =>
    exact absurd hh.symm (by simp)
  | _ => exact ⟨rfl, rfl⟩

/-- The delivery in progress is of the last record handled. -/
theorem last_step (hs : Smooth e) (h : e.Step a e') :
    ∀ k id p, e'.reader = .delivering k id p → ∃ hs, e'.handled = hs ++ [.good (.data id p)] := by
  intro k id p hr
  rcases step_delivering h hr with hold | ⟨-, -, rest, -, hh⟩
  · rcases step_handled h with hh | ⟨o, rest, -, hdrain, -⟩
    · rw [hh]; exact hs.last k id p hold
    · rw [hold] at hdrain; cases hdrain
  · exact ⟨e.handled, hh⟩

theorem running_step (hl : Local e) (hs : Smooth e) (ha : a.isSmooth = true)
    (hdead : e'.dead = false) (hno : e.side = .client → opens (goods e'.handled) = [])
    (h : e.Step a e') : ∀ k < e'.n, (e'.inst k).phase.isRunning = true := by
  have hlive := dead_of_step h hdead
  have hopen := hl.deadFirst.framesOpen hlive
  have hupd : ∀ {j s}, e'.inst = Function.update e.inst j s → e'.n = e.n →
      (j < e.n → s.phase.isRunning = true) → ∀ k < e'.n, (e'.inst k).phase.isRunning = true := by
    intro j s hinst hn hj k hk
    rw [hinst, Function.update_apply]
    split_ifs with hkj
    · subst hkj; exact hj (by omega)
    · exact hs.running k (by omega)
  cases h with
  | accept =>
    intro k hk
    simp only [addStream_inst, setStream_inst, Function.update_apply, addStream_n] at hk ⊢
    split_ifs with hkn
    · rfl
    · exact hs.running k (by omega)
  | handleOpen =>
    intro k hk
    simp only [register_inst, addStream_inst, setStream_inst, handle_inst, Function.update_apply,
      register_n, addStream_n, handle_n] at hk ⊢
    split_ifs with hkn
    · rcases hside : e.side with _ | _
      · simpa [goods, Outcome.frame?, opens] using hno hside
      · rfl
    · exact hs.running k (by omega)
  | @move _ j p hm =>
    refine hupd rfl rfl fun hj => ?_
    have hrun := hs.running j hj
    generalize (e.inst j).phase = q at hm hrun
    cases hm <;> simp_all [Phase.isRunning, Act.isSmooth]
  | @post _ j p f hp =>
    refine hupd rfl rfl fun hj => ?_
    have hrun := hs.running j hj
    generalize (e.inst j).phase = q at hp hrun
    cases hp <;> simp_all [Phase.isRunning]
  | @unregister j hp =>
    refine hupd rfl rfl fun hj => ?_
    have hrun := hs.running j hj
    rw [hp] at hrun; cases hrun
  | register | upRead | upSend | downRecv => exact hupd rfl rfl fun _ => rfl
  | @delivered j => exact hupd rfl rfl fun hj => hs.running j hj
  | _ => exact hs.running

/-- What a smooth run says of the next step: ids are not reused, DATA is handled only for streams
that were registered, and none after the peer's CLOSE. -/
structure SmoothNext (e : Endpoint) (a : Act) (e' : Endpoint) : Prop where
  smooth : a.isSmooth = true
  alive : e'.dead = false
  distinct : IdsDistinct e'
  noOpen : e.side = .client → opens (goods e'.handled) = []
  known : ∀ id p, .data id p ∈ goods e'.handled →
    ∃ k < e.n, (e.inst k).id = id ∧ (e.inst k).phase ≠ .allocated
  final : ∀ id p, ¬ [.close id, .data id p] <+ goods e'.handled

/-- A stream for which DATA is handled is registered. -/
theorem registered_of_data (hs : Smooth e) (hx : SmoothNext e a e') {id : UInt32} {p : Bytes}
    (hh : e'.handled = e.handled ++ [.good (.data id p)]) :
    ∃ k < e.n, (e.inst k).id = id ∧ e.streams id = some k := by
  have hmem : .data id p ∈ goods e'.handled := hh ▸ goods_concat_good _ _
  obtain ⟨k, hk, rfl, hph⟩ := hx.known id p hmem
  rcases hs.registered k hk hph with hreg | hclose
  · exact ⟨k, hk, rfl, hreg⟩
  · refine absurd ?_ (hx.final (e.inst k).id p)
    rw [hh, goods_append, goods_good]
    exact (List.singleton_sublist.mpr hclose).append (List.Sublist.refl _)

theorem step_undeliverable (h : e.Step .undeliverable e') :
    ∃ j id p, e.reader = .delivering j id p ∧ (e.inst j).phase.hasReceiver = false ∧
      e'.handled = e.handled := by
  cases h with
  | goto hg =>
    generalize hr : e.reader = r at hg
    cases hg with
    | undeliverable hp => exact ⟨_, _, _, rfl, hp, rfl⟩
  | move hg | post hg => generalize (e.inst _).phase = q at hg; cases hg
  | readerExit hg => generalize e.reader = q at hg; cases hg
  | writerExit hg => generalize e.writer = q at hg; cases hg
  | beat hg => generalize e.keepalive = q at hg; cases hg
  | exitMove hg => generalize e.exit _ = q at hg; cases hg
  | reply hg => simp at hg

/-- No CLOSE is echoed. -/
theorem closing_step (hl : Local e) (hs : Smooth e) (h : e.Step a e') : ∀ id, .close id ∈ e'.sent →
    ∃ k < e'.n, (e'.inst k).id = id ∧ (e'.inst k).phase.uplinkOpen = false := by
  refine closeSent_step hl.instances (fun ho => ho.uplink) id hs.closing (fun id hf => ?_) h
  rcases hf with ⟨-, hr⟩ | ⟨-, hr⟩
  · exact absurd hr (hs.quiet id).1
  · exact absurd hr (hs.quiet id).2.1

section Step

variable (hl : Local e) (hs : Smooth e) (hx : SmoothNext e a e') (h : e.Step a e')

include hl hs hx h

/-- Every delivery finds its receiver. -/
theorem not_undeliverable : a ≠ .undeliverable := by
  rintro rfl
  obtain ⟨j, id, p, hr, hp, hh⟩ := step_undeliverable h
  obtain ⟨hj, rfl, -⟩ := hl.instances.delivering j id p hr
  have hrun := hs.running j hj
  have hdone : ∃ up, (e.inst j).phase = .pump up .done := by
    generalize (e.inst j).phase = q at hp hrun
    rcases q with _ | _ | _ | _ | _ | _ | _ | ⟨up, _ | _ | _⟩ | _ <;>
      simp_all [Phase.hasReceiver, Phase.isRunning]
  obtain ⟨up, hdone⟩ := hdone
  obtain ⟨hclose, -⟩ := hs.ended j hj up hdone
  obtain ⟨hs', hlast⟩ := hs.last j _ p hr
  refine hx.final (e.inst j).id p ?_
  rw [hh, hlast, goods_append, goods_good]
  rw [hlast, goods_append, goods_good, List.mem_append] at hclose
  have hclose : .close (e.inst j).id ∈ goods hs' := by simpa using hclose
  exact (List.singleton_sublist.mpr hclose).append (List.Sublist.refl _)

theorem quiet_step (id : UInt32) : e'.reader ≠ .replying (.close id) ∧
    e'.reader ≠ .waiting (.close id) ∧ ∀ k, e'.reader ≠ .stalled k id := by
  have hq := hs.quiet id
  have hnu := not_undeliverable hl hs hx h
  cases h with
  | goto hg =>
    generalize hr : e.reader = r at hg
    rw [hr] at hq
    cases hg with
    | undeliverable => exact absurd rfl hnu
    | stall => exact absurd hx.smooth (by simp [Act.isSmooth])
    | replyFull => simpa using hq.1
    | _ => simp
  | handleUnknown hr hrec hnone =>
    obtain ⟨k, -, -, hreg⟩ := registered_of_data hs hx rfl
    rw [hnone] at hreg; cases hreg
  | dropStalled hr => exact absurd hr ((hs.quiet _).2.2 _)
  | readerExit | readerRead | handleKill | handleData | handlePing | delivered | reply => simp
  | _ => exact hq

theorem registered_step : ∀ k < e'.n, (e'.inst k).phase ≠ .allocated →
    e'.streams (e'.inst k).id = some k ∨ .close (e'.inst k).id ∈ goods e'.handled := by
  have hsub := goods_handled_subset h
  have hlive := dead_of_step h hx.alive
  have hnoClose : ∀ w, e.exit w ≠ .closeAll := fun w => (hl.deadFirst.exit_ne hlive w).1
  -- an instance other than one whose registration the step changes
  have hkeep : ∀ k < e.n, (e.inst k).phase ≠ .allocated →
      (e'.streams (e.inst k).id = e.streams (e.inst k).id ∨ .close (e.inst k).id ∈ goods e'.handled) →
      e'.streams (e'.inst k).id = some k ∨ .close (e'.inst k).id ∈ goods e'.handled := by
    intro k hk hp hst
    rw [id_of_step h hk]
    rcases hst with hst | hst
    · rw [hst]
      exact (hs.registered k hk hp).imp_right fun hc => hsub hc
    · exact .inr hst
  have hupd : ∀ {j s}, e'.inst = Function.update e.inst j s → e'.n = e.n → e'.streams = e.streams →
      (e.inst j).phase ≠ .allocated → ∀ k < e'.n, (e'.inst k).phase ≠ .allocated →
      e'.streams (e'.inst k).id = some k ∨ .close (e'.inst k).id ∈ goods e'.handled := by
    intro j s hinst hn hst hj k hk hp
    refine hkeep k (by omega) ?_ (.inl (by rw [hst]))
    rw [hinst, Function.update_apply] at hp
    split_ifs at hp with hkj
    · subst hkj; exact hj
    · exact hp
  have hsame : e'.inst = e.inst → e'.n = e.n → e'.streams = e.streams →
      ∀ k < e'.n, (e'.inst k).phase ≠ .allocated →
      e'.streams (e'.inst k).id = some k ∨ .close (e'.inst k).id ∈ goods e'.handled := by
    intro hinst hn hst k hk hp
    exact hkeep k (by omega) (hinst ▸ hp) (.inl (by rw [hst]))
  have hdist := hx.distinct
  cases h with
  | accept =>
    intro k hk hp
    by_cases hkn : k = e.n
    · subst hkn
      simp [Stream.fresh] at hp
    · have hlt : k < e.n := by simp at hk; omega
      refine hkeep k hlt ?_ (.inl rfl)
      simpa [Function.update_of_ne hkn] using hp
  | @register j hj =>
    intro k hk hp
    by_cases hkj : k = j
    · subst hkj
      left; simp
    · have hjn := hl.instances.lt (k := j) (by simp [hj])
      have hne : (e.inst k).id ≠ (e.inst j).id := by
        intro hid
        refine hkj (hdist k hk j (by simpa using hjn) ?_)
        simpa [Function.update_of_ne hkj] using hid
      refine hkeep k (by simpa using hk) ?_ (.inl ?_)
      · simpa [Function.update_of_ne hkj] using hp
      · simp [Function.update_of_ne hne]
  | @move _ j p hm =>
    refine hupd rfl rfl rfl ?_
    intro hj; rw [hj] at hm; cases hm
  | @unregister j hp =>
    have hrun := hs.running j (hl.instances.lt (by simp [hp]))
    rw [hp] at hrun; cases hrun
  | @post _ j p f hpo =>
    refine hupd rfl rfl rfl ?_
    intro hj; rw [hj] at hpo; cases hpo
  | upRead hp | upSend hp | downRecv hp => exact hupd rfl rfl rfl (by simp [hp])
  | @delivered j id p hr =>
    obtain ⟨-, -, hj⟩ := hl.instances.delivering j id p hr
    exact hupd rfl rfl rfl hj
  | @handleOpen id rest hr hrec =>
    intro k hk hp
    by_cases hkn : k = e.n
    · subst hkn
      left; simp [Stream.fresh]
    · have hlt : k < e.n := by simp at hk; omega
      have hne : (e.inst k).id ≠ id := by
        intro hid
        refine hkn (hdist k hk e.n (by simp) ?_)
        simpa [Function.update_of_ne hkn, Stream.fresh] using hid
      refine hkeep k hlt ?_ (.inl ?_)
      · simpa [Function.update_of_ne hkn] using hp
      · simp [Function.update_of_ne hne]
  | @handleClose id rest hr hrec =>
    intro k hk hp
    by_cases hid : (e.inst k).id = id
    · exact hkeep k hk hp (.inr (hid ▸ goods_concat_good _ _))
    · exact hkeep k hk hp (.inl (by simp [Function.update_of_ne hid]))
  | dropStalled hr => exact absurd hr ((hs.quiet _).2.2 _)
  | closeAll hw => exact absurd hw (hnoClose _)
  | _ => exact hsame rfl rfl rfl

omit hl in
/-- The downlink half of a pump ends with the peer's CLOSE, after everything buffered. -/
theorem ended_step : ∀ k < e'.n, ∀ up, (e'.inst k).phase = .pump up .done →
    .close (e'.inst k).id ∈ goods e'.handled ∧ (e'.inst k).inbound = [] := by
  have hsub := goods_handled_subset h
  have hold : ∀ k < e.n, (∃ up, (e.inst k).phase = .pump up .done) →
      (e'.inst k).inbound = (e.inst k).inbound →
      .close (e'.inst k).id ∈ goods e'.handled ∧ (e'.inst k).inbound = [] := by
    rintro k hk ⟨up, hp⟩ hin
    obtain ⟨h1, h2⟩ := hs.ended k hk up hp
    rw [id_of_step h hk, hin]
    exact ⟨hsub h1, h2⟩
  have hupd : ∀ {j s}, e'.inst = Function.update e.inst j s → e'.n = e.n →
      s.inbound = (e.inst j).inbound →
      (∀ up, s.phase = .pump up .done → ∃ up, (e.inst j).phase = .pump up .done) →
      ∀ k < e'.n, ∀ up, (e'.inst k).phase = .pump up .done →
        .close (e'.inst k).id ∈ goods e'.handled ∧ (e'.inst k).inbound = [] := by
    intro j s hinst hn hin hph k hk up hp
    refine hold k (by omega) ?_ ?_
    · rw [hinst, Function.update_apply] at hp
      split_ifs at hp with hkj
      · subst hkj; exact hph up hp
      · exact ⟨up, hp⟩
    · rw [hinst, Function.update_apply]
      split_ifs with hkj
      · subst hkj; exact hin
      · rfl
  cases h with
  | accept =>
    intro k hk up hp
    by_cases hkn : k = e.n
    · subst hkn; simp [Stream.fresh] at hp
    · refine hold k (by simp at hk; omega) ⟨up, ?_⟩ ?_
      · simpa [Function.update_of_ne hkn] using hp
      · simp [Function.update_of_ne hkn]
  | handleOpen =>
    intro k hk up hp
    by_cases hkn : k = e.n
    · subst hkn
      rcases hside : e.side with _ | _ <;> simp [Stream.fresh, onOpen, hside] at hp
    · refine hold k (by simp at hk; omega) ⟨up, ?_⟩ ?_
      · simpa [Function.update_of_ne hkn] using hp
      · simp [Function.update_of_ne hkn]
  | register => exact hupd rfl rfl rfl (by simp)
  | @move _ j p hm =>
    generalize hq : (e.inst j).phase = q at hm
    rcases hm with _ | _ | _ | _ | _ | _ | _ | _ | _ | _ | @⟨up, hin, hheld⟩ | _ | _
    case downEnd =>
      -- the channel ended because the registration is gone
      intro k hk up' hp
      by_cases hkj : k = j
      · subst hkj
        have hreg := hs.registered k hk (by simp [hq])
        have hnot : e.streams (e.inst k).id ≠ some k := by
          intro hst
          simp [senderHeld, hst] at hheld
        refine ⟨?_, by simp [hin]⟩
        simpa using hreg.resolve_left hnot
      · refine hold k hk ⟨up', ?_⟩ ?_
        · simpa [Function.update_of_ne hkj] using hp
        · simp [Function.update_of_ne hkj]
    case downFail => exact absurd hx.smooth (by simp [Act.isSmooth])
    all_goals exact hupd rfl rfl rfl (by simp [hq])
  | @post _ j p f hpo =>
    refine hupd rfl rfl rfl ?_
    generalize (e.inst j).phase = q at hpo
    cases hpo <;> simp
  | unregister => exact hupd rfl rfl rfl (by simp)
  | upRead hp | upSend hp => exact hupd rfl rfl rfl (by simp [hp])
  | @downRecv j up c cs hp hin =>
    intro k hk up' hp'
    by_cases hkj : k = j
    · subst hkj; simp at hp'
    · refine hold k hk ⟨up', ?_⟩ ?_
      · simpa [Function.update_of_ne hkj] using hp'
      · simp [Function.update_of_ne hkj]
  | @delivered j id p hr hrec =>
    intro k hk up' hp'
    by_cases hkj : k = j
    · subst hkj
      have : (e.inst k).phase = .pump up' .done := by simpa using hp'
      rw [this] at hrec; cases hrec
    · refine hold k hk ⟨up', ?_⟩ ?_
      · simpa [Function.update_of_ne hkj] using hp'
      · simp [Function.update_of_ne hkj]
  | _ => exact fun k hk up hp => hold k hk ⟨up, hp⟩ rfl

theorem intake_step : ∀ k < e'.n, e'.intake k = dataOf (e'.inst k).id (goods e'.handled) := by
  intro k hk
  by_cases hlt : k < e.n
  · rw [id_of_step h hlt]
    have hold := hs.exact k hlt
    rcases step_intake hl.instances h hlt with ⟨h1, h2⟩ | ⟨h1, h2⟩ | ⟨-, ha, -⟩ |
      @⟨p, rest, h1, -, hrec, hnot, h2⟩
    · rw [h1, h2, hold]
    · rw [h1, h2, hold]
    · rcases ha with rfl | rfl
      · exact absurd hx.smooth (by simp [Act.isSmooth])
      · exact absurd rfl (not_undeliverable hl hs hx h)
    · have hh : e'.handled = e.handled ++ [.good (.data (e.inst k).id p)] := by
        rcases step_handled h with hh | ⟨o, rest', -, -, hrec', -, hh⟩
        · rw [hh] at h2
          have := congrArg List.length h2
          simp at this
        · rw [hrec] at hrec'
          rw [hh, (List.cons.inj hrec').1]
      obtain ⟨j, hj, hid, hreg⟩ := registered_of_data hs hx hh
      obtain rfl := hx.distinct.of_step h j hj k hlt hid
      exact absurd hreg hnot
  · obtain ⟨hn, rfl⟩ := eq_n_of_new h hk hlt
    rw [intake_create hl.instances h hn]
    refine (List.eq_nil_iff_forall_not_mem.mpr fun p hp => ?_).symm
    obtain ⟨j, hj, hid, -⟩ := hx.known _ p (mem_dataOf.mp hp)
    have := hx.distinct j (by omega) e.n hk (by rw [id_of_step h hj, hid])
    omega

theorem smooth_step : Smooth e' where
  running := running_step hl hs hx.smooth hx.alive hx.noOpen h
  registered := registered_step hl hs hx h
  ended := ended_step hs hx h
  closing := closing_step hl hs h
  quiet := quiet_step hl hs hx h
  last := last_step hs h
  exact := intake_step hl hs hx h

end Step

end Endpoint

end Carrier

namespace Net

variable {room : Side → ℕ → Bool} {pingSecs : Side → ℕ} {s s' : Net} {a : NetAct}

/-- Nothing is dropped, and no consumer stalls or fails. -/
structure SmoothStep (s : Net) (a : NetAct) : Prop where
  intact : IntactStep s a
  smooth : ∀ x b, a = .act x b → b.isSmooth = true

/-- The invariant of smooth runs: what holds while both tunnels are alive and no id is reused. -/
structure SmoothInv (s : Net) : Prop where
  base : Base s
  exact : ∀ x, Exact anyFrame s x
  streams : (∀ x, (s.ep x).dead = false) → (s.ep .client).n ≤ 2 ^ 32 →
    ∀ x, (s.ep x).Smooth ∧ (s.ep x).Closed

theorem smoothInv_connect : SmoothInv (connect pingSecs) := by
  refine ⟨base_connect pingSecs, exact_connect _ pingSecs, fun _ _ x => ⟨?_, ?_⟩⟩
  · refine ⟨?_, ?_, ?_, ?_, ?_, ?_, ?_⟩ <;> simp [connect, Endpoint.spawnTunnel]
  · refine ⟨?_, ?_⟩ <;> simp [connect, Endpoint.spawnTunnel]

/-- DATA handled in this step is for a stream that was registered before it. -/
theorem SmoothInv.known (hi : SmoothInv s) (hb' : Base s') (he' : ∀ x, Exact anyFrame s' x)
    {x : Side} {b : Act} (hs : (s.ep x).Step b (s'.ep x)) {id : UInt32} {p : Bytes}
    (hd : .data id p ∈ goods (s'.ep x).handled) :
    ∃ k < (s.ep x).n, ((s.ep x).inst k).id = id ∧ ((s.ep x).inst k).phase ≠ .allocated := by
  rcases Endpoint.step_handled hs with hh | ⟨o, rest, -, -, -, -, hh⟩
  · exact hi.base.known hi.exact (hh ▸ hd)
  · have hd' := hd
    rw [hh, goods_append, List.mem_append] at hd'
    rcases hd' with hd' | hd'
    · exact hi.base.known hi.exact hd'
    · have ho : o = .good (.data id p) := by
        rcases o with f | _ | _ <;> simp [goods, Outcome.frame?] at hd'
        rw [hd']
      subst ho
      obtain ⟨hn, hinst⟩ := Endpoint.inst_of_data hs hh
      obtain ⟨k, hk, hid⟩ := hb'.known he' hd
      rw [hn, hinst] at *
      exact ⟨k, hk, hid⟩

theorem smoothInv_step (hi : SmoothInv s) (hc : SmoothStep s a) (h : Step room s a s') :
    SmoothInv s' := by
  have hb := base_step hi.base h
  have he := exact_step hi.base.endpoint hi.exact (hc.intact.spare _) h
  refine ⟨hb, he, fun halive hids => ?_⟩
  have hdist := hb.idsDistinct hids
  have hold : ∀ x, (s.ep x).dead = false := by
    intro x
    rcases h.endpoint x with heq | ⟨b, hs, -⟩
    · rw [← heq]; exact halive x
    · exact Endpoint.dead_of_step hs (halive x)
  have hids' : (s.ep .client).n ≤ 2 ^ 32 := by
    rcases hi.base.n_client h with hn | ⟨-, hn⟩ <;> omega
  have hsm := hi.streams hold hids'
  have hclosed : ∀ x, (s'.ep x).Closed := by
    intro x
    rcases h.endpoint x with heq | ⟨b, hs, -⟩
    · rw [heq]; exact (hsm x).2
    have hl := hi.base.endpoint x
    -- the reader of a smooth endpoint echoes nothing
    have hecho : (s.ep x).EchoOk b := by
      rintro id (⟨-, hr⟩ | ⟨-, hr⟩)
      · exact absurd hr ((hsm x).1.quiet id).1
      · exact absurd hr ((hsm x).1.quiet id).2.1
    refine Endpoint.closed_step hl.instances hl.replies (hsm x).2 (hdist x) hecho ?_ hs
    intro id p hd
    obtain ⟨k, hk, hid, -⟩ := hi.base.known hi.exact hd
    exact ⟨k, hk, hid⟩
  refine fun x => ⟨?_, hclosed x⟩
  rcases h.endpoint x with heq | ⟨b, hs, hact⟩
  · rw [heq]; exact (hsm x).1
  refine Endpoint.smooth_step (hi.base.endpoint x) (hsm x).1 ?_ hs
  refine ⟨?_, halive x, hdist x, fun hside => ?_, fun id p hd => hi.known hb he hs hd,
    fun id p hsub => ?_⟩
  · rcases hact with hact | ⟨hwire, -⟩
    · exact hc.smooth x b hact
    · cases b <;> first | rfl | cases hwire
  · rw [hi.base.side x] at hside
    subst hside
    exact hb.opens_client
  · exact (hclosed x.peer).final id p (hsub.trans (hb.handled_sublist x))

/-- **Ordered and isolated**: what a pump receives is a sublist of what the peer's pump of the same
stream sent, and there is at most one such pump. -/
structure Ordered (s : Net) : Prop where
  distinct : ∀ x, (s.ep x).IdsDistinct
  sublist : ∀ x, ∀ k < (s.ep x).n, ∀ j < (s.ep x.peer).n,
    ((s.ep x.peer).inst j).id = ((s.ep x).inst k).id →
      ((s.ep x).inst k).received <+ ((s.ep x.peer).inst j).pumped
  isolated : ∀ x, ∀ k < (s.ep x).n,
    (∀ j < (s.ep x.peer).n, ((s.ep x.peer).inst j).id ≠ ((s.ep x).inst k).id) →
      ((s.ep x).inst k).received = []

/-- **Complete**: a pump whose inbound channel has ended has received exactly the bytes the peer's
pump of the same stream read before its CLOSE. -/
def Complete (s : Net) : Prop :=
  ∀ x, ∀ k < (s.ep x).n, ∀ up, ((s.ep x).inst k).phase = .pump up .done →
    ∃ j < (s.ep x.peer).n, ((s.ep x.peer).inst j).id = ((s.ep x).inst k).id ∧
      (∃ down, ((s.ep x.peer).inst j).phase = .pump .done down) ∧
      ((s.ep x).inst k).received = ((s.ep x.peer).inst j).taken

theorem ordered_of_base (hb : Base s) (hids : (s.ep .client).n ≤ 2 ^ 32) : Ordered s := by
  have hdist := hb.idsDistinct hids
  have hrecv : ∀ x, ∀ k < (s.ep x).n,
      ((s.ep x).inst k).received <+ dataOf ((s.ep x).inst k).id (s.ep x.peer).sent := by
    intro x k hk
    have h1 := (hb.endpoint x).inbox k hk
    have h2 := dataOf_sublist (hb.handled_sublist x) ((s.ep x).inst k).id
    refine List.Sublist.trans ?_ (h1.trans h2)
    unfold Endpoint.intake
    rw [List.append_assoc]
    exact List.sublist_append_left _ _
  refine ⟨hdist, fun x k hk j hj hid => ?_, fun x k hk hno => ?_⟩
  · have := hrecv x k hk
    rwa [← hid, (hb.endpoint x.peer).outbox.pumped (hdist _) j hj] at this
  · refine List.eq_nil_iff_forall_not_mem.mpr fun p hp => ?_
    obtain ⟨j, hj, hid⟩ :=
      (hb.endpoint x.peer).outbox.known _ p (mem_dataOf.mp ((hrecv x k hk).subset hp))
    exact hno j hj hid

/-- With a final CLOSE, the frames up to it hold all the DATA of its stream. -/
theorem dataOf_prefix_of_close {fs gs : List Frame} {id : UInt32} (hp : fs <+: gs)
    (hc : .close id ∈ fs) (hf : ∀ p, ¬ [.close id, .data id p] <+ gs) :
    dataOf id fs = dataOf id gs := by
  obtain ⟨rest, rfl⟩ := hp
  have hnil : dataOf id rest = [] := by
    refine List.eq_nil_iff_forall_not_mem.mpr fun p hmem => hf p ?_
    exact (List.singleton_sublist.mpr hc).append
      (List.singleton_sublist.mpr (mem_dataOf.mp hmem))
  rw [dataOf_append, hnil, List.append_nil]

theorem complete_of_smooth (hi : SmoothInv s) (halive : ∀ x, (s.ep x).dead = false)
    (hids : (s.ep .client).n ≤ 2 ^ 32) : Complete s := by
  have hdist := hi.base.idsDistinct hids
  have hsm := hi.streams halive hids
  intro x k hk up hp
  have hx := (hsm x).1
  obtain ⟨hclose, hin⟩ := hx.ended k hk up hp
  have hsent := (hi.base.handled_sublist x).subset hclose
  obtain ⟨j, hj, hid, hup⟩ := (hsm x.peer).1.closing _ hsent
  have hrun := (hsm x.peer).1.running j hj
  have hdone : ∃ down, ((s.ep x.peer).inst j).phase = .pump .done down := by
    generalize ((s.ep x.peer).inst j).phase = q at hup hrun
    rcases q with _ | _ | _ | _ | _ | _ | _ | ⟨_ | _ | _ | _, down⟩ | _ <;>
      simp_all [Phase.uplinkOpen, Phase.isRunning]
  refine ⟨j, hj, hid, hdone, ?_⟩
  obtain ⟨down, hdone⟩ := hdone
  have hopen := (hi.base.endpoint x.peer).deadFirst.framesOpen (halive x.peer)
  have htaken : ((s.ep x.peer).inst j).taken = ((s.ep x.peer).inst j).pumped := by
    have := (hi.base.endpoint x.peer).drained hopen j
    rw [hdone] at this
    simpa [Phase.pending, Up.pending] using this
  -- nothing is on its way in: it would have come after the CLOSE
  have hdeliv : (s.ep x).inDelivery k = [] := by
    refine Endpoint.inDelivery_eq_nil fun id p hr => ?_
    obtain ⟨hs, hlast⟩ := hx.last k id p hr
    obtain ⟨-, rfl, -⟩ := (hi.base.endpoint x).instances.delivering k id p hr
    refine (hsm x.peer).2.final ((s.ep x).inst k).id p ?_
    refine List.Sublist.trans ?_ (hi.base.handled_sublist x)
    rw [hlast, goods_append, goods_good, List.mem_append] at hclose
    have hclose : .close ((s.ep x).inst k).id ∈ goods hs := by simpa using hclose
    rw [hlast, goods_append, goods_good]
    exact (List.singleton_sublist.mpr hclose).append (List.Sublist.refl _)
  have hall := dataOf_prefix_of_close (handled_initial hi.exact x) hclose
    ((hsm x.peer).2.final _)
  have hintake := hx.exact k hk
  unfold Endpoint.intake at hintake
  rw [hin, hdeliv, List.append_nil, List.append_nil, hall, ← hid,
    (hi.base.endpoint x.peer).outbox.pumped (hdist _) j hj] at hintake
  rw [htaken, hintake]

/-- **Per-stream ordered, isolated and complete delivery with half-close**, with fewer than
`2^32 - 1` ids allocated. -/
theorem delivery (hids : (s.ep .client).n < 2 ^ 32 - 1) :
    (Reachable (step room) (connect pingSecs) s → Ordered s) ∧
    (Reaches (step room) SmoothStep (connect pingSecs) s → (∀ x, (s.ep x).dead = false) →
      Complete s) := by
  refine ⟨fun h => ?_, fun h halive => ?_⟩
  · have hb : Base s :=
      h.invariant (base_connect pingSecs) fun hb _ hs => base_step hb (.of_step hs)
    exact ordered_of_base hb (by omega)
  · have hi : SmoothInv s :=
      h.invariant smoothInv_connect fun hi hc hs => smoothInv_step hi hc (.of_step hs)
    exact complete_of_smooth hi halive (by omega)

def smoothCheck (_s : Net) (a : NetAct) : Bool :=
  a.isIntact && match a with
    | .act _ b => b.isSmooth
    | _ => true

theorem smoothStep_of_check (h : smoothCheck s a = true) : SmoothStep s a := by
  unfold smoothCheck at h
  rw [Bool.and_eq_true] at h
  refine ⟨h.1, ?_⟩
  rintro x b rfl
  exact h.2

/-- One stream: the client's chunk is sent after the server's CLOSE of the other direction. -/
def halfCloseRun : List NetAct :=
  [[.act .client .accept, .act .client (.register 0), .act .client (.open 0),
      .act .client (.spawn 0)],
    writeOne .client,
    [.act .server .readerTop, .act .server .dispatch, .read .server 1, .act .server .readerTop,
      .act .server .dispatch, .act .server (.dialOk 0), .act .server (.upEof 0),
      .act .server (.upClose 0)],
    writeOne .server,
    [.act .client .readerTop, .act .client .dispatch, .read .client 1, .act .client .readerTop,
      .act .client .dispatch, .act .client (.upRead 0 [7]), .act .client (.upSend 0),
      .act .client (.upEof 0), .act .client (.upClose 0)],
    writeOne .client, writeOne .client,
    [.act .server .dispatch, .read .server 2, .act .server .readerTop, .act .server .dispatch,
      .act .server .delivered, .act .server .dispatch, .act .server (.downRecv 0),
      .act .server (.downWrote 0), .act .server (.downEnd 0)]].flatten

theorem delivery_halfClose :
    ∃ s, Reaches (step fun _ _ => true) SmoothStep (connect fun _ => 0) s ∧ Ordered s ∧
      Complete s ∧ ((s.ep .server).inst 0).phase = .pump .done .done ∧
      ((s.ep .server).inst 0).received = [[7]] := by
  have hrun : ∃ s, Reaches (step fun _ _ => true) SmoothStep (connect fun _ => 0) s ∧
      decide ((s.ep .client).n = 1 ∧ (s.ep .client).dead = false ∧ (s.ep .server).dead = false ∧
        ((s.ep .server).inst 0).phase = .pump .done .done ∧
        ((s.ep .server).inst 0).received = [[7]]) = true :=
    reaches_of_exec smoothCheck halfCloseRun (fun _ _ => smoothStep_of_check) (by decide +kernel)
  obtain ⟨s, hs, hp⟩ := hrun
  obtain ⟨hn, hc, hsv, hph, hrecv⟩ := of_decide_eq_true hp
  obtain ⟨hordered, hcomplete⟩ := @delivery (fun _ _ => true) (fun _ => 0) s (by omega)
  refine ⟨s, hs, hordered hs.reachable, hcomplete hs ?_, hph, hrecv⟩
  rintro (_ | _)
  · exact hc
  · exact hsv

end Net

end QeliSsPlugin
