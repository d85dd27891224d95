import QeliSsPlugin.Client.Manager
import QeliSsPlugin.Carrier.History

/-!
# The client's connections

Every connection of `ss-local` is one call of `accept_connection`. `connections_served` accounts for them
over whole runs: the pumps of the tunnels are exactly those that the calls started, a call starts one pump
if it returns `Ok` and none otherwise, and no two calls share a stream.

* `Owned`: a stream on its way to its pump belongs to one call, and is where this call left it;
* `Call.Moves`: the steps of a call by itself;
* `Served`: what the history of a run says of its pumps.
-/

namespace QeliSsPlugin.Carrier.Endpoint

open QeliSsPlugin.Client

variable {e e' : Endpoint} {a : Act} {k : ℕ}

/-- The steps of `accept_connection` on a stream it has allocated. -/
inductive AcceptMove (e : Endpoint) (k : ℕ) : Act → Phase → Phase → Prop
  | register : AcceptMove e k (.register k) .allocated .registered
  | opened : AcceptMove e k (.open k) .registered .opened
  | closed : e.framesOpen = false → AcceptMove e k (.open k) .registered .dropped
  | spawned : e.dead = false → AcceptMove e k (.spawn k) .opened (.pump .reading .receiving)
  | died : e.dead = true → AcceptMove e k (.spawn k) .opened .dropped

theorem step_acceptMove (ha : a = .register k ∨ a = .open k ∨ a = .spawn k)
    (h : e.step a = some e') :
    ∃ p, AcceptMove e k a (e.inst k).phase p ∧ (e'.inst k).phase = p ∧ e'.n = e.n ∧
      ∀ j, j ≠ k → e'.inst j = e.inst j := by
  rcases ha with rfl | rfl | rfl
  · simp only [step] at h
    split at h
    · next hp =>
      cases h
      exact ⟨.registered, hp ▸ .register, by simp, rfl, fun j hj => Function.update_of_ne hj _ _⟩
    · cases h
  · simp only [step] at h
    split at h
    · next hp =>
      split_ifs at h with hopen hroom
      · cases h
        exact ⟨.dropped, hp ▸ .closed hopen, by simp, rfl, fun j hj => Function.update_of_ne hj _ _⟩
      · cases h
        exact ⟨.opened, hp ▸ .opened, by simp, rfl, fun j hj => Function.update_of_ne hj _ _⟩
    · cases h
  · simp only [step] at h
    split at h
    · next hp =>
      cases h
      refine ⟨if e.dead then .dropped else .pump .reading .receiving, ?_, by simp, rfl,
        fun j hj => Function.update_of_ne hj _ _⟩
      rw [hp]
      split_ifs with hdead
      · exact .died hdead
      · exact .spawned (by simpa using hdead)
    · cases h

/-- No other step touches a stream on its way to its pump, or makes a pump on the client. -/
theorem phase_of_not_accept (hl : Local e) (hside : e.side = .client) (ha : isAcceptAct a = false)
    (h : e.Step a e') (k : ℕ) :
    ((e.inst k).phase.isAccept = true → (e'.inst k).phase = (e.inst k).phase) ∧
      (e'.inst k).phase.isPump = (e.inst k).phase.isPump := by
  have hupd : ∀ {j s}, e'.inst = Function.update e.inst j s →
      ((e.inst j).phase.isAccept = true → s.phase = (e.inst j).phase) ∧
        s.phase.isPump = (e.inst j).phase.isPump →
      ((e.inst k).phase.isAccept = true → (e'.inst k).phase = (e.inst k).phase) ∧
        (e'.inst k).phase.isPump = (e.inst k).phase.isPump := by
    intro j s hinst hs
    rw [hinst, Function.update_apply]
    split_ifs with hkj
    · subst hkj
      exact hs
    · exact ⟨fun _ => rfl, rfl⟩
  have hdial := fun j => hl.fanOut.noDial hside j
  cases h with
  | accept | register => cases ha
  | @move _ j p hm =>
    refine hupd rfl ?_
    have hno := hdial j
    generalize (e.inst j).phase = q at hm hno
    cases hm <;> first | (cases ha; done) | (cases hno; done) | simp [Phase.isAccept, Phase.isPump]
  | @post _ j p f hp =>
    refine hupd rfl ?_
    generalize (e.inst j).phase = q at hp
    cases hp <;> first | (cases ha; done) | simp [Phase.isAccept, Phase.isPump]
  | unregister hp | upRead hp | upSend hp | downRecv hp =>
    refine hupd rfl ?_
    rw [hp]
    simp [Phase.isAccept, Phase.isPump]
  | @delivered j => exact hupd rfl ⟨fun _ => rfl, rfl⟩
  | handleOpen =>
    refine @hupd e.n _ rfl ?_
    rw [hl.instances.range e.n le_rfl, hside]
    simp [Stream.fresh, onOpen, Phase.isAccept, Phase.isPump]
  | _ => exact ⟨fun _ => rfl, rfl⟩

end QeliSsPlugin.Carrier.Endpoint

namespace QeliSsPlugin.Client

open Lib.Runs Carrier

/-- The call that takes the step. -/
def Action.call? : Action → Option ℕ
  | .callTunnel c | .callAccept c | .lock c | .check c | .dialErr c _ | .dialOk c | .store c
  | .allocId c | .register c | .open c | .spawn c => some c
  | .tunnel _ _ => none

/-- Whether the step ends a dial. -/
def Action.dials : Action → Bool
  | .dialErr _ _ | .dialOk _ => true
  | _ => false

namespace Call

/-- Whether the call has begun and not returned. -/
def isPending : Call → Bool
  | .idle | .done _ => false
  | _ => true

/-- Whether the call is one of `tunnel()`. -/
def isTunnel : Call → Bool
  | .locking .tunnel | .checking .tunnel | .dialing .tunnel | .storing .tunnel _ => true
  | _ => false

/-- The stream that the call has allocated, with its tunnel. -/
def stream? : Call → Option (ℕ × ℕ)
  | .registering _ t k | .opening _ t k | .confirming _ t k => some (t, k)
  | _ => none

/-- Where the call has left its stream. -/
def phase : Call → Phase
  | .registering _ _ _ => .allocated
  | .opening _ _ _ => .registered
  | .confirming _ _ _ => .opened
  | _ => .dropped

@[simp] theorem stream?_obtained (m : Method) (t : ℕ) : (obtained m t).stream? = none := by
  cases m <;> rfl

@[simp] theorem stream?_failed (m : Method) (error : String) : (failed m error).stream? = none := by
  cases m with
  | tunnel => rfl
  | acceptConnection attempt =>
    simp only [failed]
    split_ifs <;> rfl

/-- **The steps of a call by itself**, and whether they end a dial. -/
inductive Moves : Bool → Call → Call → Prop
  | tunnel : Moves false .idle (.locking .tunnel)
  | accept : Moves false .idle (.locking (.acceptConnection 0))
  | lock {m} : Moves false (.locking m) (.checking m)
  | hit {m t} : Moves false (.checking m) (obtained m t)
  | miss {m} : Moves false (.checking m) (.dialing m)
  | dialErr {m error} : Moves true (.dialing m) (failed m error)
  | dialOk {m t} : Moves true (.dialing m) (.storing m t)
  | store {m t} : Moves false (.storing m t) (obtained m t)
  | allocId {i t k} : Moves false (.allocating i t) (.registering i t k)
  | register {i t k} : Moves false (.registering i t k) (.opening i t k)
  | opened {i t k} : Moves false (.opening i t k) (.confirming i t k)
  | closed {i t k error} : Moves false (.opening i t k) (failed (.acceptConnection i) error)
  | spawned {i t k} : Moves false (.confirming i t k) (.done (.ok t))
  | died {i t k error} : Moves false (.confirming i t k) (failed (.acceptConnection i) error)

variable {p p' : Call} {d : Bool}

theorem Moves.not_done (h : Moves d p p') (r : Except String ℕ) : p ≠ .done r := by
  cases h <;> simp

/-- A call of `accept_connection` stays one, and returns `Ok` only with its pump. -/
theorem Moves.accepting (h : Moves d p p') (hidle : p ≠ .idle) (htunnel : p.isTunnel = false) :
    p' ≠ .idle ∧ p'.isTunnel = false ∧
      ∀ i, p' = .done (.ok i) → ∃ j k, p = .confirming j i k := by
  have hfailed : ∀ {i : ℕ} {error : String}, failed (.acceptConnection i) error ≠ .idle ∧
      (failed (.acceptConnection i) error).isTunnel = false ∧
      ∀ t, failed (.acceptConnection i) error ≠ .done (.ok t) := by
    intro i error
    simp only [failed]
    split_ifs <;> simp [isTunnel]
  cases h with
  | tunnel | accept => exact absurd rfl hidle
  | @lock m | @miss m =>
    rcases m with _ | i
    · cases htunnel
    · exact ⟨by simp, rfl, by simp⟩
  | @dialOk m t =>
    rcases m with _ | i
    · cases htunnel
    · exact ⟨by simp, rfl, by simp⟩
  | @hit m t | @store m t =>
    rcases m with _ | i
    · cases htunnel
    · exact ⟨by simp [obtained], rfl, by simp [obtained]⟩
  | @dialErr m error =>
    rcases m with _ | i
    · cases htunnel
    · exact ⟨hfailed.1, hfailed.2.1, fun t ht => absurd ht (hfailed.2.2 t)⟩
  | closed | died => exact ⟨hfailed.1, hfailed.2.1, fun t ht => absurd ht (hfailed.2.2 t)⟩
  | @spawned i t k =>
    refine ⟨by simp, rfl, fun j hj => ?_⟩
    cases hj
    exact ⟨i, k, rfl⟩
  | _ => exact ⟨by simp, rfl, by simp⟩

theorem isAccept_phase {p : Call} {x : ℕ × ℕ} (h : p.stream? = some x) : p.phase.isAccept = true := by
  cases p <;> first | rfl | cases h

end Call

namespace TunnelManager

section Invariant

variable {pingSecs : ℕ} {s s' : TunnelManager} {a : Action} {c : ℕ}

/-- A step moves its call, and no other. -/
theorem Does.calls (h : Does pingSecs s a s') :
    (∃ c, a.call? = some c ∧ Call.Moves a.dials (s.calls c) (s'.calls c) ∧
      ∀ d, d ≠ c → s'.calls d = s.calls d) ∨
      a.call? = none ∧ s'.calls = s.calls := by
  have hcall : ∀ {c : ℕ} {p : Call}, a.call? = some c → s'.calls = Function.update s.calls c p →
      Call.Moves a.dials (s.calls c) p →
      ∃ c, a.call? = some c ∧ Call.Moves a.dials (s.calls c) (s'.calls c) ∧
        ∀ d, d ≠ c → s'.calls d = s.calls d := by
    intro c p ha heq hm
    refine ⟨c, ha, ?_, fun d hd => ?_⟩
    · rw [heq, Function.update_self]
      exact hm
    · rw [heq, Function.update_of_ne hd]
  cases h with
  | tunnel => exact .inr ⟨rfl, rfl⟩
  | callTunnel hc => exact .inl (hcall rfl rfl (hc ▸ .tunnel))
  | callAccept hc => exact .inl (hcall rfl rfl (hc ▸ .accept))
  | lock hc => exact .inl (hcall rfl rfl (hc ▸ .lock))
  | hit hc => exact .inl (hcall rfl rfl (hc ▸ .hit))
  | miss hc => exact .inl (hcall rfl rfl (hc ▸ .miss))
  | dialErr hc => exact .inl (hcall rfl rfl (hc ▸ .dialErr))
  | dialOk hc => exact .inl (hcall rfl rfl (hc ▸ .dialOk))
  | store hc => exact .inl (hcall rfl rfl (hc ▸ .store))
  | allocId hc => exact .inl (hcall rfl rfl (hc ▸ .allocId))
  | register hc => exact .inl (hcall rfl rfl (hc ▸ .register))
  | opened hc => exact .inl (hcall rfl rfl (hc ▸ .opened))
  | closed hc => exact .inl (hcall rfl rfl (hc ▸ .closed))
  | spawned hc => exact .inl (hcall rfl rfl (hc ▸ .spawned))
  | died hc => exact .inl (hcall rfl rfl (hc ▸ .died))

/-! ### Streams on their way to a pump -/

/-- A stream that a call has allocated is where the call left it, and no other call's. -/
structure Owned (s : TunnelManager) : Prop where
  endpoint : ∀ t e, s.tunnel t = some e → e.Local ∧ e.side = .client
  streams : ∀ d t k, (s.calls d).stream? = some (t, k) →
    ∃ e, s.tunnel t = some e ∧ (e.inst k).phase = (s.calls d).phase
  distinct : ∀ d d' x, (s.calls d).stream? = some x → (s.calls d').stream? = some x → d = d'

theorem owned_new : Owned new := by
  constructor <;> simp [new, Call.stream?]

/-- A call moves and has no stream afterwards. -/
theorem Owned.move (ho : Owned s) {p : Call} (lock current : Option ℕ) (hp : p.stream? = none) :
    Owned { s.setCall c p with lock := lock, current := current } := by
  have hother : ∀ {d x}, (Function.update s.calls c p d).stream? = some x →
      Function.update s.calls c p d = s.calls d := by
    intro d x hd
    rw [Function.update_apply] at hd ⊢
    split_ifs at hd ⊢
    · rw [hp] at hd
      cases hd
    · rfl
  refine ⟨ho.endpoint, fun d t k hd => ?_, fun d d' x hd hd' => ?_⟩
  · have heq := hother hd
    obtain ⟨e, he, hphase⟩ := ho.streams d t k (heq ▸ hd)
    exact ⟨e, he, hphase.trans (congrArg Call.phase heq.symm)⟩
  · exact ho.distinct d d' x (hother hd ▸ hd) (hother hd' ▸ hd')

/-- A tunnel takes a step that leaves the streams of all calls but `c` where they are, and `c` moves with
its own stream. -/
theorem Owned.work (ho : Owned s) {t : ℕ} {e e' : Endpoint} {b : Act} {p : Call}
    (he : s.tunnel t = some e) (hs : e.step b = some e')
    (hother : ∀ d k, d ≠ c → (s.calls d).stream? = some (t, k) → (e'.inst k).phase = (e.inst k).phase)
    (hp : ∀ x, p.stream? = some x → x.1 = t ∧ (e'.inst x.2).phase = p.phase ∧
      ∀ d, d ≠ c → (s.calls d).stream? ≠ some x) :
    Owned ((s.setTunnel t e').setCall c p) := by
  refine ⟨fun i f hf => ?_, fun d i k hd => ?_, fun d d' x hd hd' => ?_⟩
  · simp only [setCall_tunnel, setTunnel_tunnel, Function.update_apply] at hf
    split_ifs at hf with hit
    · cases hf
      obtain ⟨hl, hside⟩ := ho.endpoint t e he
      exact ⟨Endpoint.local_step hl (.of_step hs), (Endpoint.step_side (.of_step hs)).trans hside⟩
    · exact ho.endpoint i f hf
  · simp only [setCall_calls, setCall_tunnel, setTunnel_tunnel] at hd ⊢
    by_cases hdc : d = c
    · subst hdc
      rw [Function.update_self] at hd ⊢
      obtain ⟨rfl, hphase, -⟩ := hp _ hd
      exact ⟨e', Function.update_self .., hphase⟩
    · rw [Function.update_of_ne hdc] at hd ⊢
      obtain ⟨f, hf, hphase⟩ := ho.streams d i k hd
      by_cases hit : i = t
      · subst hit
        obtain rfl : e = f := Option.some.inj (he.symm.trans hf)
        exact ⟨e', Function.update_self .., (hother d k hdc hd).trans hphase⟩
      · exact ⟨f, by rw [Function.update_of_ne hit, hf], hphase⟩
  · simp only [setCall_calls, setTunnel_calls, Function.update_apply] at hd hd'
    split_ifs at hd hd' with hdc hdc' hdc'
    · rw [hdc, hdc']
    · exact absurd hd' ((hp x hd).2.2 d' hdc')
    · exact absurd hd ((hp x hd').2.2 d hdc)
    · exact ho.distinct d d' x hd hd'

/-- A call takes the next step of its own stream. -/
theorem Owned.advance (ho : Owned s) {t k : ℕ} {e e' : Endpoint} {b : Act} {p : Call}
    (hc : (s.calls c).stream? = some (t, k)) (he : s.tunnel t = some e) (hs : e.step b = some e')
    (hb : b = .register k ∨ b = .open k ∨ b = .spawn k)
    (hp : p.stream? = none ∨ p.stream? = some (t, k) ∧ (e'.inst k).phase = p.phase) :
    Owned ((s.setTunnel t e').setCall c p) := by
  obtain ⟨-, -, -, -, hframe⟩ := Endpoint.step_acceptMove hb hs
  refine ho.work he hs (fun d j hd hj => ?_) (fun x hx => ?_)
  · rw [hframe j]
    rintro rfl
    exact hd (ho.distinct d c _ hj hc)
  · rcases hp with hp | ⟨hp, hphase⟩
    · rw [hp] at hx
      cases hx
    · obtain rfl : (t, k) = x := Option.some.inj (hp.symm.trans hx)
      exact ⟨rfl, hphase, fun d hd hx => hd (ho.distinct d c _ hx hc)⟩

theorem owned_step (hi : Inv s) (ho : Owned s) (h : Does pingSecs s a s') : Owned s' := by
  cases h with
  | callTunnel | callAccept | miss => exact ho.move s.lock s.current rfl
  | lock => exact ho.move _ s.current rfl
  | hit => exact ho.move _ s.current (Call.stream?_obtained _ _)
  | dialErr => exact ho.move _ s.current (Call.stream?_failed _ _)
  | store => exact ho.move _ _ (Call.stream?_obtained _ _)
  | @dialOk c m hc =>
    have hnone := hi.range s.n le_rfl
    obtain ⟨hend, hstr, hdist⟩ := ho.move (c := c) (p := .storing m s.n) s.lock s.current rfl
    refine ⟨fun i f hf => ?_, fun d i k hd => ?_, hdist⟩
    · simp only [setTunnel_tunnel, setCall_tunnel, Function.update_apply] at hf
      split_ifs at hf
      · cases hf
        exact ⟨Endpoint.local_spawnTunnel, rfl⟩
      · exact ho.endpoint i f hf
    · obtain ⟨f, hf, hphase⟩ := hstr d i k hd
      have hne : i ≠ s.n := by
        rintro rfl
        rw [show s.tunnel s.n = some f from hf] at hnone
        cases hnone
      refine ⟨f, ?_, hphase⟩
      simpa only [setTunnel_tunnel, setCall_tunnel, Function.update_of_ne hne] using hf
  | @allocId c i t e e' hc he hs =>
    obtain ⟨hl, hside⟩ := ho.endpoint t e he
    have hlt : ∀ d k, (s.calls d).stream? = some (t, k) → k < e.n := by
      intro d k hd
      obtain ⟨f, hf, hphase⟩ := ho.streams d t k hd
      obtain rfl : e = f := Option.some.inj (he.symm.trans hf)
      refine hl.instances.lt fun hdrop => ?_
      have hacc := Call.isAccept_phase hd
      rw [← hphase, hdrop] at hacc
      cases hacc
    simp only [Endpoint.step, if_pos hside, Option.some.injEq] at hs
    refine ho.work he (b := .accept) ?_ (fun d k _ hd => ?_) (fun x hx => ?_)
    · simp only [Endpoint.step, if_pos hside, hs]
    · have hk := hlt d k hd
      rw [← hs]
      simp only [Endpoint.addStream_inst, Endpoint.setStream_inst]
      rw [Function.update_of_ne (by omega)]
    · obtain rfl : (t, e.n) = x := Option.some.inj hx
      refine ⟨rfl, ?_, fun d _ hd => absurd (hlt d e.n hd) (lt_irrefl _)⟩
      rw [← hs]
      simp [Stream.fresh, Call.phase]
  | @register c i t k e e' hc he hs =>
    obtain ⟨p, hm, hp, -⟩ := Endpoint.step_acceptMove (.inl rfl) hs
    refine ho.advance (k := k) (by rw [hc]; rfl) he hs (.inl rfl) (.inr ⟨rfl, ?_⟩)
    rw [hp]
    generalize (e.inst k).phase = q at hm
    cases hm
    rfl
  | @opened c i t k e e' hc he hs hne =>
    obtain ⟨p, hm, hp, -⟩ := Endpoint.step_acceptMove (.inr (.inl rfl)) hs
    refine ho.advance (k := k) (by rw [hc]; rfl) he hs (.inr (.inl rfl)) (.inr ⟨rfl, ?_⟩)
    rw [hp] at hne ⊢
    generalize (e.inst k).phase = q at hm
    cases hm with
    | opened => rfl
    | closed => exact absurd rfl hne
  | @closed c i t k e e' error hc he hs =>
    exact ho.advance (k := k) (by rw [hc]; rfl) he hs (.inr (.inl rfl))
      (.inl (Call.stream?_failed _ _))
  | @spawned c i t k e e' hc he hs =>
    exact ho.advance (k := k) (by rw [hc]; rfl) he hs (.inr (.inr rfl)) (.inl rfl)
  | @died c i t k e e' error hc he hs =>
    exact ho.advance (k := k) (by rw [hc]; rfl) he hs (.inr (.inr rfl))
      (.inl (Call.stream?_failed _ _))
  | @tunnel t b e e' he hb hs =>
    obtain ⟨hl, hside⟩ := ho.endpoint t e he
    have hphase := Endpoint.phase_of_not_accept hl hside hb (.of_step hs)
    have hkeep : ∀ d k, (s.calls d).stream? = some (t, k) →
        (e'.inst k).phase = (e.inst k).phase := by
      intro d k hd
      obtain ⟨f, hf, hph⟩ := ho.streams d t k hd
      obtain rfl : e = f := Option.some.inj (he.symm.trans hf)
      exact (hphase k).1 (by rw [hph]; exact Call.isAccept_phase hd)
    refine ⟨fun i f hf => ?_, fun d i k hd => ?_, ho.distinct⟩
    · simp only [setTunnel_tunnel, Function.update_apply] at hf
      split_ifs at hf
      · cases hf
        exact ⟨Endpoint.local_step hl (.of_step hs), (Endpoint.step_side (.of_step hs)).trans hside⟩
      · exact ho.endpoint i f hf
    · simp only [setTunnel_tunnel, setTunnel_calls, Function.update_apply] at hd ⊢
      obtain ⟨f, hf, hph⟩ := ho.streams d i k hd
      split_ifs with hit
      · subst hit
        obtain rfl : e = f := Option.some.inj (he.symm.trans hf)
        exact ⟨e', rfl, (hkeep d k hd).trans hph⟩
      · exact ⟨f, hf, hph⟩

/-! ### The pumps of a run -/

/-- Whether the stream `k` of the tunnel `i` has got its pump. -/
def Pump (s : TunnelManager) (i k : ℕ) : Prop :=
  ∃ e, s.tunnel i = some e ∧ (e.inst k).phase.isPump = true

/-- The pump that a step starts: its call, its tunnel and its stream. -/
def pumped (x : TunnelManager × Action) : Option (ℕ × ℕ × ℕ) :=
  match x.2 with
  | .spawn c =>
    match x.1.calls c with
    | .confirming _ i k => if x.1.isLive i then some (c, i, k) else none
    | _ => none
  | _ => none

/-- The pumps that a run has started. -/
def started (t : List (TunnelManager × Action)) : List (ℕ × ℕ × ℕ) := t.filterMap pumped

/-- Whether a run has begun to serve the connection of the call. -/
def Begun (t : List (TunnelManager × Action)) (c : ℕ) : Prop := ∃ s, (s, Action.callAccept c) ∈ t

theorem pump_setTunnel {t : ℕ} {e e' : Endpoint} (he : s.tunnel t = some e)
    (htun : s'.tunnel = Function.update s.tunnel t (some e'))
    (h : ∀ k, (e'.inst k).phase.isPump = (e.inst k).phase.isPump) (i k : ℕ) :
    s'.Pump i k ↔ s.Pump i k := by
  unfold Pump
  rw [htun]
  by_cases hit : i = t
  · subst hit
    simp [he, h k]
  · rw [Function.update_of_ne hit]

theorem Does.pumped_eq (ho : Owned s) (h : Does pingSecs s a s') {j i k : ℕ}
    (ha : a.call? = some c) (hc : s.calls c = .confirming j i k) (hdone : s'.calls c = .done (.ok i)) :
    pumped (s, a) = some (c, i, k) := by
  have hfailed : ∀ {error : String}, Call.failed (.acceptConnection j) error ≠ .done (.ok i) := by
    intro error
    simp only [Call.failed]
    split_ifs <;> simp
  obtain ⟨e, he, hphase⟩ := ho.streams c i k (by rw [hc]; rfl)
  rw [hc] at hphase
  cases h with
  | tunnel => cases ha
  | @spawned d i' t' k' f e' hd hf hs hne =>
    cases ha
    rw [hc] at hd
    cases hd
    obtain rfl : e = f := Option.some.inj (he.symm.trans hf)
    obtain ⟨p, hm, hp, -⟩ := Endpoint.step_acceptMove (.inr (.inr rfl)) hs
    rw [hp] at hne
    have hlive : s.isLive i = true := by
      generalize (e.inst k).phase = q at hm
      cases hm with
      | spawned hdead => simp [isLive, he, hdead]
      | died => exact absurd rfl hne
    simp [pumped, hc, hlive]
  | @died d i' t' k' f e' error hd hf hs =>
    cases ha
    rw [hc] at hd
    cases hd
    simp only [setCall_calls, Function.update_self] at hdone
    exact absurd hdone hfailed
  | callTunnel hd | callAccept hd | lock hd | hit hd | miss hd | dialErr hd | dialOk hd | store hd
  | allocId hd | register hd | opened hd | closed hd =>
    cases ha
    rw [hc] at hd
    cases hd

/-- **What a step does to the pumps**: it starts at most one, for the stream of its own call. -/
theorem Does.pumps (hi : Inv s) (ho : Owned s) (h : Does pingSecs s a s') :
    (pumped (s, a) = none ∧ ∀ i k, s'.Pump i k ↔ s.Pump i k) ∨
    ∃ c i k, a = .spawn c ∧ pumped (s, a) = some (c, i, k) ∧ (s.calls c).stream? = some (i, k) ∧
      s'.calls c = .done (.ok i) ∧ ∀ i' k', s'.Pump i' k' ↔ s.Pump i' k' ∨ (i', k') = (i, k) := by
  have hquiet : s'.tunnel = s.tunnel → ∀ i k, s'.Pump i k ↔ s.Pump i k := by
    intro heq i k
    unfold Pump
    rw [heq]
  have hwork : ∀ {t k : ℕ} {e e' : Endpoint} {b : Act}, s.tunnel t = some e → e.step b = some e' →
      (b = .register k ∨ b = .open k ∨ b = .spawn k) →
      (e'.inst k).phase.isPump = false → s'.tunnel = Function.update s.tunnel t (some e') →
      ∀ i k, s'.Pump i k ↔ s.Pump i k := by
    intro t k e e' b he hs hb hno htun
    refine pump_setTunnel he htun fun j => ?_
    obtain ⟨p, hm, -, -, hframe⟩ := Endpoint.step_acceptMove hb hs
    by_cases hj : j = k
    · subst hj
      rw [hno]
      generalize (e.inst j).phase = q at hm
      cases hm <;> rfl
    · rw [hframe j hj]
  cases h with
  | callTunnel | callAccept | lock | hit | miss | dialErr | store =>
    exact .inl ⟨rfl, hquiet rfl⟩
  | @dialOk c m hc =>
    refine .inl ⟨rfl, fun i k => ?_⟩
    have hnone := hi.range s.n le_rfl
    unfold Pump
    simp only [setTunnel_tunnel]
    by_cases hin : i = s.n
    · subst hin
      simp [hnone, Endpoint.spawnTunnel, Stream.fresh, Phase.isPump]
    · rw [Function.update_of_ne hin]
      exact Iff.rfl
  | @allocId c i t e e' hc he hs =>
    refine .inl ⟨rfl, pump_setTunnel he rfl fun k => ?_⟩
    obtain ⟨hl, hside⟩ := ho.endpoint t e he
    simp only [Endpoint.step, if_pos hside, Option.some.injEq] at hs
    rw [← hs]
    simp only [Endpoint.addStream_inst, Endpoint.setStream_inst, Function.update_apply]
    split_ifs with hk
    · rw [hk, hl.instances.range e.n le_rfl]
      rfl
    · rfl
  | @register c i t k e e' hc he hs =>
    refine .inl ⟨rfl, hwork he hs (.inl rfl) ?_ rfl⟩
    obtain ⟨p, hm, hp, -⟩ := Endpoint.step_acceptMove (.inl rfl) hs
    rw [hp]
    generalize (e.inst k).phase = q at hm
    cases hm
    rfl
  | @opened c i t k e e' hc he hs =>
    refine .inl ⟨rfl, hwork he hs (.inr (.inl rfl)) ?_ rfl⟩
    obtain ⟨p, hm, hp, -⟩ := Endpoint.step_acceptMove (.inr (.inl rfl)) hs
    rw [hp]
    generalize (e.inst k).phase = q at hm
    cases hm <;> rfl
  | @closed c i t k e e' error hc he hs hdrop =>
    exact .inl ⟨rfl, hwork he hs (.inr (.inl rfl)) (by rw [hdrop]; rfl) rfl⟩
  | @died c i t k e e' error hc he hs hdrop =>
    refine .inl ⟨?_, hwork he hs (.inr (.inr rfl)) (by rw [hdrop]; rfl) rfl⟩
    obtain ⟨p, hm, hp, -⟩ := Endpoint.step_acceptMove (.inr (.inr rfl)) hs
    rw [hp] at hdrop
    have hdead : e.dead = true := by
      generalize (e.inst k).phase = q at hm
      cases hm with
      | spawned => cases hdrop
      | died hdead => exact hdead
    simp [pumped, hc, isLive, he, hdead]
  | @spawned c i t k e e' hc he hs hne =>
    have hstream : (s.calls c).stream? = some (t, k) := by rw [hc]; rfl
    have hdone : ((s.setTunnel t e').setCall c (.done (.ok t))).calls c = .done (.ok t) := by simp
    have hdoes : Does pingSecs s (.spawn c) ((s.setTunnel t e').setCall c (.done (.ok t))) :=
      .spawned hc he hs hne
    refine .inr ⟨c, t, k, rfl, hdoes.pumped_eq ho rfl hc hdone, hstream, hdone, fun i' k' => ?_⟩
    obtain ⟨p, hm, hp, -, hframe⟩ := Endpoint.step_acceptMove (.inr (.inr rfl)) hs
    rw [hp] at hne
    have hpump : p.isPump = true := by
      generalize (e.inst k).phase = q at hm
      cases hm with
      | spawned => rfl
      | died => exact absurd rfl hne
    unfold Pump
    simp only [setCall_tunnel, setTunnel_tunnel]
    by_cases hit : i' = t
    · subst hit
      by_cases hk : k' = k
      · subst hk
        simp [hp, hpump]
      · simp [he, hframe k' hk, hk]
    · rw [Function.update_of_ne hit]
      simp [hit]
  | @tunnel t b e e' he hb hs =>
    obtain ⟨hl, hside⟩ := ho.endpoint t e he
    refine .inl ⟨rfl, pump_setTunnel he rfl fun k => ?_⟩
    exact (Endpoint.phase_of_not_accept hl hside hb (.of_step hs) k).2

/-- **What the history of a run says of its pumps.** -/
structure Served (t : List (TunnelManager × Action)) (s : TunnelManager) : Prop where
  pumps : ∀ i k, s.Pump i k ↔ ∃ c, (c, i, k) ∈ started t
  returned : ∀ c i k, (c, i, k) ∈ started t → s.calls c = .done (.ok i)
  once : (started t).Pairwise fun x y => x.1 ≠ y.1 ∧ x.2 ≠ y.2
  accepts : ∀ c, Begun t c → s.calls c ≠ .idle ∧ (s.calls c).isTunnel = false ∧
    ∀ i, s.calls c = .done (.ok i) → ∃ k, (c, i, k) ∈ started t

theorem started_snoc (t : List (TunnelManager × Action)) (x : TunnelManager × Action) :
    started (t ++ [x]) = started t ++ (pumped x).toList := by
  unfold started
  rw [List.filterMap_append]
  cases h : pumped x <;> simp [h]

theorem served_new : Served [] new := by
  refine ⟨fun i k => ?_, ?_, .nil, ?_⟩
  · simp [Pump, new, started]
  · simp [started]
  · simp [Begun]

/-- A connection that is being served goes on, or has got its pump. -/
theorem Served.accepts_step {t : List (TunnelManager × Action)} (hs : Served t s) (ho : Owned s)
    (h : Does pingSecs s a s') (hb : Begun (t ++ [(s, a)]) c) :
    s'.calls c ≠ .idle ∧ (s'.calls c).isTunnel = false ∧
      ∀ i, s'.calls c = .done (.ok i) → ∃ k, (c, i, k) ∈ started (t ++ [(s, a)]) := by
  obtain ⟨s₀, hmem⟩ := hb
  rw [List.mem_append, List.mem_singleton] at hmem
  rcases hmem with hmem | heq
  · obtain ⟨hidle, htunnel, hok⟩ := hs.accepts c ⟨s₀, hmem⟩
    have hold : ∀ i, s.calls c = .done (.ok i) → ∃ k, (c, i, k) ∈ started (t ++ [(s, a)]) := by
      intro i hi
      obtain ⟨k, hk⟩ := hok i hi
      exact ⟨k, by rw [started_snoc]; exact List.mem_append_left _ hk⟩
    rcases h.calls with ⟨d, ha, hm, hother⟩ | ⟨-, heq⟩
    · by_cases hdc : c = d
      · subst hdc
        obtain ⟨hidle', htunnel', hdone⟩ := hm.accepting hidle htunnel
        refine ⟨hidle', htunnel', fun i hi => ?_⟩
        obtain ⟨j, k, hc⟩ := hdone i hi
        refine ⟨k, ?_⟩
        rw [started_snoc, h.pumped_eq ho ha hc hi]
        simp
      · rw [hother c hdc]
        exact ⟨hidle, htunnel, hold⟩
    · rw [heq]
      exact ⟨hidle, htunnel, hold⟩
  · cases heq
    cases h with
    | callAccept => simp [Call.isTunnel]

theorem served_step {t : List (TunnelManager × Action)} (hi : Inv s) (ho : Owned s) (hs : Served t s)
    (h : Does pingSecs s a s') : Served (t ++ [(s, a)]) s' := by
  have hreturned : ∀ c i k, (c, i, k) ∈ started t → s'.calls c = .done (.ok i) := by
    intro c i k hk
    have hc := hs.returned c i k hk
    rcases h.calls with ⟨d, -, hm, hother⟩ | ⟨-, heq⟩
    · rw [hother c ?_, hc]
      rintro rfl
      exact hm.not_done _ hc
    · rw [heq, hc]
  rcases h.pumps hi ho with ⟨hnone, hpump⟩ | ⟨c, i, k, -, hsome, hstream, hdone, hpump⟩
  · have heq : started (t ++ [(s, a)]) = started t := by
      rw [started_snoc, hnone]
      simp
    refine ⟨fun i k => ?_, ?_, ?_, fun c hb => hs.accepts_step ho h hb⟩
    · rw [heq, hpump i k]
      exact hs.pumps i k
    · rw [heq]
      exact hreturned
    · rw [heq]
      exact hs.once
  · have heq : started (t ++ [(s, a)]) = started t ++ [(c, i, k)] := by
      rw [started_snoc, hsome]
      simp
    -- the stream was on its way, so that it is nobody's pump yet
    have hfresh : ¬ s.Pump i k := by
      rintro ⟨e, he, hp⟩
      obtain ⟨f, hf, hphase⟩ := ho.streams c i k hstream
      obtain rfl : e = f := Option.some.inj (he.symm.trans hf)
      have hacc := Call.isAccept_phase hstream
      rw [← hphase] at hacc
      generalize (e.inst k).phase = q at hp hacc
      cases q <;> first | cases hp; done | cases hacc
    refine ⟨fun i' k' => ?_, fun c' i' k' hmem => ?_, ?_, fun c hb => hs.accepts_step ho h hb⟩
    · rw [heq, hpump, hs.pumps]
      simp only [List.mem_append, List.mem_singleton, Prod.mk.injEq, exists_or]
      refine or_congr_right ?_
      constructor
      · rintro ⟨rfl, rfl⟩
        exact ⟨c, rfl, rfl, rfl⟩
      · rintro ⟨_, -, rfl, rfl⟩
        exact ⟨rfl, rfl⟩
    · rw [heq, List.mem_append, List.mem_singleton] at hmem
      rcases hmem with hmem | hmem
      · exact hreturned c' i' k' hmem
      · cases hmem
        exact hdone
    · rw [heq, List.pairwise_append]
      refine ⟨hs.once, List.pairwise_singleton _ _, ?_⟩
      rintro ⟨c', i', k'⟩ hx y hy
      obtain rfl := List.mem_singleton.mp hy
      constructor
      · rintro (rfl : c' = c)
        rw [hs.returned c' i' k' hx] at hstream
        cases hstream
      · intro hstr
        obtain ⟨rfl, rfl⟩ := Prod.mk.inj hstr
        exact hfresh ((hs.pumps i' k').mpr ⟨c', hx⟩)

/-- **Every connection is served once.** In every run: the pumps of the tunnels are exactly those that
some call has started; no call starts two, and no two calls share a stream; and `accept_connection` has
returned `Ok` if and only if it has started its pump, on the tunnel that it returns. -/
theorem connections_served {t : List (TunnelManager × Action)} (h : Trace (step pingSecs) new t s) :
    (∀ i k, s.Pump i k ↔ ∃ c, (c, i, k) ∈ started t) ∧
    (started t).Pairwise (fun x y => x.1 ≠ y.1 ∧ x.2 ≠ y.2) ∧
    ∀ c, Begun t c → ∀ i, s.calls c = .done (.ok i) ↔ ∃ k, (c, i, k) ∈ started t := by
  have hall : Inv s ∧ Owned s ∧ Served t s :=
    h.invariant (I := fun t s => Inv s ∧ Owned s ∧ Served t s) ⟨inv_new, owned_new, served_new⟩
      fun ⟨hi, ho, hs⟩ hstep => ⟨inv_step hi (.of_step hstep), owned_step hi ho (.of_step hstep),
        served_step hi ho hs (.of_step hstep)⟩
  obtain ⟨-, -, hs⟩ := hall
  refine ⟨hs.pumps, hs.once, fun c hb i => ⟨(hs.accepts c hb).2.2 i, ?_⟩⟩
  rintro ⟨k, hk⟩
  exact hs.returned c i k hk

/-- Two connections: the dial of the first fails once, and the tunnel of the second is killed before its pump
starts, so that it dials anew. -/
def retrying : List Action :=
  [.callAccept 0, .callAccept 1, .lock 0, .check 0, .dialErr 0 "connection refused", .lock 1, .check 1,
    .dialOk 1, .store 1, .lock 0, .check 0, .allocId 0, .allocId 1, .register 1, .register 0, .open 0,
    .spawn 0, .open 1, .tunnel 0 (.kill 0), .tunnel 0 (.exit (.caller 0)), .tunnel 0 (.exit (.caller 0)),
    .spawn 1, .lock 1, .check 1, .dialOk 1, .store 1, .allocId 1, .register 1, .open 1, .spawn 1]

/-- Whether a stream has got its pump. -/
def hasPump (s : TunnelManager) (i k : ℕ) : Bool :=
  match s.tunnel i with
  | some e => (e.inst k).phase.isPump
  | none => false

theorem pump_of_hasPump {i k : ℕ} (h : s.hasPump i k = true) : s.Pump i k := by
  unfold hasPump at h
  cases hi : s.tunnel i with
  | none =>
    rw [hi] at h
    cases h
  | some e => exact ⟨e, hi, by simpa [hi] using h⟩

theorem connections_served_retrying :
    ∃ t s, Trace (step 0) new t s ∧ (∃ c, (c, 0, 0) ∈ started t) ∧ (∃ c, (c, 1, 0) ∈ started t) ∧
      (started t).Pairwise (fun x y => x.1 ≠ y.1 ∧ x.2 ≠ y.2) := by
  have hrun : ((exec (guard (fun _ _ => true) (step 0)) new retrying).map
      fun s => s.hasPump 0 0 && s.hasPump 1 0) = some true := by decide +kernel
  obtain ⟨s, hs, hp⟩ := Option.map_eq_some_iff.mp hrun
  obtain ⟨t, ht, -⟩ := exec_trace retrying hs
  rw [Bool.and_eq_true] at hp
  obtain ⟨hpumps, honce, -⟩ := connections_served ht
  exact ⟨t, s, ht, (hpumps 0 0).mp (pump_of_hasPump hp.1), (hpumps 1 0).mp (pump_of_hasPump hp.2),
    honce⟩

end Invariant

end TunnelManager

end QeliSsPlugin.Client
