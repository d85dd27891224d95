import QeliSsPlugin.Carrier.Step

/-!
# Death fan-out

Once a tunnel is dead, every `kill` has run to its end and the reader has returned, the registry
holds no sender of a pump (`senderHeld_eq_false_of_dead`). Two different arguments give this.

* On the client a pump is spawned only after `is_dead` was checked, with its sender already
  registered: whoever sets the flag later still has its own `close_all` ahead of it.
* On the server the reader goes on registering streams after the flag is set, but it registers none
  after it has left its loop, and its own `close_all` comes after that.

`LoopsInv` says that a loop that has not left has not started to kill; `FanOut` is the invariant of
the two arguments.
-/

namespace QeliSsPlugin.Carrier

open QeliSsPlugin.Lib.Runs QeliSsPlugin.Mux

/-- Whether a pump was spawned. -/
def Phase.isPump : Phase → Bool
  | .pump _ _ => true
  | _ => false

/-- The phases of an `accept_connection` attempt before its pump. -/
def Phase.isAccept : Phase → Bool
  | .allocated | .registered | .opened => true
  | _ => false

/-- The phases of the server's `on_open` before its pump. -/
def Phase.isDial : Phase → Bool
  | .dialing | .dialFailed | .refusing => true
  | _ => false

namespace Endpoint

variable {e e' : Endpoint} {a : Act} {side : Side} {pingSecs : ℕ}

theorem step_side (h : e.Step a e') : e'.side = e.side := by cases h <;> rfl

/-- The dead flag never reverts. -/
theorem dead_mono (h : e.Step a e') (hd : e.dead = true) : e'.dead = true := by
  cases h with
  | setDead => rfl
  | _ => exact hd

/-- A loop that is still in its loop has not started to kill. -/
structure LoopsInv (e : Endpoint) : Prop where
  reader : e.reader ≠ .left → e.exit .reader = .idle
  writer : e.writer ≠ .left → e.exit .writer = .idle
  keepalive : e.keepalive ≠ .left → e.exit .keepalive = .idle

theorem loopsInv_spawnTunnel : LoopsInv (spawnTunnel side pingSecs) :=
  ⟨fun _ => rfl, fun _ => rfl, fun _ => rfl⟩

/-- A task on its way through the death sequence is none of the loops still running. -/
theorem LoopsInv.of_exit (hi : LoopsInv e) {w : Who} {x y : Exit} (hx : e.exit w = x)
    (hne : x ≠ .idle) (hr : e'.reader = e.reader) (hw : e'.writer = e.writer)
    (hk : e'.keepalive = e.keepalive) (he : e'.exit = Function.update e.exit w y) :
    LoopsInv e' := by
  have hother : ∀ w', e.exit w' = .idle → e'.exit w' = .idle := by
    intro w' h
    have : w' ≠ w := fun hw' => hne (by rw [← hx, ← hw', h])
    rw [he, Function.update_of_ne this, h]
  refine ⟨fun h => ?_, fun h => ?_, fun h => ?_⟩
  · exact hother _ (hi.reader (hr ▸ h))
  · exact hother _ (hi.writer (hw ▸ h))
  · exact hother _ (hi.keepalive (hk ▸ h))

theorem loopsInv_step (hi : LoopsInv e) (h : e.Step a e') : LoopsInv e' := by
  cases h with
  | goto hg =>
    refine ⟨fun _ => hi.reader ?_, hi.writer, hi.keepalive⟩
    intro hl; rw [hl] at hg; cases hg
  | readerExit hx | handleKill hr => exact ⟨by simp, hi.writer, hi.keepalive⟩
  | readerRead hr | handleData hr | handleUnknown hr | handlePing hr | delivered hr
  | dropStalled hr => exact ⟨fun _ => hi.reader (by simp [hr]), hi.writer, hi.keepalive⟩
  | reply hr =>
    refine ⟨fun _ => hi.reader ?_, hi.writer, hi.keepalive⟩
    rcases hr with ⟨-, hr⟩ | ⟨-, hr⟩ <;> simp [hr]
  | writerTop hw => exact ⟨hi.reader, fun _ => hi.writer (by simp [hw]), hi.keepalive⟩
  | writerExit hx => exact ⟨hi.reader, by simp, hi.keepalive⟩
  | writerTake hw => exact ⟨hi.reader, fun _ => hi.writer (by simp [hw]), hi.keepalive⟩
  | encryptErr hw => exact ⟨hi.reader, by simp, hi.keepalive⟩
  | wrote hw => exact ⟨hi.reader, fun _ => hi.writer (by simp [hw]), hi.keepalive⟩
  | beat hb =>
    refine ⟨hi.reader, hi.writer, fun _ => hi.keepalive ?_⟩
    intro hl; rw [hl] at hb; cases hb
  | ping hk => exact ⟨hi.reader, hi.writer, fun _ => hi.keepalive (by simp [hk])⟩
  | graceLost hk => exact ⟨hi.reader, hi.writer, by simp⟩
  | @exitMove _ w x hx =>
    by_cases hw : e.exit w = .idle
    · -- only an external `kill` starts from here
      rw [hw] at hx
      rcases hx with _ | _ | _ | ⟨rfl⟩
      exact ⟨hi.reader, hi.writer, hi.keepalive⟩
    · exact hi.of_exit rfl hw rfl rfl rfl rfl
  | logLine hx | setCause hx | setKilled hx | setDead hx | closeAll hx =>
    exact hi.of_exit hx (by simp) rfl rfl rfl rfl
  | _ => exact ⟨hi.reader, hi.writer, hi.keepalive⟩

theorem loopsInv_reachable (h : Reachable step (spawnTunnel side pingSecs) e) : LoopsInv e :=
  h.invariant loopsInv_spawnTunnel fun hi _ hs => loopsInv_step hi (.of_step hs)

/-- The fan-out invariant. -/
structure FanOut (e : Endpoint) : Prop where
  /-- On the client no upstream is dialed. -/
  noDial : e.side = .client → ∀ k, (e.inst k).phase.isDial = false
  /-- On the server no connection is accepted. -/
  noAccept : e.side = .server → ∀ k, (e.inst k).phase.isAccept = false
  /-- A registered pump of a dead client tunnel still has a `close_all` ahead of it. -/
  client : e.side = .client → ∀ id k, e.streams id = some k → (e.inst k).phase.isPump = true →
    e.dead = true → ∃ w, e.exit w = .closeAll
  /-- The reader's own `close_all` clears whatever the reader registered. -/
  server : e.side = .server → ∀ id k, e.streams id = some k → e.exit .reader ≠ .done

theorem fanOut_spawnTunnel : FanOut (spawnTunnel side pingSecs) := by
  refine ⟨fun _ _ => rfl, fun _ _ => rfl, ?_, ?_⟩
  · intro _ id k h
    simp [spawnTunnel] at h
  · intro _ id k h
    simp [spawnTunnel] at h

/-- A task that moves keeps to its side, and becomes a pump only on a live client tunnel. -/
theorem Move.phases {k : ℕ} {p p' : Phase} (h : Move e k a p p') :
    (p.isDial = false → p'.isDial = false) ∧ (p.isAccept = false → p'.isAccept = false) ∧
      (p.isDial = false → p'.isPump = true → p.isPump = true ∨ e.dead = false) := by
  cases h <;> simp_all [Phase.isDial, Phase.isAccept, Phase.isPump]

theorem Post.phases {id : UInt32} {k : ℕ} {p p' : Phase} {f : Frame} (h : Post id k a p p' f) :
    (p.isDial = false → p'.isDial = false) ∧ (p.isAccept = false → p'.isAccept = false) ∧
      (p'.isPump = true → p.isPump = true) := by
  cases h <;> simp [Phase.isDial, Phase.isAccept, Phase.isPump]

/-- A step that moves the task of one instance, where `streams` loses at most entries and gains at
most one of a task that is no pump. -/
theorem FanOut.of_phase (hi : FanOut e) {k : ℕ} {s : Stream} (hside : e'.side = e.side)
    (hinst : e'.inst = Function.update e.inst k s)
    (hstreams : ∀ id j, e'.streams id = some j → e.streams id = some j ∨ j = k ∧ s.phase.isPump = false)
    (hserver : e.side = .server → ∀ id j, e'.streams id = some j → e'.exit .reader ≠ .done)
    (hdead : e'.dead = e.dead) (hexit : e'.exit = e.exit)
    (hd : e.side = .client → s.phase.isDial = false)
    (ha : e.side = .server → s.phase.isAccept = false)
    (hp : e.side = .client → s.phase.isPump = true →
      (e.inst k).phase.isPump = true ∨ e.dead = false) : FanOut e' := by
  refine ⟨fun hc j => ?_, fun hs j => ?_, fun hc id j hj hpump hdead' => ?_, fun hs => ?_⟩
  · rw [hinst, Function.update_apply]
    split_ifs
    · exact hd (hside ▸ hc)
    · exact hi.noDial (hside ▸ hc) j
  · rw [hinst, Function.update_apply]
    split_ifs
    · exact ha (hside ▸ hs)
    · exact hi.noAccept (hside ▸ hs) j
  · rw [hside] at hc
    rw [hdead] at hdead'
    rw [hexit]
    rw [hinst, Function.update_apply] at hpump
    rcases hstreams id j hj with hj | ⟨rfl, hno⟩
    · split_ifs at hpump with hk
      · subst hk
        rcases hp hc hpump with hp | hlive
        · exact hi.client hc id j hj hp hdead'
        · rw [hlive] at hdead'; cases hdead'
      · exact hi.client hc id j hj hpump hdead'
    · rw [if_pos rfl, hno] at hpump; cases hpump
  · exact hserver (hside ▸ hs)

/-- A step that moves only a task of the death sequence. -/
theorem FanOut.of_exit (hi : FanOut e) {w : Who} {x : Exit} (hside : e'.side = e.side)
    (hinst : e'.inst = e.inst) (hstreams : e'.streams = e.streams)
    (hexit : e'.exit = Function.update e.exit w x) (hx : e.exit w ≠ .closeAll) (hx' : x ≠ .done)
    (hdead : e'.dead = true → e.dead = true ∨ x = .closeAll) : FanOut e' := by
  refine ⟨fun hc => ?_, fun hs => ?_, fun hc id k hk hp hd => ?_, fun hs id k hk => ?_⟩
  · rw [hinst]; exact hi.noDial (hside ▸ hc)
  · rw [hinst]; exact hi.noAccept (hside ▸ hs)
  · rw [hstreams] at hk
    rw [hinst] at hp
    rw [hexit]
    rcases hdead hd with hd | rfl
    · obtain ⟨w', hw'⟩ := hi.client (hside ▸ hc) id k hk hp hd
      have hne : w' ≠ w := fun h => hx (h ▸ hw')
      exact ⟨w', by rw [Function.update_of_ne hne, hw']⟩
    · exact ⟨w, by rw [Function.update_self]⟩
  · rw [hstreams] at hk
    rw [hexit, Function.update_apply]
    split_ifs
    · exact hx'
    · exact hi.server (hside ▸ hs) id k hk

theorem fanOut_step (hl : LoopsInv e) (hi : FanOut e) (h : e.Step a e') : FanOut e' := by
  cases h with
  | accept hc =>
    exact hi.of_phase rfl rfl (fun _ _ h => .inl h) hi.server rfl rfl (fun _ => rfl)
      (fun hs => by rw [hc] at hs; cases hs) (fun _ h => by cases h)
  | @register k hp =>
    refine hi.of_phase rfl rfl (fun id j h => ?_) (fun hs => ?_) rfl rfl (fun _ => rfl)
      (fun hs => ?_) (fun _ h => by cases h)
    · simp only [register_streams, Function.update_apply] at h
      split_ifs at h with hid
      · exact .inr ⟨(Option.some.inj h).symm, rfl⟩
      · exact .inl h
    · have := hi.noAccept hs k
      rw [hp] at this; cases this
    · have := hi.noAccept hs k
      rw [hp] at this; cases this
  | move hm =>
    obtain ⟨h1, h2, h3⟩ := hm.phases
    exact hi.of_phase rfl rfl (fun _ _ h => .inl h) hi.server rfl rfl
      (fun hc => h1 (hi.noDial hc _)) (fun hs => h2 (hi.noAccept hs _))
      (fun hc => h3 (hi.noDial hc _))
  | @unregister k hp =>
    have hrem : ∀ id j, ((e.setPhase k .refusing).remove (e.inst k).id).streams id = some j →
        e.streams id = some j := by
      intro id j h
      simp only [remove_streams, setPhase_streams, Function.update_apply] at h
      split_ifs at h; exact h
    refine hi.of_phase rfl rfl (fun id j h => .inl (hrem id j h))
      (fun hs id j h => hi.server hs id j (hrem id j h)) rfl rfl (fun hc => ?_) (fun _ => rfl)
      (fun _ h => by cases h)
    have := hi.noDial hc k
    rw [hp] at this; cases this
  | post hpo =>
    obtain ⟨h1, h2, h3⟩ := hpo.phases
    exact hi.of_phase rfl rfl (fun _ _ h => .inl h) hi.server rfl rfl
      (fun hc => h1 (hi.noDial hc _)) (fun hs => h2 (hi.noAccept hs _))
      (fun _ h => .inl (h3 h))
  | upRead hp =>
    exact hi.of_phase rfl rfl (fun _ _ h => .inl h) hi.server rfl rfl (fun _ => rfl) (fun _ => rfl)
      (fun _ _ => .inl (by rw [hp]; rfl))
  | upSend hp =>
    exact hi.of_phase rfl rfl (fun _ _ h => .inl h) hi.server rfl rfl (fun _ => rfl) (fun _ => rfl)
      (fun _ _ => .inl (by rw [hp]; rfl))
  | downRecv hp =>
    exact hi.of_phase rfl rfl (fun _ _ h => .inl h) hi.server rfl rfl (fun _ => rfl) (fun _ => rfl)
      (fun _ _ => .inl (by rw [hp]; rfl))
  | delivered =>
    exact hi.of_phase rfl rfl (fun _ _ h => .inl h) hi.server rfl rfl
      (fun hc => hi.noDial hc _) (fun hs => hi.noAccept hs _) (fun _ h => .inl h)
  | @handleOpen id rest hr =>
    have hidle := hl.reader (by simp [hr])
    refine hi.of_phase rfl rfl (fun id' j h => ?_) (fun _ _ _ _ => ?_) rfl rfl (fun hc => ?_)
      (fun hs => ?_) (fun hc h => ?_)
    · simp only [register_streams, Function.update_apply] at h
      split_ifs at h with hid
      · refine .inr ⟨(Option.some.inj h).symm, ?_⟩
        rcases hs : e.side with _ | _ <;> rfl
      · exact .inl h
    · exact (by simp [hidle] : e.exit .reader ≠ .done)
    · simp [hc, Stream.fresh, onOpen, Phase.isDial]
    · simp [hs, Stream.fresh, onOpen, Phase.isAccept]
    · simp [hc, Stream.fresh, onOpen, Phase.isPump] at h
  | handleClose =>
    refine ⟨hi.noDial, hi.noAccept, fun hc id k hk => ?_, fun hs id k hk => ?_⟩ <;>
      simp only [remove_streams, handle_streams, Function.update_apply] at hk <;> split_ifs at hk
    · exact hi.client hc id k hk
    · exact hi.server hs id k hk
  | dropStalled =>
    refine ⟨hi.noDial, hi.noAccept, fun hc id k hk => ?_, fun hs id k hk => ?_⟩ <;>
      simp only [remove_streams, Function.update_apply] at hk <;> split_ifs at hk
    · exact hi.client hc id k hk
    · exact hi.server hs id k hk
  | readerExit hx =>
    have hidle : e.exit .reader = .idle := hl.reader (by rintro hr; rw [hr] at hx; cases hx)
    exact hi.of_exit rfl rfl rfl rfl (by simp [hidle]) (by simp) .inl
  | handleKill hr =>
    have hidle : e.exit .reader = .idle := hl.reader (by simp [hr])
    exact hi.of_exit rfl rfl rfl rfl (by simp [hidle]) (by simp) .inl
  | writerExit hx =>
    have hidle : e.exit .writer = .idle := hl.writer (by rintro hr; rw [hr] at hx; cases hx)
    exact hi.of_exit rfl rfl rfl rfl (by simp [hidle]) (by simp) .inl
  | encryptErr hw =>
    have hidle : e.exit .writer = .idle := hl.writer (by simp [hw])
    exact hi.of_exit rfl rfl rfl rfl (by simp [hidle]) (by simp) .inl
  | graceLost hk =>
    have hidle : e.exit .keepalive = .idle := hl.keepalive (by simp [hk])
    exact hi.of_exit rfl rfl rfl rfl (by simp [hidle]) (by simp) .inl
  | @exitMove _ w x hx =>
    refine hi.of_exit rfl rfl rfl rfl ?_ ?_ .inl
    · intro h; rw [h] at hx; cases hx
    · rintro rfl
      generalize e.exit w = y at hx
      cases hx
  | logLine hx | setCause hx | setKilled hx =>
    exact hi.of_exit rfl rfl rfl rfl (by simp [hx]) (by simp) .inl
  | setDead hx => exact hi.of_exit rfl rfl rfl rfl (by simp [hx]) (by simp) fun _ => .inr rfl
  | closeAll hx =>
    refine ⟨hi.noDial, hi.noAccept, fun _ id k hk => ?_, fun _ id k hk => ?_⟩
    · simp at hk
    · simp at hk
  | _ => exact ⟨hi.noDial, hi.noAccept, hi.client, hi.server⟩

theorem fanOut_reachable (h : Reachable step (spawnTunnel side pingSecs) e) : FanOut e := by
  refine (h.invariant (I := fun e => LoopsInv e ∧ FanOut e)
    ⟨loopsInv_spawnTunnel, fanOut_spawnTunnel⟩ ?_).2
  intro e e' a hi _ hs
  exact ⟨loopsInv_step hi.1 (.of_step hs), fanOut_step hi.1 hi.2 (.of_step hs)⟩

/-- **Death fan-out leaves no orphaned pump.** In every reachable state in which the tunnel is dead,
every started `kill` has finished and the reader has returned, no sender of a pump's inbound channel
is held, so a pump that has written everything buffered sees the end of its stream. -/
theorem senderHeld_eq_false_of_dead (h : Reachable step (spawnTunnel side pingSecs) e)
    (hdead : e.dead = true) (hkills : ∀ w, e.exit w = .idle ∨ e.exit w = .done)
    (hreader : e.exit .reader = .done) (k : ℕ) (hp : (e.inst k).phase.isPump = true) :
    (∀ id, e.streams id ≠ some k) ∧ e.senderHeld k = false ∧
      ∀ up, (e.inst k).phase = .pump up .receiving → (e.inst k).inbound = [] →
        e.step (.downEnd k) = some (e.setPhase k (.pump up .done)) := by
  have hi := fanOut_reachable h
  have hleft : e.reader = .left := by
    by_contra hne
    have := (loopsInv_reachable h).reader hne
    rw [hreader] at this; cases this
  have hstreams : ∀ id, e.streams id ≠ some k := by
    intro id hid
    rcases hs : e.side with _ | _
    · obtain ⟨w, hw⟩ := hi.client hs id k hid hp hdead
      rcases hkills w with h | h <;> rw [hw] at h <;> cases h
    · exact hi.server hs id k hid hreader
  have hheld : e.senderHeld k = false := by
    unfold senderHeld
    simp [hstreams, hleft]
  refine ⟨hstreams, hheld, fun up hup hin => ?_⟩
  simp [step, hup, hin, hheld]

/-- A pump spawned just before an external `kill`, whose reader then sees the dead flag. -/
def killedPump : List Act :=
  [Act.accept, .register 0, .open 0, .spawn 0, .kill 0] ++
    List.replicate 3 (Act.exit (.caller 0)) ++ [Act.readerTop] ++ List.replicate 5 (Act.exit .reader)

theorem senderHeld_eq_false_of_killedPump :
    ∃ e, Reachable step (spawnTunnel .client 1) e ∧
      (e.inst 0).phase = .pump .reading .receiving ∧ e.dead = true ∧ e.senderHeld 0 = false ∧
      e.step (.downEnd 0) = some (e.setPhase 0 (.pump .reading .done)) := by
  have hexec : ∃ e, exec (guard (fun _ _ => true) step) (spawnTunnel .client 1) killedPump = some e ∧
      e.dead = true ∧ e.exit = Function.update (Function.update (fun _ => .idle) (.caller 0) .done)
        .reader .done ∧ (e.inst 0).phase = .pump .reading .receiving ∧ (e.inst 0).inbound = [] := by
    refine ⟨_, rfl, rfl, ?_, rfl, rfl⟩
    funext w
    rcases w with _ | _ | _ | _ | n <;> rfl
  obtain ⟨e, he, hdead, hexit, hp, hin⟩ := hexec
  have hr : Reachable step (spawnTunnel .client 1) e := exec_reaches (fun _ _ _ => trivial) _ he
  have hkills : ∀ w, e.exit w = .idle ∨ e.exit w = .done := by
    intro w
    rw [hexit]
    simp only [Function.update_apply]
    split_ifs <;> simp
  obtain ⟨-, hheld, hend⟩ := senderHeld_eq_false_of_dead hr hdead hkills (by simp [hexit]) 0
    (by rw [hp]; rfl)
  exact ⟨e, hr, hp, hdead, hheld, hend _ hp hin⟩

end Endpoint

end QeliSsPlugin.Carrier
