import QeliSsPlugin.Carrier.Endpoint

/-! # What a step of an endpoint can do

`Step` lists every step with its guard and its effect; `Step.of_step` is the inversion lemma that
all invariants are proved from. Steps that only move one task are grouped: `Move` (a stream's task),
`Goto` (the reader), `Beat` (the keepalive), `ExitMove` (a task in the death sequence). -/

namespace QeliSsPlugin.Carrier.Endpoint

open QeliSsPlugin.Mux

/-- The steps of a stream's task that move the task and do nothing else. -/
inductive Move (e : Endpoint) (k : ℕ) : Act → Phase → Phase → Prop
  | openClosed : e.framesOpen = false → Move e k (.open k) .registered .dropped
  | spawnDead : e.dead = true → Move e k (.spawn k) .opened .dropped
  | spawn : e.dead = false → Move e k (.spawn k) .opened (.pump .reading .receiving)
  | dialOk : Move e k (.dialOk k) .dialing (.pump .reading .receiving)
  | dialErr : Move e k (.dialErr k) .dialing .dialFailed
  | refuseClosed : e.framesOpen = false → Move e k (.refuse k) .refusing .dropped
  | rejectClosed : e.framesOpen = false → Move e k (.refuse k) .rejecting .dropped
  | upEof {down} : Move e k (.upEof k) (.pump .reading down) (.pump .closing down)
  | upSendClosed {c rest down} : e.framesOpen = false →
      Move e k (.upSend k) (.pump (.sending (c :: rest)) down) (.pump .closing down)
  | upCloseClosed {down} : e.framesOpen = false →
      Move e k (.upClose k) (.pump .closing down) (.pump .done down)
  | downEnd {up} : (e.inst k).inbound = [] → e.senderHeld k = false →
      Move e k (.downEnd k) (.pump up .receiving) (.pump up .done)
  | downWrote {up c} : Move e k (.downWrote k) (.pump up (.writing c)) (.pump up .receiving)
  | downFail {up c} : Move e k (.downFail k) (.pump up (.writing c)) (.pump up .done)

/-- The steps of a stream's task that enqueue a frame, chunks apart. -/
inductive Post (id : UInt32) (k : ℕ) : Act → Phase → Phase → Frame → Prop
  | open : Post id k (.open k) .registered .opened (.open id)
  | refuse : Post id k (.refuse k) .refusing .dropped (.close id)
  | reject : Post id k (.refuse k) .rejecting .dropped (.close id)
  | upClose {down} : Post id k (.upClose k) (.pump .closing down) (.pump .done down) (.close id)

/-- The steps of the reader that move the reader and do nothing else. -/
inductive Goto (e : Endpoint) : Act → Reader → Reader → Prop
  | top : e.dead = false → Goto e .readerTop .top .drain
  | drained : e.records = [] → Goto e .dispatch .drain .select
  | undeliverable {k id payload} : (e.inst k).phase.hasReceiver = false →
      Goto e .undeliverable (.delivering k id payload) (.replying (.close id))
  | stall {k id payload} : (e.inst k).phase.hasReceiver = true →
      inboundCapacity ≤ (e.inst k).inbound.length →
      Goto e .stall (.delivering k id payload) (.stalled k id)
  | replyClosed {f} : e.framesOpen = false → Goto e .reply (.replying f) .drain
  | replyFull {f} : e.framesOpen = true → e.hasRoom = false →
      Goto e .reply (.replying f) (.waiting f)
  | resumeClosed {f} : e.framesOpen = false → Goto e .resume (.waiting f) .drain

/-- The steps that take the reader out of its loop without a record. -/
inductive ReaderExit (e : Endpoint) : Act → Reader → DeathCause → Prop
  | top : e.dead = true → ReaderExit e .readerTop .top .killed
  | dead : e.dead = true → ReaderExit e .readerDead .select .killed
  | eof : ReaderExit e .readerEof .select .peerClosed
  | err : ReaderExit e .readerErr .select .readError

/-- The steps that take the writer out of its loop, a failed encryption apart. -/
inductive WriterExit (e : Endpoint) : Act → Writer → DeathCause → Prop
  | top : e.dead = true → WriterExit e .writerTop .top .killed
  | dead : e.dead = true → WriterExit e .writerDead .select .killed
  | err {f} : WriterExit e .writeErr (.writing f) .writeError

/-- The steps of the keepalive that move it and do nothing else. -/
inductive Beat (e : Endpoint) : Act → Keepalive → Keepalive → Prop
  | topDead : e.dead = true → Beat e .keepaliveTop .top .left
  | top : e.dead = false → Beat e .keepaliveTop .top .select
  | tick : Beat e .tick .select (.pinging e.pongs)
  | pingClosed {nonce before} : e.framesOpen = false → Beat e (.ping nonce) (.pinging before) .left
  | graceOver {before} : before < e.pongs → Beat e .graceOver (.grace before) .top
  | selectDead : e.dead = true → Beat e .keepaliveDead .select .left
  | graceDead {before} : e.dead = true → Beat e .keepaliveDead (.grace before) .left

/-- The steps of the death sequence that move a task through it and do nothing else. -/
inductive ExitMove (e : Endpoint) (w : Who) : Act → Exit → Exit → Prop
  | known {c} : e.cause.isSome = true → ExitMove e w (.exit w) (.logCheck c) (.setCause c)
  | unknown {c} : e.cause = none → ExitMove e w (.exit w) (.logCheck c) (.logLen c)
  | len {c} : ExitMove e w (.exit w) (.logLen c) (.logLine c)
  | kill {n} : w = .caller n → ExitMove e w (.kill n) .idle .setKilled

/-- The endpoint after the reader has taken and judged a record. -/
@[simps] def handle (e : Endpoint) (o : Outcome) (rest : List Outcome) : Endpoint :=
  { e with records := rest, badStreak := (judge e.badStreak o).1, handled := e.handled ++ [o] }

/-- **Every step, with its guard and its effect.** -/
inductive Step (e : Endpoint) : Act → Endpoint → Prop
  | accept : e.side = .client →
      Step e .accept { e.addStream (.fresh e.nextId .allocated) with nextId := e.nextId + 1 }
  | register {k} : (e.inst k).phase = .allocated →
      Step e (.register k) ((e.setPhase k .registered).register (e.inst k).id k)
  | move {a k p} : Move e k a (e.inst k).phase p → Step e a (e.setPhase k p)
  | unregister {k} : (e.inst k).phase = .dialFailed →
      Step e (.unregister k) ((e.setPhase k .refusing).remove (e.inst k).id)
  | post {a k p f} : Post (e.inst k).id k a (e.inst k).phase p f → e.framesOpen = true →
      e.hasRoom = true → Step e a ((e.setPhase k p).push f)
  | upRead {k data down} : (e.inst k).phase = .pump .reading down → data ≠ [] →
      data.length ≤ readBuf →
      Step e (.upRead k data) (e.setStream k { e.inst k with
        phase := .pump (.sending (chunks maxData data)) down,
        taken := (e.inst k).taken ++ [data] })
  | upSend {k c rest down} : (e.inst k).phase = .pump (.sending (c :: rest)) down →
      e.framesOpen = true → e.hasRoom = true →
      Step e (.upSend k) ((e.setStream k { e.inst k with
        phase := .pump (afterChunk rest) down,
        pumped := (e.inst k).pumped ++ [c] }).push (.data (e.inst k).id c))
  | downRecv {k up c cs} : (e.inst k).phase = .pump up .receiving → (e.inst k).inbound = c :: cs →
      Step e (.downRecv k) (e.setStream k { e.inst k with
        phase := .pump up (.writing c), inbound := cs, received := (e.inst k).received ++ [c] })
  | goto {a r} : Goto e a e.reader r → Step e a { e with reader := r }
  | readerExit {a cause} : ReaderExit e a e.reader cause → Step e a (e.leaveReader cause)
  | readerRead {rs} : e.reader = .select →
      Step e (.readerRead rs) { e with reader := .top, records := e.records ++ rs }
  | handleKill {o rest cause} : e.reader = .drain → e.records = o :: rest →
      (judge e.badStreak o).2 = some cause →
      Step e .dispatch ((e.handle o rest).leaveReader cause)
  | handleBad {o rest} : e.reader = .drain → e.records = o :: rest → o.frame? = none →
      (judge e.badStreak o).2 = none → Step e .dispatch (e.handle o rest)
  | handleOpen {id rest} : e.reader = .drain → e.records = .good (.open id) :: rest →
      Step e .dispatch (((e.handle (.good (.open id)) rest).addStream
        (.fresh id (onOpen e.side))).register id e.n)
  | handleData {id p k rest} : e.reader = .drain → e.records = .good (.data id p) :: rest →
      e.streams id = some k →
      Step e .dispatch { e.handle (.good (.data id p)) rest with reader := .delivering k id p }
  | handleUnknown {id p rest} : e.reader = .drain → e.records = .good (.data id p) :: rest →
      e.streams id = none →
      Step e .dispatch { e.handle (.good (.data id p)) rest with reader := .replying (.close id) }
  | handleClose {id rest} : e.reader = .drain → e.records = .good (.close id) :: rest →
      Step e .dispatch ((e.handle (.good (.close id)) rest).remove id)
  | handlePing {nonce rest} : e.reader = .drain → e.records = .good (.ping nonce) :: rest →
      Step e .dispatch { e.handle (.good (.ping nonce)) rest with reader := .replying (.pong nonce) }
  | handlePong {nonce rest} : e.reader = .drain → e.records = .good (.pong nonce) :: rest →
      Step e .dispatch { e.handle (.good (.pong nonce)) rest with pongs := e.pongs + 1 }
  | delivered {k id payload} : e.reader = .delivering k id payload →
      (e.inst k).phase.hasReceiver = true → (e.inst k).inbound.length < inboundCapacity →
      Step e .delivered { e.setStream k { e.inst k with
        inbound := (e.inst k).inbound ++ [payload] } with reader := .drain }
  | dropStalled {k id} : e.reader = .stalled k id →
      Step e .dropStalled { e.remove id with reader := .replying (.close id) }
  | reply {a f} : (a = .reply ∧ e.reader = .replying f ∨ a = .resume ∧ e.reader = .waiting f) →
      e.framesOpen = true → e.hasRoom = true → Step e a { e.push f with reader := .drain }
  | writerTop : e.writer = .top → e.dead = false → Step e .writerTop { e with writer := .select }
  | writerExit {a cause} : WriterExit e a e.writer cause → Step e a (e.leaveWriter cause)
  | writerTake {f fs} : e.writer = .select → e.frames = f :: fs →
      Step e .writerTake { e with writer := .writing f, frames := fs }
  | encryptErr {f fs} : e.writer = .select → e.frames = f :: fs →
      Step e .encryptErr { e.leaveWriter .wireCorruption with frames := fs }
  | wrote {f} : e.writer = .writing f → Step e .wrote { e with writer := .top }
  | writerReturn : e.exit .writer = .done → e.framesOpen = true →
      Step e .writerReturn { e with framesOpen := false, frames := [] }
  | beat {a ka} : Beat e a e.keepalive ka → Step e a { e with keepalive := ka }
  | ping {nonce before} : e.keepalive = .pinging before → e.framesOpen = true →
      e.hasRoom = true → Step e (.ping nonce) { e.push (.ping nonce) with keepalive := .grace before }
  | graceLost {before} : e.keepalive = .grace before → e.pongs ≤ before →
      Step e .graceOver
        { e.setExit .keepalive (.logCheck .keepaliveTimeout) with keepalive := .left }
  | exitMove {a w x} : ExitMove e w a (e.exit w) x → Step e a (e.setExit w x)
  | logLine {w c} : e.exit w = .logLine c →
      Step e (.exit w) { e.setExit w (.setCause c) with log := e.log ++ [(w, c)] }
  | setCause {w c} : e.exit w = .setCause c →
      Step e (.exit w) { e.setExit w .setKilled with cause := e.cause.or (some c) }
  | setKilled {w} : e.exit w = .setKilled →
      Step e (.exit w) { e.setExit w .setDead with cause := e.cause.or (some .killed) }
  | setDead {w} : e.exit w = .setDead →
      Step e (.exit w) { e.setExit w .closeAll with dead := true }
  | closeAll {w} : e.exit w = .closeAll →
      Step e (.exit w) { e.setExit w .done with streams := fun _ => none }

section Inversion

variable {e e' : Endpoint}

theorem step_move {a : Act} {k : ℕ} {p p' : Phase} (hp : (e.inst k).phase = p)
    (h : Move e k a p p') : e.Step a (e.setPhase k p') := .move (hp ▸ h)

theorem step_post {a : Act} {k : ℕ} {p p' : Phase} {f : Frame} (hp : (e.inst k).phase = p)
    (h : Post (e.inst k).id k a p p' f) (ho : e.framesOpen = true) (hr : e.hasRoom = true) :
    e.Step a ((e.setPhase k p').push f) := .post (hp ▸ h) ho hr

/-- The steps that enqueue a frame, or give up because the channel is closed. -/
theorem step_enqueue {a : Act} {given queued : Endpoint}
    (h : (if e.framesOpen = false then some given
      else if e.hasRoom then some queued else none) = some e')
    (hg : e.framesOpen = false → e.Step a given)
    (hq : e.framesOpen = true → e.hasRoom = true → e.Step a queued) : e.Step a e' := by
  by_cases ho : e.framesOpen = false
  · rw [if_pos ho] at h
    cases h; exact hg ho
  · rw [if_neg ho] at h
    by_cases hr : e.hasRoom = true
    · rw [if_pos hr] at h
      cases h; exact hq (by simpa using ho) hr
    · rw [if_neg hr] at h; cases h

theorem step_reply {a : Act} {f : Frame}
    (ha : a = .reply ∧ e.reader = .replying f ∨
      a = .resume ∧ e.reader = .waiting f ∧ (e.framesOpen = false ∨ e.hasRoom = true)) :
    e.Step a (e.replyStep f) := by
  unfold replyStep
  by_cases ho : e.framesOpen = false
  · rw [if_pos ho]
    rcases ha with ⟨rfl, hr⟩ | ⟨rfl, hr, -⟩
    · exact .goto (hr ▸ .replyClosed ho)
    · exact .goto (hr ▸ .resumeClosed ho)
  · have ho' : e.framesOpen = true := by simpa using ho
    rw [if_neg ho]
    by_cases hroom : e.hasRoom = true
    · rw [if_pos hroom]
      exact .reply (ha.imp id fun h => ⟨h.1, h.2.1⟩) ho' hroom
    · rw [if_neg hroom]
      rcases ha with ⟨rfl, hr⟩ | ⟨rfl, -, h⟩
      · exact .goto (hr ▸ .replyFull ho' (by simpa using hroom))
      · exact absurd h (by simp [ho', hroom])

theorem step_dispatch {o : Outcome} {rest : List Outcome} (hr : e.reader = .drain)
    (hrec : e.records = o :: rest) : e.Step .dispatch (e.dispatchRecord o rest) := by
  rcases o with f | _ | _
  · rcases f with id | ⟨id, p⟩ | id | nonce | nonce
    · exact .handleOpen hr hrec
    · rcases hs : e.streams id with _ | k
      · have : e.dispatchRecord (.good (.data id p)) rest =
            { e.handle (.good (.data id p)) rest with reader := .replying (.close id) } := by
          simp [dispatchRecord, dispatchFrame, judge, handle, hs]
        rw [this]; exact .handleUnknown hr hrec hs
      · have : e.dispatchRecord (.good (.data id p)) rest =
            { e.handle (.good (.data id p)) rest with reader := .delivering k id p } := by
          simp [dispatchRecord, dispatchFrame, judge, handle, hs]
        rw [this]; exact .handleData hr hrec hs
    · exact .handleClose hr hrec
    · exact .handlePing hr hrec
    · exact .handlePong hr hrec
  all_goals
    rcases hj : (judge e.badStreak _).2 with _ | cause
    · have := Step.handleBad hr hrec rfl hj
      simpa [dispatchRecord, hj, handle] using this
    · have := Step.handleKill hr hrec hj
      simpa [dispatchRecord, hj, handle] using this

theorem step_exit {w : Who} (h : e.exitStep w = some e') : e.Step (.exit w) e' := by
  unfold exitStep at h
  split at h
  next => cases h
  next => cases h
  next c hx =>
    cases h
    rcases hc : e.cause with _ | c'
    · simpa [hc] using Step.exitMove (w := w) (hx ▸ .unknown hc)
    · simpa [hc] using Step.exitMove (w := w) (hx ▸ .known (by simp [hc]))
  next c hx => cases h; exact .exitMove (hx ▸ .len)
  next c hx => cases h; exact .logLine hx
  next c hx => cases h; exact .setCause hx
  next hx => cases h; exact .setKilled hx
  next hx => cases h; exact .setDead hx
  next hx => cases h; exact .closeAll hx

/-- The inversion lemma: a step of the function is one of those listed. -/
theorem Step.of_step {a : Act} (h : e.step a = some e') : e.Step a e' := by
  cases a <;> simp only [step] at h
  case accept =>
    split at h
    · cases h; exact .accept ‹_›
    · cases h
  case upRead k data =>
    split at h
    · split at h
      · cases h; exact .upRead ‹_› (by tauto) (by tauto)
      · cases h
    · cases h
  case exit w => exact step_exit h
  case register k =>
    split at h
    next hp => cases h; exact .register hp
    next => cases h
  case «open» k =>
    split at h
    next hp =>
      exact step_enqueue h (fun ho => step_move hp (.openClosed ho)) (step_post hp .open)
    next => cases h
  case spawn k =>
    split at h
    next hp =>
      cases h
      by_cases hd : e.dead = true
      · rw [if_pos hd]; exact step_move hp (.spawnDead hd)
      · rw [if_neg hd]; exact step_move hp (.spawn (by simpa using hd))
    next => cases h
  case dialOk k =>
    split at h
    next hp => cases h; exact step_move hp .dialOk
    next => cases h
  case dialErr k =>
    split at h
    next hp => cases h; exact step_move hp .dialErr
    next => cases h
  case unregister k =>
    split at h
    next hp => cases h; exact .unregister hp
    next => cases h
  case refuse k =>
    split at h
    next hp =>
      exact step_enqueue h (fun ho => step_move hp (.refuseClosed ho)) (step_post hp .refuse)
    next hp =>
      exact step_enqueue h (fun ho => step_move hp (.rejectClosed ho)) (step_post hp .reject)
    next => cases h
  case upEof k =>
    split at h
    next hp => cases h; exact step_move hp .upEof
    next => cases h
  case upSend k =>
    split at h
    next hp =>
      exact step_enqueue h (fun ho => step_move hp (.upSendClosed ho)) (.upSend hp)
    next => cases h
  case upClose k =>
    split at h
    next hp =>
      exact step_enqueue h (fun ho => step_move hp (.upCloseClosed ho)) (step_post hp .upClose)
    next => cases h
  case downRecv k =>
    split at h
    next hp hi => cases h; exact .downRecv hp hi
    next => cases h
  case downEnd k =>
    split at h
    next hp hi =>
      split at h
      · cases h
      · next hs => cases h; exact step_move hp (.downEnd hi (by simpa using hs))
    next => cases h
  case downWrote k =>
    split at h
    next hp => cases h; exact step_move hp .downWrote
    next => cases h
  case downFail k =>
    split at h
    next hp => cases h; exact step_move hp .downFail
    next => cases h
  case readerTop =>
    split at h
    next hr =>
      cases h
      by_cases hd : e.dead = true
      · rw [if_pos hd]; exact .readerExit (hr ▸ .top hd)
      · rw [if_neg hd]; exact .goto (hr ▸ .top (by simpa using hd))
    next => cases h
  case dispatch =>
    split at h
    next hr hrec => cases h; exact .goto (hr ▸ .drained hrec)
    next hr hrec => cases h; exact step_dispatch hr hrec
    next => cases h
  case readerRead rs =>
    split at h
    next hr => cases h; exact .readerRead hr
    next => cases h
  case readerEof =>
    split at h
    next hr => cases h; exact .readerExit (hr ▸ .eof)
    next => cases h
  case readerErr =>
    split at h
    next hr => cases h; exact .readerExit (hr ▸ .err)
    next => cases h
  case readerDead =>
    split at h
    next hr =>
      split at h
      · cases h; exact .readerExit (hr ▸ .dead ‹_›)
      · cases h
    next => cases h
  case delivered =>
    split at h
    next hr =>
      split at h
      · next hg => cases h; exact .delivered hr hg.1 hg.2
      · cases h
    next => cases h
  case undeliverable =>
    split at h
    next hr =>
      split at h
      · cases h
      · next hg => cases h; exact .goto (hr ▸ .undeliverable (by simpa using hg))
    next => cases h
  case stall =>
    split at h
    next hr =>
      split at h
      · next hg => cases h; exact .goto (hr ▸ .stall hg.1 hg.2)
      · cases h
    next => cases h
  case dropStalled =>
    split at h
    next hr => cases h; exact .dropStalled hr
    next => cases h
  case reply =>
    split at h
    next hr => cases h; exact step_reply (.inl ⟨rfl, hr⟩)
    next => cases h
  case resume =>
    split at h
    next hr =>
      split at h
      · cases h
      · next hg =>
        cases h
        refine step_reply (.inr ⟨rfl, hr, ?_⟩)
        rcases Bool.eq_false_or_eq_true e.framesOpen with ho | ho
        · exact .inr (by simpa [ho] using hg)
        · exact .inl ho
    next => cases h
  case writerTop =>
    split at h
    next hw =>
      cases h
      by_cases hd : e.dead = true
      · rw [if_pos hd]; exact .writerExit (hw ▸ .top hd)
      · rw [if_neg hd]; exact .writerTop hw (by simpa using hd)
    next => cases h
  case writerTake =>
    split at h
    next hw hf => cases h; exact .writerTake hw hf
    next => cases h
  case encryptErr =>
    split at h
    next hw hf => cases h; exact .encryptErr hw hf
    next => cases h
  case wrote =>
    split at h
    next hw => cases h; exact .wrote hw
    next => cases h
  case writeErr =>
    split at h
    next hw => cases h; exact .writerExit (hw ▸ .err)
    next => cases h
  case writerDead =>
    split at h
    next hw =>
      split at h
      · cases h; exact .writerExit (hw ▸ .dead ‹_›)
      · cases h
    next => cases h
  case writerReturn =>
    split at h
    next hw =>
      split at h
      · cases h; exact .writerReturn hw ‹_›
      · cases h
    next => cases h
  case keepaliveTop =>
    split at h
    next hk =>
      cases h
      by_cases hd : e.dead = true
      · rw [if_pos hd]; exact .beat (hk ▸ .topDead hd)
      · rw [if_neg hd]; exact .beat (hk ▸ .top (by simpa using hd))
    next => cases h
  case tick =>
    split at h
    next hk => cases h; exact .beat (hk ▸ .tick)
    next => cases h
  case ping nonce =>
    split at h
    next hk =>
      exact step_enqueue h (fun ho => .beat (hk ▸ .pingClosed ho)) (.ping hk)
    next => cases h
  case graceOver =>
    split at h
    next hk =>
      split at h
      · cases h; exact .graceLost hk ‹_›
      · cases h; exact .beat (hk ▸ .graceOver (by omega))
    next => cases h
  case keepaliveDead =>
    split at h
    next hk =>
      split at h
      · cases h; exact .beat (hk ▸ .selectDead ‹_›)
      · cases h
    next hk =>
      split at h
      · cases h; exact .beat (hk ▸ .graceDead ‹_›)
      · cases h
    next => cases h
  case kill n =>
    split at h
    next hx => cases h; exact .exitMove (hx ▸ .kill rfl)
    next => cases h

end Inversion

/-- A `kill` goes on only by its own steps. -/
theorem exit_caller_eq {e e' : Endpoint} {a : Act} {n : ℕ} (h : e.Step a e')
    (hexit : a ≠ .exit (.caller n)) (hkill : a ≠ .kill n) :
    e'.exit (.caller n) = e.exit (.caller n) := by
  have hupdate : ∀ w x, w ≠ Who.caller n → Function.update e.exit w x (.caller n) = e.exit (.caller n) :=
    fun w x hw => Function.update_of_ne (Ne.symm hw) _ _
  cases h with
  | @readerExit _ cause => exact hupdate .reader (.logCheck cause) (by simp)
  | @handleKill _ _ cause => exact hupdate .reader (.logCheck cause) (by simp)
  | @writerExit _ cause => exact hupdate .writer (.logCheck cause) (by simp)
  | encryptErr => exact hupdate .writer (.logCheck .wireCorruption) (by simp)
  | graceLost => exact hupdate .keepalive (.logCheck .keepaliveTimeout) (by simp)
  | @exitMove _ w x hx =>
    refine hupdate _ _ ?_
    rintro rfl
    generalize e.exit (.caller n) = y at hx
    cases hx with
    | kill hw =>
      cases hw
      exact hkill rfl
    | _ => exact hexit rfl
  | logLine | setCause | setKilled | setDead | closeAll =>
    refine hupdate _ _ ?_
    rintro rfl
    exact hexit rfl
  | _ => rfl

end QeliSsPlugin.Carrier.Endpoint
