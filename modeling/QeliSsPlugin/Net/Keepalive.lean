import QeliSsPlugin.Net.Pair

/-!
# Keepalive on a wire that corrupts records

The reader drops bad records and dies only of `maxConsecutiveBadRecords` in a row. The keepalive knows
nothing of this: it dies of one round without a PONG, so one corrupted PING or PONG is enough
(`tolerated_corruption_kills`), however few records are corrupted. `alive_of_spared` says that this is
the only way: if the corrupted records carry neither PINGs nor PONGs, no tunnel ever dies.

The argument counts. The PONGs a side has counted are the PINGs it has sent, but for those still under
way: queued, on a wire, buffered, or being answered (`Rounds.pings_eq`). A round's grace ends when none
is under way, so its own PING has been answered.
-/

namespace QeliSsPlugin

open Lib.Runs Mux Carrier
open scoped List

namespace Mux.Frame

def isPing : Frame → Bool
  | .ping _ => true
  | _ => false

def isPong : Frame → Bool
  | .pong _ => true
  | _ => false

/-- A PING or a PONG. -/
def isKeepalive (f : Frame) : Bool := f.isPing || f.isPong

end Mux.Frame

/-- Whether a record is a frame of a kind. -/
def Carrier.Outcome.isA (p : Frame → Bool) (o : Outcome) : Bool := o.frame?.any p

theorem Carrier.countP_goods_concat (p : Frame → Bool) (os : List Outcome) (o : Outcome) :
    (goods (os ++ [o])).countP p = (goods os).countP p + (o.isA p).toNat := by
  rw [goods_append, List.countP_append]
  rcases o with f | _ | _
  · simp [goods, Outcome.frame?, Outcome.isA, List.countP_cons, Bool.toNat]
  · rfl
  · rfl

/-- The failures that come from outside: of the socket, of the codec, or an external `kill`. -/
def Carrier.Act.isFault : Act → Bool
  | .readerEof | .readerErr | .writeErr | .encryptErr | .kill _ => true
  | _ => false

namespace Carrier.Endpoint

variable {e e' : Endpoint} {a : Act}

/-- Whether the reader has a PING still to answer. -/
def ponging (e : Endpoint) : Bool :=
  match e.reader with
  | .replying (.pong _) | .waiting (.pong _) => true
  | _ => false

/-- The reader counts the PONGs and the bad records it handles, and answers every PING. -/
structure Answers (e : Endpoint) : Prop where
  pongs : e.pongs = (goods e.handled).countP Frame.isPong
  answered : e.framesOpen = true →
    (goods e.handled).countP Frame.isPing = e.sent.countP Frame.isPong + e.ponging.toNat
  streak : e.badStreak = trail e.handled

theorem answers_spawnTunnel (side : Side) (pingSecs : ℕ) : Answers (spawnTunnel side pingSecs) :=
  ⟨rfl, fun _ => rfl, rfl⟩

/-- What a step does to the records handled and the PONGs. -/
inductive PongStep (e e' : Endpoint) : Prop
  /-- No record is handled and no PONG enqueued; one that is owed is given up only when the channel
  is closed. -/
  | other : e'.handled = e.handled → e'.pongs = e.pongs → e'.badStreak = e.badStreak →
      (e'.framesOpen = true → e.framesOpen = true) →
      (e'.sent = e.sent ∨ ∃ f, f.isPong = false ∧ e'.sent = e.sent ++ [f]) →
      (e'.ponging = e.ponging ∨ e'.framesOpen = false ∧ e'.ponging = false) → PongStep e e'
  /-- A record other than a PING is handled. -/
  | handled {o : Outcome} : o.isA Frame.isPing = false → e.ponging = false → e'.ponging = false →
      e'.handled = e.handled ++ [o] → e'.badStreak = (judge e.badStreak o).1 →
      e'.pongs = e.pongs + (o.isA Frame.isPong).toNat → e'.framesOpen = e.framesOpen →
      e'.sent = e.sent → PongStep e e'
  | ping {nonce : Nonce} : e.ponging = false → e'.ponging = true →
      e'.handled = e.handled ++ [.good (.ping nonce)] →
      e'.badStreak = (judge e.badStreak (.good (.ping nonce))).1 → e'.pongs = e.pongs →
      e'.framesOpen = e.framesOpen → e'.sent = e.sent → PongStep e e'
  | reply {nonce : Nonce} : e.ponging = true → e'.ponging = false → e'.handled = e.handled →
      e'.badStreak = e.badStreak → e'.pongs = e.pongs → e'.framesOpen = e.framesOpen →
      e'.sent = e.sent ++ [.pong nonce] → PongStep e e'

theorem PongStep.of_bad {o : Outcome} (hbad : o.frame? = none) (hr : e.reader = .drain)
    (hponging : e'.ponging = false) (hhandled : e'.handled = e.handled ++ [o])
    (hstreak : e'.badStreak = (judge e.badStreak o).1) (hpongs : e'.pongs = e.pongs)
    (hopen : e'.framesOpen = e.framesOpen) (hsent : e'.sent = e.sent) : PongStep e e' := by
  have hisA : ∀ p, o.isA p = false := fun p => by rw [Outcome.isA, hbad]; rfl
  refine .handled (hisA _) (by simp [ponging, hr]) hponging hhandled hstreak ?_ hopen hsent
  rw [hpongs, hisA]
  rfl

theorem pongStep (hr : Replies e) (h : e.Step a e') : PongStep e e' := by
  cases h with
  | @post _ k p f hp =>
    refine .other rfl rfl rfl id (.inr ⟨f, ?_, rfl⟩) (.inl rfl)
    generalize (e.inst k).phase = q at hp
    cases hp <;> rfl
  | upSend | ping => exact .other rfl rfl rfl id (.inr ⟨_, rfl, rfl⟩) (.inl rfl)
  | goto hg =>
    refine .other rfl rfl rfl id (.inl rfl) ?_
    simp only [ponging]
    generalize e.reader = r at hg
    cases hg with
    | replyClosed hc | resumeClosed hc => exact .inr ⟨hc, rfl⟩
    | @replyFull f => left; cases f <;> rfl
    | _ => exact .inl rfl
  | readerExit hx =>
    refine .other rfl rfl rfl id (.inl rfl) (.inl ?_)
    simp only [ponging, leaveReader_reader]
    generalize e.reader = r at hx
    cases hx <;> rfl
  | readerRead hd => exact .other rfl rfl rfl id (.inl rfl) (.inl (by simp [ponging, hd]))
  | @handleKill o rest cause hd hrec hj =>
    have hbad : o.frame? = none := by
      cases o with
      | good f => cases hj
      | undecryptable | malformed => rfl
    exact .of_bad hbad hd rfl rfl rfl rfl rfl rfl
  | handleBad hd hrec ho => exact .of_bad ho hd (by simp [ponging, hd]) rfl rfl rfl rfl rfl
  | handleOpen hd =>
    exact .handled (o := .good (.open _)) rfl (by simp [ponging, hd]) (by simp [ponging, hd]) rfl rfl
      rfl rfl rfl
  | handleData hd =>
    exact .handled (o := .good (.data _ _)) rfl (by simp [ponging, hd]) rfl rfl rfl rfl rfl rfl
  | handleUnknown hd =>
    exact .handled (o := .good (.data _ _)) rfl (by simp [ponging, hd]) rfl rfl rfl rfl rfl rfl
  | handleClose hd =>
    exact .handled (o := .good (.close _)) rfl (by simp [ponging, hd]) (by simp [ponging, hd]) rfl rfl
      rfl rfl rfl
  | handlePing hd => exact .ping (by simp [ponging, hd]) rfl rfl rfl rfl rfl rfl
  | handlePong hd =>
    exact .handled (o := .good (.pong _)) rfl (by simp [ponging, hd]) (by simp [ponging, hd]) rfl rfl
      rfl rfl rfl
  | delivered hd | dropStalled hd =>
    exact .other rfl rfl rfl id (.inl rfl) (.inl (by simp [ponging, hd]))
  | @reply _ f hf =>
    have hf := hf.imp And.right And.right
    rcases hr.about hf with ⟨id, p, rfl, -⟩ | ⟨nonce, rfl, -⟩
    · have hno : e.ponging = false := by rcases hf with hf | hf <;> simp [ponging, hf]
      exact .other rfl rfl rfl (fun h => h) (.inr ⟨_, rfl, rfl⟩) (.inl (by rw [hno]; rfl))
    · have hyes : e.ponging = true := by rcases hf with hf | hf <;> simp [ponging, hf]
      exact .reply hyes rfl rfl rfl rfl rfl rfl
  | writerReturn => exact .other rfl rfl rfl (by simp) (.inl rfl) (.inl rfl)
  | _ => exact .other rfl rfl rfl id (.inl rfl) (.inl rfl)

theorem answers_step (ha : Answers e) (h : PongStep e e') : Answers e' := by
  cases h with
  | other hhandled hpongs hstreak hopen hsent hponging =>
    refine ⟨by rw [hpongs, hhandled, ha.pongs], fun ho => ?_, by rw [hstreak, hhandled, ha.streak]⟩
    have hcount : e'.sent.countP Frame.isPong = e.sent.countP Frame.isPong := by
      rcases hsent with hsent | ⟨f, hf, hsent⟩ <;> rw [hsent]
      simp [List.countP_append, hf]
    have heq := hponging.resolve_right fun hc => by rw [ho] at hc; cases hc.1
    rw [hhandled, ha.answered (hopen ho), hcount, heq]
  | handled ho hno hno' hhandled hstreak hpongs hopen hsent =>
    refine ⟨?_, fun hf => ?_, by rw [hstreak, hhandled, ha.streak, judge_fst]⟩
    · rw [hpongs, hhandled, countP_goods_concat, ha.pongs]
    · rw [hhandled, countP_goods_concat, ho, ha.answered (hopen ▸ hf), hno, hsent, hno']
      rfl
  | ping hno hyes hhandled hstreak hpongs hopen hsent =>
    refine ⟨?_, fun hf => ?_, by rw [hstreak, hhandled, ha.streak, judge_fst]⟩
    · rw [hpongs, hhandled, countP_goods_concat, ha.pongs]
      rfl
    · rw [hhandled, countP_goods_concat, ha.answered (hopen ▸ hf), hno, hsent, hyes]
      rfl
  | reply hyes hno hhandled hstreak hpongs hopen hsent =>
    refine ⟨by rw [hpongs, hhandled, ha.pongs], fun hf => ?_, by rw [hstreak, hhandled, ha.streak]⟩
    rw [hhandled, ha.answered (hopen ▸ hf), hyes, hsent, hno, List.countP_append]
    rfl

/-- Nobody has started to kill the tunnel. -/
structure Calm (e : Endpoint) : Prop where
  dead : e.dead = false
  framesOpen : e.framesOpen = true
  writer : e.writer ≠ .left
  exit : ∀ w, e.exit w = .idle

theorem calm_spawnTunnel (side : Side) (pingSecs : ℕ) : Calm (spawnTunnel side pingSecs) :=
  ⟨rfl, rfl, by simp [spawnTunnel], fun _ => rfl⟩

/-- Without a fault, a tunnel dies of bad records or of a round without PONG. -/
theorem calm_step (hc : Calm e) (h : e.Step a e') (hfault : a.isFault = false)
    (hbad : ∀ o rest, a = .dispatch → e.records = o :: rest → (judge e.badStreak o).2 = none)
    (hgrace : ∀ b, a = .graceOver → e.keepalive = .grace b → b < e.pongs) : Calm e' := by
  have hlive : e.dead ≠ true := by simp [hc.dead]
  cases h with
  | readerExit hx =>
    generalize e.reader = r at hx
    cases hx with
    | top hd | dead hd => exact absurd hd hlive
    | eof | err => cases hfault
  | handleKill _ hrec hj =>
    have := hbad _ _ rfl hrec
    rw [hj] at this; cases this
  | writerTop | writerTake | wrote => exact ⟨hc.dead, hc.framesOpen, by simp, hc.exit⟩
  | writerExit hx =>
    generalize e.writer = r at hx
    cases hx with
    | top hd | dead hd => exact absurd hd hlive
    | err => cases hfault
  | encryptErr => cases hfault
  | writerReturn hx => rw [hc.exit] at hx; cases hx
  | graceLost hk hp =>
    have := hgrace _ rfl hk
    omega
  | exitMove hx =>
    rw [hc.exit] at hx
    cases hx
    cases hfault
  | logLine hx | setCause hx | setKilled hx | setDead hx | closeAll hx =>
    rw [hc.exit] at hx; cases hx
  | _ => exact ⟨hc.dead, hc.framesOpen, hc.writer, hc.exit⟩

/-- A round samples the PONGs counted and then sends one PING. -/
structure Sampled (e : Endpoint) : Prop where
  pinging : ∀ b, e.keepalive = .pinging b → b ≤ e.sent.countP Frame.isPing
  grace : ∀ b, e.keepalive = .grace b → b < e.sent.countP Frame.isPing

theorem sampled_step (hs : Sampled e) (hle : e.pongs ≤ e.sent.countP Frame.isPing)
    (h : e.Step a e') : Sampled e' := by
  have hmono : e.sent.countP Frame.isPing ≤ e'.sent.countP Frame.isPing := by
    rcases step_sent h with hs | ⟨f, -, hs⟩ <;> rw [hs]
    rw [List.countP_append]
    omega
  have hframe : e'.keepalive = e.keepalive → Sampled e' := by
    intro hk
    refine ⟨fun b hb => ?_, fun b hb => ?_⟩
    · have := hs.pinging b (hk ▸ hb)
      omega
    · have := hs.grace b (hk ▸ hb)
      omega
  cases h with
  | beat hb =>
    generalize e.keepalive = k at hb
    cases hb <;> refine ⟨?_, ?_⟩ <;> simp
    exact hle
  | @ping nonce before hk =>
    have := hs.pinging _ hk
    refine ⟨by simp, fun b hb => ?_⟩
    obtain rfl : before = b := by simpa using hb
    simp [List.countP_append, Frame.isPing]
    omega
  | graceLost => exact ⟨by simp, by simp⟩
  | _ => exact hframe rfl

end Carrier.Endpoint

namespace Net

variable {room : Side → ℕ → Bool} {pingSecs : Side → ℕ} {s s' : Net} {a : NetAct}

/-- The frames a side has sent that its peer has still to handle. -/
def underway (s : Net) (x : Side) : List Frame :=
  goods ((s.ep x.peer).records ++ s.wire x) ++ (s.ep x).queued

/-- Every PING of `x` that was not corrupted has been answered, and every such PONG counted. -/
def roundOver (s : Net) (x : Side) : Bool :=
  (s.underway x).all (fun f => !f.isPing) && (s.underway x.peer).all (fun f => !f.isPong) &&
    !(s.ep x.peer).ponging

/-- What holds while nobody has started to kill a tunnel and no PING or PONG is damaged. -/
structure Rounds (s : Net) : Prop where
  base : Base s
  exact : ∀ x, Exact Frame.isKeepalive s x
  answers : ∀ x, (s.ep x).Answers
  calm : ∀ x, (s.ep x).Calm
  sampled : ∀ x, (s.ep x).Sampled

theorem rounds_connect : Rounds (connect pingSecs) := by
  refine ⟨base_connect pingSecs, exact_connect _ pingSecs, fun x => ?_, fun x => ?_, fun x => ?_⟩
  · exact Endpoint.answers_spawnTunnel x _
  · exact Endpoint.calm_spawnTunnel x _
  · refine ⟨?_, ?_⟩ <;> simp only [connect, Endpoint.spawnTunnel] <;> split_ifs <;> simp

/-- The frames of an undamaged kind that a side has sent were handled or are under way. -/
theorem Rounds.count (hr : Rounds s) (x : Side) {p : Frame → Bool}
    (hp : ∀ f, p f = true → f.isKeepalive = true) :
    (s.ep x).sent.countP p =
      (goods (s.ep x.peer).handled).countP p + (s.underway x).countP p := by
  have hfilter : ∀ fs : List Frame, (fs.filter Frame.isKeepalive).countP p = fs.countP p := by
    intro fs
    rw [List.countP_filter]
    refine List.countP_congr fun f _ => ?_
    simp only [Bool.and_eq_true, and_iff_left_iff_imp]
    exact hp f
  have heq := congrArg (List.countP p) ((hr.exact x).eq (hr.calm x).writer)
  rw [hfilter, hfilter] at heq
  rw [← heq, ← List.countP_append]
  simp only [arrived, underway, goods_append, List.append_assoc]

/-- **Every PING sent was counted as a PONG, or is under way.** -/
theorem Rounds.pings_eq (hr : Rounds s) (x : Side) :
    (s.ep x).sent.countP Frame.isPing =
      (s.ep x).pongs + (s.underway x.peer).countP Frame.isPong + (s.ep x.peer).ponging.toNat +
        (s.underway x).countP Frame.isPing := by
  have h1 := hr.count x (p := Frame.isPing) (by simp_all [Frame.isKeepalive])
  have h2 := hr.count x.peer (p := Frame.isPong) (by simp_all [Frame.isKeepalive])
  have h3 := (hr.answers x.peer).answered (hr.calm x.peer).framesOpen
  have h4 := (hr.answers x).pongs
  rw [Side.peer_peer] at h2
  omega

theorem Rounds.pongs_le (hr : Rounds s) (x : Side) :
    (s.ep x).pongs ≤ (s.ep x).sent.countP Frame.isPing := by
  have := hr.pings_eq x
  omega

/-- A round that is over has its PONG. -/
theorem Rounds.lt_pongs (hr : Rounds s) {x : Side} {b : ℕ} (hover : s.roundOver x = true)
    (hk : (s.ep x).keepalive = .grace b) : b < (s.ep x).pongs := by
  have heq := hr.pings_eq x
  have hlt := (hr.sampled x).grace b hk
  simp only [roundOver, Bool.and_eq_true, Bool.not_eq_true', List.all_eq_true] at hover
  obtain ⟨⟨h1, h2⟩, h3⟩ := hover
  have hping : (s.underway x).countP Frame.isPing = 0 :=
    List.countP_eq_zero.mpr fun f hf => by simp [h1 f hf]
  have hpong : (s.underway x.peer).countP Frame.isPong = 0 :=
    List.countP_eq_zero.mpr fun f hf => by simp [h2 f hf]
  rw [hping, hpong, h3] at heq
  simp only [Bool.toNat_false] at heq
  omega

theorem rounds_step (hr : Rounds s) (hspare : SpareStep Frame.isKeepalive s a)
    (hfault : ∀ x b, a = .act x b → b.isFault = false)
    (hbad : ∀ x o rest, a = .act x .dispatch → (s.ep x).records = o :: rest →
      (judge (s.ep x).badStreak o).2 = none)
    (hgrace : ∀ x b, a = .act x .graceOver → (s.ep x).keepalive = .grace b → b < (s.ep x).pongs)
    (h : Step room s a s') : Rounds s' := by
  refine ⟨base_step hr.base h, exact_step hr.base.endpoint hr.exact hspare h, fun x => ?_,
    fun x => ?_, fun x => ?_⟩
  · rcases h.endpoint x with heq | ⟨b, hs, -⟩
    · rw [heq]; exact hr.answers x
    · exact Endpoint.answers_step (hr.answers x) (Endpoint.pongStep (hr.base.endpoint x).replies hs)
  · rcases h.endpoint x with heq | ⟨b, hs, hact⟩
    · rw [heq]; exact hr.calm x
    rcases hact with hact | ⟨hwire, heof⟩
    · exact Endpoint.calm_step (hr.calm x) hs (hfault x b hact)
        (fun o rest hb => hbad x o rest (hb ▸ hact)) (fun n hb => hgrace x n (hb ▸ hact))
    · have hne : b ≠ .readerEof := by
        intro hb
        -- the peer has not closed its socket
        rw [heof hb] at h
        rcases h with _ | _ | _ | ⟨-, hcl, -⟩
        simp [closed, (hr.calm x.peer).framesOpen] at hcl
      refine Endpoint.calm_step (hr.calm x) hs ?_ ?_ ?_
      · cases b <;> first | rfl | exact absurd rfl hne | cases hwire
      · rintro o rest rfl; cases hwire
      · rintro n rfl; cases hwire
  · rcases h.endpoint x with heq | ⟨b, hs, -⟩
    · rw [heq]; exact hr.sampled x
    · exact Endpoint.sampled_step (hr.sampled x) (hr.pongs_le x) hs

/-! ### Corruption -/

/-- The steps of a run with tolerable corruption: no failure comes from outside, the wire corrupts
records but never `maxConsecutiveBadRecords` in a row, and a round's grace ends only when every PING
that arrived intact has been answered and every PONG that came back intact counted. -/
def tolerable (s : Net) : NetAct → Bool
  | .act x .graceOver => s.roundOver x
  | .act _ a => !a.isFault
  | .write x fate => fate = .intact ||
      (fate ≠ .lost && trail (s.arrived x) + 1 < maxConsecutiveBadRecords)
  | _ => true

def TolerableStep (s : Net) (a : NetAct) : Prop := s.tolerable a = true

/-- No PING and no PONG is among the records corrupted. -/
def SparedStep (s : Net) (a : NetAct) : Prop :=
  TolerableStep s a ∧ SpareStep Frame.isKeepalive s a

/-- The records written so far hold no fatal run of bad ones. -/
def Bearable (s : Net) : Prop :=
  ∀ x pre, pre <+: s.arrived x → trail pre < maxConsecutiveBadRecords

theorem bearable_step (hl : ∀ x, (s.ep x).Local) (hb : Bearable s) (ht : TolerableStep s a)
    (h : Step room s a s') : Bearable s' := by
  intro x pre hpre
  rcases flow_step hl h x with ⟨harr, -⟩ | ⟨harr, -⟩ | ⟨harr, -⟩ | @⟨fate, f, ha, -, harr, -⟩
  · exact hb x pre (harr ▸ hpre)
  · exact hb x pre (harr ▸ hpre)
  · exact hb x pre (harr ▸ hpre)
  · rw [harr] at hpre
    subst ha
    have hconcat : ∀ o, fate.arrives f = [o] → trail (s.arrived x ++ [o]) < maxConsecutiveBadRecords →
        trail pre < maxConsecutiveBadRecords := by
      intro o ho hlt
      rw [ho] at hpre
      rcases List.prefix_concat_iff.mp hpre with rfl | hpre
      · exact hlt
      · exact hb x pre hpre
    simp only [TolerableStep, tolerable, Bool.or_eq_true, Bool.and_eq_true,
      decide_eq_true_eq] at ht
    rcases fate with _ | _ | _ | _
    · refine hconcat _ rfl ?_
      rw [trail_concat]
      simp [Outcome.isBad, maxConsecutiveBadRecords]
    · refine hconcat _ rfl ?_
      rw [trail_concat]
      simpa [Outcome.isBad] using ht
    · refine hconcat _ rfl ?_
      rw [trail_concat]
      simpa [Outcome.isBad] using ht
    · simp at ht

/-- The reader survives every record of a bearable stream. -/
theorem Bearable.judge_eq_none (hb : Bearable s) (hr : Rounds s) {x : Side} {o : Outcome}
    {rest : List Outcome} (hrec : (s.ep x).records = o :: rest) :
    (judge (s.ep x).badStreak o).2 = none := by
  have hpre : (s.ep x).handled ++ [o] <+: s.arrived x.peer := by
    simp only [arrived, Side.peer_peer, hrec, List.append_assoc, List.cons_append]
    exact ⟨rest ++ s.wire x.peer, by simp⟩
  have hlt := hb x.peer _ hpre
  rw [judge_snd, (hr.answers x).streak, judge_fst, if_neg (by omega)]

/-- **Tolerable corruption that spares the keepalive never kills a tunnel.** -/
theorem alive_of_spared (h : Reaches (step room) SparedStep (connect pingSecs) s) (x : Side) :
    (s.ep x).dead = false := by
  have hi : Rounds s ∧ Bearable s := by
    refine h.invariant (I := fun s => Rounds s ∧ Bearable s) ⟨rounds_connect, ?_⟩ ?_
    · intro x pre hpre
      have : pre = [] := by
        simpa [connect, arrived, Endpoint.spawnTunnel] using hpre
      subst this
      decide
    · rintro s s' a ⟨hr, hb⟩ ⟨ht, hspare⟩ hs
      have hs := Step.of_step hs
      refine ⟨rounds_step hr hspare ?_ ?_ ?_ hs, bearable_step hr.base.endpoint hb ht hs⟩
      · rintro x b rfl
        cases b <;> first | rfl | simp [TolerableStep, tolerable, Act.isFault] at ht
      · rintro x o rest - hrec
        exact hb.judge_eq_none hr hrec
      · rintro x b rfl hk
        exact hr.lt_pongs (x := x) ht hk
  exact (hi.1.calm x).dead

/-- A check for `SparedStep`. -/
def sparedCheck (s : Net) (a : NetAct) : Bool :=
  s.tolerable a && match a with
    | .write x fate => fate = .intact ||
        match (s.ep x).writer with
        | .writing f => !f.isKeepalive
        | _ => true
    | _ => true

theorem sparedStep_of_check (h : sparedCheck s a = true) : SparedStep s a := by
  unfold sparedCheck at h
  rw [Bool.and_eq_true] at h
  refine ⟨h.1, ?_⟩
  rintro x fate f rfl hw hf
  have h2 := h.2
  simp only [hw, hf] at h2
  simpa using h2

/-- A round of the client that comes through although the OPEN before its PING is corrupted. -/
def corruptedOpen : List NetAct :=
  [.act .client .accept, .act .client (.register 0), .act .client (.open 0),
    .act .client .writerTop, .act .client .writerTake, .write .client .undecryptable,
    .act .client .keepaliveTop, .act .client .tick, .act .client (.ping default),
    .act .client .writerTop, .act .client .writerTake, .write .client .intact,
    .act .server .readerTop, .act .server .dispatch, .read .server 2, .act .server .readerTop,
    .act .server .dispatch, .act .server .dispatch, .act .server .reply, .act .server .writerTop,
    .act .server .writerTake, .write .server .intact,
    .act .client .readerTop, .act .client .dispatch, .read .client 1, .act .client .readerTop,
    .act .client .dispatch, .act .client .graceOver]

theorem alive_of_corruptedOpen :
    ∃ s, Reaches (step fun _ _ => true) SparedStep (connect fun _ => 1) s ∧
      (s.ep .client).pongs = 1 ∧ (s.ep .server).badStreak = 0 ∧ (s.ep .client).dead = false := by
  have hrun : ∃ s, Reaches (step fun _ _ => true) SparedStep (connect fun _ => 1) s ∧
      decide ((s.ep .client).pongs = 1 ∧ (s.ep .server).badStreak = 0) = true :=
    reaches_of_exec sparedCheck corruptedOpen (fun _ _ => sparedStep_of_check) (by decide +kernel)
  obtain ⟨s, hs, hp⟩ := hrun
  obtain ⟨hpongs, hstreak⟩ := of_decide_eq_true hp
  exact ⟨s, hs, hpongs, hstreak, alive_of_spared hs .client⟩

/-- One round of the client whose PING is corrupted on the wire. -/
def corruptedPing : List NetAct :=
  [NetAct.act .client .keepaliveTop, .act .client .tick, .act .client (.ping default),
    .act .client .writerTop, .act .client .writerTake, .write .client .undecryptable,
    .act .server .readerTop, .act .server .dispatch, .read .server 1, .act .server .readerTop,
    .act .server .dispatch, .act .client .graceOver] ++
  List.replicate 6 (NetAct.act .client (.exit .keepalive))

/-- A single corrupted record kills a tunnel: the PING of a round. -/
theorem tolerated_corruption_kills :
    ∃ s, Reaches (step fun _ _ => true) TolerableStep (connect fun _ => 1) s ∧
      s.arrived .client = [.undecryptable] ∧ (s.ep .client).dead = true ∧
      (s.ep .client).cause = some .keepaliveTimeout := by
  have hrun : ∃ s, Reaches (step fun _ _ => true) TolerableStep (connect fun _ => 1) s ∧
      decide (s.arrived .client = [.undecryptable] ∧ (s.ep .client).dead = true ∧
        (s.ep .client).cause = some .keepaliveTimeout) = true :=
    reaches_of_exec tolerable corruptedPing (fun _ _ h => h) (by decide +kernel)
  obtain ⟨s, hs, hp⟩ := hrun
  exact ⟨s, hs, of_decide_eq_true hp⟩

end Net

end QeliSsPlugin
