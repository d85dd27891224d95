import QeliSsPlugin.Net.Keepalive

/-!
# Which PING a PONG answers

The keepalive compares counts and ignores the nonces, so a late PONG could stand in for a missing one. It
cannot, whatever the wire does: a round starts only when every PING sent so far has been answered.

To say which PING a PONG answers, the records carry the number of a PING with them (`Tags`): a PING its own,
a PONG that of the PING its sender was handling when it enqueued it. The tags are history: no step reads
them. The tags of the PONGs counted are among the tags of the PONGs sent and those of the PINGs handled
among those of the PINGs sent (`Carried`, kept by the wire), and the tags of the PONGs sent are among those
of the PINGs handled (`Answering`, kept by the readers), each time in order. With the counts of the rounds
(`Paced`) the tags counted are always the first ones (`Inv.counted`), and `keepalive_sound` follows.
-/

namespace QeliSsPlugin

open Lib.Runs Mux Carrier
open scoped List

namespace Net

/-! ### Tags -/

/-- The frames every side has sent and the records of it that arrived, each with its tag. -/
structure Tags where
  sent : Side → List (Frame × ℕ)
  arrived : Side → List (Outcome × ℕ)

/-- The frames of the good records, with their tags. -/
def goodTags (l : List (Outcome × ℕ)) : List (Frame × ℕ) :=
  l.filterMap fun q => q.1.frame?.map (·, q.2)

/-- The tags of the frames of a kind. -/
def tagsOf (p : Frame → Bool) (l : List (Frame × ℕ)) : List ℕ := (l.filter (p ·.1)).map Prod.snd

namespace Tags

def start : Tags := ⟨fun _ => [], fun _ => []⟩

/-- The records a side has handled, with their tags. -/
def handled (T : Tags) (s : Net) (x : Side) : List (Outcome × ℕ) :=
  (T.arrived x.peer).take (s.ep x).handled.length

/-- The tag of the record a side handled last. -/
def lastHandled (T : Tags) (s : Net) (x : Side) : ℕ := ((T.handled s x).map Prod.snd).getLastD 0

/-- **The tag of a frame that is enqueued**: the number of a PING; for a PONG the tag of the PING it
answers, which is the record handled last. -/
def tagOf (T : Tags) (s : Net) (x : Side) : Frame → ℕ
  | .ping _ => (s.ep x).sent.countP Frame.isPing
  | .pong _ => T.lastHandled s x
  | _ => 0

/-- The tag of the frame that is being written: the first of those enqueued and not written. -/
def writing (T : Tags) (s : Net) (x : Side) : ℕ :=
  ((T.sent x).map Prod.snd).getD ((s.ep x).sent.length - (s.ep x).queued.length) 0

/-- The tags after a step from `s` to `s'`. -/
def next (T : Tags) (s s' : Net) : Tags where
  sent x := T.sent x ++ ((s'.ep x).sent.drop (s.ep x).sent.length).map fun f => (f, T.tagOf s x f)
  arrived x :=
    T.arrived x ++ ((s'.arrived x).drop (s.arrived x).length).map fun o => (o, T.writing s x)

/-- **The PINGs whose PONG a side has counted**, by number. -/
def counted (T : Tags) (s : Net) (x : Side) : List ℕ :=
  tagsOf Frame.isPong (goodTags (T.handled s x))

/-- The tag of the PONG a side has still to enqueue, if there is one. -/
def owed (T : Tags) (s : Net) (x : Side) : List ℕ :=
  if (s.ep x).ponging then [T.lastHandled s x] else []

end Tags

/-- **A step of the pair, with the tags.** -/
def taggedStep (room : Side → ℕ → Bool) (q : Net × Tags) (a : NetAct) : Option (Net × Tags) :=
  (step room q.1 a).map fun s' => (s', q.2.next q.1 s')

theorem tagsOf_append (p : Frame → Bool) (l l' : List (Frame × ℕ)) :
    tagsOf p (l ++ l') = tagsOf p l ++ tagsOf p l' := by simp [tagsOf]

theorem tagsOf_sublist (p : Frame → Bool) {l l' : List (Frame × ℕ)} (h : l <+ l') :
    tagsOf p l <+ tagsOf p l' := (h.filter _).map _

theorem tagsOf_singleton (p : Frame → Bool) (f : Frame) (n : ℕ) :
    tagsOf p [(f, n)] = if p f then [n] else [] := by
  cases h : p f <;> simp [tagsOf, h]

theorem length_tagsOf (p : Frame → Bool) (l : List (Frame × ℕ)) :
    (tagsOf p l).length = (l.map Prod.fst).countP p := by
  rw [tagsOf, List.length_map, List.countP_map, List.countP_eq_length_filter]
  rfl

theorem goodTags_append (l l' : List (Outcome × ℕ)) :
    goodTags (l ++ l') = goodTags l ++ goodTags l' := by simp [goodTags]

theorem goodTags_sublist {l l' : List (Outcome × ℕ)} (h : l <+ l') : goodTags l <+ goodTags l' :=
  h.filterMap _

theorem map_goodTags (l : List (Outcome × ℕ)) :
    (goodTags l).map Prod.fst = goods (l.map Prod.fst) := by
  rw [goodTags, goods, List.map_filterMap, List.filterMap_map]
  congr 1
  funext q
  simp [Option.map_map, Function.comp_def]

/-- The tags of a kind of a record. -/
theorem tagsOf_goodTags_singleton (p : Frame → Bool) (o : Outcome) (n : ℕ) :
    tagsOf p (goodTags [(o, n)]) = if o.isA p then [n] else [] := by
  rcases o with f | _ | _
  · show tagsOf p [(f, n)] = _
    rw [tagsOf_singleton]
    rfl
  · rfl
  · rfl

/-! ### What the wire keeps -/

section Wire

variable {room : Side → ℕ → Bool} {pingSecs : Side → ℕ} {s s' : Net} {T : Tags} {a : NetAct} {x : Side}

theorem next_sent_of_eq (h : (s'.ep x).sent = (s.ep x).sent) : (T.next s s').sent x = T.sent x := by
  simp [Tags.next, h]

theorem next_sent_push {f : Frame} (h : (s'.ep x).sent = (s.ep x).sent ++ [f]) :
    (T.next s s').sent x = T.sent x ++ [(f, T.tagOf s x f)] := by
  simp [Tags.next, h]

theorem next_arrived {os : List Outcome} (h : s'.arrived x = s.arrived x ++ os) :
    (T.next s s').arrived x = T.arrived x ++ os.map fun o => (o, T.writing s x) := by
  simp [Tags.next, h]

theorem next_arrived_of_eq (h : s'.arrived x = s.arrived x) :
    (T.next s s').arrived x = T.arrived x := by
  simp [Tags.next, h]

/-- The tags of what a side sends. -/
structure Carried (s : Net) (T : Tags) (x : Side) : Prop where
  sent : (T.sent x).map Prod.fst = (s.ep x).sent
  arrived : (T.arrived x).map Prod.fst = s.arrived x
  queued : (s.ep x).writer ≠ .left → (s.ep x).queued <:+ (s.ep x).sent
  /-- What arrived was written. -/
  written : (s.ep x).writer ≠ .left →
    goodTags (T.arrived x) <+ (T.sent x).take ((s.ep x).sent.length - (s.ep x).queued.length)
  order : goodTags (T.arrived x) <+ T.sent x
  pings : tagsOf Frame.isPing (T.sent x) = List.range ((s.ep x).sent.countP Frame.isPing)

theorem carried_connect : Carried (connect pingSecs) .start x := by
  constructor <;>
    simp [connect, Tags.start, Endpoint.spawnTunnel, arrived, Endpoint.queued, goodTags, tagsOf]

/-- A frame is enqueued. -/
theorem Carried.push (hc : Carried s T x) {f : Frame} (harr : s'.arrived x = s.arrived x)
    (hqueued : (s'.ep x).queued = (s.ep x).queued ++ [f])
    (hsent : (s'.ep x).sent = (s.ep x).sent ++ [f]) (hwriter : (s'.ep x).writer = (s.ep x).writer) :
    Carried s' (T.next s s') x := by
  have hlen : (T.sent x).length = (s.ep x).sent.length := by rw [← hc.sent, List.length_map]
  refine ⟨?_, ?_, fun hw => ?_, fun hw => ?_, ?_, ?_⟩
  · rw [next_sent_push hsent, List.map_append, hc.sent, hsent]
    rfl
  · rw [next_arrived_of_eq harr, hc.arrived, harr]
  · obtain ⟨pre, hpre⟩ := hc.queued (hwriter ▸ hw)
    exact ⟨pre, by rw [hqueued, hsent, ← hpre, List.append_assoc]⟩
  · have hold := hc.written (hwriter ▸ hw)
    rw [next_arrived_of_eq harr, next_sent_push hsent, hqueued, hsent, List.length_append,
      List.length_append, Nat.add_sub_add_right, List.take_append_of_le_length (by omega)]
    exact hold
  · rw [next_arrived_of_eq harr, next_sent_push hsent]
    exact hc.order.trans (List.sublist_append_left _ _)
  · rw [next_sent_push hsent, tagsOf_append, tagsOf_singleton, hc.pings, hsent, List.countP_append]
    cases f with
    | ping nonce => exact (List.range_succ).symm
    | _ => simp [Frame.isPing]

/-- A record is written. -/
theorem Carried.write (hc : Carried s T x) {fate : Fate} {f : Frame}
    (hw : (s.ep x).writer = .writing f) (harr : s'.arrived x = s.arrived x ++ fate.arrives f)
    (hqueued : (s.ep x).queued = f :: (s'.ep x).queued) (hsent : (s'.ep x).sent = (s.ep x).sent) :
    Carried s' (T.next s s') x := by
  have hne : (s.ep x).writer ≠ .left := by simp [hw]
  obtain ⟨pre, hpre⟩ := hc.queued hne
  rw [hqueued] at hpre
  have hk : (s.ep x).sent.length - (s.ep x).queued.length = pre.length := by
    rw [← hpre, hqueued, List.length_append]
    omega
  have hk' : (s'.ep x).sent.length - (s'.ep x).queued.length = pre.length + 1 := by
    rw [hsent, ← hpre, List.length_append, List.length_cons]
    omega
  -- the frame being written, with its tag
  have hnext : (T.sent x)[pre.length]? = some (f, T.writing s x) := by
    have hf : ((T.sent x).map Prod.fst)[pre.length]? = some f := by
      rw [hc.sent, ← hpre]
      simp
    rw [List.getElem?_map, Option.map_eq_some_iff] at hf
    obtain ⟨q, hq, rfl⟩ := hf
    have htag : T.writing s x = q.2 := by
      simp [Tags.writing, hk, List.getD_eq_getElem?_getD, hq]
    rw [hq, htag]
  have htake : (T.sent x).take (pre.length + 1) =
      (T.sent x).take pre.length ++ [(f, T.writing s x)] := by
    rw [List.take_add_one, hnext]
    rfl
  have hgood : goodTags ((fate.arrives f).map fun o => (o, T.writing s x)) <+
      [(f, T.writing s x)] := by
    cases fate <;> simp [Fate.arrives, goodTags, Outcome.frame?]
  have hwritten : goodTags ((T.next s s').arrived x) <+ (T.sent x).take (pre.length + 1) := by
    rw [next_arrived harr, goodTags_append, htake]
    have hold := hc.written hne
    rw [hk] at hold
    exact hold.append hgood
  refine ⟨?_, ?_, fun _ => ?_, fun _ => ?_, ?_, ?_⟩
  · rw [next_sent_of_eq hsent, hc.sent, hsent]
  · rw [next_arrived harr, List.map_append, hc.arrived, harr, List.map_map]
    congr 1
    exact List.map_id' _
  · rw [hsent, ← hpre]
    exact ⟨pre ++ [f], by simp⟩
  · rw [next_sent_of_eq hsent, hk']
    exact hwritten
  · rw [next_sent_of_eq hsent]
    exact hwritten.trans (List.take_sublist _ _)
  · rw [next_sent_of_eq hsent, hsent]
    exact hc.pings

/-- Nothing is sent or written. -/
theorem Carried.keep (hc : Carried s T x) (harr : s'.arrived x = s.arrived x)
    (hsent : (s'.ep x).sent = (s.ep x).sent)
    (hqueued : (s'.ep x).writer ≠ .left →
      (s.ep x).writer ≠ .left ∧ (s'.ep x).queued = (s.ep x).queued) :
    Carried s' (T.next s s') x := by
  refine ⟨?_, ?_, fun hw => ?_, fun hw => ?_, ?_, ?_⟩
  · rw [next_sent_of_eq hsent, hc.sent, hsent]
  · rw [next_arrived_of_eq harr, hc.arrived, harr]
  · obtain ⟨hold, heq⟩ := hqueued hw
    rw [heq, hsent]
    exact hc.queued hold
  · obtain ⟨hold, heq⟩ := hqueued hw
    rw [next_arrived_of_eq harr, next_sent_of_eq hsent, heq, hsent]
    exact hc.written hold
  · rw [next_arrived_of_eq harr, next_sent_of_eq hsent]
    exact hc.order
  · rw [next_sent_of_eq hsent, hsent]
    exact hc.pings

theorem carried_step (hl : ∀ x, (s.ep x).Local) (hc : Carried s T x) (h : Step room s a s') :
    Carried s' (T.next s s') x := by
  rcases flow_step hl h x with ⟨harr, hqueued, hsent, hleft⟩ | ⟨harr, hqueued, hsent, hwriter⟩ |
    ⟨harr, -, hsent, hleft⟩ | ⟨-, hw, harr, hqueued, hsent⟩
  · exact hc.keep harr hsent fun hw => ⟨fun hl => hw (hleft.mpr hl), hqueued⟩
  · exact hc.push harr hqueued hsent hwriter
  · exact hc.keep harr hsent fun hw => absurd hleft hw
  · exact hc.write hw harr hqueued hsent

/-! ### What the readers keep -/

theorem handled_le_arrived (s : Net) (x : Side) :
    (s.ep x).handled.length ≤ (s.arrived x.peer).length := by
  simp only [arrived, Side.peer_peer, List.length_append]
  omega

theorem Carried.map_handled (hc : Carried s T x.peer) :
    (T.handled s x).map Prod.fst = (s.ep x).handled := by
  rw [Tags.handled, List.map_take, hc.arrived]
  simp [Net.arrived]

theorem handled_sublist (T : Tags) (s : Net) (x : Side) : T.handled s x <+ T.arrived x.peer :=
  List.take_sublist _ _

/-- The records handled so far keep their tags. -/
theorem take_next (hc : Carried s T x.peer) :
    ((T.next s s').arrived x.peer).take (s.ep x).handled.length = T.handled s x := by
  have hlen : (T.arrived x.peer).length = (s.arrived x.peer).length := by
    rw [← hc.arrived, List.length_map]
  have hle := handled_le_arrived s x
  exact List.take_append_of_le_length (by omega)

theorem handled_next_of_eq (hc : Carried s T x.peer) (h : (s'.ep x).handled = (s.ep x).handled) :
    (T.next s s').handled s' x = T.handled s x := by
  rw [Tags.handled, h]
  exact take_next hc

theorem handled_next_concat (hc : Carried s T x.peer) (hc' : Carried s' (T.next s s') x.peer)
    {o : Outcome} (h : (s'.ep x).handled = (s.ep x).handled ++ [o]) :
    ∃ t, (T.next s s').handled s' x = T.handled s x ++ [(o, t)] := by
  have ho : (((T.next s s').arrived x.peer).map Prod.fst)[(s.ep x).handled.length]? = some o := by
    rw [hc'.arrived]
    simp [arrived, h]
  rw [List.getElem?_map, Option.map_eq_some_iff] at ho
  obtain ⟨⟨o', t⟩, hq, rfl⟩ := ho
  refine ⟨t, ?_⟩
  rw [Tags.handled, h, List.length_append, List.length_singleton, List.take_add_one, hq,
    take_next hc]
  rfl

theorem lastHandled_of_concat {l : List (Outcome × ℕ)} {o : Outcome} {t : ℕ}
    (h : T.handled s x = l ++ [(o, t)]) : T.lastHandled s x = t := by
  simp [Tags.lastHandled, h, List.getLastD_eq_getLast?]

/-- **Every PONG answers a PING that was handled**, and no two the same one. -/
def Answering (s : Net) (T : Tags) (x : Side) : Prop :=
  tagsOf Frame.isPong (T.sent x) ++ T.owed s x <+ tagsOf Frame.isPing (goodTags (T.handled s x))

theorem owed_of_not_ponging (h : (s.ep x).ponging = false) : T.owed s x = [] := by
  simp [Tags.owed, h]

theorem owed_of_ponging (h : (s.ep x).ponging = true) : T.owed s x = [T.lastHandled s x] := by
  simp [Tags.owed, h]

theorem answering_connect : Answering (connect pingSecs) .start x := by
  simp [Answering, Tags.start, Tags.owed, connect, Endpoint.ponging, Endpoint.spawnTunnel, tagsOf]

theorem answering_step (hc : Carried s T x.peer) (hc' : Carried s' (T.next s s') x.peer)
    (ha : Answering s T x) (h : (s.ep x).PongStep (s'.ep x)) : Answering s' (T.next s s') x := by
  unfold Answering at ha ⊢
  cases h with
  | other hhandled _ _ _ hsent hponging =>
    have hh := handled_next_of_eq hc hhandled
    have hpongs : tagsOf Frame.isPong ((T.next s s').sent x) = tagsOf Frame.isPong (T.sent x) := by
      rcases hsent with hsent | ⟨f, hf, hsent⟩
      · rw [next_sent_of_eq hsent]
      · rw [next_sent_push hsent, tagsOf_append, tagsOf_singleton, hf]
        simp
    rw [hh, hpongs]
    rcases hponging with hponging | ⟨-, hno⟩
    · have howed : (T.next s s').owed s' x = T.owed s x := by
        rw [Tags.owed, Tags.owed, hponging, Tags.lastHandled, Tags.lastHandled, hh]
      rw [howed]
      exact ha
    · rw [owed_of_not_ponging hno, List.append_nil]
      exact (List.sublist_append_left _ _).trans ha
  | handled ho hno hno' hhandled _ _ _ hsent =>
    obtain ⟨t, hh⟩ := handled_next_concat hc hc' hhandled
    rw [owed_of_not_ponging hno] at ha
    rw [owed_of_not_ponging hno', next_sent_of_eq hsent, hh, goodTags_append, tagsOf_append,
      tagsOf_goodTags_singleton, ho]
    simpa using ha
  | @ping nonce hno hyes hhandled _ _ _ hsent =>
    obtain ⟨t, hh⟩ := handled_next_concat hc hc' hhandled
    rw [owed_of_not_ponging hno, List.append_nil] at ha
    rw [owed_of_ponging hyes, lastHandled_of_concat hh, next_sent_of_eq hsent, hh, goodTags_append,
      tagsOf_append, tagsOf_goodTags_singleton]
    exact ha.append_right [t]
  | reply hyes hno hhandled _ _ _ hsent =>
    have hh := handled_next_of_eq hc hhandled
    rw [owed_of_ponging hyes] at ha
    rw [owed_of_not_ponging hno, List.append_nil, next_sent_push hsent, tagsOf_append,
      tagsOf_singleton, hh]
    exact ha

/-- The PONGs counted answer PINGs sent, in the order sent. -/
theorem counted_sublist (hc : ∀ x, Carried s T x) (ha : ∀ x, Answering s T x) (x : Side) :
    T.counted s x <+ List.range ((s.ep x).sent.countP Frame.isPing) := by
  have h1 : T.counted s x <+ tagsOf Frame.isPong (T.sent x.peer) :=
    tagsOf_sublist _ ((goodTags_sublist (handled_sublist T s x)).trans (hc x.peer).order)
  have h2 : tagsOf Frame.isPong (T.sent x.peer) <+
      tagsOf Frame.isPing (goodTags (T.handled s x.peer)) :=
    (List.sublist_append_left _ _).trans (ha x.peer)
  have h3 : tagsOf Frame.isPing (goodTags (T.handled s x.peer)) <+
      tagsOf Frame.isPing (T.sent x) := by
    have hsub := handled_sublist T s x.peer
    rw [Side.peer_peer] at hsub
    exact tagsOf_sublist _ ((goodTags_sublist hsub).trans (hc x).order)
  rw [← (hc x).pings]
  exact h1.trans (h2.trans h3)

theorem length_counted (hc : Carried s T x.peer) (ha : (s.ep x).Answers) :
    (T.counted s x).length = (s.ep x).pongs := by
  rw [Tags.counted, length_tagsOf, map_goodTags, hc.map_handled, ha.pongs]

end Wire

end Net

/-! ### The rounds -/

namespace Carrier.Endpoint

variable {e e' : Endpoint} {a : Act}

/-- **The pace of the rounds**: between two rounds every PING has been counted as a PONG, and a round
sends one. -/
structure Paced (e : Endpoint) : Prop where
  le : e.sent.countP Frame.isPing ≤ e.pongs + 1
  resting : e.keepalive = .top ∨ e.keepalive = .select → e.sent.countP Frame.isPing = e.pongs
  pinging : ∀ b, e.keepalive = .pinging b → e.sent.countP Frame.isPing = b ∧ e.pongs = b
  grace : ∀ b, e.keepalive = .grace b → e.sent.countP Frame.isPing = b + 1 ∧ b ≤ e.pongs

/-- At the start of a round the PINGs sent are those of the rounds before, and all are counted. -/
theorem Paced.starting (hi : Paced e) (h : e.keepalive = .select ∨ ∃ b, e.keepalive = .pinging b) :
    e.sent.countP Frame.isPing = e.pongs := by
  rcases h with h | ⟨b, h⟩
  · exact hi.resting (.inr h)
  · have := hi.pinging b h
    omega

theorem paced_spawnTunnel (side : Side) (pingSecs : ℕ) : Paced (spawnTunnel side pingSecs) := by
  refine ⟨Nat.zero_le _, fun _ => rfl, fun b hb => ?_, fun b hb => ?_⟩
  all_goals
    simp only [spawnTunnel] at hb
    split_ifs at hb

/-- A step that leaves the keepalive alone and sends no PING. -/
theorem Paced.frame (hi : Paced e) (hk : e'.keepalive = e.keepalive)
    (hn : e'.sent.countP Frame.isPing = e.sent.countP Frame.isPing) (hp : e.pongs ≤ e'.pongs)
    (hle : e'.pongs ≤ e'.sent.countP Frame.isPing) : Paced e' := by
  refine ⟨?_, fun h => ?_, fun b h => ?_, fun b h => ?_⟩
  · have := hi.le
    omega
  · have := hi.resting (hk ▸ h)
    omega
  · have := hi.pinging b (hk ▸ h)
    omega
  · have := hi.grace b (hk ▸ h)
    omega

theorem paced_step (hr : Replies e) (hi : Paced e) (h : e.Step a e')
    (hle : e'.pongs ≤ e'.sent.countP Frame.isPing) : Paced e' := by
  cases h with
  | @post _ k p f hp =>
    refine hi.frame rfl ?_ le_rfl hle
    generalize (e.inst k).phase = q at hp
    cases hp <;> simp [List.countP_append, Frame.isPing]
  | upSend => exact hi.frame rfl (by simp [List.countP_append, Frame.isPing]) le_rfl hle
  | @reply _ f hf =>
    refine hi.frame rfl ?_ le_rfl hle
    rcases hr.about (hf.imp And.right And.right) with ⟨id, p, rfl, -⟩ | ⟨nonce, rfl, -⟩ <;>
      simp [List.countP_append, Frame.isPing]
  | handlePong => exact hi.frame rfl rfl (Nat.le_succ _) hle
  | beat hb =>
    have hlast := hi.le
    have hrest := hi.resting
    have hgrace := hi.grace
    generalize e.keepalive = ka at hb hrest hgrace
    cases hb with
    | topDead | pingClosed | selectDead | graceDead =>
      exact ⟨hlast, by simp, by simp, by simp⟩
    | top => exact ⟨hlast, fun _ => hrest (.inl rfl), by simp, by simp⟩
    | tick =>
      have heq := hrest (.inr rfl)
      refine ⟨hlast, by simp, fun b hb => ?_, by simp⟩
      obtain rfl : e.pongs = b := by simpa using hb
      exact ⟨heq, rfl⟩
    | @graceOver b hlt =>
      have heq := (hgrace b rfl).1
      have hle : e.pongs ≤ e.sent.countP Frame.isPing := hle
      refine ⟨hlast, fun _ => ?_, by simp, by simp⟩
      show e.sent.countP Frame.isPing = e.pongs
      omega
  | @ping nonce before hk =>
    obtain ⟨hn, hp⟩ := hi.pinging before hk
    have hn' : (e.sent ++ [Frame.ping nonce]).countP Frame.isPing = before + 1 := by
      rw [List.countP_append, hn]
      rfl
    refine ⟨?_, by simp, by simp, fun b hb => ?_⟩
    · show (e.sent ++ [Frame.ping nonce]).countP Frame.isPing ≤ e.pongs + 1
      omega
    · obtain rfl : before = b := by simpa using hb
      exact ⟨hn', hp.ge⟩
  | graceLost => exact ⟨hi.le, by simp, by simp, by simp⟩
  | _ => exact hi.frame rfl rfl le_rfl hle

end Carrier.Endpoint

namespace Net

variable {room : Side → ℕ → Bool} {pingSecs : Side → ℕ} {s s' : Net} {T : Tags} {a : NetAct}

/-- What holds in every run, whatever the wire does. -/
structure Inv (s : Net) (T : Tags) : Prop where
  base : Base s
  carried : ∀ x, Carried s T x
  answering : ∀ x, Answering s T x
  answers : ∀ x, (s.ep x).Answers
  paced : ∀ x, (s.ep x).Paced
  /-- The PONGs counted answer the first PINGs. -/
  counted : ∀ x, T.counted s x = List.range (s.ep x).pongs

theorem inv_connect : Inv (connect pingSecs) .start :=
  ⟨base_connect pingSecs, fun _ => carried_connect, fun _ => answering_connect,
    fun x => Endpoint.answers_spawnTunnel x _, fun x => Endpoint.paced_spawnTunnel x _, fun _ => rfl⟩

/-- A list of numbers below `n`, in order, that has `n` of them. -/
theorem eq_range_of_sublist {l : List ℕ} {n : ℕ} (h : l <+ List.range n) (hlen : n ≤ l.length) :
    l = List.range l.length := by
  have heq : l = List.range n := h.eq_of_length_le (by rw [List.length_range]; exact hlen)
  rw [heq, List.length_range]

/-- What a step of the pair does to the PONGs of a side. -/
theorem Step.pongStep (hb : Base s) (h : Step room s a s') (x : Side) :
    (s.ep x).PongStep (s'.ep x) := by
  rcases h.endpoint x with heq | ⟨b, hs, -⟩
  · rw [heq]
    exact .other rfl rfl rfl id (.inl rfl) (.inl rfl)
  · exact Endpoint.pongStep (hb.endpoint x).replies hs

theorem inv_step (hi : Inv s T) (h : Step room s a s') : Inv s' (T.next s s') := by
  have hcarried : ∀ x, Carried s' (T.next s s') x := fun x =>
    carried_step hi.base.endpoint (hi.carried x) h
  have hanswering : ∀ x, Answering s' (T.next s s') x := fun x =>
    answering_step (hi.carried x.peer) (hcarried x.peer) (hi.answering x) (h.pongStep hi.base x)
  have hanswers : ∀ x, (s'.ep x).Answers := fun x =>
    Endpoint.answers_step (hi.answers x) (h.pongStep hi.base x)
  have hsub : ∀ x, (T.next s s').counted s' x <+
      List.range ((s'.ep x).sent.countP Frame.isPing) := counted_sublist hcarried hanswering
  have hlen : ∀ x, ((T.next s s').counted s' x).length = (s'.ep x).pongs := fun x =>
    length_counted (hcarried x.peer) (hanswers x)
  have hle : ∀ x, (s'.ep x).pongs ≤ (s'.ep x).sent.countP Frame.isPing := by
    intro x
    have := (hsub x).length_le
    rwa [hlen, List.length_range] at this
  refine ⟨base_step hi.base h, hcarried, hanswering, hanswers, fun x => ?_, fun x => ?_⟩
  · rcases h.endpoint x with heq | ⟨b, hs, -⟩
    · rw [heq]
      exact hi.paced x
    · exact Endpoint.paced_step (hi.base.endpoint x).replies (hi.paced x) hs (hle x)
  · have hold := hi.counted x
    have hkeep : (T.next s s').handled s' x = T.handled s x → (s'.ep x).pongs = (s.ep x).pongs →
        (T.next s s').counted s' x = List.range (s'.ep x).pongs := by
      intro hh hp
      rw [Tags.counted, hh, hp]
      exact hold
    cases h.pongStep hi.base x with
    | other hhandled hp => exact hkeep (handled_next_of_eq (hi.carried x.peer) hhandled) hp
    | reply _ _ hhandled _ hp => exact hkeep (handled_next_of_eq (hi.carried x.peer) hhandled) hp
    | ping _ _ hhandled _ hp =>
      obtain ⟨t, hh⟩ := handled_next_concat (hi.carried x.peer) (hcarried x.peer) hhandled
      rw [Tags.counted, hh, goodTags_append, tagsOf_append, tagsOf_goodTags_singleton, hp, ← hold]
      exact List.append_nil _
    | @handled o _ _ _ hhandled _ hp _ hsent =>
      obtain ⟨t, hh⟩ := handled_next_concat (hi.carried x.peer) (hcarried x.peer) hhandled
      by_cases hpong : o.isA Frame.isPong = true
      · -- the PONG of the last PING: there is no other left
        have hmax := (hi.paced x).le
        rw [hpong] at hp
        have hrange := eq_range_of_sublist (hsub x) (by rw [hlen, hsent, hp]; exact hmax)
        rwa [hlen] at hrange
      · have hno : o.isA Frame.isPong = false := by simpa using hpong
        rw [Tags.counted, hh, goodTags_append, tagsOf_append, tagsOf_goodTags_singleton, hno, hp, hno,
          Bool.toNat_false, Nat.add_zero, ← hold]
        exact List.append_nil _

theorem inv_reachable (h : Reachable (taggedStep room) (connect pingSecs, .start) (s, T)) :
    Inv s T := by
  refine h.invariant (I := fun q => Inv q.1 q.2) inv_connect ?_
  rintro ⟨s, T⟩ ⟨s', T'⟩ a hi - hs
  simp only [taggedStep, Option.map_eq_some_iff, Prod.mk.injEq] at hs
  obtain ⟨s'', hs, rfl, rfl⟩ := hs
  exact inv_step hi (.of_step hs)

/-- The tags restrict nothing: every run of the pair is a run with tags. -/
theorem tagged_of_reachable (h : Reachable (step room) (connect pingSecs) s) :
    ∃ T, Reachable (taggedStep room) (connect pingSecs, .start) (s, T) := by
  induction h with
  | refl => exact ⟨.start, .refl⟩
  | @tail s s' a _ _ hs ih =>
    obtain ⟨T, hT⟩ := ih
    exact ⟨T.next s s', .tail (a := a) hT trivial (by simp [taggedStep, hs])⟩

/-- **What is under way is not counted**: the PONGs counted, those on their way or owed, and the PINGs on
their way are at most the PINGs sent. -/
theorem Inv.outstanding_le (hi : Inv s T) (x : Side) :
    (s.ep x).pongs + (s.underway x.peer).countP Frame.isPong + (s.ep x.peer).ponging.toNat +
      (s.underway x).countP Frame.isPing ≤ (s.ep x).sent.countP Frame.isPing := by
  -- what arrived and what is queued, of one kind, is at most what was sent
  have hflow : ∀ (y : Side) (p : Frame → Bool),
      (goods (s.ep y.peer).handled).countP p + (s.underway y).countP p ≤ (s.ep y).sent.countP p := by
    intro y p
    have hle := List.Sublist.countP_le (p := p) (hi.base.order y)
    simpa only [arrived, underway, goods_append, List.countP_append, Nat.add_assoc] using hle
  have hpong := hflow x.peer Frame.isPong
  have hping := hflow x Frame.isPing
  have hcounted := (hi.answers x).pongs
  have howed := (hi.answering x.peer).length_le
  rw [List.length_append, length_tagsOf, length_tagsOf, (hi.carried x.peer).sent, map_goodTags,
    Carried.map_handled (by rw [Side.peer_peer]; exact hi.carried x)] at howed
  have hlen : (T.owed s x.peer).length = (s.ep x.peer).ponging.toNat := by
    cases hp : (s.ep x.peer).ponging <;> simp [Tags.owed, hp]
  rw [Side.peer_peer] at hpong
  omega

/-- When every PING sent has been counted as a PONG, nothing is under way. -/
theorem Inv.roundOver (hi : Inv s T) {x : Side}
    (heq : (s.ep x).sent.countP Frame.isPing = (s.ep x).pongs) : s.roundOver x = true := by
  have hout := hi.outstanding_le x
  have hponging : (s.ep x.peer).ponging = false := by
    cases hp : (s.ep x.peer).ponging with
    | false => rfl
    | true =>
      rw [hp, Bool.toNat_true] at hout
      omega
  have hping : (s.underway x).countP Frame.isPing = 0 := by omega
  have hpong : (s.underway x.peer).countP Frame.isPong = 0 := by omega
  rw [List.countP_eq_zero] at hping hpong
  simp only [Net.roundOver, hponging, Bool.not_false, Bool.and_true, Bool.and_eq_true,
    List.all_eq_true, Bool.not_eq_true']
  exact ⟨fun f hf => by simpa using hping f hf, fun f hf => by simpa using hpong f hf⟩

/-- **Counting is sound without nonces.** Whatever the wire drops or damages: from the start of a round to
its PING, the PONGs counted, which the round samples, are as many as the PINGs sent in the rounds before,
and no PING or PONG is under way; at any time the PONGs counted answer the first PINGs, one each; and a
round, whose PING is number `before`, passes if and only if the PONG answering this PING was counted before
its grace ended. -/
theorem keepalive_sound (h : Reachable (taggedStep room) (connect pingSecs, .start) (s, T)) (x : Side) :
    ((s.ep x).keepalive = .select ∨ (∃ before, (s.ep x).keepalive = .pinging before) →
      (s.ep x).pongs = (s.ep x).sent.countP Frame.isPing ∧ s.roundOver x = true) ∧
    (∀ before, (s.ep x).keepalive = .pinging before → before = (s.ep x).pongs) ∧
    T.counted s x = List.range (s.ep x).pongs ∧
    ∀ before, (s.ep x).keepalive = .grace before →
      tagsOf Frame.isPing (T.sent x) = List.range before ++ [before] ∧
      ((∃ s', step room s (.act x .graceOver) = some s' ∧ (s'.ep x).keepalive = .top) ↔
        before ∈ T.counted s x) := by
  have hi := inv_reachable h
  refine ⟨fun hk => ?_, fun before hk => ((hi.paced x).pinging before hk).2.symm, hi.counted x,
    fun before hk => ⟨?_, ?_⟩⟩
  · have heq := (hi.paced x).starting hk
    exact ⟨heq.symm, hi.roundOver heq⟩
  · rw [(hi.carried x).pings, ((hi.paced x).grace before hk).1, List.range_succ]
  · rw [hi.counted x, List.mem_range]
    have hstep : (s.ep x).step .graceOver = if (s.ep x).pongs ≤ before then
        some { (s.ep x).setExit .keepalive (.logCheck .keepaliveTimeout) with keepalive := .left }
        else some { s.ep x with keepalive := .top } := by
      simp only [Endpoint.step, hk]
    simp only [step, Act.isWire, Bool.false_eq_true, if_false, hstep]
    by_cases hle : (s.ep x).pongs ≤ before
    · rw [if_pos hle]
      refine iff_of_false ?_ (by omega)
      rintro ⟨s', hs, hkeep⟩
      simp only [Option.map_some, Option.some.injEq] at hs
      subst hs
      simp at hkeep
    · rw [if_neg hle]
      exact iff_of_true ⟨_, rfl, by simp⟩ (by omega)

/-- Two rounds of the client: the PONG of the first is counted and its grace ends, and the PING of the
second is dropped. -/
def droppedSecond : List NetAct :=
  [NetAct.act .client .keepaliveTop, .act .client .tick, .act .client (.ping default),
    .act .client .writerTop, .act .client .writerTake, .write .client .intact,
    .act .server .readerTop, .act .server .dispatch, .read .server 1, .act .server .readerTop,
    .act .server .dispatch, .act .server .reply, .act .server .writerTop, .act .server .writerTake,
    .write .server .intact,
    .act .client .readerTop, .act .client .dispatch, .read .client 1, .act .client .readerTop,
    .act .client .dispatch, .act .client .graceOver, .act .client .keepaliveTop, .act .client .tick,
    .act .client (.ping default), .act .client .writerTop, .act .client .writerTake,
    .write .client .lost]

/-- The PONG of the first round does not stand in for that of the second. -/
theorem keepalive_sound_droppedSecond :
    ∃ s T, Reachable (taggedStep fun _ _ => true) (connect fun _ => 1, .start) (s, T) ∧
      (s.ep .client).keepalive = .grace 1 ∧ T.counted s .client = [0] ∧
      ¬∃ s', step (fun _ _ => true) s (.act .client .graceOver) = some s' ∧
        (s'.ep .client).keepalive = .top := by
  have hrun : ∃ q, Reachable (taggedStep fun _ _ => true) (connect fun _ => 1, .start) q ∧
      decide ((q.1.ep .client).keepalive = .grace 1 ∧ (q.1.ep .client).pongs = 1) = true :=
    reaches_of_exec (fun _ _ => true) droppedSecond (fun _ _ _ => trivial) (by decide +kernel)
  obtain ⟨⟨s, T⟩, hs, hp⟩ := hrun
  obtain ⟨hk, hpongs⟩ : (s.ep .client).keepalive = .grace 1 ∧ (s.ep .client).pongs = 1 :=
    of_decide_eq_true hp
  obtain ⟨-, -, hcounted, hround⟩ := keepalive_sound hs .client
  rw [hpongs] at hcounted
  refine ⟨s, T, hs, hk, hcounted, fun hpass => ?_⟩
  have hmem := (hround 1 hk).2.mp hpass
  rw [hcounted] at hmem
  exact absurd hmem (by decide)

end Net

end QeliSsPlugin
