import QeliSsPlugin.Carrier.Streams

/-!
# What an endpoint has sent and handled

The history of one endpoint, whatever its peer does: `sent` is everything enqueued, `handled` every
record dispatched.

* `Inbox`: what a pump received of its stream is a sublist of the DATA handled for it.
* `Outbox`: what a pump enqueued is the DATA sent for its stream, if ids are not reused.
* `Announced`: the client sends one OPEN for each stream, before its DATA; the server sends none.
* `Numbered`: the server has one instance for each OPEN handled, the client numbers its own.
* `Replies`: the reader echoes a CLOSE only for DATA it has handled.
* `Closed`: CLOSE is final, as long as the reader echoes it only for streams whose uplink has ended.
-/

namespace QeliSsPlugin.Carrier

open QeliSsPlugin.Lib.Runs QeliSsPlugin.Mux
open scoped List

/-- What the reader is busy with, given the frames it has handled. -/
def Reader.About (hs : List Frame) : Reader → Prop
  | .delivering _ id p => .data id p ∈ hs
  | .stalled _ id => ∃ p, .data id p ∈ hs
  | .replying f | .waiting f =>
    (∃ id p, f = .close id ∧ .data id p ∈ hs) ∨ ∃ nonce, f = .pong nonce ∧ .ping nonce ∈ hs
  | _ => True

/-- Whether the task has sent its OPEN, on the client, and may send DATA. -/
def Phase.isAnnounced : Phase → Bool
  | .opened | .pump _ _ => true
  | _ => false

/-- The chunks of the last local read still to be sent. -/
def Up.pending : Up → List Bytes
  | .sending rest => rest
  | _ => []

def Phase.pending : Phase → List Bytes
  | .pump up _ => up.pending
  | _ => []

namespace Endpoint

variable {e e' : Endpoint} {a : Act} {side : Side} {pingSecs : ℕ} {k : ℕ}

/-! ### What a step adds to the history -/

/-- The frame a step enqueues, by the task that enqueues it. -/
inductive Sends (e : Endpoint) : Act → Frame → Prop
  | open {j} : (e.inst j).phase = .registered → Sends e (.open j) (.open (e.inst j).id)
  | chunk {j c rest down} : (e.inst j).phase = .pump (.sending (c :: rest)) down →
      Sends e (.upSend j) (.data (e.inst j).id c)
  | refuse {j} : ((e.inst j).phase = .refusing ∨ (e.inst j).phase = .rejecting) →
      Sends e (.refuse j) (.close (e.inst j).id)
  | upClose {j down} : (e.inst j).phase = .pump .closing down →
      Sends e (.upClose j) (.close (e.inst j).id)
  | reply {b f} : (b = .reply ∧ e.reader = .replying f ∨ b = .resume ∧ e.reader = .waiting f) →
      Sends e b f
  | ping {nonce before} : e.keepalive = .pinging before → Sends e (.ping nonce) (.ping nonce)

theorem step_sent (h : e.Step a e') :
    e'.sent = e.sent ∨ ∃ f, Sends e a f ∧ e'.sent = e.sent ++ [f] := by
  cases h with
  | @post _ k p f hp =>
    refine .inr ⟨f, ?_, rfl⟩
    generalize hq : (e.inst k).phase = q at hp
    rcases hp with _ | _ | _ | _
    · exact .open hq
    · exact .refuse (.inl hq)
    · exact .refuse (.inr hq)
    · exact .upClose hq
  | upSend hp => exact .inr ⟨_, .chunk hp, rfl⟩
  | reply hr => exact .inr ⟨_, .reply hr, rfl⟩
  | ping hk => exact .inr ⟨_, .ping hk, rfl⟩
  | _ => exact .inl rfl

theorem step_handled (h : e.Step a e') :
    e'.handled = e.handled ∨ ∃ o rest, a = .dispatch ∧ e.reader = .drain ∧
      e.records = o :: rest ∧ e'.records = rest ∧ e'.handled = e.handled ++ [o] := by
  cases h with
  | handleKill hr hrec | handleBad hr hrec | handleOpen hr hrec | handleData hr hrec
  | handleUnknown hr hrec | handleClose hr hrec | handlePing hr hrec | handlePong hr hrec =>
    exact .inr ⟨_, _, rfl, hr, hrec, rfl, rfl⟩
  | _ => exact .inl rfl

/-- The records received are handled or still buffered; only a read adds to them. -/
theorem step_received (h : e.Step a e') :
    e'.handled ++ e'.records = e.handled ++ e.records ∨
      ∃ rs, a = .readerRead rs ∧ e'.handled ++ e'.records = e.handled ++ e.records ++ rs := by
  cases h with
  | @readerRead rs => exact .inr ⟨rs, rfl, (List.append_assoc _ _ _).symm⟩
  | handleKill _ hrec | handleBad _ hrec | handleOpen _ hrec | handleData _ hrec
  | handleUnknown _ hrec | handleClose _ hrec | handlePing _ hrec | handlePong _ hrec =>
    exact .inl (by simp [hrec])
  | _ => exact .inl rfl

theorem sublist_handled (h : e.Step a e') : e.handled <+ e'.handled := by
  rcases step_handled h with hh | ⟨o, rest, -, -, -, -, hh⟩ <;> rw [hh]
  exact List.sublist_append_left _ _

theorem goods_handled_subset (h : e.Step a e') : goods e.handled ⊆ goods e'.handled :=
  ((sublist_handled h).filterMap _).subset

theorem sent_subset (h : e.Step a e') : e.sent ⊆ e'.sent := by
  rcases step_sent h with hs | ⟨f, -, hs⟩ <;> rw [hs]
  · exact List.Subset.refl _
  · exact List.subset_append_left _ _

/-! ### What a pump receives -/

/-- What a stream's channel took in: received, buffered, and on its way in. -/
def intake (e : Endpoint) (k : ℕ) : List Bytes :=
  (e.inst k).received ++ (e.inst k).inbound ++ e.inDelivery k

theorem inDelivery_eq_nil (h : ∀ id p, e.reader ≠ .delivering k id p) : e.inDelivery k = [] := by
  unfold inDelivery
  split
  · next j id p hr =>
    split_ifs with hj
    · subst hj; exact absurd hr (h _ _)
    · rfl
  · rfl

/-- What a step does to the intake of an instance: nothing; a chunk handled and on its way in; a
chunk on its way in lost; or a chunk of its stream handled that goes elsewhere. -/
inductive IntakeStep (e : Endpoint) (a : Act) (e' : Endpoint) (k : ℕ) : Prop
  | same : e'.intake k = e.intake k →
      dataOf (e.inst k).id (goods e'.handled) = dataOf (e.inst k).id (goods e.handled) →
      IntakeStep e a e' k
  | add {p} : e'.intake k = e.intake k ++ [p] →
      dataOf (e.inst k).id (goods e'.handled) = dataOf (e.inst k).id (goods e.handled) ++ [p] →
      IntakeStep e a e' k
  | lost {p} : e.intake k = e'.intake k ++ [p] → (a = .stall ∨ a = .undeliverable) →
      e'.handled = e.handled → IntakeStep e a e' k
  | elsewhere {p rest} : e'.intake k = e.intake k → e.reader = .drain →
      e.records = .good (.data (e.inst k).id p) :: rest → e.streams (e.inst k).id ≠ some k →
      dataOf (e.inst k).id (goods e'.handled) = dataOf (e.inst k).id (goods e.handled) ++ [p] →
      IntakeStep e a e' k

theorem dataOf_concat_other {id : UInt32} {os : List Outcome} {o : Outcome}
    (h : ∀ p, o ≠ .good (.data id p)) :
    dataOf id (goods (os ++ [o])) = dataOf id (goods os) := by
  rw [goods_append, dataOf_append]
  rcases o with f | _ | _
  · rcases f with _ | ⟨id', p⟩ | _ | _ | _ <;> simp [goods, Outcome.frame?, dataOf]
    rintro rfl; exact h p rfl
  · simp [goods, Outcome.frame?, dataOf]
  · simp [goods, Outcome.frame?, dataOf]

theorem dataOf_concat {id : UInt32} {os : List Outcome} {p : Bytes} :
    dataOf id (goods (os ++ [.good (.data id p)])) = dataOf id (goods os) ++ [p] := by
  rw [goods_append, dataOf_append]
  simp [goods, Outcome.frame?, dataOf]

/-- A change of an instance that leaves its channel alone. -/
theorem intake_update {s : Stream} {j : ℕ} (hinst : e'.inst = Function.update e.inst j s)
    (hr : e'.reader = e.reader)
    (hs : s.received ++ s.inbound = (e.inst j).received ++ (e.inst j).inbound) :
    e'.intake k = e.intake k := by
  have hd : e'.inDelivery k = e.inDelivery k := by simp only [inDelivery, hr]
  unfold intake
  rw [hd, hinst, Function.update_apply]
  split_ifs with hj
  · subst hj; rw [hs]
  · rfl

theorem intake_reader (hinst : e'.inst = e.inst) (hr : e.inDelivery k = [])
    (hr' : e'.inDelivery k = []) : e'.intake k = e.intake k := by
  unfold intake
  rw [hr, hr', hinst]

theorem step_intake (hi : Instances e) (h : e.Step a e') (hk : k < e.n) :
    IntakeStep e a e' k := by
  have hdrain : ∀ {r}, e.reader = r → (∀ j id p, r ≠ .delivering j id p) →
      e.inDelivery k = [] := fun hr hne => inDelivery_eq_nil (fun id p => hr ▸ hne k id p)
  cases h with
  | accept =>
    refine .same ?_ rfl
    unfold intake
    simp [Function.update_of_ne (show k ≠ e.n by omega), inDelivery]
  | register | move | unregister | post | upRead | upSend =>
    exact .same (intake_update rfl rfl rfl) rfl
  | downRecv hp hin => exact .same (intake_update rfl rfl (by simp [hin])) rfl
  | @goto _ r hg =>
    have hnil : ({ e with reader := r } : Endpoint).inDelivery k = [] := by
      refine inDelivery_eq_nil fun id p hr => ?_
      simp only at hr
      subst hr
      generalize e.reader = r' at hg
      cases hg
    by_cases hd : ∃ id p, e.reader = .delivering k id p
    · obtain ⟨id, p, hd⟩ := hd
      have hin : e.inDelivery k = [p] := by simp [inDelivery, hd]
      refine .lost (p := p) ?_ ?_ rfl
      · unfold intake; rw [hin, hnil, List.append_nil]
      · rw [hd] at hg
        rcases hg with _ | _ | _ | _
        · exact .inr rfl
        · exact .inl rfl
    · push Not at hd
      exact .same (intake_reader rfl (inDelivery_eq_nil hd) hnil) rfl
  | readerExit hx =>
    have hne : ∀ id p, e.reader ≠ .delivering k id p := by
      intro id p hr; rw [hr] at hx; cases hx
    exact .same (intake_reader rfl (inDelivery_eq_nil hne) rfl) rfl
  | readerRead hr => exact .same (intake_reader rfl (hdrain hr (by simp)) rfl) rfl
  | @handleKill o rest cause hr hrec hj =>
    refine .same (intake_reader rfl (hdrain hr (by simp)) rfl) (dataOf_concat_other ?_)
    rintro p rfl
    cases hj
  | @handleBad o rest hr hrec ho =>
    refine .same rfl (dataOf_concat_other ?_)
    rintro p rfl
    cases ho
  | handleOpen hr =>
    refine .same ?_ (dataOf_concat_other (by simp))
    unfold intake
    simp [Function.update_of_ne (show k ≠ e.n by omega), inDelivery]
  | @handleData id p j rest hr hrec hs =>
    obtain ⟨hjn, hid, -⟩ := hi.registered id j hs
    have hnil := hdrain hr (by simp)
    by_cases hj : j = k
    · subst hj hid
      refine .add (p := p) ?_ dataOf_concat
      unfold intake
      rw [hnil]
      simp [inDelivery]
    · have hsame : ({ e.handle (.good (.data id p)) rest with
          reader := .delivering j id p } : Endpoint).intake k = e.intake k := by
        refine intake_reader rfl hnil ?_
        simp [inDelivery, hj]
      by_cases hid' : id = (e.inst k).id
      · subst hid'
        exact .elsewhere hsame hr hrec (fun h => hj (Option.some.inj (hs.symm.trans h)))
          dataOf_concat
      · refine .same hsame (dataOf_concat_other ?_)
        rintro p' h
        cases h
        exact hid' rfl
  | @handleUnknown id p rest hr hrec hs =>
    have hsame : ({ e.handle (.good (.data id p)) rest with
        reader := .replying (.close id) } : Endpoint).intake k = e.intake k :=
      intake_reader rfl (hdrain hr (by simp)) rfl
    by_cases hid' : id = (e.inst k).id
    · subst hid'
      exact .elsewhere hsame hr hrec (by simp [hs]) dataOf_concat
    · refine .same hsame (dataOf_concat_other ?_)
      rintro p' h
      cases h
      exact hid' rfl
  | handleClose => exact .same rfl (dataOf_concat_other (by simp))
  | handlePing hr =>
    exact .same (intake_reader rfl (hdrain hr (by simp)) rfl) (dataOf_concat_other (by simp))
  | handlePong => exact .same rfl (dataOf_concat_other (by simp))
  | @delivered j id p hr =>
    refine .same ?_ rfl
    unfold intake inDelivery
    rw [hr]
    by_cases hj : j = k
    · subst hj; simp
    · simp [hj, Function.update_of_ne (Ne.symm hj)]
  | dropStalled hr => exact .same (intake_reader rfl (hdrain hr (by simp)) rfl) rfl
  | reply hr =>
    have hne : ∀ id p, e.reader ≠ .delivering k id p := by
      intro id p; rcases hr with ⟨-, hr⟩ | ⟨-, hr⟩ <;> simp [hr]
    exact .same (intake_reader rfl (inDelivery_eq_nil hne) rfl) rfl
  | _ => exact .same rfl rfl

/-- What a stream's channel took in is a sublist of the DATA handled for it. -/
def Inbox (e : Endpoint) : Prop :=
  ∀ k < e.n, e.intake k <+ dataOf (e.inst k).id (goods e.handled)

/-- A new instance has taken nothing in. -/
theorem intake_create (hi : Instances e) (h : e.Step a e') (hk : e'.n = e.n + 1) :
    e'.intake e.n = [] := by
  have hnil : e'.inDelivery e.n = [] := by
    refine inDelivery_eq_nil fun id p hr => ?_
    rcases step_delivering h hr with hr | ⟨-, hs, -⟩
    · exact absurd (hi.delivering _ _ _ hr).1 (by omega)
    · exact absurd (hi.registered _ _ hs).1 (by omega)
  rcases step_inst h with ⟨hn, -⟩ | ⟨-, hn, -⟩ | ⟨-, -, hinst⟩
  · omega
  · omega
  · unfold intake
    rw [hnil, hinst, Function.update_self]
    rfl

theorem inbox_step (hi : Instances e) (hb : Inbox e) (h : e.Step a e') : Inbox e' := by
  intro k hk
  by_cases hlt : k < e.n
  · have hid := id_of_step h hlt
    have hsub := hb k hlt
    rw [hid]
    rcases step_intake hi h hlt with ⟨h1, h2⟩ | ⟨h1, h2⟩ | ⟨h1, -, h2⟩ | ⟨h1, -, -, -, h2⟩
    · rw [h1, h2]; exact hsub
    · rw [h1, h2]; exact hsub.append_right _
    · rw [h2]; exact (List.sublist_append_left _ _).trans (h1 ▸ hsub)
    · rw [h1, h2]; exact hsub.trans (List.sublist_append_left _ _)
  · have hn : e'.n = e.n + 1 ∧ k = e.n := by
      rcases step_inst h with ⟨hn, -⟩ | ⟨-, hn, -⟩ | ⟨-, hn, -⟩ <;> omega
    rw [hn.2, intake_create hi h hn.1]
    exact List.nil_sublist _

/-! ### What the reader replies -/

/-- The reader replies to what it has handled: a PONG to a PING, an echoed CLOSE to a DATA. -/
def Replies (e : Endpoint) : Prop := e.reader.About (goods e.handled)

theorem about_mono {hs hs' : List Frame} {r : Reader} (h : r.About hs)
    (hsub : hs ⊆ hs') : r.About hs' := by
  cases r with
  | delivering k id p => exact hsub h
  | stalled id => exact h.imp fun p hp => hsub hp
  | replying f | waiting f =>
    rcases h with ⟨id, p, hf, hp⟩ | ⟨nonce, hf, hp⟩
    · exact .inl ⟨id, p, hf, hsub hp⟩
    · exact .inr ⟨nonce, hf, hsub hp⟩
  | _ => trivial

theorem goods_concat_good (os : List Outcome) (f : Frame) : f ∈ goods (os ++ [.good f]) := by
  simp [goods_append, goods_good]

theorem replies_step (hr : Replies e) (h : e.Step a e') : Replies e' := by
  have hsame : e'.reader = e.reader → Replies e' := fun heq => by
    unfold Replies
    rw [heq]
    exact about_mono hr (goods_handled_subset h)
  unfold Replies at hr
  cases h with
  | goto hg =>
    unfold Replies
    generalize e.reader = r at hg hr
    cases hg with
    | undeliverable => exact .inl ⟨_, _, rfl, hr⟩
    | stall => exact ⟨_, hr⟩
    | replyFull => exact hr
    | _ => trivial
  | handleData => exact goods_concat_good _ _
  | handleUnknown => exact .inl ⟨_, _, rfl, goods_concat_good _ _⟩
  | handlePing => exact .inr ⟨_, rfl, goods_concat_good _ _⟩
  | dropStalled hs =>
    rw [hs] at hr
    obtain ⟨p, hp⟩ := hr
    exact .inl ⟨_, p, rfl, hp⟩
  | readerExit | readerRead | handleKill | delivered | reply => exact trivial
  | _ => exact hsame rfl

/-- The frame a reader replies with, and what it handled. -/
theorem Replies.about (hr : Replies e) {f : Frame}
    (hf : e.reader = .replying f ∨ e.reader = .waiting f) :
    (∃ id p, f = .close id ∧ .data id p ∈ goods e.handled) ∨
      ∃ nonce, f = .pong nonce ∧ .ping nonce ∈ goods e.handled := by
  unfold Replies at hr
  rcases hf with hf | hf <;> rw [hf] at hr <;> exact hr

/-! ### What a pump sends -/

/-- What a pump enqueued is the DATA sent for its stream. -/
structure Outbox (e : Endpoint) : Prop where
  known : ∀ id p, .data id p ∈ e.sent → ∃ k < e.n, (e.inst k).id = id
  pumped : IdsDistinct e → ∀ k < e.n, dataOf (e.inst k).id e.sent = (e.inst k).pumped

theorem dataOf_concat_frame {id : UInt32} {fs : List Frame} {f : Frame}
    (h : ∀ p, f ≠ .data id p) : dataOf id (fs ++ [f]) = dataOf id fs := by
  rw [dataOf_append]
  rcases f with _ | ⟨id', p⟩ | _ | _ | _ <;> simp [dataOf]
  rintro rfl; exact h p rfl

/-- Every step but the sending of a chunk leaves the chunks pumped alone and sends no DATA. -/
theorem step_chunks (hr : Replies e) (h : e.Step a e') :
    ((∀ k < e.n, (e'.inst k).pumped = (e.inst k).pumped) ∧
      (e'.sent = e.sent ∨ ∃ f, (∀ id p, f ≠ .data id p) ∧ e'.sent = e.sent ++ [f])) ∨
    ∃ j c rest down, (e.inst j).phase = .pump (.sending (c :: rest)) down ∧
      e'.sent = e.sent ++ [.data (e.inst j).id c] ∧ e'.n = e.n ∧
      ∀ k, (e'.inst k).pumped = if k = j then (e.inst k).pumped ++ [c] else (e.inst k).pumped := by
  have hupd : ∀ {j s}, e'.inst = Function.update e.inst j s → s.pumped = (e.inst j).pumped →
      ∀ k < e.n, (e'.inst k).pumped = (e.inst k).pumped := by
    intro j s hinst hs k _
    rw [hinst, Function.update_apply]
    split_ifs with hj
    · subst hj; exact hs
    · rfl
  cases h with
  | accept | handleOpen =>
    refine .inl ⟨fun k hk => ?_, .inl rfl⟩
    simp [Function.update_of_ne (show k ≠ e.n by omega)]
  | register | move | unregister | upRead | downRecv | delivered =>
    exact .inl ⟨hupd rfl rfl, .inl rfl⟩
  | @post _ j p f hp =>
    refine .inl ⟨hupd rfl rfl, .inr ⟨f, ?_, rfl⟩⟩
    generalize (e.inst j).phase = q at hp
    cases hp <;> simp
  | @upSend j c rest down hp =>
    refine .inr ⟨j, c, rest, down, hp, rfl, rfl, fun k => ?_⟩
    simp only [push_inst, setStream_inst, Function.update_apply]
    split_ifs with hj
    · subst hj; rfl
    · rfl
  | @reply _ f hf =>
    refine .inl ⟨fun _ _ => rfl, .inr ⟨f, ?_, rfl⟩⟩
    rcases hr.about (hf.imp And.right And.right) with ⟨_, _, rfl, -⟩ | ⟨_, rfl, -⟩ <;> simp
  | ping => exact .inl ⟨fun _ _ => rfl, .inr ⟨_, by simp, rfl⟩⟩
  | _ => exact .inl ⟨fun _ _ => rfl, .inl rfl⟩

/-- A new instance has pumped nothing. -/
theorem pumped_create (h : e.Step a e') (hk : e'.n = e.n + 1) :
    (e'.inst e.n).pumped = [] := by
  rcases step_inst h with ⟨hn, -⟩ | ⟨-, hn, -⟩ | ⟨-, -, hinst⟩
  · omega
  · omega
  · rw [hinst, Function.update_self]; rfl

theorem eq_n_of_new (h : e.Step a e') (hk : k < e'.n) (hlt : ¬ k < e.n) :
    e'.n = e.n + 1 ∧ k = e.n := by
  rcases step_inst h with ⟨hn, -⟩ | ⟨-, hn, -⟩ | ⟨-, hn, -⟩ <;> omega

theorem outbox_step (hi : Instances e) (hr : Replies e) (ho : Outbox e) (h : e.Step a e') :
    Outbox e' := by
  have hn := le_n_of_step h
  have hknown : ∀ id p, .data id p ∈ e'.sent → ∃ k < e.n, (e.inst k).id = id := by
    intro id p hp
    rcases step_chunks hr h with ⟨-, hs | ⟨f, hf, hs⟩⟩ | ⟨j, c, rest, down, hph, hs, -, -⟩
    · exact ho.known id p (hs ▸ hp)
    · rw [hs, List.mem_append, List.mem_singleton] at hp
      rcases hp with hp | rfl
      · exact ho.known id p hp
      · exact absurd rfl (hf id p)
    · rw [hs, List.mem_append, List.mem_singleton] at hp
      rcases hp with hp | hp
      · exact ho.known id p hp
      · obtain ⟨rfl, rfl⟩ := Frame.data.inj hp
        exact ⟨j, hi.lt (by simp [hph]), rfl⟩
  refine ⟨fun id p hp => ?_, fun hd k hk => ?_⟩
  · obtain ⟨k, hk, hid⟩ := hknown id p hp
    exact ⟨k, by omega, by rw [id_of_step h hk, hid]⟩
  · have hdist := hd.of_step h
    by_cases hlt : k < e.n
    · rw [id_of_step h hlt]
      have hold := ho.pumped hdist k hlt
      rcases step_chunks hr h with ⟨hp, hs | ⟨f, hf, hs⟩⟩ | ⟨j, c, rest, down, hph, hs, -, hp⟩
      · rw [hs, hp k hlt, hold]
      · rw [hs, hp k hlt, dataOf_concat_frame (hf _), hold]
      · rw [hs, hp k]
        split_ifs with hj
        · subst hj
          rw [dataOf_append, hold]
          simp [dataOf]
        · have hne : (e.inst j).id ≠ (e.inst k).id := fun hid =>
            hj (hdist k hlt j (hi.lt (by simp [hph])) hid.symm)
          rw [dataOf_concat_frame (by simp [hne]), hold]
    · obtain ⟨hn', rfl⟩ := eq_n_of_new h hk hlt
      rw [pumped_create h hn']
      refine List.eq_nil_iff_forall_not_mem.mpr fun p hp => ?_
      obtain ⟨j, hj, hid⟩ := hknown _ p (mem_dataOf.mp hp)
      have := hd j (by omega) e.n hk (by rw [id_of_step h hj, hid])
      omega

/-! ### What a pump has read but not sent -/

/-- While the frame channel is open, a pump has sent all it read but for the chunks of its last
read. -/
def Drained (e : Endpoint) : Prop :=
  e.framesOpen = true → ∀ k, (e.inst k).taken = (e.inst k).pumped ++ (e.inst k).phase.pending

theorem Move.pending {p p' : Phase} (h : Move e k a p p') (ho : e.framesOpen = true) :
    p'.pending = p.pending := by
  cases h with
  | openClosed hc | refuseClosed hc | rejectClosed hc | upSendClosed hc | upCloseClosed hc =>
    rw [ho] at hc; cases hc
  | _ => rfl

theorem Post.pending {id : UInt32} {p p' : Phase} {f : Frame} (h : Post id k a p p' f) :
    p'.pending = p.pending := by
  cases h <;> rfl

theorem pending_afterChunk (rest : List Bytes) : (afterChunk rest).pending = rest := by
  unfold afterChunk
  split_ifs with h
  · subst h; rfl
  · rfl

theorem Change.drained {s : Stream} (hc : Change e k s) (ho : e.framesOpen = true)
    (hd : (e.inst k).taken = (e.inst k).pumped ++ (e.inst k).phase.pending) :
    s.taken = s.pumped ++ s.phase.pending := by
  cases hc with
  | move hm => rw [hm.pending ho]; exact hd
  | post hp => rw [hp.pending]; exact hd
  | delivered => exact hd
  | register hp | unregister hp => rw [hp] at hd; exact hd
  | @upRead data down hp hne hle =>
    -- one read is one chunk
    have hone : chunks maxData data = [data] := chunks_of_length_le hne hle
    rw [hp] at hd
    simp [hd, hone, Phase.pending, Up.pending]
  | @upSend c rest down hp =>
    rw [hp] at hd
    show (e.inst k).taken = (e.inst k).pumped ++ [c] ++ (afterChunk rest).pending
    rw [pending_afterChunk, hd, List.append_assoc]
    rfl
  | downRecv hp => rw [hp] at hd; exact hd

theorem step_framesOpen (h : e.Step a e') (ho : e'.framesOpen = true) : e.framesOpen = true := by
  cases h with
  | writerReturn => simp at ho
  | _ => exact ho

theorem drained_step (hd : Drained e) (h : e.Step a e') : Drained e' := by
  intro ho k
  have ho' := step_framesOpen h ho
  rcases step_inst h with ⟨-, hinst⟩ | ⟨hc, -, hinst⟩ | ⟨hp, -, hinst⟩
  · rw [hinst]; exact hd ho' k
  · rw [hinst, Function.update_apply]
    split_ifs with hj
    · subst hj; exact hc.drained ho' (hd ho' k)
    · exact hd ho' k
  · rw [hinst, Function.update_apply]
    split_ifs with hj
    · rcases hp with ⟨-, -, rfl⟩ | rfl
      · rfl
      · rcases e.side with _ | _ <;> rfl
    · exact hd ho' k

/-- Streams are closed, and the frame channel too, only once the tunnel is dead. -/
structure DeadFirst (e : Endpoint) : Prop where
  exit : ∀ w, e.exit w = .closeAll ∨ e.exit w = .done → e.dead = true
  frames : e.framesOpen = false → e.dead = true

theorem DeadFirst.framesOpen (hi : DeadFirst e) (hd : e.dead = false) : e.framesOpen = true := by
  by_contra hne
  have hdead := hi.frames (by simpa using hne)
  rw [hd] at hdead
  cases hdead

/-- No task of a live tunnel has come to closing its streams. -/
theorem DeadFirst.exit_ne (hi : DeadFirst e) (hd : e.dead = false) (w : Who) :
    e.exit w ≠ .closeAll ∧ e.exit w ≠ .done := by
  constructor <;> intro hw
  · have hdead := hi.exit w (.inl hw)
    rw [hd] at hdead
    cases hdead
  · have hdead := hi.exit w (.inr hw)
    rw [hd] at hdead
    cases hdead

theorem DeadFirst.of_exit (hi : DeadFirst e) {w : Who} {x : Exit}
    (hexit : e'.exit = Function.update e.exit w x) (hx : x ≠ .closeAll ∧ x ≠ .done)
    (hdead : e'.dead = e.dead) (hf : e'.framesOpen = e.framesOpen) : DeadFirst e' := by
  refine ⟨fun w' hw => ?_, fun h => ?_⟩
  · rw [hexit, Function.update_apply] at hw
    rw [hdead]
    split_ifs at hw
    · rcases hw with hw | hw
      · exact absurd hw hx.1
      · exact absurd hw hx.2
    · exact hi.exit w' hw
  · rw [hdead]; exact hi.frames (hf ▸ h)

theorem deadFirst_step (hi : DeadFirst e) (h : e.Step a e') : DeadFirst e' := by
  cases h with
  | readerExit | handleKill | writerExit | encryptErr | graceLost | logLine | setCause
  | setKilled => exact hi.of_exit rfl (by simp) rfl rfl
  | @exitMove _ w x hx =>
    refine hi.of_exit rfl ?_ rfl rfl
    generalize e.exit w = y at hx
    cases hx <;> simp
  | setDead => exact ⟨fun _ _ => rfl, fun _ => rfl⟩
  | @closeAll w hx =>
    have hd := hi.exit w (.inl hx)
    exact ⟨fun _ _ => hd, fun _ => hd⟩
  | writerReturn hx => exact ⟨hi.exit, fun _ => hi.exit _ (.inr hx)⟩
  | _ => exact ⟨hi.exit, hi.frames⟩

/-! ### OPEN -/

/-- Every DATA comes after the OPEN of its stream. -/
def OpenedFirst (fs : List Frame) : Prop :=
  ∀ pre id p post, fs = pre ++ .data id p :: post → .open id ∈ pre

theorem OpenedFirst.concat {fs : List Frame} {f : Frame} (h : OpenedFirst fs)
    (hf : ∀ id p, f = .data id p → .open id ∈ fs) : OpenedFirst (fs ++ [f]) := by
  intro pre id p post heq
  rcases List.eq_nil_or_concat post with rfl | ⟨post', g, rfl⟩
  · obtain ⟨rfl, hg⟩ := List.append_inj' heq rfl
    exact hf id p (List.singleton_inj.mp hg)
  · have heq' : fs ++ [f] = (pre ++ .data id p :: post') ++ [g] := by simpa using heq
    exact h pre id p post' (List.append_inj' heq' rfl).1

theorem OpenedFirst.of_initial {fs gs : List Frame} (h : OpenedFirst gs) (hp : fs <+: gs) :
    OpenedFirst fs := by
  rintro pre id p post rfl
  obtain ⟨t, rfl⟩ := hp
  exact h pre id p (post ++ t) (by simp)

/-- The client announces each stream once, before its DATA; the server announces none. -/
structure Announced (e : Endpoint) : Prop where
  server : e.side = .server → opens e.sent = []
  known : ∀ id ∈ opens e.sent, ∃ k < e.n,
    (e.inst k).id = id ∧ (e.inst k).phase.isUnannounced = false
  nodup : IdsDistinct e → (opens e.sent).Nodup
  opened : e.side = .client → ∀ k, (e.inst k).phase.isAnnounced = true →
    .open (e.inst k).id ∈ e.sent
  first : e.side = .client → OpenedFirst e.sent

theorem announced_spawnTunnel : Announced (spawnTunnel side pingSecs) := by
  refine ⟨fun _ => rfl, fun id h => ?_, fun _ => List.nodup_nil, fun _ k h => ?_, fun _ => ?_⟩
  · simp [spawnTunnel, opens] at h
  · simp [spawnTunnel, Stream.fresh, Phase.isAnnounced] at h
  · intro pre id p post h
    simp [spawnTunnel] at h

/-- An OPEN is sent for a registered instance, which it announces. -/
theorem step_open (hr : Replies e) (h : e.Step a e') :
    opens e'.sent = opens e.sent ∨ ∃ j, a = .open j ∧ (e.inst j).phase = .registered ∧
      e'.sent = e.sent ++ [.open (e.inst j).id] ∧ e'.inst = (e.setPhase j .opened).inst ∧
      e'.n = e.n := by
  have hother : ∀ {f : Frame}, (∀ id, f ≠ .open id) → e'.sent = e.sent ++ [f] →
      opens e'.sent = opens e.sent := by
    intro f hf hs
    rw [hs, opens_append]
    rcases f with id | _ | _ | _ | _ <;> simp [opens]
    exact hf id rfl
  cases h with
  | @post _ j p f hp =>
    generalize hq : (e.inst j).phase = q at hp
    rcases hp with _ | _ | _ | _
    · exact .inr ⟨j, rfl, hq, rfl, rfl, rfl⟩
    · exact .inl (hother (by simp) rfl)
    · exact .inl (hother (by simp) rfl)
    · exact .inl (hother (by simp) rfl)
  | upSend | ping => exact .inl (hother (by simp) rfl)
  | @reply _ f hf =>
    refine .inl (hother (f := f) ?_ rfl)
    rcases hr.about (hf.imp And.right And.right) with ⟨_, _, rfl, -⟩ | ⟨_, rfl, -⟩ <;> simp
  | _ => exact .inl rfl

theorem Move.announced {p p' : Phase} (h : Move e k a p p') (hd : p.isDial = false)
    (hp : p'.isAnnounced = true) : p.isAnnounced = true := by
  cases h <;> simp_all [Phase.isAnnounced, Phase.isDial]

theorem Change.announced {s : Stream} (hc : Change e k s) (hd : (e.inst k).phase.isDial = false)
    (hp : s.phase.isAnnounced = true) :
    (e.inst k).phase.isAnnounced = true ∨ (e.inst k).phase = .registered := by
  cases hc with
  | move hm => exact .inl (hm.announced hd hp)
  | post hpo =>
    generalize (e.inst k).phase = q at hpo hd
    cases hpo <;> simp_all [Phase.isAnnounced]
  | register hq | unregister hq | upRead hq | upSend hq | downRecv hq =>
    simp_all [Phase.isAnnounced]
  | delivered => exact .inl hp

/-- The client's pumps, and the attempts whose OPEN left, have their OPEN among the frames sent. -/
theorem opened_step (hf : FanOut e) (hc : e.side = .client)
    (ho : ∀ k, (e.inst k).phase.isAnnounced = true → .open (e.inst k).id ∈ e.sent)
    (h : e.Step a e') (k : ℕ) (hk : (e'.inst k).phase.isAnnounced = true) :
    .open (e'.inst k).id ∈ e'.sent := by
  have hsub := sent_subset h
  have hupd : ∀ {j s}, Change e j s → (e.inst j).phase ≠ .registered →
      e'.inst = Function.update e.inst j s → .open (e'.inst k).id ∈ e'.sent := by
    intro j s hch hne hinst
    rw [hinst, Function.update_apply] at hk ⊢
    split_ifs at hk ⊢ with hj
    · rw [hch.id_eq]
      rcases hch.announced (hf.noDial hc j) hk with hp | hp
      · exact hsub (ho j hp)
      · exact absurd hp hne
    · exact hsub (ho k hk)
  cases h with
  | accept =>
    simp only [addStream_inst, setStream_inst, Function.update_apply] at hk ⊢
    split_ifs at hk ⊢
    · simp [Stream.fresh, Phase.isAnnounced] at hk
    · exact ho k hk
  | handleOpen =>
    simp only [register_inst, addStream_inst, setStream_inst, handle_inst, Function.update_apply]
      at hk ⊢
    split_ifs at hk ⊢
    · simp [Stream.fresh, onOpen, hc, Phase.isAnnounced] at hk
    · exact ho k hk
  | register hp => exact hupd (.register hp) (by simp [hp]) rfl
  | @move _ j p hm =>
    by_cases hp : (e.inst j).phase = .registered
    · -- the attempt gives up
      simp only [setPhase_inst, Function.update_apply] at hk ⊢
      split_ifs at hk ⊢
      · rw [hp] at hm
        cases hm
        simp [Phase.isAnnounced] at hk
      · exact ho k hk
    · exact hupd (.move hm) hp rfl
  | unregister hp => exact hupd (.unregister hp) (by simp [hp]) rfl
  | @post _ j p f hpo =>
    by_cases hp : (e.inst j).phase = .registered
    · rw [hp] at hpo
      cases hpo
      simp only [push_inst, push_sent, setPhase_inst, setPhase_sent, Function.update_apply] at hk ⊢
      split_ifs at hk ⊢
      · simp
      · exact List.mem_append_left _ (ho k hk)
    · exact hupd (.post hpo) hp rfl
  | upRead hp hne hle => exact hupd (.upRead hp hne hle) (by simp [hp]) rfl
  | upSend hp => exact hupd (.upSend hp) (by simp [hp]) rfl
  | downRecv hp hin => exact hupd (.downRecv hp hin) (by simp [hp]) rfl
  | @delivered j id p hr hrec =>
    simp only [setStream_inst, Function.update_apply] at hk ⊢
    split_ifs at hk ⊢ with hj
    · exact ho j hk
    · exact ho k hk
  | _ => exact hsub (ho k hk)

theorem announced_step (hi : Instances e) (hf : FanOut e) (hr : Replies e) (ha : Announced e)
    (h : e.Step a e') : Announced e' := by
  have hside := step_side h
  have hn := le_n_of_step h
  have hsub := sent_subset h
  have hkeep : ∀ {j id}, j < e.n → (e.inst j).id = id ∧ (e.inst j).phase.isUnannounced = false →
      (e'.inst j).id = id ∧ (e'.inst j).phase.isUnannounced = false := by
    intro j id hj hid
    refine ⟨(id_of_step h hj).trans hid.1, ?_⟩
    rcases onward_of_step h hj with heq | ho
    · rw [heq]; exact hid.2
    · by_contra hne
      have := ho.unannounced (by simpa using hne)
      rw [hid.2] at this; cases this
  refine ⟨fun hs => ?_, fun id hid => ?_, fun hd => ?_, fun hc k hk => ?_, fun hc => ?_⟩
  · rw [hside] at hs
    rcases step_open hr h with ho | ⟨j, -, hp, -⟩
    · rw [ho]; exact ha.server hs
    · have := hf.noAccept hs j
      rw [hp] at this; cases this
  · rcases step_open hr h with ho | ⟨j, -, hp, hs, hinst, hn'⟩
    · obtain ⟨j, hj, hid'⟩ := ha.known id (ho ▸ hid)
      exact ⟨j, by omega, hkeep hj hid'⟩
    · rw [hs, opens_append, List.mem_append] at hid
      rcases hid with hid | hid
      · obtain ⟨j, hj, hid'⟩ := ha.known id hid
        exact ⟨j, by omega, hkeep hj hid'⟩
      · have hid : id = (e.inst j).id := by simpa [opens] using hid
        subst hid
        refine ⟨j, by have := hi.lt (k := j) (by simp [hp]); omega, ?_⟩
        rw [hinst]
        simp [Phase.isUnannounced]
  · have hdist := hd.of_step h
    rcases step_open hr h with ho | ⟨j, -, hp, hs, hinst, hn'⟩
    · rw [ho]; exact ha.nodup hdist
    · rw [hs, opens_append, List.nodup_append]
      refine ⟨ha.nodup hdist, by simp [opens], ?_⟩
      intro id hid id' hid' heq
      have hid' : id' = (e.inst j).id := by simpa [opens] using hid'
      obtain ⟨j', hj', hid'', hph⟩ := ha.known id hid
      have hlt := hi.lt (k := j) (by simp [hp])
      obtain rfl := hdist j' hj' j hlt (by rw [hid'', heq, hid'])
      rw [hp] at hph; cases hph
  · rw [hside] at hc
    exact opened_step hf hc (ha.opened hc) h k hk
  · rw [hside] at hc
    rcases step_sent h with hs | ⟨f, hsend, hs⟩
    · rw [hs]; exact ha.first hc
    · rw [hs]
      refine (ha.first hc).concat ?_
      rintro id p rfl
      cases hsend with
      | chunk hp => exact ha.opened hc _ (by rw [hp]; rfl)
      | reply hf =>
        rcases hr.about (hf.imp And.right And.right) with ⟨_, _, h, -⟩ | ⟨_, h, -⟩ <;> cases h

/-! ### Stream ids -/

/-- The server has one instance for each OPEN it handled; the client, if it handled none, has
numbered its own instances from 1. -/
structure Numbered (e : Endpoint) : Prop where
  server : e.side = .server →
    (List.range e.n).map (fun k => (e.inst k).id) = opens (goods e.handled)
  client : e.side = .client → opens (goods e.handled) = [] →
    e.nextId = UInt32.ofNat (e.n + 1) ∧ ∀ k < e.n, (e.inst k).id = UInt32.ofNat (k + 1)

theorem numbered_spawnTunnel : Numbered (spawnTunnel side pingSecs) :=
  ⟨fun _ => rfl, fun _ _ => ⟨rfl, fun k hk => absurd hk (Nat.not_lt_zero k)⟩⟩

/-- Instances are created by `accept_connection` or by an OPEN handled, ids are allocated by
`accept_connection` only. -/
theorem step_create (h : e.Step a e') :
    (e'.n = e.n ∧ e'.nextId = e.nextId ∧ opens (goods e'.handled) = opens (goods e.handled)) ∨
    (a = .accept ∧ e.side = .client ∧ e'.n = e.n + 1 ∧ (e'.inst e.n).id = e.nextId ∧
      e'.nextId = e.nextId + 1 ∧ e'.handled = e.handled) ∨
    ∃ id, e'.n = e.n + 1 ∧ (e'.inst e.n).id = id ∧
      opens (goods e'.handled) = opens (goods e.handled) ++ [id] := by
  have hother : ∀ {o : Outcome}, (∀ id, o ≠ .good (.open id)) →
      opens (goods (e.handled ++ [o])) = opens (goods e.handled) := by
    intro o ho
    rw [goods_append, opens_append]
    rcases o with f | _ | _
    · rcases f with id | _ | _ | _ | _ <;> simp [goods, Outcome.frame?, opens]
      exact ho id rfl
    · simp [goods, Outcome.frame?, opens]
    · simp [goods, Outcome.frame?, opens]
  cases h with
  | accept hc => exact .inr (.inl ⟨rfl, hc, rfl, by simp [Stream.fresh], rfl, rfl⟩)
  | @handleOpen id =>
    refine .inr (.inr ⟨id, rfl, by simp [Stream.fresh], ?_⟩)
    simp [goods, Outcome.frame?, opens]
  | handleKill _ _ hj => exact .inl ⟨rfl, rfl, hother (by rintro id rfl; cases hj)⟩
  | handleBad _ _ ho => exact .inl ⟨rfl, rfl, hother (by rintro id rfl; cases ho)⟩
  | handleData | handleUnknown | handleClose | handlePing | handlePong =>
    exact .inl ⟨rfl, rfl, hother (by simp)⟩
  | _ => exact .inl ⟨rfl, rfl, rfl⟩

theorem numbered_step (hn : Numbered e) (h : e.Step a e') : Numbered e' := by
  have hside := step_side h
  have hold : (List.range e.n).map (fun k => (e'.inst k).id) =
      (List.range e.n).map (fun k => (e.inst k).id) :=
    List.map_congr_left fun k hk => id_of_step h (List.mem_range.mp hk)
  refine ⟨fun hs => ?_, fun hc hno => ?_⟩
  · rw [hside] at hs
    rcases step_create h with ⟨hn', -, ho⟩ | ⟨-, hc, -⟩ | ⟨id, hn', hid, ho⟩
    · rw [hn', ho, hold, hn.server hs]
    · rw [hc] at hs; cases hs
    · rw [hn', ho, List.range_succ, List.map_append, hold, hn.server hs, List.map_singleton, hid]
  · rw [hside] at hc
    rcases step_create h with ⟨hn', hid, ho⟩ | ⟨-, -, hn', hid, hnext, hh⟩ | ⟨id, -, -, ho⟩
    · obtain ⟨h1, h2⟩ := hn.client hc (ho ▸ hno)
      rw [hn', hid]
      exact ⟨h1, fun k hk => (id_of_step h hk).trans (h2 k hk)⟩
    · obtain ⟨h1, h2⟩ := hn.client hc (hh ▸ hno)
      rw [hn', hnext, h1]
      refine ⟨(UInt32.ofNat_add _ _).symm, fun k hk => ?_⟩
      rcases Nat.lt_succ_iff_lt_or_eq.mp hk with hlt | rfl
      · exact (id_of_step h hlt).trans (h2 k hlt)
      · rw [hid, h1]
    · rw [ho] at hno
      simp at hno

/-- The client's ids are distinct while at most `2^32` were allocated. -/
theorem Numbered.idsDistinct (hn : Numbered e) (hc : e.side = .client)
    (hno : opens (goods e.handled) = []) (hle : e.n ≤ 2 ^ 32) : IdsDistinct e := by
  intro k hk j hj hid
  obtain ⟨-, h⟩ := hn.client hc hno
  rw [h k hk, h j hj] at hid
  have := congrArg UInt32.toNat hid
  rw [UInt32.toNat_ofNat', UInt32.toNat_ofNat'] at this
  omega

/-- The server's ids are distinct if the OPENs it handled are. -/
theorem Numbered.idsDistinct_of_nodup (hn : Numbered e) (hs : e.side = .server)
    (hno : (opens (goods e.handled)).Nodup) : IdsDistinct e := by
  intro k hk j hj hid
  rw [← hn.server hs] at hno
  have := (List.nodup_map_iff_inj_on List.nodup_range).mp hno k (List.mem_range.mpr hk) j
    (List.mem_range.mpr hj) hid
  exact this

/-! ### CLOSE -/

/-- **CLOSE is final**: it is sent for streams that send no more, and no DATA follows it. -/
structure Closed (e : Endpoint) : Prop where
  ended : ∀ id, .close id ∈ e.sent →
    ∃ k < e.n, (e.inst k).id = id ∧ (e.inst k).phase.maySend = false
  final : ∀ id p, ¬ [.close id, .data id p] <+ e.sent

/-- Whether some stream with this id may still send DATA. -/
def maySend (e : Endpoint) (id : UInt32) : Prop :=
  ∃ k < e.n, (e.inst k).id = id ∧ (e.inst k).phase.maySend = true

/-- Whether the step enqueues a CLOSE that the reader echoes. -/
def Echoes (e : Endpoint) (a : Act) (id : UInt32) : Prop :=
  a = .reply ∧ e.reader = .replying (.close id) ∨ a = .resume ∧ e.reader = .waiting (.close id)

/-- The step does not echo a CLOSE for a stream that may still send DATA. -/
def EchoOk (e : Endpoint) (a : Act) : Prop := ∀ id, e.Echoes a id → ¬ e.maySend id

theorem sublist_pair_concat {α : Type*} {x y z : α} {l : List α} (h : [x, y] <+ l ++ [z]) :
    [x, y] <+ l ∨ x ∈ l ∧ y = z := by
  rw [List.sublist_append_iff] at h
  obtain ⟨l₁, l₂, heq, h1, h2⟩ := h
  rcases l₂ with _ | ⟨w, _ | ⟨v, l₂⟩⟩
  · rw [List.append_nil] at heq
    exact .inl (heq ▸ h1)
  · obtain ⟨rfl, hw⟩ := List.append_inj' (show [x] ++ [y] = l₁ ++ [w] from heq) rfl
    obtain rfl := List.singleton_inj.mp hw
    exact .inr ⟨List.singleton_sublist.mp h1, by simpa using h2⟩
  · have := h2.length_le
    simp at this

/-- A CLOSE is sent by a task that ends its uplink with it, or echoed by the reader. -/
theorem step_close (h : e.Step a e') {id : UInt32} (hid : .close id ∈ e'.sent) :
    .close id ∈ e.sent ∨
    (∃ j, (e.inst j).phase ≠ .dropped ∧ (e.inst j).id = id ∧
      (e'.inst j).phase.uplinkOpen = false) ∨ e.Echoes a id := by
  have hconcat : ∀ {f : Frame}, .close id ∈ e.sent ++ [f] → .close id ∈ e.sent ∨ f = .close id := by
    intro f hf
    rw [List.mem_append, List.mem_singleton] at hf
    exact hf.imp_right Eq.symm
  cases h with
  | @post _ j p f hp =>
    rcases hconcat hid with hid | hf
    · exact .inl hid
    · refine .inr (.inl ⟨j, hp.onward.not_dropped, ?_, ?_⟩)
      · generalize (e.inst j).phase = q at hp
        cases hp <;> simp_all
      · simp only [push_inst, setPhase_inst, Function.update_self]
        generalize (e.inst j).phase = q at hp
        cases hp <;> simp_all [Phase.uplinkOpen]
  | upSend | ping => exact .inl ((hconcat hid).resolve_right (by simp))
  | reply hf =>
    rcases hconcat hid with hid | rfl
    · exact .inl hid
    · exact .inr (.inr hf)
  | _ => exact .inl hid

/-- What holds of the stream of every CLOSE that was sent, and stays so, holds of the stream of a CLOSE that
is sent now, if its task has ended its uplink with it, or the stream is one of those already. -/
theorem closeSent_step {isOpen : Phase → Bool} (hi : Instances e)
    (honward : ∀ {p p'}, Onward p p' → isOpen p' = true → isOpen p = true)
    (hended : ∀ {p : Phase}, p.uplinkOpen = false → isOpen p = false)
    (hold : ∀ id, .close id ∈ e.sent →
      ∃ k < e.n, (e.inst k).id = id ∧ isOpen (e.inst k).phase = false)
    (hecho : ∀ id, e.Echoes a id → ∃ k < e.n, (e.inst k).id = id ∧ isOpen (e.inst k).phase = false)
    (h : e.Step a e') (id : UInt32) (hid : .close id ∈ e'.sent) :
    ∃ k < e'.n, (e'.inst k).id = id ∧ isOpen (e'.inst k).phase = false := by
  have hn := le_n_of_step h
  have hkeep : (∃ k < e.n, (e.inst k).id = id ∧ isOpen (e.inst k).phase = false) →
      ∃ k < e'.n, (e'.inst k).id = id ∧ isOpen (e'.inst k).phase = false := by
    rintro ⟨k, hk, hkid, hend⟩
    refine ⟨k, by omega, (id_of_step h hk).trans hkid, ?_⟩
    rcases onward_of_step h hk with heq | ho
    · rw [heq]; exact hend
    · by_contra hne
      have hopen := honward ho (by simpa using hne)
      rw [hend] at hopen; cases hopen
  rcases step_close h hid with hid | ⟨j, hj, hid, hend⟩ | hf
  · exact hkeep (hold id hid)
  · have hlt := hi.lt hj
    exact ⟨j, by omega, (id_of_step h hlt).trans hid, hended hend⟩
  · exact hkeep (hecho id hf)

theorem closed_step (hi : Instances e) (hr : Replies e) (hcl : Closed e) (hd : IdsDistinct e')
    (hecho : EchoOk e a)
    (hknown : ∀ id p, .data id p ∈ goods e.handled → ∃ k < e.n, (e.inst k).id = id)
    (h : e.Step a e') : Closed e' := by
  have hdist := hd.of_step h
  have hsilent : ∀ {p : Phase}, p.uplinkOpen = false → p.maySend = false := by
    intro p hend
    by_contra hne
    have hopen := Phase.uplinkOpen_of_maySend (by simpa using hne : p.maySend = true)
    rw [hend] at hopen; cases hopen
  refine ⟨closeSent_step hi (fun ho => ho.sends) hsilent hcl.ended (fun id hf => ?_) h,
    fun id p hsub => ?_⟩
  · -- the reader echoes a CLOSE for the id of a chunk that it has handled
    have habout := hr.about (hf.imp And.right And.right)
    rcases habout with ⟨id', p, hcl', hp⟩ | ⟨_, hcl', -⟩
    · obtain rfl := Frame.close.inj hcl'
      obtain ⟨j, hj, hid⟩ := hknown id p hp
      refine ⟨j, hj, hid, ?_⟩
      by_contra hne
      exact hecho id hf ⟨j, hj, hid, by simpa using hne⟩
    · cases hcl'
  · rcases step_chunks hr h with ⟨-, hs | ⟨f, hf, hs⟩⟩ | ⟨j, c, rest, down, hph, hs, -, -⟩
    · exact hcl.final id p (hs ▸ hsub)
    · rw [hs] at hsub
      rcases sublist_pair_concat hsub with hsub | ⟨-, rfl⟩
      · exact hcl.final id p hsub
      · exact hf id p rfl
    · rw [hs] at hsub
      rcases sublist_pair_concat hsub with hsub | ⟨hmem, hfr⟩
      · exact hcl.final id p hsub
      · obtain ⟨rfl, rfl⟩ := Frame.data.inj hfr
        obtain ⟨j', hj', hid, hend⟩ := hcl.ended _ hmem
        obtain rfl := hdist j' hj' j (hi.lt (by simp [hph])) hid
        rw [hph] at hend
        simp [Phase.maySend, Up.canSend] at hend

/-! ### All of them -/

/-- The invariants of one endpoint that need nothing of its peer. -/
structure Local (e : Endpoint) : Prop where
  loops : LoopsInv e
  fanOut : FanOut e
  instances : Instances e
  inbox : Inbox e
  replies : Replies e
  outbox : Outbox e
  drained : Drained e
  deadFirst : DeadFirst e
  announced : Announced e
  numbered : Numbered e

theorem local_spawnTunnel : Local (spawnTunnel side pingSecs) where
  loops := loopsInv_spawnTunnel
  fanOut := fanOut_spawnTunnel
  instances := instances_spawnTunnel
  inbox := fun k hk => absurd hk (Nat.not_lt_zero k)
  replies := trivial
  outbox := ⟨by simp [spawnTunnel], fun _ k hk => absurd hk (Nat.not_lt_zero k)⟩
  drained := fun _ _ => rfl
  deadFirst := ⟨by simp [spawnTunnel], by simp [spawnTunnel]⟩
  announced := announced_spawnTunnel
  numbered := numbered_spawnTunnel

theorem local_step (hl : Local e) (h : e.Step a e') : Local e' where
  loops := loopsInv_step hl.loops h
  fanOut := fanOut_step hl.loops hl.fanOut h
  instances := instances_step hl.instances h
  inbox := inbox_step hl.instances hl.inbox h
  replies := replies_step hl.replies h
  outbox := outbox_step hl.instances hl.replies hl.outbox h
  drained := drained_step hl.drained h
  deadFirst := deadFirst_step hl.deadFirst h
  announced := announced_step hl.instances hl.fanOut hl.replies hl.announced h
  numbered := numbered_step hl.numbered h

end Endpoint

end QeliSsPlugin.Carrier
