import QeliSsPlugin.Net.Delivery

/-!
# No stream is leaked

The registry of a tunnel holds an entry for each stream, and as long as no consumer stalls it is the
peer's CLOSE that removes it, not the stream's own pump. `registered_in_use` says that this is enough
while both tunnels live and the wire is intact: an entry that is still there belongs to a stream that the
peer has not ended, or whose CLOSE or OPEN is on its way.

An endpoint that ends its side of a stream enqueues a CLOSE (`EndsByClose`), which comes after the
stream's OPEN (`ClosedAfterOpen`); so it is handled after the entry was made, and removes it
(`CleanupInv.entry`).
-/

namespace QeliSsPlugin

open Lib.Runs Mux Carrier
open scoped List

namespace Carrier

/-- Whether the task has sent its last frame. -/
def Phase.hasEnded : Phase → Bool
  | .pump .done _ | .dropped => true
  | _ => false

/-- Every CLOSE comes after the OPEN of its stream. -/
def ClosedAfterOpen (fs : List Frame) : Prop :=
  ∀ pre id post, fs = pre ++ .close id :: post → .open id ∈ pre

theorem ClosedAfterOpen.concat {fs : List Frame} {f : Frame} (h : ClosedAfterOpen fs)
    (hf : ∀ id, f = .close id → .open id ∈ fs) : ClosedAfterOpen (fs ++ [f]) := by
  intro pre id post heq
  rcases List.eq_nil_or_concat post with rfl | ⟨post', g, rfl⟩
  · obtain ⟨rfl, hg⟩ := List.append_inj' heq rfl
    exact hf id (List.singleton_inj.mp hg)
  · have heq' : fs ++ [f] = (pre ++ .close id :: post') ++ [g] := by simpa using heq
    exact h pre id post' (List.append_inj' heq' rfl).1

/-- In the frames handled so far the OPEN is there with the CLOSE. -/
theorem ClosedAfterOpen.open_mem {fs gs : List Frame} (h : ClosedAfterOpen gs) (hp : fs <+: gs)
    {id : UInt32} (hc : .close id ∈ fs) : .open id ∈ fs := by
  obtain ⟨pre, post, rfl⟩ := List.append_of_mem hc
  obtain ⟨rest, rfl⟩ := hp
  exact List.mem_append_left _ (h pre id (post ++ rest) (by simp))

namespace Endpoint

variable {e e' : Endpoint} {a : Act} {k : ℕ}

/-- While the tunnel is alive, a stream is ended with a CLOSE. -/
def EndsByClose (e : Endpoint) : Prop :=
  e.dead = false → ∀ k < e.n, (e.inst k).phase.hasEnded = true → .close (e.inst k).id ∈ e.sent

/-- Every CLOSE is for a stream that there is. -/
def CloseKnown (e : Endpoint) : Prop := ∀ id, .close id ∈ e.sent → ∃ k < e.n, (e.inst k).id = id

/-- A task that comes to its end without a frame has found the channel closed, or the tunnel dead. -/
theorem Move.ends {p p' : Phase} (h : Move e k a p p') (hp : p'.hasEnded = true) :
    p.hasEnded = true ∨ e.framesOpen = false ∨ e.dead = true := by
  cases h with
  | openClosed h | refuseClosed h | rejectClosed h | upCloseClosed h => exact .inr (.inl h)
  | spawnDead h => exact .inr (.inr h)
  | @downEnd up | @downWrote up | @downFail up =>
    left
    rcases up with _ | _ | _ | _ <;> exact hp
  | _ => cases hp

/-- A task that comes to its end with a frame sends its CLOSE. -/
theorem Post.ends {id : UInt32} {p p' : Phase} {f : Frame} (h : Post id k a p p' f)
    (hp : p'.hasEnded = true) : f = .close id := by
  cases h with
  | «open» => cases hp
  | _ => rfl

theorem endsByClose_step (hl : Local e) (hi : EndsByClose e) (h : e.Step a e') :
    EndsByClose e' := by
  intro hdead'
  have hdead := dead_of_step h hdead'
  have hopen := hl.deadFirst.framesOpen hdead
  have hsub := sent_subset h
  have hupd : ∀ {j s}, e'.inst = Function.update e.inst j s → e'.n = e.n → s.id = (e.inst j).id →
      (s.phase.hasEnded = true →
        (e.inst j).phase.hasEnded = true ∨ .close (e.inst j).id ∈ e'.sent) →
      ∀ k < e'.n, (e'.inst k).phase.hasEnded = true → .close (e'.inst k).id ∈ e'.sent := by
    intro j s hinst hn hid hs k hk hp
    rw [hinst, Function.update_apply] at hp ⊢
    split_ifs at hp ⊢ with hkj
    · subst hkj
      rw [hid]
      rcases hs hp with hold | hmem
      · exact hsub (hi hdead k (by omega) hold)
      · exact hmem
    · exact hsub (hi hdead k (by omega) hp)
  have hnew : ∀ {s : Stream}, e'.inst = Function.update e.inst e.n s → e'.n = e.n + 1 →
      s.phase.hasEnded = false →
      ∀ k < e'.n, (e'.inst k).phase.hasEnded = true → .close (e'.inst k).id ∈ e'.sent := by
    intro s hinst hn hs k hk hp
    rw [hinst, Function.update_apply] at hp ⊢
    split_ifs at hp ⊢ with hkj
    · rw [hs] at hp
      cases hp
    · exact hsub (hi hdead k (by omega) hp)
  cases h with
  | accept => exact hnew rfl rfl rfl
  | handleOpen =>
    refine hnew rfl rfl ?_
    rcases hside : e.side with _ | _ <;> rfl
  | move hm =>
    refine hupd rfl rfl rfl fun hp => ?_
    rcases hm.ends hp with h | h | h
    · exact .inl h
    · rw [hopen] at h
      cases h
    · rw [hdead] at h
      cases h
  | post hm =>
    refine hupd rfl rfl rfl fun hp => .inr ?_
    rw [hm.ends hp]
    exact List.mem_append_right _ (List.mem_singleton_self _)
  | @upSend j c rest =>
    refine hupd rfl rfl rfl fun hp => ?_
    simp only [afterChunk] at hp
    split_ifs at hp <;> cases hp
  | @downRecv j up c cs hph =>
    refine hupd rfl rfl rfl fun hp => ?_
    rw [hph]
    left
    rcases up with _ | _ | _ | _ <;> exact hp
  | delivered => exact hupd rfl rfl rfl .inl
  | register | unregister | upRead => exact hupd rfl rfl rfl fun hp => by cases hp
  | _ => exact fun k hk hp => hsub (hi hdead k hk hp)

theorem closeKnown_step (hi : Instances e) (hr : Replies e) (hc : CloseKnown e)
    (hknown : ∀ id p, .data id p ∈ goods e.handled → ∃ k < e.n, (e.inst k).id = id)
    (h : e.Step a e') : CloseKnown e' := by
  intro id hid
  have hn := le_n_of_step h
  have hold : ∃ k < e.n, (e.inst k).id = id := by
    rcases step_close h hid with hid | ⟨j, hj, hid, -⟩ | hf
    · exact hc id hid
    · exact ⟨j, hi.lt hj, hid⟩
    · rcases hr.about (hf.imp And.right And.right) with ⟨_, p, hcl, hp⟩ | ⟨_, hcl, -⟩
      · obtain rfl := Frame.close.inj hcl
        exact hknown id p hp
      · cases hcl
  obtain ⟨k, hk, hid⟩ := hold
  exact ⟨k, by omega, (id_of_step h hk).trans hid⟩

/-- A client that handles no OPEN refuses no stream. -/
theorem not_rejecting_step (hno : opens (goods e'.handled) = [])
    (hi : ∀ k, (e.inst k).phase ≠ .rejecting) (h : e.Step a e') :
    ∀ k, (e'.inst k).phase ≠ .rejecting := by
  have hupd : ∀ {j s}, e'.inst = Function.update e.inst j s → s.phase ≠ .rejecting →
      ∀ k, (e'.inst k).phase ≠ .rejecting := by
    intro j s hinst hs k
    rw [hinst, Function.update_apply]
    split_ifs
    · exact hs
    · exact hi k
  cases h with
  | accept => exact hupd rfl (by simp [Stream.fresh])
  | handleOpen => simp [goods, Outcome.frame?, opens] at hno
  | @move _ j p hm =>
    refine hupd rfl ?_
    generalize (e.inst j).phase = q at hm
    cases hm <;> simp
  | @post _ j p f hp =>
    refine hupd rfl ?_
    generalize (e.inst j).phase = q at hp
    cases hp <;> simp
  | @delivered j => exact hupd rfl (hi j)
  | register | unregister | upRead | upSend | downRecv => exact hupd rfl (by simp)
  | _ => exact hi

/-- What an endpoint that dials nothing and refuses nothing closes, it has opened. -/
theorem closedAfterOpen_step (hr : Replies e) (ha : Announced e) (hside : e.side = .client)
    (hdial : ∀ k, (e.inst k).phase.isDial = false) (hreject : ∀ k, (e.inst k).phase ≠ .rejecting)
    (hknown : ∀ id p, .data id p ∈ goods e.handled → .open id ∈ e.sent)
    (hc : ClosedAfterOpen e.sent) (h : e.Step a e') : ClosedAfterOpen e'.sent := by
  rcases step_sent h with hs | ⟨f, hf, hs⟩
  · rw [hs]
    exact hc
  rw [hs]
  refine hc.concat ?_
  rintro id rfl
  generalize hg : Frame.close id = g at hf
  cases hf with
  | «open» | chunk | ping => cases hg
  | @refuse j hp =>
    rcases hp with hp | hp
    · have hj := hdial j
      rw [hp] at hj
      cases hj
    · exact absurd hp (hreject j)
  | @upClose j down hp =>
    cases hg
    exact ha.opened hside j (by rw [hp]; rfl)
  | reply hr' =>
    rcases hr.about (hr'.imp And.right And.right) with ⟨id', p, hcl, hp⟩ | ⟨_, hcl, -⟩
    · rw [hcl] at hg
      cases hg
      exact hknown id p hp
    · rw [hcl] at hg
      cases hg

/-- An entry is removed by the CLOSE of its stream, and none is made after it. -/
theorem entry_step (hi : ∀ id k, e.streams id = some k → .close id ∉ goods e.handled)
    (hregister : ∀ k, (e.inst k).phase = .allocated → .close (e.inst k).id ∉ goods e.handled)
    (hopen : ∀ id, goods e'.handled = goods e.handled ++ [.open id] →
      .close id ∉ goods e.handled) (h : e.Step a e') :
    ∀ id k, e'.streams id = some k → .close id ∉ goods e'.handled := by
  have hbad : ∀ {o : Outcome}, o.frame? = none → goods (e.handled ++ [o]) = goods e.handled := by
    intro o ho
    rw [goods_append]
    simp [goods, ho]
  have hother : ∀ {f : Frame}, (∀ id, f ≠ .close id) → ∀ id k, e.streams id = some k →
      .close id ∉ goods (e.handled ++ [.good f]) := by
    intro f hf id k hk hmem
    rw [goods_append, goods_good, List.mem_append, List.mem_singleton] at hmem
    rcases hmem with hmem | hmem
    · exact hi id k hk hmem
    · exact hf id hmem.symm
  intro id k hk
  cases h with
  | @register j hp =>
    simp only [register_streams, setPhase_streams, Function.update_apply] at hk
    split_ifs at hk with hid
    · subst hid
      exact hregister j hp
    · exact hi id k hk
  | @handleOpen id' rest =>
    have hgoods : goods (e.handled ++ [.good (.open id')]) = goods e.handled ++ [.open id'] := by
      rw [goods_append, goods_good]
    simp only [register_streams, addStream_streams, setStream_streams, handle_streams,
      Function.update_apply] at hk
    split_ifs at hk with hid
    · subst hid
      have hno := hopen id hgoods
      show .close id ∉ goods (e.handled ++ [.good (.open id)])
      rw [hgoods]
      simpa using hno
    · exact hother (by simp) id k hk
  | @handleClose id' rest =>
    simp only [remove_streams, handle_streams, Function.update_apply] at hk
    split_ifs at hk with hid
    show .close id ∉ goods (e.handled ++ [.good (.close id')])
    rw [goods_append, goods_good, List.mem_append, List.mem_singleton]
    rintro (hmem | hmem)
    · exact hi id k hk hmem
    · exact hid (Frame.close.inj hmem)
  | @handleKill o rest cause _ _ hj =>
    have ho : o.frame? = none := by
      rcases o with f | _ | _
      · cases hj
      · rfl
      · rfl
    show .close id ∉ goods (e.handled ++ [o])
    rw [hbad ho]
    exact hi id k hk
  | @handleBad o rest _ _ ho =>
    show .close id ∉ goods (e.handled ++ [o])
    rw [hbad ho]
    exact hi id k hk
  | handleData | handleUnknown | handlePing | handlePong => exact hother (by simp) id k hk
  | unregister | dropStalled =>
    simp only [remove_streams, setPhase_streams, Function.update_apply] at hk
    split_ifs at hk
    exact hi id k hk
  | closeAll => cases hk
  | _ => exact hi id k hk

end Endpoint

end Carrier

namespace Net

variable {room : Side → ℕ → Bool} {pingSecs : Side → ℕ} {s s' : Net} {a : NetAct} {id : UInt32}

/-! ### The OPEN of a stream -/

/-- The server has a stream exactly for each OPEN it has handled. -/
theorem Base.open_handled_iff (hb : Base s) :
    .open id ∈ goods (s.ep .server).handled ↔
      ∃ k < (s.ep .server).n, ((s.ep .server).inst k).id = id := by
  rw [← mem_opens, ← (hb.endpoint .server).numbered.server (hb.side _), List.mem_map]
  simp only [List.mem_range]

/-- The client has announced each stream that the server has. -/
theorem Base.announced (hb : Base s) (ho : .open id ∈ goods (s.ep .server).handled) :
    ∃ j < (s.ep .client).n, ((s.ep .client).inst j).id = id ∧
      ((s.ep .client).inst j).phase.isUnannounced = false := by
  have hsent := (hb.handled_sublist .server).subset ho
  exact (hb.endpoint .client).announced.known id (mem_opens.mpr hsent)

/-- What the client handles for a stream, the server has a stream for. -/
theorem Base.open_of_data (hb : Base s) {p : Bytes}
    (hd : .data id p ∈ goods (s.ep .client).handled) :
    .open id ∈ goods (s.ep .server).handled := by
  have hsent := (hb.handled_sublist .client).subset hd
  exact hb.open_handled_iff.mpr ((hb.endpoint .server).outbox.known id p hsent)

/-! ### The invariant -/

/-- The invariant of runs over an intact wire. -/
structure CleanupInv (s : Net) : Prop where
  base : Base s
  exact : ∀ x, Exact anyFrame s x
  ends : ∀ x, (s.ep x).EndsByClose
  known : ∀ x, (s.ep x).CloseKnown
  noReject : ∀ k, ((s.ep .client).inst k).phase ≠ .rejecting
  ordered : ClosedAfterOpen (s.ep .client).sent
  entry : (s.ep .client).n ≤ 2 ^ 32 → ∀ x id k, (s.ep x).streams id = some k →
    .close id ∉ goods (s.ep x).handled

theorem cleanupInv_connect : CleanupInv (connect pingSecs) := by
  refine ⟨base_connect pingSecs, exact_connect _ pingSecs, ?_, ?_, ?_, ?_, ?_⟩
  · intro x _ k hk
    exact absurd hk (Nat.not_lt_zero k)
  · intro x id hid
    simp [connect, Endpoint.spawnTunnel] at hid
  · simp [connect, Endpoint.spawnTunnel, Stream.fresh]
  · intro pre id post heq
    simp [connect, Endpoint.spawnTunnel] at heq
  · simp [connect, Endpoint.spawnTunnel]

/-- Before a stream is registered by `accept_connection`, its CLOSE has not been handled. -/
theorem CleanupInv.close_not_handled (hi : CleanupInv s) (hids : (s.ep .client).n ≤ 2 ^ 32) {x : Side}
    {k : ℕ} (hp : ((s.ep x).inst k).phase = .allocated) :
    .close ((s.ep x).inst k).id ∉ goods (s.ep x).handled := by
  intro hclose
  have hb := hi.base
  rcases x with _ | _
  · have hsent := (hb.handled_sublist .client).subset hclose
    have hopen := hb.open_handled_iff.mpr (hi.known .server _ hsent)
    obtain ⟨j, hj, hid, hann⟩ := hb.announced hopen
    have hk : k < (s.ep .client).n := (hb.endpoint .client).instances.lt (by simp [hp])
    obtain rfl := hb.idsDistinct hids .client j hj k hk hid
    rw [hp] at hann
    cases hann
  · have hno := (hb.endpoint .server).fanOut.noAccept (hb.side _) k
    rw [hp] at hno
    cases hno

/-- Before an OPEN is handled, the CLOSE of its stream has not been. -/
theorem close_not_before_open (hb : Base s) (he : ∀ x, Exact anyFrame s x)
    (ho : ClosedAfterOpen (s.ep .client).sent) (hids : (s.ep .client).n ≤ 2 ^ 32) {x : Side}
    {fs : List Frame} (hgoods : goods (s.ep x).handled = fs ++ [.open id]) : .close id ∉ fs := by
  intro hclose
  rcases x with _ | _
  · have hno := hb.opens_client
    rw [hgoods, opens_append] at hno
    simp [opens] at hno
  · have hprefix : fs <+: (s.ep .client).sent := by
      have h := handled_initial he .server
      rw [hgoods] at h
      exact (List.prefix_append _ _).trans h
    have hopen := mem_opens.mpr (ho.open_mem hprefix hclose)
    have hnodup := ((hb.endpoint .client).announced.nodup (hb.idsDistinct hids .client)).sublist
      (opens_sublist (hb.handled_sublist .server))
    rw [hgoods, opens_append, List.nodup_append] at hnodup
    exact hnodup.2.2 id hopen id (by simp [opens]) rfl

theorem cleanupInv_step (hi : CleanupInv s) (hc : IntactStep s a) (h : Step room s a s') :
    CleanupInv s' := by
  have hb := base_step hi.base h
  have he := exact_step hi.base.endpoint hi.exact (hc.spare _) h
  have hordered : ClosedAfterOpen (s'.ep .client).sent := by
    rcases h.endpoint .client with heq | ⟨b, hs, -⟩
    · rw [heq]
      exact hi.ordered
    · have hl := hi.base.endpoint .client
      refine Endpoint.closedAfterOpen_step hl.replies hl.announced (hi.base.side _)
        (hl.fanOut.noDial (hi.base.side _)) hi.noReject ?_ hi.ordered hs
      intro id p hd
      exact (hi.base.handled_sublist .server).subset (hi.base.open_of_data hd)
  refine ⟨hb, he, fun x => ?_, fun x => ?_, ?_, hordered, fun hids x => ?_⟩
  · rcases h.endpoint x with heq | ⟨b, hs, -⟩
    · rw [heq]
      exact hi.ends x
    · exact Endpoint.endsByClose_step (hi.base.endpoint x) (hi.ends x) hs
  · rcases h.endpoint x with heq | ⟨b, hs, -⟩
    · rw [heq]
      exact hi.known x
    · have hl := hi.base.endpoint x
      refine Endpoint.closeKnown_step hl.instances hl.replies (hi.known x) (fun id p hd => ?_) hs
      obtain ⟨k, hk, hid, -⟩ := hi.base.known hi.exact hd
      exact ⟨k, hk, hid⟩
  · rcases h.endpoint .client with heq | ⟨b, hs, -⟩
    · rw [heq]
      exact hi.noReject
    · exact Endpoint.not_rejecting_step hb.opens_client hi.noReject hs
  · have hids' : (s.ep .client).n ≤ 2 ^ 32 := by
      rcases hi.base.n_client h with hn | ⟨-, hn⟩ <;> omega
    rcases h.endpoint x with heq | ⟨b, hs, -⟩
    · rw [heq]
      exact hi.entry hids' x
    · exact Endpoint.entry_step (hi.entry hids' x) (fun k hp => hi.close_not_handled hids' hp)
        (fun id hgoods => close_not_before_open hb he hordered hids hgoods) hs

/-! ### Entries in use -/

/-- **What keeps an entry in the registry**: the peer has not ended its side of the stream, or its CLOSE
is on its way; on the client also that the server has not seen the stream's OPEN yet. -/
inductive InUse (s : Net) (x : Side) (id : UInt32) : Prop
  | running {j : ℕ} : j < (s.ep x.peer).n → ((s.ep x.peer).inst j).id = id →
      ((s.ep x.peer).inst j).phase.hasEnded = false → InUse s x id
  | closing : .close id ∈ (s.ep x.peer).sent → .close id ∉ goods (s.ep x).handled → InUse s x id
  | opening : x = .client → .open id ∉ goods (s.ep .server).handled → InUse s x id

/-- The peer's side of a stream, once there is one, has not ended or has sent its CLOSE. -/
theorem CleanupInv.inUse (hi : CleanupInv s) (hids : (s.ep .client).n ≤ 2 ^ 32) {x : Side} {k j : ℕ}
    (hdead : (s.ep x.peer).dead = false) (hk : (s.ep x).streams id = some k)
    (hj : j < (s.ep x.peer).n) (hid : ((s.ep x.peer).inst j).id = id) : InUse s x id := by
  by_cases hend : ((s.ep x.peer).inst j).phase.hasEnded = true
  · subst hid
    exact .closing (hi.ends x.peer hdead j hj hend) (hi.entry hids x _ k hk)
  · exact .running hj hid (by simpa using hend)

/-- **No stream is leaked**: while both tunnels live, no id was used twice and the wire is intact, every
entry of a registry is in use. -/
theorem registered_in_use (hids : (s.ep .client).n ≤ 2 ^ 32)
    (h : Reaches (step room) IntactStep (connect pingSecs) s) (halive : ∀ x, (s.ep x).dead = false)
    {x : Side} {k : ℕ} (hk : (s.ep x).streams id = some k) : InUse s x id := by
  have hi : CleanupInv s :=
    h.invariant cleanupInv_connect fun hi hc hs => cleanupInv_step hi hc (.of_step hs)
  have hb := hi.base
  rcases x with _ | _
  · by_cases hopen : .open id ∈ goods (s.ep .server).handled
    · obtain ⟨j, hj, hid⟩ := hb.open_handled_iff.mp hopen
      exact hi.inUse hids (halive _) hk hj hid
    · exact .opening rfl hopen
  · obtain ⟨hlt, hid, -⟩ := (hb.endpoint .server).instances.registered id k hk
    obtain ⟨j, hj, hid, -⟩ := hb.announced (hb.open_handled_iff.mpr ⟨k, hlt, hid⟩)
    exact hi.inUse hids (halive _) hk hj hid

/-- The client has ended its stream, and its CLOSE is still on the wire. -/
def closingRun : List NetAct := halfCloseRun.take 33

theorem registered_in_use_closing :
    ∃ s, Reaches (step fun _ _ => true) IntactStep (connect fun _ => 0) s ∧
      ((s.ep .client).inst 0).phase.hasEnded = true ∧ (s.ep .server).streams 1 = some 0 ∧
      InUse s .server 1 := by
  have hrun : ∃ s, Reaches (step fun _ _ => true) IntactStep (connect fun _ => 0) s ∧
      decide ((s.ep .client).n = 1 ∧ (s.ep .client).dead = false ∧ (s.ep .server).dead = false ∧
        ((s.ep .client).inst 0).phase.hasEnded = true ∧
        (s.ep .server).streams 1 = some 0) = true :=
    reaches_of_exec (fun _ a => a.isIntact) closingRun
      (fun _ a (h : a.isIntact = true) => h) (by decide +kernel)
  obtain ⟨s, hs, hp⟩ := hrun
  obtain ⟨hn, hc, hsv, hend, hentry⟩ := of_decide_eq_true hp
  have halive : ∀ x, (s.ep x).dead = false := by
    rintro (_ | _)
    · exact hc
    · exact hsv
  exact ⟨s, hs, hend, hentry, registered_in_use (by omega) hs halive hentry⟩

end Net

end QeliSsPlugin
