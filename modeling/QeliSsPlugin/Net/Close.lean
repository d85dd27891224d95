import QeliSsPlugin.Net.Pair

/-!
# Finality of CLOSE

CLOSE says that its sender has finished sending on a stream. Three tasks send it: the uplink half of
a pump at its end, `on_open` for a stream it refuses, and the reader, which echoes one for DATA it
cannot deliver. The reader does not ask whether the uplink of that stream has ended: a stream whose
local write failed is closed towards the peer while its own pump goes on sending
(`closeFinal_fails`).

`closeFinal_of_echo` says that the echo is the only way to break finality: as long as the reader
echoes a CLOSE only for streams that send no more, and no id is used for two streams, no DATA follows
a CLOSE.
-/

namespace QeliSsPlugin.Net

open Lib.Runs Mux Carrier
open scoped List

variable {room : Side → ℕ → Bool} {pingSecs : Side → ℕ} {s s' : Net} {a : NetAct}

/-- **CLOSE is final for its sender**: no endpoint enqueues DATA for a stream after a CLOSE for it,
and while its tunnel is alive no pump that has FINned its local socket has its reader discard DATA
that came after the peer's CLOSE. -/
structure CloseFinal (s : Net) : Prop where
  sent : ∀ x id p, ¬ [.close id, .data id p] <+ (s.ep x).sent
  fin : ∀ x k up, k < (s.ep x).n → (s.ep x).dead = false →
    ((s.ep x).inst k).phase = .pump up .done → ∀ p,
      ¬ [.close ((s.ep x).inst k).id, .data ((s.ep x).inst k).id p] <+ goods (s.ep x).handled

/-- The wire is intact, the reader echoes a CLOSE only for streams that send no more, and the client
allocates no id twice. -/
structure EchoStep (s : Net) (a : NetAct) : Prop where
  intact : IntactStep s a
  echo : ∀ x b, a = .act x b → (s.ep x).EchoOk b
  fresh : a = .act .client .accept → (s.ep .client).n < 2 ^ 32

/-- The invariant of the runs whose steps are all `EchoStep`s. -/
structure CloseInv (s : Net) : Prop where
  base : Base s
  exact : ∀ x, Exact anyFrame s x
  ids : (s.ep .client).n ≤ 2 ^ 32
  closed : ∀ x, (s.ep x).Closed

theorem closeInv_connect : CloseInv (connect pingSecs) := by
  refine ⟨base_connect pingSecs, exact_connect _ pingSecs, Nat.zero_le _, fun x => ⟨?_, ?_⟩⟩
  · simp [connect, Endpoint.spawnTunnel]
  · simp [connect, Endpoint.spawnTunnel]

/-- The client's instances are those its connections were accepted for. -/
theorem Base.n_client (hb : Base s) (h : Step room s a s') :
    (s'.ep .client).n = (s.ep .client).n ∨
      a = .act .client .accept ∧ (s'.ep .client).n = (s.ep .client).n + 1 := by
  have hno := (base_step hb h).opens_client
  rcases h with @⟨y, b, e, -, hs⟩ | @⟨y, fate, f, -, -⟩ | @⟨y, m, -, -, -⟩ | @⟨y, -, -, -⟩
  · rcases y with _ | _
    · rcases Endpoint.step_create hs with ⟨hn, -, -⟩ | ⟨rfl, -, hn, -⟩ | ⟨id, -, -, ho⟩
      · exact .inl (by simpa using hn)
      · exact .inr ⟨rfl, by simpa using hn⟩
      · simp [ho] at hno
    · left; simp
  all_goals left; rcases y with _ | _ <;> simp

theorem closeInv_step (hi : CloseInv s) (hc : EchoStep s a) (h : Step room s a s') :
    CloseInv s' := by
  have hb := base_step hi.base h
  have hids : (s'.ep .client).n ≤ 2 ^ 32 := by
    have := hi.ids
    rcases hi.base.n_client h with hn | ⟨ha, hn⟩
    · omega
    · have := hc.fresh ha
      omega
  refine ⟨hb, exact_step hi.base.endpoint hi.exact (hc.intact.spare _) h, hids, fun x => ?_⟩
  have hdist := hb.idsDistinct hids x
  have hl := hi.base.endpoint x
  have hknown : ∀ id p, .data id p ∈ goods (s.ep x).handled →
      ∃ k < (s.ep x).n, ((s.ep x).inst k).id = id := by
    intro id p hd
    obtain ⟨k, hk, hid, -⟩ := hi.base.known hi.exact hd
    exact ⟨k, hk, hid⟩
  rcases h.endpoint x with heq | ⟨b, hs, hact⟩
  · rw [heq]; exact hi.closed x
  · refine Endpoint.closed_step hl.instances hl.replies (hi.closed x) hdist ?_ hknown hs
    rcases hact with hact | ⟨hwire, -⟩
    · exact hc.echo x b hact
    · -- a step of the socket echoes nothing
      rintro id (⟨rfl, -⟩ | ⟨rfl, -⟩) <;> cases hwire

/-- **CLOSE is final in every run in which the reader echoes it only for streams that send no
more.** -/
theorem closeFinal_of_echo (h : Reaches (step room) EchoStep (connect pingSecs) s) :
    CloseFinal s := by
  have hi : CloseInv s :=
    h.invariant closeInv_connect fun hi hc hs => closeInv_step hi hc (.of_step hs)
  refine ⟨fun x => (hi.closed x).final, fun x k up _ _ _ p hsub => ?_⟩
  exact (hi.closed x.peer).final _ p (hsub.trans (hi.base.handled_sublist x))

/-- One stream: the server's second chunk arrives after the client's local write has failed. The
client's reader echoes a CLOSE, then the client's pump sends a chunk of its own, which the server
discards. -/
def echoRun : List NetAct :=
  [.act .client .accept, .act .client (.register 0), .act .client (.open 0),
    .act .client (.spawn 0), .act .client .writerTop, .act .client .writerTake,
    .write .client .intact,
    .act .server .readerTop, .act .server .dispatch, .read .server 1, .act .server .readerTop,
    .act .server .dispatch, .act .server (.dialOk 0),
    .act .server (.upRead 0 [1]), .act .server (.upSend 0), .act .server (.upRead 0 [2]),
    .act .server (.upSend 0), .act .server .writerTop, .act .server .writerTake,
    .write .server .intact, .act .server .writerTop, .act .server .writerTake,
    .write .server .intact,
    .act .client .readerTop, .act .client .dispatch, .read .client 1, .act .client .readerTop,
    .act .client .dispatch, .act .client .delivered, .act .client (.downRecv 0),
    .act .client (.downFail 0), .act .client .dispatch, .read .client 1, .act .client .readerTop,
    .act .client .dispatch, .act .client .undeliverable, .act .client .reply,
    .act .client (.upRead 0 [3]), .act .client (.upSend 0), .act .client .writerTop,
    .act .client .writerTake, .write .client .intact, .act .client .writerTop,
    .act .client .writerTake, .write .client .intact,
    .act .server .dispatch, .read .server 2, .act .server .readerTop, .act .server .dispatch,
    .act .server (.downEnd 0), .act .server .dispatch]

/-- An echoed CLOSE is not final: the client's pump sends on, and the server, whose pump has FINned
its local socket, discards what it sends. -/
theorem closeFinal_fails : ∃ s, Reaches (step fun _ _ => true) IntactStep (connect fun _ => 0) s ∧
    [.close 1, .data 1 [3]] <+ (s.ep .client).sent ∧
    (s.ep .server).dead = false ∧ ((s.ep .server).inst 0).id = 1 ∧
    ((s.ep .server).inst 0).phase = .pump .reading .done ∧
    [.close 1, .data 1 [3]] <+ goods (s.ep .server).handled ∧ ¬ CloseFinal s := by
  have hrun : ∃ s, Reaches (step fun _ _ => true) IntactStep (connect fun _ => 0) s ∧
      decide ((s.ep .client).sent = [.open 1, .close 1, .data 1 [3]] ∧
        (s.ep .server).dead = false ∧ ((s.ep .server).inst 0).id = 1 ∧
        ((s.ep .server).inst 0).phase = .pump .reading .done ∧
        goods (s.ep .server).handled = [.open 1, .close 1, .data 1 [3]]) = true := by
    exact reaches_of_exec (fun _ (a : NetAct) => a.isIntact) echoRun (fun _ _ h => h)
      (by decide +kernel)
  obtain ⟨s, hs, hp⟩ := hrun
  obtain ⟨hsent, hdead, hid, hph, hhandled⟩ := of_decide_eq_true hp
  have hsub : [Frame.close 1, .data 1 [3]] <+ [.open 1, .close 1, .data 1 [3]] := by decide
  refine ⟨s, hs, hsent ▸ hsub, hdead, hid, hph, hhandled ▸ hsub, fun hf => ?_⟩
  exact hf.sent .client 1 [3] (hsent ▸ hsub)

/-- A check for `EchoStep`. -/
def echoCheck (s : Net) (a : NetAct) : Bool :=
  a.isIntact && match a with
    | .act .client .accept => decide ((s.ep .client).n < 2 ^ 32)
    | .act x .reply =>
      match (s.ep x).reader with
      | .replying (.close id) =>
        (List.range (s.ep x).n).all fun k =>
          ((s.ep x).inst k).id ≠ id || !((s.ep x).inst k).phase.maySend
      | _ => true
    | .act _ .resume => false
    | _ => true

theorem echoStep_of_check (h : echoCheck s a = true) : EchoStep s a := by
  unfold echoCheck at h
  rw [Bool.and_eq_true] at h
  refine ⟨h.1, ?_, ?_⟩
  · rintro x b rfl id (⟨rfl, hr⟩ | ⟨rfl, hr⟩)
    · rintro ⟨k, hk, hid, hup⟩
      have h2 := h.2
      rcases x with _ | _ <;> simp only [hr] at h2 <;>
        simpa [hid, hup] using List.all_eq_true.mp h2 k (List.mem_range.mpr hk)
    · rcases x with _ | _ <;> simp at h
  · rintro rfl
    simpa using h.2

/-- The same failed write after the client's own uplink has ended: the echo is harmless. -/
def endedRun : List NetAct :=
  echoRun.take 13 ++ [.act .client (.upEof 0), .act .client (.upClose 0)] ++
    (echoRun.drop 13).take 24

theorem closeFinal_of_endedRun :
    ∃ s, Reaches (step fun _ _ => true) EchoStep (connect fun _ => 0) s ∧
      (s.ep .client).sent = [.open 1, .close 1, .close 1] ∧ CloseFinal s := by
  have hrun : ∃ s, Reaches (step fun _ _ => true) EchoStep (connect fun _ => 0) s ∧
      decide ((s.ep .client).sent = [.open 1, .close 1, .close 1]) = true :=
    reaches_of_exec echoCheck endedRun (fun _ _ => echoStep_of_check)
      (by decide +kernel)
  obtain ⟨s, hs, hp⟩ := hrun
  exact ⟨s, hs, of_decide_eq_true hp, closeFinal_of_echo hs⟩

end QeliSsPlugin.Net
