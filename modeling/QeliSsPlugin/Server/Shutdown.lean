import QeliSsPlugin.Carrier.History

/-!
# Server shutdown

`serve` accepts connections until the shutdown signal, then drains the list of live tunnels, kills
each of them, aborts the connection tasks and returns. The connection tasks run on other threads
meanwhile: a `handle_conn` whose handshake completes late spawns its tunnel and pushes it into the list
after the drain, and nobody kills it (`shutdown_misses`). An abort does not help: it takes effect only
while the task awaits its handshake, and not on the tunnel's own tasks.

`shutdown_kills` says that the late push is the only way to escape.
-/

namespace QeliSsPlugin.Server

open Lib.Runs Carrier

/-- Where a `handle_conn` task is. It awaits nothing after its handshake. -/
inductive Conn
  | handshaking
  /-- The handshake has completed, the tunnel is not spawned yet. -/
  | authenticated
  /-- The tunnel is spawned, not pushed into the list yet. -/
  | spawned
  | ended
  deriving DecidableEq

/-- Where `serve` is. -/
inductive Serve
  /-- In the accept loop. -/
  | running
  /-- Out of the loop, about to drain the list. -/
  | draining
  /-- Killing the drained tunnels: the one whose `kill` is awaited, and those still to come. -/
  | killing (current : Option ℕ) (rest : List ℕ)
  | returned
  deriving DecidableEq

structure State where
  serve : Serve
  /-- The connection tasks `0, …, n - 1`. -/
  conns : ℕ → Conn
  n : ℕ
  /-- The list of live tunnels, each by the connection that spawned it. -/
  tunnels : List ℕ
  /-- The tunnel a connection spawned. -/
  tunnel : ℕ → Option Endpoint
  /-- Whether `abort_all` was called. -/
  aborted : Bool

inductive Action
  -- `serve`
  | accept
  | shutdown
  | drain
  | killNext
  | killed
  | abortAll
  -- `handle_conn`
  | handshakeOk (i : ℕ)
  | handshakeErr (i : ℕ)
  | abort (i : ℕ)
  | spawnTunnel (i : ℕ)
  | push (i : ℕ)
  -- the tasks of a tunnel, and whoever else kills it
  | tunnel (i : ℕ) (a : Act)
  deriving DecidableEq

namespace State

/-- The server before its first connection. -/
def start : State := ⟨.running, fun _ => .ended, 0, [], fun _ => none, false⟩

/-- Move the task of a connection. -/
@[simps] def setConn (s : State) (i : ℕ) (c : Conn) : State :=
  { s with conns := Function.update s.conns i c }

/-- Change a tunnel. -/
@[simps] def setTunnel (s : State) (i : ℕ) (e : Endpoint) : State :=
  { s with tunnel := Function.update s.tunnel i (some e) }

/-- Whether a tunnel is there and not dead. -/
def isLive (s : State) (i : ℕ) : Bool :=
  match s.tunnel i with
  | some e => !e.dead
  | none => false

/-- The `kill` that `serve` calls. -/
def shutdownKill : Who := .caller 0

end State

open State

variable (pingSecs : ℕ)

/-- **One step of the server.** -/
def step (s : State) : Action → Option State
  | .accept =>
    if s.serve = .running then some { s.setConn s.n .handshaking with n := s.n + 1 } else none
  | .shutdown => if s.serve = .running then some { s with serve := .draining } else none
  | .drain =>
    if s.serve = .draining then some { s with serve := .killing none s.tunnels, tunnels := [] }
    else none
  | .killNext =>
    match s.serve with
    | .killing none (i :: rest) =>
      match s.tunnel i with
      | some e =>
        (e.step (.kill 0)).map fun e => { s.setTunnel i e with serve := .killing (some i) rest }
      | none => none
    | _ => none
  | .killed =>
    match s.serve with
    | .killing (some i) rest =>
      match s.tunnel i with
      | some e =>
        if e.exit shutdownKill = .done then some { s with serve := .killing none rest } else none
      | none => none
    | _ => none
  | .abortAll =>
    if s.serve = .killing none [] then some { s with serve := .returned, aborted := true } else none
  | .handshakeOk i =>
    if s.conns i = .handshaking then some (s.setConn i .authenticated) else none
  | .handshakeErr i => if s.conns i = .handshaking then some (s.setConn i .ended) else none
  | .abort i =>
    if s.aborted ∧ s.conns i = .handshaking then some (s.setConn i .ended) else none
  | .spawnTunnel i =>
    if s.conns i = .authenticated then
      some ((s.setConn i .spawned).setTunnel i (.spawnTunnel .server pingSecs))
    else none
  | .push i =>
    if s.conns i = .spawned then
      some { s.setConn i .ended with tunnels := s.tunnels.filter s.isLive ++ [i] }
    else none
  | .tunnel i a =>
    match s.tunnel i with
    | some e => if a = .kill 0 then none else (e.step a).map (s.setTunnel i)
    | none => none

variable {pingSecs} {s s' : State} {a : Action}

/-- No connection pushes a live tunnel once the list has been drained. -/
def TimelyStep (s : State) (a : Action) : Prop :=
  ∀ i, a = .push i → s.serve = .running ∨ s.serve = .draining ∨ s.isLive i = false

/-- **Shutdown kills every tunnel**: once `serve` has returned and every connection task has ended,
every tunnel ever spawned is dead. -/
def AllDead (s : State) : Prop :=
  s.serve = .returned → (∀ i < s.n, s.conns i = .ended) →
    ∀ i e, s.tunnel i = some e → e.dead = true

/-- Where a live tunnel still is on its way to be killed. -/
inductive Accounted (s : State) (i : ℕ) : Prop
  | unpushed : s.conns i = .spawned → Accounted s i
  | listed : i ∈ s.tunnels → s.serve = .running ∨ s.serve = .draining → Accounted s i
  | awaited {current rest} : s.serve = .killing current rest → i ∈ rest → Accounted s i
  | current {rest} : s.serve = .killing (some i) rest → Accounted s i

/-- Every live tunnel is accounted for. -/
structure Inv (s : State) : Prop where
  endpoint : ∀ i e, s.tunnel i = some e → e.DeadFirst
  range : ∀ i, s.n ≤ i → s.conns i = .ended
  live : ∀ i e, s.tunnel i = some e → e.dead = true ∨ Accounted s i

theorem inv_start : Inv start :=
  ⟨by simp [start], fun _ _ => rfl, by simp [start]⟩

theorem Accounted.of_serve {i : ℕ} (h : Accounted s i) (hc : s'.conns i = s.conns i)
    (ht : i ∈ s.tunnels → i ∈ s'.tunnels) (hs : s'.serve = s.serve) : Accounted s' i := by
  rcases h with h | ⟨h1, h2⟩ | ⟨h1, h2⟩ | h
  · exact .unpushed (hc.trans h)
  · exact .listed (ht h1) (hs ▸ h2)
  · exact .awaited (hs.trans h1) h2
  · exact .current (hs.trans h)

/-- A step that changes nothing but where a task of a connection is. -/
theorem Inv.setConn (hi : Inv s) {i : ℕ} {c : Conn} (hne : s.conns i ≠ .spawned)
    (hlt : i < s.n) : Inv (s.setConn i c) := by
  refine ⟨hi.endpoint, fun j hj => ?_, fun j e he => ?_⟩
  · simp only [setConn_n] at hj
    simp [Function.update_of_ne (show j ≠ i by omega), hi.range j hj]
  · refine (hi.live j e he).imp_right fun hacc => ?_
    by_cases hj : j = i
    · subst hj
      rcases hacc with h | ⟨h1, h2⟩ | ⟨h1, h2⟩ | h
      · exact absurd h hne
      · exact .listed h1 h2
      · exact .awaited h1 h2
      · exact .current h
    · exact hacc.of_serve (by simp [Function.update_of_ne hj]) id rfl

/-- A step of one tunnel. -/
theorem Inv.setTunnel (hi : Inv s) {i : ℕ} {e e' : Endpoint} {b : Act} (he : s.tunnel i = some e)
    (hs : e.step b = some e') : Inv (s.setTunnel i e') := by
  have hother : ∀ {j e₁}, j ≠ i → (s.setTunnel i e').tunnel j = some e₁ → s.tunnel j = some e₁ := by
    intro j e₁ hj h
    simpa [Function.update_of_ne hj] using h
  refine ⟨fun j e₁ h => ?_, hi.range, fun j e₁ h => ?_⟩
  · by_cases hj : j = i
    · subst hj
      obtain rfl : e' = e₁ := by simpa using h
      exact Endpoint.deadFirst_step (hi.endpoint j e he) (.of_step hs)
    · exact hi.endpoint j e₁ (hother hj h)
  · by_cases hj : j = i
    · subst hj
      obtain rfl : e' = e₁ := by simpa using h
      rcases hi.live j e he with hd | hacc
      · exact .inl (Endpoint.dead_mono (.of_step hs) hd)
      · exact .inr (hacc.of_serve rfl id rfl)
    · exact (hi.live j e₁ (hother hj h)).imp_right fun hacc => hacc.of_serve rfl id rfl

theorem Inv.lt (hi : Inv s) {i : ℕ} (h : s.conns i ≠ .ended) : i < s.n := by
  by_contra hn
  exact h (hi.range i (by omega))

theorem inv_step (hi : Inv s) (hc : TimelyStep s a) (h : step pingSecs s a = some s') :
    Inv s' := by
  cases a <;> simp only [step] at h
  case accept =>
    split_ifs at h with hs
    obtain rfl := Option.some.inj h
    refine ⟨hi.endpoint, fun j hj => ?_, fun j e he => ?_⟩
    · have hj : s.n + 1 ≤ j := hj
      simp [Function.update_of_ne (show j ≠ s.n by omega), hi.range j (by omega)]
    · refine (hi.live j e he).imp_right fun hacc => ?_
      by_cases hj : j = s.n
      · subst hj
        rcases hacc with h | ⟨h1, h2⟩ | ⟨h1, h2⟩ | h
        · rw [hi.range s.n le_rfl] at h; cases h
        · exact .listed h1 h2
        · exact .awaited h1 h2
        · exact .current h
      · exact hacc.of_serve (by simp [Function.update_of_ne hj]) id rfl
  case shutdown =>
    split_ifs at h with hs
    obtain rfl := Option.some.inj h
    refine ⟨hi.endpoint, hi.range, fun j e he => (hi.live j e he).imp_right fun hacc => ?_⟩
    rcases hacc with h | ⟨h1, -⟩ | ⟨h1, -⟩ | h
    · exact .unpushed h
    · exact .listed h1 (.inr rfl)
    · rw [hs] at h1; cases h1
    · rw [hs] at h; cases h
  case drain =>
    split_ifs at h with hs
    obtain rfl := Option.some.inj h
    refine ⟨hi.endpoint, hi.range, fun j e he => (hi.live j e he).imp_right fun hacc => ?_⟩
    rcases hacc with h | ⟨h1, -⟩ | ⟨h1, -⟩ | h
    · exact .unpushed h
    · exact .awaited rfl h1
    · rw [hs] at h1; cases h1
    · rw [hs] at h; cases h
  case killNext =>
    split at h
    · next i rest hs =>
      split at h
      · next e he =>
        obtain ⟨e', hk, rfl⟩ := Option.map_eq_some_iff.mp h
        have hi' := hi.setTunnel he hk
        refine ⟨hi'.endpoint, hi'.range, fun j e₁ h₁ => (hi'.live j e₁ h₁).imp_right fun hacc => ?_⟩
        rcases hacc with h | ⟨-, h2⟩ | ⟨h1, h2⟩ | h
        · exact .unpushed h
        · simp [hs] at h2
        · simp only [setTunnel_serve, hs, Serve.killing.injEq] at h1
          obtain ⟨-, rfl⟩ := h1
          rcases List.mem_cons.mp h2 with rfl | h2
          · exact .current rfl
          · exact .awaited rfl h2
        · simp [hs] at h
      · cases h
    · cases h
  case killed =>
    split at h
    · next i rest hs =>
      split at h
      · next e he =>
        split_ifs at h with hx
        obtain rfl := Option.some.inj h
        refine ⟨hi.endpoint, hi.range, fun j e₁ h₁ => ?_⟩
        rcases hi.live j e₁ h₁ with hd | hacc
        · exact .inl hd
        rcases hacc with h | ⟨-, h2⟩ | ⟨h1, h2⟩ | h
        · exact .inr (.unpushed h)
        · simp [hs] at h2
        · simp only [hs, Serve.killing.injEq] at h1
          exact .inr (.awaited rfl (h1.2 ▸ h2))
        · -- its `kill` has returned, so the tunnel is dead
          simp only [hs, Serve.killing.injEq, Option.some.injEq] at h
          obtain ⟨rfl, -⟩ := h
          rw [he] at h₁
          obtain rfl := Option.some.inj h₁
          exact .inl ((hi.endpoint i e he).exit _ (.inr hx))
      · cases h
    · cases h
  case abortAll =>
    split_ifs at h with hs
    obtain rfl := Option.some.inj h
    refine ⟨hi.endpoint, hi.range, fun j e he => (hi.live j e he).imp_right fun hacc => ?_⟩
    rcases hacc with h | ⟨-, h2⟩ | ⟨h1, h2⟩ | h
    · exact .unpushed h
    · simp [hs] at h2
    · simp only [hs, Serve.killing.injEq] at h1
      rw [← h1.2] at h2
      cases h2
    · simp [hs] at h
  case handshakeOk i =>
    split_ifs at h with hs
    obtain rfl := Option.some.inj h
    exact hi.setConn (by simp [hs]) (hi.lt (by simp [hs]))
  case handshakeErr i =>
    split_ifs at h with hs
    obtain rfl := Option.some.inj h
    exact hi.setConn (by simp [hs]) (hi.lt (by simp [hs]))
  case abort i =>
    split_ifs at h with hs
    obtain rfl := Option.some.inj h
    exact hi.setConn (by simp [hs.2]) (hi.lt (by simp [hs.2]))
  case spawnTunnel i =>
    split_ifs at h with hs
    obtain rfl := Option.some.inj h
    have hi' := hi.setConn (c := .spawned) (i := i) (by simp [hs]) (hi.lt (by simp [hs]))
    refine ⟨fun j e he => ?_, hi'.range, fun j e he => ?_⟩
    · by_cases hj : j = i
      · subst hj
        obtain rfl : Endpoint.spawnTunnel .server pingSecs = e := by simpa using he
        exact Endpoint.local_spawnTunnel.deadFirst
      · exact hi.endpoint j e (by simpa [Function.update_of_ne hj] using he)
    · by_cases hj : j = i
      · subst hj
        exact .inr (.unpushed (by simp))
      · exact (hi'.live j e (by simpa [Function.update_of_ne hj] using he)).imp_right
          fun hacc => hacc.of_serve rfl id rfl
  case push i =>
    split_ifs at h with hs
    obtain rfl := Option.some.inj h
    have htimely := hc i rfl
    have hlt := hi.lt (i := i) (by simp [hs])
    refine ⟨hi.endpoint, fun j hj => ?_, fun j e he => ?_⟩
    · have hj : s.n ≤ j := hj
      simp [Function.update_of_ne (show j ≠ i by omega), hi.range j hj]
    · rcases hd : e.dead with _ | _
      · right
        have hlive : s.isLive j = true := by simp [isLive, show s.tunnel j = some e from he, hd]
        by_cases hj : j = i
        · subst hj
          have hserve : s.serve = .running ∨ s.serve = .draining := by simpa [hlive] using htimely
          exact .listed (by simp) hserve
        rcases (hi.live j e he).resolve_left (by simp [hd]) with h | ⟨h1, h2⟩ | ⟨h1, h2⟩ | h
        · exact .unpushed (by simp [Function.update_of_ne hj, h])
        · -- only dead tunnels are dropped from the list
          exact .listed (List.mem_append_left _ (List.mem_filter.mpr ⟨h1, hlive⟩)) h2
        · exact .awaited h1 h2
        · exact .current h
      · exact .inl rfl
  case tunnel i b =>
    split at h
    · next e he =>
      split_ifs at h
      obtain ⟨e', hs, rfl⟩ := Option.map_eq_some_iff.mp h
      exact hi.setTunnel he hs
    · cases h

/-- **Shutdown kills every tunnel** if no connection pushes a live tunnel after the drain. -/
theorem shutdown_kills (h : Reaches (step pingSecs) TimelyStep start s) : AllDead s := by
  have hi : Inv s := h.invariant inv_start inv_step
  intro hret hended i e he
  refine (hi.live i e he).resolve_right fun hacc => ?_
  rcases hacc with h | ⟨-, h2⟩ | ⟨h1, -⟩ | h
  · have := hended i (hi.lt (by simp [h]))
    rw [h] at this; cases this
  · simp [hret] at h2
  · rw [hret] at h1; cases h1
  · rw [hret] at h; cases h

/-- A connection that is in its handshake at the drain. -/
def lateHandshake : List Action :=
  [.accept, .shutdown, .drain, .handshakeOk 0, .spawnTunnel 0, .push 0, .abortAll]

/-- A tunnel spawned after the drain outlives the server. -/
theorem shutdown_misses :
    ∃ s, Reachable (step 1) start s ∧ s.serve = .returned ∧ (∀ i < s.n, s.conns i = .ended) ∧
      (∃ e, s.tunnel 0 = some e ∧ e.dead = false) ∧ ¬ AllDead s := by
  have hrun : ∃ s, Reachable (step 1) start s ∧
      decide (s.serve = .returned ∧ s.n = 1 ∧ s.conns 0 = .ended ∧
        (s.tunnel 0).map (·.dead) = some false) = true :=
    reaches_of_exec (fun _ _ => true) lateHandshake (fun _ _ _ => trivial) (by decide +kernel)
  obtain ⟨s, hs, hp⟩ := hrun
  obtain ⟨hret, hn, hconn, hlive⟩ := of_decide_eq_true hp
  obtain ⟨e, he, hd⟩ := Option.map_eq_some_iff.mp hlive
  have hended : ∀ i < s.n, s.conns i = .ended := by
    intro i hi
    obtain rfl : i = 0 := by omega
    exact hconn
  refine ⟨s, hs, hret, hended, ⟨e, he, hd⟩, fun hall => ?_⟩
  have := hall hret hended 0 e he
  rw [hd] at this; cases this

def timelyCheck (s : State) : Action → Bool
  | .push i => s.serve = .running || s.serve = .draining || !s.isLive i
  | _ => true

/-- One connection pushed in time, another still in its handshake at the abort. -/
def timelyShutdown : List Action :=
  [Action.accept, .accept, .handshakeOk 0, .spawnTunnel 0, .push 0, .shutdown, .drain, .killNext] ++
    List.replicate 3 (Action.tunnel 0 (.exit shutdownKill)) ++ [Action.killed, .abortAll, .abort 1]

theorem shutdown_kills_timely :
    ∃ s e, Reaches (step 1) TimelyStep start s ∧ s.serve = .returned ∧ s.tunnel 0 = some e ∧
      e.dead = true := by
  have hcheck : ∀ s a, timelyCheck s a = true → TimelyStep s a := by
    rintro s a h i rfl
    simpa [timelyCheck, or_assoc] using h
  have hrun : ∃ s, Reaches (step 1) TimelyStep start s ∧
      decide (s.serve = .returned ∧ s.n = 2 ∧ s.conns 0 = .ended ∧ s.conns 1 = .ended ∧
        (s.tunnel 0).isSome) = true :=
    reaches_of_exec timelyCheck timelyShutdown hcheck (by decide +kernel)
  obtain ⟨s, hs, hp⟩ := hrun
  obtain ⟨hret, hn, h0, h1, hsome⟩ := of_decide_eq_true hp
  obtain ⟨e, he⟩ := Option.isSome_iff_exists.mp hsome
  refine ⟨s, e, hs, hret, he, shutdown_kills hs hret ?_ 0 e he⟩
  intro i hi
  obtain rfl | rfl : i = 0 ∨ i = 1 := by omega
  · exact h0
  · exact h1

end QeliSsPlugin.Server
