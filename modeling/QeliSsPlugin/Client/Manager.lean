import QeliSsPlugin.Carrier.Death

/-!
# The client's tunnel manager

`TunnelManager` caches one tunnel behind a mutex. `tunnel()` takes the mutex, returns the cached tunnel if
it is alive, and dials a new one otherwise; the mutex is held through the dial. `accept_connection`
gets a tunnel this way, opens a stream on it, and starts over once if the tunnel turns out to be dead.
Any number of calls run at once, and the tunnels live and die on their own meanwhile: every tunnel is a
full `Endpoint`, of which the calls take the steps of `accept_connection` and everybody else the others.

`one_live_tunnel`: at most one of all the tunnels ever dialed is alive.
-/

namespace QeliSsPlugin.Client

open Lib.Runs Carrier

/-- Which method a call runs; `accept_connection` with the number of its attempt. -/
inductive Method
  | tunnel
  | acceptConnection (attempt : ℕ)
  deriving DecidableEq

/-- Where a call is; `t` is the tunnel it got, `k` its stream there. -/
inductive Call
  | idle
  /-- Waiting for the mutex. -/
  | locking (m : Method)
  /-- With the mutex, about to look at the cached tunnel. -/
  | checking (m : Method)
  /-- With the mutex, connecting and shaking hands. -/
  | dialing (m : Method)
  /-- With the mutex and a new tunnel, about to cache it. -/
  | storing (m : Method) (t : ℕ)
  | allocating (attempt t : ℕ)
  | registering (attempt t k : ℕ)
  | opening (attempt t k : ℕ)
  /-- OPEN is sent, about to check that the tunnel is alive and to spawn the pump. -/
  | confirming (attempt t k : ℕ)
  | done (result : Except String ℕ)

/-- How often `accept_connection` tries. -/
def attempts : ℕ := 2

namespace Call

/-- Whether the call has the mutex. -/
def holdsLock : Call → Bool
  | .checking _ | .dialing _ | .storing _ _ => true
  | _ => false

/-- Whether the call has found that a new tunnel is needed. -/
def isDialing : Call → Bool
  | .dialing _ | .storing _ _ => true
  | _ => false

/-- `tunnel()` returned a tunnel. -/
def obtained : Method → ℕ → Call
  | .tunnel, t => .done (.ok t)
  | .acceptConnection attempt, t => .allocating attempt t

/-- `tunnel()`, or what `accept_connection` did with its tunnel, failed. -/
def failed : Method → String → Call
  | .tunnel, error => .done (.error error)
  | .acceptConnection attempt, error =>
    if attempt + 1 < attempts then .locking (.acceptConnection (attempt + 1))
    else .done (.error ("no usable tunnel: " ++ error))

@[simp] theorem holdsLock_obtained (m : Method) (t : ℕ) : (obtained m t).holdsLock = false := by
  cases m <;> rfl

@[simp] theorem holdsLock_failed (m : Method) (error : String) :
    (failed m error).holdsLock = false := by
  cases m with
  | tunnel => rfl
  | acceptConnection attempt =>
    simp only [failed]
    split_ifs <;> rfl

theorem holdsLock_of_isDialing {p : Call} (h : p.isDialing = true) : p.holdsLock = true := by
  cases p <;> first | rfl | cases h

theorem ne_storing {p : Call} (h : p.holdsLock = false) (m : Method) (t : ℕ) : p ≠ .storing m t := by
  rintro rfl
  cases h

end Call

structure TunnelManager where
  /-- The cached tunnel. -/
  current : Option ℕ
  /-- The call that has the mutex. -/
  lock : Option ℕ
  /-- The tunnels dialed so far: `0, …, n - 1`. -/
  tunnel : ℕ → Option Endpoint
  n : ℕ
  calls : ℕ → Call

inductive Action
  -- a new call
  | callTunnel (c : ℕ)
  | callAccept (c : ℕ)
  -- `tunnel()`
  | lock (c : ℕ)
  | check (c : ℕ)
  | dialErr (c : ℕ) (error : String)
  | dialOk (c : ℕ)
  | store (c : ℕ)
  -- `accept_connection`
  | allocId (c : ℕ)
  | register (c : ℕ)
  | open (c : ℕ)
  | spawn (c : ℕ)
  -- the tasks of a tunnel, and whoever kills it
  | tunnel (t : ℕ) (a : Act)

/-- The steps of an endpoint that belong to `accept_connection`. -/
def isAcceptAct : Act → Bool
  | .accept | .register _ | .open _ | .spawn _ => true
  | _ => false

namespace TunnelManager

/-- The manager before its first call. -/
def new : TunnelManager := ⟨none, none, fun _ => none, 0, fun _ => .idle⟩

/-- Move a call. -/
@[simps] def setCall (s : TunnelManager) (c : ℕ) (p : Call) : TunnelManager :=
  { s with calls := Function.update s.calls c p }

/-- Change a tunnel. -/
@[simps] def setTunnel (s : TunnelManager) (t : ℕ) (e : Endpoint) : TunnelManager :=
  { s with tunnel := Function.update s.tunnel t (some e) }

/-- Whether the tunnel `t` is there and alive. -/
def isLive (s : TunnelManager) (t : ℕ) : Bool :=
  match s.tunnel t with
  | some e => !e.dead
  | none => false

/-- A call takes a step of its stream on its tunnel, and moves on by what the tunnel was and is. -/
def work (s : TunnelManager) (c t : ℕ) (a : Act) (next : Endpoint → Endpoint → Call) :
    Option TunnelManager :=
  match s.tunnel t with
  | some e => (e.step a).map fun e' => (s.setTunnel t e').setCall c (next e e')
  | none => none

/-- **One step of the manager's calls and tunnels.** -/
def step (pingSecs : ℕ) (s : TunnelManager) : Action → Option TunnelManager
  | .callTunnel c =>
    match s.calls c with
    | .idle => some (s.setCall c (.locking .tunnel))
    | _ => none
  | .callAccept c =>
    match s.calls c with
    | .idle => some (s.setCall c (.locking (.acceptConnection 0)))
    | _ => none
  | .lock c =>
    match s.calls c, s.lock with
    | .locking m, none => some { s.setCall c (.checking m) with lock := some c }
    | _, _ => none
  | .check c =>
    match s.calls c with
    | .checking m =>
      match s.current with
      | some t =>
        if s.isLive t then some { s.setCall c (.obtained m t) with lock := none }
        else some (s.setCall c (.dialing m))
      | none => some (s.setCall c (.dialing m))
    | _ => none
  | .dialErr c error =>
    match s.calls c with
    | .dialing m => some { s.setCall c (.failed m error) with lock := none }
    | _ => none
  | .dialOk c =>
    match s.calls c with
    | .dialing m =>
      some { (s.setCall c (.storing m s.n)).setTunnel s.n (.spawnTunnel .client pingSecs) with
        n := s.n + 1 }
    | _ => none
  | .store c =>
    match s.calls c with
    | .storing m t => some { s.setCall c (.obtained m t) with current := some t, lock := none }
    | _ => none
  | .allocId c =>
    match s.calls c with
    | .allocating i t => s.work c t .accept fun e _ => .registering i t e.n
    | _ => none
  | .register c =>
    match s.calls c with
    | .registering i t k => s.work c t (.register k) fun _ _ => .opening i t k
    | _ => none
  | .open c =>
    match s.calls c with
    | .opening i t k => s.work c t (.open k) fun _ e' =>
        if (e'.inst k).phase = .dropped then .failed (.acceptConnection i) "tunnel is down"
        else .confirming i t k
    | _ => none
  | .spawn c =>
    match s.calls c with
    | .confirming i t k => s.work c t (.spawn k) fun _ e' =>
        let id := (e'.inst k).id
        if (e'.inst k).phase = .dropped then
          .failed (.acceptConnection i) s!"tunnel died while opening stream {id}"
        else .done (.ok t)
    | _ => none
  | .tunnel t a =>
    match s.tunnel t with
    | some e => if isAcceptAct a then none else (e.step a).map (s.setTunnel t)
    | none => none

/-- **Every step of the manager**, with what it does to the call and to its tunnel. -/
inductive Does (pingSecs : ℕ) (s : TunnelManager) : Action → TunnelManager → Prop
  | callTunnel {c} : s.calls c = .idle →
      Does pingSecs s (.callTunnel c) (s.setCall c (.locking .tunnel))
  | callAccept {c} : s.calls c = .idle →
      Does pingSecs s (.callAccept c) (s.setCall c (.locking (.acceptConnection 0)))
  | lock {c m} : s.calls c = .locking m → s.lock = none →
      Does pingSecs s (.lock c) { s.setCall c (.checking m) with lock := some c }
  | hit {c m t} : s.calls c = .checking m → s.current = some t → s.isLive t = true →
      Does pingSecs s (.check c) { s.setCall c (.obtained m t) with lock := none }
  | miss {c m} : s.calls c = .checking m → (∀ t, s.current = some t → s.isLive t = false) →
      Does pingSecs s (.check c) (s.setCall c (.dialing m))
  | dialErr {c m error} : s.calls c = .dialing m →
      Does pingSecs s (.dialErr c error) { s.setCall c (.failed m error) with lock := none }
  | dialOk {c m} : s.calls c = .dialing m →
      Does pingSecs s (.dialOk c)
        { (s.setCall c (.storing m s.n)).setTunnel s.n (.spawnTunnel .client pingSecs) with
          n := s.n + 1 }
  | store {c m t} : s.calls c = .storing m t →
      Does pingSecs s (.store c)
        { s.setCall c (.obtained m t) with current := some t, lock := none }
  | allocId {c i t e e'} : s.calls c = .allocating i t → s.tunnel t = some e →
      e.step .accept = some e' →
      Does pingSecs s (.allocId c) ((s.setTunnel t e').setCall c (.registering i t e.n))
  | register {c i t k e e'} : s.calls c = .registering i t k → s.tunnel t = some e →
      e.step (.register k) = some e' →
      Does pingSecs s (.register c) ((s.setTunnel t e').setCall c (.opening i t k))
  | opened {c i t k e e'} : s.calls c = .opening i t k → s.tunnel t = some e →
      e.step (.open k) = some e' → (e'.inst k).phase ≠ .dropped →
      Does pingSecs s (.open c) ((s.setTunnel t e').setCall c (.confirming i t k))
  | closed {c i t k e e' error} : s.calls c = .opening i t k → s.tunnel t = some e →
      e.step (.open k) = some e' → (e'.inst k).phase = .dropped →
      Does pingSecs s (.open c)
        ((s.setTunnel t e').setCall c (.failed (.acceptConnection i) error))
  | spawned {c i t k e e'} : s.calls c = .confirming i t k → s.tunnel t = some e →
      e.step (.spawn k) = some e' → (e'.inst k).phase ≠ .dropped →
      Does pingSecs s (.spawn c) ((s.setTunnel t e').setCall c (.done (.ok t)))
  | died {c i t k e e' error} : s.calls c = .confirming i t k → s.tunnel t = some e →
      e.step (.spawn k) = some e' → (e'.inst k).phase = .dropped →
      Does pingSecs s (.spawn c)
        ((s.setTunnel t e').setCall c (.failed (.acceptConnection i) error))
  | tunnel {t b e e'} : s.tunnel t = some e → isAcceptAct b = false → e.step b = some e' →
      Does pingSecs s (.tunnel t b) (s.setTunnel t e')

/-- The same by what it means for the mutex and the cached tunnel: a step of `accept_connection` on a tunnel
is `work`, a step of a call by itself `move`. -/
inductive Step (pingSecs : ℕ) (s : TunnelManager) : Action → TunnelManager → Prop
  | move {a c p} : (s.calls c).holdsLock = false → p.holdsLock = false →
      Step pingSecs s a (s.setCall c p)
  | lock {c m} : s.calls c = .locking m → s.lock = none →
      Step pingSecs s (.lock c) { s.setCall c (.checking m) with lock := some c }
  | hit {c m t} : s.calls c = .checking m → s.current = some t → s.isLive t = true →
      Step pingSecs s (.check c) { s.setCall c (.obtained m t) with lock := none }
  | miss {c m} : s.calls c = .checking m → (∀ t, s.current = some t → s.isLive t = false) →
      Step pingSecs s (.check c) (s.setCall c (.dialing m))
  | dialErr {c m error} : s.calls c = .dialing m →
      Step pingSecs s (.dialErr c error) { s.setCall c (.failed m error) with lock := none }
  | dialOk {c m} : s.calls c = .dialing m →
      Step pingSecs s (.dialOk c)
        { (s.setCall c (.storing m s.n)).setTunnel s.n (.spawnTunnel .client pingSecs) with
          n := s.n + 1 }
  | store {c m t} : s.calls c = .storing m t →
      Step pingSecs s (.store c)
        { s.setCall c (.obtained m t) with current := some t, lock := none }
  | work {a c t e b e' p} : (s.calls c).holdsLock = false → p.holdsLock = false →
      s.tunnel t = some e → e.step b = some e' → Step pingSecs s a ((s.setTunnel t e').setCall c p)
  | tunnel {t a e e'} : s.tunnel t = some e → e.step a = some e' →
      Step pingSecs s (.tunnel t a) (s.setTunnel t e')

section Inversion

variable {pingSecs : ℕ} {s s' : TunnelManager} {a : Action} {c : ℕ}

theorem work_eq_some {t : ℕ} {b : Act} {next : Endpoint → Endpoint → Call}
    (h : s.work c t b next = some s') :
    ∃ e e', s.tunnel t = some e ∧ e.step b = some e' ∧
      s' = (s.setTunnel t e').setCall c (next e e') := by
  unfold work at h
  split at h
  · next e he =>
    obtain ⟨e', hs, rfl⟩ := Option.map_eq_some_iff.mp h
    exact ⟨e, e', he, hs, rfl⟩
  · cases h

/-- The inversion lemma: a step of the function is one of those listed. -/
theorem Does.of_step (h : s.step pingSecs a = some s') : Does pingSecs s a s' := by
  cases a <;> simp only [step] at h
  case callTunnel | callAccept | dialErr | dialOk | store =>
    split at h
    · next hc =>
      cases h
      constructor
      exact hc
    · cases h
  case lock c =>
    split at h
    · next hc hl =>
      cases h
      exact .lock hc hl
    · cases h
  case check c =>
    split at h
    · next hc =>
      split at h
      · next t ht =>
        split_ifs at h with hlive
        · cases h
          exact .hit hc ht hlive
        · cases h
          refine .miss hc fun t' ht' => ?_
          rw [ht] at ht'
          cases ht'
          simpa using hlive
      · next hnone =>
        cases h
        exact .miss hc fun t ht => by rw [hnone] at ht; cases ht
    · cases h
  case allocId c =>
    split at h
    · next hc =>
      obtain ⟨e, e', he, hs, rfl⟩ := work_eq_some h
      exact .allocId hc he hs
    · cases h
  case register c =>
    split at h
    · next hc =>
      obtain ⟨e, e', he, hs, rfl⟩ := work_eq_some h
      exact .register hc he hs
    · cases h
  case «open» c =>
    split at h
    · next hc =>
      obtain ⟨e, e', he, hs, rfl⟩ := work_eq_some h
      split_ifs with hp
      · exact .closed hc he hs hp
      · exact .opened hc he hs hp
    · cases h
  case spawn c =>
    split at h
    · next hc =>
      obtain ⟨e, e', he, hs, rfl⟩ := work_eq_some h
      split_ifs with hp
      · exact .died hc he hs hp
      · exact .spawned hc he hs hp
    · cases h
  case tunnel t b =>
    split at h
    · next he =>
      split_ifs at h with hb
      obtain ⟨e', hs, rfl⟩ := Option.map_eq_some_iff.mp h
      exact .tunnel he (by simpa using hb) hs
    · cases h

theorem Does.step (h : Does pingSecs s a s') : Step pingSecs s a s' := by
  cases h with
  | callTunnel hc | callAccept hc => exact .move (by rw [hc]; rfl) rfl
  | lock hc hl => exact .lock hc hl
  | hit hc hcur hlive => exact .hit hc hcur hlive
  | miss hc hdead => exact .miss hc hdead
  | dialErr hc => exact .dialErr hc
  | dialOk hc => exact .dialOk hc
  | store hc => exact .store hc
  | allocId hc he hs | register hc he hs | opened hc he hs | spawned hc he hs =>
    exact .work (by rw [hc]; rfl) rfl he hs
  | closed hc he hs | died hc he hs =>
    exact .work (by rw [hc]; rfl) (Call.holdsLock_failed _ _) he hs
  | tunnel he _ hs => exact .tunnel he hs

theorem Step.of_step (h : s.step pingSecs a = some s') : Step pingSecs s a s' := (Does.of_step h).step

end Inversion

/-! ### At most one live tunnel -/

section Invariant

variable {pingSecs : ℕ} {s s' : TunnelManager} {a : Action} {c t : ℕ}

/-- **At most one of all tunnels ever dialed is alive.** -/
def OneLive (s : TunnelManager) : Prop := ∀ i j, s.isLive i = true → s.isLive j = true → i = j

/-- The mutex has at most one owner; a live tunnel is cached or about to be; and while a new tunnel is
dialed or about to be cached, the cached one is dead. -/
structure Inv (s : TunnelManager) : Prop where
  lock : ∀ c, (s.calls c).holdsLock = true → s.lock = some c
  range : ∀ t, s.n ≤ t → s.tunnel t = none
  cached : ∀ t, s.current = some t → t < s.n
  stored : ∀ c m t, s.calls c = .storing m t → t < s.n
  live : ∀ t, s.isLive t = true → s.current = some t ∨ ∃ c m, s.calls c = .storing m t
  vacant : ∀ c, (s.calls c).isDialing = true → ∀ t, s.current = some t → s.isLive t = false

theorem inv_new : Inv new := by
  constructor <;> simp [new, isLive, Call.holdsLock, Call.isDialing]

theorem Inv.eq_of_holdsLock (hi : Inv s) {d : ℕ} (hc : (s.calls c).holdsLock = true)
    (hd : (s.calls d).holdsLock = true) : c = d := by
  have h := (hi.lock c hc).symm.trans (hi.lock d hd)
  exact Option.some.inj h

theorem Inv.oneLive (hi : Inv s) : OneLive s := by
  intro i j hlive hlive'
  rcases hi.live i hlive with hcur | ⟨c, m, hc⟩
  · rcases hi.live j hlive' with hcur' | ⟨d, m', hd⟩
    · rw [hcur] at hcur'; exact Option.some.inj hcur'
    · rw [hi.vacant d (by rw [hd]; rfl) i hcur] at hlive; cases hlive
  · rcases hi.live j hlive' with hcur' | ⟨d, m', hd⟩
    · rw [hi.vacant c (by rw [hc]; rfl) j hcur'] at hlive'; cases hlive'
    · obtain rfl := hi.eq_of_holdsLock (c := c) (d := d) (by rw [hc]; rfl) (by rw [hd]; rfl)
      rw [hc] at hd
      cases hd; rfl

/-- A tunnel that takes a step does not come back to life. -/
theorem isLive_setTunnel {e e' : Endpoint} {b : Act} (he : s.tunnel t = some e)
    (hs : e.step b = some e') {i : ℕ} (h : (s.setTunnel t e').isLive i = true) :
    s.isLive i = true := by
  by_cases hi : i = t
  · subst hi
    have hlive : e'.dead = false := by simpa [isLive] using h
    have hdead : e.dead = false := by
      by_contra hd
      rw [Endpoint.dead_mono (.of_step hs) (by simpa using hd)] at hlive; cases hlive
    simp [isLive, he, hdead]
  · simpa [isLive, Function.update_of_ne hi] using h

/-- A step of a tunnel. -/
theorem Inv.setTunnel (hi : Inv s) {e e' : Endpoint} {b : Act} (he : s.tunnel t = some e)
    (hs : e.step b = some e') : Inv (s.setTunnel t e') := by
  have hlt : t < s.n := by
    by_contra hn
    rw [hi.range t (by omega)] at he; cases he
  refine ⟨hi.lock, fun i hn => ?_, hi.cached, hi.stored,
    fun i h => hi.live i (isLive_setTunnel he hs h), fun c hc i hcur => ?_⟩
  · have hn : s.n ≤ i := hn
    simp [Function.update_of_ne (show i ≠ t by omega), hi.range i hn]
  · by_contra hlive
    have hold := isLive_setTunnel he hs (by simpa using hlive)
    rw [hi.vacant c hc i hcur] at hold; cases hold

/-- A call moves: what is asked of it in its new place, and of the others if it had or takes the mutex.
Besides, the mutex and the cached tunnel may change. -/
theorem Inv.setCall (hi : Inv s) {p : Call} (lock current : Option ℕ)
    (hp : p.holdsLock = true → lock = some c)
    (hothers : ∀ d, d ≠ c → (s.calls d).holdsLock = true → lock = some d ∧ current = s.current)
    (hcached : ∀ t, current = some t → t < s.n) (hstored : ∀ m t, p = .storing m t → t < s.n)
    (hlive : ∀ t, s.isLive t = true → s.current = some t ∨ (∃ m, s.calls c = .storing m t) →
      current = some t ∨ ∃ m, p = .storing m t)
    (hvacant : p.isDialing = true → ∀ t, current = some t → s.isLive t = false) :
    Inv { s.setCall c p with lock := lock, current := current } := by
  refine ⟨fun d hd => ?_, hi.range, hcached, fun d m t hd => ?_, fun t ht => ?_, fun d hd => ?_⟩
  · by_cases hdc : d = c
    · subst hdc
      exact hp (by simpa using hd)
    · exact (hothers d hdc (by simpa [Function.update_of_ne hdc] using hd)).1
  · by_cases hdc : d = c
    · subst hdc
      exact hstored m t (by simpa using hd)
    · exact hi.stored d m t (by simpa [Function.update_of_ne hdc] using hd)
  · have hkeep : s.current = some t ∨ (∃ m, s.calls c = .storing m t) →
        current = some t ∨ ∃ d m, Function.update s.calls c p d = .storing m t := by
      intro h
      exact (hlive t ht h).imp_right fun ⟨m, hm⟩ => ⟨c, m, by rw [Function.update_self, hm]⟩
    rcases hi.live t ht with hcur | ⟨d, m, hd⟩
    · exact hkeep (.inl hcur)
    · by_cases hdc : d = c
      · exact hkeep (.inr ⟨m, hdc ▸ hd⟩)
      · exact .inr ⟨d, m, by simp [Function.update_of_ne hdc, hd]⟩
  · by_cases hdc : d = c
    · subst hdc
      exact hvacant (by simpa using hd)
    · have hd : (s.calls d).isDialing = true := by simpa [Function.update_of_ne hdc] using hd
      rw [show current = s.current from (hothers d hdc (Call.holdsLock_of_isDialing hd)).2]
      exact hi.vacant d hd

/-- A call that neither has a new tunnel nor gets one moves; the cached tunnel stays. -/
theorem Inv.keep (hi : Inv s) {p : Call} (lock : Option ℕ) (hc : ∀ m t, s.calls c ≠ .storing m t)
    (hstoring : ∀ m t, p ≠ .storing m t) (hp : p.holdsLock = true → lock = some c)
    (hothers : ∀ d, d ≠ c → (s.calls d).holdsLock = true → lock = some d)
    (hvacant : p.isDialing = true → ∀ t, s.current = some t → s.isLive t = false) :
    Inv { s.setCall c p with lock := lock } := by
  refine hi.setCall lock s.current hp (fun d hne hd => ⟨hothers d hne hd, rfl⟩) hi.cached
    (fun m t h => absurd h (hstoring m t)) (fun t _ h => .inl ?_) hvacant
  rcases h with hcur | ⟨m, hm⟩
  · exact hcur
  · exact absurd hm (hc m t)

/-- A call that does not have the mutex moves, and does not take it. -/
theorem Inv.move (hi : Inv s) {p : Call} (hc : (s.calls c).holdsLock = false)
    (hp : p.holdsLock = false) : Inv (s.setCall c p) := by
  refine hi.keep s.lock (Call.ne_storing hc) (Call.ne_storing hp) (fun h => ?_)
    (fun d _ hd => hi.lock d hd) (fun h => ?_)
  · rw [hp] at h; cases h
  · rw [Call.holdsLock_of_isDialing h] at hp; cases hp

/-- While a call has the mutex, no other call has it. -/
theorem Inv.others (hi : Inv s) (hc : (s.calls c).holdsLock = true) {P : ℕ → Prop} :
    ∀ d, d ≠ c → (s.calls d).holdsLock = true → P d :=
  fun _ hne hd => absurd (hi.eq_of_holdsLock hd hc) hne

/-- A call gives the mutex back. -/
theorem Inv.release (hi : Inv s) {p : Call} (hlock : (s.calls c).holdsLock = true)
    (hc : ∀ m t, s.calls c ≠ .storing m t) (hp : p.holdsLock = false) :
    Inv { s.setCall c p with lock := none } := by
  refine hi.keep none hc (Call.ne_storing hp) (fun h => ?_) (hi.others hlock) (fun h => ?_)
  · rw [hp] at h; cases h
  · rw [Call.holdsLock_of_isDialing h] at hp; cases hp

/-- Nothing is alive while a new tunnel is dialed. -/
theorem Inv.isLive_of_dialing (hi : Inv s) {m : Method} (hc : s.calls c = .dialing m) (t : ℕ) :
    s.isLive t = false := by
  by_contra hlive
  rcases hi.live t (by simpa using hlive) with hcur | ⟨d, m', hd⟩
  · exact hlive (hi.vacant c (by rw [hc]; rfl) t hcur)
  · obtain rfl := hi.eq_of_holdsLock (c := c) (d := d) (by rw [hc]; rfl) (by rw [hd]; rfl)
    rw [hc] at hd; cases hd

/-- A dial succeeds: the new tunnel is the only live one, and the call that dialed it has the mutex. -/
theorem Inv.dialOk (hi : Inv s) {m : Method} (hc : s.calls c = .dialing m) :
    Inv { (s.setCall c (.storing m s.n)).setTunnel s.n (.spawnTunnel .client pingSecs) with
      n := s.n + 1 } := by
  have hlock : (s.calls c).holdsLock = true := by rw [hc]; rfl
  have hother : ∀ d, d ≠ c → (s.calls d).holdsLock = false := fun d hne => by
    by_contra hd
    exact hne (hi.eq_of_holdsLock (by simpa using hd) hlock)
  -- a tunnel other than the new one is as it was, so it is dead
  have hdead : ∀ t, t ≠ s.n → ¬ (((s.setCall c (.storing m s.n)).setTunnel s.n
      (.spawnTunnel .client pingSecs)).isLive t = true) := fun t hne hlive => by
    have hold : s.isLive t = true := by simpa [isLive, Function.update_of_ne hne] using hlive
    rw [hi.isLive_of_dialing hc t] at hold; cases hold
  refine ⟨fun d hd => ?_, fun t ht => ?_, fun t ht => ?_, fun d m' t hd => ?_, fun t ht => ?_,
    fun d _ t hcur => ?_⟩
  · by_cases hdc : d = c
    · subst hdc; exact hi.lock d hlock
    · simp [Function.update_of_ne hdc, hother d hdc] at hd
  · have ht : s.n + 1 ≤ t := ht
    simp [Function.update_of_ne (show t ≠ s.n by omega), hi.range t (by omega)]
  · exact Nat.lt_succ_of_lt (hi.cached t ht)
  · by_cases hdc : d = c
    · subst hdc
      obtain ⟨rfl, rfl⟩ : m = m' ∧ s.n = t := by simpa using hd
      exact Nat.lt_succ_self s.n
    · exact Nat.lt_succ_of_lt (hi.stored d m' t (by simpa [Function.update_of_ne hdc] using hd))
  · by_cases htn : t = s.n
    · subst htn
      exact .inr ⟨c, m, by simp⟩
    · exact absurd ht (hdead t htn)
  · have hlt : t < s.n := hi.cached t hcur
    exact Bool.eq_false_iff.mpr (hdead t (by omega))

theorem inv_step (hi : Inv s) (h : Step pingSecs s a s') : Inv s' := by
  cases h with
  | move hc hp => exact hi.move hc hp
  | work hc hp he hs => exact (hi.setTunnel he hs).move hc hp
  | tunnel he hs => exact hi.setTunnel he hs
  | @lock c m hc hl =>
    refine hi.keep (some c) (fun m' t h => by rw [hc] at h; cases h) (fun m' t h => by cases h)
      (fun _ => rfl) (fun d _ hd => ?_) (fun h => by cases h)
    rw [hi.lock d hd] at hl; cases hl
  | @hit c m t hc hcur hlive =>
    exact hi.release (by rw [hc]; rfl) (fun m' t h => by rw [hc] at h; cases h)
      (Call.holdsLock_obtained m t)
  | @miss c m hc hdead =>
    exact hi.keep s.lock (fun m' t h => by rw [hc] at h; cases h) (fun m' t h => by cases h)
      (fun _ => hi.lock c (by rw [hc]; rfl)) (hi.others (by rw [hc]; rfl)) (fun _ => hdead)
  | @dialErr c m error hc =>
    exact hi.release (by rw [hc]; rfl) (fun m' t h => by rw [hc] at h; cases h)
      (Call.holdsLock_failed m error)
  | @dialOk c m hc => exact hi.dialOk hc
  | @store c m t hc =>
    have hobtained : (Call.obtained m t).holdsLock = false := Call.holdsLock_obtained m t
    refine hi.setCall none (some t) (fun h => ?_) (hi.others (by rw [hc]; rfl)) (fun t' h => ?_)
      (fun m' t' h => ?_) (fun t' hlive h => .inl ?_) (fun h => ?_)
    · rw [hobtained] at h; cases h
    · cases h; exact hi.stored c m t hc
    · exact absurd h (Call.ne_storing hobtained m' t')
    · rcases h with hcur | ⟨m', hm⟩
      · rw [hi.vacant c (by rw [hc]; rfl) t' hcur] at hlive; cases hlive
      · rw [hc] at hm; cases hm; rfl
    · rw [Call.holdsLock_of_isDialing h] at hobtained; cases hobtained

theorem inv_of_reachable (h : Reachable (step pingSecs) new s) : Inv s :=
  h.invariant inv_new fun hi _ hs => inv_step hi (.of_step hs)

/-- The cached tunnel changes only by being replaced, and only when it is dead. -/
theorem Inv.current_of_isLive (hi : Inv s) (h : Step pingSecs s a s') (hcur : s.current = some t)
    (hlive : s.isLive t = true) : s'.current = some t := by
  cases h with
  | @store c m t' hc =>
    rw [hi.vacant c (by rw [hc]; rfl) t hcur] at hlive; cases hlive
  | _ => exact hcur

/-- Only the call that dials can replace the cached tunnel. -/
theorem Inv.current_of_dialing (hi : Inv s) (h : Step pingSecs s a s') {m : Method}
    (hc : s.calls c = .dialing m) : s'.current = s.current := by
  cases h with
  | @store d m' t' hd =>
    obtain rfl := hi.eq_of_holdsLock (c := c) (d := d) (by rw [hc]; rfl) (by rw [hd]; rfl)
    rw [hc] at hd; cases hd
  | _ => rfl

theorem current_of_dial {s₁ : TunnelManager} {m : Method} (h : Reachable (step pingSecs) new s)
    (h₁ : Reaches (step pingSecs) (fun s _ => s.calls c = .dialing m) s s₁) :
    s₁.current = s.current := by
  induction h₁ with
  | refl => rfl
  | @tail s₂ s₃ b h₂ hc hs ih =>
    -- the run up to the step, followed from the start, keeps the invariant
    have hi : Inv s₂ := inv_of_reachable (h.trans h₂.reachable)
    rw [hi.current_of_dialing (.of_step hs) hc, ih]

/-- **At most one live tunnel.** In every state reached by any interleaving of calls, dials and deaths:
at most one of all tunnels dialed is alive; no step replaces a live cached tunnel; and a dial that
fails, after whatever happened while it was under way, leaves the cached tunnel as it was when the dial
began. -/
theorem one_live_tunnel (h : Reachable (step pingSecs) new s) :
    OneLive s ∧
    (∀ a s' t, s.step pingSecs a = some s' → s.current = some t → s.isLive t = true →
      s'.current = some t) ∧
    ∀ c m s₁ s₂ error, s.calls c = .dialing m →
      Reaches (step pingSecs) (fun s _ => s.calls c = .dialing m) s s₁ →
      s₁.step pingSecs (.dialErr c error) = some s₂ → s₂.current = s.current := by
  have hi : Inv s := inv_of_reachable h
  refine ⟨hi.oneLive, fun a s' t hs hcur hlive => hi.current_of_isLive (.of_step hs) hcur hlive,
    fun c m s₁ s₂ error _ h₁ hs => ?_⟩
  have hfail : s₂.current = s₁.current := by
    simp only [step] at hs
    split at hs
    · cases hs; rfl
    · cases hs
  rw [hfail, current_of_dial h h₁]

/-- Two calls share a tunnel, which is killed; a third call has begun to dial anew. -/
def redialing : List Action :=
  [.callAccept 0, .callTunnel 1, .lock 0, .check 0, .dialOk 0, .store 0, .lock 1, .check 1, .allocId 0,
    .tunnel 0 (.kill 0), .tunnel 0 (.exit (.caller 0)), .tunnel 0 (.exit (.caller 0)),
    .callTunnel 2, .lock 2, .check 2]

theorem one_live_tunnel_redialing :
    ∃ s s₂, Reachable (step 15) new s ∧ s.current = some 0 ∧ s.isLive 0 = false ∧
      s.calls 2 = .dialing .tunnel ∧ s.step 15 (.dialErr 2 "connection refused") = some s₂ ∧
      OneLive s ∧ s₂.current = s.current := by
  have hexec : ∃ s s₂, exec (guard (fun _ _ => true) (step 15)) new redialing = some s ∧
      s.current = some 0 ∧ s.isLive 0 = false ∧ s.calls 2 = .dialing .tunnel ∧
      s.step 15 (.dialErr 2 "connection refused") = some s₂ :=
    ⟨_, _, rfl, rfl, rfl, rfl, rfl⟩
  obtain ⟨s, s₂, hs, hcur, hdead, hc, hfail⟩ := hexec
  have h : Reachable (step 15) new s := exec_reaches (fun _ _ _ => trivial) _ hs
  exact ⟨s, s₂, h, hcur, hdead, hc, hfail, (one_live_tunnel h).1,
    (one_live_tunnel h).2.2 2 .tunnel s s₂ _ hc .refl hfail⟩

end Invariant

end TunnelManager

end QeliSsPlugin.Client
