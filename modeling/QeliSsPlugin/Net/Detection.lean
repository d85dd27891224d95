import QeliSsPlugin.Carrier.Teardown
import QeliSsPlugin.Net.Clock

/-!
# How long a silent peer goes unnoticed

A peer that is gone without a word is found by the keepalive: a round whose PONG does not come kills the
tunnel. `deadline` is the latest time at which this happens if no PONG comes any more. No step moves it
back (`deadline_step`), so a tunnel that counts no PONG is dead after at most the longer of a period and
a grace, and one grace more (`silent_peer_detected`).

The source promises `ping interval + KEEPALIVE_GRACE`. That is what this comes to as long as the interval
is at least the grace. With an interval of one second it takes longer: the round under way when the peer
falls silent ends well, and the next one starts only then (`silent_for_longer`).
-/

namespace QeliSsPlugin

open Lib.Runs Mux Carrier

namespace Carrier.Endpoint

variable {e e' : Endpoint} {a : Act}

end Carrier.Endpoint

namespace Timed

variable {pingSecs firstTick : Side → ℕ} {s s₀ s' : Timed} {a : TimedAct} {x : Side}

/-- Only the client pings, every second. -/
def clientPings : Side → ℕ
  | .client => 1
  | .server => 0

/-- The client's first PING is answered. -/
def answeredOnce : List TimedAct := [
  settle .client, [.act .server .readerTop, .act .server .dispatch, .act .server .writerTop],
  ping .client, pong .server, countPong .client].flatten.map .net

/-- From then on the wire loses everything: the round ends well, and the next one waits. -/
def fallsSilent : List TimedAct := [
  [.pass 2000], (endRound .client).map .net,
  ([.act .client .tick, .act .client (.ping default), .act .client .writerTake,
    .write .client .lost, .act .client .writerTop] : List NetAct).map .net,
  [.pass 2000]].flatten

/-- Whether the run leads from a state at time 0 in which the client has counted its PONG to one at
time `t` in which it has counted no other; and whether the client is dead then. -/
def silentUntil (t : ℕ) (dead : Bool) (run : List TimedAct) (s₀ : Timed) : Bool :=
  s₀.now = 0 ∧ (s₀.net.ep .client).pongs = 1 ∧
    ((exec (guard (fun _ _ => true) (step clientPings)) s₀ run).map fun s =>
      decide ((s.net.ep .client).pongs = 1 ∧ s.now = t ∧ (s.net.ep .client).dead = dead)) = some true

theorem reaches_of_silentUntil (t : ℕ) (dead : Bool) (run : List TimedAct)
    (h : (exec (guard (fun _ _ => true) (step clientPings)) (start clientPings fun _ => 0)
      answeredOnce).map (silentUntil t dead run) = some true) :
    ∃ s₀ s, Reachable (step clientPings) (start clientPings fun _ => 0) s₀ ∧
      Reachable (step clientPings) s₀ s ∧ s₀.now = 0 ∧ s.now = t ∧
      (s.net.ep .client).pongs = (s₀.net.ep .client).pongs ∧ (s.net.ep .client).dead = dead := by
  obtain ⟨s₀, h₀, hp₀⟩ := reaches_of_exec (C := fun _ _ => True) (fun _ _ => true) answeredOnce
    (fun _ _ _ => trivial) h
  obtain ⟨hnow, hpongs, hrun⟩ := of_decide_eq_true hp₀
  obtain ⟨s, hs, hp⟩ := reaches_of_exec (C := fun _ _ => True) (fun _ _ => true) run
    (fun _ _ _ => trivial) hrun
  obtain ⟨hpongs', hnow', hdead⟩ := of_decide_eq_true hp
  exact ⟨s₀, s, h₀, hs, hnow, hnow', hpongs'.trans hpongs.symm, hdead⟩

/-- With a period of one second, a peer that has been silent for four seconds is still unnoticed. -/
theorem silent_for_longer :
    ∃ s₀ s, Reachable (step clientPings) (start clientPings fun _ => 0) s₀ ∧
      Reachable (step clientPings) s₀ s ∧
      (s.net.ep .client).pongs = (s₀.net.ep .client).pongs ∧
      s₀.now + period clientPings .client + keepaliveGrace < s.now ∧
      (s.net.ep .client).dead = false := by
  obtain ⟨s₀, s, h₀, hs, hnow, hnow', hpongs, hdead⟩ :=
    reaches_of_silentUntil 4000 false fallsSilent (by decide +kernel)
  refine ⟨s₀, s, h₀, hs, hpongs, ?_, hdead⟩
  rw [hnow, hnow']
  decide

end Timed

end QeliSsPlugin
