import QeliSsPlugin.Handshake.Linked

/-!
# What a tunnel can die of

On a byte stream that damages nothing, between tunnels with matched codecs, every record is good: no
streak of bad records begins, and each task can only die of what its own socket half, its peer or its own
codec does. In particular no tunnel is ever reported dead of a bad frame, or of wire corruption by its
reader (`Linked.blames`).
-/

namespace QeliSsPlugin

open Lib Lib.Runs Mux Carrier

namespace Carrier

/-- The cause a task carries through `log_tunnel_death` to `kill_with`. -/
def Exit.cause? : Exit → Option DeathCause
  | .logCheck c | .logLen c | .logLine c | .setCause c => some c
  | _ => none

/-- What a task can die of, as long as no record is bad. -/
def Who.diesOf : Who → DeathCause → Bool
  | .reader, .peerClosed | .reader, .readError | .reader, .killed => true
  | .writer, .writeError | .writer, .wireCorruption | .writer, .killed => true
  | .keepalive, .keepaliveTimeout => true
  | _, _ => false

namespace Endpoint

variable {e e' : Endpoint} {a : Act} {w : Who} {x : Exit}

/-- Every cause on record is one that its task can have. -/
structure Blames (e : Endpoint) : Prop where
  exit : ∀ w c, (e.exit w).cause? = some c → w.diesOf c = true
  log : ∀ p ∈ e.log, p.1.diesOf p.2 = true
  cause : ∀ c, e.cause = some c → c = .killed ∨ ∃ w : Who, w.diesOf c = true

/-- No record is bad. -/
structure Unspoilt (e : Endpoint) : Prop where
  streak : e.badStreak = 0
  good : ∀ o ∈ e.handled ++ e.records, o.isBad = false

theorem unspoilt_step (hu : Unspoilt e) (hin : ∀ rs, a = .readerRead rs → ∀ o ∈ rs, o.isBad = false)
    (h : e.Step a e') : Unspoilt e' := by
  obtain ⟨hstreak, hgood⟩ := hu
  have hhandle : ∀ {o rest}, e.records = o :: rest → (e.handle o rest).badStreak = 0 ∧
      ∀ o' ∈ (e.handle o rest).handled ++ rest, o'.isBad = false := by
    intro o rest hrec
    have ho : o.isBad = false := hgood o (by rw [hrec]; simp)
    refine ⟨?_, fun o' ho' => hgood o' ?_⟩
    · cases o with
      | good => rfl
      | undecryptable | malformed => cases ho
    · rw [hrec]
      simpa using ho'
  cases h with
  | readerRead =>
    refine ⟨hstreak, fun o ho => ?_⟩
    simp only [List.mem_append] at ho
    rcases ho with ho | ho | ho
    · exact hgood o (List.mem_append_left _ ho)
    · exact hgood o (List.mem_append_right _ ho)
    · exact hin _ rfl o ho
  | handleKill _ hrec | handleBad _ hrec | handleOpen _ hrec | handleData _ hrec
  | handleUnknown _ hrec | handleClose _ hrec | handlePing _ hrec | handlePong _ hrec =>
    exact ⟨(hhandle hrec).1, (hhandle hrec).2⟩
  | _ => exact ⟨hstreak, hgood⟩

/-- A task on its way to `kill_with` takes its cause along. -/
theorem Blames.move (hb : Blames e) (hx : ∀ c, x.cause? = some c → w.diesOf c = true) :
    ∀ w' c, ((e.setExit w x).exit w').cause? = some c → w'.diesOf c = true := by
  intro w' c hc
  simp only [setExit_exit, Function.update_apply] at hc
  split_ifs at hc with hw
  · subst hw
    exact hx c hc
  · exact hb.exit w' c hc

theorem blames_step (hu : Unspoilt e) (hb : Blames e) (h : e.Step a e') : Blames e' := by
  have hleave : ∀ {w : Who} {c : DeathCause}, w.diesOf c = true →
      ∀ w' c', ((e.setExit w (.logCheck c)).exit w').cause? = some c' → w'.diesOf c' = true := by
    intro w c hc
    refine hb.move fun c' hc' => ?_
    obtain rfl := Option.some.inj hc'
    exact hc
  cases h with
  | readerExit hx =>
    refine ⟨hleave ?_, hb.log, hb.cause⟩
    generalize e.reader = r at hx
    cases hx <;> rfl
  | writerExit hx =>
    refine ⟨hleave ?_, hb.log, hb.cause⟩
    generalize e.writer = r at hx
    cases hx <;> rfl
  | encryptErr | graceLost => exact ⟨hleave rfl, hb.log, hb.cause⟩
  | @handleKill o rest cause _ hrec hj =>
    -- no good record kills
    have ho : o.isBad = false := hu.good o (by rw [hrec]; simp)
    cases o with
    | good => cases hj
    | undecryptable | malformed => cases ho
  | @exitMove _ w x hm =>
    refine ⟨hb.move fun c hc => ?_, hb.log, hb.cause⟩
    have hold := hb.exit w
    generalize e.exit w = y at hm hold
    cases hm with
    | known | unknown | len => exact hold c hc
    | kill => cases hc
  | @logLine w c hx =>
    have hw : w.diesOf c = true := hb.exit w c (by rw [hx]; rfl)
    refine ⟨hb.move fun c' hc' => ?_, fun p hp => ?_, hb.cause⟩
    · obtain rfl := Option.some.inj hc'
      exact hw
    · rcases List.mem_append.mp hp with hp | hp
      · exact hb.log p hp
      · rw [List.mem_singleton.mp hp]
        exact hw
  | @setCause w c hx =>
    have hw : w.diesOf c = true := hb.exit w c (by rw [hx]; rfl)
    refine ⟨hb.move (fun c' hc' => (by cases hc')), hb.log, fun c' hc' => ?_⟩
    rcases Option.or_eq_some_iff.mp hc' with hc' | ⟨-, hc'⟩
    · exact hb.cause c' hc'
    · obtain rfl := Option.some.inj hc'
      exact .inr ⟨w, hw⟩
  | setKilled =>
    refine ⟨hb.move (fun c' hc' => (by cases hc')), hb.log, fun c' hc' => ?_⟩
    rcases Option.or_eq_some_iff.mp hc' with hc' | ⟨-, hc'⟩
    · exact hb.cause c' hc'
    · exact .inl (Option.some.inj hc').symm
  | setDead | closeAll => exact ⟨hb.move (fun c' hc' => (by cases hc')), hb.log, hb.cause⟩
  | _ => exact ⟨hb.exit, hb.log, hb.cause⟩

end Endpoint

end Carrier

namespace Net

variable {room : Side → ℕ → Bool} {pingSecs : Side → ℕ} {s s' : Net} {a : NetAct}

/-- Nothing is spoilt, on the wires neither. -/
structure Unspoilt (s : Net) : Prop where
  endpoint : ∀ x, (s.ep x).Unspoilt
  wire : ∀ x, ∀ o ∈ s.wire x, o.isBad = false
  blames : ∀ x, (s.ep x).Blames

theorem unspoilt_connect : Unspoilt (connect pingSecs) := by
  refine ⟨fun x => ⟨rfl, ?_⟩, ?_, fun x => ⟨?_, ?_, ?_⟩⟩ <;>
    simp [connect, Endpoint.spawnTunnel, Exit.cause?]

theorem unspoilt_step (hu : Unspoilt s) (hi : IntactStep s a) (h : Step room s a s') :
    Unspoilt s' := by
  have hset : ∀ {x b e}, (s.ep x).Step b e →
      (∀ rs, b = .readerRead rs → ∀ o ∈ rs, o.isBad = false) →
      ∀ y, (Function.update s.ep x e y).Unspoilt ∧ (Function.update s.ep x e y).Blames := by
    intro x b e hs hin y
    rw [Function.update_apply]
    split_ifs
    · exact ⟨Endpoint.unspoilt_step (hu.endpoint x) hin hs,
        Endpoint.blames_step (hu.endpoint x) (hu.blames x) hs⟩
    · exact ⟨hu.endpoint y, hu.blames y⟩
  have hwire : ∀ {x w}, (∀ o ∈ w, o.isBad = false) →
      ∀ y, ∀ o ∈ Function.update s.wire x w y, o.isBad = false := by
    intro x w hw y
    rw [Function.update_apply]
    split_ifs
    · exact hw
    · exact hu.wire y
  cases h with
  | @act x b e hb hs =>
    have hx := hset hs (by rintro rs rfl; cases hb)
    exact ⟨fun y => (hx y).1, hu.wire, fun y => (hx y).2⟩
  | @write x fate f hw =>
    have hx := hset (.wrote hw) (by simp)
    obtain rfl : fate = .intact := of_decide_eq_true hi
    refine ⟨fun y => (hx y).1, hwire fun o ho => ?_, fun y => (hx y).2⟩
    rcases List.mem_append.mp ho with ho | ho
    · exact hu.wire x o ho
    · rw [List.mem_singleton.mp ho]
      rfl
  | @read x m hr =>
    have hx := hset (@Endpoint.Step.readerRead _ ((s.wire x.peer).take m) hr) (by
      rintro rs hrs o ho
      obtain rfl : (s.wire x.peer).take m = rs := by simpa using hrs
      exact hu.wire x.peer o (List.mem_of_mem_take ho))
    exact ⟨fun y => (hx y).1, hwire fun o ho => hu.wire x.peer o (List.mem_of_mem_drop ho),
      fun y => (hx y).2⟩
  | @eof x hr =>
    have hstep : (s.ep x).Step .readerEof ((s.ep x).leaveReader .peerClosed) :=
      .readerExit (hr ▸ .eof)
    have hx := hset hstep (by simp)
    exact ⟨fun y => (hx y).1, hu.wire, fun y => (hx y).2⟩

end Net

namespace Handshake.Linked

variable {core : Core} {s : Linked core} {pingSecs : Side → ℕ}

/-- **No tunnel is killed over its peer's records.** In every state that two tunnels with matched codecs
reach, however the byte streams are cut and wherever they break: every record handled was good, no streak of
bad ones has begun, and every cause logged or recorded is one that the task in question can have without
one; none is a bad frame, and the reader has none of corruption. -/
theorem blames (rx tx : Side → core.PacketCodec) (laws : core.Laws)
    (hsync : ∀ x : Side, core.Synced (tx x) (rx x.peer))
    (h : Reachable Linked.step (connect pingSecs rx tx) s) (x : Side) :
    (s.tun x).ep.badStreak = 0 ∧ (∀ o ∈ (s.tun x).ep.handled, o.isBad = false) ∧
      (∀ p ∈ (s.tun x).ep.log, p.1.diesOf p.2 = true) ∧
      (s.tun x).ep.cause ≠ some .badFrame := by
  have hall : Reaches Linked.step (OkAct fun _ => true) (connect pingSecs rx tx) s :=
    h.mono fun _ _ _ _ _ _ => rfl
  obtain ⟨n, hn, hsim⟩ := simulated laws hsync rfl rfl hall
  have hu : Net.Unspoilt n :=
    hn.invariant Net.unspoilt_connect fun hi hc hs => Net.unspoilt_step hi hc.1 (.of_step hs)
  have hep : (s.tun x).ep.badStreak = (n.ep x).badStreak ∧
      (s.tun x).ep.handled = (n.ep x).handled ∧ (s.tun x).ep.log = (n.ep x).log ∧
      (s.tun x).ep.cause = (n.ep x).cause := by
    have hst := hsim.stands x
    generalize n.ep x = A at hst
    cases hst <;> exact ⟨rfl, rfl, rfl, rfl⟩
  obtain ⟨hstreak, hhandled, hlog, hcause⟩ := hep
  rw [hstreak, hhandled, hlog, hcause]
  refine ⟨(hu.endpoint x).streak,
    fun o ho => (hu.endpoint x).good o (List.mem_append_left _ ho), (hu.blames x).log,
    fun hbad => ?_⟩
  rcases (hu.blames x).cause _ hbad with hkilled | ⟨w, hw⟩
  · cases hkilled
  · cases w <;> cases hw

theorem blames_halfClose :
    ∃ s : Linked plain, isThrough s = true ∧ ∀ x, (s.tun x).ep.badStreak = 0 ∧
      (s.tun x).ep.cause ≠ some .badFrame := by
  obtain ⟨s, hs, hthrough⟩ := halfCloseBytes_run
  refine ⟨s, hthrough, fun x => ?_⟩
  obtain ⟨hstreak, -, -, hcause⟩ :=
    blames (fun x => codec x.peer) codec plain_laws codec_synced hs.reachable x
  exact ⟨hstreak, hcause⟩

end Handshake.Linked

end QeliSsPlugin
