import QeliSsPlugin.Client.Connections

/-!
# Calls of the tunnel manager come to their end

A call of `tunnel()` or `accept_connection` takes a bounded number of steps, since it tries at most twice,
and it waits for nothing but the mutex, which its owner always gives back, and for room in the frame channel
of its tunnel: `call_progress`. The bound is a rank that every step of the call lowers
(`Call.Moves.rank_lt`); what a call waits for is read off its place (`proceeds_of_ready`).
-/

namespace QeliSsPlugin.Client

open Lib.Runs Carrier

/-- Whether it is a step of the call `c`. -/
def Action.isOf (c : ℕ) (a : Action) : Bool := a.call? = some c

/-- Whether it ends a dial of the call `c`. -/
def Action.isDialOf (c : ℕ) (a : Action) : Bool := a.isOf c && a.dials

namespace Call

variable {p p' : Call} {d : Bool}

/-! ### Ranks -/

/-- The method, with the attempt that the call is at. -/
def method : Call → Method
  | .locking m | .checking m | .dialing m | .storing m _ => m
  | .allocating i _ | .registering i _ _ | .opening i _ _ | .confirming i _ _ => .acceptConnection i
  | .idle | .done _ => .tunnel

/-- The attempts that are left. -/
def left : Method → ℕ
  | .tunnel => 1
  | .acceptConnection i => attempts - i

/-- How many steps the call can still take. -/
def rank : Call → ℕ
  | .idle => 1 + 8 * attempts
  | .locking m => 8 * left m
  | .checking m => 8 * left m - 1
  | .dialing m => 8 * left m - 2
  | .storing m _ => 8 * left m - 3
  | .allocating i _ => 8 * left (.acceptConnection i) - 4
  | .registering i _ _ => 8 * left (.acceptConnection i) - 5
  | .opening i _ _ => 8 * left (.acceptConnection i) - 6
  | .confirming i _ _ => 8 * left (.acceptConnection i) - 7
  | .done _ => 0

/-- How many dials the call can still end. -/
def dialsLeft : Call → ℕ
  | .idle => attempts
  | .locking m | .checking m | .dialing m => left m
  | .storing m _ => left m - 1
  | .allocating i _ | .registering i _ _ | .opening i _ _ | .confirming i _ _ => attempts - i - 1
  | .done _ => 0

theorem failed_left {m : Method} {error : String} (h : 0 < left m) :
    0 < left (failed m error).method ∧ (failed m error).rank ≤ 8 * left m - 8 ∧
      (failed m error).dialsLeft ≤ left m - 1 := by
  cases m with
  | tunnel => exact ⟨Nat.one_pos, Nat.zero_le _, Nat.zero_le _⟩
  | acceptConnection i =>
    simp only [failed]
    split_ifs with hi
    · simp only [method, rank, dialsLeft, left]
      omega
    · simp [method, rank, dialsLeft, left]

theorem obtained_left {m : Method} {t : ℕ} (h : 0 < left m) :
    0 < left (obtained m t).method ∧ (obtained m t).rank ≤ 8 * left m - 4 ∧
      (obtained m t).dialsLeft ≤ left m - 1 := by
  cases m with
  | tunnel => exact ⟨Nat.one_pos, Nat.zero_le _, Nat.zero_le _⟩
  | acceptConnection i => exact ⟨h, le_rfl, le_rfl⟩

/-- **Every step lowers the rank**, and every dial the number of dials left. -/
theorem Moves.rank_lt (h : Moves d p p') (hp : 0 < left p.method) :
    0 < left p'.method ∧ p'.rank + 1 ≤ p.rank ∧ p'.dialsLeft + d.toNat ≤ p.dialsLeft := by
  cases h with
  | tunnel | accept => decide
  | @hit m t =>
    obtain ⟨h1, h2, h3⟩ := @obtained_left m t hp
    have hm : 0 < left m := hp
    refine ⟨h1, ?_, ?_⟩
    · show _ ≤ 8 * left m - 1
      omega
    · show _ + 0 ≤ left m
      omega
  | @store m t =>
    obtain ⟨h1, h2, h3⟩ := @obtained_left m t hp
    have hm : 0 < left m := hp
    refine ⟨h1, ?_, h3⟩
    show _ ≤ 8 * left m - 3
    omega
  | @dialErr m error =>
    obtain ⟨h1, h2, h3⟩ := @failed_left m error hp
    have hm : 0 < left m := hp
    refine ⟨h1, ?_, ?_⟩
    · show _ ≤ 8 * left m - 2
      omega
    · show _ + 1 ≤ left m
      omega
  | @closed i t k error =>
    obtain ⟨h1, h2, h3⟩ := @failed_left (.acceptConnection i) error hp
    have hm : 0 < left (.acceptConnection i) := hp
    refine ⟨h1, ?_, h3⟩
    show _ ≤ 8 * left (.acceptConnection i) - 6
    omega
  | @died i t k error =>
    obtain ⟨h1, h2, h3⟩ := @failed_left (.acceptConnection i) error hp
    have hm : 0 < left (.acceptConnection i) := hp
    refine ⟨h1, ?_, h3⟩
    show _ ≤ 8 * left (.acceptConnection i) - 7
    omega
  | spawned =>
    simp only [method] at hp
    refine ⟨Nat.one_pos, ?_, Nat.zero_le _⟩
    simp only [rank]
    omega
  | lock | miss | dialOk | allocId | register | opened =>
    simp only [method] at hp ⊢
    refine ⟨hp, ?_, ?_⟩ <;>
      simp only [rank, dialsLeft, Bool.toNat_true, Bool.toNat_false] <;> omega

end Call

namespace TunnelManager

section Invariant

variable {pingSecs : ℕ} {s s' : TunnelManager} {a : Action} {c : ℕ}

/-! ### Waiting -/

/-- The mutex is held by a call that works with it, and a call that has got a tunnel can use it. -/
structure Ready (s : TunnelManager) : Prop where
  owner : ∀ d, s.lock = some d → (s.calls d).holdsLock = true
  stored : ∀ d m t, s.calls d = .storing m t → (s.tunnel t).isSome = true
  obtained : ∀ d i t, s.calls d = .allocating i t → (s.tunnel t).isSome = true

theorem ready_new : Ready new := by
  constructor <;> simp [new]

theorem isSome_of_isLive {t : ℕ} (h : s.isLive t = true) : (s.tunnel t).isSome = true := by
  unfold isLive at h
  cases ht : s.tunnel t with
  | none =>
    rw [ht] at h
    cases h
  | some e => rfl

/-- A call moves, and the tunnels that there were are still there. -/
theorem Ready.move (hr : Ready s) {p : Call} {s' : TunnelManager}
    (hcalls : s'.calls = Function.update s.calls c p)
    (htunnel : ∀ t, (s.tunnel t).isSome = true → (s'.tunnel t).isSome = true)
    (hlock : s'.lock = none ∨ s'.lock = some c ∧ p.holdsLock = true ∨
      s'.lock = s.lock ∧ ((s.calls c).holdsLock = true → p.holdsLock = true))
    (hstored : ∀ m t, p = .storing m t → (s'.tunnel t).isSome = true)
    (hobtained : ∀ i t, p = .allocating i t → (s'.tunnel t).isSome = true) : Ready s' := by
  refine ⟨fun d hd => ?_, fun d m t hd => ?_, fun d i t hd => ?_⟩
  · rw [hcalls]
    by_cases hdc : d = c
    · subst hdc
      rw [Function.update_self]
      rcases hlock with hnone | ⟨-, hp⟩ | ⟨heq, hp⟩
      · rw [hnone] at hd
        cases hd
      · exact hp
      · exact hp (hr.owner d (heq ▸ hd))
    · rw [Function.update_of_ne hdc]
      rcases hlock with hnone | ⟨hsome, -⟩ | ⟨heq, -⟩
      · rw [hnone] at hd
        cases hd
      · rw [hsome] at hd
        exact absurd (Option.some.inj hd).symm hdc
      · exact hr.owner d (heq ▸ hd)
  · rw [hcalls, Function.update_apply] at hd
    split_ifs at hd
    · exact hstored m t hd
    · exact htunnel t (hr.stored d m t hd)
  · rw [hcalls, Function.update_apply] at hd
    split_ifs at hd
    · exact hobtained i t hd
    · exact htunnel t (hr.obtained d i t hd)

theorem ready_step (hr : Ready s) (h : Does pingSecs s a s') : Ready s' := by
  have hset : ∀ {t : ℕ} {e : Endpoint} (i : ℕ), (s.tunnel i).isSome = true →
      (Function.update s.tunnel t (some e) i).isSome = true := by
    intro t e i hi
    rw [Function.update_apply]
    split_ifs
    · rfl
    · exact hi
  have hobtained : ∀ {m : Method} {t : ℕ}, (s.tunnel t).isSome = true →
      (∀ m' t', Call.obtained m t = .storing m' t' → (s.tunnel t').isSome = true) ∧
        ∀ i t', Call.obtained m t = .allocating i t' → (s.tunnel t').isSome = true := by
    intro m t ht
    cases m with
    | tunnel => exact ⟨by simp [Call.obtained], by simp [Call.obtained]⟩
    | acceptConnection attempt =>
      refine ⟨by simp [Call.obtained], fun i t' h => ?_⟩
      cases h
      exact ht
  have hfailed : ∀ {m : Method} {error : String},
      (∀ m' t', Call.failed m error ≠ .storing m' t') ∧
        ∀ i t', Call.failed m error ≠ .allocating i t' := by
    intro m error
    cases m with
    | tunnel => simp [Call.failed]
    | acceptConnection attempt =>
      simp only [Call.failed]
      split_ifs <;> simp
  have hkeep : ∀ {c : ℕ} {p : Call}, s.calls c = p → p.holdsLock = false →
      ∀ {q : Call}, (s.calls c).holdsLock = true → q.holdsLock = true := by
    intro c p hc hp q h
    rw [hc, hp] at h
    cases h
  cases h with
  | tunnel =>
    exact ⟨hr.owner, fun d m t hd => hset t (hr.stored d m t hd),
      fun d i t hd => hset t (hr.obtained d i t hd)⟩
  | callTunnel hc | callAccept hc =>
    exact hr.move rfl (fun _ h => h) (.inr (.inr ⟨rfl, hkeep hc rfl⟩)) (by simp) (by simp)
  | lock hc =>
    exact hr.move rfl (fun _ h => h) (.inr (.inl ⟨rfl, rfl⟩)) (by simp) (by simp)
  | hit hc _ hlive =>
    obtain ⟨h1, h2⟩ := hobtained (isSome_of_isLive hlive)
    exact hr.move rfl (fun _ h => h) (.inl rfl) h1 h2
  | miss hc =>
    exact hr.move rfl (fun _ h => h) (.inr (.inr ⟨rfl, fun _ => rfl⟩)) (by simp) (by simp)
  | dialErr hc =>
    exact hr.move rfl (fun _ h => h) (.inl rfl) (fun m t h => absurd h (hfailed.1 m t))
      (fun i t h => absurd h (hfailed.2 i t))
  | @dialOk c m hc =>
    refine hr.move rfl hset (.inr (.inr ⟨rfl, fun _ => rfl⟩)) (fun m' t h => ?_) (by simp)
    cases h
    simp
  | @store c m t hc =>
    obtain ⟨h1, h2⟩ := hobtained (hr.stored c m t hc)
    exact hr.move rfl (fun _ h => h) (.inl rfl) h1 h2
  | allocId hc | register hc | opened hc | spawned hc =>
    exact hr.move rfl hset (.inr (.inr ⟨rfl, hkeep hc rfl⟩)) (by simp) (by simp)
  | closed hc | died hc =>
    exact hr.move rfl hset (.inr (.inr ⟨rfl, hkeep hc rfl⟩)) (fun m t h => absurd h (hfailed.1 m t))
      (fun i t h => absurd h (hfailed.2 i t))

/-- The call can take a step. -/
def CanStep (pingSecs : ℕ) (s : TunnelManager) (c : ℕ) : Prop :=
  ∃ a, a.call? = some c ∧ (s.step pingSecs a).isSome = true

/-- The owner of the mutex never waits. -/
theorem canStep_of_holdsLock (h : (s.calls c).holdsLock = true) : CanStep pingSecs s c := by
  cases hc : s.calls c with
  | checking m =>
    refine ⟨.check c, rfl, ?_⟩
    simp only [step, hc]
    cases hcur : s.current with
    | none => rfl
    | some t =>
      simp only
      split_ifs <;> rfl
  | dialing m => exact ⟨.dialErr c "", rfl, by simp only [step, hc]; rfl⟩
  | storing m t => exact ⟨.store c, rfl, by simp only [step, hc]; rfl⟩
  | _ =>
    rw [hc] at h
    cases h

theorem isSome_work {t : ℕ} {e : Endpoint} {b : Act} {next : Endpoint → Endpoint → Call}
    (he : s.tunnel t = some e) (hs : (e.step b).isSome = true) :
    (s.work c t b next).isSome = true := by
  simpa [work, he] using hs

/-- **A call waits for nothing but the mutex**, whose owner can take its step, **and room in a frame
channel.** -/
def Proceeds (pingSecs : ℕ) (s : TunnelManager) (c : ℕ) : Prop :=
  CanStep pingSecs s c ∨
  (∃ m d, s.calls c = .locking m ∧ s.lock = some d ∧ CanStep pingSecs s d) ∨
  ∃ i t k e, s.calls c = .opening i t k ∧ s.tunnel t = some e ∧ e.framesOpen = true ∧
    e.hasRoom = false

theorem proceeds_of_ready (ho : Owned s) (hr : Ready s) (hc : (s.calls c).isPending = true) :
    Proceeds pingSecs s c := by
  cases hp : s.calls c with
  | idle | done =>
    rw [hp] at hc
    cases hc
  | locking m =>
    cases hl : s.lock with
    | none => exact .inl ⟨.lock c, rfl, by simp only [step, hp, hl]; rfl⟩
    | some d => exact .inr (.inl ⟨m, d, hp, hl, canStep_of_holdsLock (hr.owner d hl)⟩)
  | checking | dialing | storing => exact .inl (canStep_of_holdsLock (by rw [hp]; rfl))
  | allocating i t =>
    obtain ⟨e, he⟩ := Option.isSome_iff_exists.mp (hr.obtained c i t hp)
    refine .inl ⟨.allocId c, rfl, ?_⟩
    simp only [step, hp]
    refine isSome_work he ?_
    simp only [Endpoint.step, if_pos (ho.endpoint t e he).2]
    rfl
  | registering i t k =>
    obtain ⟨e, he, hphase⟩ := ho.streams c t k (by rw [hp]; rfl)
    rw [hp] at hphase
    refine .inl ⟨.register c, rfl, ?_⟩
    simp only [step, hp]
    refine isSome_work he ?_
    simp only [Endpoint.step, show (e.inst k).phase = .allocated from hphase]
    rfl
  | opening i t k =>
    obtain ⟨e, he, hphase⟩ := ho.streams c t k (by rw [hp]; rfl)
    rw [hp] at hphase
    by_cases hfull : e.framesOpen = true ∧ e.hasRoom = false
    · exact .inr (.inr ⟨i, t, k, e, hp, he, hfull⟩)
    · refine .inl ⟨.open c, rfl, ?_⟩
      simp only [step, hp]
      refine isSome_work he ?_
      simp only [Endpoint.step, show (e.inst k).phase = .registered from hphase]
      split_ifs with hopen hroom
      · rfl
      · rfl
      · exact absurd ⟨by simpa using hopen, by simpa using hroom⟩ hfull
  | confirming i t k =>
    obtain ⟨e, he, hphase⟩ := ho.streams c t k (by rw [hp]; rfl)
    rw [hp] at hphase
    refine .inl ⟨.spawn c, rfl, ?_⟩
    simp only [step, hp]
    refine isSome_work he ?_
    simp only [Endpoint.step, show (e.inst k).phase = .opened from hphase]
    rfl

/-- A step of the call lowers its rank; no other step touches it. -/
theorem Does.rank_lt (h : Does pingSecs s a s') (hp : 0 < Call.left (s.calls c).method) :
    0 < Call.left (s'.calls c).method ∧
      (s'.calls c).rank + (a.isOf c).toNat ≤ (s.calls c).rank ∧
      (s'.calls c).dialsLeft + (a.isDialOf c).toNat ≤ (s.calls c).dialsLeft := by
  unfold Action.isDialOf Action.isOf
  rcases h.calls with ⟨d, ha, hm, hother⟩ | ⟨ha, heq⟩
  · by_cases hdc : c = d
    · subst hdc
      obtain ⟨h1, h2, h3⟩ := hm.rank_lt hp
      simp only [ha, decide_true, Bool.toNat_true, Bool.true_and]
      exact ⟨h1, h2, h3⟩
    · have hne : ¬ a.call? = some c := by
        rw [ha]
        simpa using Ne.symm hdc
      rw [hother c hdc]
      simpa [hne] using hp
  · rw [heq]
    simpa [ha] using hp

/-- **A call comes to its end.** In every run, a call takes at most eight steps in each attempt and ends
at most one dial in each; and until it has returned it can take its next step, unless it waits for the
mutex, whose owner then can, or for room in the frame channel of its tunnel. -/
theorem call_progress {t : List (TunnelManager × Action)} (h : Trace (step pingSecs) new t s) (c : ℕ) :
    t.countP (·.2.isOf c) ≤ 1 + 8 * attempts ∧ t.countP (·.2.isDialOf c) ≤ attempts ∧
    ((s.calls c).isPending = true → Proceeds pingSecs s c) := by
  have hzero : 0 < Call.left ((new.calls c).method) := Nat.one_pos
  have hstep : ∀ {s s' : TunnelManager} {a : Action}, 0 < Call.left (s.calls c).method →
      s.step pingSecs a = some s' → 0 < Call.left (s'.calls c).method ∧
        (s'.calls c).rank + (a.isOf c).toNat ≤ (s.calls c).rank + 0 * false.toNat := by
    intro s s' a hp hs
    obtain ⟨h1, h2, -⟩ := (Does.of_step hs).rank_lt hp
    exact ⟨h1, by omega⟩
  have hdial : ∀ {s s' : TunnelManager} {a : Action}, 0 < Call.left (s.calls c).method →
      s.step pingSecs a = some s' → 0 < Call.left (s'.calls c).method ∧
        (s'.calls c).dialsLeft + (a.isDialOf c).toNat ≤ (s.calls c).dialsLeft + 0 * false.toNat := by
    intro s s' a hp hs
    obtain ⟨h1, -, h3⟩ := (Does.of_step hs).rank_lt hp
    exact ⟨h1, by omega⟩
  have hall : Inv s ∧ Owned s ∧ Ready s :=
    h.invariant (I := fun _ s => Inv s ∧ Owned s ∧ Ready s) ⟨inv_new, owned_new, ready_new⟩
      fun ⟨hi, ho, hr⟩ hstep => ⟨inv_step hi (.of_step hstep), owned_step hi ho (.of_step hstep),
        ready_step hr (.of_step hstep)⟩
  obtain ⟨-, ho, hr⟩ := hall
  refine ⟨?_, ?_, proceeds_of_ready ho hr⟩
  · have hrank : (new.calls c).rank = 1 + 8 * attempts := rfl
    have hle := (h.countP_le hzero hstep).2
    rw [hrank] at hle
    omega
  · have hleft : (new.calls c).dialsLeft = attempts := rfl
    have hle := (h.countP_le hzero hdial).2
    rw [hleft] at hle
    omega

/-- The second of two connections waits for the first one's dial. -/
def dialing : List Action := [.callAccept 0, .callAccept 1, .lock 0, .check 0]

theorem call_progress_dialing :
    ∃ t s, Trace (step 0) new t s ∧ (s.calls 1).isPending = true ∧ s.lock = some 0 ∧
      Proceeds 0 s 1 ∧ t.countP (·.2.isOf 1) ≤ 17 ∧ t.countP (·.2.isDialOf 1) ≤ 2 := by
  have hrun : ((exec (guard (fun _ _ => true) (step 0)) new dialing).map
      fun s => (s.calls 1).isPending && s.lock == some 0) = some true := by decide +kernel
  obtain ⟨s, hs, hp⟩ := Option.map_eq_some_iff.mp hrun
  obtain ⟨t, ht, -⟩ := exec_trace dialing hs
  rw [Bool.and_eq_true, beq_iff_eq] at hp
  obtain ⟨hsteps, hdials, hproceeds⟩ := call_progress ht 1
  exact ⟨t, s, ht, hp.1, hp.2, hproceeds hp.1, hsteps, hdials⟩

end Invariant

end TunnelManager

end QeliSsPlugin.Client
