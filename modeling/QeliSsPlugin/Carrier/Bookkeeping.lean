import QeliSsPlugin.Carrier.Death

/-!
# Death bookkeeping

A tunnel records why it died, once: `kill_with` and `kill` fill the slot only when it is empty. Two
loops leave with the placeholder cause `Killed` when they find the dead flag set; the flag is set only
by a task that has filled the slot before, so the placeholder never wins. `Books` is the invariant, over
a run and its history: whoever may still record a cause has really hit it (`Hits`), or is an external
`kill`.
-/

namespace QeliSsPlugin.Carrier

open QeliSsPlugin.Lib.Runs QeliSsPlugin.Mux

/-- The cause a task carries through `log_tunnel_death` into `kill_with`. -/
def Exit.carried : Exit → Option DeathCause
  | .logCheck c | .logLen c | .logLine c | .setCause c => some c
  | _ => none

/-- Whether a task is past the point where `kill` records a cause. -/
def Exit.hasRecorded : Exit → Bool
  | .setDead | .closeAll | .done => true
  | _ => false

namespace Endpoint

variable {e e' : Endpoint} {a : Act} {side : Side} {pingSecs : ℕ} {t : List (Endpoint × Act)}
  {w : Who} {c : DeathCause}

/-- **A loop hits a failure**: the step at which it leaves for a reason of its own. -/
inductive Hits (e : Endpoint) : Who → Act → DeathCause → Prop
  | eof : e.reader = .select → Hits e .reader .readerEof .peerClosed
  | readErr : e.reader = .select → Hits e .reader .readerErr .readError
  | records {o rest cause} : e.reader = .drain → e.records = o :: rest →
      (judge e.badStreak o).2 = some cause → Hits e .reader .dispatch cause
  | encrypt : e.writer = .select → Hits e .writer .encryptErr .wireCorruption
  | write {f} : e.writer = .writing f → Hits e .writer .writeErr .writeError
  | keepalive {before} : e.keepalive = .grace before → e.pongs ≤ before →
      Hits e .keepalive .graceOver .keepaliveTimeout

/-- The loop `w` hit the failure `c` in the course of a run. -/
def Hit (t : List (Endpoint × Act)) (w : Who) (c : DeathCause) : Prop :=
  ∃ s b, (s, b) ∈ t ∧ Hits s w b c

/-- Somebody called `kill()` in the course of a run. -/
def KillCalled (t : List (Endpoint × Act)) : Prop := ∃ s n, (s, Act.kill n) ∈ t

theorem Hit.mono (h : Hit t w c) (x : Endpoint × Act) : Hit (t ++ [x]) w c := by
  obtain ⟨s, b, hm, hh⟩ := h
  exact ⟨s, b, List.mem_append_left _ hm, hh⟩

theorem Hit.last (h : Hits e w a c) : Hit (t ++ [(e, a)]) w c :=
  ⟨e, a, List.mem_append_right _ (List.mem_singleton_self _), h⟩

theorem KillCalled.mono (h : KillCalled t) (x : Endpoint × Act) : KillCalled (t ++ [x]) := by
  obtain ⟨s, n, hm⟩ := h
  exact ⟨s, n, List.mem_append_left _ hm⟩

/-- A recorded cause never changes. -/
theorem cause_mono (h : e.Step a e') (hc : e.cause = some c) : e'.cause = some c := by
  cases h with
  | setCause | setKilled => simp [hc]
  | _ => exact hc

/-- **The books are right**: a dead tunnel has a cause, and a cause was hit by a loop or is `Killed`
by an external call. The other fields say the same of the tasks on their way there. -/
structure Books (t : List (Endpoint × Act)) (e : Endpoint) : Prop where
  dead : e.dead = true → e.cause ≠ none
  /-- The placeholder is carried only where the slot is taken. -/
  carried : ∀ w c, (e.exit w).carried = some c → e.cause ≠ none ∨ Hit t w c
  setKilled : ∀ w, e.exit w = .setKilled → e.cause ≠ none ∨ KillCalled t
  recorded : ∀ w, (e.exit w).hasRecorded = true → e.cause ≠ none
  cause : ∀ c, e.cause = some c → (∃ w, Hit t w c) ∨ c = .killed ∧ KillCalled t

theorem books_spawnTunnel : Books [] (spawnTunnel side pingSecs) := by
  constructor <;> simp [spawnTunnel, Exit.carried, Exit.hasRecorded]

/-- A step that leaves the death sequence alone. -/
theorem Books.frame (hi : Books t e) (x : Endpoint × Act) (hexit : e'.exit = e.exit)
    (hcause : e'.cause = e.cause) (hdead : e'.dead = e.dead) : Books (t ++ [x]) e' := by
  refine ⟨fun hd => ?_, fun w c hw => ?_, fun w hw => ?_, fun w hw => ?_, fun c hc => ?_⟩
  · rw [hcause]; exact hi.dead (hdead ▸ hd)
  · rw [hcause]; rw [hexit] at hw
    exact (hi.carried w c hw).imp_right (·.mono x)
  · rw [hcause]; rw [hexit] at hw
    exact (hi.setKilled w hw).imp_right (·.mono x)
  · rw [hcause]; rw [hexit] at hw
    exact hi.recorded w hw
  · rw [hcause] at hc
    exact (hi.cause c hc).imp (fun ⟨w, h⟩ => ⟨w, h.mono x⟩) (.imp_right (·.mono x))

/-- A step that moves one task in the death sequence and records nothing. -/
theorem Books.move (hi : Books t e) (x : Endpoint × Act) {y : Exit}
    (hexit : e'.exit = Function.update e.exit w y) (hcause : e'.cause = e.cause)
    (hdead : e'.dead = true → e.cause ≠ none)
    (hcarried : ∀ c, y.carried = some c → e.cause ≠ none ∨ Hit (t ++ [x]) w c)
    (hkilled : y = .setKilled → e.cause ≠ none ∨ KillCalled (t ++ [x]))
    (hrecorded : y.hasRecorded = true → e.cause ≠ none) : Books (t ++ [x]) e' := by
  refine ⟨fun hd => ?_, fun w' c hw => ?_, fun w' hw => ?_, fun w' hw => ?_, fun c hc => ?_⟩
  · rw [hcause]; exact hdead hd
  · rw [hcause]; rw [hexit, Function.update_apply] at hw
    split_ifs at hw with heq
    · subst heq; exact hcarried c hw
    · exact (hi.carried w' c hw).imp_right (·.mono x)
  · rw [hcause]; rw [hexit, Function.update_apply] at hw
    split_ifs at hw
    · exact hkilled hw
    · exact (hi.setKilled w' hw).imp_right (·.mono x)
  · rw [hcause]; rw [hexit, Function.update_apply] at hw
    split_ifs at hw
    · exact hrecorded hw
    · exact hi.recorded w' hw
  · rw [hcause] at hc
    exact (hi.cause c hc).imp (fun ⟨w, h⟩ => ⟨w, h.mono x⟩) (.imp_right (·.mono x))

/-- A step that records a cause, if none is recorded yet. -/
theorem Books.record (hi : Books t e) (x : Endpoint × Act)
    (hcause : e'.cause = e.cause.or (some c))
    (hnew : e.cause = none → (∃ w, Hit t w c) ∨ c = .killed ∧ KillCalled t) :
    Books (t ++ [x]) e' := by
  have hsome : e'.cause ≠ none := by rw [hcause]; cases e.cause <;> simp
  refine ⟨fun _ => hsome, fun _ _ _ => .inl hsome, fun _ _ => .inl hsome, fun _ _ => hsome,
    fun c' hc' => ?_⟩
  have hold : (∃ w, Hit t w c') ∨ c' = .killed ∧ KillCalled t := by
    cases hc : e.cause with
    | none =>
      rw [hcause, hc] at hc'
      obtain rfl : c = c' := by simpa using hc'
      exact hnew hc
    | some c₀ =>
      rw [hcause, hc] at hc'
      obtain rfl : c₀ = c' := by simpa using hc'
      exact hi.cause c₀ hc
  exact hold.imp (fun ⟨w, h⟩ => ⟨w, h.mono x⟩) (.imp_right (·.mono x))

/-- A loop leaves: for a failure it hit, or because it found the tunnel dead. -/
theorem Books.leave (hi : Books t e) (hexit : e'.exit = Function.update e.exit w (.logCheck c))
    (hcause : e'.cause = e.cause) (hdead : e'.dead = e.dead) (h : e.dead = true ∨ Hits e w a c) :
    Books (t ++ [(e, a)]) e' := by
  refine hi.move _ hexit hcause (fun hd => hi.dead (hdead ▸ hd)) (fun c' hc' => ?_)
    (fun h => by cases h) (fun h => by cases h)
  obtain rfl : c = c' := by simpa [Exit.carried] using hc'
  exact h.imp hi.dead .last

theorem books_step (hi : Books t e) (h : e.Step a e') : Books (t ++ [(e, a)]) e' := by
  cases h with
  | readerExit hx =>
    generalize hr : e.reader = r at hx
    cases hx with
    | top hd | dead hd => exact hi.leave rfl rfl rfl (.inl hd)
    | eof => exact hi.leave rfl rfl rfl (.inr (.eof hr))
    | err => exact hi.leave rfl rfl rfl (.inr (.readErr hr))
  | handleKill hr hrec hj => exact hi.leave rfl rfl rfl (.inr (.records hr hrec hj))
  | writerExit hx =>
    generalize hw : e.writer = y at hx
    cases hx with
    | top hd | dead hd => exact hi.leave rfl rfl rfl (.inl hd)
    | err => exact hi.leave rfl rfl rfl (.inr (.write hw))
  | encryptErr hw => exact hi.leave rfl rfl rfl (.inr (.encrypt hw))
  | graceLost hk hp => exact hi.leave rfl rfl rfl (.inr (.keepalive hk hp))
  | @exitMove _ w y hx =>
    generalize hy : e.exit w = z at hx
    cases hx with
    | known | unknown | len =>
      refine hi.move _ rfl rfl hi.dead (fun c' hc' => ?_) (fun h => by cases h) (fun h => by cases h)
      exact (hi.carried w c' (by rw [hy]; exact hc')).imp_right (·.mono _)
    | @kill n =>
      exact hi.move _ rfl rfl hi.dead (fun _ h => by cases h)
        (fun _ => .inr ⟨e, n, by simp⟩) (fun h => by cases h)
  | @logLine w c hx =>
    refine hi.move _ rfl rfl hi.dead (fun c' hc' => ?_) (fun h => by cases h) (fun h => by cases h)
    exact (hi.carried w c' (by rw [hx]; exact hc')).imp_right (·.mono _)
  | @setCause w c hx =>
    refine hi.record _ rfl fun hnone => .inl ⟨w, ?_⟩
    exact (hi.carried w c (by rw [hx]; rfl)).resolve_left fun h => h hnone
  | @setKilled w hx =>
    exact hi.record _ rfl fun hnone =>
      .inr ⟨rfl, (hi.setKilled w hx).resolve_left fun h => h hnone⟩
  | @setDead w hx =>
    have hsome := hi.recorded w (by rw [hx]; rfl)
    exact hi.move _ rfl rfl (fun _ => hsome) (fun _ h => by cases h) (fun h => by cases h)
      (fun _ => hsome)
  | @closeAll w hx =>
    have hsome := hi.recorded w (by rw [hx]; rfl)
    exact hi.move _ rfl rfl hi.dead (fun _ h => by cases h) (fun h => by cases h) (fun _ => hsome)
  | _ => exact hi.frame _ rfl rfl rfl

theorem books_trace (h : Trace step (spawnTunnel side pingSecs) t e) : Books t e :=
  h.invariant books_spawnTunnel fun hi hs => books_step hi (.of_step hs)

/-- No loop hits `Killed`. -/
theorem Hits.ne_killed (h : Hits e w a c) : c ≠ .killed := by
  cases h with
  | @records o rest cause _ _ hj =>
    rcases o with f | _ | _ <;> simp only [judge] at hj
    · cases hj
    all_goals
      split_ifs at hj
      cases hj
      simp
  | _ => simp

/-- **Death bookkeeping.** In every state of every run: a dead tunnel has a recorded cause; a recorded
cause stays and so does the dead flag; the cause is `Killed` only if somebody called `kill()`, and any
other cause was hit by one of the loops; a task that is about to fill the slot through `kill_with` has
itself hit the cause it brings, so the placeholder of a loop that found the tunnel dead is never
recorded. -/
theorem death_bookkeeping (h : Trace step (spawnTunnel side pingSecs) t e) :
    (e.dead = true → e.cause ≠ none) ∧
      (∀ t' e', Trace step e t' e' →
        (∀ c, e.cause = some c → e'.cause = some c) ∧ (e.dead = true → e'.dead = true)) ∧
      (e.cause = some .killed → KillCalled t) ∧
      (∀ c, e.cause = some c → c ≠ .killed → ∃ w, Hit t w c) ∧
      (∀ w c, e.exit w = .setCause c → e.cause = none → Hit t w c ∧ c ≠ .killed) := by
  have hi := books_trace h
  refine ⟨hi.dead, fun t' e' h' => ?_, fun hc => ?_, fun c hc hne => ?_, fun w c hw hnone => ?_⟩
  · refine h'.invariant (I := fun _ e' => (∀ c, e.cause = some c → e'.cause = some c) ∧
      (e.dead = true → e'.dead = true)) ⟨fun _ => id, id⟩ fun hi hs => ?_
    exact ⟨fun c hc => cause_mono (.of_step hs) (hi.1 c hc),
      fun hd => dead_mono (.of_step hs) (hi.2 hd)⟩
  · rcases hi.cause _ hc with ⟨w, s, b, -, hh⟩ | ⟨-, hk⟩
    · exact absurd rfl hh.ne_killed
    · exact hk
  · exact (hi.cause c hc).resolve_right fun hk => hne hk.1
  · obtain ⟨s, b, hm, hh⟩ := (hi.carried w c (by rw [hw]; rfl)).resolve_left fun h => h hnone
    exact ⟨⟨s, b, hm, hh⟩, hh.ne_killed⟩

/-- The peer closes the connection; while the reader is on its way to kill the tunnel an external
`kill` runs to its end, and the writer leaves with the placeholder. -/
def closedAndKilled : List Act :=
  [Act.writerTop, .readerTop, .dispatch, .readerEof] ++ List.replicate 4 (Act.exit .reader) ++
    [Act.kill 0] ++ List.replicate 3 (Act.exit (.caller 0)) ++ [Act.writerDead] ++
    List.replicate 2 (Act.exit .writer)

theorem death_bookkeeping_closedAndKilled :
    ∃ t e, Trace step (spawnTunnel .server 1) t e ∧ e.dead = true ∧ e.cause = some .peerClosed ∧
      e.exit .writer = .setKilled ∧ ∃ w, Hit t w .peerClosed := by
  have hexec : (exec (guard (fun _ _ => true) step) (spawnTunnel .server 1) closedAndKilled).map
      (fun e => (e.dead, e.cause, e.exit .writer)) = some (true, some .peerClosed, .setKilled) := by
    decide +kernel
  obtain ⟨e, he, hmap⟩ := Option.map_eq_some_iff.mp hexec
  obtain ⟨hdead, hcause, hexit⟩ : e.dead = true ∧ e.cause = some .peerClosed ∧
      e.exit .writer = .setKilled := by
    simpa using hmap
  obtain ⟨t, ht, -⟩ := exec_trace _ he
  exact ⟨t, e, ht, hdead, hcause, hexit,
    (death_bookkeeping ht).2.2.2.1 .peerClosed hcause (by simp)⟩

end Endpoint

end QeliSsPlugin.Carrier
