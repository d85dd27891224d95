import QeliSsPlugin.Carrier.Bookkeeping

/-!
# The tunnel-down line

`log_tunnel_death` means to log a tunnel's death once: it stays silent when a cause is recorded. But the
cause is recorded only afterwards, in `kill_with`, so two loops that leave at the same time can both find
no cause and both log (`two_death_lines`). `Undisturbed` excludes this: a loop that finds no cause finds
no other loop between its check and its recording. `death_line_iff` says that this is exactly what the
single line needs.
-/

namespace QeliSsPlugin.Carrier

open QeliSsPlugin.Lib.Runs QeliSsPlugin.Mux

/-- Whether a task has found no cause recorded and has its line still to log. -/
def Exit.logging : Exit → Bool
  | .logLen _ | .logLine _ => true
  | _ => false

/-- Whether a task is between its check for a recorded cause and its recording of one. -/
def Exit.deciding : Exit → Bool
  | .logLen _ | .logLine _ | .setCause _ => true
  | _ => false

theorem Exit.deciding_iff (x : Exit) :
    x.deciding = true ↔ x.logging = true ∨ ∃ c, x = .setCause c := by
  cases x <;> simp [Exit.deciding, Exit.logging]

namespace Endpoint

variable {e e' : Endpoint} {a : Act} {side : Side} {pingSecs : ℕ} {t : List (Endpoint × Act)}
  {w w' : Who} {c : DeathCause}

/-- **No check falls between another loop's check and its recording**: a task that finds no cause
recorded is the only one on its way to record one. -/
def Undisturbed (e : Endpoint) (a : Act) : Prop :=
  ∀ w c, a = .exit w → e.exit w = .logCheck c → e.cause = none →
    ∀ w', w' ≠ w → (e.exit w').deciding = false

/-- **One line**: never more than one, and a dead tunnel has one, with the cause that is recorded. -/
def OneLine (e : Endpoint) : Prop :=
  e.log.length ≤ 1 ∧ (e.dead = true → ∃ w c, e.log = [(w, c)] ∧ e.cause = some c)

/-! ### What a step does to the death sequence -/

/-- The steps that move a task through its death sequence and neither log nor record. -/
inductive ExitsOn (e : Endpoint) (w : Who) (a : Act) : Exit → Exit → Prop
  | leave {c : DeathCause} : (∀ n, w ≠ .caller n) → ExitsOn e w a .idle (.logCheck c)
  | known {c : DeathCause} : e.cause ≠ none → ExitsOn e w a (.logCheck c) (.setCause c)
  | unknown {c : DeathCause} : a = .exit w → e.cause = none → ExitsOn e w a (.logCheck c) (.logLen c)
  | len {c : DeathCause} : ExitsOn e w a (.logLen c) (.logLine c)
  | kill {n : ℕ} : a = .kill n → ExitsOn e w a .idle .setKilled
  | dead : ExitsOn e w a .setDead .closeAll
  | close : ExitsOn e w a .closeAll .done

/-- What a step does to the death sequence, the recorded cause and the log. -/
inductive DeathStep (e : Endpoint) (a : Act) (e' : Endpoint) : Prop
  | same : e'.exit = e.exit → e'.cause = e.cause → e'.log = e.log → DeathStep e a e'
  | exitsOn {w : Who} {y : Exit} : ExitsOn e w a (e.exit w) y → e'.exit = Function.update e.exit w y →
      e'.cause = e.cause → e'.log = e.log → DeathStep e a e'
  | logLine {w : Who} {c : DeathCause} : e.exit w = .logLine c →
      e' = { e.setExit w (.setCause c) with log := e.log ++ [(w, c)] } → DeathStep e a e'
  | setCause {w : Who} {c : DeathCause} : e.exit w = .setCause c →
      e' = { e.setExit w .setKilled with cause := e.cause.or (some c) } → DeathStep e a e'
  | setKilled {w : Who} : e.exit w = .setKilled →
      e' = { e.setExit w .setDead with cause := e.cause.or (some .killed) } → DeathStep e a e'

theorem DeathStep.of_idle (hloop : ∀ n, w ≠ .caller n) (hidle : e.exit w = .idle)
    (hexit : e'.exit = Function.update e.exit w (.logCheck c)) (hcause : e'.cause = e.cause)
    (hlog : e'.log = e.log) : DeathStep e a e' :=
  .exitsOn (hidle ▸ .leave hloop) hexit hcause hlog

theorem deathStep (hl : LoopsInv e) (h : e.Step a e') : DeathStep e a e' := by
  cases h with
  | readerExit hx =>
    refine .of_idle (by simp) (hl.reader ?_) rfl rfl rfl
    generalize e.reader = r at hx
    cases hx <;> simp
  | handleKill hr => exact .of_idle (by simp) (hl.reader (by simp [hr])) rfl rfl rfl
  | writerExit hx =>
    refine .of_idle (by simp) (hl.writer ?_) rfl rfl rfl
    generalize e.writer = r at hx
    cases hx <;> simp
  | encryptErr hw => exact .of_idle (by simp) (hl.writer (by simp [hw])) rfl rfl rfl
  | graceLost hk => exact .of_idle (by simp) (hl.keepalive (by simp [hk])) rfl rfl rfl
  | @exitMove _ w y hx =>
    refine .exitsOn (w := w) (y := y) ?_ rfl rfl rfl
    generalize e.exit w = z at hx
    cases hx with
    | known hc =>
      refine .known fun hnone => ?_
      rw [hnone] at hc; cases hc
    | unknown hnone => exact .unknown rfl hnone
    | len => exact .len
    | kill => exact .kill rfl
  | logLine hx => exact .logLine hx rfl
  | setCause hx => exact .setCause hx rfl
  | setKilled hx => exact .setKilled hx rfl
  | setDead hx => exact .exitsOn (hx ▸ .dead) rfl rfl rfl
  | closeAll hx => exact .exitsOn (hx ▸ .close) rfl rfl rfl
  | _ => exact .same rfl rfl rfl

/-! ### One line, if no check is disturbed -/

/-- The log is the line of the task that records the cause. -/
structure Tidy (e : Endpoint) : Prop where
  alone : e.cause = none → ∀ w w', (e.exit w).deciding = true → (e.exit w').deciding = true → w = w'
  silent : e.cause = none → (∀ w c, e.exit w ≠ .setCause c) → e.log = []
  spoken : e.cause = none → ∀ w c, e.exit w = .setCause c → e.log = [(w, c)]
  quiet : e.cause ≠ none → ∀ w, (e.exit w).logging = false
  line : ∀ c, e.cause = some c → ∃ w, e.log = [(w, c)]

theorem tidy_spawnTunnel : Tidy (spawnTunnel side pingSecs) := by
  constructor <;> simp [spawnTunnel, Exit.deciding, Exit.logging]

theorem Tidy.frame (hi : Tidy e) (hexit : e'.exit = e.exit) (hcause : e'.cause = e.cause)
    (hlog : e'.log = e.log) : Tidy e' := by
  obtain ⟨h1, h2, h3, h4, h5⟩ := hi
  exact ⟨by rwa [hcause, hexit], by rwa [hcause, hexit, hlog], by rwa [hcause, hexit, hlog],
    by rwa [hcause, hexit], by rwa [hcause, hlog]⟩

/-- A task moves on, but not past the check, not past the line, and not to the recording before a
cause is there. -/
theorem Tidy.move (hi : Tidy e) {y : Exit} (hexit : e'.exit = Function.update e.exit w y)
    (hcause : e'.cause = e.cause) (hlog : e'.log = e.log)
    (hdeciding : e.cause = none → y.deciding = (e.exit w).deciding)
    (hset : e.cause = none → ∀ c, y = .setCause c ↔ e.exit w = .setCause c)
    (hlogging : y.logging = true → (e.exit w).logging = true) : Tidy e' := by
  have hdec : e.cause = none → ∀ w', (e'.exit w').deciding = (e.exit w').deciding := by
    intro hnone w'
    rw [hexit, Function.update_apply]
    split_ifs with hw
    · rw [hw, hdeciding hnone]
    · rfl
  have hsets : e.cause = none → ∀ w' c, e'.exit w' = .setCause c ↔ e.exit w' = .setCause c := by
    intro hnone w' c
    rw [hexit, Function.update_apply]
    split_ifs with hw
    · rw [hw]; exact hset hnone c
    · exact Iff.rfl
  refine ⟨fun hnone w₁ w₂ h₁ h₂ => ?_, fun hnone hno => ?_, fun hnone w' c h => ?_,
    fun hne w' => ?_, fun c hc => ?_⟩
  · rw [hcause] at hnone
    rw [hdec hnone] at h₁ h₂
    exact hi.alone hnone w₁ w₂ h₁ h₂
  · rw [hcause] at hnone
    rw [hlog]
    exact hi.silent hnone fun w' c h => hno w' c ((hsets hnone w' c).mpr h)
  · rw [hcause] at hnone
    rw [hlog]
    exact hi.spoken hnone w' c ((hsets hnone w' c).mp h)
  · rw [hcause] at hne
    rw [hexit, Function.update_apply]
    split_ifs with hw
    · have hquiet := hi.quiet hne w
      by_contra hy
      rw [hlogging (by simpa using hy)] at hquiet
      cases hquiet
    · exact hi.quiet hne w'
  · rw [hcause] at hc
    rw [hlog]
    exact hi.line c hc

/-- The check of a task that nobody disturbs. -/
theorem Tidy.check (hi : Tidy e) (hx : e.exit w = .logCheck c) (hnone : e.cause = none)
    (hothers : ∀ w', w' ≠ w → (e.exit w').deciding = false)
    (hexit : e'.exit = Function.update e.exit w (.logLen c)) (hcause : e'.cause = e.cause)
    (hlog : e'.log = e.log) : Tidy e' := by
  have hnot : ∀ w', (e.exit w').deciding = false := by
    intro w'
    by_cases hw : w' = w
    · rw [hw, hx]; rfl
    · exact hothers w' hw
  have hset : ∀ w' c', e.exit w' ≠ .setCause c' := by
    intro w' c' h
    have := hnot w'
    rw [h] at this; cases this
  refine ⟨fun _ w₁ w₂ h₁ h₂ => ?_, fun _ _ => ?_, fun _ w' c' h => ?_,
    fun hne => absurd (hcause.trans hnone) hne, fun c' hc' => ?_⟩
  · have heq : ∀ w', (e'.exit w').deciding = true → w' = w := by
      intro w' h
      rw [hexit, Function.update_apply] at h
      split_ifs at h with hw
      · exact hw
      · rw [hnot w'] at h; cases h
    rw [heq w₁ h₁, heq w₂ h₂]
  · rw [hlog]
    exact hi.silent hnone hset
  · rw [hexit, Function.update_apply] at h
    split_ifs at h with hw
    exact absurd h (hset w' c')
  · rw [hcause, hnone] at hc'; cases hc'

/-- The line is logged. -/
theorem Tidy.logLine (hi : Tidy e) (hx : e.exit w = .logLine c) :
    Tidy { e.setExit w (.setCause c) with log := e.log ++ [(w, c)] } := by
  have hnone : e.cause = none := by
    by_contra hne
    have := hi.quiet hne w
    rw [hx] at this; cases this
  have hself : (e.exit w).deciding = true := by rw [hx]; rfl
  have hset : ∀ w' c', e.exit w' ≠ .setCause c' := by
    intro w' c' h
    have hw : w' = w := hi.alone hnone w' w (by rw [h]; rfl) hself
    rw [hw, hx] at h; cases h
  have hlog : e.log ++ [(w, c)] = [(w, c)] := by rw [hi.silent hnone hset]; rfl
  refine ⟨fun _ w₁ w₂ h₁ h₂ => ?_, fun _ hno => ?_, fun _ w' c' h => ?_, fun hne => absurd hnone hne,
    fun c' hc' => ?_⟩
  · have hold : ∀ w', (Function.update e.exit w (.setCause c) w').deciding = true → w' = w := by
      intro w' h
      rw [Function.update_apply] at h
      split_ifs at h with hw
      · exact hw
      · exact hi.alone hnone w' w h hself
    rw [hold w₁ h₁, hold w₂ h₂]
  · exact absurd (by simp) (hno w c)
  · show e.log ++ [(w, c)] = [(w', c')]
    rw [hlog]
    have h : Function.update e.exit w (.setCause c) w' = .setCause c' := h
    rw [Function.update_apply] at h
    split_ifs at h with hw
    · cases h; rw [hw]
    · exact absurd h (hset w' c')
  · have hc' : e.cause = some c' := hc'
    rw [hnone] at hc'; cases hc'

/-- The cause is recorded, if none was. -/
theorem Tidy.setCause (hi : Tidy e) (hx : e.exit w = .setCause c) :
    Tidy { e.setExit w .setKilled with cause := e.cause.or (some c) } := by
  cases hcause : e.cause with
  | some c₀ =>
    have hne : e.cause ≠ none := by simp [hcause]
    refine ⟨fun h => by simp at h, fun h => by simp at h, fun h => by simp at h, fun _ w' => ?_,
      fun c' hc' => ?_⟩
    · show (Function.update e.exit w .setKilled w').logging = false
      rw [Function.update_apply]
      split_ifs
      · rfl
      · exact hi.quiet hne w'
    · obtain rfl : c₀ = c' := by simpa using hc'
      exact hi.line c₀ hcause
  | none =>
    refine ⟨fun h => by simp at h, fun h => by simp at h, fun h => by simp at h, fun _ w' => ?_,
      fun c' hc' => ?_⟩
    · show (Function.update e.exit w .setKilled w').logging = false
      rw [Function.update_apply]
      split_ifs with hw
      · rfl
      · -- the task that records is the only one that logs
        by_contra hlog
        have hdec := (Exit.deciding_iff (e.exit w')).mpr (.inl (by simpa using hlog))
        exact hw (hi.alone hcause w' w hdec (by rw [hx]; rfl))
    · obtain rfl : c = c' := by simpa using hc'
      exact ⟨w, hi.spoken hcause w c hx⟩

theorem tidy_step (hb : Books t e) (hi : Tidy e) (hu : Undisturbed e a)
    (hkill : ¬ KillCalled (t ++ [(e, a)])) (h : DeathStep e a e') : Tidy e' := by
  cases h with
  | same hexit hcause hlog => exact hi.frame hexit hcause hlog
  | @exitsOn w y hon hexit hcause hlog =>
    generalize hz : e.exit w = z at hon
    cases hon with
    | leave =>
      refine hi.move hexit hcause hlog (fun _ => ?_) (fun _ c' => ?_) (fun h => by cases h)
      · rw [hz]; rfl
      · rw [hz]; simp
    | known hne =>
      exact hi.move hexit hcause hlog (fun h => absurd h hne) (fun h => absurd h hne)
        (fun h => by cases h)
    | @unknown c ha hnone => exact hi.check hz hnone (hu w c ha hz hnone) hexit hcause hlog
    | len =>
      refine hi.move hexit hcause hlog (fun _ => ?_) (fun _ c' => ?_) (fun _ => ?_)
      · rw [hz]; rfl
      · rw [hz]; simp
      · rw [hz]; rfl
    | @kill n ha => exact absurd ⟨e, n, by simp [ha]⟩ hkill
    | dead | close =>
      have hne := hb.recorded w (by rw [hz]; rfl)
      exact hi.move hexit hcause hlog (fun h => absurd h hne) (fun h => absurd h hne)
        (fun h => by cases h)
  | logLine hx heq => rw [heq]; exact hi.logLine hx
  | setCause hx heq => rw [heq]; exact hi.setCause hx
  | @setKilled w hx heq =>
    have hne : e.cause ≠ none := (hb.setKilled w hx).resolve_right fun hk => hkill (hk.mono _)
    subst heq
    refine hi.move rfl ?_ rfl (fun h => absurd h hne) (fun h => absurd h hne) (fun h => by cases h)
    cases hcause : e.cause with
    | none => exact absurd hcause hne
    | some c => rfl

theorem tidy_trace (h : Trace step (spawnTunnel side pingSecs) t e) (hkill : ¬ KillCalled t)
    (hu : ∀ x ∈ t, Undisturbed x.1 x.2) : Tidy e := by
  induction h with
  | nil => exact tidy_spawnTunnel
  | @snoc t s s' b ht hs ih =>
    have hi : Tidy s := ih (fun hk => hkill (hk.mono _)) fun x hx => hu x (List.mem_append_left _ hx)
    exact tidy_step (books_trace ht) hi
      (hu (s, b) (List.mem_append_right _ (List.mem_singleton_self _))) hkill
      (deathStep (loopsInv_reachable ht.reachable) (.of_step hs))

theorem Tidy.oneLine (hi : Tidy e) (hdead : e.dead = true → e.cause ≠ none) : OneLine e := by
  refine ⟨?_, fun hd => ?_⟩
  · cases hc : e.cause with
    | some c =>
      obtain ⟨w, hlog⟩ := hi.line c hc
      simp [hlog]
    | none =>
      by_cases hset : ∃ w c, e.exit w = .setCause c
      · obtain ⟨w, c, hx⟩ := hset
        simp [hi.spoken hc w c hx]
      · have hno : ∀ w c, e.exit w ≠ .setCause c := fun w c h => hset ⟨w, c, h⟩
        simp [hi.silent hc hno]
  · obtain ⟨c, hc⟩ := Option.ne_none_iff_exists'.mp (hdead hd)
    obtain ⟨w, hlog⟩ := hi.line c hc
    exact ⟨w, c, hlog, hc⟩

/-! ### Two lines, if one is -/

/-- A task has logged its line, or will. -/
def Speaks (e : Endpoint) (w : Who) : Prop :=
  (e.exit w).logging = true ∨ ∃ c, (w, c) ∈ e.log

/-- A task that is about to record the first cause has logged. -/
def Said (e : Endpoint) : Prop :=
  ∀ w c, e.exit w = .setCause c → e.cause = none → (w, c) ∈ e.log

/-- A task that has its line to log, or has logged it, still does after a step. -/
theorem speaks_step (hs : Speaks e w) (h : DeathStep e a e') : Speaks e' w := by
  -- another task moves, or this one without having to log
  have hmove : ∀ {w' y}, e'.exit = Function.update e.exit w' y → e'.log = e.log →
      ((e.exit w').logging = true → y.logging = true) → Speaks e' w := by
    intro w' y hexit hlog hy
    rcases hs with hs | ⟨c, hc⟩
    · left
      rw [hexit, Function.update_apply]
      split_ifs with hw
      · exact hy (hw ▸ hs)
      · exact hs
    · exact .inr ⟨c, hlog ▸ hc⟩
  cases h with
  | same hexit _ hlog =>
    unfold Speaks at *
    rwa [hexit, hlog]
  | @exitsOn w' y hon hexit _ hlog =>
    refine hmove hexit hlog fun hy => ?_
    generalize e.exit w' = z at hon hy
    cases hon <;> first | rfl | cases hy
  | @logLine w' c hx heq =>
    subst heq
    rcases hs with hs | ⟨c', hc'⟩
    · by_cases hw : w = w'
      · exact .inr ⟨c, by simp [hw]⟩
      · exact .inl (by simpa [Function.update_of_ne hw] using hs)
    · exact .inr ⟨c', by simp [hc']⟩
  | setCause hx heq | setKilled hx heq =>
    subst heq
    refine hmove rfl rfl fun hy => ?_
    rw [hx] at hy; cases hy

theorem said_step (hs : Said e) (h : DeathStep e a e') : Said e' := by
  intro w c hw hnone
  cases h with
  | same hexit hcause hlog =>
    rw [hexit] at hw
    rw [hcause] at hnone
    rw [hlog]
    exact hs w c hw hnone
  | @exitsOn w' y hon hexit hcause hlog =>
    rw [hcause] at hnone
    rw [hlog]
    rw [hexit, Function.update_apply] at hw
    split_ifs at hw with heq
    · subst hw
      generalize e.exit w' = z at hon
      cases hon with
      | known hne => exact absurd hnone hne
    · exact hs w c hw hnone
  | @logLine w' c' hx heq =>
    subst heq
    have hw : Function.update e.exit w' (.setCause c') w = .setCause c := hw
    rw [Function.update_apply] at hw
    split_ifs at hw with heq
    · cases hw
      simp [heq]
    · exact List.mem_append_left _ (hs w c hw hnone)
  | setCause hx heq | setKilled hx heq =>
    subst heq
    simp at hnone

theorem said_trace (h : Trace step (spawnTunnel side pingSecs) t e) : Said e := by
  induction h with
  | nil => exact fun w c hw => by simp [spawnTunnel] at hw
  | snoc ht hs ih =>
    exact said_step ih (deathStep (loopsInv_reachable ht.reachable) (.of_step hs))

/-- A disturbed check makes two tasks log. -/
theorem speaks_of_disturbed (hs : Said e) (h : DeathStep e a e') (ha : e.step a = some e')
    (hd : ¬ Undisturbed e a) : ∃ w w', w ≠ w' ∧ Speaks e' w ∧ Speaks e' w' := by
  unfold Undisturbed at hd
  push Not at hd
  obtain ⟨w, c, rfl, hx, hnone, w', hne, hdec⟩ := hd
  have hother : Speaks e w' := by
    rcases (Exit.deciding_iff _).mp (by simpa using hdec) with hlog | ⟨c', hset⟩
    · exact .inl hlog
    · exact .inr ⟨c', hs w' c' hset hnone⟩
  refine ⟨w, w', hne.symm, .inl ?_, speaks_step hother h⟩
  simp only [step, exitStep, hx, hnone, Option.isSome_none, Bool.false_eq_true, if_false,
    Option.some.injEq] at ha
  rw [← ha]
  simp [Exit.logging]

theorem speaks_trace (h : Trace step (spawnTunnel side pingSecs) t e) {x : Endpoint × Act}
    (hx : x ∈ t) (hd : ¬ Undisturbed x.1 x.2) : ∃ w w', w ≠ w' ∧ Speaks e w ∧ Speaks e w' := by
  induction h with
  | nil => simp at hx
  | @snoc t s s' b ht hs ih =>
    have hstep := deathStep (loopsInv_reachable ht.reachable) (.of_step hs)
    rcases List.mem_append.mp hx with hx | hx
    · obtain ⟨w, w', hne, h1, h2⟩ := ih hx
      exact ⟨w, w', hne, speaks_step h1 hstep, speaks_step h2 hstep⟩
    · obtain rfl : x = (s, b) := List.mem_singleton.mp hx
      exact speaks_of_disturbed (said_trace ht) hstep hs hd

/-- Nobody has a line to log any more. -/
def Settled (e : Endpoint) : Prop := e.dead = true ∧ ∀ w, (e.exit w).logging = false

theorem Settled.mem_log (h : Settled e) (hs : Speaks e w) : ∃ c, (w, c) ∈ e.log := by
  rcases hs with hs | hs
  · rw [h.2 w] at hs; cases hs
  · exact hs

/-- **The tunnel-down line is logged once exactly if no check is disturbed.** In every run without an
external `kill`: if no step disturbs a check, every state has at most one line, and a dead tunnel has
one, with the recorded cause; and if a tunnel that has died and has no line pending has one line, then
no step has disturbed a check. -/
theorem death_line_iff (h : Trace step (spawnTunnel side pingSecs) t e) (hkill : ¬ KillCalled t) :
    ((∀ x ∈ t, Undisturbed x.1 x.2) → OneLine e) ∧
      (Settled e → OneLine e → ∀ x ∈ t, Undisturbed x.1 x.2) := by
  refine ⟨fun hu => (tidy_trace h hkill hu).oneLine (books_trace h).dead, fun hset hone x hx => ?_⟩
  by_contra hd
  obtain ⟨w, w', hne, h1, h2⟩ := speaks_trace h hx hd
  obtain ⟨c, hc⟩ := hset.mem_log h1
  obtain ⟨c', hc'⟩ := hset.mem_log h2
  obtain ⟨w₀, c₀, hlog, -⟩ := hone.2 hset.1
  rw [hlog, List.mem_singleton] at hc hc'
  exact hne ((congrArg Prod.fst hc).trans (congrArg Prod.fst hc').symm)

/-! ### Two runs -/

/-- An external `kill` carries no cause of its own. -/
theorem carried_caller_step {n : ℕ} (hi : (e.exit (.caller n)).carried = none)
    (h : DeathStep e a e') : (e'.exit (.caller n)).carried = none := by
  cases h with
  | same hexit => rw [hexit]; exact hi
  | @exitsOn w y hon hexit =>
    rw [hexit, Function.update_apply]
    split_ifs with hw
    · subst hw
      generalize e.exit (.caller n) = z at hon hi
      cases hon with
      | leave hloop => exact absurd rfl (hloop n)
      | known | unknown | len => cases hi
      | kill | dead | close => rfl
    · exact hi
  | @logLine w c hx heq | @setCause w c hx heq =>
    have hw : Who.caller n ≠ w := by
      rintro rfl
      rw [hx] at hi; cases hi
    subst heq
    simpa [Function.update_of_ne hw] using hi
  | @setKilled w hx heq =>
    subst heq
    simp only [setExit_exit, Function.update_apply]
    split_ifs
    · rfl
    · exact hi

theorem carried_caller_trace (h : Trace step (spawnTunnel side pingSecs) t e) (n : ℕ) :
    (e.exit (.caller n)).carried = none ∧ ∀ x ∈ t, (x.1.exit (.caller n)).carried = none := by
  induction h with
  | nil => exact ⟨rfl, by simp⟩
  | @snoc t s s' b ht hs ih =>
    refine ⟨carried_caller_step ih.1 (deathStep (loopsInv_reachable ht.reachable) (.of_step hs)),
      fun x hx => ?_⟩
    rcases List.mem_append.mp hx with hx | hx
    · exact ih.2 x hx
    · rw [List.mem_singleton.mp hx]; exact ih.1

/-- The step is no external `kill`. -/
def notKill (_ : Endpoint) : Act → Bool
  | .kill _ => false
  | _ => true

theorem not_killCalled_of_check {check : Endpoint → Act → Bool}
    (hcheck : ∀ e n, check e (.kill n) = false) (h : ∀ x ∈ t, check x.1 x.2 = true) :
    ¬ KillCalled t := by
  rintro ⟨s, n, hmem⟩
  have := h _ hmem
  rw [hcheck] at this; cases this

/-- A check for `Undisturbed`, without external `kill`s: no other loop is on its way to record. -/
def undisturbedCheck (e : Endpoint) : Act → Bool
  | .kill _ => false
  | .exit w => [Who.reader, .writer, .keepalive].all fun w' => w' = w || !(e.exit w').deciding
  | _ => true

theorem undisturbed_of_check (hcaller : ∀ n, (e.exit (.caller n)).carried = none)
    (h : undisturbedCheck e a = true) : Undisturbed e a := by
  rintro w c rfl - - w' hne
  simp only [undisturbedCheck, List.all_cons, List.all_nil, Bool.and_true, Bool.and_eq_true,
    Bool.or_eq_true, decide_eq_true_eq, Bool.not_eq_true'] at h
  obtain ⟨hr, hw, hk⟩ := h
  cases w' with
  | reader => exact hr.resolve_left hne
  | writer => exact hw.resolve_left hne
  | keepalive => exact hk.resolve_left hne
  | caller n =>
    have := hcaller n
    generalize e.exit (.caller n) = x at this
    cases x <;> first | rfl | cases this

/-- The peer closes the connection; the reader kills the tunnel, and the writer leaves after it. -/
def closedAlone : List Act :=
  [Act.writerTop, .readerTop, .dispatch, .readerEof] ++ List.replicate 7 (Act.exit .reader) ++
    [Act.writerDead] ++ List.replicate 5 (Act.exit .writer)

theorem death_line_closedAlone :
    ∃ t e, Trace step (spawnTunnel .server 1) t e ∧ e.dead = true ∧ e.exit .writer = .done ∧
      (∀ x ∈ t, Undisturbed x.1 x.2) ∧ OneLine e := by
  have hexec : (exec (guard undisturbedCheck step) (spawnTunnel .server 1) closedAlone).map
      (fun e => (e.dead, e.exit .writer)) = some (true, .done) := by
    decide +kernel
  obtain ⟨e, he, hmap⟩ := Option.map_eq_some_iff.mp hexec
  obtain ⟨hdead, hexit⟩ : e.dead = true ∧ e.exit .writer = .done := by simpa using hmap
  obtain ⟨t, ht, hcheck⟩ := exec_trace _ he
  have hu : ∀ x ∈ t, Undisturbed x.1 x.2 := fun x hx =>
    undisturbed_of_check (fun n => (carried_caller_trace ht n).2 x hx) (hcheck x hx)
  exact ⟨t, e, ht, hdead, hexit, hu,
    (death_line_iff ht (not_killCalled_of_check (fun _ _ => rfl) hcheck)).1 hu⟩

/-- The peer closes the connection while a PING is being written: the reader finds the end of the
stream, the writer's write fails, and both check for a cause before either records one. -/
def closedTwice : List Act :=
  [Act.keepaliveTop, .tick, .ping default, .writerTop, .writerTake, .readerTop, .dispatch,
    .readerEof, .writeErr, .exit .reader, .exit .writer] ++
    List.replicate 6 (Act.exit .reader) ++ List.replicate 6 (Act.exit .writer) ++
    [Act.keepaliveDead]

/-- Two loops log the death of one tunnel, one of them with a cause that is not the recorded one. -/
theorem two_death_lines :
    ∃ t e, Trace step (spawnTunnel .server 1) t e ∧ ¬ KillCalled t ∧ e.dead = true ∧
      e.exit .reader = .done ∧ e.exit .writer = .done ∧ e.exit .keepalive = .idle ∧
      e.log = [(.reader, .peerClosed), (.writer, .writeError)] ∧ e.cause = some .peerClosed ∧
      ¬ OneLine e := by
  have hexec : (exec (guard notKill step) (spawnTunnel .server 1) closedTwice).map
      (fun e => decide (e.dead = true ∧ e.exit .reader = .done ∧ e.exit .writer = .done ∧
        e.exit .keepalive = .idle ∧ e.log = [(.reader, .peerClosed), (.writer, .writeError)] ∧
        e.cause = some .peerClosed)) = some true := by
    decide +kernel
  obtain ⟨e, he, hmap⟩ := Option.map_eq_some_iff.mp hexec
  obtain ⟨hdead, hr, hw, hk, hlog, hcause⟩ := of_decide_eq_true hmap
  obtain ⟨t, ht, hcheck⟩ := exec_trace _ he
  refine ⟨t, e, ht, not_killCalled_of_check (fun _ _ => rfl) hcheck, hdead, hr, hw, hk, hlog, hcause,
    fun hone => ?_⟩
  have hlen := hone.1
  rw [hlog] at hlen
  simp at hlen

end Endpoint

end QeliSsPlugin.Carrier
