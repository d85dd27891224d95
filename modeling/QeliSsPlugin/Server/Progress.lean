import QeliSsPlugin.Carrier.Teardown
import QeliSsPlugin.Server.Shutdown

/-!
# Shutdown comes to its end

Once `serve` has left its loop, it drains the list, awaits one `kill` after the other and returns. It waits
for none of the tasks that run meanwhile, and does a bounded number of steps for every connection that pushed
its tunnel: `shutdown_returns`. The bound is a rank (`State.rank`), as for the calls of a tunnel manager.

That a next step is there rests on what is in the list (`Queue`): every tunnel once, each of them spawned and
not killed by `serve` before.
-/

namespace QeliSsPlugin.Server

open Lib.Runs Carrier State

/-! ### The kills that are awaited -/

/-- Whether a `kill` is on its way. -/
def isKilling : Exit → Bool
  | .setKilled | .setDead | .closeAll | .done => true
  | _ => false

/-- Whether it is a step of the shutdown: of `serve` after the signal, or of a `kill` that it awaits. -/
def Action.isServe : Action → Bool
  | .drain | .killNext | .killed | .abortAll => true
  | .tunnel _ a => a = .exit shutdownKill
  | _ => false

def Action.isPush : Action → Bool
  | .push _ => true
  | _ => false

namespace State

/-- Where the shutdown's `kill` of a tunnel is. -/
def killOf (s : State) (i : ℕ) : Option Exit := (s.tunnel i).map (·.exit shutdownKill)

/-- The tunnels that `serve` has still to kill, the one that it is killing apart. -/
def queue (s : State) : List ℕ :=
  match s.serve with
  | .running | .draining => s.tunnels
  | .killing _ rest => rest
  | .returned => []

/-- What the shutdown has still to do. -/
def rank (s : State) : ℕ :=
  match s.serve with
  | .running | .draining => 5 * s.tunnels.length + 2
  | .killing none rest => 5 * rest.length + 1
  | .killing (some i) rest => 5 * rest.length + 2 + ((s.killOf i).map Exit.effort).getD 0
  | .returned => 0

end State

variable {pingSecs : ℕ} {s s' : State} {a : Action}

/-- **What is in the list**: tunnels of connections that have ended, each once, and none that `serve` has
begun to kill. -/
structure Queue (s : State) : Prop where
  range : ∀ i, s.n ≤ i → s.conns i = .ended
  nodup : s.queue.Nodup
  queued : ∀ i ∈ s.queue, i < s.n ∧ s.conns i = .ended ∧ s.killOf i = some .idle
  spawned : ∀ i, s.conns i = .spawned → s.killOf i = some .idle
  current : ∀ i rest, s.serve = .killing (some i) rest → i < s.n ∧ s.conns i = .ended ∧ i ∉ rest ∧
    ∃ x, s.killOf i = some x ∧ isKilling x = true
  others : ∀ i x, s.killOf i = some x → (∀ rest, s.serve ≠ .killing (some i) rest) →
    x = .idle ∨ x = .done

theorem queue_start : Queue start := by
  constructor <;> simp [start, queue, killOf]

variable {i : ℕ} {e e' : Endpoint}

theorem killOf_eq (he : s.tunnel i = some e) : s.killOf i = some (e.exit shutdownKill) := by
  rw [killOf, he, Option.map_some]

theorem killOf_setTunnel (j : ℕ) : (s.setTunnel i e').killOf j =
    if j = i then some (e'.exit shutdownKill) else s.killOf j := by
  unfold killOf
  rw [setTunnel_tunnel, Function.update_apply]
  split_ifs <;> rfl

/-- A step that leaves the list and what is in it. -/
theorem Queue.keep (hi : Queue s) (hserve : s'.serve = s.serve) (htunnels : s'.tunnels = s.tunnels)
    (hn : s.n ≤ s'.n) (hrange : ∀ i, s'.n ≤ i → s'.conns i = .ended)
    (hended : ∀ i < s.n, s.conns i = .ended → s'.conns i = .ended ∧ s'.killOf i = s.killOf i)
    (hspawned : ∀ i, s'.conns i = .spawned → s'.killOf i = some .idle)
    (hothers : ∀ i x, s'.killOf i = some x → s.killOf i = some x ∨ x = .idle) :
    Queue s' ∧ s'.rank = s.rank := by
  have hqueue : s'.queue = s.queue := by
    unfold queue
    rw [hserve, htunnels]
  have hcurrent : ∀ i rest, s.serve = .killing (some i) rest → s'.killOf i = s.killOf i := by
    intro i rest h
    obtain ⟨hlt, hend, -⟩ := hi.current i rest h
    exact (hended i hlt hend).2
  constructor
  · refine ⟨hrange, ?_, fun i hmem => ?_, hspawned, fun i rest h => ?_, fun i x hx hne => ?_⟩
    · rw [hqueue]
      exact hi.nodup
    · rw [hqueue] at hmem
      obtain ⟨hlt, hend, hidle⟩ := hi.queued i hmem
      obtain ⟨hend', hkill⟩ := hended i hlt hend
      exact ⟨by omega, hend', by rw [hkill, hidle]⟩
    · rw [hserve] at h
      obtain ⟨hlt, hend, hrest, hx⟩ := hi.current i rest h
      refine ⟨by omega, (hended i hlt hend).1, hrest, ?_⟩
      rw [hcurrent i rest h]
      exact hx
    · rw [hserve] at hne
      rcases hothers i x hx with h | h
      · exact hi.others i x h hne
      · exact .inl h
  · unfold rank
    rw [hserve, htunnels]
    cases hs : s.serve with
    | killing current rest =>
      cases current with
      | none => rfl
      | some i => simp only [hcurrent i rest hs]
    | _ => rfl

/-- A step of a `kill` that has begun. -/
theorem exit_effort {w : Who} (h : e.step (.exit w) = some e') (hw : isKilling (e.exit w) = true) :
    isKilling (e'.exit w) = true ∧ (e'.exit w).effort + 1 = (e.exit w).effort := by
  simp only [Endpoint.step, Endpoint.exitStep] at h
  cases hx : e.exit w with
  | setKilled | setDead | closeAll =>
    rw [hx] at h
    cases h
    simp [isKilling, Exit.effort]
  | done =>
    rw [hx] at h
    cases h
  | _ =>
    rw [hx] at hw
    cases hw

theorem exit_moves {w : Who} (h : e.step (.exit w) = some e') : e.exit w ≠ .idle ∧ e.exit w ≠ .done := by
  constructor <;>
    · intro hx
      simp [Endpoint.step, Endpoint.exitStep, hx] at h

/-- A connection goes on, and not to its push. -/
theorem Queue.setConn (hi : Queue s) {c : Conn} (hne : s.conns i ≠ .ended) (hc : c ≠ .spawned) :
    Queue (s.setConn i c) ∧ (s.setConn i c).rank = s.rank := by
  refine hi.keep rfl rfl le_rfl (fun j hj => ?_) (fun j _ hend => ⟨?_, rfl⟩) (fun j hj => ?_)
    fun j x hx => .inl hx
  · have hji : j ≠ i := by
      rintro rfl
      exact hne (hi.range j hj)
    rw [setConn_conns, Function.update_of_ne hji]
    exact hi.range j hj
  · have hji : j ≠ i := by
      rintro rfl
      exact hne hend
    rw [setConn_conns, Function.update_of_ne hji]
    exact hend
  · rw [setConn_conns, Function.update_apply] at hj
    split_ifs at hj
    · exact absurd hj hc
    · exact hi.spawned j hj

theorem Queue.accept (hi : Queue s) :
    Queue { s.setConn s.n .handshaking with n := s.n + 1 } ∧
      rank { s.setConn s.n .handshaking with n := s.n + 1 } = s.rank := by
  have hconns : ∀ j, j ≠ s.n → Function.update s.conns s.n .handshaking j = s.conns j :=
    fun j hj => Function.update_of_ne hj _ _
  refine hi.keep rfl rfl (Nat.le_succ _) (fun j hj => ?_) (fun j hj hend => ⟨?_, rfl⟩)
    (fun j hj => ?_) fun j x hx => .inl hx
  · have hj : s.n + 1 ≤ j := hj
    exact (hconns j (by omega)).trans (hi.range j (by omega))
  · exact (hconns j (by omega)).trans hend
  · have hj : Function.update s.conns s.n .handshaking j = .spawned := hj
    rw [Function.update_apply] at hj
    split_ifs at hj
    exact hi.spawned j hj

theorem Queue.spawnTunnel (hi : Queue s) (hs : s.conns i = .authenticated) :
    Queue ((s.setConn i .spawned).setTunnel i (.spawnTunnel .server pingSecs)) ∧
      rank ((s.setConn i .spawned).setTunnel i (.spawnTunnel .server pingSecs)) = s.rank := by
  have hidle : (Endpoint.spawnTunnel .server pingSecs).exit shutdownKill = .idle := rfl
  have hkill : ∀ j, ((s.setConn i .spawned).setTunnel i (.spawnTunnel .server pingSecs)).killOf j =
      if j = i then some .idle else s.killOf j := by
    intro j
    rw [killOf_setTunnel, hidle]
    rfl
  have hended : ∀ j, s.conns j = .ended → j ≠ i := by
    rintro j hj rfl
    rw [hs] at hj
    cases hj
  refine hi.keep rfl rfl le_rfl (fun j hj => ?_) (fun j _ hend => ⟨?_, ?_⟩) (fun j hj => ?_)
    fun j x hx => ?_
  · show Function.update s.conns i .spawned j = .ended
    rw [Function.update_of_ne (hended j (hi.range j hj))]
    exact hi.range j hj
  · show Function.update s.conns i .spawned j = .ended
    rw [Function.update_of_ne (hended j hend)]
    exact hend
  · rw [hkill, if_neg (hended j hend)]
  · rw [hkill]
    split_ifs with hji
    · rfl
    · have hj : Function.update s.conns i .spawned j = .spawned := hj
      rw [Function.update_of_ne hji] at hj
      exact hi.spawned j hj
  · rw [hkill] at hx
    split_ifs at hx
    · exact .inr (Option.some.inj hx).symm
    · exact .inl hx

/-- `serve` goes on, with no `kill` to await. -/
theorem Queue.setServe (hi : Queue s) (hconns : s'.conns = s.conns) (htunnel : s'.tunnel = s.tunnel)
    (hn : s'.n = s.n) (hqueue : s'.queue.Sublist s.queue)
    (hnone : ∀ i rest, s'.serve ≠ .killing (some i) rest)
    (hdone : ∀ i rest, s.serve = .killing (some i) rest → s.killOf i = some .done) : Queue s' := by
  have hkill : s'.killOf = s.killOf := by
    funext i
    unfold killOf
    rw [htunnel]
  refine ⟨?_, hi.nodup.sublist hqueue, fun i hmem => ?_, ?_, fun i rest h => absurd h (hnone i rest),
    fun i x hx _ => ?_⟩
  · rw [hn, hconns]
    exact hi.range
  · rw [hn, hconns, hkill]
    exact hi.queued i (hqueue.subset hmem)
  · rw [hconns, hkill]
    exact hi.spawned
  · rw [hkill] at hx
    by_cases hcur : ∃ rest, s.serve = .killing (some i) rest
    · obtain ⟨rest, h⟩ := hcur
      rw [hdone i rest h] at hx
      exact .inr (Option.some.inj hx).symm
    · exact hi.others i x hx fun rest h => hcur ⟨rest, h⟩

/-- `serve` begins to kill the next tunnel. -/
theorem Queue.killNext (hi : Queue s) {rest : List ℕ} (hs : s.serve = .killing none (i :: rest))
    (he : s.tunnel i = some e) (hk : e.step (.kill 0) = some e') :
    Queue { s.setTunnel i e' with serve := .killing (some i) rest } ∧
      rank { s.setTunnel i e' with serve := .killing (some i) rest } + 1 ≤ s.rank := by
  have hqueue : s.queue = i :: rest := by
    unfold queue
    rw [hs]
  have hnodup := hi.nodup
  rw [hqueue, List.nodup_cons] at hnodup
  obtain ⟨hlt, hend, hidle⟩ := hi.queued i (by rw [hqueue]; exact List.mem_cons_self)
  rw [killOf_eq he, Option.some.injEq] at hidle
  have hexit : e'.exit shutdownKill = .setKilled := by
    simp only [Endpoint.step, show e.exit (.caller 0) = .idle from hidle] at hk
    cases hk
    simp [shutdownKill]
  have hkill : ∀ j, killOf { s.setTunnel i e' with serve := .killing (some i) rest } j =
      if j = i then some .setKilled else s.killOf j := by
    intro j
    rw [← hexit]
    exact killOf_setTunnel j
  constructor
  · refine ⟨hi.range, hnodup.2, fun j hmem => ?_, fun j hj => ?_, fun j rest' h => ?_,
      fun j x hx hne => ?_⟩
    · have hji : j ≠ i := by
        rintro rfl
        exact hnodup.1 hmem
      rw [hkill, if_neg hji]
      exact hi.queued j (by rw [hqueue]; exact List.mem_cons_of_mem _ hmem)
    · have hji : j ≠ i := by
        rintro rfl
        rw [show s.conns j = .spawned from hj] at hend
        cases hend
      rw [hkill, if_neg hji]
      exact hi.spawned j hj
    · cases h
      exact ⟨hlt, hend, hnodup.1, .setKilled, by rw [hkill, if_pos rfl], rfl⟩
    · have hji : j ≠ i := by
        rintro rfl
        exact hne rest rfl
      rw [hkill, if_neg hji] at hx
      refine hi.others j x hx fun rest' h => ?_
      rw [hs] at h
      cases h
  · have hnext : rank { s.setTunnel i e' with serve := .killing (some i) rest } =
        5 * rest.length + 2 + ((killOf { s.setTunnel i e' with serve := .killing (some i) rest }
          i).map Exit.effort).getD 0 := rfl
    rw [hnext, hkill, if_pos rfl]
    unfold rank
    rw [hs]
    simp only [List.length_cons, Option.map_some, Option.getD_some, Exit.effort]
    omega

/-- A step of a tunnel. -/
theorem Queue.tunnel (hi : Queue s) {b : Act} (he : s.tunnel i = some e) (hb : b ≠ .kill 0)
    (hstep : e.step b = some e') : Queue (s.setTunnel i e') ∧
      (s.setTunnel i e').rank + (Action.tunnel i b).isServe.toNat ≤ s.rank := by
  by_cases hexit : b = .exit shutdownKill
  · subst hexit
    -- of the kills of `serve`, only the one that it awaits goes on
    obtain ⟨hidle, hdone⟩ := exit_moves hstep
    have hcur : ∃ rest, s.serve = .killing (some i) rest := by
      by_contra hne
      rcases hi.others i _ (killOf_eq he) fun rest h => hne ⟨rest, h⟩ with h | h
      · exact hidle h
      · exact hdone h
    obtain ⟨rest, hs⟩ := hcur
    obtain ⟨hlt, hend, hrest, x, hx, hkilling⟩ := hi.current i rest hs
    rw [killOf_eq he, Option.some.injEq] at hx
    rw [← hx] at hkilling
    obtain ⟨hkilling', heffort⟩ := exit_effort hstep hkilling
    have hqueue : s.queue = rest := by
      unfold queue
      rw [hs]
    constructor
    · refine ⟨hi.range, hi.nodup, fun j hmem => ?_, fun j hj => ?_, fun j rest' h => ?_,
        fun j y hy hne => ?_⟩
      · have hmem' : j ∈ s.queue := hmem
        rw [hqueue] at hmem'
        have hji : j ≠ i := by
          rintro rfl
          exact hrest hmem'
        rw [killOf_setTunnel, if_neg hji]
        exact hi.queued j hmem
      · have hji : j ≠ i := by
          rintro rfl
          rw [show s.conns j = .spawned from hj] at hend
          cases hend
        rw [killOf_setTunnel, if_neg hji]
        exact hi.spawned j hj
      · have h : s.serve = .killing (some j) rest' := h
        rw [hs] at h
        cases h
        exact ⟨hlt, hend, hrest, _, by rw [killOf_setTunnel, if_pos rfl], hkilling'⟩
      · have hji : j ≠ i := by
          rintro rfl
          exact hne rest hs
        rw [killOf_setTunnel, if_neg hji] at hy
        exact hi.others j y hy hne
    · have hserve : (s.setTunnel i e').serve = .killing (some i) rest := hs
      unfold rank
      rw [hserve, hs]
      simp only [killOf_setTunnel, if_true, killOf_eq he, Option.map_some, Option.getD_some,
        Action.isServe, decide_true, Bool.toNat_true]
      omega
  · have hsame : e'.exit shutdownKill = e.exit shutdownKill :=
      Endpoint.exit_caller_eq (.of_step hstep) hexit hb
    have hkill : ∀ j, (s.setTunnel i e').killOf j = s.killOf j := by
      intro j
      rw [killOf_setTunnel, hsame]
      split_ifs with hji
      · rw [hji, killOf_eq he]
      · rfl
    obtain ⟨hqueue, hrank⟩ := @Queue.keep s (s.setTunnel i e') hi rfl rfl le_rfl hi.range
      (fun j _ hend => ⟨hend, hkill j⟩) (fun j hj => (hkill j).trans (hi.spawned j hj))
      fun j x hx => .inl ((hkill j).symm.trans hx)
    refine ⟨hqueue, ?_⟩
    rw [hrank]
    simp [Action.isServe, hexit]

/-- A connection pushes its tunnel: `serve` has one more to kill, if it has not drained the list. -/
theorem Queue.push (hi : Queue s) (hs : s.conns i = .spawned) :
    Queue { s.setConn i .ended with tunnels := s.tunnels.filter s.isLive ++ [i] } ∧
      rank { s.setConn i .ended with tunnels := s.tunnels.filter s.isLive ++ [i] } ≤ s.rank + 5 := by
  have hconns : ∀ j, Function.update s.conns i .ended j = .ended ↔ j = i ∨ s.conns j = .ended := by
    intro j
    rw [Function.update_apply]
    split_ifs with hji <;> simp [hji]
  have hlt : i < s.n := by
    by_contra hle
    rw [hi.range i (by omega)] at hs
    cases hs
  have hmem : i ∉ s.queue := by
    intro hmem
    rw [(hi.queued i hmem).2.1] at hs
    cases hs
  generalize hpushed : ({ s.setConn i .ended with tunnels := s.tunnels.filter s.isLive ++ [i] } : State) = s'
  have hserve : s'.serve = s.serve := by rw [← hpushed]; rfl
  have hn : s'.n = s.n := by rw [← hpushed]; rfl
  have hkill : s'.killOf = s.killOf := by rw [← hpushed]; rfl
  have hconns' : s'.conns = Function.update s.conns i .ended := by rw [← hpushed]; rfl
  have htunnels : s'.tunnels = s.tunnels.filter s.isLive ++ [i] := by rw [← hpushed]
  have hqueue : s'.queue.Nodup ∧ ∀ j ∈ s'.queue, j = i ∨ j ∈ s.queue := by
    have hlisted : s.queue = s.tunnels →
        (s.tunnels.filter s.isLive ++ [i]).Nodup ∧
          ∀ j ∈ s.tunnels.filter s.isLive ++ [i], j = i ∨ j ∈ s.tunnels := by
      intro heq
      have hnodup := hi.nodup
      rw [heq] at hnodup hmem
      refine ⟨List.nodup_append.mpr ⟨hnodup.filter _, List.nodup_singleton i, ?_⟩, fun j hj => ?_⟩
      · intro j hj k hk
        rw [List.mem_singleton.mp hk]
        rintro rfl
        exact hmem (List.mem_of_mem_filter hj)
      · rcases List.mem_append.mp hj with hj | hj
        · exact .inr (List.mem_of_mem_filter hj)
        · exact .inl (List.mem_singleton.mp hj)
    have hnodup := hi.nodup
    unfold queue at hlisted hnodup ⊢
    rw [hserve, htunnels]
    cases hsv : s.serve with
    | running | draining =>
      simp only [hsv, forall_const] at hlisted ⊢
      exact hlisted
    | killing current rest =>
      rw [hsv] at hnodup
      exact ⟨hnodup, fun j hj => .inr hj⟩
    | returned => exact ⟨List.nodup_nil, fun j hj => .inr hj⟩
  constructor
  · refine ⟨fun j hj => ?_, hqueue.1, fun j hj => ?_, fun j hj => ?_, fun j rest h => ?_,
      fun j x hx hne => ?_⟩
    · rw [hconns', hconns]
      exact .inr (hi.range j (by omega))
    · rw [hconns', hconns, hkill, hn]
      rcases hqueue.2 j hj with rfl | hj
      · exact ⟨hlt, .inl rfl, hi.spawned j hs⟩
      · obtain ⟨hjlt, hend, hidle⟩ := hi.queued j hj
        exact ⟨hjlt, .inr hend, hidle⟩
    · rw [hconns', Function.update_apply] at hj
      rw [hkill]
      split_ifs at hj
      exact hi.spawned j hj
    · rw [hserve] at h
      rw [hconns', hconns, hkill, hn]
      obtain ⟨hjlt, hend, hrest, hx⟩ := hi.current j rest h
      exact ⟨hjlt, .inr hend, hrest, hx⟩
    · rw [hkill] at hx
      rw [hserve] at hne
      exact hi.others j x hx hne
  · have hle : (s.tunnels.filter s.isLive).length ≤ s.tunnels.length := List.length_filter_le _ _
    unfold rank
    rw [hserve, hkill, htunnels]
    cases s.serve with
    | running | draining =>
      simp only [List.length_append, List.length_singleton]
      omega
    | killing current rest => cases current <;> simp
    | returned => simp

/-- **Every step of the shutdown lowers the rank**, and only a push raises it. -/
theorem queue_step (hi : Queue s) (h : step pingSecs s a = some s') :
    Queue s' ∧ s'.rank + a.isServe.toNat ≤ s.rank + 5 * a.isPush.toNat := by
  have hkept : ∀ {s₁ : State}, (Queue s₁ ∧ s₁.rank = s.rank) → a.isServe = false →
      Queue s₁ ∧ s₁.rank + a.isServe.toNat ≤ s.rank + 5 * a.isPush.toNat := by
    rintro s₁ ⟨hqueue, hrank⟩ ha
    rw [ha, hrank]
    exact ⟨hqueue, Nat.le_add_right _ _⟩
  cases a <;> simp only [step] at h
  case accept =>
    split_ifs at h
    cases h
    exact hkept hi.accept rfl
  case shutdown =>
    split_ifs at h with hs
    cases h
    refine hkept ⟨hi.setServe rfl rfl rfl ?_ (by simp) (by simp [hs]), ?_⟩ rfl
    · unfold queue
      rw [hs]
    · unfold rank
      rw [hs]
  case drain =>
    split_ifs at h with hs
    cases h
    refine ⟨hi.setServe rfl rfl rfl ?_ (by simp) (by simp [hs]), ?_⟩
    · unfold queue
      rw [hs]
    · unfold rank
      rw [hs]
      simp [Action.isServe, Action.isPush]
  case killNext =>
    split at h
    · next i rest hs =>
      split at h
      · next e he =>
        obtain ⟨e', hk, rfl⟩ := Option.map_eq_some_iff.mp h
        exact hi.killNext hs he hk
      · cases h
    · cases h
  case killed =>
    split at h
    · next i rest hs =>
      split at h
      · next e he =>
        split_ifs at h with hx
        cases h
        have hdone : s.killOf i = some .done := by rw [killOf_eq he, hx]
        refine ⟨hi.setServe rfl rfl rfl ?_ (by simp) (by simpa [hs] using hdone), ?_⟩
        · unfold queue
          rw [hs]
        · unfold rank
          rw [hs]
          simp [Action.isServe, Action.isPush]
      · cases h
    · cases h
  case abortAll =>
    split_ifs at h with hs
    cases h
    refine ⟨hi.setServe rfl rfl rfl (List.nil_sublist _) (by simp) (by simp [hs]), ?_⟩
    unfold rank
    rw [hs]
    simp [Action.isServe, Action.isPush]
  case handshakeOk i =>
    split_ifs at h with hs
    cases h
    exact hkept (hi.setConn (by simp [hs]) (by simp)) rfl
  case handshakeErr i =>
    split_ifs at h with hs
    cases h
    exact hkept (hi.setConn (by simp [hs]) (by simp)) rfl
  case abort i =>
    split_ifs at h with hs
    cases h
    exact hkept (hi.setConn (by simp [hs.2]) (by simp)) rfl
  case spawnTunnel i =>
    split_ifs at h with hs
    cases h
    exact hkept (hi.spawnTunnel hs) rfl
  case push i =>
    split_ifs at h with hs
    cases h
    exact hi.push hs
  case tunnel i b =>
    split at h
    · next e he =>
      split_ifs at h with hb
      obtain ⟨e', hs, rfl⟩ := Option.map_eq_some_iff.mp h
      obtain ⟨hqueue, hrank⟩ := hi.tunnel he hb hs
      exact ⟨hqueue, hrank.trans (Nat.le_add_right _ _)⟩
    · cases h

/-! ### The next step -/

/-- The shutdown can go on. -/
def Proceeds (pingSecs : ℕ) (s : State) : Prop :=
  ∃ a, a.isServe = true ∧ (step pingSecs s a).isSome = true

theorem proceeds_of_queue (hi : Queue s) (hrunning : s.serve ≠ .running)
    (hreturned : s.serve ≠ .returned) : Proceeds pingSecs s := by
  cases hs : s.serve with
  | running => exact absurd hs hrunning
  | returned => exact absurd hs hreturned
  | draining => exact ⟨.drain, rfl, by simp [step, hs]⟩
  | killing current rest =>
    cases current with
    | none =>
      cases rest with
      | nil => exact ⟨.abortAll, rfl, by simp [step, hs]⟩
      | cons i rest =>
        have hqueue : s.queue = i :: rest := by
          unfold queue
          rw [hs]
        obtain ⟨-, -, hidle⟩ := hi.queued i (by rw [hqueue]; exact List.mem_cons_self)
        obtain ⟨e, he, hexit⟩ := Option.map_eq_some_iff.mp hidle
        have hexit : e.exit (.caller 0) = .idle := hexit
        exact ⟨.killNext, rfl, by simp [step, hs, he, Endpoint.step, hexit]⟩
    | some i =>
      obtain ⟨-, -, -, x, hx, hkilling⟩ := hi.current i rest hs
      obtain ⟨e, he, rfl⟩ := Option.map_eq_some_iff.mp hx
      by_cases hdone : e.exit shutdownKill = .done
      · exact ⟨.killed, rfl, by simp [step, hs, he, hdone]⟩
      · refine ⟨.tunnel i (.exit shutdownKill), rfl, ?_⟩
        simp only [step, he, Endpoint.step, Endpoint.exitStep]
        cases hexit : e.exit shutdownKill with
        | setKilled | setDead | closeAll => simp
        | done => exact absurd hexit hdone
        | _ =>
          rw [hexit] at hkilling
          cases hkilling

/-- **Shutdown comes to its end.** In every run, `serve` and the `kill`s that it awaits take at most five
steps for every tunnel that was pushed, and two more; and from the signal until `serve` has returned, one of
them can take its next step, whatever the tunnels and the connections are doing. -/
theorem shutdown_returns {t : List (State × Action)} (h : Trace (step pingSecs) start t s) :
    t.countP (·.2.isServe) ≤ 2 + 5 * t.countP (·.2.isPush) ∧
      (s.serve ≠ .running → s.serve ≠ .returned → Proceeds pingSecs s) := by
  have hstep : ∀ {s s' : State} {a : Action}, Queue s → step pingSecs s a = some s' →
      Queue s' ∧ s'.rank + a.isServe.toNat ≤ s.rank + 5 * a.isPush.toNat :=
    fun hi hs => queue_step hi hs
  obtain ⟨hi, hle⟩ := h.countP_le queue_start hstep
  have hrank : start.rank = 2 := rfl
  rw [hrank] at hle
  exact ⟨by omega, proceeds_of_queue hi⟩

/-- One tunnel is being killed, another one waits in the list, and a third is pushed too late. -/
def midShutdown : List Action :=
  [.accept, .accept, .accept, .handshakeOk 0, .spawnTunnel 0, .push 0, .handshakeOk 1, .spawnTunnel 1,
    .push 1, .handshakeOk 2, .shutdown, .drain, .spawnTunnel 2, .killNext,
    .tunnel 0 (.exit shutdownKill), .push 2]

theorem shutdown_returns_late :
    ∃ t s, Trace (step 1) start t s ∧ s.serve = .killing (some 0) [1] ∧ Proceeds 1 s ∧
      t.countP (·.2.isServe) ≤ 2 + 5 * t.countP (·.2.isPush) := by
  have hrun : ((exec (guard (fun _ _ => true) (step 1)) start midShutdown).map
      fun s => decide (s.serve = .killing (some 0) [1])) = some true := by
    decide +kernel
  obtain ⟨s, hs, hp⟩ := Option.map_eq_some_iff.mp hrun
  obtain ⟨t, ht, -⟩ := exec_trace midShutdown hs
  have hserve : s.serve = .killing (some 0) [1] := of_decide_eq_true hp
  obtain ⟨hsteps, hproceeds⟩ := shutdown_returns ht
  exact ⟨t, s, ht, hserve, hproceeds (by simp [hserve]) (by simp [hserve]), hsteps⟩

end QeliSsPlugin.Server
