import Mathlib.Tactic

/-! # Runs of a transition system

A system is a partial step function `step : σ → α → Option σ`: `step s a` is the state after the
action `a`, or `none` if `a` is not enabled in `s`. `Reaches step C s₀ s` says that `s` is reached
from `s₀` by a run all of whose steps meet the condition `C` (on the state before the step and the
action taken); `Reachable` is the case without a condition. An invariant is proved by its step
lemma (`Reaches.invariant`), a run on a fixed list of actions is evaluated by `exec`, with the
condition checked on the way (`exec_reaches`). A `Trace` is a run with its history, for properties
that refer to what happened before. -/

namespace QeliSsPlugin.Lib.Runs

variable {σ α : Type*} {step : σ → α → Option σ} {C C' : σ → α → Prop} {s₀ s s' : σ} {a : α}

/-- The states reached from `s₀` by steps that all meet `C`. -/
inductive Reaches (step : σ → α → Option σ) (C : σ → α → Prop) (s₀ : σ) : σ → Prop
  | refl : Reaches step C s₀ s₀
  | tail {s s' : σ} {a : α} : Reaches step C s₀ s → C s a → step s a = some s' →
      Reaches step C s₀ s'

/-- The states reached from `s₀` by any run. -/
abbrev Reachable (step : σ → α → Option σ) (s₀ : σ) : σ → Prop :=
  Reaches step (fun _ _ => True) s₀

/-- **The invariant rule**: what holds at the start and is preserved by every step that meets the
condition holds in every state reached. -/
theorem Reaches.invariant {I : σ → Prop} (h : Reaches step C s₀ s) (h0 : I s₀)
    (hstep : ∀ {s s' : σ} {a : α}, I s → C s a → step s a = some s' → I s') : I s := by
  induction h with
  | refl => exact h0
  | tail _ hC hs ih => exact hstep ih hC hs

theorem Reaches.mono (h : Reaches step C s₀ s) (hC : ∀ s a, C s a → C' s a) :
    Reaches step C' s₀ s := by
  induction h with
  | refl => exact .refl
  | tail _ hc hs ih => exact .tail ih (hC _ _ hc) hs

theorem Reaches.reachable (h : Reaches step C s₀ s) : Reachable step s₀ s :=
  h.mono fun _ _ _ => trivial

theorem Reaches.trans {s₁ s₂ : σ} (h : Reaches step C s₀ s₁) (h' : Reaches step C s₁ s₂) :
    Reaches step C s₀ s₂ := by
  induction h' with
  | refl => exact h
  | tail _ hc hs ih => exact .tail ih hc hs

/-- **The simulation rule**: if every step is matched by a run of another system, of any length, that
ends in a related state, then every state reached is related to one that the other system reaches. -/
theorem Reaches.simulate {τ β : Type*} {step' : τ → β → Option τ} {D : τ → β → Prop} {t₀ : τ}
    {R : σ → τ → Prop} (h : Reaches step C s₀ s) (h0 : R s₀ t₀)
    (hstep : ∀ {s s' : σ} {a : α} {t : τ}, Reaches step' D t₀ t → R s t → C s a → step s a = some s' →
      ∃ t', Reaches step' D t t' ∧ R s' t') : ∃ t, Reaches step' D t₀ t ∧ R s t := by
  induction h with
  | refl => exact ⟨t₀, .refl, h0⟩
  | tail _ hC hs ih =>
    obtain ⟨t, ht, hR⟩ := ih
    obtain ⟨t', ht', hR'⟩ := hstep ht hR hC hs
    exact ⟨t', ht.trans ht', hR'⟩

/-- The system that takes only the steps that pass a check. -/
def guard (check : σ → α → Bool) (step : σ → α → Option σ) (s : σ) (a : α) : Option σ :=
  if check s a then step s a else none

/-- The state after a list of actions. -/
def exec (step : σ → α → Option σ) : σ → List α → Option σ
  | s, [] => some s
  | s, a :: as => (step s a).bind (exec step · as)

theorem exec_append {as bs : List α} (h : exec step s as = some s') :
    exec step s (as ++ bs) = exec step s' bs := by
  induction as generalizing s with
  | nil => cases h; rfl
  | cons a as ih =>
    obtain ⟨s₁, h₁, h₂⟩ := Option.bind_eq_some_iff.mp h
    simp only [List.cons_append, exec, h₁, Option.bind_some, ih h₂]

theorem exec_reaches {check : σ → α → Bool} (hC : ∀ s a, check s a = true → C s a) :
    ∀ (as : List α) {s s' : σ}, exec (guard check step) s as = some s' → Reaches step C s s'
  | [], s, s', h => by
    simp only [exec, Option.some.injEq] at h
    subst h; exact .refl
  | a :: as, s, s', h => by
    simp only [exec] at h
    obtain ⟨s₁, h₁, h₂⟩ := Option.bind_eq_some_iff.mp h
    unfold guard at h₁
    split_ifs at h₁ with hc
    exact Reaches.trans (.tail .refl (hC s a hc) h₁) (exec_reaches hC as h₂)

/-- A list of actions that pass a check and end in a state with the property `p` reaches such a
state. -/
theorem reaches_of_exec (check : σ → α → Bool) {p : σ → Bool} (as : List α)
    (hC : ∀ s a, check s a = true → C s a)
    (h : (exec (guard check step) s₀ as).map p = some true) :
    ∃ s, Reaches step C s₀ s ∧ p s = true := by
  obtain ⟨s, hs, hp⟩ := Option.map_eq_some_iff.mp h
  exact ⟨s, exec_reaches hC as hs, hp⟩

/-! ### Runs with their history -/

/-- A run to `s`: the steps taken, each with the state before it. -/
inductive Trace (step : σ → α → Option σ) (s₀ : σ) : List (σ × α) → σ → Prop
  | nil : Trace step s₀ [] s₀
  | snoc {t : List (σ × α)} {s s' : σ} {a : α} : Trace step s₀ t s → step s a = some s' →
      Trace step s₀ (t ++ [(s, a)]) s'

/-- The invariant rule for a property of the state and the history. -/
theorem Trace.invariant {I : List (σ × α) → σ → Prop} {t : List (σ × α)}
    (h : Trace step s₀ t s) (h0 : I [] s₀)
    (hstep : ∀ {t : List (σ × α)} {s s' : σ} {a : α}, I t s → step s a = some s' →
      I (t ++ [(s, a)]) s') : I t s := by
  induction h with
  | nil => exact h0
  | snoc _ hs ih => exact hstep ih hs

theorem Trace.reachable {t : List (σ × α)} (h : Trace step s₀ t s) : Reachable step s₀ s := by
  induction h with
  | nil => exact .refl
  | snoc _ hs ih => exact .tail ih trivial hs

theorem Trace.append {s₁ s₂ : σ} {t t' : List (σ × α)} (h : Trace step s₀ t s₁)
    (h' : Trace step s₁ t' s₂) : Trace step s₀ (t ++ t') s₂ := by
  induction h' with
  | nil => simpa using h
  | snoc _ hs ih => rw [← List.append_assoc]; exact .snoc ih hs

/-- **The rank rule**: if every step that is counted lowers the rank, no step raises it but those that are
credited, and these by at most `c`, then a run has no more counted steps than the rank at its start and
the credits allow. -/
theorem Trace.countP_le {I : σ → Prop} {rank : σ → ℕ} {counted credited : α → Bool} {c : ℕ}
    {t : List (σ × α)} (h : Trace step s₀ t s) (h0 : I s₀)
    (hstep : ∀ {s s' : σ} {a : α}, I s → step s a = some s' →
      I s' ∧ rank s' + (counted a).toNat ≤ rank s + c * (credited a).toNat) :
    I s ∧ rank s + t.countP (counted ·.2) ≤ rank s₀ + c * t.countP (credited ·.2) := by
  induction h with
  | nil => exact ⟨h0, le_rfl⟩
  | @snoc t s s' a _ hs ih =>
    obtain ⟨hI, hle⟩ := ih
    obtain ⟨hI', hle'⟩ := hstep hI hs
    have hone : ∀ p : α → Bool, [(s, a)].countP (p ·.2) = (p a).toNat := by
      intro p
      cases hp : p a <;> simp [hp]
    refine ⟨hI', ?_⟩
    rw [List.countP_append, List.countP_append, hone, hone, Nat.mul_add]
    omega

theorem exec_trace {check : σ → α → Bool} : ∀ (as : List α) {s s' : σ},
    exec (guard check step) s as = some s' →
      ∃ t, Trace step s t s' ∧ ∀ x ∈ t, check x.1 x.2 = true
  | [], s, s', h => by
    simp only [exec, Option.some.injEq] at h
    subst h; exact ⟨[], .nil, by simp⟩
  | a :: as, s, s', h => by
    simp only [exec] at h
    obtain ⟨s₁, h₁, h₂⟩ := Option.bind_eq_some_iff.mp h
    unfold guard at h₁
    split_ifs at h₁ with hc
    obtain ⟨t, ht, hall⟩ := exec_trace as h₂
    refine ⟨[] ++ [(s, a)] ++ t, .append (.snoc .nil h₁) ht, fun x hx => ?_⟩
    rcases List.mem_append.mp hx with hx | hx
    · obtain rfl : x = (s, a) := by simpa using hx
      exact hc
    · exact hall x hx

end QeliSsPlugin.Lib.Runs
