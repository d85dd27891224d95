import QeliSsPlugin.Lib.Session

/-! # A program facing an arbitrary peer

The other side of the connection may send any bytes at any time, and may break the connection at any
point of a read or a write (`Exposed`). `Guarantees L I F R P rs out` is what a program keeps to against
it, having received the records `rs` and written `out` before: `I` holds of what it has received and
written at every point of its run, `F` once it has failed, and `R` of its result besides. This is checked
along the program, for every record it may receive and every failure of a read or a write, and
`Guarantees.reachable` carries it to the runs on the byte stream, however that is cut into reads. -/

namespace QeliSsPlugin.Lib.Session

open Runs

variable {β ε α : Type} (L : Link β ε)

/-- A party and what it has exchanged with the other side. -/
structure Exposed (β ε α : Type) where
  peer : Peer β ε α
  /-- All that the other side has sent. -/
  sent : List β
  /-- What of it has not been read. -/
  inp : List β
  /-- All that the party has written. -/
  out : List β

inductive Exposed.Event (β ε : Type)
  /-- The other side sends. -/
  | send (bs : List β)
  | move (m : Move)
  /-- A write fails after `n` bytes. -/
  | cut (n : ℕ) (e : ε)
  /-- A read fails, or is at the end of the stream. -/
  | fault (e : ε)

namespace Exposed

/-- A program about to start. -/
def start (P : Prog β ε α) : Exposed β ε α := ⟨⟨P, []⟩, [], [], []⟩

/-- **One step of the party or of the other side.** -/
def step (s : Exposed β ε α) : Event β ε → Option (Exposed β ε α)
  | .send bs => some { s with sent := s.sent ++ bs, inp := s.inp ++ bs }
  | .move m =>
    (s.peer.step L s.inp s.out false m).map fun (p, inp, out) =>
      { s with peer := p, inp := inp, out := out }
  | .cut n e =>
    match s.peer.prog with
    | .write bs k => some { s with peer := ⟨k (.error e), s.peer.buf⟩, out := s.out ++ bs.take n }
    | _ => none
  | .fault e =>
    match s.peer.prog, L.framing.take? s.peer.buf with
    | .recv k, none => some { s with peer := ⟨k (.error e), s.peer.buf⟩ }
    | _, _ => none

end Exposed

/-- **What a program keeps to against any peer.** -/
def Guarantees (I F : List (List β) → List β → Prop) (R : List (List β) → List β → α → Prop) :
    Prog β ε α → List (List β) → List β → Prop
  | .ret a, rs, out => I rs out ∧ R rs out a
  | .fail _, rs, out => F rs out
  | .write bs k, rs, out => I rs out ∧
      (∀ n e, Guarantees I F R (k (.error e)) rs (out ++ bs.take n)) ∧
      Guarantees I F R (k (.ok ())) rs (out ++ bs)
  | .recv k, rs, out => I rs out ∧ (∀ e, Guarantees I F R (k (.error e)) rs out) ∧
      ∀ r, L.framing.IsRecord r → Guarantees I F R (k (.ok r)) (rs ++ [r]) out

namespace Guarantees

variable {L} {I F : List (List β) → List β → Prop} {R : List (List β) → List β → α → Prop}
  {P : Prog β ε α} {rs : List (List β)} {out : List β}

theorem running (h : Guarantees L I F R P rs out) (hP : P.failed = false) : I rs out := by
  cases P with
  | ret a => exact h.1
  | fail e => cases hP
  | write bs k => exact h.1
  | recv k => exact h.1

theorem failed (h : Guarantees L I F R P rs out) (hP : P.failed = true) : F rs out := by
  cases P with
  | fail e => exact h
  | _ => cases hP

theorem result {a : α} (h : Guarantees L I F R P rs out) (hP : P = .ret a) : R rs out a := by
  subst hP
  exact h.2

/-- The state of a run: the records received, cut from what was sent, and the guarantee of the rest of
the program. -/
def Holds (L : Link β ε) (I F : List (List β) → List β → Prop)
    (R : List (List β) → List β → α → Prop) (s : Exposed β ε α) : Prop :=
  ∃ rs, (∀ r ∈ rs, L.framing.IsRecord r) ∧ s.sent = rs.flatten ++ s.peer.buf ++ s.inp ∧
    Guarantees L I F R s.peer.prog rs s.out

theorem holds_move {s : Exposed β ε α} {m : Move} {p : Peer β ε α} {inp out : List β}
    (h : Holds L I F R s) (hs : s.peer.Step L s.inp s.out false m p inp out) :
    Holds L I F R { s with peer := p, inp := inp, out := out } := by
  obtain ⟨rs, hrs, hsent, hg⟩ := h
  cases hs with
  | @write bs k hp _ =>
    rw [hp] at hg
    exact ⟨rs, hrs, hsent, hg.2.2⟩
  | broken _ hgone => cases hgone
  | @take k r rest hp ht =>
    obtain ⟨hr, hbuf⟩ := L.framing.take?_eq_some_iff.mp ht
    rw [hp] at hg
    refine ⟨rs ++ [r], fun x hx => ?_, ?_, hg.2.2 r hr⟩
    · rcases List.mem_append.mp hx with hx | hx
      · exact hrs x hx
      · rw [List.mem_singleton.mp hx]; exact hr
    · rw [hsent, hbuf]; simp
  | @read k n hp _ _ _ _ =>
    refine ⟨rs, hrs, ?_, hg⟩
    rw [hsent]
    simp [List.append_assoc]
  | eof _ _ hgone => cases hgone

theorem holds_step {s s' : Exposed β ε α} {a : Exposed.Event β ε} (h : Holds L I F R s)
    (hs : s.step L a = some s') : Holds L I F R s' := by
  cases a with
  | send bs =>
    obtain ⟨rs, hrs, hsent, hg⟩ := h
    simp only [Exposed.step, Option.some.injEq] at hs
    subst hs
    refine ⟨rs, hrs, ?_, hg⟩
    simp [hsent]
  | move m =>
    simp only [Exposed.step] at hs
    obtain ⟨⟨p, inp, out⟩, hstep, rfl⟩ := Option.map_eq_some_iff.mp hs
    exact holds_move h (.of_step hstep)
  | cut n e =>
    obtain ⟨rs, hrs, hsent, hg⟩ := h
    simp only [Exposed.step] at hs
    split at hs
    · next bs k hp =>
      cases hs
      rw [hp] at hg
      exact ⟨rs, hrs, hsent, hg.2.1 n e⟩
    · cases hs
  | fault e =>
    obtain ⟨rs, hrs, hsent, hg⟩ := h
    simp only [Exposed.step] at hs
    split at hs
    · next k hp _ =>
      cases hs
      rw [hp] at hg
      exact ⟨rs, hrs, hsent, hg.2.1 e⟩
    · cases hs

/-- **The guarantee holds in every run.** The records received are cut from what was sent. -/
theorem reachable {s : Exposed β ε α} (hP : Guarantees L I F R P [] [])
    (h : Reachable (Exposed.step L) (.start P) s) :
    ∃ rs, (∀ r ∈ rs, L.framing.IsRecord r) ∧ s.sent = rs.flatten ++ s.peer.buf ++ s.inp ∧
      (s.peer.prog.failed = false → I rs s.out) ∧ (s.peer.prog.failed = true → F rs s.out) ∧
      ∀ a, s.peer.prog = .ret a → R rs s.out a := by
  have hholds : Holds L I F R s :=
    h.invariant ⟨[], by simp, rfl, hP⟩ fun hi _ hs => holds_step hi hs
  obtain ⟨rs, hrs, hsent, hg⟩ := hholds
  exact ⟨rs, hrs, hsent, hg.running, hg.failed, fun a ha => hg.result ha⟩

end Guarantees

end QeliSsPlugin.Lib.Session
