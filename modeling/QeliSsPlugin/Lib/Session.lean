import QeliSsPlugin.Lib.Framing
import QeliSsPlugin.Lib.Runs

/-! # Two programs that exchange records over a byte stream

A program (`Prog`) writes bytes and receives records, one at a time, and ends with a result or a
failure; it is told of every I/O error. A party (`Peer`) is a program with the bytes it has read and
not consumed: it receives a record from these bytes, and reads from the stream only while they hold
no complete record, any number of bytes that is there up to `chunk`.

`Lockstep n P Q x y` says that the two programs, run record by record, always agree on whose turn it
is and end with `x` and `y`. This is easy to establish, and `Lockstep.outcome` carries it to the
real runs: on two byte streams, however they are cut into reads and however the parties are
scheduled, every run is at most `n` steps long and ends with `x` and `y`. -/

namespace QeliSsPlugin.Lib.Session

open Runs

/-- A program of one party; `ret` and `fail` are its ends. -/
inductive Prog (β ε α : Type) where
  | ret (a : α)
  | fail (e : ε)
  | write (bs : List β) (k : Except ε Unit → Prog β ε α)
  | recv (k : Except ε (List β) → Prog β ε α)

namespace Prog

variable {β ε α α' : Type}

/-- Run a program, then another on its result. -/
def bind : Prog β ε α → (α → Prog β ε α') → Prog β ε α'
  | .ret a, f => f a
  | .fail e, _ => .fail e
  | .write bs k, f => .write bs fun r => (k r).bind f
  | .recv k, f => .recv fun r => (k r).bind f

instance : Monad (Prog β ε) where
  pure := .ret
  bind := .bind

@[simp] theorem ret_bind (a : α) (f : α → Prog β ε α') : (Prog.ret a >>= f) = f a := rfl

/-- How a program ended, if it has. -/
def result : Prog β ε α → Option (Except ε α)
  | .ret a => some (.ok a)
  | .fail e => some (.error e)
  | .write _ _ | .recv _ => none

/-- Whether a program has returned. -/
def returned : Prog β ε α → Bool
  | .ret _ => true
  | _ => false

/-- Whether a program has failed. -/
def failed : Prog β ε α → Bool
  | .fail _ => true
  | _ => false

end Prog

/-- A program and the bytes read for it. -/
structure Peer (β ε α : Type) where
  prog : Prog β ε α
  buf : List β

/-- What the network is to a party: the framing, the size of a read, and the errors. -/
structure Link (β ε : Type) where
  framing : Framing β
  chunk : ℕ
  chunk_pos : 0 < chunk
  /-- A read at the end of the stream. -/
  eof : ε
  /-- A write to a connection that is gone. -/
  broken : ε

/-- The steps of a party. -/
inductive Move
  | write
  | take
  | read (n : ℕ)
  | eof
  deriving DecidableEq

variable {β ε α α' : Type} (L : Link β ε)

/-- **A step of a party**, on the stream it reads and the stream it writes; `gone` says that the
other party has closed the connection. -/
def Peer.step (p : Peer β ε α) (inp out : List β) (gone : Bool) :
    Move → Option (Peer β ε α × List β × List β)
  | .write =>
    match p.prog with
    | .write bs k =>
      if gone then some (⟨k (.error L.broken), p.buf⟩, inp, out)
      else some (⟨k (.ok ()), p.buf⟩, inp, out ++ bs)
    | _ => none
  | .take =>
    match p.prog, L.framing.take? p.buf with
    | .recv k, some (r, rest) => some (⟨k (.ok r), rest⟩, inp, out)
    | _, _ => none
  | .read n =>
    match p.prog, L.framing.take? p.buf with
    | .recv _, none =>
      if 0 < n ∧ n ≤ L.chunk ∧ n ≤ inp.length then
        some ({ p with buf := p.buf ++ inp.take n }, inp.drop n, out)
      else none
    | _, _ => none
  | .eof =>
    match p.prog, L.framing.take? p.buf with
    | .recv k, none =>
      if gone ∧ inp = [] then some (⟨k (.error L.eof), p.buf⟩, inp, out) else none
    | _, _ => none

/-- Every step of a party, with its effect. -/
inductive Peer.Step (p : Peer β ε α) (inp out : List β) (gone : Bool) :
    Move → Peer β ε α → List β → List β → Prop
  | write {bs k} : p.prog = .write bs k → gone = false →
      Step p inp out gone .write ⟨k (.ok ()), p.buf⟩ inp (out ++ bs)
  | broken {bs k} : p.prog = .write bs k → gone = true →
      Step p inp out gone .write ⟨k (.error L.broken), p.buf⟩ inp out
  | take {k r rest} : p.prog = .recv k → L.framing.take? p.buf = some (r, rest) →
      Step p inp out gone .take ⟨k (.ok r), rest⟩ inp out
  | read {k n} : p.prog = .recv k → L.framing.take? p.buf = none → 0 < n → n ≤ L.chunk →
      n ≤ inp.length →
      Step p inp out gone (.read n) ⟨p.prog, p.buf ++ inp.take n⟩ (inp.drop n) out
  | eof {k} : p.prog = .recv k → L.framing.take? p.buf = none → gone = true → inp = [] →
      Step p inp out gone .eof ⟨k (.error L.eof), p.buf⟩ inp out

variable {L}

theorem Peer.Step.of_step {p p' : Peer β ε α} {inp out inp' out' : List β} {gone : Bool} {m : Move}
    (h : p.step L inp out gone m = some (p', inp', out')) : p.Step L inp out gone m p' inp' out' := by
  cases m with
  | write =>
    simp only [Peer.step] at h
    split at h
    · next hp =>
      split at h
      · next hg => cases h; exact .broken hp hg
      · next hg => cases h; exact .write hp (by simpa using hg)
    · cases h
  | take =>
    simp only [Peer.step] at h
    split at h
    · next hp ht => cases h; exact .take hp ht
    · cases h
  | read n =>
    simp only [Peer.step] at h
    split at h
    · next hp ht =>
      split at h
      · next hn => cases h; exact .read hp ht hn.1 hn.2.1 hn.2.2
      · cases h
    · cases h
  | eof =>
    simp only [Peer.step] at h
    split at h
    · next hp ht =>
      split at h
      · next hg => cases h; exact .eof hp ht hg.1 hg.2
      · cases h
    · cases h

/-- Two parties and the streams between them. -/
structure Duplex (β ε α α' : Type) where
  left : Peer β ε α
  right : Peer β ε α'
  toLeft : List β
  toRight : List β

namespace Duplex

/-- Two programs about to start. -/
def start (P : Prog β ε α) (Q : Prog β ε α') : Duplex β ε α α' := ⟨⟨P, []⟩, ⟨Q, []⟩, [], []⟩

/-- A step of the left or of the right party. -/
inductive Act
  | left (m : Move)
  | right (m : Move)
  deriving DecidableEq

variable (L) in
/-- **One step of the two parties.** A party that fails closes the connection. -/
def step (s : Duplex β ε α α') : Act → Option (Duplex β ε α α')
  | .left m =>
    (s.left.step L s.toLeft s.toRight s.right.prog.failed m).map fun (p, inp, out) =>
      ⟨p, s.right, inp, out⟩
  | .right m =>
    (s.right.step L s.toRight s.toLeft s.left.prog.failed m).map fun (p, inp, out) =>
      ⟨s.left, p, out, inp⟩

end Duplex

/-! ### Programs in step -/

variable (L) in
/-- **The two programs run record by record end with `x` and `y`**, in at most `n` steps of the
parties. The right party has the last word: the left one returns only after it. -/
inductive Lockstep : ℕ → Prog β ε α → Prog β ε α' → Except ε α → Except ε α' → Prop
  | done {a b} : Lockstep 0 (.ret a) (.ret b) (.ok a) (.ok b)
  | failed {e e'} : Lockstep 0 (.fail e) (.fail e') (.error e) (.error e')
  | failLeft {e e' k} : k (.error L.eof) = .fail e' →
      Lockstep 1 (.fail e) (.recv k) (.error e) (.error e')
  | failRight {e e' k} : k (.error L.eof) = .fail e →
      Lockstep 1 (.recv k) (.fail e') (.error e) (.error e')
  | writeLeft {n bs k k' x y} : L.framing.IsRecord bs → (k (.ok ())).returned = false →
      Lockstep n (k (.ok ())) (k' (.ok bs)) x y →
      Lockstep (n + bs.length + 2) (.write bs k) (.recv k') x y
  | writeRight {n bs k k' x y} : L.framing.IsRecord bs →
      Lockstep n (k' (.ok bs)) (k (.ok ())) x y →
      Lockstep (n + bs.length + 2) (.recv k') (.write bs k) x y

variable (L) in
/-- A program with unread bytes that are whole records, and the program after it has received them
(`n` of them). -/
inductive Behind : ℕ → Prog β ε α → List β → Prog β ε α → Prop
  | nil {P} : Behind 0 P [] P
  | cons {n k r us P'} : L.framing.IsRecord r → Behind n (k (.ok r)) us P' →
      Behind (n + 1) (.recv k) (r ++ us) P'

namespace Behind

variable {n : ℕ} {P P' : Prog β ε α} {us : List β}

theorem snoc {k : Except ε (List β) → Prog β ε α} {r : List β} (h : Behind L n P us (.recv k))
    (hr : L.framing.IsRecord r) : Behind L (n + 1) P (us ++ r) (k (.ok r)) := by
  generalize hQ : Prog.recv k = Q at h
  induction h with
  | nil => subst hQ; simpa using Behind.cons hr .nil
  | cons hr' _ ih => rw [List.append_assoc]; exact .cons hr' (ih hQ)

theorem not_ended {k : Except ε (List β) → Prog β ε α} (h : Behind L n P us (.recv k)) :
    P.failed = false ∧ P.returned = false := by
  generalize hQ : Prog.recv k = Q at h
  cases h with
  | nil => subst hQ; exact ⟨rfl, rfl⟩
  | cons => exact ⟨rfl, rfl⟩

/-- Only a program about to receive can be behind. -/
theorem eq_nil (h : Behind L n P us P') (hP : ∀ k, P ≠ .recv k) : us = [] ∧ P' = P ∧ n = 0 := by
  cases h with
  | nil => exact ⟨rfl, rfl, rfl⟩
  | cons => exact absurd rfl (hP _)

theorem eq_of_nil (h : Behind L n P [] P') : P' = P ∧ n = 0 := by
  generalize hus : ([] : List β) = us at h
  cases h with
  | nil => exact ⟨rfl, rfl⟩
  | cons hr => exact absurd (List.append_eq_nil_iff.mp hus.symm).1 (hr.ne_nil _)

/-- Receiving the first of the records. -/
theorem take {k : Except ε (List β) → Prog β ε α} {buf inp r rest : List β}
    (h : Behind L n (.recv k) (buf ++ inp) P') (ht : L.framing.take? buf = some (r, rest)) :
    ∃ m, n = m + 1 ∧ Behind L m (k (.ok r)) (rest ++ inp) P' := by
  have htake := L.framing.take?_append ht inp
  generalize hus : buf ++ inp = us at h htake
  cases h with
  | nil => rw [L.framing.take?_nil] at htake; cases htake
  | cons hr h =>
    rw [L.framing.take?_record hr] at htake
    cases htake
    exact ⟨_, rfl, h⟩

/-- When everything was read and no record is buffered, nothing is outstanding. -/
theorem eq_of_take?_none {k : Except ε (List β) → Prog β ε α} {buf : List β}
    (h : Behind L n (.recv k) buf P') (ht : L.framing.take? buf = none) :
    buf = [] ∧ P' = .recv k ∧ n = 0 := by
  cases h with
  | nil => exact ⟨rfl, rfl, rfl⟩
  | cons hr _ => rw [L.framing.take?_record hr] at ht; cases ht

/-- A party that is behind can go on: a record is buffered, or there is something to read. -/
theorem progress {buf inp : List β} (h : Behind L n P (buf ++ inp) P') (hn : buf ++ inp ≠ [])
    (out : List β) (gone : Bool) : ∃ m, (Peer.step L ⟨P, buf⟩ inp out gone m).isSome := by
  generalize hus : buf ++ inp = us at h hn
  cases h with
  | nil => exact absurd rfl hn
  | @cons _ k r us' _ hr _ =>
    cases ht : L.framing.take? buf with
    | some q => exact ⟨.take, by simp [Peer.step, ht]⟩
    | none =>
      have hinp : inp ≠ [] := by
        rintro rfl
        rw [List.append_nil] at hus
        rw [hus, L.framing.take?_record hr] at ht
        cases ht
      have h1 : 1 ≤ L.chunk ∧ 1 ≤ inp.length := ⟨L.chunk_pos, List.length_pos_iff.mpr hinp⟩
      exact ⟨.read 1, by simp [Peer.step, ht, h1]⟩

end Behind

/-! ### From lockstep to the real runs -/

namespace Duplex

variable {s s' : Duplex β ε α α'} {n : ℕ} {x : Except ε α} {y : Except ε α'}

variable (L) in
/-- **One party is ahead of the other**, which still has to receive what was written for it; from
there on they are in lockstep. At most `n` steps are left. -/
inductive InStep (x : Except ε α) (y : Except ε α') : ℕ → Duplex β ε α α' → Prop
  | left {P Q bufR toR i j} {Q' : Prog β ε α'} : Behind L i Q (bufR ++ toR) Q' →
      Lockstep L j P Q' x y → (bufR ++ toR ≠ [] → P.returned = false) →
      InStep x y (j + i + toR.length) ⟨⟨P, []⟩, ⟨Q, bufR⟩, [], toR⟩
  | right {P Q bufL toL i j} {P' : Prog β ε α} : Behind L i P (bufL ++ toL) P' →
      Lockstep L j P' Q x y →
      InStep x y (j + i + toL.length) ⟨⟨P, bufL⟩, ⟨Q, []⟩, toL, []⟩

theorem InStep.start {P : Prog β ε α} {Q : Prog β ε α'} (h : Lockstep L n P Q x y) :
    InStep L x y n (start P Q) := by
  have hb : Behind L 0 Q ([] ++ []) Q := .nil
  exact .left hb h fun hne => absurd rfl hne

namespace InStep

variable {P : Prog β ε α} {Q : Prog β ε α'} {bufL bufR toL toR bs r rest : List β}
  {kL : Except ε Unit → Prog β ε α} {kR : Except ε Unit → Prog β ε α'}
  {gL : Except ε (List β) → Prog β ε α} {gR : Except ε (List β) → Prog β ε α'} {m : ℕ}

/-- Unless the left party is about to receive, it is not behind. -/
theorem left_of (h : InStep L x y n ⟨⟨P, bufL⟩, ⟨Q, bufR⟩, toL, toR⟩) (hP : ∀ k, P ≠ .recv k) :
    bufL = [] ∧ toL = [] ∧ ∃ i j Q', Behind L i Q (bufR ++ toR) Q' ∧ Lockstep L j P Q' x y ∧
      (bufR ++ toR ≠ [] → P.returned = false) ∧ n = j + i + toR.length := by
  cases h with
  | left hb hl hlive => exact ⟨rfl, rfl, _, _, _, hb, hl, hlive, rfl⟩
  | right hb hl =>
    obtain ⟨hnil, rfl, rfl⟩ := hb.eq_nil hP
    obtain ⟨rfl, rfl⟩ := List.append_eq_nil_iff.mp hnil
    exact ⟨rfl, rfl, 0, _, _, .nil, hl, by simp, rfl⟩

/-- Unless the right party is about to receive, it is not behind. -/
theorem right_of (h : InStep L x y n ⟨⟨P, bufL⟩, ⟨Q, bufR⟩, toL, toR⟩) (hQ : ∀ k, Q ≠ .recv k) :
    bufR = [] ∧ toR = [] ∧ ∃ i j P', Behind L i P (bufL ++ toL) P' ∧ Lockstep L j P' Q x y ∧
      n = j + i + toL.length := by
  cases h with
  | right hb hl => exact ⟨rfl, rfl, _, _, _, hb, hl, rfl⟩
  | left hb hl =>
    obtain ⟨hnil, rfl, rfl⟩ := hb.eq_nil hQ
    obtain ⟨rfl, rfl⟩ := List.append_eq_nil_iff.mp hnil
    exact ⟨rfl, rfl, 0, _, _, .nil, hl, rfl⟩

/-- The left party writes: the right one is about to receive it, or behind. -/
theorem write_left (h : InStep L x y n ⟨⟨.write bs kL, bufL⟩, ⟨Q, bufR⟩, toL, toR⟩) :
    Q.failed = false ∧ ∃ m < n,
      InStep L x y m ⟨⟨kL (.ok ()), bufL⟩, ⟨Q, bufR⟩, toL, toR ++ bs⟩ := by
  obtain ⟨rfl, rfl, i, j, Q', hb, hl, -, rfl⟩ := h.left_of (by simp)
  cases hl with
  | @writeLeft j' _ _ k' _ _ hr hlive hl =>
    constructor
    · exact hb.not_ended.1
    · refine ⟨j' + (i + 1) + (toR ++ bs).length, ?_, .left ?_ hl fun _ => hlive⟩
      · rw [List.length_append]; omega
      · rw [← List.append_assoc]; exact hb.snoc hr

/-- The right party writes. -/
theorem write_right (h : InStep L x y n ⟨⟨P, bufL⟩, ⟨.write bs kR, bufR⟩, toL, toR⟩) :
    P.failed = false ∧ ∃ m < n,
      InStep L x y m ⟨⟨P, bufL⟩, ⟨kR (.ok ()), bufR⟩, toL ++ bs, toR⟩ := by
  obtain ⟨rfl, rfl, i, j, P', hb, hl, rfl⟩ := h.right_of (by simp)
  cases hl with
  | @writeRight j' _ _ k' _ _ hr hl =>
    constructor
    · exact hb.not_ended.1
    · refine ⟨j' + (i + 1) + (toL ++ bs).length, ?_, .right ?_ hl⟩
      · rw [List.length_append]; omega
      · rw [← List.append_assoc]; exact hb.snoc hr

/-- The left party receives a record. -/
theorem take_left (h : InStep L x y n ⟨⟨.recv gL, bufL⟩, ⟨Q, bufR⟩, toL, toR⟩)
    (ht : L.framing.take? bufL = some (r, rest)) :
    ∃ m < n, InStep L x y m ⟨⟨gL (.ok r), rest⟩, ⟨Q, bufR⟩, toL, toR⟩ := by
  cases h with
  | left => rw [L.framing.take?_nil] at ht; cases ht
  | right hb hl =>
    obtain ⟨i, rfl, hb'⟩ := hb.take ht
    refine ⟨_, ?_, .right hb' hl⟩
    omega

/-- The right party receives a record. -/
theorem take_right (h : InStep L x y n ⟨⟨P, bufL⟩, ⟨.recv gR, bufR⟩, toL, toR⟩)
    (ht : L.framing.take? bufR = some (r, rest)) :
    ∃ m < n, InStep L x y m ⟨⟨P, bufL⟩, ⟨gR (.ok r), rest⟩, toL, toR⟩ := by
  cases h with
  | right => rw [L.framing.take?_nil] at ht; cases ht
  | left hb hl hlive =>
    have hne : bufR ++ toR ≠ [] := by
      rintro hnil
      obtain ⟨rfl, -⟩ := List.append_eq_nil_iff.mp hnil
      rw [L.framing.take?_nil] at ht; cases ht
    obtain ⟨i, rfl, hb'⟩ := hb.take ht
    refine ⟨_, ?_, .left hb' hl fun _ => hlive hne⟩
    omega

/-- The left party reads some bytes. -/
theorem read_left (h : InStep L x y n ⟨⟨P, bufL⟩, ⟨Q, bufR⟩, toL, toR⟩) (hm : 0 < m)
    (hle : m ≤ toL.length) :
    ∃ m' < n, InStep L x y m' ⟨⟨P, bufL ++ toL.take m⟩, ⟨Q, bufR⟩, toL.drop m, toR⟩ := by
  cases h with
  | left => simp at hle; omega
  | @right _ _ _ _ i j _ hb hl =>
    refine ⟨j + i + (toL.drop m).length, ?_, .right ?_ hl⟩
    · rw [List.length_drop]; omega
    · rwa [List.append_assoc, List.take_append_drop]

/-- The right party reads some bytes. -/
theorem read_right (h : InStep L x y n ⟨⟨P, bufL⟩, ⟨Q, bufR⟩, toL, toR⟩) (hm : 0 < m)
    (hle : m ≤ toR.length) :
    ∃ m' < n, InStep L x y m' ⟨⟨P, bufL⟩, ⟨Q, bufR ++ toR.take m⟩, toL, toR.drop m⟩ := by
  cases h with
  | right => simp at hle; omega
  | @left _ _ _ _ i j _ hb hl hlive =>
    refine ⟨j + i + (toR.drop m).length, ?_, .left ?_ hl ?_⟩
    · rw [List.length_drop]; omega
    · rwa [List.append_assoc, List.take_append_drop]
    · rwa [List.append_assoc, List.take_append_drop]

/-- The left party learns that the right one has failed. -/
theorem eof_left {e' : ε} (h : InStep L x y n ⟨⟨.recv gL, bufL⟩, ⟨.fail e', bufR⟩, [], toR⟩)
    (ht : L.framing.take? bufL = none) :
    ∃ m < n, InStep L x y m ⟨⟨gL (.error L.eof), bufL⟩, ⟨.fail e', bufR⟩, [], toR⟩ := by
  obtain ⟨rfl, rfl, i, j, P', hb, hl, rfl⟩ := h.right_of (by simp)
  rw [List.append_nil] at hb
  obtain ⟨rfl, rfl, rfl⟩ := hb.eq_of_take?_none ht
  cases hl with
  | failRight hk =>
    rw [hk]
    exact ⟨0, by omega, InStep.start .failed⟩

/-- The right party learns that the left one has failed. -/
theorem eof_right {e : ε} (h : InStep L x y n ⟨⟨.fail e, bufL⟩, ⟨.recv gR, bufR⟩, toL, []⟩)
    (ht : L.framing.take? bufR = none) :
    ∃ m < n, InStep L x y m ⟨⟨.fail e, bufL⟩, ⟨gR (.error L.eof), bufR⟩, toL, []⟩ := by
  obtain ⟨rfl, rfl, i, j, Q', hb, hl, -, rfl⟩ := h.left_of (by simp)
  rw [List.append_nil] at hb
  obtain ⟨rfl, rfl, rfl⟩ := hb.eq_of_take?_none ht
  cases hl with
  | failLeft hk =>
    rw [hk]
    exact ⟨0, by omega, InStep.start .failed⟩

/-- **Every step keeps the parties in step** and brings them closer to their ends. -/
theorem step {a : Act} (h : InStep L x y n s) (hs : s.step L a = some s') :
    ∃ m < n, InStep L x y m s' := by
  obtain ⟨⟨P, bufL⟩, ⟨Q, bufR⟩, toL, toR⟩ := s
  rcases a with m | m
  · obtain ⟨⟨p, inp, out⟩, hp, rfl⟩ := Option.map_eq_some_iff.mp hs
    cases Peer.Step.of_step hp with
    | write hP => cases hP; exact h.write_left.2
    | broken hP hg => cases hP; rw [h.write_left.1] at hg; cases hg
    | take hP ht => cases hP; exact h.take_left ht
    | read _ _ h0 _ hle => exact h.read_left h0 hle
    | eof hP ht hg hinp =>
      cases hP; cases hinp
      cases Q with
      | fail => exact h.eof_left ht
      | _ => cases hg
  · obtain ⟨⟨p, inp, out⟩, hp, rfl⟩ := Option.map_eq_some_iff.mp hs
    cases Peer.Step.of_step hp with
    | write hP => cases hP; exact h.write_right.2
    | broken hP hg => cases hP; rw [h.write_right.1] at hg; cases hg
    | take hP ht => cases hP; exact h.take_right ht
    | read _ _ h0 _ hle => exact h.read_right h0 hle
    | eof hP ht hg hinp =>
      cases hP; cases hinp
      cases P with
      | fail => exact h.eof_right ht
      | _ => cases hg

/-- A party that has ended has the result of the lockstep run. -/
theorem result_left (h : InStep L x y n s) {r : Except ε α} (hr : s.left.prog.result = some r) :
    r = x := by
  obtain ⟨⟨P, bufL⟩, ⟨Q, bufR⟩, toL, toR⟩ := s
  have hP : ∀ k, P ≠ .recv k := by
    rintro k rfl; cases hr
  obtain ⟨-, -, i, j, Q', -, hl, -⟩ := h.left_of hP
  cases hl <;> cases hr <;> rfl

theorem result_right (h : InStep L x y n s) {r : Except ε α'}
    (hr : s.right.prog.result = some r) : r = y := by
  obtain ⟨⟨P, bufL⟩, ⟨Q, bufR⟩, toL, toR⟩ := s
  have hQ : ∀ k, Q ≠ .recv k := by
    rintro k rfl; cases hr
  obtain ⟨-, -, i, j, P', -, hl, -⟩ := h.right_of hQ
  cases hl <;> cases hr <;> rfl

/-- When the left party has returned, so has the right one, and no byte is left over. -/
theorem returned_left (h : InStep L x y n s) (hr : s.left.prog.returned = true) :
    s.right.prog.returned = true ∧ s.left.buf = [] ∧ s.right.buf = [] ∧
      s.toLeft = [] ∧ s.toRight = [] := by
  obtain ⟨⟨P, bufL⟩, ⟨Q, bufR⟩, toL, toR⟩ := s
  have hP : ∀ k, P ≠ .recv k := by
    rintro k rfl; cases hr
  obtain ⟨rfl, rfl, i, j, Q', hb, hl, hlive, -⟩ := h.left_of hP
  have hnil : bufR ++ toR = [] := by
    by_contra hne
    rw [show P.returned = true from hr] at hlive
    cases hlive hne
  rw [hnil] at hb
  obtain ⟨rfl, rfl⟩ := List.append_eq_nil_iff.mp hnil
  obtain ⟨rfl, -⟩ := hb.eq_of_nil
  refine ⟨?_, rfl, rfl, rfl, rfl⟩
  cases hl <;> first | rfl | cases hr

/-- When the right party has returned, nothing is left over for it. -/
theorem returned_right (h : InStep L x y n s) (hr : s.right.prog.returned = true) :
    s.right.buf = [] ∧ s.toRight = [] := by
  obtain ⟨⟨P, bufL⟩, ⟨Q, bufR⟩, toL, toR⟩ := s
  have hQ : ∀ k, Q ≠ .recv k := by
    rintro k rfl; cases hr
  obtain ⟨rfl, rfl, -⟩ := h.right_of hQ
  exact ⟨rfl, rfl⟩

/-- Two programs in lockstep have both ended, or one of them can go on. -/
theorem progress_sync (h : Lockstep L n P Q x y) :
    (P.result = some x ∧ Q.result = some y) ∨ ∃ a, (Duplex.step L (Duplex.start P Q) a).isSome := by
  cases h with
  | done | failed => exact .inl ⟨rfl, rfl⟩
  | failLeft =>
    exact .inr ⟨.right .eof,
      by simp [Duplex.step, Duplex.start, Peer.step, L.framing.take?_nil, Prog.failed]⟩
  | failRight =>
    exact .inr ⟨.left .eof,
      by simp [Duplex.step, Duplex.start, Peer.step, L.framing.take?_nil, Prog.failed]⟩
  | writeLeft =>
    exact .inr ⟨.left .write, by simp [Duplex.step, Duplex.start, Peer.step, Prog.failed]⟩
  | writeRight =>
    exact .inr ⟨.right .write, by simp [Duplex.step, Duplex.start, Peer.step, Prog.failed]⟩

/-- When the right party has returned, the left one does not write. -/
theorem write_of_returned (h : InStep L x y n ⟨⟨.write bs kL, bufL⟩, ⟨Q, bufR⟩, toL, toR⟩) :
    Q.returned = false := by
  obtain ⟨-, -, i, j, Q', hb, hl, -⟩ := h.left_of (by simp)
  cases hl with
  | writeLeft => exact hb.not_ended.2

/-- When the right party has returned, what the left one waits for is on its way. -/
theorem recv_of_returned (h : InStep L x y n ⟨⟨.recv gL, bufL⟩, ⟨Q, bufR⟩, toL, toR⟩)
    (hQ : Q.returned = true) (ht : L.framing.take? bufL = none) : toL ≠ [] := by
  rintro rfl
  have hQ' : ∀ k, Q ≠ .recv k := by
    rintro k rfl; cases hQ
  obtain ⟨-, -, i, j, P', hb, hl, -⟩ := h.right_of hQ'
  rw [List.append_nil] at hb
  obtain ⟨-, rfl, -⟩ := hb.eq_of_take?_none ht
  cases hl <;> cases hQ

/-- **Parties that have not both ended can go on.** -/
theorem progress (h : InStep L x y n s) :
    (s.left.prog.result = some x ∧ s.right.prog.result = some y) ∨
      ∃ a, (Duplex.step L s a).isSome := by
  cases h with
  | @left P Q bufR toR i j Q' hb hl _ =>
    by_cases hnil : bufR ++ toR = []
    · rw [hnil] at hb
      obtain ⟨rfl, rfl⟩ := List.append_eq_nil_iff.mp hnil
      obtain ⟨rfl, -⟩ := hb.eq_of_nil
      exact progress_sync hl
    · obtain ⟨m, hm⟩ := hb.progress hnil [] P.failed
      exact .inr ⟨.right m, by simpa [Duplex.step] using hm⟩
  | @right P Q bufL toL i j P' hb hl =>
    by_cases hnil : bufL ++ toL = []
    · rw [hnil] at hb
      obtain ⟨rfl, rfl⟩ := List.append_eq_nil_iff.mp hnil
      obtain ⟨rfl, -⟩ := hb.eq_of_nil
      exact progress_sync hl
    · obtain ⟨m, hm⟩ := hb.progress hnil [] Q.failed
      exact .inr ⟨.left m, by simpa [Duplex.step] using hm⟩

/-- A run of parties in step. -/
theorem run : ∀ (as : List Act) {n : ℕ} {s : Duplex β ε α α'}, InStep L x y n s →
    exec (Duplex.step L) s as = some s' → ∃ m, m + as.length ≤ n ∧ InStep L x y m s'
  | [], n, s, h, he => by
    simp only [exec, Option.some.injEq] at he
    subst he
    exact ⟨n, le_rfl, h⟩
  | a :: as, n, s, h, he => by
    simp only [exec] at he
    obtain ⟨s₁, h₁, h₂⟩ := Option.bind_eq_some_iff.mp he
    obtain ⟨m₁, hlt, hin⟩ := h.step h₁
    obtain ⟨m, hle, hin'⟩ := run as hin h₂
    exact ⟨m, by rw [List.length_cons]; omega, hin'⟩

end InStep

end Duplex

/-- **Lockstep decides every run**: a run is at most `n` steps long, a party that has ended has the
result of the lockstep run, and where no step is possible both have ended. -/
theorem Lockstep.outcome {n : ℕ} {P : Prog β ε α} {Q : Prog β ε α'} {x : Except ε α}
    {y : Except ε α'} (h : Lockstep L n P Q x y) {as : List Duplex.Act} {s : Duplex β ε α α'}
    (he : exec (Duplex.step L) (.start P Q) as = some s) :
    as.length ≤ n ∧ (∀ r, s.left.prog.result = some r → r = x) ∧
      (∀ r, s.right.prog.result = some r → r = y) ∧
      ((∀ a, s.step L a = none) → s.left.prog.result = some x ∧ s.right.prog.result = some y) := by
  obtain ⟨m, hle, hin⟩ := Duplex.InStep.run as (.start h) he
  refine ⟨by omega, fun r => hin.result_left, fun r => hin.result_right, fun hstuck => ?_⟩
  rcases hin.progress with hend | ⟨a, ha⟩
  · exact hend
  · rw [hstuck a] at ha; cases ha

end QeliSsPlugin.Lib.Session
