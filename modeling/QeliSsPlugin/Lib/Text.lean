import Mathlib.Data.List.DropRight
import Mathlib.Tactic

/-! # Trimming, splitting and escaping

Texts are lists over any alphabet. `trim p` removes the leading and trailing letters with the property
`p`, `splitOnce c` splits at the first `c`. `splitEscaped esc sep special` splits at every unescaped
`sep` and removes the escapes: `esc` before a letter of `special` stands for this letter, and for
itself otherwise. `Escapes v w` says that `w` is `v` with its letters escaped, some of them by choice:
`splitEscaped_intercalate`. -/

namespace QeliSsPlugin.Lib.Text

variable {α : Type*}

/-! ### Trimming -/

section Trim

variable (p : α → Bool) {a : α}

/-- Remove the leading and the trailing letters with the property `p`. -/
def trim (l : List α) : List α := (l.dropWhile p).rdropWhile p

variable {p}

theorem dropWhile_append_cons (ha : p a = false) (k v : List α) :
    (k ++ a :: v).dropWhile p = k.dropWhile p ++ a :: v := by
  induction k with
  | nil => simp [ha]
  | cons b k ih =>
    simp only [List.cons_append, List.dropWhile_cons, ih]
    split_ifs <;> rfl

theorem rdropWhile_append_cons (ha : p a = false) (k v : List α) :
    (k ++ a :: v).rdropWhile p = k ++ a :: v.rdropWhile p := by
  have h : (k ++ a :: v).reverse = v.reverse ++ a :: k.reverse := by simp
  rw [List.rdropWhile, h, dropWhile_append_cons ha, List.rdropWhile]
  simp

/-- Around a letter that stays, the two sides are trimmed each at its end. -/
theorem trim_append_cons (ha : p a = false) (k v : List α) :
    trim p (k ++ a :: v) = k.dropWhile p ++ a :: v.rdropWhile p := by
  rw [trim, dropWhile_append_cons ha, rdropWhile_append_cons ha]

theorem trim_dropWhile (l : List α) : trim p (l.dropWhile p) = trim p l := by
  rw [trim, List.dropWhile_idempotent, trim]

theorem trim_concat (ha : p a = true) (l : List α) : trim p (l ++ [a]) = trim p l := by
  rw [trim, List.dropWhile_append]
  split_ifs with h
  · rw [List.isEmpty_iff] at h
    simp [trim, h, ha]
  · rw [List.rdropWhile_concat_pos _ _ _ ha, trim]

theorem trim_rdropWhile (l : List α) : trim p (l.rdropWhile p) = trim p l := by
  induction l using List.reverseRecOn with
  | nil => rfl
  | append_singleton l a ih =>
    by_cases ha : p a = true
    · rw [List.rdropWhile_concat_pos _ _ _ ha, ih, trim_concat ha]
    · rw [List.rdropWhile_concat_neg _ _ _ ha]

/-- A text that neither begins nor ends with such a letter. -/
theorem trim_eq_self {l : List α} (hhead : ∀ x, l.head? = some x → p x = false)
    (hlast : ∀ x, l.getLast? = some x → p x = false) : trim p l = l := by
  have hdrop : l.dropWhile p = l := by
    cases l with
    | nil => rfl
    | cons a l => simp [hhead a rfl]
  rw [trim, hdrop, List.rdropWhile_eq_self_iff]
  intro hne
  rw [hlast _ (List.getLast?_eq_some_getLast hne)]
  exact Bool.false_ne_true

end Trim

/-! ### Splitting at a letter -/

section Split

variable [DecidableEq α] {c : α}

/-- Split at the first `c`. -/
def splitOnce (c : α) : List α → Option (List α × List α)
  | [] => none
  | a :: l => if a = c then some ([], l) else (splitOnce c l).map fun s => (a :: s.1, s.2)

/-- Split at the last `c`. -/
def rsplitOnce (c : α) (l : List α) : Option (List α × List α) :=
  (splitOnce c l.reverse).map fun s => (s.2.reverse, s.1.reverse)

theorem splitOnce_append (k v : List α) (hc : c ∉ k) :
    splitOnce c (k ++ c :: v) = some (k, v) := by
  induction k with
  | nil => simp [splitOnce]
  | cons a k ih =>
    rw [List.mem_cons, not_or] at hc
    simp [splitOnce, Ne.symm hc.1, ih hc.2]

theorem rsplitOnce_append (k v : List α) (hc : c ∉ v) :
    rsplitOnce c (k ++ c :: v) = some (k, v) := by
  have hreverse : (k ++ c :: v).reverse = v.reverse ++ c :: k.reverse := by simp
  rw [rsplitOnce, hreverse, splitOnce_append _ _ (by simpa using hc)]
  simp

end Split

/-! ### Splitting an escaped text -/

section Escaped

variable (esc sep : α) (special : α → Bool)

/-- Split at the unescaped `sep`s and remove the escapes; `current` is what the first piece begins
with. -/
def splitEscaped [DecidableEq α] (current : List α) : List α → List (List α)
  | [] => [current]
  | [a] =>
    if a = esc then [current ++ [esc]]
    else if a = sep then [current, []]
    else [current ++ [a]]
  | a :: b :: l =>
    if a = esc then
      -- `esc` counts as a letter unless it escapes the next one
      if special b then splitEscaped (current ++ [b]) l else splitEscaped (current ++ [esc]) (b :: l)
    else if a = sep then current :: splitEscaped [] (b :: l)
    else splitEscaped (current ++ [a]) (b :: l)

/-- `w` is `v` with `esc` put before some of its special letters, `sep` and `esc` always among
them. -/
inductive Escapes : List α → List α → Prop
  | nil : Escapes [] []
  | escaped {a : α} {v w : List α} : special a = true → Escapes v w →
      Escapes (a :: v) (esc :: a :: w)
  | plain {a : α} {v w : List α} : a ≠ esc → a ≠ sep → Escapes v w → Escapes (a :: v) (a :: w)

/-- Put `esc` before every special letter. -/
def escape : List α → List α
  | [] => []
  | a :: v => if special a then esc :: a :: escape v else a :: escape v

variable {esc sep special} {v w : List α}

theorem escapes_escape (hesc : special esc = true) (hsep : special sep = true) (v : List α) :
    Escapes esc sep special v (escape esc special v) := by
  induction v with
  | nil => exact .nil
  | cons a v ih =>
    rw [escape]
    split_ifs with ha
    · exact .escaped ha ih
    · refine .plain ?_ ?_ ih
      · rintro rfl; exact ha hesc
      · rintro rfl; exact ha hsep

theorem Escapes.append {v' w' : List α} (h : Escapes esc sep special v w)
    (h' : Escapes esc sep special v' w') : Escapes esc sep special (v ++ v') (w ++ w') := by
  induction h with
  | nil => exact h'
  | escaped ha _ ih => exact .escaped ha ih
  | plain he hs _ ih => exact .plain he hs ih

/-- A text without letters to escape. -/
theorem Escapes.refl (he : esc ∉ v) (hs : sep ∉ v) : Escapes esc sep special v v := by
  induction v with
  | nil => exact .nil
  | cons a v ih =>
    rw [List.mem_cons, not_or] at he hs
    exact .plain (Ne.symm he.1) (Ne.symm hs.1) (ih he.2 hs.2)

variable [DecidableEq α]

theorem splitEscaped_sep (hne : sep ≠ esc) (current l : List α) :
    splitEscaped esc sep special current (sep :: l) =
      current :: splitEscaped esc sep special [] l := by
  cases l <;> simp [splitEscaped, hne]

theorem splitEscaped_plain {a : α} (he : a ≠ esc) (hs : a ≠ sep) (current l : List α) :
    splitEscaped esc sep special current (a :: l) =
      splitEscaped esc sep special (current ++ [a]) l := by
  cases l <;> simp [splitEscaped, he, hs]

/-- An escaped text goes into the current piece, whatever follows it. -/
theorem splitEscaped_append (h : Escapes esc sep special v w) (current t : List α) :
    splitEscaped esc sep special current (w ++ t) =
      splitEscaped esc sep special (current ++ v) t := by
  induction h generalizing current with
  | nil => simp
  | @escaped a v w ha _ ih =>
    rw [List.cons_append, List.cons_append, splitEscaped, if_pos rfl, if_pos ha, ih,
      List.append_assoc, List.singleton_append]
  | @plain a v w he hs _ ih =>
    rw [List.cons_append, splitEscaped_plain he hs, ih, List.append_assoc, List.singleton_append]

/-- **Splitting inverts joining.** -/
theorem splitEscaped_intercalate (hne : sep ≠ esc) {vs ws : List (List α)}
    (h : List.Forall₂ (Escapes esc sep special) vs ws) (hvs : vs ≠ []) :
    splitEscaped esc sep special [] ([sep].intercalate ws) = vs := by
  induction h with
  | nil => exact absurd rfl hvs
  | @cons v w vs ws hvw hrest ih =>
    cases hrest with
    | nil =>
      have h := splitEscaped_append hvw [] []
      simpa [splitEscaped] using h
    | @cons v' w' vs' ws' hvw' hrest' =>
      have ih := ih (List.cons_ne_nil _ _)
      rw [List.intercalate_cons_cons, List.append_assoc, splitEscaped_append hvw, List.nil_append,
        List.singleton_append, splitEscaped_sep hne, ih]

end Escaped

end QeliSsPlugin.Lib.Text
