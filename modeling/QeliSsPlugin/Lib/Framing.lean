import Mathlib.Tactic

/-! # Length-prefixed records

A framing cuts a stream into records: a record is a header of a fixed, positive size followed by as
many units as the header announces. `take?` takes the first record off a stream that holds it
completely (`take?_eq_some_iff`: exactly when the stream is a record followed by something), and
`split` cuts a stream into its complete records and the incomplete rest. Both only look at the
units a record consists of, so what comes later does not change what was cut (`take?_append`,
`split_append`): this is what makes a reader independent of the way its input arrives. -/

namespace QeliSsPlugin.Lib

/-- A framing of a stream of units. -/
structure Framing (β : Type*) where
  /-- The size of a header. -/
  header : ℕ
  header_pos : 0 < header
  /-- How many units after the header a header announces. -/
  payload : List β → ℕ

namespace Framing

variable {β : Type*} (F : Framing β)

/-- The size of the first record of a stream that holds at least a header. -/
def total (bs : List β) : ℕ := F.header + F.payload (bs.take F.header)

/-- A list that is one complete record. -/
def IsRecord (r : List β) : Prop := F.header ≤ r.length ∧ r.length = F.total r

instance (r : List β) : Decidable (F.IsRecord r) := by unfold IsRecord; infer_instance

/-- **The first complete record** of a stream, and what follows it. -/
def take? (bs : List β) : Option (List β × List β) :=
  if F.header ≤ bs.length ∧ F.total bs ≤ bs.length then
    some (bs.take (F.total bs), bs.drop (F.total bs))
  else none

theorem total_append {bs cs : List β} (h : F.header ≤ bs.length) :
    F.total (bs ++ cs) = F.total bs := by
  unfold total; rw [List.take_append_of_le_length h]

theorem IsRecord.ne_nil {r : List β} (h : F.IsRecord r) : r ≠ [] := by
  rintro rfl
  have h1 := h.1
  have h2 := F.header_pos
  simp at h1; omega

theorem isRecord_take {bs : List β} (ht : F.total bs ≤ bs.length) :
    F.IsRecord (bs.take (F.total bs)) := by
  have hle : F.header ≤ F.total bs := Nat.le_add_right _ _
  have hlen : (bs.take (F.total bs)).length = F.total bs := by rw [List.length_take]; omega
  refine ⟨by rw [hlen]; exact hle, ?_⟩
  rw [hlen]
  unfold total
  rw [List.take_take]
  congr 3
  have : F.header ≤ F.header + F.payload (bs.take F.header) := Nat.le_add_right _ _
  omega

/-- A stream yields a record exactly when it starts with one. -/
theorem take?_eq_some_iff {bs r rest : List β} :
    F.take? bs = some (r, rest) ↔ F.IsRecord r ∧ bs = r ++ rest := by
  constructor
  · intro h
    unfold take? at h
    split_ifs at h with hc
    simp only [Option.some.injEq, Prod.mk.injEq] at h
    obtain ⟨rfl, rfl⟩ := h
    exact ⟨F.isRecord_take hc.2, (List.take_append_drop _ _).symm⟩
  · rintro ⟨⟨h1, h2⟩, rfl⟩
    have ht : F.total (r ++ rest) = r.length := by rw [F.total_append h1, ← h2]
    unfold take?
    rw [if_pos (by rw [ht, List.length_append]; omega), ht]
    simp

theorem take?_nil : F.take? ([] : List β) = none := by
  have := F.header_pos
  unfold take?
  rw [if_neg]
  simp; omega

theorem take?_record {r : List β} (h : F.IsRecord r) (rest : List β) :
    F.take? (r ++ rest) = some (r, rest) := F.take?_eq_some_iff.mpr ⟨h, rfl⟩

/-- What follows does not change the record that was taken. -/
theorem take?_append {bs r rest : List β} (h : F.take? bs = some (r, rest)) (cs : List β) :
    F.take? (bs ++ cs) = some (r, rest ++ cs) := by
  obtain ⟨hr, rfl⟩ := F.take?_eq_some_iff.mp h
  rw [List.append_assoc]; exact F.take?_record hr _

theorem take?_length_lt {bs r rest : List β} (h : F.take? bs = some (r, rest)) :
    rest.length < bs.length := by
  obtain ⟨hr, rfl⟩ := F.take?_eq_some_iff.mp h
  have := List.length_pos_iff.mpr (IsRecord.ne_nil F hr)
  simp; omega

/-- A stream without a complete record is shorter than the record it begins. -/
theorem length_lt_total {bs : List β} (h : F.take? bs = none) : bs.length < F.total bs := by
  have hle : F.header ≤ F.total bs := Nat.le_add_right _ _
  unfold take? at h
  split_ifs at h with hc
  by_contra hlt
  exact hc ⟨by omega, by omega⟩

/-! ### Cutting a whole stream -/

/-- **The complete records of a stream, and the incomplete rest.** -/
def split (bs : List β) : List (List β) × List β :=
  match _h : F.take? bs with
  | none => ([], bs)
  | some (r, rest) => (r :: (split rest).1, (split rest).2)
termination_by bs.length
decreasing_by all_goals exact F.take?_length_lt _h

theorem split_none {bs : List β} (h : F.take? bs = none) : F.split bs = ([], bs) := by
  rw [split]; split
  · rfl
  · next h' => rw [h] at h'; cases h'

theorem split_some {bs r rest : List β} (h : F.take? bs = some (r, rest)) :
    F.split bs = (r :: (F.split rest).1, (F.split rest).2) := by
  rw [split]; split
  · next h' => rw [h] at h'; cases h'
  · next h' => rw [h] at h'; cases h'; rfl

@[simp] theorem split_nil : F.split ([] : List β) = ([], []) := F.split_none F.take?_nil

theorem split_record {r : List β} (h : F.IsRecord r) (bs : List β) :
    F.split (r ++ bs) = (r :: (F.split bs).1, (F.split bs).2) :=
  F.split_some (F.take?_record h bs)

/-- Induction along the records of a stream. -/
theorem split_induction {P : List β → Prop} (hnone : ∀ bs, F.take? bs = none → P bs)
    (hsome : ∀ r rest, F.IsRecord r → P rest → P (r ++ rest)) : ∀ bs, P bs := by
  intro bs
  induction hn : bs.length using Nat.strongRecOn generalizing bs with
  | _ n ih =>
    cases h : F.take? bs with
    | none => exact hnone bs h
    | some p =>
      obtain ⟨r, rest⟩ := p
      have hlt := F.take?_length_lt h
      obtain ⟨hr, rfl⟩ := F.take?_eq_some_iff.mp h
      exact hsome r rest hr (ih rest.length (by omega) rest rfl)

theorem take?_split_rest (bs : List β) : F.take? (F.split bs).2 = none := by
  induction bs using F.split_induction with
  | hnone bs h => rw [F.split_none h]; exact h
  | hsome r rest hr ih => rw [F.split_record hr]; exact ih

/-- **More input only adds records**: the incomplete rest is completed by what arrives. -/
theorem split_append (bs cs : List β) :
    F.split (bs ++ cs) =
      ((F.split bs).1 ++ (F.split ((F.split bs).2 ++ cs)).1,
        (F.split ((F.split bs).2 ++ cs)).2) := by
  induction bs using F.split_induction with
  | hnone bs h => rw [F.split_none h]; rfl
  | hsome r rest hr ih => rw [List.append_assoc, F.split_record hr, F.split_record hr, ih]; simp

/-- A stream of whole records is cut into them. -/
theorem split_records {rs : List (List β)} (h : ∀ r ∈ rs, F.IsRecord r) (tail : List β) :
    F.split (rs.flatten ++ tail) = (rs ++ (F.split tail).1, (F.split tail).2) := by
  induction rs with
  | nil => rfl
  | cons r rs ih =>
    rw [List.flatten_cons, List.append_assoc, F.split_record (h r (by simp)),
      ih (fun r' hr' => h r' (by simp [hr']))]
    rfl

end Framing

end QeliSsPlugin.Lib
