import RoadAudit.Numeric.Scalar

/-! # Laws of the scalar order

What is assumed of the order of the scalars: it is total on the numbers, and what is no number is
in no order with anything. Sums of lengths are assumed to be monotone, and not to fall when a
length is added, and the whole parts of quotients to be monotone; nothing is assumed of the
rounding. -/

namespace RoadAudit
namespace Scalar

open scoped Scalar

/-- Whether a scalar is in order with itself, as all are but a NaN. -/
def IsNumber {α : Type} [Scalar α] (a : α) : Prop := a ≤ a

/-- An order that is total on the numbers and keeps everything else out. -/
class LawfulOrder (α : Type) [Scalar α] : Prop where
  number_of_le : ∀ {a b : α}, a ≤ b → IsNumber a ∧ IsNumber b
  total : ∀ {a b : α}, IsNumber a → IsNumber b → a ≤ b ∨ b ≤ a
  trans : ∀ {a b c : α}, a ≤ b → b ≤ c → a ≤ c
  lt_iff : ∀ {a b : α}, a < b ↔ a ≤ b ∧ ¬ b ≤ a

/-- Lengths, the numbers from zero on, can be added up from left to right. -/
class LawfulLength (α : Type) [Scalar α] : Prop extends LawfulOrder α where
  number_zero : IsNumber (0 : α)
  le_add : ∀ {a c : α}, 0 ≤ a → 0 ≤ c → a ≤ a + c
  add_le_add : ∀ {a b c : α}, 0 ≤ a → a ≤ b → 0 ≤ c → a + c ≤ b + c

/-- Sums that are numbers are made of numbers. -/
class LawfulSum (α : Type) [Scalar α] : Prop extends LawfulLength α where
  number_of_add : ∀ {a b : α}, IsNumber (a + b) → IsNumber a ∧ IsNumber b

/-- The quotient of a length and one that is more than half as great is less than two. -/
class LawfulRatio (α : Type) [Scalar α] : Prop extends LawfulOrder α where
  div_lt_two : ∀ {d q : α}, 0 ≤ d → 0 < q → d < 2 * q → d / q < 2

/-- Of two lengths in order the lesser does not contain a third more often. -/
class LawfulShare (α : Type) [Scalar α] : Prop extends LawfulOrder α where
  wholePart_div_le : ∀ {d d' w : α}, 0 ≤ d → d ≤ d' → 0 < w → wholePart (d / w) ≤ wholePart (d' / w)

section Order

variable {α : Type} [Scalar α] [LawfulOrder α] {a b c : α}

theorem le_trans (h : a ≤ b) (h' : b ≤ c) : a ≤ c := LawfulOrder.trans h h'

theorem IsNumber.left (h : a ≤ b) : IsNumber a := (LawfulOrder.number_of_le h).1

theorem IsNumber.right (h : a ≤ b) : IsNumber b := (LawfulOrder.number_of_le h).2

theorem le_of_lt (h : a < b) : a ≤ b := (LawfulOrder.lt_iff.mp h).1

theorem not_le_of_lt (h : a < b) : ¬ b ≤ a := (LawfulOrder.lt_iff.mp h).2

theorem not_lt_of_le (h : a ≤ b) : ¬ b < a := fun hlt => not_le_of_lt hlt h

theorem lt_irrefl (a : α) : ¬ a < a := fun h => not_le_of_lt h (le_of_lt h)

theorem le_of_not_lt (ha : IsNumber a) (hb : IsNumber b) (h : ¬ a < b) : b ≤ a := by
  rcases LawfulOrder.total ha hb with hle | hle
  · by_cases hba : b ≤ a
    · exact hba
    · exact absurd (LawfulOrder.lt_iff.mpr ⟨hle, hba⟩) h
  · exact hle

theorem lt_of_not_le (ha : IsNumber a) (hb : IsNumber b) (h : ¬ a ≤ b) : b < a := by
  rcases LawfulOrder.total ha hb with hle | hle
  · exact absurd hle h
  · exact LawfulOrder.lt_iff.mpr ⟨hle, h⟩

theorem lt_of_lt_of_le (h : a < b) (h' : b ≤ c) : a < c :=
  LawfulOrder.lt_iff.mpr ⟨le_trans (le_of_lt h) h', fun hca => not_le_of_lt h (le_trans h' hca)⟩

theorem lt_of_le_of_lt (h : a ≤ b) (h' : b < c) : a < c :=
  LawfulOrder.lt_iff.mpr ⟨le_trans h (le_of_lt h'), fun hca => not_le_of_lt h' (le_trans hca h)⟩

theorem lt_trans (h : a < b) (h' : b < c) : a < c := lt_of_lt_of_le h (le_of_lt h')

/-- The lesser of two numbers is at most as great as a third just when one of them is; what is no
number counts for nothing. -/
theorem lesser_le_iff : lesser a b ≤ c ↔ a ≤ c ∨ b ≤ c := by
  unfold lesser
  by_cases hlt : b < a ∨ ¬ a ≤ a
  · rw [if_pos hlt]
    refine ⟨.inr, fun h => h.elim (fun hac => ?_) id⟩
    rcases hlt with hlt | hself
    · exact le_trans (le_of_lt hlt) hac
    · exact absurd (IsNumber.left hac) hself
  · rw [if_neg hlt]
    obtain ⟨hnot, hself⟩ := not_or.mp hlt
    have ha : IsNumber a := Classical.byContradiction hself
    refine ⟨.inl, fun h => h.elim id fun hbc => ?_⟩
    exact le_trans (le_of_not_lt (IsNumber.left hbc) ha hnot) hbc

/-- A number is at most as great as the greater of two just when it is so for one of them; what is
no number counts for nothing. -/
theorem le_greater_iff : c ≤ greater a b ↔ c ≤ a ∨ c ≤ b := by
  unfold greater
  by_cases hlt : a < b ∨ ¬ a ≤ a
  · rw [if_pos hlt]
    refine ⟨.inr, fun h => h.elim (fun hca => ?_) id⟩
    rcases hlt with hlt | hself
    · exact le_trans hca (le_of_lt hlt)
    · exact absurd (IsNumber.right hca) hself
  · rw [if_neg hlt]
    obtain ⟨hnot, hself⟩ := not_or.mp hlt
    have ha : IsNumber a := Classical.byContradiction hself
    refine ⟨.inl, fun h => h.elim id fun hcb => ?_⟩
    exact le_trans hcb (le_of_not_lt ha (IsNumber.right hcb) hnot)

theorem foldl_lesser_le_iff {as : List α} : as.foldl lesser a ≤ c ↔ ∃ x ∈ a :: as, x ≤ c := by
  induction as generalizing a with
  | nil => simp
  | cons b rest ih => simp [ih, lesser_le_iff, or_assoc]

theorem le_foldl_greater_iff {as : List α} : c ≤ as.foldl greater a ↔ ∃ x ∈ a :: as, c ≤ x := by
  induction as generalizing a with
  | nil => simp
  | cons b rest ih => simp [ih, le_greater_iff, or_assoc]

end Order

end Scalar
end RoadAudit
