import Mathlib.Tactic
import RoadAudit.Proofs.Numeric.RealScalar

/-! # Exact scalars

Scalars may stand for real numbers and be added, subtracted, multiplied, divided and compared as
those are. Nothing is assumed of their angles, roots and remainders: what is proved of such scalars
does not depend on how those are computed. -/

namespace RoadAudit
namespace Scalar

open scoped Scalar

/-- Scalars whose four operations and order are those of the real numbers they stand for. -/
class Exact (α : Type) [Scalar α] where
  value : α → ℝ
  value_ofNat : ∀ n : ℕ, value (ofNat n) = n
  value_add : ∀ a b : α, value (a + b) = value a + value b
  value_sub : ∀ a b : α, value (a - b) = value a - value b
  value_mul : ∀ a b : α, value (a * b) = value a * value b
  value_div : ∀ a b : α, value (a / b) = value a / value b
  le_iff : ∀ a b : α, a ≤ b ↔ value a ≤ value b
  lt_iff : ∀ a b : α, a < b ↔ value a < value b

noncomputable instance : Exact ℝ where
  value := id
  value_ofNat _ := rfl
  value_add _ _ := rfl
  value_sub _ _ := rfl
  value_mul _ _ := rfl
  value_div _ _ := rfl
  le_iff _ _ := Iff.rfl
  lt_iff _ _ := Iff.rfl

namespace Exact

variable {α : Type} [Scalar α] [Exact α] {a b : α}

theorem isNumber (a : α) : IsNumber a := (le_iff a a).mpr le_rfl

instance : LawfulOrder α where
  number_of_le _ := ⟨isNumber _, isNumber _⟩
  total := by
    intro a b _ _
    rw [le_iff a b, le_iff b a]
    exact le_total _ _
  trans := by
    intro a b c h h'
    rw [le_iff] at *
    exact h.trans h'
  lt_iff := by
    intro a b
    rw [lt_iff, le_iff a b, le_iff b a]
    exact lt_iff_le_not_ge

@[simp] theorem value_zero : value (0 : α) = 0 := (value_ofNat 0).trans Nat.cast_zero

@[simp] theorem value_one : value (1 : α) = 1 := (value_ofNat 1).trans Nat.cast_one

theorem same_iff : same a b = true ↔ value a = value b := by
  rw [same, Bool.and_eq_true, decide_eq_true_eq, decide_eq_true_eq, le_iff a b, le_iff b a,
    le_antisymm_iff]

theorem value_lesser (a b : α) : value (lesser a b) = min (value a) (value b) := by
  have hself : a ≤ a := isNumber a
  unfold lesser
  by_cases h : b < a
  · rw [if_pos (.inl h), min_eq_right ((lt_iff b a).mp h).le]
  · rw [if_neg (not_or.mpr ⟨h, not_not.mpr hself⟩)]
    rw [lt_iff, not_lt] at h
    exact (min_eq_left h).symm

theorem value_greater (a b : α) : value (greater a b) = max (value a) (value b) := by
  have hself : a ≤ a := isNumber a
  unfold greater
  by_cases h : a < b
  · rw [if_pos (.inl h), max_eq_right ((lt_iff a b).mp h).le]
  · rw [if_neg (not_or.mpr ⟨h, not_not.mpr hself⟩)]
    rw [lt_iff, not_lt] at h
    exact (max_eq_left h).symm

end Exact
end Scalar
end RoadAudit
