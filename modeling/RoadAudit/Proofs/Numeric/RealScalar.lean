import Mathlib.Analysis.SpecialFunctions.Complex.Arg
import Mathlib.Analysis.SpecialFunctions.Trigonometric.Basic
import Mathlib.Tactic
import RoadAudit.Proofs.Numeric.Order

/-! # Exact arithmetic

The real numbers are scalars too: what is computed over them is computed without rounding, and
every law of the order and of lengths holds. -/

namespace RoadAudit

open scoped Scalar

noncomputable def truncatedRem (x y : ℝ) : ℝ :=
  if x / y < 0 then x - y * ⌈x / y⌉ else x - y * ⌊x / y⌋

noncomputable def roundAwayFromZero (x : ℝ) : ℤ :=
  if x < 0 then -⌊-x + 1 / 2⌋ else ⌊x + 1 / 2⌋

noncomputable instance : Scalar ℝ where
  toAdd := inferInstance
  toSub := inferInstance
  toMul := inferInstance
  toDiv := inferInstance
  toNeg := inferInstance
  toLT := inferInstance
  toLE := inferInstance
  decLt := fun a b => Classical.propDecidable (a < b)
  decLe := fun a b => Classical.propDecidable (a ≤ b)
  ofNat := fun n => (n : ℝ)
  pi := Real.pi
  sqrt := Real.sqrt
  sin := Real.sin
  cos := Real.cos
  atan2 := fun y x => Complex.arg ⟨x, y⟩
  rem := truncatedRem
  wholePart := fun x => ⌊x⌋₊
  nearestInt := roundAwayFromZero
  turn := fun ax ay bx by' cx cy => compare ((ax - cx) * (by' - cy)) ((ay - cy) * (bx - cx))

namespace Scalar

@[simp] theorem pi_real : (pi : ℝ) = Real.pi := rfl

@[simp] theorem sqrt_real (x : ℝ) : sqrt x = √x := rfl

@[simp] theorem sin_real (x : ℝ) : sin x = Real.sin x := rfl

@[simp] theorem cos_real (x : ℝ) : cos x = Real.cos x := rfl

@[simp] theorem atan2_real (y x : ℝ) : atan2 y x = Complex.arg ⟨x, y⟩ := rfl

theorem ofNat_real (n : ℕ) : @OfNat.ofNat ℝ n (Scalar.instOfNat n) = (n : ℝ) := rfl

theorem lesser_real (x y : ℝ) : lesser x y = min x y := by
  unfold lesser
  by_cases h : y < x
  · rw [if_pos (.inl h), min_eq_right h.le]
  · rw [if_neg, min_eq_left (not_lt.mp h)]
    rintro (hlt | hself)
    · exact h hlt
    · exact hself le_rfl

theorem greater_real (x y : ℝ) : greater x y = max x y := by
  unfold greater
  by_cases h : x < y
  · rw [if_pos (.inl h), max_eq_right h.le]
  · rw [if_neg, max_eq_left (not_lt.mp h)]
    rintro (hlt | hself)
    · exact h hlt
    · exact hself le_rfl

theorem isNumber_real (x : ℝ) : IsNumber x := le_rfl

end Scalar

instance : Scalar.LawfulOrder ℝ where
  number_of_le := fun {a b} _ => ⟨Scalar.isNumber_real a, Scalar.isNumber_real b⟩
  total := fun {a b} _ _ => le_total a b
  trans := fun h h' => le_trans h h'
  lt_iff := lt_iff_le_not_ge

instance : Scalar.LawfulLength ℝ where
  number_zero := Scalar.isNumber_real _
  le_add := by
    intro a c _ hc
    rw [Scalar.ofNat_real, Nat.cast_zero] at hc
    exact le_add_of_nonneg_right hc
  add_le_add := by
    intro a b c _ hab _
    exact add_le_add_left hab c

instance : Scalar.LawfulSum ℝ where
  number_of_add := fun {a b} _ => ⟨Scalar.isNumber_real a, Scalar.isNumber_real b⟩

instance : Scalar.LawfulRatio ℝ where
  div_lt_two := by
    intro d q _ hq hlt
    rw [Scalar.ofNat_real, Nat.cast_zero] at hq
    exact (div_lt_iff₀ hq).mpr hlt

instance : Scalar.LawfulShare ℝ where
  wholePart_div_le := by
    intro d d' w _ hle hw
    rw [Scalar.ofNat_real, Nat.cast_zero] at hw
    exact Nat.floor_le_floor (div_le_div_of_nonneg_right hle hw.le)

end RoadAudit
