import RoadAudit.Proofs.Numeric.ExactValue
import RoadAudit.Proofs.Numeric.QuotientOrder

/-! # Truncation

The integer that a finite binary64 number is truncated to is the real number that it stands for
without its fraction, unless that is beyond the bound at which integers are cut. An infinity is
truncated to that bound, and a NaN to zero. -/

namespace RoadAudit

/-- A real number without its fraction. -/
noncomputable def towardZero (r : ℝ) : ℤ := if r < 0 then ⌈r⌉ else ⌊r⌋

theorem towardZero_of_nonneg {r : ℝ} (h : 0 ≤ r) : towardZero r = ⌊r⌋₊ := by
  rw [towardZero, if_neg h.not_gt, Int.natCast_floor_eq_floor h]

theorem towardZero_neg (r : ℝ) : towardZero (-r) = -towardZero r := by
  unfold towardZero
  rcases lt_trichotomy r 0 with h | rfl | h
  · rw [if_neg (not_lt.mpr (neg_pos.mpr h).le), if_pos h, Int.floor_neg]
  · simp
  · rw [if_pos (neg_lt_zero.mpr h), if_neg h.le.not_gt, Int.ceil_neg]

namespace Binary64

open Float.Model

variable {x : Float}

theorem ofFloat_of_isNaN (hx : x.isNaN) : ofFloat x = .nan := by
  have hnan : x.toModel.unpack.isNaN = true := hx
  rw [ofFloat_eq]
  generalize x.toModel.unpack = u at hnan
  cases u with
  | notANumber => rfl
  | infinity s => cases hnan
  | zero s => cases hnan
  | finite s m e h => cases hnan

theorem ofFloat_of_isInf (hx : x.isInf) : ofFloat x = .infinite (!decide (0 < x)) := by
  have hinf : x.toModel.unpack.isInf = true := hx
  have hzero : (0 : Float).toModel.unpack = .zero .positive := rfl
  have hlt : 0 < x ↔ (UnpackedFloat.zero .positive).lt x.toModel.unpack = true := decide_eq_true_iff
  simp only [ofFloat_eq, hlt]
  generalize x.toModel.unpack = u at hinf
  cases u with
  | infinity s => cases s <;> rfl
  | notANumber => cases hinf
  | zero s => cases hinf
  | finite s m e h => cases hinf

theorem isFinite_of_not_isNaN (hnan : ¬ x.isNaN) (hinf : ¬ x.isInf) : x.isFinite := by
  change ¬ x.toModel.unpack.isNaN = true at hnan
  change ¬ x.toModel.unpack.isInf = true at hinf
  change x.toModel.unpack.isFinite = true
  generalize x.toModel.unpack = u at *
  cases u with
  | notANumber => exact absurd rfl hnan
  | infinity s => exact absurd rfl hinf
  | zero s => rfl
  | finite s m e h => rfl

theorem truncate_of_isNaN (hx : x.isNaN) : truncate x = 0 := by
  rw [truncate, ofFloat_of_isNaN hx]

theorem truncate_of_isInf (hx : x.isInf) :
    truncate x = if 0 < x then integerLimit else -integerLimit := by
  rw [truncate, ofFloat_of_isInf hx]
  by_cases hpos : 0 < x <;> simp [hpos]

theorem truncate_of_isFinite (hx : x.isFinite) :
    truncate x = max (-integerLimit) (min integerLimit (towardZero (realOf x))) := by
  obtain ⟨s, m, e, hparts⟩ := ofFloat_of_isFinite hx
  have hnonneg : (0 : ℝ) ≤ m * 2 ^ e := by positivity
  have hwhole := min_whole_eq m e
  rw [truncate, realOf, hparts]
  dsimp only [value]
  generalize (if 0 ≤ e then m * twoPow (min e 64).toNat else m / twoPow (-e).toNat) = whole at *
  have hfloor := towardZero_of_nonneg hnonneg
  unfold integerLimit
  cases s with
  | false =>
    rw [if_neg Bool.false_ne_true, if_neg Bool.false_ne_true, one_mul, Nat.cast_ofNat, hfloor]
    omega
  | true =>
    rw [if_pos rfl, if_pos rfl, neg_one_mul, neg_mul, Nat.cast_ofNat, towardZero_neg, hfloor]
    omega

end Binary64
end RoadAudit
