import Mathlib.Analysis.SpecialFunctions.Complex.Arg
import Mathlib.Tactic
import RoadAudit.Geo.Plane
import RoadAudit.Proofs.Numeric.RealScalar

/-! # Measuring along a meridian

In exact arithmetic, what the haversine formula gives for two points of one meridian is the arc
between them, and a point that lies before a segment projects to its start. -/

namespace RoadAudit

open scoped Scalar

theorem radians_real (x : ℝ) : Scalar.radians x = x * (Real.pi / 180) := by
  change x * (Real.pi / ((180 : ℕ) : ℝ)) = x * (Real.pi / 180)
  norm_num

noncomputable def halfChordSquared (p q : Point ℝ) : ℝ :=
  Real.sin (Scalar.radians (q.lat - p.lat) / 2) ^ 2
    + Real.cos (Scalar.radians p.lat) * Real.cos (Scalar.radians q.lat)
      * Real.sin (Scalar.radians (q.lon - p.lon) / 2) ^ 2

theorem haversine_real (p q : Point ℝ) :
    haversine p q = 6371000 *
      (2 * Complex.arg ⟨√(1 - halfChordSquared p q), √(halfChordSquared p q)⟩) := by
  have hchord : halfChordSquared p q =
      Scalar.square (Scalar.sin (Scalar.radians (q.lat - p.lat) / ((2 : ℕ) : ℝ)))
        + Scalar.cos (Scalar.radians p.lat) * Scalar.cos (Scalar.radians q.lat)
          * Scalar.square (Scalar.sin (Scalar.radians (q.lon - p.lon) / ((2 : ℕ) : ℝ))) := by
    rw [halfChordSquared, Scalar.square, Scalar.square, ← pow_two, ← pow_two, Nat.cast_ofNat]
    rfl
  have hhaversine : haversine p q = ((6371000 : ℕ) : ℝ) * (((2 : ℕ) : ℝ) *
      Complex.arg ⟨√(((1 : ℕ) : ℝ) - halfChordSquared p q), √(halfChordSquared p q)⟩) := by
    rw [hchord]
    rfl
  rw [hhaversine, Nat.cast_ofNat, Nat.cast_ofNat, Nat.cast_one]

theorem haversine_north {a b : ℝ} (lon : ℝ) (hab : a ≤ b) (hpole : b - a ≤ 180) :
    haversine ⟨a, lon⟩ ⟨b, lon⟩ = 6371000 * Scalar.radians (b - a) := by
  have hpi := Real.pi_pos
  have hnonneg : 0 ≤ Scalar.radians (b - a) := by
    rw [radians_real]
    exact mul_nonneg (sub_nonneg.mpr hab) (by positivity)
  have hle : Scalar.radians (b - a) ≤ Real.pi := by
    rw [radians_real]
    nlinarith
  have hsin : 0 ≤ Real.sin (Scalar.radians (b - a) / 2) :=
    Real.sin_nonneg_of_nonneg_of_le_pi (by linarith) (by linarith)
  have hcos : 0 ≤ Real.cos (Scalar.radians (b - a) / 2) :=
    Real.cos_nonneg_of_neg_pi_div_two_le_of_le (by linarith) (by linarith)
  have hchord : halfChordSquared ⟨a, lon⟩ ⟨b, lon⟩ = Real.sin (Scalar.radians (b - a) / 2) ^ 2 := by
    have hzero : Scalar.radians (lon - lon) = 0 := by rw [radians_real, sub_self, zero_mul]
    rw [halfChordSquared, hzero, zero_div, Real.sin_zero]
    ring
  have hangle : (⟨Real.cos (Scalar.radians (b - a) / 2), Real.sin (Scalar.radians (b - a) / 2)⟩ : ℂ)
      = Complex.cos ↑(Scalar.radians (b - a) / 2)
        + Complex.sin ↑(Scalar.radians (b - a) / 2) * Complex.I := by
    rw [← Complex.ofReal_cos, ← Complex.ofReal_sin, Complex.mk_eq_add_mul_I]
  rw [haversine_real, hchord, Real.sqrt_sq hsin, ← Real.cos_sq', Real.sqrt_sq hcos, hangle,
    Complex.arg_cos_add_sin_mul_I ⟨by linarith, by linarith⟩]
  ring

theorem same_clamp_zero {x : ℝ} (h : x ≤ 0) :
    Scalar.same (Scalar.clamp (Scalar.ofNat 0) (Scalar.ofNat 1) x) (Scalar.ofNat 0 : ℝ) = true := by
  have hzero : (Scalar.ofNat 0 : ℝ) = 0 := Nat.cast_zero
  have hone : (Scalar.ofNat 1 : ℝ) = 1 := Nat.cast_one
  rw [hzero, hone, Scalar.clamp]
  by_cases hneg : x < 0
  · rw [if_pos hneg]
    simp [Scalar.same]
  · rw [if_neg hneg, if_neg (by linarith)]
    simpa [Scalar.same] using ⟨h, not_lt.mp hneg⟩

theorem project_before (plane : TangentPlane ℝ) (p a b : Point ℝ)
    (h : ((plane.toOffset p).east - (plane.toOffset a).east)
          * ((plane.toOffset b).east - (plane.toOffset a).east)
        + ((plane.toOffset p).north - (plane.toOffset a).north)
          * ((plane.toOffset b).north - (plane.toOffset a).north) ≤ 0) :
    ∃ t : ℝ, t ≤ Scalar.ofNat 0 ∧ plane.project p a b = ⟨t, a⟩ := by
  unfold TangentPlane.project
  dsimp only
  split
  case isTrue => exact ⟨_, le_rfl, rfl⟩
  case isFalse =>
    split
    case isTrue hsame => exact ⟨_, of_decide_eq_true (Bool.and_eq_true_iff.mp hsame).1, rfl⟩
    case isFalse hne =>
      have hlength : ∀ x y : ℝ, 0 ≤ x * x + y * y := fun x y =>
        add_nonneg (mul_self_nonneg x) (mul_self_nonneg y)
      exact absurd (same_clamp_zero (div_nonpos_of_nonpos_of_nonneg h (hlength _ _))) hne

theorem project_end (plane : TangentPlane ℝ) (a b : Point ℝ)
    (h : Scalar.spacing < ((plane.toOffset b).east - (plane.toOffset a).east)
          * ((plane.toOffset b).east - (plane.toOffset a).east)
        + ((plane.toOffset b).north - (plane.toOffset a).north)
          * ((plane.toOffset b).north - (plane.toOffset a).north)) :
    plane.project b a b = ⟨Scalar.ofNat 1, b⟩ := by
  have hzero : (Scalar.ofNat 0 : ℝ) = 0 := Nat.cast_zero
  have hone : (Scalar.ofNat 1 : ℝ) = 1 := Nat.cast_one
  have hspacing : (0 : ℝ) < Scalar.spacing := by
    change 0 < ((1 : ℕ) : ℝ) / ((4503599627370496 : ℕ) : ℝ)
    positivity
  have hclamp : Scalar.clamp (Scalar.ofNat 0) (Scalar.ofNat 1) (1 : ℝ) = Scalar.ofNat 1 := by
    rw [hzero, hone, Scalar.clamp, if_neg (by norm_num), if_neg (lt_irrefl 1)]
  unfold TangentPlane.project
  dsimp only
  rw [if_neg (not_le.mpr h), div_self (hspacing.trans h).ne']
  split
  case isTrue hsame =>
    have hle : Scalar.clamp (Scalar.ofNat 0) (Scalar.ofNat 1) (1 : ℝ) ≤ Scalar.ofNat 0 :=
      of_decide_eq_true (Bool.and_eq_true_iff.mp hsame).1
    rw [hclamp, hzero, hone] at hle
    norm_num at hle
  case isFalse =>
    split
    case isTrue => exact congrArg (Projection.mk · b) hclamp
    case isFalse hne =>
      have hsame : Scalar.same (Scalar.clamp (Scalar.ofNat 0) (Scalar.ofNat 1) (1 : ℝ))
          (Scalar.ofNat 1) = true := by
        simp [hclamp, Scalar.same]
      exact absurd hsame hne

end RoadAudit
