import Mathlib.Tactic
import RoadAudit.Proofs.Barrier.Segments
import RoadAudit.Proofs.Geo.Projection

/-! # The nearest point of a segment

In exact arithmetic a projection is what its name says. Along a segment the squared distance from a
point is a parabola in the share of the way, with its vertex at the foot of the perpendicular, so
the foot clamped to the segment is the one nearest point; and the way back from the plane leads to
the point at that share of the way on the globe. -/

namespace RoadAudit

open scoped Scalar

noncomputable def TangentPlane.distanceSquared (plane : TangentPlane ℝ) (p q : Point ℝ) : ℝ :=
  ((plane.toOffset q).east - (plane.toOffset p).east) ^ 2
    + ((plane.toOffset q).north - (plane.toOffset p).north) ^ 2

noncomputable def TangentPlane.distance (plane : TangentPlane ℝ) (p q : Point ℝ) : ℝ :=
  √(plane.distanceSquared p q)

noncomputable def TangentPlane.foot (plane : TangentPlane ℝ) (p a b : Point ℝ) : ℝ :=
  (((plane.toOffset p).east - (plane.toOffset a).east)
        * ((plane.toOffset b).east - (plane.toOffset a).east)
      + ((plane.toOffset p).north - (plane.toOffset a).north)
        * ((plane.toOffset b).north - (plane.toOffset a).north))
    / plane.distanceSquared a b

variable {plane : TangentPlane ℝ} {p a b : Point ℝ} {s t x : ℝ}

/-! ## Shares of the way -/

theorem along_zero : along a b 0 = a := by
  simp [along]

theorem IsAtShare.eq_along {q : Point ℝ} (h : IsAtShare t a b q) : q = along a b t := by
  cases q
  exact congrArg₂ Point.mk h.lat h.lon

/-! ## The parabola and its vertex -/

theorem distanceSquared_along_sub (h : plane.distanceSquared a b ≠ 0) (p : Point ℝ) (s t : ℝ) :
    plane.distanceSquared p (along a b s) - plane.distanceSquared p (along a b t) =
      plane.distanceSquared a b
        * ((s - plane.foot p a b) ^ 2 - (t - plane.foot p a b) ^ 2) := by
  have hfoot : plane.distanceSquared a b * plane.foot p a b =
      ((plane.toOffset p).east - (plane.toOffset a).east)
          * ((plane.toOffset b).east - (plane.toOffset a).east)
        + ((plane.toOffset p).north - (plane.toOffset a).north)
          * ((plane.toOffset b).north - (plane.toOffset a).north) :=
    mul_div_cancel₀ _ h
  have hsquares : plane.distanceSquared a b
      * ((s - plane.foot p a b) ^ 2 - (t - plane.foot p a b) ^ 2) =
      (s ^ 2 - t ^ 2) * plane.distanceSquared a b
        - 2 * (s - t) * (plane.distanceSquared a b * plane.foot p a b) := by
    ring
  rw [hsquares, hfoot]
  simp only [TangentPlane.distanceSquared, TangentPlane.toOffset, along]
  ring

theorem sq_clamped_sub_lt (hs₀ : 0 ≤ s) (hs₁ : s ≤ 1) (hne : s ≠ max 0 (min 1 x)) :
    (max 0 (min 1 x) - x) ^ 2 < (s - x) ^ 2 := by
  rcases le_total x 0 with hlow | hlow
  · rw [min_eq_right (hlow.trans zero_le_one), max_eq_left hlow] at *
    have hs : 0 < s := lt_of_le_of_ne hs₀ hne.symm
    nlinarith
  · rcases le_total 1 x with hhigh | hhigh
    · rw [min_eq_left hhigh, max_eq_right zero_le_one] at *
      have hs : s < 1 := lt_of_le_of_ne hs₁ hne
      nlinarith
    · rw [min_eq_right hhigh, max_eq_right hlow] at *
      rw [sub_self, zero_pow two_ne_zero]
      exact sq_pos_of_ne_zero (sub_ne_zero.mpr hne)

/-- So the point of a segment at the clamped foot is nearer than every other one. -/
theorem distance_clamped_lt (h : 0 < plane.distanceSquared a b) (hs₀ : 0 ≤ s) (hs₁ : s ≤ 1)
    (hne : s ≠ max 0 (min 1 (plane.foot p a b))) :
    plane.distance p (along a b (max 0 (min 1 (plane.foot p a b))))
      < plane.distance p (along a b s) := by
  refine Real.sqrt_lt_sqrt (add_nonneg (sq_nonneg _) (sq_nonneg _)) (sub_pos.mp ?_)
  rw [distanceSquared_along_sub h.ne']
  exact mul_pos h (sub_pos.mpr (sq_clamped_sub_lt hs₀ hs₁ hne))

/-! ## Projections -/

theorem isRegular_real (hnorth : plane.north ≠ 0) (heast : plane.east ≠ 0) : plane.IsRegular := by
  have hne : ∀ {y : ℝ}, y ≠ 0 → Scalar.same y (Scalar.ofNat 0) = false := by
    intro y hy
    rw [← Bool.not_eq_true, Scalar.Exact.same_iff]
    exact fun hzero => hy (hzero.trans Nat.cast_zero)
  exact ⟨hne hnorth, hne heast⟩

theorem clamp_real (x : ℝ) : Scalar.clamp 0 1 x = max 0 (min 1 x) := by
  rw [Scalar.clamp]
  split
  case isTrue hlow => rw [min_eq_right (hlow.le.trans zero_le_one), max_eq_left hlow.le]
  case isFalse hlow =>
    split
    case isTrue hhigh => rw [min_eq_left hhigh.le, max_eq_right zero_le_one]
    case isFalse hhigh => rw [min_eq_right (not_lt.mp hhigh), max_eq_right (not_lt.mp hlow)]

theorem spacing_real : (Scalar.spacing : ℝ) = 2 ^ (-52 : ℤ) := by
  change ((1 : ℕ) : ℝ) / ((4503599627370496 : ℕ) : ℝ) = 2 ^ (-52 : ℤ)
  norm_num

theorem project_eq (hplane : plane.IsRegular) (p : Point ℝ)
    (hlong : 2 ^ (-52 : ℤ) < plane.distanceSquared a b) :
    plane.project p a b = ⟨max 0 (min 1 (plane.foot p a b)),
      along a b (max 0 (min 1 (plane.foot p a b)))⟩ := by
  have hlength : plane.distanceSquared a b =
      ((plane.toOffset b).east - (plane.toOffset a).east)
          * ((plane.toOffset b).east - (plane.toOffset a).east)
        + ((plane.toOffset b).north - (plane.toOffset a).north)
          * ((plane.toOffset b).north - (plane.toOffset a).north) := by
    rw [TangentPlane.distanceSquared, pow_two, pow_two]
  unfold TangentPlane.project
  dsimp only
  rw [← hlength, if_neg (not_le.mpr (spacing_real ▸ hlong)), ← TangentPlane.foot]
  simp only [Scalar.ofNat_real, Nat.cast_zero, Nat.cast_one, clamp_real]
  generalize max 0 (min 1 (plane.foot p a b)) = t
  split
  case isTrue hzero =>
    rw [Scalar.Exact.same_iff] at hzero
    have ht : t = 0 := hzero
    rw [ht, along_zero]
  case isFalse =>
    split
    case isTrue hone =>
      rw [Scalar.Exact.same_iff] at hone
      have ht : t = 1 := hone
      rw [ht, along_one]
    case isFalse => exact congrArg (Projection.mk t) (isAtShare_ofOffset hplane a b t).eq_along

/-- On a segment that is not negligible, a projection gives a share of the way and the point there,
which is nearer to the projected point than every other one of the segment, in the metric of the
plane. The share is zero just for the start of the segment and one just for its end. -/
theorem project_nearest (hnorth : plane.north ≠ 0) (heast : plane.east ≠ 0) (p : Point ℝ)
    (hlong : 2 ^ (-52 : ℤ) < plane.distanceSquared a b) :
    let q := plane.project p a b
    q.t ∈ Set.Icc 0 1 ∧ q.point = along a b q.t ∧
    (∀ s ∈ Set.Icc (0 : ℝ) 1, s ≠ q.t →
      plane.distance p q.point < plane.distance p (along a b s)) ∧
    (q.t = 0 ↔ q.point = a) ∧ (q.t = 1 ↔ q.point = b) := by
  intro q
  have hq : q = ⟨_, _⟩ := project_eq (isRegular_real hnorth heast) p hlong
  have hpos : 0 < plane.distanceSquared a b := lt_trans (by positivity) hlong
  have hends : a ≠ b := by
    rintro rfl
    simp [TangentPlane.distanceSquared] at hpos
  have hinjective : ∀ s t, along a b s = along a b t ↔ s = t := fun s t =>
    (along_injective hends).eq_iff
  rw [hq]
  refine ⟨⟨le_max_left _ _, max_le zero_le_one (min_le_left _ _)⟩, rfl,
    fun s hs hne => distance_clamped_lt hpos hs.1 hs.2 hne, ?_, ?_⟩
  · rw [← hinjective, along_zero]
  · rw [← hinjective, along_one]

/-- A plane in which a degree of latitude is twice as long as one of longitude. -/
noncomputable def stretchedPlane : TangentPlane ℝ := ⟨⟨0, 0⟩, 2, 1⟩

/-- There the point due north of the start of a diagonal projects four fifths of the way along. -/
theorem project_nearest_stretchedPlane :
    stretchedPlane.north ≠ 0 ∧ stretchedPlane.east ≠ 0 ∧
    2 ^ (-52 : ℤ) < stretchedPlane.distanceSquared ⟨0, 0⟩ ⟨1, 1⟩ ∧
    (stretchedPlane.project ⟨1, 0⟩ ⟨0, 0⟩ ⟨1, 1⟩).t = 4 / 5 ∧
    ∀ s ∈ Set.Icc (0 : ℝ) 1, s ≠ 4 / 5 →
      stretchedPlane.distance ⟨1, 0⟩ (along ⟨0, 0⟩ ⟨1, 1⟩ (4 / 5))
        < stretchedPlane.distance ⟨1, 0⟩ (along ⟨0, 0⟩ ⟨1, 1⟩ s) := by
  have hnorth : stretchedPlane.north ≠ 0 := by norm_num [stretchedPlane]
  have heast : stretchedPlane.east ≠ 0 := by norm_num [stretchedPlane]
  have hsquared : stretchedPlane.distanceSquared ⟨0, 0⟩ ⟨1, 1⟩ = 5 := by
    norm_num [stretchedPlane, TangentPlane.distanceSquared, TangentPlane.toOffset]
  have hlong : 2 ^ (-52 : ℤ) < stretchedPlane.distanceSquared ⟨0, 0⟩ ⟨1, 1⟩ := by
    rw [hsquared]
    norm_num
  have hfoot : stretchedPlane.foot ⟨1, 0⟩ ⟨0, 0⟩ ⟨1, 1⟩ = 4 / 5 := by
    rw [TangentPlane.foot, hsquared]
    norm_num [stretchedPlane, TangentPlane.toOffset]
  have hshare : (stretchedPlane.project ⟨1, 0⟩ ⟨0, 0⟩ ⟨1, 1⟩).t = 4 / 5 := by
    rw [project_eq (isRegular_real hnorth heast) _ hlong, hfoot]
    norm_num
  obtain ⟨-, hpoint, hnearest, -, -⟩ := project_nearest hnorth heast ⟨1, 0⟩ hlong
  rw [hpoint, hshare] at hnearest
  exact ⟨hnorth, heast, hlong, hshare, hnearest⟩

end RoadAudit
