import Mathlib.Tactic
import RoadAudit.Barrier.Index
import RoadAudit.Geo.Plane
import RoadAudit.Proofs.Barrier.Segments
import RoadAudit.Proofs.Geo.Polyline
import RoadAudit.Proofs.Numeric.ExactScalar

/-! # Projections in exact arithmetic

In exact arithmetic, whatever the metres per degree of the plane are as long as they are not zero,
the way to the plane and back is the identity. So a projection between the ends of a segment is a
point of the segment, it lies in the box of its ends, and the segments under it are found whichever
way the polyline is walked. -/

namespace RoadAudit

open scoped Scalar

variable {α : Type} [Scalar α]

def TangentPlane.IsRegular (plane : TangentPlane α) : Prop :=
  Scalar.same plane.north 0 = false ∧ Scalar.same plane.east 0 = false

variable [Scalar.Exact α]

open Scalar.Exact

/-! ## Projections between the ends -/

/-- Whether a point is at a share of the way from `a` to `b`. -/
structure IsAtShare (t : ℝ) (a b p : Point α) : Prop where
  lat : value p.lat = value a.lat + t * (value b.lat - value a.lat)
  lon : value p.lon = value a.lon + t * (value b.lon - value a.lon)

theorem TangentPlane.IsRegular.value_ne_zero {plane : TangentPlane α} (h : plane.IsRegular) :
    value plane.north ≠ 0 ∧ value plane.east ≠ 0 := by
  obtain ⟨hnorth, heast⟩ := h
  rw [← Bool.not_eq_true, Scalar.Exact.same_iff, value_zero] at hnorth heast
  exact ⟨hnorth, heast⟩

theorem isAtShare_ofOffset {plane : TangentPlane α} (h : plane.IsRegular) (a b : Point α) (t : α) :
    IsAtShare (value t) a b (plane.ofOffset
      ⟨(plane.toOffset a).east + t * ((plane.toOffset b).east - (plane.toOffset a).east),
        (plane.toOffset a).north + t * ((plane.toOffset b).north - (plane.toOffset a).north)⟩) := by
  obtain ⟨hnorth, heast⟩ := h.value_ne_zero
  constructor
  · simp only [TangentPlane.ofOffset, TangentPlane.toOffset, value_add, value_sub, value_mul,
      value_div]
    field_simp
    ring
  · simp only [TangentPlane.ofOffset, TangentPlane.toOffset, value_add, value_sub, value_mul,
      value_div]
    field_simp
    ring

theorem isAtShare_of_project {plane : TangentPlane α} (h : plane.IsRegular) {p a b q : Point α}
    {t : α} (hproject : plane.project p a b = ⟨t, q⟩) (hstart : ¬ t ≤ 0) (hstop : ¬ 1 ≤ t) :
    IsAtShare (value t) a b q := by
  unfold TangentPlane.project at hproject
  dsimp only at hproject
  split at hproject
  case isTrue =>
    obtain ⟨rfl, -⟩ := Projection.mk.inj hproject
    exact absurd (isNumber 0) hstart
  case isFalse =>
    split at hproject
    case isTrue hzero =>
      obtain ⟨rfl, -⟩ := Projection.mk.inj hproject
      exact absurd (of_decide_eq_true (Bool.and_eq_true_iff.mp hzero).1) hstart
    case isFalse =>
      split at hproject
      case isTrue hone =>
        obtain ⟨rfl, -⟩ := Projection.mk.inj hproject
        exact absurd (of_decide_eq_true (Bool.and_eq_true_iff.mp hone).2) hstop
      case isFalse =>
        obtain ⟨rfl, rfl⟩ := Projection.mk.inj hproject
        exact isAtShare_ofOffset h a b _

/-! ## Boxes -/

variable {t : ℝ} {a b p : Point α}

theorem isBetween_iff_value {x u v : α} :
    isBetween x u v = true ↔ value x ∈ Set.uIcc (value u) (value v) := by
  unfold isBetween
  by_cases h : u < v
  · rw [if_pos h, Bool.and_eq_true, decide_eq_true_eq, decide_eq_true_eq, le_iff u x, le_iff x v,
      Set.uIcc_of_lt ((lt_iff u v).mp h)]
    exact Iff.rfl
  · have hle : value v ≤ value u := not_lt.mp fun hlt => h ((lt_iff u v).mpr hlt)
    rw [if_neg h, Bool.and_eq_true, decide_eq_true_eq, decide_eq_true_eq, le_iff v x, le_iff x u,
      Set.uIcc_of_ge hle]
    exact Iff.rfl

theorem inBox_iff_value :
    inBox p a b = true ↔ value p.lon ∈ Set.uIcc (value a.lon) (value b.lon) ∧
      value p.lat ∈ Set.uIcc (value a.lat) (value b.lat) := by
  rw [inBox, Bool.and_eq_true, isBetween_iff_value, isBetween_iff_value]

theorem inBox_comm (h : inBox p a b = true) : inBox p b a = true := by
  rw [inBox_iff_value] at *
  rwa [Set.uIcc_comm (value b.lon), Set.uIcc_comm (value b.lat)]

/-- On the way from one corner of a box to the opposite one, no point is outside. -/
theorem IsAtShare.inBox (h : IsAtShare t a b p) (h₀ : 0 ≤ t) (h₁ : t ≤ 1) :
    inBox p a b = true :=
  inBox_iff_value.mpr ⟨mem_uIcc_iff_share.mpr ⟨t, h₀, h₁, h.lon⟩,
    mem_uIcc_iff_share.mpr ⟨t, h₀, h₁, h.lat⟩⟩

theorem value_boxSlack_pos : 0 < value (boxSlack : α) := by
  have hwhole : value (Scalar.ofNat 10000000 : α) = 10000000 := by
    rw [value_ofNat, Nat.cast_ofNat]
  rw [boxSlack, value_div, value_one]
  change 0 < 1 / value (Scalar.ofNat 10000000 : α)
  rw [hwhole]
  norm_num

theorem lesser_sub_boxSlack_le {x u v : α} (h : value x ∈ Set.uIcc (value u) (value v)) :
    Scalar.lesser u v - boxSlack ≤ x := by
  rw [le_iff, value_sub, value_lesser]
  have hpos : 0 < value (boxSlack : α) := value_boxSlack_pos
  linarith [h.1]

theorem le_greater_add_boxSlack {x u v : α} (h : value x ∈ Set.uIcc (value u) (value v)) :
    x ≤ Scalar.greater u v + boxSlack := by
  rw [le_iff, value_add, value_greater]
  have hpos : 0 < value (boxSlack : α) := value_boxSlack_pos
  linarith [h.2]

theorem inWidenedBox_of_inBox (h : inBox p a b = true) : inWidenedBox p a b = true := by
  obtain ⟨hlon, hlat⟩ := inBox_iff_value.mp h
  simp [inWidenedBox, lesser_sub_boxSlack_le hlon, le_greater_add_boxSlack hlon,
    lesser_sub_boxSlack_le hlat, le_greater_add_boxSlack hlat]

/-! ## Segments -/

theorem exists_segmentUnder {course : List (Point α)} {i : Nat} (ha : course[i]? = some a)
    (hb : course[i + 1]? = some b) (hbox : inBox p a b = true) :
    (∃ j, segmentUnder? course p = some j) ∧ ∃ j, segmentUnder? course.reverse p = some j := by
  have hmem : (a, b) ∈ segments course :=
    List.mem_of_getElem? (getElem?_segments_eq_some_iff.mpr ⟨ha, hb⟩)
  constructor
  · refine Option.ne_none_iff_exists'.mp fun hnone => ?_
    rw [segmentUnder?_eq_none_iff] at hnone
    cases (hnone (a, b) hmem).symm.trans (inWidenedBox_of_inBox hbox)
  · refine Option.ne_none_iff_exists'.mp fun hnone => ?_
    rw [segmentUnder?_eq_none_iff, segments_reverse] at hnone
    have hmem' : (b, a) ∈ ((segments course).map Prod.swap).reverse :=
      List.mem_reverse.mpr (List.mem_map.mpr ⟨(a, b), hmem, rfl⟩)
    cases (hnone (b, a) hmem').symm.trans (inWidenedBox_of_inBox (inBox_comm hbox))

end RoadAudit
