import Mathlib.Analysis.Real.Pi.Bounds
import Mathlib.Tactic
import RoadAudit.Proofs.Audit.Failures
import RoadAudit.Proofs.Geo.Projection

/-! # No place is lost in exact arithmetic

The search by place takes a place from a plane, and the check looks by boxes for the segment under
it. In exact arithmetic the two agree as long as the plane is regular: the place is in the box of
the segment that the match names, so it is found again from both ends of the edge, and a node at
which the plane is regular can be checked. -/

namespace RoadAudit

open scoped Scalar

variable {α : Type} [Scalar α]

namespace RoadGraph

/-- Whether the place of a match between two points of a course is found again on the matched edge:
it is in the box of the segment that the match names, there is a segment under it from either end,
and every search for a route to it has an answer. -/
structure IsFoundAgain (g : RoadGraph α) (s : Snap α) : Prop where
  inBox : ∃ a b, (g.course s.edge.edge)[s.wayIndex]? = some a ∧
    (g.course s.edge.edge)[s.wayIndex + 1]? = some b ∧ inBox s.snapped a b = true
  forward : ∃ i, segmentUnder? (g.geometry s.edge) s.snapped = some i
  backward : ∃ i, segmentUnder? (g.geometry s.edge).reverse s.snapped = some i
  routed : ∀ limits m source, ∃ r, g.routeToPoint? limits m source s.edge s.snapped = some r

theorem isFoundAgain_of_mem_nearest [Scalar.Exact α] {g : RoadGraph α} {query : Point α}
    {radius : α} {s : Snap α} (hregular : query.tangentPlane.IsRegular)
    (hs : s ∈ g.nearest query radius) (hposition : s.position = .edge) : g.IsFoundAgain s := by
  obtain ⟨t, hstart, hstop, a, b, ha, hb, hproject⟩ := projectsTo_of_mem_nearest hs hposition
  have hshare := isAtShare_of_project hregular hproject hstart hstop
  have hpos : 0 < Scalar.Exact.value t := by
    rwa [Scalar.Exact.le_iff, Scalar.Exact.value_zero, not_le] at hstart
  have hlt : Scalar.Exact.value t < 1 := by
    rwa [Scalar.Exact.le_iff, Scalar.Exact.value_one, not_le] at hstop
  have hbox := hshare.inBox hpos.le hlt.le
  obtain ⟨hforward, hbackward⟩ := exists_segmentUnder ha hb hbox
  rw [← (fitsCourse_of_mem_nearest hs).geometry_eq] at hforward hbackward
  refine ⟨⟨a, b, ha, hb, hbox⟩, hforward, hbackward, fun limits m source => ?_⟩
  refine Option.ne_none_iff_exists'.mp fun hnone => ?_
  rcases AuditContext.routeToPoint?_eq_none_iff.mp hnone with hlost | hlost
  · exact Option.ne_none_iff_exists'.mpr hforward hlost
  · exact Option.ne_none_iff_exists'.mpr hbackward hlost

end RoadGraph

namespace AuditContext

open RoadGraph

theorem not_losesPlace {ctx : AuditContext α} {e : EdgeView α} {s : Snap α}
    (h : ctx.graph.IsFoundAgain s) : ¬ ctx.LosesPlace e s := by
  have hforward := Option.ne_none_iff_exists'.mpr h.forward
  have hbackward := Option.ne_none_iff_exists'.mpr h.backward
  rintro ⟨-, ⟨-, hlost⟩ | ⟨-, -, hlost | hlost⟩⟩
  · exact hforward hlost
  · exact hforward hlost
  · exact hbackward hlost

/-! ## A road across the origin -/

theorem project_t {plane : TangentPlane ℝ} {p a b : Point ℝ} {dx dy x y t : ℝ}
    (hdx : (plane.toOffset b).east - (plane.toOffset a).east = dx)
    (hdy : (plane.toOffset b).north - (plane.toOffset a).north = dy)
    (hx : (plane.toOffset p).east - (plane.toOffset a).east = x)
    (hy : (plane.toOffset p).north - (plane.toOffset a).north = y)
    (hlong : Scalar.spacing < dx * dx + dy * dy) (h₀ : 0 < t) (h₁ : t < 1)
    (hshare : (x * dx + y * dy) / (dx * dx + dy * dy) = t) : (plane.project p a b).t = t := by
  have hclamp : Scalar.clamp (Scalar.ofNat 0) (Scalar.ofNat 1) t = t := by
    change (if t < ((0 : ℕ) : ℝ) then _ else if ((1 : ℕ) : ℝ) < t then _ else t) = t
    rw [Nat.cast_zero, Nat.cast_one, if_neg h₀.not_gt, if_neg h₁.not_gt]
  unfold TangentPlane.project
  dsimp only
  rw [hdx, hdy, hx, hy, hshare, if_neg (not_le.mpr hlong)]
  split
  · exact hclamp
  · split
    · exact hclamp
    · exact hclamp

theorem tangentPlane_origin :
    ∃ n : ℝ, 1 < n ∧ (⟨0, 0⟩ : Point ℝ).tangentPlane = ⟨⟨0, 0⟩, n, n⟩ := by
  refine ⟨6371000 * (Real.pi / 180), by linarith [Real.pi_gt_three], ?_⟩
  have hearth : Scalar.radians (earthRadius : ℝ) = 6371000 * (Real.pi / 180) := by
    rw [radians_real, earthRadius, Scalar.ofNat_real]
  have hcos : Scalar.cos (Scalar.radians (0 : ℝ)) = 1 := by
    rw [radians_real, zero_mul, Scalar.cos_real, Real.cos_zero]
  rw [Point.tangentPlane, hearth, hcos, mul_one]

theorem isRegular_origin : (⟨0, 0⟩ : Point ℝ).tangentPlane.IsRegular := by
  obtain ⟨n, hn, hplane⟩ := tangentPlane_origin
  rw [hplane, TangentPlane.IsRegular, ← Bool.not_eq_true, Scalar.Exact.same_iff,
    Scalar.Exact.value_zero]
  have hne : n ≠ 0 := (one_pos.trans hn).ne'
  exact ⟨hne, hne⟩

/-- The origin projects to the middle of the segment from a degree south of it to a degree
north. -/
theorem project_t_origin :
    ((⟨0, 0⟩ : Point ℝ).tangentPlane.project ⟨0, 0⟩ ⟨-1, 0⟩ ⟨1, 0⟩).t = 1 / 2 := by
  obtain ⟨n, hn, hplane⟩ := tangentPlane_origin
  have hspacing : (Scalar.spacing : ℝ) < 1 := by
    change ((1 : ℕ) : ℝ) / ((4503599627370496 : ℕ) : ℝ) < 1
    norm_num
  rw [hplane]
  have heast : ∀ lat lat' : ℝ, ((⟨⟨0, 0⟩, n, n⟩ : TangentPlane ℝ).toOffset ⟨lat, 0⟩).east -
      ((⟨⟨0, 0⟩, n, n⟩ : TangentPlane ℝ).toOffset ⟨lat', 0⟩).east = 0 := fun _ _ => sub_self _
  have hnorth : ∀ lat lat' : ℝ, ((⟨⟨0, 0⟩, n, n⟩ : TangentPlane ℝ).toOffset ⟨lat, 0⟩).north -
      ((⟨⟨0, 0⟩, n, n⟩ : TangentPlane ℝ).toOffset ⟨lat', 0⟩).north = (lat - lat') * n := by
    intro lat lat'
    simp only [TangentPlane.toOffset]
    ring
  refine project_t (heast 1 (-1)) (hnorth 1 (-1)) (heast 0 (-1)) (hnorth 0 (-1)) ?_ (by norm_num)
    (by norm_num) ?_
  · nlinarith
  · have hne : n ≠ 0 := (one_pos.trans hn).ne'
    field_simp
    ring

theorem mem_segmentsNear_origin :
    meridianSegment (-1) 1 ∈ (meridianRoad (-1) 1).segmentsNear ⟨0, 0⟩ 15 meridianView := by
  obtain ⟨w, hw, haround⟩ := around_origin (r := 15) (by norm_num)
  refine List.mem_filter.mpr ⟨List.mem_singleton_self _, ?_⟩
  rw [haround]
  simp only [Box.meets, Box.ofSegment, meridianSegment, Scalar.lesser_real, Scalar.greater_real,
    Bool.and_eq_true, decide_eq_true_eq]
  norm_num
  exact hw

theorem half_inside : ¬ (1 / 2 : ℝ) ≤ Scalar.ofNat 0 ∧ ¬ Scalar.ofNat 1 ≤ (1 / 2 : ℝ) := by
  change ¬ (1 / 2 : ℝ) ≤ ((0 : ℕ) : ℝ) ∧ ¬ ((1 : ℕ) : ℝ) ≤ 1 / 2
  norm_num

theorem projectedDistance_origin :
    projectedDistance ⟨0, 0⟩ (meridianSegment (-1) 1) = 0 := by
  have hproject : (⟨0, 0⟩ : Point ℝ).tangentPlane.project ⟨0, 0⟩ ⟨-1, 0⟩ ⟨1, 0⟩ =
      ⟨1 / 2, ((⟨0, 0⟩ : Point ℝ).tangentPlane.project ⟨0, 0⟩ ⟨-1, 0⟩ ⟨1, 0⟩).point⟩ := by
    rw [← project_t_origin]
  obtain ⟨hlat, hlon⟩ :=
    isAtShare_of_project isRegular_origin hproject half_inside.1 half_inside.2
  have hpoint : ((⟨0, 0⟩ : Point ℝ).tangentPlane.project ⟨0, 0⟩ ⟨-1, 0⟩ ⟨1, 0⟩).point = ⟨0, 0⟩ := by
    generalize ((⟨0, 0⟩ : Point ℝ).tangentPlane.project ⟨0, 0⟩ ⟨-1, 0⟩ ⟨1, 0⟩).point = q at *
    obtain ⟨lat, lon⟩ := q
    change lat = -1 + 1 / 2 * (1 - -1) at hlat
    change lon = 0 + 1 / 2 * (0 - 0) at hlon
    rw [hlat, hlon]
    norm_num
  unfold projectedDistance meridianSegment
  rw [hpoint, haversine_north 0 le_rfl (by norm_num), sub_self, radians_real, zero_mul, mul_zero]

theorem exists_snap_origin :
    ∃ s ∈ (meridianRoad (-1) 1).nearest ⟨0, 0⟩ 15, s.position = .edge := by
  obtain ⟨s, hs, hedge⟩ := exists_mem_nearest (mem_views_meridianRoad (-1) 1) rfl
    mem_segmentsNear_origin (by rw [projectedDistance_origin]; norm_num)
  refine ⟨s, hs, ?_⟩
  obtain ⟨c, hc, rfl⟩ := candidate_of_mem_nearest hs
  rw [edge_snapOf] at hedge
  have hproject := projectsTo_of_mem_candidatesNear hc
  have hcourse : (meridianRoad (-1) 1).course c.view.edge = [⟨-1, 0⟩, ⟨1, 0⟩] := by
    rw [hedge]
    rfl
  rw [hcourse] at hproject
  have hshare : c.t = 1 / 2 := by
    rw [← project_t_origin, hproject.of_pair]
  have hnone : Candidate.vertex? c = none := by
    rw [vertex?_eq_none_iff, hshare]
    exact half_inside
  rcases snapOf_cases (meridianRoad (-1) 1) ⟨0, 0⟩ c with ⟨v, hv, -⟩ | ⟨-, -, hposition⟩
  · cases hnone.symm.trans hv
  · exact hposition

/-! ## No place is lost -/

/-- In exact arithmetic, a match between two points of a course, of a query at which the plane is
regular, is found again on its edge, and a node at which the plane is regular can be checked. -/
theorem no_place_is_lost [Scalar.Exact α] (ctx : AuditContext α) :
    (∀ (query : Point α) (radius : α), query.tangentPlane.IsRegular →
      ∀ s ∈ ctx.graph.nearest query radius, s.position = .edge → ctx.graph.IsFoundAgain s) ∧
    ∀ n, (∀ p, ctx.graph.point? n = some p → p.tangentPlane.IsRegular) →
      ∃ fs, ctx.checkNode n = .ok fs := by
  have hfound : ∀ (query : Point α) (radius : α), query.tangentPlane.IsRegular →
      ∀ s ∈ ctx.graph.nearest query radius, s.position = .edge → ctx.graph.IsFoundAgain s :=
    fun query radius hregular s hs hposition =>
      isFoundAgain_of_mem_nearest hregular hs hposition
  refine ⟨hfound, fun n hregular => ?_⟩
  cases hnode : ctx.checkNode n with
  | ok fs => exact ⟨fs, rfl⟩
  | error cause =>
    obtain ⟨openEnd, e, s, hfaces, -, -, hlost, -⟩ := checkNode_eq_error_iff.mp hnode
    have hagain := hfound openEnd ctx.settings.radius (hregular openEnd hfaces.place) s
      hfaces.nearest.holds.found hlost.1
    exact absurd hlost (not_losesPlace hagain)

/-- The origin is matched to the middle of the road that crosses it and found again there, and the
end of the broken road can be checked. -/
theorem no_place_is_lost_origin :
    (∃ s ∈ (meridianRoad (-1) 1).nearest ⟨0, 0⟩ 15, s.position = .edge ∧
      (meridianRoad (-1) 1).IsFoundAgain s) ∧
    ∃ fs, brokenRoad.checkNode 1 = .ok fs := by
  constructor
  · obtain ⟨s, hs, hposition⟩ := exists_snap_origin
    obtain ⟨hfound, -⟩ := no_place_is_lost { brokenRoad with graph := meridianRoad (-1) 1 }
    exact ⟨s, hs, hposition, hfound ⟨0, 0⟩ 15 isRegular_origin s hs hposition⟩
  · obtain ⟨-, hnode⟩ := no_place_is_lost brokenRoad
    refine hnode 1 fun p hp => ?_
    obtain rfl := Option.some.inj hp
    exact isRegular_origin

end AuditContext
end RoadAudit
