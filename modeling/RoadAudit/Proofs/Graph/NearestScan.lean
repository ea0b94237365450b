import Mathlib.Analysis.Real.Pi.Bounds
import Mathlib.Analysis.SpecialFunctions.Complex.Arg
import Mathlib.Tactic
import RoadAudit.Proofs.Geo.Meridian
import RoadAudit.Proofs.Graph.Placement

/-! # The search by place against a scan

A scan projects a query on every segment of an edge; the search by place only on those whose box
meets the box around the query. What the search misses is said here without the search: an edge
within the radius is missed when the boxes of its nearest segments all stay outside. -/

namespace RoadAudit
namespace RoadGraph

open scoped Scalar

variable {α : Type} [Scalar α]

/-- Whether `d` is the least distance of a query from its projections on the segments of an
edge. -/
structure IsLeastDistance (g : RoadGraph α) (query : Point α) (v : EdgeView α) (d : α) : Prop where
  attained : ∃ s ∈ g.segmentsOf v, projectedDistance query s = d
  least : ∀ s ∈ g.segmentsOf v, d ≤ projectedDistance query s

/-- Whether an edge has a least distance from a query, and it is not above the radius. -/
def PassesWithin (g : RoadGraph α) (query : Point α) (radius : α) (v : EdgeView α) : Prop :=
  ∃ d, g.IsLeastDistance query v d ∧ d ≤ radius

/-- Whether the search by place answers for an edge as a scan of all its segments would. -/
structure AgreesWithScan (g : RoadGraph α) (query : Point α) (radius : α) (v : EdgeView α) :
    Prop where
  found_iff : (∃ snap ∈ g.nearest query radius, snap.edge = v) ↔
    g.isHidden v.edge = false ∧ g.PassesWithin query radius v
  distance : ∀ snap ∈ g.nearest query radius, snap.edge = v →
    g.IsLeastDistance query v snap.distance

theorem agreesWithScan_of_unmatched {g : RoadGraph α} {query : Point α} {radius : α}
    {v : EdgeView α} (hnone : ∀ snap ∈ g.nearest query radius, snap.edge ≠ v)
    (h : ¬ (g.isHidden v.edge = false ∧ g.PassesWithin query radius v)) :
    g.AgreesWithScan query radius v := by
  constructor
  case found_iff =>
    refine ⟨?_, fun hscan => absurd hscan h⟩
    rintro ⟨snap, hsnap, hedge⟩
    exact absurd hedge (hnone snap hsnap)
  case distance =>
    intro snap hsnap hedge
    exact absurd hedge (hnone snap hsnap)

variable [Scalar.LawfulOrder α]

theorem agreesWithScan_of_segment {g : RoadGraph α} {query : Point α} {radius : α}
    {v : EdgeView α} (hv : v ∈ g.views) (hwithin : g.PassesWithin query radius v)
    {s : IndexedSegment α} (hs : s ∈ g.segmentsNear query radius v)
    (hleast : g.IsLeastDistance query v (projectedDistance query s)) :
    g.AgreesWithScan query radius v := by
  obtain ⟨d, hd, hdr⟩ := hwithin
  obtain ⟨s₁, hs₁, rfl⟩ := hd.attained
  have hle : projectedDistance query s ≤ radius := Scalar.le_trans (hleast.least s₁ hs₁) hdr
  refine ⟨⟨?_, ?_⟩, fun snap hsnap hedge => ?_⟩
  · rintro ⟨snap, hsnap, hedge⟩
    exact ⟨(of_mem_nearest hsnap hedge).1, _, hd, hdr⟩
  · rintro ⟨hshown, -⟩
    exact exists_mem_nearest hv hshown hs (Scalar.not_lt_of_le hle)
  · obtain ⟨-, s', hs', hdistance, -, hnearest⟩ := of_mem_nearest hsnap hedge
    have hmem : s' ∈ g.segmentsOf v := (List.mem_filter.mp hs').1
    have hle' : projectedDistance query s' ≤ projectedDistance query s :=
      Scalar.le_of_not_lt (Scalar.IsNumber.left hle)
        (Scalar.IsNumber.right (hleast.least s' hmem)) (hnearest s hs (Scalar.not_lt_of_le hle))
    rw [hdistance]
    exact ⟨⟨s', hmem, rfl⟩, fun t ht => Scalar.le_trans hle' (hleast.least t ht)⟩

theorem around_origin {r : ℝ} (hr : 0 ≤ r) :
    ∃ w, 0 ≤ w ∧ Box.around ⟨0, 0⟩ r = ⟨⟨-(r / 111320), -w⟩, ⟨r / 111320, w⟩⟩ := by
  have hlat : (degreesAround 0 r).lat = r / 111320 := by
    change r / ((111320 : ℕ) : ℝ) = r / 111320
    norm_num
  have hlon : 0 ≤ (degreesAround 0 r).lon := by
    unfold degreesAround
    rw [Scalar.greater_real]
    apply div_nonneg
    · change 0 ≤ r / ((111320 : ℕ) : ℝ)
      positivity
    · refine le_max_of_le_right ?_
      change 0 ≤ ((1 : ℕ) : ℝ) / ((1000000 : ℕ) : ℝ)
      positivity
  have hr' : 0 ≤ r / 111320 := by positivity
  refine ⟨(degreesAround 0 r).lon, hlon, ?_⟩
  unfold Box.around Box.ofCorners
  dsimp only
  rw [hlat]
  generalize (degreesAround (0 : ℝ) r).lon = w at *
  generalize r / 111320 = d at *
  have hlow : ∀ x : ℝ, 0 ≤ x → (if (0 : ℝ) - x < 0 + x then 0 - x else 0 + x) = -x := by
    intro x hx
    split <;> linarith
  have hhigh : ∀ x : ℝ, 0 ≤ x → (if (0 : ℝ) + x < 0 - x then 0 - x else 0 + x) = x := by
    intro x hx
    split <;> linarith
  congr 2
  · exact hlow d hr'
  · exact hlow w hlon
  · exact hhigh d hr'
  · exact hhigh w hlon

/-- A road along the prime meridian from one latitude to another. -/
noncomputable def meridianRoad (a b : ℝ) : RoadGraph ℝ :=
  ⟨#[⟨⟨a, 0⟩, false⟩, ⟨⟨b, 0⟩, false⟩], #[⟨0, 1, 0, default, []⟩], by simp⟩

noncomputable def meridianView : EdgeView ℝ := ⟨0, ⟨0, 1, 0, default, []⟩, false⟩

noncomputable def meridianSegment (a b : ℝ) : IndexedSegment ℝ :=
  ⟨meridianView, 0, ⟨a, 0⟩, ⟨b, 0⟩⟩

section Meridian

variable {a b r : ℝ}

theorem mem_views_meridianRoad (a b : ℝ) : meridianView ∈ (meridianRoad a b).views :=
  List.mem_singleton_self _

theorem segmentsOf_meridianRoad (a b : ℝ) :
    (meridianRoad a b).segmentsOf meridianView = [meridianSegment a b] := rfl

theorem project_meridian (ha : 0 ≤ a) (hab : a ≤ b) :
    ∃ t : ℝ, t ≤ Scalar.ofNat 0 ∧
      (⟨0, 0⟩ : Point ℝ).tangentPlane.project ⟨0, 0⟩ ⟨a, 0⟩ ⟨b, 0⟩ = ⟨t, ⟨a, 0⟩⟩ := by
  apply project_before
  unfold TangentPlane.toOffset Point.tangentPlane
  dsimp only
  generalize Scalar.radians (earthRadius : ℝ) = n
  generalize n * Scalar.cos (Scalar.radians (0 : ℝ)) = m
  have : 0 ≤ a * (b - a) * n ^ 2 :=
    mul_nonneg (mul_nonneg ha (sub_nonneg.mpr hab)) (sq_nonneg n)
  nlinarith

theorem projectedDistance_meridian (ha : 0 ≤ a) (hab : a ≤ b) (hpole : a ≤ 90) :
    projectedDistance ⟨0, 0⟩ (meridianSegment a b) = 6371000 * Scalar.radians a := by
  obtain ⟨t, -, hproject⟩ := project_meridian ha hab
  unfold projectedDistance meridianSegment
  rw [hproject, haversine_north 0 ha (by linarith), sub_zero]

theorem of_mem_nearest_meridian {g : RoadGraph ℝ} {s : Snap ℝ} (hs : s ∈ g.nearest ⟨0, 0⟩ r)
    (ha : 0 ≤ a) (hab : a ≤ b) (hpole : a ≤ 90)
    (hcourse : g.course s.edge.edge = [⟨a, 0⟩, ⟨b, 0⟩]) :
    s.position = .tower ∧ s.closestNode = s.edge.edge.base ∧ s.snapped = ⟨a, 0⟩ ∧
      s.distance = 6371000 * Scalar.radians a := by
  obtain ⟨c, hc, rfl⟩ := candidate_of_mem_nearest hs
  rw [edge_snapOf] at hcourse ⊢
  have hprojects := projectsTo_of_mem_candidatesNear hc
  rw [hcourse] at hprojects
  obtain ⟨t, ht, hproject⟩ := project_meridian ha hab
  rw [hprojects.of_pair, Projection.mk.injEq] at hproject
  have hfirst : Candidate.vertex? c = some 0 := by
    obtain ⟨p, q, -, hstop, -⟩ := hprojects
    have hlt : c.segment + 1 < 2 := (List.getElem?_eq_some_iff.mp hstop).1
    rw [Candidate.vertex?, hproject.1]
    exact (if_pos ht).trans (congrArg some (by omega))
  obtain ⟨hposition, hclosest⟩ := snapOf_of_first g ⟨0, 0⟩ hfirst
  refine ⟨hposition, hclosest, by rw [snapped_snapOf, hproject.2], ?_⟩
  rw [distance_snapOf, distance_of_mem_candidatesNear hc, hproject.2,
    haversine_north 0 ha (by linarith), sub_zero]

theorem isLeastDistance_meridian (a b : ℝ) :
    (meridianRoad a b).IsLeastDistance ⟨0, 0⟩ meridianView
      (projectedDistance ⟨0, 0⟩ (meridianSegment a b)) := by
  constructor
  case attained => exact ⟨_, List.mem_singleton_self _, rfl⟩
  case least =>
    rw [segmentsOf_meridianRoad]
    exact List.forall_mem_singleton.mpr le_rfl

theorem mem_segmentsNear_meridian (ha : 0 ≤ a) (hab : a ≤ b) (hr : 0 ≤ r) :
    meridianSegment a b ∈ (meridianRoad a b).segmentsNear ⟨0, 0⟩ r meridianView ↔
      a ≤ r / 111320 := by
  obtain ⟨w, hw, haround⟩ := around_origin hr
  have hr' : 0 ≤ r / 111320 := by positivity
  unfold segmentsNear
  rw [segmentsOf_meridianRoad, List.mem_filter, haround]
  unfold Box.meets Box.ofSegment meridianSegment
  dsimp only
  rw [Scalar.lesser_real, Scalar.lesser_real, Scalar.greater_real, Scalar.greater_real,
    min_eq_left hab, max_eq_right hab, min_self, max_self]
  simp only [List.mem_singleton, true_and, Bool.and_eq_true, decide_eq_true_eq]
  constructor
  · exact fun h => h.1.1.1
  · exact fun h => ⟨⟨⟨h, by linarith⟩, hw⟩, neg_nonpos.mpr hw⟩

theorem passesWithin_meridian (ha : 0 ≤ a) (hab : a ≤ b) (hpole : a ≤ 90)
    (hr : 6371000 * (a * (Real.pi / 180)) ≤ r) :
    (meridianRoad a b).PassesWithin ⟨0, 0⟩ r meridianView := by
  refine ⟨_, isLeastDistance_meridian a b, ?_⟩
  rwa [projectedDistance_meridian ha hab hpole, radians_real]

end Meridian

def OnGlobe (p : Point ℝ) : Prop := |p.lat| ≤ 90 ∧ |p.lon| ≤ 180

/-- The search by place agrees with a scan on an edge that it may not show, on one within the
radius of which a nearest segment has its box near the query, and on one that is not within the
radius and all of whose segments near the query are beyond it. On all others it does not. -/
theorem agreesWithScan_iff (g : RoadGraph α) (query : Point α) (radius : α) {v : EdgeView α}
    (hv : v ∈ g.views) :
    g.AgreesWithScan query radius v ↔
      g.isHidden v.edge = true ∨
      (g.PassesWithin query radius v ∧ ∃ s ∈ g.segmentsNear query radius v,
        g.IsLeastDistance query v (projectedDistance query s)) ∨
      (¬ g.PassesWithin query radius v ∧
        ∀ s ∈ g.segmentsNear query radius v, radius < projectedDistance query s) := by
  constructor
  · intro h
    by_cases hhidden : g.isHidden v.edge = true
    · exact .inl hhidden
    rw [Bool.not_eq_true] at hhidden
    by_cases hwithin : g.PassesWithin query radius v
    · obtain ⟨snap, hsnap, hedge⟩ := h.found_iff.mpr ⟨hhidden, hwithin⟩
      obtain ⟨-, s, hs, hdistance, -⟩ := of_mem_nearest hsnap hedge
      have hleast := h.distance snap hsnap hedge
      rw [hdistance] at hleast
      exact .inr (.inl ⟨hwithin, s, hs, hleast⟩)
    · refine .inr (.inr ⟨hwithin, fun s hs => ?_⟩)
      by_contra hle
      have hfound := exists_mem_nearest hv hhidden hs hle
      exact hwithin (h.found_iff.mp hfound).2
  · rintro (hhidden | ⟨hwithin, s, hs, hleast⟩ | ⟨hbeyond, hfar⟩)
    · apply agreesWithScan_of_unmatched
      · intro snap hsnap hedge
        rw [(of_mem_nearest hsnap hedge).1] at hhidden
        cases hhidden
      · rintro ⟨hshown, -⟩
        rw [hhidden] at hshown
        cases hshown
    · exact agreesWithScan_of_segment hv hwithin hs hleast
    · apply agreesWithScan_of_unmatched
      · intro snap hsnap hedge
        obtain ⟨-, s, hs, -, hle, -⟩ := of_mem_nearest hsnap hedge
        exact hle (hfar s hs)
      · exact fun hscan => hbeyond hscan.2

/-- A road that starts where the query is agrees with the scan. -/
theorem agreesWithScan_at_start :
    meridianView ∈ (meridianRoad 0 1).views ∧
      (meridianRoad 0 1).AgreesWithScan ⟨0, 0⟩ 15 meridianView := by
  have hview := mem_views_meridianRoad 0 1
  have hwithin : (meridianRoad 0 1).PassesWithin ⟨0, 0⟩ 15 meridianView :=
    passesWithin_meridian le_rfl (by norm_num) (by norm_num) (by norm_num)
  have hnear : meridianSegment 0 1 ∈ (meridianRoad 0 1).segmentsNear ⟨0, 0⟩ 15 meridianView :=
    (mem_segmentsNear_meridian le_rfl (by norm_num) (by norm_num)).mpr (by norm_num)
  refine ⟨hview, (agreesWithScan_iff (meridianRoad 0 1) ⟨0, 0⟩ 15 hview).mpr ?_⟩
  exact .inr (.inl ⟨hwithin, _, hnear, isLeastDistance_meridian 0 1⟩)

/-- A degree of latitude is shorter on the globe of the haversine formula than the box takes it to
be, so a road just inside the radius is not found. -/
theorem exists_not_agreesWithScan :
    ¬ ∀ (g : RoadGraph ℝ) (query : Point ℝ) (radius : ℝ),
      (∀ e ∈ g.edges, ∀ p ∈ g.course e, OnGlobe p) → OnGlobe query → 0 < radius →
        ∀ v ∈ g.views, g.AgreesWithScan query radius v := by
  intro hall
  -- fifteen metres are 0.0001347 degrees to the box, and 0.0001349 on the globe
  obtain ⟨a, ha⟩ : ∃ a : ℝ, a = 13482 / 100000000 := ⟨_, rfl⟩
  have hpos : 0 ≤ a := by rw [ha]; norm_num
  have hle : a ≤ 1 := by rw [ha]; norm_num
  have hglobe : ∀ x : ℝ, 0 ≤ x → x ≤ 1 → OnGlobe ⟨x, 0⟩ := by
    intro x hx hx'
    refine ⟨?_, by norm_num⟩
    rw [abs_of_nonneg hx]
    linarith
  have hcourse : ∀ e ∈ (meridianRoad a 1).edges, ∀ p ∈ (meridianRoad a 1).course e, OnGlobe p := by
    intro e he p hp
    obtain rfl : e = ⟨0, 1, 0, default, []⟩ := by simpa [meridianRoad] using he
    have hends : p = ⟨a, 0⟩ ∨ p = ⟨1, 0⟩ := by
      simpa [course, point?, meridianRoad] using hp
    rcases hends with rfl | rfl
    · exact hglobe a hpos hle
    · exact hglobe 1 zero_le_one le_rfl
  have hagree := hall (meridianRoad a 1) ⟨0, 0⟩ 15 hcourse (hglobe 0 le_rfl zero_le_one)
    (by norm_num) meridianView (mem_views_meridianRoad a 1)
  have hwithin : (meridianRoad a 1).PassesWithin ⟨0, 0⟩ 15 meridianView := by
    refine passesWithin_meridian hpos hle (by linarith) ?_
    have hpi := Real.pi_lt_d4
    rw [ha]
    linarith
  obtain ⟨snap, hsnap, hedge⟩ := hagree.found_iff.mpr ⟨rfl, hwithin⟩
  obtain ⟨-, s, hs, -⟩ := of_mem_nearest hsnap hedge
  obtain rfl : s = meridianSegment a 1 := List.mem_singleton.mp (List.mem_filter.mp hs).1
  have hnear := (mem_segmentsNear_meridian hpos hle (by norm_num)).mp hs
  rw [ha] at hnear
  norm_num at hnear

end RoadGraph
end RoadAudit
