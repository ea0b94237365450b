import RoadAudit.Proofs.Geo.Polyline
import RoadAudit.Proofs.Graph.Incidence
import RoadAudit.Proofs.Graph.LabelledWalks
import RoadAudit.Proofs.Graph.RouteToPlace
import RoadAudit.Proofs.Numeric.RunningSum

/-! # An edge seen from either end

A place on an edge is routed to alike from whichever end the edge is seen. Seen from the other end,
the ends and the ways along the edge that belong to them change places together, so only the order
of the two sums that are compared differs. Both are running sums, of which the lesser is the same in
either order. What is measured along the course to a point between two of its points is the same
without further ado; what is measured to a point of the course is added up in the other direction,
so there the distances have to be symmetric and their sums independent of the order. -/

namespace RoadAudit

open scoped Scalar

/-! ## Lengths -/

section Lengths

variable {α : Type} [Scalar α] {m : Metric} {line part : List (Point α)}

/-- Whether a metric gives the segments of a polyline the same length in either direction. -/
def Metric.IsSymmetricOn (m : Metric) (line : List (Point α)) : Prop :=
  ∀ s ∈ segments line, m.distance s.2 s.1 = m.distance s.1 s.2

theorem segments_subset {β : Type} {line part : List β} (h : part <:+: line) :
    segments part ⊆ segments line := by
  obtain ⟨before, after, rfl⟩ := h
  intro s hs
  obtain ⟨i, hi⟩ := List.mem_iff_getElem?.mp hs
  obtain ⟨ha, hb⟩ := getElem?_segments_eq_some_iff.mp hi
  refine List.mem_iff_getElem?.mpr ⟨before.length + i, getElem?_segments_eq_some_iff.mpr ⟨?_, ?_⟩⟩
  · have hlt := (List.getElem?_eq_some_iff.mp ha).1
    grind
  · have hlt := (List.getElem?_eq_some_iff.mp hb).1
    grind

namespace Metric

theorem IsSymmetricOn.of_part (h : m.IsSymmetricOn line) (hpart : part <:+: line) :
    m.IsSymmetricOn part :=
  fun s hs => h s (segments_subset hpart hs)

theorem legs_reverse (h : m.IsSymmetricOn line) : m.legs line.reverse = (m.legs line).reverse := by
  rw [legs, legs, segments_reverse, List.map_reverse, List.map_map]
  exact congrArg List.reverse (List.map_congr_left fun s hs => h s hs)

/-- A line is as long in the one direction as in the other. -/
theorem length_reverse (h : m.IsSymmetricOn line) (hadds : Scalar.AddsUp (m.legs line)) :
    m.length line.reverse = m.length line := by
  rw [length, length, legs_reverse h]
  exact hadds _ (List.reverse_perm _)

theorem isSymmetricOn_real (m : Metric) (line : List (Point ℝ)) : m.IsSymmetricOn line := by
  intro s _
  obtain ⟨p, q⟩ := s
  cases m with
  | earth =>
    change haversine q p = haversine p q
    -- the differences change their signs, but only their squared sines count
    have hneg : ∀ a b : ℝ, Scalar.radians (a - b) / 2 = -(Scalar.radians (b - a) / 2) := by
      intro a b
      rw [radians_real, radians_real]
      ring
    have hchord : halfChordSquared q p = halfChordSquared p q := by
      rw [halfChordSquared, halfChordSquared, hneg p.lat q.lat, hneg p.lon q.lon, Real.sin_neg,
        Real.sin_neg]
      ring
    rw [haversine_real, haversine_real, hchord]
  | plane =>
    change √((p.lat - q.lat) * (p.lat - q.lat) + (p.lon - q.lon) * (p.lon - q.lon)) =
      √((q.lat - p.lat) * (q.lat - p.lat) + (q.lon - p.lon) * (q.lon - p.lon))
    congr 1
    ring

end Metric
end Lengths

/-! ## Routes -/

namespace RoadGraph

variable {α : Type}

theorem take_geometry_flip (g : RoadGraph α) (v : EdgeView α) {i : Nat}
    (hi : i < (g.geometry v).length) :
    (g.geometry v.flip).take ((g.geometry v).length - 1 - i + 1) =
      ((g.geometry v).drop i).reverse := by
  rw [geometry_flip, List.take_reverse]
  congr 2
  omega

theorem drop_geometry_flip (g : RoadGraph α) (v : EdgeView α) {i : Nat}
    (hi : i < (g.geometry v).length) :
    (g.geometry v.flip).drop ((g.geometry v).length - 1 - i) =
      ((g.geometry v).take (i + 1)).reverse := by
  rw [geometry_flip, List.drop_reverse]
  congr 2
  omega

variable [Scalar α] {g : RoadGraph α}

theorem Walk.isRunningSum {source v : Nat} {w : α} (h : g.Walk source w v) :
    Scalar.IsRunningSum w := by
  induction h with
  | start => exact .zero
  | step _ _ _ ih => exact ih.add _

variable [Scalar.LawfulRunningSum α]

theorem found_or_exhausted_comm (limits : SearchLimits α) {a b : α} (ha : Scalar.IsRunningSum a)
    (hb : Scalar.IsRunningSum b) :
    (if Scalar.lesser a b ≤ limits.maxDistance then SearchLimits.found (Scalar.lesser a b)
      else limits.exhausted .tooLong) =
    if Scalar.lesser b a ≤ limits.maxDistance then SearchLimits.found (Scalar.lesser b a)
      else limits.exhausted .tooLong := by
  by_cases hnumber : Scalar.IsNumber a ∨ Scalar.IsNumber b
  · rw [Scalar.lesser_comm ha hb hnumber]
  · -- what is no number is within no limit, so neither sum is looked at
    obtain ⟨hna, hnb⟩ := not_or.mp hnumber
    have hbeyond : ¬ (a ≤ limits.maxDistance ∨ b ≤ limits.maxDistance) :=
      not_or.mpr ⟨fun h => hna (Scalar.IsNumber.left h), fun h => hnb (Scalar.IsNumber.left h)⟩
    rw [if_neg (mt Scalar.lesser_le_iff.mp hbeyond),
      if_neg (mt Scalar.lesser_le_iff.mp (mt Or.symm hbeyond))]

theorem routeViaEnds_flip (g : RoadGraph α) (limits : SearchLimits α) (source : Nat)
    (v : EdgeView α) (fromBase fromAdj : α) :
    g.routeViaEnds limits source v.flip fromAdj fromBase =
      g.routeViaEnds limits source v fromBase fromAdj := by
  unfold routeViaEnds
  simp only [EdgeView.base_flip, EdgeView.adj_flip]
  cases hadj : (g.route limits source v.adj).status <;>
    cases hbase : (g.route limits source v.base).status
  case ok.ok =>
    -- the walks that are found start from zero, and a last way is added to each
    exact found_or_exhausted_comm limits ((walk_of_route hadj).isRunningSum.add fromAdj)
      ((walk_of_route hbase).isRunningSum.add fromBase)
  all_goals rfl

theorem routeToPoint?_flip (g : RoadGraph α) (limits : SearchLimits α) (m : Metric) (source : Nat)
    (v : EdgeView α) (p : Point α) :
    g.routeToPoint? limits m source v.flip p = g.routeToPoint? limits m source v p := by
  simp only [routeToPoint?, geometry_flip, List.reverse_reverse, routeViaEnds_flip]
  exact Option.bind_comm _ _

theorem routeToVertex_flip (limits : SearchLimits α) {m : Metric} (source : Nat) {v : EdgeView α}
    (hm : m.IsSymmetricOn (g.geometry v)) {i : Nat} (hi : i < (g.geometry v).length)
    (hfirst : Scalar.AddsUp (m.legs ((g.geometry v).take (i + 1))))
    (hrest : Scalar.AddsUp (m.legs ((g.geometry v).drop i))) :
    g.routeToVertex limits m source v.flip ((g.geometry v).length - 1 - i) =
      g.routeToVertex limits m source v i := by
  have hlength : (g.geometry v.flip).length = (g.geometry v).length := by
    rw [geometry_flip, List.length_reverse]
  have htake := Metric.length_reverse (hm.of_part (List.take_prefix _ _).isInfix) hfirst
  have hdrop := Metric.length_reverse (hm.of_part (List.drop_suffix _ _).isInfix) hrest
  unfold routeToVertex
  simp only [hlength]
  rw [Nat.min_eq_left (Nat.sub_le _ i), Nat.min_eq_left (by omega : i ≤ _ - 1),
    take_geometry_flip g v hi, drop_geometry_flip g v hi, htake, hdrop]
  exact g.routeViaEnds_flip ..

/-- From both ends of an edge a place on it is routed to alike. The edge is seen one way at the one
end and the other way at the other. To a point between two points of its course the routes are the
same, and so are the failures; to a point of the course, counted from either end, they are the same
where distances are symmetric and add up. -/
theorem route_from_either_end (g : RoadGraph α) (limits : SearchLimits α) (m : Metric)
    (source : Nat) (v : EdgeView α) :
    (∀ n k w, v ∈ g.edgesOf n → w ∈ g.edgesOf k → n ≠ k → w.id = v.id → w = v.flip) ∧
    (∀ p, g.routeToPoint? limits m source v.flip p = g.routeToPoint? limits m source v p) ∧
    (m.IsSymmetricOn (g.geometry v) → ∀ i < (g.geometry v).length,
      Scalar.AddsUp (m.legs ((g.geometry v).take (i + 1))) →
      Scalar.AddsUp (m.legs ((g.geometry v).drop i)) →
      g.routeToVertex limits m source v.flip ((g.geometry v).length - 1 - i) =
        g.routeToVertex limits m source v i) := by
  refine ⟨?_, ?_, ?_⟩
  · intro n k w hv hw hne hid
    exact eq_flip_of_ne hv hw hne hid
  · exact g.routeToPoint?_flip limits m source v
  · intro hm i hi hfirst hrest
    exact routeToVertex_flip limits source hm hi hfirst hrest

/-- The spur is seen one way from the third node of the detour and the other way from the fourth. The
points of its course are routed to alike, and in binary64 so is every point between them. -/
theorem route_from_either_end_spur :
    spur ∈ (detour : RoadGraph ℝ).edgesOf 2 ∧ spur.flip ∈ (detour : RoadGraph ℝ).edgesOf 3 ∧
      (∀ i < 3, (detour : RoadGraph ℝ).routeToVertex ⟨6, 20⟩ .earth 0 spur.flip (2 - i) =
        (detour : RoadGraph ℝ).routeToVertex ⟨6, 20⟩ .earth 0 spur i) ∧
      ∀ p, (detour : RoadGraph Float).routeToPoint? ⟨6, 20⟩ .earth 0 spur.flip p =
        (detour : RoadGraph Float).routeToPoint? ⟨6, 20⟩ .earth 0 spur p := by
  have hview : (spur : EdgeView ℝ) ∈ (detour : RoadGraph ℝ).edgesOf 2 :=
    mem_edgesOf_iff.mpr ⟨rfl, rfl, fun _ => rfl⟩
  obtain ⟨-, -, hvertex⟩ := route_from_either_end (detour : RoadGraph ℝ) ⟨6, 20⟩ .earth 0 spur
  obtain ⟨-, hpoint, -⟩ := route_from_either_end (detour : RoadGraph Float) ⟨6, 20⟩ .earth 0 spur
  refine ⟨hview, flip_mem_edgesOf hview (by decide), fun i hi => ?_, hpoint⟩
  exact hvertex (Metric.isSymmetricOn_real .earth _) i hi (Scalar.Exact.addsUp _)
    (Scalar.Exact.addsUp _)

end RoadGraph
end RoadAudit
