import Mathlib.Data.List.Sort
import RoadAudit.Proofs.Graph.NearestScan
import RoadAudit.Proofs.Graph.WellFormed

/-! # The order of the index

The index yields the segments near a query in no order of its own. An edge keeps one of its nearest
segments, and which one it is depends on the order only where several are equally near; they give
the same match if they meet the query at one point of the course. -/

namespace RoadAudit
namespace RoadGraph

open scoped Scalar

section Orders

variable {α : Type} [Scalar α] {g : RoadGraph α} {query : Point α} {radius : α}
  {snaps snaps' : List (Snap α)} {b c : Candidate α}

/-- Whether no candidate of the same edge is nearer. -/
structure IsNearest (g : RoadGraph α) (query : Point α) (radius : α) (c : Candidate α) : Prop where
  mem : c ∈ g.candidatesNear query radius
  le : ∀ d ∈ g.candidatesNear query radius, d.view.id = c.view.id → c.distance ≤ d.distance

/-- Whether segments of one edge that are equally near, with none nearer, meet the query at one
point of its course. -/
def TiesMeet (g : RoadGraph α) (query : Point α) (radius : α) : Prop :=
  ∀ b c, g.IsNearest query radius b → g.IsNearest query radius c → b.view.id = c.view.id →
    b.segment ≠ c.segment → ∃ v, Candidate.vertex? b = some v ∧ Candidate.vertex? c = some v

theorem view_eq_of_candidates (hb : b ∈ g.candidatesNear query radius)
    (hc : c ∈ g.candidatesNear query radius) (hid : b.view.id = c.view.id) : b.view = c.view :=
  view_eq_of_id (of_mem_candidatesNear hb).1 (of_mem_candidatesNear hc).1 hid

theorem distance_eq_of_candidates (hb : b ∈ g.candidatesNear query radius)
    (hc : c ∈ g.candidatesNear query radius) (hsnapped : b.snapped = c.snapped) :
    b.distance = c.distance := by
  rw [distance_of_mem_candidatesNear hb, distance_of_mem_candidatesNear hc, hsnapped]

theorem eq_of_segment (hb : b ∈ g.candidatesNear query radius)
    (hc : c ∈ g.candidatesNear query radius) (hid : b.view.id = c.view.id)
    (hsegment : b.segment = c.segment) : b = c := by
  have hview := view_eq_of_candidates hb hc hid
  obtain ⟨p, q, hp, hq, hproject⟩ := projectsTo_of_mem_candidatesNear hb
  obtain ⟨p', q', hp', hq', hproject'⟩ := projectsTo_of_mem_candidatesNear hc
  rw [hview, hsegment] at hp hq
  obtain rfl := Option.some.inj (hp.symm.trans hp')
  obtain rfl := Option.some.inj (hq.symm.trans hq')
  obtain ⟨ht, hsnapped⟩ := Projection.mk.inj (hproject.symm.trans hproject')
  have hdistance := distance_eq_of_candidates hb hc hsnapped
  cases b
  cases c
  simp_all

variable [Scalar.LawfulOrder α] (hunit : (0 : α) < 1)

section Unit

include hunit

theorem snapOf_eq_of_vertex? (hb : b ∈ g.candidatesNear query radius)
    (hc : c ∈ g.candidatesNear query radius) (hid : b.view.id = c.view.id) {v : Nat}
    (hbv : Candidate.vertex? b = some v) (hcv : Candidate.vertex? c = some v) :
    g.snapOf query b = g.snapOf query c := by
  have hview := view_eq_of_candidates hb hc hid
  have hbplace := snapped_of_vertex? hunit (projectsTo_of_mem_candidatesNear hb) hbv
  have hcplace := snapped_of_vertex? hunit (projectsTo_of_mem_candidatesNear hc) hcv
  have hsnapped : b.snapped = c.snapped := by
    rw [hview, hcplace] at hbplace
    exact (Option.some.inj hbplace).symm
  have hdistance := distance_eq_of_candidates hb hc hsnapped
  unfold snapOf
  rw [hbv, hcv, hview, hsnapped, hdistance]

theorem snapOf_eq_of_isNearest (hties : g.TiesMeet query radius)
    (hb : g.IsNearest query radius b) (hc : g.IsNearest query radius c)
    (hid : b.view.id = c.view.id) : g.snapOf query b = g.snapOf query c := by
  by_cases hsegment : b.segment = c.segment
  · rw [eq_of_segment hb.mem hc.mem hid hsegment]
  · obtain ⟨v, hbv, hcv⟩ := hties b c hb hc hid hsegment
    exact snapOf_eq_of_vertex? hunit hb.mem hc.mem hid hbv hcv

end Unit

theorem IsAnswer.exists_of_candidate (h : g.IsAnswer query radius snaps)
    (hc : c ∈ g.candidatesNear query radius) : ∃ s ∈ snaps, s.edge.id = c.view.id := by
  obtain ⟨found, hperm, rfl⟩ := h
  obtain ⟨b, hb, hid, -⟩ := exists_mem_nearestOfEach ((hperm.filterMap _).mem_iff.mpr hc)
  exact ⟨g.snapOf query b, List.mem_map_of_mem hb, by rwa [edge_snapOf]⟩

variable (hnumber : ∀ s ∈ g.segmentsMeeting (Box.around query radius),
  g.isHidden s.view.edge = false → Scalar.IsNumber (projectedDistance query s))

include hnumber

omit [Scalar.LawfulOrder α] in
theorem isNumber_distance (hc : c ∈ g.candidatesNear query radius) :
    Scalar.IsNumber c.distance := by
  obtain ⟨s, hs, hcandidate⟩ := List.mem_filterMap.mp hc
  obtain ⟨-, hdistance, hshown, -⟩ := candidate?_eq_some hcandidate
  rw [hdistance]
  exact hnumber s hs hshown

theorem IsAnswer.exists_isNearest (h : g.IsAnswer query radius snaps) {s : Snap α}
    (hs : s ∈ snaps) : ∃ c, g.IsNearest query radius c ∧ g.snapOf query c = s := by
  obtain ⟨found, hperm, rfl⟩ := h
  obtain ⟨c, hc, hsnap⟩ := List.mem_map.mp hs
  have hmem : ∀ d, d ∈ found.filterMap (g.candidate? query radius) ↔
      d ∈ g.candidatesNear query radius := fun d => (hperm.filterMap _).mem_iff
  have hc' := (hmem c).mp (mem_of_mem_nearestOfEach hc)
  refine ⟨c, ⟨hc', fun d hd hid => ?_⟩, hsnap⟩
  have hnot := not_lt_of_mem_nearestOfEach hc ((hmem d).mpr hd) hid.symm
  exact Scalar.le_of_not_lt (isNumber_distance hnumber hd) (isNumber_distance hnumber hc') hnot

include hunit

theorem IsAnswer.subset (hties : g.TiesMeet query radius) (h : g.IsAnswer query radius snaps)
    (h' : g.IsAnswer query radius snaps') : snaps ⊆ snaps' := by
  intro s hs
  obtain ⟨c, hc, rfl⟩ := h.exists_isNearest hnumber hs
  obtain ⟨s', hs', hid⟩ := h'.exists_of_candidate hc.mem
  obtain ⟨d, hd, rfl⟩ := h'.exists_isNearest hnumber hs'
  rw [edge_snapOf] at hid
  rwa [snapOf_eq_of_isNearest hunit hties hc hd hid.symm]

/-- The order in which the index yields the segments makes no difference to the answer, if every
distance is a number and segments of an edge that are equally near meet the query at one point of
its course. -/
theorem answer_unique (hties : g.TiesMeet query radius) (h : g.IsAnswer query radius snaps)
    (h' : g.IsAnswer query radius snaps') : snaps = snaps' := by
  have hirrefl : Std.Irrefl fun s t : Snap α => s.edge.id < t.edge.id :=
    ⟨fun s => Nat.lt_irrefl s.edge.id⟩
  have hasymm : Std.Antisymm fun s t : Snap α => s.edge.id < t.edge.id :=
    ⟨fun s t hst hts => absurd hst (Nat.lt_asymm hts)⟩
  exact List.Subset.antisymm_of_pairwise h.ascending h'.ascending
    (h.subset hunit hnumber hties h') (h'.subset hunit hnumber hties h)

end Orders

/-- A road along the prime meridian with a point of its course at the origin of the coordinates. -/
noncomputable def bentMeridian : RoadGraph ℝ :=
  ⟨#[⟨⟨-1, 0⟩, false⟩, ⟨⟨1, 0⟩, false⟩], #[⟨0, 1, 0, default, [⟨0, 0⟩]⟩], by simp⟩

theorem unit_real : (Scalar.ofNat 0 : ℝ) < Scalar.ofNat 1 := by
  change ((0 : ℕ) : ℝ) < ((1 : ℕ) : ℝ)
  norm_num

theorem spacing_lt_degree : Scalar.spacing <
    Scalar.radians (earthRadius : ℝ) * Scalar.radians (earthRadius : ℝ) := by
  have hpi := Real.pi_gt_three
  have hdegree : 1 < Scalar.radians (earthRadius : ℝ) := by
    rw [radians_real]
    change 1 < ((6371000 : ℕ) : ℝ) * (Real.pi / 180)
    push_cast
    linarith
  have hspacing : (Scalar.spacing : ℝ) ≤ 1 := by
    change ((1 : ℕ) : ℝ) / ((4503599627370496 : ℕ) : ℝ) ≤ 1
    norm_num
  nlinarith

theorem project_bentMeridian :
    (⟨0, 0⟩ : Point ℝ).tangentPlane.project ⟨0, 0⟩ ⟨-1, 0⟩ ⟨0, 0⟩ = ⟨Scalar.ofNat 1, ⟨0, 0⟩⟩ ∧
      ∃ t : ℝ, t ≤ Scalar.ofNat 0 ∧
        (⟨0, 0⟩ : Point ℝ).tangentPlane.project ⟨0, 0⟩ ⟨0, 0⟩ ⟨1, 0⟩ = ⟨t, ⟨0, 0⟩⟩ := by
  constructor
  · apply project_end
    simpa [TangentPlane.toOffset, Point.tangentPlane] using spacing_lt_degree
  · apply project_before
    simp

theorem vertex?_bentMeridian {radius : ℝ} {c : Candidate ℝ}
    (hc : c ∈ bentMeridian.candidatesNear ⟨0, 0⟩ radius) : Candidate.vertex? c = some 1 := by
  have hstored := edge_mem_of_mem_views (of_mem_candidatesNear hc).1
  obtain hedge : c.view.edge = ⟨0, 1, 0, default, [⟨0, 0⟩]⟩ := by
    simpa [bentMeridian] using hstored
  have hcourse : bentMeridian.course c.view.edge = [⟨-1, 0⟩, ⟨0, 0⟩, ⟨1, 0⟩] := by
    rw [hedge]
    rfl
  obtain ⟨a, b, ha, hb, hproject⟩ := projectsTo_of_mem_candidatesNear hc
  rw [hcourse] at ha hb
  have hlt : c.segment + 1 < 3 := (List.getElem?_eq_some_iff.mp hb).1
  obtain ⟨hend, t, ht, hstart⟩ := project_bentMeridian
  obtain hfirst | hsecond : c.segment = 0 ∨ c.segment = 1 := by omega
  · rw [hfirst] at ha hb
    obtain rfl := Option.some.inj ha
    obtain rfl := Option.some.inj hb
    rw [Candidate.vertex?, hfirst, (Projection.mk.inj (hproject.symm.trans hend)).1]
    exact (if_neg (not_le.mpr unit_real)).trans (if_pos le_rfl)
  · rw [hsecond] at ha hb
    obtain rfl := Option.some.inj ha
    obtain rfl := Option.some.inj hb
    rw [Candidate.vertex?, hsecond, (Projection.mk.inj (hproject.symm.trans hstart)).1]
    exact if_pos ht

theorem tiesMeet_bentMeridian (radius : ℝ) : bentMeridian.TiesMeet ⟨0, 0⟩ radius :=
  fun _ _ hb hc _ _ => ⟨1, vertex?_bentMeridian hb.mem, vertex?_bentMeridian hc.mem⟩

noncomputable def bentView : EdgeView ℝ := ⟨0, ⟨0, 1, 0, default, [⟨0, 0⟩]⟩, false⟩

noncomputable def southernHalf : IndexedSegment ℝ := ⟨bentView, 0, ⟨-1, 0⟩, ⟨0, 0⟩⟩

noncomputable def northernHalf : IndexedSegment ℝ := ⟨bentView, 1, ⟨0, 0⟩, ⟨1, 0⟩⟩

theorem segmentsMeeting_bentMeridian :
    bentMeridian.segmentsMeeting (Box.around ⟨0, 0⟩ 15) = [southernHalf, northernHalf] := by
  obtain ⟨w, hw, haround⟩ := around_origin (r := 15) (by norm_num)
  have hindexed : bentMeridian.indexedSegments = [southernHalf, northernHalf] := rfl
  rw [segmentsMeeting, hindexed, haround, List.filter_eq_self]
  intro s hs
  simp only [List.mem_cons, List.not_mem_nil, or_false] at hs
  unfold Box.meets Box.ofSegment
  rcases hs with rfl | rfl <;>
    norm_num [southernHalf, northernHalf, Scalar.lesser_real, Scalar.greater_real, hw]

theorem projectedDistance_halves :
    projectedDistance ⟨0, 0⟩ southernHalf = 0 ∧ projectedDistance ⟨0, 0⟩ northernHalf = 0 := by
  obtain ⟨hend, t, -, hstart⟩ := project_bentMeridian
  have hzero : haversine (⟨0, 0⟩ : Point ℝ) ⟨0, 0⟩ = 0 := by
    rw [haversine_north 0 le_rfl (by norm_num), radians_real]
    ring
  unfold projectedDistance southernHalf northernHalf
  rw [hend, hstart]
  exact ⟨hzero, hzero⟩

/-- The query is at the end of one half of the road and at the start of the other, and the index may
yield either first. -/
theorem answer_unique_bentMeridian :
    bentMeridian.segmentsMeeting (Box.around ⟨0, 0⟩ 15) = [southernHalf, northernHalf] ∧
      projectedDistance ⟨0, 0⟩ southernHalf = 0 ∧ projectedDistance ⟨0, 0⟩ northernHalf = 0 ∧
      bentMeridian.snapsIn ⟨0, 0⟩ 15 [northernHalf, southernHalf] =
        bentMeridian.nearest ⟨0, 0⟩ 15 := by
  have hanswer : bentMeridian.IsAnswer ⟨0, 0⟩ 15
      (bentMeridian.snapsIn ⟨0, 0⟩ 15 [northernHalf, southernHalf]) := by
    refine ⟨_, ?_, rfl⟩
    rw [segmentsMeeting_bentMeridian]
    exact .swap southernHalf northernHalf []
  exact ⟨segmentsMeeting_bentMeridian, projectedDistance_halves.1, projectedDistance_halves.2,
    answer_unique unit_real (fun _ _ _ => Scalar.isNumber_real _) (tiesMeet_bentMeridian 15) hanswer
      (isAnswer_nearest bentMeridian ⟨0, 0⟩ 15)⟩

end RoadGraph
end RoadAudit
