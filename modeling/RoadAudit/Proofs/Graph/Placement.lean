import Mathlib.Tactic
import RoadAudit.Proofs.Geo.Polyline
import RoadAudit.Proofs.Graph.Matches

/-! # Where a match stands on its edge

A match is at an end of its edge's course, at a point between the ends, or on a segment, and its
index numbers a point or a segment that is there. That is so whatever comes out of the projections,
which may be no numbers. -/

namespace RoadAudit

open scoped Scalar

/-- Whether an index into a course of some length numbers what a position says: one of the two ends,
a point between them, or the start of a segment. -/
def MatchPosition.Fits (length wayIndex : Nat) : MatchPosition → Prop
  | tower => wayIndex = 0 ∨ wayIndex + 1 = length
  | pillar => 0 < wayIndex ∧ wayIndex + 1 < length
  | edge => wayIndex + 1 < length

namespace RoadGraph

variable {α : Type}

/-! ## Courses -/

section Courses

variable {g : RoadGraph α}

theorem exists_point? {v : Nat} (h : v < g.nodes.size) : ∃ p, g.point? v = some p := by
  rw [point?, Array.getElem?_eq_getElem h]
  exact ⟨_, rfl⟩

theorem length_course {e : Edge α} (he : e ∈ g.edges) :
    (g.course e).length = e.pillars.length + 2 := by
  obtain ⟨hbase, hadj⟩ := g.ends e he
  obtain ⟨p, hp⟩ := exists_point? hbase
  obtain ⟨q, hq⟩ := exists_point? hadj
  simp [course, hp, hq]

theorem length_geometry (v : EdgeView α) : (g.geometry v).length = (g.course v.edge).length := by
  unfold geometry
  split
  · exact List.length_reverse
  · rfl

theorem two_le_length_geometry {v : EdgeView α} (h : v.edge ∈ g.edges) :
    2 ≤ (g.geometry v).length := by
  rw [length_geometry, length_course h]
  exact Nat.le_add_left 2 _

theorem geometry_of_forward {v : EdgeView α} (h : v.reversed = false) :
    g.geometry v = g.course v.edge := by
  simp [geometry, h]

theorem ends_of_mem_segmentsOf {v : EdgeView α} {s : IndexedSegment α} (h : s ∈ g.segmentsOf v) :
    (g.course v.edge)[s.number]? = some s.start ∧
      (g.course v.edge)[s.number + 1]? = some s.stop := by
  obtain ⟨⟨⟨a, b⟩, i⟩, hi, rfl⟩ := List.mem_map.mp h
  exact getElem?_segments_eq_some_iff.mp (List.mem_zipIdx_iff_getElem?.mp hi)

end Courses

/-! ## Candidates -/

variable [Scalar α] {g : RoadGraph α} {query : Point α} {radius : α}

/-- Whether the query projects to a place, a share `t` of the way along, on the segment of a course
that has a given number. -/
def ProjectsTo (query : Point α) (course : List (Point α)) (segment : Nat) (t : α)
    (place : Point α) : Prop :=
  ∃ a b, course[segment]? = some a ∧ course[segment + 1]? = some b ∧
    query.tangentPlane.project query a b = ⟨t, place⟩

/-- A course of two points has one segment to project on. -/
theorem ProjectsTo.of_pair {a b place : Point α} {segment : Nat} {t : α}
    (h : ProjectsTo query [a, b] segment t place) :
    query.tangentPlane.project query a b = ⟨t, place⟩ := by
  obtain ⟨a', b', ha, hb, hproject⟩ := h
  have hlt : segment + 1 < 2 := (List.getElem?_eq_some_iff.mp hb).1
  obtain rfl : segment = 0 := by omega
  obtain rfl := Option.some.inj ha
  obtain rfl := Option.some.inj hb
  exact hproject

theorem projectsTo_of_mem_candidatesNear {c : Candidate α}
    (h : c ∈ g.candidatesNear query radius) :
    ProjectsTo query (g.course c.view.edge) c.segment c.t c.snapped := by
  obtain ⟨s, hs, hc⟩ := List.mem_filterMap.mp h
  obtain ⟨-, hnear⟩ := mem_segmentsMeeting.mp hs
  obtain ⟨hstart, hstop⟩ := ends_of_mem_segmentsOf (List.mem_filter.mp hnear).1
  unfold candidate? at hc
  split at hc
  case isTrue => cases hc
  case isFalse =>
    dsimp only at hc
    split at hc
    case isTrue => cases hc
    case isFalse =>
      obtain rfl := Option.some.inj hc
      exact ⟨s.start, s.stop, hstart, hstop, rfl⟩

theorem distance_of_mem_candidatesNear {c : Candidate α} (h : c ∈ g.candidatesNear query radius) :
    c.distance = haversine query c.snapped := by
  obtain ⟨s, -, hc⟩ := List.mem_filterMap.mp h
  unfold candidate? at hc
  split at hc
  case isTrue => cases hc
  case isFalse =>
    dsimp only at hc
    split at hc
    case isTrue => cases hc
    case isFalse =>
      obtain rfl := Option.some.inj hc
      rfl

theorem vertex?_eq_none_iff {c : Candidate α} :
    Candidate.vertex? c = none ↔ ¬ c.t ≤ 0 ∧ ¬ 1 ≤ c.t := by
  unfold Candidate.vertex?
  split
  · simp_all
  · split <;> simp_all

theorem vertex?_eq_some {c : Candidate α} {v : Nat} (h : Candidate.vertex? c = some v) :
    v = c.segment ∨ v = c.segment + 1 := by
  unfold Candidate.vertex? at h
  split at h
  · exact .inl (Option.some.inj h).symm
  · split at h
    · exact .inr (Option.some.inj h).symm
    · cases h

/-! ## Matches -/

@[simp] theorem snapped_snapOf (g : RoadGraph α) (query : Point α) (c : Candidate α) :
    (g.snapOf query c).snapped = c.snapped := by
  unfold snapOf
  dsimp only
  split
  · split
    · rfl
    · split <;> rfl
  · rfl

/-- A match is at the point of the course that its candidate is at, or on the candidate's
segment. -/
theorem snapOf_cases (g : RoadGraph α) (query : Point α) (c : Candidate α) :
    (∃ v, Candidate.vertex? c = some v ∧ (g.snapOf query c).wayIndex = v ∧
      ((g.snapOf query c).position = .tower ∧
          (v = 0 ∨ v = (g.course c.view.edge).length - 1) ∨
        (g.snapOf query c).position = .pillar ∧
          v ≠ 0 ∧ v ≠ (g.course c.view.edge).length - 1)) ∨
    (Candidate.vertex? c = none ∧ (g.snapOf query c).wayIndex = c.segment ∧
      (g.snapOf query c).position = .edge) := by
  unfold snapOf
  dsimp only
  split
  case h_1 v hv =>
    split
    case isTrue hfirst => exact .inl ⟨v, hv, rfl, .inl ⟨rfl, .inl hfirst⟩⟩
    case isFalse hfirst =>
      split
      case isTrue hlast => exact .inl ⟨v, hv, rfl, .inl ⟨rfl, .inr hlast⟩⟩
      case isFalse hlast => exact .inl ⟨v, hv, rfl, .inr ⟨rfl, hfirst, hlast⟩⟩
  case h_2 hnone => exact .inr ⟨hnone, rfl, rfl⟩

/-- A candidate at the first point of a course is matched to the node there. -/
theorem snapOf_of_first (g : RoadGraph α) (query : Point α) {c : Candidate α}
    (h : Candidate.vertex? c = some 0) :
    (g.snapOf query c).position = .tower ∧
      (g.snapOf query c).closestNode = c.view.edge.base := by
  unfold snapOf
  rw [h]
  exact ⟨rfl, rfl⟩

/-- Whether a match is on an edge of the graph as it is stored, with an index that fits the course
of that edge. -/
structure FitsCourse (g : RoadGraph α) (s : Snap α) : Prop where
  stored : s.edge.edge ∈ g.edges
  forward : s.edge.reversed = false
  fits : s.position.Fits (g.course s.edge.edge).length s.wayIndex

theorem fitsCourse_of_mem_nearest {s : Snap α} (h : s ∈ g.nearest query radius) :
    g.FitsCourse s := by
  have hstored : s.edge.edge ∈ g.edges := Array.mem_of_getElem? (edge_of_mem_nearest h)
  obtain ⟨c, hc, rfl⟩ := candidate_of_mem_nearest h
  obtain ⟨a, b, -, hb, -⟩ := projectsTo_of_mem_candidatesNear hc
  have hlt : c.segment + 1 < (g.course c.view.edge).length := (List.getElem?_eq_some_iff.mp hb).1
  rw [edge_snapOf] at hstored
  constructor
  case stored => rwa [edge_snapOf]
  case forward =>
    rw [edge_snapOf]
    exact (mem_views.mp (of_mem_candidatesNear hc).1).2
  case fits =>
    rw [edge_snapOf]
    rcases snapOf_cases g query c with ⟨v, hv, hindex, ⟨hposition, hend⟩ | ⟨hposition, hinner⟩⟩ |
      ⟨-, hindex, hposition⟩
    · rw [hindex, hposition, MatchPosition.Fits]
      omega
    · have hvertex := vertex?_eq_some hv
      rw [hindex, hposition, MatchPosition.Fits]
      omega
    · rw [hindex, hposition, MatchPosition.Fits]
      exact hlt

/-- A match between two points of a course is a projection on the segment that they bound, to
neither of its ends. -/
theorem projectsTo_of_mem_nearest {s : Snap α} (h : s ∈ g.nearest query radius)
    (hposition : s.position = .edge) :
    ∃ t, ¬ t ≤ 0 ∧ ¬ 1 ≤ t ∧
      ProjectsTo query (g.course s.edge.edge) s.wayIndex t s.snapped := by
  obtain ⟨c, hc, rfl⟩ := candidate_of_mem_nearest h
  rcases snapOf_cases g query c with ⟨v, -, -, ⟨hvertex, -⟩ | ⟨hvertex, -⟩⟩ | ⟨hnone, hindex, -⟩
  · cases hvertex.symm.trans hposition
  · cases hvertex.symm.trans hposition
  · obtain ⟨hstart, hstop⟩ := vertex?_eq_none_iff.mp hnone
    rw [edge_snapOf, snapped_snapOf, hindex]
    exact ⟨c.t, hstart, hstop, projectsTo_of_mem_candidatesNear hc⟩

end RoadGraph
end RoadAudit
