import RoadAudit.Proofs.Graph.Candidates

/-! # What the search by place matches

A match stands for a segment of its edge whose box meets the box around the query: it carries the
distance of the projection on that segment, which is not beyond the radius, and no other such
segment of the edge is nearer. An edge with such a segment is matched, unless it is hidden, and the
matches ascend by the id of their edge. -/

namespace RoadAudit
namespace RoadGraph

open scoped Scalar

variable {α : Type}

theorem view_of_mem_segmentsOf {g : RoadGraph α} {v : EdgeView α} {s : IndexedSegment α}
    (h : s ∈ g.segmentsOf v) : s.view = v := by
  obtain ⟨p, -, rfl⟩ := List.mem_map.mp h
  rfl

variable [Scalar α]

def projectedDistance (query : Point α) (s : IndexedSegment α) : α :=
  haversine query (query.tangentPlane.project query s.start s.stop).point

def segmentsNear (g : RoadGraph α) (query : Point α) (radius : α) (v : EdgeView α) :
    List (IndexedSegment α) :=
  (g.segmentsOf v).filter fun s => (Box.ofSegment s.start s.stop).meets (Box.around query radius)

theorem mem_segmentsMeeting {g : RoadGraph α} {query : Point α} {radius : α}
    {s : IndexedSegment α} :
    s ∈ g.segmentsMeeting (Box.around query radius) ↔
      s.view ∈ g.views ∧ s ∈ g.segmentsNear query radius s.view := by
  unfold segmentsMeeting segmentsNear indexedSegments
  rw [List.mem_filter, List.mem_filter, List.mem_flatMap, ← and_assoc]
  refine and_congr_left fun _ => ⟨?_, fun h => ⟨s.view, h⟩⟩
  rintro ⟨v, hv, hs⟩
  rw [view_of_mem_segmentsOf hs]
  exact ⟨hv, hs⟩

theorem candidate?_eq_some {g : RoadGraph α} {query : Point α} {radius : α}
    {s : IndexedSegment α} {c : Candidate α} (h : g.candidate? query radius s = some c) :
    c.view = s.view ∧ c.distance = projectedDistance query s ∧ g.isHidden s.view.edge = false ∧
      ¬ radius < projectedDistance query s := by
  unfold candidate? at h
  split at h
  case isTrue => cases h
  case isFalse hshown =>
    dsimp only at h
    split at h
    case isTrue => cases h
    case isFalse hle =>
      obtain rfl := Option.some.inj h
      exact ⟨rfl, rfl, by simpa using hshown, hle⟩

theorem exists_candidate {g : RoadGraph α} {query : Point α} {radius : α} {s : IndexedSegment α}
    (hshown : g.isHidden s.view.edge = false) (hle : ¬ radius < projectedDistance query s) :
    ∃ c, g.candidate? query radius s = some c ∧ c.view = s.view ∧
      c.distance = projectedDistance query s := by
  unfold candidate?
  unfold projectedDistance at hle
  rw [hshown, if_neg (by decide)]
  dsimp only
  rw [if_neg hle]
  exact ⟨_, rfl, rfl, rfl⟩

@[simp] theorem edge_snapOf (g : RoadGraph α) (query : Point α) (c : Candidate α) :
    (g.snapOf query c).edge = c.view := by
  unfold snapOf
  dsimp only
  split
  · split
    · rfl
    · split <;> rfl
  · rfl

@[simp] theorem distance_snapOf (g : RoadGraph α) (query : Point α) (c : Candidate α) :
    (g.snapOf query c).distance = c.distance := by
  unfold snapOf
  dsimp only
  split
  · split
    · rfl
    · split <;> rfl
  · rfl

def candidatesNear (g : RoadGraph α) (query : Point α) (radius : α) : List (Candidate α) :=
  (g.segmentsMeeting (Box.around query radius)).filterMap (g.candidate? query radius)

theorem nearest_eq (g : RoadGraph α) (query : Point α) (radius : α) :
    g.nearest query radius =
      (nearestOfEach (g.candidatesNear query radius)).map (g.snapOf query) := rfl

theorem of_mem_candidatesNear {g : RoadGraph α} {query : Point α} {radius : α} {c : Candidate α}
    (h : c ∈ g.candidatesNear query radius) :
    c.view ∈ g.views ∧ g.isHidden c.view.edge = false ∧
      ∃ s ∈ g.segmentsNear query radius c.view,
        c.distance = projectedDistance query s ∧ ¬ radius < projectedDistance query s := by
  obtain ⟨s, hs, hc⟩ := List.mem_filterMap.mp h
  obtain ⟨hview, hdistance, hshown, hle⟩ := candidate?_eq_some hc
  obtain ⟨hv, hnear⟩ := mem_segmentsMeeting.mp hs
  rw [hview]
  exact ⟨hv, hshown, s, hnear, hdistance, hle⟩

theorem exists_mem_candidatesNear {g : RoadGraph α} {query : Point α} {radius : α}
    {v : EdgeView α} (hv : v ∈ g.views) (hshown : g.isHidden v.edge = false)
    {s : IndexedSegment α} (hs : s ∈ g.segmentsNear query radius v)
    (hle : ¬ radius < projectedDistance query s) :
    ∃ c ∈ g.candidatesNear query radius, c.view = v ∧ c.distance = projectedDistance query s := by
  obtain rfl : s.view = v := view_of_mem_segmentsOf (List.mem_filter.mp hs).1
  obtain ⟨c, hc, hview, hdistance⟩ := exists_candidate hshown hle
  exact ⟨c, List.mem_filterMap.mpr ⟨s, mem_segmentsMeeting.mpr ⟨hv, hs⟩, hc⟩, hview, hdistance⟩

section Nearest

variable {g : RoadGraph α} {query : Point α} {radius : α}

theorem closerEnd_mem (course : List (Point α)) (e : Edge α) (wayIndex : Nat) (place : Point α) :
    closerEnd course e wayIndex place = e.base ∨ closerEnd course e wayIndex place = e.adj := by
  unfold closerEnd
  exact ite_eq_or_eq _ _ _

theorem closestNode_snapOf (g : RoadGraph α) (query : Point α) (c : Candidate α) :
    (g.snapOf query c).closestNode = c.view.edge.base ∨
      (g.snapOf query c).closestNode = c.view.edge.adj := by
  unfold snapOf
  dsimp only
  split
  · split
    · exact .inl rfl
    · split
      · exact .inr rfl
      · exact closerEnd_mem _ _ _ _
  · exact closerEnd_mem _ _ _ _

theorem candidate_of_mem_nearest {s : Snap α} (h : s ∈ g.nearest query radius) :
    ∃ c ∈ g.candidatesNear query radius, g.snapOf query c = s := by
  rw [nearest_eq] at h
  obtain ⟨c, hc, hs⟩ := List.mem_map.mp h
  exact ⟨c, mem_of_mem_nearestOfEach hc, hs⟩

theorem edge_of_mem_nearest {s : Snap α} (h : s ∈ g.nearest query radius) :
    g.edges[s.edge.id]? = some s.edge.edge := by
  obtain ⟨c, hc, rfl⟩ := candidate_of_mem_nearest h
  rw [edge_snapOf]
  exact (mem_views.mp (of_mem_candidatesNear hc).1).1

theorem closestNode_of_mem_nearest {s : Snap α} (h : s ∈ g.nearest query radius) :
    s.edge.edge.base = s.closestNode ∨ s.edge.edge.adj = s.closestNode := by
  obtain ⟨c, -, rfl⟩ := candidate_of_mem_nearest h
  rw [edge_snapOf, eq_comm, eq_comm (a := c.view.edge.adj)]
  exact closestNode_snapOf g query c

theorem within_of_mem_nearest {s : Snap α} (h : s ∈ g.nearest query radius) :
    ¬ radius < s.distance := by
  obtain ⟨c, hc, rfl⟩ := candidate_of_mem_nearest h
  obtain ⟨-, -, t, -, hdistance, hle⟩ := of_mem_candidatesNear hc
  rwa [distance_snapOf, hdistance]

/-- The matches ascend by the id of their edge, so an edge is matched once. -/
theorem ascending_nearest (g : RoadGraph α) (query : Point α) (radius : α) :
    (g.nearest query radius).Pairwise fun s t => s.edge.id < t.edge.id := by
  rw [nearest_eq, List.pairwise_map]
  simp only [edge_snapOf]
  exact ascending_nearestOfEach (g.candidatesNear query radius)

end Nearest

variable [Scalar.LawfulOrder α]

/-- A match stands for a segment near the query, and no other such segment of its edge is
nearer. -/
theorem of_mem_nearest {g : RoadGraph α} {query : Point α} {radius : α} {snap : Snap α}
    (h : snap ∈ g.nearest query radius) {v : EdgeView α} (hedge : snap.edge = v) :
    g.isHidden v.edge = false ∧
      ∃ s ∈ g.segmentsNear query radius v, snap.distance = projectedDistance query s ∧
        ¬ radius < projectedDistance query s ∧
        ∀ s' ∈ g.segmentsNear query radius v, ¬ radius < projectedDistance query s' →
          ¬ projectedDistance query s' < projectedDistance query s := by
  subst hedge
  rw [nearest_eq] at h
  obtain ⟨c, hc, rfl⟩ := List.mem_map.mp h
  obtain ⟨hv, hshown, s, hs, hdistance, hle⟩ :=
    of_mem_candidatesNear (mem_of_mem_nearestOfEach hc)
  rw [edge_snapOf, distance_snapOf]
  refine ⟨hshown, s, hs, hdistance, hle, fun s' hs' hle' => ?_⟩
  obtain ⟨c', hc', hview, hdistance'⟩ := exists_mem_candidatesNear hv hshown hs' hle'
  rw [← hdistance, ← hdistance']
  exact not_lt_of_mem_nearestOfEach hc hc' (by rw [hview])

theorem exists_mem_nearest {g : RoadGraph α} {query : Point α} {radius : α} {v : EdgeView α}
    (hv : v ∈ g.views) (hshown : g.isHidden v.edge = false) {s : IndexedSegment α}
    (hs : s ∈ g.segmentsNear query radius v) (hle : ¬ radius < projectedDistance query s) :
    ∃ snap ∈ g.nearest query radius, snap.edge = v := by
  obtain ⟨c, hc, hview, -⟩ := exists_mem_candidatesNear hv hshown hs hle
  obtain ⟨b, hb, hid, -⟩ := exists_mem_nearestOfEach hc
  obtain ⟨hbv, -⟩ := of_mem_candidatesNear (mem_of_mem_nearestOfEach hb)
  refine ⟨g.snapOf query b, List.mem_map_of_mem hb, ?_⟩
  rw [edge_snapOf]
  exact view_eq_of_id hbv hv (by rw [hid, hview])

end RoadGraph
end RoadAudit
