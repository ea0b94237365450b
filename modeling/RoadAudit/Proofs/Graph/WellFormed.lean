import RoadAudit.Proofs.Graph.Placement
import RoadAudit.Proofs.Numeric.BinaryOrder

/-! # Well-formed matches

What a match says of itself is so: its distance is the one to its place, its place is the node or the
point of the course that its position and its index name, and its closest node is an end of its edge.
Coordinates, query and radius may be any numbers, also none, and the index may yield the segments in
any order. -/

namespace RoadAudit

open scoped Scalar

/-! ## Projections to an end -/

section Ends

variable {α : Type} [Scalar α] [Scalar.LawfulOrder α] (hunit : (0 : α) < 1)
include hunit

theorem same_clamp_of_le_zero {x : α} (h : Scalar.clamp 0 1 x ≤ 0) :
    Scalar.same (Scalar.clamp 0 1 x) 0 = true := by
  have hzero : Scalar.IsNumber (0 : α) := Scalar.IsNumber.left (Scalar.le_of_lt hunit)
  suffices hge : 0 ≤ Scalar.clamp 0 1 x by simp [Scalar.same, h, hge]
  unfold Scalar.clamp at h ⊢
  split
  case isTrue => exact hzero
  case isFalse hlow =>
    rw [if_neg hlow] at h
    split
    case isTrue => exact Scalar.le_of_lt hunit
    case isFalse hhigh =>
      rw [if_neg hhigh] at h
      exact Scalar.le_of_not_lt (Scalar.IsNumber.left h) hzero hlow

theorem same_clamp_of_one_le {x : α} (h : 1 ≤ Scalar.clamp 0 1 x) :
    Scalar.same (Scalar.clamp 0 1 x) 1 = true := by
  have hone : Scalar.IsNumber (1 : α) := Scalar.IsNumber.right (Scalar.le_of_lt hunit)
  suffices hle : Scalar.clamp 0 1 x ≤ 1 by simp [Scalar.same, h, hle]
  unfold Scalar.clamp at h ⊢
  split
  case isTrue => exact Scalar.le_of_lt hunit
  case isFalse hlow =>
    rw [if_neg hlow] at h
    split
    case isTrue => exact hone
    case isFalse hhigh =>
      rw [if_neg hhigh] at h
      exact Scalar.le_of_not_lt hone (Scalar.IsNumber.right h) hhigh

/-- A projection whose share is not above zero is the start of the segment as it was given, and one
whose share is not below one is the end. -/
theorem ends_of_project {plane : TangentPlane α} {p a b q : Point α} {t : α}
    (h : plane.project p a b = ⟨t, q⟩) : (t ≤ 0 → q = a) ∧ (¬ t ≤ 0 → 1 ≤ t → q = b) := by
  have hzero : (0 : α) ≤ 0 := Scalar.IsNumber.left (Scalar.le_of_lt hunit)
  unfold TangentPlane.project at h
  dsimp only at h
  split at h
  case isTrue =>
    obtain ⟨rfl, rfl⟩ := Projection.mk.inj h
    exact ⟨fun _ => rfl, fun hpos => absurd hzero hpos⟩
  case isFalse =>
    split at h
    case isTrue hsame =>
      obtain ⟨rfl, rfl⟩ := Projection.mk.inj h
      have hle := of_decide_eq_true (Bool.and_eq_true_iff.mp hsame).1
      exact ⟨fun _ => rfl, fun hpos => absurd hle hpos⟩
    case isFalse hstart =>
      split at h
      case isTrue hsame =>
        obtain ⟨rfl, rfl⟩ := Projection.mk.inj h
        exact ⟨fun hle => absurd (same_clamp_of_le_zero hunit hle) hstart, fun _ _ => rfl⟩
      case isFalse hstop =>
        obtain ⟨rfl, rfl⟩ := Projection.mk.inj h
        exact ⟨fun hle => absurd (same_clamp_of_le_zero hunit hle) hstart,
          fun _ hge => absurd (same_clamp_of_one_le hunit hge) hstop⟩

end Ends

namespace RoadGraph

section Places

variable {α : Type} [Scalar α] {g : RoadGraph α} {query : Point α} {radius : α}

theorem snapped_of_vertex? [Scalar.LawfulOrder α] (hunit : (0 : α) < 1) {c : Candidate α} {v : Nat}
    (hprojects : ProjectsTo query (g.course c.view.edge) c.segment c.t c.snapped)
    (hv : Candidate.vertex? c = some v) : (g.course c.view.edge)[v]? = some c.snapped := by
  obtain ⟨a, b, ha, hb, hproject⟩ := hprojects
  obtain ⟨hstart, hstop⟩ := ends_of_project hunit hproject
  unfold Candidate.vertex? at hv
  split at hv
  case isTrue hle =>
    obtain rfl := Option.some.inj hv
    rw [hstart hle, ha]
  case isFalse hpos =>
    split at hv
    case isTrue hge =>
      obtain rfl := Option.some.inj hv
      rw [hstop hpos hge, hb]
    case isFalse => cases hv

theorem closestNode_of_last (g : RoadGraph α) (query : Point α) {c : Candidate α} {v : Nat}
    (h : Candidate.vertex? c = some v) (hpos : v ≠ 0)
    (hlast : v = (g.course c.view.edge).length - 1) :
    (g.snapOf query c).closestNode = c.view.edge.adj := by
  unfold snapOf
  dsimp only
  rw [h]
  dsimp only
  rw [if_neg hpos, if_pos hlast]

theorem query_snapOf (g : RoadGraph α) (query : Point α) (c : Candidate α) :
    (g.snapOf query c).query = query := by
  unfold snapOf
  dsimp only
  split
  · split
    · rfl
    · split <;> rfl
  · rfl

end Places

theorem ends_of_course {α : Type} {g : RoadGraph α} {e : Edge α} (he : e ∈ g.edges) :
    (g.course e)[0]? = g.point? e.base ∧
      (g.course e)[(g.course e).length - 1]? = g.point? e.adj := by
  obtain ⟨hbase, hadj⟩ := g.ends e he
  obtain ⟨p, hp⟩ := exists_point? hbase
  obtain ⟨q, hq⟩ := exists_point? hadj
  have hcourse : g.course e = (p :: e.pillars) ++ [q] := by simp [course, hp, hq]
  rw [hcourse, hp, hq]
  exact ⟨rfl, by simp⟩

/-! ## What a match says -/

section WellFormed

variable {α : Type} [Scalar α]

/-- Whether a match says what is so: of its edge, of the way to its place, and of where on the course
of the edge that place is. -/
structure WellFormed (g : RoadGraph α) (query : Point α) (radius : α) (s : Snap α) : Prop where
  stored : g.edges[s.edge.id]? = some s.edge.edge
  shown : g.isRemoved s.edge.edge.base = false ∧ g.isRemoved s.edge.edge.adj = false
  query_eq : s.query = query
  distance_eq : s.distance = haversine query s.snapped
  within : ¬ radius < s.distance
  closest : s.closestNode = s.edge.edge.base ∨ s.closestNode = s.edge.edge.adj
  tower : s.position = .tower →
    (s.wayIndex = 0 ∧ s.closestNode = s.edge.edge.base ∨
      s.wayIndex + 1 = (g.course s.edge.edge).length ∧ s.closestNode = s.edge.edge.adj) ∧
    g.point? s.closestNode = some s.snapped
  pillar : s.position = .pillar → 0 < s.wayIndex ∧
    s.wayIndex + 1 < (g.course s.edge.edge).length ∧
    (g.course s.edge.edge)[s.wayIndex]? = some s.snapped
  edge : s.position = .edge → s.wayIndex + 1 < (g.course s.edge.edge).length

/-- Whether some matches are the answer to a search by place, with the segments that meet the box
around the query in whatever order the index yields them. -/
def IsAnswer (g : RoadGraph α) (query : Point α) (radius : α) (snaps : List (Snap α)) : Prop :=
  ∃ found, found.Perm (g.segmentsMeeting (Box.around query radius)) ∧
    g.snapsIn query radius found = snaps

theorem isAnswer_nearest (g : RoadGraph α) (query : Point α) (radius : α) :
    g.IsAnswer query radius (g.nearest query radius) := ⟨_, .refl _, rfl⟩

variable {g : RoadGraph α} {query : Point α} {radius : α} {snaps : List (Snap α)}

theorem IsAnswer.ascending (h : g.IsAnswer query radius snaps) :
    snaps.Pairwise fun s t => s.edge.id < t.edge.id := by
  obtain ⟨found, -, rfl⟩ := h
  rw [snapsIn, List.pairwise_map]
  simp only [edge_snapOf]
  exact ascending_nearestOfEach _

theorem IsAnswer.candidate_of_mem (h : g.IsAnswer query radius snaps) {s : Snap α} (hs : s ∈ snaps) :
    ∃ c ∈ g.candidatesNear query radius, g.snapOf query c = s := by
  obtain ⟨found, hperm, rfl⟩ := h
  obtain ⟨c, hc, hsnap⟩ := List.mem_map.mp hs
  exact ⟨c, (hperm.filterMap _).mem_iff.mp (mem_of_mem_nearestOfEach hc), hsnap⟩

variable [Scalar.LawfulOrder α] (hunit : (0 : α) < 1) {c : Candidate α}
  (hc : c ∈ g.candidatesNear query radius)
include hunit hc

theorem tower_snapOf (hposition : (g.snapOf query c).position = .tower) :
    ((g.snapOf query c).wayIndex = 0 ∧ (g.snapOf query c).closestNode = c.view.edge.base ∨
      (g.snapOf query c).wayIndex + 1 = (g.course c.view.edge).length ∧
        (g.snapOf query c).closestNode = c.view.edge.adj) ∧
    g.point? (g.snapOf query c).closestNode = some c.snapped := by
  have hstored := edge_mem_of_mem_views (of_mem_candidatesNear hc).1
  have hlength := length_course hstored
  obtain ⟨hfirst, hlast⟩ := ends_of_course hstored
  rcases snapOf_cases g query c with ⟨v, hv, hindex, ⟨-, hend⟩ | ⟨hvertex, -⟩⟩ | ⟨-, -, hvertex⟩
  · have hplace := snapped_of_vertex? hunit (projectsTo_of_mem_candidatesNear hc) hv
    rw [hindex]
    by_cases hzero : v = 0
    · subst hzero
      have hclosest := (snapOf_of_first g query hv).2
      rw [hclosest, ← hfirst]
      exact ⟨.inl ⟨rfl, rfl⟩, hplace⟩
    · have hv' := hend.resolve_left hzero
      rw [closestNode_of_last g query hv hzero hv', ← hlast, ← hv']
      exact ⟨.inr ⟨by omega, rfl⟩, hplace⟩
  · cases hvertex.symm.trans hposition
  · cases hvertex.symm.trans hposition

theorem pillar_snapOf (hposition : (g.snapOf query c).position = .pillar) :
    0 < (g.snapOf query c).wayIndex ∧
      (g.snapOf query c).wayIndex + 1 < (g.course c.view.edge).length ∧
      (g.course c.view.edge)[(g.snapOf query c).wayIndex]? = some c.snapped := by
  rcases snapOf_cases g query c with ⟨v, hv, hindex, ⟨hvertex, -⟩ | ⟨-, hinner⟩⟩ | ⟨-, -, hvertex⟩
  · cases hvertex.symm.trans hposition
  · have hplace := snapped_of_vertex? hunit (projectsTo_of_mem_candidatesNear hc) hv
    have hlt := (List.getElem?_eq_some_iff.mp hplace).1
    rw [hindex]
    exact ⟨Nat.pos_of_ne_zero hinner.1, by omega, hplace⟩
  · cases hvertex.symm.trans hposition

omit [Scalar.LawfulOrder α] hunit in
theorem wayIndex_snapOf (hposition : (g.snapOf query c).position = .edge) :
    (g.snapOf query c).wayIndex + 1 < (g.course c.view.edge).length := by
  rcases snapOf_cases g query c with ⟨v, -, -, ⟨hvertex, -⟩ | ⟨hvertex, -⟩⟩ | ⟨-, hindex, -⟩
  · cases hvertex.symm.trans hposition
  · cases hvertex.symm.trans hposition
  · obtain ⟨a, b, -, hb, -⟩ := projectsTo_of_mem_candidatesNear hc
    rw [hindex]
    exact (List.getElem?_eq_some_iff.mp hb).1

theorem wellFormed_snapOf : g.WellFormed query radius (g.snapOf query c) := by
  obtain ⟨hview, hshown, t, -, hdistance, hle⟩ := of_mem_candidatesNear hc
  constructor
  case stored =>
    rw [edge_snapOf]
    exact (mem_views.mp hview).1
  case shown =>
    rw [edge_snapOf]
    exact Bool.or_eq_false_iff.mp hshown
  case query_eq => exact query_snapOf g query c
  case distance_eq =>
    rw [distance_snapOf, snapped_snapOf]
    exact distance_of_mem_candidatesNear hc
  case within =>
    rwa [distance_snapOf, hdistance]
  case closest =>
    rw [edge_snapOf]
    exact closestNode_snapOf g query c
  case tower =>
    rw [edge_snapOf, snapped_snapOf]
    exact tower_snapOf hunit hc
  case pillar =>
    rw [edge_snapOf, snapped_snapOf]
    exact pillar_snapOf hunit hc
  case edge =>
    rw [edge_snapOf]
    exact wayIndex_snapOf hc

end WellFormed

/-- Whatever the numbers are, the matches of a search by place ascend strictly by the id of their
edge, and each says what is so. -/
theorem answers_wellFormed (g : RoadGraph Float) (query : Point Float) (radius : Float)
    {snaps : List (Snap Float)} (h : g.IsAnswer query radius snaps) :
    (snaps.Pairwise fun s t => s.edge.id < t.edge.id) ∧
      ∀ s ∈ snaps, g.WellFormed query radius s := by
  have hunit : (Scalar.ofNat 0 : Float) < Scalar.ofNat 1 := by decide
  refine ⟨h.ascending, fun s hs => ?_⟩
  obtain ⟨c, hc, rfl⟩ := h.candidate_of_mem hs
  exact wellFormed_snapOf hunit hc

/-- A road with a bend, and a loop at its end. -/
def bendAndLoop : RoadGraph Float where
  nodes := #[⟨⟨50, 8⟩, false⟩, ⟨⟨50, 9⟩, false⟩]
  edges := #[⟨0, 1, 5, default, [⟨51, 8⟩]⟩, ⟨1, 1, 6, default, [⟨50, 10⟩, ⟨51, 10⟩]⟩]
  ends := by decide

/-- The index may yield the last segment first. -/
theorem answers_wellFormed_bendAndLoop : ∃ snaps,
    bendAndLoop.snapsIn ⟨50, 8⟩ 15 (bendAndLoop.segmentsMeeting (Box.around ⟨50, 8⟩ 15)).reverse =
      snaps ∧
    bendAndLoop.IsAnswer ⟨50, 8⟩ 15 snaps ∧ (snaps.Pairwise fun s t => s.edge.id < t.edge.id) ∧
      ∀ s ∈ snaps, bendAndLoop.WellFormed ⟨50, 8⟩ 15 s := by
  refine ⟨_, rfl, ?_⟩
  have hanswer : bendAndLoop.IsAnswer ⟨50, 8⟩ 15 (bendAndLoop.snapsIn ⟨50, 8⟩ 15
      (bendAndLoop.segmentsMeeting (Box.around ⟨50, 8⟩ 15)).reverse) :=
    ⟨_, List.reverse_perm _, rfl⟩
  exact ⟨hanswer, answers_wellFormed bendAndLoop ⟨50, 8⟩ 15 hanswer⟩

end RoadGraph
end RoadAudit
