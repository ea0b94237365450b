import Mathlib.Tactic
import RoadAudit.Proofs.Audit.Suppression
import RoadAudit.Proofs.Graph.FirstAccepted

/-! # Short ways round suppress a gap

A path for pedestrians that ends before a node of another road is not reported if the way round is
less than twice as long as the gap. What counts is the way that the search accepts, the first one
within the limit that it sees. A shortest way may be short enough and still be overlooked, if an
edge leads to the node from a nearer place. -/

namespace RoadAudit

open scoped Scalar

namespace AuditContext

variable {α : Type} [Scalar α]

/-- Whether a path for pedestrians is a dead end and faces a node of another road. -/
structure FacesNode (ctx : AuditContext α) (n : Nat) (openEnd : Point α) (e : EdgeView α)
    (s : Snap α) : Prop where
  faces : ctx.Faces n openEnd e s
  path : e.edge.flags.roadClass.isPedestrianPath = true
  tower : s.position = .tower

/-- Whether the check of a node succeeds and finds no missing connection. -/
def FindsNoGap (ctx : AuditContext α) (n : Nat) : Prop :=
  ∃ fs, ctx.checkNode n = .ok fs ∧ missingOf fs = []

variable {ctx : AuditContext α} {n : Nat} {osmId : UInt64} {openEnd : Point α} {e : EdgeView α}
  {s : Snap α}

/-! ## Suppressed gaps -/

theorem shortcut_of_lt_two {r : Route α} {gap : α} (hok : r.status = .ok)
    (hlt : r.distance / gap < 2) : shortcut r gap = suppression := by
  unfold shortcut
  rw [hok]
  exact if_pos hlt

theorem shortcut_of_two_le {r : Route α} {gap : α} (hle : ¬ r.distance / gap < 2) :
    shortcut r gap = 0 ∨ shortcut r gap = 1 := by
  unfold shortcut
  dsimp only
  split
  · rw [if_neg hle]
    exact (ite_eq_or_eq _ _ _).symm
  · exact .inl rfl

/-- With routes compared, what is added for a path that faces a node depends on the way to that
node. -/
theorem FacesNode.decrement_eq (h : ctx.FacesNode n openEnd e s)
    (hrouting : ctx.settings.doRouting = true) :
    ctx.decrement n openEnd e s =
      .ok (shortcut (ctx.graph.route ctx.searchLimits n s.closestNode) s.distance) := by
  unfold decrement wayRound
  simp only [RoadClass.isDrivewayLike_of_isPedestrianPath h.path, h.path, hrouting, h.tower]
  rfl

theorem gapAt_of_suppressed (hadded : ctx.decrement n openEnd e s = .ok suppression) :
    ctx.gapAt n osmId openEnd e s = .ok none := by
  rw [gapAt_eq, hadded]
  split
  case isTrue => rfl
  case isFalse =>
    split
    case isTrue => rfl
    case isFalse hbase =>
      have hhidden : ¬ isReported (ctx.basePriority e s + suppression) = true := by
        rw [isReported_iff, suppression]
        omega
      simp [Except.map, hhidden]

theorem findsNoGap_of_missingAt (hid : ctx.nodeIds.osmId? n = some osmId)
    (h : ctx.missingAt n osmId = .ok none) : ctx.FindsNoGap n := by
  unfold FindsNoGap checkNode
  split
  case isTrue => exact ⟨[], rfl, rfl⟩
  case isFalse =>
    simp only [hid, h]
    exact ⟨_, rfl, by simp⟩

/-! ## A path that leads round -/

def pathFlags : RoadFlags := .pack .footway false .ground false

def loopIds : IdTable := ⟨.nodes, #[10, 11, 12, 13, 14]⟩

/-- Footways on the prime meridian. The first leads north from the origin and forks; both branches
turn back to a node nine metres from the origin, along an edge of the given length and by a way of
length three. -/
noncomputable def loopPath (length : ℝ) : AuditContext ℝ where
  graph :=
    { nodes := #[⟨⟨0, 0⟩, false⟩, ⟨⟨1, 0⟩, false⟩, ⟨⟨2, 0⟩, false⟩, ⟨⟨1 / 12500, 0⟩, false⟩,
        ⟨⟨3, 0⟩, false⟩]
      edges := #[⟨0, 1, 1, pathFlags, []⟩, ⟨1, 2, 1, pathFlags, []⟩,
        ⟨3, 2, length, pathFlags, []⟩, ⟨1, 4, 2, pathFlags, []⟩, ⟨3, 4, 1, pathFlags, []⟩]
      ends := by simp }
  nodeIds := loopIds
  wayIds := ⟨.ways, #[500, 501, 502, 503, 504]⟩
  barriers := default
  settings := { (default : Settings ℝ) with doRouting := true }

noncomputable def loopEnd : EdgeView ℝ := ⟨0, ⟨0, 1, 1, pathFlags, []⟩, false⟩

noncomputable def loopRest (length : ℝ) : EdgeView ℝ := ⟨2, ⟨3, 2, length, pathFlags, []⟩, false⟩

variable {length : ℝ}

theorem mem_edges_loopPath {f : Edge ℝ} : f ∈ (loopPath length).graph.edges ↔
    f = ⟨0, 1, 1, pathFlags, []⟩ ∨ f = ⟨1, 2, 1, pathFlags, []⟩ ∨
      f = ⟨3, 2, length, pathFlags, []⟩ ∨ f = ⟨1, 4, 2, pathFlags, []⟩ ∨
      f = ⟨3, 4, 1, pathFlags, []⟩ := by
  simp [loopPath]

theorem hasLengths_loopPath (length : ℝ) (hlength : 0 ≤ length) :
    (loopPath length).graph.HasLengths := by
  intro f hf
  change ((0 : ℕ) : ℝ) ≤ f.length
  rw [Nat.cast_zero]
  rcases mem_edges_loopPath.mp hf with rfl | rfl | rfl | rfl | rfl
  · exact zero_le_one
  · exact zero_le_one
  · exact hlength
  · exact zero_le_two
  · exact zero_le_one

theorem radius_loopPath (length : ℝ) : (loopPath length).settings.radius = 15 := by
  change ((15 : ℕ) : ℝ) = 15
  norm_num

theorem routingMaxDistance_loopPath (length : ℝ) :
    (loopPath length).settings.routingMaxDistance = 90 := by
  change ((15 : ℕ) : ℝ) * ((6 : ℕ) : ℝ) = 90
  norm_num

theorem few_loopPath (length m : ℝ) : ((loopPath length).graph.within 0 m).encard <
    ((loopPath length).settings.routingMaxNodes : Nat) :=
  lt_of_le_of_lt (RoadGraph.encard_within_le _ 0 m) (Nat.cast_lt.mpr (by decide : 6 < 80))

theorem isChecked_loopPath : (loopPath length).IsChecked 0 :=
  ⟨rfl, ⟨10, (by decide : loopIds.osmId? 0 = some 10)⟩, (by decide : loopIds.noExit 0 = false)⟩

theorem isDeadEnd_loopPath : (loopPath length).graph.IsDeadEnd 0 loopEnd :=
  deadEnd?_eq_some_iff.mp rfl

theorem mem_segmentsNear_loopRest (length : ℝ) :
    (⟨loopRest length, 0, ⟨1 / 12500, 0⟩, ⟨2, 0⟩⟩ : IndexedSegment ℝ) ∈
      (loopPath length).graph.segmentsNear ⟨0, 0⟩ 15 (loopRest length) := by
  have hnear := (RoadGraph.mem_segmentsNear_meridian (a := 1 / 12500) (b := 2) (r := 15)
    (by norm_num) (by norm_num) (by norm_num)).mpr (by norm_num)
  exact List.mem_filter.mpr ⟨List.mem_singleton_self _, (List.mem_filter.mp hnear).2⟩

theorem exists_snap_loopPath (length : ℝ) :
    ∃ s ∈ (loopPath length).graph.nearest ⟨0, 0⟩ 15, s.edge = loopRest length := by
  refine RoadGraph.exists_mem_nearest (by simp [RoadGraph.views, loopPath, loopRest]) rfl
    (mem_segmentsNear_loopRest length) ?_
  change ¬ 15 < RoadGraph.projectedDistance ⟨0, 0⟩ (RoadGraph.meridianSegment (1 / 12500) 2)
  rw [RoadGraph.projectedDistance_meridian (by norm_num) (by norm_num) (by norm_num), radians_real]
  exact not_lt.mpr (brokenWidth_bounds.2.trans (by norm_num)).le

theorem edge_of_unconnected_loopPath {s : Snap ℝ}
    (h : (loopPath length).IsUnconnected ⟨0, 0⟩ loopEnd s) :
    (s.edge.id = 2 ∧ s.edge.edge = ⟨3, 2, length, pathFlags, []⟩) ∨
      (s.edge.id = 4 ∧ s.edge.edge = ⟨3, 4, 1, pathFlags, []⟩) := by
  have hstored := RoadGraph.edge_of_mem_nearest h.found
  have hend := RoadGraph.closestNode_of_mem_nearest h.found
  have hbeside : s.edge.edge.base ≠ 1 := by
    intro hbase
    rcases hend with hend | hend
    · exact h.farEnd (hend.symm.trans hbase)
    · exact h.neighbour ⟨s.edge.edge, Array.mem_of_getElem? hstored, .inl ⟨hbase, hend⟩⟩
  have hown := h.edge
  generalize s.edge.id = i at hstored hown ⊢
  generalize s.edge.edge = e at hstored hbeside ⊢
  have hlt : i < 5 := (Array.getElem?_eq_some_iff.mp hstored).1
  interval_cases i <;> obtain rfl := Option.some.inj hstored
  case «0» => exact absurd rfl hown
  case «1» => exact absurd rfl hbeside
  case «2» => exact .inl ⟨rfl, rfl⟩
  case «3» => exact absurd rfl hbeside
  case «4» => exact .inr ⟨rfl, rfl⟩

theorem snap_loopPath {s : Snap ℝ} {r b : ℝ} (hs : s ∈ (loopPath length).graph.nearest ⟨0, 0⟩ r)
    (hb : 1 / 12500 ≤ b)
    (hcourse : (loopPath length).graph.course s.edge.edge = [⟨1 / 12500, 0⟩, ⟨b, 0⟩]) :
    s.position = .tower ∧ s.closestNode = s.edge.edge.base ∧ s.distance = brokenWidth := by
  obtain ⟨hposition, hclosest, -, hdistance⟩ :=
    RoadGraph.of_mem_nearest_meridian hs (by norm_num) hb (by norm_num) hcourse
  exact ⟨hposition, hclosest, by rw [hdistance, radians_real, brokenWidth]⟩

theorem of_unconnected_loopPath {s : Snap ℝ}
    (h : (loopPath length).IsUnconnected ⟨0, 0⟩ loopEnd s) :
    2 ≤ s.edge.id ∧ s.position = .tower ∧ s.closestNode = 3 ∧ s.distance = brokenWidth := by
  rcases edge_of_unconnected_loopPath h with ⟨hid, hedge⟩ | ⟨hid, hedge⟩
  · obtain ⟨hposition, hclosest, hdistance⟩ :=
      snap_loopPath (b := 2) h.found (by norm_num) (by rw [hedge]; rfl)
    exact ⟨hid.ge, hposition, hclosest.trans (by rw [hedge]), hdistance⟩
  · obtain ⟨hposition, hclosest, hdistance⟩ :=
      snap_loopPath (b := 3) h.found (by norm_num) (by rw [hedge]; rfl)
    exact ⟨by omega, hposition, hclosest.trans (by rw [hedge]), hdistance⟩

theorem isUnconnected_loopPath {s : Snap ℝ} (hs : s ∈ (loopPath length).graph.nearest ⟨0, 0⟩ 15)
    (hedge : s.edge = loopRest length) :
    (loopPath length).IsUnconnected ⟨0, 0⟩ loopEnd s := by
  obtain ⟨-, hclosest, hdistance⟩ :=
    snap_loopPath (b := 2) hs (by norm_num) (by rw [hedge]; rfl)
  rw [hedge] at hclosest
  constructor
  case found => rwa [radius_loopPath]
  case edge =>
    rw [hedge]
    exact (by decide : 2 ≠ 0)
  case farEnd =>
    rw [hclosest]
    exact (by decide : 3 ≠ 1)
  case neighbour =>
    rw [hclosest]
    rintro ⟨e, he, hjoins⟩
    rcases mem_edges_loopPath.mp he with rfl | rfl | rfl | rfl | rfl <;>
      simp [Edge.Joins, loopEnd, loopRest, EdgeView.adj] at hjoins
  case level =>
    rw [hedge]
    have hground : pathFlags.level.Covers 0 := by decide
    exact fun _ _ => ⟨0, hground, hground⟩
  case apart =>
    rw [hdistance]
    change ((0 : ℕ) : ℝ) < brokenWidth
    rw [Nat.cast_zero]
    linarith [brokenWidth_bounds.1]

theorem exists_facesNode_loopPath (length : ℝ) :
    ∃ s, (loopPath length).FacesNode 0 ⟨0, 0⟩ loopEnd s ∧ s.closestNode = 3 ∧
      s.distance = brokenWidth := by
  obtain ⟨s, hs, hedge⟩ := exists_snap_loopPath length
  have hunconnected := isUnconnected_loopPath hs hedge
  obtain ⟨-, hposition, hclosest, hdistance⟩ := of_unconnected_loopPath hunconnected
  have hnearest : IsFirstNearest ((loopPath length).IsUnconnected ⟨0, 0⟩ loopEnd) s := by
    refine ⟨hunconnected, fun t ht => ?_, fun t ht hlt => ?_⟩
    · rw [(of_unconnected_loopPath ht).2.2.2, hdistance]
      exact lt_irrefl _
    · rw [hedge] at hlt
      exact absurd hlt (not_lt.mpr (of_unconnected_loopPath ht).1)
  have hfaces : (loopPath length).Faces 0 ⟨0, 0⟩ loopEnd s :=
    ⟨isChecked_loopPath, rfl, isDeadEnd_loopPath, hnearest⟩
  exact ⟨s, ⟨hfaces, rfl, hposition⟩, hclosest, hdistance⟩

/-- The lengths of the shortest ways from the origin, if the edge of the given length is not less
than two long. -/
noncomputable def loopLeast : Nat → ℝ
  | 1 => 1
  | 2 => 2
  | 3 => 4
  | 4 => 3
  | _ => 0

theorem loopLeast_le (hlength : 2 ≤ length) {v : Nat} {w : ℝ}
    (h : (loopPath length).graph.Walk 0 w v) : loopLeast v ≤ w := by
  induction h with
  | start => exact Nat.cast_zero.ge
  | @step w v u e hwalk he hjoins ih =>
    change loopLeast u ≤ w + e.length
    rcases mem_edges_loopPath.mp he with rfl | rfl | rfl | rfl | rfl <;>
      rcases hjoins with ⟨rfl, rfl⟩ | ⟨rfl, rfl⟩ <;>
        simp only [loopLeast] at ih ⊢ <;> linarith

theorem exists_walk_loopPath (length : ℝ) : ∃ w ≤ 2, (loopPath length).graph.Walk 0 w 2 := by
  refine ⟨_, ?_, .step (e := ⟨1, 2, 1, pathFlags, []⟩)
    (.step (e := ⟨0, 1, 1, pathFlags, []⟩) .start (mem_edges_loopPath.mpr (by simp))
      (.inl ⟨rfl, rfl⟩))
    (mem_edges_loopPath.mpr (by simp)) (.inl ⟨rfl, rfl⟩)⟩
  change ((0 : ℕ) : ℝ) + 1 + 1 ≤ 2
  norm_num

/-- The search looks from the third node before it looks from the fifth, so what it accepts is the
edge of the given length. -/
theorem accepted_loopPath (hlow : 2 ≤ length) (hhigh : length ≤ 88) {u : Nat} {f : Edge ℝ}
    {near : ℝ} (h : (loopPath length).graph.MayAccept 90 0 3 u f near) :
    f.length = length ∧ 0 ≤ near ∧ near ≤ 2 := by
  have hnonneg : 0 ≤ near :=
    Nat.cast_zero.ge.trans (h.distance.walk.nonneg (hasLengths_loopPath length (by linarith)))
  have hnear : near ≤ 2 := by
    obtain ⟨w, hw, hwalk⟩ := exists_walk_loopPath length
    refine le_trans (h.nearest 2 w hwalk ⟨3, 2, length, pathFlags, []⟩
      (mem_edges_loopPath.mpr (by simp)) (.inr ⟨rfl, rfl⟩) ?_) hw
    change w + length ≤ 90
    linarith
  refine ⟨?_, hnonneg, hnear⟩
  have hleast := loopLeast_le hlow h.distance.walk
  have hjoins := h.joins
  rcases mem_edges_loopPath.mp h.edge with rfl | rfl | rfl | rfl | rfl <;>
    simp [Edge.Joins] at hjoins
  case inr.inr.inl => rfl
  case inr.inr.inr.inr =>
    subst hjoins
    simp only [loopLeast] at hleast
    linarith

theorem exists_isDistance_loopPath (length : ℝ) (hlength : 0 ≤ length) :
    ∃ d ≤ 4, (loopPath length).graph.IsDistance 0 3 d := by
  have hwalk : (loopPath length).graph.Walk 0 (Scalar.ofNat 0 + 1 + 2 + 1) 3 :=
    .step (e := ⟨3, 4, 1, pathFlags, []⟩)
      (.step (e := ⟨1, 4, 2, pathFlags, []⟩)
        (.step (e := ⟨0, 1, 1, pathFlags, []⟩) .start (mem_edges_loopPath.mpr (by simp))
          (.inl ⟨rfl, rfl⟩))
        (mem_edges_loopPath.mpr (by simp)) (.inl ⟨rfl, rfl⟩))
      (mem_edges_loopPath.mpr (by simp)) (.inr ⟨rfl, rfl⟩)
  obtain ⟨d, hd⟩ := RoadGraph.exists_isDistance (hasLengths_loopPath length hlength) hwalk
  refine ⟨d, (hd.least _ hwalk).trans ?_, hd⟩
  change ((0 : ℕ) : ℝ) + 1 + 2 + 1 ≤ 4
  norm_num

theorem basePriority_loopPath (length : ℝ) {s : Snap ℝ} (hdistance : s.distance = brokenWidth) :
    (loopPath length).basePriority loopEnd s = 5 := by
  unfold basePriority PriorityTable.base
  simp only [radius_loopPath, hdistance, bucket_brokenWidth]
  change PriorityTable.nearMiss brokenWidth 5 + 0 = 5
  rw [nearMiss_brokenWidth]
  rfl

theorem missingAt_loopPath : ∃ m, (loopPath 30).missingAt 0 10 = .ok (some m) := by
  obtain ⟨s, hfaces, hclosest, hdistance⟩ := exists_facesNode_loopPath 30
  obtain ⟨d, hle, hd⟩ := exists_isDistance_loopPath 30 (by norm_num)
  have hlengths := hasLengths_loopPath 30 (by norm_num)
  have hmax : (loopPath 30).searchLimits.maxDistance = 90 := routingMaxDistance_loopPath 30
  have hok : ((loopPath 30).graph.route (loopPath 30).searchLimits 0 3).status = .ok :=
    RoadGraph.ok_of_few hlengths (few_loopPath 30 _) hd (hmax ▸ (by linarith : d ≤ 90))
  obtain ⟨u, f, near, haccept, hroute⟩ := RoadGraph.exists_mayAccept hlengths (by decide) hok
  rw [hmax] at haccept
  obtain ⟨hlength, hnear, -⟩ := accepted_loopPath (by norm_num) (by norm_num) haccept
  have hlong : ¬ ((loopPath 30).graph.route (loopPath 30).searchLimits 0 3).distance
      / brokenWidth < 2 := by
    rw [hroute, not_lt]
    change (2 : ℝ) ≤ (near + f.length) / brokenWidth
    rw [le_div_iff₀ (by linarith [brokenWidth_bounds.1])]
    linarith [brokenWidth_bounds.2]
  obtain ⟨added, hadded, hadd⟩ : ∃ added, (loopPath 30).decrement 0 ⟨0, 0⟩ loopEnd s = .ok added ∧
      (added = 0 ∨ added = 1) := by
    refine ⟨_, hfaces.decrement_eq rfl, ?_⟩
    rw [hclosest, hdistance]
    exact shortcut_of_two_le hlong
  have hbase := basePriority_loopPath 30 hdistance
  rw [hfaces.faces.missingAt]
  refine ⟨_, gapAt_eq_some_iff.mpr ⟨rfl, by rw [hbase]; decide, added, hadded, ?_, rfl⟩⟩
  rw [hbase]
  rcases hadd with rfl | rfl <;> decide

/-! ## Short ways -/

section Laws

variable [Scalar.LawfulLength α] [Scalar.LawfulRatio α]

/-- A path for pedestrians is not reported before a node that the search may only accept by ways
less than twice as long as the gap. -/
theorem short_ways_suppress (ctx : AuditContext α) (hrouting : ctx.settings.doRouting = true)
    (hlengths : ctx.graph.HasLengths) (hfaces : ctx.FacesNode n openEnd e s)
    (hfew : (ctx.graph.within n ctx.settings.routingMaxDistance).encard <
      ctx.settings.routingMaxNodes)
    (hnear : ∃ d, ctx.graph.IsDistance n s.closestNode d ∧ d ≤ ctx.settings.routingMaxDistance)
    (hshort : ∀ u f near,
      ctx.graph.MayAccept ctx.settings.routingMaxDistance n s.closestNode u f near →
        near + f.length < 2 * s.distance) :
    ctx.FindsNoGap n := by
  have hunconnected := hfaces.faces.nearest.holds
  have hne : n ≠ s.closestNode :=
    (hfaces.faces.deadEnd.closestNode_ne hunconnected.found hunconnected.edge).symm
  obtain ⟨d, hd, hle⟩ := hnear
  have hok : (ctx.graph.route ctx.searchLimits n s.closestNode).status = .ok :=
    RoadGraph.ok_of_few hlengths hfew hd hle
  obtain ⟨u, f, near, haccept, hdistance⟩ := RoadGraph.exists_mayAccept hlengths hne hok
  have hratio : (ctx.graph.route ctx.searchLimits n s.closestNode).distance / s.distance < 2 := by
    rw [hdistance]
    exact Scalar.LawfulRatio.div_lt_two (haccept.walk.nonneg hlengths) hunconnected.apart
      (hshort u f near haccept)
  have hadded : ctx.decrement n openEnd e s = .ok suppression := by
    rw [hfaces.decrement_eq hrouting, shortcut_of_lt_two hok hratio]
  obtain ⟨osmId, hid⟩ := hfaces.faces.checked.known
  refine findsNoGap_of_missingAt hid ?_
  rw [hfaces.faces.missingAt, gapAt_of_suppressed hadded]

end Laws

/-- With an edge of length two both ways round are short, and nothing is reported. -/
theorem short_ways_suppress_loopPath :
    ∃ s, (loopPath 2).FacesNode 0 ⟨0, 0⟩ loopEnd s ∧ (loopPath 2).FindsNoGap 0 := by
  obtain ⟨s, hfaces, hclosest, hdistance⟩ := exists_facesNode_loopPath 2
  obtain ⟨d, hle, hd⟩ := exists_isDistance_loopPath 2 zero_le_two
  refine ⟨s, hfaces, short_ways_suppress (loopPath 2) rfl (hasLengths_loopPath 2 zero_le_two) hfaces
    (few_loopPath 2 _) ⟨d, hclosest ▸ hd, ?_⟩ ?_⟩
  · rw [routingMaxDistance_loopPath]
    linarith
  · rw [hclosest, routingMaxDistance_loopPath, hdistance]
    intro u f near haccept
    obtain ⟨hlength, -, hnear⟩ := accepted_loopPath le_rfl (by norm_num) haccept
    change near + f.length < 2 * brokenWidth
    linarith [brokenWidth_bounds.1]

/-- A short way may be overlooked: with an edge of length thirty, that edge is accepted although
there is a way of length four, and the gap is reported. -/
theorem short_way_overlooked :
    ¬ ∀ (ctx : AuditContext ℝ) (n : Nat) (openEnd : Point ℝ) (e : EdgeView ℝ) (s : Snap ℝ),
      ctx.settings.doRouting = true → ctx.graph.HasLengths → ctx.FacesNode n openEnd e s →
        (ctx.graph.within n ctx.settings.routingMaxDistance).encard <
          ctx.settings.routingMaxNodes →
        (∃ d, ctx.graph.IsDistance n s.closestNode d ∧ d ≤ ctx.settings.routingMaxDistance ∧
          d < 2 * s.distance) →
        ctx.FindsNoGap n := by
  intro hall
  obtain ⟨s, hfaces, hclosest, hdistance⟩ := exists_facesNode_loopPath 30
  obtain ⟨d, hle, hd⟩ := exists_isDistance_loopPath 30 (by norm_num)
  have hmax : d ≤ (loopPath 30).settings.routingMaxDistance := by
    rw [routingMaxDistance_loopPath]
    linarith
  have hshort : d < 2 * s.distance := by
    rw [hdistance]
    linarith [brokenWidth_bounds.1]
  obtain ⟨fs, hnode, hnone⟩ := hall (loopPath 30) 0 ⟨0, 0⟩ loopEnd s rfl
    (hasLengths_loopPath 30 (by norm_num)) hfaces (few_loopPath 30 _)
    ⟨d, hclosest ▸ hd, hmax, hshort⟩
  obtain ⟨m, hm⟩ := missingAt_loopPath
  rcases checkNode_eq_ok hnode with ⟨hskipped, -⟩ | ⟨osmId, missing, -, hid, hmissing, rfl⟩
  · rw [isSkipped_eq_false_iff.mpr isChecked_loopPath] at hskipped
    cases hskipped
  · have hid' : loopIds.osmId? 0 = some osmId := hid
    obtain rfl : (10 : UInt64) = osmId :=
      Option.some.inj ((by decide : loopIds.osmId? 0 = some 10).symm.trans hid')
    obtain rfl : some m = missing := Except.ok.inj (hm.symm.trans hmissing)
    simp at hnone

end AuditContext
end RoadAudit
