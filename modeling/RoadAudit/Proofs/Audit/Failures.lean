import Mathlib.Tactic
import RoadAudit.Proofs.Audit.Gaps
import RoadAudit.Proofs.Graph.Placement
import RoadAudit.Proofs.Numeric.BinaryOrder

/-! # What a check can fail on

Every place that a check reads of a course is there: a course has two points at least, and the
index of a match fits the course of its edge. So a node cannot be checked for one reason only, that
the place of a match between two points of a course is not found again on the matched edge. It is
looked for where the dead end is a driveway, or a path for pedestrians if routes are compared. A
pass fails with the error of the first node that cannot be checked. -/

namespace RoadAudit

open scoped Scalar

variable {α : Type} [Scalar α]

/-! ## The places that are read of a course -/

namespace RoadGraph

/-- Whether what is read of a course for a match is there: the point or the start of the segment
that is matched, the neighbour of an end, both neighbours of a point between the ends, and both ends
of the segment under any place, whichever way the course is walked. -/
structure ReadsInside (course : List (Point α)) (s : Snap α) : Prop where
  matched : s.wayIndex < course.length
  tower : s.position = .tower → 1 < course.length
  pillar : s.position = .pillar → 0 < s.wayIndex ∧ s.wayIndex + 1 < course.length
  under : ∀ p i, segmentUnder? course p = some i → i + 1 < course.length
  underReversed : ∀ p i, segmentUnder? course.reverse p = some i → i + 1 < course.length

variable {g : RoadGraph α} {s : Snap α}

omit [Scalar α] in
theorem FitsCourse.geometry_eq (h : g.FitsCourse s) :
    g.geometry s.edge = g.course s.edge.edge := geometry_of_forward h.forward

theorem FitsCourse.readsInside (h : g.FitsCourse s) : ReadsInside (g.geometry s.edge) s := by
  have hlength : 2 ≤ (g.geometry s.edge).length := two_le_length_geometry h.stored
  have hfits := h.fits
  rw [← h.geometry_eq] at hfits
  constructor
  case matched =>
    cases hposition : s.position <;> rw [hposition, MatchPosition.Fits] at hfits <;> omega
  case tower => exact fun _ => hlength
  case pillar =>
    intro hposition
    rwa [hposition] at hfits
  case under => exact fun p i hi => lt_of_segmentUnder? hi
  case underReversed =>
    intro p i hi
    have hlt := lt_of_segmentUnder? hi
    rwa [List.length_reverse] at hlt

end RoadGraph

namespace AuditContext

open RoadGraph

variable {ctx : AuditContext α} {n : Nat} {osmId : UInt64} {openEnd : Point α} {e : EdgeView α}
  {s : Snap α} {cause : CheckError α}

/-! ## Lost places -/

/-- Whether the place of a match between two points of a course is not found again on the matched
edge, where that is looked for: as the edge is stored, for the angle at which a driveway meets it,
and both ways along the edge, for the way round from the end of a path. -/
def LosesPlace (ctx : AuditContext α) (e : EdgeView α) (s : Snap α) : Prop :=
  s.position = .edge ∧
    (e.edge.flags.roadClass.isDrivewayLike = true ∧
        segmentUnder? (ctx.graph.geometry s.edge) s.snapped = none ∨
      e.edge.flags.roadClass.isPedestrianPath = true ∧ ctx.settings.doRouting = true ∧
        (segmentUnder? (ctx.graph.geometry s.edge) s.snapped = none ∨
          segmentUnder? (ctx.graph.geometry s.edge).reverse s.snapped = none))

theorem exists_openHeading (openEnd : Point α) (he : e.edge ∈ ctx.graph.edges) :
    ∃ heading, ctx.openHeading openEnd e = .ok heading := by
  have hlength := two_le_length_geometry he
  unfold openHeading pillarsAndAdj
  cases htail : (ctx.graph.geometry e).tail with
  | nil =>
    have hempty := congrArg List.length htail
    rw [List.length_tail, List.length_nil] at hempty
    omega
  | cons next rest => exact ⟨_, rfl⟩

theorem matchedAngle_eq_error_iff (heading : α) (hs : ctx.graph.FitsCourse s) :
    ctx.matchedAngle heading s = .error cause ↔
      s.position = .edge ∧ segmentUnder? (ctx.graph.geometry s.edge) s.snapped = none ∧
        cause = .pillarNotFound s.edge.id s.snapped := by
  obtain ⟨-, htower, hpillar, hunder, -⟩ := hs.readsInside
  unfold matchedAngle
  dsimp only
  cases hposition : s.position with
  | tower =>
    have hlength := htower hposition
    have hlt : (if s.wayIndex = 0 then 1 else (ctx.graph.geometry s.edge).length - 1 - 1) <
        (ctx.graph.geometry s.edge).length := by
      split <;> omega
    simp [List.getElem?_eq_getElem hlt]
  | pillar =>
    obtain ⟨hfirst, hlast⟩ := hpillar hposition
    have hinner : ¬ (s.wayIndex = 0 ∨ (ctx.graph.geometry s.edge).length - 1 ≤ s.wayIndex) := by
      omega
    have hbefore : s.wayIndex - 1 < (ctx.graph.geometry s.edge).length := by omega
    dsimp only
    rw [if_neg hinner]
    simp [List.getElem?_eq_getElem hbefore, List.getElem?_eq_getElem hlast]
  | edge =>
    cases hsegment : segmentUnder? (ctx.graph.geometry s.edge) s.snapped with
    | none => simp [eq_comm]
    | some i =>
      have hlt := hunder s.snapped i hsegment
      have hlt' : i < (ctx.graph.geometry s.edge).length := by omega
      simp [List.getElem?_eq_getElem hlt, List.getElem?_eq_getElem hlt']

theorem besideDriveway_eq_error_iff (he : e.edge ∈ ctx.graph.edges) (hs : ctx.graph.FitsCourse s) :
    ctx.besideDriveway openEnd e s = .error cause ↔
      s.position = .edge ∧ segmentUnder? (ctx.graph.geometry s.edge) s.snapped = none ∧
        cause = .pillarNotFound s.edge.id s.snapped := by
  obtain ⟨heading, hheading⟩ := exists_openHeading openEnd he
  rw [← matchedAngle_eq_error_iff heading hs]
  simp only [besideDriveway, hheading, bind, Except.bind, pure, Except.pure]
  cases ctx.matchedAngle heading s <;> simp

/-- A place on an edge has no route only if it is not found again from one of the ends. -/
theorem routeToPoint?_eq_none_iff {g : RoadGraph α} {limits : SearchLimits α} {m : Metric}
    {source : Nat} {v : EdgeView α} {p : Point α} :
    g.routeToPoint? limits m source v p = none ↔
      segmentUnder? (g.geometry v) p = none ∨ segmentUnder? (g.geometry v).reverse p = none := by
  rw [← distanceAlong?_eq_none_iff (m := m), ← distanceAlong?_eq_none_iff (m := m)]
  unfold routeToPoint?
  dsimp only
  cases m.distanceAlong? (g.geometry v) p with
  | none => simp
  | some fromBase => cases m.distanceAlong? (g.geometry v).reverse p <;> simp

theorem wayRound_eq_error_iff :
    ctx.wayRound n s = .error cause ↔
      s.position = .edge ∧
        (segmentUnder? (ctx.graph.geometry s.edge) s.snapped = none ∨
          segmentUnder? (ctx.graph.geometry s.edge).reverse s.snapped = none) ∧
        cause = .pillarNotFound s.edge.id s.snapped := by
  unfold wayRound
  cases s.position with
  | tower => simp
  | pillar => simp
  | edge =>
    have hroute : ctx.graph.routeToPoint? ctx.searchLimits .earth n s.edge s.snapped = none ↔
        segmentUnder? (ctx.graph.geometry s.edge) s.snapped = none ∨
          segmentUnder? (ctx.graph.geometry s.edge).reverse s.snapped = none :=
      routeToPoint?_eq_none_iff
    rw [← hroute]
    cases ctx.graph.routeToPoint? ctx.searchLimits .earth n s.edge s.snapped with
    | none => simp [eq_comm]
    | some r => simp

theorem decrement_eq_error_iff (he : e.edge ∈ ctx.graph.edges) (hs : ctx.graph.FitsCourse s) :
    ctx.decrement n openEnd e s = .error cause ↔
      ctx.LosesPlace e s ∧ cause = .pillarNotFound s.edge.id s.snapped := by
  unfold decrement LosesPlace
  dsimp only
  split
  case isTrue hdriveway =>
    have hpath : e.edge.flags.roadClass.isPedestrianPath ≠ true := fun hpath => by
      rw [RoadClass.isDrivewayLike_of_isPedestrianPath hpath] at hdriveway
      cases hdriveway
    rw [besideDriveway_eq_error_iff he hs]
    simp [hdriveway, hpath, and_assoc]
  case isFalse hdriveway =>
    split
    case isTrue hpath =>
      obtain ⟨hpath, hrouting⟩ := Bool.and_eq_true_iff.mp hpath
      have hround : (do return shortcut (← ctx.wayRound n s) s.distance) = .error cause ↔
          ctx.wayRound n s = .error cause := by
        cases ctx.wayRound n s <;> simp [bind, Except.bind, pure, Except.pure]
      rw [hround, wayRound_eq_error_iff]
      simp [hdriveway, hpath, hrouting, and_assoc]
    case isFalse hpath =>
      rw [Bool.and_eq_true, not_and] at hpath
      simpa [hdriveway] using fun _ hpath' hrouting => absurd hrouting (hpath hpath')

theorem gapAt_eq_error_iff :
    ctx.gapAt n osmId openEnd e s = .error cause ↔
      ctx.barriers.crosses openEnd s.snapped = false ∧ 0 < ctx.basePriority e s ∧
        ctx.decrement n openEnd e s = .error cause := by
  rw [gapAt_eq]
  cases ctx.barriers.crosses openEnd s.snapped with
  | true => simp
  | false =>
    by_cases hbase : 0 < ctx.basePriority e s
    · rw [if_neg (by decide), if_neg (not_le.mpr hbase)]
      cases ctx.decrement n openEnd e s <;> simp [Except.map, hbase]
    · simp [hbase, not_lt.mp hbase]

/-! ## Nodes that cannot be checked -/

theorem Faces.edge_mem (h : ctx.Faces n openEnd e s) : e.edge ∈ ctx.graph.edges :=
  Array.mem_of_getElem? h.deadEnd.stored

theorem Faces.fitsCourse (h : ctx.Faces n openEnd e s) : ctx.graph.FitsCourse s :=
  fitsCourse_of_mem_nearest h.nearest.holds.found

variable [Scalar.LawfulOrder α]

theorem missingAt_eq_error_iff (hchecked : ctx.IsChecked n) :
    ctx.missingAt n osmId = .error cause ↔
      ∃ openEnd e s, ctx.Faces n openEnd e s ∧ ctx.gapAt n osmId openEnd e s = .error cause := by
  constructor
  · intro h
    unfold missingAt at h
    split at h
    case h_1 e openEnd hdead hplace =>
      rw [deadEnd?_eq_some_iff] at hdead
      split at h
      case h_1 s hmatch =>
        exact ⟨openEnd, e, s, ⟨hchecked, hplace, hdead, (match?_eq_some_iff hdead).mp hmatch⟩, h⟩
      case h_2 => cases h
    case h_2 => cases h
  · rintro ⟨openEnd, e, s, hfaces, hgap⟩
    rwa [hfaces.missingAt]

/-- A node cannot be checked just when it is a dead end facing a road with nothing between, with a
positive base priority, and loses the place of its match. -/
theorem checkNode_eq_error_iff :
    ctx.checkNode n = .error cause ↔
      ∃ openEnd e s, ctx.Faces n openEnd e s ∧ ctx.barriers.crosses openEnd s.snapped = false ∧
        0 < ctx.basePriority e s ∧ ctx.LosesPlace e s ∧
        cause = .pillarNotFound s.edge.id s.snapped := by
  have hgap : ∀ osmId openEnd e s, ctx.Faces n openEnd e s →
      (ctx.gapAt n osmId openEnd e s = .error cause ↔
        ctx.barriers.crosses openEnd s.snapped = false ∧ 0 < ctx.basePriority e s ∧
          ctx.LosesPlace e s ∧ cause = .pillarNotFound s.edge.id s.snapped) := by
    intro osmId openEnd e s hfaces
    rw [gapAt_eq_error_iff, decrement_eq_error_iff hfaces.edge_mem hfaces.fitsCourse]
  unfold checkNode
  split
  case isTrue hskipped =>
    refine iff_of_false (by simp) ?_
    rintro ⟨openEnd, e, s, hfaces, -⟩
    rw [isSkipped_eq_false_iff.mpr hfaces.checked] at hskipped
    cases hskipped
  case isFalse hchecked =>
    have hchecked' : ctx.IsChecked n := isSkipped_eq_false_iff.mp (by simpa using hchecked)
    obtain ⟨osmId, hid⟩ := hchecked'.known
    have hmissing : ctx.missingAt n osmId = .error cause ↔ ∃ openEnd e s,
        ctx.Faces n openEnd e s ∧ ctx.gapAt n osmId openEnd e s = .error cause :=
      missingAt_eq_error_iff hchecked'
    rw [hid]
    dsimp only
    cases hresult : ctx.missingAt n osmId with
    | error cause' =>
      rw [hresult] at hmissing
      change Except.error cause' = Except.error cause ↔ _
      rw [Except.error.injEq] at hmissing ⊢
      rw [hmissing]
      refine exists_congr fun openEnd => exists_congr fun e => exists_congr fun s => ?_
      exact and_congr_right fun hfaces => hgap osmId openEnd e s hfaces
    | ok missing =>
      rw [hresult] at hmissing
      refine iff_of_false (by simp [bind, Except.bind, pure, Except.pure]) ?_
      rintro ⟨openEnd, e, s, hfaces, hlost⟩
      cases hmissing.mpr ⟨openEnd, e, s, hfaces, (hgap osmId openEnd e s hfaces).mpr hlost⟩

omit [Scalar.LawfulOrder α]

/-! ## Passes that fail -/

/-- Whether an error is that of the first node of a range that cannot be checked. -/
structure IsFirstFailure (ctx : AuditContext α) (start stop : Nat) (err : NodeError α) : Prop where
  start_le : start ≤ err.node
  lt_stop : err.node < stop
  osmId : err.osmId = ctx.nodeIds.osmId? err.node
  fails : ctx.checkNode err.node = .error err.cause
  before : ∀ n, start ≤ n → n < err.node → ∃ fs, ctx.checkNode n = .ok fs

theorem checkRange_eq_error_iff {start stop : Nat} {err : NodeError α} :
    ctx.checkRange start stop = .error err ↔ ctx.IsFirstFailure start stop err := by
  constructor
  · intro h
    obtain ⟨hstart, hstop, hid, hcause⟩ := of_checkFrom_error h
    refine ⟨hstart, by omega, hid, hcause, fun n hn hlt => ?_⟩
    -- the pass over the nodes before `err.node` succeeds, else it would have failed earlier
    rw [checkRange_split ctx hstart (by omega)] at h
    cases hbefore : ctx.checkRange start err.node with
    | error earlier =>
      rw [hbefore] at h
      obtain rfl : earlier = err := by simpa [Except.bind] using h
      obtain ⟨hle, hlt', -⟩ := of_checkFrom_error hbefore
      omega
    | ok fs => exact ⟨_, (checkRange_eq_ok_iff.mp hbefore).1 n hn hlt⟩
  · rintro ⟨hstart, hstop, hid, hfails, hbefore⟩
    have hok : ctx.checkRange start err.node =
        .ok ((List.range' start (err.node - start)).flatMap ctx.findingsAt) := by
      refine checkRange_eq_ok_iff.mpr ⟨fun n hn hlt => ?_, rfl⟩
      obtain ⟨fs, hfs⟩ := hbefore n hn hlt
      rw [findingsAt_of_ok hfs, hfs]
    have hfirst : ctx.checkRange err.node stop = .error err := by
      obtain ⟨count, hcount⟩ : ∃ count, stop - err.node = count + 1 :=
        Nat.exists_eq_succ_of_ne_zero (by omega)
      rw [checkRange, hcount, checkFrom_succ, hfails, ← hid]
    rw [checkRange_split ctx hstart hstop.le, hok, hfirst]
    rfl

/-! ## The only failure -/

/-- A node cannot be checked for one reason only: it is a dead end facing a road with nothing
between, and the place of its match, on a segment of that road, is not found again, which is asked
only for driveways, and for paths for pedestrians if routes are compared. A pass fails just with the
error of the first such node. Every place that is read of a course is there. -/
theorem fails_only_on_lost_places [Scalar.LawfulOrder α] (ctx : AuditContext α) :
    (∀ n cause, ctx.checkNode n = .error cause ↔
      ∃ openEnd e s, ctx.Faces n openEnd e s ∧ ctx.barriers.crosses openEnd s.snapped = false ∧
        0 < ctx.basePriority e s ∧ ctx.LosesPlace e s ∧
        cause = .pillarNotFound s.edge.id s.snapped) ∧
    (∀ start stop err,
      ctx.checkRange start stop = .error err ↔ ctx.IsFirstFailure start stop err) ∧
    (∀ e ∈ ctx.graph.views, 1 < (ctx.graph.geometry e).length ∧
      1 < (ctx.graph.geometry e.flip).length) ∧
    (∀ query radius, ∀ s ∈ ctx.graph.nearest query radius,
      ReadsInside (ctx.graph.geometry s.edge) s) := by
  refine ⟨fun n cause => checkNode_eq_error_iff, fun start stop err => checkRange_eq_error_iff,
    fun e he => ?_, fun query radius s hs => (fitsCourse_of_mem_nearest hs).readsInside⟩
  have hedge : e.edge ∈ ctx.graph.edges := Array.mem_of_getElem? (mem_views.mp he).1
  exact ⟨two_le_length_geometry hedge, two_le_length_geometry (v := e.flip) hedge⟩

/-- A driveway that ends before a road whose own end has a latitude that is no number. -/
def unplacedRoad : AuditContext Float where
  graph :=
    { nodes := #[⟨⟨-1, 0⟩, false⟩, ⟨⟨0, 0⟩, false⟩, ⟨⟨0 / 0, 0⟩, false⟩, ⟨⟨1, 0⟩, false⟩]
      edges := #[⟨0, 1, 0, .pack .serviceDriveway false .ground false, []⟩,
        ⟨2, 3, 0, .pack .residential false .ground false, []⟩]
      ends := by simp }
  nodeIds := ⟨.nodes, #[10, 11, 12, 13]⟩
  wayIds := ⟨.ways, #[500, 501]⟩
  barriers := default
  settings := default

/-- In exact arithmetic the end of the broken road faces another road and can be checked, as both
are residential. In binary64 a place that is no number leads to no degenerate edge. -/
theorem fails_only_on_lost_places_at_roads :
    ((∃ openEnd e s, brokenRoad.Faces 1 openEnd e s) ∧
      ∀ cause, brokenRoad.checkNode 1 ≠ .error cause) ∧
    ∀ n edge, unplacedRoad.checkNode n ≠ .error (.degenerateEdge edge) := by
  constructor
  · obtain ⟨s, hfaces, -⟩ := exists_faces_brokenRoad
    refine ⟨⟨_, _, s, hfaces⟩, fun cause hcause => ?_⟩
    obtain ⟨hnode, -⟩ := fails_only_on_lost_places brokenRoad
    obtain ⟨place, e, t, hfaces', -, -, ⟨-, hclass⟩, -⟩ := (hnode 1 cause).mp hcause
    have hdead := deadEnd?_eq_some_iff.mpr hfaces'.deadEnd
    rw [deadEnd?_eq_some_iff.mpr isDeadEnd_brokenRoad] at hdead
    obtain rfl := Option.some.inj hdead
    rcases hclass with ⟨hdriveway, -⟩ | ⟨hpath, -⟩
    · exact absurd hdriveway (by decide)
    · exact absurd hpath (by decide)
  · intro n edge h
    obtain ⟨hnode, -⟩ := fails_only_on_lost_places unplacedRoad
    obtain ⟨place, e, s, -, -, -, -, hcause⟩ := (hnode n _).mp h
    cases hcause

end AuditContext
end RoadAudit
