import Mathlib.Analysis.Real.Pi.Bounds
import Mathlib.Tactic
import RoadAudit.Proofs.Audit.DeadEnds
import RoadAudit.Proofs.Graph.NearestScan

/-! # Missing connections are gaps

A pass reports a missing connection for just those nodes of its range that are dead ends facing a
road nearby with no barrier between, where the gap weighs enough to be looked at. It reports them in
ascending node id, one for a node at most. -/

namespace RoadAudit

open scoped Scalar

namespace AuditContext

variable {α : Type} [Scalar α]

/-- Whether a node is checked and is a dead end at a place, and a match is the first of the nearest
roads that it is not yet connected to. -/
structure Faces (ctx : AuditContext α) (n : Nat) (openEnd : Point α) (e : EdgeView α)
    (s : Snap α) : Prop where
  checked : ctx.IsChecked n
  place : ctx.graph.point? n = some openEnd
  deadEnd : ctx.graph.IsDeadEnd n e
  nearest : IsFirstNearest (ctx.IsUnconnected openEnd e) s

def basePriority (ctx : AuditContext α) (e : EdgeView α) (s : Snap α) : Int :=
  ctx.settings.priorities.base e.edge.flags.roadClass e.edge.flags.isPrivate s.distance
    ctx.settings.radius

/-- Whether a missing connection is that of a dead end and the match it faces: nothing stands
between them, and the priority, positive from the start, is still one of those reported with what
is added to it. -/
structure IsGap (ctx : AuditContext α) (m : MissingConnection α) (e : EdgeView α) (s : Snap α) :
    Prop where
  faces : ctx.Faces m.nodeId m.openEnd e s
  known : ctx.nodeIds.osmId? m.nodeId = some m.osmId
  snapPoint : m.snapPoint = s.snapped
  distance : m.distance = s.distance
  position : m.position = s.position
  roadClass : m.roadClass = e.edge.flags.roadClass
  isPrivate : m.isPrivate = e.edge.flags.isPrivate
  unbarred : ctx.barriers.crosses m.openEnd m.snapPoint = false
  base_pos : 0 < ctx.basePriority e s
  priority : ∃ added, ctx.decrement m.nodeId m.openEnd e s = .ok added ∧
    m.priority = ctx.basePriority e s + added
  one_le : 1 ≤ m.priority
  le_six : m.priority ≤ 6

def connection (n : Nat) (osmId : UInt64) (openEnd : Point α) (e : EdgeView α) (s : Snap α)
    (priority : Int) : MissingConnection α :=
  ⟨openEnd, s.snapped, s.distance, n, osmId, s.position, e.edge.flags.roadClass,
    e.edge.flags.isPrivate, priority⟩

variable {ctx : AuditContext α} {n : Nat} {osmId : UInt64} {openEnd : Point α} {e : EdgeView α}
  {s : Snap α} {m : MissingConnection α}

/-! ## The gap of a match -/

theorem gapAt_eq :
    ctx.gapAt n osmId openEnd e s =
      if ctx.barriers.crosses openEnd s.snapped then .ok none
      else if ctx.basePriority e s ≤ 0 then .ok none
      else (ctx.decrement n openEnd e s).map fun added =>
        if isReported (ctx.basePriority e s + added) then
          some (connection n osmId openEnd e s (ctx.basePriority e s + added))
        else none := by
  unfold gapAt basePriority connection
  dsimp only
  congr 2
  cases ctx.decrement n openEnd e s with
  | error cause => rfl
  | ok added =>
    simp only [bind, Except.bind, pure, Except.pure, Except.map]
    split <;> rfl

/-- If a gap that nothing stands in is checked, what is to be added to its base priority is
known. -/
theorem exists_decrement {r : Option (MissingConnection α)}
    (h : ctx.gapAt n osmId openEnd e s = .ok r)
    (hopen : ctx.barriers.crosses openEnd s.snapped = false) (hbase : 0 < ctx.basePriority e s) :
    ∃ added, ctx.decrement n openEnd e s = .ok added := by
  rw [gapAt_eq, hopen, if_neg (by decide), if_neg (not_le.mpr hbase)] at h
  cases hadded : ctx.decrement n openEnd e s with
  | error cause =>
    rw [hadded] at h
    cases h
  | ok added => exact ⟨added, rfl⟩

theorem gapAt_eq_some_iff :
    ctx.gapAt n osmId openEnd e s = .ok (some m) ↔
      ctx.barriers.crosses openEnd s.snapped = false ∧ 0 < ctx.basePriority e s ∧
        ∃ added, ctx.decrement n openEnd e s = .ok added ∧
          isReported (ctx.basePriority e s + added) = true ∧
          m = connection n osmId openEnd e s (ctx.basePriority e s + added) := by
  rw [gapAt_eq]
  cases ctx.barriers.crosses openEnd s.snapped with
  | true => simp
  | false =>
    by_cases hbase : 0 < ctx.basePriority e s
    · rw [if_neg (by decide), if_neg (not_le.mpr hbase)]
      cases ctx.decrement n openEnd e s with
      | error cause => simp [Except.map]
      | ok added => simp [Except.map, hbase, eq_comm (a := m)]
    · simp [hbase, not_lt.mp hbase]

/-! ## The missing connection of a node -/

theorem IsGap.eq_connection (h : ctx.IsGap m e s) :
    m = connection m.nodeId m.osmId m.openEnd e s m.priority := by
  obtain ⟨-, -, hsnapPoint, hdistance, hposition, hroadClass, hisPrivate⟩ := h
  cases m
  simp_all [connection]

variable [Scalar.LawfulOrder α]

theorem Faces.missingAt (h : ctx.Faces n openEnd e s) :
    ctx.missingAt n osmId = ctx.gapAt n osmId openEnd e s := by
  unfold AuditContext.missingAt
  simp only [deadEnd?_eq_some_iff.mpr h.deadEnd, h.place,
    (match?_eq_some_iff h.deadEnd).mpr h.nearest]

theorem exists_faces (hchecked : ctx.IsChecked n) (h : ctx.missingAt n osmId = .ok (some m)) :
    ∃ openEnd e s, ctx.Faces n openEnd e s ∧ ctx.gapAt n osmId openEnd e s = .ok (some m) := by
  unfold AuditContext.missingAt at h
  split at h
  case h_1 e openEnd hdead hplace =>
    rw [deadEnd?_eq_some_iff] at hdead
    split at h
    case h_1 s hmatch =>
      exact ⟨openEnd, e, s, ⟨hchecked, hplace, hdead, (match?_eq_some_iff hdead).mp hmatch⟩, h⟩
    case h_2 => cases h
  case h_2 => cases h

/-- The missing connection of a checked node is the gap between it and the match it faces. -/
theorem missingAt_eq_some_iff (hchecked : ctx.IsChecked n)
    (hid : ctx.nodeIds.osmId? n = some osmId) :
    ctx.missingAt n osmId = .ok (some m) ↔ m.nodeId = n ∧ ∃ e s, ctx.IsGap m e s := by
  constructor
  · intro h
    obtain ⟨openEnd, e, s, hfaces, hgap⟩ := exists_faces hchecked h
    obtain ⟨hopen, hbase, added, hadded, hreported, rfl⟩ := gapAt_eq_some_iff.mp hgap
    obtain ⟨hone, hsix⟩ := isReported_iff.mp hreported
    exact ⟨rfl, e, s, hfaces, hid, rfl, rfl, rfl, rfl, rfl, hopen, hbase, ⟨added, hadded, rfl⟩,
      hone, hsix⟩
  · rintro ⟨rfl, e, s, hgap⟩
    obtain ⟨added, hadded, hpriority⟩ := hgap.priority
    obtain rfl : m.osmId = osmId := Option.some.inj (hgap.known.symm.trans hid)
    rw [hgap.faces.missingAt, gapAt_eq_some_iff]
    refine ⟨hgap.snapPoint ▸ hgap.unbarred, hgap.base_pos, added, hadded, ?_, ?_⟩
    · rw [← hpriority, isReported_iff]
      exact ⟨hgap.one_le, hgap.le_six⟩
    · rw [← hpriority]
      exact hgap.eq_connection

/-! ## The missing connections of a pass -/

theorem missingOf_findingsAt (h : ctx.checkNode n = .ok (ctx.findingsAt n)) :
    ∃ missing, missingOf (ctx.findingsAt n) = Option.toList missing ∧
      ∀ m, missing = some m ↔ m.nodeId = n ∧ ∃ e s, ctx.IsGap m e s := by
  rcases checkNode_eq_ok h with ⟨hskipped, hfs⟩ | ⟨osmId, missing, hchecked, hid, hmissing, hfs⟩
  · refine ⟨none, by simp [hfs], fun m => iff_of_false (by simp) ?_⟩
    rintro ⟨rfl, e, s, hgap⟩
    rw [isSkipped_eq_false_iff.mpr hgap.faces.checked] at hskipped
    cases hskipped
  · refine ⟨missing, by simp [hfs], fun m => ?_⟩
    rw [← missingAt_eq_some_iff (isSkipped_eq_false_iff.mp hchecked) hid, hmissing,
      Except.ok.injEq]

theorem mem_missingOf_findingsAt (h : ctx.checkNode n = .ok (ctx.findingsAt n)) :
    m ∈ missingOf (ctx.findingsAt n) ↔ m.nodeId = n ∧ ∃ e s, ctx.IsGap m e s := by
  obtain ⟨missing, hmissing, hgap⟩ := missingOf_findingsAt h
  rw [hmissing, Option.mem_toList, hgap]

theorem mem_missingOf_iff {start stop : Nat} {fs : List (Finding α)}
    (h : ctx.checkRange start stop = .ok fs) :
    m ∈ missingOf fs ↔ start ≤ m.nodeId ∧ m.nodeId < stop ∧ ∃ e s, ctx.IsGap m e s := by
  obtain ⟨hall, rfl⟩ := checkRange_eq_ok_iff.mp h
  rw [missingOf_flatMap, List.mem_flatMap]
  simp only [List.mem_range'_1]
  constructor
  · rintro ⟨n, ⟨hstart, hstop⟩, hm⟩
    obtain ⟨rfl, hgap⟩ := (mem_missingOf_findingsAt (hall n hstart (by omega))).mp hm
    exact ⟨hstart, by omega, hgap⟩
  · rintro ⟨hstart, hstop, hgap⟩
    exact ⟨m.nodeId, ⟨hstart, by omega⟩,
      (mem_missingOf_findingsAt (hall m.nodeId hstart hstop)).mpr ⟨rfl, hgap⟩⟩

theorem ascending_missingOf {start stop : Nat} {fs : List (Finding α)}
    (h : ctx.checkRange start stop = .ok fs) :
    (missingOf fs).Pairwise fun m m' => m.nodeId < m'.nodeId := by
  obtain ⟨hall, rfl⟩ := checkRange_eq_ok_iff.mp h
  have hnode : ∀ n ∈ List.range' start (stop - start),
      ctx.checkNode n = .ok (ctx.findingsAt n) := by
    intro n hn
    rw [List.mem_range'_1] at hn
    exact hall n hn.1 (by omega)
  rw [missingOf_flatMap, List.pairwise_flatMap]
  constructor
  · intro n hn
    obtain ⟨missing, hmissing, -⟩ := missingOf_findingsAt (hnode n hn)
    rw [hmissing]
    cases missing <;> simp
  · refine (List.pairwise_lt_range' (s := start) (n := stop - start)).imp_of_mem ?_
    intro n n' hn hn' hlt m hm m' hm'
    rw [((mem_missingOf_findingsAt (hnode n hn)).mp hm).1,
      ((mem_missingOf_findingsAt (hnode n' hn')).mp hm').1]
    exact hlt

omit [Scalar.LawfulOrder α] in
theorem checkRange_eq_singleton {ctx : AuditContext α} {n : Nat} {osmId : UInt64}
    {m : MissingConnection α} (hchecked : ctx.isSkipped n = false)
    (hid : ctx.nodeIds.osmId? n = some osmId) (hduplicates : ctx.duplicatesAt n = [])
    (hmissing : ctx.missingAt n osmId = .ok (some m)) :
    ctx.checkRange n (n + 1) = .ok [.missing m] := by
  have hnode : ctx.checkNode n = .ok [.missing m] := by
    simp only [checkNode, hchecked, hid, hmissing, hduplicates]
    rfl
  rw [checkRange, Nat.add_sub_cancel_left, checkFrom, hnode]
  rfl

/-! ## A road that ends before another one -/

/-- Two residential roads on the prime meridian with nine metres between them. -/
noncomputable def brokenRoad : AuditContext ℝ where
  graph :=
    { nodes := #[⟨⟨-1, 0⟩, false⟩, ⟨⟨0, 0⟩, false⟩, ⟨⟨1 / 12500, 0⟩, false⟩, ⟨⟨1, 0⟩, false⟩]
      edges := #[⟨0, 1, 0, .pack .residential false .ground false, []⟩,
        ⟨2, 3, 0, .pack .residential false .ground false, []⟩]
      ends := by simp }
  nodeIds := ⟨.nodes, #[10, 11, 12, 13]⟩
  wayIds := ⟨.ways, #[500, 501]⟩
  barriers := default
  settings := default

noncomputable def brokenEnd : EdgeView ℝ :=
  ⟨0, ⟨0, 1, 0, .pack .residential false .ground false, []⟩, true⟩

noncomputable def brokenRest : EdgeView ℝ :=
  ⟨1, ⟨2, 3, 0, .pack .residential false .ground false, []⟩, false⟩

noncomputable def brokenSegment : IndexedSegment ℝ := ⟨brokenRest, 0, ⟨1 / 12500, 0⟩, ⟨1, 0⟩⟩

noncomputable def brokenWidth : ℝ := 6371000 * (1 / 12500 * (Real.pi / 180))

theorem brokenWidth_bounds : 17 / 2 < brokenWidth ∧ brokenWidth < 9 := by
  have hpi := Real.pi_gt_d2
  have hpi' := Real.pi_lt_d2
  unfold brokenWidth
  constructor <;> linarith

theorem radius_brokenRoad : brokenRoad.settings.radius = 15 := by
  change ((15 : ℕ) : ℝ) = 15
  norm_num

theorem isDeadEnd_brokenRoad : brokenRoad.graph.IsDeadEnd 1 brokenEnd :=
  deadEnd?_eq_some_iff.mp rfl

theorem projectedDistance_brokenSegment :
    RoadGraph.projectedDistance ⟨0, 0⟩ brokenSegment = brokenWidth := by
  rw [brokenWidth, ← radians_real, ← RoadGraph.projectedDistance_meridian (a := 1 / 12500) (b := 1)
    (by norm_num) (by norm_num) (by norm_num)]
  rfl

theorem mem_segmentsNear_brokenSegment :
    brokenSegment ∈ brokenRoad.graph.segmentsNear ⟨0, 0⟩ 15 brokenRest := by
  have hnear := (RoadGraph.mem_segmentsNear_meridian (a := 1 / 12500) (b := 1) (r := 15)
    (by norm_num) (by norm_num) (by norm_num)).mpr (by norm_num)
  exact List.mem_filter.mpr ⟨List.mem_singleton_self _, (List.mem_filter.mp hnear).2⟩

theorem exists_snap_brokenRoad :
    ∃ s ∈ brokenRoad.graph.nearest ⟨0, 0⟩ 15, s.edge = brokenRest ∧ s.distance = brokenWidth := by
  have hwithin : ¬ 15 < brokenWidth := by linarith [brokenWidth_bounds.2]
  obtain ⟨s, hs, hedge⟩ := RoadGraph.exists_mem_nearest (g := brokenRoad.graph)
    (v := brokenRest) (by simp [RoadGraph.views, brokenRoad, brokenRest]) rfl
    mem_segmentsNear_brokenSegment (by rwa [projectedDistance_brokenSegment])
  obtain ⟨-, t, ht, hdistance, -⟩ := RoadGraph.of_mem_nearest hs hedge
  obtain rfl : t = brokenSegment := List.mem_singleton.mp (List.mem_filter.mp ht).1
  exact ⟨s, hs, hedge, hdistance.trans projectedDistance_brokenSegment⟩

theorem isUnconnected_brokenRoad {s : Snap ℝ} (hs : s ∈ brokenRoad.graph.nearest ⟨0, 0⟩ 15)
    (hedge : s.edge = brokenRest) (hdistance : s.distance = brokenWidth) :
    brokenRoad.IsUnconnected ⟨0, 0⟩ brokenEnd s := by
  have hclosest : 2 = s.closestNode ∨ 3 = s.closestNode := by
    have hend := RoadGraph.closestNode_of_mem_nearest hs
    rwa [hedge] at hend
  constructor
  case found => rwa [radius_brokenRoad]
  case edge =>
    rw [hedge]
    decide
  case farEnd => rcases hclosest with h | h <;> rw [← h] <;> decide
  case neighbour =>
    rcases hclosest with h | h <;> rw [← h] <;>
      simp [RoadGraph.Adjacent, Edge.Joins, brokenRoad, brokenEnd, EdgeView.adj]
  case level =>
    rw [hedge]
    exact fun _ _ => ⟨0, by decide, by decide⟩
  case apart =>
    rw [hdistance]
    change ((0 : ℕ) : ℝ) < _
    rw [Nat.cast_zero]
    linarith [brokenWidth_bounds.1]

theorem edge_id_brokenRoad {s : Snap ℝ} (h : brokenRoad.IsUnconnected ⟨0, 0⟩ brokenEnd s) :
    s.edge.id = 1 := by
  have hlt : s.edge.id < 2 :=
    (Array.getElem?_eq_some_iff.mp (RoadGraph.edge_of_mem_nearest h.found)).1
  have hother : s.edge.id ≠ 0 := h.edge
  omega

theorem exists_faces_brokenRoad :
    ∃ s, brokenRoad.Faces 1 ⟨0, 0⟩ brokenEnd s ∧ s.distance = brokenWidth := by
  obtain ⟨s, hs, hedge, hdistance⟩ := exists_snap_brokenRoad
  have hunconnected := isUnconnected_brokenRoad hs hedge hdistance
  have honly : ∀ t, brokenRoad.IsUnconnected ⟨0, 0⟩ brokenEnd t → t = s := fun t ht =>
    eq_of_edge_id (RoadGraph.ascending_nearest _ _ _) ht.found hunconnected.found
      ((edge_id_brokenRoad ht).trans (edge_id_brokenRoad hunconnected).symm)
  have hnearest : IsFirstNearest (brokenRoad.IsUnconnected ⟨0, 0⟩ brokenEnd) s := by
    refine ⟨hunconnected, fun t ht => ?_, fun t ht hlt => ?_⟩
    · rw [honly t ht]
      exact Scalar.lt_irrefl _
    · rw [honly t ht] at hlt
      exact absurd hlt (lt_irrefl _)
  exact ⟨s, ⟨⟨rfl, ⟨11, rfl⟩, rfl⟩, rfl, isDeadEnd_brokenRoad, hnearest⟩, hdistance⟩

theorem bucket_brokenWidth : PriorityTable.bucket brokenWidth (15 : ℝ) = 2 := by
  obtain ⟨hlow, hhigh⟩ := brokenWidth_bounds
  have hwhole : ⌊brokenWidth / (15 / ((4 : ℕ) : ℝ))⌋₊ = 2 := by
    have hnonneg : 0 ≤ brokenWidth / (15 / ((4 : ℕ) : ℝ)) :=
      div_nonneg (by linarith) (by positivity)
    rw [Nat.floor_eq_iff hnonneg, le_div_iff₀ (by norm_num), div_lt_iff₀ (by norm_num)]
    push_cast
    constructor <;> linarith
  have hwidth : ((0 : ℕ) : ℝ) < 15 / ((4 : ℕ) : ℝ) := by norm_num
  refine (if_pos hwidth).trans (Fin.ext ?_)
  change min ⌊brokenWidth / (15 / ((4 : ℕ) : ℝ))⌋₊ 3 = 2
  rw [hwhole]
  rfl

theorem nearMiss_brokenWidth (n : Int) : PriorityTable.nearMiss brokenWidth n = n := by
  have hlow := brokenWidth_bounds.1
  have hone : ¬ brokenWidth < ((1 : ℕ) : ℝ) := by
    rw [Nat.cast_one]
    linarith
  have htwo : ¬ brokenWidth < ((2 : ℕ) : ℝ) := by
    rw [Nat.cast_two]
    linarith
  exact (if_neg hone).trans (if_neg htwo)

theorem basePriority_brokenRoad {s : Snap ℝ} (hdistance : s.distance = brokenWidth) :
    brokenRoad.basePriority brokenEnd s = 3 := by
  unfold basePriority PriorityTable.base
  simp only [radius_brokenRoad, hdistance, bucket_brokenWidth]
  change PriorityTable.nearMiss brokenWidth 3 + 0 = 3
  rw [nearMiss_brokenWidth]
  rfl

theorem checkRange_brokenRoad :
    ∃ fs m, brokenRoad.checkRange 1 2 = .ok fs ∧ m ∈ missingOf fs ∧ m.nodeId = 1 ∧
      m.priority = 3 := by
  obtain ⟨s, hfaces, hdistance⟩ := exists_faces_brokenRoad
  have hbase := basePriority_brokenRoad hdistance
  have hmissing : brokenRoad.missingAt 1 11 =
      .ok (some (connection 1 11 ⟨0, 0⟩ brokenEnd s 3)) := by
    rw [hfaces.missingAt, gapAt_eq_some_iff, hbase]
    exact ⟨rfl, by decide, 0, rfl, rfl, rfl⟩
  exact ⟨[.missing _], _, checkRange_eq_singleton rfl rfl rfl hmissing, List.mem_singleton_self _,
    rfl, rfl⟩

/-! ## The gaps of a range -/

/-- A pass that succeeds reports the gaps of its range and nothing else, in ascending node id and
none wider than the radius. Of a dead end that faces a road with nothing between, and has a positive
base priority, what is to be added is known, and it is reported if the sum is from one to six. -/
theorem missing_are_gaps (ctx : AuditContext α) {start stop : Nat} {fs : List (Finding α)}
    (h : ctx.checkRange start stop = .ok fs) :
    ((missingOf fs).Pairwise fun m m' => m.nodeId < m'.nodeId) ∧
    (∀ m, m ∈ missingOf fs ↔ start ≤ m.nodeId ∧ m.nodeId < stop ∧ ∃ e s, ctx.IsGap m e s) ∧
    (∀ m ∈ missingOf fs, 0 < m.distance ∧ ¬ ctx.settings.radius < m.distance) ∧
    ∀ n openEnd e s, start ≤ n → n < stop → ctx.Faces n openEnd e s →
      ctx.barriers.crosses openEnd s.snapped = false → 0 < ctx.basePriority e s →
      ∃ added, ctx.decrement n openEnd e s = .ok added ∧
        (1 ≤ ctx.basePriority e s + added → ctx.basePriority e s + added ≤ 6 →
          ∃ m ∈ missingOf fs, m.nodeId = n ∧ ctx.IsGap m e s) := by
  refine ⟨ascending_missingOf h, fun m => mem_missingOf_iff h, fun m hm => ?_, ?_⟩
  · obtain ⟨-, -, e, s, hgap⟩ := (mem_missingOf_iff h).mp hm
    rw [hgap.distance]
    exact ⟨hgap.faces.nearest.holds.apart,
      RoadGraph.within_of_mem_nearest hgap.faces.nearest.holds.found⟩
  · intro n openEnd e s hstart hstop hfaces hopen hbase
    have hnode := (checkRange_eq_ok_iff.mp h).1 n hstart hstop
    rcases checkNode_eq_ok hnode with ⟨hskipped, -⟩ | ⟨osmId, missing, -, hid, hmissing, -⟩
    · rw [isSkipped_eq_false_iff.mpr hfaces.checked] at hskipped
      cases hskipped
    · rw [hfaces.missingAt] at hmissing
      obtain ⟨added, hadded⟩ := exists_decrement hmissing hopen hbase
      refine ⟨added, hadded, fun hone hsix => ?_⟩
      have hgap : ctx.IsGap (connection n osmId openEnd e s (ctx.basePriority e s + added)) e s :=
        ⟨hfaces, hid, rfl, rfl, rfl, rfl, rfl, hopen, hbase, ⟨added, hadded, rfl⟩, hone, hsix⟩
      exact ⟨_, (mem_missingOf_iff h).mpr ⟨hstart, hstop, e, s, hgap⟩, rfl, hgap⟩

/-- The end of the broken road is reported, with priority three. -/
theorem missing_are_gaps_brokenRoad :
    ∃ fs m, brokenRoad.checkRange 1 2 = .ok fs ∧ m ∈ missingOf fs ∧ m.nodeId = 1 ∧
      m.priority = 3 ∧ ∃ e s, brokenRoad.IsGap m e s := by
  obtain ⟨fs, m, hpass, hm, hid, hpriority⟩ := checkRange_brokenRoad
  obtain ⟨-, hgaps, -⟩ := missing_are_gaps brokenRoad hpass
  obtain ⟨-, -, hgap⟩ := (hgaps m).mp hm
  exact ⟨fs, m, hpass, hm, hid, hpriority, hgap⟩

end AuditContext

end RoadAudit
