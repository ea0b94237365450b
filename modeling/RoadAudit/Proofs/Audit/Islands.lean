import RoadAudit.Proofs.Audit.Gaps
import RoadAudit.Proofs.Graph.Islands
import RoadAudit.Proofs.Subnetwork.Plan

/-! # Islands are not audited

Nothing that an audit reads is on a removed island: its nodes are skipped, no edge at another node
leads there, no search by place finds its edges, and no search for a way gets there. So two audits
that differ only on an island have the same outcome. -/

namespace RoadAudit

open scoped Scalar

variable {α : Type} [Scalar α] {island : Set Nat}

/-! ## What a removal leaves -/

theorem RemovalPlan.island_of_make {β : Type} {g : RoadGraph β} {minSize : Nat} {plan : RemovalPlan}
    (h : make g minSize = .ok plan) :
    (plan.removedNodes.foldl RoadGraph.markRemoved g).SameBeside {n | n ∈ plan.removedNodes}
      (plan.removedNodes.foldl RoadGraph.markRemoved g) := by
  have hplan : (∀ n ∈ plan.removedNodes, n < g.nodeCount) ∧
      ∀ e ∈ g.edges, e.base ∈ plan.removedNodes ↔ e.adj ∈ plan.removedNodes := by
    by_cases hnothing : minSize = 0 ∨ g.subnetworks = ∅
    · rw [make_of_nothing hnothing] at h
      cases h
      simp
    · obtain ⟨hsize, hsome⟩ := not_or.mp hnothing
      obtain ⟨c, hc, -⟩ := exists_isLargest hsome
      rw [make_eq hsize hsome] at h
      split at h
      · cases h
      · cases h
        refine ⟨fun n hn => ?_, (takesSmall_proposed hc).whole⟩
        exact List.mem_range.mp (List.mem_filter.mp hn).1
  refine RoadGraph.sameBeside_self (fun n hn => ?_) (by simpa using hplan.2)
  rw [RoadGraph.isRemoved_foldl_markRemoved g _ (hplan.1 n hn), List.contains_iff_mem.mpr hn,
    Bool.or_true]

namespace AuditContext

/-- Whether two contexts differ only on a removed island: in where its nodes are, in what its edges
are like, their ends apart, and in the map ids of these edges. -/
structure SameBeside (island : Set Nat) (ctx ctx' : AuditContext α) : Prop where
  graph : ctx.graph.SameBeside island ctx'.graph
  nodeIds : ctx'.nodeIds = ctx.nodeIds
  wayIds : ∀ i e, ctx.graph.edges[i]? = some e → e.base ∉ island →
    ctx'.wayIds.osmId? i = ctx.wayIds.osmId? i
  barriers : ctx'.barriers = ctx.barriers
  settings : ctx'.settings = ctx.settings

variable {ctx ctx' : AuditContext α} {n : Nat} {e : EdgeView α} {s : Snap α} {openEnd : Point α}

/-! ## The match of a dead end -/

theorem eq_or_eq_of_nearerSnap {best : Option (Snap α)} {s t : Snap α}
    (h : nearerSnap best t = some s) : best = some s ∨ t = s := by
  unfold nearerSnap at h
  split at h
  · exact .inr (Option.some.inj h)
  · split at h
    · exact .inr (Option.some.inj h)
    · exact .inl h

theorem mem_nearest_of_match? (h : ctx.match? n openEnd e = some s) :
    s ∈ ctx.graph.nearest openEnd ctx.settings.radius := by
  obtain ⟨_, hmem, rfl⟩ :=
    exists_mem_of_foldl_eq_some h fun _ _ _ hbetter => eq_or_eq_of_nearerSnap hbetter
  exact (List.mem_filter.mp hmem).1

section SameBeside

variable (h : ctx.SameBeside island ctx')

include h

/-! ## Duplicated edges -/

omit [Scalar α] in
theorem SameBeside.isSkipped_eq (n : Nat) : ctx'.isSkipped n = ctx.isSkipped n := by
  rw [isSkipped, isSkipped, h.graph.marks, h.nodeIds]

theorem SameBeside.isDuplicate_eq {a b : EdgeView α} (ha : a.Beside island)
    (hb : b.Beside island) : ctx'.isDuplicate a b = ctx.isDuplicate a b := by
  rw [isDuplicate, isDuplicate, h.graph.geometry_eq ha, h.graph.geometry_eq hb]

omit [Scalar α] in
theorem SameBeside.wayId_eq (hn : n ∉ island) {v : EdgeView α} (hv : v ∈ ctx.graph.edgesOf n) :
    ctx'.wayIds.osmId? v.id = ctx.wayIds.osmId? v.id :=
  h.wayIds v.id v.edge (RoadGraph.mem_edgesOf_iff.mp hv).1 (h.graph.beside_of_mem_edgesOf hn hv).1

omit [Scalar α] in
theorem SameBeside.duplicatedEdge_eq (hn : n ∉ island) {a b : EdgeView α}
    (ha : a ∈ ctx.graph.edgesOf n) (hb : b ∈ ctx.graph.edgesOf n) :
    ctx'.duplicatedEdge a b = ctx.duplicatedEdge a b := by
  rw [duplicatedEdge, duplicatedEdge, h.wayId_eq hn ha, h.wayId_eq hn hb,
    h.graph.geometry_eq (h.graph.beside_of_mem_edgesOf hn ha)]

theorem SameBeside.duplicatesAmong_eq (hn : n ∉ island) {edges : List (EdgeView α)}
    (hedges : ∀ v ∈ edges, v ∈ ctx.graph.edgesOf n) :
    ctx'.duplicatesAmong n edges = ctx.duplicatesAmong n edges := by
  induction edges with
  | nil => rfl
  | cons a rest ih =>
    obtain ⟨ha, hrest⟩ := List.forall_mem_cons.mp hedges
    have hbeside := fun v hv => h.graph.beside_of_mem_edgesOf hn (v := v) hv
    have hfind : rest.find? (ctx'.isDuplicate a) = rest.find? (ctx.isDuplicate a) := by
      refine List.find?_congr fun b hb => ?_
      rw [h.isDuplicate_eq (hbeside a ha) (hbeside b (hrest b hb))]
    rw [duplicatesAmong, duplicatesAmong, hfind, ih hrest, reportsAt, reportsAt, h.isSkipped_eq]
    split
    · split
      · next b hb => rw [h.duplicatedEdge_eq hn ha (hrest b (List.mem_of_find?_eq_some hb))]
      · rfl
    · rfl

theorem SameBeside.duplicatesAt_eq (hn : n ∉ island) :
    ctx'.duplicatesAt n = ctx.duplicatesAt n := by
  rw [duplicatesAt, duplicatesAt, h.graph.edgesOf_eq hn,
    h.duplicatesAmong_eq hn fun _ hv => hv]

/-! ## Missing connections -/

omit [Scalar α] in
theorem SameBeside.deadEnd?_eq (hn : n ∉ island) : ctx'.deadEnd? n = ctx.deadEnd? n := by
  rw [deadEnd?, deadEnd?, h.graph.edgesOf_eq hn]

theorem SameBeside.match?_eq (he : e.Beside island) :
    ctx'.match? n openEnd e = ctx.match? n openEnd e := by
  have heligible : ctx'.isEligible n e = ctx.isEligible n e := by
    funext s
    rw [isEligible, isEligible, beyond, beyond, h.graph.edgesOf_eq he.adj_notMem]
  rw [match?, match?, h.settings, h.graph.nearest_eq, heligible]

theorem SameBeside.besideDriveway_eq (he : e.Beside island) (hs : s.edge.Beside island) :
    ctx'.besideDriveway openEnd e s = ctx.besideDriveway openEnd e s := by
  unfold besideDriveway openHeading matchedAngle RoadGraph.pillarsAndAdj
  rw [h.graph.geometry_eq he, h.graph.geometry_eq hs]

theorem SameBeside.wayRound_eq (hn : n ∉ island) (hs : s.edge.Beside island) :
    ctx'.wayRound n s = ctx.wayRound n s := by
  have hlimits : ctx'.searchLimits = ctx.searchLimits := by
    rw [searchLimits, searchLimits, h.settings]
  rw [wayRound, wayRound, hlimits, h.graph.route_eq hn, h.graph.routeToVertex_eq hn _ _ hs,
    h.graph.routeToPoint?_eq hn _ _ hs]

theorem SameBeside.gapAt_eq (hn : n ∉ island) (he : e.Beside island) (hs : s.edge.Beside island)
    (osmId : UInt64) : ctx'.gapAt n osmId openEnd e s = ctx.gapAt n osmId openEnd e s := by
  have hdecrement : ctx'.decrement n openEnd e s = ctx.decrement n openEnd e s := by
    rw [decrement, decrement, h.besideDriveway_eq he hs, h.wayRound_eq hn hs, h.settings]
  rw [gapAt, gapAt, hdecrement, h.barriers, h.settings]

theorem SameBeside.missingAt_eq (hn : n ∉ island) (osmId : UInt64) :
    ctx'.missingAt n osmId = ctx.missingAt n osmId := by
  rw [missingAt, missingAt, h.deadEnd?_eq hn, h.graph.point?_eq hn]
  split
  · next e openEnd hdead hplace =>
    have he : e.Beside island :=
      h.graph.beside_of_mem_edgesOf hn (deadEnd?_eq_some_iff.mp hdead).mem_edgesOf
    rw [h.match?_eq he]
    split
    · next s hmatch =>
      exact h.gapAt_eq hn he (h.graph.beside_of_mem_nearest (mem_nearest_of_match? hmatch)) osmId
    · rfl
  · rfl

/-! ## Passes -/

theorem SameBeside.checkNode_eq (n : Nat) : ctx'.checkNode n = ctx.checkNode n := by
  rw [checkNode, checkNode, h.isSkipped_eq, h.nodeIds]
  split
  case isTrue => rfl
  case isFalse hchecked =>
    have hn : n ∉ island := fun hmem => hchecked (by simp [isSkipped, h.graph.removed n hmem])
    simp only [h.missingAt_eq hn, h.duplicatesAt_eq hn]

theorem SameBeside.checkFrom_eq (start count : Nat) :
    ctx'.checkFrom start count = ctx.checkFrom start count := by
  induction count generalizing start with
  | zero => rfl
  | succ count ih => rw [checkFrom, checkFrom, h.checkNode_eq, h.nodeIds, ih]

end SameBeside

/-- Audits that differ only on a removed island have the same findings, or the same error, for every
range of nodes. -/
theorem checkRange_beside_island (h : ctx.SameBeside island ctx') (start stop : Nat) :
    ctx'.checkRange start stop = ctx.checkRange start stop :=
  h.checkFrom_eq start (stop - start)

/-- A road of four nodes whose ends nearly meet, and a path of its own. -/
def roadAndPath (isRemoved : Bool) (place : Point Float) (length : Float) (flags : RoadFlags)
    (pillars : List (Point Float)) : RoadGraph Float where
  nodes := #[⟨⟨-1, 0⟩, false⟩, ⟨⟨0, 0⟩, false⟩, ⟨⟨0.00008, 0⟩, false⟩, ⟨⟨1, 0⟩, false⟩,
    ⟨place, isRemoved⟩, ⟨⟨0, 0⟩, isRemoved⟩]
  edges := #[⟨0, 1, 0, .pack .residential false .ground false, []⟩, ⟨4, 5, length, flags, pillars⟩,
    ⟨2, 3, 0, .pack .residential false .ground false, []⟩,
    ⟨3, 0, 0, .pack .residential false .ground false, []⟩]
  ends := by simp

def contextOf (g : RoadGraph Float) (wayId : UInt64) : AuditContext Float where
  graph := g
  nodeIds := ⟨.nodes, #[10, 11, 12, 13, 14, 15]⟩
  wayIds := ⟨.ways, #[500, wayId, 501, 502]⟩
  barriers := default
  settings := default

theorem sameBeside_roadAndPath {place place' : Point Float} {length length' : Float}
    {flags flags' : RoadFlags} {pillars pillars' : List (Point Float)} {wayId wayId' : UInt64}
    (hremoved : ∀ n ∈ [4, 5], (roadAndPath true place length flags pillars).isRemoved n = true) :
    (contextOf (roadAndPath true place length flags pillars) wayId).SameBeside {n | n ∈ [4, 5]}
      (contextOf (roadAndPath true place' length' flags' pillars') wayId') where
  graph :=
    { removed := hremoved
      marks
        | 0 => rfl
        | 1 => rfl
        | 2 => rfl
        | 3 => rfl
        | 4 => rfl
        | 5 => rfl
        | _ + 6 => rfl
      nodes
        | 0 => fun _ => rfl
        | 1 => fun _ => rfl
        | 2 => fun _ => rfl
        | 3 => fun _ => rfl
        | 4 => fun h => absurd (List.mem_cons_self ..) h
        | 5 => fun _ => rfl
        | _ + 6 => fun _ => rfl
      edges := .cons (.outside (by simp) (by simp)) (.cons (.inside (by simp) (by simp) rfl rfl)
        (.cons (.outside (by simp) (by simp)) (.cons (.outside (by simp) (by simp)) .nil))) }
  nodeIds := rfl
  wayIds
    | 0 => fun _ _ _ => rfl
    | 1 => fun e he hbase => by
      obtain rfl := Option.some.inj he
      exact absurd (List.mem_cons_self ..) hbase
    | 2 => fun _ _ _ => rfl
    | 3 => fun _ _ _ => rfl
    | _ + 4 => fun _ _ _ => rfl
  barriers := rfl
  settings := rfl

/-- The path near the end of the road at the origin. -/
def pathAcross (isRemoved : Bool) : RoadGraph Float :=
  roadAndPath isRemoved ⟨0.0001, 0⟩ 11 (.pack .footway false .ground false) []

def pathFarOff (isRemoved : Bool) : RoadGraph Float :=
  roadAndPath isRemoved ⟨50, 8⟩ 7 (.pack .primary true .ground false) [⟨40, 4⟩]

theorem make_pathAcross : RemovalPlan.make (pathAcross false) 3 = .ok ⟨2, 1, [4, 5], [1]⟩ := rfl

theorem markRemoved_pathAcross :
    [4, 5].foldl RoadGraph.markRemoved (pathAcross false) = pathAcross true := rfl

/-- A removal plan takes the path across, and with a road in its place the audit is the same. -/
theorem checkRange_pathFarOff :
    RemovalPlan.make (pathAcross false) 3 = .ok ⟨2, 1, [4, 5], [1]⟩ ∧
      [4, 5].foldl RoadGraph.markRemoved (pathAcross false) = pathAcross true ∧
      (contextOf (pathAcross true) 600).SameBeside {n | n ∈ [4, 5]}
        (contextOf (pathFarOff true) 601) ∧
      (contextOf (pathFarOff true) 601).checkRange 0 6 =
        (contextOf (pathAcross true) 600).checkRange 0 6 := by
  have hisland := RemovalPlan.island_of_make make_pathAcross
  rw [markRemoved_pathAcross] at hisland
  have hbeside : (contextOf (pathAcross true) 600).SameBeside {n | n ∈ [4, 5]}
    (contextOf (pathFarOff true) 601) := sameBeside_roadAndPath hisland.removed
  exact ⟨make_pathAcross, markRemoved_pathAcross, hbeside, checkRange_beside_island hbeside 0 6⟩

end AuditContext

end RoadAudit
