import RoadAudit.Graph.Route
import RoadAudit.Proofs.Graph.Incidence
import RoadAudit.Proofs.Graph.Matches
import RoadAudit.Proofs.Lists

/-! # Removed islands

An island is a set of removed nodes that no edge leaves. Two graphs that differ only in where the
nodes of an island are and in what its edges are like, their ends apart, look the same from outside:
the edges at every other node, what a search by place finds, and the ways from every other node. -/

namespace RoadAudit

open scoped Scalar

variable {α : Type} {island : Set Nat}

/-- Whether an edge lies on an island and has kept its ends, or lies beside it and is unchanged. -/
inductive Edge.SameBeside (island : Set Nat) : Edge α → Edge α → Prop
  | inside {e e' : Edge α} (hbase : e.base ∈ island) (hadj : e.adj ∈ island)
      (hbase' : e'.base = e.base) (hadj' : e'.adj = e.adj) : SameBeside island e e'
  | outside {e : Edge α} (hbase : e.base ∉ island) (hadj : e.adj ∉ island) : SameBeside island e e

theorem Edge.SameBeside.closed {e e' : Edge α} (h : e.SameBeside island e') :
    e.base ∈ island ↔ e.adj ∈ island := by
  cases h with
  | inside hbase hadj => exact iff_of_true hbase hadj
  | outside hbase hadj => exact iff_of_false hbase hadj

def EdgeView.Beside (island : Set Nat) (v : EdgeView α) : Prop :=
  v.edge.base ∉ island ∧ v.edge.adj ∉ island

theorem EdgeView.Beside.adj_notMem {v : EdgeView α} (h : v.Beside island) : v.adj ∉ island := by
  rcases v.ends with ⟨-, hadj⟩ | ⟨-, hadj⟩
  · exact hadj ▸ h.2
  · exact hadj ▸ h.1

/-- Whether some nodes are removed and joined to no other nodes, and two graphs differ only in their
places and in the edges between them. -/
structure RoadGraph.SameBeside (island : Set Nat) (g g' : RoadGraph α) : Prop where
  removed : ∀ n ∈ island, g.isRemoved n = true
  marks : ∀ n, g'.isRemoved n = g.isRemoved n
  nodes : ∀ n ∉ island, g'.nodes[n]? = g.nodes[n]?
  edges : List.Forall₂ (Edge.SameBeside island) g.edges.toList g'.edges.toList

namespace RoadGraph

variable {g g' : RoadGraph α}

/-! ## Edges and courses -/

section Edges

variable (h : g.SameBeside island g')

include h

theorem SameBeside.flatMap_views {β : Type} {f f' : EdgeView α → List β}
    (hinside : ∀ v, v.edge.base ∈ island → v.edge.adj ∈ island → f v = [] ∧ f' v = [])
    (hbeside : ∀ v, v.Beside island → f' v = f v) : g'.views.flatMap f' = g.views.flatMap f := by
  have hfrom : ∀ (l l' : List (Edge α)) (k : Nat), List.Forall₂ (Edge.SameBeside island) l l' →
      ((l'.zipIdx k).flatMap fun p => f' ⟨p.2, p.1, false⟩) =
        (l.zipIdx k).flatMap fun p => f ⟨p.2, p.1, false⟩ := by
    intro l l' k hedges
    induction hedges generalizing k with
    | nil => rfl
    | cons hedge _ ih =>
      rw [List.zipIdx_cons, List.zipIdx_cons, List.flatMap_cons, List.flatMap_cons, ih]
      cases hedge with
      | inside hbase hadj hbase' hadj' =>
        rw [(hinside _ hbase hadj).1, (hinside _ (hbase' ▸ hbase) (hadj' ▸ hadj)).2]
      | outside hbase hadj => rw [hbeside _ ⟨hbase, hadj⟩]
  rw [views, views, List.flatMap_map, List.flatMap_map]
  exact hfrom _ _ 0 h.edges

/-- No edge leads from an island to another node. -/
theorem SameBeside.closed {e : Edge α} (he : e ∈ g.edges) : e.base ∈ island ↔ e.adj ∈ island := by
  have hends := h.edges.imp fun _ _ hedge => And.intro hedge.closed hedge
  exact ((List.forall₂_and_left _ _).mp hends).1 e (by simpa using he)

theorem SameBeside.beside_of_mem_edgesOf {n : Nat} (hn : n ∉ island) {v : EdgeView α}
    (hv : v ∈ g.edgesOf n) : v.Beside island := by
  have hclosed := h.closed (joins_of_mem_edgesOf hv).1
  rcases end_of_mem_edgesOf hv with hend | hend
  · have hbase : v.edge.base ∉ island := hend ▸ hn
    exact ⟨hbase, fun hadj => hbase (hclosed.mpr hadj)⟩
  · have hadj : v.edge.adj ∉ island := hend ▸ hn
    exact ⟨fun hbase => hadj (hclosed.mp hbase), hadj⟩

theorem SameBeside.edgesOf_eq {n : Nat} (hn : n ∉ island) : g'.edgesOf n = g.edgesOf n := by
  rw [edgesOf, edgesOf, List.filterMap_eq_flatMap_toList, List.filterMap_eq_flatMap_toList]
  refine h.flatMap_views (fun v hbase hadj => ?_) (fun _ _ => rfl)
  have hbase' : v.edge.base ≠ n := fun heq => hn (heq ▸ hbase)
  have hadj' : v.edge.adj ≠ n := fun heq => hn (heq ▸ hadj)
  simp [viewFrom?, hbase', hadj']

theorem SameBeside.point?_eq {n : Nat} (hn : n ∉ island) : g'.point? n = g.point? n := by
  rw [point?, point?, h.nodes n hn]

theorem SameBeside.course_eq {v : EdgeView α} (hv : v.Beside island) :
    g'.course v.edge = g.course v.edge := by
  rw [course, course, h.point?_eq hv.1, h.point?_eq hv.2]

theorem SameBeside.geometry_eq {v : EdgeView α} (hv : v.Beside island) :
    g'.geometry v = g.geometry v := by
  rw [geometry, geometry, h.course_eq hv]

end Edges

/-! ## Removing nodes -/

theorem sameBeside_self (hremoved : ∀ n ∈ island, g.isRemoved n = true)
    (hclosed : ∀ e ∈ g.edges, e.base ∈ island ↔ e.adj ∈ island) : g.SameBeside island g where
  removed := hremoved
  marks := fun _ => rfl
  nodes := fun _ _ => rfl
  edges := by
    refine List.forall₂_same.mpr fun e he => ?_
    have hends := hclosed e (by simpa using he)
    by_cases hbase : e.base ∈ island
    · exact .inside hbase (hends.mp hbase) rfl rfl
    · exact .outside hbase fun hadj => hbase (hends.mpr hadj)

@[simp] theorem edges_foldl_markRemoved (g : RoadGraph α) (nodes : List Nat) :
    (nodes.foldl markRemoved g).edges = g.edges := by
  induction nodes generalizing g with
  | nil => rfl
  | cons v rest ih => exact ih (g.markRemoved v)

@[simp] theorem nodeCount_markRemoved (g : RoadGraph α) (v : Nat) :
    (g.markRemoved v).nodeCount = g.nodeCount :=
  Array.size_modify

theorem isRemoved_markRemoved (g : RoadGraph α) (v : Nat) {n : Nat} (hn : n < g.nodeCount) :
    (g.markRemoved v).isRemoved n = (g.isRemoved n || n == v) := by
  obtain ⟨node, hnode⟩ : ∃ node, g.nodes[n]? = some node := ⟨_, Array.getElem?_eq_getElem hn⟩
  unfold isRemoved markRemoved
  rw [Array.getElem?_modify]
  by_cases hv : v = n
  · simp [hv, hnode]
  · simp [hv, hnode, Ne.symm hv]

theorem isRemoved_foldl_markRemoved (g : RoadGraph α) (nodes : List Nat) {n : Nat}
    (hn : n < g.nodeCount) :
    (nodes.foldl markRemoved g).isRemoved n = (g.isRemoved n || nodes.contains n) := by
  induction nodes generalizing g with
  | nil => simp
  | cons v rest ih =>
    rw [List.foldl_cons, ih _ (by simpa using hn), isRemoved_markRemoved g v hn,
      List.contains_cons, Bool.or_assoc]

/-! ## Searches by place -/

variable [Scalar α] {query : Point α} {radius : α}

theorem snapsIn_filter_shown (g : RoadGraph α) (query : Point α) (radius : α)
    (found : List (IndexedSegment α)) :
    g.snapsIn query radius (found.filter fun s => !g.isHidden s.view.edge) =
      g.snapsIn query radius found := by
  have hcandidates : (found.filter fun s => !g.isHidden s.view.edge).filterMap
      (g.candidate? query radius) = found.filterMap (g.candidate? query radius) := by
    rw [List.filterMap_filter]
    refine List.filterMap_congr fun s _ => ?_
    cases hhidden : g.isHidden s.view.edge <;> simp [candidate?, hhidden]
  rw [snapsIn, hcandidates, ← snapsIn]

theorem of_mem_shown {found : List (IndexedSegment α)} {c : Candidate α}
    (h : c ∈ found.filterMap (g.candidate? query radius)) : g.isHidden c.view.edge = false := by
  obtain ⟨s, -, hc⟩ := List.mem_filterMap.mp h
  obtain ⟨hview, -, hshown, -⟩ := candidate?_eq_some hc
  rwa [hview]

section Places

variable (h : g.SameBeside island g')

include h

omit [Scalar α] in
theorem SameBeside.isHidden_eq (e : Edge α) : g'.isHidden e = g.isHidden e := by
  rw [isHidden, isHidden, h.marks, h.marks]

omit [Scalar α] in
theorem SameBeside.isHidden_inside {e : Edge α} (hbase : e.base ∈ island) :
    g.isHidden e = true := by
  rw [isHidden, h.removed e.base hbase, Bool.true_or]

omit [Scalar α] in
theorem SameBeside.beside_of_shown {v : EdgeView α} (hshown : g.isHidden v.edge = false) :
    v.Beside island := by
  rw [isHidden, Bool.or_eq_false_iff] at hshown
  constructor
  · intro hbase
    cases (h.removed _ hbase).symm.trans hshown.1
  · intro hadj
    cases (h.removed _ hadj).symm.trans hshown.2

theorem SameBeside.candidate?_eq (s : IndexedSegment α) :
    g'.candidate? query radius s = g.candidate? query radius s := by
  rw [candidate?, candidate?, h.isHidden_eq]

theorem SameBeside.snapOf_eq {c : Candidate α} (hc : c.view.Beside island) :
    g'.snapOf query c = g.snapOf query c := by
  rw [snapOf, snapOf, h.course_eq hc]

/-- In whatever order an index yields the segments near a place, the edges of an island do not
matter. -/
theorem SameBeside.snapsIn_eq {found found' : List (IndexedSegment α)}
    (hfound : (found'.filter fun s => !g'.isHidden s.view.edge) =
      found.filter fun s => !g.isHidden s.view.edge) :
    g'.snapsIn query radius found' = g.snapsIn query radius found := by
  rw [← snapsIn_filter_shown g', hfound, ← snapsIn_filter_shown g, snapsIn, snapsIn,
    show g'.candidate? query radius = g.candidate? query radius from funext h.candidate?_eq]
  refine List.map_congr_left fun c hc => h.snapOf_eq (h.beside_of_shown ?_)
  exact of_mem_shown (mem_of_mem_nearestOfEach hc)

theorem SameBeside.shown_segmentsMeeting (box : Box α) :
    ((g'.segmentsMeeting box).filter fun s => !g'.isHidden s.view.edge) =
      (g.segmentsMeeting box).filter fun s => !g.isHidden s.view.edge := by
  simp only [segmentsMeeting, indexedSegments, List.filter_flatMap]
  refine h.flatMap_views (fun v hbase _ => ?_) (fun v hv => ?_)
  · have hhidden := h.isHidden_inside hbase
    constructor
    · rw [List.filter_eq_nil_iff]
      intro s hs
      rw [view_of_mem_segmentsOf (List.mem_filter.mp hs).1, hhidden]
      decide
    · rw [List.filter_eq_nil_iff]
      intro s hs
      rw [view_of_mem_segmentsOf (List.mem_filter.mp hs).1, h.isHidden_eq, hhidden]
      decide
  · simp only [segmentsOf, h.course_eq hv, h.isHidden_eq]

theorem SameBeside.nearest_eq (query : Point α) (radius : α) :
    g'.nearest query radius = g.nearest query radius :=
  h.snapsIn_eq (h.shown_segmentsMeeting _)

theorem SameBeside.beside_of_mem_nearest {s : Snap α} (hs : s ∈ g.nearest query radius) :
    s.edge.Beside island := by
  obtain ⟨c, hc, rfl⟩ := candidate_of_mem_nearest hs
  rw [edge_snapOf]
  exact h.beside_of_shown (of_mem_candidatesNear hc).2.1

end Places

end RoadGraph

/-! ## Ways -/

namespace Search

variable {s : Search α}

/-- Whether a search has reached no node of an island. -/
def Avoids (s : Search α) (island : Set Nat) : Prop := ∀ l ∈ s.labels, l.node ∉ island

theorem Avoids.modify (h : s.Avoids island) (i : Nat) {f : Label α → Label α}
    (hf : ∀ l, (f l).node = l.node) (n : Nat) :
    Avoids ⟨s.labels.modify i f, s.index, n⟩ island := by
  intro l hl
  obtain ⟨j, hj⟩ := Array.mem_iff_getElem?.mp hl
  rw [Array.getElem?_modify] at hj
  split at hj
  · obtain ⟨m, hm, rfl⟩ := Option.map_eq_some_iff.mp hj
    rw [hf]
    exact h m (Array.mem_of_getElem? hm)
  · exact h l (Array.mem_of_getElem? hj)

theorem Avoids.settle (h : s.Avoids island) (i : Nat) : (s.settle i).Avoids island :=
  h.modify i (f := fun l => { l with settled := true }) (fun _ => rfl) _

variable [Scalar α] {s' : Search α} {limits : SearchLimits α} {target : Nat}

theorem avoids_start {n : Nat} (hn : n ∉ island) : (start n : Search α).Avoids island := by
  intro l hl
  obtain rfl : l = ⟨n, 0, false⟩ := by simpa [start] using hl
  exact hn

theorem Avoids.relax (h : s.Avoids island) {v : Nat} (hv : v ∉ island) (d : α) :
    (s.relax v d).Avoids island := by
  unfold Search.relax
  split
  · refine h.modify _ (fun l => ?_) _
    split <;> rfl
  · intro l hl
    rcases Array.mem_push.mp hl with hl | rfl
    · exact h l hl
    · exact hv

theorem Avoids.relaxAll (h : s.Avoids island) {d : α} {todo : List (EdgeView α)}
    (htodo : ∀ v ∈ todo, v.adj ∉ island)
    (hrun : Search.relaxAll limits target d todo s = .running s') : s'.Avoids island := by
  induction todo generalizing s with
  | nil =>
    cases hrun
    exact h
  | cons v rest ih =>
    rw [Search.relaxAll] at hrun
    split at hrun
    · cases hrun
    · exact ih (h.relax (htodo v List.mem_cons_self) _)
        (fun w hw => htodo w (List.mem_cons_of_mem v hw)) hrun

theorem eq_or_eq_of_nearerLabel {best : Option (Nat × Label α)} {p : Label α × Nat}
    {c : Nat × Label α} (h : nearerLabel best p.2 p.1 = some c) : best = some c ∨ p = c.swap := by
  unfold nearerLabel at h
  split at h
  · exact .inl h
  · split at h
    · cases h
      exact .inr rfl
    · split at h
      · cases h
        exact .inr rfl
      · exact .inl h

theorem mem_of_nearest? {i : Nat} {l : Label α} (h : s.nearest? = some (i, l)) : l ∈ s.labels := by
  rw [nearest?] at h
  obtain ⟨_, hmem, rfl⟩ :=
    exists_mem_of_foldl_eq_some h fun _ _ _ hbetter => eq_or_eq_of_nearerLabel hbetter
  have hl := List.mem_zipIdx_iff_getElem?.mp hmem
  exact Array.mem_of_getElem? (by simpa using hl)

section Beside

variable {g g' : RoadGraph α} (h : g.SameBeside island g')

include h

theorem Avoids.step (hs : s.Avoids island) (hrun : s.step g limits target = .running s') :
    s'.Avoids island := by
  unfold Search.step at hrun
  split at hrun
  · cases hrun
  · next i l hnearest =>
    split at hrun
    · cases hrun
    · have hl : l.node ∉ island := hs l (mem_of_nearest? hnearest)
      exact (hs.settle i).relaxAll
        (fun v hv => (h.beside_of_mem_edgesOf hl hv).adj_notMem) hrun

theorem Avoids.step_eq (hs : s.Avoids island) :
    s.step g' limits target = s.step g limits target := by
  unfold Search.step
  cases hnearest : s.nearest? with
  | none => rfl
  | some p =>
    dsimp only
    rw [h.edgesOf_eq (hs p.2 (mem_of_nearest? hnearest))]

theorem Avoids.run_eq (hs : s.Avoids island) (budget : Nat) :
    run g' limits target budget s = run g limits target budget s := by
  induction budget generalizing s with
  | zero => rfl
  | succ budget ih =>
    rw [run, run, hs.step_eq h]
    cases hstep : s.step g limits target with
    | ended r => rfl
    | running s' => exact ih (hs.step h hstep)

end Beside

end Search

namespace RoadGraph

variable [Scalar α] {g g' : RoadGraph α} {source : Nat}

section Ways

variable (h : g.SameBeside island g') (hsource : source ∉ island)

include h hsource

theorem SameBeside.route_eq (limits : SearchLimits α) (target : Nat) :
    g'.route limits source target = g.route limits source target := by
  rw [route, route, (Search.avoids_start hsource).run_eq h]

theorem SameBeside.routeViaEnds_eq (limits : SearchLimits α) (v : EdgeView α)
    (fromBase fromAdj : α) :
    g'.routeViaEnds limits source v fromBase fromAdj =
      g.routeViaEnds limits source v fromBase fromAdj := by
  simp only [routeViaEnds, h.route_eq hsource]

theorem SameBeside.routeToVertex_eq (limits : SearchLimits α) (m : Metric) {v : EdgeView α}
    (hv : v.Beside island) (wayIndex : Nat) :
    g'.routeToVertex limits m source v wayIndex = g.routeToVertex limits m source v wayIndex := by
  simp only [routeToVertex, h.routeViaEnds_eq hsource, h.geometry_eq hv]

theorem SameBeside.routeToPoint?_eq (limits : SearchLimits α) (m : Metric) {v : EdgeView α}
    (hv : v.Beside island) (p : Point α) :
    g'.routeToPoint? limits m source v p = g.routeToPoint? limits m source v p := by
  simp only [routeToPoint?, h.routeViaEnds_eq hsource, h.geometry_eq hv]

end Ways

end RoadGraph

end RoadAudit
