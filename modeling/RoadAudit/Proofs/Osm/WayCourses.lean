import RoadAudit.Proofs.Osm.Assembled

/-! # The course of a way in the graph

The edges that come of a way are a run of neighbouring edge ids, and the runs of all ways follow on
from one another. Along its run a way has the course that it has in the map. -/

namespace RoadAudit
namespace Assembly

variable {σ α : Type} [Scalar α] {c : Collector σ} {cuts : Int64 → Bool}
  {place? : Int64 → Option (Point α)} {held : σ} {pieces : List (Piece α)} {ways : List RoadWay}
  {a : Assembly σ α}

section Shown

variable {v : EdgeView α} {p : Piece α}

theorem Assembled.osmId?_of_shows (h : Assembled c place? held pieces a) (hv : v.Shows pieces p) :
    a.wayIds.osmId? v.id = some p.1.id.toUInt64 := by
  rw [h.osmId?_eq, hv.piece]
  rfl

theorem Assembled.geometry_of_shows (h : Assembled c place? held pieces a)
    (hv : v.Shows pieces p) (hplaced : p.IsPlaced place?) :
    a.graph.geometry v = p.2.stops.map Stop.point := by
  have hbase : a.graph.point? v.edge.base = some p.2.first.point := by
    rw [h.numbered.point?_eq hv.traces.base]
    exact hplaced _ (by simp [Section.stops])
  have hadj : a.graph.point? v.edge.adj = some p.2.last.point := by
    rw [h.numbered.point?_eq hv.traces.adj]
    exact hplaced _ (by simp [Section.stops])
  rw [RoadGraph.geometry, if_neg (by simp [hv.stored]), RoadGraph.course, hbase, hadj,
    hv.traces.pillars]
  simp [Section.stops]

theorem Assembled.adj_eq_base (h : Assembled c place? held pieces a) {u : EdgeView α}
    {q : Piece α} (hu : u.Shows pieces p) (hv : v.Shows pieces q)
    (hmeet : q.2.first = p.2.last) : u.adj = v.base := by
  have hadj : u.adj = u.edge.adj := by simp [EdgeView.adj, hu.stored]
  have hbase : v.base = v.edge.base := by simp [EdgeView.base, hv.stored]
  rw [hadj, hbase]
  have hlt : u.edge.adj < (Piece.visits pieces).eraseDups.length :=
    (List.getElem?_eq_some_iff.mp hu.traces.adj).1
  refine (List.getElem?_inj hlt h.numbered.nodup).mp ?_
  rw [hu.traces.adj, hv.traces.base, hmeet]

end Shown

/-- Whether edges are what becomes of a way. -/
structure IsRun (a : Assembly σ α) (place? : Int64 → Option (Point α)) (w : RoadWay)
    (run : List (EdgeView α)) : Prop where
  nil_iff : run = [] ↔ (w.stops place?).length < 2
  chain : run.IsChain fun u v => u.adj = v.base
  joined_eq : run ≠ [] →
    joined (run.map a.graph.geometry) = (w.stops place?).map Stop.point
  flags : ∀ v ∈ run, v.edge.flags = w.flags
  length : ∀ v ∈ run, v.edge.length = Metric.earth.length (a.graph.geometry v)
  osmId : ∀ v ∈ run, a.wayIds.osmId? v.id = some w.id.toUInt64

theorem Assembled.isRun (h : Assembled c place? held (Piece.ofWays cuts place? ways) a)
    {w : RoadWay} {run : List (EdgeView α)}
    (hrun : List.Forall₂ (EdgeView.Shows (Piece.ofWays cuts place? ways)) run
      ((w.sections cuts place?).map (w, ·))) : IsRun a place? w run := by
  have hgeometry : ∀ {v p}, v.Shows (Piece.ofWays cuts place? ways) p →
      a.graph.geometry v = p.2.stops.map Stop.point := fun hv =>
    h.geometry_of_shows hv (Piece.isPlaced_of_mem (List.mem_of_getElem? hv.piece))
  rw [List.forall₂_map_right_iff] at hrun
  have hnil : run = [] ↔ (w.stops place?).length < 2 := by
    rw [← w.sections_eq_nil_iff cuts place?, ← List.length_eq_zero_iff, hrun.length_eq,
      List.length_eq_zero_iff]
  have heach : ∀ v ∈ run, v.edge.flags = w.flags ∧
      v.edge.length = Metric.earth.length (a.graph.geometry v) ∧
      a.wayIds.osmId? v.id = some w.id.toUInt64 := by
    refine ((List.forall₂_and_left run _).mp (hrun.imp fun v s hv => ⟨?_, hv⟩)).1
    exact ⟨hv.traces.flags, hv.traces.length.trans (by rw [hgeometry hv]), h.osmId?_of_shows hv⟩
  constructor
  case nil_iff => exact hnil
  case chain =>
    have hlink : ∀ (u v : EdgeView α) (s t : Section α),
        u.Shows (Piece.ofWays cuts place? ways) (w, s) →
        v.Shows (Piece.ofWays cuts place? ways) (w, t) → t.first = s.last → u.adj = v.base :=
      fun u v s t hu hv hmeet => h.adj_eq_base hu hv hmeet
    exact isChain_of_forall₂ hlink hrun (w.chain_sections cuts place?)
  case joined_eq =>
    intro hne
    have hstops : 2 ≤ (w.stops place?).length := Nat.le_of_not_lt fun hlt => hne (hnil.mpr hlt)
    rw [← w.joined_sections cuts place? hstops]
    exact joined_of_forall₂ (List.forall₂_map_right_iff.mpr (hrun.imp fun v s => hgeometry))
  case flags => exact fun v hv => (heach v hv).1
  case length => exact fun v hv => (heach v hv).2.1
  case osmId => exact fun v hv => (heach v hv).2.2

/-- The edges of what is assembled, in ascending id, are runs, one for each way in order. A way with
fewer than two nodes of known place has the empty run. Along the run of any other the next edge
begins at the node where the one before ends, and the courses joined at these nodes are the places
of the way's nodes, none of them left out, doubled or moved. -/
theorem views_eq_runs {uses : Int64 → Nat} (h : ofWays c uses place? held ways = .ok a) :
    ∃ runs : List (List (EdgeView α)), a.graph.views = runs.flatten ∧
      List.Forall₂ (IsRun a place?) ways runs ∧ a.wayIds.size = a.graph.edgeCount := by
  have hassembled := assembled_ofWays h
  obtain ⟨runs, hviews, hruns⟩ := exists_flatten_of_forall₂_flatMap _ hassembled.shows
  refine ⟨runs, hviews, hruns.imp fun w run hrun => hassembled.isRun hrun, ?_⟩
  rw [hassembled.size_eq, hassembled.edgeCount_eq]

/-- A road of four places and one that leaves it at the third; the road also goes through a node
without a place. -/
def crossing : List RoadWay := [⟨100, [1, 2, 6, 3, 4], default⟩, ⟨200, [3, 5], default⟩]

def crossingPlace? (id : Int64) : Option (Point Float) :=
  [(1, ⟨50, 8⟩), (2, ⟨50, 9⟩), (3, ⟨50, 10⟩), (4, ⟨50, 11⟩), (5, ⟨51, 10⟩)].lookup id

def crossingUses (id : Int64) : Nat := (crossing.flatMap RoadWay.nodes).count id

theorem exists_ofWays_crossing :
    ∃ a, ofWays Collector.idle crossingUses crossingPlace? () crossing = .ok a :=
  exists_ofWays (Collector.accepts_idle ()) (fun _ _ _ _ => trivial) (by decide)

/-- The node without a place is left out of the road, and both roads go through the third place. -/
theorem views_eq_runs_crossing :
    ∃ a road branch, ofWays Collector.idle crossingUses crossingPlace? () crossing = .ok a ∧
      a.graph.views = road ++ branch ∧
      joined (road.map a.graph.geometry) = [⟨50, 8⟩, ⟨50, 9⟩, ⟨50, 10⟩, ⟨50, 11⟩] ∧
      joined (branch.map a.graph.geometry) = [⟨50, 10⟩, ⟨51, 10⟩] := by
  obtain ⟨a, ha⟩ := exists_ofWays_crossing
  obtain ⟨runs, hviews, hruns, -⟩ := views_eq_runs ha
  rw [crossing] at hruns
  obtain _ | ⟨hroad, _ | ⟨hbranch, _ | _⟩⟩ := hruns
  refine ⟨a, _, _, ha, by simpa using hviews, ?_, ?_⟩
  · exact hroad.joined_eq fun hnil => absurd (hroad.nil_iff.mp hnil) (by decide)
  · exact hbranch.joined_eq fun hnil => absurd (hbranch.nil_iff.mp hnil) (by decide)

end Assembly
end RoadAudit
