import RoadAudit.Proofs.Osm.Towers
import RoadAudit.Proofs.Osm.WayCourses

/-! # The legend of a graph

A legend names the map node that each node of a graph stands for, and those that the pillars of
each edge stand for. What is assembled of the ways has a legend in which every map node of the
roads stands exactly once, provided that the uses count what ways share. -/

namespace RoadAudit

/-! ## What the parts of a collector are told -/

namespace Collector

variable {σ τ : Type}

theorem recordAll_both {c : Collector σ} {d : Collector τ} {held last : σ × τ} {ids : List Int64}
    (h : (c.both d).recordAll held ids = .ok last) :
    c.recordAll held.1 ids = .ok last.1 ∧ d.recordAll held.2 ids = .ok last.2 := by
  unfold recordAll at h ⊢
  generalize ids.zipIdx = ps at h ⊢
  induction ps generalizing held with
  | nil =>
    cases h
    exact ⟨rfl, rfl⟩
  | cons p ps ih =>
    rw [List.foldlM_cons] at h ⊢
    obtain ⟨next, hnext, h⟩ := bind_eq_ok_iff.mp h
    obtain ⟨first, hfirst, hnext⟩ := bind_eq_ok_iff.mp hnext
    obtain ⟨second, hsecond, hnext⟩ := bind_eq_ok_iff.mp hnext
    cases hnext
    rw [hfirst, List.foldlM_cons, hsecond]
    exact ih h

/-- The collectors that one is put together of, each with how what it holds is found. -/
inductive HasPart : {σ τ : Type} → Collector σ → (σ → τ) → Collector τ → Prop
  | self {σ : Type} (c : Collector σ) : HasPart c id c
  | first {σ τ υ : Type} {c : Collector σ} {view : σ → υ} {part : Collector υ} (d : Collector τ)
      (h : HasPart c view part) : HasPart (c.both d) (fun held => view held.1) part
  | second {σ τ υ : Type} {d : Collector τ} {view : τ → υ} {part : Collector υ} (c : Collector σ)
      (h : HasPart d view part) : HasPart (c.both d) (fun held => view held.2) part

/-- Every part of a collector is told of the same nodes in the same order. -/
theorem HasPart.recordAll {c : Collector σ} {view : σ → τ} {part : Collector τ}
    (hpart : HasPart c view part) {held last : σ} {ids : List Int64}
    (h : c.recordAll held ids = .ok last) : part.recordAll (view held) ids = .ok (view last) := by
  induction hpart with
  | self c => exact h
  | first d _ ih => exact ih (recordAll_both h).1
  | second c _ ih => exact ih (recordAll_both h).2

end Collector

/-! ## Legends -/

/-- The map ids that the nodes and the pillars of a graph stand for. -/
structure Legend where
  nodes : List Int64
  pillars : List (List Int64)

namespace Legend

variable {α : Type}

def along (l : Legend) (v : EdgeView α) : List Int64 :=
  (l.nodes[v.edge.base]?).toList ++ (l.pillars[v.id]?).getD [] ++ (l.nodes[v.edge.adj]?).toList

/-- Whether a legend is one for each node and each pillar of a graph, with their places. -/
structure Fits (l : Legend) (place? : Int64 → Option (Point α)) (g : RoadGraph α) : Prop where
  nodeCount_eq : l.nodes.length = g.nodeCount
  point?_eq : ∀ (n : Nat) id, l.nodes[n]? = some id → g.point? n = place? id
  edgeCount_eq : l.pillars.length = g.edgeCount
  pillars_eq : ∀ (i : Nat) e ids, g.edges[i]? = some e → l.pillars[i]? = some ids →
    e.pillars.map some = ids.map place?

/-- Whether a legend names the map nodes of some roads: each of them once, in order those that are
to become nodes, and besides them the pillars. -/
structure Names (l : Legend) (place? : Int64 → Option (Point α)) (ways : List RoadWay)
    (uses : Int64 → Nat) : Prop where
  nodup : (l.nodes ++ l.pillars.flatten).Nodup
  mem_iff : ∀ id, id ∈ l.nodes ++ l.pillars.flatten ↔ id ∈ occurrences place? ways
  mem_nodes_iff : ∀ id ∈ occurrences place? ways, id ∈ l.nodes ↔ IsTower place? ways uses id
  nodes_eq : l.nodes =
    ((occurrences place? ways).filter fun id => IsTower place? ways uses id).eraseDups

def ofPieces (pieces : List (Piece α)) : Legend where
  nodes := (Piece.visits pieces).eraseDups
  pillars := pieces.map fun p => p.2.innerIds

variable {place? : Int64 → Option (Point α)} {ways : List RoadWay} {uses : Int64 → Nat}

theorem names_ofPieces (hshared : CountsShared uses ways)
    (hnodup : (Piece.visits (Piece.ofWays (fun id => 1 < uses id) place? ways)).eraseDups.Nodup) :
    (ofPieces (Piece.ofWays (fun id => 1 < uses id) place? ways)).Names place? ways uses := by
  have hpillars : (ofPieces (Piece.ofWays (fun id => 1 < uses id) place? ways)).pillars =
    pillarIds place? ways fun id => 1 < uses id := rfl
  have hnodes : (ofPieces (Piece.ofWays (fun id => 1 < uses id) place? ways)).nodes =
      (towerIds place? ways fun id => 1 < uses id).eraseDups :=
    eraseDups_visits_ofWays place? ways _
  constructor
  case nodup =>
    rw [List.nodup_append]
    refine ⟨hnodup, nodup_pillarIds hshared, ?_⟩
    rintro id hid _ hid' rfl
    rw [hnodes, List.mem_eraseDups] at hid
    exact not_mem_towerIds hshared hid' hid
  case mem_iff =>
    intro id
    rw [hnodes, hpillars, ← (perm_occurrences place? ways fun id => 1 < uses id).mem_iff,
      List.mem_append, List.mem_append, List.mem_eraseDups]
  case mem_nodes_iff =>
    intro id hid
    rw [hnodes, List.mem_eraseDups, towerIds_eq hshared, List.mem_filter]
    simp [hid]
  case nodes_eq => rw [hnodes, towerIds_eq hshared]

variable [Scalar α]

theorem along_of_shows {pieces : List (Piece α)} {v : EdgeView α} {p : Piece α}
    (h : v.Shows pieces p) : (ofPieces pieces).along v = p.2.stops.map Stop.osmId := by
  rw [along, ofPieces, h.traces.base, h.traces.adj, List.getElem?_map, h.piece]
  simp [Section.stops, Section.innerIds]

end Legend

namespace Assembly

variable {σ α : Type} [Scalar α] {c : Collector σ} {uses : Int64 → Nat}
  {place? : Int64 → Option (Point α)} {held : σ} {ways : List RoadWay} {a : Assembly σ α}

theorem Assembled.fits {pieces : List (Piece α)} (h : Assembled c place? held pieces a)
    (hplaced : ∀ p ∈ pieces, p.IsPlaced place?) :
    (Legend.ofPieces pieces).Fits place? a.graph where
  nodeCount_eq := h.numbered.nodeCount_eq.symm
  point?_eq _ _ hn := h.numbered.point?_eq hn
  edgeCount_eq := by rw [h.edgeCount_eq, Legend.ofPieces, List.length_map]
  pillars_eq i e ids he hids := by
    rw [Legend.ofPieces, List.getElem?_map, Option.map_eq_some_iff] at hids
    obtain ⟨p, hp, rfl⟩ := hids
    rw [← Array.getElem?_toList] at he
    rw [(rel_of_forall₂ h.traces he hp).pillars, Section.innerIds, List.map_map, List.map_map]
    refine List.map_congr_left fun s hs => ?_
    exact (hplaced p (List.mem_of_getElem? hp) s (by simp [Section.stops, hs])).symm

/-- What is assembled has a legend. Along the edges of a way it names the nodes of the way that
have a place, in order, so that all occurrences of a map node are at the one place in the graph
where the legend has it: a node, if a road begins or ends there or it is used more than once, else
a pillar. The nodes are numbered in the order of their first occurrence, and each part of the
collector is told of all of them in this order, once of each. -/
theorem exists_legend (hshared : CountsShared uses ways)
    (h : ofWays c uses place? held ways = .ok a) :
    ∃ (l : Legend) (runs : List (List (EdgeView α))), l.Fits place? a.graph ∧
      l.Names place? ways uses ∧ a.graph.views = runs.flatten ∧
      List.Forall₂ (fun w run => (run.IsChain fun u v => u.adj = v.base) ∧
        joined (run.map l.along) = w.roadIds place?) ways runs ∧
      ∀ {τ : Type} (view : σ → τ) (part : Collector τ), c.HasPart view part →
        part.recordAll (view held) l.nodes = .ok (view a.held) := by
  have hassembled := assembled_ofWays h
  obtain ⟨runs, hviews, hruns⟩ := exists_flatten_of_forall₂_flatMap _ hassembled.shows
  refine ⟨Legend.ofPieces _, runs, hassembled.fits fun p => Piece.isPlaced_of_mem,
    Legend.names_ofPieces hshared hassembled.numbered.nodup, hviews,
    hruns.imp fun w run hrun => ⟨(hassembled.isRun hrun).chain, ?_⟩,
    fun view part hpart => hpart.recordAll hassembled.numbered.held_eq⟩
  rw [List.forall₂_map_right_iff] at hrun
  rw [← w.joined_sections_ids (fun id => 1 < uses id) place?]
  exact joined_of_forall₂
    (List.forall₂_map_right_iff.mpr (hrun.imp fun v s => Legend.along_of_shows))

/-- Of the crossing, the second node of the road is a pillar; the one that the branch leaves at is
a node, the second that is visited. -/
theorem exists_legend_crossing :
    ∃ a, ∃ l : Legend, ofWays Collector.idle crossingUses crossingPlace? () crossing = .ok a ∧
      l.Fits crossingPlace? a.graph ∧ l.nodes = [1, 3, 4, 5] ∧ 2 ∈ l.pillars.flatten := by
  obtain ⟨a, ha⟩ := exists_ofWays_crossing
  have hshared : CountsShared crossingUses crossing := fun id => Nat.min_le_right 2 _
  obtain ⟨l, runs, hfits, hnames, -⟩ := exists_legend hshared ha
  have hnodes : l.nodes = [1, 3, 4, 5] := hnames.nodes_eq.trans (by decide)
  have htwo : 2 ∈ l.nodes ++ l.pillars.flatten := (hnames.mem_iff 2).mpr (by decide)
  rw [List.mem_append, hnodes] at htwo
  exact ⟨a, l, ha, hfits, hnodes, htwo.resolve_left (by decide)⟩

end Assembly
end RoadAudit
