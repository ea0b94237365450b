import RoadAudit.Proofs.IdTable.Format
import RoadAudit.Proofs.IdTable.Journal
import RoadAudit.Proofs.Osm.Numbering
import RoadAudit.Proofs.Osm.Section

/-! # What has been assembled

The ways are cut into pieces, one for each section of a way, and every piece becomes the next edge.
After some pieces the edges and the way ids are theirs, one for one, and the nodes are those of
their ends. -/

namespace RoadAudit

/-- A section and the way it belongs to. -/
abbrev Piece (α : Type) := RoadWay × Section α

namespace Piece

variable {α : Type}

def visits (ps : List (Piece α)) : List Int64 :=
  ps.flatMap fun p => [p.2.first.osmId, p.2.last.osmId]

theorem visits_snoc (ps : List (Piece α)) (p : Piece α) :
    visits (ps ++ [p]) = visits ps ++ [p.2.first.osmId] ++ [p.2.last.osmId] := by
  simp [visits]

/-- Whether the places of the stops are those of their map ids. -/
def IsPlaced (place? : Int64 → Option (Point α)) (p : Piece α) : Prop :=
  ∀ s ∈ p.2.stops, place? s.osmId = some s.point

def ofWays (cuts : Int64 → Bool) (place? : Int64 → Option (Point α)) (ways : List RoadWay) :
    List (Piece α) :=
  ways.flatMap fun w => (w.sections cuts place?).map (w, ·)

theorem isPlaced_of_mem {cuts : Int64 → Bool} {place? : Int64 → Option (Point α)}
    {ways : List RoadWay} {p : Piece α} (h : p ∈ ofWays cuts place? ways) : p.IsPlaced place? := by
  obtain ⟨w, -, hp⟩ := List.mem_flatMap.mp h
  obtain ⟨s, hs, rfl⟩ := List.mem_map.mp hp
  exact fun stop hstop => (w.place?_of_mem_stops place?
    (w.stops_subset_of_mem_sections cuts place? hs hstop)).1

end Piece

/-- Whether an edge is what a piece becomes, where the map ids of the nodes are known. -/
structure Edge.Traces {α : Type} [Scalar α] (ids : List Int64) (e : Edge α) (p : Piece α) :
    Prop where
  base : ids[e.base]? = some p.2.first.osmId
  adj : ids[e.adj]? = some p.2.last.osmId
  pillars : e.pillars = p.2.inner.map Stop.point
  flags : e.flags = p.1.flags
  length : e.length = Metric.earth.length (p.2.stops.map Stop.point)

/-- Whether a view is that of the edge which one of the pieces becomes, as it is stored. -/
structure EdgeView.Shows {α : Type} [Scalar α] (pieces : List (Piece α)) (v : EdgeView α)
    (p : Piece α) : Prop where
  stored : v.reversed = false
  piece : pieces[v.id]? = some p
  traces : v.edge.Traces (Piece.visits pieces).eraseDups p

namespace Assembly

variable {σ α : Type} [Scalar α]

def addPiece (c : Collector σ) (a : Assembly σ α) (p : Piece α) :
    Except IdTableError (Assembly σ α) := addStretch c p.1 a p.2.stretch

theorem ofWays_eq (c : Collector σ) (uses : Int64 → Nat) (place? : Int64 → Option (Point α))
    (held : σ) (ways : List RoadWay) :
    ofWays c uses place? held ways =
      (Piece.ofWays (fun id => 1 < uses id) place? ways).foldlM (addPiece c) (start held) := by
  rw [ofWays, Piece.ofWays, foldlM_flatMap]
  congr 1
  funext a w
  rw [addWay, RoadWay.stretches_eq, List.foldlM_map, List.foldlM_map]
  rfl

variable {c : Collector σ} {place? : Int64 → Option (Point α)} {held : σ}
  {done : List (Piece α)} {a next : Assembly σ α} {p : Piece α}

/-- The steps of adding a piece: its ends are visited, its way id is recorded and its edge is
added. -/
theorem addPiece_eq_ok (h : addPiece c a p = .ok next) :
    ∃ (first : Visit a) (last : Visit first.after) (wayIds : IdTable) (hlt : _),
      a.visit c p.2.first = .ok first ∧ first.after.visit c p.2.last = .ok last ∧
      last.after.wayIds.add last.after.graph.edgeCount p.1.id.toUInt64 false = .ok wayIds ∧
      next = ⟨last.after.graph.addEdge ⟨first.node, last.node,
        Metric.earth.length (p.2.stops.map Stop.point), p.1.flags, p.2.inner.map Stop.point⟩ hlt,
        wayIds, last.after.nodeOf, last.after.held, last.after.nodeOf_lt⟩ := by
  obtain ⟨first, hfirst, h⟩ := bind_eq_ok_iff.mp h
  obtain ⟨last, hlast, h⟩ := bind_eq_ok_iff.mp h
  obtain ⟨wayIds, hwayIds, h⟩ := bind_eq_ok_iff.mp h
  rw [Section.course_stretch] at h
  cases h
  exact ⟨first, last, wayIds, _, hfirst, hlast, hwayIds, rfl⟩

/-- What an assembly has after some pieces. -/
structure Assembled (c : Collector σ) (place? : Int64 → Option (Point α)) (held : σ)
    (done : List (Piece α)) (a : Assembly σ α) : Prop where
  numbered : Numbered c place? held (Piece.visits done) a
  traces : List.Forall₂ (Edge.Traces (Piece.visits done).eraseDups) a.graph.edges.toList done
  layout_eq : a.wayIds.layout = .ways
  size_eq : a.wayIds.size = done.length
  osmId?_eq : ∀ i : Nat, a.wayIds.osmId? i = (done[i]?).map fun p => p.1.id.toUInt64

theorem assembled_start (c : Collector σ) (place? : Int64 → Option (Point α)) (held : σ) :
    Assembled c place? held [] (start held : Assembly σ α) where
  numbered := numbered_start c place? held
  traces := .nil
  layout_eq := rfl
  size_eq := rfl
  osmId?_eq _ := rfl

theorem Assembled.edgeCount_eq (h : Assembled c place? held done a) :
    a.graph.edgeCount = done.length := by
  rw [← h.traces.length_eq, Array.length_toList, RoadGraph.edgeCount]

/-- The edges in ascending id show the pieces in order. -/
theorem Assembled.shows (h : Assembled c place? held done a) :
    List.Forall₂ (EdgeView.Shows done) a.graph.views done := by
  have htraces := List.forall₂_iff_get.mp h.traces
  refine List.forall₂_iff_get.mpr ⟨?_, fun i hv hp => ?_⟩
  · simpa [RoadGraph.views] using htraces.1
  · have hi : i < a.graph.edges.toList.length := htraces.1.symm ▸ hp
    have hview : a.graph.views.get ⟨i, hv⟩ = ⟨i, a.graph.edges.toList.get ⟨i, hi⟩, false⟩ := by
      simp [RoadGraph.views]
    rw [hview]
    exact ⟨rfl, List.getElem?_eq_getElem hp, htraces.2 i hi hp⟩

theorem Assembled.visit_ends (h : Assembled c place? held done a) (hplaced : p.IsPlaced place?)
    {first : Visit a} {last : Visit first.after} (hfirst : a.visit c p.2.first = .ok first)
    (hlast : first.after.visit c p.2.last = .ok last) :
    Numbered c place? held (Piece.visits (done ++ [p])) last.after ∧
      (Piece.visits (done ++ [p])).eraseDups[first.node]? = some p.2.first.osmId ∧
      (Piece.visits (done ++ [p])).eraseDups[last.node]? = some p.2.last.osmId ∧
      last.after.graph.edges = a.graph.edges ∧ last.after.wayIds = a.wayIds := by
  have hplace : ∀ s, s = p.2.first ∨ s = p.2.last → place? s.osmId = some s.point := by
    rintro s (rfl | rfl) <;> exact hplaced _ (by simp [Section.stops])
  obtain ⟨hnumbered, hbase, hedges, hways⟩ := h.numbered.visit (hplace _ (.inl rfl)) hfirst
  obtain ⟨hnumbered, hadj, hedges', hways'⟩ := hnumbered.visit (hplace _ (.inr rfl)) hlast
  rw [Piece.visits_snoc]
  exact ⟨hnumbered, getElem?_eraseDups_snoc hbase, hadj, hedges'.trans hedges,
    hways'.trans hways⟩

theorem Assembled.addPiece (h : Assembled c place? held done a) (hplaced : p.IsPlaced place?)
    (hnext : a.addPiece c p = .ok next) : Assembled c place? held (done ++ [p]) next := by
  obtain ⟨first, last, wayIds, hlt, hfirst, hlast, hwayIds, rfl⟩ := addPiece_eq_ok hnext
  obtain ⟨hnumbered, hbase, hadj, hedges, hways⟩ := h.visit_ends hplaced hfirst hlast
  have hcount : last.after.graph.edgeCount = done.length := by
    rw [RoadGraph.edgeCount, hedges, ← h.edgeCount_eq, RoadGraph.edgeCount]
  rw [hways, hcount] at hwayIds
  constructor
  case numbered => exact ⟨hnumbered.nodeOf_iff, hnumbered.nodes_eq, hnumbered.held_eq⟩
  case traces =>
    -- nodes keep their numbers, so earlier edges still have the ends that they had
    have hgrow : ∀ (n : Nat) id, (Piece.visits done).eraseDups[n]? = some id →
        (Piece.visits (done ++ [p])).eraseDups[n]? = some id := fun n id hn => by
      rw [Piece.visits_snoc]
      exact getElem?_eraseDups_snoc (getElem?_eraseDups_snoc hn)
    have htraces := h.traces.imp fun e q he =>
      Edge.Traces.mk (hgrow _ _ he.base) (hgrow _ _ he.adj) he.pillars he.flags he.length
    simp only [RoadGraph.addEdge, Array.toList_push, hedges]
    exact List.rel_append htraces (.cons ⟨hbase, hadj, rfl, rfl, rfl⟩ .nil)
  case layout_eq =>
    obtain ⟨-, rfl⟩ := IdTable.of_add hwayIds
    exact h.layout_eq
  case size_eq =>
    rw [IdTable.size_of_add hwayIds, h.size_eq, List.length_append]
    exact max_eq_right (Nat.le_succ _)
  case osmId?_eq =>
    intro i
    rw [IdTable.osmId?_of_add hwayIds, h.osmId?_eq]
    split
    case isTrue hi => simp [hi]
    case isFalse hi =>
      rcases Nat.lt_or_gt_of_ne hi with hlt | hgt
      · rw [List.getElem?_append_left hlt]
      · simp [List.getElem?_eq_none, Nat.le_of_lt hgt, Nat.succ_le_of_lt hgt]

theorem Assembled.foldlM_addPiece {ps : List (Piece α)} (h : Assembled c place? held done a)
    (hplaced : ∀ p ∈ ps, p.IsPlaced place?) (hnext : ps.foldlM (Assembly.addPiece c) a = .ok next) :
    Assembled c place? held (done ++ ps) next := by
  induction ps generalizing done a with
  | nil =>
    cases hnext
    rwa [List.append_nil]
  | cons p ps ih =>
    rw [List.foldlM_cons] at hnext
    obtain ⟨between, hp, hnext⟩ := bind_eq_ok_iff.mp hnext
    have hbetween := h.addPiece (hplaced p List.mem_cons_self) hp
    have hrest := ih hbetween (fun q hq => hplaced q (List.mem_cons_of_mem p hq)) hnext
    rwa [List.append_assoc] at hrest

variable {uses : Int64 → Nat} {ways : List RoadWay}

/-- What is assembled of some ways is what their pieces come to. -/
theorem assembled_ofWays (h : ofWays c uses place? held ways = .ok a) :
    Assembled c place? held (Piece.ofWays (fun id => 1 < uses id) place? ways) a := by
  rw [ofWays_eq] at h
  exact (assembled_start c place? held).foldlM_addPiece (fun p => Piece.isPlaced_of_mem) h

/-! ## Ways that can be assembled -/

theorem Assembled.exists_addPiece {accepted : Int64 → Prop} (hc : c.Accepts held accepted)
    {done : List (Piece α)} {p : Piece α} (h : Assembled c place? held done a)
    (hplaced : p.IsPlaced place?) (hbegins : accepted p.2.first.osmId)
    (hends : accepted p.2.last.osmId) (hid : IdTable.InRange .ways p.1.id.toUInt64) :
    ∃ next, a.addPiece c p = .ok next := by
  obtain ⟨first, hfirst⟩ := h.numbered.exists_visit (s := p.2.first) hc hbegins
  obtain ⟨hnumbered, -⟩ := h.numbered.visit (hplaced _ (by simp [Section.stops])) hfirst
  obtain ⟨last, hlast⟩ := hnumbered.exists_visit (s := p.2.last) hc hends
  obtain ⟨-, -, -, hedges, hways⟩ := h.visit_ends hplaced hfirst hlast
  have hsize : last.after.graph.edgeCount = last.after.wayIds.size := by
    rw [RoadGraph.edgeCount, hedges, hways, h.size_eq, ← h.edgeCount_eq, RoadGraph.edgeCount]
  rw [← h.layout_eq, ← hways] at hid
  obtain ⟨wayIds, hadd⟩ := IdTable.exists_add_size hid false
  rw [← hsize] at hadd
  exact ⟨_, bind_eq_ok_iff.mpr ⟨first, hfirst, bind_eq_ok_iff.mpr ⟨last, hlast,
    bind_eq_ok_iff.mpr ⟨wayIds, hadd, rfl⟩⟩⟩⟩

/-- Pieces are added one after the other if the collector accepts their ends and the way table has
room for their ways. -/
theorem Assembled.exists_foldlM_addPiece {accepted : Int64 → Prop} (hc : c.Accepts held accepted)
    {done ps : List (Piece α)} (h : Assembled c place? held done a)
    (hplaced : ∀ p ∈ ps, p.IsPlaced place?)
    (hends : ∀ p ∈ ps, accepted p.2.first.osmId ∧ accepted p.2.last.osmId)
    (hids : ∀ p ∈ ps, IdTable.InRange .ways p.1.id.toUInt64) :
    ∃ next, ps.foldlM (Assembly.addPiece c) a = .ok next := by
  induction ps generalizing done a with
  | nil => exact ⟨a, rfl⟩
  | cons p ps ih =>
    rw [List.forall_mem_cons] at hplaced hends hids
    obtain ⟨between, hbetween⟩ := h.exists_addPiece hc hplaced.1 hends.1.1 hends.1.2 hids.1
    obtain ⟨next, hnext⟩ := ih (h.addPiece hplaced.1 hbetween) hplaced.2 hends.2 hids.2
    exact ⟨next, bind_eq_ok_iff.mpr ⟨between, hbetween, hnext⟩⟩

/-- Ways with ids that the way table has room for are assembled if the collector accepts their
nodes. -/
theorem exists_ofWays {accepted : Int64 → Prop} (hc : c.Accepts held accepted)
    (haccepted : ∀ w ∈ ways, ∀ id ∈ w.nodes, accepted id)
    (hids : ∀ w ∈ ways, IdTable.InRange .ways w.id.toUInt64) :
    ∃ a : Assembly σ α, ofWays c uses place? held ways = .ok a := by
  have hway : ∀ p ∈ Piece.ofWays (fun id => 1 < uses id) place? ways, p.1 ∈ ways ∧
      p.2 ∈ p.1.sections (fun id => 1 < uses id) place? := by
    intro p hp
    obtain ⟨w, hw, hp⟩ := List.mem_flatMap.mp hp
    obtain ⟨s, hs, rfl⟩ := List.mem_map.mp hp
    exact ⟨hw, hs⟩
  have hstop : ∀ p ∈ Piece.ofWays (fun id => 1 < uses id) place? ways, ∀ s ∈ p.2.stops,
      accepted s.osmId := by
    intro p hp s hs
    have hmem := p.1.stops_subset_of_mem_sections _ place? (hway p hp).2 hs
    exact haccepted p.1 (hway p hp).1 _ (p.1.place?_of_mem_stops place? hmem).2
  rw [ofWays_eq]
  refine (assembled_start c place? held).exists_foldlM_addPiece hc
    (fun p => Piece.isPlaced_of_mem) (fun p hp => ⟨?_, ?_⟩) fun p hp => hids p.1 (hway p hp).1
  · exact hstop p hp _ (by simp [Section.stops])
  · exact hstop p hp _ (by simp [Section.stops])

end Assembly
end RoadAudit
