import RoadAudit.Network.Basic
import RoadAudit.Proofs.Osm.NodeRecords

/-! # Ids without room

Nodes and edges are numbered in order, so the tables of their map ids are never written out of
order. An assembly is refused for one reason only: the id of a road that has an edge, or of a map
node that becomes a node, has no room in its table. -/

namespace RoadAudit

/-! ## Refused nodes -/

namespace Collector

variable {σ τ : Type} {c : Collector σ} {view : σ → τ} {part : Collector τ} {held : σ}
  {p : Int64 → Prop}

/-- Whether no part of a collector but the given one refuses a node. -/
def RecordsNodesAs (c : Collector σ) (view : σ → τ) (part : Collector τ) : Prop :=
  ∀ held id node, (c.recordNode held id node).map view = part.recordNode (view held) id node

/-- Whether a collector has no room for any of some map ids, whatever nodes it has been told of. -/
def Refuses (c : Collector σ) (held : σ) (p : Int64 → Prop) : Prop :=
  ∀ ids next id, c.recordAll held ids = .ok next → p id →
    ∃ n osmId, c.recordNode next id ids.length = .error (.idOutOfRange n osmId)

theorem Refuses.not_of_mem (hc : c.Refuses held p) {ids : List Int64} {last : σ}
    (h : c.recordAll held ids = .ok last) : ∀ id ∈ ids, ¬ p id := by
  induction ids using List.reverseRecOn generalizing last with
  | nil => simp
  | append_singleton ids id ih =>
    obtain ⟨next, hnext, hid⟩ := (c.recordAll_snoc_eq_ok_iff).mp h
    intro i hi
    rcases List.mem_append.mp hi with hi | hi
    · exact ih hnext i hi
    · rw [List.mem_singleton.mp hi]
      intro hp
      obtain ⟨n, osmId, hrefused⟩ := hc ids next id hnext hp
      rw [hrefused] at hid
      cases hid

variable (h : c.RecordsNodesAs view part)

include h

theorem RecordsNodesAs.recordAll {ids : List Int64} {last : σ}
    (hall : c.recordAll held ids = .ok last) :
    part.recordAll (view held) ids = .ok (view last) := by
  induction ids using List.reverseRecOn generalizing last with
  | nil =>
    cases hall
    rfl
  | append_singleton ids id ih =>
    obtain ⟨next, hnext, hid⟩ := (c.recordAll_snoc_eq_ok_iff).mp hall
    refine (part.recordAll_snoc_eq_ok_iff).mpr ⟨view next, ih hnext, ?_⟩
    rw [← h, hid]
    rfl

theorem RecordsNodesAs.accepts (hpart : part.Accepts (view held) p) : c.Accepts held p := by
  intro ids next id hall hp
  obtain ⟨told, htold⟩ := hpart ids (view next) id (h.recordAll hall) hp
  rw [← h] at htold
  cases hnode : c.recordNode next id ids.length with
  | ok told => exact ⟨told, rfl⟩
  | error e =>
    rw [hnode] at htold
    cases htold

theorem RecordsNodesAs.refuses (hpart : part.Refuses (view held) p) : c.Refuses held p := by
  intro ids next id hall hp
  obtain ⟨n, osmId, hrefused⟩ := hpart ids (view next) id (h.recordAll hall) hp
  rw [← h] at hrefused
  cases hnode : c.recordNode next id ids.length with
  | ok told =>
    rw [hnode] at hrefused
    cases hrefused
  | error e =>
    rw [hnode] at hrefused
    cases hrefused
    exact ⟨n, osmId, rfl⟩

end Collector

namespace IdTable

theorem add_of_not_inRange {t : IdTable} {id : Nat} {osmId : UInt64} (horder : t.size ≤ id + 1)
    (h : ¬ InRange t.layout osmId) (noExit : Bool) :
    t.add id osmId noExit = .error (.idOutOfRange id osmId) := by
  rw [add, if_neg (Nat.not_lt.mpr horder), if_neg fun hfits => h ((fits_iff_inRange _ _).mp hfits)]

end IdTable

theorem NodeRecords.refuses_collector {r : NodeRecords} (htable : r.table = IdTable.empty .nodes) :
    collector.Refuses r fun id => ¬ (0 < id → IdTable.InRange .nodes id.toUInt64) := by
  intro ids r id h hunfit
  have hrecorded := hasRecorded_of_recordAll htable h
  rw [Classical.not_imp] at hunfit
  rw [← hrecorded.layout_eq] at hunfit
  have hadd := IdTable.add_of_not_inRange (hrecorded.size_le.trans (Nat.le_succ _)) hunfit.2
    (r.marked.contains id)
  refine ⟨ids.length, id.toUInt64, ?_⟩
  change NodeRecords.record r id ids.length = _
  rw [NodeRecords.record, if_neg (Int64.not_le.mpr hunfit.1), hadd]
  rfl

/-! ## Refused pieces -/

/-- Whether there is room for the ends of a piece and for its way. -/
@[mk_iff]
structure Piece.HasRoom {α : Type} (accepted : Int64 → Prop) (p : Piece α) : Prop where
  first : accepted p.2.first.osmId
  last : accepted p.2.last.osmId
  way : IdTable.InRange .ways p.1.id.toUInt64

namespace Assembly

variable {σ α : Type} {c : Collector σ} {place? : Int64 → Option (Point α)} {held : σ}
  {a : Assembly σ α} {accepted : Int64 → Prop}

theorem Numbered.visit_refused {visits : List Int64} (h : Numbered c place? held visits a)
    {p : Int64 → Prop} (hc : c.Refuses held p) {s : Stop α} (hs : p s.osmId) :
    ∃ n osmId, a.visit c s = .error (.idOutOfRange n osmId) := by
  have hnew : a.nodeOf[s.osmId]? = none := by
    cases hnode : a.nodeOf[s.osmId]? with
    | none => rfl
    | some n =>
      have hmem := List.mem_eraseDups.mpr ((h.mem_iff _).mpr ⟨n, hnode⟩)
      exact absurd hs (hc.not_of_mem h.held_eq _ hmem)
  obtain ⟨n, osmId, hrefused⟩ := hc _ _ _ h.held_eq hs
  rw [← h.nodeCount_eq] at hrefused
  refine ⟨n, osmId, ?_⟩
  unfold Assembly.visit
  split
  case h_1 n' hn' =>
    rw [hnew] at hn'
    cases hn'
  case h_2 =>
    rw [hrefused]
    rfl

variable [Scalar α] {done : List (Piece α)} (haccepts : c.Accepts held accepted)
  (hrefuses : c.Refuses held fun id => ¬ accepted id)

include haccepts hrefuses

theorem Assembled.addPiece_refused {p : Piece α} (h : Assembled c place? held done a)
    (hplaced : p.IsPlaced place?) (hroom : ¬ p.HasRoom accepted) :
    ∃ n osmId, a.addPiece c p = .error (.idOutOfRange n osmId) := by
  by_cases hbegins : accepted p.2.first.osmId
  case neg =>
    obtain ⟨n, osmId, hfirst⟩ := h.numbered.visit_refused hrefuses hbegins
    exact ⟨n, osmId, bind_eq_error_iff.mpr (.inl hfirst)⟩
  obtain ⟨first, hfirst⟩ := h.numbered.exists_visit (s := p.2.first) haccepts hbegins
  obtain ⟨hnumbered, -⟩ := h.numbered.visit (hplaced _ (by simp [Section.stops])) hfirst
  by_cases hends : accepted p.2.last.osmId
  case neg =>
    obtain ⟨n, osmId, hlast⟩ := hnumbered.visit_refused hrefuses hends
    exact ⟨n, osmId, bind_eq_error_iff.mpr (.inr ⟨first, hfirst,
      bind_eq_error_iff.mpr (.inl hlast)⟩)⟩
  obtain ⟨last, hlast⟩ := hnumbered.exists_visit (s := p.2.last) haccepts hends
  obtain ⟨-, -, -, hedges, hways⟩ := h.visit_ends hplaced hfirst hlast
  have hway : ¬ IdTable.InRange last.after.wayIds.layout p.1.id.toUInt64 := by
    rw [hways, h.layout_eq]
    exact fun hway => hroom ⟨hbegins, hends, hway⟩
  have horder : last.after.wayIds.size ≤ last.after.graph.edgeCount + 1 := by
    rw [RoadGraph.edgeCount, hedges, hways, h.size_eq, ← h.edgeCount_eq, RoadGraph.edgeCount]
    exact Nat.le_succ _
  exact ⟨_, _, bind_eq_error_iff.mpr (.inr ⟨first, hfirst, bind_eq_error_iff.mpr (.inr
    ⟨last, hlast, bind_eq_error_iff.mpr (.inl (IdTable.add_of_not_inRange horder hway false))⟩)⟩)⟩

theorem Assembled.foldlM_addPiece_refused {ps : List (Piece α)}
    (h : Assembled c place? held done a) (hplaced : ∀ p ∈ ps, p.IsPlaced place?)
    (hroom : ∃ p ∈ ps, ¬ p.HasRoom accepted) :
    ∃ n osmId, ps.foldlM (Assembly.addPiece c) a = .error (.idOutOfRange n osmId) := by
  induction ps generalizing done a with
  | nil => simp at hroom
  | cons p ps ih =>
    rw [List.forall_mem_cons] at hplaced
    by_cases hp : p.HasRoom accepted
    · obtain ⟨next, hnext⟩ := h.exists_addPiece haccepts hplaced.1 hp.first hp.last hp.way
      have hrest : ∃ q ∈ ps, ¬ q.HasRoom accepted := by simpa [hp] using hroom
      obtain ⟨n, osmId, hrefused⟩ := ih (h.addPiece hplaced.1 hnext) hplaced.2 hrest
      exact ⟨n, osmId, bind_eq_error_iff.mpr (.inr ⟨next, hnext, hrefused⟩)⟩
    · obtain ⟨n, osmId, hrefused⟩ := h.addPiece_refused haccepts hrefuses hplaced.1 hp
      exact ⟨n, osmId, bind_eq_error_iff.mpr (.inl hrefused)⟩

end Assembly

/-! ## Refused ways -/

section Ways

variable {α : Type} (place? : Int64 → Option (Point α)) (ways : List RoadWay) (uses : Int64 → Nat)

/-- Whether some id has no room in its table: that of a way that gets an edge, or that of a map node
that becomes a node. -/
def LacksRoom : Prop :=
  (∃ w ∈ ways, 2 ≤ (w.stops place?).length ∧ w.id = -1) ∨
    ∃ id ∈ occurrences place? ways, IsTower place? ways uses id ∧ 2 ^ 56 ≤ id.toInt

instance : Decidable (LacksRoom place? ways uses) := inferInstanceAs (Decidable (_ ∨ _))

variable {place? ways uses}

theorem exists_mem_ofWays_iff {cuts : Int64 → Bool} {p : RoadWay → Prop} :
    (∃ q ∈ Piece.ofWays cuts place? ways, p q.1) ↔
      ∃ w ∈ ways, 2 ≤ (w.stops place?).length ∧ p w := by
  have hsections : ∀ w : RoadWay, 2 ≤ (w.stops place?).length ↔ ∃ s, s ∈ w.sections cuts place? := by
    intro w
    rw [← Nat.not_lt, ← w.sections_eq_nil_iff cuts, List.eq_nil_iff_forall_not_mem, not_forall_not]
  simp only [Piece.ofWays, List.mem_flatMap, List.mem_map, hsections]
  constructor
  · rintro ⟨q, ⟨w, hw, s, hs, rfl⟩, hp⟩
    exact ⟨w, hw, ⟨s, hs⟩, hp⟩
  · rintro ⟨w, hw, ⟨s, hs⟩, hp⟩
    exact ⟨(w, s), ⟨w, hw, s, hs, rfl⟩, hp⟩

theorem Piece.not_hasRoom_iff (p : Piece α) :
    ¬ p.HasRoom (fun id => 0 < id → IdTable.InRange .nodes id.toUInt64) ↔
      p.1.id = -1 ∨ ∃ id ∈ [p.2.first.osmId, p.2.last.osmId], 2 ^ 56 ≤ id.toInt := by
  rw [Piece.hasRoom_iff, Import.inRange_nodes_iff, Import.inRange_nodes_iff,
    Import.inRange_ways_iff]
  simp only [List.exists_mem_cons_iff, List.not_mem_nil, false_and, exists_false, or_false]
  grind

theorem exists_not_hasRoom_iff :
    (∃ p ∈ Piece.ofWays (fun id => 1 < uses id) place? ways,
        ¬ p.HasRoom fun id => 0 < id → IdTable.InRange .nodes id.toUInt64) ↔
      LacksRoom place? ways uses := by
  simp only [Piece.not_hasRoom_iff, and_or_left, exists_or]
  refine or_congr (exists_mem_ofWays_iff (p := fun w => w.id = -1)) ?_
  simp only [← and_assoc, ← mem_visits_ofWays_iff, Piece.visits, List.mem_flatMap]
  constructor
  · rintro ⟨p, hp, id, hid, hlarge⟩
    exact ⟨id, ⟨p, hp, hid⟩, hlarge⟩
  · rintro ⟨id, ⟨p, hp, hid⟩, hlarge⟩
    exact ⟨p, hp, id, hid, hlarge⟩

end Ways

namespace Assembly

variable {σ α : Type} [Scalar α] {c : Collector σ} {view : σ → NodeRecords} {held : σ}

/-- Where only the table of node ids can refuse a node, an assembly is never refused for the order
of its ids, and for an id just if some id lacks room. Otherwise there is a graph, whose nodes are
those of the towers. -/
theorem ofWays_refused_iff (hrecords : c.RecordsNodesAs view NodeRecords.collector)
    (hstart : (view held).table = IdTable.empty .nodes) (uses : Int64 → Nat)
    (place? : Int64 → Option (Point α)) (ways : List RoadWay) :
    (∀ id last, ofWays c uses place? held ways ≠ .error (.outOfOrder id last)) ∧
      ((∃ n osmId, ofWays c uses place? held ways = .error (.idOutOfRange n osmId)) ↔
        LacksRoom place? ways uses) ∧
      (¬ LacksRoom place? ways uses → ∃ a, ofWays c uses place? held ways = .ok a ∧
        ∀ id, (∃ n, a.nodeOf[id]? = some n) ↔
          id ∈ occurrences place? ways ∧ IsTower place? ways uses id) := by
  have haccepts := hrecords.accepts (NodeRecords.accepts_collector hstart)
  have hrefuses := hrecords.refuses (NodeRecords.refuses_collector hstart)
  have hplaced : ∀ p ∈ Piece.ofWays (fun id => 1 < uses id) place? ways, p.IsPlaced place? :=
    fun p => Piece.isPlaced_of_mem
  by_cases hlacks : LacksRoom place? ways uses
  case pos =>
    obtain ⟨n, osmId, hrefused⟩ := (assembled_start c place? held).foldlM_addPiece_refused haccepts
      hrefuses hplaced (exists_not_hasRoom_iff.mpr hlacks)
    rw [← ofWays_eq] at hrefused
    rw [hrefused]
    exact ⟨fun _ _ => by simp, iff_of_true ⟨n, osmId, rfl⟩ hlacks, absurd hlacks⟩
  case neg =>
    have hroom := mt exists_not_hasRoom_iff.mp hlacks
    push Not at hroom
    obtain ⟨a, ha⟩ := (assembled_start c place? held).exists_foldlM_addPiece haccepts hplaced
      (fun p hp => ⟨(hroom p hp).first, (hroom p hp).last⟩) fun p hp => (hroom p hp).way
    rw [← ofWays_eq] at ha
    have hnumbered := (assembled_ofWays ha).numbered
    rw [ha]
    refine ⟨fun _ _ => by simp, iff_of_false (by simp) hlacks, fun _ => ⟨a, rfl, fun id => ?_⟩⟩
    rw [← hnumbered.mem_iff, mem_visits_ofWays_iff]

/-- A new road with a node that is in the map already, and a way of which one node has a place. -/
def newRoads : List RoadWay := [⟨-2, [-3, 2, 2 ^ 60, -1], default⟩, ⟨-1, [2, 7], default⟩]

def newPlace? (id : Int64) : Option (Point Float) :=
  [(-3, ⟨50, 8⟩), (2, ⟨50, 9⟩), (2 ^ 60, ⟨50, 10⟩), (-1, ⟨50, 11⟩)].lookup id

def newUses (id : Int64) : Nat := (newRoads.flatMap RoadWay.nodes).count id

theorem recordsNodesAs_roadNetwork :
    RoadNetwork.collector.RecordsNodesAs Prod.fst NodeRecords.collector := by
  intro held id node
  change ((NodeRecords.collector.recordNode held.1 id node).bind fun r => .ok (r, held.2)).map
    Prod.fst = _
  cases NodeRecords.collector.recordNode held.1 id node <;> rfl

/-- The ids of new roads and nodes are no hindrance; that of the one way without room is, as soon as
both of its nodes have a place. -/
theorem ofWays_refused_newRoads :
    (∃ a, ofWays RoadNetwork.collector newUses newPlace?
        (NodeRecords.empty, BarrierCourses.empty) newRoads = .ok a ∧
      ∃ n, a.nodeOf[(-3 : Int64)]? = some n) ∧
    ∃ n osmId, ofWays RoadNetwork.collector newUses (fun _ => some (⟨50, 8⟩ : Point Float))
      (NodeRecords.empty, BarrierCourses.empty) newRoads = .error (.idOutOfRange n osmId) := by
  have hstart : (NodeRecords.empty, (BarrierCourses.empty : BarrierCourses Float)).1.table =
      IdTable.empty .nodes := rfl
  constructor
  · obtain ⟨a, ha, hnodes⟩ := (ofWays_refused_iff recordsNodesAs_roadNetwork hstart newUses
      newPlace? newRoads).2.2 (by decide +kernel)
    exact ⟨a, ha, (hnodes (-3)).mpr (by decide +kernel)⟩
  · exact (ofWays_refused_iff recordsNodesAs_roadNetwork hstart newUses _ newRoads).2.1.mpr
      (by decide +kernel)

end Assembly
end RoadAudit
