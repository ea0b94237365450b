import RoadAudit.Network.Basic
import RoadAudit.Proofs.Barrier.Places
import RoadAudit.Proofs.Osm.NodeRecords

/-! # The barriers of an extract

Where nodes come before ways, an import gathers the course of just those barriers all of whose nodes
have a place. No barrier becomes a road, with or without a course, and what is no barrier is left to
the graph. -/

namespace RoadAudit

/-- Whether no part of a collector but the given one keeps ways to itself. -/
def Collector.ReadsWaysAs {σ τ : Type} (c : Collector σ) (view : σ → τ) (part : Collector τ) :
    Prop :=
  ∀ held w, (view (c.readWay held w).1, (c.readWay held w).2) = part.readWay (view held) w

namespace BarrierCourses

variable {α : Type} [Scalar α] {places : LocationIndex} {b : BarrierCourses α} {w : OsmWay}

/-! ## The course of a way -/

/-- Whether a way is a barrier of at least two nodes, all in the map and with a place. -/
structure IsComplete (b : BarrierCourses α) (w : OsmWay) : Prop where
  barrier : isBarrierWay w = true
  two_le : 2 ≤ w.nodes.length
  placed : ∀ id ∈ w.nodes, 0 < id ∧ ∃ p : Point α, b.places.place? id.toUInt64 = some p

instance (b : BarrierCourses α) (w : OsmWay) : Decidable (b.IsComplete w) :=
  decidable_of_iff (isBarrierWay w = true ∧ 2 ≤ w.nodes.length ∧
      ∀ id ∈ w.nodes, 0 < id ∧ (b.places.place? id.toUInt64 : Option (Point α)).isSome = true) <| by
    simp only [Option.isSome_iff_exists]
    exact ⟨fun h => ⟨h.1, h.2.1, h.2.2⟩, fun h => ⟨h.barrier, h.two_le, h.placed⟩⟩

theorem placeKey?_bind_eq_some_iff {id : Int64} {p : Point α} :
    (placeKey? id >>= places.place?) = some p ↔ 0 < id ∧ places.place? id.toUInt64 = some p := by
  unfold placeKey?
  split <;> simp [*]

theorem course?_eq_some_iff {line : List (Point α)} : course? places w = some line ↔
    List.Forall₂ (fun id p => 0 < id ∧ places.place? id.toUInt64 = some p) w.nodes line := by
  rw [course?, mapM_eq_some_iff]
  simp only [placeKey?_bind_eq_some_iff]

def line? (b : BarrierCourses α) (w : OsmWay) : Option (List (Point α)) :=
  if isBarrierWay w then (course? b.places w).filter fun line => 2 ≤ line.length else none

theorem line?_eq_some_iff {line : List (Point α)} : b.line? w = some line ↔
    isBarrierWay w = true ∧ course? b.places w = some line ∧ 2 ≤ line.length := by
  unfold line?
  split <;> simp [*]

theorem isComplete_iff : b.IsComplete w ↔ ∃ line, b.line? w = some line := by
  simp only [line?_eq_some_iff, course?_eq_some_iff]
  constructor
  · intro h
    have hplaced : ∀ id ∈ w.nodes, ∃ p : Point α, 0 < id ∧
        b.places.place? id.toUInt64 = some p := by
      intro id hid
      obtain ⟨hpos, p, hp⟩ := h.placed id hid
      exact ⟨p, hpos, hp⟩
    obtain ⟨line, hline⟩ := exists_forall₂_iff.mpr hplaced
    exact ⟨line, h.barrier, hline, hline.length_eq ▸ h.two_le⟩
  · rintro ⟨line, hbarrier, hline, htwo⟩
    refine ⟨hbarrier, hline.length_eq ▸ htwo, fun id hid => ?_⟩
    obtain ⟨p, hpos, hp⟩ := exists_forall₂_iff.mp ⟨line, hline⟩ id hid
    exact ⟨hpos, p, hp⟩

/-! ## What is held after the readings -/

def askCalls (ways : List OsmWay) : List (PlaceCall α) :=
  (ways.filter isBarrierWay).flatMap fun w => (w.nodes.filterMap placeKey?).map .ask

def seeCalls (nodes : List OsmNode) : List (PlaceCall α) :=
  nodes.filterMap fun n => (placeKey? n.id).map fun key => .see key n.point

theorem foldl_announceWay (ways : List OsmWay) (b : BarrierCourses α) :
    ways.foldl announceWay b =
      ⟨(askCalls ways : List (PlaceCall α)).foldl LocationIndex.after b.places, b.lines⟩ := by
  induction ways generalizing b with
  | nil => rfl
  | cons w ways ih =>
    rw [List.foldl_cons, ih, announceWay]
    cases hw : isBarrierWay w with
    | true => simp [askCalls, hw, List.foldl_map, LocationIndex.after]
    | false => simp [askCalls, hw]

theorem foldl_readNode (nodes : List OsmNode) (b : BarrierCourses α) :
    nodes.foldl readNode b =
      ⟨(seeCalls nodes : List (PlaceCall α)).foldl LocationIndex.after b.places, b.lines⟩ := by
  induction nodes generalizing b with
  | nil => rfl
  | cons n nodes ih =>
    rw [List.foldl_cons, ih, readNode]
    cases hn : placeKey? n.id <;> simp [seeCalls, hn, LocationIndex.after]

theorem readWay_eq (b : BarrierCourses α) (w : OsmWay) :
    b.readWay w = (⟨b.places, b.lines ++ (b.line? w).toList⟩, !isBarrierWay w) := by
  unfold readWay line?
  cases isBarrierWay w with
  | false => simp
  | true =>
    cases (course? b.places w : Option (List (Point α))) with
    | none => simp
    | some line => by_cases htwo : 2 ≤ line.length <;> simp [htwo, Option.filter_some]

theorem foldl_readWay (ways : List OsmWay) (b : BarrierCourses α) :
    ways.foldl (fun b w => (b.readWay w).1) b =
      ⟨b.places, b.lines ++ ways.filterMap b.line?⟩ := by
  induction ways generalizing b with
  | nil => simp
  | cons w ways ih =>
    rw [List.foldl_cons, ih, readWay_eq]
    -- what a way adds does not depend on the courses before it
    change BarrierCourses.mk b.places
      (b.lines ++ (b.line? w).toList ++ ways.filterMap b.line?) = _
    cases hw : b.line? w <;> simp [hw]

theorem forall₂_lines_index {ways : List OsmWay} (h : b.lines = ways.filterMap b.line?) :
    List.Forall₂ (fun w line => List.Forall₂ (fun id (p : Point α) =>
        b.places.place? id.toUInt64 = some p) w.nodes line)
      (ways.filter fun w => b.IsComplete w) b.index.lines := by
  have hkept : b.index.lines = ways.filterMap b.line? := by
    rw [index, BarrierIndex.lines_ofLines, h, List.filter_eq_self]
    intro line hline
    obtain ⟨w, -, hw⟩ := List.mem_filterMap.mp hline
    exact decide_eq_true (line?_eq_some_iff.mp hw).2.2
  rw [hkept]
  refine forall₂_filter_filterMap (fun w => decide_eq_true_iff.trans isComplete_iff) ?_ ways
  intro w line hw
  exact (course?_eq_some_iff.mp (line?_eq_some_iff.mp hw).2.1).imp fun id p hp => hp.2

theorem recordAll_collector (b : BarrierCourses α) (ids : List Int64) :
    BarrierCourses.collector.recordAll b ids = .ok b := by
  induction ids using List.reverseRecOn with
  | nil => rfl
  | append_singleton ids id ih =>
    exact (Collector.recordAll_snoc_eq_ok_iff _).mpr ⟨b, ih, rfl⟩

theorem accepts_collector (b : BarrierCourses α) (p : Int64 → Prop) :
    BarrierCourses.collector.Accepts b p :=
  fun _ next _ _ _ => ⟨next, rfl⟩

end BarrierCourses

namespace Import

open BarrierCourses

variable {σ α : Type} [Scalar α] {c : Collector σ} {view : σ → BarrierCourses α} {held : σ}
  {objects : List OsmObject}

def placeCalls (objects : List OsmObject) : List (PlaceCall α) :=
  askCalls (waysOf objects) ++ seeCalls (nodesOf objects)

theorem courses_readTwice (hpart : c.HasPart view BarrierCourses.collector)
    (hways : c.ReadsWaysAs view BarrierCourses.collector)
    (hstart : view held = BarrierCourses.empty) (hfirst : NodesFirst objects) :
    (view (c.readTwice held objects)).places =
        LocationIndex.replay (placeCalls objects : List (PlaceCall α)) ∧
      (view (c.readTwice held objects)).lines =
        (waysOf objects).filterMap (view (c.readTwice held objects)).line? := by
  have hread : ∀ (ways : List OsmWay) (held : σ),
      view (ways.foldl (fun held w => (c.readWay held w).1) held) =
        ways.foldl (fun b w => (b.readWay w).1) (view held) := by
    intro ways
    induction ways with
    | nil => exact fun _ => rfl
    | cons w ways ih =>
      intro held
      rw [List.foldl_cons, List.foldl_cons, ih]
      congr 1
      exact congrArg Prod.fst (hways held w)
  have hcourses : view (c.readTwice held objects) =
      (waysOf objects).foldl (fun b w => (b.readWay w).1)
        ((nodesOf objects).foldl BarrierCourses.readNode
          ((waysOf objects).foldl BarrierCourses.announceWay (view held))) := by
    rw [Collector.readTwice, c.foldl_read_of_nodesFirst hfirst, hread, hpart.foldl_readNode,
      hpart.foldl_announceWay]
    rfl
  rw [hcourses, hstart, foldl_announceWay, foldl_readNode, foldl_readWay, ← List.foldl_append]
  exact ⟨rfl, rfl⟩

def fence : OsmWay := ⟨10, [1, 2], ⟨[("barrier", "fence")]⟩⟩

def street : OsmWay := ⟨20, [2, 3], ⟨[("highway", "residential")]⟩⟩

def hedgePath : OsmWay := ⟨30, [3, -4], ⟨[("barrier", "hedge"), ("highway", "footway")]⟩⟩

def yard : List OsmObject :=
  [.node ⟨1, 500000000, 80000000, ⟨[]⟩⟩, .node ⟨2, 510000000, 80000000, ⟨[]⟩⟩,
    .node ⟨3, 500000000, 90000000, ⟨[]⟩⟩, .node ⟨-4, 510000000, 90000000, ⟨[]⟩⟩,
    .way fence, .way street, .way hedgePath]

theorem place?_yard :
    (LocationIndex.replay (placeCalls yard : List (PlaceCall Float))).place? 1 =
        some (⟨50, 8⟩ : Point Float) ∧
      (LocationIndex.replay (placeCalls yard : List (PlaceCall Float))).place? 2 =
        some (⟨51, 8⟩ : Point Float) := by
  have hrange : ∀ c ∈ (placeCalls yard : List (PlaceCall Float)), c.InRange := by decide +kernel
  have hfits : ∀ id p, .see id p ∈ (placeCalls yard : List (PlaceCall Float)) → Location.Fits p :=
    fun id p hp => Location.InRange.fits (hrange _ hp)
  rw [LocationIndex.place?_replay _ _ (hfits 1), LocationIndex.place?_replay _ _ (hfits 2)]
  constructor <;> decide +kernel

theorem isComplete_yard {b : BarrierCourses Float}
    (hplaces : b.places = LocationIndex.replay (placeCalls yard : List (PlaceCall Float))) :
    ((waysOf yard).filter fun w => b.IsComplete w) = [fence] := by
  have hfence : b.IsComplete fence := by
    refine ⟨by decide, le_rfl, ?_⟩
    rw [fence, List.forall_mem_cons, List.forall_mem_singleton, hplaces]
    exact ⟨⟨by decide, _, place?_yard.1⟩, by decide, _, place?_yard.2⟩
  have hstreet : ¬ b.IsComplete street := fun h => absurd h.barrier (by decide)
  have hhedge : ¬ b.IsComplete hedgePath := fun h =>
    absurd (h.placed (-4) (by simp [hedgePath])).1 (by decide)
  have hways : waysOf yard = [fence, street, hedgePath] := rfl
  rw [hways]
  simp [hfence, hstreet, hhedge]

theorem freeRoads_yard : freeRoads (fun w => !isBarrierWay w) yard =
    [⟨20, [2, 3], .pack .residential false .ground false⟩] := by
  decide

theorem free_eq (hways : c.ReadsWaysAs view BarrierCourses.collector) (held : σ) (w : OsmWay) :
    (c.readWay held w).2 = !isBarrierWay w :=
  (congrArg Prod.snd (hways held w)).trans (congrArg Prod.snd (readWay_eq _ w))

theorem readsWaysAs_roadNetwork :
    RoadNetwork.collector.ReadsWaysAs Prod.snd BarrierCourses.collector := fun _ _ => rfl

theorem exists_run_roadNetwork {roads : List RoadWay}
    (hroads : freeRoads (fun w => !isBarrierWay w) objects = roads)
    (hids : ∀ w ∈ roads, w.id ≠ -1 ∧ ∀ id ∈ w.nodes, id.toInt < 2 ^ 56)
    (hplaces : ∃ w ∈ roads,
      2 ≤ (w.stops (lastPlace objects : Int64 → Option (Point Float))).length) :
    ∃ a : Assembly (NodeRecords × BarrierCourses Float) Float,
      run RoadNetwork.collector (NodeRecords.empty, BarrierCourses.empty) (.objects objects) =
        .ok a := by
  have hpart : RoadNetwork.collector.HasPart (fun held => id held.1) NodeRecords.collector :=
    .first _ (.self _)
  have haccepts : RoadNetwork.collector.Accepts
      (RoadNetwork.collector.readTwice (NodeRecords.empty, BarrierCourses.empty) objects)
      fun id => 0 < id → IdTable.InRange .nodes id.toUInt64 :=
    .both (NodeRecords.accepts_collector (NodeRecords.table_readTwice hpart rfl objects))
      (accepts_collector _ _)
  rw [← hroads] at hids hplaces
  exact exists_run (free_eq readsWaysAs_roadNetwork) haccepts
    (fun w hw id hid => inRange_nodes_iff.mpr ((hids w hw).2 id hid))
    (fun w hw => inRange_ways_iff.mpr (hids w hw).1) hplaces

theorem exists_run_yard : ∃ a : Assembly (NodeRecords × BarrierCourses Float) Float,
    run RoadNetwork.collector (NodeRecords.empty, BarrierCourses.empty) (.objects yard) =
      .ok a :=
  exists_run_roadNetwork freeRoads_yard (by simp) ⟨_, List.mem_singleton_self _, le_rfl⟩

end Import
end RoadAudit
