import RoadAudit.Proofs.Osm.BarrierCourses

/-! # Shared nodes

A road is cut where roads use a node more than once. The uses are counted in the first reading,
before it is known which ways are kept from the graph: a barrier that could be a road counts, though
it does not become one. -/

namespace RoadAudit
namespace Import

open BarrierCourses

variable {σ α : Type} [Scalar α] {c : Collector σ} {view : σ → BarrierCourses α} {held : σ}
  {objects : List OsmObject} {a : Assembly σ α}

theorem perm_freeRoads (free : OsmWay → Bool) (objects : List OsmObject) :
    (freeRoads free objects ++ freeRoads (fun w => !free w) objects).Perm (roadsOf objects) := by
  rw [freeRoads, freeRoads, ← List.filterMap_append]
  exact (List.filter_append_perm free (waysOf objects)).filterMap RoadWay.ofWay?

abbrev keptRoads (objects : List OsmObject) : List RoadWay :=
  freeRoads (fun w => !isBarrierWay w) objects

def roadUses (objects : List OsmObject) (id : Int64) : Nat :=
  ((keptRoads objects).flatMap RoadWay.nodes).count id

def barrierUses (objects : List OsmObject) (id : Int64) : Nat :=
  ((freeRoads isBarrierWay objects).flatMap RoadWay.nodes).count id

theorem usesOf_eq (objects : List OsmObject) (id : Int64) :
    usesOf objects id = roadUses objects id + barrierUses objects id := by
  have hperm := (perm_freeRoads isBarrierWay objects).flatMap_right RoadWay.nodes
  rw [usesOf, ← hperm.count_eq, List.flatMap_append, List.count_append, Nat.add_comm, roadUses,
    barrierUses]

variable (α) in
/-- Whether a map node lies on a road of the graph, at neither end of one. -/
structure IsInside (objects : List OsmObject) (id : Int64) : Prop where
  mem : id ∈ occurrences (lastPlace objects : Int64 → Option (Point α)) (keptRoads objects)
  not_isEnd : ¬ IsEnd (lastPlace objects : Int64 → Option (Point α)) (keptRoads objects) id

theorem IsInside.roadUses_pos {id : Int64} (h : IsInside α objects id) : 0 < roadUses objects id :=
  List.count_pos_iff.mpr
    ((List.Sublist.flatMap_right _ fun w _ => w.roadIds_sublist _).mem h.mem)

/-- A map node of the roads becomes a node of the graph just if a road ends there or the uses are
more than one, those by barriers included. -/
theorem exists_nodeOf_iff (hways : c.ReadsWaysAs view BarrierCourses.collector)
    (h : run c held (.objects objects) = .ok a) (id : Int64) :
    (∃ n, a.nodeOf[id]? = some n) ↔
      id ∈ occurrences (lastPlace objects : Int64 → Option (Point α)) (keptRoads objects) ∧
        (IsEnd (lastPlace objects : Int64 → Option (Point α)) (keptRoads objects) id ∨
          1 < roadUses objects id + barrierUses objects id) := by
  rw [← (assembled_of_run (free_eq hways) h).numbered.mem_iff, mem_visits_ofWays_iff, ← usesOf_eq, IsTower]

/-- Whether the nodes of a graph at which no road ends are shared by roads of the graph. -/
def CutsAtShared (objects : List OsmObject) (a : Assembly σ α) : Prop :=
  ∀ id n, a.nodeOf[id]? = some n →
    ¬ IsEnd (lastPlace objects : Int64 → Option (Point α)) (keptRoads objects) id →
    2 ≤ roadUses objects id

/-- Roads are cut inside only at what they share with roads of the graph exactly when no barrier
that could be a road goes through the inside of just one road. -/
theorem cutsAtShared_iff (hways : c.ReadsWaysAs view BarrierCourses.collector)
    (h : run c held (.objects objects) = .ok a) :
    CutsAtShared objects a ↔
      ∀ id, IsInside α objects id → roadUses objects id = 1 → barrierUses objects id = 0 := by
  constructor
  · intro hshared id hid hone
    by_contra hbarrier
    obtain ⟨n, hn⟩ := (exists_nodeOf_iff hways h id).mpr ⟨hid.mem, .inr (by omega)⟩
    have htwo := hshared id n hn hid.not_isEnd
    omega
  · intro hapart id n hn hend
    obtain ⟨hmem, huses⟩ := (exists_nodeOf_iff hways h id).mp ⟨n, hn⟩
    have hid : IsInside α objects id := ⟨hmem, hend⟩
    have hmany := huses.resolve_left hend
    have hpos := hid.roadUses_pos
    by_contra hfew
    have hbarrier := hapart id hid (by omega)
    omega

/-- An avenue, a row of hedges with a path along it that meets the avenue, and an alley from there. -/
def avenue : OsmWay := ⟨10, [1, 2, 3], ⟨[("highway", "residential")]⟩⟩

def hedgeRow : OsmWay := ⟨20, [2, 4], ⟨[("barrier", "hedge"), ("highway", "footway")]⟩⟩

def alley : OsmWay := ⟨30, [2, 5], ⟨[("highway", "residential")]⟩⟩

def park : List OsmObject :=
  [.node ⟨1, 500000000, 80000000, ⟨[]⟩⟩, .node ⟨2, 500000000, 80010000, ⟨[]⟩⟩,
    .node ⟨3, 500000000, 80020000, ⟨[]⟩⟩, .node ⟨4, 500010000, 80010000, ⟨[]⟩⟩,
    .node ⟨5, 499990000, 80010000, ⟨[]⟩⟩, .way avenue, .way hedgeRow]

def parkWithAlley : List OsmObject := park ++ [.way alley]

theorem keptRoads_parkWithAlley : keptRoads parkWithAlley =
    [⟨10, [1, 2, 3], .pack .residential false .ground false⟩,
      ⟨30, [2, 5], .pack .residential false .ground false⟩] := by
  decide

theorem keptRoads_park : keptRoads park =
    [⟨10, [1, 2, 3], .pack .residential false .ground false⟩] := by
  decide

theorem freeRoads_hedgeRow : freeRoads isBarrierWay parkWithAlley =
    [⟨20, [2, 4], .pack .footway false .ground false⟩] := by
  decide

/-- With the alley the place where the hedges meet the avenue is shared by two roads. -/
theorem cutsAtShared_iff_parkWithAlley :
    ∃ a : Assembly (NodeRecords × BarrierCourses Float) Float,
      run RoadNetwork.collector (NodeRecords.empty, BarrierCourses.empty) (.objects parkWithAlley) =
        .ok a ∧ CutsAtShared parkWithAlley a := by
  obtain ⟨a, ha⟩ := exists_run_roadNetwork keptRoads_parkWithAlley (by simp) (by decide)
  have hroads : occurrences (lastPlace parkWithAlley : Int64 → Option (Point Float))
      (keptRoads parkWithAlley) = [1, 2, 3, 2, 5] := by
    rw [keptRoads_parkWithAlley]
    decide
  have hapart : ∀ id ∈ ([1, 2, 3, 2, 5] : List Int64),
      roadUses parkWithAlley id = 1 → barrierUses parkWithAlley id = 0 := by
    simp [roadUses, barrierUses, freeRoads_hedgeRow, keptRoads_parkWithAlley]
  refine ⟨a, ha, (cutsAtShared_iff readsWaysAs_roadNetwork ha).mpr fun id hid => ?_⟩
  exact hapart id (hroads ▸ hid.mem)

/-- Without the alley the avenue is cut there all the same, where no other road of the graph is. -/
theorem hedgeRow_cuts_avenue : ∃ a : Assembly (NodeRecords × BarrierCourses Float) Float,
    run RoadNetwork.collector (NodeRecords.empty, BarrierCourses.empty) (.objects park) = .ok a ∧
      ¬ CutsAtShared park a := by
  obtain ⟨a, ha⟩ := exists_run_roadNetwork keptRoads_park (by simp) (by decide)
  obtain ⟨n, hn⟩ := (exists_nodeOf_iff readsWaysAs_roadNetwork ha 2).mpr (by decide)
  refine ⟨a, ha, fun hshared => ?_⟩
  have htwo := hshared 2 n hn (by decide)
  exact absurd htwo (by decide)

end Import
end RoadAudit
