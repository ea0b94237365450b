import RoadAudit.Osm.BarrierCourse
import RoadAudit.Osm.Import
import RoadAudit.Osm.NoExit

/-! # Road networks

All that an audit needs of an extract: the graph, the map ids of its nodes and edges, and the
barriers. -/

namespace RoadAudit

structure RoadNetwork where
  graph : RoadGraph Float
  nodeIds : IdTable
  wayIds : IdTable
  barriers : BarrierIndex Float

namespace RoadNetwork

def collector : Collector (NodeRecords × BarrierCourses Float) :=
  NodeRecords.collector.both BarrierCourses.collector

def ofExtract (x : Extract) : Except ImportError RoadNetwork :=
  (Import.run collector (NodeRecords.empty, BarrierCourses.empty) x).map fun a =>
    ⟨a.graph, a.held.1.table, a.wayIds, a.held.2.index⟩

end RoadNetwork

end RoadAudit
