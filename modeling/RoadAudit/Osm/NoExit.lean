import RoadAudit.Osm.Collector
import Std.Data.HashSet

/-! # Nodes without an exit

Nodes at which a dead end is as it should be: those marked so, and entrances. The collector of
this module remembers them and fills the id table of the nodes. -/

namespace RoadAudit

def marksNoExit (tags : Tags) : Bool :=
  tags.value? "noexit" == some "yes" || (tags.value? "entrance").any (· != "no")

/-- The nodes marked so far, and the ids of the nodes of the graph. -/
structure NodeRecords where
  marked : Std.HashSet Int64
  table : IdTable

namespace NodeRecords

def empty : NodeRecords := ⟨Std.HashSet.emptyWithCapacity, IdTable.empty .nodes⟩

def markedCount (r : NodeRecords) : Nat := r.marked.size

def readNode (r : NodeRecords) (n : OsmNode) : NodeRecords :=
  if marksNoExit n.tags then { r with marked := r.marked.insert n.id } else r

/-- The records with one more node of the graph. A map id that is not positive stands for no node
of the map and leaves no record. -/
def record (r : NodeRecords) (osmId : Int64) (node : Nat) : Except IdTableError NodeRecords :=
  if osmId ≤ 0 then .ok r
  else do
    let table ← r.table.add node osmId.toUInt64 (r.marked.contains osmId)
    .ok { r with table := table }

def collector : Collector NodeRecords where
  announceWay r _ := r
  readNode := readNode
  readWay r _ := (r, true)
  recordNode := record

end NodeRecords

end RoadAudit
