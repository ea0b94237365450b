import RoadAudit.Barrier.Index
import RoadAudit.Barrier.Location
import RoadAudit.Osm.Collector

/-! # The courses of barriers

The collector of barrier ways. The first reading tells which nodes they go through, the second
gives the places of these and the courses of the ways. A barrier is never a road, also where its
course is not complete. -/

namespace RoadAudit

/-- The places of the nodes of barriers, and the courses gathered so far. -/
structure BarrierCourses (α : Type) where
  places : LocationIndex
  lines : List (List (Point α))

namespace BarrierCourses

variable {α : Type}

def empty : BarrierCourses α := ⟨LocationIndex.empty, []⟩

def isBarrierWay (w : OsmWay) : Bool := isBarrier (w.tags.value? "barrier")

/-- The id under which the place of a node is kept; nodes that are not in the map have none. -/
def placeKey? (osmId : Int64) : Option UInt64 := if 0 < osmId then some osmId.toUInt64 else none

def announceWay (b : BarrierCourses α) (w : OsmWay) : BarrierCourses α :=
  if isBarrierWay w then
    { b with places := (w.nodes.filterMap placeKey?).foldl LocationIndex.ask b.places }
  else b

variable [Scalar α]

def readNode (b : BarrierCourses α) (n : OsmNode) : BarrierCourses α :=
  match placeKey? n.id with
  | some key => { b with places := b.places.see key (n.point : Point α) }
  | none => b

/-- The course of a way, if the places of all its nodes are known. -/
def course? (places : LocationIndex) (w : OsmWay) : Option (List (Point α)) :=
  w.nodes.mapM fun id => placeKey? id >>= places.place?

def readWay (b : BarrierCourses α) (w : OsmWay) : BarrierCourses α × Bool :=
  if isBarrierWay w then
    match course? b.places w with
    | some line => (if 2 ≤ line.length then { b with lines := b.lines ++ [line] } else b, false)
    | none => (b, false)
  else (b, true)

def collector : Collector (BarrierCourses α) where
  announceWay := announceWay
  readNode := readNode
  readWay := readWay
  recordNode b _ _ := .ok b

def index (b : BarrierCourses α) : BarrierIndex α := BarrierIndex.ofLines b.lines

end BarrierCourses

end RoadAudit
