import RoadAudit.Osm.Object
import RoadAudit.Road.Attributes

/-! # Road ways

The ways that belong to the road network, reduced to what the graph needs of them. -/

namespace RoadAudit

structure RoadWay where
  id : Int64
  nodes : List Int64
  flags : RoadFlags
deriving DecidableEq, Repr

/-- The road that a way is, if its tags give it a class and it has at least two nodes. -/
def RoadWay.ofWay? (w : OsmWay) : Option RoadWay :=
  let flags := RoadFlags.ofTags w.tags.value?
  if flags.roadClass = .undefined ∨ w.nodes.length < 2 then none
  else some ⟨w.id, w.nodes, flags⟩

end RoadAudit
