import RoadAudit.Geo.Point

/-! # Map objects

The objects of an extract of the map: nodes with a place, ways through nodes, and relations, which
an import passes over. Ids are signed; those of objects that are not yet in the map are negative.
Places are given in whole 1e-7 degrees. -/

namespace RoadAudit

open scoped Scalar

/-- The tags of an object; of equal keys the last counts. -/
structure Tags where
  entries : List (String × String)
deriving DecidableEq, Repr

def Tags.value? (t : Tags) (key : String) : Option String :=
  (t.entries.reverse.find? fun e => e.1 == key).map (·.2)

structure OsmNode where
  id : Int64
  /-- The latitude in 1e-7 degrees. -/
  lat : Int
  /-- The longitude in 1e-7 degrees. -/
  lon : Int
  tags : Tags
deriving DecidableEq, Repr

def degreesOfUnits {α : Type} [Scalar α] (units : Int) : α := Scalar.ofInt units * (1 / 10000000)

def OsmNode.point {α : Type} [Scalar α] (n : OsmNode) : Point α :=
  ⟨degreesOfUnits n.lat, degreesOfUnits n.lon⟩

structure OsmWay where
  id : Int64
  nodes : List Int64
  tags : Tags
deriving DecidableEq, Repr

inductive OsmObject where
  | node (n : OsmNode)
  | way (w : OsmWay)
  | relation
deriving DecidableEq, Repr

end RoadAudit
