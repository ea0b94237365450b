import RoadAudit.Geo.Polyline
import RoadAudit.Graph.Search

/-! # Routes to a place on an edge

A place on an edge is reached through either end. The route to it is the shorter of the two ways:
a bounded search to the end, then along the edge. -/

namespace RoadAudit

open scoped Scalar

variable {α : Type} [Scalar α]

namespace RoadGraph

/-- The route to a place that lies `fromBase` from the base node of an edge and `fromAdj` from its
adjacent node. -/
def routeViaEnds (g : RoadGraph α) (limits : SearchLimits α) (source : Nat) (v : EdgeView α)
    (fromBase fromAdj : α) : Route α :=
  let toBase := g.route limits source v.base
  let toAdj := g.route limits source v.adj
  let within (d : α) : Route α :=
    if d ≤ limits.maxDistance then SearchLimits.found d else limits.exhausted .tooLong
  match toBase.status, toAdj.status with
  | .ok, .ok => within (Scalar.lesser (toBase.distance + fromBase) (toAdj.distance + fromAdj))
  | .ok, _ => within (toBase.distance + fromBase)
  | _, .ok => within (toAdj.distance + fromAdj)
  | .tooManyNodes, _ => limits.exhausted .tooManyNodes
  | _, .tooManyNodes => limits.exhausted .tooManyNodes
  | .tooLong, .tooLong => limits.exhausted .tooLong

/-- The route to a point of an edge's course, given by its number; a number beyond the course
means its last point. -/
def routeToVertex (g : RoadGraph α) (limits : SearchLimits α) (m : Metric) (source : Nat)
    (v : EdgeView α) (wayIndex : Nat) : Route α :=
  let course := g.geometry v
  let i := min wayIndex (course.length - 1)
  g.routeViaEnds limits source v (m.length (course.take (i + 1))) (m.length (course.drop i))

/-- The route to a point between two points of an edge's course, unless the point does not lie on
the edge. -/
def routeToPoint? (g : RoadGraph α) (limits : SearchLimits α) (m : Metric) (source : Nat)
    (v : EdgeView α) (p : Point α) : Option (Route α) := do
  let course := g.geometry v
  let fromBase ← m.distanceAlong? course p
  let fromAdj ← m.distanceAlong? course.reverse p
  some (g.routeViaEnds limits source v fromBase fromAdj)

end RoadGraph

end RoadAudit
