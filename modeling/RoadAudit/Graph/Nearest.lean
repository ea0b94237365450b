import RoadAudit.Graph.Basic
import RoadAudit.Geo.Plane

/-! # Edges near a point

The search for the edges that pass within a radius of a point. The segments of all edges are
indexed by their bounding boxes; those whose box meets the box around the query are projected on,
and each edge keeps its nearest projection. -/

namespace RoadAudit

open scoped Scalar

/-- A box of degrees; it includes its border. -/
structure Box (α : Type) where
  low : Point α
  high : Point α

namespace Box

variable {α : Type} [Scalar α]

/-- The bounding box of a segment; a coordinate that is no number gives way to the other. -/
def ofSegment (a b : Point α) : Box α :=
  ⟨⟨Scalar.lesser a.lat b.lat, Scalar.lesser a.lon b.lon⟩,
    ⟨Scalar.greater a.lat b.lat, Scalar.greater a.lon b.lon⟩⟩

def ofCorners (p q : Point α) : Box α :=
  ⟨⟨if p.lat < q.lat then p.lat else q.lat, if p.lon < q.lon then p.lon else q.lon⟩,
    ⟨if q.lat < p.lat then p.lat else q.lat, if q.lon < p.lon then p.lon else q.lon⟩⟩

/-- The box that spans `radius` metres around a point. -/
def around (p : Point α) (radius : α) : Box α :=
  let d := degreesAround p.lat radius
  ofCorners ⟨p.lat - d.lat, p.lon - d.lon⟩ ⟨p.lat + d.lat, p.lon + d.lon⟩

def meets (b c : Box α) : Bool :=
  b.low.lat ≤ c.high.lat && c.low.lat ≤ b.high.lat
    && b.low.lon ≤ c.high.lon && c.low.lon ≤ b.high.lon

end Box

/-- What of an edge's course a point was matched to. -/
inductive MatchPosition where
  /-- A node at the end of the edge. -/
  | tower
  /-- A point of the course between the ends. -/
  | pillar
  /-- A place between two points of the course. -/
  | edge
deriving DecidableEq, Repr

def MatchPosition.name : MatchPosition → String
  | tower => "tower"
  | pillar => "pillar"
  | edge => "edge"

/-- An edge near a point, and the place on it that is nearest. -/
structure Snap (α : Type) where
  edge : EdgeView α
  /-- The end of the edge that is closer to the place, measured along the edge. -/
  closestNode : Nat
  query : Point α
  snapped : Point α
  distance : α
  position : MatchPosition
  /-- The point of the course that was matched, or the one at which the matched segment starts. -/
  wayIndex : Nat

/-- A segment of an edge's course as the index holds it. -/
structure IndexedSegment (α : Type) where
  view : EdgeView α
  number : Nat
  start : Point α
  stop : Point α

/-- The projection of a query on an indexed segment. -/
structure Candidate (α : Type) where
  view : EdgeView α
  segment : Nat
  t : α
  snapped : Point α
  distance : α

namespace RoadGraph

variable {α : Type} [Scalar α]

def segmentsOf (g : RoadGraph α) (v : EdgeView α) : List (IndexedSegment α) :=
  (segments (g.course v.edge)).zipIdx.map fun (s, i) => ⟨v, i, s.1, s.2⟩

def indexedSegments (g : RoadGraph α) : List (IndexedSegment α) := g.views.flatMap g.segmentsOf

def segmentsMeeting (g : RoadGraph α) (box : Box α) : List (IndexedSegment α) :=
  g.indexedSegments.filter fun s => (Box.ofSegment s.start s.stop).meets box

def isHidden (g : RoadGraph α) (e : Edge α) : Bool := g.isRemoved e.base || g.isRemoved e.adj

/-- The projection of the query on a segment, unless the edge is hidden or it is beyond the
radius. -/
def candidate? (g : RoadGraph α) (query : Point α) (radius : α) (s : IndexedSegment α) :
    Option (Candidate α) :=
  if g.isHidden s.view.edge then none
  else
    let r := query.tangentPlane.project query s.start s.stop
    let distance := haversine query r.point
    if radius < distance then none else some ⟨s.view, s.number, r.t, r.point, distance⟩

/-- The best candidates so far, by ascending edge id, and one more: it takes the place of the one
of its edge only if it is strictly nearer. -/
def keepNearer (c : Candidate α) : List (Candidate α) → List (Candidate α)
  | [] => [c]
  | b :: rest =>
    if c.view.id < b.view.id then c :: b :: rest
    else if c.view.id = b.view.id then (if c.distance < b.distance then c else b) :: rest
    else b :: keepNearer c rest

def nearestOfEach (cs : List (Candidate α)) : List (Candidate α) :=
  cs.foldl (fun best c => keepNearer c best) []

def Candidate.vertex? (c : Candidate α) : Option Nat :=
  if c.t ≤ 0 then some c.segment else if 1 ≤ c.t then some (c.segment + 1) else none

/-- The end of an edge that is closer to a place on it, measured along its course. -/
def closerEnd (course : List (Point α)) (e : Edge α) (wayIndex : Nat) (snapped : Point α) : Nat :=
  let before := Metric.earth.length (course.take (wayIndex + 1))
  let along := match course[wayIndex]? with
    | some p => before + haversine p snapped
    | none => before
  if along ≤ Metric.earth.length course - along then e.base else e.adj

def snapOf (g : RoadGraph α) (query : Point α) (c : Candidate α) : Snap α :=
  let course := g.course c.view.edge
  let last := course.length - 1
  let snap closest position wayIndex : Snap α :=
    ⟨c.view, closest, query, c.snapped, c.distance, position, wayIndex⟩
  match Candidate.vertex? c with
  | some v =>
    if v = 0 then snap c.view.edge.base .tower v
    else if v = last then snap c.view.edge.adj .tower v
    else snap (closerEnd course c.view.edge v c.snapped) .pillar v
  | none => snap (closerEnd course c.view.edge c.segment c.snapped) .edge c.segment

/-- The matches that some indexed segments give, in whatever order the index yields them. -/
def snapsIn (g : RoadGraph α) (query : Point α) (radius : α) (found : List (IndexedSegment α)) :
    List (Snap α) :=
  (nearestOfEach (found.filterMap (g.candidate? query radius))).map (g.snapOf query)

/-- The edges with a place within `radius` metres of a point, by ascending edge id. -/
def nearest (g : RoadGraph α) (query : Point α) (radius : α) : List (Snap α) :=
  g.snapsIn query radius (g.segmentsMeeting (Box.around query radius))

end RoadGraph

end RoadAudit
