import RoadAudit.Geo.Distance

/-! # The local tangent plane

Around a point the globe is flat enough to search a few metres: metres north grow with the
latitude and metres east with the longitude, by two factors taken at the origin. Projections on a
segment are made in that plane. -/

namespace RoadAudit

open scoped Scalar

/-- The plane that touches the globe at `origin`, with its metres per degree. -/
structure TangentPlane (α : Type) where
  origin : Point α
  north : α
  east : α

/-- Metres east and north of the origin of a plane. -/
structure Offset (α : Type) where
  east : α
  north : α

namespace TangentPlane

variable {α : Type} [Scalar α]

def toOffset (plane : TangentPlane α) (p : Point α) : Offset α :=
  ⟨(p.lon - plane.origin.lon) * plane.east, (p.lat - plane.origin.lat) * plane.north⟩

def ofOffset (plane : TangentPlane α) (o : Offset α) : Point α :=
  ⟨plane.origin.lat + o.north / plane.north, plane.origin.lon + o.east / plane.east⟩

end TangentPlane

variable {α : Type} [Scalar α]

/-- The plane at a point: a degree of longitude shrinks with the cosine of the latitude. -/
def Point.tangentPlane (origin : Point α) : TangentPlane α :=
  let north : α := Scalar.radians earthRadius
  ⟨origin, north, north * Scalar.cos (Scalar.radians origin.lat)⟩

/-- Where a point projects to on a segment: the share `t` of the way and the point there. -/
structure Projection (α : Type) where
  t : α
  point : Point α

/-- The point of the segment from `a` to `b` that is nearest to `p` in the plane. A segment of
negligible length projects to its start, and an end is given back as it was given. -/
def TangentPlane.project (plane : TangentPlane α) (p a b : Point α) : Projection α :=
  let op := plane.toOffset p
  let oa := plane.toOffset a
  let ob := plane.toOffset b
  let dx := ob.east - oa.east
  let dy := ob.north - oa.north
  let lengthSquared := dx * dx + dy * dy
  if lengthSquared ≤ Scalar.spacing then ⟨0, a⟩
  else
    let along := (op.east - oa.east) * dx + (op.north - oa.north) * dy
    let t := Scalar.clamp 0 1 (along / lengthSquared)
    if Scalar.same t 0 then ⟨t, a⟩
    else if Scalar.same t 1 then ⟨t, b⟩
    else ⟨t, plane.ofOffset ⟨oa.east + t * dx, oa.north + t * dy⟩⟩

/-- Extents in degrees. -/
structure Extent (α : Type) where
  lat : α
  lon : α

/-- The degrees of latitude and longitude that `radius` metres span around a latitude. Toward a
pole the cosine is held at a millionth. -/
def degreesAround (lat radius : α) : Extent α :=
  let dlat := radius / 111320
  ⟨dlat, dlat / Scalar.greater (Scalar.magnitude (Scalar.cos (Scalar.radians lat))) (1 / 1000000)⟩

end RoadAudit
