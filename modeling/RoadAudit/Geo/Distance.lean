import RoadAudit.Geo.Point

/-! # Distances

Great-circle distances by the haversine formula, and the length of a polyline in either of the
two metrics that along-edge measurements are made in. -/

namespace RoadAudit

open scoped Scalar

variable {α : Type} [Scalar α]

/-- The radius of the globe in metres. -/
def earthRadius : α := 6371000

def haversine (p q : Point α) : α :=
  let dlat := Scalar.radians (q.lat - p.lat)
  let dlon := Scalar.radians (q.lon - p.lon)
  let a := Scalar.square (Scalar.sin (dlat / 2))
    + Scalar.cos (Scalar.radians p.lat) * Scalar.cos (Scalar.radians q.lat)
      * Scalar.square (Scalar.sin (dlon / 2))
  earthRadius * (2 * Scalar.atan2 (Scalar.sqrt a) (Scalar.sqrt (1 - a)))

/-- How lengths along an edge are measured. -/
inductive Metric where
  /-- Great-circle distances in metres. -/
  | earth
  /-- Straight distances in coordinate units, for synthetic geometry. -/
  | plane
deriving DecidableEq, Repr

namespace Metric

def distance : Metric → Point α → Point α → α
  | .earth, p, q => haversine p q
  | .plane, p, q =>
    Scalar.sqrt (Scalar.square (q.lat - p.lat) + Scalar.square (q.lon - p.lon))

def legs (m : Metric) (line : List (Point α)) : List α :=
  (segments line).map fun s => m.distance s.1 s.2

def length (m : Metric) (line : List (Point α)) : α := Scalar.sum (m.legs line)

end Metric

end RoadAudit
