import RoadAudit.Geo.Point

/-! # Bearings

A bearing is a direction in degrees clockwise from north. -/

namespace RoadAudit

open scoped Scalar

variable {α : Type} [Scalar α]

/-- The direction in which the great circle from `p` to `q` sets out. -/
def bearing (p q : Point α) : α :=
  let lat₁ := Scalar.radians p.lat
  let lat₂ := Scalar.radians q.lat
  let dlon := Scalar.radians (q.lon - p.lon)
  let y := Scalar.sin dlon * Scalar.cos lat₂
  let x := Scalar.cos lat₁ * Scalar.sin lat₂
    - Scalar.sin lat₁ * Scalar.cos lat₂ * Scalar.cos dlon
  Scalar.rem (Scalar.degrees (Scalar.atan2 y x) + 360) 360

end RoadAudit
