import RoadAudit.Numeric.Scalar

/-! # Angles between directions

The angle between two headings, and the angle between a heading and a line, which has no
direction of its own. Headings are degrees of any size and sign. -/

namespace RoadAudit

open scoped Scalar

variable {α : Type} [Scalar α]

def headingAngle (a b : α) : α :=
  let d := Scalar.rem (Scalar.magnitude (a - b)) 360
  if 180 < d then 360 - d else d

def lineAngle (a b : α) : α :=
  let d := headingAngle a b
  Scalar.lesser d (180 - d)

end RoadAudit
