import RoadAudit.Geo.Point
import RoadAudit.Numeric.Fixed

/-! # Points as text -/

namespace RoadAudit

def Point.text (p : Point Float) : String :=
  "(" ++ fixedText 7 p.lat ++ ", " ++ fixedText 7 p.lon ++ ")"

end RoadAudit
