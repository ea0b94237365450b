import RoadAudit.Geo.Distance

/-! # Points on a polyline

Which segment of a polyline a point lies on, and how far along the polyline that is. A point
counts as lying on a segment when it is in the segment's bounding box, widened a little; of
several such segments the one wins whose direction best fits the direction from the point to the
segment's end. -/

namespace RoadAudit

open scoped Scalar

variable {α : Type} [Scalar α]

/-- How far outside the bounding box of a segment a point may lie, in degrees. -/
def boxSlack : α := 1 / 10000000

def inWidenedBox (p a b : Point α) : Bool :=
  Scalar.lesser a.lat b.lat - boxSlack ≤ p.lat
    && p.lat ≤ Scalar.greater a.lat b.lat + boxSlack
    && Scalar.lesser a.lon b.lon - boxSlack ≤ p.lon
    && p.lon ≤ Scalar.greater a.lon b.lon + boxSlack

/-- How much the direction from `p` to the end of a segment differs from that of the segment, as
directions of lines. At the end itself there is no such direction and no difference. -/
def deviation (p a b : Point α) : α :=
  let dlat := b.lat - p.lat
  let dlon := b.lon - p.lon
  if Scalar.magnitude dlat < Scalar.spacing ∧ Scalar.magnitude dlon < Scalar.spacing then 0
  else
    let expected := Scalar.atan2 (b.lat - a.lat) (b.lon - a.lon)
    let actual := Scalar.atan2 dlat dlon
    let d := Scalar.rem (Scalar.magnitude (expected - actual)) Scalar.pi
    Scalar.lesser d (Scalar.pi - d)

/-- The better of the best segment so far and a later one: the earlier unless the later deviates
strictly less. -/
def betterSegment (best : Option (Nat × α)) (i : Nat) (d : α) : Option (Nat × α) :=
  match best with
  | none => some (i, d)
  | some (j, e) => if d < e then some (i, d) else some (j, e)

def bestSegment (p : Point α) : (i : Nat) → Option (Nat × α) → List (Point α × Point α) →
    Option (Nat × α)
  | _, best, [] => best
  | i, best, (a, b) :: rest =>
    bestSegment p (i + 1)
      (if inWidenedBox p a b then betterSegment best i (deviation p a b) else best) rest

/-- The number of the segment that a point lies on, if it lies on the polyline at all. -/
def segmentUnder? (line : List (Point α)) (p : Point α) : Option Nat :=
  (bestSegment p 0 none (segments line)).map (·.1)

def Metric.distanceAlong? (m : Metric) (line : List (Point α)) (p : Point α) : Option α := do
  let i ← segmentUnder? line p
  let corner ← (line.drop i).head?
  some (m.length (line.take (i + 1)) + m.distance corner p)

end RoadAudit
