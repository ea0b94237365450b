import RoadAudit.Graph.Nearest

/-! # Crossing barriers

Whether a straight segment meets a barrier. The test of two segments is by the sides on which the
ends of each lie of the other, decided without rounding; barriers whose bounding box does not meet
that of the segment are passed over. -/

namespace RoadAudit

/-- The courses of barriers, each of at least two points. -/
structure BarrierIndex (α : Type) where
  lines : List (List (Point α))
  two_le : ∀ line ∈ lines, 2 ≤ line.length

namespace BarrierIndex

variable {α : Type}

/-- The barriers among some lines: a single point is none. -/
def ofLines (lines : List (List (Point α))) : BarrierIndex α :=
  ⟨lines.filter fun line => 2 ≤ line.length, by simp⟩

def empty : BarrierIndex α := ⟨[], by simp⟩

instance : Inhabited (BarrierIndex α) := ⟨empty⟩

@[simp] theorem lines_ofLines (lines : List (List (Point α))) :
    (ofLines lines).lines = lines.filter fun line => 2 ≤ line.length := rfl

end BarrierIndex

variable {α : Type} [Scalar α]

def side (a b c : Point α) : Ordering := Scalar.turn a.lon a.lat b.lon b.lat c.lon c.lat

def isBetween (x a b : α) : Bool := if a < b then a ≤ x && x ≤ b else b ≤ x && x ≤ a

def inBox (p a b : Point α) : Bool := isBetween p.lon a.lon b.lon && isBetween p.lat a.lat b.lat

def onSegment (p a b : Point α) : Bool := side a b p == .eq && inBox p a b

/-- Whether the segment from `a` to `b` and that from `c` to `d` have a point in common. -/
def segmentsMeet (a b c d : Point α) : Bool :=
  if a.same b then onSegment a c d
  else
    let toC := side a b c
    let toD := side a b d
    if toC ≠ toD then side c d a != side c d b
    else if toC = .eq then inBox c a b || inBox d a b || inBox b c d
    else false

def Box.ofLine : List (Point α) → Option (Box α)
  | [] => none
  | p :: rest =>
    some (rest.foldl
      (fun b q =>
        ⟨⟨Scalar.lesser b.low.lat q.lat, Scalar.lesser b.low.lon q.lon⟩,
          ⟨Scalar.greater b.high.lat q.lat, Scalar.greater b.high.lon q.lon⟩⟩)
      ⟨p, p⟩)

/-- Whether the segment from `p` to `q` meets a barrier. -/
def BarrierIndex.crosses (x : BarrierIndex α) (p q : Point α) : Bool :=
  x.lines.any fun line =>
    (Box.ofLine line).any (fun box => box.meets (Box.ofSegment p q))
      && (segments line).any fun s => segmentsMeet s.1 s.2 p q

end RoadAudit
