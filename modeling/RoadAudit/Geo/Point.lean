import RoadAudit.Numeric.Scalar

/-! # Points on the globe

A point is a latitude and a longitude in degrees. A polyline is a list of points; what is said of
its segments is said of the pairs of neighbours in that list. -/

namespace RoadAudit

structure Point (α : Type) where
  lat : α
  lon : α
deriving DecidableEq, Repr

namespace Point

variable {α : Type} [Scalar α]

/-- Whether two points have the same coordinates, as the order of the scalars sees them. -/
def same (p q : Point α) : Bool := Scalar.same p.lat q.lat && Scalar.same p.lon q.lon

def sameLine (ps qs : List (Point α)) : Bool := ps.isEqv qs same

end Point

def segments {β : Type} : List β → List (β × β)
  | a :: b :: rest => (a, b) :: segments (b :: rest)
  | _ => []

@[simp] theorem segments_nil {β : Type} : segments ([] : List β) = [] := rfl

@[simp] theorem segments_singleton {β : Type} (a : β) : segments [a] = [] := rfl

@[simp] theorem segments_cons_cons {β : Type} (a b : β) (rest : List β) :
    segments (a :: b :: rest) = (a, b) :: segments (b :: rest) := rfl

theorem length_segments {β : Type} : ∀ as : List β, (segments as).length = as.length - 1
  | [] => rfl
  | [_] => rfl
  | a :: b :: rest => by simp [length_segments (b :: rest)]

end RoadAudit
