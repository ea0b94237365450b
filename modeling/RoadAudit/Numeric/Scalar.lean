/-! # Scalar arithmetic

The measurements of this library are written once, over any type with the operations of
`Scalar`. No law is assumed of them: the program runs on binary64 numbers, where addition rounds
and a NaN is in no order with anything, while a statement about exact arithmetic is the same
definition read over an ordered field. -/

namespace RoadAudit

/-- The arithmetic that distances, bearings and priorities are computed with. -/
class Scalar (α : Type) extends Add α, Sub α, Mul α, Div α, Neg α, LT α, LE α where
  decLt : ∀ a b : α, Decidable (a < b)
  decLe : ∀ a b : α, Decidable (a ≤ b)
  ofNat : Nat → α
  pi : α
  sqrt : α → α
  sin : α → α
  cos : α → α
  /-- The angle of the vector with ordinate `y` and abscissa `x`, in `[-pi, pi]`. -/
  atan2 : (y x : α) → α
  /-- The remainder of a division truncated toward zero; it has the sign of the dividend. -/
  rem : α → α → α
  /-- The whole part of a number, zero for a negative or an incomparable one. -/
  wholePart : α → Nat
  /-- The nearest integer, a half going away from zero. -/
  nearestInt : α → Int
  /-- The side of the line from `(ax, ay)` to `(bx, by)` on which `(cx, cy)` lies, decided without
  rounding: `.gt` to the left, `.lt` to the right, `.eq` on the line or where there is no order. -/
  turn : (ax ay bx by' cx cy : α) → Ordering

namespace Scalar

variable {α : Type} [Scalar α]

instance (a b : α) : Decidable (a < b) := decLt a b
instance (a b : α) : Decidable (a ≤ b) := decLe a b

scoped instance (priority := low) instOfNat (n : Nat) : OfNat α n := ⟨ofNat n⟩

/-- Equality as the order sees it: the two zeros are the same, a NaN is not even itself. -/
def same (a b : α) : Bool := a ≤ b && b ≤ a

/-- The lesser of two numbers; one that is in no order with itself gives way to the other. -/
def lesser (a b : α) : α := if b < a ∨ ¬ a ≤ a then b else a

/-- The greater of two numbers; one that is in no order with itself gives way to the other. -/
def greater (a b : α) : α := if a < b ∨ ¬ a ≤ a then b else a

def magnitude (a : α) : α := if a < 0 then -a else a

def square (a : α) : α := a * a

/-- The nearest number of `[lo, hi]`, where a number in no order with either end stays as it is. -/
def clamp (lo hi a : α) : α := if a < lo then lo else if hi < a then hi else a

def ofInt (i : Int) : α := if i < 0 then -ofNat i.natAbs else ofNat i.natAbs

/-- The spacing of binary64 numbers just above one, `2 ^ (-52)`: what is smaller counts as none
where a difference is tested. -/
def spacing : α := 1 / ofNat 4503599627370496

def radians (a : α) : α := a * (pi / 180)

def degrees (a : α) : α := a * (180 / pi)

def sum (as : List α) : α := as.foldl (· + ·) 0

@[simp] theorem sum_nil : sum ([] : List α) = 0 := rfl

end Scalar

end RoadAudit
