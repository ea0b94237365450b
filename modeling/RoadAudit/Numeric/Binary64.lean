import RoadAudit.Numeric.Scalar
import RoadAudit.Numeric.Word

/-! # Binary64 numbers

A binary64 number taken apart into the integers it stands for, and the arithmetic of `Scalar` on
such numbers. What has to be exact (remainders, roundings to an integer, decimal texts) is
computed from the parts. -/

namespace RoadAudit

/-- What the 64 bits of a number say: nothing, an infinity, or plus or minus
`mantissa * 2 ^ exponent`. -/
inductive Binary64 where
  | nan
  | infinite (negative : Bool)
  | finite (negative : Bool) (mantissa : Nat) (exponent : Int)
deriving DecidableEq, Repr

namespace Binary64

/-- The parts of a word: one sign bit, eleven exponent bits, fifty-two fraction bits. -/
def ofBits (w : UInt64) : Binary64 :=
  let n := w.toNat
  let negative := n / twoPow 63 == 1
  let exponent : Nat := n / twoPow 52 % 2048
  let fraction := n % twoPow 52
  if exponent = 2047 then
    if fraction = 0 then .infinite negative else .nan
  else if exponent = 0 then .finite negative fraction (-1074)
  else .finite negative (twoPow 52 + fraction) ((exponent : Int) - 1075)

def ofFloat (x : Float) : Binary64 := ofBits x.toBits

/-- Whether the fraction is zero and the exponent is not the least: the numbers below such a one
lie twice as close as those above. -/
def isPowerBorder (mantissa : Nat) (exponent : Int) : Bool :=
  mantissa == twoPow 52 && exponent > -1074

def scaled (n : Nat) (e : Int) : Float := (Float.ofNat n).scaleB e

def withSign (negative : Bool) (x : Float) : Float := if negative then -x else x

/-- The remainder of `x / y` truncated toward zero, without rounding. -/
def remainder (x y : Float) : Float :=
  match ofFloat x, ofFloat y with
  | .finite s m e, .finite _ n f =>
    if n = 0 then 0 / 0
    else
      let least := min e f
      withSign s (scaled ((m * twoPow (e - least).toNat) % (n * twoPow (f - least).toNat)) least)
  | .finite .., .infinite _ => x
  | _, _ => 0 / 0

def roundHalfUp (m : Nat) (e : Int) : Nat :=
  if 0 ≤ e then m * twoPow e.toNat
  else (m + twoPow (-e).toNat / 2) / twoPow (-e).toNat

/-- The bound at which numbers too large for any caller are cut, infinities among them. -/
def integerLimit : Int := 9223372036854775808

/-- The nearest integer, a half going away from zero; a NaN counts as zero, and what lies beyond
`integerLimit` is cut there. -/
def nearestInt (x : Float) : Int :=
  match ofFloat x with
  | .nan => 0
  | .infinite s => if s then -integerLimit else integerLimit
  | .finite s m e =>
    let r : Int := if 64 ≤ e then integerLimit else min integerLimit (roundHalfUp m e)
    if s then -r else r

/-- The integer left when the fraction is dropped; a NaN counts as zero, and what lies beyond
`integerLimit` is cut there. -/
def truncate (x : Float) : Int :=
  match ofFloat x with
  | .nan => 0
  | .infinite s => if s then -integerLimit else integerLimit
  | .finite s m e =>
    let whole : Nat := if 0 ≤ e then m * twoPow (min e 64).toNat else m / twoPow (-e).toNat
    let r : Int := min integerLimit whole
    if s then -r else r

/-- The sign of the area spanned from `(cx, cy)` to `(ax, ay)` and `(bx, by)`, in whole numbers. -/
def turnOfIntegers (ax ay bx by' cx cy : Int) : Ordering :=
  compare ((ax - cx) * (by' - cy)) ((ay - cy) * (bx - cx))

/-- Finite numbers as multiples of one power of two, the greatest that suits them all. -/
def commonIntegers? (xs : List Float) : Option (List Int) := do
  let parts ← xs.mapM fun x =>
    match ofFloat x with
    | .finite s m e => some (s, m, e)
    | _ => none
  let least := parts.foldl (fun l p => min l p.2.2) 1024
  some (parts.map fun (s, m, e) =>
    let n : Int := m * twoPow (e - least).toNat
    if s then -n else n)

/-- The side of a line on which a point lies. Infinite coordinates leave only the rounded area to
go by. -/
def turn (ax ay bx by' cx cy : Float) : Ordering :=
  match commonIntegers? [ax, ay, bx, by', cx, cy] with
  | some [ax, ay, bx, by', cx, cy] => turnOfIntegers ax ay bx by' cx cy
  | _ =>
    let area := (ax - cx) * (by' - cy) - (ay - cy) * (bx - cx)
    if area < 0 then .lt else if 0 < area then .gt else .eq

def piValue : Float := Float.ofBits 0x400921FB54442D18

end Binary64

instance : Scalar Float where
  decLt := fun a b => inferInstanceAs (Decidable (a < b))
  decLe := fun a b => inferInstanceAs (Decidable (a ≤ b))
  ofNat := Float.ofNat
  pi := Binary64.piValue
  sqrt := Float.sqrt
  sin := Float.sin
  cos := Float.cos
  atan2 := Float.atan2
  rem := Binary64.remainder
  wholePart := fun x => (Binary64.truncate x).toNat
  nearestInt := Binary64.nearestInt
  turn := Binary64.turn

end RoadAudit
