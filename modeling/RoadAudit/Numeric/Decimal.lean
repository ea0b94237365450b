import RoadAudit.Numeric.Binary64

/-! # Decimal numbers

A decimal is a whole number times a power of ten. It is what a number is read from and written
as: `toFloat` is the nearest binary64 number, `positional` and `scientific` are the two ways to
write the digits. -/

namespace RoadAudit

/-- The number `mantissa * 10 ^ exponent`. -/
structure Decimal where
  mantissa : Nat
  exponent : Int
deriving DecidableEq, Repr

namespace Decimal

def digitsOf (n : Nat) : List Char := Nat.toDigits 10 n

def ofDigits (cs : List Char) : Nat := cs.foldl (fun n c => 10 * n + (c.toNat - 48)) 0

/-- The nearest binary64 number. Decimals beyond the range of those numbers are infinite or zero
whatever their other digits are. -/
def toFloat (d : Decimal) : Float :=
  let magnitude := (digitsOf d.mantissa).length + d.exponent
  if d.mantissa = 0 ∨ magnitude < -400 then 0
  else if 400 < magnitude then 1 / 0
  else OfScientific.ofScientific d.mantissa (d.exponent < 0) d.exponent.natAbs

def zeros (n : Nat) : List Char := List.replicate n '0'

/-- The digits before and after the point, either of which may be empty. -/
def split (d : Decimal) : List Char × List Char :=
  let ds := digitsOf d.mantissa
  if 0 ≤ d.exponent then (ds ++ zeros d.exponent.toNat, [])
  else
    let places := (-d.exponent).toNat
    let padded := zeros (places - ds.length) ++ ds
    (padded.take (padded.length - places), padded.drop (padded.length - places))

def positional (d : Decimal) : String :=
  let (whole, fraction) := d.split
  String.ofList (if whole.isEmpty then ['0'] else whole)
    ++ (if fraction.isEmpty then "" else "." ++ String.ofList fraction)

def magnitude (d : Decimal) : Int := (digitsOf d.mantissa).length + d.exponent - 1

/-- One digit, the others after a point, and the power of ten with its sign. -/
def scientific (d : Decimal) : String :=
  let ds := digitsOf d.mantissa
  let e := d.magnitude
  String.ofList (ds.take 1) ++ (if ds.length ≤ 1 then "" else "." ++ String.ofList (ds.drop 1))
    ++ "e" ++ (if e < 0 then "-" else "+") ++ toString e.natAbs

end Decimal

end RoadAudit
