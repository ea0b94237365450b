import RoadAudit.Numeric.Decimal

/-! # Reading numbers

The text forms that numbers are read from. A number is an optional sign before digits with an
optional point and an optional power of ten, or one of the words for an infinity or for no
number. Only ASCII digits count, and nothing may follow. -/

namespace RoadAudit

namespace Reading

def isDigit (c : Char) : Bool := '0' ≤ c && c ≤ '9'

/-- The value of a digit of base sixteen, and so of one of any lesser base. -/
def hexValue? (c : Char) : Option Nat :=
  if '0' ≤ c ∧ c ≤ '9' then some (c.toNat - 48)
  else if 'a' ≤ c ∧ c ≤ 'f' then some (c.toNat - 87)
  else if 'A' ≤ c ∧ c ≤ 'F' then some (c.toNat - 55)
  else none

def digits (cs : List Char) : List Char × List Char := (cs.takeWhile isDigit, cs.dropWhile isDigit)

/-- An optional sign, `true` for minus, and the rest. -/
def sign : List Char → Bool × List Char
  | '-' :: rest => (true, rest)
  | '+' :: rest => (false, rest)
  | cs => (false, cs)

/-- The power of ten that ends a number: absent, or `e` with a sign and at least one digit. -/
def power? : List Char → Option Int
  | [] => some 0
  | c :: rest =>
    if c = 'e' ∨ c = 'E' then
      let (negative, rest) := sign rest
      match digits rest with
      | ([], _) => none
      | (ds, []) =>
        let n : Int := Decimal.ofDigits ds
        some (if negative then -n else n)
      | _ => none
    else none

/-- Digits with an optional point among or around them, at least one digit in all. -/
def decimal? (cs : List Char) : Option Decimal :=
  let (whole, rest) := digits cs
  let (fraction, rest) :=
    match rest with
    | '.' :: rest => digits rest
    | rest => ([], rest)
  if whole.isEmpty && fraction.isEmpty then none
  else (power? rest).map fun p =>
    ⟨Decimal.ofDigits (whole ++ fraction), p - fraction.length⟩

def unsigned? (cs : List Char) : Option Float :=
  match decimal? cs with
  | some d => some d.toFloat
  | none =>
    let word := String.ofList (cs.map Char.toLower)
    if word = "inf" ∨ word = "infinity" then some (1 / 0)
    else if word = "nan" then some (0 / 0)
    else none

end Reading

def readFloat? (cs : List Char) : Option Float :=
  let (negative, rest) := Reading.sign cs
  (Reading.unsigned? rest).map (Binary64.withSign negative)

/-- The whole number that a text writes: digits after an optional plus. -/
def readNat? (cs : List Char) : Option Nat :=
  let ds := match cs with
    | '+' :: rest => rest
    | cs => cs
  if ds.isEmpty || !ds.all Reading.isDigit then none else some (Decimal.ofDigits ds)

/-- The whole number that a text writes: digits after an optional sign. -/
def readInt? : List Char → Option Int
  | '-' :: ds =>
    if ds.isEmpty || !ds.all Reading.isDigit then none else some (-(Decimal.ofDigits ds : Int))
  | cs => (readNat? cs).map fun n => (n : Int)

end RoadAudit
