import RoadAudit.Json.Basic
import RoadAudit.Numeric.Shortest

/-! # Writing JSON

The compact form: no spaces, fields in the order they are given, numbers in their shortest
digits. -/

namespace RoadAudit

namespace Json

/-- The exponents at which a number is still written around its point: from five places after
it to sixteen digits before it. -/
def isPositional (d : Decimal) : Bool := -5 ≤ d.magnitude && d.magnitude < 16

/-- A decimal with at least one digit after the point, or with a power of ten. -/
def decimalText (d : Decimal) : String :=
  if isPositional d then d.positional ++ (if 0 ≤ d.exponent then ".0" else "")
  else d.scientific

/-- The text of a number in its shortest digits; a half between two of them goes to the even
one. What is no number is written as `null`. -/
def floatText (x : Float) : String :=
  match Binary64.ofFloat x with
  | .finite s m e => (if s then "-" else "") ++ decimalText (shortestDecimal .even m e)
  | _ => "null"

def hexDigit (n : Nat) : Char := (Nat.toDigits 16 (n % 16)).headD '0'

/-- A character inside quotes: quotes, backslashes and control characters are escaped. -/
def escaped (c : Char) : List Char :=
  if c = '"' then ['\\', '"']
  else if c = '\\' then ['\\', '\\']
  else if c = '\x08' then ['\\', 'b']
  else if c = '\x0c' then ['\\', 'f']
  else if c = '\n' then ['\\', 'n']
  else if c = '\r' then ['\\', 'r']
  else if c = '\t' then ['\\', 't']
  else if c.toNat < 32 then ['\\', 'u', '0', '0', hexDigit (c.toNat / 16), hexDigit c.toNat]
  else [c]

def quoted (s : String) : String := "\"" ++ String.ofList (s.toList.flatMap escaped) ++ "\""

mutual

def render : Json → String
  | null => "null"
  | bool b => if b then "true" else "false"
  | int n => toString n
  | float x => floatText x
  | text s => quoted s
  | array items => "[" ++ renderItems items ++ "]"
  | object fields => "\x7b" ++ renderFields fields ++ "\x7d"

def renderItems : List Json → String
  | [] => ""
  | [v] => render v
  | v :: rest => render v ++ "," ++ renderItems rest

def renderFields : List (String × Json) → String
  | [] => ""
  | [(k, v)] => quoted k ++ ":" ++ render v
  | (k, v) :: rest => quoted k ++ ":" ++ render v ++ "," ++ renderFields rest

end

end Json

end RoadAudit
