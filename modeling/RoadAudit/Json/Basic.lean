/-! # JSON values

The data that settings are read from and reports are written as. Numbers written without a point
or an exponent are kept apart from the others, as settings accept only the former where they want
a whole number. -/

namespace RoadAudit

inductive Json where
  | null
  | bool (b : Bool)
  | int (n : Int)
  | float (x : Float)
  | text (s : String)
  | array (items : List Json)
  | object (fields : List (String × Json))
deriving Inhabited

namespace Json

/-- The value of a field; of equal keys the last counts. -/
def field? (key : String) : Json → Option Json
  | object fields => (fields.reverse.find? fun f => f.1 == key).map (·.2)
  | _ => none

def natUpTo? (limit : Nat) : Json → Option Nat
  | int n => if 0 ≤ n ∧ n ≤ limit then some n.toNat else none
  | _ => none

def bool? : Json → Option Bool
  | bool b => some b
  | _ => none

def text? : Json → Option String
  | text s => some s
  | _ => none

def array? : Json → Option (List Json)
  | array items => some items
  | _ => none

def int? : Json → Option Int
  | int n => some n
  | _ => none

/-- Any number, as the nearest binary64 number. -/
def float? : Json → Option Float
  | int n => some (Float.ofInt n)
  | float x => some x
  | _ => none

end Json

end RoadAudit
