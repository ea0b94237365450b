import RoadAudit.Json.Basic
import RoadAudit.Numeric.Reading
import RoadAudit.Numeric.Word

/-! # Reading JSON

The grammar of RFC 8259, read with one character of lookahead. A reader takes the rest of the
text and gives back a value and what follows it. -/

namespace RoadAudit

namespace Json

def isSpace (c : Char) : Bool := c == ' ' || c == '\n' || c == '\r' || c == '\t'

def skipSpace (cs : List Char) : List Char := cs.dropWhile isSpace

def afterWord? : (word cs : List Char) → Option (List Char)
  | [], cs => some cs
  | w :: word, c :: cs => if w = c then afterWord? word cs else none
  | _ :: _, [] => none

def unit? : List Char → Option (Nat × List Char)
  | a :: b :: c :: d :: rest => do
    let a ← Reading.hexValue? a
    let b ← Reading.hexValue? b
    let c ← Reading.hexValue? c
    let d ← Reading.hexValue? d
    some (((a * 16 + b) * 16 + c) * 16 + d, rest)
  | _ => none

/-- The character of an escape by number: one unit, or two that form a surrogate pair. -/
def unicodeEscape? (cs : List Char) : Option (Char × List Char) := do
  let (u, rest) ← unit? cs
  if 0xD800 ≤ u ∧ u < 0xDC00 then
    match rest with
    | '\\' :: 'u' :: rest => do
      let (v, rest) ← unit? rest
      if 0xDC00 ≤ v ∧ v < 0xE000 then
        some (Char.ofNat (0x10000 + (u - 0xD800) * 0x400 + (v - 0xDC00)), rest)
      else none
    | _ => none
  else if 0xDC00 ≤ u ∧ u < 0xE000 then none
  else some (Char.ofNat u, rest)

def simpleEscape? (c : Char) : Option Char :=
  if c = '"' ∨ c = '\\' ∨ c = '/' then some c
  else if c = 'b' then some '\x08'
  else if c = 'f' then some '\x0c'
  else if c = 'n' then some '\n'
  else if c = 'r' then some '\r'
  else if c = 't' then some '\t'
  else none

/-- The characters of a string after its opening quote, at most `fuel` of them. -/
def stringRest? : (fuel : Nat) → (read cs : List Char) → Option (String × List Char)
  | 0, _, _ => none
  | fuel + 1, read, cs =>
    match cs with
    | '"' :: rest => some (String.ofList read.reverse, rest)
    | '\\' :: 'u' :: rest => do
      let (c, rest) ← unicodeEscape? rest
      stringRest? fuel (c :: read) rest
    | '\\' :: c :: rest => do
      let c ← simpleEscape? c
      stringRest? fuel (c :: read) rest
    | c :: rest => if c.toNat < 32 ∨ c = '\\' then none else stringRest? fuel (c :: read) rest
    | [] => none

/-- Whether digits are a whole part: at least one, and no zero before others. -/
def isWholePart (ds : List Char) : Bool :=
  match ds with
  | [] => false
  | ['0'] => true
  | d :: _ => d != '0'

/-- A number whose text is `whole`, `fraction` (if there is a point) and a power of ten (if there
is one). What is too large for 64 bits is no whole number, nor is minus zero. -/
def numberValue (negative : Bool) (whole : List Char) (fraction : Option (List Char))
    (power : Option Int) : Json :=
  let n := Decimal.ofDigits whole
  match fraction, power with
  | none, none =>
    if negative then
      if 0 < n ∧ n ≤ 9223372036854775808 then .int (-n) else .float (-(Decimal.mk n 0).toFloat)
    else if n < Word.size64 then .int n
    else .float (Decimal.mk n 0).toFloat
  | fraction, power =>
    let fraction := fraction.getD []
    .float (Binary64.withSign negative
      (Decimal.mk (Decimal.ofDigits (whole ++ fraction)) (power.getD 0 - fraction.length)).toFloat)

def number? (cs : List Char) : Option (Json × List Char) := do
  let (negative, cs) := match cs with
    | '-' :: rest => (true, rest)
    | cs => (false, cs)
  let (whole, cs) := Reading.digits cs
  if !isWholePart whole then none
  else
    let (fraction, cs) := match cs with
      | '.' :: rest =>
        let (ds, rest) := Reading.digits rest
        (some ds, rest)
      | cs => (none, cs)
    if fraction == some [] then none
    else
      match cs with
      | c :: rest =>
        if c = 'e' ∨ c = 'E' then
          let (minus, rest) := Reading.sign rest
          let (ds, rest) := Reading.digits rest
          if ds.isEmpty then none
          else
            let n : Int := Decimal.ofDigits ds
            some (numberValue negative whole fraction (some (if minus then -n else n)), rest)
        else some (numberValue negative whole fraction none, cs)
      | [] => some (numberValue negative whole fraction none, [])

mutual

def value? : (fuel : Nat) → List Char → Option (Json × List Char)
  | 0, _ => none
  | fuel + 1, cs =>
    match cs with
    | '"' :: rest => (stringRest? (rest.length + 1) [] rest).map fun (s, rest) => (.text s, rest)
    | '[' :: rest =>
      match skipSpace rest with
      | ']' :: rest => some (.array [], rest)
      | rest => (items? fuel [] rest).map fun (items, rest) => (.array items, rest)
    | '{' :: rest =>
      match skipSpace rest with
      | '}' :: rest => some (.object [], rest)
      | rest => (fields? fuel [] rest).map fun (fields, rest) => (.object fields, rest)
    | 'n' :: _ => (afterWord? "null".toList cs).map fun rest => (.null, rest)
    | 't' :: _ => (afterWord? "true".toList cs).map fun rest => (.bool true, rest)
    | 'f' :: _ => (afterWord? "false".toList cs).map fun rest => (.bool false, rest)
    | cs => number? cs

/-- The items of an array up to its closing bracket, put behind those already read. -/
def items? : (fuel : Nat) → (read : List Json) → List Char → Option (List Json × List Char)
  | 0, _, _ => none
  | fuel + 1, read, cs => do
    let (item, rest) ← value? fuel cs
    match skipSpace rest with
    | ',' :: rest => items? fuel (item :: read) (skipSpace rest)
    | ']' :: rest => some ((item :: read).reverse, rest)
    | _ => none

/-- The fields of an object up to its closing brace, put behind those already read. -/
def fields? : (fuel : Nat) → (read : List (String × Json)) → List Char →
    Option (List (String × Json) × List Char)
  | 0, _, _ => none
  | fuel + 1, read, cs => do
    let '"' :: rest := cs | none
    let (key, rest) ← stringRest? (rest.length + 1) [] rest
    let ':' :: rest := skipSpace rest | none
    let (item, rest) ← value? fuel (skipSpace rest)
    match skipSpace rest with
    | ',' :: rest => fields? fuel ((key, item) :: read) (skipSpace rest)
    | '}' :: rest => some (((key, item) :: read).reverse, rest)
    | _ => none

end

/-- The value that a text writes. Two steps for each character are enough. -/
def read? (s : String) : Option Json :=
  let cs := s.toList
  match value? (2 * cs.length + 2) (skipSpace cs) with
  | some (v, rest) => if (skipSpace rest).isEmpty then some v else none
  | none => none

end Json

end RoadAudit
