import RoadAudit.Audit.Priority
import RoadAudit.Numeric.Reading
import RoadAudit.Numeric.Word
import RoadAudit.Text.Blank

/-! # Priority overrides

The text form of rows that replace those of the priority table: a map in braces from class names
to four whole numbers in round brackets. Comments and blanks may stand between tokens, a comma may
follow the last entry and the last number, and a line that enables extensions may come first. -/

namespace RoadAudit

namespace Overrides

/-- A word is a name or a number; a raw word is a name after `r#`. -/
inductive Token where
  | word (w : String)
  | raw (w : String)
  | mark (c : Char)
deriving DecidableEq, Repr

def isWordChar (c : Char) : Bool :=
  c.isAlphanum || c == '_' || c == '+' || c == '-' || c == '.'

/-- The text after a block comment that is open `depth + 1` times. -/
def afterBlock? : (depth : Nat) → List Char → Option (List Char)
  | _, [] => none
  | depth, '/' :: '*' :: rest => afterBlock? (depth + 1) rest
  | 0, '*' :: '/' :: rest => some rest
  | depth + 1, '*' :: '/' :: rest => afterBlock? depth rest
  | depth, _ :: rest => afterBlock? depth rest

/-- The tokens of a text; each step takes at least one character. -/
def tokens? : (fuel : Nat) → List Char → Option (List Token)
  | 0, cs => if cs.isEmpty then some [] else none
  | fuel + 1, cs =>
    match cs with
    | [] => some []
    | '/' :: '/' :: rest => tokens? fuel (rest.dropWhile (· != '\n'))
    | '/' :: '*' :: rest => afterBlock? 0 rest >>= tokens? fuel
    | 'r' :: '#' :: c :: rest =>
      if isWordChar c then
        (tokens? fuel (rest.dropWhile isWordChar)).map
          (.raw (String.ofList (c :: rest.takeWhile isWordChar)) :: ·)
      else none
    | c :: rest =>
      if isPatternBlank c then tokens? fuel rest
      else if isWordChar c then
        (tokens? fuel (rest.dropWhile isWordChar)).map
          (.word (String.ofList (c :: rest.takeWhile isWordChar)) :: ·)
      else (tokens? fuel rest).map (.mark c :: ·)

/-- The number that digits of a base write, with underscores after the first digit. -/
def digits? (base : Nat) (cs : List Char) : Option Nat :=
  match cs with
  | [] | '_' :: _ => none
  | cs =>
    (cs.filter (· != '_')).foldlM
      (fun n c => do
        let d ← Reading.hexValue? c
        if d < base then some (base * n + d) else none)
      0

/-- A whole number without its sign, in base ten or in the base that follows a zero. -/
def magnitude? : List Char → Option Nat
  | '0' :: 'x' :: rest => digits? 16 rest
  | '0' :: 'b' :: rest => digits? 2 rest
  | '0' :: 'o' :: rest => digits? 8 rest
  | cs => digits? 10 cs

def int? (w : String) : Option Int := do
  let n : Int ← match w.toList with
    | '-' :: rest => (magnitude? rest).map fun n => -(n : Int)
    | '+' :: rest => (magnitude? rest).map fun n => (n : Int)
    | cs => (magnitude? cs).map fun n => (n : Int)
  if Word.isSigned n then some n else none

def row? : List Token → Option (PriorityRow × List Token)
  | .mark '(' :: .word a :: .mark ',' :: .word b :: .mark ',' :: .word c :: .mark ',' :: .word d
      :: rest => do
    let row := PriorityRow.of (← int? a) (← int? b) (← int? c) (← int? d)
    match rest with
    | .mark ')' :: rest => some (row, rest)
    | .mark ',' :: .mark ')' :: rest => some (row, rest)
    | _ => none
  | _ => none

def entries? : (fuel : Nat) → List Token → Option (List (RoadClass × PriorityRow))
  | 0, _ => none
  | fuel + 1, ts => do
    match ts with
    | [.mark '\x7d'] => some []
    | key :: .mark ':' :: rest =>
      let name ← match key with
        | .word w | .raw w => some w
        | .mark _ => none
      let c ← RoadClass.ofName? name
      let (row, rest) ← row? rest
      match rest with
      | [.mark '\x7d'] => some [(c, row)]
      | .mark ',' :: rest => (entries? fuel rest).map ((c, row) :: ·)
      | _ => none
    | _ => none

def afterExtensions : List Token → List Token
  | .mark '#' :: .mark '!' :: .mark '[' :: .word "enable" :: .mark '(' :: .word "implicit_some"
      :: .mark ')' :: .mark ']' :: rest => afterExtensions rest
  | .mark '#' :: .mark '!' :: .mark '[' :: .word "enable" :: .mark '(' :: .word "implicit_some"
      :: .mark ',' :: .mark ')' :: .mark ']' :: rest => afterExtensions rest
  | ts => ts

def read? (s : String) : Option (List (RoadClass × PriorityRow)) := do
  let ts ← tokens? s.toList.length s.toList
  match afterExtensions ts with
  | .mark '\x7b' :: rest => entries? (rest.length + 1) rest
  | _ => none

end Overrides

end RoadAudit
