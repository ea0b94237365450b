import RoadAudit.Numeric.Reading
import RoadAudit.Numeric.Word
import RoadAudit.Text.Blank

/-! # Levels

The range of storeys that a way lies on. A `level` value lists numbers; the range they span is
kept if it covers at most two neighbouring levels of those that can be encoded. Ranges are computed
in words of 32 bits, and where one of the sums has no room there, the computation ends. -/

namespace RoadAudit

/-- The levels from `low` to `low + span`. An invalid range says nothing about where a way is. -/
structure LevelRange where
  low : Int
  span : Int
  valid : Bool
deriving DecidableEq, Repr

/-- The sum that has no room in a word of 32 bits, where a range cannot be computed. -/
inductive LevelOverflow where
  /-- The level above the least one. -/
  | next
  /-- The greatest level less the least one. -/
  | span
deriving DecidableEq, Repr

namespace LevelRange

def lowest : Int := -7

/-- The greatest level that can be encoded: one code of sixteen is kept for invalid ranges. -/
def highest : Int := 7

def ground : LevelRange := ⟨0, 0, true⟩

def invalid : LevelRange := ⟨0, 0, false⟩

def high (r : LevelRange) : Int := r.low + r.span

def overlaps (r s : LevelRange) : Bool := !(s.low > r.high || s.high < r.low)

/-- A number as a level: its fraction dropped, cut to 32 bits. -/
def ofNumber (x : Float) : Int := Word.cut (Binary64.truncate x)

/-- The level that one part of a `level` value names. -/
def part? (cs : List Char) : Option Int := (readFloat? (trimBlanks cs)).map ofNumber

/-- The levels named by the parts of a value between semicolons, if every part names one. -/
def levels? (value : String) : Option (List Int) := (partsAt ';' value.toList).mapM part?

/-- The least and the greatest of some levels; the greatest word and the least word for none. -/
def extremes (levels : List Int) : Int × Int :=
  levels.foldl (fun s v => (min s.1 v, max s.2 v)) (Word.greatest, Word.least)

def between (least greatest : Int) : LevelRange :=
  if greatest > least + 1 ∨ greatest > highest ∨ least < lowest then invalid
  else ⟨least, greatest - least, true⟩

/-- The range from `least` to `greatest` in words of 32 bits. The level above the least one is always
computed, and the span only of a range that is kept. -/
def betweenInWords (least greatest : Int) : Except LevelOverflow LevelRange := do
  let next ← Word.checked .next (least + 1)
  if greatest > next ∨ greatest > highest ∨ least < lowest then return invalid
  let span ← Word.checked .span (greatest - least)
  return ⟨least, span, true⟩

def parse (value : Option String) : LevelRange :=
  match value with
  | none => ground
  | some value =>
    if value.isEmpty then ground
    else
      match levels? value with
      | none => invalid
      | some levels => between (extremes levels).1 (extremes levels).2

/-- The range of a `level` value in words of 32 bits. -/
def parseInWords (value : Option String) : Except LevelOverflow LevelRange :=
  match value with
  | none => .ok ground
  | some value =>
    if value.isEmpty then .ok ground
    else
      match levels? value with
      | none => .ok invalid
      | some levels => betweenInWords (extremes levels).1 (extremes levels).2

/-- The sum for which the range of a `level` value cannot be computed, if there is one. -/
def overflow? (value : Option String) : Option LevelOverflow :=
  match parseInWords value with
  | .error sum => some sum
  | .ok _ => none

end LevelRange

end RoadAudit
