import RoadAudit.Road.Class
import RoadAudit.Numeric.Scalar
import RoadAudit.Numeric.Word

/-! # Priorities

How important it is to look at a dead end that nearly touches another road: a number from 1, the
most important, to 6, by the class of the road and by how wide the gap is. The search radius is
split into four buckets of equal width, and every class has a row of four numbers, one for each;
a number of zero or less means that such a gap is never reported. -/

namespace RoadAudit

open scoped Scalar

/-- The priorities of one class in the four buckets, the nearest first. -/
abbrev PriorityRow := Vector Int 4

def PriorityRow.of (a b c d : Int) : PriorityRow := #v[a, b, c, d]

/-- The rows of the classes that have one. -/
structure PriorityTable where
  row? : RoadClass → Option PriorityRow

namespace PriorityTable

/-- The rows used unless settings say otherwise. -/
def defaultRow? : RoadClass → Option PriorityRow
  | .undefined => none
  | .motorway | .motorwayLink | .trunk | .trunkLink | .primary | .primaryLink | .secondary
  | .secondaryLink => some #v[1, 1, 1, 2]
  | .tertiary | .tertiaryLink | .unclassified | .residential => some #v[2, 2, 3, 3]
  | .livingStreet => some #v[2, 3, 3, 4]
  | .track => some #v[2, 2, 3, 4]
  | .pedestrian => some #v[3, 4, 4, 5]
  | .footway | .cycleway | .path => some #v[4, 5, 5, 5]
  | .steps => some #v[5, 5, 5, 5]
  | .service => some #v[3, 4, 4, 4]
  | .serviceAlley => some #v[3, 4, 4, 5]
  | .serviceDriveway | .serviceParkingAisle => some #v[4, 4, 5, 5]
  | .road => some #v[3, 3, 4, 4]
  | .raceway => some #v[2, 2, 2, 3]
  | .ferry => some #v[2, 3, 3, 3]
  | .platform => some #v[4, 5, 5, 6]

instance : Inhabited PriorityTable := ⟨⟨defaultRow?⟩⟩

def ofRows (rows : List (RoadClass × PriorityRow)) : PriorityTable :=
  ⟨fun c => (rows.reverse.find? fun r => r.1 == c).map (·.2)⟩

def override (t : PriorityTable) (rows : List (RoadClass × PriorityRow)) : PriorityTable :=
  ⟨fun c => ((ofRows rows).row? c).or (t.row? c)⟩

def rows (t : PriorityTable) : List (RoadClass × PriorityRow) :=
  RoadClass.all.filterMap fun c => (t.row? c).map fun r => (c, r)

variable {α : Type} [Scalar α]

/-- The bucket that a gap falls into; without a width there is only the last. -/
def bucket (distance maxDistance : α) : Fin 4 :=
  let width := maxDistance / 4
  if 0 < width then ⟨min (Scalar.wholePart (distance / width)) 3, by omega⟩ else 3

/-- The number of a positive table entry for a gap: gaps below two metres, and all the more below
one, are almost certainly mistakes in the map. -/
def nearMiss (distance : α) (n : Int) : Int :=
  if distance < 1 then min 1 (n - 2) else if distance < 2 then min 1 (n - 1) else n

/-- The priority of a gap before its surroundings are looked at. A road without public access is
one less important; where the table has zero or less, so is the priority. -/
def base (t : PriorityTable) (roadClass : RoadClass) (isPrivate : Bool) (distance maxDistance : α) :
    Int :=
  let row := (t.row? roadClass).getD #v[0, 0, 0, 0]
  let n := row[bucket distance maxDistance]
  if n ≤ 0 then 0 else nearMiss distance n + if isPrivate then 1 else 0

/-- The priority of a gap before its surroundings are looked at, in words of 32 bits. There is none
where what is added for a road without public access has no room. -/
def baseInWords? (t : PriorityTable) (roadClass : RoadClass) (isPrivate : Bool)
    (distance maxDistance : α) : Option Int :=
  let row := (t.row? roadClass).getD #v[0, 0, 0, 0]
  let n := row[bucket distance maxDistance]
  if n ≤ 0 then some 0
  else if isPrivate then
    let p := nearMiss distance n + 1
    if Word.isSigned p then some p else none
  else some (nearMiss distance n)

end PriorityTable

def lowestReported : Int := 6

/-- What is added to a priority so that it is not reported. -/
def suppression : Int := 100

def isReported (priority : Int) : Bool := 0 < priority && priority ≤ lowestReported

theorem isReported_iff {priority : Int} :
    isReported priority = true ↔ 1 ≤ priority ∧ priority ≤ 6 := by
  rw [isReported, Bool.and_eq_true, decide_eq_true_eq, decide_eq_true_eq, lowestReported]
  omega

end RoadAudit
