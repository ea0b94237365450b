import RoadAudit.Geo.Point
import RoadAudit.Numeric.Word
import Std.Data.HashMap

/-! # Barriers and the places of their nodes

The `barrier` values that stand for something a walker cannot cross, and the places of the nodes
that such ways are made of. A place is kept in one 64-bit word: latitude and longitude in whole
1e-7 degrees, 32 bits each. A word of ones stands for a node whose place has not been seen. -/

namespace RoadAudit

open scoped Scalar

def barrierValues : List String :=
  ["fence", "wall", "embankment", "hedge", "guard_rail", "handrail", "ditch", "retaining_wall"]

def isBarrier : Option String → Bool
  | none => false
  | some value => barrierValues.contains value

namespace Location

variable {α : Type} [Scalar α]

/-- The word of a place that has not been seen. -/
def unseen : UInt64 := 0xFFFFFFFFFFFFFFFF

/-- A coordinate in whole 1e-7 degrees. -/
def units (x : α) : Int := Word.cut (Scalar.nearestInt (x * 10000000))

/-- The word of a place: longitude in the high half, latitude in the low half. -/
def pack (p : Point α) : UInt64 :=
  UInt64.ofNat (Word.toBits (units p.lon) * Word.size32 + Word.toBits (units p.lat))

def unpack (w : UInt64) : Point α :=
  ⟨Scalar.ofInt (Word.ofBits (w.toNat % Word.size32)) / 10000000,
    Scalar.ofInt (Word.ofBits (w.toNat / Word.size32)) / 10000000⟩

end Location

/-- The places of the nodes that have been asked for. -/
structure LocationIndex where
  words : Std.HashMap UInt64 UInt64

namespace LocationIndex

variable {α : Type} [Scalar α]

def empty : LocationIndex := ⟨Std.HashMap.emptyWithCapacity⟩

/-- The index that also keeps the place of a node; a place already seen is kept. -/
def ask (x : LocationIndex) (osmId : UInt64) : LocationIndex :=
  ⟨x.words.insertIfNew osmId Location.unseen⟩

def isAsked (x : LocationIndex) (osmId : UInt64) : Bool := x.words.contains osmId

/-- The index after a node has been seen at a place; nodes not asked for are ignored. -/
def see (x : LocationIndex) (osmId : UInt64) (p : Point α) : LocationIndex :=
  if x.words.contains osmId then ⟨x.words.insert osmId (Location.pack p)⟩ else x

def place? (x : LocationIndex) (osmId : UInt64) : Option (Point α) :=
  match x.words[osmId]? with
  | some w => if w = Location.unseen then none else some (Location.unpack w)
  | none => none

def size (x : LocationIndex) : Nat := x.words.size

end LocationIndex

end RoadAudit
