import RoadAudit.Road.Class
import RoadAudit.Road.Level

/-! # Road attributes

What the audit needs to know of a way besides its course, packed into one 32-bit word: five bits
of road class, one of restricted access, four of level, one of level span, one of area. -/

namespace RoadAudit

/-- The packed attributes of a way. -/
structure RoadFlags where
  bits : UInt32
deriving DecidableEq, Repr, Inhabited

namespace RoadFlags

def classMask : UInt32 := 0x1F
def privateBit : UInt32 := 0x20
def levelShift : UInt32 := 6
def levelMask : UInt32 := 0x3C0
def spanBit : UInt32 := 0x400
def areaBit : UInt32 := 0x800

def invalidLevel : UInt32 := 15

def flag (b : Bool) (bit : UInt32) : UInt32 := if b then bit else 0

/-- A level range in place: the code counts from the least level; of the span only whether there
is one is kept. -/
def encodeLevel (r : LevelRange) : UInt32 :=
  if r.valid then
    let low := min (max r.low LevelRange.lowest) LevelRange.highest
    ((low - LevelRange.lowest).toNat.toUInt32 <<< levelShift) ||| flag (r.span > 0) spanBit
  else invalidLevel <<< levelShift

def pack (roadClass : RoadClass) (isPrivate : Bool) (level : LevelRange) (isArea : Bool) :
    RoadFlags :=
  ⟨roadClass.code.toUInt32 ||| flag isPrivate privateBit ||| encodeLevel level
    ||| flag isArea areaBit⟩

def roadClass (f : RoadFlags) : RoadClass := RoadClass.ofCode (f.bits &&& classMask).toNat

def isPrivate (f : RoadFlags) : Bool := f.bits &&& privateBit != 0

def level (f : RoadFlags) : LevelRange :=
  let code := (f.bits &&& levelMask) >>> levelShift
  if code = invalidLevel then LevelRange.invalid
  else ⟨(code.toNat : Int) + LevelRange.lowest, if f.bits &&& spanBit != 0 then 1 else 0, true⟩

def isArea (f : RoadFlags) : Bool := f.bits &&& areaBit != 0

def ofTags (tag : String → Option String) : RoadFlags :=
  let access := tag "access"
  pack (RoadClass.ofTags tag) (access = some "private" ∨ access = some "no")
    (LevelRange.parse (tag "level")) (tag "area" = some "yes")

end RoadFlags

end RoadAudit
