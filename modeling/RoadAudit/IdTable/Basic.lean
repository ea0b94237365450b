import RoadAudit.Numeric.BigEndian

/-! # Id tables

The ids that nodes and ways of the graph have in the map data. A table is filled in ascending
order of graph ids and has one 64-bit word for each: for a node the map id in the low 56 bits and
the no-exit mark in the highest, for a way the whole map id. A word of ones stands for a graph id
without a record. -/

namespace RoadAudit

/-- What the words of a table hold. -/
inductive IdLayout where
  /-- Node ids of 56 bits with a no-exit mark. -/
  | nodes
  /-- Way ids of 64 bits. -/
  | ways
deriving DecidableEq, Repr

/-- Why an id table refuses a record or a file. -/
inductive IdTableError where
  | idOutOfRange (id : Nat) (osmId : UInt64)
  | outOfOrder (id last : Nat)
  | badMagic
  | unknownLayout
  | wrongEntryCount
  | unexpectedEnd
  | notFound
deriving DecidableEq, Repr

/-- The text of an error; of a damaged file it is what is wrong with it. -/
def IdTableError.message : IdTableError → String
  | idOutOfRange id osmId =>
    "OSM id " ++ toString osmId.toNat ++ " of node " ++ toString id
      ++ " exceeds the 56 bit range of the id store"
  | outOfOrder id last =>
    "Records must be added in non-decreasing order: got " ++ toString id ++ " after "
      ++ toString last
  | badMagic => "bad magic"
  | unknownLayout => "unknown layout"
  | wrongEntryCount => "entry count does not match file size"
  | unexpectedEnd => "UnexpectedEof"
  | notFound => "NotFound"

structure IdTable where
  layout : IdLayout
  words : Array UInt64
deriving DecidableEq, Repr

namespace IdTable

/-- The word of a graph id without a record. -/
def vacant : UInt64 := 0xFFFFFFFFFFFFFFFF

def idMask : UInt64 := 0x00FFFFFFFFFFFFFF

def noExitBit : UInt64 := 0x8000000000000000

def empty (layout : IdLayout) : IdTable := ⟨layout, #[]⟩

/-- The number of words: one more than the highest graph id with a record. -/
def size (t : IdTable) : Nat := t.words.size

def fits : IdLayout → UInt64 → Bool
  | .nodes, osmId => osmId ≤ idMask
  | .ways, osmId => osmId != vacant

/-- The word of a record; way records have no mark. -/
def encodeRecord (layout : IdLayout) (osmId : UInt64) (noExit : Bool) : UInt64 :=
  match layout with
  | .nodes => if noExit then (osmId &&& idMask) ||| noExitBit else osmId &&& idMask
  | .ways => osmId

def idOf? (layout : IdLayout) (word : UInt64) : Option UInt64 :=
  if word = vacant then none
  else
    match layout with
    | .nodes => some (word &&& idMask)
    | .ways => some word

def noExitOf (layout : IdLayout) (word : UInt64) : Bool :=
  word != vacant && layout == .nodes && word &&& noExitBit != 0

/-- The words with the one at `i` replaced; words between the last and `i` stay vacant. -/
def writeWord (words : Array UInt64) (i : Nat) (word : UInt64) : Array UInt64 :=
  (words ++ Array.replicate (i + 1 - words.size) vacant).setIfInBounds i word

/-- The table with one more record. A record may replace the last one but none before it. -/
def add (t : IdTable) (id : Nat) (osmId : UInt64) (noExit : Bool) : Except IdTableError IdTable :=
  if id + 1 < t.size then .error (.outOfOrder id (t.size - 1))
  else if fits t.layout osmId then
    .ok { t with words := writeWord t.words id (encodeRecord t.layout osmId noExit) }
  else .error (.idOutOfRange id osmId)

def word (t : IdTable) (id : Nat) : UInt64 := (t.words[id]?).getD vacant

def osmId? (t : IdTable) (id : Nat) : Option UInt64 := idOf? t.layout (t.word id)

def noExit (t : IdTable) (id : Nat) : Bool := noExitOf t.layout (t.word id)

theorem size_writeWord (words : Array UInt64) (i : Nat) (w : UInt64) :
    (writeWord words i w).size = max words.size (i + 1) := by
  simp [writeWord]; omega

end IdTable

end RoadAudit
