import RoadAudit.Numeric.Word
import RoadAudit.Osm.Object
import RoadAudit.Wire.Field

/-! # Extracts

The files that map objects come in. A file is a row of blobs, each after a header that tells its
kind and its size; data blobs hold blocks of objects, whose texts stand in a table of the block.
Blocks are read as they are: a compressed block, and a group that packs its nodes into columns,
make a file unreadable. -/

namespace RoadAudit

/-- The content of an extract as it can be read. -/
inductive Extract where
  /-- There is no such file. -/
  | missing
  /-- The file cannot be read to its end. -/
  | broken
  | objects (objects : List OsmObject)

namespace Extract

/-! ## Fields -/

def valuesOf (number : Nat) (fields : List WireField) : List WireValue :=
  (fields.filter fun f => f.1 == number).map (·.2)

def parts? (number : Nat) (fields : List WireField) : Option (List (List UInt8)) :=
  (valuesOf number fields).mapM fun
    | .delimited bytes => some bytes
    | _ => none

/-- The last number in the fields of a number, if there is one; they must be single numbers. -/
def single? (number : Nat) (fields : List WireField) : Option (Option Nat) := do
  let values ← (valuesOf number fields).mapM fun
    | .varint n => some n
    | _ => none
  some values.getLast?

def packed? : (fuel : Nat) → List UInt8 → Option (List Nat)
  | 0, bytes => if bytes.isEmpty then some [] else none
  | fuel + 1, bytes =>
    if bytes.isEmpty then some []
    else do
      let (n, rest) ← Wire.varint? bytes
      (packed? fuel rest).map (n :: ·)

/-- The numbers in all fields of a number, packed or not. -/
def numbers? (number : Nat) (fields : List WireField) : Option (List Nat) := do
  let rows ← (valuesOf number fields).mapM fun
    | .varint n => some [n]
    | .delimited bytes => packed? bytes.length bytes
    | _ => none
  some rows.flatten

def signed (n : Nat) : Int := Int.bmod n Word.size64

def zigzag (n : Nat) : Int := if n % 2 = 0 then n / 2 else -((n / 2 : Nat) + 1)

def runningSums (start : Int) : List Int → List Int
  | [] => []
  | d :: rest => (start + d) :: runningSums (start + d) rest

def textOf (bytes : List UInt8) : String := (String.fromUTF8? ⟨bytes.toArray⟩).getD "\uFFFD"

/-! ## Blocks -/

/-- How deep groups of fields may be nested. -/
def groupDepth : Nat := 99

def fields? (bytes : List UInt8) : Option (List WireField) := Wire.fields? groupDepth bytes

/-- What the objects of a block have in common: their texts, and how coordinates are stored. -/
structure Frame where
  texts : Array String
  granularity : Int
  latOffset : Int
  lonOffset : Int

/-- A stored coordinate in 1e-7 degrees. -/
def Frame.units (f : Frame) (offset stored : Int) : Int :=
  Word.ofBits (Word.toBits (Int.tdiv (offset + f.granularity * stored) 100))

/-- The tags with the given places of keys and values in the table. -/
def Frame.tags? (f : Frame) (fields : List WireField) : Option Tags := do
  let keys ← numbers? 2 fields
  let values ← numbers? 3 fields
  let entries ← (keys.zip values).mapM fun (k, v) => do some (← f.texts[k]?, ← f.texts[v]?)
  some ⟨entries⟩

def Frame.node? (f : Frame) (bytes : List UInt8) : Option OsmObject := do
  let fields ← fields? bytes
  let id ← (← single? 1 fields).map zigzag
  let lat ← (← single? 8 fields).map zigzag
  let lon ← (← single? 9 fields).map zigzag
  some (.node ⟨Int64.ofInt id, f.units f.latOffset lat, f.units f.lonOffset lon, ← f.tags? fields⟩)

def Frame.way? (f : Frame) (bytes : List UInt8) : Option OsmObject := do
  let fields ← fields? bytes
  let id ← (← single? 1 fields).map signed
  let refs ← numbers? 8 fields
  some (.way ⟨Int64.ofInt id, (runningSums 0 (refs.map zigzag)).map Int64.ofInt, ← f.tags? fields⟩)

def relation? (bytes : List UInt8) : Option OsmObject := do
  let _ ← (← single? 1 (← fields? bytes))
  some .relation

/-- The objects of a group: nodes, ways and relations in this order. -/
def Frame.group? (f : Frame) (bytes : List UInt8) : Option (List OsmObject) := do
  let fields ← fields? bytes
  if !(valuesOf 2 fields).isEmpty then none
  else
    let nodes ← (← parts? 1 fields).mapM f.node?
    let ways ← (← parts? 3 fields).mapM f.way?
    let relations ← (← parts? 4 fields).mapM relation?
    some (nodes ++ ways ++ relations)

def block? (bytes : List UInt8) : Option (List OsmObject) := do
  let fields ← fields? bytes
  let table ← (← parts? 1 fields).getLast?
  let texts ← parts? 1 (← fields? table)
  let frame : Frame :=
    { texts := (texts.map textOf).toArray
      granularity := ((← single? 17 fields).map signed).getD 100
      latOffset := ((← single? 19 fields).map signed).getD 0
      lonOffset := ((← single? 20 fields).map signed).getD 0 }
  let groups ← (← parts? 2 fields).mapM frame.group?
  some groups.flatten

/-! ## Blobs -/

/-- The kind of a blob and its size in bytes. -/
structure BlobHeader where
  kind : List UInt8
  size : Nat

def header? (bytes : List UInt8) : Option BlobHeader := do
  let fields ← fields? bytes
  let kind ← (← parts? 1 fields).getLast?
  some ⟨kind, ← (← single? 3 fields)⟩

def blob? (bytes : List UInt8) : Option (List UInt8) := do
  (← parts? 1 (← fields? bytes)).getLast?

/-- The objects of a file. Fewer than four bytes are its end; where bytes are missing a part is
read as far as it goes. -/
def objects? : (fuel : Nat) → List UInt8 → Option (List OsmObject)
  | 0, _ => none
  | fuel + 1, bytes =>
    match takeBytes? 4 bytes with
    | none => some []
    | some (size, rest) => do
      let n := ofBigEndian size
      let header ← header? (rest.take n)
      let body := (rest.drop n).take header.size
      let more ← objects? fuel ((rest.drop n).drop header.size)
      if header.kind = "OSMData".toUTF8.toList then
        let found ← block? (← blob? body)
        some (found ++ more)
      else do
        let _ ← fields? body
        some more

/-- The extract in the bytes of a file; every blob takes at least four of them. -/
def ofBytes (bytes : List UInt8) : Extract :=
  match objects? (bytes.length + 1) bytes with
  | some found => .objects found
  | none => .broken

end Extract

end RoadAudit
