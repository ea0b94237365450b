import RoadAudit.Barrier.Index
import RoadAudit.Graph.Basic
import RoadAudit.Numeric.Binary64
import RoadAudit.Numeric.Word
import RoadAudit.Wire.Field

/-! # Graph snapshots

The graph and the barriers as one message: nodes, edges, the courses of the edges without their
ends, and the barriers. Values of zero are left out, and an edge names its course by number. -/

namespace RoadAudit

/-- Why a snapshot cannot be read. -/
inductive SnapshotError where
  /-- The bytes are no message of the form that is wanted. -/
  | invalidData
  /-- An edge ends at a node that is not there. -/
  | danglingEdge
deriving DecidableEq, Repr

namespace Snapshot

/-! ## Writing -/

def doubleBits (x : Float) : Nat := x.toBits.toNat

def doubleField (number : Nat) (x : Float) : List WireField :=
  if Scalar.same x 0 then [] else [(number, .fixed64 (doubleBits x))]

/-- A whole number of 32 bits, left out if it is zero. -/
def natField (number n : Nat) : List WireField :=
  if n % Word.size32 = 0 then [] else [(number, .varint (n % Word.size32))]

def boolField (number : Nat) (b : Bool) : List WireField :=
  if b then [(number, .varint 1)] else []

def messageField (number : Nat) (fields : List WireField) : WireField :=
  (number, .delimited (Wire.putFields fields))

def nodeFields (n : Node Float) : List WireField :=
  doubleField 1 n.point.lat ++ doubleField 2 n.point.lon ++ boolField 3 n.removed

def edgeFields (e : Edge Float) (course : Nat) : List WireField :=
  natField 1 e.base ++ natField 2 e.adj ++ doubleField 3 e.length ++ natField 4 e.flags.bits.toNat
    ++ natField 5 course

/-- The coordinates of a line, latitudes and longitudes in turn, packed into one field. -/
def lineFields (line : List (Point Float)) : List WireField :=
  if line.isEmpty then []
  else
    [(1, .delimited (line.flatMap fun p =>
      Wire.putFixed 8 (doubleBits p.lat) ++ Wire.putFixed 8 (doubleBits p.lon)))]

def graphFields (g : RoadGraph Float) (barriers : List (List (Point Float))) : List WireField :=
  g.nodes.toList.map (fun n => messageField 1 (nodeFields n))
    ++ g.edges.toList.zipIdx.map (fun (e, i) => messageField 2 (edgeFields e i))
    ++ g.edges.toList.map (fun e => messageField 3 (lineFields e.pillars))
    ++ barriers.map (fun line => messageField 4 (lineFields line))

def encode (g : RoadGraph Float) (barriers : List (List (Point Float))) : List UInt8 :=
  Wire.putFields (graphFields g barriers)

/-! ## Reading -/

def doubleOfBits (n : Nat) : Float := Float.ofBits (UInt64.ofNat n)

/-- An edge as it is stored, with the number of its course. -/
structure EdgeRecord where
  edge : Edge Float
  course : Nat

/-- A message as it is stored. -/
structure Message where
  nodes : List (Node Float)
  edges : List EdgeRecord
  courses : List (List Float)
  barriers : List (List Float)

/-- A node after one more field. Of a repeated field the last counts; a number that means nothing
is passed over, but a known one must have a value of the right kind. -/
def mergeNode (n : Node Float) : WireField → Option (Node Float)
  | (1, .fixed64 w) => some { n with point := { n.point with lat := doubleOfBits w } }
  | (2, .fixed64 w) => some { n with point := { n.point with lon := doubleOfBits w } }
  | (3, .varint w) => some { n with removed := w != 0 }
  | (1, _) | (2, _) | (3, _) => none
  | _ => some n

def mergeEdge (r : EdgeRecord) : WireField → Option EdgeRecord
  | (1, .varint w) => some { r with edge := { r.edge with base := w % Word.size32 } }
  | (2, .varint w) => some { r with edge := { r.edge with adj := w % Word.size32 } }
  | (3, .fixed64 w) => some { r with edge := { r.edge with length := doubleOfBits w } }
  | (4, .varint w) => some { r with edge := { r.edge with flags := ⟨UInt32.ofNat w⟩ } }
  | (5, .varint w) => some { r with course := w % Word.size32 }
  | (1, _) | (2, _) | (3, _) | (4, _) | (5, _) => none
  | _ => some r

def doubles? : (fuel : Nat) → List UInt8 → Option (List Float)
  | 0, bytes => if bytes.isEmpty then some [] else none
  | fuel + 1, bytes =>
    if bytes.isEmpty then some []
    else do
      let (w, rest) ← Wire.fixed? 8 bytes
      (doubles? fuel rest).map (doubleOfBits w :: ·)

/-- The coordinates of a line after one more field. -/
def mergeLine (coordinates : List Float) : WireField → Option (List Float)
  | (1, .fixed64 w) => some (coordinates ++ [doubleOfBits w])
  | (1, .delimited bytes) => (doubles? bytes.length bytes).map (coordinates ++ ·)
  | (1, _) => none
  | _ => some coordinates

/-- How deep groups may be nested in the outermost message; in those inside it one less. -/
def groupDepth : Nat := 99

/-- A part of the message: the fields in some bytes, merged in turn. -/
def part? {β : Type} (merge : β → WireField → Option β) (start : β) (bytes : List UInt8) :
    Option β := do
  let fields ← Wire.fields? (groupDepth - 1) bytes
  fields.foldlM merge start

def mergeMessage (m : Message) : WireField → Option Message
  | (1, .delimited bytes) => do
    let n ← part? mergeNode ⟨⟨0, 0⟩, false⟩ bytes
    some { m with nodes := n :: m.nodes }
  | (2, .delimited bytes) => do
    let e ← part? mergeEdge ⟨⟨0, 0, 0, ⟨0⟩, []⟩, 0⟩ bytes
    some { m with edges := e :: m.edges }
  | (3, .delimited bytes) => do
    let line ← part? mergeLine [] bytes
    some { m with courses := line :: m.courses }
  | (4, .delimited bytes) => do
    let line ← part? mergeLine [] bytes
    some { m with barriers := line :: m.barriers }
  | (1, _) | (2, _) | (3, _) | (4, _) => none
  | _ => some m

/-- The message in some bytes, its parts in the order in which they come. -/
def message? (bytes : List UInt8) : Option Message := do
  let fields ← Wire.fields? groupDepth bytes
  let m ← fields.foldlM mergeMessage ⟨[], [], [], []⟩
  some ⟨m.nodes.reverse, m.edges.reverse, m.courses.reverse, m.barriers.reverse⟩

def pointsOf : List Float → List (Point Float)
  | lat :: lon :: rest => ⟨lat, lon⟩ :: pointsOf rest
  | _ => []

/-- The graph of a message; an edge whose course is not there is straight. -/
def Message.graph? (m : Message) : Option (RoadGraph Float) :=
  let courses := (m.courses.map pointsOf).toArray
  RoadGraph.ofParts? m.nodes.toArray
    (m.edges.map fun r => { r.edge with pillars := (courses[r.course]?).getD [] }).toArray

def decode (bytes : List UInt8) :
    Except SnapshotError (RoadGraph Float × List (List (Point Float))) :=
  match message? bytes with
  | none => .error .invalidData
  | some m =>
    match m.graph? with
    | none => .error .danglingEdge
    | some g => .ok (g, m.barriers.map pointsOf)

end Snapshot

end RoadAudit
