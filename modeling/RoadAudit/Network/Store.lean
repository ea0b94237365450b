import RoadAudit.Files.Folder
import RoadAudit.IdTable.File
import RoadAudit.Network.Basic
import RoadAudit.Snapshot.Format

/-! # Stored networks

A network is stored in a folder of three files: the graph with the barriers, the node ids and the
way ids, written in this order. The graph is moved to its name when it is complete. A network that
is stored is not imported again. -/

namespace RoadAudit

/-- Why there is no network. -/
inductive NetworkError where
  | notImported (cause : ImportError)
  /-- The file of the graph is not there. -/
  | noSnapshot
  | badSnapshot (cause : SnapshotError)
  | badTable (cause : IdTableError)
  /-- Something is in the way of the folder or of a file in it. -/
  | blocked
deriving DecidableEq, Repr

namespace RoadNetwork

/-- A folder of files that hold bytes. -/
abbrev Storage := Folder (List UInt8)

def graphFile : String := "road_graph.pbf"

def nodeIdFile : String := "node_info.bin"

def wayIdFile : String := "way_ids.bin"

def partialGraphFile : String := graphFile ++ ".tmp"

def isStored (f : Storage) : Bool :=
  f.isFile graphFile && f.isFile nodeIdFile && f.isFile wayIdFile

/-- The folder with the files of a network. -/
def store? (f : Storage) (n : RoadNetwork) : Option Storage := do
  let f ← f.write? partialGraphFile (Snapshot.encode n.graph n.barriers.lines)
  let f ← f.rename? partialGraphFile graphFile
  let f ← f.write? nodeIdFile n.nodeIds.encode
  f.write? wayIdFile n.wayIds.encode

def loadGraph (f : Storage) : Except NetworkError (RoadGraph Float × List (List (Point Float))) :=
  match f.read? graphFile with
  | none => .error .noSnapshot
  | some bytes => (Snapshot.decode bytes).mapError .badSnapshot

def loadTable (f : Storage) (name : String) : Except NetworkError IdTable :=
  match f.read? name with
  | none => .error (.badTable .notFound)
  | some bytes => (IdTable.decode bytes).mapError .badTable

def load (f : Storage) : Except NetworkError RoadNetwork := do
  let (graph, lines) ← loadGraph f
  let nodeIds ← loadTable f nodeIdFile
  let wayIds ← loadTable f wayIdFile
  .ok ⟨graph, nodeIds, wayIds, BarrierIndex.ofLines lines⟩

/-- The network stored at a path, or else the one in an extract, which is stored there. -/
def obtain (x : Extract) (place : Place (List UInt8)) :
    Place (List UInt8) × Except NetworkError RoadNetwork :=
  if isStored place.contents then (place, load place.contents)
  else
    match ofExtract x with
    | .error e => (place, .error (.notImported e))
    | .ok n =>
      match place.open? with
      | none => (place, .error .blocked)
      | some f =>
        match store? f n with
        | none => (.folder f, .error .blocked)
        | some f => (.folder f, .ok n)

end RoadNetwork

end RoadAudit
