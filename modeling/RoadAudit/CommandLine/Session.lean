import RoadAudit.Audit.Overrides
import RoadAudit.Batch.Audit
import RoadAudit.CommandLine.Arguments
import RoadAudit.Feature.File
import RoadAudit.Network.Store
import RoadAudit.Subnetwork.Removal

/-! # Sessions

One run of the program on what is found at the paths it has been given. The network is obtained,
its small subnetworks are written to one file and removed, and the findings of the audit are
written to another. A step that fails ends the run; what has been written before stays. -/

namespace RoadAudit

/-- What there is at the paths of a run. -/
structure Workspace where
  extract : Extract
  storage : Place (List UInt8)
  output : Place String
  /-- The text of the file with the priority overrides, if it can be read. -/
  overrides : Option String

/-- Why a run fails. -/
inductive Failure where
  | badRadius (radius : Float)
  | badOverrides (path : String)
  | outputBlocked (path : String)
  /-- The range of a level has no room in a word. -/
  | aborted (sum : LevelOverflow)
  | noNetwork (cause : NetworkError)
  | notCreated (name : String)
  | notFinished (name : String)
  | notRemoved (cause : RemovalError)
  | notAudited (cause : RunError (NodeError Float))
  /-- A report of how far the audit has got has no room in a word. -/
  | overran (report : ReportOverflow)

def Failure.message : Failure → String
  | badRadius radius => "Search radius must be positive, got " ++ plainText radius
  | badOverrides path => "Failed to load priority overrides from " ++ path
  | outputBlocked path => "Cannot create output directory " ++ path
  | aborted .next => Word.overflowText
  | aborted .span => "attempt to subtract with overflow"
  | noNetwork _ => "Failed to import the road network"
  | notCreated name => "Cannot create " ++ name
  | notFinished name => "Failed to finish " ++ name
  | notRemoved cause => cause.message
  | notAudited cause => cause.message NodeError.message
  | overran _ => Word.overflowText

/-- A computation that changes the workspace and may fail; a failure keeps the changes. -/
abbrev Session := ExceptT Failure (StateM Workspace)

namespace Session

def islandFile : String := "subnetworks_all_roads.json"

def findingFile : String := "unconnected_ways.json"

/-- The settings that some options give. The radius must be positive. -/
def settings (o : Options) : Session (Settings Float) := do
  unless 0 < o.radius do throw (.badRadius o.radius)
  let rows ← match o.priorities with
    | none => pure []
    | some path =>
      match (← get).overrides.bind Overrides.read? with
      | some rows => pure rows
      | none => throw (.badOverrides path)
  let standard : Settings Float := default
  return { standard with
    radius := o.radius
    doRouting := o.doRouting
    workers := o.workers
    batchSize := o.batchSize
    minNetworkSize := o.minNetworkSize
    priorities := standard.priorities.override rows }

def setOutput (f : Folder String) : Session Unit := modify fun w => { w with output := .folder f }

def openOutput (o : Options) : Session Unit := do
  match (← get).output.open? with
  | some f => setOutput f
  | none => throw (.outputBlocked o.output)

def network : Session RoadNetwork := do
  let w ← get
  unless RoadNetwork.isStored w.storage.contents do
    if let some sum := Import.overflow? w.extract then throw (.aborted sum)
  let (storage, result) := RoadNetwork.obtain w.extract w.storage
  set { w with storage := storage }
  match result with
  | .ok n => return n
  | .error e => throw (.noNetwork e)

def create (name : String) : Session FeatureFile := do
  match FeatureFile.create (← get).output.contents name with
  | .ok file =>
    setOutput file.folder
    return file
  | .error _ => throw (.notCreated name)

def finish (file : FeatureFile) : Session Unit := do
  let (folder, placed) := file.finish
  setOutput folder
  unless placed do throw (.notFinished file.name)

def giveUp {β : Type} (file : FeatureFile) (e : Failure) : Session β := do
  setOutput file.drop
  throw e

def removeIslands (s : Settings Float) (n : RoadNetwork) : Session (RoadGraph Float) := do
  let file ← create islandFile
  let (file, graph, plan) :=
    removeSmallSubnetworks n.graph n.wayIds s.minNetworkSize FeatureFile.featureSink file
  match plan with
  | .ok _ =>
    finish file
    return graph
  | .error e => giveUp file (.notRemoved e)

def writeFindings (ctx : AuditContext Float) : Session RunSummary := do
  let file ← create findingFile
  match ctx.audit FeatureFile.findingSink file with
  | .ok (file, .ok summary) =>
    finish file
    return summary
  | .ok (file, .error e) => giveUp file (.notAudited e)
  | .error report => giveUp file (.overran report)

def run (o : Options) : Session RunSummary := do
  let s ← settings o
  openOutput o
  let n ← network
  let graph ← removeIslands s n
  writeFindings ⟨graph, n.nodeIds, n.wayIds, n.barriers, s⟩

end Session

/-- How a run of the program ends. -/
inductive ExitStatus where
  | success
  | failure
  | badArguments
  | aborted
deriving DecidableEq, Repr

def ExitStatus.code : ExitStatus → Nat
  | success => 0
  | failure => 1
  | badArguments => 2
  | aborted => 101

def Failure.exitStatus : Failure → ExitStatus
  | aborted _ | overran _ => .aborted
  | _ => .failure

def ArgumentStop.exitStatus : ArgumentStop → ExitStatus
  | help | version => .success
  | invalid => .badArguments

/-- The workspace after a run, and how it has ended. -/
def Options.run (o : Options) (w : Workspace) : Workspace × Except Failure RunSummary :=
  let (result, w) := StateT.run (ExceptT.run (Session.run o)) w
  (w, result)

end RoadAudit
