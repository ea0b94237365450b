import RoadAudit.Feature.Basic
import RoadAudit.IdTable.Basic
import RoadAudit.Subnetwork.Component

/-! # Removing small subnetworks

Small parts of the network that hang on nothing else are reported in a file of their own and
hidden from the audit. The largest part always stays. -/

namespace RoadAudit

/-- What is to be removed from a graph. -/
structure RemovalPlan where
  subnetworks : Nat
  removedSubnetworks : Nat
  removedNodes : List Nat
  removedEdges : List Nat
deriving DecidableEq, Repr

/-- Why subnetworks are not removed. -/
inductive RemovalError where
  /-- More than half of the edges would go. -/
  | tooManyRemoved (removed total : Nat)
  | sinkRefused (reason : String)
deriving DecidableEq, Repr

def RemovalError.message : RemovalError → String
  | tooManyRemoved removed total =>
    "Removing small subnetworks would drop " ++ toString removed ++ " of " ++ toString total
      ++ " edges; the input is probably broken"
  | sinkRefused reason => "Failed to write removed subnetworks: " ++ reason

namespace RemovalPlan

def largest (sizes : List Nat) : Nat :=
  (sizes.zipIdx.foldl (fun best s => if best.1 < s.1 then s else best) (0, 0)).2

def goes (sizes : List Nat) (minSize place : Nat) : Bool :=
  place != largest sizes && (sizes[place]?).any (· < minSize)

variable {α : Type}

/-- The plan that removes all components of fewer than `minSize` nodes but the largest. -/
def make (g : RoadGraph α) (minSize : Nat) : Except RemovalError RemovalPlan :=
  let l := Labelling.ofGraph g
  if minSize = 0 ∨ l.sizes = [] then .ok ⟨l.sizes.length, 0, [], []⟩
  else
    let isRemoved (v : Nat) : Bool := (l.component? v).any (goes l.sizes minSize)
    let edges := (g.views.filter fun v => isRemoved v.edge.base).map EdgeView.id
    let plan : RemovalPlan :=
      { subnetworks := l.sizes.length
        removedSubnetworks := ((List.range l.sizes.length).filter (goes l.sizes minSize)).length
        removedNodes := (List.range g.nodeCount).filter isRemoved
        removedEdges := edges }
    if g.edgeCount < 2 * edges.length then .error (.tooManyRemoved edges.length g.edgeCount)
    else .ok plan

end RemovalPlan

/-- An edge as it is listed at the node where it starts. -/
def RoadGraph.listed? {α : Type} (g : RoadGraph α) (id : Nat) : Option (EdgeView α) := do
  let v ← g.view? id
  (g.edgesOf v.base).find? fun w => w.id == id

/-- The features of some edges, in their order. One that is not listed is passed over. -/
def islandFeatures (g : RoadGraph Float) (wayIds : IdTable) (edges : List Nat) : List Feature :=
  edges.filterMap fun id =>
    (g.listed? id).map fun v => Feature.ofIsland (g.geometry v) (wayIds.osmId? id)

/-- The graph without its small subnetworks, and what the sink holds after their edges have been
written to it. Where the plan fails or the sink refuses a feature, the graph stays as it is. -/
def removeSmallSubnetworks {σ : Type} (g : RoadGraph Float) (wayIds : IdTable) (minSize : Nat)
    (sink : FeatureSink σ) (held : σ) :
    σ × RoadGraph Float × Except RemovalError RemovalPlan :=
  match RemovalPlan.make g minSize with
  | .error e => (held, g, .error e)
  | .ok plan =>
    match sink.writeAll (islandFeatures g wayIds plan.removedEdges) held with
    | (held, some reason) => (held, g, .error (.sinkRefused reason))
    | (held, none) => (held, plan.removedNodes.foldl RoadGraph.markRemoved g, .ok plan)

end RoadAudit
