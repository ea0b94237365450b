import RoadAudit.Graph.Nearest
import RoadAudit.Numeric.Shortest

/-! # Findings

What an audit reports: dead ends that nearly touch another road, and edges that are in the map
twice. -/

namespace RoadAudit

/-- A dead end that should very likely be connected to a road nearby. -/
structure MissingConnection (α : Type) where
  openEnd : Point α
  snapPoint : Point α
  /-- The width of the gap in metres. -/
  distance : α
  nodeId : Nat
  osmId : UInt64
  position : MatchPosition
  roadClass : RoadClass
  isPrivate : Bool
  priority : Int

/-- Two edges between the same nodes with the same course. -/
structure DuplicatedEdge (α : Type) where
  geometry : List (Point α)
  firstWay : Option UInt64
  secondWay : Option UInt64
  /-- 1 for ordinary ways, 2 if one of them is an area. -/
  rank : Nat

inductive Finding (α : Type) where
  | missing (m : MissingConnection α)
  | duplicate (d : DuplicatedEdge α)

/-- Why a node cannot be checked. -/
inductive CheckError (α : Type) where
  /-- A matched place does not lie on the edge it was matched to. -/
  | pillarNotFound (edge : Nat) (place : Point α)
  /-- An edge has a course of fewer than two points. -/
  | degenerateEdge (edge : Nat)

/-- The error of a range of nodes: the first node that cannot be checked, and why. -/
structure NodeError (α : Type) where
  node : Nat
  osmId : Option UInt64
  cause : CheckError α

def CheckError.message : CheckError Float → String
  | pillarNotFound edge place =>
    "Snapped point " ++ plainText place.lat ++ "," ++ plainText place.lon
      ++ " does not lie on any segment of edge " ++ toString edge
      ++ " (match claimed by the spatial index)"
  | degenerateEdge edge => "Edge " ++ toString edge ++ " has fewer than two geometry points"

def NodeError.message (e : NodeError Float) : String :=
  let osmId := match e.osmId with
    | some n => "Some(" ++ toString n.toNat ++ ")"
    | none => "None"
  "Failed to check node " ++ toString e.node ++ " (OSM id " ++ osmId ++ "): " ++ e.cause.message

end RoadAudit
