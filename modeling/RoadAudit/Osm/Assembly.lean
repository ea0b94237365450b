import RoadAudit.Geo.Distance
import RoadAudit.Graph.Basic
import RoadAudit.Osm.Collector
import RoadAudit.Osm.RoadWay
import Std.Data.HashMap

/-! # Assembling the graph

Road ways are cut into stretches, and every stretch becomes an edge. Its ends are nodes of the
graph: the first and the last located node of a way, and every node that ways use more than once.
What lies between them is the course of the edge. Nodes without a place are left out of their
ways. -/

namespace RoadAudit

/-- A node of a way whose place is known. -/
structure Stop (α : Type) where
  osmId : Int64
  point : Point α

/-- A part of a way from one node of the graph to the next. -/
structure Stretch (α : Type) where
  first : Stop α
  pillars : List (Point α)
  last : Stop α

namespace Stretch

variable {α : Type}

def course (r : Stretch α) : List (Point α) := r.first.point :: r.pillars ++ [r.last.point]

/-- The stretches from a stop on through some others; `cuts` tells at which of them one ends. The
last stop always ends one. -/
def split (cuts : Int64 → Bool) (start : Stop α) : List (Stop α) → List (Stretch α)
  | [] => []
  | s :: rest =>
    if cuts s.osmId || rest.isEmpty then ⟨start, [], s⟩ :: split cuts s rest
    else
      match split cuts s rest with
      | [] => []
      | r :: more => ⟨start, s.point :: r.pillars, r.last⟩ :: more

end Stretch

namespace RoadWay

variable {α : Type}

def stops (place? : Int64 → Option (Point α)) (w : RoadWay) : List (Stop α) :=
  w.nodes.filterMap fun id => (place? id).map (Stop.mk id)

def stretches (cuts : Int64 → Bool) (place? : Int64 → Option (Point α)) (w : RoadWay) :
    List (Stretch α) :=
  match w.stops place? with
  | [] => []
  | start :: rest => Stretch.split cuts start rest

end RoadWay

/-- A graph that is being put together, and the ids of the ways its edges come from. -/
structure Assembly (σ α : Type) where
  graph : RoadGraph α
  wayIds : IdTable
  /-- The nodes of the graph by their map ids. -/
  nodeOf : Std.HashMap Int64 Nat
  held : σ
  nodeOf_lt : ∀ (id : Int64) (n : Nat), nodeOf[id]? = some n → n < graph.nodeCount

namespace Assembly

variable {σ α : Type}

def start (held : σ) : Assembly σ α where
  graph := RoadGraph.empty
  wayIds := IdTable.empty .ways
  nodeOf := Std.HashMap.emptyWithCapacity
  held := held
  nodeOf_lt := by simp

/-- The node of a stop, and the assembly in which it is. -/
structure Visit (a : Assembly σ α) where
  after : Assembly σ α
  node : Nat
  node_lt : node < after.graph.nodeCount
  count_le : a.graph.nodeCount ≤ after.graph.nodeCount

/-- The assembly with a new node for a stop, of which the collector has been told. -/
def addStop (a : Assembly σ α) (s : Stop α) (held : σ) : Visit a where
  after :=
    { graph := a.graph.addNode s.point
      wayIds := a.wayIds
      nodeOf := a.nodeOf.insert s.osmId a.graph.nodeCount
      held := held
      nodeOf_lt := by
        intro id n h
        rw [Std.HashMap.getElem?_insert] at h
        rw [RoadGraph.nodeCount_addNode]
        split at h
        · obtain rfl := Option.some.inj h
          omega
        · have := a.nodeOf_lt id n h
          omega }
  node := a.graph.nodeCount
  node_lt := by simp
  count_le := by simp

/-- The node of a stop, which is new if the stop has not been visited. -/
def visit (c : Collector σ) (a : Assembly σ α) (s : Stop α) : Except IdTableError (Visit a) :=
  match h : a.nodeOf[s.osmId]? with
  | some node => .ok ⟨a, node, a.nodeOf_lt _ _ h, Nat.le_refl _⟩
  | none => (c.recordNode a.held s.osmId a.graph.nodeCount).map (a.addStop s)

variable [Scalar α]

def addStretch (c : Collector σ) (w : RoadWay) (a : Assembly σ α) (r : Stretch α) :
    Except IdTableError (Assembly σ α) := do
  let first ← a.visit c r.first
  let last ← first.after.visit c r.last
  let b := last.after
  let wayIds ← b.wayIds.add b.graph.edgeCount w.id.toUInt64 false
  let edge : Edge α :=
    ⟨first.node, last.node, Metric.earth.length r.course, w.flags, r.pillars⟩
  .ok
    { graph := b.graph.addEdge edge
        ⟨Nat.lt_of_lt_of_le first.node_lt last.count_le, last.node_lt⟩
      wayIds := wayIds
      nodeOf := b.nodeOf
      held := b.held
      nodeOf_lt := b.nodeOf_lt }

def addWay (c : Collector σ) (cuts : Int64 → Bool) (place? : Int64 → Option (Point α))
    (a : Assembly σ α) (w : RoadWay) : Except IdTableError (Assembly σ α) :=
  (w.stretches cuts place?).foldlM (addStretch c w) a

/-- The graph of some ways. `uses` tells how often ways go through a node. -/
def ofWays (c : Collector σ) (uses : Int64 → Nat) (place? : Int64 → Option (Point α)) (held : σ)
    (ways : List RoadWay) : Except IdTableError (Assembly σ α) :=
  ways.foldlM (addWay c (fun id => 1 < uses id) place?) (start held)

end Assembly

end RoadAudit
