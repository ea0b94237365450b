import RoadAudit.Geo.Point
import RoadAudit.Road.Attributes

/-! # The road graph

Roads meet in nodes and run along edges. An edge is stored from its base node to its adjacent
node with the points in between; it is walked through a view that fixes the direction. Nodes can
be marked as removed, which hides the edges at them from searches by place. -/

namespace RoadAudit

/-- A node, and whether it has been taken out of the network. -/
structure Node (α : Type) where
  point : Point α
  removed : Bool

/-- A stored edge; `pillars` are the points of its course without the two ends. -/
structure Edge (α : Type) where
  base : Nat
  adj : Nat
  length : α
  flags : RoadFlags
  pillars : List (Point α)

/-- An edge walked in one of its two directions. -/
structure EdgeView (α : Type) where
  id : Nat
  edge : Edge α
  reversed : Bool

namespace EdgeView

variable {α : Type}

def base (v : EdgeView α) : Nat := if v.reversed then v.edge.adj else v.edge.base

def adj (v : EdgeView α) : Nat := if v.reversed then v.edge.base else v.edge.adj

def flip (v : EdgeView α) : EdgeView α := { v with reversed := !v.reversed }

@[simp] theorem base_flip (v : EdgeView α) : v.flip.base = v.adj := by
  cases h : v.reversed <;> simp [flip, base, adj, h]

@[simp] theorem adj_flip (v : EdgeView α) : v.flip.adj = v.base := by
  cases h : v.reversed <;> simp [flip, base, adj, h]

end EdgeView

/-- A road graph. Node and edge ids are positions, and both ends of every edge are nodes of the
graph. -/
structure RoadGraph (α : Type) where
  nodes : Array (Node α)
  edges : Array (Edge α)
  ends : ∀ e ∈ edges, e.base < nodes.size ∧ e.adj < nodes.size

namespace RoadGraph

variable {α : Type}

def empty : RoadGraph α := ⟨#[], #[], by simp⟩

instance : Inhabited (RoadGraph α) := ⟨empty⟩

/-- The graph of some nodes and edges, unless an edge ends at a node that is not there. -/
def ofParts? (nodes : Array (Node α)) (edges : Array (Edge α)) : Option (RoadGraph α) :=
  if h : ∀ e ∈ edges, e.base < nodes.size ∧ e.adj < nodes.size then some ⟨nodes, edges, h⟩
  else none

def nodeCount (g : RoadGraph α) : Nat := g.nodes.size

def edgeCount (g : RoadGraph α) : Nat := g.edges.size

def addNode (g : RoadGraph α) (p : Point α) : RoadGraph α where
  nodes := g.nodes.push ⟨p, false⟩
  edges := g.edges
  ends := by
    intro e he
    have := g.ends e he
    simp only [Array.size_push]
    omega

def addEdge (g : RoadGraph α) (e : Edge α) (h : e.base < g.nodeCount ∧ e.adj < g.nodeCount) :
    RoadGraph α where
  nodes := g.nodes
  edges := g.edges.push e
  ends := by
    intro e' he
    rcases Array.mem_push.1 he with he | rfl
    · exact g.ends e' he
    · exact h

@[simp] theorem nodeCount_addNode (g : RoadGraph α) (p : Point α) :
    (g.addNode p).nodeCount = g.nodeCount + 1 := by simp [addNode, nodeCount]

@[simp] theorem nodeCount_addEdge (g : RoadGraph α) (e : Edge α) (h) :
    (g.addEdge e h).nodeCount = g.nodeCount := rfl

def isRemoved (g : RoadGraph α) (v : Nat) : Bool := (g.nodes[v]?).any (·.removed)

def markRemoved (g : RoadGraph α) (v : Nat) : RoadGraph α where
  nodes := g.nodes.modify v fun n => { n with removed := true }
  edges := g.edges
  ends := by simpa using g.ends

/-- The edge with the given id, walked in its stored direction. -/
def view? (g : RoadGraph α) (id : Nat) : Option (EdgeView α) :=
  (g.edges[id]?).map fun e => ⟨id, e, false⟩

/-- All edges in ascending id, walked in their stored direction. -/
def views (g : RoadGraph α) : List (EdgeView α) :=
  g.edges.toList.zipIdx.map fun (e, id) => ⟨id, e, false⟩

/-- An edge as it is walked away from a node, if it ends there. A loop is walked as stored. -/
def viewFrom? (v : Nat) (w : EdgeView α) : Option (EdgeView α) :=
  if w.edge.base = v then some { w with reversed := false }
  else if w.edge.adj = v then some { w with reversed := true }
  else none

/-- The edges at a node, walked away from it, in ascending id. -/
def edgesOf (g : RoadGraph α) (v : Nat) : List (EdgeView α) := g.views.filterMap (viewFrom? v)

def point? (g : RoadGraph α) (v : Nat) : Option (Point α) := (g.nodes[v]?).map (·.point)

def course (g : RoadGraph α) (e : Edge α) : List (Point α) :=
  (g.point? e.base).toList ++ e.pillars ++ (g.point? e.adj).toList

def geometry (g : RoadGraph α) (v : EdgeView α) : List (Point α) :=
  if v.reversed then (g.course v.edge).reverse else g.course v.edge

def pillarsAndAdj (g : RoadGraph α) (v : EdgeView α) : List (Point α) := (g.geometry v).tail

def pillarsOnly (g : RoadGraph α) (v : EdgeView α) : List (Point α) :=
  (g.geometry v).tail.dropLast

end RoadGraph

variable {α : Type} [Scalar α]

def Node.same (n m : Node α) : Bool := n.point.same m.point && n.removed == m.removed

def Edge.same (e f : Edge α) : Bool :=
  e.base == f.base && e.adj == f.adj && Scalar.same e.length f.length && e.flags == f.flags
    && Point.sameLine e.pillars f.pillars

def RoadGraph.same (g h : RoadGraph α) : Bool :=
  g.nodes.isEqv h.nodes Node.same && g.edges.isEqv h.edges Edge.same

end RoadAudit
