import RoadAudit.Graph.Basic

/-! # Components

The connected parts of a graph, found by flooding it from one node after the other. A flood starts
at nodes that are not removed and have an edge; it passes through removed nodes as through any
other. -/

namespace RoadAudit

/-- The component of each node that has been reached, and the sizes of the components. -/
structure Labelling where
  labels : Array (Option Nat)
  sizes : List Nat

namespace Labelling

def isOpen (labels : Array (Option Nat)) (v : Nat) : Bool :=
  match labels[v]? with
  | some none => true
  | _ => false

/-- The labels and the queue after the nodes of a row have been looked at: those not yet reached
get the label and join the queue. -/
def discover (label : Nat) : List Nat → Array (Option Nat) → List Nat →
    Array (Option Nat) × List Nat
  | [], labels, queue => (labels, queue)
  | v :: row, labels, queue =>
    if isOpen labels v then
      discover label row (labels.setIfInBounds v (some label)) (queue ++ [v])
    else discover label row labels queue

variable {α : Type}

/-- The labels after the queue has been worked off, and the number of nodes taken from it. Every
node joins the queue once, so as many rounds as there are nodes are enough. -/
def flood (g : RoadGraph α) (label : Nat) : (rounds : Nat) → (queue : List Nat) →
    Array (Option Nat) → (size : Nat) → Array (Option Nat) × Nat
  | 0, _, labels, size => (labels, size)
  | _ + 1, [], labels, size => (labels, size)
  | rounds + 1, v :: queue, labels, size =>
    let (labels, queue) := discover label ((g.edgesOf v).map EdgeView.adj) labels queue
    flood g label rounds queue labels (size + 1)

def isSource (g : RoadGraph α) (labels : Array (Option Nat)) (v : Nat) : Bool :=
  isOpen labels v && !g.isRemoved v && !(g.edgesOf v).isEmpty

/-- The labelling after a flood from a node, if one starts there. -/
def floodFrom (g : RoadGraph α) (l : Labelling) (v : Nat) : Labelling :=
  if isSource g l.labels v then
    let label := l.sizes.length
    let (labels, size) :=
      flood g label g.nodeCount [v] (l.labels.setIfInBounds v (some label)) 0
    ⟨labels, l.sizes ++ [size]⟩
  else l

/-- The components of a graph, numbered by their least node that is not removed. -/
def ofGraph (g : RoadGraph α) : Labelling :=
  (List.range g.nodeCount).foldl (floodFrom g) ⟨Array.replicate g.nodeCount none, []⟩

def component? (l : Labelling) (v : Nat) : Option Nat := (l.labels[v]?).getD none

end Labelling

end RoadAudit
