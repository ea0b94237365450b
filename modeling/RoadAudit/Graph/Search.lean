import RoadAudit.Graph.Basic
import Std.Data.HashMap

/-! # The bounded search

The shortest way between two nodes, looked for among few nodes and within a distance. Nodes are
labelled with the least distance found so far; the nearest labelled node is settled and its edges
are relaxed. The search ends when the target is first relaxed to a distance within the limit, when
the nearest label is beyond the limit, or when it has settled as many nodes as it may. -/

namespace RoadAudit

open scoped Scalar

inductive RouteStatus where
  | ok
  | tooLong
  | tooManyNodes
deriving DecidableEq, Repr

/-- The outcome of a search; without a way, `distance` is the limit. -/
structure Route (α : Type) where
  status : RouteStatus
  distance : α

structure SearchLimits (α : Type) where
  maxNodes : Nat
  maxDistance : α

namespace SearchLimits

variable {α : Type}

def found (d : α) : Route α := ⟨.ok, d⟩

def exhausted (limits : SearchLimits α) (status : RouteStatus) : Route α :=
  ⟨status, limits.maxDistance⟩

end SearchLimits

/-- What is known of a node that the search has reached. -/
structure Label (α : Type) where
  node : Nat
  distance : α
  settled : Bool

/-- The labels in the order they were made, the position of each node's label, and the number of
nodes settled. -/
structure Search (α : Type) where
  labels : Array (Label α)
  index : Std.HashMap Nat Nat
  settled : Nat

namespace Search

variable {α : Type} [Scalar α]

def start (v : Nat) : Search α := ⟨#[⟨v, 0, false⟩], Std.HashMap.emptyWithCapacity.insert v 0, 0⟩

/-- The better of the best label so far and a later one: the earlier unless the later is strictly
nearer. -/
def nearerLabel (best : Option (Nat × Label α)) (i : Nat) (l : Label α) : Option (Nat × Label α) :=
  if l.settled then best
  else
    match best with
    | none => some (i, l)
    | some (j, b) => if l.distance < b.distance then some (i, l) else some (j, b)

/-- The nearest label not yet settled, the earliest of equally near ones. -/
def nearest? (s : Search α) : Option (Nat × Label α) :=
  s.labels.toList.zipIdx.foldl (fun best (l, i) => nearerLabel best i l) none

def settle (s : Search α) (i : Nat) : Search α :=
  { s with
    labels := s.labels.modify i fun l => { l with settled := true }
    settled := s.settled + 1 }

def label? (s : Search α) (v : Nat) : Option (Label α) := s.index[v]? >>= fun i => s.labels[i]?

/-- The search after a way of length `d` to a node has been seen: the node gets a label, or a
nearer one if its label is not settled. -/
def relax (s : Search α) (v : Nat) (d : α) : Search α :=
  match s.index[v]? with
  | some i =>
    { s with
      labels := s.labels.modify i fun l =>
        if !l.settled ∧ d < l.distance then { l with distance := d } else l }
  | none =>
    { s with
      labels := s.labels.push ⟨v, d, false⟩
      index := s.index.insert v s.labels.size }

/-- The distance at which the target is accepted when a way of length `d` to it is seen. -/
def accepted? (s : Search α) (limits : SearchLimits α) (target : Nat) (d : α) : Option α :=
  let d := match s.label? target with
    | some l => Scalar.lesser l.distance d
    | none => d
  if d ≤ limits.maxDistance then some d else none

/-- A search that has ended, or one that goes on. -/
inductive Progress (α : Type) where
  | ended (route : Route α)
  | running (search : Search α)

/-- The search after the edges at a node settled at distance `d` have been relaxed in turn. -/
def relaxAll (limits : SearchLimits α) (target : Nat) (d : α) :
    List (EdgeView α) → Search α → Progress α
  | [], s => .running s
  | v :: rest, s =>
    let reached := d + v.edge.length
    match if v.adj = target then s.accepted? limits target reached else none with
    | some d => .ended (SearchLimits.found d)
    | none => relaxAll limits target d rest (s.relax v.adj reached)

def step (g : RoadGraph α) (limits : SearchLimits α) (target : Nat) (s : Search α) : Progress α :=
  match s.nearest? with
  | none => .ended (limits.exhausted .tooLong)
  | some (i, l) =>
    if limits.maxDistance < l.distance then .ended (limits.exhausted .tooLong)
    else relaxAll limits target l.distance (g.edgesOf l.node) (s.settle i)

def run (g : RoadGraph α) (limits : SearchLimits α) (target : Nat) :
    (budget : Nat) → Search α → Route α
  | 0, _ => limits.exhausted .tooManyNodes
  | budget + 1, s =>
    match s.step g limits target with
    | .ended r => r
    | .running s => run g limits target budget s

end Search

def RoadGraph.route {α : Type} [Scalar α] (g : RoadGraph α) (limits : SearchLimits α)
    (source target : Nat) : Route α :=
  if source = target then SearchLimits.found 0
  else Search.run g limits target limits.maxNodes (Search.start source)

end RoadAudit
