import RoadAudit.Osm.Assembly
import RoadAudit.Osm.Extract

/-! # Importing an extract

An extract is read twice. The first reading counts how often road ways go through each node, the
second gathers the places of these nodes and the ways themselves, in the order in which they
come. -/

namespace RoadAudit

/-- Why an extract gives no graph. -/
inductive ImportError where
  | missing
  | broken
  | noRoads
  | table (e : IdTableError)
deriving DecidableEq, Repr

namespace Import

variable {σ α : Type}

/-- The sum for which the first reading of an extract ends, if there is one: all ways are judged by
their tags, whether they are roads or not. -/
def overflow? : Extract → Option LevelOverflow
  | .objects objects => objects.findSome? fun
    | .way w => LevelRange.overflow? (w.tags.value? "level")
    | _ => none
  | _ => none

abbrev UseCounts := Std.HashMap Int64 Nat

def countUse (uses : UseCounts) (id : Int64) : UseCounts := uses.insert id (uses.getD id 0 + 1)

def countWay (uses : UseCounts) (w : OsmWay) : UseCounts :=
  if (RoadWay.ofWay? w).isSome then w.nodes.foldl countUse uses else uses

def announce (c : Collector σ) (s : σ × UseCounts) : OsmObject → σ × UseCounts
  | .way w => (c.announceWay s.1 w, countWay s.2 w)
  | _ => s

/-- What the second reading has gathered; the ways are in reverse order. -/
structure Gathered (σ α : Type) where
  held : σ
  places : Std.HashMap Int64 (Point α)
  ways : List RoadWay

def gather [Scalar α] (c : Collector σ) (uses : UseCounts) (s : Gathered σ α) :
    OsmObject → Gathered σ α
  | .node n =>
    { s with
      held := c.readNode s.held n
      places := if uses.contains n.id then s.places.insert n.id n.point else s.places }
  | .way w =>
    match c.readWay s.held w with
    | (held, false) => { s with held := held }
    | (held, true) => { s with held := held, ways := (RoadWay.ofWay? w).toList ++ s.ways }
  | .relation => s

variable [Scalar α]

/-- The graph of some objects, with what the collector holds in the end. -/
def assemble (c : Collector σ) (held : σ) (objects : List OsmObject) :
    Except IdTableError (Assembly σ α) :=
  let (held, uses) := objects.foldl (announce c) (held, Std.HashMap.emptyWithCapacity)
  let s : Gathered σ α := objects.foldl (gather c uses) ⟨held, Std.HashMap.emptyWithCapacity, []⟩
  Assembly.ofWays c (uses.getD · 0) (s.places[·]?) s.held s.ways.reverse

/-- The graph of an extract. One without edges is refused. -/
def run (c : Collector σ) (held : σ) : Extract → Except ImportError (Assembly σ α)
  | .missing => .error .missing
  | .broken => .error .broken
  | .objects objects =>
    match assemble c held objects with
    | .error e => .error (.table e)
    | .ok a => if a.graph.edgeCount = 0 then .error .noRoads else .ok a

end Import

end RoadAudit
