import RoadAudit.IdTable.Basic
import RoadAudit.Osm.Object

/-! # Collectors

What an import gathers besides the graph. The objects of an extract are read twice: first the
ways, to learn which nodes matter, then everything in order. A collector is told of both readings
and of every node that the graph gets; it may also keep a way from becoming a road. -/

namespace RoadAudit

/-- A collector with what it holds as a value of `σ`. -/
structure Collector (σ : Type) where
  /-- A way in the first reading. -/
  announceWay : σ → OsmWay → σ
  /-- A node in the second reading. -/
  readNode : σ → OsmNode → σ
  /-- A way in the second reading, and whether it may still become a road. -/
  readWay : σ → OsmWay → σ × Bool
  /-- The map id of a new node of the graph. -/
  recordNode : σ → (osmId : Int64) → (node : Nat) → Except IdTableError σ

namespace Collector

variable {σ τ : Type}

def idle : Collector σ where
  announceWay held _ := held
  readNode held _ := held
  readWay held _ := (held, true)
  recordNode held _ _ := .ok held

/-- Two collectors, the first of which is always told first. A way that the first keeps to itself
is not shown to the second. -/
def both (c : Collector σ) (d : Collector τ) : Collector (σ × τ) where
  announceWay held w := (c.announceWay held.1 w, d.announceWay held.2 w)
  readNode held n := (c.readNode held.1 n, d.readNode held.2 n)
  readWay held w :=
    match c.readWay held.1 w with
    | (first, false) => ((first, held.2), false)
    | (first, true) =>
      let (second, free) := d.readWay held.2 w
      ((first, second), free)
  recordNode held osmId node := do
    let first ← c.recordNode held.1 osmId node
    let second ← d.recordNode held.2 osmId node
    .ok (first, second)

end Collector

end RoadAudit
