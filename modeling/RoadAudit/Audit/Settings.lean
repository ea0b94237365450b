import RoadAudit.Audit.Priority
import RoadAudit.Json.Basic
import RoadAudit.Numeric.Binary64
import RoadAudit.Numeric.Word

/-! # Settings

What an audit can be told: how far to look, how to weigh, and how to spread the work. Settings
are read from JSON, where what is missing keeps its default. -/

namespace RoadAudit

open scoped Scalar

structure Settings (α : Type) where
  /-- How far from a dead end another road is looked for, in metres. -/
  radius : α
  /-- Whether the way round is compared with the gap on paths for pedestrians. -/
  doRouting : Bool
  workers : Nat
  /-- The number of nodes in a job. -/
  batchSize : Nat
  /-- Subnetworks with fewer nodes are removed before the audit. -/
  minNetworkSize : Nat
  /-- How many nodes the search for a way round may settle. -/
  routingMaxNodes : Nat
  /-- How far that search may go, as a multiple of the radius. -/
  routingDistanceFactor : α
  priorities : PriorityTable

namespace Settings

variable {α : Type} [Scalar α]

instance : Inhabited (Settings α) := ⟨15, false, 2, 1000, 200, 80, 6, default⟩

def routingMaxDistance (s : Settings α) : α := s.radius * s.routingDistanceFactor

def row? : Json → Option PriorityRow
  | .array [a, b, c, d] => do
    let word? (j : Json) : Option Int := do
      let n ← j.int?
      if Word.isSigned n then some n else none
    some (PriorityRow.of (← word? a) (← word? b) (← word? c) (← word? d))
  | _ => none

def rows? : Json → Option PriorityTable
  | .object fields => do
    let rows ← fields.mapM fun (key, value) => do
      some (← RoadClass.ofName? key, ← row? value)
    some (PriorityTable.ofRows rows)
  | _ => none

/-- A whole priority table, the only field of an object or the only item of an array. -/
def table? : Json → Option PriorityTable
  | .array [rows] => rows? rows
  | .array _ => none
  | j => j.field? "buckets" >>= rows?

/-- One setting: its default if there is no value, and none if there is one that does not fit. -/
def setting {β : Type} (read : Json → Option β) (standard : β) : Option Json → Option β
  | none => some standard
  | some j => read j

def batchLimit : Nat := Word.size32 - 1

def countLimit : Nat := Word.size64 - 1

/-- The settings given by the values of the eight fields. -/
def ofFields? (field : Fin 8 → Option Json) : Option (Settings Float) := do
  let standard : Settings Float := default
  some
    { radius := ← setting Json.float? standard.radius (field 0)
      doRouting := ← setting Json.bool? standard.doRouting (field 1)
      workers := ← setting (Json.natUpTo? countLimit) standard.workers (field 2)
      batchSize := ← setting (Json.natUpTo? batchLimit) standard.batchSize (field 3)
      minNetworkSize := ← setting (Json.natUpTo? countLimit) standard.minNetworkSize (field 4)
      routingMaxNodes := ← setting (Json.natUpTo? countLimit) standard.routingMaxNodes (field 5)
      routingDistanceFactor := ← setting Json.float? standard.routingDistanceFactor (field 6)
      priorities := ← setting table? standard.priorities (field 7) }

def fieldNames : Vector String 8 :=
  #v["radius", "do_routing", "worker_threads", "batch_size", "min_network_size",
    "routing_max_nodes", "routing_distance_factor", "priorities"]

/-- The settings in a JSON value: an object with the names of the fields, or an array with their
values in order. -/
def ofJson? : Json → Option (Settings Float)
  | .object fields => ofFields? fun i => (Json.object fields).field? fieldNames[i]
  | .array items => if items.length ≤ 8 then ofFields? fun i => items[i.val]? else none
  | _ => none

end Settings

end RoadAudit
