import RoadAudit.Audit.Finding
import RoadAudit.Audit.Settings
import RoadAudit.Barrier.Index
import RoadAudit.Geo.Angle
import RoadAudit.Geo.Bearing
import RoadAudit.Graph.Route
import RoadAudit.IdTable.Basic

/-! # Checking a node

The audit of one node: the duplicated edges at it, and, if it is a dead end, the nearest road that
it is not connected to. Nodes that are removed, that have no map id or that are marked as having
no exit are skipped. A candidate road is dropped if it hangs on the dead end's own street, lies on
another level, or is behind a barrier; its priority is lowered where a gap is often no mistake. -/

namespace RoadAudit

open scoped Scalar

/-- All that an audit reads. -/
structure AuditContext (α : Type) where
  graph : RoadGraph α
  nodeIds : IdTable
  wayIds : IdTable
  barriers : BarrierIndex α
  settings : Settings α

namespace AuditContext

variable {α : Type} [Scalar α]

def isSkipped (ctx : AuditContext α) (id : Nat) : Bool :=
  ctx.graph.isRemoved id || (ctx.nodeIds.osmId? id).isNone || ctx.nodeIds.noExit id

def searchLimits (ctx : AuditContext α) : SearchLimits α :=
  ⟨ctx.settings.routingMaxNodes, ctx.settings.routingMaxDistance⟩

/-! ## Duplicated edges -/

/-- Whether two courses are the same, point by point. -/
def sameCourse : List (Point α) → List (Point α) → Bool
  | [], [] => true
  | p :: ps, q :: qs => p.same q && sameCourse ps qs
  | _, _ => false

def isDuplicate (ctx : AuditContext α) (a b : EdgeView α) : Bool :=
  b.adj == a.adj && Scalar.same a.edge.length b.edge.length
    && sameCourse (ctx.graph.geometry a) (ctx.graph.geometry b)

def duplicatedEdge (ctx : AuditContext α) (a b : EdgeView α) : DuplicatedEdge α :=
  { geometry := ctx.graph.geometry a
    firstWay := ctx.wayIds.osmId? a.id
    secondWay := ctx.wayIds.osmId? b.id
    rank := if a.edge.flags.isArea || b.edge.flags.isArea then 2 else 1 }

/-- Whether the duplicates of an edge are reported at this end: at the end with the lower id,
unless that one is skipped. -/
def reportsAt (ctx : AuditContext α) (id : Nat) (a : EdgeView α) : Bool :=
  id ≤ a.adj || ctx.isSkipped a.adj

/-- For each edge at a node its first duplicate among the later ones. -/
def duplicatesAmong (ctx : AuditContext α) (id : Nat) : List (EdgeView α) → List (DuplicatedEdge α)
  | [] => []
  | a :: rest =>
    let later := duplicatesAmong ctx id rest
    if ctx.reportsAt id a then
      match rest.find? (ctx.isDuplicate a) with
      | some b => ctx.duplicatedEdge a b :: later
      | none => later
    else later

def duplicatesAt (ctx : AuditContext α) (id : Nat) : List (DuplicatedEdge α) :=
  ctx.duplicatesAmong id (ctx.graph.edgesOf id)

/-! ## The match of a dead end -/

def deadEnd? (ctx : AuditContext α) (id : Nat) : Option (EdgeView α) :=
  match ctx.graph.edgesOf id with
  | [e] => if e.adj = id then none else some e
  | _ => none

/-- The nodes one edge beyond the far end of a dead end, the dead end itself left out. -/
def beyond (ctx : AuditContext α) (id : Nat) (e : EdgeView α) : List Nat :=
  ((ctx.graph.edgesOf e.adj).map EdgeView.adj).filter (· != id)

/-- Whether two level ranges exclude each other: both are valid and share no level. -/
def excludesLevel (a b : LevelRange) : Bool := a.valid && b.valid && !a.overlaps b

/-- Whether a match is of a road that the dead end is not yet connected to. -/
def isEligible (ctx : AuditContext α) (id : Nat) (e : EdgeView α) (s : Snap α) : Bool :=
  s.edge.id != e.id && s.closestNode != e.adj && !(ctx.beyond id e).contains s.closestNode
    && !excludesLevel e.edge.flags.level s.edge.edge.flags.level
    && decide (0 < s.distance)

def nearerSnap (best : Option (Snap α)) (s : Snap α) : Option (Snap α) :=
  match best with
  | none => some s
  | some b => if s.distance < b.distance then some s else some b

def match? (ctx : AuditContext α) (id : Nat) (openEnd : Point α) (e : EdgeView α) :
    Option (Snap α) :=
  ((ctx.graph.nearest openEnd ctx.settings.radius).filter (ctx.isEligible id e)).foldl
    nearerSnap none

/-! ## Lowering a priority -/

def openHeading (ctx : AuditContext α) (openEnd : Point α) (e : EdgeView α) :
    Except (CheckError α) α :=
  match ctx.graph.pillarsAndAdj e with
  | next :: _ => .ok (bearing openEnd next)
  | [] => .error (.degenerateEdge e.id)

/-- The angle between a heading and the matched edge at the place of the match. -/
def matchedAngle (ctx : AuditContext α) (heading : α) (s : Snap α) : Except (CheckError α) α :=
  let course := ctx.graph.geometry s.edge
  let last := course.length - 1
  let w := s.wayIndex
  match s.position with
  | .tower =>
    match course[if w = 0 then 1 else last - 1]? with
    | some neighbour => .ok (headingAngle heading (bearing neighbour s.snapped))
    | none => .error (.degenerateEdge s.edge.id)
  | .edge =>
    match segmentUnder? course s.snapped with
    | none => .error (.pillarNotFound s.edge.id s.snapped)
    | some i =>
      match course[i]?, course[i + 1]? with
      | some a, some b => .ok (lineAngle heading (bearing a b))
      | _, _ => .error (.degenerateEdge s.edge.id)
  | .pillar =>
    if w = 0 ∨ last ≤ w then .error (.degenerateEdge s.edge.id)
    else
      match course[w - 1]?, course[w + 1]? with
      | some a, some b =>
        .ok (1 / 2 * (headingAngle heading (bearing a s.snapped)
          + headingAngle heading (bearing s.snapped b)))
      | _, _ => .error (.degenerateEdge s.edge.id)

def wayRound (ctx : AuditContext α) (id : Nat) (s : Snap α) : Except (CheckError α) (Route α) :=
  match s.position with
  | .tower => .ok (ctx.graph.route ctx.searchLimits id s.closestNode)
  | .pillar => .ok (ctx.graph.routeToVertex ctx.searchLimits .earth id s.edge s.wayIndex)
  | .edge =>
    match ctx.graph.routeToPoint? ctx.searchLimits .earth id s.edge s.snapped with
    | some r => .ok r
    | none => .error (.pillarNotFound s.edge.id s.snapped)

/-- One if a driveway ends beside a road that runs along it, else zero. -/
def besideDriveway (ctx : AuditContext α) (openEnd : Point α) (e : EdgeView α) (s : Snap α) :
    Except (CheckError α) Int := do
  let heading ← ctx.openHeading openEnd e
  let across := lineAngle heading (bearing openEnd s.snapped)
  let angle ← ctx.matchedAngle heading s
  let along := Scalar.lesser angle (180 - angle)
  return if 86 ≤ across ∧ across ≤ 90 ∧ along ≤ 4 then 1 else 0

/-- What a way round takes from the importance of a gap: all if it is less than twice as long as
the gap, one if less than six times. -/
def shortcut (r : Route α) (gap : α) : Int :=
  match r.status with
  | .ok =>
    let ratio := r.distance / gap
    if ratio < 2 then suppression else if ratio < 6 then 1 else 0
  | _ => 0

/-- What is added to the priority number of a match where a gap is often no mistake. -/
def decrement (ctx : AuditContext α) (id : Nat) (openEnd : Point α) (e : EdgeView α)
    (s : Snap α) : Except (CheckError α) Int :=
  let roadClass := e.edge.flags.roadClass
  if roadClass.isDrivewayLike then ctx.besideDriveway openEnd e s
  else if roadClass.isPedestrianPath && ctx.settings.doRouting then
    return shortcut (← ctx.wayRound id s) s.distance
  else .ok 0

/-! ## The findings of a node -/

/-- The missing connection of a dead end with a given match, if it is to be reported. -/
def gapAt (ctx : AuditContext α) (id : Nat) (osmId : UInt64) (openEnd : Point α) (e : EdgeView α)
    (s : Snap α) : Except (CheckError α) (Option (MissingConnection α)) :=
  let flags := e.edge.flags
  if ctx.barriers.crosses openEnd s.snapped then .ok none
  else
    let base :=
      ctx.settings.priorities.base flags.roadClass flags.isPrivate s.distance ctx.settings.radius
    if base ≤ 0 then .ok none
    else do
      let priority := base + (← ctx.decrement id openEnd e s)
      if isReported priority then
        return some ⟨openEnd, s.snapped, s.distance, id, osmId, s.position, flags.roadClass,
          flags.isPrivate, priority⟩
      else return none

def missingAt (ctx : AuditContext α) (id : Nat) (osmId : UInt64) :
    Except (CheckError α) (Option (MissingConnection α)) :=
  match ctx.deadEnd? id, ctx.graph.point? id with
  | some e, some openEnd =>
    match ctx.match? id openEnd e with
    | some s => ctx.gapAt id osmId openEnd e s
    | none => .ok none
  | _, _ => .ok none

/-- The findings of a node: its duplicated edges, then its missing connection. -/
def checkNode (ctx : AuditContext α) (id : Nat) : Except (CheckError α) (List (Finding α)) :=
  if ctx.isSkipped id then .ok []
  else
    match ctx.nodeIds.osmId? id with
    | none => .ok []
    | some osmId => do
      let missing ← ctx.missingAt id osmId
      return (ctx.duplicatesAt id).map .duplicate ++ (missing.map .missing).toList

/-- The findings of the nodes from `start` up to `stop`, in node order, or the error of the first
node that cannot be checked. -/
def checkFrom (ctx : AuditContext α) (start : Nat) : (count : Nat) →
    Except (NodeError α) (List (Finding α))
  | 0 => .ok []
  | count + 1 =>
    match ctx.checkNode start with
    | .error cause => .error ⟨start, ctx.nodeIds.osmId? start, cause⟩
    | .ok findings =>
      match checkFrom ctx (start + 1) count with
      | .error e => .error e
      | .ok later => .ok (findings ++ later)

def checkRange (ctx : AuditContext α) (start stop : Nat) :
    Except (NodeError α) (List (Finding α)) :=
  ctx.checkFrom start (stop - start)

end AuditContext

end RoadAudit
