import RoadAudit.Audit.Check

/-! # Checking nodes in words

Priorities are numbers of 32 bits with a sign. What is added to the number of a table, for a road
without public access and for the surroundings of a gap, can have no room; then a check comes to
nothing, neither findings nor an error. -/

namespace RoadAudit

/-- The sum of two numbers of 32 bits with a sign, if it has room. -/
def Word.sum? (a b : Int) : Option Int := if isSigned (a + b) then some (a + b) else none

def Word.overflowText : String := "attempt to add with overflow"

namespace AuditContext

variable {α : Type} [Scalar α]

/-- The missing connection of a dead end with a given match, if it is to be reported. -/
def gapInWords? (ctx : AuditContext α) (id : Nat) (osmId : UInt64) (openEnd : Point α)
    (e : EdgeView α) (s : Snap α) : Option (Except (CheckError α) (Option (MissingConnection α))) :=
  let flags := e.edge.flags
  if ctx.barriers.crosses openEnd s.snapped then some (.ok none)
  else
    match ctx.settings.priorities.baseInWords? flags.roadClass flags.isPrivate s.distance
      ctx.settings.radius with
    | none => none
    | some base =>
      if base ≤ 0 then some (.ok none)
      else
        match ctx.decrement id openEnd e s with
        | .error cause => some (.error cause)
        | .ok added =>
          (Word.sum? base added).map fun priority => .ok <|
            if isReported priority then
              some ⟨openEnd, s.snapped, s.distance, id, osmId, s.position, flags.roadClass,
                flags.isPrivate, priority⟩
            else none

def missingInWords? (ctx : AuditContext α) (id : Nat) (osmId : UInt64) :
    Option (Except (CheckError α) (Option (MissingConnection α))) :=
  match ctx.deadEnd? id, ctx.graph.point? id with
  | some e, some openEnd =>
    match ctx.match? id openEnd e with
    | some s => ctx.gapInWords? id osmId openEnd e s
    | none => some (.ok none)
  | _, _ => some (.ok none)

def checkNodeInWords? (ctx : AuditContext α) (id : Nat) :
    Option (Except (CheckError α) (List (Finding α))) :=
  if ctx.isSkipped id then some (.ok [])
  else
    match ctx.nodeIds.osmId? id with
    | none => some (.ok [])
    | some osmId => (ctx.missingInWords? id osmId).map fun missing =>
      missing.map fun m => (ctx.duplicatesAt id).map .duplicate ++ (m.map .missing).toList

def checkFromInWords? (ctx : AuditContext α) (start : Nat) : (count : Nat) →
    Option (Except (NodeError α) (List (Finding α)))
  | 0 => some (.ok [])
  | count + 1 =>
    match ctx.checkNodeInWords? start with
    | none => none
    | some (.error cause) => some (.error ⟨start, ctx.nodeIds.osmId? start, cause⟩)
    | some (.ok findings) =>
      (checkFromInWords? ctx (start + 1) count).map fun later => later.map (findings ++ ·)

def checkRangeInWords? (ctx : AuditContext α) (start stop : Nat) :
    Option (Except (NodeError α) (List (Finding α))) :=
  ctx.checkFromInWords? start (stop - start)

end AuditContext

end RoadAudit
