import Mathlib.Data.List.Basic
import Mathlib.Data.List.Range
import Mathlib.Tactic
import RoadAudit.Audit.Check
import RoadAudit.Numeric.Binary64

/-! # A single pass

The nodes of a range are checked one after the other, and nothing is carried from one node to the
next: a pass over a range is a pass over its first part followed by one over the rest, its findings
are those of its nodes in ascending order, and it fails with the error of the first node that cannot
be checked. -/

namespace RoadAudit

/-! ## The two kinds of findings -/

def Finding.missing? {α : Type} : Finding α → Option (MissingConnection α)
  | .missing m => some m
  | .duplicate _ => none

def Finding.duplicate? {α : Type} : Finding α → Option (DuplicatedEdge α)
  | .missing _ => none
  | .duplicate d => some d

/-- The missing connections among some findings, in their order. -/
def missingOf {α : Type} (fs : List (Finding α)) : List (MissingConnection α) :=
  fs.filterMap Finding.missing?

/-- The duplicated edges among some findings, in their order. -/
def duplicatesOf {α : Type} (fs : List (Finding α)) : List (DuplicatedEdge α) :=
  fs.filterMap Finding.duplicate?

section Kinds

variable {α : Type}

@[simp] theorem missingOf_nil : missingOf ([] : List (Finding α)) = [] := rfl

@[simp] theorem duplicatesOf_nil : duplicatesOf ([] : List (Finding α)) = [] := rfl

@[simp] theorem missingOf_cons_missing (m : MissingConnection α) (fs : List (Finding α)) :
    missingOf (.missing m :: fs) = m :: missingOf fs := rfl

@[simp] theorem missingOf_cons_duplicate (d : DuplicatedEdge α) (fs : List (Finding α)) :
    missingOf (.duplicate d :: fs) = missingOf fs := rfl

@[simp] theorem duplicatesOf_cons_missing (m : MissingConnection α) (fs : List (Finding α)) :
    duplicatesOf (.missing m :: fs) = duplicatesOf fs := rfl

@[simp] theorem duplicatesOf_cons_duplicate (d : DuplicatedEdge α) (fs : List (Finding α)) :
    duplicatesOf (.duplicate d :: fs) = d :: duplicatesOf fs := rfl

@[simp] theorem missingOf_append (fs gs : List (Finding α)) :
    missingOf (fs ++ gs) = missingOf fs ++ missingOf gs := List.filterMap_append

@[simp] theorem duplicatesOf_append (fs gs : List (Finding α)) :
    duplicatesOf (fs ++ gs) = duplicatesOf fs ++ duplicatesOf gs := List.filterMap_append

@[simp] theorem missingOf_map_duplicate (ds : List (DuplicatedEdge α)) :
    missingOf (ds.map .duplicate) = [] := by
  induction ds with
  | nil => rfl
  | cons d rest ih => simp [ih]

@[simp] theorem duplicatesOf_map_duplicate (ds : List (DuplicatedEdge α)) :
    duplicatesOf (ds.map .duplicate) = ds := by
  induction ds with
  | nil => rfl
  | cons d rest ih => simp [ih]

@[simp] theorem missingOf_map_missing (m : Option (MissingConnection α)) :
    missingOf (m.map .missing).toList = m.toList := by
  cases m <;> rfl

@[simp] theorem duplicatesOf_map_missing (m : Option (MissingConnection α)) :
    duplicatesOf (m.map .missing).toList = [] := by
  cases m <;> rfl

theorem missingOf_flatMap {β : Type} (f : β → List (Finding α)) (bs : List β) :
    missingOf (bs.flatMap f) = bs.flatMap fun b => missingOf (f b) := by
  induction bs with
  | nil => rfl
  | cons b rest ih => simp [ih]

theorem duplicatesOf_flatMap {β : Type} (f : β → List (Finding α)) (bs : List β) :
    duplicatesOf (bs.flatMap f) = bs.flatMap fun b => duplicatesOf (f b) := by
  induction bs with
  | nil => rfl
  | cons b rest ih => simp [ih]

end Kinds

namespace AuditContext

variable {α : Type} (ctx : AuditContext α)

/-! ## The check of a node -/

/-- Whether a node is looked at: it is not removed, it has a map id, and it is not marked as having
no exit. -/
structure IsChecked (n : Nat) : Prop where
  kept : ctx.graph.isRemoved n = false
  known : ∃ osmId, ctx.nodeIds.osmId? n = some osmId
  unmarked : ctx.nodeIds.noExit n = false

variable {ctx}

theorem isSkipped_eq_false_iff {n : Nat} : ctx.isSkipped n = false ↔ ctx.IsChecked n := by
  simp only [isSkipped, Bool.or_eq_false_iff, Option.isNone_eq_false_iff,
    Option.isSome_iff_exists]
  exact ⟨fun h => ⟨h.1.1, h.1.2, h.2⟩, fun h => ⟨⟨h.kept, h.known⟩, h.unmarked⟩⟩

variable [Scalar α]

/-- What the check of a node comes to if it succeeds: nothing for a node that is skipped, else the
duplicated edges at it and its missing connection. -/
theorem checkNode_eq_ok {n : Nat} {fs : List (Finding α)} (h : ctx.checkNode n = .ok fs) :
    (ctx.isSkipped n = true ∧ fs = []) ∨
      ∃ osmId missing, ctx.isSkipped n = false ∧ ctx.nodeIds.osmId? n = some osmId ∧
        ctx.missingAt n osmId = .ok missing ∧
        fs = (ctx.duplicatesAt n).map .duplicate ++ (missing.map .missing).toList := by
  unfold checkNode at h
  split at h
  case isTrue hskipped =>
    cases h
    exact .inl ⟨hskipped, rfl⟩
  case isFalse hchecked =>
    have hchecked' : ctx.isSkipped n = false := by simpa using hchecked
    cases hid : ctx.nodeIds.osmId? n with
    | none =>
      obtain ⟨osmId, hknown⟩ := (isSkipped_eq_false_iff.mp hchecked').known
      rw [hid] at hknown
      cases hknown
    | some osmId =>
      rw [hid] at h
      cases hmissing : ctx.missingAt n osmId with
      | error cause => simp [hmissing, bind, Except.bind] at h
      | ok missing =>
        simp only [hmissing, bind, Except.bind, pure, Except.pure, Except.ok.injEq] at h
        exact .inr ⟨osmId, missing, hchecked', rfl, hmissing, h.symm⟩

/-! ## Passes over parts of a range -/

variable (ctx)

theorem checkFrom_succ (start count : Nat) :
    ctx.checkFrom start (count + 1) =
      match ctx.checkNode start with
      | .error cause => .error ⟨start, ctx.nodeIds.osmId? start, cause⟩
      | .ok fs => (ctx.checkFrom (start + 1) count).map (fs ++ ·) := by
  rw [checkFrom]
  cases ctx.checkNode start with
  | error cause => rfl
  | ok fs => cases ctx.checkFrom (start + 1) count <;> rfl

theorem checkFrom_add (start m n : Nat) :
    ctx.checkFrom start (m + n) =
      (ctx.checkFrom start m).bind fun before =>
        (ctx.checkFrom (start + m) n).map (before ++ ·) := by
  induction m generalizing start with
  | zero =>
    rw [Nat.zero_add, Nat.add_zero]
    cases ctx.checkFrom start n <;> rfl
  | succ m ih =>
    rw [Nat.add_right_comm, checkFrom_succ, checkFrom_succ]
    cases ctx.checkNode start with
    | error cause => rfl
    | ok fs =>
      simp only [ih, show start + 1 + m = start + (m + 1) by omega]
      cases ctx.checkFrom (start + 1) m with
      | error e => rfl
      | ok before =>
        cases ctx.checkFrom (start + (m + 1)) n with
        | error e => rfl
        | ok after => simp [Except.map, Except.bind]

theorem checkRange_split {start mid stop : Nat} (hstart : start ≤ mid) (hstop : mid ≤ stop) :
    ctx.checkRange start stop =
      (ctx.checkRange start mid).bind fun before =>
        (ctx.checkRange mid stop).map (before ++ ·) := by
  have hcount : stop - start = (mid - start) + (stop - mid) := by omega
  have hmid : start + (mid - start) = mid := by omega
  rw [checkRange, hcount, checkFrom_add, hmid]
  rfl

variable {ctx}

/-- The error of a pass is that of one of its nodes, with the map id of that node. -/
theorem of_checkFrom_error {start count : Nat} {e : NodeError α}
    (h : ctx.checkFrom start count = .error e) :
    start ≤ e.node ∧ e.node < start + count ∧ e.osmId = ctx.nodeIds.osmId? e.node ∧
      ctx.checkNode e.node = .error e.cause := by
  induction count generalizing start with
  | zero => cases h
  | succ count ih =>
    rw [checkFrom_succ] at h
    cases hnode : ctx.checkNode start with
    | error cause =>
      rw [hnode] at h
      cases h
      exact ⟨le_rfl, by simp, rfl, hnode⟩
    | ok fs =>
      rw [hnode] at h
      cases hrest : ctx.checkFrom (start + 1) count with
      | ok later => simp [hrest, Except.map] at h
      | error e' =>
        simp only [hrest, Except.map, Except.error.injEq] at h
        subst h
        obtain ⟨hle, hlt, hid, hcause⟩ := ih hrest
        exact ⟨by omega, by omega, hid, hcause⟩

/-! ## The findings of a pass -/

/-- The findings of a node, none if it cannot be checked. -/
def findingsAt (ctx : AuditContext α) (n : Nat) : List (Finding α) :=
  match ctx.checkNode n with
  | .ok fs => fs
  | .error _ => []

theorem findingsAt_of_ok {n : Nat} {fs : List (Finding α)} (h : ctx.checkNode n = .ok fs) :
    ctx.findingsAt n = fs := by
  rw [findingsAt, h]

/-- A pass succeeds if every node can be checked, and its findings are those of the nodes. -/
theorem checkFrom_eq_ok_iff {start count : Nat} {fs : List (Finding α)} :
    ctx.checkFrom start count = .ok fs ↔
      (∀ n ∈ List.range' start count, ctx.checkNode n = .ok (ctx.findingsAt n)) ∧
        fs = (List.range' start count).flatMap ctx.findingsAt := by
  induction count generalizing start fs with
  | zero => simp [checkFrom, eq_comm]
  | succ count ih =>
    rw [checkFrom_succ, List.range'_succ, List.forall_mem_cons, List.flatMap_cons]
    cases hnode : ctx.checkNode start with
    | error cause => simp
    | ok gs =>
      rw [findingsAt_of_ok hnode]
      cases hrest : ctx.checkFrom (start + 1) count with
      | error e =>
        have hfails : ¬ ∀ n ∈ List.range' (start + 1) count,
            ctx.checkNode n = .ok (ctx.findingsAt n) := by
          intro hall
          have hok := ih.mpr ⟨hall, rfl⟩
          rw [hrest] at hok
          cases hok
        refine iff_of_false (by simp [Except.map]) ?_
        rintro ⟨⟨-, hall⟩, -⟩
        exact hfails hall
      | ok later =>
        obtain ⟨hall, rfl⟩ := ih.mp hrest
        simp only [Except.map, Except.ok.injEq, true_and]
        exact ⟨fun h => ⟨hall, h.symm⟩, fun h => h.2.symm⟩

theorem checkRange_eq_ok_iff {start stop : Nat} {fs : List (Finding α)} :
    ctx.checkRange start stop = .ok fs ↔
      (∀ n, start ≤ n → n < stop → ctx.checkNode n = .ok (ctx.findingsAt n)) ∧
        fs = (List.range' start (stop - start)).flatMap ctx.findingsAt := by
  rw [checkRange, checkFrom_eq_ok_iff]
  refine and_congr_left fun _ => forall_congr' fun n => ?_
  rw [List.mem_range'_1]
  constructor
  · intro h hstart hstop
    exact h ⟨hstart, by omega⟩
  · rintro h ⟨hstart, hstop⟩
    exact h hstart (by omega)

/-! ## A road that is stored three times -/

/-- A road between two nodes, stored once more from its other end and once more as an area. The
node of lower id is marked as having no exit. -/
def tripledRoad : AuditContext Float where
  graph :=
    { nodes := #[⟨⟨0, 0⟩, false⟩, ⟨⟨0, 1⟩, false⟩]
      edges := #[⟨0, 1, 5, default, []⟩, ⟨1, 0, 5, default, []⟩, ⟨0, 1, 5, ⟨RoadFlags.areaBit⟩, []⟩]
      ends := by decide }
  nodeIds := ⟨.nodes, #[IdTable.encodeRecord .nodes 10 true, 11]⟩
  wayIds := ⟨.ways, #[500, 501, 502]⟩
  barriers := default
  settings := default

/-- The two duplicates are found from the upper node, as the lower one is skipped. -/
theorem checkRange_tripledRoad :
    tripledRoad.checkRange 0 2 =
      .ok [.duplicate ⟨[⟨0, 1⟩, ⟨0, 0⟩], some 500, some 501, 1⟩,
        .duplicate ⟨[⟨0, 1⟩, ⟨0, 0⟩], some 501, some 502, 2⟩] := by
  rfl

end AuditContext
end RoadAudit
