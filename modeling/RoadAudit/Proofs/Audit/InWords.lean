import RoadAudit.Audit.Words
import RoadAudit.Proofs.Audit.Gaps
import RoadAudit.Proofs.Audit.PriorityOrder

/-! # Checks in words

A check in words is the check itself wherever the sums behind a priority have room. What can be
added to the number of a table is bounded, so with numbers that leave that much room every check in
words is the check itself; the rows used by default do. -/

namespace RoadAudit

open scoped Scalar

namespace PriorityTable

/-- Whether the numbers of a table are words. -/
def IsInWords (t : PriorityTable) : Prop :=
  ∀ c row, t.row? c = some row → ∀ b : Fin 4, row.get b ≤ Word.greatest

/-- Whether the numbers of a table leave room for all that can be added to them. -/
def HasRoom (t : PriorityTable) : Prop :=
  ∀ c row, t.row? c = some row → ∀ b : Fin 4, row.get b + 1 + suppression ≤ Word.greatest

theorem HasRoom.isInWords {t : PriorityTable} (h : t.HasRoom) : t.IsInWords := by
  intro c row hrow b
  have hentry := h c row hrow b
  rw [suppression] at hentry
  omega

theorem hasRoom_default : (default : PriorityTable).HasRoom := by
  intro c row hrow
  cases c <;> cases hrow <;> decide

variable {α : Type} [Scalar α] {t : PriorityTable} {c : RoadClass} {isPrivate : Bool}
  {distance maxDistance : α}

theorem number_le {bound : Int} (hbound : 0 ≤ bound)
    (h : ∀ row, t.row? c = some row → ∀ b : Fin 4, row.get b ≤ bound) :
    t.number c distance maxDistance ≤ bound := by
  cases hrow : t.row? c with
  | some row =>
    rw [number_of_row hrow]
    exact h row hrow _
  | none =>
    have hzero : ∀ b : Fin 4, (#v[0, 0, 0, 0] : PriorityRow).get b = 0 := by decide
    rw [number, hrow, Option.getD_none]
    exact (hzero _).trans_le hbound

theorem base_le (t : PriorityTable) (c : RoadClass) (isPrivate : Bool)
    (distance maxDistance : α) : t.base c isPrivate distance maxDistance ≤
      max (t.number c distance maxDistance) 0 + 1 := by
  have hbase : t.base c isPrivate distance maxDistance =
      if t.number c distance maxDistance ≤ 0 then 0
      else nearMiss distance (t.number c distance maxDistance) + if isPrivate then 1 else 0 := rfl
  have hle := nearMiss_le distance (t.number c distance maxDistance)
  rw [hbase]
  split
  · omega
  · split <;> omega

end PriorityTable

namespace AuditContext

variable {α : Type} [Scalar α]

/-- Whether a sum behind the priority of a match has no room. -/
def LacksRoom (ctx : AuditContext α) (n : Nat) (openEnd : Point α) (e : EdgeView α) (s : Snap α) :
    Prop :=
  ctx.barriers.crosses openEnd s.snapped = false ∧ (Word.greatest < ctx.basePriority e s ∨
    0 < ctx.basePriority e s ∧ ∃ added, ctx.decrement n openEnd e s = .ok added ∧
      Word.greatest < ctx.basePriority e s + added)

/-- Whether a node is checked and is a dead end with a match that lacks room. -/
def NodeLacksRoom (ctx : AuditContext α) (n : Nat) : Prop :=
  ctx.IsChecked n ∧ ∃ e openEnd s, ctx.deadEnd? n = some e ∧ ctx.graph.point? n = some openEnd ∧
    ctx.match? n openEnd e = some s ∧ ctx.LacksRoom n openEnd e s

variable {ctx : AuditContext α} {n start stop count : Nat} {osmId : UInt64} {openEnd : Point α}
  {e : EdgeView α} {s : Snap α}

theorem decrement_bounds {added : Int} (h : ctx.decrement n openEnd e s = .ok added) :
    0 ≤ added ∧ added ≤ suppression := by
  unfold decrement at h
  dsimp only at h
  split at h
  · unfold besideDriveway at h
    cases hheading : ctx.openHeading openEnd e with
    | error cause => simp [hheading, bind, Except.bind] at h
    | ok heading =>
      cases hangle : ctx.matchedAngle heading s with
      | error cause => simp [hheading, hangle, bind, Except.bind] at h
      | ok angle =>
        simp only [hheading, hangle, bind, Except.bind, pure, Except.pure, Except.ok.injEq] at h
        rw [← h]
        split <;> decide
  · split at h
    · cases hround : ctx.wayRound n s with
      | error cause => simp [hround, bind, Except.bind] at h
      | ok r =>
        simp only [hround, bind, Except.bind, pure, Except.pure, Except.ok.injEq] at h
        rw [← h, shortcut]
        dsimp only
        split
        · split
          · decide
          · split <;> decide
        · decide
    · cases h
      decide

section

variable (hwords : ctx.settings.priorities.IsInWords)
include hwords

theorem baseInWords?_settings : ctx.settings.priorities.baseInWords? e.edge.flags.roadClass
    e.edge.flags.isPrivate s.distance ctx.settings.radius =
      if ctx.basePriority e s ≤ Word.greatest then some (ctx.basePriority e s) else none :=
  PriorityTable.baseInWords?_eq (PriorityTable.number_le (by decide) (hwords _))

theorem gapInWords?_cases :
    (ctx.LacksRoom n openEnd e s ∧ ctx.gapInWords? n osmId openEnd e s = none) ∨
      (¬ ctx.LacksRoom n openEnd e s ∧
        ctx.gapInWords? n osmId openEnd e s = some (ctx.gapAt n osmId openEnd e s)) := by
  rw [gapAt_eq, gapInWords?, baseInWords?_settings hwords]
  unfold LacksRoom
  cases hcross : ctx.barriers.crosses openEnd s.snapped with
  | true => exact .inr ⟨nofun, rfl⟩
  | false =>
    simp only [Bool.false_eq_true, if_false, true_and]
    by_cases hbase : ctx.basePriority e s ≤ Word.greatest
    · rw [if_pos hbase]
      dsimp only
      by_cases hpos : ctx.basePriority e s ≤ 0
      · rw [if_pos hpos, if_pos hpos]
        exact .inr ⟨by omega, rfl⟩
      · rw [if_neg hpos, if_neg hpos]
        cases hadded : ctx.decrement n openEnd e s with
        | error cause =>
          refine .inr ⟨?_, rfl⟩
          rintro (hover | ⟨-, added, hadded', -⟩)
          · omega
          · cases hadded'
        | ok added =>
          obtain ⟨hadd, -⟩ := decrement_bounds hadded
          by_cases hsum : ctx.basePriority e s + added ≤ Word.greatest
          · have hleast : Word.least ≤ ctx.basePriority e s + added :=
              (show Word.least ≤ 0 by decide).trans (by omega)
            have hsigned : Word.isSigned (ctx.basePriority e s + added) = true := by
              simp [Word.isSigned, hleast, hsum]
            refine .inr ⟨?_, ?_⟩
            · rintro (hover | ⟨-, added', hadded', hover⟩)
              · omega
              · cases hadded'
                omega
            · simp only [Word.sum?, hsigned, if_true, Option.map_some, Except.map, connection]
          · have hsigned : Word.isSigned (ctx.basePriority e s + added) = false := by
              simp [Word.isSigned, hsum]
            refine .inl ⟨.inr ⟨by omega, added, rfl, by omega⟩, ?_⟩
            simp [Word.sum?, hsigned]
    · rw [if_neg hbase]
      exact .inl ⟨.inl (by omega), rfl⟩

/-- A node is checked in words as it is in whole numbers, unless a sum has no room. -/
theorem checkNodeInWords?_cases (n : Nat) :
    (ctx.NodeLacksRoom n ∧ ctx.checkNodeInWords? n = none) ∨
      (¬ ctx.NodeLacksRoom n ∧ ctx.checkNodeInWords? n = some (ctx.checkNode n)) := by
  unfold checkNodeInWords? checkNode NodeLacksRoom
  cases hskipped : ctx.isSkipped n with
  | true =>
    refine .inr ⟨fun h => ?_, rfl⟩
    rw [isSkipped_eq_false_iff.mpr h.1] at hskipped
    cases hskipped
  | false =>
    have hchecked := isSkipped_eq_false_iff.mp hskipped
    obtain ⟨osmId, hid⟩ := hchecked.known
    have hresult : ∀ r : Except (CheckError α) (Option (MissingConnection α)),
        (r.map fun m => (ctx.duplicatesAt n).map Finding.duplicate ++
          (m.map Finding.missing).toList) =
            (do return (ctx.duplicatesAt n).map Finding.duplicate ++
              ((← r).map Finding.missing).toList) := by
      intro r
      cases r <;> rfl
    simp only [hid, Bool.false_eq_true, if_false, hchecked, true_and]
    unfold missingInWords? missingAt
    cases hdead : ctx.deadEnd? n with
    | none => exact .inr ⟨by simp, rfl⟩
    | some e =>
      cases hplace : ctx.graph.point? n with
      | none => exact .inr ⟨by simp, rfl⟩
      | some openEnd =>
        cases hmatch : ctx.match? n openEnd e with
        | none => exact .inr ⟨by simp [hmatch], by simp only [hmatch]; rfl⟩
        | some s =>
          simp only [hmatch]
          have hgap : ctx.LacksRoom n openEnd e s ∧
              ctx.gapInWords? n osmId openEnd e s = none ∨ _ := gapInWords?_cases hwords
          rcases hgap with ⟨hlacks, hnone⟩ | ⟨hroom, hsome⟩
          · refine .inl ⟨⟨e, openEnd, s, rfl, rfl, hmatch, hlacks⟩, ?_⟩
            rw [hnone]
            rfl
          · refine .inr ⟨?_, ?_⟩
            · rintro ⟨e', openEnd', s', he, ho, hs, hlacks⟩
              cases he
              cases ho
              cases hmatch.symm.trans hs
              exact hroom hlacks
            · rw [hsome, Option.map_some, hresult]

/-- Wherever the sums of a pass have room in words, it comes to what the pass comes to. -/
theorem checkRange_of_inWords {r : Except (NodeError α) (List (Finding α))}
    (h : ctx.checkRangeInWords? start stop = some r) : ctx.checkRange start stop = r := by
  unfold checkRangeInWords? at h
  unfold checkRange
  generalize stop - start = count at h ⊢
  induction count generalizing start r with
  | zero => exact Option.some.inj h
  | succ count ih =>
    rw [checkFromInWords?] at h
    rw [checkFrom_succ]
    rcases checkNodeInWords?_cases hwords start with ⟨-, hnone⟩ | ⟨-, hnode⟩
    · rw [hnone] at h
      cases h
    · rw [hnode] at h
      cases hcheck : ctx.checkNode start with
      | error cause =>
        rw [hcheck] at h
        exact Option.some.inj h
      | ok fs =>
        simp only [hcheck, Option.map_eq_some_iff] at h
        obtain ⟨later, hlater, rfl⟩ := h
        rw [ih hlater]

theorem checkRangeInWords?_eq (h : ∀ n, start ≤ n → n < stop → ¬ ctx.NodeLacksRoom n) :
    ctx.checkRangeInWords? start stop = some (ctx.checkRange start stop) := by
  unfold checkRangeInWords? checkRange
  generalize hcount : stop - start = count
  induction count generalizing start with
  | zero => rfl
  | succ count ih =>
    rw [checkFromInWords?, checkFrom_succ]
    rcases checkNodeInWords?_cases hwords start with ⟨hlacks, -⟩ | ⟨-, hnode⟩
    · exact absurd hlacks (h start le_rfl (by omega))
    · rw [hnode]
      cases ctx.checkNode start with
      | error cause => rfl
      | ok fs =>
        have hlater : ∀ n, start + 1 ≤ n → n < stop → ¬ ctx.NodeLacksRoom n :=
          fun n hle hlt => h n (by omega) hlt
        simp only [ih hlater (by omega), Option.map_some]

end

theorem not_nodeLacksRoom (h : ctx.settings.priorities.HasRoom) (n : Nat) :
    ¬ ctx.NodeLacksRoom n := by
  rintro ⟨-, e, openEnd, s, -, -, -, -, hlacks⟩
  have hnumber : ctx.settings.priorities.number e.edge.flags.roadClass s.distance
      ctx.settings.radius ≤ Word.greatest - 1 - suppression :=
    PriorityTable.number_le (by decide) fun row hrow b => by
      have hentry := h _ row hrow b
      omega
  have hbase : ctx.basePriority e s ≤ max _ 0 + 1 := PriorityTable.base_le _ _ _ _ _
  have hroom : 1 + suppression ≤ Word.greatest := by decide
  rw [suppression] at hnumber hroom
  rcases hlacks with hover | ⟨-, added, hadded, hover⟩
  · omega
  · obtain ⟨-, hadd⟩ := decrement_bounds hadded
    rw [suppression] at hadd
    omega

/-! ## Passes over parts of a range -/

theorem checkFromInWords?_add (ctx : AuditContext α) (start m n : Nat) :
    ctx.checkFromInWords? start (m + n) =
      match ctx.checkFromInWords? start m with
      | some (.ok before) =>
        (ctx.checkFromInWords? (start + m) n).map fun after => after.map (before ++ ·)
      | stopped => stopped := by
  induction m generalizing start with
  | zero =>
    rw [Nat.zero_add, Nat.add_zero, checkFromInWords?]
    cases ctx.checkFromInWords? start n with
    | none => rfl
    | some r => cases r <;> rfl
  | succ m ih =>
    rw [Nat.add_right_comm, checkFromInWords?, checkFromInWords?]
    cases ctx.checkNodeInWords? start with
    | none => rfl
    | some node =>
      cases node with
      | error cause => rfl
      | ok fs =>
        simp only [ih, show start + 1 + m = start + (m + 1) by omega]
        cases ctx.checkFromInWords? (start + 1) m with
        | none => rfl
        | some before =>
          cases before with
          | error e => rfl
          | ok before =>
            cases ctx.checkFromInWords? (start + (m + 1)) n with
            | none => rfl
            | some after => cases after <;> simp [Except.map]

theorem bounds_of_checkFromInWords? {err : NodeError α}
    (h : ctx.checkFromInWords? start count = some (.error err)) :
    start ≤ err.node ∧ err.node < start + count := by
  induction count generalizing start with
  | zero => cases h
  | succ count ih =>
    rw [checkFromInWords?] at h
    split at h
    · cases h
    · cases h
      exact ⟨le_rfl, by simp⟩
    · obtain ⟨later, hlater, hmap⟩ := Option.map_eq_some_iff.mp h
      cases later with
      | ok fs => cases hmap
      | error e =>
        cases hmap
        obtain ⟨hle, hlt⟩ := ih hlater
        exact ⟨by omega, by omega⟩

end AuditContext
end RoadAudit
