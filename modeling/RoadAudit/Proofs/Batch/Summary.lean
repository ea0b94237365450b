import Mathlib.Tactic
import RoadAudit.Proofs.Batch.InWords

/-! # The summary of a run in words

Batches cut in words are all nodes, so where nothing fails the jobs and nodes of a summary follow
from their numbers, and its findings are those handed to the sink. Whether a run in words comes to
that summary is a matter of its reports alone. -/

namespace RoadAudit

/-! ## A run whose findings are all written -/

theorem length_missingOf_add_duplicatesOf {α : Type} (fs : List (Finding α)) :
    (missingOf fs).length + (duplicatesOf fs).length = fs.length := by
  induction fs with
  | nil => rfl
  | cons f rest ih =>
    cases f with
    | missing m =>
      rw [missingOf_cons_missing, duplicatesOf_cons_missing, List.length_cons, List.length_cons]
      omega
    | duplicate d =>
      rw [missingOf_cons_duplicate, duplicatesOf_cons_duplicate, List.length_cons, List.length_cons]
      omega

namespace RunPlan

variable {σ α ε : Type} {p : RunPlan σ α ε} {held : σ}

/-- Whatever the number of nodes and the batch size, the batches cut in words are all nodes, one
after the other. Where all jobs give findings and the sink takes them, a run comes to their summary,
whatever the number of workers and the interleaving, unless its reports overrun; then it comes to no
result at all. -/
theorem summed_unless_reportsOverrun (count batchSize : UInt32) (workers : Nat)
    (job : NodeRange → JobOutcome α ε) (sink : FindingSink σ α) (held : σ) :
    let ranges := NodeRange.batchesInWords count batchSize
    let p : RunPlan σ α ε := ⟨count.toNat, batchSize.toNat, workers, job, sink⟩
    NodeRange.IsCut count.toNat batchSize.toNat ranges ∧
    ranges = NodeRange.batches p.count p.batchSize ∧
    ∀ found last, ranges.map job = found.map .findings → sink.writeAll held found = .ok last →
      (missingOf found.flatten).length + (duplicatesOf found.flatten).length
        = found.flatten.length ∧
      (¬ ReportsOverrun count.toNat batchSize.toNat → p.Returns held (last, .ok
        { jobs := count.toNat ⌈/⌉ max batchSize.toNat 1
          nodes := count.toNat
          missing := (missingOf found.flatten).length
          duplicated := (duplicatesOf found.flatten).length })) ∧
      (ReportsOverrun count.toNat batchSize.toNat → p.Overflows held) := by
  intro ranges p
  have hranges : ranges = NodeRange.batches p.count p.batchSize :=
    NodeRange.batchesInWords_eq count batchSize
  have hcount : count.toNat < Word.size32 := count.toNat_lt
  refine ⟨hranges ▸ NodeRange.isCut_batches p.count p.batchSize, hranges,
    fun found last hjobs hwritten => ?_⟩
  obtain ⟨hreturns, hoverflows⟩ :=
    returnsUnless_of_writeAll (p := p) hcount (hranges ▸ hjobs) hwritten
  exact ⟨length_missingOf_add_duplicatesOf _, hreturns, hoverflows⟩

/-- A gap of two metres at the node that the second of three batches begins with. -/
def gapAtBorder : MissingConnection Nat where
  openEnd := ⟨50, 8⟩
  snapPoint := ⟨50, 9⟩
  distance := 2
  nodeId := 1500000000
  osmId := 42
  position := .tower
  roadClass := .residential
  isPrivate := false
  priority := 3

def doubleRoad : DuplicatedEdge Nat where
  geometry := [⟨50, 8⟩, ⟨50, 9⟩]
  firstWay := some 7
  secondWay := some 9
  rank := 1

/-- Nothing in the first batch, one finding in the second, two in the last. -/
def borderFindings (r : NodeRange) : List (Finding Nat) :=
  if r.start = 0 then []
  else if r.start = 1500000000 then [.missing gapAtBorder]
  else [.duplicate doubleRoad, .missing gapAtBorder]

/-- As many nodes as there can be, in three batches. -/
theorem summed_unless_reportsOverrun_threeBatches :
    let ranges := NodeRange.batchesInWords 4294967295 1500000000
    let p : RunPlan (List (Finding Nat)) Nat Empty :=
      ⟨4294967295, 1500000000, 2, fun r => .findings (borderFindings r), .collect⟩
    let found : List (List (Finding Nat)) :=
      [[], [.missing gapAtBorder], [.duplicate doubleRoad, .missing gapAtBorder]]
    ranges.map p.job = found.map .findings ∧
    p.sink.writeAll [] found = .ok found.flatten ∧
    ¬ ReportsOverrun 4294967295 1500000000 ∧
    p.Returns [] (found.flatten, .ok ⟨3, 4294967295, 2, 1⟩) := by
  intro ranges p found
  have hranges : ranges =
      [⟨0, 1500000000⟩, ⟨1500000000, 3000000000⟩, ⟨3000000000, 4294967295⟩] := by
    have hsame : ranges = NodeRange.batches 4294967295 1500000000 :=
      NodeRange.batchesInWords_eq 4294967295 1500000000
    rw [hsame]
    simp [NodeRange.batches, NodeRange.batchesFrom_of_lt, NodeRange.batchesFrom_of_le,
      NodeRange.batchAt]
  have hjobs : ranges.map p.job = found.map .findings := by
    rw [hranges]
    rfl
  have hwritten : p.sink.writeAll [] found = .ok found.flatten := rfl
  have hroom : ¬ ReportsOverrun 4294967295 1500000000 := by decide
  obtain ⟨-, -, hsummed⟩ := summed_unless_reportsOverrun 4294967295 1500000000 2 p.job p.sink []
  exact ⟨hjobs, hwritten, hroom, (hsummed found _ hjobs hwritten).2.1 hroom⟩

/-- The first of two batches ends where the ninth report is called for. -/
theorem runInWords_overflow_ninthReport :
    let p : RunPlan Unit Nat Empty :=
      ⟨4294967295, 4294967288, 1, fun _ => .findings [], ⟨fun held _ => .ok held⟩⟩
    (∀ r, p.job r = .findings []) ∧ (∀ held fs, p.sink.write held fs = .ok held) ∧
    p.runInWords () = .error ⟨4294967288, 536870911⟩ ∧ ∀ outcome, ¬ p.Returns () outcome := by
  intro p
  have hrun : p.runInWords () = .error ⟨4294967288, 536870911⟩ :=
    runInWords_ninthReport rfl rfl rfl rfl
  refine ⟨fun _ => rfl, fun _ _ => rfl, hrun, fun outcome h => ?_⟩
  have hreturn := h.run
  rw [hrun] at hreturn
  cases hreturn

end RunPlan
end RoadAudit
