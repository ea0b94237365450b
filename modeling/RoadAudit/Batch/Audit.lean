import RoadAudit.Audit.Words
import RoadAudit.Batch.Words

/-! # The audit of a graph

All nodes checked in batches, with the workers and the batch size of the settings. Priorities and
reports are reckoned in words: a job whose priorities have no room panics, and where a report has no
room, so does the audit. -/

namespace RoadAudit

namespace AuditContext

variable {α : Type} [Scalar α]

/-- The check of one batch as a job. -/
def checkJob (ctx : AuditContext α) (r : NodeRange) : JobOutcome α (NodeError α) :=
  match ctx.checkRangeInWords? r.start r.stop with
  | none => .panicked Word.overflowText
  | some (.ok fs) => .findings fs
  | some (.error e) => .failed e

def runPlan {σ : Type} (ctx : AuditContext α) (sink : FindingSink σ α) :
    RunPlan σ α (NodeError α) :=
  { count := ctx.graph.nodeCount
    batchSize := ctx.settings.batchSize
    workers := ctx.settings.workers
    job := ctx.checkJob
    sink := sink }

/-- What the sink holds after all nodes have been checked, and the summary or the error, unless a
report has no room. -/
def audit {σ : Type} (ctx : AuditContext α) (sink : FindingSink σ α) (held : σ) :
    Except ReportOverflow (σ × Except (RunError (NodeError α)) RunSummary) :=
  (ctx.runPlan sink).runInWords held

end AuditContext

end RoadAudit
