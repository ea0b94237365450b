import RoadAudit.Audit.Finding
import RoadAudit.Batch.Range

/-! # The outcome of batches

What a job can come to, what a sink does with its findings, and how a run of jobs is summed up.
A run in ascending order is what any other run of the same jobs is measured by. -/

namespace RoadAudit

/-- What a job comes to: findings, an error of its own kind, or a panic. -/
inductive JobOutcome (α ε : Type) where
  | findings (fs : List (Finding α))
  | failed (cause : ε)
  | panicked (text : String)

/-- Why a run ends early. -/
inductive RunError (ε : Type) where
  | jobFailed (range : NodeRange) (cause : ε)
  | workerPanicked (range : NodeRange) (text : String)
  | sinkRefused (reason : String)

def RunError.message {ε : Type} (causeMessage : ε → String) : RunError ε → String
  | jobFailed r cause =>
    "Job for nodes " ++ toString r.start ++ ".." ++ toString r.stop ++ " failed: "
      ++ causeMessage cause
  | workerPanicked r text =>
    "Worker panicked while processing nodes " ++ toString r.start ++ ".." ++ toString r.stop
      ++ ": " ++ text
  | sinkRefused reason => "Failed to write findings: " ++ reason

/-- What a run has done: jobs, nodes, and findings of both kinds. -/
structure RunSummary where
  jobs : Nat
  nodes : Nat
  missing : Nat
  duplicated : Nat
deriving DecidableEq, Repr

namespace RunSummary

def zero : RunSummary := ⟨0, 0, 0, 0⟩

variable {α : Type}

def countFinding (s : RunSummary) : Finding α → RunSummary
  | .missing _ => { s with missing := s.missing + 1 }
  | .duplicate _ => { s with duplicated := s.duplicated + 1 }

def addJob (s : RunSummary) (r : NodeRange) (fs : List (Finding α)) : RunSummary :=
  let counted := fs.foldl countFinding s
  { counted with jobs := counted.jobs + 1, nodes := counted.nodes + r.size }

end RunSummary

/-- Something that takes findings and may refuse them; `σ` is what it holds. -/
structure FindingSink (σ α : Type) where
  write : σ → List (Finding α) → Except String σ

def FindingSink.collect {α : Type} : FindingSink (List (Finding α)) α :=
  ⟨fun held fs => .ok (held ++ fs)⟩

/-- What a sink holds and what has been summed up so far. -/
structure Written (σ : Type) where
  held : σ
  summary : RunSummary

def FindingSink.take {σ α ε : Type} (sink : FindingSink σ α) (w : Written σ) (r : NodeRange) :
    JobOutcome α ε → Except (RunError ε) (Written σ)
  | .findings fs =>
    match sink.write w.held fs with
    | .ok held => .ok ⟨held, w.summary.addJob r fs⟩
    | .error reason => .error (.sinkRefused reason)
  | .failed cause => .error (.jobFailed r cause)
  | .panicked text => .error (.workerPanicked r text)

/-- The jobs of some ranges done one after the other, up to the first error: what the sink holds
in the end, and the summary or the error. -/
def FindingSink.runInOrder {σ α ε : Type} (sink : FindingSink σ α)
    (job : NodeRange → JobOutcome α ε) : List NodeRange → Written σ →
    σ × Except (RunError ε) RunSummary
  | [], w => (w.held, .ok w.summary)
  | r :: rest, w =>
    match sink.take w r (job r) with
    | .ok w => sink.runInOrder job rest w
    | .error e => (w.held, .error e)

end RoadAudit
