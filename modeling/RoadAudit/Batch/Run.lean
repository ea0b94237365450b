import RoadAudit.Batch.Outcome

/-! # Concurrent runs

A run of jobs on several workers whose findings still reach the sink in node order. Every job owns
a slot in a queue; workers fill slots in any order, and only a filled slot at the front is taken.
The state says which jobs wait, which are running and which slots are filled. What happens next
(the dispatcher takes a step, a worker starts a job, a worker completes one) is an event, so that a
run under any interleaving is a list of events. The reports of how far a run has got are no part of
the state: their clock runs beside it and can end the run before an event has its effect. -/

namespace RoadAudit

/-- What is to be run: jobs for batches of `count` nodes, on so many workers. -/
structure RunPlan (σ α ε : Type) where
  count : Nat
  batchSize : Nat
  workers : Nat
  job : NodeRange → JobOutcome α ε
  sink : FindingSink σ α

/-- A place in the queue for the outcome of one job. -/
structure Slot (α ε : Type) where
  seq : Nat
  range : NodeRange
  outcome : Option (JobOutcome α ε)

/-- A job handed to the workers. -/
structure Job where
  seq : Nat
  range : NodeRange
deriving DecidableEq, Repr

structure RunState (σ α ε : Type) where
  /-- The first node not yet in a batch. -/
  next : Nat
  /-- The number of batches so far. -/
  seq : Nat
  queue : List (Slot α ε)
  waiting : List Job
  running : List Job
  written : Written σ
  result : Option (Except (RunError ε) RunSummary)

/-- What can happen next in a run. -/
inductive RunEvent where
  /-- The dispatcher pushes a batch, takes the front slot or ends the run. -/
  | dispatch
  /-- A worker starts the waiting job at a position. -/
  | start (i : Nat)
  /-- A worker completes the running job at a position. -/
  | complete (i : Nat)

namespace RunPlan

variable {σ α ε : Type}

def workerCount (p : RunPlan σ α ε) : Nat := max p.workers 1

def begin (held : σ) : RunState σ α ε := ⟨0, 0, [], [], [], ⟨held, RunSummary.zero⟩, none⟩

/-- The queue with an outcome put into the slot of a job, if it is still there: numbers in the
queue are consecutive, so the slot's place follows from the number at the front. -/
def fill (queue : List (Slot α ε)) (seq : Nat) (outcome : JobOutcome α ε) : List (Slot α ε) :=
  match queue with
  | [] => []
  | front :: rest =>
    if front.seq ≤ seq then
      (front :: rest).modify (seq - front.seq) fun s => { s with outcome := some outcome }
    else front :: rest

/-- The state after the next batch has been pushed and handed to the workers. -/
def push (p : RunPlan σ α ε) (s : RunState σ α ε) : RunState σ α ε :=
  let range := NodeRange.batchAt p.count (max p.batchSize 1) s.next
  { s with
    next := range.stop
    seq := s.seq + 1
    queue := s.queue ++ [⟨s.seq, range, none⟩]
    waiting := s.waiting ++ [⟨s.seq, range⟩] }

/-- The state after the outcome in the front slot has been passed on; an error empties the queue
and ends the run. The report that may be due now is the matter of `clockAfter`. -/
def takeFront (p : RunPlan σ α ε) (s : RunState σ α ε) (range : NodeRange)
    (outcome : JobOutcome α ε) (rest : List (Slot α ε)) : RunState σ α ε :=
  match p.sink.take s.written range outcome with
  | .ok w => { s with queue := rest, written := w }
  | .error e => { s with queue := [], result := some (.error e) }

/-- The dispatcher's next step: none while it waits for the front slot and after the end. It
pushes while fewer jobs are in flight than there are workers, and takes the front slot
otherwise. -/
def dispatch? (p : RunPlan σ α ε) (s : RunState σ α ε) : Option (RunState σ α ε) :=
  if s.result.isSome then none
  else if s.queue.length < p.workerCount ∧ s.next < p.count then some (p.push s)
  else
    match s.queue with
    | [] => some { s with result := some (.ok s.written.summary) }
    | front :: rest =>
      match front.outcome with
      | none => none
      | some outcome => some (p.takeFront s front.range outcome rest)

def start (s : RunState σ α ε) (i : Nat) : RunState σ α ε :=
  match s.waiting[i]? with
  | none => s
  | some job =>
    { s with
      waiting := s.waiting.eraseIdx i
      running := if s.result.isSome then s.running else s.running ++ [job] }

/-- The state after a worker has completed the running job at a position. -/
def complete (p : RunPlan σ α ε) (s : RunState σ α ε) (i : Nat) : RunState σ α ε :=
  match s.running[i]? with
  | none => s
  | some job =>
    { s with
      running := s.running.eraseIdx i
      queue := fill s.queue job.seq (p.job job.range) }

/-- The state after an event, as long as the clock of the reports has room; an event that is not
possible changes nothing. -/
def step (p : RunPlan σ α ε) (s : RunState σ α ε) : RunEvent → RunState σ α ε
  | .dispatch => (p.dispatch? s).getD s
  | .start i => start s i
  | .complete i => p.complete s i

def after (p : RunPlan σ α ε) (s : RunState σ α ε) (events : List RunEvent) : RunState σ α ε :=
  events.foldl p.step s

/-! ## What is left to do -/

/-- How much a run still has to do. -/
def work (p : RunPlan σ α ε) (s : RunState σ α ε) : Nat :=
  4 * (p.count - s.next) + 2 * s.waiting.length + s.running.length + s.queue.length
    + s.result.isNone.toNat

@[simp] theorem length_fill (queue : List (Slot α ε)) (seq : Nat) (o : JobOutcome α ε) :
    (fill queue seq o).length = queue.length := by
  cases queue with
  | nil => rfl
  | cons front rest =>
    simp only [fill]
    split <;> simp

theorem work_push (p : RunPlan σ α ε) (s : RunState σ α ε) (h : s.next < p.count) :
    p.work (p.push s) < p.work s := by
  have := Nat.le_max_right p.batchSize 1
  simp only [work, push, NodeRange.batchAt, List.length_append, List.length_singleton]
  omega

theorem work_takeFront (p : RunPlan σ α ε) (s : RunState σ α ε) (front : Slot α ε)
    (outcome : JobOutcome α ε) (rest : List (Slot α ε)) (h : s.queue = front :: rest) :
    p.work (p.takeFront s front.range outcome rest) < p.work s := by
  cases taken : p.sink.take s.written front.range outcome with
  | ok w => simp [work, takeFront, taken, h]
  | error e => simp [work, takeFront, taken, h]; omega

theorem work_dispatch? (p : RunPlan σ α ε) {s t : RunState σ α ε} (h : p.dispatch? s = some t) :
    p.work t < p.work s := by
  unfold dispatch? at h
  split at h
  · simp at h
  · next open' =>
    split at h
    · next more => cases h; exact p.work_push s more.2
    · split at h
      · next empty =>
        cases h
        have : s.result = none := by simpa using open'
        simp [work, this]
      · next front rest queue =>
        split at h
        · simp at h
        · cases h; exact p.work_takeFront s front _ rest queue

end RunPlan

end RoadAudit
