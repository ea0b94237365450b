import RoadAudit.Batch.Run
import RoadAudit.Numeric.Word

/-! # Runs in words

Nodes are counted in words of 32 bits. The sum that gives the end of a batch is held at the greatest
word. A run also reports how far it has got, at about every eighth of its nodes: once the findings
of a batch have been written, the node at which the next report is due is moved past the end of the
batch. That sum is not held back, and where it has no room in a word, the run ends without an
outcome. -/

namespace RoadAudit

namespace Word

def saturatingAdd (a b : UInt32) : UInt32 := UInt32.ofNat (min (a.toNat + b.toNat) (size32 - 1))

theorem toNat_min (a b : UInt32) : (min a b).toNat = min a.toNat b.toNat := by
  change (if a ≤ b then a else b).toNat = _
  split
  · next le => rw [Nat.min_eq_left (UInt32.le_iff_toNat_le.mp le)]
  · next gt => rw [Nat.min_eq_right (Nat.le_of_not_le (mt UInt32.le_iff_toNat_le.mpr gt))]

theorem toNat_max (a b : UInt32) : (max a b).toNat = max a.toNat b.toNat := by
  change (if a ≤ b then b else a).toNat = _
  split
  · next le => rw [Nat.max_eq_right (UInt32.le_iff_toNat_le.mp le)]
  · next gt => rw [Nat.max_eq_left (Nat.le_of_not_le (mt UInt32.le_iff_toNat_le.mpr gt))]

end Word

namespace NodeRange

def stopInWords (count batchSize start : UInt32) : UInt32 :=
  min (Word.saturatingAdd start (max batchSize 1)) count

theorem toNat_stopInWords (count batchSize start : UInt32) :
    (stopInWords count batchSize start).toNat =
      min (start.toNat + max batchSize.toNat 1) count.toNat := by
  have hcount := count.toNat_lt
  have hone : (1 : UInt32).toNat = 1 := rfl
  rw [stopInWords, Word.toNat_min, Word.saturatingAdd, Word.toNat_max, hone,
    UInt32.toNat_ofNat_of_lt']
  · simp only [Word.size32]
    omega
  · simp only [Word.size32, UInt32.size]
    omega

/-- The batches from `start` on, as they are cut in words; a batch size of zero counts as one. -/
def batchesInWordsFrom (count batchSize start : UInt32) : List NodeRange :=
  if start < count then
    ⟨start.toNat, (stopInWords count batchSize start).toNat⟩
      :: batchesInWordsFrom count batchSize (stopInWords count batchSize start)
  else []
termination_by count.toNat - start.toNat
decreasing_by
  have hstart : start.toNat < count.toNat := UInt32.lt_iff_toNat_lt.mp ‹start < count›
  rw [toNat_stopInWords]
  omega

def batchesInWords (count batchSize : UInt32) : List NodeRange :=
  batchesInWordsFrom count batchSize 0

end NodeRange

/-- The node of a report and the nodes to the next one, where their sum has no room in a word. -/
structure ReportOverflow where
  due : Nat
  step : Nat
deriving DecidableEq, Repr

/-- The node at which the next report of a run is due, and how far reports are apart. -/
structure ReportClock where
  due : Nat
  step : Nat
  step_pos : 0 < step

namespace ReportClock

/-- The clock at the beginning of a run: a report at every eighth of the nodes. -/
def start (count : Nat) : ReportClock := ⟨max (count / 8) 1, max (count / 8) 1, by omega⟩

/-- The clock moved on, step by step, until the next report is due past `stop`. -/
def past (c : ReportClock) (stop : Nat) : Except ReportOverflow ReportClock :=
  if c.due ≤ stop then
    if c.due + c.step < Word.size32 then past { c with due := c.due + c.step } stop
    else .error ⟨c.due, c.step⟩
  else .ok c
termination_by stop + 1 - c.due
decreasing_by
  have := c.step_pos
  omega

/-- The clock after the findings of a batch have been written. At the end of the last batch there is
no report. -/
def afterBatch (count : Nat) (c : ReportClock) (r : NodeRange) :
    Except ReportOverflow ReportClock :=
  if c.due ≤ r.stop ∧ r.stop < count then c.past r.stop else .ok c

end ReportClock

/-- The jobs of some ranges done one after the other in words, up to the first error: what the sink
holds in the end, and the summary or the error, unless a report has no room before that. -/
def FindingSink.runInOrderInWords {σ α ε : Type} (sink : FindingSink σ α)
    (job : NodeRange → JobOutcome α ε) (count : Nat) : List NodeRange → Written σ → ReportClock →
    Except ReportOverflow (σ × Except (RunError ε) RunSummary)
  | [], w, _ => .ok (w.held, .ok w.summary)
  | r :: rest, w, clock =>
    match sink.take w r (job r) with
    | .ok w =>
      match clock.afterBatch count r with
      | .ok clock => sink.runInOrderInWords job count rest w clock
      | .error overflow => .error overflow
    | .error e => .ok (w.held, .error e)

/-- A run with the clock of its reports. -/
structure ReportingState (σ α ε : Type) where
  state : RunState σ α ε
  clock : ReportClock

namespace RunPlan

variable {σ α ε : Type}

def beginInWords (p : RunPlan σ α ε) (held : σ) : ReportingState σ α ε :=
  ⟨begin held, ReportClock.start p.count⟩

/-- The batch whose findings the dispatcher's next step writes, if it writes any. -/
def nextWritten? (p : RunPlan σ α ε) (s : RunState σ α ε) : Option NodeRange :=
  if s.result.isSome ∨ (s.queue.length < p.workerCount ∧ s.next < p.count) then none
  else
    match s.queue with
    | [] => none
    | front :: _ =>
      match front.outcome with
      | none => none
      | some outcome =>
        match p.sink.take s.written front.range outcome with
        | .ok _ => some front.range
        | .error _ => none

/-- The clock after an event: it is moved on where findings have been written. -/
def clockAfter (p : RunPlan σ α ε) (s : ReportingState σ α ε) :
    RunEvent → Except ReportOverflow ReportClock
  | .dispatch =>
    match p.nextWritten? s.state with
    | some r => s.clock.afterBatch p.count r
    | none => .ok s.clock
  | .start _ | .complete _ => .ok s.clock

/-- A run in words after an event, unless a report has no room. -/
def stepInWords (p : RunPlan σ α ε) (s : ReportingState σ α ε) (e : RunEvent) :
    Except ReportOverflow (ReportingState σ α ε) :=
  (p.clockAfter s e).map fun clock => ⟨p.step s.state e, clock⟩

def afterInWords (p : RunPlan σ α ε) (s : ReportingState σ α ε) (events : List RunEvent) :
    Except ReportOverflow (ReportingState σ α ε) :=
  events.foldlM p.stepInWords s

/-! ## A run to its end -/

/-- What happens next where every worker is as eager as it can be, the oldest job first: the
dispatcher goes on while it can; while it waits, the oldest running job is completed, or, if there
is none, the oldest waiting job is started. Nothing happens after the end. -/
def eagerEvent? (p : RunPlan σ α ε) (s : RunState σ α ε) : Option RunEvent :=
  if (p.dispatch? s).isSome then some .dispatch
  else if s.result.isSome then none
  else if s.running ≠ [] then some (.complete 0)
  else if s.waiting ≠ [] then some (.start 0)
  else none

theorem work_eagerEvent? (p : RunPlan σ α ε) {s : RunState σ α ε} {e : RunEvent}
    (h : p.eagerEvent? s = some e) : p.work (p.step s e) < p.work s := by
  unfold eagerEvent? at h
  split at h
  · next some' =>
    cases h
    obtain ⟨t, taken⟩ := Option.isSome_iff_exists.mp some'
    rw [step, taken]
    exact p.work_dispatch? taken
  · split at h
    · cases h
    · next open' =>
      split at h
      · next runs =>
        cases h
        obtain ⟨job, rest, eq⟩ := List.exists_cons_of_ne_nil runs
        simp [step, work, complete, eq]
      · split at h
        · next waits =>
          cases h
          obtain ⟨job, rest, eq⟩ := List.exists_cons_of_ne_nil waits
          simp [step, work, start, eq, open']
          omega
        · cases h

def finishInWords (p : RunPlan σ α ε) (s : ReportingState σ α ε) :
    Except ReportOverflow (ReportingState σ α ε) :=
  match _next : p.eagerEvent? s.state with
  | none => .ok s
  | some e =>
    match p.clockAfter s e with
    | .error overflow => .error overflow
    | .ok clock => p.finishInWords ⟨p.step s.state e, clock⟩
termination_by p.work s.state
decreasing_by exact p.work_eagerEvent? _next

/-- What the sink holds after a run in words, and the summary or the error, unless a report has no
room. -/
def runInWords (p : RunPlan σ α ε) (held : σ) :
    Except ReportOverflow (σ × Except (RunError ε) RunSummary) :=
  (p.finishInWords (p.beginInWords held)).map fun s =>
    (s.state.written.held, s.state.result.getD (.ok s.state.written.summary))

end RunPlan

end RoadAudit
