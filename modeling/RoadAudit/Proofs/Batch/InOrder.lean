import RoadAudit.Batch.Outcome
import RoadAudit.Proofs.Audit.Pass

/-! # Runs in ascending order

What `FindingSink.runInOrder` comes to, said without its recursion: either every job gives findings
and the sink has been handed all of them, batch after batch, or there is a first batch that stops
the run, everything before it has been written once and nothing after it. -/

namespace RoadAudit

namespace RunSummary

variable {α : Type}

def plus (s : RunSummary) (jobs nodes : Nat) (fs : List (Finding α)) : RunSummary :=
  ⟨s.jobs + jobs, s.nodes + nodes, s.missing + (missingOf fs).length,
    s.duplicated + (duplicatesOf fs).length⟩

theorem foldl_countFinding (s : RunSummary) (fs : List (Finding α)) :
    fs.foldl countFinding s = s.plus 0 0 fs := by
  induction fs generalizing s with
  | nil => rfl
  | cons f rest ih =>
    rw [List.foldl_cons, ih]
    cases f <;> simp [plus, countFinding] <;> omega

theorem addJob_eq (s : RunSummary) (r : NodeRange) (fs : List (Finding α)) :
    s.addJob r fs = s.plus 1 r.size fs := by
  simp [addJob, foldl_countFinding, plus]

theorem plus_plus (s : RunSummary) (jobs jobs' nodes nodes' : Nat) (fs gs : List (Finding α)) :
    (s.plus jobs nodes fs).plus jobs' nodes' gs
      = s.plus (jobs + jobs') (nodes + nodes') (fs ++ gs) := by
  simp [plus, Nat.add_assoc]

end RunSummary

namespace FindingSink

variable {σ α ε : Type} (sink : FindingSink σ α) (job : NodeRange → JobOutcome α ε)

def writeAll : σ → List (List (Finding α)) → Except String σ
  | held, [] => .ok held
  | held, fs :: rest =>
    match sink.write held fs with
    | .ok next => writeAll next rest
    | .error reason => .error reason

/-- The error with which a batch stops a run whose sink holds `held`. -/
inductive StopsWith (held : σ) (r : NodeRange) : RunError ε → Prop where
  | failed {cause : ε} (hjob : job r = .failed cause) : StopsWith held r (.jobFailed r cause)
  | panicked {text : String} (hjob : job r = .panicked text) :
      StopsWith held r (.workerPanicked r text)
  | refused {fs : List (Finding α)} {reason : String} (hjob : job r = .findings fs)
      (hwrite : sink.write held fs = .error reason) : StopsWith held r (.sinkRefused reason)

/-- What a run over `ranges` leaves in the sink and returns. In both cases `found` are the findings
that have been written, one list for each batch. -/
inductive Delivers (held : σ) (ranges : List NodeRange) :
    σ × Except (RunError ε) RunSummary → Prop where
  | all (found : List (List (Finding α))) {last : σ} {summary : RunSummary}
      (hjobs : ranges.map job = found.map .findings)
      (hwritten : sink.writeAll held found = .ok last) : Delivers held ranges (last, .ok summary)
  | stopped (before after : List NodeRange) (found : List (List (Finding α))) {r : NodeRange}
      {last : σ} {e : RunError ε} (hranges : ranges = before ++ r :: after)
      (hjobs : before.map job = found.map .findings)
      (hwritten : sink.writeAll held found = .ok last)
      (hstop : StopsWith sink job last r e) : Delivers held ranges (last, .error e)

theorem take_findings {w : Written σ} {next : σ} {r : NodeRange} {fs : List (Finding α)}
    (hwrite : sink.write w.held fs = .ok next) :
    sink.take w r (.findings fs : JobOutcome α ε) = .ok ⟨next, w.summary.plus 1 r.size fs⟩ := by
  rw [take, hwrite, RunSummary.addJob_eq]

theorem take_ok {w w' : Written σ} {r : NodeRange} (h : sink.take w r (job r) = .ok w') :
    ∃ fs, job r = .findings fs ∧ sink.write w.held fs = .ok w'.held := by
  cases hjob : job r with
  | findings fs =>
    cases hwrite : sink.write w.held fs with
    | ok next =>
      rw [hjob, take, hwrite] at h
      cases h
      exact ⟨fs, rfl, hwrite⟩
    | error reason => simp [hjob, take, hwrite] at h
  | failed cause => simp [hjob, take] at h
  | panicked text => simp [hjob, take] at h

theorem take_error {w : Written σ} {r : NodeRange} {e : RunError ε}
    (h : sink.take w r (job r) = .error e) : StopsWith sink job w.held r e := by
  cases hjob : job r with
  | findings fs =>
    cases hwrite : sink.write w.held fs with
    | ok next => simp [hjob, take, hwrite] at h
    | error reason =>
      rw [hjob, take, hwrite] at h
      cases h
      exact .refused hjob hwrite
  | failed cause =>
    rw [hjob, take] at h
    cases h
    exact .failed hjob
  | panicked text =>
    rw [hjob, take] at h
    cases h
    exact .panicked hjob

theorem Delivers.cons {sink : FindingSink σ α} {job : NodeRange → JobOutcome α ε} {held next : σ}
    {r : NodeRange} {rest : List NodeRange} {fs : List (Finding α)}
    {outcome : σ × Except (RunError ε) RunSummary} (hjob : job r = .findings fs)
    (hwrite : sink.write held fs = .ok next) (h : Delivers sink job next rest outcome) :
    Delivers sink job held (r :: rest) outcome := by
  cases h with
  | all found hjobs hwritten =>
    exact .all (fs :: found) (by simp [hjob, hjobs]) (by simpa [writeAll, hwrite])
  | stopped before after found hranges hjobs hwritten hstop =>
    exact .stopped (r :: before) after (fs :: found) (by simp [hranges]) (by simp [hjob, hjobs])
      (by simpa [writeAll, hwrite]) hstop

theorem runInOrder_delivers (ranges : List NodeRange) (w : Written σ) :
    Delivers sink job w.held ranges (sink.runInOrder job ranges w) := by
  induction ranges generalizing w with
  | nil => exact .all [] rfl rfl
  | cons r rest ih =>
    cases h : sink.take w r (job r) with
    | ok w' =>
      obtain ⟨fs, hjob, hwrite⟩ := sink.take_ok job h
      simpa only [runInOrder, h] using (ih w').cons hjob hwrite
    | error e =>
      simp only [runInOrder, h]
      exact .stopped [] rest [] rfl rfl rfl (sink.take_error job h)

theorem runInOrder_append {before : List NodeRange} {found : List (List (Finding α))}
    {w : Written σ} {last : σ} (hjobs : before.map job = found.map .findings)
    (hwritten : sink.writeAll w.held found = .ok last) (rest : List NodeRange) :
    sink.runInOrder job (before ++ rest) w = sink.runInOrder job rest
      ⟨last, w.summary.plus before.length (before.map NodeRange.size).sum found.flatten⟩ := by
  induction before generalizing found w with
  | nil =>
    obtain rfl : found = [] := by simpa using hjobs.symm
    cases hwritten
    rfl
  | cons r more ih =>
    cases found with
    | nil => simp at hjobs
    | cons fs later =>
      rw [List.map_cons, List.map_cons, List.cons.injEq] at hjobs
      rw [writeAll] at hwritten
      split at hwritten
      · next next hnext =>
        have hrest := ih (w := ⟨next, w.summary.plus 1 r.size fs⟩) hjobs.2 hwritten
        simp only [List.cons_append, runInOrder, hjobs.1, sink.take_findings hnext, hrest,
          RunSummary.plus_plus, List.length_cons, List.map_cons, List.sum_cons, List.flatten_cons,
          Nat.add_comm 1]
      · cases hwritten

end FindingSink
end RoadAudit
