import RoadAudit.Proofs.Batch.InWords

/-! # The outcome of a concurrent run

Every event that happens uses up some of the work of a run, and while the run goes on there is
always one that can happen. A run whose scheduler has nothing left to choose has therefore ended,
and it has ended as the run in ascending order, unless a report has had no room before. -/

namespace RoadAudit

theorem FindingSink.Overruns.ninth {σ α ε : Type} {sink : FindingSink σ α}
    {job : NodeRange → JobOutcome α ε} {count : Nat} {held : σ} {ranges : List NodeRange}
    (h : Overruns sink job count held ranges) : Word.size32 ≤ 9 * (count / 8) := by
  induction h with
  | now _ _ hover => exact hover.ninth
  | later _ _ _ ih => exact ih

namespace RunPlan

variable {σ α ε : Type} {p : RunPlan σ α ε} {held : σ}

theorem nextWritten?_of_dispatch? {s : RunState σ α ε} (h : p.dispatch? s = none) :
    p.nextWritten? s = none := by
  unfold dispatch? at h
  unfold nextWritten?
  by_cases hended : s.result.isSome = true
  · exact if_pos (.inl hended)
  · rw [if_neg hended] at h
    by_cases hroom : s.queue.length < p.workerCount ∧ s.next < p.count
    · rw [if_pos hroom] at h
      cases h
    · rw [if_neg hroom] at h
      rw [if_neg (not_or.mpr ⟨hended, hroom⟩)]
      cases hqueue : s.queue with
      | nil => rfl
      | cons front rest =>
        rw [hqueue] at h
        dsimp only at h ⊢
        cases hfront : front.outcome with
        | none => rfl
        | some o =>
          rw [hfront] at h
          cases h

theorem stepInWords_eq_or_work_lt {t u : ReportingState σ α ε} {e : RunEvent}
    (h : p.stepInWords t e = .ok u) : u = t ∨ p.work u.state < p.work t.state := by
  cases hclock : p.clockAfter t e with
  | error overflow =>
    rw [stepInWords_of_overflow hclock] at h
    cases h
  | ok c =>
    rw [stepInWords_of_clock hclock] at h
    cases h
    rcases p.step_eq_or_work_lt t.state e with hsame | hless
    · cases e with
      | dispatch =>
        cases hwait : p.dispatch? t.state with
        | none =>
          simp only [clockAfter, nextWritten?_of_dispatch? hwait, Except.ok.injEq] at hclock
          rw [hsame, ← hclock]
          exact .inl rfl
        | some s =>
          rw [step, hwait]
          exact .inr (p.work_dispatch? hwait)
      | start i =>
        cases hclock
        rw [hsame]
        exact .inl rfl
      | complete i =>
        cases hclock
        rw [hsame]
        exact .inl rfl
    · exact .inr hless

/-- Whatever the number of nodes and the batch size, the jobs, the sink and the number of workers,
under every interleaving a run leaves in the sink and returns what the run in ascending order does,
unless a batch overruns before that run is stopped; then no interleaving comes to a result. The run
in order delivers the findings of all batches, or those before the first batch that stops it. As
long as a run goes on, what has been written is what the run in order holds before the batches that
are still to be passed on, and events that happen use up work. -/
theorem interleaving_agrees_unless_overruns (count batchSize : UInt32) (workers : Nat)
    (job : NodeRange → JobOutcome α ε) (sink : FindingSink σ α) (held : σ) :
    let p : RunPlan σ α ε := ⟨count.toNat, batchSize.toNat, workers, job, sink⟩
    let ranges := NodeRange.batches p.count p.batchSize
    sink.Delivers job held ranges (p.inOrder held) ∧
    p.ReturnsUnless (p.Overruns held) held (p.inOrder held) ∧
    ∀ events t, p.afterInWords (p.beginInWords held) events = .ok t →
      (t.state.result = none → ∃ rest, rest <:+ ranges ∧
        sink.runInOrder job rest t.state.written = p.inOrder held) ∧
      ∀ e u, p.stepInWords t e = .ok u → u = t ∨ p.work u.state < p.work t.state := by
  intro p ranges
  refine ⟨sink.runInOrder_delivers job _ ⟨held, RunSummary.zero⟩,
    p.returnsUnless_overruns held count.toNat_lt,
    fun events t ht => ⟨fun hr => ?_, fun e u hu => stepInWords_eq_or_work_lt hu⟩⟩
  obtain ⟨taken, hflight⟩ := (onTime_afterInWords ht).inFlight_of_none hr
  refine ⟨_, ⟨taken, hflight.cover.symm⟩, ?_⟩
  have hwritten := hflight.written
  rw [inOrder, hflight.cover]
  exact (hwritten _).symm

def failsFrom (start : Nat) (r : NodeRange) : JobOutcome Nat Unit :=
  if r.start = start then .failed () else .findings []

/-- Five nodes in batches of two; the second batch fails. -/
theorem interleaving_agrees_unless_overruns_secondBatch :
    let p : RunPlan (List (Finding Nat)) Nat Unit := ⟨5, 2, 2, failsFrom 2, .collect⟩
    ¬ p.Overruns [] ∧ p.Returns [] ([], .error (.jobFailed ⟨2, 4⟩ ())) := by
  intro p
  have hroom : ¬ p.Overruns [] := fun h => absurd h.ninth (by decide)
  have hbatches : NodeRange.batches p.count p.batchSize = [⟨0, 2⟩, ⟨2, 4⟩, ⟨4, 5⟩] := by
    simp [p, NodeRange.batches, NodeRange.batchesFrom_of_lt, NodeRange.batchesFrom_of_le,
      NodeRange.batchAt]
  have hinOrder : p.inOrder [] = ([], .error (.jobFailed ⟨2, 4⟩ ())) := by
    rw [inOrder, hbatches]
    rfl
  obtain ⟨-, hreturns, -⟩ := interleaving_agrees_unless_overruns 5 2 2 (failsFrom 2) .collect []
  exact ⟨hroom, hinOrder ▸ hreturns.returns hroom⟩

/-- As many nodes as there can be, in two batches: the first ends where the ninth report is called
for, and the second fails. -/
def lateFailure : RunPlan Unit Nat Unit :=
  ⟨4294967295, 4294967288, 1, failsFrom 4294967288, ⟨fun held _ => .ok held⟩⟩

/-- The run in order returns the failure of the second batch, the run in words does not. -/
theorem lateFailure_not_returns :
    lateFailure.inOrder () = ((), .error (.jobFailed ⟨4294967288, 4294967295⟩ ())) ∧
    lateFailure.runInWords () = .error ⟨4294967288, 536870911⟩ ∧
    ∀ outcome, ¬ lateFailure.Returns () outcome := by
  have hinOrder : lateFailure.inOrder () =
      ((), .error (.jobFailed ⟨4294967288, 4294967295⟩ ())) := by
    rw [inOrder, lateFailure, batches_ninthReport]
    simp [failsFrom, FindingSink.runInOrder, FindingSink.take]
  have hrun : lateFailure.runInWords () = .error ⟨4294967288, 536870911⟩ :=
    runInWords_ninthReport rfl rfl rfl rfl
  refine ⟨hinOrder, hrun, fun outcome h => ?_⟩
  have hreturn := h.run
  rw [hrun] at hreturn
  cases hreturn

end RunPlan
end RoadAudit
