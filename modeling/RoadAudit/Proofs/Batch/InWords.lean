import RoadAudit.Proofs.Batch.Interleaving
import RoadAudit.Proofs.Batch.Reports

/-! # Runs in words

The clock of the reports runs beside the state: at any time it stands where the run in order has
brought it after the batches taken so far. Every event keeps that, ends the run as the run in order
ends, or comes to the report that has no room in the run in order either. So under every interleaving
a run in words comes to what the run in order in words comes to. -/

namespace RoadAudit
namespace RunPlan

variable {σ α ε : Type}

/-- The run in words that takes the batches in ascending order, one after the other. -/
def inOrderInWords (p : RunPlan σ α ε) (held : σ) :
    Except ReportOverflow (σ × Except (RunError ε) RunSummary) :=
  p.sink.runInOrderInWords p.job p.count (NodeRange.batches p.count p.batchSize)
    ⟨held, RunSummary.zero⟩ (ReportClock.start p.count)

variable {p : RunPlan σ α ε} {held : σ} {taken : List NodeRange} {s : RunState σ α ε}
  {t : ReportingState σ α ε} {overflow : ReportOverflow}

/-! ## The dispatcher's step -/

/-- What the dispatcher's step comes to in a run that goes on: the findings of the next batch are
written, nothing is written and the run goes on, or it ends as the batches that are left end it. -/
inductive Dispatched (p : RunPlan σ α ε) (held : σ) (taken : List NodeRange)
    (s s' : RunState σ α ε) : Prop where
  | wrote {r : NodeRange} (hnext : p.nextWritten? s = some r)
      (htake : p.sink.take s.written r (p.job r) = .ok s'.written)
      (flight : p.InFlight held (taken ++ [r]) s')
  | silent (hnext : p.nextWritten? s = none) (hwritten : s'.written = s.written)
      (flight : p.InFlight held taken s')
  | ended {rest : List NodeRange} {r : Except (RunError ε) RunSummary}
      (hnext : p.nextWritten? s = none)
      (hcover : NodeRange.batches p.count p.batchSize = taken ++ rest)
      (hresult : s'.result = some r)
      (hrest : ∀ clock, p.sink.runInOrderInWords p.job p.count rest s.written clock =
        .ok (s'.written.held, r))

theorem InFlight.dispatched (h : p.InFlight held taken s) :
    p.Dispatched held taken s (p.step s .dispatch) := by
  have hopen : ¬ s.result.isSome := by simp [h.goes_on]
  by_cases hroom : s.queue.length < p.workerCount ∧ s.next < p.count
  · have hstep : p.step s .dispatch = p.push s := by
      rw [RunPlan.step, RunPlan.dispatch?, if_neg hopen, if_pos hroom]
      rfl
    rw [hstep]
    exact .silent (by rw [nextWritten?, if_pos (.inr hroom)]) rfl (h.push hroom.1 hroom.2)
  · have hfull := not_or.mpr ⟨hopen, hroom⟩
    cases hqueue : s.queue with
    | nil =>
      have hstep : p.step s .dispatch = { s with result := some (.ok s.written.summary) } := by
        rw [RunPlan.step, RunPlan.dispatch?, if_neg hopen, if_neg hroom, hqueue]
        rfl
      have hnone : ¬ s.next < p.count := fun hmore => by
        refine hroom ⟨?_, hmore⟩
        simp only [hqueue, List.length_nil, workerCount]
        omega
      have hall := h.cover
      rw [hqueue, NodeRange.batchesFrom_of_le (by omega), List.map_nil, List.append_nil] at hall
      rw [hstep]
      exact .ended (by rw [nextWritten?, if_neg hfull, hqueue]) hall rfl fun _ => rfl
    | cons front rest =>
      cases hfront : front.outcome with
      | none =>
        have hstep : p.step s .dispatch = s := by
          rw [RunPlan.step, RunPlan.dispatch?, if_neg hopen, if_neg hroom, hqueue]
          simp only [hfront, Option.getD_none]
        rw [hstep]
        refine .silent ?_ rfl h
        rw [nextWritten?, if_neg hfull, hqueue]
        simp only [hfront]
      | some o =>
        have hjob : o = p.job front.range := h.filled front (by simp [hqueue]) o hfront
        have hstep : p.step s .dispatch = p.takeFront s front.range o rest := by
          rw [RunPlan.step, RunPlan.dispatch?, if_neg hopen, if_neg hroom, hqueue]
          simp only [hfront, Option.getD_some]
        have hcover := h.cover
        rw [hqueue, List.map_cons, List.cons_append] at hcover
        rw [hstep, RunPlan.takeFront]
        cases htake : p.sink.take s.written front.range o with
        | ok w =>
          have hnext : p.nextWritten? s = some front.range := by
            rw [nextWritten?, if_neg hfull, hqueue]
            simp only [hfront, htake]
          exact .wrote hnext (hjob ▸ htake) (h.passOn hqueue hfront htake)
        | error e =>
          have hnext : p.nextWritten? s = none := by
            rw [nextWritten?, if_neg hfull, hqueue]
            simp only [hfront, htake]
          refine .ended hnext hcover rfl fun clock => ?_
          rw [FindingSink.runInOrderInWords, ← hjob, htake]

/-! ## The clock beside the state -/

/-- A run in words that goes on or has ended as the run in order in words does, with the clock where
the batches taken so far have brought it. -/
inductive OnTime (p : RunPlan σ α ε) (held : σ) (t : ReportingState σ α ε) : Prop where
  | inFlight {taken : List NodeRange} (flight : p.InFlight held taken t.state)
      (onTime : ∀ rest, p.sink.runInOrderInWords p.job p.count (taken ++ rest)
        ⟨held, RunSummary.zero⟩ (ReportClock.start p.count) =
          p.sink.runInOrderInWords p.job p.count rest t.state.written t.clock)
  | ended {r : Except (RunError ε) RunSummary} (hresult : t.state.result = some r)
      (inOrder : p.inOrderInWords held = .ok (t.state.written.held, r))

/-- What events come to: a run on time, or the report without room that the run in order in words
comes to. -/
inductive OnTimeUntilOverflow (p : RunPlan σ α ε) (held : σ) :
    Except ReportOverflow (ReportingState σ α ε) → Prop where
  | ok {t : ReportingState σ α ε} (h : p.OnTime held t) : OnTimeUntilOverflow p held (.ok t)
  | overflow {o : ReportOverflow} (h : p.inOrderInWords held = .error o) :
      OnTimeUntilOverflow p held (.error o)

theorem OnTimeUntilOverflow.onTime (h : p.OnTimeUntilOverflow held (.ok t)) : p.OnTime held t := by
  cases h with
  | ok h => exact h

theorem OnTimeUntilOverflow.inOrder_eq (h : p.OnTimeUntilOverflow held (.error overflow)) :
    p.inOrderInWords held = .error overflow := by
  cases h with
  | overflow h => exact h

theorem onTime_begin (p : RunPlan σ α ε) (held : σ) : p.OnTime held (p.beginInWords held) :=
  .inFlight (inFlight_begin p held) fun _ => rfl

theorem OnTime.inOrder_eq (h : p.OnTime held t) {r : Except (RunError ε) RunSummary}
    (hr : t.state.result = some r) : p.inOrderInWords held = .ok (t.state.written.held, r) := by
  cases h with
  | inFlight flight _ =>
    rw [flight.goes_on] at hr
    cases hr
  | ended hresult inOrder =>
    rw [hresult] at hr
    cases hr
    exact inOrder

theorem OnTime.inFlight_of_none (h : p.OnTime held t) (hr : t.state.result = none) :
    ∃ taken, p.InFlight held taken t.state := by
  cases h with
  | inFlight flight _ => exact ⟨_, flight⟩
  | ended hresult _ =>
    rw [hresult] at hr
    cases hr

/-! ## Events -/

theorem step_of_result {r : Except (RunError ε) RunSummary} (hr : s.result = some r)
    (e : RunEvent) : (p.step s e).result = some r ∧ (p.step s e).written = s.written := by
  cases e with
  | dispatch => simp [RunPlan.step, RunPlan.dispatch?, hr]
  | start i =>
    simp only [RunPlan.step, RunPlan.start]
    split <;> exact ⟨hr, rfl⟩
  | complete i =>
    simp only [RunPlan.step, RunPlan.complete]
    split <;> exact ⟨hr, rfl⟩

theorem clockAfter_of_isSome (hr : t.state.result.isSome) (e : RunEvent) :
    p.clockAfter t e = .ok t.clock := by
  cases e with
  | dispatch => simp only [clockAfter, nextWritten?, hr, true_or, if_true]
  | start i => rfl
  | complete i => rfl

theorem written_start (s : RunState σ α ε) (i : Nat) :
    (RunPlan.start s i).written = s.written := by
  unfold RunPlan.start
  split <;> rfl

theorem written_complete (s : RunState σ α ε) (i : Nat) :
    (p.complete s i).written = s.written := by
  unfold RunPlan.complete
  split <;> rfl

theorem stepInWords_of_clock {e : RunEvent} {c : ReportClock} (h : p.clockAfter t e = .ok c) :
    p.stepInWords t e = .ok ⟨p.step t.state e, c⟩ := by
  rw [stepInWords, h]
  rfl

theorem stepInWords_of_overflow {e : RunEvent} (h : p.clockAfter t e = .error overflow) :
    p.stepInWords t e = .error overflow := by
  rw [stepInWords, h]
  rfl

theorem InFlight.dispatchInWords (h : p.InFlight held taken t.state)
    (hclock : ∀ rest, p.sink.runInOrderInWords p.job p.count (taken ++ rest)
      ⟨held, RunSummary.zero⟩ (ReportClock.start p.count) =
        p.sink.runInOrderInWords p.job p.count rest t.state.written t.clock) :
    p.OnTimeUntilOverflow held (p.stepInWords t .dispatch) := by
  cases h.dispatched with
  | @wrote r hnext htake flight =>
    have hrest : ∀ rest, p.sink.runInOrderInWords p.job p.count ((taken ++ [r]) ++ rest)
        ⟨held, RunSummary.zero⟩ (ReportClock.start p.count) =
          p.sink.runInOrderInWords p.job p.count (r :: rest) t.state.written t.clock := by
      intro rest
      rw [List.append_assoc, hclock, List.singleton_append]
    cases hreport : t.clock.afterBatch p.count r with
    | ok c =>
      have hafter : p.clockAfter t .dispatch = .ok c := by simp only [clockAfter, hnext, hreport]
      rw [stepInWords_of_clock hafter]
      refine .ok (.inFlight flight fun rest => ?_)
      rw [hrest, FindingSink.runInOrderInWords, htake]
      simp only [hreport]
    | error overflow =>
      have hafter : p.clockAfter t .dispatch = .error overflow := by
        simp only [clockAfter, hnext, hreport]
      rw [stepInWords_of_overflow hafter]
      refine .overflow ?_
      rw [inOrderInWords, flight.cover, hrest, FindingSink.runInOrderInWords, htake]
      simp only [hreport]
  | silent hnext hwritten flight =>
    have hafter : p.clockAfter t .dispatch = .ok t.clock := by simp only [clockAfter, hnext]
    rw [stepInWords_of_clock hafter]
    exact .ok (.inFlight flight fun rest => by rw [hclock, hwritten])
  | ended hnext hcover hresult hrest =>
    have hafter : p.clockAfter t .dispatch = .ok t.clock := by simp only [clockAfter, hnext]
    rw [stepInWords_of_clock hafter]
    refine .ok (.ended hresult ?_)
    rw [inOrderInWords, hcover, hclock, hrest]

/-- Every event keeps a run on time, or leads to a report without room. -/
theorem OnTime.stepInWords (h : p.OnTime held t) (e : RunEvent) :
    p.OnTimeUntilOverflow held (p.stepInWords t e) := by
  cases h with
  | inFlight flight onTime =>
    cases e with
    | dispatch => exact flight.dispatchInWords onTime
    | start i =>
      rw [stepInWords_of_clock rfl]
      refine .ok (.inFlight (flight.start i) fun rest => ?_)
      rw [onTime, RunPlan.step, written_start]
    | complete i =>
      rw [stepInWords_of_clock rfl]
      refine .ok (.inFlight (flight.complete i) fun rest => ?_)
      rw [onTime, RunPlan.step, written_complete]
  | ended hresult inOrder =>
    obtain ⟨hresult', hwritten⟩ := step_of_result (p := p) hresult e
    rw [stepInWords_of_clock (clockAfter_of_isSome (by simp [hresult]) e)]
    exact .ok (.ended hresult' (by rw [inOrder, hwritten]))

theorem OnTimeUntilOverflow.bind {x : Except ReportOverflow (ReportingState σ α ε)}
    (h : p.OnTimeUntilOverflow held x)
    {f : ReportingState σ α ε → Except ReportOverflow (ReportingState σ α ε)}
    (hf : ∀ u, p.OnTime held u → p.OnTimeUntilOverflow held (f u)) :
    p.OnTimeUntilOverflow held (x >>= f) := by
  cases h with
  | ok h => exact hf _ h
  | overflow h => exact .overflow h

/-- So does every list of events, in whatever order the workers start and complete their jobs. -/
theorem OnTime.afterInWords (h : p.OnTime held t) (events : List RunEvent) :
    p.OnTimeUntilOverflow held (p.afterInWords t events) := by
  induction events generalizing t with
  | nil => exact .ok h
  | cons e rest ih =>
    rw [RunPlan.afterInWords, List.foldlM_cons]
    exact (h.stepInWords e).bind fun _ hnext => ih hnext

theorem onTime_afterInWords {events : List RunEvent}
    (ht : p.afterInWords (p.beginInWords held) events = .ok t) : p.OnTime held t :=
  (ht ▸ (onTime_begin p held).afterInWords events).onTime

/-- A run in words that goes on is never stuck. -/
theorem OnTime.progress (h : p.OnTime held t) (hr : t.state.result = none) :
    ∃ e, p.stepInWords t e ≠ .ok t := by
  obtain ⟨taken, hflight⟩ := h.inFlight_of_none hr
  obtain ⟨e, hwork⟩ := hflight.progress
  refine ⟨e, fun hstep => ?_⟩
  cases hclock : p.clockAfter t e with
  | ok c =>
    rw [stepInWords_of_clock hclock] at hstep
    have hsame : p.step t.state e = t.state := congrArg ReportingState.state (Except.ok.inj hstep)
    rw [hsame] at hwork
    exact Nat.lt_irrefl _ hwork
  | error overflow =>
    rw [stepInWords_of_overflow hclock] at hstep
    cases hstep

/-! ## A run to its end -/

theorem finishInWords_of_none (h : p.eagerEvent? t.state = none) : p.finishInWords t = .ok t := by
  rw [finishInWords]
  split
  · rfl
  · next e he =>
    rw [h] at he
    cases he

theorem finishInWords_of_some {e : RunEvent} (h : p.eagerEvent? t.state = some e) :
    p.finishInWords t = p.stepInWords t e >>= p.finishInWords := by
  rw [finishInWords]
  split
  · next hnone =>
    rw [h] at hnone
    cases hnone
  · next e' he =>
    obtain rfl : e = e' := Option.some.inj (h.symm.trans he)
    cases hclock : p.clockAfter t e with
    | ok c => simp only [stepInWords_of_clock hclock, bind, Except.bind]
    | error overflow => simp only [stepInWords_of_overflow hclock, bind, Except.bind]

theorem OnTime.isSome_of_eagerEvent? (h : p.OnTime held t)
    (hnone : p.eagerEvent? t.state = none) : t.state.result.isSome := by
  cases hr : t.state.result with
  | some r => rfl
  | none =>
    obtain ⟨taken, hflight⟩ := h.inFlight_of_none hr
    simp only [eagerEvent?, hr, Option.isSome_none, Bool.false_eq_true, if_false] at hnone
    split at hnone
    · cases hnone
    · next hwait =>
      have hdue := hflight.due_ne_nil (by simpa using hwait)
      split at hnone
      · cases hnone
      · next hruns =>
        split at hnone
        · cases hnone
        · next hwaits =>
          rw [not_not.mp hruns, not_not.mp hwaits] at hdue
          exact absurd rfl hdue

theorem OnTime.finishInWords (h : p.OnTime held t) :
    p.OnTimeUntilOverflow held (p.finishInWords t) ∧
      ∀ u, p.finishInWords t = .ok u → u.state.result.isSome := by
  induction t using RunPlan.finishInWords.induct p with
  | case1 t hnone =>
    rw [finishInWords_of_none hnone]
    refine ⟨.ok h, fun u hu => ?_⟩
    cases hu
    exact h.isSome_of_eagerEvent? hnone
  | case2 t e he overflow hclock =>
    have hstep := h.stepInWords e
    rw [stepInWords_of_overflow hclock] at hstep
    rw [finishInWords_of_some he, stepInWords_of_overflow hclock]
    exact ⟨hstep, nofun⟩
  | case3 t e he c hclock ih =>
    have hstep := h.stepInWords e
    rw [stepInWords_of_clock hclock] at hstep
    rw [finishInWords_of_some he, stepInWords_of_clock hclock]
    exact ih hstep.onTime

/-- A run in words comes to what the run in order in words comes to. -/
theorem runInWords_eq (p : RunPlan σ α ε) (held : σ) :
    p.runInWords held = p.inOrderInWords held := by
  obtain ⟨htime, hend⟩ := (onTime_begin p held).finishInWords
  rw [runInWords]
  cases hfinish : p.finishInWords (p.beginInWords held) with
  | ok u =>
    rw [hfinish] at htime
    obtain ⟨r, hr⟩ := Option.isSome_iff_exists.mp (hend u hfinish)
    rw [htime.onTime.inOrder_eq hr]
    simp only [Except.map, hr, Option.getD_some]
  | error overflow =>
    rw [hfinish] at htime
    rw [htime.inOrder_eq]
    rfl

/-! ## What a run in words comes to -/

/-- Under every interleaving a run in words comes to `outcome`. -/
structure Returns (p : RunPlan σ α ε) (held : σ) (outcome : σ × Except (RunError ε) RunSummary) :
    Prop where
  run : p.runInWords held = .ok outcome
  /-- No report is without room. -/
  goes_on : ∀ events, ∃ t, p.afterInWords (p.beginInWords held) events = .ok t
  result_eq : ∀ events t r, p.afterInWords (p.beginInWords held) events = .ok t →
    t.state.result = some r → (t.state.written.held, r) = outcome
  /-- Where nothing more can happen, there is a result. -/
  ends : ∀ events t, p.afterInWords (p.beginInWords held) events = .ok t →
    (∀ e, p.stepInWords t e = .ok t) → t.state.result.isSome

/-- Under no interleaving a run in words comes to a result: sooner or later a report has no room. -/
structure Overflows (p : RunPlan σ α ε) (held : σ) : Prop where
  run : ∃ overflow, p.runInWords held = .error overflow
  no_result : ∀ events t, p.afterInWords (p.beginInWords held) events = .ok t →
    t.state.result = none
  /-- Until then, something more can happen. -/
  goes_on : ∀ events t, p.afterInWords (p.beginInWords held) events = .ok t →
    ∃ e, p.stepInWords t e ≠ .ok t

/-- Under every interleaving a run in words comes to `outcome`, unless `overrun` holds; then it comes
to no result at all. -/
structure ReturnsUnless (p : RunPlan σ α ε) (overrun : Prop) (held : σ)
    (outcome : σ × Except (RunError ε) RunSummary) : Prop where
  returns : ¬ overrun → p.Returns held outcome
  overflows : overrun → p.Overflows held

theorem returns_of_inOrder {outcome : σ × Except (RunError ε) RunSummary}
    (h : p.inOrderInWords held = .ok outcome) : p.Returns held outcome where
  run := by rw [runInWords_eq, h]
  goes_on events := by
    cases ht : p.afterInWords (p.beginInWords held) events with
    | ok t => exact ⟨t, rfl⟩
    | error overflow =>
      have hover := (ht ▸ (onTime_begin p held).afterInWords events).inOrder_eq
      exact absurd (h.symm.trans hover) nofun
  result_eq events t r ht hr :=
    Except.ok.inj (((onTime_afterInWords ht).inOrder_eq hr).symm.trans h)
  ends events t ht hstuck := by
    by_contra hnone
    obtain ⟨e, he⟩ := (onTime_afterInWords ht).progress (by simpa using hnone)
    exact he (hstuck e)

theorem overflows_of_inOrder (h : p.inOrderInWords held = .error overflow) :
    p.Overflows held := by
  have hnone : ∀ events t, p.afterInWords (p.beginInWords held) events = .ok t →
      t.state.result = none := by
    intro events t ht
    by_contra hsome
    obtain ⟨r, hr⟩ := Option.ne_none_iff_exists'.mp hsome
    exact absurd (h.symm.trans ((onTime_afterInWords ht).inOrder_eq hr)) nofun
  exact
    { run := ⟨overflow, by rw [runInWords_eq, h]⟩
      no_result := hnone
      goes_on := fun events t ht => (onTime_afterInWords ht).progress (hnone events t ht) }

/-- Whether a batch overruns before the run in order is stopped. -/
def Overruns (p : RunPlan σ α ε) (held : σ) : Prop :=
  FindingSink.Overruns p.sink p.job p.count held (NodeRange.batches p.count p.batchSize)

/-- A run comes to what the run in order comes to, unless its reports overrun. -/
theorem returnsUnless_overruns (p : RunPlan σ α ε) (held : σ) (hcount : p.count < Word.size32) :
    p.ReturnsUnless (p.Overruns held) held (p.inOrder held) := by
  have hover : (∃ overflow, p.inOrderInWords held = .error overflow) ↔ p.Overruns held :=
    FindingSink.runInOrderInWords_error_iff hcount (ReportClock.isClockOf_start hcount) _ _
  constructor
  · intro hroom
    cases h : p.inOrderInWords held with
    | ok outcome =>
      have hsame : p.inOrder held = outcome := FindingSink.runInOrderInWords_ok h
      rw [hsame]
      exact returns_of_inOrder h
    | error overflow => exact absurd (hover.mp ⟨overflow, h⟩) hroom
  · intro hrun
    obtain ⟨overflow, h⟩ := hover.mpr hrun
    exact overflows_of_inOrder h

/-! ## What decides whether a run overruns -/

/-- A run whose jobs all give findings and whose sink takes them all comes to their summary, unless
one of its batches overruns. -/
theorem returnsUnless_of_writeAll {found : List (List (Finding α))} {last : σ}
    (hcount : p.count < Word.size32)
    (hjobs : (NodeRange.batches p.count p.batchSize).map p.job = found.map .findings)
    (hwritten : p.sink.writeAll held found = .ok last) :
    p.ReturnsUnless (ReportsOverrun p.count p.batchSize) held (last, .ok
      { jobs := p.count ⌈/⌉ max p.batchSize 1
        nodes := p.count
        missing := (missingOf found.flatten).length
        duplicated := (duplicatesOf found.flatten).length }) := by
  have hcut := NodeRange.isCut_batches p.count p.batchSize
  have hrun := p.sink.runInOrder_append p.job (w := ⟨held, RunSummary.zero⟩) hjobs hwritten []
  have hall : FindingSink.Overruns p.sink p.job p.count held (_ ++ []) ↔ _ :=
    FindingSink.overruns_append_iff hjobs hwritten
  rw [List.append_nil] at hrun hall
  rw [NodeRange.exists_overruns_iff, or_iff_left nofun] at hall
  rw [hcut.length_eq, hcut.sum_size] at hrun
  have hinOrder : p.inOrder held = _ := hrun
  have hunless := p.returnsUnless_overruns held hcount
  rw [hinOrder, Overruns, hall] at hunless
  simpa [FindingSink.runInOrder, RunSummary.plus, RunSummary.zero] using hunless

theorem returnsUnless_of_stop {before after : List NodeRange} {r : NodeRange}
    {found : List (List (Finding α))} {last : σ} {err : RunError ε} (hcount : p.count < Word.size32)
    (hranges : NodeRange.batches p.count p.batchSize = before ++ r :: after)
    (hjobs : before.map p.job = found.map .findings)
    (hwritten : p.sink.writeAll held found = .ok last)
    (hstop : ∀ w, p.sink.take w r (p.job r) = .error err) :
    p.ReturnsUnless (ReportsOverrunBefore p.count r.start) held (last, .error err) := by
  have hnone : ¬ FindingSink.Overruns p.sink p.job p.count last (r :: after) := by
    intro hover
    obtain ⟨fs, next, hjob, hwrite⟩ := hover.exists_findings
    have htake := hstop ⟨last, RunSummary.zero⟩
    rw [hjob, p.sink.take_findings hwrite] at htake
    cases htake
  have hover : p.Overruns held ↔ ReportsOverrunBefore p.count r.start := by
    rw [Overruns, hranges, FindingSink.overruns_append_iff hjobs hwritten,
      NodeRange.exists_overruns_before_iff hranges, or_iff_left hnone]
  have hinOrder : p.inOrder held = (last, .error err) := by
    rw [inOrder, hranges, p.sink.runInOrder_append p.job hjobs hwritten, FindingSink.runInOrder,
      hstop]
  have hunless := p.returnsUnless_overruns held hcount
  rwa [hinOrder, hover] at hunless

/-! ## A batch that overruns -/

theorem batches_ninthReport : NodeRange.batches 4294967295 4294967288 =
    [⟨0, 4294967288⟩, ⟨4294967288, 4294967295⟩] := by
  simp [NodeRange.batches, NodeRange.batchesFrom_of_lt, NodeRange.batchesFrom_of_le,
    NodeRange.batchAt]

theorem afterBatch_ninthReport :
    (ReportClock.start 4294967295).afterBatch 4294967295 ⟨0, 4294967288⟩ =
      .error ⟨4294967288, 536870911⟩ := by
  simp [ReportClock.afterBatch, ReportClock.start, ReportClock.past, Word.size32]

/-- With as many nodes as there can be, a batch that ends seven nodes before the last calls for the
ninth report. -/
theorem runInWords_ninthReport {fs : List (Finding α)} {next : σ} (hcount : p.count = 4294967295)
    (hsize : p.batchSize = 4294967288) (hjob : p.job ⟨0, 4294967288⟩ = .findings fs)
    (hwrite : p.sink.write held fs = .ok next) :
    p.runInWords held = .error ⟨4294967288, 536870911⟩ := by
  rw [runInWords_eq, inOrderInWords, hcount, hsize, batches_ninthReport,
    FindingSink.runInOrderInWords, hjob, p.sink.take_findings hwrite]
  simp only [afterBatch_ninthReport]

end RunPlan
end RoadAudit
