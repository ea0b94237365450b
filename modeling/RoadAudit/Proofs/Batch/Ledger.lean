import RoadAudit.Proofs.Batch.Interleaving

/-! # Where every job stands

A run is followed by two lists: the slots taken so far and the jobs completed so far. Until an
error ends the run they account for every batch that has been cut. Each has one slot, taken or in
the queue; a slot without an outcome belongs to one job that waits or runs, and a completed job has
its outcome in its own slot. The front slot a dispatcher waits for can therefore be filled. -/

namespace RoadAudit
namespace RunPlan

variable {σ α ε : Type}

/-- The slot that an event takes off the queue, if it makes the queue shorter. -/
def takenBy (p : RunPlan σ α ε) (s : RunState σ α ε) (e : RunEvent) : List (Slot α ε) :=
  if (p.step s e).queue.length < s.queue.length then s.queue.take 1 else []

def takenDuring (p : RunPlan σ α ε) : RunState σ α ε → List RunEvent → List (Slot α ε)
  | _, [] => []
  | s, e :: rest => p.takenBy s e ++ takenDuring p (p.step s e) rest

/-- The job that a worker completes by an event, if there is one. -/
def completedBy (s : RunState σ α ε) : RunEvent → List Job
  | .complete i => s.running[i]?.toList
  | .dispatch | .start _ => []

def completedDuring (p : RunPlan σ α ε) : RunState σ α ε → List RunEvent → List Job
  | _, [] => []
  | s, e :: rest => completedBy s e ++ completedDuring p (p.step s e) rest

variable (p : RunPlan σ α ε) (held : σ)

/-- How the slots taken and the jobs completed account for a state. -/
structure Accounted (taken : List (Slot α ε)) (completed : List Job) (s : RunState σ α ε) :
    Prop where
  /-- Every batch cut so far has one slot, and with those not yet cut they are all batches. -/
  cover : NodeRange.batches p.count p.batchSize =
    (taken ++ s.queue).map Slot.range ++ NodeRange.batchesFrom p.count p.batchSize s.next
  /-- Slots are numbered in the order of their batches. -/
  numbered : NumberedFrom 0 (taken ++ s.queue)
  /-- The number at the front of the queue is the number of slots taken. -/
  numbered_queue : NumberedFrom taken.length s.queue
  next_seq : s.seq = taken.length + s.queue.length
  /-- The slots without an outcome are those of the jobs waiting or running, one for each. -/
  due : (s.waiting ++ s.running).Perm (unfilled (taken ++ s.queue))
  /-- The slots with an outcome are those of the jobs completed, one for each. -/
  done : completed.Perm (filled (taken ++ s.queue))
  /-- No job is completed twice, and none that is completed still waits or runs. -/
  once : (completed ++ (s.waiting ++ s.running)).Nodup
  /-- An outcome is the one of the slot's own job, with the slot's own range. -/
  own : ∀ slot ∈ taken ++ s.queue, ∀ o, slot.outcome = some o → o = p.job slot.range
  /-- No slot is taken before it has its outcome. -/
  passed : ∀ slot ∈ taken, slot.outcome = some (p.job slot.range)
  bounded : s.queue.length ≤ p.workerCount

/-- The account of a run that goes on. -/
structure Ledger (taken : List (Slot α ε)) (completed : List Job) (s : RunState σ α ε) :
    Prop where
  flight : p.InFlight held (taken.map Slot.range) s
  numbered : NumberedFrom 0 taken
  passed : ∀ slot ∈ taken, slot.outcome = some (p.job slot.range)
  done : completed.Perm (taken.map Slot.job ++ filled s.queue)

/-- What every event keeps: the run goes on, has ended with nothing left to do, or has been ended
by an error. -/
def Balanced (taken : List (Slot α ε)) (completed : List Job) (s : RunState σ α ε) : Prop :=
  p.Ledger held taken completed s ∨
  (∃ t, p.Ledger held taken completed t ∧ t.queue = [] ∧
    s = { t with result := some (.ok t.written.summary) }) ∨
  ∃ e, s.result = some (.error e)

theorem ledger_begin : p.Ledger held [] [] (begin held) where
  flight := inFlight_begin p held
  numbered := rfl
  passed := by simp
  done := by simp [begin, filled]

variable {p held} {taken : List (Slot α ε)} {completed : List Job} {s : RunState σ α ε}

theorem filled_of_passed (h : ∀ slot ∈ taken, slot.outcome = some (p.job slot.range)) :
    filled taken = taken.map Slot.job ∧ unfilled taken = [] := by
  constructor
  · rw [filled, List.filter_eq_self.mpr]
    exact fun slot hslot => by simp [h slot hslot]
  · rw [unfilled, List.filter_eq_nil_iff.mpr, List.map_nil]
    exact fun slot hslot => by simp [h slot hslot]

theorem Ledger.accounted (h : p.Ledger held taken completed s) : p.Accounted taken completed s := by
  obtain ⟨hfilled, hunfilled⟩ := filled_of_passed h.passed
  have hlength : (taken.map Slot.range).length = taken.length := List.length_map _
  have hnumbered : NumberedFrom taken.length s.queue := hlength ▸ h.flight.numbered
  have hall : NumberedFrom 0 (taken ++ s.queue) := by
    have htaken : taken.map Slot.seq = List.range' 0 taken.length := h.numbered
    have hqueue : s.queue.map Slot.seq = List.range' taken.length s.queue.length := hnumbered
    rw [NumberedFrom, List.map_append, htaken, hqueue, List.length_append]
    simpa using List.range'_append_1 (s := 0) (m := taken.length) (n := s.queue.length)
  have hdue : (s.waiting ++ s.running).Perm (unfilled (taken ++ s.queue)) := by
    rw [unfilled_append, hunfilled]
    exact h.flight.due
  have hdone : completed.Perm (filled (taken ++ s.queue)) := by
    rw [filled_append, hfilled]
    exact h.done
  have hjobs := (hdone.append hdue).trans (filled_append_unfilled_perm _)
  refine ⟨?_, hall, hnumbered, ?_, hdue, hdone, hjobs.nodup_iff.mpr hall.nodup_jobs, ?_, h.passed,
    h.flight.bounded⟩
  · rw [h.flight.cover, List.map_append, List.append_assoc]
  · rw [h.flight.next_seq, hlength]
  · intro slot hslot o ho
    rcases List.mem_append.mp hslot with htaken | hqueue
    · exact Option.some.inj (ho.symm.trans (h.passed slot htaken))
    · exact h.flight.filled slot hqueue o ho

/-! ## One event -/

theorem Ledger.push (h : p.Ledger held taken completed s)
    (hroom : s.queue.length < p.workerCount) (hmore : s.next < p.count) :
    p.Ledger held taken completed (p.push s) where
  flight := h.flight.push hroom hmore
  numbered := h.numbered
  passed := h.passed
  done := by
    have hfilled : filled (p.push s).queue = filled s.queue := by
      simp [RunPlan.push, filled]
    rw [hfilled]
    exact h.done

theorem Ledger.passOn (h : p.Ledger held taken completed s) {front : Slot α ε}
    {rest : List (Slot α ε)} {o : JobOutcome α ε} (hqueue : s.queue = front :: rest)
    (hfront : front.outcome = some o) {w : Written σ}
    (htake : p.sink.take s.written front.range o = .ok w) :
    p.Ledger held (taken ++ [front]) completed { s with queue := rest, written := w } where
  flight := by
    rw [List.map_append, List.map_singleton]
    exact h.flight.passOn hqueue hfront htake
  numbered := by
    refine h.numbered.append ?_
    have hnumbered := h.flight.numbered
    rw [hqueue] at hnumbered
    have hfirst := hnumbered.seq_getElem (i := 0) (by simp)
    rw [List.getElem_cons_zero, List.length_map] at hfirst
    omega
  passed := by
    intro slot hslot
    rcases List.mem_append.mp hslot with hold | hnew
    · exact h.passed slot hold
    · rw [List.mem_singleton.mp hnew, hfront, ← h.flight.filled front (by simp [hqueue]) o hfront]
  done := by
    have hdone := h.done
    rw [hqueue] at hdone
    simpa [filled, hfront] using hdone

theorem Ledger.dispatch (h : p.Ledger held taken completed s) :
    p.Balanced held (taken ++ p.takenBy s .dispatch) completed (p.step s .dispatch) := by
  have hstep : p.step s .dispatch = (p.dispatch? s).getD s := rfl
  rw [takenBy, hstep]
  cases ht : p.dispatch? s with
  | none =>
    rw [Option.getD_none, if_neg (Nat.lt_irrefl _), List.append_nil]
    exact .inl h
  | some t =>
    simp only [Option.getD_some]
    simp only [RunPlan.dispatch?, h.flight.goes_on, Option.isSome_none, Bool.false_eq_true,
      if_false] at ht
    split at ht
    · next hpush =>
      cases ht
      rw [if_neg (by simp [RunPlan.push]), List.append_nil]
      exact .inl (h.push hpush.1 hpush.2)
    · split at ht
      · next hqueue =>
        cases ht
        rw [if_neg (Nat.lt_irrefl _), List.append_nil]
        exact .inr (.inl ⟨s, h, hqueue, rfl⟩)
      · next front rest hqueue =>
        split at ht
        · cases ht
        · next o hfront =>
          cases ht
          cases htake : p.sink.take s.written front.range o with
          | ok w =>
            simp only [RunPlan.takeFront, htake]
            rw [if_pos (by simp [hqueue]), hqueue, List.take_succ_cons, List.take_zero]
            exact .inl (h.passOn hqueue hfront htake)
          | error e => exact .inr (.inr ⟨e, by simp [RunPlan.takeFront, htake]⟩)

theorem queue_start (s : RunState σ α ε) (i : Nat) : (RunPlan.start s i).queue = s.queue := by
  unfold RunPlan.start
  split <;> rfl

theorem Ledger.start (h : p.Ledger held taken completed s) (i : Nat) :
    p.Ledger held taken completed (RunPlan.start s i) where
  flight := h.flight.start i
  numbered := h.numbered
  passed := h.passed
  done := by
    rw [queue_start]
    exact h.done

theorem InFlight.queue_complete_own {ranges : List NodeRange} (h : p.InFlight held ranges s)
    {before after : List (Slot α ε)} {slot : Slot α ε} (hqueue : s.queue = before ++ slot :: after)
    {i : Nat} (hjob : s.running[i]? = some slot.job) :
    (p.complete s i).queue = before ++ { slot with outcome := some (p.job slot.range) } :: after := by
  simp only [RunPlan.complete, hjob, hqueue]
  exact fill_append_cons (hqueue ▸ h.numbered) _

theorem InFlight.queue_complete {ranges : List NodeRange} (h : p.InFlight held ranges s) {i : Nat}
    {job : Job} (hjob : s.running[i]? = some job) :
    ∃ before slot after, s.queue = before ++ slot :: after ∧ slot.job = job ∧
      slot.outcome = none ∧ (p.complete s i).queue =
        before ++ { slot with outcome := some (p.job job.range) } :: after := by
  have hmem : job ∈ s.waiting ++ s.running :=
    List.mem_append_right _ (List.mem_of_getElem? hjob)
  obtain ⟨slot, hslot, hempty, rfl⟩ := mem_unfilled.mp (h.due.mem_iff.mp hmem)
  obtain ⟨before, after, hqueue⟩ := List.append_of_mem hslot
  exact ⟨before, slot, after, hqueue, rfl, hempty, h.queue_complete_own hqueue hjob⟩

theorem Ledger.complete (h : p.Ledger held taken completed s) (i : Nat) :
    p.Ledger held taken (completed ++ completedBy s (.complete i)) (p.complete s i) where
  flight := h.flight.complete i
  numbered := h.numbered
  passed := h.passed
  done := by
    cases hjob : s.running[i]? with
    | none => simpa [completedBy, hjob, RunPlan.complete] using h.done
    | some job =>
      obtain ⟨before, slot, after, hqueue, rfl, hempty, hnew⟩ := h.flight.queue_complete hjob
      have hold : filled s.queue = filled before ++ filled after := by
        simp [hqueue, filled, hempty]
      have hfilled : filled (p.complete s i).queue
          = filled before ++ slot.job :: filled after := by
        simp [hnew, filled, Slot.job]
      have hdone := h.done
      rw [hold] at hdone
      simp only [completedBy, hjob, Option.toList_some]
      rw [hfilled, ← List.append_assoc]
      refine ((List.perm_append_singleton _ _).trans (hdone.cons _)).trans ?_
      rw [← List.append_assoc]
      exact List.perm_middle.symm

theorem InFlight.idle {ranges : List NodeRange} (h : p.InFlight held ranges s)
    (hqueue : s.queue = []) : s.waiting = [] ∧ s.running = [] := by
  have hdue := h.due
  rw [hqueue] at hdue
  exact List.append_eq_nil_iff.mp (List.perm_nil.mp hdue)

/-- Every event keeps the account. -/
theorem Balanced.step (h : p.Balanced held taken completed s) (e : RunEvent) :
    p.Balanced held (taken ++ p.takenBy s e) (completed ++ completedBy s e) (p.step s e) := by
  rcases h with h | ⟨t, h, hqueue, rfl⟩ | ⟨cause, hcause⟩
  · cases e with
    | dispatch => simpa [completedBy] using h.dispatch
    | start i =>
      rw [takenBy, RunPlan.step, queue_start, if_neg (Nat.lt_irrefl _), List.append_nil,
        completedBy, List.append_nil]
      exact .inl (h.start i)
    | complete i =>
      have hsame : (p.step s (.complete i)).queue.length = s.queue.length := by
        simp only [RunPlan.step, RunPlan.complete]
        split <;> simp
      rw [takenBy, if_neg (by omega), List.append_nil]
      exact .inl (h.complete i)
  · obtain ⟨hwaiting, hrunning⟩ := h.flight.idle hqueue
    have hsame : ∀ e, p.step { t with result := some (.ok t.written.summary) } e
        = { t with result := some (.ok t.written.summary) } := by
      intro e
      cases e <;>
        simp [RunPlan.step, RunPlan.dispatch?, RunPlan.start, RunPlan.complete, hwaiting, hrunning]
    have hnone : completedBy { t with result := some (.ok t.written.summary) } e = [] := by
      cases e <;> simp [completedBy, hrunning]
    refine .inr (.inl ⟨t, ?_, hqueue, hsame e⟩)
    simpa [takenBy, hsame, hnone] using h
  · refine .inr (.inr ⟨cause, ?_⟩)
    cases e with
    | dispatch => simp [RunPlan.step, RunPlan.dispatch?, hcause]
    | start i =>
      simp only [RunPlan.step, RunPlan.start]
      split <;> exact hcause
    | complete i =>
      simp only [RunPlan.step, RunPlan.complete]
      split <;> exact hcause

/-- So does every list of events. -/
theorem Balanced.after (h : p.Balanced held taken completed s) (events : List RunEvent) :
    p.Balanced held (taken ++ p.takenDuring s events) (completed ++ p.completedDuring s events)
      (p.after s events) := by
  induction events generalizing taken completed s with
  | nil => simpa [takenDuring, completedDuring, RunPlan.after] using h
  | cons e rest ih =>
    have hrest := ih (h.step e)
    rwa [List.append_assoc, List.append_assoc] at hrest

/-! ## The dispatcher is never stuck -/

theorem running_start {i : Nat} {job : Job} (hgoes : s.result = none)
    (hjob : s.waiting[i]? = some job) :
    (RunPlan.start s i).running[s.running.length]? = some job := by
  simp [RunPlan.start, hjob, hgoes]

theorem InFlight.front_filled {ranges : List NodeRange} (h : p.InFlight held ranges s)
    (hwait : p.dispatch? s = none) :
    ∃ front rest events, s.queue = front :: rest ∧ front.outcome = none ∧
      front.job ∈ s.waiting ++ s.running ∧ events.length ≤ 2 ∧ RunEvent.dispatch ∉ events ∧
      (p.after s events).queue = { front with outcome := some (p.job front.range) } :: rest := by
  obtain ⟨front, rest, hqueue, hempty, hdue⟩ := h.front_due hwait
  rcases List.mem_append.mp hdue with hwaiting | hrunning
  · obtain ⟨i, hi⟩ := List.mem_iff_getElem?.mp hwaiting
    have hstarted : (RunPlan.start s i).queue = [] ++ front :: rest :=
      (queue_start s i).trans hqueue
    refine ⟨front, rest, [.start i, .complete s.running.length], hqueue, hempty, hdue, by simp,
      by simp, ?_⟩
    exact (h.start i).queue_complete_own hstarted (running_start h.goes_on hi)
  · obtain ⟨i, hi⟩ := List.mem_iff_getElem?.mp hrunning
    refine ⟨front, rest, [.complete i], hqueue, hempty, hdue, by simp, by simp, ?_⟩
    have hfront : s.queue = [] ++ front :: rest := hqueue
    exact h.queue_complete_own hfront hi

theorem queue_lt_of_seq_ne {t : RunState σ α ε} (ht : p.dispatch? s = some t)
    (hseq : t.seq ≠ s.seq) : t = p.push s ∧ s.queue.length ≤ p.workerCount - 1 := by
  unfold RunPlan.dispatch? at ht
  split at ht
  · cases ht
  · split at ht
    · next hpush =>
      cases ht
      exact ⟨rfl, by omega⟩
    · split at ht
      · cases ht
        exact absurd rfl hseq
      · split at ht
        · cases ht
        · cases ht
          refine absurd ?_ hseq
          unfold RunPlan.takeFront
          split <;> rfl

/-- Until an error ends a run, the slots taken and the jobs completed so far account for its
state: the numbers in the queue follow on from the number of slots taken, every slot without an
outcome is the one of a single job that waits or runs, and every completed job has its outcome in
its own slot. A batch is only cut with room in the queue, a completed job fills its own slot, empty
until then, and no other, and a dispatcher that waits has a front slot that the workers can fill. -/
theorem jobs_accounted (p : RunPlan σ α ε) (held : σ) (events : List RunEvent)
    (hgoes : ∀ e, (p.after (begin held) events).result ≠ some (.error e)) :
    let s := p.after (begin held) events
    p.Accounted (p.takenDuring (begin held) events) (p.completedDuring (begin held) events) s ∧
    (∀ t, p.dispatch? s = some t → t.seq ≠ s.seq →
      t = p.push s ∧ s.queue.length ≤ p.workerCount - 1) ∧
    (∀ i job, s.running[i]? = some job → ∃ before slot after,
      s.queue = before ++ slot :: after ∧ slot.job = job ∧ slot.outcome = none ∧
      (p.step s (.complete i)).queue =
        before ++ { slot with outcome := some (p.job job.range) } :: after) ∧
    (s.result = none → p.dispatch? s = none → ∃ front rest more,
      s.queue = front :: rest ∧ front.outcome = none ∧ front.job ∈ s.waiting ++ s.running ∧
      more.length ≤ 2 ∧ RunEvent.dispatch ∉ more ∧
      (p.after s more).queue = { front with outcome := some (p.job front.range) } :: rest) := by
  intro s
  have hbegin : p.Balanced held [] [] (begin held) := .inl (ledger_begin p held)
  have hbalanced : p.Balanced held (p.takenDuring (begin held) events)
      (p.completedDuring (begin held) events) s := hbegin.after events
  rcases hbalanced with h | ⟨t, h, hqueue, hs⟩ | ⟨e, he⟩
  · exact ⟨h.accounted, fun _ => queue_lt_of_seq_ne, fun _ _ => h.flight.queue_complete,
      fun _ => h.flight.front_filled⟩
  · obtain ⟨-, hrunning⟩ := h.flight.idle hqueue
    rw [hs]
    refine ⟨{ h.accounted with }, fun _ => queue_lt_of_seq_ne, fun i job hjob => ?_, fun hr => ?_⟩
    · simp [hrunning] at hjob
    · cases hr
  · exact absurd he (hgoes e)

def fiveNodes : RunPlan Unit Nat Empty where
  count := 5
  batchSize := 2
  workers := 2
  job _ := .findings []
  sink := ⟨fun held _ => .ok held⟩

/-- The second batch is completed before the first; when both have been taken, the dispatcher waits
for the third, whose job no worker has started yet. -/
theorem jobs_accounted_fiveNodes :
    let events : List RunEvent := [.dispatch, .dispatch, .start 0, .start 0, .complete 1,
      .complete 0, .dispatch, .dispatch, .dispatch]
    let s := fiveNodes.after (begin ()) events
    (∀ e, s.result ≠ some (.error e)) ∧
    fiveNodes.Accounted
      [⟨0, ⟨0, 2⟩, some (.findings [])⟩, ⟨1, ⟨2, 4⟩, some (.findings [])⟩]
      [⟨1, ⟨2, 4⟩⟩, ⟨0, ⟨0, 2⟩⟩] s ∧
    fiveNodes.dispatch? s = none ∧ s.queue = [⟨2, ⟨4, 5⟩, none⟩] ∧
    ∃ front rest more, s.queue = front :: rest ∧ front.outcome = none ∧
      front.job ∈ s.waiting ++ s.running ∧ more.length ≤ 2 ∧ RunEvent.dispatch ∉ more ∧
      (fiveNodes.after s more).queue =
        { front with outcome := some (fiveNodes.job front.range) } :: rest := by
  intro events s
  have hgoes : ∀ e, s.result ≠ some (.error e) := fun e => nofun
  obtain ⟨haccount, -, -, hwaits⟩ := fiveNodes.jobs_accounted () events hgoes
  exact ⟨hgoes, haccount, rfl, rfl, hwaits rfl rfl⟩

end RunPlan
end RoadAudit
