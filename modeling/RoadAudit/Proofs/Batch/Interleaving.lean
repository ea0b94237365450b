import RoadAudit.Proofs.Batch.InOrder
import RoadAudit.Proofs.Batch.Queue
import Mathlib.Data.List.Perm.Basic
import Mathlib.Data.List.Nodup

/-! # The state of a run that goes on

The invariant `InFlight` ties the queue, the jobs still due and what has been written to the run in
ascending order: the batches are those already taken, those in the queue and those not yet cut, and
what has been written is what the run in order holds after the batches taken. Each event keeps it
as long as the run goes on, and then there is always one that uses up some of the work. -/

namespace RoadAudit
namespace RunPlan

variable {σ α ε : Type} (p : RunPlan σ α ε) (held : σ)

/-- The run that takes the batches in ascending order, one after the other. -/
def inOrder : σ × Except (RunError ε) RunSummary :=
  p.sink.runInOrder p.job (NodeRange.batches p.count p.batchSize) ⟨held, RunSummary.zero⟩

/-- The state of a run that goes on, after the batches in `taken` have been passed on. -/
structure InFlight (taken : List NodeRange) (s : RunState σ α ε) : Prop where
  goes_on : s.result = none
  cover : NodeRange.batches p.count p.batchSize =
    taken ++ (s.queue.map Slot.range ++ NodeRange.batchesFrom p.count p.batchSize s.next)
  numbered : NumberedFrom taken.length s.queue
  next_seq : s.seq = taken.length + s.queue.length
  due : (s.waiting ++ s.running).Perm (unfilled s.queue)
  filled : ∀ slot ∈ s.queue, ∀ o, slot.outcome = some o → o = p.job slot.range
  written : ∀ rest, p.sink.runInOrder p.job (taken ++ rest) ⟨held, RunSummary.zero⟩ =
    p.sink.runInOrder p.job rest s.written
  bounded : s.queue.length ≤ p.workerCount

theorem inFlight_begin : p.InFlight held [] (begin held) := by
  constructor <;> simp [begin, NodeRange.batches, NumberedFrom, unfilled]

variable {p held} {taken : List NodeRange} {s : RunState σ α ε}

theorem InFlight.push (h : p.InFlight held taken s) (hroom : s.queue.length < p.workerCount)
    (hmore : s.next < p.count) : p.InFlight held taken (p.push s) where
  goes_on := h.goes_on
  cover := by
    rw [h.cover, NodeRange.batchesFrom_of_lt hmore]
    simp [RunPlan.push, NodeRange.batchAt]
  numbered := h.numbered.append h.next_seq
  next_seq := by
    have := h.next_seq
    simp only [RunPlan.push, List.length_append, List.length_singleton]
    omega
  due := by
    let job : Job := ⟨s.seq, NodeRange.batchAt p.count (max p.batchSize 1) s.next⟩
    have hunfilled : unfilled (p.push s).queue = unfilled s.queue ++ [job] := unfilled_append _ _
    have hjobs : ((s.waiting ++ [job]) ++ s.running).Perm ((s.waiting ++ s.running) ++ [job]) := by
      rw [List.append_assoc, List.append_assoc]
      exact List.perm_append_comm.append_left _
    rw [hunfilled]
    exact hjobs.trans (h.due.append_right _)
  filled := by
    intro slot hslot o ho
    rcases List.mem_append.mp hslot with hold | hnew
    · exact h.filled slot hold o ho
    · rw [List.mem_singleton.mp hnew] at ho
      cases ho
  written := h.written
  bounded := by
    simp only [RunPlan.push, List.length_append, List.length_singleton]
    omega

theorem InFlight.passOn (h : p.InFlight held taken s) {front : Slot α ε} {rest : List (Slot α ε)}
    {o : JobOutcome α ε} (hqueue : s.queue = front :: rest) (hfront : front.outcome = some o)
    {w : Written σ} (htake : p.sink.take s.written front.range o = .ok w) :
    p.InFlight held (taken ++ [front.range]) { s with queue := rest, written := w } where
  goes_on := h.goes_on
  cover := by
    rw [h.cover, hqueue]
    simp
  numbered := by
    have hnumbered := h.numbered
    rw [hqueue] at hnumbered
    simpa using hnumbered.tail
  next_seq := by
    have := h.next_seq
    simp only [hqueue, List.length_cons, List.length_append, List.length_nil] at this ⊢
    omega
  due := by
    have hdue := h.due
    rw [hqueue] at hdue
    simpa [unfilled, hfront] using hdue
  filled := by
    intro slot hslot
    exact h.filled slot (by simp [hqueue, hslot])
  written := by
    have hjob : o = p.job front.range := h.filled front (by simp [hqueue]) o hfront
    intro more
    rw [List.append_assoc, h.written, List.singleton_append, FindingSink.runInOrder, ← hjob, htake]
  bounded := by
    have := h.bounded
    simp only [hqueue, List.length_cons] at this
    simp only
    omega

theorem InFlight.front_due (h : p.InFlight held taken s) (hwait : p.dispatch? s = none) :
    ∃ front rest, s.queue = front :: rest ∧ front.outcome = none ∧
      front.job ∈ s.waiting ++ s.running := by
  simp only [RunPlan.dispatch?, h.goes_on, Option.isSome_none, Bool.false_eq_true, if_false]
    at hwait
  split at hwait
  · cases hwait
  · split at hwait
    · cases hwait
    · next front rest hqueue =>
      split at hwait
      · next hfront =>
        have hmem : front.job ∈ unfilled s.queue :=
          mem_unfilled.mpr ⟨front, by simp [hqueue], hfront, rfl⟩
        exact ⟨front, rest, hqueue, hfront, h.due.mem_iff.mpr hmem⟩
      · cases hwait

theorem InFlight.due_ne_nil (h : p.InFlight held taken s) (hwait : p.dispatch? s = none) :
    s.waiting ++ s.running ≠ [] := by
  obtain ⟨front, -, -, -, hdue⟩ := h.front_due hwait
  exact List.ne_nil_of_mem hdue

theorem perm_cons_eraseIdx {β : Type} {l : List β} {i : Nat} {b : β} (h : l[i]? = some b) :
    l.Perm (b :: l.eraseIdx i) := by
  obtain ⟨hi, rfl⟩ := List.getElem?_eq_some_iff.mp h
  exact (List.getElem_cons_eraseIdx_perm hi).symm

theorem InFlight.start (h : p.InFlight held taken s) (i : Nat) :
    p.InFlight held taken (RunPlan.start s i) := by
  unfold RunPlan.start
  split
  · exact h
  · next job hjob =>
    refine { h with due := ?_ }
    have hwaiting := (perm_cons_eraseIdx hjob).append_right s.running
    simp only [h.goes_on, Option.isSome_none, Bool.false_eq_true, if_false]
    refine List.Perm.trans ?_ h.due
    refine List.Perm.trans ?_ hwaiting.symm
    rw [← List.append_assoc]
    exact List.perm_append_singleton _ _

theorem InFlight.complete (h : p.InFlight held taken s) (i : Nat) :
    p.InFlight held taken (p.complete s i) := by
  unfold RunPlan.complete
  split
  · exact h
  · next job hjob =>
    have hdue : (job :: (s.waiting ++ s.running.eraseIdx i)).Perm (unfilled s.queue) := by
      refine List.Perm.trans ?_ h.due
      refine List.perm_middle.symm.trans ?_
      exact (perm_cons_eraseIdx hjob).symm.append_left _
    obtain ⟨own, hown, -, hownjob⟩ := mem_unfilled.mp (hdue.subset List.mem_cons_self)
    refine ⟨h.goes_on, ?_, ?_, ?_, ?_, ?_, h.written, ?_⟩
    · simpa only [map_range_fill h.numbered] using h.cover
    · exact numberedFrom_fill h.numbered _ _
    · simpa only [length_fill] using h.next_seq
    · simp only [unfilled_fill h.numbered]
      have hnodup := (hdue.map Job.seq).nodup_iff.mpr h.numbered.nodup_unfilled
      have hothers : ∀ j ∈ s.waiting ++ s.running.eraseIdx i, decide (j.seq ≠ job.seq) = true := by
        intro j hj
        have hne := (List.nodup_cons.mp hnodup).1
        simp only [decide_eq_true_eq]
        exact fun he => hne (he ▸ List.mem_map_of_mem hj)
      have hfilter := hdue.filter fun j => decide (j.seq ≠ job.seq)
      rw [List.filter_cons_of_neg (by simp), List.filter_eq_self.mpr hothers] at hfilter
      exact hfilter
    · intro slot hslot o ho
      simp only [fill_eq_map h.numbered, List.mem_map] at hslot
      obtain ⟨old, hold, rfl⟩ := hslot
      by_cases hseq : old.seq = job.seq
      · have hsame : old = own := by
          refine List.inj_on_of_nodup_map h.numbered.nodup hold hown ?_
          rw [hseq, ← hownjob]
          rfl
        simp only [hseq, if_true] at ho ⊢
        cases ho
        rw [hsame, ← hownjob]
        rfl
      · simp only [hseq, if_false] at ho ⊢
        exact h.filled old hold o ho
    · simpa only [length_fill] using h.bounded

/-! ## Progress -/

/-- An event changes nothing or uses up some of the work. -/
theorem step_eq_or_work_lt (p : RunPlan σ α ε) (s : RunState σ α ε) (e : RunEvent) :
    p.step s e = s ∨ p.work (p.step s e) < p.work s := by
  cases e with
  | dispatch =>
    simp only [step]
    cases ht : p.dispatch? s with
    | none => exact .inl rfl
    | some t => exact .inr (p.work_dispatch? ht)
  | start i =>
    simp only [step, start]
    split
    · exact .inl rfl
    · next job hjob =>
      right
      obtain ⟨hi, -⟩ := List.getElem?_eq_some_iff.mp hjob
      have hwaiting := List.length_eraseIdx_add_one hi
      cases hr : s.result <;>
        simp only [work, hr, Option.isSome_none, Option.isSome_some, Bool.false_eq_true, if_false,
          if_true, List.length_append, List.length_singleton] <;> omega
  | complete i =>
    simp only [step, complete]
    split
    · exact .inl rfl
    · next job hjob =>
      right
      obtain ⟨hi, -⟩ := List.getElem?_eq_some_iff.mp hjob
      have hrunning := List.length_eraseIdx_add_one hi
      simp only [work, length_fill]
      omega

/-- A run that goes on is never stuck: the dispatcher, a start or a completion can happen. -/
theorem InFlight.progress (h : p.InFlight held taken s) :
    ∃ e, p.work (p.step s e) < p.work s := by
  cases ht : p.dispatch? s with
  | some t =>
    refine ⟨.dispatch, ?_⟩
    rw [step, ht]
    exact p.work_dispatch? ht
  | none =>
    have hdue := h.due_ne_nil ht
    cases hwaiting : s.waiting with
    | cons job rest =>
      refine ⟨.start 0, ?_⟩
      simp [step, RunPlan.start, work, hwaiting, h.goes_on]
      omega
    | nil =>
      rw [hwaiting, List.nil_append] at hdue
      obtain ⟨job, rest, hrunning⟩ := List.exists_cons_of_ne_nil hdue
      refine ⟨.complete 0, ?_⟩
      simp [step, RunPlan.complete, work, hrunning]

end RunPlan
end RoadAudit
