import RoadAudit.Batch.Run
import Mathlib.Data.List.Nodup

/-! # The queue of slots

Slots are numbered without a gap, so the slot of a job is found by counting from the front. Filling
it leaves every other slot alone and takes exactly this job off the list of those still due. -/

namespace RoadAudit

variable {α ε : Type}

def Slot.job (s : Slot α ε) : Job := ⟨s.seq, s.range⟩

def unfilled (queue : List (Slot α ε)) : List Job :=
  (queue.filter fun s => s.outcome.isNone).map Slot.job

def filled (queue : List (Slot α ε)) : List Job :=
  (queue.filter fun s => s.outcome.isSome).map Slot.job

/-- The numbers in a queue follow one another, beginning with `n`. -/
def NumberedFrom (n : Nat) (queue : List (Slot α ε)) : Prop :=
  queue.map Slot.seq = List.range' n queue.length

theorem NumberedFrom.seq_getElem {n : Nat} {queue : List (Slot α ε)} (h : NumberedFrom n queue)
    {i : Nat} (hi : i < queue.length) : queue[i].seq = n + i := by
  have he := congrArg (fun l => l[i]?) h
  simpa [hi] using he

theorem NumberedFrom.le_seq {n : Nat} {queue : List (Slot α ε)} (h : NumberedFrom n queue)
    {s : Slot α ε} (hs : s ∈ queue) : n ≤ s.seq := by
  have hm : s.seq ∈ List.range' n queue.length := h ▸ List.mem_map_of_mem hs
  exact (List.mem_range'_1.mp hm).1

theorem NumberedFrom.append {n : Nat} {queue : List (Slot α ε)} (h : NumberedFrom n queue)
    {s : Slot α ε} (hs : s.seq = n + queue.length) : NumberedFrom n (queue ++ [s]) := by
  have he : queue.map Slot.seq = List.range' n queue.length := h
  simp [NumberedFrom, he, hs, List.range'_concat]

theorem NumberedFrom.tail {n : Nat} {front : Slot α ε} {rest : List (Slot α ε)}
    (h : NumberedFrom n (front :: rest)) : NumberedFrom (n + 1) rest := by
  simp only [NumberedFrom, List.map_cons, List.length_cons, List.range'_succ,
    List.cons.injEq] at h
  exact h.2

theorem NumberedFrom.nodup {n : Nat} {queue : List (Slot α ε)} (h : NumberedFrom n queue) :
    (queue.map Slot.seq).Nodup := by
  rw [h]
  exact List.nodup_range'

theorem mem_unfilled {queue : List (Slot α ε)} {j : Job} :
    j ∈ unfilled queue ↔ ∃ s ∈ queue, s.outcome = none ∧ s.job = j := by
  simp [unfilled, and_assoc]

theorem unfilled_append (queue more : List (Slot α ε)) :
    unfilled (queue ++ more) = unfilled queue ++ unfilled more := by
  simp [unfilled]

theorem NumberedFrom.nodup_unfilled {n : Nat} {queue : List (Slot α ε)} (h : NumberedFrom n queue) :
    ((unfilled queue).map Job.seq).Nodup := by
  have he : (unfilled queue).map Job.seq
      = (queue.filter fun s => s.outcome.isNone).map Slot.seq := by
    simp [unfilled, Slot.job]
  rw [he]
  exact h.nodup.sublist (List.filter_sublist.map _)

theorem filled_append (queue more : List (Slot α ε)) :
    filled (queue ++ more) = filled queue ++ filled more := by
  simp [filled]

theorem filled_append_unfilled_perm (queue : List (Slot α ε)) :
    (filled queue ++ unfilled queue).Perm (queue.map Slot.job) := by
  have hsplit := (List.filter_append_perm (fun s : Slot α ε => s.outcome.isSome) queue).map Slot.job
  simpa [filled, unfilled] using hsplit

theorem NumberedFrom.nodup_jobs {n : Nat} {queue : List (Slot α ε)} (h : NumberedFrom n queue) :
    (queue.map Slot.job).Nodup := by
  refine List.Nodup.of_map Job.seq ?_
  rw [List.map_map]
  exact h.nodup

namespace RunPlan

theorem fill_eq_map {n : Nat} {queue : List (Slot α ε)} (h : NumberedFrom n queue) (seq : Nat)
    (o : JobOutcome α ε) :
    fill queue seq o = queue.map fun s => if s.seq = seq then { s with outcome := some o } else s := by
  cases queue with
  | nil => rfl
  | cons front rest =>
    have hfront : front.seq = n := h.seq_getElem (i := 0) (by simp)
    simp only [fill]
    split
    · next hle =>
      apply List.ext_getElem (by simp)
      intro i hi _
      have hlen : i < (front :: rest).length := by simpa using hi
      have hseq := h.seq_getElem hlen
      have hiff : seq - front.seq = i ↔ (front :: rest)[i].seq = seq := by omega
      simp only [List.getElem_modify, List.getElem_map, hiff]
    · next hlt =>
      have hother : ∀ s ∈ front :: rest,
          (if s.seq = seq then { s with outcome := some o } else s) = s := by
        intro s hs
        have := h.le_seq hs
        rw [if_neg (by omega)]
      exact ((List.map_congr_left hother).trans (List.map_id' _)).symm

theorem numberedFrom_fill {n : Nat} {queue : List (Slot α ε)} (h : NumberedFrom n queue) (seq : Nat)
    (o : JobOutcome α ε) : NumberedFrom n (fill queue seq o) := by
  have he : (fill queue seq o).map Slot.seq = queue.map Slot.seq := by
    rw [fill_eq_map h, List.map_map]
    apply List.map_congr_left
    intro s _
    simp only [Function.comp_apply]
    split <;> rfl
  rw [NumberedFrom, he, length_fill]
  exact h

theorem fill_append_cons {n : Nat} {before after : List (Slot α ε)} {slot : Slot α ε}
    (h : NumberedFrom n (before ++ slot :: after)) (o : JobOutcome α ε) :
    fill (before ++ slot :: after) slot.seq o
      = before ++ { slot with outcome := some o } :: after := by
  have hnodup := h.nodup
  rw [List.map_append, List.map_cons, List.nodup_middle, List.nodup_cons, List.mem_append] at hnodup
  have hother : ∀ part : List (Slot α ε), slot.seq ∉ part.map Slot.seq →
      (part.map fun s => if s.seq = slot.seq then { s with outcome := some o } else s) = part := by
    intro part hpart
    refine (List.map_congr_left fun s hs => if_neg fun he => hpart ?_).trans (List.map_id' _)
    exact List.mem_map.mpr ⟨s, hs, he⟩
  rw [fill_eq_map h, List.map_append, List.map_cons,
    hother before fun hmem => hnodup.1 (.inl hmem), hother after fun hmem => hnodup.1 (.inr hmem),
    if_pos rfl]

theorem map_range_fill {n : Nat} {queue : List (Slot α ε)} (h : NumberedFrom n queue) (seq : Nat)
    (o : JobOutcome α ε) : (fill queue seq o).map Slot.range = queue.map Slot.range := by
  rw [fill_eq_map h, List.map_map]
  apply List.map_congr_left
  intro s _
  simp only [Function.comp_apply]
  split <;> rfl

theorem unfilled_fill {n : Nat} {queue : List (Slot α ε)} (h : NumberedFrom n queue) (seq : Nat)
    (o : JobOutcome α ε) :
    unfilled (fill queue seq o) = (unfilled queue).filter fun j => j.seq ≠ seq := by
  rw [fill_eq_map h]
  clear h
  induction queue with
  | nil => rfl
  | cons s rest ih =>
    by_cases hseq : s.seq = seq
    · cases ho : s.outcome <;> simpa [unfilled, hseq, ho, Slot.job] using ih
    · cases ho : s.outcome <;> simpa [unfilled, hseq, ho, Slot.job] using ih

end RunPlan
end RoadAudit
