import RoadAudit.Proofs.Graph.Labels
import Mathlib.Data.List.Induction

/-! # The label that a search goes on with

The search runs through its labels and keeps the best one that is not settled. What it has kept in
the end is not settled, and no other such label is nearer. -/

namespace RoadAudit
namespace Search

open scoped Scalar

variable {α : Type} [Scalar α] [Scalar.LawfulOrder α]

/-- Whether a choice among numbered labels is not settled, and no other such label is nearer. No
choice means that all are settled. -/
def IsNearest (ps : List (Label α × Nat)) : Option (Nat × Label α) → Prop
  | none => ∀ p ∈ ps, p.1.settled = true
  | some (i, l) => (l, i) ∈ ps ∧ l.settled = false ∧
    ∀ p ∈ ps, p.1.settled = false → ¬ p.1.distance < l.distance

theorem IsNearest.append {ps : List (Label α × Nat)} {best : Option (Nat × Label α)}
    (h : IsNearest ps best) (i : Nat) (l : Label α) :
    IsNearest (ps ++ [(l, i)]) (nearerLabel best i l) := by
  unfold nearerLabel
  by_cases hsettled : l.settled = true
  · rw [if_pos hsettled]
    have hclosed : l.settled = false → False := by simp [hsettled]
    rcases best with _ | ⟨j, b⟩
    · exact List.forall_mem_append.mpr ⟨h, List.forall_mem_singleton.mpr hsettled⟩
    · refine ⟨List.mem_append_left _ h.1, h.2.1, List.forall_mem_append.mpr ⟨h.2.2, ?_⟩⟩
      exact List.forall_mem_singleton.mpr fun hopen => (hclosed hopen).elim
  · rw [if_neg hsettled]
    rw [Bool.not_eq_true] at hsettled
    have hlast : (l, i) ∈ ps ++ [(l, i)] := List.mem_append_right _ (List.mem_singleton_self _)
    have hself : ∀ p ∈ [(l, i)], p.1.settled = false → ¬ p.1.distance < l.distance :=
      List.forall_mem_singleton.mpr fun _ => Scalar.lt_irrefl _
    rcases best with _ | ⟨j, b⟩
    · refine ⟨hlast, hsettled, List.forall_mem_append.mpr ⟨fun p hp hopen => ?_, hself⟩⟩
      rw [h p hp] at hopen
      cases hopen
    · by_cases hlt : l.distance < b.distance
      · simp only [if_pos hlt]
        refine ⟨hlast, hsettled, List.forall_mem_append.mpr ⟨fun p hp hopen hpl => ?_, hself⟩⟩
        exact h.2.2 p hp hopen (Scalar.lt_trans hpl hlt)
      · simp only [if_neg hlt]
        refine ⟨List.mem_append_left _ h.1, h.2.1, List.forall_mem_append.mpr ⟨h.2.2, ?_⟩⟩
        exact List.forall_mem_singleton.mpr fun _ => hlt

theorem isNearest_foldl (ps : List (Label α × Nat)) :
    IsNearest ps (ps.foldl (fun best (l, i) => nearerLabel best i l) none) := by
  induction ps using List.reverseRecOn with
  | nil =>
    intro p hp
    cases hp
  | append_singleton ps p ih =>
    rw [List.foldl_append]
    exact ih.append p.2 p.1

theorem settled_of_nearest?_none {s : Search α} (h : s.Indexed) (hnone : s.nearest? = none)
    {v : Nat} {l : Label α} (hl : s.label? v = some l) : l.settled = true := by
  have hnearest := isNearest_foldl s.labels.toList.zipIdx
  rw [← nearest?, hnone] at hnearest
  obtain ⟨-, i, hi⟩ := (label?_eq_some h).mp hl
  exact hnearest (l, i) (List.mem_zipIdx_iff_getElem?.mpr (by simpa using hi))

/-- The label that a search goes on with is one that is not settled, and none is nearer. -/
theorem of_nearest?_some {s : Search α} (h : s.Indexed) {i : Nat} {l : Label α}
    (hsome : s.nearest? = some (i, l)) :
    s.labels[i]? = some l ∧ l.settled = false ∧
      ∀ v m, s.label? v = some m → m.settled = false → ¬ m.distance < l.distance := by
  have hnearest := isNearest_foldl s.labels.toList.zipIdx
  rw [← nearest?, hsome] at hnearest
  obtain ⟨hmem, hopen, hleast⟩ := hnearest
  refine ⟨by simpa using List.mem_zipIdx_iff_getElem?.mp hmem, hopen, fun v m hm => ?_⟩
  obtain ⟨-, j, hj⟩ := (label?_eq_some h).mp hm
  exact hleast (m, j) (List.mem_zipIdx_iff_getElem?.mpr (by simpa using hj))

end Search
end RoadAudit
