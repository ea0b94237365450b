import RoadAudit.Graph.Nearest
import RoadAudit.Proofs.Graph.Walk
import Mathlib.Data.List.Induction

/-! # The nearest candidate of each edge

A search by place keeps at most one candidate for an edge, in ascending id of the edges. Whatever
has been seen of an edge, the one kept for it was seen too, and nothing seen of it is nearer. -/

namespace RoadAudit
namespace RoadGraph

open scoped Scalar

variable {α : Type}

/-- Whether the edges of some candidates ascend, so that no edge has two. -/
def Ascending (cs : List (Candidate α)) : Prop := cs.Pairwise fun b c => b.view.id < c.view.id

theorem Ascending.eq_of_id {cs : List (Candidate α)} (h : Ascending cs) {b c : Candidate α}
    (hb : b ∈ cs) (hc : c ∈ cs) (hid : b.view.id = c.view.id) : b = c := by
  induction cs with
  | nil => cases hb
  | cons first rest ih =>
    obtain ⟨hfirst, hrest⟩ := List.pairwise_cons.mp h
    rcases List.mem_cons.mp hb with rfl | hb'
    · rcases List.mem_cons.mp hc with rfl | hc'
      · rfl
      · exact absurd hid (Nat.ne_of_lt (hfirst c hc'))
    · rcases List.mem_cons.mp hc with rfl | hc'
      · exact absurd hid.symm (Nat.ne_of_lt (hfirst b hb'))
      · exact ih hrest hb' hc'

variable [Scalar α]

theorem mem_keepNearer {c b : Candidate α} {best : List (Candidate α)}
    (h : b ∈ keepNearer c best) : b = c ∨ b ∈ best := by
  induction best with
  | nil => exact .inl (List.mem_singleton.mp h)
  | cons b' rest ih =>
    unfold keepNearer at h
    split at h
    case isTrue => exact List.mem_cons.mp h
    case isFalse =>
      split at h
      case isTrue =>
        rcases List.mem_cons.mp h with rfl | hrest
        · split
          · exact .inl rfl
          · exact .inr List.mem_cons_self
        · exact .inr (List.mem_cons_of_mem b' hrest)
      case isFalse =>
        rcases List.mem_cons.mp h with rfl | hrest
        · exact .inr List.mem_cons_self
        · exact (ih hrest).imp_right (List.mem_cons_of_mem b')

theorem Ascending.keepNearer {best : List (Candidate α)} (h : Ascending best) (c : Candidate α) :
    Ascending (RoadGraph.keepNearer c best) := by
  induction best with
  | nil => exact List.pairwise_singleton _ c
  | cons b rest ih =>
    obtain ⟨hb, hrest⟩ := List.pairwise_cons.mp h
    unfold RoadGraph.keepNearer
    split
    case isTrue hlt =>
      refine List.pairwise_cons.mpr ⟨fun b' hb' => ?_, h⟩
      rcases List.mem_cons.mp hb' with rfl | hb'
      · exact hlt
      · exact Nat.lt_trans hlt (hb b' hb')
    case isFalse hlt =>
      split
      case isTrue heq =>
        refine List.pairwise_cons.mpr ⟨fun b' hb' => ?_, hrest⟩
        split
        · rw [heq]
          exact hb b' hb'
        · exact hb b' hb'
      case isFalse hne =>
        refine List.pairwise_cons.mpr ⟨fun b' hb' => ?_, ih hrest⟩
        rcases mem_keepNearer hb' with rfl | hb'
        · omega
        · exact hb b' hb'

theorem ascending_nearestOfEach (cs : List (Candidate α)) : Ascending (nearestOfEach cs) := by
  induction cs using List.reverseRecOn with
  | nil => exact List.Pairwise.nil
  | append_singleton cs c ih =>
    rw [nearestOfEach, List.foldl_append]
    exact ih.keepNearer c

theorem mem_of_mem_nearestOfEach {cs : List (Candidate α)} {b : Candidate α}
    (h : b ∈ nearestOfEach cs) : b ∈ cs := by
  induction cs using List.reverseRecOn with
  | nil => exact h
  | append_singleton cs c ih =>
    rw [nearestOfEach, List.foldl_append] at h
    rcases mem_keepNearer h with rfl | h
    · exact List.mem_append_right cs List.mem_cons_self
    · exact List.mem_append_left _ (ih h)

theorem exists_mem_keepNearer_of_mem (c : Candidate α) {b : Candidate α}
    {best : List (Candidate α)} (h : b ∈ best) :
    ∃ b' ∈ keepNearer c best, b'.view.id = b.view.id ∧
      (b' = b ∨ b'.distance < b.distance) := by
  induction best with
  | nil => cases h
  | cons first rest ih =>
    unfold keepNearer
    split
    case isTrue => exact ⟨b, List.mem_cons_of_mem c h, rfl, .inl rfl⟩
    case isFalse =>
      split
      case isTrue heq =>
        rcases List.mem_cons.mp h with rfl | h
        · by_cases hlt : c.distance < b.distance
          · rw [if_pos hlt]
            exact ⟨c, List.mem_cons_self, heq, .inr hlt⟩
          · rw [if_neg hlt]
            exact ⟨b, List.mem_cons_self, rfl, .inl rfl⟩
        · exact ⟨b, List.mem_cons_of_mem _ h, rfl, .inl rfl⟩
      case isFalse =>
        rcases List.mem_cons.mp h with rfl | h
        · exact ⟨b, List.mem_cons_self, rfl, .inl rfl⟩
        · obtain ⟨b', hb', hkept⟩ := ih h
          exact ⟨b', List.mem_cons_of_mem first hb', hkept⟩

variable [Scalar.LawfulOrder α]

theorem exists_mem_keepNearer_self (c : Candidate α) (best : List (Candidate α)) :
    ∃ b ∈ keepNearer c best, b.view.id = c.view.id ∧ ¬ c.distance < b.distance := by
  have hself := Scalar.lt_irrefl c.distance
  induction best with
  | nil => exact ⟨c, List.mem_cons_self, rfl, hself⟩
  | cons first rest ih =>
    unfold keepNearer
    split
    case isTrue => exact ⟨c, List.mem_cons_self, rfl, hself⟩
    case isFalse =>
      split
      case isTrue heq =>
        by_cases hlt : c.distance < first.distance
        · rw [if_pos hlt]
          exact ⟨c, List.mem_cons_self, rfl, hself⟩
        · rw [if_neg hlt]
          exact ⟨first, List.mem_cons_self, heq.symm, hlt⟩
      case isFalse =>
        obtain ⟨b, hb, hkept⟩ := ih
        exact ⟨b, List.mem_cons_of_mem first hb, hkept⟩

theorem exists_mem_nearestOfEach {cs : List (Candidate α)} {c : Candidate α} (h : c ∈ cs) :
    ∃ b ∈ nearestOfEach cs, b.view.id = c.view.id ∧ ¬ c.distance < b.distance := by
  induction cs using List.reverseRecOn with
  | nil => cases h
  | append_singleton cs last ih =>
    rw [nearestOfEach, List.foldl_append]
    rcases List.mem_append.mp h with h | h
    · obtain ⟨b, hb, hid, hnearest⟩ := ih h
      obtain ⟨b', hb', hid', hkept⟩ := exists_mem_keepNearer_of_mem last hb
      refine ⟨b', hb', hid'.trans hid, ?_⟩
      rcases hkept with rfl | hlt
      · exact hnearest
      · exact fun hlt' => hnearest (Scalar.lt_trans hlt' hlt)
    · obtain rfl := List.mem_singleton.mp h
      exact exists_mem_keepNearer_self c _

/-- Nothing seen of an edge is nearer than what is kept for it. -/
theorem not_lt_of_mem_nearestOfEach {cs : List (Candidate α)} {b c : Candidate α}
    (hb : b ∈ nearestOfEach cs) (hc : c ∈ cs) (hid : b.view.id = c.view.id) :
    ¬ c.distance < b.distance := by
  obtain ⟨b', hb', hid', hnearest⟩ := exists_mem_nearestOfEach hc
  obtain rfl := (ascending_nearestOfEach cs).eq_of_id hb hb' (hid.trans hid'.symm)
  exact hnearest

end RoadGraph
end RoadAudit
