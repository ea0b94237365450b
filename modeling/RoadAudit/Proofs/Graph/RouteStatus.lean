import Mathlib.Data.Set.Card
import Mathlib.Tactic
import RoadAudit.Proofs.Graph.BoundedSearch
import RoadAudit.Proofs.Numeric.BinaryAddition

/-! # The status of a route

The status that a bounded search answers with, against the distances of the graph. A distance
exists wherever a walk does, which a search with room for all nodes shows. -/

namespace RoadAudit
namespace RoadGraph

open scoped Scalar
open Search

variable {α : Type} [Scalar α]

/-- The nodes whose distance from the source is at most `m`. -/
def within (g : RoadGraph α) (source : Nat) (m : α) : Set Nat :=
  {v | ∃ d, g.IsDistance source v d ∧ d ≤ m}

section Laws

variable [Scalar.LawfulLength α] {g : RoadGraph α} {limits : SearchLimits α}
  {source target v : Nat} {w : α}

theorem route_ends (hg : g.HasLengths) (hne : source ≠ target)
    (hmax : Scalar.IsNumber limits.maxDistance) :
    Ends g limits source target limits.maxNodes (g.route limits source target) := by
  have hends := run_ends hg hmax limits.maxNodes (searching_start g limits hne)
  rw [route, if_neg hne]
  rwa [show (start source : Search α).settled = 0 from rfl, Nat.zero_add] at hends

/-- A node that a walk leads to has a distance. -/
theorem exists_isDistance (hg : g.HasLengths) (hwalk : g.Walk source w v) :
    ∃ d, g.IsDistance source v d := by
  -- a search for what is no node, within the length of the walk and with room for all nodes
  have hne : source ≠ source + g.nodeCount + 1 := by omega
  have hnowalk : ∀ {w : α}, ¬ g.Walk source w (source + g.nodeCount + 1) := by
    intro w hw
    have hend := hw.end_eq_or_lt
    omega
  have hw : Scalar.IsNumber w := Scalar.IsNumber.right (hwalk.nonneg hg)
  let limits : SearchLimits α := ⟨g.nodeCount + 2, w⟩
  have hends : Ends g limits source _ limits.maxNodes (g.route limits source _) :=
    route_ends hg hne hw
  generalize g.route limits source (source + g.nodeCount + 1) = r at hends
  cases hends with
  | found h hn he htarget => exact absurd (htarget ▸ h.walk_along hn he) hnowalk
  | tooLong h hopen =>
    rcases h.settled_or_open hg hwalk with ⟨l, hl, hsettled, -⟩ | ⟨u, l, hl, hl', hle⟩
    · exact ⟨l.distance, h.isDistance hg hl hsettled⟩
    · exact absurd hle (Scalar.not_le_of_lt (hopen u l hl hl'))
  | tooManyNodes h hcount =>
    have hle := h.settled_le_nodeCount
    rw [hcount] at hle
    exact absurd hle (by simp [limits])

theorem mem_within_of_walk (hg : g.HasLengths) {m : α} (hwalk : g.Walk source w v) (hle : w ≤ m) :
    v ∈ g.within source m := by
  obtain ⟨d, hd⟩ := exists_isDistance hg hwalk
  exact ⟨d, hd, Scalar.le_trans (hd.least w hwalk) hle⟩

theorem settled_mem_within (hg : g.HasLengths) {d : α} {s : Search α}
    (h : Searching g limits source target d [] s) {l : Label α} (hl : s.label? v = some l)
    (hsettled : l.settled = true) : v ∈ g.within source limits.maxDistance :=
  ⟨l.distance, h.isDistance hg hl hsettled, h.within v l hl hsettled⟩

theorem ok_sound (hg : g.HasLengths) (hne : source ≠ target)
    (hmax : Scalar.IsNumber limits.maxDistance)
    (h : (g.route limits source target).status = .ok) :
    target ∈ g.within source limits.maxDistance := by
  have hends := route_ends hg hne hmax
  generalize g.route limits source target = r at h hends
  cases hends with
  | found hs hn he htarget hle => exact mem_within_of_walk hg (htarget ▸ hs.walk_along hn he) hle
  | tooLong => cases h
  | tooManyNodes => cases h

theorem tooManyNodes_sound (hg : g.HasLengths) (hne : source ≠ target)
    (hmax : Scalar.IsNumber limits.maxDistance)
    (h : (g.route limits source target).status = .tooManyNodes) :
    limits.maxNodes ≤ (g.within source limits.maxDistance).encard := by
  have hends := route_ends hg hne hmax
  generalize g.route limits source target = r at h hends
  cases hends with
  | found => cases h
  | tooLong => cases h
  | tooManyNodes hs hcount =>
    obtain ⟨nodes, hcard, hnodes⟩ := hs.counted
    rw [← hcount, ← hcard, ← Set.encard_coe_eq_coe_finsetCard]
    refine Set.encard_le_encard fun v hv => ?_
    obtain ⟨l, hl, hsettled⟩ := (hnodes v).mp hv
    exact settled_mem_within hg hs hl hsettled

theorem tooLong_sound (hg : g.HasLengths) (hne : source ≠ target)
    (hmax : Scalar.IsNumber limits.maxDistance)
    (h : (g.route limits source target).status = .tooLong) :
    target ∉ g.within source limits.maxDistance := by
  have hends := route_ends hg hne hmax
  generalize g.route limits source target = r at h hends
  cases hends with
  | found => cases h
  | tooLong hs hopen =>
    rintro ⟨d, hd, hle⟩
    rcases hs.settled_or_open hg hd.walk with ⟨l, hl, -, hld⟩ | ⟨u, l, hl, hl', hld⟩
    · exact hs.missed l hl (Scalar.le_trans hld hle)
    · exact Scalar.not_le_of_lt (hopen u l hl hl') (Scalar.le_trans hld hle)
  | tooManyNodes => cases h

theorem unreachable_or_lt (hg : g.HasLengths) {m : α} (hm : Scalar.IsNumber m)
    (h : v ∉ g.within source m) :
    (∀ w, ¬ g.Walk source w v) ∨ ∃ d, g.IsDistance source v d ∧ m < d := by
  by_cases hwalk : ∃ w, g.Walk source w v
  · obtain ⟨w, hw⟩ := hwalk
    obtain ⟨d, hd⟩ := exists_isDistance hg hw
    have hnumber : Scalar.IsNumber d := Scalar.IsNumber.right (hd.walk.nonneg hg)
    exact .inr ⟨d, hd, Scalar.lt_of_not_le hnumber hm fun hle => h ⟨d, hd, hle⟩⟩
  · exact .inl fun w hw => hwalk ⟨w, hw⟩

/-- Each answer of a bounded search is true of the distances. With fewer nodes within the limit
than may be settled, the answer says whether the target is within it. -/
theorem route_status (g : RoadGraph α) (limits : SearchLimits α) (source target : Nat)
    (hg : g.HasLengths) (hne : source ≠ target) (hmax : Scalar.IsNumber limits.maxDistance) :
    ((g.route limits source target).status = .tooLong →
      (∀ w, ¬ g.Walk source w target) ∨
        ∃ d, g.IsDistance source target d ∧ limits.maxDistance < d) ∧
    ((g.route limits source target).status = .tooManyNodes →
      limits.maxNodes ≤ (g.within source limits.maxDistance).encard) ∧
    ((g.route limits source target).status = .ok →
      ∃ d, g.IsDistance source target d ∧ d ≤ limits.maxDistance) ∧
    ((g.within source limits.maxDistance).encard < limits.maxNodes →
      ((g.route limits source target).status = .ok ↔
        ∃ d, g.IsDistance source target d ∧ d ≤ limits.maxDistance) ∧
      ((g.route limits source target).status = .tooLong ↔
        ¬ ∃ d, g.IsDistance source target d ∧ d ≤ limits.maxDistance)) := by
  have htooLong := tooLong_sound hg hne hmax
  have htooMany := tooManyNodes_sound hg hne hmax
  have hok := ok_sound hg hne hmax
  refine ⟨fun h => unreachable_or_lt hg hmax (htooLong h), htooMany, hok, fun hfew => ?_⟩
  have hnever : (g.route limits source target).status ≠ .tooManyNodes :=
    fun h => absurd (htooMany h) (not_le_of_gt hfew)
  refine ⟨⟨hok, fun hwithin => ?_⟩, ⟨htooLong, fun hbeyond => ?_⟩⟩
  · cases hstatus : (g.route limits source target).status with
    | ok => rfl
    | tooLong => exact absurd hwithin (htooLong hstatus)
    | tooManyNodes => exact absurd hstatus hnever
  · cases hstatus : (g.route limits source target).status with
    | ok => exact absurd (hok hstatus) hbeyond
    | tooLong => rfl
    | tooManyNodes => exact absurd hstatus hnever

end Laws

def shortRoad : RoadGraph Float :=
  ⟨#[⟨⟨0, 0⟩, false⟩, ⟨⟨0, 0⟩, false⟩], #[⟨0, 1, 5, default, []⟩], by simp⟩

theorem hasLengths_shortRoad : shortRoad.HasLengths := by
  intro e he
  obtain rfl : e = ⟨0, 1, 5, default, []⟩ := by simpa [shortRoad] using he
  decide

theorem within_shortRoad (m : Float) : (shortRoad.within 0 m).encard < 3 := by
  have hsub : shortRoad.within 0 m ⊆ {0, 1} := by
    rintro v ⟨d, hd, -⟩
    rcases hd.walk.end_eq_or_lt with rfl | hlt
    · exact Set.mem_insert 0 {1}
    · change v < 2 at hlt
      interval_cases v
      · exact Set.mem_insert 0 {1}
      · exact Set.mem_insert_of_mem 0 rfl
  calc (shortRoad.within 0 m).encard ≤ ({0, 1} : Set Nat).encard := Set.encard_le_encard hsub
    _ = 2 := Set.encard_pair (by decide)
    _ < 3 := by decide

/-- Along the short road the search finds its target within ten. -/
theorem route_status_shortRoad :
    shortRoad.HasLengths ∧ Scalar.IsNumber (10 : Float) ∧ (shortRoad.within 0 10).encard < 3 ∧
      (shortRoad.route ⟨3, 10⟩ 0 1).status = .ok := by
  have hten : Scalar.IsNumber (10 : Float) := by unfold Scalar.IsNumber; decide
  refine ⟨hasLengths_shortRoad, hten, within_shortRoad 10, ?_⟩
  have hstatus := route_status shortRoad ⟨3, 10⟩ 0 1 hasLengths_shortRoad (by decide) hten
  have hwalk : shortRoad.Walk 0 (Scalar.ofNat 0 + 5) 1 :=
    .step (e := ⟨0, 1, 5, default, []⟩) .start (by simp [shortRoad]) (.inl ⟨rfl, rfl⟩)
  refine (hstatus.2.2.2 (within_shortRoad 10)).1.mpr ?_
  exact mem_within_of_walk hasLengths_shortRoad hwalk (by decide)

end RoadGraph
end RoadAudit
