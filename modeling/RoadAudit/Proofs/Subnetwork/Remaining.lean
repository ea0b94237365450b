import RoadAudit.Proofs.Subnetwork.Removal

/-! # What a removal leaves

Marks change neither edges nor components, so a graph whose small subnetworks have been marked has
the other ones left, with the same nodes. The largest of them is the one that it was, none of the
rest is small, and another removal has nothing to take. -/

namespace RoadAudit

namespace RoadGraph

variable {α : Type} {g g' : RoadGraph α} {nodes : List Nat}

/-! ## Components under marks -/

section Marks

variable (h : g.MarksAlso nodes g')

include h

theorem MarksAlso.adjacent_eq : g'.Adjacent = g.Adjacent := by
  funext v u
  rw [Adjacent, Adjacent, h.edges]

theorem MarksAlso.component_eq (v : Nat) : g'.component v = g.component v := by
  ext u
  rw [mem_component, mem_component, h.nodeCount, Connected, Connected, h.adjacent_eq]

theorem MarksAlso.mem_kept_iff {c : Finset Nat} {v : Nat} :
    v ∈ g'.kept c ↔ v ∈ g.kept c ∧ v ∉ nodes := by
  have hremoved : g'.isRemoved v = false ↔ g.isRemoved v = false ∧ v ∉ nodes := by
    rw [← Bool.not_eq_true, h.removed, not_or, Bool.not_eq_true]
  change v ∈ c ∧ g'.isRemoved v = false ↔ (v ∈ c ∧ g.isRemoved v = false) ∧ v ∉ nodes
  rw [hremoved, and_assoc]

theorem MarksAlso.kept_eq {c : Finset Nat} (hc : ∀ v ∈ c, v ∉ nodes) : g'.kept c = g.kept c := by
  ext v
  rw [h.mem_kept_iff, and_iff_left_of_imp]
  exact fun hv => hc v hv.1

theorem MarksAlso.isSubnetwork_iff {c : Finset Nat} :
    g'.IsSubnetwork c ↔ g.IsSubnetwork c ∧ ∃ v ∈ g.kept c, v ∉ nodes := by
  have hkept : (g'.kept c).Nonempty ↔ ∃ v ∈ g.kept c, v ∉ nodes :=
    exists_congr fun v => h.mem_kept_iff
  constructor
  · rintro ⟨⟨v, hv, rfl⟩, hedge, hsome⟩
    obtain ⟨u, hu, hnot⟩ := hkept.mp hsome
    rw [h.edges] at hedge
    refine ⟨⟨⟨v, h.nodeCount ▸ hv, h.component_eq v⟩, hedge, ⟨u, hu⟩⟩, u, hu, hnot⟩
  · rintro ⟨⟨⟨v, hv, rfl⟩, hedge, -⟩, hsome⟩
    refine ⟨⟨v, h.nodeCount.symm ▸ hv, (h.component_eq v).symm⟩, ?_, hkept.mpr hsome⟩
    rwa [h.edges]

end Marks

theorem IsSubnetwork.eq_of_mem {c d : Finset Nat} (hc : g.IsSubnetwork c) (hd : g.IsSubnetwork d)
    {v : Nat} (hvc : v ∈ c) (hvd : v ∈ d) : c = d := by
  obtain ⟨u, -, rfl⟩ := hc.component
  obtain ⟨w, -, rfl⟩ := hd.component
  rw [← component_eq_of_mem hvc, component_eq_of_mem hvd]

theorem isSubnetwork_of_small {minSize : Nat} {largest c : Finset Nat}
    (h : c ∈ g.smallSubnetworks minSize largest) : g.IsSubnetwork c :=
  mem_subnetworks.mp (Finset.mem_filter.mp h).1

/-! ## Subnetworks without the small ones -/

section Small

variable {minSize : Nat} {largest : Finset Nat} (h : g.MarksAlso nodes g')
  (hnodes : ∀ v, v ∈ nodes ↔ ∃ c ∈ g.smallSubnetworks minSize largest, v ∈ c)

include hnodes

theorem not_mem_of_not_small {c : Finset Nat} (hc : g.IsSubnetwork c)
    (hsmall : c ∉ g.smallSubnetworks minSize largest) : ∀ v ∈ c, v ∉ nodes := by
  intro v hv hmem
  obtain ⟨d, hd, hvd⟩ := (hnodes v).mp hmem
  exact hsmall (hc.eq_of_mem (isSubnetwork_of_small hd) hv hvd ▸ hd)

include h

theorem MarksAlso.isSubnetwork_iff_not_small {c : Finset Nat} :
    g'.IsSubnetwork c ↔ g.IsSubnetwork c ∧ c ∉ g.smallSubnetworks minSize largest := by
  rw [h.isSubnetwork_iff]
  refine and_congr_right fun hc => ⟨?_, fun hsmall => ?_⟩
  · rintro ⟨v, hv, hnot⟩ hsmall
    exact hnot ((hnodes v).mpr ⟨c, hsmall, hv.1⟩)
  · obtain ⟨v, hv⟩ := hc.kept
    exact ⟨v, hv, not_mem_of_not_small hnodes hc hsmall v hv.1⟩

theorem MarksAlso.subnetworks_eq :
    g'.subnetworks = g.subnetworks \ g.smallSubnetworks minSize largest := by
  ext c
  rw [Finset.mem_sdiff, mem_subnetworks, mem_subnetworks, h.isSubnetwork_iff_not_small hnodes]

theorem MarksAlso.isLargest (hlargest : g.IsLargest largest) : g'.IsLargest largest := by
  have hleft : ∀ {c}, g'.IsSubnetwork c → g.IsSubnetwork c ∧ g'.kept c = g.kept c := by
    intro c hc
    obtain ⟨hc, hsmall⟩ := (h.isSubnetwork_iff_not_small hnodes).mp hc
    exact ⟨hc, h.kept_eq (not_mem_of_not_small hnodes hc hsmall)⟩
  have hself : g'.IsSubnetwork largest := by
    refine (h.isSubnetwork_iff_not_small hnodes).mpr ⟨hlargest.isSubnetwork, fun hsmall => ?_⟩
    exact (Finset.mem_filter.mp hsmall).2.1 rfl
  constructor
  case isSubnetwork => exact hself
  case card_le => exact fun d hd => hlargest.card_le d (hleft hd).1
  case least_le =>
    intro d hd hcard v u hv hu
    rw [(hleft hself).2] at hv
    rw [(hleft hd).2] at hu
    exact hlargest.least_le d (hleft hd).1 hcard v u hv hu

theorem MarksAlso.smallSubnetworks_eq : g'.smallSubnetworks minSize largest = ∅ := by
  rw [Finset.eq_empty_iff_forall_notMem]
  intro c hc
  obtain ⟨hsubnetwork, hother⟩ := Finset.mem_filter.mp hc
  rw [h.subnetworks_eq hnodes, Finset.mem_sdiff] at hsubnetwork
  exact hsubnetwork.2 (Finset.mem_filter.mpr ⟨hsubnetwork.1, hother⟩)

end Small

end RoadGraph

/-! ## Another removal -/

namespace RemovalPlan

open RoadGraph

variable {α : Type} {g g' : RoadGraph α} {minSize : Nat} {plan : RemovalPlan}

theorem TakesSmall.eq_of_none_small {largest : Finset Nat} (h : TakesSmall g minSize largest plan)
    (hnone : g.smallSubnetworks minSize largest = ∅) : plan = ⟨g.subnetworks.card, 0, [], []⟩ := by
  obtain ⟨subnetworks, removed, nodes, edges⟩ := plan
  have hcount : removed = 0 := by simpa [hnone] using h.removedSubnetworks
  have hnodes : nodes = [] := by
    simpa [hnone, List.eq_nil_iff_forall_not_mem] using h.mem_removedNodes
  have hedges : edges = [] := by
    simpa [hnone, List.eq_nil_iff_forall_not_mem] using h.mem_removedEdges
  rw [hcount, hnodes, hedges, ← h.subnetworks]

theorem make_of_none_small {largest : Finset Nat} (hlargest : g.IsLargest largest)
    (hnone : g.smallSubnetworks minSize largest = ∅) :
    make g minSize = .ok ⟨g.subnetworks.card, 0, [], []⟩ := by
  by_cases hnothing : minSize = 0 ∨ g.subnetworks = ∅
  · exact make_of_nothing hnothing
  rw [not_or] at hnothing
  obtain ⟨c, hc, hlargest'⟩ := exists_isLargest hnothing.2
  obtain rfl := hlargest'.unique hlargest
  have htakes : TakesSmall g minSize c (proposed g minSize) := takesSmall_proposed hc
  have hplan := htakes.eq_of_none_small hnone
  rw [make_eq hnothing.1 hnothing.2, hplan, if_neg (by simp)]

/-- After the nodes of a plan have been marked, a plan with the same least size takes nothing, and
the subnetworks are those that the first plan has left. -/
theorem make_again (hmake : make g minSize = .ok plan) (hmarks : g.MarksAlso plan.removedNodes g') :
    ∃ left, make g' minSize = .ok ⟨left, 0, [], []⟩ ∧
      left + plan.removedSubnetworks = plan.subnetworks := by
  by_cases hnothing : minSize = 0 ∨ g.subnetworks = ∅
  · rw [make_of_nothing hnothing] at hmake
    cases hmake
    have hsame : g'.subnetworks = g.subnetworks := by
      ext c
      rw [mem_subnetworks, mem_subnetworks, hmarks.isSubnetwork_iff, and_iff_left_of_imp]
      exact fun hc => hc.kept.imp fun v hv => ⟨hv, List.not_mem_nil⟩
    refine ⟨_, make_of_nothing (hnothing.imp_right hsame.trans), ?_⟩
    rw [hsame, Nat.add_zero]
  · rw [not_or] at hnothing
    obtain ⟨c, hc, hlargest⟩ := exists_isLargest hnothing.2
    rw [make_eq hnothing.1 hnothing.2] at hmake
    obtain rfl : proposed g minSize = plan := by
      split at hmake <;> cases hmake
      rfl
    have htakes : TakesSmall g minSize c (proposed g minSize) := takesSmall_proposed hc
    refine ⟨_, make_of_none_small (hmarks.isLargest htakes.mem_removedNodes hlargest)
      (hmarks.smallSubnetworks_eq htakes.mem_removedNodes), ?_⟩
    rw [hmarks.subnetworks_eq htakes.mem_removedNodes, htakes.removedSubnetworks,
      htakes.subnetworks]
    exact Finset.card_sdiff_add_card_eq_card (Finset.filter_subset _ _)

end RemovalPlan

section Removal

variable {σ : Type} {g g' : RoadGraph Float} {wayIds : IdTable} {minSize : Nat}
  {sink : FeatureSink σ} {held last : σ} {plan : RemovalPlan}

theorem of_removal_eq_ok
    (h : removeSmallSubnetworks g wayIds minSize sink held = (last, g', .ok plan)) :
    RemovalPlan.make g minSize = .ok plan ∧ g.MarksAlso plan.removedNodes g' := by
  unfold removeSmallSubnetworks at h
  rcases RemovalPlan.make_cases g minSize with ⟨made, hwithin, hmade⟩ | ⟨removed, total, hfailed⟩
  · rw [hmade] at h
    dsimp only at h
    split at h <;> cases h
    exact ⟨hmade, RoadGraph.marksAlso_foldl hwithin.nodes⟩
  · rw [hfailed] at h
    cases h

/-- A removal need not be repeated: after one that succeeds, another with the same least size has
nothing to take, and the subnetworks are those that are left. -/
theorem removal_idempotent
    (h : removeSmallSubnetworks g wayIds minSize sink held = (last, g', .ok plan)) :
    ∃ left, RemovalPlan.make g' minSize = .ok ⟨left, 0, [], []⟩ ∧
      left + plan.removedSubnetworks = plan.subnetworks := by
  obtain ⟨hmake, hmarks⟩ := of_removal_eq_ok h
  exact RemovalPlan.make_again hmake hmarks

/-- A road of three nodes, a path far off, and a lane one end of which has been removed already. -/
def roadAndIslands : RoadGraph Float where
  nodes := #[⟨⟨60, 20⟩, false⟩, ⟨⟨50, 8⟩, false⟩, ⟨⟨50, 9⟩, false⟩, ⟨⟨50, 10⟩, false⟩,
    ⟨⟨60, 21⟩, false⟩, ⟨⟨70, 20⟩, true⟩, ⟨⟨70, 21⟩, false⟩]
  edges := #[⟨1, 2, 100, default, []⟩, ⟨3, 2, 100, default, []⟩, ⟨0, 4, 5, default, []⟩,
    ⟨5, 6, 5, default, []⟩]
  ends := by decide

def countingSink : FeatureSink Nat := ⟨fun n _ => .ok (n + 1)⟩

/-- The path and the lane go, and then only the road is left, although the path came first. -/
theorem removal_idempotent_roadAndIslands : ∃ g',
    removeSmallSubnetworks roadAndIslands (IdTable.empty .ways) 3 countingSink 0 =
      (2, g', .ok ⟨3, 2, [0, 4, 5, 6], [2, 3]⟩) ∧
    RemovalPlan.make g' 3 = .ok ⟨1, 0, [], []⟩ := by
  obtain ⟨g', hremoval⟩ : ∃ g',
      removeSmallSubnetworks roadAndIslands (IdTable.empty .ways) 3 countingSink 0 =
        (2, g', .ok ⟨3, 2, [0, 4, 5, 6], [2, 3]⟩) := ⟨_, rfl⟩
  obtain ⟨left, hmake, hleft⟩ := removal_idempotent hremoval
  obtain rfl : left = 1 := Nat.add_right_cancel hleft
  exact ⟨g', hremoval, hmake⟩

end Removal

end RoadAudit
