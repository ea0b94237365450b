import Mathlib.Data.List.Induction
import RoadAudit.Proofs.Subnetwork.Roots
import RoadAudit.Subnetwork.Removal

/-! # What the removal of small subnetworks takes

The plan of a removal is said in terms of the subnetworks of the graph: the largest one stays, and
the others that are too small go with all their nodes and edges, unless these are more than half of
all edges. -/

namespace RoadAudit
namespace RemovalPlan

/-! ## The first of the greatest sizes -/

/-- The best of some sizes and its place: none is greater, and those before it are less. -/
structure IsBest (sizes : List Nat) (best : Nat × Nat) : Prop where
  le : ∀ j t : Nat, sizes[j]? = some t → t ≤ best.1
  lt : ∀ j t : Nat, sizes[j]? = some t → j < best.2 → t < best.1
  place_le : best.2 ≤ sizes.length
  getElem?_eq : 0 < best.1 → sizes[best.2]? = some best.1

theorem IsBest.snoc {sizes : List Nat} {best : Nat × Nat} (h : IsBest sizes best) (s : Nat) :
    IsBest (sizes ++ [s]) (if best.1 < s then (s, sizes.length) else best) := by
  split
  case isTrue hlt =>
    constructor
    · intro j t ht
      rcases getElem?_snoc_eq_some_iff.mp ht with ht | ⟨-, rfl⟩
      · exact (h.le j t ht).trans hlt.le
      · exact le_rfl
    · intro j t ht hj
      rcases getElem?_snoc_eq_some_iff.mp ht with ht | ⟨rfl, -⟩
      · exact (h.le j t ht).trans_lt hlt
      · exact absurd hj (lt_irrefl _)
    · simp
    · simp
  case isFalse hle =>
    constructor
    · intro j t ht
      rcases getElem?_snoc_eq_some_iff.mp ht with ht | ⟨-, rfl⟩
      · exact h.le j t ht
      · exact not_lt.mp hle
    · intro j t ht hj
      rcases getElem?_snoc_eq_some_iff.mp ht with ht | ⟨rfl, -⟩
      · exact h.lt j t ht hj
      · exact absurd hj h.place_le.not_gt
    · exact h.place_le.trans (by simp)
    · exact fun hpos => getElem?_snoc_eq_some_iff.mpr (.inl (h.getElem?_eq hpos))

theorem isBest_foldl (sizes : List Nat) :
    IsBest sizes (sizes.zipIdx.foldl (fun best s => if best.1 < s.1 then s else best) (0, 0)) := by
  induction sizes using List.reverseRecOn with
  | nil => constructor <;> simp
  | append_singleton sizes s ih =>
    rw [List.zipIdx_append, List.foldl_append]
    simpa using ih.snoc s

theorem exists_largest {sizes : List Nat} (hne : sizes ≠ []) (hpos : ∀ s ∈ sizes, 0 < s) :
    ∃ s, sizes[largest sizes]? = some s ∧ (∀ t ∈ sizes, t ≤ s) ∧
      ∀ j < largest sizes, ∀ t, sizes[j]? = some t → t < s := by
  have h := isBest_foldl sizes
  have hle : ∀ t ∈ sizes, t ≤ _ := fun t ht =>
    let ⟨j, hj⟩ := List.mem_iff_getElem?.mp ht
    h.le j t hj
  obtain ⟨t, ht⟩ := List.exists_mem_of_ne_nil sizes hne
  exact ⟨_, h.getElem?_eq ((hpos t ht).trans_le (hle t ht)), hle, fun j hj t ht => h.lt j t ht hj⟩

end RemovalPlan

/-! ## The subnetworks by number -/

namespace RoadGraph

variable {α : Type} {g : RoadGraph α}

noncomputable def parts (g : RoadGraph α) : List (Finset Nat) := g.roots.map g.component

theorem mem_parts {c : Finset Nat} : c ∈ g.parts ↔ c ∈ g.subnetworks := by
  rw [parts, List.mem_map, mem_subnetworks_iff_root]

theorem nodup_parts (g : RoadGraph α) : g.parts.Nodup := by
  have hroots : g.roots.Nodup := g.ascending_roots.imp Nat.ne_of_lt
  refine List.Nodup.map_on (fun r hr s hs h => ?_) hroots
  have hroot := mem_roots.mp hs
  have hmem : s ∈ g.component r := h ▸ self_mem_component hroot.lt
  exact (mem_roots.mp hr).eq hroot (mem_component.mp hmem).2

theorem card_subnetworks (g : RoadGraph α) : g.subnetworks.card = g.parts.length := by
  have hparts : g.parts.toFinset = g.subnetworks := by
    ext c
    rw [List.mem_toFinset, mem_parts]
  rw [← hparts, List.toFinset_card_of_nodup g.nodup_parts]

theorem least_le_of_parts {i j : Nat} (hij : i ≤ j) {c d : Finset Nat} (hc : g.parts[i]? = some c)
    (hd : g.parts[j]? = some d) {v u : Nat} (hv : IsLeast (g.kept c) v)
    (hu : IsLeast (g.kept d) u) : v ≤ u := by
  rw [parts, List.getElem?_map, Option.map_eq_some_iff] at hc hd
  obtain ⟨r, hr, rfl⟩ := hc
  obtain ⟨s, hs, rfl⟩ := hd
  obtain rfl := hv.unique (mem_roots.mp (List.mem_of_getElem? hr)).isLeast
  obtain rfl := hu.unique (mem_roots.mp (List.mem_of_getElem? hs)).isLeast
  obtain ⟨hi, rfl⟩ := List.getElem?_eq_some_iff.mp hr
  obtain ⟨hj, rfl⟩ := List.getElem?_eq_some_iff.mp hs
  rcases hij.eq_or_lt with rfl | hlt
  · exact le_rfl
  · exact (List.pairwise_iff_getElem.mp g.ascending_roots i j hi hj hlt).le

theorem IsLargest.unique {c d : Finset Nat} (hc : g.IsLargest c) (hd : g.IsLargest d) : c = d := by
  have hcard := (hc.card_le d hd.isSubnetwork).antisymm (hd.card_le c hc.isSubnetwork)
  obtain ⟨r, hr, rfl⟩ := mem_subnetworks_iff_root.mp (mem_subnetworks.mpr hc.isSubnetwork)
  obtain ⟨s, hs, rfl⟩ := mem_subnetworks_iff_root.mp (mem_subnetworks.mpr hd.isSubnetwork)
  have hleast := (mem_roots.mp hr).isLeast
  have hleast' := (mem_roots.mp hs).isLeast
  have hrs : r = s := (hc.least_le _ hd.isSubnetwork hcard r s hleast hleast').antisymm
    (hd.least_le _ hc.isSubnetwork hcard.symm s r hleast' hleast)
  rw [hrs]

end RoadGraph

namespace Labelling

open RoadGraph

variable {α : Type} (g : RoadGraph α)

theorem sizes_ofGraph : (ofGraph g).sizes = g.parts.map Finset.card := by
  rw [(isByRoots_ofGraph g).sizes_eq, parts, List.map_map]
  rfl

theorem component?_ofGraph_eq_some_iff {v k : Nat} :
    (ofGraph g).component? v = some k ↔ ∃ c, g.parts[k]? = some c ∧ v ∈ c := by
  have hlabel := (isByRoots_ofGraph g).label_iff v k
  have hcomponent : (ofGraph g).component? v = some k ↔ (ofGraph g).labels[v]? = some (some k) := by
    cases h : (ofGraph g).labels[v]? <;> simp [component?, h]
  rw [hcomponent, hlabel]
  simp [parts]

end Labelling

/-! ## The plan -/

namespace RemovalPlan

open RoadGraph

variable {α : Type} {g : RoadGraph α}

theorem sizes_eq_nil_iff : (Labelling.ofGraph g).sizes = [] ↔ g.subnetworks = ∅ := by
  rw [Labelling.sizes_ofGraph, List.map_eq_nil_iff, ← List.length_eq_zero_iff, ← card_subnetworks,
    Finset.card_eq_zero]

/-- The largest subnetwork is the one at the place of the largest size. -/
theorem exists_isLargest (h : g.subnetworks ≠ ∅) :
    ∃ c, g.parts[largest (Labelling.ofGraph g).sizes]? = some c ∧ g.IsLargest c := by
  have hne : (Labelling.ofGraph g).sizes ≠ [] := fun hnil => h (sizes_eq_nil_iff.mp hnil)
  have hpos : ∀ s ∈ (Labelling.ofGraph g).sizes, 0 < s := by
    rw [Labelling.sizes_ofGraph, List.forall_mem_map]
    intro c hc
    obtain ⟨v, hv⟩ := (mem_subnetworks.mp (mem_parts.mp hc)).kept
    exact Finset.card_pos.mpr ⟨v, hv.1⟩
  obtain ⟨s, hs, hle, hlt⟩ := exists_largest hne hpos
  generalize largest (Labelling.ofGraph g).sizes = place at hs hlt
  rw [Labelling.sizes_ofGraph] at hs hle hlt
  rw [List.getElem?_map, Option.map_eq_some_iff] at hs
  obtain ⟨c, hc, rfl⟩ := hs
  refine ⟨c, hc, mem_subnetworks.mp (mem_parts.mp (List.mem_of_getElem? hc)), fun d hd => ?_,
    fun d hd hcard v u hv hu => ?_⟩
  · exact hle _ (List.mem_map_of_mem (mem_parts.mpr (mem_subnetworks.mpr hd)))
  · obtain ⟨j, hj⟩ := List.mem_iff_getElem?.mp (mem_parts.mpr (mem_subnetworks.mpr hd))
    refine least_le_of_parts (not_lt.mp fun hlt' => ?_) hc hj hv hu
    exact (hlt j hlt' _ (by rw [List.getElem?_map, hj, Option.map_some])).ne hcard

variable {minSize : Nat} {c : Finset Nat}

theorem goes_iff (hc : g.parts[largest (Labelling.ofGraph g).sizes]? = some c) {k : Nat} :
    goes (Labelling.ofGraph g).sizes minSize k = true ↔
      ∃ d ∈ g.smallSubnetworks minSize c, g.parts[k]? = some d := by
  have hsize : (Labelling.ofGraph g).sizes[k]? = (g.parts[k]?).map Finset.card := by
    rw [Labelling.sizes_ofGraph, List.getElem?_map]
  rw [goes, Bool.and_eq_true, bne_iff_ne, hsize]
  cases hd : g.parts[k]? with
  | none => simp
  | some d =>
    have hplace : k = largest (Labelling.ofGraph g).sizes ↔ d = c := by
      rw [← List.getElem?_inj (List.getElem?_eq_some_iff.mp hd).1 g.nodup_parts, hd, hc,
        Option.some.injEq]
    have hsubnetwork : d ∈ g.subnetworks := mem_parts.mp (List.mem_of_getElem? hd)
    simp [smallSubnetworks, hplace, hsubnetwork]

theorem card_smallSubnetworks (hc : g.parts[largest (Labelling.ofGraph g).sizes]? = some c) :
    ((List.range (Labelling.ofGraph g).sizes.length).filter
      (goes (Labelling.ofGraph g).sizes minSize)).length = (g.smallSubnetworks minSize c).card := by
  rw [← List.toFinset_card_of_nodup (List.nodup_range.filter _)]
  refine Finset.card_bij (fun k _ => g.parts.getD k ∅) (fun k hk => ?_) (fun k hk j hj h => ?_)
    (fun d hd => ?_)
  · obtain ⟨d, hd, hpart⟩ := (goes_iff hc).mp (List.mem_filter.mp (List.mem_toFinset.mp hk)).2
    rwa [List.getD_eq_getElem?_getD, hpart]
  · obtain ⟨d, -, hpart⟩ := (goes_iff hc).mp (List.mem_filter.mp (List.mem_toFinset.mp hk)).2
    obtain ⟨d', -, hpart'⟩ := (goes_iff hc).mp (List.mem_filter.mp (List.mem_toFinset.mp hj)).2
    simp only [List.getD_eq_getElem?_getD, hpart, hpart', Option.getD_some] at h
    subst h
    exact (List.getElem?_inj (List.getElem?_eq_some_iff.mp hpart).1 g.nodup_parts).mp
      (hpart.trans hpart'.symm)
  · obtain ⟨k, hk⟩ := List.mem_iff_getElem?.mp (mem_parts.mpr (Finset.mem_filter.mp hd).1)
    have hlt : k < (Labelling.ofGraph g).sizes.length := by
      rw [Labelling.sizes_ofGraph, List.length_map]
      exact (List.getElem?_eq_some_iff.mp hk).1
    refine ⟨k, ?_, by rw [List.getD_eq_getElem?_getD, hk, Option.getD_some]⟩
    rw [List.mem_toFinset, List.mem_filter, List.mem_range]
    exact ⟨hlt, (goes_iff hc).mpr ⟨d, hd, hk⟩⟩

/-- What the removal of the small subnetworks takes: all their nodes, and the edges that lie in
them, both in ascending order. -/
structure TakesSmall (g : RoadGraph α) (minSize : Nat) (largest : Finset Nat)
    (plan : RemovalPlan) : Prop where
  subnetworks : plan.subnetworks = g.subnetworks.card
  removedSubnetworks : plan.removedSubnetworks = (g.smallSubnetworks minSize largest).card
  ascendingNodes : plan.removedNodes.Pairwise (· < ·)
  mem_removedNodes : ∀ v, v ∈ plan.removedNodes ↔ ∃ c ∈ g.smallSubnetworks minSize largest, v ∈ c
  ascendingEdges : plan.removedEdges.Pairwise (· < ·)
  mem_removedEdges : ∀ i, i ∈ plan.removedEdges ↔ ∃ e, g.edges[i]? = some e ∧
    ∃ c ∈ g.smallSubnetworks minSize largest, e.base ∈ c ∧ e.adj ∈ c
  whole : ∀ e ∈ g.edges, e.base ∈ plan.removedNodes ↔ e.adj ∈ plan.removedNodes

def isTaken (g : RoadGraph α) (minSize v : Nat) : Bool :=
  ((Labelling.ofGraph g).component? v).any (goes (Labelling.ofGraph g).sizes minSize)

theorem isTaken_iff (hc : g.parts[largest (Labelling.ofGraph g).sizes]? = some c) {v : Nat} :
    isTaken g minSize v = true ↔ ∃ d ∈ g.smallSubnetworks minSize c, v ∈ d := by
  rw [isTaken, Option.any_eq_true]
  simp only [goes_iff hc, Labelling.component?_ofGraph_eq_some_iff]
  constructor
  · rintro ⟨k, ⟨d, hd, hv⟩, d', hd', hk⟩
    obtain rfl := Option.some.inj (hd.symm.trans hk)
    exact ⟨d, hd', hv⟩
  · rintro ⟨d, hd, hv⟩
    have hpart := mem_parts.mpr (Finset.mem_filter.mp hd).1
    obtain ⟨k, hk⟩ := List.mem_iff_getElem?.mp hpart
    exact ⟨k, ⟨d, hk, hv⟩, d, hd, hk⟩

def proposed (g : RoadGraph α) (minSize : Nat) : RemovalPlan where
  subnetworks := (Labelling.ofGraph g).sizes.length
  removedSubnetworks := ((List.range (Labelling.ofGraph g).sizes.length).filter
    (goes (Labelling.ofGraph g).sizes minSize)).length
  removedNodes := (List.range g.nodeCount).filter (isTaken g minSize)
  removedEdges := (g.views.filter fun v => isTaken g minSize v.edge.base).map EdgeView.id

theorem takesSmall_proposed
    (hc : g.parts[largest (Labelling.ofGraph g).sizes]? = some c) :
    TakesSmall g minSize c (proposed g minSize) := by
  have hnodes : ∀ v, v ∈ (proposed g minSize).removedNodes ↔
      ∃ d ∈ g.smallSubnetworks minSize c, v ∈ d := by
    intro v
    rw [proposed, List.mem_filter, List.mem_range, isTaken_iff hc, and_iff_right_iff_imp]
    rintro ⟨d, hd, hv⟩
    obtain ⟨⟨w, -, rfl⟩, -, -⟩ := mem_subnetworks.mp (Finset.mem_filter.mp hd).1
    exact (mem_component.mp hv).1
  -- a subnetwork that has one end of an edge has the other one as well
  have hends : ∀ e ∈ g.edges, ∀ d ∈ g.smallSubnetworks minSize c, e.base ∈ d ↔ e.adj ∈ d := by
    intro e he d hd
    obtain ⟨⟨w, -, rfl⟩, -, -⟩ := mem_subnetworks.mp (Finset.mem_filter.mp hd).1
    exact base_mem_component_iff he
  constructor
  case subnetworks =>
    rw [proposed, Labelling.sizes_ofGraph, List.length_map, card_subnetworks]
  case removedSubnetworks => exact card_smallSubnetworks hc
  case ascendingNodes => exact List.pairwise_lt_range.filter _
  case mem_removedNodes => exact hnodes
  case ascendingEdges =>
    rw [proposed, List.pairwise_map]
    exact g.ascending_views.filter _
  case mem_removedEdges =>
    intro i
    simp only [proposed, List.mem_map, List.mem_filter, isTaken_iff hc]
    constructor
    · rintro ⟨v, ⟨hv, d, hd, hbase⟩, rfl⟩
      have he := (mem_views.mp hv).1
      exact ⟨v.edge, he, d, hd, hbase, (hends _ (Array.mem_of_getElem? he) d hd).mp hbase⟩
    · rintro ⟨e, he, d, hd, hbase, -⟩
      exact ⟨⟨i, e, false⟩, ⟨mem_views.mpr ⟨he, rfl⟩, d, hd, hbase⟩, rfl⟩
  case whole =>
    intro e he
    rw [hnodes, hnodes]
    exact exists_congr fun d => and_congr_right fun hd => hends e he d hd

theorem make_of_nothing (h : minSize = 0 ∨ g.subnetworks = ∅) :
    make g minSize = .ok ⟨g.subnetworks.card, 0, [], []⟩ := by
  unfold make
  rw [if_pos (h.imp_right sizes_eq_nil_iff.mpr), Labelling.sizes_ofGraph, List.length_map,
    card_subnetworks]

theorem make_eq (hsize : minSize ≠ 0) (hsome : g.subnetworks ≠ ∅) :
    make g minSize =
      if g.edgeCount < 2 * (proposed g minSize).removedEdges.length then
        .error (.tooManyRemoved (proposed g minSize).removedEdges.length g.edgeCount)
      else .ok (proposed g minSize) := by
  unfold make
  rw [if_neg (by simp [hsize, sizes_eq_nil_iff, hsome])]
  rfl

/-- Without a least size or without a subnetwork nothing is removed. In all other cases there is
one largest subnetwork, and the plan takes all other ones of fewer than `minSize` nodes, unless
these have more than half of the edges: then the removal fails with both numbers. -/
theorem make_by_subnetworks (g : RoadGraph α) (minSize : Nat) :
    (minSize = 0 ∨ g.subnetworks = ∅ → make g minSize = .ok ⟨g.subnetworks.card, 0, [], []⟩) ∧
    (minSize ≠ 0 → g.subnetworks ≠ ∅ →
      ∃ largest, g.IsLargest largest ∧ (∀ c, g.IsLargest c → c = largest) ∧
      ∃ plan, TakesSmall g minSize largest plan ∧
        make g minSize = if g.edgeCount < 2 * plan.removedEdges.length then
          .error (.tooManyRemoved plan.removedEdges.length g.edgeCount) else .ok plan) := by
  refine ⟨make_of_nothing, fun hsize hsome => ?_⟩
  obtain ⟨c, hc, hlargest⟩ := exists_isLargest hsome
  exact ⟨c, hlargest, fun d hd => hd.unique hlargest, proposed g minSize, takesSmall_proposed hc,
    make_eq hsize hsome⟩

end RemovalPlan
end RoadAudit
