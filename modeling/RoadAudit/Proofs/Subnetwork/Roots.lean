import RoadAudit.Proofs.Lists
import RoadAudit.Proofs.Subnetwork.Flood

/-! # Components by their roots

The root of a subnetwork is its least node that is not removed. The labelling of a graph numbers
the subnetworks by their roots in ascending order, labels their nodes and no others, and knows how
many nodes each has. -/

namespace RoadAudit

namespace RoadGraph

variable {α : Type} {g : RoadGraph α}

/-- Whether a node that has an edge is the least of those connected to it that are not removed. -/
structure IsRoot (g : RoadGraph α) (v : Nat) : Prop where
  kept : g.isRemoved v = false
  edge : ∃ u, g.Adjacent v u
  least : ∀ u < v, g.Connected v u → g.isRemoved u = true

open scoped Classical in
noncomputable def rootsBelow (g : RoadGraph α) (bound : Nat) : List Nat :=
  (List.range bound).filter g.IsRoot

noncomputable def roots (g : RoadGraph α) : List Nat := g.rootsBelow g.nodeCount

theorem mem_rootsBelow {bound r : Nat} : r ∈ g.rootsBelow bound ↔ r < bound ∧ g.IsRoot r := by
  simp [rootsBelow]

theorem rootsBelow_succ_of_isRoot {v : Nat} (h : g.IsRoot v) :
    g.rootsBelow (v + 1) = g.rootsBelow v ++ [v] := by
  simp [rootsBelow, List.range_succ, h]

theorem rootsBelow_succ_of_not_isRoot {v : Nat} (h : ¬ g.IsRoot v) :
    g.rootsBelow (v + 1) = g.rootsBelow v := by
  simp [rootsBelow, List.range_succ, h]

theorem ascending_roots (g : RoadGraph α) : g.roots.Pairwise (· < ·) :=
  List.pairwise_lt_range.filter _

theorem IsRoot.lt {r : Nat} (h : g.IsRoot r) : r < g.nodeCount := by
  obtain ⟨u, hu⟩ := h.edge
  exact hu.symm.lt

theorem mem_roots {r : Nat} : r ∈ g.roots ↔ g.IsRoot r :=
  mem_rootsBelow.trans (and_iff_right_of_imp IsRoot.lt)

theorem IsRoot.eq {r s : Nat} (hr : g.IsRoot r) (hs : g.IsRoot s) (h : g.Connected r s) :
    r = s := by
  rcases Nat.lt_trichotomy r s with hlt | heq | hlt
  · have hremoved := hs.least r hlt h.symm
    rw [hr.kept] at hremoved
    cases hremoved
  · exact heq
  · have hremoved := hr.least s hlt h
    rw [hs.kept] at hremoved
    cases hremoved

theorem exists_isRoot {v : Nat} (hkept : g.isRemoved v = false) (hedge : ∃ u, g.Adjacent v u) :
    ∃ r ≤ v, g.IsRoot r ∧ g.Connected v r := by
  induction v using Nat.strong_induction_on with
  | _ v ih =>
    by_cases hleast : ∀ u < v, g.Connected v u → g.isRemoved u = true
    · exact ⟨v, le_rfl, ⟨hkept, hedge, hleast⟩, .refl v⟩
    · push Not at hleast
      obtain ⟨u, hlt, hconnected, hu⟩ := hleast
      have hne : u ≠ v := hlt.ne
      obtain ⟨r, hle, hroot, hr⟩ :=
        ih u hlt (by simpa using hu) (hconnected.symm.eq_or_adjacent.resolve_left hne)
      exact ⟨r, hle.trans hlt.le, hroot, hconnected.trans hr⟩

theorem mem_subnetworks_iff_root {c : Finset Nat} :
    c ∈ g.subnetworks ↔ ∃ r ∈ g.roots, g.component r = c := by
  rw [mem_subnetworks]
  constructor
  · rintro ⟨⟨w, -, rfl⟩, ⟨e, he, hbase, -⟩, ⟨v, hv, hkept⟩⟩
    have hwv := (mem_component.mp hv).2
    have hvb : g.Connected v e.base := hwv.symm.trans (mem_component.mp hbase).2
    have hedge : ∃ u, g.Adjacent v u := by
      rcases hvb.eq_or_adjacent with rfl | hadjacent
      · exact ⟨e.adj, e, he, .inl ⟨rfl, rfl⟩⟩
      · exact hadjacent
    obtain ⟨r, -, hroot, hr⟩ := exists_isRoot hkept hedge
    exact ⟨r, mem_roots.mpr hroot, (component_eq (hwv.trans hr)).symm⟩
  · rintro ⟨r, hr, rfl⟩
    have hroot := mem_roots.mp hr
    obtain ⟨u, e, he, hjoins⟩ := hroot.edge
    have hself := self_mem_component hroot.lt
    have hbase : e.base ∈ g.component r := by
      rcases hjoins with ⟨hbase, -⟩ | ⟨hadj, -⟩
      · exact hbase ▸ hself
      · exact (base_mem_component_iff he).mpr (hadj ▸ hself)
    exact ⟨⟨r, hroot.lt, rfl⟩, ⟨e, he, hbase, (base_mem_component_iff he).mp hbase⟩,
      ⟨r, hself, hroot.kept⟩⟩

/-- The root is the least node of its component that is not removed. -/
theorem IsRoot.isLeast {r : Nat} (h : g.IsRoot r) : IsLeast (g.kept (g.component r)) r := by
  refine ⟨⟨self_mem_component h.lt, h.kept⟩, fun v hv => ?_⟩
  by_contra hlt
  have hremoved := h.least v (not_le.mp hlt) (mem_component.mp hv.1).2
  rw [hv.2] at hremoved
  cases hremoved

end RoadGraph

namespace Labelling

open RoadGraph

variable {α : Type} {g : RoadGraph α}

/-- A labelling by roots: the components of the roots are labelled with their numbers, and the
sizes are theirs. -/
structure IsByRoots (g : RoadGraph α) (l : Labelling) (roots : List Nat) : Prop where
  size_eq : l.labels.size = g.nodeCount
  sizes_eq : l.sizes = roots.map fun r => (g.component r).card
  label_iff : ∀ v k : Nat, l.labels[v]? = some (some k) ↔ ∃ r, roots[k]? = some r ∧ v ∈ g.component r

theorem isByRoots_start (g : RoadGraph α) :
    IsByRoots g ⟨Array.replicate g.nodeCount none, []⟩ [] where
  size_eq := Array.size_replicate
  sizes_eq := rfl
  label_iff := by simp [Array.getElem?_replicate]

variable {l : Labelling} {roots : List Nat}

theorem IsByRoots.exists_label_iff (h : IsByRoots g l roots) (v : Nat) :
    (∃ k, l.labels[v]? = some (some k)) ↔ ∃ r ∈ roots, v ∈ g.component r := by
  simp only [h.label_iff, List.mem_iff_getElem?]
  constructor
  · rintro ⟨k, r, hr, hv⟩
    exact ⟨r, ⟨k, hr⟩, hv⟩
  · rintro ⟨r, ⟨k, hr⟩, hv⟩
    exact ⟨k, r, hr, hv⟩

theorem IsByRoots.open_iff (h : IsByRoots g l roots) {v : Nat} (hv : v < g.nodeCount) :
    l.labels[v]? = some none ↔ ∀ r ∈ roots, v ∉ g.component r := by
  have hlabel := h.exists_label_iff v
  obtain ⟨label, hsome⟩ : ∃ label, l.labels[v]? = some label :=
    ⟨_, Array.getElem?_eq_getElem (h.size_eq.symm ▸ hv)⟩
  rw [hsome] at hlabel ⊢
  cases label with
  | none => simpa using hlabel
  | some k => simpa using hlabel

theorem IsByRoots.floodable (h : IsByRoots g l roots) : Floodable g l.labels roots.length where
  size := h.size_eq
  fresh v hv := by
    obtain ⟨r, hr, -⟩ := (h.label_iff v _).mp hv
    rw [List.getElem?_eq_none le_rfl] at hr
    cases hr
  closed v u hadjacent hv := by
    rw [h.open_iff hadjacent.symm.lt] at hv
    rw [h.open_iff hadjacent.lt]
    intro r hr hu
    refine hv r hr (mem_component.mpr ⟨hadjacent.symm.lt, ?_⟩)
    exact (mem_component.mp hu).2.trans hadjacent.symm.connected

theorem IsByRoots.isSource_iff {v : Nat} (h : IsByRoots g l (g.rootsBelow v))
    (hv : v < g.nodeCount) : isSource g l.labels v = true ↔ g.IsRoot v := by
  have hedge : (g.edgesOf v).isEmpty = false ↔ ∃ u, g.Adjacent v u := by
    simp only [adjacent_iff, List.isEmpty_eq_false_iff_exists_mem]
    exact ⟨fun ⟨w, hw⟩ => ⟨w.adj, w, hw, rfl⟩, fun ⟨u, w, hw, _⟩ => ⟨w, hw⟩⟩
  simp only [isSource, Bool.and_eq_true, Bool.not_eq_true', isOpen_iff, h.open_iff hv, hedge]
  constructor
  · rintro ⟨⟨hopen, hkept⟩, hedge⟩
    refine ⟨hkept, hedge, fun u hlt hconnected => ?_⟩
    by_contra hu
    have hne : u ≠ v := hlt.ne
    obtain ⟨r, hle, hroot, hr⟩ := exists_isRoot (by simpa using hu)
      (hconnected.symm.eq_or_adjacent.resolve_left hne)
    refine hopen r (mem_rootsBelow.mpr ⟨hle.trans_lt hlt, hroot⟩) ?_
    exact mem_component.mpr ⟨hv, (hconnected.trans hr).symm⟩
  · intro hroot
    refine ⟨⟨fun r hr hmem => ?_, hroot.kept⟩, hroot.edge⟩
    obtain ⟨hlt, hr⟩ := mem_rootsBelow.mp hr
    exact hlt.ne (hr.eq hroot (mem_component.mp hmem).2)

/-- With the component of one more root labelled with the next number, a labelling is still one by
roots. -/
theorem IsByRoots.snoc {v : Nat} (h : IsByRoots g l roots) (hv : v < g.nodeCount)
    (hopen : ∀ r ∈ roots, v ∉ g.component r) {next : Array (Option Nat)}
    (hsize : next.size = g.nodeCount)
    (hnext : ∀ u : Nat, next[u]? =
      if u ∈ g.component v then some (some roots.length) else l.labels[u]?) :
    IsByRoots g ⟨next, l.sizes ++ [(g.component v).card]⟩ (roots ++ [v]) where
  size_eq := hsize
  sizes_eq := by rw [h.sizes_eq, List.map_append, List.map_singleton]
  label_iff u k := by
    simp only [hnext, getElem?_snoc_eq_some_iff]
    by_cases hu : u ∈ g.component v
    · -- no earlier root has the node, since it would have `v` as well
      have hother : ∀ r, roots[k]? = some r → u ∉ g.component r := by
        intro r hr hmem
        refine hopen r (List.mem_of_getElem? hr) ?_
        rw [← component_eq_of_mem hmem, component_eq_of_mem hu]
        exact self_mem_component hv
      simp only [if_pos hu, Option.some.injEq]
      constructor
      · rintro rfl
        exact ⟨v, .inr ⟨rfl, rfl⟩, hu⟩
      · rintro ⟨r, hr | ⟨hk, -⟩, hmem⟩
        · exact absurd hmem (hother r hr)
        · exact hk.symm
    · rw [if_neg hu, h.label_iff]
      constructor
      · rintro ⟨r, hr, hmem⟩
        exact ⟨r, .inl hr, hmem⟩
      · rintro ⟨r, hr | ⟨-, rfl⟩, hmem⟩
        · exact ⟨r, hr, hmem⟩
        · exact absurd hmem hu

/-- The step of the labelling: a node that is a root gets the next number. -/
theorem IsByRoots.floodFrom {v : Nat} (h : IsByRoots g l (g.rootsBelow v))
    (hv : v < g.nodeCount) : IsByRoots g (floodFrom g l v) (g.rootsBelow (v + 1)) := by
  have hsource := h.isSource_iff hv
  by_cases hroot : g.IsRoot v
  · have hopen : l.labels[v]? = some none := by
      have htrue := hsource.mpr hroot
      simp only [isSource, Bool.and_eq_true, isOpen_iff] at htrue
      exact htrue.1.1
    have hcount : l.sizes.length = (g.rootsBelow v).length := by
      rw [h.sizes_eq, List.length_map]
    obtain ⟨next, hflood, hsize, hnext⟩ := h.floodable.flood hopen
    rw [rootsBelow_succ_of_isRoot hroot]
    have hstep : Labelling.floodFrom g l v = ⟨next, l.sizes ++ [(g.component v).card]⟩ := by
      simp only [Labelling.floodFrom, if_pos (hsource.mpr hroot), hcount, hflood]
    rw [hstep]
    exact h.snoc hv ((h.open_iff hv).mp hopen) hsize hnext
  · rw [rootsBelow_succ_of_not_isRoot hroot, Labelling.floodFrom, if_neg (mt hsource.mp hroot)]
    exact h

theorem isByRoots_ofGraph (g : RoadGraph α) : IsByRoots g (ofGraph g) g.roots := by
  have hfold : ∀ k ≤ g.nodeCount, IsByRoots g
      ((List.range k).foldl (Labelling.floodFrom g) ⟨Array.replicate g.nodeCount none, []⟩)
      (g.rootsBelow k) := by
    intro k hk
    induction k with
    | zero => exact isByRoots_start g
    | succ k ih =>
      rw [List.range_succ, List.foldl_append, List.foldl_cons, List.foldl_nil]
      exact (ih (by omega)).floodFrom hk
  exact hfold g.nodeCount le_rfl

end Labelling
end RoadAudit
