import Mathlib.Data.Finset.Card
import Mathlib.Logic.Relation
import Mathlib.Order.Bounds.Basic
import RoadAudit.Proofs.Graph.Incidence

/-! # Connected nodes

Two nodes are connected if edges lead from one to the other, whichever way they are stored. The
nodes connected to one node are its component. A subnetwork is a component that has an edge and a
node that is not removed; the largest one has the most nodes, and of several such its least node
that is not removed comes first. -/

namespace RoadAudit
namespace RoadGraph

variable {α : Type} {g : RoadGraph α}

/-! ## Components -/

theorem Adjacent.symm {v u : Nat} (h : g.Adjacent v u) : g.Adjacent u v := by
  obtain ⟨e, he, hjoins⟩ := h
  exact ⟨e, he, hjoins.symm.imp And.symm And.symm⟩

theorem Adjacent.lt {v u : Nat} (h : g.Adjacent v u) : u < g.nodeCount := by
  obtain ⟨e, he, hjoins⟩ := h
  rcases hjoins with ⟨-, rfl⟩ | ⟨-, rfl⟩
  · exact (g.ends e he).2
  · exact (g.ends e he).1

/-- Whether edges lead from one node to another. -/
def Connected (g : RoadGraph α) : Nat → Nat → Prop := Relation.ReflTransGen g.Adjacent

theorem Connected.refl (v : Nat) : g.Connected v v := Relation.ReflTransGen.refl

theorem Connected.trans {v u w : Nat} (h : g.Connected v u) (h' : g.Connected u w) :
    g.Connected v w := Relation.ReflTransGen.trans h h'

theorem Connected.symm {v u : Nat} (h : g.Connected v u) : g.Connected u v := by
  induction h with
  | refl => exact .refl v
  | tail _ hadjacent ih => exact .trans (.single hadjacent.symm) ih

theorem Adjacent.connected {v u : Nat} (h : g.Adjacent v u) : g.Connected v u := .single h

theorem Connected.eq_or_adjacent {v u : Nat} (h : g.Connected v u) :
    v = u ∨ ∃ w, g.Adjacent v w := by
  cases h.cases_head with
  | inl heq => exact .inl heq
  | inr hstep => exact .inr (hstep.imp fun w hw => hw.1)

theorem Connected.lt {v u : Nat} (h : g.Connected v u) (hv : v < g.nodeCount) :
    u < g.nodeCount := by
  cases h with
  | refl => exact hv
  | tail _ hadjacent => exact hadjacent.lt

open scoped Classical in
noncomputable def component (g : RoadGraph α) (v : Nat) : Finset Nat :=
  {u ∈ Finset.range g.nodeCount | g.Connected v u}

theorem mem_component {v u : Nat} : u ∈ g.component v ↔ u < g.nodeCount ∧ g.Connected v u := by
  simp [component]

theorem self_mem_component {v : Nat} (hv : v < g.nodeCount) : v ∈ g.component v :=
  mem_component.mpr ⟨hv, .refl v⟩

theorem component_eq {v u : Nat} (h : g.Connected v u) : g.component v = g.component u := by
  ext w
  rw [mem_component, mem_component]
  exact and_congr_right fun _ => ⟨h.symm.trans, h.trans⟩

theorem component_eq_of_mem {v u : Nat} (h : u ∈ g.component v) : g.component u = g.component v :=
  (component_eq (mem_component.mp h).2).symm

/-- An edge lies in one component as a whole. -/
theorem base_mem_component_iff {e : Edge α} (he : e ∈ g.edges) {v : Nat} :
    e.base ∈ g.component v ↔ e.adj ∈ g.component v := by
  have hadjacent : g.Adjacent e.base e.adj := ⟨e, he, .inl ⟨rfl, rfl⟩⟩
  have hends := g.ends e he
  rw [mem_component, mem_component]
  constructor
  · exact fun h => ⟨hends.2, h.2.trans hadjacent.connected⟩
  · exact fun h => ⟨hends.1, h.2.trans hadjacent.symm.connected⟩

/-! ## Subnetworks -/

def kept (g : RoadGraph α) (c : Finset Nat) : Set Nat := {v | v ∈ c ∧ g.isRemoved v = false}

/-- Whether a set of nodes is a component with an edge and a node that is not removed. -/
structure IsSubnetwork (g : RoadGraph α) (c : Finset Nat) : Prop where
  component : ∃ v < g.nodeCount, c = g.component v
  edge : ∃ e ∈ g.edges, e.base ∈ c ∧ e.adj ∈ c
  kept : (g.kept c).Nonempty

open scoped Classical in
noncomputable def subnetworks (g : RoadGraph α) : Finset (Finset Nat) :=
  {c ∈ (Finset.range g.nodeCount).powerset | g.IsSubnetwork c}

theorem mem_subnetworks {c : Finset Nat} : c ∈ g.subnetworks ↔ g.IsSubnetwork c := by
  simp only [subnetworks, Finset.mem_filter, Finset.mem_powerset, and_iff_right_iff_imp]
  rintro ⟨⟨v, -, rfl⟩, -, -⟩ u hu
  exact Finset.mem_range.mpr (mem_component.mp hu).1

/-- Whether a subnetwork has the most nodes and, of several such, the least node that is not
removed. -/
structure IsLargest (g : RoadGraph α) (c : Finset Nat) : Prop where
  isSubnetwork : g.IsSubnetwork c
  card_le : ∀ d, g.IsSubnetwork d → d.card ≤ c.card
  least_le : ∀ d, g.IsSubnetwork d → d.card = c.card →
    ∀ v u, IsLeast (g.kept c) v → IsLeast (g.kept d) u → v ≤ u

noncomputable def smallSubnetworks (g : RoadGraph α) (minSize : Nat) (largest : Finset Nat) :
    Finset (Finset Nat) :=
  {c ∈ g.subnetworks | c ≠ largest ∧ c.card < minSize}

end RoadGraph
end RoadAudit
