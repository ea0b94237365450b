import RoadAudit.Proofs.Graph.Islands
import RoadAudit.Proofs.Subnetwork.Plan

/-! # The removal of subnetworks

A removal either marks the nodes of its plan, after each edge of the plan has been written once, or
it leaves the graph as it is. It fails if the plan does, and then nothing is written, or if the sink
refuses a feature, and then the sink has taken those before. -/

namespace RoadAudit

/-! ## What a sink takes -/

namespace FeatureSink

variable {σ : Type}

/-- What a sink holds after it has taken some features one by one. -/
inductive Takes (sink : FeatureSink σ) : σ → List Feature → σ → Prop
  | nothing (held : σ) : Takes sink held [] held
  | next {held middle last : σ} {f : Feature} {rest : List Feature}
      (hwrite : sink.write held f = .ok middle) (hrest : Takes sink middle rest last) :
      Takes sink held (f :: rest) last

variable {sink : FeatureSink σ}

theorem writeAll_cases (fs : List Feature) (held : σ) :
    (∃ last, sink.Takes held fs last ∧ sink.writeAll fs held = (last, none)) ∨
    ∃ taken f rest last reason, fs = taken ++ f :: rest ∧ sink.Takes held taken last ∧
      sink.write last f = .error reason ∧ sink.writeAll fs held = (last, some reason) := by
  induction fs generalizing held with
  | nil => exact .inl ⟨held, .nothing held, rfl⟩
  | cons f fs ih =>
    cases hwrite : sink.write held f with
    | error reason =>
      exact .inr ⟨[], f, fs, held, reason, rfl, .nothing held, hwrite, by rw [writeAll, hwrite]⟩
    | ok next =>
      have hall : sink.writeAll (f :: fs) held = sink.writeAll fs next := by rw [writeAll, hwrite]
      rw [hall]
      rcases ih next with ⟨last, htaken, hlast⟩ |
        ⟨taken, f', rest, last, reason, rfl, htaken, hrefused⟩
      · exact .inl ⟨last, .next hwrite htaken, hlast⟩
      · exact .inr ⟨f :: taken, f', rest, last, reason, rfl, .next hwrite htaken, hrefused⟩

end FeatureSink

/-! ## The features of edges -/

namespace RoadGraph

variable {α : Type} (g : RoadGraph α)

theorem listed?_eq (id : Nat) : g.listed? id = g.view? id := by
  unfold listed? view?
  cases he : g.edges[id]? with
  | none => rfl
  | some e =>
    have hlisted : (⟨id, e, false⟩ : EdgeView α) ∈ g.edgesOf e.base :=
      mem_edgesOf_iff.mpr ⟨he, rfl, fun _ => rfl⟩
    refine (find?_eq_some_iff_least (g.ascending_edgesOf e.base)).mpr
      ⟨hlisted, beq_self_eq_true id, fun c _ hc => ?_⟩
    exact (beq_iff_eq.mp hc).ge

end RoadGraph

/-- Whether a feature shows an edge: its course from end to end as it is stored, and its way. -/
def IsIslandOf (g : RoadGraph Float) (wayIds : IdTable) (id : Nat) (f : Feature) : Prop :=
  ∃ e p q, g.edges[id]? = some e ∧ g.point? e.base = some p ∧ g.point? e.adj = some q ∧
    f = ⟨.lineString (p :: e.pillars ++ [q]),
      [("type", .text "island"), ("way_id", Feature.idJson (wayIds.osmId? id))]⟩

theorem exists_isIslandOf (g : RoadGraph Float) (wayIds : IdTable) {id : Nat}
    (hid : id < g.edgeCount) :
    ∃ f, IsIslandOf g wayIds id f ∧
      (g.listed? id).map (fun v => Feature.ofIsland (g.geometry v) (wayIds.osmId? id)) =
        some f := by
  have he : g.edges[id]? = some g.edges[id] := Array.getElem?_eq_getElem hid
  obtain ⟨hbase, hadj⟩ := g.ends _ (Array.getElem_mem hid)
  have hp : g.point? g.edges[id].base = some _ := congrArg _ (Array.getElem?_eq_getElem hbase)
  have hq : g.point? g.edges[id].adj = some _ := congrArg _ (Array.getElem?_eq_getElem hadj)
  refine ⟨_, ⟨_, _, _, he, hp, hq, rfl⟩, ?_⟩
  rw [g.listed?_eq, RoadGraph.view?, he]
  simp [Feature.ofIsland, RoadGraph.geometry, RoadGraph.course, hp, hq]

theorem forall₂_islandFeatures (g : RoadGraph Float) (wayIds : IdTable) {edges : List Nat}
    (h : ∀ id ∈ edges, id < g.edgeCount) :
    List.Forall₂ (IsIslandOf g wayIds) edges (islandFeatures g wayIds edges) := by
  induction edges with
  | nil => exact .nil
  | cons id edges ih =>
    obtain ⟨hid, hedges⟩ := List.forall_mem_cons.mp h
    obtain ⟨f, hf, hsome⟩ := exists_isIslandOf g wayIds hid
    have hcons : islandFeatures g wayIds (id :: edges) = f :: islandFeatures g wayIds edges :=
      List.filterMap_cons_some hsome
    rw [hcons]
    exact .cons hf (ih hedges)

/-! ## Marks -/

namespace RoadGraph

variable {α : Type} {g : RoadGraph α}

/-- Whether a graph is another one with some nodes marked as removed besides. -/
structure MarksAlso (g : RoadGraph α) (nodes : List Nat) (g' : RoadGraph α) : Prop where
  edges : g'.edges = g.edges
  nodeCount : g'.nodeCount = g.nodeCount
  point : ∀ n, g'.point? n = g.point? n
  removed : ∀ n, g'.isRemoved n = true ↔ g.isRemoved n = true ∨ n ∈ nodes

@[simp] theorem point?_markRemoved (g : RoadGraph α) (v n : Nat) :
    (g.markRemoved v).point? n = g.point? n := by
  unfold point? markRemoved
  rw [Array.getElem?_modify]
  split
  case isTrue => cases g.nodes[n]? <;> rfl
  case isFalse => rfl

theorem lt_nodeCount_of_isRemoved {n : Nat} (h : g.isRemoved n = true) : n < g.nodeCount := by
  obtain ⟨node, hnode, -⟩ := (Option.any_eq_true _ _).mp h
  exact (Array.getElem?_eq_some_iff.mp hnode).1

theorem nodeCount_foldl_markRemoved (g : RoadGraph α) (nodes : List Nat) :
    (nodes.foldl markRemoved g).nodeCount = g.nodeCount := by
  induction nodes generalizing g with
  | nil => rfl
  | cons v rest ih => exact (ih (g.markRemoved v)).trans (g.nodeCount_markRemoved v)

theorem point?_foldl_markRemoved (g : RoadGraph α) (nodes : List Nat) (n : Nat) :
    (nodes.foldl markRemoved g).point? n = g.point? n := by
  induction nodes generalizing g with
  | nil => rfl
  | cons v rest ih => exact (ih (g.markRemoved v)).trans (g.point?_markRemoved v n)

theorem marksAlso_foldl {nodes : List Nat} (h : ∀ n ∈ nodes, n < g.nodeCount) :
    g.MarksAlso nodes (nodes.foldl markRemoved g) := by
  constructor
  case edges => exact g.edges_foldl_markRemoved nodes
  case nodeCount => exact g.nodeCount_foldl_markRemoved nodes
  case point => exact g.point?_foldl_markRemoved nodes
  case removed =>
    intro n
    by_cases hn : n < g.nodeCount
    · rw [isRemoved_foldl_markRemoved g nodes hn, Bool.or_eq_true, List.contains_iff_mem]
    · refine iff_of_false (fun hremoved => hn ?_) ?_
      · exact g.nodeCount_foldl_markRemoved nodes ▸ lt_nodeCount_of_isRemoved hremoved
      · rintro (hremoved | hmem)
        · exact hn (lt_nodeCount_of_isRemoved hremoved)
        · exact hn (h n hmem)

end RoadGraph

/-! ## The whole removal -/

namespace RemovalPlan

variable {α : Type}

/-- Whether a plan is about nodes and edges of a graph, and has the edges in ascending order. -/
structure IsWithin (plan : RemovalPlan) (g : RoadGraph α) : Prop where
  nodes : ∀ v ∈ plan.removedNodes, v < g.nodeCount
  edges : ∀ i ∈ plan.removedEdges, i < g.edgeCount
  ascending : plan.removedEdges.Pairwise (· < ·)

theorem isWithin_proposed (g : RoadGraph α) (minSize : Nat) : (proposed g minSize).IsWithin g where
  nodes := fun v hv => List.mem_range.mp (List.mem_filter.mp hv).1
  edges := by
    rw [proposed, List.forall_mem_map]
    intro v hv
    exact (Array.getElem?_eq_some_iff.mp (RoadGraph.mem_views.mp (List.mem_filter.mp hv).1).1).1
  ascending := by
    rw [proposed, List.pairwise_map]
    exact g.ascending_views.filter _

theorem make_cases (g : RoadGraph α) (minSize : Nat) :
    (∃ plan, plan.IsWithin g ∧ make g minSize = .ok plan) ∨
    ∃ removed total, make g minSize = .error (.tooManyRemoved removed total) := by
  by_cases h : minSize = 0 ∨ g.subnetworks = ∅
  · exact .inl ⟨_, ⟨by simp, by simp, .nil⟩, make_of_nothing h⟩
  · rw [not_or] at h
    rw [make_eq h.1 h.2]
    split
    case isTrue => exact .inr ⟨_, _, rfl⟩
    case isFalse => exact .inl ⟨_, isWithin_proposed g minSize, rfl⟩

end RemovalPlan

section Removal

variable {σ : Type}

/-- How a removal ends: what the sink holds, the graph, and the plan or why there is none. -/
inductive Removes (g : RoadGraph Float) (wayIds : IdTable) (minSize : Nat) (sink : FeatureSink σ)
    (held : σ) : σ × RoadGraph Float × Except RemovalError RemovalPlan → Prop
  /-- Each edge of the plan has been written once, and then its nodes are marked. -/
  | done {plan : RemovalPlan} {fs : List Feature} {last : σ} {g' : RoadGraph Float}
      (hplan : RemovalPlan.make g minSize = .ok plan)
      (hascending : plan.removedEdges.Pairwise (· < ·))
      (hfeatures : List.Forall₂ (IsIslandOf g wayIds) plan.removedEdges fs)
      (htaken : sink.Takes held fs last) (hmarks : g.MarksAlso plan.removedNodes g') :
      Removes g wayIds minSize sink held (last, g', .ok plan)
  | tooManyRemoved {removed total : Nat}
      (hplan : RemovalPlan.make g minSize = .error (.tooManyRemoved removed total)) :
      Removes g wayIds minSize sink held (held, g, .error (.tooManyRemoved removed total))
  /-- The sink has taken the features before one that it refuses. -/
  | sinkRefused {plan : RemovalPlan} {taken rest : List Feature} {f : Feature} {last : σ}
      {reason : String} (hplan : RemovalPlan.make g minSize = .ok plan)
      (hascending : plan.removedEdges.Pairwise (· < ·))
      (hfeatures : List.Forall₂ (IsIslandOf g wayIds) plan.removedEdges (taken ++ f :: rest))
      (htaken : sink.Takes held taken last) (hrefused : sink.write last f = .error reason) :
      Removes g wayIds minSize sink held (last, g, .error (.sinkRefused reason))

/-- A removal marks the nodes of its plan and nothing else once the sink has taken each edge of the
plan, or it fails and leaves the graph as it is. -/
theorem removal_all_or_nothing (g : RoadGraph Float) (wayIds : IdTable) (minSize : Nat)
    (sink : FeatureSink σ) (held : σ) :
    Removes g wayIds minSize sink held (removeSmallSubnetworks g wayIds minSize sink held) := by
  unfold removeSmallSubnetworks
  rcases RemovalPlan.make_cases g minSize with ⟨plan, hwithin, hplan⟩ | ⟨removed, total, hplan⟩
  · have hfeatures := forall₂_islandFeatures g wayIds hwithin.edges
    rw [hplan]
    dsimp only
    rcases sink.writeAll_cases (islandFeatures g wayIds plan.removedEdges) held with
      ⟨last, htaken, hall⟩ | ⟨taken, f, rest, last, reason, hsplit, htaken, hrefused, hall⟩
    · rw [hall]
      exact .done hplan hwithin.ascending hfeatures htaken (RoadGraph.marksAlso_foldl hwithin.nodes)
    · rw [hall]
      rw [hsplit] at hfeatures
      exact .sinkRefused hplan hwithin.ascending hfeatures htaken hrefused
  · rw [hplan]
    exact .tooManyRemoved hplan

end Removal

end RoadAudit
