import RoadAudit.Proofs.Graph.Incidence
import RoadAudit.Proofs.Graph.Placement
import RoadAudit.Snapshot.Format
import Mathlib.Algebra.BigOperators.Group.Finset.Basic

/-! # Edges listed at nodes

The lists of edges at the nodes can be gathered in one pass over the edges, which puts an edge in
the lists of both its ends and a loop in one. At each node the edges that end there are listed,
walked away from it, so an edge that is no loop is listed at its two ends and a loop once; and the
course of an edge as it is walked leads from the place of the one end to that of the other. That is
so for every graph, and so for one that is read from a message, which has to say no more of its
edges than that they end at nodes of the message: a course that is not there has no points, and a
coordinate without its partner counts for nothing. -/

namespace RoadAudit
namespace RoadGraph

variable {α : Type}

/-! ## One pass over the edges -/

def gather (lists : Array (List Nat)) (v : EdgeView α) : Array (List Nat) :=
  let lists := lists.modify v.edge.base (· ++ [v.id])
  if v.edge.adj = v.edge.base then lists else lists.modify v.edge.adj (· ++ [v.id])

/-- The ids of the edges at each node, gathered in one pass over the edges. -/
def adjacency (g : RoadGraph α) : Array (List Nat) :=
  g.views.foldl gather (Array.replicate g.nodeCount [])

theorem getElem?_gather (lists : Array (List Nat)) (v : EdgeView α) (n : Nat) :
    (gather lists v)[n]? = (lists[n]?).map (· ++ ((viewFrom? n v).map EdgeView.id).toList) := by
  unfold gather viewFrom?
  by_cases hbase : v.edge.base = n
  · subst hbase
    by_cases hloop : v.edge.adj = v.edge.base <;> simp [hloop, Array.getElem?_modify]
  · by_cases hadj : v.edge.adj = n
    · subst hadj
      simp [hbase, Ne.symm hbase, Array.getElem?_modify]
    · by_cases hloop : v.edge.adj = v.edge.base <;>
        simp [hloop, hbase, hadj, Array.getElem?_modify]

theorem getElem?_foldl_gather (views : List (EdgeView α)) (lists : Array (List Nat)) (n : Nat) :
    (views.foldl gather lists)[n]? =
      (lists[n]?).map (· ++ (views.filterMap (viewFrom? n)).map EdgeView.id) := by
  induction views generalizing lists with
  | nil => simp
  | cons v rest ih =>
    rw [List.foldl_cons, ih, getElem?_gather, Option.map_map]
    cases hfrom : viewFrom? n v with
    | none => simp [hfrom, Function.comp_def]
    | some w => simp [hfrom, Function.comp_def]

theorem getElem?_adjacency (g : RoadGraph α) {n : Nat} (h : n < g.nodeCount) :
    g.adjacency[n]? = some ((g.edgesOf n).map EdgeView.id) := by
  rw [adjacency, getElem?_foldl_gather, Array.getElem?_replicate, if_pos h]
  rfl

/-! ## The edges at a node -/

/-- What is listed at the nodes of a graph: the edges that end there, each once, in ascending id and
walked away from the node, so against their direction only where they do not start; an edge that is
no loop is listed at its two ends, and a loop at one. One pass over the edges gathers the same. -/
structure ListsAtEnds (g : RoadGraph α) : Prop where
  listed_iff : ∀ n v, v ∈ g.edgesOf n ↔ g.edges[v.id]? = some v.edge ∧
    (v.edge.base = n ∨ v.edge.adj = n) ∧ (v.reversed = true ↔ v.edge.adj = n ∧ v.edge.base ≠ n)
  ascending : ∀ n, (g.edgesOf n).Pairwise fun v w => v.id < w.id
  leaves : ∀ n, ∀ v ∈ g.edgesOf n,
    v.base = n ∧ v.adj = if v.edge.base = n then v.edge.adj else v.edge.base
  once : ∀ i e, g.edges[i]? = some e → ∀ n,
    ((g.edgesOf n).map EdgeView.id).count i = if e.base = n ∨ e.adj = n then 1 else 0
  ends : ∀ i e, g.edges[i]? = some e →
    ∑ n ∈ Finset.range g.nodeCount, ((g.edgesOf n).map EdgeView.id).count i =
      if e.base = e.adj then 1 else 2
  gathered : ∀ n < g.nodeCount, g.adjacency[n]? = some ((g.edgesOf n).map EdgeView.id)

theorem mem_edgesOf_iff_reversed (g : RoadGraph α) (n : Nat) (v : EdgeView α) :
    v ∈ g.edgesOf n ↔ g.edges[v.id]? = some v.edge ∧ (v.edge.base = n ∨ v.edge.adj = n) ∧
      (v.reversed = true ↔ v.edge.adj = n ∧ v.edge.base ≠ n) := by
  rw [mem_edgesOf_iff]
  refine and_congr_right fun _ => ?_
  by_cases hbase : v.edge.base = n <;> by_cases hadj : v.edge.adj = n <;>
    cases hreversed : v.reversed <;> simp [EdgeView.base, hbase, hadj, hreversed]

theorem adj_of_mem_edgesOf {g : RoadGraph α} {n : Nat} {v : EdgeView α} (h : v ∈ g.edgesOf n) :
    v.adj = if v.edge.base = n then v.edge.adj else v.edge.base := by
  obtain ⟨-, hend, hreversed⟩ := (g.mem_edgesOf_iff_reversed n v).mp h
  by_cases hbase : v.edge.base = n
  · have hforward : ¬ v.reversed = true := fun hr => (hreversed.mp hr).2 hbase
    rw [EdgeView.adj, if_neg hforward, if_pos hbase]
  · rw [EdgeView.adj, if_pos (hreversed.mpr ⟨hend.resolve_left hbase, hbase⟩), if_neg hbase]

theorem mem_ids_edgesOf_iff {g : RoadGraph α} {i : Nat} {e : Edge α} (he : g.edges[i]? = some e)
    (n : Nat) : i ∈ (g.edgesOf n).map EdgeView.id ↔ e.base = n ∨ e.adj = n := by
  rw [List.mem_map]
  constructor
  · rintro ⟨v, hv, rfl⟩
    obtain rfl := Option.some.inj (he.symm.trans (mem_edgesOf_iff.mp hv).1)
    exact end_of_mem_edgesOf hv
  · intro hend
    obtain ⟨v, hv, hid, -⟩ := exists_mem_edgesOf_of_end he hend
    exact ⟨v, hv, hid⟩

theorem count_ids_edgesOf {g : RoadGraph α} {i : Nat} {e : Edge α} (he : g.edges[i]? = some e)
    (n : Nat) :
    ((g.edgesOf n).map EdgeView.id).count i = if e.base = n ∨ e.adj = n then 1 else 0 := by
  have hnodup : ((g.edgesOf n).map EdgeView.id).Nodup :=
    List.pairwise_map.mpr ((ascending_edgesOf g n).imp Nat.ne_of_lt)
  rw [hnodup.count]
  exact if_congr (mem_ids_edgesOf_iff he n) rfl rfl

theorem sum_count_ids_edgesOf {g : RoadGraph α} {i : Nat} {e : Edge α}
    (he : g.edges[i]? = some e) :
    ∑ n ∈ Finset.range g.nodeCount, ((g.edgesOf n).map EdgeView.id).count i =
      if e.base = e.adj then 1 else 2 := by
  obtain ⟨hbase, hadj⟩ := g.ends e (Array.mem_of_getElem? he)
  -- the two ends of a loop are one element of this set
  have hends : (Finset.range g.nodeCount).filter (fun n => e.base = n ∨ e.adj = n) =
      {e.base, e.adj} := by
    ext n
    rw [Finset.mem_filter, Finset.mem_range, Finset.mem_insert, Finset.mem_singleton]
    constructor
    · rintro ⟨-, rfl | rfl⟩
      · exact .inl rfl
      · exact .inr rfl
    · rintro (rfl | rfl)
      · exact ⟨hbase, .inl rfl⟩
      · exact ⟨hadj, .inr rfl⟩
  rw [Finset.sum_congr rfl fun n _ => count_ids_edgesOf he n, Finset.sum_boole, hends, Nat.cast_id]
  split
  case isTrue hloop => rw [hloop, Finset.pair_eq_singleton, Finset.card_singleton]
  case isFalse hne => exact Finset.card_pair hne

theorem listsAtEnds (g : RoadGraph α) : g.ListsAtEnds where
  listed_iff := g.mem_edgesOf_iff_reversed
  ascending := ascending_edgesOf g
  leaves _ _ hv := ⟨base_of_mem_edgesOf hv, adj_of_mem_edgesOf hv⟩
  once _ _ he := count_ids_edgesOf he
  ends _ _ he := sum_count_ids_edgesOf he
  gathered _ hn := g.getElem?_adjacency hn

/-! ## Courses -/

/-- What the courses of the edges at the nodes of a graph are: they lead from the place of the node
by the pillars to the place of the other end, of which places the two partial courses leave out the
first and both; and the course of an edge that is listed at two nodes is in the one case the reverse
of what it is in the other. -/
structure LeadsBetweenEnds (g : RoadGraph α) : Prop where
  course : ∀ n, ∀ v ∈ g.edgesOf n, ∃ p q, g.point? v.base = some p ∧ g.point? v.adj = some q ∧
    g.geometry v = p :: g.pillarsAndAdj v ∧ g.pillarsAndAdj v = g.pillarsOnly v ++ [q] ∧
    g.pillarsOnly v = if v.reversed then v.edge.pillars.reverse else v.edge.pillars
  reversed : ∀ n k v w, v ∈ g.edgesOf n → w ∈ g.edgesOf k → n ≠ k → w.id = v.id →
    g.geometry w = (g.geometry v).reverse

theorem geometry_eq {g : RoadGraph α} {v : EdgeView α} {p q : Point α}
    (hp : g.point? v.base = some p) (hq : g.point? v.adj = some q) :
    g.geometry v =
      p :: ((if v.reversed then v.edge.pillars.reverse else v.edge.pillars) ++ [q]) := by
  cases hreversed : v.reversed <;>
    simp only [EdgeView.base, EdgeView.adj, hreversed, if_true, if_false, Bool.false_eq_true]
      at hp hq <;>
    simp [geometry, course, hreversed, hp, hq]

theorem leadsBetweenEnds (g : RoadGraph α) : g.LeadsBetweenEnds where
  course n v hv := by
    obtain ⟨hbase, hadj⟩ := g.ends v.edge (joins_of_mem_edgesOf hv).1
    have hends : v.base < g.nodes.size ∧ v.adj < g.nodes.size := by
      rcases v.ends with ⟨h, h'⟩ | ⟨h, h'⟩ <;> rw [h, h']
      · exact ⟨hbase, hadj⟩
      · exact ⟨hadj, hbase⟩
    obtain ⟨p, hp⟩ := exists_point? hends.1
    obtain ⟨q, hq⟩ := exists_point? hends.2
    have hgeometry := geometry_eq hp hq
    refine ⟨p, q, hp, hq, ?_, ?_, ?_⟩
    · rw [pillarsAndAdj, hgeometry, List.tail_cons]
    · rw [pillarsAndAdj, pillarsOnly, hgeometry, List.tail_cons, List.dropLast_concat]
    · rw [pillarsOnly, hgeometry, List.tail_cons, List.dropLast_concat]
  reversed n k v w hv hw hne hid := by
    rw [eq_flip_of_ne hv hw hne hid]
    exact geometry_flip g v

end RoadGraph

/-! ## Graphs read from messages -/

theorem Snapshot.Message.exists_graph? (m : Snapshot.Message)
    (h : ∀ r ∈ m.edges, r.edge.base < m.nodes.length ∧ r.edge.adj < m.nodes.length) :
    ∃ g, m.graph? = some g ∧ g.nodes.toList = m.nodes ∧
      g.edges.toList = m.edges.map fun r =>
        { r.edge with pillars := ((m.courses[r.course]?).map pointsOf).getD [] } := by
  have hends : ∀ e ∈ (m.edges.map fun r =>
      { r.edge with pillars := (((m.courses.map pointsOf).toArray)[r.course]?).getD [] }).toArray,
      e.base < m.nodes.toArray.size ∧ e.adj < m.nodes.toArray.size := by
    intro e he
    obtain ⟨r, hr, rfl⟩ := List.mem_map.mp (List.mem_toArray.mp he)
    exact h r hr
  refine ⟨⟨m.nodes.toArray, _, hends⟩, dif_pos hends, rfl, ?_⟩
  simp

namespace RoadGraph

/-- At every node of a graph the edges that end there are listed, each once, and their courses lead
from that node to the other end. This is so of every graph, and of every message whose edges end at
its nodes a graph is made that has these nodes and edges. -/
theorem edges_at_nodes :
    (∀ (α : Type) (g : RoadGraph α), g.ListsAtEnds ∧ g.LeadsBetweenEnds) ∧
    ∀ m : Snapshot.Message,
      (∀ r ∈ m.edges, r.edge.base < m.nodes.length ∧ r.edge.adj < m.nodes.length) →
      ∃ g, m.graph? = some g ∧ g.nodes.toList = m.nodes ∧
        (g.edges.toList = m.edges.map fun r =>
          { r.edge with pillars := ((m.courses[r.course]?).map Snapshot.pointsOf).getD [] }) ∧
        g.ListsAtEnds ∧ g.LeadsBetweenEnds := by
  refine ⟨fun α g => ⟨g.listsAtEnds, g.leadsBetweenEnds⟩, fun m hm => ?_⟩
  obtain ⟨g, hgraph, hnodes, hedges⟩ := m.exists_graph? hm
  exact ⟨g, hgraph, hnodes, hedges, g.listsAtEnds, g.leadsBetweenEnds⟩

/-- Three nodes with a road whose course is not there, a road that is stored from the third node to
the second, and a loop at the second; of the three coordinates of the one course the last has no
partner. -/
def frayed : Snapshot.Message where
  nodes := [⟨⟨0, 0⟩, false⟩, ⟨⟨0, 1⟩, false⟩, ⟨⟨1, 1⟩, true⟩]
  edges := [⟨⟨0, 1, 1, default, []⟩, 7⟩, ⟨⟨2, 1, 2, default, []⟩, 0⟩, ⟨⟨1, 1, 3, default, []⟩, 7⟩]
  courses := [[1 / 2, 2, 5]]
  barriers := []

/-- All three roads of the frayed message are listed at the second node. -/
theorem edges_at_nodes_frayed :
    (∀ r ∈ frayed.edges, r.edge.base < frayed.nodes.length ∧ r.edge.adj < frayed.nodes.length) ∧
      ∃ g, frayed.graph? = some g ∧
        (g.edgesOf 1).map (fun v => (v.id, v.adj, v.reversed)) =
          [(0, 0, true), (1, 2, true), (2, 1, false)] ∧
        (g.edgesOf 1).map g.geometry =
          [[⟨0, 1⟩, ⟨0, 0⟩], [⟨0, 1⟩, ⟨1 / 2, 2⟩, ⟨1, 1⟩], [⟨0, 1⟩, ⟨0, 1⟩]] ∧
        g.ListsAtEnds ∧ g.LeadsBetweenEnds := by
  have hends : ∀ r ∈ frayed.edges,
      r.edge.base < frayed.nodes.length ∧ r.edge.adj < frayed.nodes.length := by decide
  obtain ⟨-, hmessages⟩ := edges_at_nodes
  obtain ⟨g, hgraph, -, -, hlists, hcourses⟩ := hmessages frayed hends
  obtain rfl := Option.some.inj hgraph
  exact ⟨hends, _, rfl, rfl, rfl, hlists, hcourses⟩

end RoadGraph
end RoadAudit
