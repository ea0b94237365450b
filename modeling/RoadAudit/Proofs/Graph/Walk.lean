import RoadAudit.Graph.Basic
import RoadAudit.Proofs.Numeric.Order

/-! # Walks and distances

A walk follows edges in either direction, from a source. Its length is the sum of the lengths of
its edges from the first to the last, and the distance of a node is the least length of a walk to
it. -/

namespace RoadAudit

open scoped Scalar

variable {α : Type}

/-- Whether an edge leads from one node to another, walked in either direction. -/
def Edge.Joins (e : Edge α) (v u : Nat) : Prop :=
  (e.base = v ∧ e.adj = u) ∨ (e.adj = v ∧ e.base = u)

namespace RoadGraph

theorem mem_views {g : RoadGraph α} {v : EdgeView α} :
    v ∈ g.views ↔ g.edges[v.id]? = some v.edge ∧ v.reversed = false := by
  unfold views
  rw [List.mem_map]
  constructor
  · rintro ⟨⟨e, i⟩, hmem, rfl⟩
    rw [List.mem_zipIdx_iff_getElem?] at hmem
    exact ⟨by simpa using hmem, rfl⟩
  · rintro ⟨hedge, hstored⟩
    rcases v with ⟨i, e, r⟩
    obtain rfl : r = false := hstored
    refine ⟨(e, i), ?_, rfl⟩
    rw [List.mem_zipIdx_iff_getElem?]
    simpa using hedge

theorem view_eq_of_id {g : RoadGraph α} {v w : EdgeView α} (hv : v ∈ g.views) (hw : w ∈ g.views)
    (hid : v.id = w.id) : v = w := by
  obtain ⟨hedge, hstored⟩ := mem_views.mp hv
  obtain ⟨hedge', hstored'⟩ := mem_views.mp hw
  rw [hid, hedge'] at hedge
  rcases v with ⟨i, e, r⟩
  rcases w with ⟨j, f, r'⟩
  obtain rfl : i = j := hid
  obtain rfl : f = e := Option.some.inj hedge
  rw [show r = r' from hstored.trans hstored'.symm]

theorem edge_mem_of_mem_views {g : RoadGraph α} {v : EdgeView α} (h : v ∈ g.views) :
    v.edge ∈ g.edges :=
  Array.mem_of_getElem? (mem_views.mp h).1

/-- What is walked away from a node is an edge of the graph that leads on from it. -/
theorem joins_of_mem_edgesOf {g : RoadGraph α} {n : Nat} {v : EdgeView α} (h : v ∈ g.edgesOf n) :
    v.edge ∈ g.edges ∧ v.edge.Joins n v.adj := by
  obtain ⟨w, hw, hfrom⟩ := List.mem_filterMap.mp h
  have hedge := edge_mem_of_mem_views hw
  unfold viewFrom? at hfrom
  split at hfrom
  case isTrue hbase =>
    obtain rfl := Option.some.inj hfrom
    exact ⟨hedge, .inl ⟨hbase, rfl⟩⟩
  case isFalse =>
    split at hfrom
    case isTrue hadj =>
      obtain rfl := Option.some.inj hfrom
      exact ⟨hedge, .inr ⟨hadj, rfl⟩⟩
    case isFalse => cases hfrom

theorem base_of_mem_edgesOf {g : RoadGraph α} {n : Nat} {v : EdgeView α} (h : v ∈ g.edgesOf n) :
    v.base = n := by
  obtain ⟨w, -, hfrom⟩ := List.mem_filterMap.mp h
  unfold viewFrom? at hfrom
  split at hfrom
  case isTrue hbase =>
    obtain rfl := Option.some.inj hfrom
    exact hbase
  case isFalse =>
    split at hfrom
    case isTrue hadj =>
      obtain rfl := Option.some.inj hfrom
      exact hadj
    case isFalse => cases hfrom

/-- Every edge that leads on from a node is among those walked away from it. -/
theorem exists_mem_edgesOf {g : RoadGraph α} {e : Edge α} (he : e ∈ g.edges) {n u : Nat}
    (hjoins : e.Joins n u) : ∃ v ∈ g.edgesOf n, v.edge = e ∧ v.adj = u := by
  obtain ⟨i, hi⟩ := Array.mem_iff_getElem?.mp he
  have hview : (⟨i, e, false⟩ : EdgeView α) ∈ g.views := mem_views.mpr ⟨hi, rfl⟩
  by_cases hbase : e.base = n
  · refine ⟨⟨i, e, false⟩, List.mem_filterMap.mpr ⟨_, hview, ?_⟩, rfl, ?_⟩
    · simp [viewFrom?, hbase]
    · rcases hjoins with ⟨-, hadj⟩ | ⟨hadj, hu⟩
      · exact hadj
      · change e.adj = u
        rw [hadj, ← hbase, hu]
  · have hadj : e.adj = n ∧ e.base = u := hjoins.resolve_left fun h => hbase h.1
    refine ⟨⟨i, e, true⟩, List.mem_filterMap.mpr ⟨_, hview, ?_⟩, rfl, hadj.2⟩
    simp [viewFrom?, hbase, hadj.1]

variable [Scalar α]

/-- A walk from the source along edges of the graph: its length and the node that it ends at. -/
inductive Walk (g : RoadGraph α) (source : Nat) : α → Nat → Prop
  | start : Walk g source 0 source
  | step {w : α} {v u : Nat} {e : Edge α} (hwalk : Walk g source w v) (he : e ∈ g.edges)
      (hjoins : e.Joins v u) : Walk g source (w + e.length) u

/-- Whether `d` is the least length of a walk from the source to a node. -/
structure IsDistance (g : RoadGraph α) (source v : Nat) (d : α) : Prop where
  walk : g.Walk source d v
  least : ∀ w, g.Walk source w v → d ≤ w

/-- Whether no edge of the graph has a negative length, or one that is no number. -/
def HasLengths (g : RoadGraph α) : Prop := ∀ e ∈ g.edges, 0 ≤ e.length

/-- A walk along an edge as it is walked away from the node that the walk ends at. -/
theorem Walk.along {g : RoadGraph α} {source n : Nat} {w : α} (h : g.Walk source w n)
    {v : EdgeView α} (hv : v ∈ g.edgesOf n) : g.Walk source (w + v.edge.length) v.adj :=
  .step h (joins_of_mem_edgesOf hv).1 (joins_of_mem_edgesOf hv).2

/-- A walk ends where it starts or at a node of the graph. -/
theorem Walk.end_eq_or_lt {g : RoadGraph α} {source v : Nat} {w : α} (h : g.Walk source w v) :
    v = source ∨ v < g.nodeCount := by
  cases h with
  | start => exact .inl rfl
  | step hwalk he hjoins =>
    have hends := g.ends _ he
    rcases hjoins with ⟨-, rfl⟩ | ⟨-, rfl⟩
    · exact .inr hends.2
    · exact .inr hends.1

variable [Scalar.LawfulLength α]

/-- Along edges that have lengths, the length of a walk is one. -/
theorem Walk.nonneg {g : RoadGraph α} (hg : g.HasLengths) {source v : Nat} {w : α}
    (h : g.Walk source w v) : 0 ≤ w := by
  induction h with
  | start => exact Scalar.LawfulLength.number_zero
  | step hwalk he hjoins ih =>
    exact Scalar.le_trans ih (Scalar.LawfulLength.le_add ih (hg _ he))

end RoadGraph
end RoadAudit
