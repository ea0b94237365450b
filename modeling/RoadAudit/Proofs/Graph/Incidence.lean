import RoadAudit.Proofs.Graph.Walk
import Mathlib.Tactic

/-! # Edges at a node

The edges at a node are listed in ascending id, each once, and an edge that is no loop is listed at
both its ends, where it is walked in opposite directions. -/

namespace RoadAudit

namespace EdgeView

variable {α : Type}

@[simp] theorem id_flip (v : EdgeView α) : v.flip.id = v.id := rfl

@[simp] theorem edge_flip (v : EdgeView α) : v.flip.edge = v.edge := rfl

@[ext] theorem ext {v w : EdgeView α} (hid : v.id = w.id) (hedge : v.edge = w.edge)
    (hreversed : v.reversed = w.reversed) : v = w := by
  cases v
  cases w
  simp_all

@[simp] theorem flip_flip (v : EdgeView α) : v.flip.flip = v := by
  simp [flip]

theorem ends (v : EdgeView α) :
    (v.base = v.edge.base ∧ v.adj = v.edge.adj) ∨ (v.base = v.edge.adj ∧ v.adj = v.edge.base) := by
  cases h : v.reversed <;> simp [base, adj, h]

end EdgeView

namespace RoadGraph

variable {α : Type} {g : RoadGraph α}

theorem ascending_views (g : RoadGraph α) : g.views.Pairwise fun v w => v.id < w.id := by
  rw [views, List.pairwise_map, List.pairwise_iff_getElem]
  intro i j hi hj hij
  simpa using hij

theorem viewFrom?_eq_some_iff {n : Nat} {v w : EdgeView α} :
    viewFrom? n w = some v ↔
      w.id = v.id ∧ w.edge = v.edge ∧ v.base = n ∧ (v.edge.base = n → v.reversed = false) := by
  unfold viewFrom?
  constructor
  · intro h
    split at h
    case isTrue hbase =>
      cases h
      exact ⟨rfl, rfl, by simpa [EdgeView.base] using hbase, fun _ => rfl⟩
    case isFalse hbase =>
      split at h
      case isTrue hadj =>
        cases h
        exact ⟨rfl, rfl, by simpa [EdgeView.base] using hadj, fun h => absurd h hbase⟩
      case isFalse => cases h
  · rcases v with ⟨i, e, r⟩
    rcases w with ⟨i', e', r'⟩
    rintro ⟨rfl, rfl, hbase, hstored⟩
    cases r with
    | false =>
      have hfrom : e'.base = n := by simpa [EdgeView.base] using hbase
      rw [if_pos hfrom]
    | true =>
      have hfrom : e'.adj = n := by simpa [EdgeView.base] using hbase
      have hother : e'.base ≠ n := fun h => Bool.noConfusion (hstored h)
      rw [if_neg hother, if_pos hfrom]

/-- The edges at a node are those that start there as they are walked; a loop is walked as it is
stored. -/
theorem mem_edgesOf_iff {n : Nat} {v : EdgeView α} :
    v ∈ g.edgesOf n ↔
      g.edges[v.id]? = some v.edge ∧ v.base = n ∧ (v.edge.base = n → v.reversed = false) := by
  rw [edgesOf, List.mem_filterMap]
  constructor
  · rintro ⟨w, hw, hfrom⟩
    obtain ⟨hid, hedge, hrest⟩ := viewFrom?_eq_some_iff.mp hfrom
    rw [← hid, ← hedge]
    exact ⟨(mem_views.mp hw).1, hedge ▸ hrest⟩
  · rintro ⟨hedge, hrest⟩
    exact ⟨⟨v.id, v.edge, false⟩, mem_views.mpr ⟨hedge, rfl⟩,
      viewFrom?_eq_some_iff.mpr ⟨rfl, rfl, hrest⟩⟩

theorem ascending_edgesOf (g : RoadGraph α) (n : Nat) :
    (g.edgesOf n).Pairwise fun v w => v.id < w.id := by
  rw [edgesOf, List.pairwise_filterMap]
  refine g.ascending_views.imp fun {v w} hlt v' hv' w' hw' => ?_
  rw [← (viewFrom?_eq_some_iff.mp hv').1, ← (viewFrom?_eq_some_iff.mp hw').1]
  exact hlt

theorem find?_eq_some_iff_least {p : EdgeView α → Bool} {edges : List (EdgeView α)}
    (h : edges.Pairwise fun v w => v.id < w.id) {b : EdgeView α} :
    edges.find? p = some b ↔ b ∈ edges ∧ p b = true ∧ ∀ c ∈ edges, p c = true → b.id ≤ c.id := by
  induction edges with
  | nil => simp
  | cons x rest ih =>
    obtain ⟨hx, hrest⟩ := List.pairwise_cons.mp h
    cases hp : p x with
    | true =>
      rw [List.find?_cons_of_pos hp]
      constructor
      · intro hb
        obtain rfl := Option.some.inj hb
        refine ⟨List.mem_cons_self, hp, fun c hc _ => ?_⟩
        rcases List.mem_cons.mp hc with rfl | hc
        · exact le_rfl
        · exact (hx c hc).le
      · rintro ⟨hb, -, hleast⟩
        rcases List.mem_cons.mp hb with rfl | hb
        · rfl
        · exact absurd (hleast x List.mem_cons_self hp) (hx b hb).not_ge
    | false =>
      rw [List.find?_cons_of_neg (by simp [hp]), ih hrest]
      have hne : p b = true → b ≠ x := by
        rintro hpb rfl
        rw [hp] at hpb
        cases hpb
      constructor
      · rintro ⟨hb, hpb, hleast⟩
        exact ⟨List.mem_cons_of_mem x hb, hpb, by simpa [hp] using hleast⟩
      · rintro ⟨hb, hpb, hleast⟩
        exact ⟨List.mem_of_ne_of_mem (hne hpb) hb, hpb, by simpa [hp] using hleast⟩

/-- An edge that ends at a node is listed there. -/
theorem exists_mem_edgesOf_of_end {i n : Nat} {e : Edge α} (he : g.edges[i]? = some e)
    (hend : e.base = n ∨ e.adj = n) : ∃ v ∈ g.edgesOf n, v.id = i ∧ v.edge = e := by
  by_cases hbase : e.base = n
  · refine ⟨⟨i, e, false⟩, mem_edgesOf_iff.mpr ⟨he, ?_, fun _ => rfl⟩, rfl, rfl⟩
    simpa [EdgeView.base] using hbase
  · refine ⟨⟨i, e, true⟩, mem_edgesOf_iff.mpr ⟨he, ?_, fun h => absurd h hbase⟩, rfl, rfl⟩
    simpa [EdgeView.base] using hend.resolve_left hbase

theorem end_of_mem_edgesOf {n : Nat} {v : EdgeView α} (h : v ∈ g.edgesOf n) :
    v.edge.base = n ∨ v.edge.adj = n := by
  obtain ⟨-, hbase, -⟩ := mem_edgesOf_iff.mp h
  rcases v.ends with ⟨hend, -⟩ | ⟨hend, -⟩
  · exact .inl (hend.symm.trans hbase)
  · exact .inr (hend.symm.trans hbase)

/-- An edge that is no loop is listed at its other end too, walked the other way. -/
theorem flip_mem_edgesOf {n : Nat} {v : EdgeView α} (h : v ∈ g.edgesOf n) (hne : v.adj ≠ n) :
    v.flip ∈ g.edgesOf v.adj := by
  obtain ⟨hedge, hbase, -⟩ := mem_edgesOf_iff.mp h
  refine mem_edgesOf_iff.mpr ⟨hedge, v.base_flip, fun hfrom => ?_⟩
  cases hreversed : v.reversed with
  | true => simp [EdgeView.flip, hreversed]
  | false =>
    have hstart : v.base = v.edge.base := by simp [EdgeView.base, hreversed]
    exact absurd (hfrom.symm.trans (hstart.symm.trans hbase)) hne

theorem eq_or_flip_of_id {n m : Nat} {v w : EdgeView α} (hv : v ∈ g.edgesOf n)
    (hw : w ∈ g.edgesOf m) (hid : w.id = v.id) : w = v ∨ (v.adj ≠ n ∧ w = v.flip) := by
  obtain ⟨hvedge, hvbase, hvstored⟩ := mem_edgesOf_iff.mp hv
  obtain ⟨hwedge, hwbase, hwstored⟩ := mem_edgesOf_iff.mp hw
  rw [hid, hvedge] at hwedge
  have hedge : w.edge = v.edge := (Option.some.inj hwedge).symm
  by_cases hreversed : w.reversed = v.reversed
  · exact .inl (EdgeView.ext hid hedge hreversed)
  · have hflip : w = v.flip := by
      refine EdgeView.ext hid hedge ?_
      simpa [EdgeView.flip, Bool.eq_not_iff] using hreversed
    refine .inr ⟨fun hloop => hreversed ?_, hflip⟩
    have hm : m = n := by rw [← hwbase, hflip, EdgeView.base_flip, hloop]
    have hboth : v.edge.base = n := by
      rcases v.ends with ⟨hend, -⟩ | ⟨-, hend⟩
      · exact hend.symm.trans hvbase
      · exact hend.symm.trans hloop
    rw [hvstored hboth, hwstored (by rw [hedge, hboth, hm])]

theorem eq_of_mem_edgesOf {n : Nat} {v w : EdgeView α} (hv : v ∈ g.edgesOf n)
    (hw : w ∈ g.edgesOf n) (hid : w.id = v.id) : w = v := by
  rcases eq_or_flip_of_id hv hw hid with heq | ⟨hne, rfl⟩
  · exact heq
  · exact absurd (v.base_flip.symm.trans (base_of_mem_edgesOf hw)) hne

/-- An edge that is listed at two nodes is seen one way from the one and the other way from the
other. -/
theorem eq_flip_of_ne {n m : Nat} {v w : EdgeView α} (hv : v ∈ g.edgesOf n) (hw : w ∈ g.edgesOf m)
    (hne : n ≠ m) (hid : w.id = v.id) : w = v.flip := by
  rcases eq_or_flip_of_id hv hw hid with rfl | ⟨-, hflip⟩
  · exact absurd ((base_of_mem_edgesOf hv).symm.trans (base_of_mem_edgesOf hw)) hne
  · exact hflip

theorem geometry_flip (g : RoadGraph α) (v : EdgeView α) :
    g.geometry v.flip = (g.geometry v).reverse := by
  cases h : v.reversed <;> simp [geometry, EdgeView.flip, h]

def Adjacent (g : RoadGraph α) (v u : Nat) : Prop := ∃ e ∈ g.edges, e.Joins v u

theorem adjacent_iff {v u : Nat} : g.Adjacent v u ↔ ∃ w ∈ g.edgesOf v, w.adj = u := by
  constructor
  · rintro ⟨e, he, hjoins⟩
    obtain ⟨w, hw, -, hadj⟩ := exists_mem_edgesOf he hjoins
    exact ⟨w, hw, hadj⟩
  · rintro ⟨w, hw, rfl⟩
    exact ⟨w.edge, joins_of_mem_edgesOf hw⟩

end RoadGraph
end RoadAudit
