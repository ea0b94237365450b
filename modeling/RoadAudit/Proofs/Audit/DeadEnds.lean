import Mathlib.Data.List.Induction
import Mathlib.Tactic
import RoadAudit.Proofs.Audit.Pass
import RoadAudit.Proofs.Graph.Incidence
import RoadAudit.Proofs.Graph.Matches

/-! # The match of a dead end

A dead end is matched to the nearest road that it is not yet connected to, and of equally near ones
to the one of least edge id. What counts as not connected is said here by the edges that join nodes
and by the levels that roads have in common, without the lists that the check goes through. -/

namespace RoadAudit

open scoped Scalar

/-! ## Common levels -/

namespace LevelRange

/-- Whether a level belongs to a range. -/
def Covers (r : LevelRange) (level : Int) : Prop := r.low ≤ level ∧ level ≤ r.high

instance (r : LevelRange) (level : Int) : Decidable (r.Covers level) :=
  inferInstanceAs (Decidable (_ ∧ _))

/-- Whether two ranges have a level in common, which an invalid range has with any other. -/
def Compatible (r s : LevelRange) : Prop :=
  r.valid = true → s.valid = true → ∃ level, r.Covers level ∧ s.Covers level

theorem overlaps_iff {r s : LevelRange} (hr : 0 ≤ r.span) (hs : 0 ≤ s.span) :
    r.overlaps s = true ↔ ∃ level, r.Covers level ∧ s.Covers level := by
  have hoverlaps : r.overlaps s = true ↔ s.low ≤ r.high ∧ r.low ≤ s.high := by simp [overlaps]
  rw [hoverlaps]
  unfold Covers high
  constructor
  · rintro ⟨hbelow, habove⟩
    exact ⟨max r.low s.low, by omega, by omega⟩
  · rintro ⟨level, hr', hs'⟩
    omega

end LevelRange

theorem RoadFlags.span_level_nonneg (f : RoadFlags) : 0 ≤ f.level.span := by
  unfold level
  dsimp only
  split
  · exact le_rfl
  · dsimp only
    split <;> decide

/-! ## The first of the nearest -/

/-- Whether a match is the nearest of some, and of equally near ones the one of least edge id. -/
structure IsFirstNearest {α : Type} [LT α] (K : Snap α → Prop) (s : Snap α) : Prop where
  holds : K s
  nearest : ∀ t, K t → ¬ t.distance < s.distance
  first : ∀ t, K t → t.edge.id < s.edge.id → s.distance < t.distance

section FirstNearest

variable {α : Type} {found : List (Snap α)}

theorem eq_of_edge_id {s t : Snap α} (hfound : found.Pairwise fun s t => s.edge.id < t.edge.id)
    (hs : s ∈ found) (ht : t ∈ found) (hid : s.edge.id = t.edge.id) : s = t := by
  have hnodup : (found.map fun s => s.edge.id).Nodup := by
    rw [List.nodup_iff_pairwise_ne, List.pairwise_map]
    exact hfound.imp fun h => h.ne
  exact List.inj_on_of_nodup_map hnodup hs ht hid

variable [Scalar α]

theorem IsFirstNearest.unique {s t : Snap α}
    (hfound : found.Pairwise fun s t => s.edge.id < t.edge.id)
    (hs : IsFirstNearest (· ∈ found) s) (ht : IsFirstNearest (· ∈ found) t) : s = t := by
  rcases lt_trichotomy s.edge.id t.edge.id with hlt | heq | hgt
  · exact absurd (ht.first s hs.holds hlt) (hs.nearest t ht.holds)
  · exact eq_of_edge_id hfound hs.holds ht.holds heq
  · exact absurd (hs.first t ht.holds hgt) (ht.nearest s hs.holds)

theorem foldl_nearerSnap_isSome (found : List (Snap α)) (b : Snap α) :
    (found.foldl AuditContext.nearerSnap (some b)).isSome := by
  induction found generalizing b with
  | nil => rfl
  | cons s rest ih =>
    rw [List.foldl_cons, AuditContext.nearerSnap]
    split
    · exact ih s
    · exact ih b

theorem eq_nil_of_foldl_nearerSnap
    (h : found.foldl AuditContext.nearerSnap none = none) : found = [] := by
  cases found with
  | nil => rfl
  | cons s rest =>
    have hsome := foldl_nearerSnap_isSome rest s
    rw [List.foldl_cons] at h
    rw [AuditContext.nearerSnap, h] at *
    cases hsome

variable [Scalar.LawfulOrder α]

/-- One more match, of a higher edge id than all before, takes the place of the first of the nearest
only if it is strictly nearer. -/
theorem IsFirstNearest.snoc {b last : Snap α} (hb : IsFirstNearest (· ∈ found) b)
    (hnumber : ∀ s ∈ found, Scalar.IsNumber s.distance)
    (hlater : ∀ s ∈ found, s.edge.id < last.edge.id) :
    IsFirstNearest (· ∈ found ++ [last]) (if last.distance < b.distance then last else b) := by
  split
  case isTrue hlt =>
    have hnearer : ∀ s ∈ found, last.distance < s.distance := fun s hs =>
      Scalar.lt_of_lt_of_le hlt
        (Scalar.le_of_not_lt (hnumber s hs) (hnumber b hb.holds) (hb.nearest s hs))
    constructor
    case holds => simp
    case nearest =>
      refine List.forall_mem_append.mpr ⟨fun s hs => ?_, ?_⟩
      · exact Scalar.not_lt_of_le (Scalar.le_of_lt (hnearer s hs))
      · simpa using Scalar.lt_irrefl last.distance
    case first =>
      refine List.forall_mem_append.mpr ⟨fun s hs _ => hnearer s hs, ?_⟩
      simp
  case isFalse hle =>
    constructor
    case holds => exact List.mem_append_left _ hb.holds
    case nearest =>
      refine List.forall_mem_append.mpr ⟨hb.nearest, ?_⟩
      simpa using hle
    case first =>
      refine List.forall_mem_append.mpr ⟨hb.first, ?_⟩
      simpa using fun hlt => absurd hlt (hlater b hb.holds).not_gt

theorem isFirstNearest_of_foldl (hnumber : ∀ s ∈ found, Scalar.IsNumber s.distance)
    (hfound : found.Pairwise fun s t => s.edge.id < t.edge.id) {s : Snap α}
    (h : found.foldl AuditContext.nearerSnap none = some s) :
    IsFirstNearest (· ∈ found) s := by
  induction found using List.reverseRecOn generalizing s with
  | nil => cases h
  | append_singleton found last ih =>
    obtain ⟨hbefore, -, hlast⟩ := List.pairwise_append.mp hfound
    obtain ⟨hnumbers, -⟩ := List.forall_mem_append.mp hnumber
    rw [List.foldl_append, List.foldl_cons, List.foldl_nil] at h
    cases hbest : found.foldl AuditContext.nearerSnap none with
    | none =>
      obtain rfl := eq_nil_of_foldl_nearerSnap hbest
      obtain rfl : last = s := by simpa [AuditContext.nearerSnap] using h
      constructor <;> simp [Scalar.lt_irrefl]
    | some b =>
      rw [hbest, AuditContext.nearerSnap, ← apply_ite some, Option.some.injEq] at h
      rw [← h]
      exact (ih hnumbers hbefore hbest).snoc hnumbers fun t ht =>
        hlast t ht last (List.mem_singleton_self last)

theorem foldl_nearerSnap_eq_some_iff (hnumber : ∀ s ∈ found, Scalar.IsNumber s.distance)
    (hfound : found.Pairwise fun s t => s.edge.id < t.edge.id) {s : Snap α} :
    found.foldl AuditContext.nearerSnap none = some s ↔ IsFirstNearest (· ∈ found) s := by
  refine ⟨isFirstNearest_of_foldl hnumber hfound, fun hs => ?_⟩
  cases hbest : found.foldl AuditContext.nearerSnap none with
  | none =>
    obtain rfl := eq_nil_of_foldl_nearerSnap hbest
    cases hs.holds
  | some b => rw [(isFirstNearest_of_foldl hnumber hfound hbest).unique hfound hs]

end FirstNearest

/-! ## Dead ends -/

namespace RoadGraph

section DeadEnds

variable {α : Type} {g : RoadGraph α}

/-- Whether an edge, as it is walked away from a node, is the only one that ends there and leads to
another node. -/
structure IsDeadEnd (g : RoadGraph α) (n : Nat) (e : EdgeView α) : Prop where
  stored : g.edges[e.id]? = some e.edge
  base : e.base = n
  leadsAway : e.adj ≠ n
  only : ∀ i f, g.edges[i]? = some f → f.base = n ∨ f.adj = n → i = e.id

theorem IsDeadEnd.mem_edgesOf {n : Nat} {e : EdgeView α} (h : g.IsDeadEnd n e) :
    e ∈ g.edgesOf n := by
  refine mem_edgesOf_iff.mpr ⟨h.stored, h.base, fun hbase => ?_⟩
  cases hreversed : e.reversed with
  | false => rfl
  | true =>
    have hadj : e.adj = e.edge.base := by simp [EdgeView.adj, hreversed]
    exact absurd (hadj.trans hbase) h.leadsAway

theorem IsDeadEnd.edgesOf_eq {n : Nat} {e : EdgeView α} (h : g.IsDeadEnd n e) :
    g.edgesOf n = [e] := by
  have hall : ∀ v ∈ g.edgesOf n, v = e := fun v hv =>
    eq_of_mem_edgesOf h.mem_edgesOf hv
      (h.only v.id v.edge (mem_edgesOf_iff.mp hv).1 (end_of_mem_edgesOf hv))
  have hnodup : (g.edgesOf n).Nodup :=
    (g.ascending_edgesOf n).imp fun hlt heq => by simp [heq] at hlt
  refine List.perm_singleton.mp
    ((List.perm_ext_iff_of_nodup hnodup (List.nodup_singleton e)).mpr fun v => ?_)
  rw [List.mem_singleton]
  exact ⟨hall v, fun hv => hv ▸ h.mem_edgesOf⟩

theorem isDeadEnd_of_edgesOf {n : Nat} {e : EdgeView α} (h : g.edgesOf n = [e])
    (hne : e.adj ≠ n) : g.IsDeadEnd n e := by
  have he : e ∈ g.edgesOf n := by simp [h]
  obtain ⟨hstored, hbase, -⟩ := mem_edgesOf_iff.mp he
  refine ⟨hstored, hbase, hne, fun i f hf hend => ?_⟩
  obtain ⟨v, hv, rfl, -⟩ := exists_mem_edgesOf_of_end hf hend
  rw [h, List.mem_singleton] at hv
  rw [hv]

theorem IsDeadEnd.closestNode_ne [Scalar α] {n : Nat} {e : EdgeView α} (h : g.IsDeadEnd n e)
    {query : Point α} {radius : α} {s : Snap α} (hs : s ∈ g.nearest query radius)
    (hedge : s.edge.id ≠ e.id) : s.closestNode ≠ n := by
  rintro rfl
  exact hedge (h.only _ _ (edge_of_mem_nearest hs) (closestNode_of_mem_nearest hs))

end DeadEnds

end RoadGraph

namespace AuditContext

variable {α : Type} {ctx : AuditContext α} {n : Nat} {e : EdgeView α}

theorem deadEnd?_eq_some_iff : ctx.deadEnd? n = some e ↔ ctx.graph.IsDeadEnd n e := by
  constructor
  · intro h
    unfold deadEnd? at h
    split at h
    case h_1 e' hedges =>
      split at h
      case isTrue => cases h
      case isFalse hne =>
        obtain rfl := Option.some.inj h
        exact RoadGraph.isDeadEnd_of_edgesOf hedges hne
    case h_2 => cases h
  · intro h
    rw [deadEnd?, h.edgesOf_eq]
    exact if_neg h.leadsAway

theorem mem_beyond_iff {u : Nat} : u ∈ ctx.beyond n e ↔ ctx.graph.Adjacent e.adj u ∧ u ≠ n := by
  simp [beyond, RoadGraph.adjacent_iff]

theorem excludesLevel_eq_false_iff {f f' : RoadFlags} :
    excludesLevel f.level f'.level = false ↔ f.level.Compatible f'.level := by
  rw [LevelRange.Compatible, ← LevelRange.overlaps_iff f.span_level_nonneg f'.span_level_nonneg]
  cases h : f.level.valid <;> cases h' : f'.level.valid <;> simp [excludesLevel, h, h']

variable [Scalar α] {openEnd : Point α} {s : Snap α}

/-- Whether a match of a dead end is of a road that the dead end is not yet connected to: on an
edge of its own, closest neither to the far end of the dead end nor to a neighbour of that, on a
level in common, and apart from the dead end. -/
structure IsUnconnected (ctx : AuditContext α) (openEnd : Point α) (e : EdgeView α) (s : Snap α) :
    Prop where
  found : s ∈ ctx.graph.nearest openEnd ctx.settings.radius
  edge : s.edge.id ≠ e.id
  farEnd : s.closestNode ≠ e.adj
  neighbour : ¬ ctx.graph.Adjacent e.adj s.closestNode
  level : e.edge.flags.level.Compatible s.edge.edge.flags.level
  apart : 0 < s.distance

theorem isEligible_iff (hdead : ctx.graph.IsDeadEnd n e)
    (hs : s ∈ ctx.graph.nearest openEnd ctx.settings.radius) :
    ctx.isEligible n e s = true ↔ ctx.IsUnconnected openEnd e s := by
  simp only [isEligible, Bool.and_eq_true, bne_iff_ne, Bool.not_eq_true',
    excludesLevel_eq_false_iff, decide_eq_true_eq, List.contains_eq_mem, decide_eq_false_iff_not,
    mem_beyond_iff]
  constructor
  · rintro ⟨⟨⟨⟨hedge, hfar⟩, hbeyond⟩, hlevel⟩, hapart⟩
    have hne := hdead.closestNode_ne hs hedge
    exact ⟨hs, hedge, hfar, fun hadjacent => hbeyond ⟨hadjacent, hne⟩, hlevel, hapart⟩
  · rintro ⟨-, hedge, hfar, hneighbour, hlevel, hapart⟩
    exact ⟨⟨⟨⟨hedge, hfar⟩, fun h => hneighbour h.1⟩, hlevel⟩, hapart⟩

theorem mem_filter_isEligible_iff (hdead : ctx.graph.IsDeadEnd n e) :
    s ∈ (ctx.graph.nearest openEnd ctx.settings.radius).filter (ctx.isEligible n e) ↔
      ctx.IsUnconnected openEnd e s := by
  rw [List.mem_filter]
  constructor
  · rintro ⟨hs, heligible⟩
    exact (isEligible_iff hdead hs).mp heligible
  · intro h
    exact ⟨h.found, (isEligible_iff hdead h.found).mpr h⟩

/-- The match of a dead end is the first of the nearest roads that it is not yet connected to. -/
theorem match?_eq_some_iff [Scalar.LawfulOrder α] (hdead : ctx.graph.IsDeadEnd n e) :
    ctx.match? n openEnd e = some s ↔ IsFirstNearest (ctx.IsUnconnected openEnd e) s := by
  have hmem : (· ∈ (ctx.graph.nearest openEnd ctx.settings.radius).filter (ctx.isEligible n e)) =
      ctx.IsUnconnected openEnd e :=
    funext fun t => propext (mem_filter_isEligible_iff hdead)
  rw [← hmem]
  apply foldl_nearerSnap_eq_some_iff
  · intro t ht
    exact Scalar.IsNumber.right (Scalar.le_of_lt ((mem_filter_isEligible_iff hdead).mp ht).apart)
  · exact (ctx.graph.ascending_nearest openEnd ctx.settings.radius).filter _

end AuditContext

end RoadAudit
