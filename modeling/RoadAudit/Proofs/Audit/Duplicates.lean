import Mathlib.Data.Finset.Max
import Mathlib.Data.List.Forall2
import Mathlib.Tactic
import RoadAudit.Proofs.Audit.Pass
import RoadAudit.Proofs.Graph.Incidence

/-! # Each duplicated edge is reported once

Every pair of edges that are the same is seen from both ends. Of each edge with a copy of higher id
just one pair is reported, with the copy of least id, as long as one of its ends is checked: at the
end of lower id, or at the other one if that is skipped. -/

namespace RoadAudit

/-! ## Copies of an edge -/

namespace RoadGraph

variable {α : Type} [Scalar α] (g : RoadGraph α)

/-- Whether two edges, as they are walked, have the same course, point by point. -/
def SameCourse (a b : EdgeView α) : Prop :=
  List.Forall₂ (fun p q => p.same q = true) (g.geometry a) (g.geometry b)

/-- Whether two edges at a node lead to the same node, are of equal length and have the same
course. -/
structure Alike (a b : EdgeView α) : Prop where
  adj : b.adj = a.adj
  length : Scalar.same a.edge.length b.edge.length = true
  course : g.SameCourse a b

/-- Whether two edges join the same nodes and are alike as they are walked away from a common
end. -/
def Copies (i j : Nat) : Prop :=
  ∃ n, ∃ a ∈ g.edgesOf n, ∃ b ∈ g.edgesOf n, a.id = i ∧ b.id = j ∧ g.Alike a b

/-- Whether `j` is the copy of `i` that comes next: the one of least id above that of `i`. -/
structure NextCopy (i j : Nat) : Prop where
  copies : g.Copies i j
  lt : i < j
  least : ∀ k, g.Copies i k → i < k → j ≤ k

variable {g}

theorem Alike.flip {a b : EdgeView α} (h : g.Alike a b) (hbase : b.base = a.base) :
    g.Alike a.flip b.flip where
  adj := by rw [EdgeView.adj_flip, EdgeView.adj_flip, hbase]
  length := h.length
  course := by
    rw [SameCourse, geometry_flip, geometry_flip]
    exact List.forall₂_reverse_iff.mpr h.course

theorem copies_iff {n j : Nat} {a : EdgeView α} (ha : a ∈ g.edgesOf n) :
    g.Copies a.id j ↔ ∃ b ∈ g.edgesOf n, b.id = j ∧ g.Alike a b := by
  constructor
  · rintro ⟨m, a', ha', b', hb', hid, hj, halike⟩
    have hbase : b'.base = a'.base := (base_of_mem_edgesOf hb').trans (base_of_mem_edgesOf ha').symm
    rcases eq_or_flip_of_id ha ha' hid with rfl | ⟨hne, rfl⟩
    · obtain rfl : m = n := (base_of_mem_edgesOf ha').symm.trans (base_of_mem_edgesOf ha)
      exact ⟨b', hb', hj, halike⟩
    · -- the common end of the copies is the far end of `a`
      obtain rfl : m = a.adj := by rw [← base_of_mem_edgesOf ha', EdgeView.base_flip]
      have hn : b'.adj = n := by
        rw [halike.adj, EdgeView.adj_flip, base_of_mem_edgesOf ha]
      have hb : b'.flip ∈ g.edgesOf n := by
        rw [← hn]
        exact flip_mem_edgesOf hb' (hn ▸ hne.symm)
      refine ⟨b'.flip, hb, hj, ?_⟩
      have hflip := halike.flip hbase
      rwa [EdgeView.flip_flip] at hflip
  · rintro ⟨b, hb, hj, halike⟩
    exact ⟨n, a, ha, b, hb, rfl, hj, halike⟩

end RoadGraph

namespace AuditContext

open RoadGraph

/-! ## The end at which an edge is reported -/

section Ends

variable {α : Type} {ctx : AuditContext α}

/-- Whether an end of an edge is checked. -/
def HasCheckedEnd (ctx : AuditContext α) (i : Nat) : Prop :=
  ∃ e, ctx.graph.edges[i]? = some e ∧ (ctx.IsChecked e.base ∨ ctx.IsChecked e.adj)

theorem hasCheckedEnd_iff {n : Nat} {a : EdgeView α} (ha : a ∈ ctx.graph.edgesOf n) :
    ctx.HasCheckedEnd a.id ↔ ctx.IsChecked a.base ∨ ctx.IsChecked a.adj := by
  obtain ⟨hedge, -, -⟩ := mem_edgesOf_iff.mp ha
  have hends : (ctx.IsChecked a.edge.base ∨ ctx.IsChecked a.edge.adj) ↔
      (ctx.IsChecked a.base ∨ ctx.IsChecked a.adj) := by
    rcases a.ends with ⟨hbase, hadj⟩ | ⟨hbase, hadj⟩
    · rw [hbase, hadj]
    · rw [hbase, hadj, or_comm]
  rw [← hends, HasCheckedEnd]
  constructor
  · rintro ⟨e, he, hchecked⟩
    rw [hedge] at he
    rwa [Option.some.inj he]
  · exact fun hchecked => ⟨a.edge, hedge, hchecked⟩

theorem exists_reportsAt_end {i n m : Nat} {e : Edge α} (he : ctx.graph.edges[i]? = some e)
    (hends : (n = e.base ∧ m = e.adj) ∨ (n = e.adj ∧ m = e.base))
    (hn : ctx.isSkipped n = false) (hm : n ≤ m ∨ ctx.isSkipped m = true) :
    ∃ n < ctx.graph.nodeCount, ctx.isSkipped n = false ∧
      ∃ a ∈ ctx.graph.edgesOf n, a.id = i ∧ ctx.reportsAt n a = true := by
  have hnodes := ctx.graph.ends e (Array.mem_of_getElem? he)
  have hlt : n < ctx.graph.nodeCount := by
    rcases hends with ⟨rfl, -⟩ | ⟨rfl, -⟩
    · exact hnodes.1
    · exact hnodes.2
  obtain ⟨a, ha, hid, rfl⟩ :=
    exists_mem_edgesOf_of_end he (hends.imp (fun h => h.1.symm) (fun h => h.1.symm))
  have hadj : a.adj = m := by
    have hbase := base_of_mem_edgesOf ha
    rcases a.ends with ⟨h, h'⟩ | ⟨h, h'⟩ <;> omega
  exact ⟨n, hlt, hn, a, ha, hid, by simpa [reportsAt, hadj] using hm⟩

/-- An edge with a checked end is reported at one of its ends: the one of lower id, or the other
one if that is skipped. -/
theorem exists_reportsAt {i : Nat} (h : ctx.HasCheckedEnd i) :
    ∃ n < ctx.graph.nodeCount, ctx.isSkipped n = false ∧
      ∃ a ∈ ctx.graph.edgesOf n, a.id = i ∧ ctx.reportsAt n a = true := by
  obtain ⟨e, he, hchecked⟩ := h
  cases hbase : ctx.isSkipped e.base with
  | true =>
    have hadj : ctx.isSkipped e.adj = false := by
      rcases hchecked with hchecked | hchecked
      · rw [isSkipped_eq_false_iff.mpr hchecked] at hbase
        cases hbase
      · exact isSkipped_eq_false_iff.mpr hchecked
    exact exists_reportsAt_end he (.inr ⟨rfl, rfl⟩) hadj (.inr hbase)
  | false =>
    by_cases hlower : e.base ≤ e.adj ∨ ctx.isSkipped e.adj = true
    · exact exists_reportsAt_end he (.inl ⟨rfl, rfl⟩) hbase hlower
    · rw [not_or, Bool.not_eq_true] at hlower
      exact exists_reportsAt_end he (.inr ⟨rfl, rfl⟩) hlower.2 (.inl (by omega))

theorem eq_of_reportsAt {n m : Nat} {a a' : EdgeView α} (ha : a ∈ ctx.graph.edgesOf n)
    (ha' : a' ∈ ctx.graph.edgesOf m) (hid : a'.id = a.id) (hn : ctx.isSkipped n = false)
    (hm : ctx.isSkipped m = false) (hreports : ctx.reportsAt n a = true)
    (hreports' : ctx.reportsAt m a' = true) : m = n := by
  have hbase := base_of_mem_edgesOf ha
  have hbase' := base_of_mem_edgesOf ha'
  rcases eq_or_flip_of_id ha ha' hid with rfl | ⟨-, rfl⟩
  · exact hbase'.symm.trans hbase
  · rw [EdgeView.base_flip] at hbase'
    simp only [reportsAt, EdgeView.adj_flip, hbase, hbase', hn, hm, Bool.or_false,
      decide_eq_true_eq] at hreports hreports'
    omega

end Ends

variable {α : Type} [Scalar α] {ctx : AuditContext α}

theorem sameCourse_iff {ps qs : List (Point α)} :
    sameCourse ps qs = true ↔ List.Forall₂ (fun p q => p.same q = true) ps qs := by
  induction ps generalizing qs with
  | nil => cases qs <;> simp [sameCourse]
  | cons p rest ih => cases qs <;> simp [sameCourse, ih]

theorem isDuplicate_iff {a b : EdgeView α} :
    ctx.isDuplicate a b = true ↔ ctx.graph.Alike a b := by
  simp only [isDuplicate, Bool.and_eq_true, beq_iff_eq, sameCourse_iff]
  exact ⟨fun h => ⟨h.1.1, h.1.2, h.2⟩, fun h => ⟨⟨h.adj, h.length⟩, h.course⟩⟩

/-! ## The pairs of a node -/

/-- The pairs of edges that `duplicatesAmong` reports. -/
def pairsAmong (ctx : AuditContext α) (id : Nat) :
    List (EdgeView α) → List (EdgeView α × EdgeView α)
  | [] => []
  | a :: rest =>
    if ctx.reportsAt id a then
      match rest.find? (ctx.isDuplicate a) with
      | some b => (a, b) :: pairsAmong ctx id rest
      | none => pairsAmong ctx id rest
    else pairsAmong ctx id rest

theorem duplicatesAmong_eq (id : Nat) (edges : List (EdgeView α)) :
    ctx.duplicatesAmong id edges =
      (ctx.pairsAmong id edges).map fun p => ctx.duplicatedEdge p.1 p.2 := by
  induction edges with
  | nil => rfl
  | cons a rest ih =>
    simp only [duplicatesAmong, pairsAmong, ih]
    split
    · cases rest.find? (ctx.isDuplicate a) <;> rfl
    · rfl

theorem mem_pairsAmong_cons {id : Nat} {x a b : EdgeView α} {rest : List (EdgeView α)} :
    (a, b) ∈ ctx.pairsAmong id (x :: rest) ↔
      (a = x ∧ ctx.reportsAt id x = true ∧ rest.find? (ctx.isDuplicate x) = some b) ∨
        (a, b) ∈ ctx.pairsAmong id rest := by
  rw [pairsAmong]
  split
  case isTrue hreports =>
    cases hfind : rest.find? (ctx.isDuplicate x) with
    | none => simp
    | some c => simp [hreports, eq_comm]
  case isFalse hreports => simp [hreports]

theorem mem_pairsAmong {id : Nat} {edges : List (EdgeView α)}
    (h : edges.Pairwise fun v w => v.id < w.id) {a b : EdgeView α} :
    (a, b) ∈ ctx.pairsAmong id edges ↔
      a ∈ edges ∧ ctx.reportsAt id a = true ∧ b ∈ edges ∧ a.id < b.id ∧ ctx.graph.Alike a b ∧
        ∀ c ∈ edges, a.id < c.id → ctx.graph.Alike a c → b.id ≤ c.id := by
  induction edges with
  | nil => simp [pairsAmong]
  | cons x rest ih =>
    obtain ⟨hx, hrest⟩ := List.pairwise_cons.mp h
    rw [mem_pairsAmong_cons, ih hrest, find?_eq_some_iff_least hrest]
    simp only [isDuplicate_iff]
    constructor
    · rintro (⟨rfl, hreports, hb, halike, hleast⟩ | ⟨ha, hreports, hb, hlt, halike, hleast⟩)
      · refine ⟨List.mem_cons_self, hreports, List.mem_cons_of_mem _ hb, hx b hb, halike, ?_⟩
        intro c hc hlt halike'
        rcases List.mem_cons.mp hc with rfl | hc
        · exact absurd hlt (lt_irrefl _)
        · exact hleast c hc halike'
      · refine ⟨List.mem_cons_of_mem _ ha, hreports, List.mem_cons_of_mem _ hb, hlt, halike, ?_⟩
        intro c hc hlt' halike'
        rcases List.mem_cons.mp hc with rfl | hc
        · exact absurd hlt' (hx a ha).not_gt
        · exact hleast c hc hlt' halike'
    · rintro ⟨ha, hreports, hb, hlt, halike, hleast⟩
      have hb' : b ∈ rest := by
        rcases List.mem_cons.mp hb with rfl | hb
        · rcases List.mem_cons.mp ha with rfl | ha
          · exact absurd hlt (lt_irrefl _)
          · exact absurd hlt (hx a ha).not_gt
        · exact hb
      have hleast' : ∀ c ∈ rest, a.id < c.id → ctx.graph.Alike a c → b.id ≤ c.id :=
        fun c hc => hleast c (List.mem_cons_of_mem x hc)
      rcases List.mem_cons.mp ha with rfl | ha
      · exact .inl ⟨rfl, hreports, hb', halike, fun c hc => hleast' c hc (hx c hc)⟩
      · exact .inr ⟨ha, hreports, hb', hlt, halike, hleast'⟩

def pairsAt (ctx : AuditContext α) (n : Nat) : List (EdgeView α × EdgeView α) :=
  if ctx.isSkipped n then [] else ctx.pairsAmong n (ctx.graph.edgesOf n)

theorem mem_pairsAt {n : Nat} {a b : EdgeView α} :
    (a, b) ∈ ctx.pairsAt n ↔
      ctx.isSkipped n = false ∧ a ∈ ctx.graph.edgesOf n ∧ ctx.reportsAt n a = true ∧
        b ∈ ctx.graph.edgesOf n ∧ ctx.graph.NextCopy a.id b.id := by
  unfold pairsAt
  cases hskipped : ctx.isSkipped n with
  | true => simp
  | false =>
    rw [if_neg (by decide), mem_pairsAmong (ascending_edgesOf _ n)]
    constructor
    · rintro ⟨ha, hreports, hb, hlt, halike, hleast⟩
      refine ⟨rfl, ha, hreports, hb, (copies_iff ha).mpr ⟨b, hb, rfl, halike⟩, hlt, ?_⟩
      intro k hcopy hk
      obtain ⟨c, hc, rfl, halike'⟩ := (copies_iff ha).mp hcopy
      exact hleast c hc hk halike'
    · rintro ⟨-, ha, hreports, hb, hnext⟩
      obtain ⟨b', hb', hid, halike⟩ := (copies_iff ha).mp hnext.copies
      obtain rfl := eq_of_mem_edgesOf hb hb' hid
      refine ⟨ha, hreports, hb, hnext.lt, halike, fun c hc hlt halike' => ?_⟩
      exact hnext.least c.id ((copies_iff ha).mpr ⟨c, hc, rfl, halike'⟩) hlt

theorem duplicatesOf_findingsAt {n : Nat} (h : ctx.checkNode n = .ok (ctx.findingsAt n)) :
    duplicatesOf (ctx.findingsAt n) =
      (ctx.pairsAt n).map fun p => ctx.duplicatedEdge p.1 p.2 := by
  unfold pairsAt
  rcases checkNode_eq_ok h with ⟨hskipped, hfs⟩ | ⟨osmId, missing, hchecked, -, -, hfs⟩
  · rw [hfs, hskipped]
    rfl
  · rw [hfs, hchecked, duplicatesOf_append, duplicatesOf_map_duplicate, duplicatesOf_map_missing,
      List.append_nil, duplicatesAt, duplicatesAmong_eq]
    rfl

/-! ## The pairs of a run -/

def pairs (ctx : AuditContext α) : List (EdgeView α × EdgeView α) :=
  (List.range ctx.graph.nodeCount).flatMap ctx.pairsAt

theorem mem_pairs {p : EdgeView α × EdgeView α} :
    p ∈ ctx.pairs ↔ ∃ n < ctx.graph.nodeCount, p ∈ ctx.pairsAt n := by
  simp [pairs]

theorem duplicatesOf_run {fs : List (Finding α)}
    (h : ctx.checkRange 0 ctx.graph.nodeCount = .ok fs) :
    duplicatesOf fs = ctx.pairs.map fun p => ctx.duplicatedEdge p.1 p.2 := by
  obtain ⟨hall, rfl⟩ := checkRange_eq_ok_iff.mp h
  rw [duplicatesOf_flatMap, pairs, List.map_flatMap, Nat.sub_zero, ← List.range_eq_range']
  apply List.flatMap_congr
  intro n hn
  exact duplicatesOf_findingsAt (hall n (Nat.zero_le n) (List.mem_range.mp hn))

def pairIds (ctx : AuditContext α) : List (Nat × Nat) :=
  ctx.pairs.map fun p => (p.1.id, p.2.id)

/-- The pairs of a run: each edge with a checked end, and its next copy. -/
theorem mem_pairIds {i j : Nat} :
    (i, j) ∈ ctx.pairIds ↔ ctx.HasCheckedEnd i ∧ ctx.graph.NextCopy i j := by
  rw [pairIds, List.mem_map]
  constructor
  · rintro ⟨⟨a, b⟩, hmem, hids⟩
    obtain ⟨rfl, rfl⟩ := Prod.mk.inj hids
    obtain ⟨n, -, hmem⟩ := mem_pairs.mp hmem
    obtain ⟨hchecked, ha, -, -, hnext⟩ := mem_pairsAt.mp hmem
    refine ⟨⟨a.edge, (mem_edgesOf_iff.mp ha).1, ?_⟩, hnext⟩
    have hn := isSkipped_eq_false_iff.mp hchecked
    rcases end_of_mem_edgesOf ha with hend | hend
    · exact .inl (hend ▸ hn)
    · exact .inr (hend ▸ hn)
  · rintro ⟨hchecked, hnext⟩
    obtain ⟨n, hn, hskipped, a, ha, rfl, hreports⟩ := exists_reportsAt hchecked
    obtain ⟨b, hb, rfl, -⟩ := (copies_iff ha).mp hnext.copies
    exact ⟨(a, b), mem_pairs.mpr ⟨n, hn, mem_pairsAt.mpr ⟨hskipped, ha, hreports, hb, hnext⟩⟩, rfl⟩

theorem ascending_pairsAmong {id : Nat} {edges : List (EdgeView α)}
    (h : edges.Pairwise fun v w => v.id < w.id) :
    (ctx.pairsAmong id edges).Pairwise fun p q => p.1.id < q.1.id := by
  induction edges with
  | nil => exact .nil
  | cons x rest ih =>
    obtain ⟨hx, hrest⟩ := List.pairwise_cons.mp h
    rw [pairsAmong]
    split
    · split
      · refine List.pairwise_cons.mpr ⟨fun p hp => ?_, ih hrest⟩
        exact hx p.1 ((mem_pairsAmong hrest).mp hp).1
      · exact ih hrest
    · exact ih hrest

theorem nodup_pairIds : (ctx.pairIds.map Prod.fst).Nodup := by
  rw [pairIds, List.map_map, pairs, List.map_flatMap, List.nodup_flatMap]
  constructor
  · intro n _
    rw [List.nodup_iff_pairwise_ne, List.pairwise_map]
    unfold pairsAt
    split
    · exact .nil
    · exact (ascending_pairsAmong (ascending_edgesOf _ n)).imp fun h => h.ne
  · refine (List.nodup_range).imp fun {n m} hne i hi hi' => hne ?_
    obtain ⟨⟨a, b⟩, hmem, rfl⟩ := List.mem_map.mp hi
    obtain ⟨⟨a', b'⟩, hmem', hid⟩ := List.mem_map.mp hi'
    obtain ⟨hn, ha, hreports, -⟩ := mem_pairsAt.mp hmem
    obtain ⟨hm, ha', hreports', -⟩ := mem_pairsAt.mp hmem'
    exact (eq_of_reportsAt ha ha' hid hn hm hreports hreports').symm

/-! ## Groups of copies -/

/-- A group of edges that are copies of one another and of no other edge, with a checked end. -/
structure IsGroup (ctx : AuditContext α) (group : Finset Nat) : Prop where
  copies : ∀ i ∈ group, ∀ j, j ≠ i → (j ∈ group ↔ ctx.graph.Copies i j)
  checked : ∃ i ∈ group, ctx.HasCheckedEnd i

theorem HasCheckedEnd.copy {i j : Nat} (h : ctx.HasCheckedEnd i) (hcopy : ctx.graph.Copies i j) :
    ctx.HasCheckedEnd j := by
  obtain ⟨n, a, ha, b, hb, rfl, rfl, halike⟩ := hcopy
  rw [hasCheckedEnd_iff ha] at h
  rwa [hasCheckedEnd_iff hb, halike.adj, base_of_mem_edgesOf hb, ← base_of_mem_edgesOf ha]

theorem exists_nextCopy_iff {i : Nat} :
    (∃ j, ctx.graph.NextCopy i j) ↔ ∃ j, ctx.graph.Copies i j ∧ i < j := by
  classical
  constructor
  · rintro ⟨j, hnext⟩
    exact ⟨j, hnext.copies, hnext.lt⟩
  · intro h
    obtain ⟨hcopies, hlt⟩ := Nat.find_spec h
    exact ⟨Nat.find h, hcopies, hlt, fun k hk hik => Nat.find_min' h ⟨hk, hik⟩⟩

theorem IsGroup.exists_nextCopy_iff {group : Finset Nat} (h : ctx.IsGroup group)
    (hne : group.Nonempty) {i : Nat} (hi : i ∈ group) :
    (∃ j, ctx.graph.NextCopy i j) ↔ i ≠ group.max' hne := by
  rw [AuditContext.exists_nextCopy_iff]
  constructor
  · rintro ⟨j, hcopies, hlt⟩ rfl
    exact absurd (group.le_max' j ((h.copies _ hi j hlt.ne').mpr hcopies)) hlt.not_ge
  · intro hlast
    have hlt := lt_of_le_of_ne (group.le_max' i hi) hlast
    exact ⟨_, (h.copies i hi _ hlt.ne').mp (group.max'_mem hne), hlt⟩

theorem IsGroup.hasCheckedEnd {group : Finset Nat} (h : ctx.IsGroup group) {i : Nat}
    (hi : i ∈ group) : ctx.HasCheckedEnd i := by
  obtain ⟨j, hj, hchecked⟩ := h.checked
  by_cases hij : i = j
  · exact hij ▸ hchecked
  · exact hchecked.copy ((h.copies j hj i hij).mp hi)

theorem IsGroup.firsts_eq {group : Finset Nat} (h : ctx.IsGroup group) (hne : group.Nonempty) :
    ((ctx.pairIds.filter (·.1 ∈ group)).map Prod.fst).toFinset = group.erase (group.max' hne) := by
  ext i
  rw [List.mem_toFinset, List.mem_map, Finset.mem_erase, and_comm]
  constructor
  · rintro ⟨⟨i, j⟩, hmem, rfl⟩
    obtain ⟨hmem, hi⟩ := List.mem_filter.mp hmem
    have hi : i ∈ group := by simpa using hi
    exact ⟨hi, (h.exists_nextCopy_iff hne hi).mp ⟨j, (mem_pairIds.mp hmem).2⟩⟩
  · rintro ⟨hi, hlast⟩
    obtain ⟨j, hnext⟩ := (h.exists_nextCopy_iff hne hi).mpr hlast
    have hmem : (i, j) ∈ ctx.pairIds := mem_pairIds.mpr ⟨h.hasCheckedEnd hi, hnext⟩
    exact ⟨(i, j), List.mem_filter.mpr ⟨hmem, by simpa using hi⟩, rfl⟩

theorem IsGroup.length_pairs {group : Finset Nat} (h : ctx.IsGroup group) :
    (ctx.pairIds.filter (·.1 ∈ group)).length + 1 = group.card := by
  have hne : group.Nonempty := h.checked.imp fun i hi => hi.1
  have hnodup : ((ctx.pairIds.filter (·.1 ∈ group)).map Prod.fst).Nodup :=
    nodup_pairIds.sublist (List.filter_sublist.map _)
  have hcard := congrArg Finset.card (h.firsts_eq hne)
  rw [List.toFinset_card_of_nodup hnodup, List.length_map,
    Finset.card_erase_of_mem (group.max'_mem hne)] at hcard
  have hpos := hne.card_pos
  omega

/-- Whether a duplicated edge is that of edge `i`, of which `j` is a copy: with the map ids of both
ways, and of rank two if one of them is an area. -/
structure Records (ctx : AuditContext α) (d : DuplicatedEdge α) (i j : Nat) : Prop where
  firstWay : d.firstWay = ctx.wayIds.osmId? i
  secondWay : d.secondWay = ctx.wayIds.osmId? j
  edges : ∃ e f, ctx.graph.edges[i]? = some e ∧ ctx.graph.edges[j]? = some f ∧
    d.rank = (if e.flags.isArea || f.flags.isArea then 2 else 1) ∧
    (d.geometry = ctx.graph.course e ∨ d.geometry = (ctx.graph.course e).reverse)

omit [Scalar α] in
theorem records_duplicatedEdge {n : Nat} {a b : EdgeView α} (ha : a ∈ ctx.graph.edgesOf n)
    (hb : b ∈ ctx.graph.edgesOf n) : ctx.Records (ctx.duplicatedEdge a b) a.id b.id where
  firstWay := rfl
  secondWay := rfl
  edges := by
    refine ⟨a.edge, b.edge, (mem_edgesOf_iff.mp ha).1, (mem_edgesOf_iff.mp hb).1, rfl, ?_⟩
    cases hreversed : a.reversed <;> simp [duplicatedEdge, geometry, hreversed]

/-- The duplicated edges of a run are one for each edge that has a copy of higher id and a checked
end, with the copy of least such id; there are no others. So of a group of copies with a checked end
all but one are reported. -/
theorem duplicates_reported_once (ctx : AuditContext α) {fs : List (Finding α)}
    (h : ctx.checkRange 0 ctx.graph.nodeCount = .ok fs) :
    ∃ pairs : List (Nat × Nat),
      List.Forall₂ (fun d p => ctx.Records d p.1 p.2) (duplicatesOf fs) pairs ∧
      (pairs.map Prod.fst).Nodup ∧
      (∀ i j, (i, j) ∈ pairs ↔ ctx.HasCheckedEnd i ∧ ctx.graph.NextCopy i j) ∧
      ∀ group, ctx.IsGroup group → (pairs.filter (·.1 ∈ group)).length + 1 = group.card := by
  refine ⟨ctx.pairIds, ?_, nodup_pairIds, fun i j => mem_pairIds, ?_⟩
  · rw [duplicatesOf_run h, pairIds, List.forall₂_map_left_iff, List.forall₂_map_right_iff,
      List.forall₂_same]
    intro p hp
    obtain ⟨n, -, hp⟩ := mem_pairs.mp hp
    obtain ⟨-, ha, -, hb, -⟩ := mem_pairsAt.mp hp
    exact records_duplicatedEdge ha hb
  · exact fun group hgroup => hgroup.length_pairs

/-- A road that is stored three times gives two findings, although one of its ends is skipped. -/
theorem duplicates_reported_once_tripledRoad :
    ∃ fs pairs, tripledRoad.checkRange 0 tripledRoad.graph.nodeCount = .ok fs ∧
      (duplicatesOf fs).length = 2 ∧
      List.Forall₂ (fun d p => tripledRoad.Records d p.1 p.2) (duplicatesOf fs) pairs ∧
      ∀ i j, (i, j) ∈ pairs ↔ tripledRoad.HasCheckedEnd i ∧ tripledRoad.graph.NextCopy i j := by
  obtain ⟨pairs, hrecords, -, hpairs, -⟩ :=
    duplicates_reported_once tripledRoad checkRange_tripledRoad
  exact ⟨_, pairs, checkRange_tripledRoad, rfl, hrecords, hpairs⟩

end AuditContext

end RoadAudit
