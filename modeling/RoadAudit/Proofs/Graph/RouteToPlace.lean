import RoadAudit.Graph.Route
import RoadAudit.Proofs.Geo.Lengths
import RoadAudit.Proofs.Graph.FirstAccepted

/-! # Routes to a place on an edge

A place on an edge is within the limit when the distance of an end of the edge and the rest of the
way along the edge come to no more than the limit. The search for an end accepts the first way
that it sees within the limit, without regard to the rest, and this way can be longer than the
distance of the end. So a route that is found proves that the place is within the limit, while a
route that is said to be too long proves nothing where both ends are accepted along detours. -/

namespace RoadAudit

open scoped Scalar

variable {α : Type} [Scalar α]

/-- Whether the status of a route tells truly whether its goal is within the limit. -/
def Route.Tells (r : Route α) (within : Prop) : Prop :=
  (r.status = .ok ↔ within) ∧ (r.status = .tooLong → ¬ within)

@[simp] theorem SearchLimits.status_exhausted {α : Type} (limits : SearchLimits α)
    (status : RouteStatus) : (limits.exhausted status).status = status := rfl

namespace RoadGraph

/-- Whether a place is within `m` of the source by way of a node that it is `rest` away from. -/
def WithinBy (g : RoadGraph α) (m : α) (source node : Nat) (rest : α) : Prop :=
  ∃ d, g.IsDistance source node d ∧ d + rest ≤ m

/-- Whether a place on an edge is within `m` of the source by way of either end. -/
def WithinByEnds (g : RoadGraph α) (m : α) (source : Nat) (v : EdgeView α) (fromBase fromAdj : α) :
    Prop :=
  g.WithinBy m source v.base fromBase ∨ g.WithinBy m source v.adj fromAdj

/-- Whether the search for a node accepts a way that leaves room for the rest. -/
def AcceptsBy (g : RoadGraph α) (limits : SearchLimits α) (source node : Nat) (rest : α) : Prop :=
  (g.route limits source node).status = .ok ∧
    (g.route limits source node).distance + rest ≤ limits.maxDistance

/-- Whether the search for a node may accept a way that leaves no room for the rest. -/
def MayOvershoot (g : RoadGraph α) (m : α) (source node : Nat) (rest : α) : Prop :=
  ∃ u e near, g.MayAccept m source node u e near ∧ ¬ near + e.length + rest ≤ m

/-- What the route to a place tells. It tells truly whether the place is within the limit unless
it is and neither end is accepted in time; in that case every end by way of which the place is
within the limit has been accepted along a detour. -/
structure TellsByAccepting (g : RoadGraph α) (limits : SearchLimits α) (source : Nat)
    (v : EdgeView α) (fromBase fromAdj : α) (r : Route α) : Prop where
  sound : r.status = .ok → g.WithinByEnds limits.maxDistance source v fromBase fromAdj
  tells_iff : r.Tells (g.WithinByEnds limits.maxDistance source v fromBase fromAdj) ↔
    (g.WithinByEnds limits.maxDistance source v fromBase fromAdj →
      g.AcceptsBy limits source v.base fromBase ∨ g.AcceptsBy limits source v.adj fromAdj)
  detour_base : ¬ r.Tells (g.WithinByEnds limits.maxDistance source v fromBase fromAdj) →
    g.WithinBy limits.maxDistance source v.base fromBase →
      g.MayOvershoot limits.maxDistance source v.base fromBase
  detour_adj : ¬ r.Tells (g.WithinByEnds limits.maxDistance source v fromBase fromAdj) →
    g.WithinBy limits.maxDistance source v.adj fromAdj →
      g.MayOvershoot limits.maxDistance source v.adj fromAdj

theorem status_found_or_exhausted (limits : SearchLimits α) (d : α) :
    (if d ≤ limits.maxDistance then SearchLimits.found d else limits.exhausted .tooLong).status
      = .ok ↔ d ≤ limits.maxDistance := by
  by_cases hle : d ≤ limits.maxDistance
  · simp [hle, SearchLimits.found]
  · simp [hle]

section Laws

variable [Scalar.LawfulSum α] {g : RoadGraph α} {limits : SearchLimits α} {source node : Nat}
  {rest fromBase fromAdj : α} {v : EdgeView α}

theorem status_routeViaEnds : (g.routeViaEnds limits source v fromBase fromAdj).status = .ok ↔
    g.AcceptsBy limits source v.base fromBase ∨ g.AcceptsBy limits source v.adj fromAdj := by
  unfold routeViaEnds AcceptsBy
  cases hbase : (g.route limits source v.base).status <;>
    cases hadj : (g.route limits source v.adj).status <;>
    simp only [hbase, hadj, status_found_or_exhausted]
  case ok.ok => simp [Scalar.lesser_le_iff]
  all_goals simp

theorem walk_of_ok (hg : g.HasLengths) (h : (g.route limits source node).status = .ok) :
    g.Walk source (g.route limits source node).distance node := by
  by_cases hne : source = node
  · subst hne
    rw [route_self]
    exact .start
  · obtain ⟨u, e, near, haccept, hd⟩ := exists_mayAccept hg hne h
    rw [hd]
    exact haccept.walk

theorem AcceptsBy.withinBy (hg : g.HasLengths) (hrest : Scalar.IsNumber rest → 0 ≤ rest)
    (h : g.AcceptsBy limits source node rest) :
    g.WithinBy limits.maxDistance source node rest := by
  obtain ⟨hok, hle⟩ := h
  have hwalk := walk_of_ok hg hok
  obtain ⟨d, hd⟩ := exists_isDistance hg hwalk
  have hnumber := (Scalar.LawfulSum.number_of_add (Scalar.IsNumber.left hle)).2
  have hshort := Scalar.LawfulLength.add_le_add (hd.walk.nonneg hg)
    (hd.least _ hwalk) (hrest hnumber)
  exact ⟨d, hd, Scalar.le_trans hshort hle⟩

/-- Where a place is within the limit by way of a node that is not accepted in time, the node has
been accepted along a detour. -/
theorem WithinBy.mayOvershoot (hg : g.HasLengths) (hrest : Scalar.IsNumber rest → 0 ≤ rest)
    (hfew : (g.within source limits.maxDistance).encard < limits.maxNodes)
    (h : g.WithinBy limits.maxDistance source node rest)
    (hlate : ¬ g.AcceptsBy limits source node rest) :
    g.MayOvershoot limits.maxDistance source node rest := by
  obtain ⟨d, hd, hle⟩ := h
  have hpos := hd.walk.nonneg hg
  have hrest' := hrest (Scalar.LawfulSum.number_of_add (Scalar.IsNumber.left hle)).2
  have hok : (g.route limits source node).status = .ok :=
    ok_of_few hg hfew hd (Scalar.le_trans (Scalar.LawfulLength.le_add hpos hrest') hle)
  have hne : source ≠ node := by
    rintro rfl
    refine hlate ⟨hok, ?_⟩
    rw [route_self]
    have hzero := Scalar.LawfulLength.number_zero (α := α)
    exact Scalar.le_trans (Scalar.LawfulLength.add_le_add hzero hpos hrest') hle
  obtain ⟨u, e, near, haccept, hdistance⟩ := exists_mayAccept hg hne hok
  refine ⟨u, e, near, haccept, fun hin => hlate ⟨hok, ?_⟩⟩
  rwa [hdistance]

theorem routeViaEnds_tells (hg : g.HasLengths)
    (hbase : Scalar.IsNumber fromBase → 0 ≤ fromBase) (hadj : Scalar.IsNumber fromAdj → 0 ≤ fromAdj)
    (hfew : (g.within source limits.maxDistance).encard < limits.maxNodes) :
    g.TellsByAccepting limits source v fromBase fromAdj
      (g.routeViaEnds limits source v fromBase fromAdj) := by
  have hsound : (g.routeViaEnds limits source v fromBase fromAdj).status = .ok →
      g.WithinByEnds limits.maxDistance source v fromBase fromAdj := fun hok =>
    (status_routeViaEnds.mp hok).imp (·.withinBy hg hbase) (·.withinBy hg hadj)
  have hiff : (g.routeViaEnds limits source v fromBase fromAdj).Tells
      (g.WithinByEnds limits.maxDistance source v fromBase fromAdj) ↔
      (g.WithinByEnds limits.maxDistance source v fromBase fromAdj →
        g.AcceptsBy limits source v.base fromBase ∨ g.AcceptsBy limits source v.adj fromAdj) := by
    refine ⟨fun h hin => status_routeViaEnds.mp (h.1.mpr hin), fun h => ?_⟩
    have hok := fun hin => status_routeViaEnds.mpr (h hin)
    refine ⟨⟨hsound, hok⟩, fun hlong hin => ?_⟩
    rw [hok hin] at hlong
    cases hlong
  have hlate : ¬ (g.routeViaEnds limits source v fromBase fromAdj).Tells
      (g.WithinByEnds limits.maxDistance source v fromBase fromAdj) →
      ¬ g.AcceptsBy limits source v.base fromBase ∧ ¬ g.AcceptsBy limits source v.adj fromAdj :=
    fun hnot => not_or.mp fun haccept => hnot (hiff.mpr fun _ => haccept)
  exact ⟨hsound, hiff, fun hnot hin => hin.mayOvershoot hg hbase hfew (hlate hnot).1,
    fun hnot hin => hin.mayOvershoot hg hadj hfew (hlate hnot).2⟩

/-- With fewer nodes within the limit than may be settled, the routes to a point of an edge's
course and to a point between two of them are found only if the place is within the limit. They
tell so whenever an end is accepted in time, and otherwise fail to just when the place is within
the limit. -/
theorem place_told (g : RoadGraph α) (limits : SearchLimits α) (m : Metric) (source : Nat)
    (v : EdgeView α) (hg : g.HasLengths) (hm : m.HasDistances α)
    (hfew : (g.within source limits.maxDistance).encard < limits.maxNodes) :
    (∀ wayIndex, let i := min wayIndex ((g.geometry v).length - 1)
      g.TellsByAccepting limits source v (m.length ((g.geometry v).take (i + 1)))
        (m.length ((g.geometry v).drop i)) (g.routeToVertex limits m source v wayIndex)) ∧
    ∀ p fromBase fromAdj, m.distanceAlong? (g.geometry v) p = some fromBase →
      m.distanceAlong? (g.geometry v).reverse p = some fromAdj →
      ∃ r, g.routeToPoint? limits m source v p = some r ∧
        g.TellsByAccepting limits source v fromBase fromAdj r := by
  refine ⟨fun wayIndex => ?_, fun p fromBase fromAdj hbase hadj => ?_⟩
  · exact routeViaEnds_tells hg (Metric.length_nonneg hm _) (Metric.length_nonneg hm _) hfew
  · refine ⟨g.routeViaEnds limits source v fromBase fromAdj, ?_, ?_⟩
    · simp [routeToPoint?, hbase, hadj]
    · exact routeViaEnds_tells hg (Metric.distanceAlong?_nonneg hm hbase)
        (Metric.distanceAlong?_nonneg hm hadj) hfew

end Laws

def spur : EdgeView α := ⟨3, ⟨2, 3, 10, default, [⟨0, 5⟩]⟩, false⟩

theorem spur_mem : spur ∈ (detour : RoadGraph α).views := mem_views.mpr ⟨rfl, rfl⟩

theorem length_spur :
    Metric.plane.length (((detour : RoadGraph ℝ).geometry spur).take 2) = 5 := by
  have hlength : Metric.plane.length (((detour : RoadGraph ℝ).geometry spur).take 2) =
      ((0 : ℕ) : ℝ) + √((((0 : ℕ) : ℝ) - ((0 : ℕ) : ℝ)) * (((0 : ℕ) : ℝ) - ((0 : ℕ) : ℝ)) +
        (((5 : ℕ) : ℝ) - ((0 : ℕ) : ℝ)) * (((5 : ℕ) : ℝ) - ((0 : ℕ) : ℝ))) := rfl
  rw [hlength]
  norm_num

/-- Within twenty the middle of the spur is found from the first node of the detour. -/
theorem place_told_detour :
    (detour : RoadGraph ℝ).HasLengths ∧ Metric.plane.HasDistances ℝ ∧
      ((detour : RoadGraph ℝ).within 0 20).encard < (6 : Nat) ∧
      ((detour : RoadGraph ℝ).routeToVertex ⟨6, 20⟩ .plane 0 spur 1).status = .ok := by
  have hm := Metric.hasDistances_real .plane
  have hlengths : ∀ e ∈ (detour : RoadGraph ℝ).edges, 0 ≤ e.length ∧ e.length ≤ 10 := by
    intro e he
    rcases mem_edges_detour.mp he with rfl | rfl | rfl | rfl <;>
      simp only [Scalar.ofNat_real] <;> norm_num
  have hg : (detour : RoadGraph ℝ).HasLengths := fun e he => by
    simpa only [Scalar.ofNat_real, Nat.cast_zero] using (hlengths e he).1
  have hroad : (0 : ℝ) + (10 : ℕ) ≤ 20 := by norm_num
  have hok : ((detour : RoadGraph ℝ).route ⟨6, 20⟩ 0 2).status = .ok := by
    have hwalk := walk_detour (α := ℝ)
    obtain ⟨d, hd⟩ := exists_isDistance hg hwalk
    have hleast := hd.least _ hwalk
    simp only [Scalar.ofNat_real, Nat.cast_zero] at hleast
    exact ok_of_few hg (few_detour 20) hd (hleast.trans hroad)
  have haccepts : (detour : RoadGraph ℝ).AcceptsBy ⟨6, 20⟩ 0 2
      (Metric.plane.length (((detour : RoadGraph ℝ).geometry spur).take 2)) := by
    refine ⟨hok, ?_⟩
    obtain ⟨u, e, near, haccept, hdistance⟩ := exists_mayAccept hg (by decide) hok
    have hshort := haccept.le_exchange hg .start (mem_edges_detour.mpr (.inl rfl))
      (.inl ⟨rfl, rfl⟩) (by simpa only [Scalar.ofNat_real, Nat.cast_zero] using hroad)
    have hlong := (hlengths e haccept.edge).2
    simp only [Scalar.ofNat_real, Nat.cast_zero] at hshort
    rw [hdistance, length_spur]
    linarith
  obtain ⟨hvertex, -⟩ := place_told detour ⟨6, 20⟩ .plane 0 spur hg hm (few_detour 20)
  have htells := (hvertex 1).tells_iff.mpr fun _ => .inl haccepts
  have hwithin := haccepts.withinBy hg (Metric.length_nonneg hm _)
  exact ⟨hg, hm, few_detour 20, htells.1.mpr (.inl hwithin)⟩

/-- A search from the first node of the detour to the third accepts no other way than the first
road, if that is within the limit. -/
theorem length_of_mayAccept_detour {m near : Float} {u : Nat} {e : Edge Float}
    (hm : (0 : Float) + 10 ≤ m) (h : detour.MayAccept m 0 2 u e near) : e.length = 10 := by
  have hnear : near ≤ 0 := h.nearest 0 0 .start _ (mem_edges_detour.mpr (.inl rfl))
    (.inl ⟨rfl, rfl⟩) hm
  -- a walk to any other node takes an edge, and each of them is longer than that
  have hsource : u = 0 := by
    cases h.distance.walk with
    | start => rfl
    | @step w _ _ e' hwalk he' =>
      have hlong := Scalar.LawfulLength.add_le_add Scalar.LawfulLength.number_zero
        (hwalk.nonneg hasLengths_detour) (hasLengths_detour e' he')
      have hle := Scalar.le_trans hlong hnear
      rcases mem_edges_detour.mp he' with rfl | rfl | rfl | rfl <;> exact absurd hle (by decide)
  subst hsource
  rcases mem_edges_detour.mp h.edge with rfl | rfl | rfl | rfl
  · rfl
  all_goals exact absurd h.joins (by simp [Edge.Joins])

theorem MayAccept.overshoots_detour {near rest : Float} {target u : Nat} {e : Edge Float}
    (h : detour.MayAccept 14 0 target u e near) (hlength : e.length = 10) (hrest : 0 ≤ rest)
    (hfar : ¬ (0 : Float) + 10 + rest ≤ 14) : ¬ near + e.length + rest ≤ 14 := by
  intro hle
  have hpos : 0 ≤ near := h.distance.walk.nonneg hasLengths_detour
  have hlong := Scalar.LawfulLength.add_le_add Scalar.LawfulLength.number_zero hpos
    (c := (10 : Float)) (by decide)
  rw [hlength] at hle
  exact hfar (Scalar.le_trans (Scalar.LawfulLength.add_le_add (by decide) hlong hrest) hle)

/-- Fourteen are enough for the three to the third node of the detour and the five that are left to
the middle of the spur, but not for the ten along the first road and these five. -/
theorem not_tells_detour :
    ¬ ∀ (g : RoadGraph Float) (limits : SearchLimits Float) (m : Metric) (source wayIndex : Nat),
      ∀ v ∈ g.views, g.HasLengths →
        (g.within source limits.maxDistance).encard < limits.maxNodes →
        let i := min wayIndex ((g.geometry v).length - 1)
        (g.routeToVertex limits m source v wayIndex).Tells
          (g.WithinByEnds limits.maxDistance source v (m.length ((g.geometry v).take (i + 1)))
            (m.length ((g.geometry v).drop i))) := by
  intro hall
  obtain ⟨htells, -⟩ := hall detour ⟨6, 14⟩ .plane 0 1 spur spur_mem hasLengths_detour
    (few_detour 14)
  have hround : (detour : RoadGraph Float).Walk 0 (0 + 1 + 2) 2 :=
    .step (e := ⟨1, 2, 2, default, []⟩)
      (.step (e := ⟨0, 1, 1, default, []⟩) .start (mem_edges_detour.mpr (.inr (.inl rfl)))
        (.inl ⟨rfl, rfl⟩))
      (mem_edges_detour.mpr (.inr (.inr (.inl rfl)))) (.inl ⟨rfl, rfl⟩)
  have hwithin : (detour : RoadGraph Float).WithinBy 14 0 2
      (Metric.plane.length [⟨0, 0⟩, ⟨0, 5⟩]) := by
    obtain ⟨d, hd⟩ := exists_isDistance hasLengths_detour hround
    have hsum := Scalar.LawfulLength.add_le_add (hd.walk.nonneg hasLengths_detour)
      (hd.least _ hround) (c := Metric.plane.length [⟨0, 0⟩, ⟨0, 5⟩]) (by decide +kernel)
    exact ⟨d, hd, Scalar.le_trans hsum (by decide +kernel)⟩
  rcases status_routeViaEnds.mp (htells.mpr (.inl hwithin)) with ⟨hok, hle⟩ | ⟨hok, hle⟩
  · obtain ⟨u, e, near, haccept, hd⟩ := exists_mayAccept hasLengths_detour (by decide) hok
    have hlength := length_of_mayAccept_detour (by decide) haccept
    rw [hd] at hle
    exact haccept.overshoots_detour hlength (by decide +kernel) (by decide +kernel) hle
  · obtain ⟨u, e, near, haccept, hd⟩ := exists_mayAccept hasLengths_detour (by decide) hok
    have hlength : e.length = 10 := by
      have hjoins : e.Joins u 3 := haccept.joins
      rcases mem_edges_detour.mp haccept.edge with rfl | rfl | rfl | rfl
      case inr.inr.inr => rfl
      all_goals exact absurd hjoins (by simp [Edge.Joins])
    rw [hd] at hle
    exact haccept.overshoots_detour hlength (by decide +kernel) (by decide +kernel) hle

end RoadGraph
end RoadAudit
