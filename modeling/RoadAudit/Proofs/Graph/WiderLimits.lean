import RoadAudit.Proofs.Graph.FirstAccepted

/-! # Searches within wider limits

The labels of a search do not depend on its limits: those only say when it ends. So a search within
wider limits goes through the same states as one within narrower limits for as long as both go on.
Where the narrower search finds its target, the wider one has found it there too, unless it has
accepted before a way that the narrower one had to pass over because it is beyond its limit. Nothing
is assumed of the lengths of the edges. -/

namespace RoadAudit

open scoped Scalar

variable {α : Type} [Scalar α]

/-- Whether one search may do whatever another may. -/
structure SearchLimits.Widen (wider limits : SearchLimits α) : Prop where
  maxNodes : limits.maxNodes ≤ wider.maxNodes
  maxDistance : limits.maxDistance ≤ wider.maxDistance

/-- What a search within a limit `m` tells of one within wider limits: that finds the same, or
something beyond `m`. -/
structure Route.Foretells (m : α) (r wider : Route α) : Prop where
  status : wider.status = .ok
  distance : wider.distance = r.distance ∨ m < wider.distance

namespace Search

/-- How two searches in the same state go on, the second within wider limits than the first, whose
limit is `m`: both to the same state, or the second ends in a way that the first foretells, or the
first gives up. -/
inductive InStep (m : α) : Progress α → Progress α → Prop
  | running (s : Search α) : InStep m (.running s) (.running s)
  | found (d : α) : InStep m (.ended (SearchLimits.found d)) (.ended (SearchLimits.found d))
  | beyond {d : α} (p : Progress α) (h : m < d) : InStep m p (.ended (SearchLimits.found d))
  | givenUp {r : Route α} (p : Progress α) (h : r.status ≠ .ok) : InStep m (.ended r) p

section Laws

variable [Scalar.LawfulOrder α] {limits wider : SearchLimits α} {target : Nat}

theorem accepted?_of_wider (h : wider.Widen limits) {s : Search α} {d w : α}
    (haccept : s.accepted? limits target d = some w) : s.accepted? wider target d = some w := by
  unfold accepted? at haccept ⊢
  obtain ⟨hle, heq⟩ := Option.ite_none_right_eq_some.mp haccept
  exact Option.ite_none_right_eq_some.mpr ⟨Scalar.le_trans hle h.maxDistance, heq⟩

theorem lt_of_accepted?_wider (h : wider.Widen limits) {s : Search α} {d w : α}
    (hnone : s.accepted? limits target d = none) (haccept : s.accepted? wider target d = some w) :
    limits.maxDistance < w := by
  unfold accepted? at hnone haccept
  obtain ⟨hwider, heq⟩ := Option.ite_none_right_eq_some.mp haccept
  obtain rfl := Option.some.inj heq
  have hbeyond : ¬ _ ≤ limits.maxDistance := fun hle => by
    rw [if_pos hle] at hnone
    cases hnone
  exact Scalar.lt_of_not_le (Scalar.IsNumber.left hwider) (Scalar.IsNumber.left h.maxDistance)
    hbeyond

theorem inStep_relaxAll (h : wider.Widen limits) (d : α) (todo : List (EdgeView α))
    (s : Search α) : InStep limits.maxDistance (relaxAll limits target d todo s)
      (relaxAll wider target d todo s) := by
  induction todo generalizing s with
  | nil => exact .running s
  | cons e rest ih =>
    rw [relaxAll, relaxAll]
    by_cases htarget : e.adj = target
    · rw [if_pos htarget, if_pos htarget]
      cases haccept : s.accepted? limits target (d + e.edge.length) with
      | some w =>
        rw [accepted?_of_wider h haccept]
        exact .found w
      | none =>
        cases hwider : s.accepted? wider target (d + e.edge.length) with
        | some w => exact .beyond _ (lt_of_accepted?_wider h haccept hwider)
        | none => exact ih _
    · rw [if_neg htarget, if_neg htarget]
      exact ih _

theorem inStep_step (h : wider.Widen limits) (g : RoadGraph α) (s : Search α) :
    InStep limits.maxDistance (s.step g limits target) (s.step g wider target) := by
  unfold step
  cases s.nearest? with
  | none => exact .givenUp _ nofun
  | some p =>
    obtain ⟨i, l⟩ := p
    by_cases hbeyond : limits.maxDistance < l.distance
    · simp only [if_pos hbeyond]
      exact .givenUp _ nofun
    · have hwithin : ¬ wider.maxDistance < l.distance :=
        fun hlt => hbeyond (Scalar.lt_of_le_of_lt h.maxDistance hlt)
      simp only [if_neg hbeyond, if_neg hwithin]
      exact inStep_relaxAll h l.distance (g.edgesOf l.node) (s.settle i)

theorem foretells_run (h : wider.Widen limits) (g : RoadGraph α) {budget more : Nat}
    (hbudget : budget ≤ more) (s : Search α) (hok : (run g limits target budget s).status = .ok) :
    Route.Foretells limits.maxDistance (run g limits target budget s)
      (run g wider target more s) := by
  -- as long as both searches go on they are in one state, and the wider has no less budget left
  induction budget generalizing more s with
  | zero => cases hok
  | succ budget ih =>
    obtain ⟨more, rfl⟩ : ∃ n, more = n + 1 := ⟨more - 1, by omega⟩
    rw [run] at hok ⊢
    rw [run]
    have hstep : InStep limits.maxDistance (s.step g limits target) (s.step g wider target) :=
      inStep_step h g s
    generalize s.step g limits target = p at hok hstep ⊢
    generalize s.step g wider target = q at hstep ⊢
    cases hstep with
    | running s' => exact ih (Nat.le_of_succ_le_succ hbudget) s' hok
    | found d => exact ⟨rfl, .inl rfl⟩
    | beyond _ hlt => exact ⟨rfl, .inr hlt⟩
    | givenUp _ hr => exact absurd hok hr

end Laws

end Search

namespace RoadGraph

variable [Scalar.LawfulOrder α]

/-- What a search finds is found as well within wider limits, at the same distance or beyond the
narrower limit, and never nearer. -/
theorem route_of_wider (g : RoadGraph α) (limits wider : SearchLimits α) (source target : Nat)
    (hnodes : limits.maxNodes ≤ wider.maxNodes) (hdistance : limits.maxDistance ≤ wider.maxDistance)
    (hok : (g.route limits source target).status = .ok) :
    (g.route wider source target).status = .ok ∧
    ((g.route wider source target).distance = (g.route limits source target).distance ∨
      limits.maxDistance < (g.route wider source target).distance) ∧
    ¬ (g.route wider source target).distance < (g.route limits source target).distance := by
  by_cases hne : source = target
  · subst hne
    rw [route_self, route_self]
    exact ⟨rfl, .inl rfl, Scalar.lt_irrefl _⟩
  · have hle := distance_le_of_ok hne hok
    have hforetells : Route.Foretells limits.maxDistance (g.route limits source target)
        (g.route wider source target) := by
      rw [route, if_neg hne] at hok ⊢
      rw [route, if_neg hne]
      exact Search.foretells_run ⟨hnodes, hdistance⟩ g hnodes _ hok
    refine ⟨hforetells.status, hforetells.distance, fun hshorter => ?_⟩
    rcases hforetells.distance with heq | hbeyond
    · rw [heq] at hshorter
      exact Scalar.lt_irrefl _ hshorter
    · exact Scalar.not_le_of_lt (Scalar.lt_trans hbeyond hshorter) hle

/-- Within five the third node is found by way of the second, so within fourteen it is found too:
at the same distance or at one beyond five, as it is along the first road. -/
theorem route_of_wider_detour :
    (5 : Float) ≤ 14 ∧ ((detour : RoadGraph Float).route ⟨6, 5⟩ 0 2).status = .ok ∧
      ((detour : RoadGraph Float).route ⟨7, 14⟩ 0 2).status = .ok ∧
      (((detour : RoadGraph Float).route ⟨7, 14⟩ 0 2).distance =
          ((detour : RoadGraph Float).route ⟨6, 5⟩ 0 2).distance ∨
        5 < ((detour : RoadGraph Float).route ⟨7, 14⟩ 0 2).distance) := by
  have hwalk : (detour : RoadGraph Float).Walk 0 (0 + 1 + 2) 2 :=
    .step (e := ⟨1, 2, 2, default, []⟩)
      (.step (e := ⟨0, 1, 1, default, []⟩) .start (mem_edges_detour.mpr (.inr (.inl rfl)))
        (.inl ⟨rfl, rfl⟩))
      (mem_edges_detour.mpr (.inr (.inr (.inl rfl)))) (.inl ⟨rfl, rfl⟩)
  obtain ⟨d, hd⟩ := exists_isDistance hasLengths_detour hwalk
  have hok : ((detour : RoadGraph Float).route ⟨6, 5⟩ 0 2).status = .ok :=
    ok_of_few hasLengths_detour (few_detour 5) hd (Scalar.le_trans (hd.least _ hwalk) (by decide))
  have hdistance : (5 : Float) ≤ 14 := by decide
  obtain ⟨hstatus, hdistances, -⟩ :=
    route_of_wider detour ⟨6, 5⟩ ⟨7, 14⟩ 0 2 (by decide) hdistance hok
  exact ⟨hdistance, hok, hstatus, hdistances⟩

end RoadGraph
end RoadAudit
