import RoadAudit.Proofs.Graph.RouteStatus

/-! # The way that is accepted

A search takes the first way to its target that it sees within the limit, which need not be a
shortest one. It is a shortest one up to its last edge, though, and among the nodes from which an
edge leads to the target within the limit it comes from a nearest one. -/

namespace RoadAudit

open scoped Scalar

variable {α : Type} [Scalar α]

namespace Search

open RoadGraph

omit [Scalar α] in
theorem SettledAt.distance_of_open {g : RoadGraph α} {s : Search α} {n v : Nat} {d : α}
    (hn : s.SettledAt n d) {l : Label α} {e : EdgeView α} (hopen : e ∈ g.edgesOf n)
    (he : e ∈ g.edgesOf v) (hl : s.label? v = some l) : l.distance = d := by
  obtain ⟨l', hl', -, rfl⟩ := hn
  rw [← base_of_mem_edgesOf hopen, base_of_mem_edgesOf he] at hl'
  obtain rfl : l' = l := Option.some.inj (hl'.symm.trans hl)
  rfl

section Laws

variable [Scalar.LawfulLength α] {g : RoadGraph α} {limits : SearchLimits α}
  {source target n v : Nat} {d w : α} {todo : List (EdgeView α)} {s : Search α}

theorem Invariant.settled_or_le (hg : g.HasLengths) (h : Invariant g source d todo s)
    (hn : s.SettledAt n d) (htodo : ∀ e ∈ todo, e ∈ g.edgesOf n) (hwalk : g.Walk source w v) :
    (∃ l, s.label? v = some l ∧ l.settled = true ∧ l.distance ≤ w) ∨ d ≤ w := by
  -- a label of the end is settled, or it lies behind the frontier
  have hsplit : ∀ {u : Nat} {l : Label α} {w : α}, s.label? u = some l → l.distance ≤ w →
      (∃ l, s.label? u = some l ∧ l.settled = true ∧ l.distance ≤ w) ∨ d ≤ w := by
    intro u l w hl hle
    cases hsettled : l.settled with
    | true => exact .inl ⟨l, hl, hsettled, hle⟩
    | false => exact .inr (Scalar.le_trans (h.le_open u l hl hsettled) hle)
  induction hwalk with
  | start =>
    obtain ⟨l, hl, hzero⟩ := h.source
    exact hsplit hl hzero
  | step hwalk he hjoins ih =>
    have hlength := hg _ he
    have hlonger := Scalar.LawfulLength.le_add (hwalk.nonneg hg) hlength
    rcases ih with ⟨l, hl, hsettled, hle⟩ | hle
    · obtain ⟨e', he', rfl, rfl⟩ := exists_mem_edgesOf he hjoins
      rcases h.closed _ l hl hsettled e' he' with hopen | ⟨m, hm, hseen⟩
      · rw [hn.distance_of_open (htodo e' hopen) he' hl] at hle
        exact .inr (Scalar.le_trans hle hlonger)
      · exact hsplit hm (Scalar.le_trans hseen
          (Scalar.LawfulLength.add_le_add (h.nonneg hg hl) hle hlength))
    · exact .inr (Scalar.le_trans hle hlonger)

theorem Invariant.isDistance_frontier (hg : g.HasLengths) (h : Invariant g source d todo s)
    (hn : s.SettledAt n d) (htodo : ∀ e ∈ todo, e ∈ g.edgesOf n) : g.IsDistance source n d := by
  obtain ⟨l, hl, hsettled, rfl⟩ := hn
  refine ⟨h.walk n l hl, fun w hwalk => ?_⟩
  rcases h.settled_or_le hg ⟨l, hl, hsettled, rfl⟩ htodo hwalk with ⟨m, hm, -, hle⟩ | hle
  · obtain rfl : l = m := Option.some.inj (hl.symm.trans hm)
    exact hle
  · exact hle

/-- While the target is missed, a walk that one more edge takes to it within the limit is not
shorter than the frontier is far. -/
theorem Searching.frontier_le (hg : g.HasLengths) (h : Searching g limits source target d todo s)
    (hn : s.SettledAt n d) (htodo : ∀ e ∈ todo, e ∈ g.edgesOf n) (hwalk : g.Walk source w v)
    {e : Edge α} (he : e ∈ g.edges) (hjoins : e.Joins v target)
    (hwithin : w + e.length ≤ limits.maxDistance) : d ≤ w := by
  rcases h.settled_or_le hg hn htodo hwalk with ⟨l, hl, hsettled, hle⟩ | hle
  · obtain ⟨e', he', rfl, hadj⟩ := exists_mem_edgesOf he hjoins
    rcases h.closed v l hl hsettled e' he' with hopen | ⟨m, hm, hseen⟩
    · rwa [hn.distance_of_open (htodo e' hopen) he' hl] at hle
    · -- an edge relaxed before would have brought the target within the limit
      have hreached := Scalar.LawfulLength.add_le_add (h.nonneg hg hl) hle (hg _ he)
      exact absurd (Scalar.le_trans hseen (Scalar.le_trans hreached hwithin))
        (h.missed m (hadj ▸ hm))
  · exact hle

end Laws

theorem accepted?_le {s : Search α} {limits : SearchLimits α} {target : Nat} {w w' : α}
    (h : s.accepted? limits target w = some w') : w' ≤ limits.maxDistance := by
  unfold accepted? at h
  obtain ⟨hle, heq⟩ := Option.ite_none_right_eq_some.mp h
  obtain rfl := Option.some.inj heq
  exact hle

theorem distance_le_of_relaxAll {limits : SearchLimits α} {target : Nat} {d : α}
    {todo : List (EdgeView α)} {s : Search α} {r : Route α}
    (h : relaxAll limits target d todo s = .ended r) : r.distance ≤ limits.maxDistance := by
  induction todo generalizing s with
  | nil => cases h
  | cons e rest ih =>
    rw [relaxAll] at h
    split at h
    case h_1 w haccept =>
      cases h
      split at haccept
      · exact accepted?_le haccept
      · cases haccept
    case h_2 => exact ih h

theorem distance_le_of_run (g : RoadGraph α) (limits : SearchLimits α) (target budget : Nat)
    (s : Search α) (h : (run g limits target budget s).status = .ok) :
    (run g limits target budget s).distance ≤ limits.maxDistance := by
  induction budget generalizing s with
  | zero => cases h
  | succ budget ih =>
    rw [run] at h ⊢
    cases hstep : s.step g limits target with
    | running s' =>
      simp only [hstep] at h ⊢
      exact ih s' h
    | ended r =>
      simp only [hstep] at h ⊢
      unfold step at hstep
      split at hstep
      · cases hstep
        cases h
      · split at hstep
        · cases hstep
          cases h
        · exact distance_le_of_relaxAll hstep

end Search

namespace RoadGraph

/-- Whether a search for a target may accept it along an edge from a node at distance `near`: the
way along the edge is within the limit `m`, and no node from which an edge leads to the target
within the limit is nearer. -/
structure MayAccept (g : RoadGraph α) (m : α) (source target u : Nat) (e : Edge α) (near : α) :
    Prop where
  edge : e ∈ g.edges
  joins : e.Joins u target
  distance : g.IsDistance source u near
  within : near + e.length ≤ m
  nearest : ∀ v w, g.Walk source w v → ∀ e' ∈ g.edges, e'.Joins v target → w + e'.length ≤ m →
    near ≤ w

theorem MayAccept.walk {g : RoadGraph α} {m near : α} {source target u : Nat} {e : Edge α}
    (h : g.MayAccept m source target u e near) : g.Walk source (near + e.length) target :=
  .step h.distance.walk h.edge h.joins

theorem route_self (g : RoadGraph α) (limits : SearchLimits α) (source : Nat) :
    g.route limits source source = SearchLimits.found 0 := if_pos rfl

theorem distance_le_of_ok {g : RoadGraph α} {limits : SearchLimits α} {source target : Nat}
    (hne : source ≠ target) (h : (g.route limits source target).status = .ok) :
    (g.route limits source target).distance ≤ limits.maxDistance := by
  rw [route, if_neg hne] at h ⊢
  exact Search.distance_le_of_run g limits target _ _ h

section Laws

variable [Scalar.LawfulLength α] {g : RoadGraph α} {limits : SearchLimits α}
  {source target u : Nat} {e : Edge α} {m near w : α}

/-- With fewer nodes within the limit than may be settled, a node within the limit is found. -/
theorem ok_of_few (hg : g.HasLengths)
    (hfew : (g.within source limits.maxDistance).encard < limits.maxNodes)
    {d : α} (hd : g.IsDistance source target d) (hle : d ≤ limits.maxDistance) :
    (g.route limits source target).status = .ok := by
  by_cases hne : source = target
  · subst hne
    rw [route_self]
    rfl
  · have hmax := Scalar.IsNumber.right hle
    cases hstatus : (g.route limits source target).status with
    | ok => rfl
    | tooLong => exact absurd ⟨d, hd, hle⟩ (tooLong_sound hg hne hmax hstatus)
    | tooManyNodes => exact absurd (tooManyNodes_sound hg hne hmax hstatus) (not_le_of_gt hfew)

/-- A way that is found has been accepted. -/
theorem exists_mayAccept (hg : g.HasLengths) (hne : source ≠ target)
    (h : (g.route limits source target).status = .ok) :
    ∃ u e near, g.MayAccept limits.maxDistance source target u e near ∧
      (g.route limits source target).distance = near + e.length := by
  have hmax := Scalar.IsNumber.right (distance_le_of_ok hne h)
  have hends := route_ends hg hne hmax
  generalize g.route limits source target = r at h hends
  cases hends with
  | @found d todo s n v hs hn hv htarget hwithin hrest =>
    have htodo : ∀ v' ∈ v :: todo, v' ∈ g.edgesOf n := List.forall_mem_cons.mpr ⟨hv, hrest⟩
    obtain ⟨hedge, hjoins⟩ := joins_of_mem_edgesOf hv
    refine ⟨n, v.edge, d, ⟨hedge, htarget ▸ hjoins, ?_, hwithin, ?_⟩, rfl⟩
    · exact hs.isDistance_frontier hg hn htodo
    · intro v w hwalk e' he' hjoins' hle
      exact hs.frontier_le hg hn htodo hwalk he' hjoins' hle
  | tooLong => cases h
  | tooManyNodes => cases h

theorem MayAccept.le_exchange (hg : g.HasLengths) (h : g.MayAccept m source target u e near)
    {v : Nat} (hwalk : g.Walk source w v) {e' : Edge α} (he' : e' ∈ g.edges)
    (hjoins : e'.Joins v target) (hwithin : w + e'.length ≤ m) :
    near + e.length ≤ w + e.length :=
  Scalar.LawfulLength.add_le_add (h.distance.walk.nonneg hg)
    (h.nearest v w hwalk e' he' hjoins hwithin) (hg e h.edge)

/-- The distance that a search answers with is within the limit and not below the distance of the
target. It is that of a way along an edge `e` from a node `u` at distance `near`, and `u` is a
nearest node among those from which an edge leads to the target within the limit. So with its last
edge in place of that of a shortest way, a shortest way is not shorter than the one found; where
lengths are added exactly, the way found is too long by no more than the last edges differ. -/
theorem route_distance (g : RoadGraph α) (limits : SearchLimits α) (source target : Nat)
    (hg : g.HasLengths) (hne : source ≠ target)
    (hok : (g.route limits source target).status = .ok) :
    let d := (g.route limits source target).distance
    d ≤ limits.maxDistance ∧
    (∃ least, g.IsDistance source target least ∧ least ≤ d) ∧
    ∃ u, ∃ e ∈ g.edges, ∃ near, e.Joins u target ∧ g.IsDistance source u near ∧
      d = near + e.length ∧
      (∀ v w, g.IsDistance source v w → ∀ e' ∈ g.edges, e'.Joins v target →
        w + e'.length ≤ limits.maxDistance → near ≤ w) ∧
      ∀ v w, g.Walk source w v → ∀ e' ∈ g.edges, e'.Joins v target →
        g.IsDistance source target (w + e'.length) →
        d ≤ w + e.length ∧
        ∀ size : α → ℝ, (∀ a b, a ≤ b → size a ≤ size b) →
          (∀ a b, size (a + b) = size a + size b) →
          size d - size (w + e'.length) ≤ size e.length - size e'.length := by
  intro d
  have hmax : d ≤ limits.maxDistance := distance_le_of_ok hne hok
  obtain ⟨u, e, near, haccept, hd⟩ := exists_mayAccept hg hne hok
  have hwalk : g.Walk source d target := by
    change g.Walk source (g.route limits source target).distance target
    rw [hd]
    exact haccept.walk
  obtain ⟨least, hleast⟩ := exists_isDistance hg hwalk
  refine ⟨hmax, ⟨least, hleast, hleast.least d hwalk⟩, u, e, haccept.edge, near, haccept.joins,
    haccept.distance, hd, fun v w hw => haccept.nearest v w hw.walk, ?_⟩
  intro v w hw e' he' hjoins hshortest
  have hwithin : w + e'.length ≤ limits.maxDistance :=
    Scalar.le_trans (hshortest.least d hwalk) hmax
  have hle : d ≤ w + e.length := by
    change (g.route limits source target).distance ≤ w + e.length
    rw [hd]
    exact haccept.le_exchange hg hw he' hjoins hwithin
  refine ⟨hle, fun size hmono hadd => ?_⟩
  have hsize := hmono d (w + e.length) hle
  rw [hadd] at hsize ⊢
  linarith

end Laws

theorem encard_within_le (g : RoadGraph α) (source : Nat) (m : α) :
    (g.within source m).encard ≤ (g.nodeCount + 1 : Nat) := by
  have hsub : g.within source m ⊆ (insert source (Finset.range g.nodeCount) : Finset Nat) := by
    rintro v ⟨d, hd, -⟩
    rw [Finset.mem_coe, Finset.mem_insert, Finset.mem_range]
    exact hd.walk.end_eq_or_lt
  calc (g.within source m).encard
      ≤ ((insert source (Finset.range g.nodeCount) : Finset Nat) : Set Nat).encard :=
        Set.encard_le_encard hsub
    _ = (insert source (Finset.range g.nodeCount)).card := Set.encard_coe_eq_coe_finsetCard _
    _ ≤ (g.nodeCount + 1 : Nat) := by
        have hcard := Finset.card_insert_le source (Finset.range g.nodeCount)
        rw [Finset.card_range] at hcard
        exact Nat.cast_le.mpr hcard

/-- A road of length ten from the first node to the third, a way of length three between them by
the second, and a road that goes on from the third. -/
def detour : RoadGraph α where
  nodes := #[⟨⟨0, 0⟩, false⟩, ⟨⟨0, 0⟩, false⟩, ⟨⟨0, 0⟩, false⟩, ⟨⟨0, 10⟩, false⟩]
  edges := #[⟨0, 2, 10, default, []⟩, ⟨0, 1, 1, default, []⟩, ⟨1, 2, 2, default, []⟩,
    ⟨2, 3, 10, default, [⟨0, 5⟩]⟩]
  ends := by simp

theorem mem_edges_detour {e : Edge α} : e ∈ (detour : RoadGraph α).edges ↔
    e = ⟨0, 2, 10, default, []⟩ ∨ e = ⟨0, 1, 1, default, []⟩ ∨ e = ⟨1, 2, 2, default, []⟩ ∨
      e = ⟨2, 3, 10, default, [⟨0, 5⟩]⟩ := by
  simp [detour]

theorem hasLengths_detour : (detour : RoadGraph Float).HasLengths := by
  intro e he
  rcases mem_edges_detour.mp he with rfl | rfl | rfl | rfl <;> decide

theorem few_detour (m : α) : ((detour : RoadGraph α).within 0 m).encard < (6 : Nat) :=
  lt_of_le_of_lt (encard_within_le detour 0 m) (Nat.cast_lt.mpr (Nat.lt_succ_self 5))

theorem walk_detour : (detour : RoadGraph α).Walk 0 (0 + 10) 2 :=
  .step (e := ⟨0, 2, 10, default, []⟩) .start (mem_edges_detour.mpr (.inl rfl)) (.inl ⟨rfl, rfl⟩)

/-- Along the detour the search finds the third node within fourteen. -/
theorem route_distance_detour :
    (detour : RoadGraph Float).HasLengths ∧
      ((detour : RoadGraph Float).route ⟨6, 14⟩ 0 2).status = .ok ∧
      ((detour : RoadGraph Float).route ⟨6, 14⟩ 0 2).distance ≤ 14 ∧
      ∃ least, (detour : RoadGraph Float).IsDistance 0 2 least ∧
        least ≤ ((detour : RoadGraph Float).route ⟨6, 14⟩ 0 2).distance := by
  obtain ⟨d, hd⟩ := exists_isDistance hasLengths_detour walk_detour
  have hwithin : d ≤ (14 : Float) := Scalar.le_trans (hd.least _ walk_detour) (by decide)
  have hok : ((detour : RoadGraph Float).route ⟨6, 14⟩ 0 2).status = .ok :=
    ok_of_few hasLengths_detour (few_detour 14) hd hwithin
  obtain ⟨hle, hleast, -⟩ := route_distance detour ⟨6, 14⟩ 0 2 hasLengths_detour (by decide) hok
  exact ⟨hasLengths_detour, hok, hle, hleast⟩

end RoadGraph
end RoadAudit
