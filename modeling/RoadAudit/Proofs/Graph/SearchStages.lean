import RoadAudit.Proofs.Graph.Connected
import RoadAudit.Proofs.Graph.FirstAccepted
import RoadAudit.Proofs.Graph.LabelledWalks

/-! # The stages of a search

A search goes from stage to stage: it relaxes an edge at the node that it has settled last, or it
settles its nearest label if no such edge is left. In every stage the labels, the index and the
count fit together, and what is settled stays as it is. That needs no law of the lengths. Along
edges that have lengths, nodes are settled in the order of their distances. -/

namespace RoadAudit

open scoped Scalar

variable {α : Type}

/-- The end of a walk is connected to its source. -/
theorem RoadGraph.Walk.connected [Scalar α] {g : RoadGraph α} {source v : Nat} {w : α}
    (h : g.Walk source w v) : g.Connected source v := by
  induction h with
  | start => exact .refl source
  | step _ he hjoins ih => exact ih.tail ⟨_, he, hjoins⟩

namespace Search

/-! ## Labels, index and count -/

/-- Whether the labels of a search belong to different nodes, the index sends these nodes and no
others to the positions of their labels, and as many labels are settled as are counted. -/
structure Consistent (s : Search α) : Prop where
  nodup : (s.labels.toList.map (·.node)).Nodup
  indexed : s.Indexed
  countP_settled : s.labels.toList.countP (·.settled) = s.settled

section Consistent

variable {s : Search α}

theorem Indexed.nodup (h : s.Indexed) : (s.labels.toList.map (·.node)).Nodup := by
  rw [List.nodup_iff_getElem?_ne_getElem?]
  intro i j hij hj heq
  obtain ⟨v, hv⟩ : ∃ v, (s.labels.toList.map (·.node))[j]? = some v :=
    ⟨_, List.getElem?_eq_getElem hj⟩
  have hindex : ∀ {k : Nat}, (s.labels.toList.map (·.node))[k]? = some v →
      s.index[v]? = some k := by
    intro k hk
    obtain ⟨l, hl, hnode⟩ := Option.map_eq_some_iff.mp ((List.getElem?_map ..).symm.trans hk)
    exact (h v k).mpr ⟨l, by simpa using hl, hnode⟩
  have hsame : i = j := Option.some.inj ((hindex (heq.trans hv)).symm.trans (hindex hv))
  exact absurd hij (hsame ▸ Nat.lt_irrefl j)

theorem Indexed.countP_settled (h : s.Indexed) (hc : s.Counted) :
    s.labels.toList.countP (·.settled) = s.settled := by
  obtain ⟨nodes, hcard, hnodes⟩ := hc
  have hnodup : ((s.labels.toList.filter (·.settled)).map (·.node)).Nodup :=
    h.nodup.sublist (List.filter_sublist.map _)
  have hsame : ((s.labels.toList.filter (·.settled)).map (·.node)).toFinset = nodes := by
    ext v
    rw [List.mem_toFinset, hnodes, List.mem_map]
    constructor
    · rintro ⟨l, hl, rfl⟩
      obtain ⟨hmem, hsettled⟩ := List.mem_filter.mp hl
      obtain ⟨i, hi⟩ := List.mem_iff_getElem?.mp hmem
      exact ⟨l, label?_of_getElem? h (by simpa using hi), hsettled⟩
    · rintro ⟨l, hl, hsettled⟩
      obtain ⟨hnode, i, hi⟩ := (label?_eq_some h).mp hl
      have hmem : l ∈ s.labels.toList := Array.mem_toList_iff.mpr (Array.mem_of_getElem? hi)
      exact ⟨l, List.mem_filter.mpr ⟨hmem, hsettled⟩, hnode⟩
  rw [List.countP_eq_length_filter, ← hcard, ← hsame, List.toFinset_card_of_nodup hnodup,
    List.length_map]

theorem SettledAt.settle (h : s.Indexed) {i : Nat} {l : Label α} (hi : s.labels[i]? = some l)
    (hopen : l.settled = false) {v : Nat} {d : α} (hv : s.SettledAt v d) :
    (s.settle i).SettledAt v d := by
  obtain ⟨m, hm, hsettled, hdistance⟩ := hv
  have hne : v ≠ l.node := by
    rintro rfl
    obtain rfl : l = m := Option.some.inj ((label?_of_getElem? h hi).symm.trans hm)
    rw [hopen] at hsettled
    cases hsettled
  exact ⟨m, by rw [label?_settle h hi, if_neg hne, hm], hsettled, hdistance⟩

end Consistent

/-! ## Stages -/

/-- A search with the edges that are left to be relaxed at a node settled at distance `frontier`. -/
structure Stage (α : Type) where
  frontier : α
  todo : List (EdgeView α)
  search : Search α

namespace Stage

variable [Scalar α]

def start (source : Nat) : Stage α := ⟨0, [], Search.start source⟩

def advance (g : RoadGraph α) (limits : SearchLimits α) (target : Nat) (t : Stage α) :
    Route α ⊕ Stage α :=
  match t.todo with
  | [] =>
    if t.search.settled < limits.maxNodes then
      match t.search.nearest? with
      | none => .inl (limits.exhausted .tooLong)
      | some (i, l) =>
        if limits.maxDistance < l.distance then .inl (limits.exhausted .tooLong)
        else .inr ⟨l.distance, g.edgesOf l.node, t.search.settle i⟩
    else .inl (limits.exhausted .tooManyNodes)
  | e :: rest =>
    let reached := t.frontier + e.edge.length
    match if e.adj = target then t.search.accepted? limits target reached else none with
    | some d => .inl (SearchLimits.found d)
    | none => .inr ⟨t.frontier, rest, t.search.relax e.adj reached⟩

/-- Whether a search that is in one stage comes to another. -/
def Reaches (g : RoadGraph α) (limits : SearchLimits α) (target : Nat) :
    Stage α → Stage α → Prop :=
  Relation.ReflTransGen fun t u => t.advance g limits target = .inr u

variable {g : RoadGraph α} {limits : SearchLimits α} {source target v w : Nat} {d e : α}
  {t u : Stage α}

theorem advance_cases (h : t.advance g limits target = .inr u) :
    (∃ i l, t.todo = [] ∧ t.search.settled < limits.maxNodes ∧
      t.search.nearest? = some (i, l) ∧ ¬ limits.maxDistance < l.distance ∧
      u = ⟨l.distance, g.edgesOf l.node, t.search.settle i⟩) ∨
    ∃ e rest, t.todo = e :: rest ∧
      (e.adj = target → t.search.accepted? limits target (t.frontier + e.edge.length) = none) ∧
      u = ⟨t.frontier, rest, t.search.relax e.adj (t.frontier + e.edge.length)⟩ := by
  unfold advance at h
  split at h
  case h_1 hnone =>
    split at h
    case isTrue hfew =>
      split at h
      case h_1 => cases h
      case h_2 i l hnearest =>
        split at h
        case isTrue => cases h
        case isFalse hwithin =>
          exact .inl ⟨i, l, hnone, hfew, hnearest, hwithin, (Sum.inr.inj h).symm⟩
    case isFalse => cases h
  case h_2 e rest htodo =>
    dsimp only at h
    split at h
    case h_1 => cases h
    case h_2 hmiss =>
      refine .inr ⟨e, rest, htodo, fun htarget => ?_, (Sum.inr.inj h).symm⟩
      rwa [if_pos htarget] at hmiss

/-! ## What every stage keeps -/

/-- Whether the labels of a stage, and the edges left to be relaxed, stand for walks, and the
settled nodes are counted and no more than the limit allows. -/
structure Sound (g : RoadGraph α) (limits : SearchLimits α) (source : Nat) (t : Stage α) :
    Prop where
  walks : t.search.Walks g source
  counted : t.search.Counted
  settled_le : t.search.settled ≤ limits.maxNodes
  walk_todo : ∀ e ∈ t.todo, g.Walk source (t.frontier + e.edge.length) e.adj

theorem sound_start (g : RoadGraph α) (limits : SearchLimits α) (source : Nat) :
    (start source).Sound g limits source :=
  ⟨walks_start g source, counted_start source, Nat.zero_le _, nofun⟩

theorem Sound.consistent (h : t.Sound g limits source) : t.search.Consistent :=
  ⟨h.walks.indexed.nodup, h.walks.indexed, h.walks.indexed.countP_settled h.counted⟩

theorem Sound.settled_le_encard (h : t.Sound g limits source) :
    (t.search.settled : ℕ∞) ≤ {v | g.Connected source v}.encard := by
  obtain ⟨nodes, hcard, hnodes⟩ := h.counted
  rw [← hcard, ← Set.encard_coe_eq_coe_finsetCard]
  refine Set.encard_le_encard fun v hv => ?_
  obtain ⟨l, hl, -⟩ := (hnodes v).mp hv
  exact (h.walks.walk v l hl).connected

section Order

variable [Scalar.LawfulOrder α]

theorem Sound.advance (h : t.Sound g limits source) (hstep : t.advance g limits target = .inr u) :
    u.Sound g limits source := by
  rcases advance_cases hstep with ⟨i, l, -, hfew, hnearest, -, rfl⟩ | ⟨e, rest, htodo, -, rfl⟩
  · obtain ⟨hi, hopen, -⟩ := of_nearest?_some h.walks.indexed hnearest
    have hwalk := h.walks.walk l.node l (label?_of_getElem? h.walks.indexed hi)
    exact ⟨h.walks.settle hi, h.counted.settle h.walks.indexed hi hopen, hfew,
      fun e he => hwalk.along he⟩
  · obtain ⟨he, hrest⟩ := List.forall_mem_cons.mp (htodo ▸ h.walk_todo)
    exact ⟨h.walks.relax he, h.counted.relax h.walks.indexed _ _,
      (settled_relax ..).le.trans h.settled_le, hrest⟩

theorem Sound.reaches (h : t.Sound g limits source) (hreach : Reaches g limits target t u) :
    u.Sound g limits source := by
  induction hreach with
  | refl => exact h
  | tail _ hstep ih => exact ih.advance hstep

theorem Sound.settledAt_advance (h : t.Sound g limits source)
    (hstep : t.advance g limits target = .inr u) (hv : t.search.SettledAt v d) :
    u.search.SettledAt v d := by
  rcases advance_cases hstep with ⟨i, l, -, -, hnearest, -, rfl⟩ | ⟨e, rest, -, -, rfl⟩
  · obtain ⟨hi, hopen, -⟩ := of_nearest?_some h.walks.indexed hnearest
    exact hv.settle h.walks.indexed hi hopen
  · exact hv.relax h.walks.indexed _ _

theorem Sound.settledAt_reaches (h : t.Sound g limits source)
    (hreach : Reaches g limits target t u) (hv : t.search.SettledAt v d) :
    u.search.SettledAt v d := by
  induction hreach with
  | refl => exact hv
  | tail hreach hstep ih => exact (h.reaches hreach).settledAt_advance hstep ih

end Order

/-! ## The order in which nodes are settled -/

/-- Whether a stage keeps the invariant of a search, with the edges left to be relaxed at one node
on the frontier. -/
structure Ordered (g : RoadGraph α) (source : Nat) (t : Stage α) : Prop where
  invariant : Invariant g source t.frontier t.todo t.search
  at_frontier : t.todo = [] ∨
    ∃ n, t.search.SettledAt n t.frontier ∧ ∀ e ∈ t.todo, e ∈ g.edgesOf n

section Lengths

variable [Scalar.LawfulLength α]

theorem ordered_start (g : RoadGraph α) (source : Nat) : (start source).Ordered g source :=
  ⟨invariant_start g source, .inl rfl⟩

theorem Ordered.advance (hg : g.HasLengths) (h : t.Ordered g source)
    (hstep : t.advance g limits target = .inr u) : u.Ordered g source := by
  obtain ⟨hinv, hfrontier⟩ := h
  rcases advance_cases hstep with ⟨i, l, hnone, -, hnearest, -, rfl⟩ | ⟨e, rest, htodo, -, rfl⟩
  · rw [hnone] at hinv
    exact ⟨hinv.settle hg hnearest, .inr ⟨l.node, hinv.settledAt hnearest, fun _ he => he⟩⟩
  · rw [htodo] at hinv hfrontier
    obtain ⟨n, hn, hedges⟩ := hfrontier.resolve_left (List.cons_ne_nil e rest)
    obtain ⟨he, hrest⟩ := List.forall_mem_cons.mp hedges
    exact ⟨hinv.relax hg hn he, .inr ⟨n, hn.relax hinv.indexed _ _, hrest⟩⟩

theorem Ordered.reaches (hg : g.HasLengths) (h : t.Ordered g source)
    (hreach : Reaches g limits target t u) : u.Ordered g source := by
  induction hreach with
  | refl => exact h
  | tail _ hstep ih => exact ih.advance hg hstep

/-- A node is settled at its distance, also while edges are left to be relaxed. -/
theorem Ordered.isDistance (hg : g.HasLengths) (h : t.Ordered g source)
    (hv : t.search.SettledAt v d) : g.IsDistance source v d := by
  obtain ⟨hinv, hfrontier⟩ := h
  obtain ⟨l, hl, hsettled, rfl⟩ := hv
  rcases hfrontier with hnone | ⟨n, hn, hedges⟩
  · rw [hnone] at hinv
    exact hinv.isDistance hg hl hsettled
  · -- a walk that does not end at a settled label has crossed the frontier
    refine ⟨hinv.walk v l hl, fun w hwalk => ?_⟩
    rcases hinv.settled_or_le hg hn hedges hwalk with ⟨m, hm, -, hle⟩ | hle
    · obtain rfl : l = m := Option.some.inj (hl.symm.trans hm)
      exact hle
    · exact Scalar.le_trans (hinv.settled_le v l hl hsettled) hle

theorem Ordered.le_advance (h : t.Ordered g source)
    (hstep : t.advance g limits target = .inr u) (hw : u.search.SettledAt w e) :
    t.search.SettledAt w e ∨ ∀ v d, t.search.SettledAt v d → d ≤ e := by
  obtain ⟨hinv, -⟩ := h
  obtain ⟨m, hm, hsettled, rfl⟩ := hw
  rcases advance_cases hstep with ⟨i, l, -, -, hnearest, -, rfl⟩ | ⟨e, rest, -, -, rfl⟩
  · obtain ⟨hi, hopen, -⟩ := of_nearest?_some hinv.indexed hnearest
    rcases of_label?_settle hinv.indexed hi hm with ⟨-, rfl⟩ | ⟨-, hold⟩
    · right
      rintro v d ⟨l', hl', hsettled', rfl⟩
      have hl := label?_of_getElem? hinv.indexed hi
      exact Scalar.le_trans (hinv.settled_le v l' hl' hsettled') (hinv.le_open l.node l hl hopen)
    · exact .inl ⟨m, hold, hsettled, rfl⟩
  · exact .inl ⟨m, (settled_label?_relax hinv.indexed _ _ hsettled).mp hm, hsettled, rfl⟩

theorem Ordered.le_reaches (hg : g.HasLengths) (h : t.Ordered g source)
    (hsound : t.Sound g limits source) (hreach : Reaches g limits target t u)
    (hw : u.search.SettledAt w e) :
    t.search.SettledAt w e ∨ ∀ v d, t.search.SettledAt v d → d ≤ e := by
  induction hreach with
  | refl => exact .inl hw
  | tail hreach hstep ih =>
    rcases (h.reaches hg hreach).le_advance hstep hw with hbefore | hle
    · exact ih hbefore
    · exact .inr fun v d hv => hle v d (hsound.settledAt_reaches hreach hv)

end Lengths

/-! ## The end of a search -/

/-- Whether a search that is in a stage comes to its end with a route. -/
def EndsWith (g : RoadGraph α) (limits : SearchLimits α) (target : Nat) (t : Stage α)
    (r : Route α) : Prop :=
  ∃ u, Reaches g limits target t u ∧ u.advance g limits target = .inl r

theorem EndsWith.head {r : Route α} (hstep : t.advance g limits target = .inr u)
    (h : EndsWith g limits target u r) : EndsWith g limits target t r := by
  obtain ⟨u', hreach, hend⟩ := h
  exact ⟨u', .head hstep hreach, hend⟩

theorem endsWith_or_reaches (g : RoadGraph α) (limits : SearchLimits α) (target : Nat) (d : α)
    (todo : List (EdgeView α)) (s : Search α) :
    (∃ r, relaxAll limits target d todo s = .ended r ∧
      EndsWith g limits target ⟨d, todo, s⟩ r) ∨
    ∃ s', relaxAll limits target d todo s = .running s' ∧ s'.settled = s.settled ∧
      Reaches g limits target ⟨d, todo, s⟩ ⟨d, [], s'⟩ := by
  induction todo generalizing s with
  | nil => exact .inr ⟨s, rfl, rfl, .refl⟩
  | cons e rest ih =>
    rw [relaxAll]
    cases haccept : if e.adj = target then s.accepted? limits target (d + e.edge.length)
      else none with
    | some w =>
      refine .inl ⟨_, rfl, _, .refl, ?_⟩
      simp only [Stage.advance, haccept]
    | none =>
      have hstep : Stage.advance g limits target ⟨d, e :: rest, s⟩ =
          .inr ⟨d, rest, s.relax e.adj (d + e.edge.length)⟩ := by
        simp only [Stage.advance, haccept]
      rcases ih (s.relax e.adj (d + e.edge.length)) with
        ⟨r, hrun, hend⟩ | ⟨s', hrun, hcount, hreach⟩
      · exact .inl ⟨r, hrun, hend.head hstep⟩
      · exact .inr ⟨s', hrun, hcount.trans (settled_relax ..), .head hstep hreach⟩

theorem endsWith_run (g : RoadGraph α) (limits : SearchLimits α) (target budget : Nat) (d : α)
    (s : Search α) (hbudget : s.settled + budget = limits.maxNodes) :
    EndsWith g limits target ⟨d, [], s⟩ (run g limits target budget s) := by
  induction budget generalizing d s with
  | zero =>
    have hall : ¬ s.settled < limits.maxNodes := by omega
    exact ⟨_, .refl, by simp only [Stage.advance, if_neg hall, run]⟩
  | succ budget ih =>
    have hfew : s.settled < limits.maxNodes := by omega
    rw [run, step]
    cases hnearest : s.nearest? with
    | none => exact ⟨_, .refl, by simp only [Stage.advance, if_pos hfew, hnearest]⟩
    | some p =>
      obtain ⟨i, l⟩ := p
      by_cases hbeyond : limits.maxDistance < l.distance
      · refine ⟨_, .refl, ?_⟩
        simp only [Stage.advance, if_pos hfew, hnearest, if_pos hbeyond]
      · have hstep : Stage.advance g limits target ⟨d, [], s⟩ =
            .inr ⟨l.distance, g.edgesOf l.node, s.settle i⟩ := by
          simp only [Stage.advance, if_pos hfew, hnearest, if_neg hbeyond]
        simp only [if_neg hbeyond]
        rcases endsWith_or_reaches g limits target l.distance (g.edgesOf l.node) (s.settle i) with
          ⟨r, hrun, hend⟩ | ⟨s', hrun, hcount, hreach⟩
        · rw [hrun]
          exact hend.head hstep
        · -- the label that has been settled is taken off the budget
          rw [hrun]
          have hbudget' : s'.settled + budget = limits.maxNodes := by
            rw [hcount]
            change s.settled + 1 + budget = limits.maxNodes
            omega
          obtain ⟨u, hrest, hend⟩ := ih l.distance s' hbudget'
          exact ⟨u, .head hstep (hreach.trans hrest), hend⟩

/-- In every stage that a search comes to, the labels, the index and the count fit together, and no
more nodes are settled than may be or than are connected to the source. What is settled stays so at
its distance. Along edges that have lengths this is the distance of the node, and what is settled
later is no nearer. From its start the search comes to its end, with the route that it answers. -/
theorem search_stages [Scalar.LawfulLength α] (g : RoadGraph α) (limits : SearchLimits α)
    (source target : Nat) :
    (∀ t, Reaches g limits target (start source) t →
      t.search.Consistent ∧
      (t.search.settled : ℕ∞) ≤ min (limits.maxNodes : ℕ∞) {v | g.Connected source v}.encard ∧
      (∀ u, Reaches g limits target t u →
        ∀ v d, t.search.SettledAt v d → u.search.SettledAt v d) ∧
      (g.HasLengths → (∀ v d, t.search.SettledAt v d → g.IsDistance source v d) ∧
        ∀ u, Reaches g limits target t u → ∀ w e, u.search.SettledAt w e →
          t.search.SettledAt w e ∨ ∀ v d, t.search.SettledAt v d → d ≤ e)) ∧
    (source ≠ target →
      EndsWith g limits target (start source) (g.route limits source target)) := by
  refine ⟨fun t hreach => ?_, fun hne => ?_⟩
  · have hsound : t.Sound g limits source := (sound_start g limits source).reaches hreach
    refine ⟨hsound.consistent, le_min (Nat.cast_le.mpr hsound.settled_le) hsound.settled_le_encard,
      fun u hu v d => hsound.settledAt_reaches hu, fun hg => ?_⟩
    have hordered : t.Ordered g source := (ordered_start g source).reaches hg hreach
    exact ⟨fun v d => hordered.isDistance hg, fun u hu w e => hordered.le_reaches hg hsound hu⟩
  · rw [RoadGraph.route, if_neg hne]
    exact endsWith_run g limits target limits.maxNodes 0 (Search.start source) (Nat.zero_add _)

/-- Three nodes with a loop at the first, two roads from it to the second and one on to the
third. -/
def tangle : RoadGraph Float where
  nodes := #[⟨⟨0, 0⟩, false⟩, ⟨⟨0, 0⟩, false⟩, ⟨⟨0, 0⟩, false⟩]
  edges := #[⟨0, 0, 1, default, []⟩, ⟨0, 1, 5, default, []⟩, ⟨0, 1, 2, default, []⟩,
    ⟨1, 2, 3, default, []⟩]
  ends := by simp

theorem hasLengths_tangle : tangle.HasLengths := by
  intro e he
  have hmem : e = ⟨0, 0, 1, default, []⟩ ∨ e = ⟨0, 1, 5, default, []⟩ ∨
      e = ⟨0, 1, 2, default, []⟩ ∨ e = ⟨1, 2, 3, default, []⟩ := by simpa [tangle] using he
  rcases hmem with rfl | rfl | rfl | rfl <;> decide

/-- In a search for the third node the first one is settled at once, with three edges at it left to
be relaxed. -/
theorem search_stages_tangle :
    tangle.HasLengths ∧ 0 ≠ 2 ∧
    (∃ t, Reaches tangle ⟨6, 14⟩ 2 (start 0) t ∧ t.todo.length = 3 ∧ t.search.Consistent ∧
      t.search.SettledAt 0 0 ∧ tangle.IsDistance 0 0 0) ∧
    EndsWith tangle ⟨6, 14⟩ 2 (start 0) (tangle.route ⟨6, 14⟩ 0 2) := by
  obtain ⟨hstages, hend⟩ := search_stages tangle ⟨6, 14⟩ 0 2
  have hreach : Reaches tangle ⟨6, 14⟩ 2 (start 0)
      ⟨0, tangle.edgesOf 0, (Search.start 0).settle 0⟩ := .single rfl
  obtain ⟨hconsistent, -, -, hlengths⟩ := hstages _ hreach
  have hsettled : ((Search.start 0 : Search Float).settle 0).SettledAt 0 0 := by
    refine ⟨⟨0, 0, true⟩, ?_, rfl, rfl⟩
    rw [label?_settle (indexed_start 0) (i := 0) (l := ⟨0, 0, false⟩) rfl]
    rfl
  exact ⟨hasLengths_tangle, by decide, ⟨_, hreach, rfl, hconsistent, hsettled,
    (hlengths hasLengths_tangle).1 0 0 hsettled⟩, hend (by decide)⟩

end Stage
end Search
end RoadAudit
