import Mathlib.Data.List.Flatten
import Mathlib.Data.List.Nodup
import RoadAudit.Proofs.Osm.Assembled

/-! # Towers

The map nodes of the roads are divided in two: a tower becomes a node of the graph, the others lie
between two nodes. A way begins and ends with a tower, and what ways use more than once is one. -/

namespace RoadAudit

namespace RoadWay

variable {α : Type} (place? : Int64 → Option (Point α)) (w : RoadWay)

def roadIds : List Int64 :=
  if 2 ≤ (w.stops place?).length then (w.stops place?).map Stop.osmId else []

theorem roadIds_sublist : (w.roadIds place?).Sublist w.nodes := by
  unfold roadIds
  split
  · have hstops : (w.stops place?).map Stop.osmId = w.nodes.filter fun id => (place? id).isSome := by
      unfold stops
      induction w.nodes with
      | nil => rfl
      | cons id ids ih => cases hp : place? id <;> simp [hp, ih]
    exact hstops ▸ List.filter_sublist
  · exact List.nil_sublist w.nodes

end RoadWay

namespace Section

variable {α : Type}

def innerIds (s : Section α) : List Int64 := s.inner.map Stop.osmId

def headIds (l : List (Section α)) : List Int64 := (l.head?.map (·.first.osmId)).toList

/-- The map ids of the stops at which some sections begin and end; where one follows on from
another, their common stop counts once. -/
def endIds (l : List (Section α)) : List Int64 := headIds l ++ l.map (·.last.osmId)

theorem eraseDups_visits {l : List (Section α)} (h : l.IsChain fun s t => t.first = s.last)
    (ids : List Int64) :
    (ids ++ l.flatMap fun s => [s.first.osmId, s.last.osmId]).eraseDups =
      (ids ++ endIds l).eraseDups := by
  -- after the first section, each begins with an id that has been visited
  have hfollow : ∀ (l : List (Section α)) (ids : List Int64),
      (∀ id ∈ headIds l, id ∈ ids) → (l.IsChain fun s t => t.first = s.last) →
      (ids ++ l.flatMap fun s => [s.first.osmId, s.last.osmId]).eraseDups =
        (ids ++ l.map (·.last.osmId)).eraseDups := by
    intro l
    induction l with
    | nil => exact fun ids _ _ => rfl
    | cons s l ih =>
      intro ids hfirst hchain
      rw [List.isChain_cons] at hchain
      have hvisited : s.first.osmId ∈ ids := hfirst _ (by simp [headIds])
      have hnext : ∀ id ∈ headIds l, id ∈ ids ++ [s.last.osmId] := by
        intro id hid
        simp only [headIds, Option.mem_toList, Option.map_eq_some_iff] at hid
        obtain ⟨t, ht, rfl⟩ := hid
        simp [hchain.1 t ht]
      rw [List.flatMap_cons, List.cons_append, eraseDups_append_of_mem hvisited, List.map_cons]
      simpa using ih (ids ++ [s.last.osmId]) hnext hchain.2
  cases l with
  | nil => rfl
  | cons s l =>
    have hsame := hfollow (s :: l) (ids ++ [s.first.osmId]) (by simp [headIds]) h
    rw [List.flatMap_cons, List.cons_append, eraseDups_append_of_mem (by simp)] at hsame
    simpa [endIds, headIds] using hsame

theorem perm_endIds (l : List (Section α)) :
    List.Perm (endIds l ++ l.flatMap innerIds)
      (headIds l ++ l.flatMap fun s => s.innerIds ++ [s.last.osmId]) := by
  rw [endIds, List.append_assoc]
  refine List.Perm.append_left _ (List.perm_append_comm.trans ?_)
  rw [List.map_eq_flatMap]
  exact List.flatMap_append_perm l _ _

/-- Of the stops of some sections in order, those at which they begin and end are left when the
inner ones are taken away. -/
theorem filter_eq_endIds {l : List (Section α)} {p : Int64 → Bool}
    (hends : ∀ id ∈ endIds l, p id = true) (hinner : ∀ id ∈ l.flatMap innerIds, p id = false) :
    (headIds l ++ l.flatMap fun s => s.innerIds ++ [s.last.osmId]).filter p = endIds l := by
  have hhead : (headIds l).filter p = headIds l :=
    List.filter_eq_self.mpr fun id hid => hends id (List.mem_append_left _ hid)
  have hlast : ∀ s ∈ l, (s.innerIds ++ [s.last.osmId]).filter p = [s.last.osmId] := by
    intro s hs
    have hnone : s.innerIds.filter p = [] := by
      rw [List.filter_eq_nil_iff]
      intro id hid
      rw [hinner id (List.mem_flatMap.mpr ⟨s, hs, hid⟩)]
      exact Bool.false_ne_true
    have hkeep : p s.last.osmId = true :=
      hends _ (List.mem_append_right _ (List.mem_map.mpr ⟨s, hs, rfl⟩))
    simp [List.filter_append, hnone, hkeep]
  rw [List.filter_append, hhead, List.filter_flatMap, endIds, List.map_eq_flatMap]
  congr 1
  exact List.flatMap_congr hlast

end Section

namespace RoadWay

variable {α : Type} (cuts : Int64 → Bool) (place? : Int64 → Option (Point α)) (w : RoadWay)

theorem roadIds_eq : w.roadIds place? = Section.headIds (w.sections cuts place?) ++
    (w.sections cuts place?).flatMap fun s => s.innerIds ++ [s.last.osmId] := by
  by_cases hlength : 2 ≤ (w.stops place?).length
  · rw [roadIds, if_pos hlength, sections]
    cases hstops : w.stops place? with
    | nil => simp [hstops] at hlength
    | cons start rest =>
      have hrest : rest ≠ [] := by
        rintro rfl
        simp [hstops] at hlength
      have hcovers := Section.covers_split cuts start rest
      have hids := congrArg (List.map Stop.osmId) hcovers.stops_eq
      cases hsplit : Section.split cuts start rest with
      | nil => exact absurd hsplit (hcovers.ne_nil hrest)
      | cons s more =>
        rw [hsplit] at hcovers hids
        have hfirst : s.first = start := hcovers.head s rfl
        dsimp only
        rw [hsplit, List.map_cons, ← hids, ← hfirst]
        simp [Section.headIds, Section.innerIds, List.map_flatMap]
  · have hnil := (w.sections_eq_nil_iff cuts place?).mpr (Nat.lt_of_not_le hlength)
    rw [roadIds, if_neg hlength, hnil]
    rfl

theorem joined_sections_ids :
    (joined ((w.sections cuts place?).map Section.stops)).map Stop.osmId = w.roadIds place? := by
  by_cases hlength : 2 ≤ (w.stops place?).length
  · rw [w.joined_sections cuts place? hlength, roadIds, if_pos hlength]
  · have hnil := (w.sections_eq_nil_iff cuts place?).mpr (Nat.lt_of_not_le hlength)
    rw [roadIds, if_neg hlength, hnil]
    rfl

theorem mem_endIds_of_isEnd {id : Int64}
    (h : (w.roadIds place?).head? = some id ∨ (w.roadIds place?).getLast? = some id) :
    id ∈ Section.endIds (w.sections cuts place?) := by
  rw [w.roadIds_eq cuts place?] at h
  rcases List.eq_nil_or_concat (w.sections cuts place?) with hnil | ⟨before, s, hs⟩
  · simp [hnil, Section.headIds] at h
  · rcases h with hhead | hlast
    · refine List.mem_append_left _ ?_
      cases hsections : w.sections cuts place? with
      | nil => simp [hsections] at hs
      | cons t more =>
        rw [hsections] at hhead
        simpa [Section.headIds, eq_comm] using hhead
    · rw [hs] at hlast ⊢
      have hid : s.last.osmId = id := by simpa using hlast
      simp [Section.endIds, hid]

theorem cuts_or_isEnd_of_mem_endIds {id : Int64}
    (h : id ∈ Section.endIds (w.sections cuts place?)) :
    cuts id = true ∨ (w.roadIds place?).head? = some id ∨
      (w.roadIds place?).getLast? = some id := by
  rcases List.mem_append.mp h with hhead | hlast
  · simp only [Section.headIds, Option.mem_toList, Option.map_eq_some_iff] at hhead
    obtain ⟨s, hs, rfl⟩ := hhead
    rw [w.roadIds_eq cuts place?, Section.headIds, hs]
    exact .inr (.inl rfl)
  · obtain ⟨s, hs, rfl⟩ := List.mem_map.mp hlast
    refine (w.cuts_or_last_of_mem cuts place? hs).imp_right fun hlast => .inr ?_
    have hlength : 2 ≤ (w.stops place?).length := by
      rw [← Nat.not_lt, ← w.sections_eq_nil_iff cuts place?]
      exact List.ne_nil_of_mem hs
    rw [roadIds, if_pos hlength, List.getLast?_map, Option.mem_def.mp hlast]
    rfl

end RoadWay

/-! ## All roads together -/

section Roads

variable {α : Type} (place? : Int64 → Option (Point α)) (ways : List RoadWay)

/-- The map ids that the roads go through, in order, each as often as they do. -/
def occurrences : List Int64 := ways.flatMap (RoadWay.roadIds place?)

/-- Whether a road begins or ends at a map node. -/
def IsEnd (id : Int64) : Prop :=
  ∃ w ∈ ways, (w.roadIds place?).head? = some id ∨ (w.roadIds place?).getLast? = some id

/-- Whether a map node of the roads is to become a node of the graph. -/
def IsTower (uses : Int64 → Nat) (id : Int64) : Prop := IsEnd place? ways id ∨ 1 < uses id

instance (id : Int64) : Decidable (IsEnd place? ways id) :=
  inferInstanceAs (Decidable (∃ w ∈ ways, _))

instance (uses : Int64 → Nat) (id : Int64) : Decidable (IsTower place? ways uses id) :=
  inferInstanceAs (Decidable (_ ∨ _))

variable (cuts : Int64 → Bool)

def towerIds : List Int64 := ways.flatMap fun w => Section.endIds (w.sections cuts place?)

def pillarIds : List (List Int64) := (Piece.ofWays cuts place? ways).map fun p => p.2.innerIds

theorem flatten_pillarIds : (pillarIds place? ways cuts).flatten =
    ways.flatMap fun w => (w.sections cuts place?).flatMap Section.innerIds := by
  simp [pillarIds, Piece.ofWays, ← List.flatMap_def, List.flatMap_assoc, List.flatMap_map]

theorem not_cuts_of_mem_pillarIds {id : Int64} (h : id ∈ (pillarIds place? ways cuts).flatten) :
    cuts id = false := by
  rw [flatten_pillarIds] at h
  obtain ⟨w, -, h⟩ := List.mem_flatMap.mp h
  obtain ⟨s, hs, h⟩ := List.mem_flatMap.mp h
  obtain ⟨p, hp, rfl⟩ := List.mem_map.mp h
  exact w.not_cuts_of_mem_inner cuts place? hs hp

theorem perm_occurrences :
    List.Perm (towerIds place? ways cuts ++ (pillarIds place? ways cuts).flatten)
      (occurrences place? ways) := by
  rw [flatten_pillarIds, towerIds]
  refine (List.flatMap_append_perm ways _ _).trans (List.Perm.flatMap_left ways fun w _ => ?_)
  rw [w.roadIds_eq cuts place?]
  exact Section.perm_endIds _

theorem count_add_count (id : Int64) :
    (towerIds place? ways cuts).count id + (pillarIds place? ways cuts).flatten.count id ≤
      (ways.flatMap RoadWay.nodes).count id := by
  rw [← List.count_append, (perm_occurrences place? ways cuts).count_eq]
  exact (List.Sublist.flatMap_right ways fun w _ => w.roadIds_sublist place?).count_le id

theorem eraseDups_visits_ofWays :
    (Piece.visits (Piece.ofWays cuts place? ways)).eraseDups =
      (towerIds place? ways cuts).eraseDups := by
  -- the induction is on the ways, behind what the ways before them have visited
  have hgrow : ∀ ids : List Int64,
      (ids ++ Piece.visits (Piece.ofWays cuts place? ways)).eraseDups =
        (ids ++ towerIds place? ways cuts).eraseDups := by
    induction ways with
    | nil => exact fun ids => rfl
    | cons w ways ih =>
      intro ids
      have hvisits : Piece.visits (Piece.ofWays cuts place? (w :: ways)) =
          ((w.sections cuts place?).flatMap fun s => [s.first.osmId, s.last.osmId]) ++
            Piece.visits (Piece.ofWays cuts place? ways) := by
        simp [Piece.visits, Piece.ofWays, List.flatMap_map]
      have hw := Section.eraseDups_visits (w.chain_sections cuts place?) ids
      rw [hvisits, ← List.append_assoc, eraseDups_append_congr hw, ih, List.append_assoc]
      rfl
  exact hgrow []

theorem mem_towerIds_of_isEnd {id : Int64} (h : IsEnd place? ways id) :
    id ∈ towerIds place? ways cuts := by
  obtain ⟨w, hw, h⟩ := h
  exact List.mem_flatMap.mpr ⟨w, hw, w.mem_endIds_of_isEnd cuts place? h⟩

end Roads

section Shared

variable {α : Type} {place? : Int64 → Option (Point α)} {ways : List RoadWay} {uses : Int64 → Nat}

theorem isTower_of_mem_towerIds {id : Int64}
    (h : id ∈ towerIds place? ways fun id => 1 < uses id) : IsTower place? ways uses id := by
  obtain ⟨w, hw, h⟩ := List.mem_flatMap.mp h
  rcases w.cuts_or_isEnd_of_mem_endIds _ place? h with hcuts | hend
  · exact .inr (of_decide_eq_true hcuts)
  · exact .inl ⟨w, hw, hend⟩

theorem mem_towerIds_iff {id : Int64} : id ∈ towerIds place? ways (fun id => 1 < uses id) ↔
    id ∈ occurrences place? ways ∧ IsTower place? ways uses id := by
  have hmem := (perm_occurrences place? ways fun id => 1 < uses id).mem_iff (a := id)
  rw [List.mem_append] at hmem
  constructor
  · exact fun h => ⟨hmem.mp (.inl h), isTower_of_mem_towerIds h⟩
  · rintro ⟨hid, hend | hused⟩
    · exact mem_towerIds_of_isEnd place? ways _ hend
    · refine (hmem.mpr hid).resolve_right fun hpillar => ?_
      exact absurd hused (of_decide_eq_false (not_cuts_of_mem_pillarIds place? ways _ hpillar))

/-- The ends of the pieces of some ways are the map nodes that become nodes. -/
theorem mem_visits_ofWays_iff {id : Int64} :
    id ∈ Piece.visits (Piece.ofWays (fun id => 1 < uses id) place? ways) ↔
      id ∈ occurrences place? ways ∧ IsTower place? ways uses id := by
  rw [← List.mem_eraseDups, eraseDups_visits_ofWays, List.mem_eraseDups, mem_towerIds_iff]

/-- Uses that count what ways share: up to two, no less than the ways go through a node. -/
def CountsShared (uses : Int64 → Nat) (ways : List RoadWay) : Prop :=
  ∀ id, min 2 ((ways.flatMap RoadWay.nodes).count id) ≤ uses id

variable (huses : CountsShared uses ways)
include huses

theorem count_add_count_le_one {id : Int64}
    (h : id ∈ (pillarIds place? ways fun id => 1 < uses id).flatten) :
    (towerIds place? ways fun id => 1 < uses id).count id +
      (pillarIds place? ways fun id => 1 < uses id).flatten.count id ≤ 1 := by
  have hcuts : ¬ 1 < uses id := of_decide_eq_false (not_cuts_of_mem_pillarIds place? ways _ h)
  have hcount := count_add_count place? ways (fun id => 1 < uses id) id
  have hshared := huses id
  omega

theorem not_mem_towerIds {id : Int64}
    (h : id ∈ (pillarIds place? ways fun id => 1 < uses id).flatten) :
    id ∉ towerIds place? ways fun id => 1 < uses id := fun htower => by
  have hle := count_add_count_le_one huses h
  have hpillar := List.count_pos_iff.mpr h
  have htower := List.count_pos_iff.mpr htower
  omega

theorem nodup_pillarIds : (pillarIds place? ways fun id => 1 < uses id).flatten.Nodup := by
  rw [List.nodup_iff_count_le_one]
  intro id
  by_cases h : id ∈ (pillarIds place? ways fun id => 1 < uses id).flatten
  · exact (Nat.le_add_left _ _).trans (count_add_count_le_one huses h)
  · exact (List.count_eq_zero.mpr h).le.trans (Nat.zero_le 1)

theorem not_isTower {id : Int64}
    (h : id ∈ (pillarIds place? ways fun id => 1 < uses id).flatten) :
    ¬ IsTower place? ways uses id := by
  rintro (hend | hused)
  · exact not_mem_towerIds huses h (mem_towerIds_of_isEnd place? ways _ hend)
  · exact absurd hused (of_decide_eq_false (not_cuts_of_mem_pillarIds place? ways _ h))

/-- The towers are the occurrences of what is to become a node. -/
theorem towerIds_eq : towerIds place? ways (fun id => 1 < uses id) =
    (occurrences place? ways).filter fun id => IsTower place? ways uses id := by
  rw [occurrences, List.filter_flatMap, towerIds]
  refine List.flatMap_congr fun w hw => ?_
  rw [w.roadIds_eq (fun id => 1 < uses id) place?]
  refine (Section.filter_eq_endIds (fun id hid => ?_) fun id hid => ?_).symm
  · exact decide_eq_true (isTower_of_mem_towerIds (List.mem_flatMap.mpr ⟨w, hw, hid⟩))
  · refine decide_eq_false (not_isTower huses ?_)
    rw [flatten_pillarIds]
    exact List.mem_flatMap.mpr ⟨w, hw, hid⟩

end Shared

end RoadAudit
