import RoadAudit.Osm.Import
import RoadAudit.Proofs.Osm.Legend

/-! # The two readings of an extract

What an import gathers is said here of the objects as a list: the ways announced in the first
reading, the nodes and ways shown in the second, how often roads go through a node, and the last
place of a node. -/

namespace RoadAudit

namespace OsmObject

def node? : OsmObject → Option OsmNode
  | .node n => some n
  | _ => none

def way? : OsmObject → Option OsmWay
  | .way w => some w
  | _ => none

end OsmObject

/-! ## What a collector is shown -/

namespace Collector

variable {σ τ : Type} {c : Collector σ} {view : σ → τ} {part : Collector τ}

def read (c : Collector σ) (held : σ) : OsmObject → σ
  | .node n => c.readNode held n
  | .way w => (c.readWay held w).1
  | .relation => held

theorem HasPart.announceWay (h : HasPart c view part) (held : σ) (w : OsmWay) :
    view (c.announceWay held w) = part.announceWay (view held) w := by
  induction h with
  | self c => rfl
  | first d _ ih => exact ih held.1
  | second c _ ih => exact ih held.2

theorem HasPart.readNode (h : HasPart c view part) (held : σ) (n : OsmNode) :
    view (c.readNode held n) = part.readNode (view held) n := by
  induction h with
  | self c => rfl
  | first d _ ih => exact ih held.1
  | second c _ ih => exact ih held.2

theorem readWay_both_first (c : Collector σ) (d : Collector τ) (held : σ × τ) (w : OsmWay) :
    ((c.both d).readWay held w).1.1 = (c.readWay held.1 w).1 := by
  unfold both
  dsimp only
  split <;> rename_i hread <;> rw [hread]

theorem HasPart.readWay (h : HasPart c view part) (held : σ) (w : OsmWay) :
    view (c.readWay held w).1 = (part.readWay (view held) w).1 ∨
      view (c.readWay held w).1 = view held := by
  induction h with
  | self c => exact .inl rfl
  | @first σ τ υ c view part d _ ih =>
    dsimp only
    rw [readWay_both_first]
    exact ih held.1
  | @second σ τ υ d view part c _ ih =>
    unfold both
    dsimp only
    split
    · exact .inr rfl
    · exact ih held.2

theorem HasPart.foldl_announceWay (h : HasPart c view part) (ways : List OsmWay) (held : σ) :
    view (ways.foldl c.announceWay held) = ways.foldl part.announceWay (view held) := by
  induction ways generalizing held with
  | nil => rfl
  | cons w ways ih => rw [List.foldl_cons, List.foldl_cons, ih, h.announceWay]

theorem HasPart.foldl_readNode (h : HasPart c view part) (nodes : List OsmNode) (held : σ) :
    view (nodes.foldl c.readNode held) = nodes.foldl part.readNode (view held) := by
  induction nodes generalizing held with
  | nil => rfl
  | cons n nodes ih => rw [List.foldl_cons, List.foldl_cons, ih, h.readNode]

theorem Accepts.both {d : Collector τ} {held : σ × τ} {p : Int64 → Prop} (hc : c.Accepts held.1 p)
    (hd : d.Accepts held.2 p) : (c.both d).Accepts held p := by
  intro ids next id h hid
  obtain ⟨hfirst, hsecond⟩ := recordAll_both h
  obtain ⟨first, hfirst⟩ := hc ids next.1 id hfirst hid
  obtain ⟨second, hsecond⟩ := hd ids next.2 id hsecond hid
  exact ⟨(first, second), bind_eq_ok_iff.mpr ⟨first, hfirst, bind_eq_ok_iff.mpr
    ⟨second, hsecond, rfl⟩⟩⟩

end Collector

namespace Import

def nodesOf (objects : List OsmObject) : List OsmNode := objects.filterMap OsmObject.node?

def waysOf (objects : List OsmObject) : List OsmWay := objects.filterMap OsmObject.way?

theorem mem_nodesOf {objects : List OsmObject} {n : OsmNode} :
    n ∈ nodesOf objects ↔ .node n ∈ objects := by
  rw [nodesOf, List.mem_filterMap]
  constructor
  · rintro ⟨o, ho, hn⟩
    cases o <;> cases hn
    exact ho
  · exact fun h => ⟨_, h, rfl⟩

/-- Whether no node comes after a way. -/
def NodesFirst (objects : List OsmObject) : Prop :=
  objects.Pairwise fun o p => o.way?.isSome = true → p.node? = none

instance (objects : List OsmObject) : Decidable (NodesFirst objects) :=
  inferInstanceAs (Decidable (List.Pairwise _ _))

end Import

namespace Collector

open Import

variable {σ : Type} {c : Collector σ}

/-- What a collector holds after both readings of some objects. -/
def readTwice (c : Collector σ) (held : σ) (objects : List OsmObject) : σ :=
  objects.foldl c.read ((waysOf objects).foldl c.announceWay held)

theorem foldl_read_of_nodesFirst (c : Collector σ) {objects : List OsmObject}
    (h : NodesFirst objects) (held : σ) :
    objects.foldl c.read held =
      (waysOf objects).foldl (fun held w => (c.readWay held w).1)
        ((nodesOf objects).foldl c.readNode held) := by
  induction objects generalizing held with
  | nil => rfl
  | cons o objects ih =>
    obtain ⟨hfirst, hrest⟩ := List.pairwise_cons.mp h
    rw [List.foldl_cons, ih hrest]
    cases o with
    | node n => rfl
    | way w =>
      have hnone : nodesOf objects = [] :=
        List.filterMap_eq_nil_iff.mpr fun p hp => hfirst p hp rfl
      have hcons : nodesOf (.way w :: objects) = nodesOf objects := rfl
      rw [hcons, hnone]
      rfl
    | relation => rfl

end Collector

namespace Import

/-! ## Uses and places -/

def roadsOf (objects : List OsmObject) : List RoadWay :=
  (waysOf objects).filterMap RoadWay.ofWay?

def freeRoads (free : OsmWay → Bool) (objects : List OsmObject) : List RoadWay :=
  ((waysOf objects).filter free).filterMap RoadWay.ofWay?

def usesOf (objects : List OsmObject) (id : Int64) : Nat :=
  ((roadsOf objects).flatMap RoadWay.nodes).count id

/-- The place of the last node with an id. -/
def lastPlace {α : Type} [Scalar α] (objects : List OsmObject) (id : Int64) : Option (Point α) :=
  ((nodesOf objects).filter fun n => n.id = id).getLast?.map OsmNode.point

theorem nodes_of_ofWay? {w : OsmWay} {road : RoadWay} (h : RoadWay.ofWay? w = some road) :
    road.nodes = w.nodes := by
  unfold RoadWay.ofWay? at h
  dsimp only at h
  split at h
  · cases h
  · cases h
    rfl

theorem getElem?_foldl_countUse (ids : List Int64) (uses : UseCounts) (id : Int64) :
    (ids.foldl countUse uses)[id]? =
      if id ∈ ids then some (uses.getD id 0 + ids.count id) else uses[id]? := by
  induction ids generalizing uses with
  | nil => rfl
  | cons i ids ih =>
    rw [List.foldl_cons, ih, countUse, Std.HashMap.getD_insert, Std.HashMap.getElem?_insert]
    by_cases hi : i = id
    · subst hi
      by_cases hmem : i ∈ ids <;> simp [hmem, List.count_eq_zero_of_not_mem]
      omega
    · have hne : id ≠ i := Ne.symm hi
      simp [hi, hne]

theorem foldl_countWay (ways : List OsmWay) (uses : UseCounts) :
    ways.foldl countWay uses =
      ((ways.filterMap RoadWay.ofWay?).flatMap RoadWay.nodes).foldl countUse uses := by
  induction ways generalizing uses with
  | nil => rfl
  | cons w ways ih =>
    rw [List.foldl_cons, ih, countWay]
    cases hroad : RoadWay.ofWay? w with
    | none => rw [List.filterMap_cons_none hroad, Option.isSome_none, if_neg Bool.false_ne_true]
    | some road =>
      rw [List.filterMap_cons_some hroad, List.flatMap_cons, List.foldl_append,
        nodes_of_ofWay? hroad, Option.isSome_some, if_pos rfl]

theorem foldl_announce {σ : Type} (c : Collector σ) (objects : List OsmObject) (s : σ × UseCounts) :
    objects.foldl (announce c) s =
      ((waysOf objects).foldl c.announceWay s.1, (waysOf objects).foldl countWay s.2) := by
  induction objects generalizing s with
  | nil => rfl
  | cons o objects ih =>
    rw [List.foldl_cons, ih]
    cases o <;> rfl

def counts (objects : List OsmObject) : UseCounts :=
  (waysOf objects).foldl countWay Std.HashMap.emptyWithCapacity

theorem getElem?_counts (objects : List OsmObject) (id : Int64) :
    (counts objects)[id]? =
      if id ∈ (roadsOf objects).flatMap RoadWay.nodes then some (usesOf objects id) else none := by
  rw [counts, foldl_countWay, getElem?_foldl_countUse, Std.HashMap.getD_emptyWithCapacity,
    Std.HashMap.getElem?_emptyWithCapacity, Nat.zero_add]
  rfl

theorem getD_counts (objects : List OsmObject) (id : Int64) :
    (counts objects).getD id 0 = usesOf objects id := by
  rw [Std.HashMap.getD_eq_getD_getElem?, getElem?_counts]
  split
  case isTrue => rfl
  case isFalse hmem => exact (List.count_eq_zero_of_not_mem hmem).symm

theorem contains_counts (objects : List OsmObject) (id : Int64) :
    (counts objects).contains id = true ↔ id ∈ (roadsOf objects).flatMap RoadWay.nodes := by
  rw [Std.HashMap.contains_iff_mem, Std.HashMap.mem_iff_isSome_getElem?, getElem?_counts]
  split <;> simp [*]

variable {α : Type} [Scalar α]

theorem nodesOf_snoc (objects : List OsmObject) (o : OsmObject) :
    nodesOf (objects ++ [o]) = nodesOf objects ++ o.node?.toList := by
  rw [nodesOf, List.filterMap_append, nodesOf]
  cases o <;> rfl

theorem waysOf_snoc (objects : List OsmObject) (o : OsmObject) :
    waysOf (objects ++ [o]) = waysOf objects ++ o.way?.toList := by
  rw [waysOf, List.filterMap_append, waysOf]
  cases o <;> rfl

theorem lastPlace_node (objects : List OsmObject) (n : OsmNode) (id : Int64) :
    (lastPlace (objects ++ [.node n]) id : Option (Point α)) =
      if n.id = id then some n.point else lastPlace objects id := by
  rw [lastPlace, nodesOf_snoc, OsmObject.node?, Option.toList_some, List.filter_append,
    List.getLast?_append, lastPlace]
  by_cases hid : n.id = id <;> simp [hid]

theorem lastPlace_other (objects : List OsmObject) {o : OsmObject} (h : o.node? = none)
    (id : Int64) : (lastPlace (objects ++ [o]) id : Option (Point α)) = lastPlace objects id := by
  rw [lastPlace, nodesOf_snoc, h, Option.toList_none, List.append_nil, lastPlace]

theorem exists_node_of_lastPlace {objects : List OsmObject} {id : Int64} {p : Point α}
    (h : lastPlace objects id = some p) : ∃ n, .node n ∈ objects ∧ n.id = id ∧ n.point = p := by
  obtain ⟨n, hn, hp⟩ := Option.map_eq_some_iff.mp h
  obtain ⟨hmem, hid⟩ := List.mem_filter.mp (List.mem_of_getLast? hn)
  exact ⟨n, mem_nodesOf.mp hmem, of_decide_eq_true hid, hp⟩

/-! ## What is gathered -/

variable {σ : Type}

def gathered (c : Collector σ) (held : σ) (objects : List OsmObject) : Gathered σ α :=
  objects.foldl (gather c (counts objects))
    ⟨(waysOf objects).foldl c.announceWay held, Std.HashMap.emptyWithCapacity, []⟩

theorem assemble_eq_ofWays (c : Collector σ) (held : σ) (objects : List OsmObject) :
    (assemble c held objects : Except IdTableError (Assembly σ α)) =
      Assembly.ofWays c (usesOf objects) ((gathered c held objects).places[·]?)
        (gathered c held objects : Gathered σ α).held
        (gathered c held objects : Gathered σ α).ways.reverse := by
  unfold assemble
  rw [foldl_announce]
  dsimp only
  rw [← counts, ← gathered, funext (getD_counts objects)]

theorem held_gather (c : Collector σ) (uses : UseCounts) (s : Gathered σ α) (o : OsmObject) :
    (gather c uses s o).held = c.read s.held o := by
  cases o with
  | node n => rfl
  | way w =>
    unfold gather
    dsimp only
    split <;> rename_i hread <;> rw [Collector.read, hread]
  | relation => rfl

theorem held_gathered (c : Collector σ) (held : σ) (objects : List OsmObject) :
    (gathered c held objects : Gathered σ α).held = c.readTwice held objects := by
  have hfold : ∀ s : Gathered σ α,
      (objects.foldl (gather c (counts objects)) s).held = objects.foldl c.read s.held := by
    intro s
    generalize counts objects = uses
    induction objects generalizing s with
    | nil => rfl
    | cons o objects ih => rw [List.foldl_cons, List.foldl_cons, ih, held_gather]
  exact hfold _

theorem places_gather_node (c : Collector σ) (uses : UseCounts) (s : Gathered σ α) (n : OsmNode)
    (id : Int64) : (gather c uses s (.node n)).places[id]? =
      if n.id = id ∧ uses.contains id then some n.point else s.places[id]? := by
  unfold gather
  dsimp only
  by_cases hid : n.id = id
  · subst hid
    cases uses.contains n.id <;> simp
  · split <;> simp [hid, Std.HashMap.getElem?_insert]

theorem places_gather_other (c : Collector σ) (uses : UseCounts) (s : Gathered σ α) {o : OsmObject}
    (h : o.node? = none) : (gather c uses s o).places = s.places := by
  cases o with
  | node n => cases h
  | way w =>
    unfold gather
    dsimp only
    split <;> rfl
  | relation => rfl

/-- The places are the last ones of the nodes that roads go through. -/
theorem places_gathered (c : Collector σ) (held : σ) (objects : List OsmObject) (id : Int64) :
    (gathered c held objects : Gathered σ α).places[id]? =
      if id ∈ (roadsOf objects).flatMap RoadWay.nodes then lastPlace objects id else none := by
  simp only [← contains_counts]
  rw [gathered]
  generalize counts objects = uses
  generalize (waysOf objects).foldl c.announceWay held = told
  induction objects using List.reverseRecOn with
  | nil => simp [lastPlace, nodesOf]
  | append_singleton objects o ih =>
    rw [List.foldl_append, List.foldl_cons, List.foldl_nil]
    cases ho : o.node? with
    | none => rw [places_gather_other c uses _ ho, lastPlace_other objects ho, ih]
    | some n =>
      obtain rfl : o = .node n := by
        cases o <;> cases ho
        rfl
      rw [places_gather_node, lastPlace_node, ih]
      by_cases hid : n.id = id <;> cases uses.contains id <;> simp [hid]

theorem ways_gather_way (c : Collector σ) (uses : UseCounts) (s : Gathered σ α) (w : OsmWay) :
    (gather c uses s (.way w)).ways =
      if (c.readWay s.held w).2 then (RoadWay.ofWay? w).toList ++ s.ways else s.ways := by
  unfold gather
  dsimp only
  split <;> rename_i hread <;> rw [hread] <;> rfl

/-- Where it does not depend on what is held which ways may become roads, the ways are the roads
among these. -/
theorem ways_gathered (c : Collector σ) (held : σ) (objects : List OsmObject) {free : OsmWay → Bool}
    (hfree : ∀ held w, (c.readWay held w).2 = free w) :
    (gathered c held objects : Gathered σ α).ways.reverse = freeRoads free objects := by
  rw [gathered, freeRoads]
  generalize counts objects = uses
  generalize (waysOf objects).foldl c.announceWay held = told
  induction objects using List.reverseRecOn with
  | nil => rfl
  | append_singleton objects o ih =>
    rw [List.foldl_append, List.foldl_cons, List.foldl_nil, waysOf_snoc, List.filter_append,
      List.filterMap_append, ← ih]
    cases o with
    | node n => simp [gather, OsmObject.way?]
    | way w =>
      rw [ways_gather_way, hfree]
      cases hw : free w <;> cases hroad : RoadWay.ofWay? w <;> simp [OsmObject.way?, hw, hroad]
    | relation => simp [gather, OsmObject.way?]

/-! ## What is assembled -/

theorem ofWays_congr {c : Collector σ} {uses : Int64 → Nat}
    {place? place?' : Int64 → Option (Point α)} {held : σ} {ways : List RoadWay}
    (h : ∀ w ∈ ways, ∀ id ∈ w.nodes, place? id = place?' id) :
    Assembly.ofWays c uses place? held ways = Assembly.ofWays c uses place?' held ways := by
  rw [Assembly.ofWays_eq, Assembly.ofWays_eq, Piece.ofWays, Piece.ofWays]
  congr 1
  refine List.flatMap_congr fun w hw => ?_
  have hstops : w.stops place? = w.stops place?' :=
    List.filterMap_congr fun id hid => by rw [h w hw id hid]
  rw [RoadWay.sections, RoadWay.sections, hstops]

theorem assemble_eq (c : Collector σ) (held : σ) (objects : List OsmObject) {free : OsmWay → Bool}
    (hfree : ∀ held w, (c.readWay held w).2 = free w) :
    (assemble c held objects : Except IdTableError (Assembly σ α)) =
      Assembly.ofWays c (usesOf objects) (lastPlace objects) (c.readTwice held objects)
        (freeRoads free objects) := by
  rw [assemble_eq_ofWays, held_gathered, ways_gathered c held objects hfree]
  refine ofWays_congr fun w hw id hid => ?_
  obtain ⟨way, hway, hroad⟩ := List.mem_filterMap.mp hw
  have hmem : id ∈ (roadsOf objects).flatMap RoadWay.nodes :=
    List.mem_flatMap.mpr ⟨w, List.mem_filterMap.mpr ⟨way, (List.mem_filter.mp hway).1, hroad⟩, hid⟩
  rw [places_gathered, if_pos hmem]

/-- An import gives the graph that is assembled, if that has an edge. -/
theorem run_eq_ok_iff {c : Collector σ} {held : σ} {objects : List OsmObject} {a : Assembly σ α} :
    run c held (.objects objects) = .ok a ↔
      assemble c held objects = .ok a ∧ a.graph.edgeCount ≠ 0 := by
  rw [run]
  cases (assemble c held objects : Except IdTableError (Assembly σ α)) with
  | error e => simp
  | ok b =>
    rw [Except.ok.injEq]
    by_cases hedges : b.graph.edgeCount = 0
    · simp only [hedges, if_true]
      constructor
      · intro h
        cases h
      · rintro ⟨rfl, hne⟩
        exact absurd hedges hne
    · simp only [hedges, if_false, Except.ok.injEq]
      constructor
      · rintro rfl
        exact ⟨rfl, hedges⟩
      · exact fun h => h.1

/-- What an import gives is what the pieces of the roads that are not kept from it come to. -/
theorem assembled_of_run {c : Collector σ} {held : σ} {objects : List OsmObject}
    {free : OsmWay → Bool} {a : Assembly σ α} (hfree : ∀ held w, (c.readWay held w).2 = free w)
    (h : run c held (.objects objects) = .ok a) :
    Assembly.Assembled c (lastPlace objects) (c.readTwice held objects)
      (Piece.ofWays (fun id => 1 < usesOf objects id) (lastPlace objects) (freeRoads free objects))
      a := by
  have hassemble := (run_eq_ok_iff.mp h).1
  rw [assemble_eq c held objects hfree] at hassemble
  exact Assembly.assembled_ofWays hassemble

/-- Every node of an imported graph is at the last place of the map node that it stands for, and the
collector has been told of all of them in order. -/
theorem exists_numbering {c : Collector σ} {held : σ} {objects : List OsmObject} {a : Assembly σ α}
    (h : run c held (.objects objects) = .ok a) :
    ∃ ids : List Int64, ids.length = a.graph.nodeCount ∧
      (∀ (i : Nat) id, a.nodeOf[id]? = some i ↔ ids[i]? = some id) ∧
      (∀ (i : Nat) id, ids[i]? = some id →
        ∃ p, lastPlace objects id = some p ∧ a.graph.point? i = some p) ∧
      c.recordAll (c.readTwice held objects) ids = .ok a.held := by
  have hassemble := (run_eq_ok_iff.mp h).1
  rw [assemble_eq_ofWays, held_gathered] at hassemble
  have hnumbered := (Assembly.assembled_ofWays hassemble).numbered
  refine ⟨_, hnumbered.nodeCount_eq.symm, fun i id => hnumbered.nodeOf_iff id i, fun i id hid => ?_,
    hnumbered.held_eq⟩
  obtain ⟨p, hp, -⟩ := hnumbered.node hid
  refine ⟨p, ?_, (hnumbered.point?_eq hid).trans hp⟩
  rw [places_gathered] at hp
  exact (Option.ite_none_right_eq_some.mp hp).2

/-- An import succeeds if one of its roads has two places, the ids of the roads have room in the way
table, and the collector accepts their nodes. -/
theorem exists_run {c : Collector σ} {held : σ} {objects : List OsmObject} {free : OsmWay → Bool}
    {accepted : Int64 → Prop} (hfree : ∀ held w, (c.readWay held w).2 = free w)
    (hc : c.Accepts (c.readTwice held objects) accepted)
    (haccepted : ∀ w ∈ freeRoads free objects, ∀ id ∈ w.nodes, accepted id)
    (hids : ∀ w ∈ freeRoads free objects, IdTable.InRange .ways w.id.toUInt64)
    (hplaces : ∃ w ∈ freeRoads free objects,
      2 ≤ (w.stops (lastPlace objects : Int64 → Option (Point α))).length) :
    ∃ a : Assembly σ α, run c held (.objects objects) = .ok a := by
  obtain ⟨a, ha⟩ : ∃ a : Assembly σ α, Assembly.ofWays c (usesOf objects) (lastPlace objects)
      (c.readTwice held objects) (freeRoads free objects) = .ok a :=
    Assembly.exists_ofWays hc haccepted hids
  refine ⟨a, run_eq_ok_iff.mpr ⟨(assemble_eq c held objects hfree).trans ha, ?_⟩⟩
  obtain ⟨w, hw, htwo⟩ := hplaces
  rw [(Assembly.assembled_ofWays ha).edgeCount_eq, ne_eq, List.length_eq_zero_iff, Piece.ofWays,
    List.flatMap_eq_nil_iff, not_forall]
  refine ⟨w, fun hnil => ?_⟩
  have hsections := (w.sections_eq_nil_iff _ _).mp (List.map_eq_nil_iff.mp (hnil hw))
  omega

end Import
end RoadAudit
