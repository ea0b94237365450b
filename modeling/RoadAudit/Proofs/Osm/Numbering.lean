import RoadAudit.Osm.Assembly
import RoadAudit.Proofs.Lists

/-! # The nodes of an assembly

An assembly visits stops one after the other. Each map id that is visited for the first time gets
the next node, at the place of its stop, and the collector is told of it; a later visit finds the
node again. -/

namespace RoadAudit

theorem bind_eq_ok_iff {ε β γ : Type} {x : Except ε β} {f : β → Except ε γ} {r : γ} :
    (x >>= f) = .ok r ↔ ∃ b, x = .ok b ∧ f b = .ok r := by
  cases x <;> simp [bind, Except.bind]

theorem bind_eq_error_iff {ε β γ : Type} {x : Except ε β} {f : β → Except ε γ} {e : ε} :
    (x >>= f) = .error e ↔ x = .error e ∨ ∃ b, x = .ok b ∧ f b = .error e := by
  cases x <;> simp [bind, Except.bind]

namespace Collector

variable {σ : Type}

/-- What a collector holds after it has been told of nodes with the given map ids, which are
numbered in order. -/
def recordAll (c : Collector σ) (held : σ) (ids : List Int64) : Except IdTableError σ :=
  ids.zipIdx.foldlM (fun held p => c.recordNode held p.1 p.2) held

theorem recordAll_snoc_eq_ok_iff (c : Collector σ) {held last : σ} {ids : List Int64}
    {id : Int64} : c.recordAll held (ids ++ [id]) = .ok last ↔
      ∃ next, c.recordAll held ids = .ok next ∧ c.recordNode next id ids.length = .ok last := by
  unfold recordAll
  rw [List.zipIdx_append, List.foldlM_append, bind_eq_ok_iff]
  refine exists_congr fun next => and_congr_right fun _ => ?_
  rw [Nat.zero_add]
  change (c.recordNode next id ids.length >>= pure) = .ok last ↔ _
  rw [bind_pure]

/-- Whether a collector takes any of some map ids for the next node, whatever nodes it has been told
of. -/
def Accepts (c : Collector σ) (held : σ) (p : Int64 → Prop) : Prop :=
  ∀ ids next id, c.recordAll held ids = .ok next → p id →
    ∃ told, c.recordNode next id ids.length = .ok told

theorem accepts_idle (held : σ) : idle.Accepts held fun _ => True :=
  fun _ next _ _ _ => ⟨next, rfl⟩

end Collector

namespace Assembly

variable {σ α : Type} {c : Collector σ} {place? : Int64 → Option (Point α)} {held : σ}
  {visits : List Int64} {a : Assembly σ α}

/-- The nodes of an assembly after the visits of some map ids. -/
structure Numbered (c : Collector σ) (place? : Int64 → Option (Point α)) (held : σ)
    (visits : List Int64) (a : Assembly σ α) : Prop where
  nodeOf_iff : ∀ (id : Int64) (n : Nat), a.nodeOf[id]? = some n ↔ visits.eraseDups[n]? = some id
  nodes_eq : a.graph.nodes.toList.map some =
    visits.eraseDups.map fun id => (place? id).map fun p => ⟨p, false⟩
  held_eq : c.recordAll held visits.eraseDups = .ok a.held

theorem numbered_start (c : Collector σ) (place? : Int64 → Option (Point α)) (held : σ) :
    Numbered c place? held [] (start held) where
  nodeOf_iff := by simp [start]
  nodes_eq := rfl
  held_eq := rfl

theorem Numbered.nodeCount_eq (h : Numbered c place? held visits a) :
    a.graph.nodeCount = visits.eraseDups.length := by
  have hlength := congrArg List.length h.nodes_eq
  rwa [List.length_map, List.length_map, Array.length_toList] at hlength

theorem Numbered.mem_iff (h : Numbered c place? held visits a) (id : Int64) :
    id ∈ visits ↔ ∃ n, a.nodeOf[id]? = some n := by
  rw [← List.mem_eraseDups, List.mem_iff_getElem?]
  exact exists_congr fun n => (h.nodeOf_iff id n).symm

theorem Numbered.nodup (h : Numbered c place? held visits a) : visits.eraseDups.Nodup := by
  rw [List.nodup_iff_getElem?_ne_getElem?]
  intro i j hij hj heq
  have hid := List.getElem?_eq_getElem hj
  have hi := (h.nodeOf_iff _ i).mpr (heq.trans hid)
  rw [(h.nodeOf_iff _ j).mpr hid] at hi
  exact hij.ne' (Option.some.inj hi)

theorem Numbered.node (h : Numbered c place? held visits a) {id : Int64} {n : Nat}
    (hn : visits.eraseDups[n]? = some id) :
    ∃ p, place? id = some p ∧ a.graph.nodes[n]? = some ⟨p, false⟩ := by
  have hget := congrArg (fun l => l[n]?) h.nodes_eq
  simp only [List.getElem?_map, hn, Option.map_some, Array.getElem?_toList] at hget
  cases hnode : a.graph.nodes[n]? with
  | none => simp [hnode] at hget
  | some node =>
    rw [hnode, Option.map_some, Option.some.injEq] at hget
    obtain ⟨p, hp, hnode⟩ := Option.map_eq_some_iff.mp hget.symm
    exact ⟨p, hp, by rw [hnode]⟩

theorem Numbered.point?_eq (h : Numbered c place? held visits a) {id : Int64} {n : Nat}
    (hn : visits.eraseDups[n]? = some id) : a.graph.point? n = place? id := by
  obtain ⟨p, hp, hnode⟩ := h.node hn
  rw [RoadGraph.point?, hnode, hp]
  rfl

theorem visit_cases {s : Stop α} {v : Visit a} (h : a.visit c s = .ok v) :
    (v.after = a ∧ a.nodeOf[s.osmId]? = some v.node) ∨
    (a.nodeOf[s.osmId]? = none ∧
      ∃ told, c.recordNode a.held s.osmId a.graph.nodeCount = .ok told ∧
        v = a.addStop s told) := by
  unfold visit at h
  split at h
  case h_1 n hn =>
    cases h
    exact .inl ⟨rfl, hn⟩
  case h_2 hn =>
    refine .inr ⟨hn, ?_⟩
    cases htold : c.recordNode a.held s.osmId a.graph.nodeCount with
    | error e =>
      rw [htold] at h
      cases h
    | ok told =>
      rw [htold] at h
      cases h
      exact ⟨told, rfl, rfl⟩

/-- A visit succeeds if the collector accepts the map id. -/
theorem Numbered.exists_visit (h : Numbered c place? held visits a) {p : Int64 → Prop}
    (hc : c.Accepts held p) {s : Stop α} (hs : p s.osmId) : ∃ v, a.visit c s = .ok v := by
  unfold Assembly.visit
  split
  · exact ⟨_, rfl⟩
  · obtain ⟨told, htold⟩ := hc _ _ s.osmId h.held_eq hs
    rw [h.nodeCount_eq, htold]
    exact ⟨_, rfl⟩

theorem Numbered.addStop (h : Numbered c place? held visits a) {s : Stop α}
    (hplace : place? s.osmId = some s.point) (hnew : s.osmId ∉ visits) {told : σ}
    (htold : c.recordNode a.held s.osmId a.graph.nodeCount = .ok told) :
    Numbered c place? held (visits ++ [s.osmId]) (a.addStop s told).after where
  nodeOf_iff id n := by
    rw [eraseDups_snoc_of_not_mem hnew, getElem?_snoc_eq_some_iff, Assembly.addStop,
      Std.HashMap.getElem?_insert, ← h.nodeCount_eq, ← h.nodeOf_iff]
    by_cases hid : s.osmId = id
    · subst hid
      have hnone : ∀ n, a.nodeOf[s.osmId]? ≠ some n := fun n hn =>
        hnew ((h.mem_iff _).mpr ⟨n, hn⟩)
      simp [hnone, eq_comm]
    · simp [hid, Ne.symm hid]
  nodes_eq := by
    rw [eraseDups_snoc_of_not_mem hnew, List.map_append, ← h.nodes_eq]
    simp [Assembly.addStop, RoadGraph.addNode, hplace]
  held_eq := by
    rw [eraseDups_snoc_of_not_mem hnew]
    exact c.recordAll_snoc_eq_ok_iff.mpr ⟨_, h.held_eq, h.nodeCount_eq ▸ htold⟩

/-- A visit gives the node of its stop; edges and way ids stay as they are. -/
theorem Numbered.visit (h : Numbered c place? held visits a) {s : Stop α} {v : Visit a}
    (hplace : place? s.osmId = some s.point) (hv : a.visit c s = .ok v) :
    Numbered c place? held (visits ++ [s.osmId]) v.after ∧
      (visits ++ [s.osmId]).eraseDups[v.node]? = some s.osmId ∧
      v.after.graph.edges = a.graph.edges ∧ v.after.wayIds = a.wayIds := by
  rcases visit_cases hv with ⟨hafter, hn⟩ | ⟨hnone, told, htold, rfl⟩
  · have hmem : s.osmId ∈ visits := (h.mem_iff _).mpr ⟨_, hn⟩
    have hsame := eraseDups_snoc_of_mem hmem
    rw [hafter]
    refine ⟨⟨fun id n => ?_, ?_, ?_⟩, ?_, rfl, rfl⟩
    · rw [hsame, h.nodeOf_iff]
    · rw [hsame, h.nodes_eq]
    · rw [hsame, h.held_eq]
    · rw [hsame]
      exact (h.nodeOf_iff _ _).mp hn
  · have hnew : s.osmId ∉ visits := fun hmem => by
      obtain ⟨n, hn⟩ := (h.mem_iff _).mp hmem
      rw [hnone] at hn
      cases hn
    refine ⟨h.addStop hplace hnew htold, ?_, rfl, rfl⟩
    rw [eraseDups_snoc_of_not_mem hnew, getElem?_snoc_eq_some_iff]
    exact .inr ⟨h.nodeCount_eq, rfl⟩

end Assembly
end RoadAudit
