import Mathlib.Tactic
import RoadAudit.Proofs.Graph.Connected
import RoadAudit.Subnetwork.Component

/-! # A flood reaches a component

A flood that starts at a node not yet labelled gives its label to the nodes connected to that node,
and counts them. The nodes labelled before must be whole components; the flood stays out of them. -/

namespace RoadAudit
namespace Labelling

/-! ## One row -/

/-- What looking at the nodes of a row does to the labels; `found` are the nodes that join the
queue. -/
structure Discovers (label : Nat) (row : List Nat) (labels next : Array (Option Nat))
    (found : List Nat) : Prop where
  size : next.size = labels.size
  nodup : found.Nodup
  mem_iff : ∀ v : Nat, v ∈ found ↔ v ∈ row ∧ labels[v]? = some none
  label_eq : ∀ v : Nat, next[v]? = if v ∈ found then some (some label) else labels[v]?

theorem isOpen_iff {labels : Array (Option Nat)} {v : Nat} :
    isOpen labels v = true ↔ labels[v]? = some none := by
  unfold isOpen
  split <;> simp_all

theorem getElem?_mark {labels : Array (Option Nat)} {v : Nat} (h : v < labels.size)
    (label u : Nat) :
    (labels.setIfInBounds v (some label))[u]? = if u = v then some (some label) else labels[u]? := by
  by_cases huv : u = v
  · rw [huv, Array.getElem?_setIfInBounds_self_of_lt h, if_pos rfl]
  · rw [Array.getElem?_setIfInBounds_ne (Ne.symm huv), if_neg huv]

theorem exists_discovers (label : Nat) (row : List Nat) (labels : Array (Option Nat))
    (queue : List Nat) :
    ∃ next found, discover label row labels queue = (next, queue ++ found) ∧
      Discovers label row labels next found := by
  induction row generalizing labels queue with
  | nil => exact ⟨labels, [], by simp [discover], rfl, .nil, by simp, by simp⟩
  | cons v row ih =>
    by_cases hopen : isOpen labels v = true
    · have hv := isOpen_iff.mp hopen
      have hlt : v < labels.size := (Array.getElem?_eq_some_iff.mp hv).1
      have hmark := getElem?_mark hlt label
      obtain ⟨next, found, hdiscover, h⟩ := ih (labels.setIfInBounds v (some label)) (queue ++ [v])
      have hfound : v ∉ found := fun hmem => by
        have hlabel := ((h.mem_iff v).mp hmem).2
        rw [hmark, if_pos rfl] at hlabel
        cases hlabel
      refine ⟨next, v :: found, ?_, ?_, List.nodup_cons.mpr ⟨hfound, h.nodup⟩, fun u => ?_,
        fun u => ?_⟩
      · rw [discover, if_pos hopen, hdiscover, List.append_assoc, List.singleton_append]
      · rw [h.size, Array.size_setIfInBounds]
      · rw [List.mem_cons, h.mem_iff, hmark, List.mem_cons]
        by_cases huv : u = v <;> simp [huv, hv]
      · rw [h.label_eq, hmark]
        by_cases huv : u = v <;> simp [huv]
    · obtain ⟨next, found, hdiscover, h⟩ := ih labels queue
      have hv : labels[v]? ≠ some none := fun h => hopen (isOpen_iff.mpr h)
      refine ⟨next, found, by rw [discover, if_neg hopen, hdiscover], h.size, h.nodup, fun u => ?_,
        h.label_eq⟩
      rw [h.mem_iff, List.mem_cons]
      by_cases huv : u = v <;> simp [huv, hv]

/-! ## The whole flood -/

variable {α : Type} {g : RoadGraph α}

/-- Labels that can be flooded with a new one: the nodes that have a label are whole components,
and none has the new one. -/
structure Floodable (g : RoadGraph α) (labels : Array (Option Nat)) (label : Nat) : Prop where
  size : labels.size = g.nodeCount
  fresh : ∀ v : Nat, labels[v]? ≠ some (some label)
  closed : ∀ v u : Nat, g.Adjacent v u → labels[v]? = some none → labels[u]? = some none

def labelled (labels : Array (Option Nat)) (label : Nat) : Finset Nat :=
  {v ∈ Finset.range labels.size | labels[v]? = some (some label)}

theorem mem_labelled {labels : Array (Option Nat)} {label v : Nat} :
    v ∈ labelled labels label ↔ labels[v]? = some (some label) := by
  rw [labelled, Finset.mem_filter, Finset.mem_range, and_iff_right_iff_imp]
  exact fun h => (Array.getElem?_eq_some_iff.mp h).1

/-- The state of a flood that started at `source` from the labels `before`: only nodes connected
to the source have got its label, the neighbours of all but the queued ones among them have been
looked at, and the nodes with the label are counted or queued. -/
structure Flooding (g : RoadGraph α) (before : Array (Option Nat)) (label source : Nat)
    (labels : Array (Option Nat)) (queue : List Nat) (size : Nat) : Prop where
  size_eq : labels.size = g.nodeCount
  source_mem : source ∈ labelled labels label
  connected : ∀ v ∈ labelled labels label, g.Connected source v
  frame : ∀ v : Nat, v ∉ labelled labels label → labels[v]? = before[v]?
  queued : ∀ v ∈ queue, v ∈ labelled labels label
  nodup : queue.Nodup
  closed : ∀ v ∈ labelled labels label, v ∉ queue → ∀ u, g.Adjacent v u → labels[u]? ≠ some none
  counted : size + queue.length = (labelled labels label).card

variable {before labels : Array (Option Nat)} {label source size : Nat} {queue : List Nat}

theorem Floodable.flooding (h : Floodable g before label) (hsource : before[source]? = some none) :
    Flooding g before label source (before.setIfInBounds source (some label)) [source] 0 := by
  have hmark := getElem?_mark (Array.getElem?_eq_some_iff.mp hsource).1 label
  have hlabelled : labelled (before.setIfInBounds source (some label)) label = {source} := by
    ext v
    rw [mem_labelled, hmark, Finset.mem_singleton]
    by_cases hv : v = source <;> simp [hv, h.fresh v]
  constructor
  case size_eq => rw [Array.size_setIfInBounds, h.size]
  case frame =>
    intro v hv
    rw [hlabelled, Finset.mem_singleton] at hv
    rw [hmark, if_neg hv]
  case connected =>
    intro v hv
    rw [hlabelled, Finset.mem_singleton] at hv
    rw [hv]
    exact .refl source
  case nodup => exact List.nodup_singleton source
  all_goals simp [hlabelled]

/-- One round: the first node of the queue is counted, and its neighbours that have no label get
one and join the queue. -/
theorem Flooding.step {v : Nat} (h : Flooding g before label source labels (v :: queue) size)
    {next : Array (Option Nat)} {found : List Nat}
    (hfound : Discovers label ((g.edgesOf v).map EdgeView.adj) labels next found) :
    Flooding g before label source next (queue ++ found) (size + 1) := by
  have hrow : ∀ u, u ∈ (g.edgesOf v).map EdgeView.adj ↔ g.Adjacent v u := fun u => by
    rw [RoadGraph.adjacent_iff, List.mem_map]
  have hnew : ∀ u ∈ found, u ∉ labelled labels label := fun u hu hmem => by
    rw [mem_labelled, ((hfound.mem_iff u).mp hu).2] at hmem
    cases hmem
  have hlabelled : labelled next label = labelled labels label ∪ found.toFinset := by
    ext u
    rw [Finset.mem_union, List.mem_toFinset, mem_labelled, mem_labelled, hfound.label_eq]
    by_cases hu : u ∈ found <;> simp [hu]
  have hmem : ∀ u, u ∈ labelled next label ↔ u ∈ labelled labels label ∨ u ∈ found := by
    simp [hlabelled]
  obtain ⟨hv, hqueue⟩ := List.nodup_cons.mp h.nodup
  constructor
  case size_eq => rw [hfound.size, h.size_eq]
  case source_mem => exact (hmem source).mpr (.inl h.source_mem)
  case connected =>
    intro u hu
    rcases (hmem u).mp hu with hu | hu
    · exact h.connected u hu
    · have hadjacent := (hrow u).mp ((hfound.mem_iff u).mp hu).1
      exact (h.connected v (h.queued v List.mem_cons_self)).trans hadjacent.connected
  case frame =>
    intro u hu
    rw [hmem, not_or] at hu
    rw [hfound.label_eq, if_neg hu.2, h.frame u hu.1]
  case queued =>
    intro u hu
    refine (hmem u).mpr ((List.mem_append.mp hu).imp_left fun hu => ?_)
    exact h.queued u (List.mem_cons_of_mem v hu)
  case nodup =>
    rw [List.nodup_append']
    refine ⟨hqueue, hfound.nodup, fun u hu hu' => hnew u hu' (h.queued u ?_)⟩
    exact List.mem_cons_of_mem v hu
  case closed =>
    intro w hw hqueued u hadjacent hopen
    rw [List.mem_append, not_or] at hqueued
    have hw := ((hmem w).mp hw).resolve_right hqueued.2
    rw [hfound.label_eq] at hopen
    split at hopen
    case isTrue => cases hopen
    case isFalse hu =>
      by_cases hwv : w = v
      · subst hwv
        exact hu ((hfound.mem_iff u).mpr ⟨(hrow u).mpr hadjacent, hopen⟩)
      · exact h.closed w hw (by simp [hwv, hqueued.1]) u hadjacent hopen
  case counted =>
    have hdisjoint : Disjoint (labelled labels label) found.toFinset := by
      rw [Finset.disjoint_right]
      simpa using hnew
    rw [hlabelled, Finset.card_union_of_disjoint hdisjoint,
      List.toFinset_card_of_nodup hfound.nodup, ← h.counted, List.length_append, List.length_cons]
    omega

theorem Flooding.counted_le (h : Flooding g before label source labels queue size) :
    size + queue.length ≤ g.nodeCount := by
  rw [h.counted, ← h.size_eq]
  exact (Finset.card_filter_le _ _).trans (Finset.card_range _).le

/-- With as many rounds as there are nodes left, a flood comes to its end. -/
theorem Flooding.flood {rounds : Nat}
    (h : Flooding g before label source labels queue size)
    (hrounds : g.nodeCount ≤ size + rounds) :
    ∃ next count, flood g label rounds queue labels size = (next, count) ∧
      Flooding g before label source next [] count := by
  induction rounds generalizing labels queue size with
  | zero =>
    have hle := h.counted_le
    obtain rfl : queue = [] := List.length_eq_zero_iff.mp (by omega)
    exact ⟨labels, size, rfl, h⟩
  | succ rounds ih =>
    cases queue with
    | nil => exact ⟨labels, size, rfl, h⟩
    | cons v queue =>
      obtain ⟨next, found, hdiscover, hfound⟩ :=
        exists_discovers label ((g.edgesOf v).map EdgeView.adj) labels queue
      obtain ⟨last, count, hflood, hend⟩ := ih (h.step hfound) (by omega)
      refine ⟨last, count, ?_, hend⟩
      rw [Labelling.flood, hdiscover]
      exact hflood

theorem Flooding.labelled_eq (h : Flooding g before label source labels [] size)
    (hbefore : Floodable g before label) (hsource : before[source]? = some none) :
    labelled labels label = g.component source := by
  have hopen : ∀ v : Nat, g.Connected source v → before[v]? = some none := fun v hv => by
    induction hv with
    | refl => exact hsource
    | tail _ hadjacent ih => exact hbefore.closed _ _ hadjacent ih
  have hall : ∀ v, g.Connected source v → v ∈ labelled labels label := fun v hv => by
    induction hv with
    | refl => exact h.source_mem
    | @tail w u hw hadjacent ih =>
      by_contra hu
      refine h.closed w ih List.not_mem_nil u hadjacent ?_
      rw [h.frame u hu]
      exact hopen u (.tail hw hadjacent)
  ext v
  rw [RoadGraph.mem_component]
  constructor
  · intro hv
    have hlt := (Array.getElem?_eq_some_iff.mp (mem_labelled.mp hv)).1
    exact ⟨h.size_eq ▸ hlt, h.connected v hv⟩
  · exact fun hv => hall v hv.2

/-- A flood labels the component of its source, counts it and leaves all else as it was. -/
theorem Floodable.flood (h : Floodable g before label) (hsource : before[source]? = some none) :
    ∃ next, flood g label g.nodeCount [source] (before.setIfInBounds source (some label)) 0
        = (next, (g.component source).card) ∧
      next.size = g.nodeCount ∧
      ∀ v : Nat, next[v]? = if v ∈ g.component source then some (some label) else before[v]? := by
  obtain ⟨next, count, hflood, hend⟩ := (h.flooding hsource).flood (Nat.le_add_left _ _)
  have hlabelled := hend.labelled_eq h hsource
  have hcount : count = (g.component source).card := by
    simpa [hlabelled] using hend.counted
  refine ⟨next, hcount ▸ hflood, hend.size_eq, fun v => ?_⟩
  rw [← hlabelled]
  split
  case isTrue hv => exact mem_labelled.mp hv
  case isFalse hv => exact hend.frame v hv

end Labelling
end RoadAudit
