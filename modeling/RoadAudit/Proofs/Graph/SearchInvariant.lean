import RoadAudit.Proofs.Graph.NearestLabel
import RoadAudit.Proofs.Graph.Walk

/-! # The invariant of a search

Every label stands for a walk of its distance. The settled labels come before a frontier, all other
labels behind it, and whatever an edge leads to from a settled node has a label that takes the edge
into account. So no walk leaves the settled nodes without passing a label that is not settled, and
the distance of a settled label is the least. -/

namespace RoadAudit
namespace Search

open scoped Scalar
open RoadGraph

variable {α : Type} [Scalar α]

/-- Whether a label takes into account that an edge leads to its node from one at distance `d`. -/
def Sees (s : Search α) (d : α) (e : EdgeView α) : Prop :=
  ∃ l, s.label? e.adj = some l ∧ l.distance ≤ d + e.edge.length

def SettledAt (s : Search α) (n : Nat) (d : α) : Prop :=
  ∃ l, s.label? n = some l ∧ l.settled = true ∧ l.distance = d

/-- A search with the frontier at distance `d`. The edges in `todo` have not been relaxed yet. -/
structure Invariant (g : RoadGraph α) (source : Nat) (d : α) (todo : List (EdgeView α))
    (s : Search α) : Prop where
  indexed : s.Indexed
  counted : s.Counted
  walk : ∀ v l, s.label? v = some l → g.Walk source l.distance v
  source : ∃ l, s.label? source = some l ∧ l.distance ≤ 0
  settled_le : ∀ v l, s.label? v = some l → l.settled = true → l.distance ≤ d
  le_open : ∀ v l, s.label? v = some l → l.settled = false → d ≤ l.distance
  closed : ∀ v l, s.label? v = some l → l.settled = true →
    ∀ e ∈ g.edgesOf v, e ∈ todo ∨ s.Sees l.distance e

theorem SettledAt.relax {s : Search α} (h : s.Indexed) {n : Nat} {d : α} (hn : s.SettledAt n d)
    (v : Nat) (w : α) : (s.relax v w).SettledAt n d := by
  obtain ⟨l, hl, hsettled, hdistance⟩ := hn
  exact ⟨l, label?_relax_of_settled h v w hl hsettled, hsettled, hdistance⟩

theorem Invariant.walk_along {g : RoadGraph α} {source : Nat} {d : α} {todo : List (EdgeView α)}
    {s : Search α} (h : Invariant g source d todo s) {n : Nat} (hn : s.SettledAt n d)
    {e : EdgeView α} (he : e ∈ g.edgesOf n) : g.Walk source (d + e.edge.length) e.adj := by
  obtain ⟨l, hl, -, rfl⟩ := hn
  exact (h.walk n l hl).along he

theorem Invariant.settled_le_nodeCount {g : RoadGraph α} {source : Nat} {d : α}
    {todo : List (EdgeView α)} {s : Search α} (h : Invariant g source d todo s) :
    s.settled ≤ g.nodeCount + 1 := by
  obtain ⟨nodes, hcard, hnodes⟩ := h.counted
  have hsub : nodes ⊆ insert source (Finset.range g.nodeCount) := by
    intro v hv
    obtain ⟨l, hl, -⟩ := (hnodes v).mp hv
    rw [Finset.mem_insert, Finset.mem_range]
    exact (h.walk v l hl).end_eq_or_lt
  calc s.settled = nodes.card := hcard.symm
    _ ≤ (insert source (Finset.range g.nodeCount)).card := Finset.card_le_card hsub
    _ ≤ (Finset.range g.nodeCount).card + 1 := Finset.card_insert_le _ _
    _ = g.nodeCount + 1 := by rw [Finset.card_range]

section Laws

variable [Scalar.LawfulLength α] {g : RoadGraph α} {source : Nat} {d : α}
  {todo : List (EdgeView α)} {s : Search α}

theorem Invariant.nonneg (hg : g.HasLengths) (h : Invariant g source d todo s) {v : Nat}
    {l : Label α} (hl : s.label? v = some l) : 0 ≤ l.distance :=
  (h.walk v l hl).nonneg hg

theorem Invariant.number (hg : g.HasLengths) (h : Invariant g source d todo s) {v : Nat}
    {l : Label α} (hl : s.label? v = some l) : Scalar.IsNumber l.distance :=
  Scalar.IsNumber.right (h.nonneg hg hl)

theorem invariant_start (g : RoadGraph α) (source : Nat) :
    Invariant g source 0 [] (start source) := by
  have hzero : Scalar.IsNumber (0 : α) := Scalar.LawfulLength.number_zero
  have honly : ∀ v l, (start source : Search α).label? v = some l →
      v = source ∧ l = ⟨source, 0, false⟩ := by
    intro v l hl
    rw [label?_start] at hl
    split at hl
    case isTrue hv => exact ⟨hv, (Option.some.inj hl).symm⟩
    case isFalse => cases hl
  constructor
  case indexed => exact indexed_start source
  case counted => exact counted_start source
  case walk =>
    intro v l hl
    obtain ⟨rfl, rfl⟩ := honly v l hl
    exact .start
  case source => exact ⟨⟨source, 0, false⟩, by rw [label?_start, if_pos rfl], hzero⟩
  case settled_le =>
    intro v l hl hsettled
    rw [(honly v l hl).2] at hsettled
    cases hsettled
  case le_open =>
    intro v l hl _
    rw [(honly v l hl).2]
    exact hzero
  case closed =>
    intro v l hl hsettled
    rw [(honly v l hl).2] at hsettled
    cases hsettled

/-- The nearest label moves the frontier, and leaves the edges at its node to be relaxed. -/
theorem Invariant.settle (hg : g.HasLengths) (h : Invariant g source d [] s) {i : Nat}
    {l : Label α} (hsome : s.nearest? = some (i, l)) :
    Invariant g source l.distance (g.edgesOf l.node) (s.settle i) := by
  obtain ⟨hi, hopen, hleast⟩ := of_nearest?_some h.indexed hsome
  have hl : s.label? l.node = some l := label?_of_getElem? h.indexed hi
  have hnumber : Scalar.IsNumber l.distance := h.number hg hl
  constructor
  case indexed => exact h.indexed.settle i
  case counted => exact h.counted.settle h.indexed hi hopen
  case walk =>
    intro u m hm
    rcases of_label?_settle h.indexed hi hm with ⟨rfl, rfl⟩ | ⟨-, hm⟩
    · exact h.walk _ l hl
    · exact h.walk u m hm
  case source =>
    obtain ⟨m, hm, hzero⟩ := h.source
    obtain ⟨m', hm', hdistance⟩ := exists_label?_settle h.indexed hi hm
    exact ⟨m', hm', by rwa [hdistance]⟩
  case settled_le =>
    intro u m hm hsettled
    rcases of_label?_settle h.indexed hi hm with ⟨rfl, rfl⟩ | ⟨-, hm⟩
    · exact hnumber
    · exact Scalar.le_trans (h.settled_le u m hm hsettled) (h.le_open _ l hl hopen)
  case le_open =>
    intro u m hm hopen'
    rcases of_label?_settle h.indexed hi hm with ⟨rfl, rfl⟩ | ⟨-, hm⟩
    · cases hopen'
    · exact Scalar.le_of_not_lt (h.number hg hm) hnumber (hleast u m hm hopen')
  case closed =>
    intro u m hm hsettled e he
    rcases of_label?_settle h.indexed hi hm with ⟨rfl, rfl⟩ | ⟨-, hm⟩
    · exact .inl he
    · obtain ⟨m', hm', hle⟩ := (h.closed u m hm hsettled e he).resolve_left List.not_mem_nil
      obtain ⟨m'', hm'', hdistance⟩ := exists_label?_settle h.indexed hi hm'
      exact .inr ⟨m'', hm'', by rwa [hdistance]⟩

theorem Invariant.settledAt (h : Invariant g source d [] s) {i : Nat} {l : Label α}
    (hsome : s.nearest? = some (i, l)) : (s.settle i).SettledAt l.node l.distance := by
  obtain ⟨hi, -, -⟩ := of_nearest?_some h.indexed hsome
  exact ⟨{ l with settled := true }, by rw [label?_settle h.indexed hi, if_pos rfl], rfl, rfl⟩

/-- An edge at the node on the frontier is taken off the edges to be relaxed. -/
theorem Invariant.relax (hg : g.HasLengths) {n : Nat} {e : EdgeView α}
    (h : Invariant g source d (e :: todo) s) (hn : s.SettledAt n d) (he : e ∈ g.edgesOf n) :
    Invariant g source d todo (s.relax e.adj (d + e.edge.length)) := by
  obtain ⟨l, hl, hsettled, rfl⟩ := hn
  have hlength : 0 ≤ e.edge.length := hg _ (joins_of_mem_edgesOf he).1
  have hle : l.distance ≤ l.distance + e.edge.length :=
    Scalar.LawfulLength.le_add (h.nonneg hg hl) hlength
  have hnumber : Scalar.IsNumber (l.distance + e.edge.length) := Scalar.IsNumber.right hle
  constructor
  case indexed => exact h.indexed.relax _ _
  case counted => exact h.counted.relax h.indexed _ _
  case walk =>
    intro u m hm
    rcases of_label?_relax h.indexed hm with hm | ⟨rfl, rfl, -⟩
    · exact h.walk u m hm
    · exact (h.walk n l hl).along he
  case source =>
    obtain ⟨m, hm, hzero⟩ := h.source
    obtain ⟨m', hm', hle'⟩ := exists_label?_relax h.indexed e.adj
      (l.distance + e.edge.length) hm (h.number hg hm)
    exact ⟨m', hm', Scalar.le_trans hle' hzero⟩
  case settled_le =>
    intro u m hm hms
    exact h.settled_le u m ((settled_label?_relax h.indexed _ _ hms).mp hm) hms
  case le_open =>
    intro u m hm hopen
    rcases of_label?_relax h.indexed hm with hm | ⟨-, rfl, -⟩
    · exact h.le_open u m hm hopen
    · exact hle
  case closed =>
    intro u m hm hms e' he'
    have hbefore := (settled_label?_relax h.indexed _ _ hms).mp hm
    by_cases heq : e' = e
    · -- the waiver of this edge ends: its node is the one on the frontier
      subst heq
      obtain rfl : u = n := (base_of_mem_edgesOf he').symm.trans (base_of_mem_edgesOf he)
      obtain rfl : l = m := Option.some.inj (hl.symm.trans hbefore)
      right
      refine exists_label?_relax_self h.indexed hnumber (fun m' hm' => h.number hg hm') ?_
      intro m' hm' hms'
      exact Scalar.le_trans (h.settled_le _ m' hm' hms') hle
    · rcases h.closed u m hbefore hms e' he' with htodo | ⟨m', hm', hle'⟩
      · exact .inl ((List.mem_cons.mp htodo).resolve_left heq)
      · obtain ⟨m'', hm'', hle''⟩ := exists_label?_relax h.indexed e.adj
          (l.distance + e.edge.length) hm' (h.number hg hm')
        exact .inr ⟨m'', hm'', Scalar.le_trans hle'' hle'⟩

theorem Invariant.settled_or_open (hg : g.HasLengths) (h : Invariant g source d [] s) {w : α}
    {v : Nat} (hwalk : g.Walk source w v) :
    (∃ l, s.label? v = some l ∧ l.settled = true ∧ l.distance ≤ w) ∨
      ∃ u l, s.label? u = some l ∧ l.settled = false ∧ l.distance ≤ w := by
  -- a label not settled serves either way, so it is enough to find a label of the end
  have hsplit : ∀ {u : Nat} {l : Label α} {w : α}, s.label? u = some l → l.distance ≤ w →
      (∃ l, s.label? u = some l ∧ l.settled = true ∧ l.distance ≤ w) ∨
        ∃ u l, s.label? u = some l ∧ l.settled = false ∧ l.distance ≤ w := by
    intro u l w hl hle
    cases hsettled : l.settled with
    | true => exact .inl ⟨l, hl, hsettled, hle⟩
    | false => exact .inr ⟨u, l, hl, hsettled, hle⟩
  induction hwalk with
  | start =>
    obtain ⟨l, hl, hzero⟩ := h.source
    exact hsplit hl hzero
  | step hwalk he hjoins ih =>
    have hlength := hg _ he
    rcases ih with ⟨l, hl, hsettled, hle⟩ | ⟨u, l, hl, hopen, hle⟩
    · obtain ⟨e', he', rfl, rfl⟩ := exists_mem_edgesOf he hjoins
      obtain ⟨m, hm, hseen⟩ := (h.closed _ l hl hsettled e' he').resolve_left List.not_mem_nil
      exact hsplit hm (Scalar.le_trans hseen
        (Scalar.LawfulLength.add_le_add (h.nonneg hg hl) hle hlength))
    · exact .inr ⟨u, l, hl, hopen,
        Scalar.le_trans hle (Scalar.LawfulLength.le_add (hwalk.nonneg hg) hlength)⟩

/-- The distance of a settled label is the distance of its node. -/
theorem Invariant.isDistance (hg : g.HasLengths) (h : Invariant g source d [] s) {v : Nat}
    {l : Label α} (hl : s.label? v = some l) (hsettled : l.settled = true) :
    g.IsDistance source v l.distance := by
  refine ⟨h.walk v l hl, fun w hwalk => ?_⟩
  rcases h.settled_or_open hg hwalk with ⟨m, hm, -, hle⟩ | ⟨u, m, hm, hopen, hle⟩
  · obtain rfl : l = m := Option.some.inj (hl.symm.trans hm)
    exact hle
  · have hfrontier := Scalar.le_trans (h.settled_le v l hl hsettled) (h.le_open u m hm hopen)
    exact Scalar.le_trans hfrontier hle

end Laws

end Search
end RoadAudit
