import RoadAudit.Graph.Search
import RoadAudit.Proofs.Numeric.Order
import Mathlib.Data.Finset.Card
import Mathlib.Tactic

/-! # Labels of a search

A search is a map from nodes to labels that is kept in an array and an index. Looked up by node,
settling a label and relaxing to a node change the label of that node and no other. -/

namespace RoadAudit

open scoped Scalar

variable {α : Type}

namespace Search

/-- Whether the index sends the labelled nodes, and no others, to the positions of their labels.
So no node has two labels. -/
def Indexed (s : Search α) : Prop :=
  ∀ v i : Nat, s.index[v]? = some i ↔ ∃ l : Label α, s.labels[i]? = some l ∧ l.node = v

theorem Indexed.modify {s : Search α} (h : s.Indexed) (i : Nat) {f : Label α → Label α}
    (hf : ∀ l, (f l).node = l.node) (n : Nat) :
    Indexed ⟨s.labels.modify i f, s.index, n⟩ := by
  intro v j
  rw [h v j]
  dsimp only
  rw [Array.getElem?_modify]
  by_cases hij : i = j
  · simp [hij, hf]
  · simp [hij]

theorem Indexed.push {s : Search α} (h : s.Indexed) (l : Label α) (n : Nat)
    (hnew : s.index[l.node]? = none) :
    Indexed ⟨s.labels.push l, s.index.insert l.node s.labels.size, n⟩ := by
  intro v j
  dsimp only
  rw [Std.HashMap.getElem?_insert, Array.getElem?_push]
  by_cases hv : l.node = v
  · subst hv
    have hnone : ∀ m : Label α, s.labels[j]? = some m → m.node ≠ l.node := by
      intro m hm hnode
      rw [(h l.node j).mpr ⟨m, hm, hnode⟩] at hnew
      cases hnew
    by_cases hj : j = s.labels.size
    · simp [hj]
    · simpa [hj, Ne.symm hj] using fun m hm => hnone m hm
  · have hne : ¬ (l.node == v) = true := by simpa using hv
    rw [if_neg hne, h v j]
    by_cases hj : j = s.labels.size
    · simp [hj, hv]
    · simp [hj]

theorem Indexed.settle {s : Search α} (h : s.Indexed) (i : Nat) : (s.settle i).Indexed :=
  h.modify i (f := fun l => { l with settled := true }) (fun _ => rfl) (s.settled + 1)

theorem label?_eq_some {s : Search α} (h : s.Indexed) {v : Nat} {l : Label α} :
    s.label? v = some l ↔ l.node = v ∧ ∃ i : Nat, s.labels[i]? = some l := by
  unfold label?
  constructor
  · intro hl
    obtain ⟨i, hi, hil⟩ := Option.bind_eq_some_iff.mp hl
    obtain ⟨m, hm, hnode⟩ := (h v i).mp hi
    obtain rfl : l = m := Option.some.inj (hil.symm.trans hm)
    exact ⟨hnode, i, hil⟩
  · rintro ⟨hnode, i, hi⟩
    exact Option.bind_eq_some_iff.mpr ⟨i, (h v i).mpr ⟨l, hi, hnode⟩, hi⟩

theorem node_of_label? {s : Search α} (h : s.Indexed) {v : Nat} {l : Label α}
    (hl : s.label? v = some l) : l.node = v :=
  ((label?_eq_some h).mp hl).1

theorem label?_of_getElem? {s : Search α} (h : s.Indexed) {i : Nat} {l : Label α}
    (hi : s.labels[i]? = some l) : s.label? l.node = some l :=
  (label?_eq_some h).mpr ⟨rfl, i, hi⟩

theorem Indexed.inj {s : Search α} (h : s.Indexed) {u v i : Nat} (hu : s.index[u]? = some i)
    (hv : s.index[v]? = some i) : u = v := by
  obtain ⟨l, hl, hlu⟩ := (h u i).mp hu
  obtain ⟨m, hm, hmv⟩ := (h v i).mp hv
  obtain rfl : l = m := Option.some.inj (hl.symm.trans hm)
  exact hlu.symm.trans hmv

theorem label?_modify {s : Search α} (h : s.Indexed) {v i : Nat} {l : Label α}
    (hv : s.index[v]? = some i) (hi : s.labels[i]? = some l) (f : Label α → Label α) (n u : Nat) :
    label? ⟨s.labels.modify i f, s.index, n⟩ u = if u = v then some (f l) else s.label? u := by
  unfold label?
  dsimp only
  by_cases hu : u = v
  · subst hu
    simp [hv, hi, Array.getElem?_modify]
  · rw [if_neg hu]
    cases hj : s.index[u]? with
    | none => rfl
    | some j =>
      have hne : i ≠ j := by
        rintro rfl
        exact hu (h.inj hj hv)
      simp [Array.getElem?_modify, hne]

theorem label?_push {s : Search α} (h : s.Indexed) (l : Label α) (n u : Nat) :
    label? ⟨s.labels.push l, s.index.insert l.node s.labels.size, n⟩ u =
      if u = l.node then some l else s.label? u := by
  unfold label?
  dsimp only
  rw [Std.HashMap.getElem?_insert]
  by_cases hu : u = l.node
  · subst hu
    simp
  · rw [if_neg hu, if_neg (by simpa using Ne.symm hu)]
    cases hj : s.index[u]? with
    | none => rfl
    | some j =>
      obtain ⟨m, hm, -⟩ := (h u j).mp hj
      obtain ⟨hlt, -⟩ := Array.getElem?_eq_some_iff.mp hm
      simp [Array.getElem?_push, Nat.ne_of_lt hlt]

theorem label?_settle {s : Search α} (h : s.Indexed) {i : Nat} {l : Label α}
    (hi : s.labels[i]? = some l) (u : Nat) :
    (s.settle i).label? u =
      if u = l.node then some { l with settled := true } else s.label? u :=
  label?_modify h ((h l.node i).mpr ⟨l, hi, rfl⟩) hi _ _ u

theorem of_label?_settle {s : Search α} (h : s.Indexed) {i : Nat} {l : Label α}
    (hi : s.labels[i]? = some l) {u : Nat} {m : Label α} (hm : (s.settle i).label? u = some m) :
    (u = l.node ∧ m = { l with settled := true }) ∨ (u ≠ l.node ∧ s.label? u = some m) := by
  rw [label?_settle h hi] at hm
  by_cases hu : u = l.node
  · rw [if_pos hu] at hm
    exact .inl ⟨hu, (Option.some.inj hm).symm⟩
  · rw [if_neg hu] at hm
    exact .inr ⟨hu, hm⟩

theorem exists_label?_settle {s : Search α} (h : s.Indexed) {i : Nat} {l : Label α}
    (hi : s.labels[i]? = some l) {u : Nat} {m : Label α} (hm : s.label? u = some m) :
    ∃ m', (s.settle i).label? u = some m' ∧ m'.distance = m.distance := by
  rw [label?_settle h hi]
  by_cases hu : u = l.node
  · subst hu
    obtain rfl : l = m := Option.some.inj ((label?_of_getElem? h hi).symm.trans hm)
    rw [if_pos rfl]
    exact ⟨_, rfl, rfl⟩
  · rw [if_neg hu]
    exact ⟨m, hm, rfl⟩

/-- Whether the settled nodes are as many as the search has counted. -/
def Counted (s : Search α) : Prop :=
  ∃ nodes : Finset Nat, nodes.card = s.settled ∧
    ∀ v, v ∈ nodes ↔ ∃ l, s.label? v = some l ∧ l.settled = true

theorem Counted.settle {s : Search α} (hc : s.Counted) (h : s.Indexed) {i : Nat} {l : Label α}
    (hi : s.labels[i]? = some l) (hopen : l.settled = false) : (s.settle i).Counted := by
  obtain ⟨nodes, hcard, hnodes⟩ := hc
  have hnew : l.node ∉ nodes := by
    intro hmem
    obtain ⟨m, hm, hsettled⟩ := (hnodes l.node).mp hmem
    obtain rfl : l = m := Option.some.inj ((label?_of_getElem? h hi).symm.trans hm)
    rw [hopen] at hsettled
    cases hsettled
  refine ⟨insert l.node nodes, ?_, fun v => ?_⟩
  · rw [Finset.card_insert_of_notMem hnew, hcard]
    rfl
  · rw [Finset.mem_insert, hnodes, label?_settle h hi]
    by_cases hv : v = l.node
    · simp [hv]
    · simp [hv]

end Search

variable [Scalar α]

def Label.lowered (d : α) (l : Label α) : Label α :=
  if !l.settled ∧ d < l.distance then { l with distance := d } else l

@[simp] theorem Label.node_lowered (d : α) (l : Label α) : (l.lowered d).node = l.node := by
  unfold Label.lowered
  split <;> rfl

namespace Search

theorem indexed_start (v : Nat) : (start v : Search α).Indexed := by
  intro u i
  rw [start, Std.HashMap.getElem?_insert]
  by_cases hu : v = u
  · subst hu
    cases i <;> simp
  · cases i <;> simp [hu]

theorem Indexed.relax {s : Search α} (h : s.Indexed) (v : Nat) (d : α) :
    (s.relax v d).Indexed := by
  unfold Search.relax
  cases hv : s.index[v]? with
  | some i => exact h.modify i (Label.node_lowered d) _
  | none => exact h.push ⟨v, d, false⟩ _ hv

@[simp] theorem settled_relax (s : Search α) (v : Nat) (d : α) :
    (s.relax v d).settled = s.settled := by
  unfold Search.relax
  split <;> rfl

theorem label?_start (v u : Nat) :
    (start v : Search α).label? u = if u = v then some ⟨v, 0, false⟩ else none := by
  unfold label? start
  rw [Std.HashMap.getElem?_insert]
  by_cases hu : u = v
  · simp [hu]
  · simp [hu, Ne.symm hu]

theorem label?_relax {s : Search α} (h : s.Indexed) (v : Nat) (d : α) (u : Nat) :
    (s.relax v d).label? u =
      if u = v then some (((s.label? v).map (Label.lowered d)).getD ⟨v, d, false⟩)
      else s.label? u := by
  unfold Search.relax
  cases hv : s.index[v]? with
  | some i =>
    obtain ⟨l, hl, hnode⟩ := (h v i).mp hv
    have hlabel : s.label? v = some l := (label?_eq_some h).mpr ⟨hnode, i, hl⟩
    rw [hlabel]
    exact label?_modify h hv hl (Label.lowered d) _ u
  | none =>
    have hlabel : s.label? v = none := by simp [label?, hv]
    rw [hlabel]
    exact label?_push h ⟨v, d, false⟩ _ u

theorem label?_relax_of_settled {s : Search α} (h : s.Indexed) (v : Nat) (d : α) {u : Nat}
    {l : Label α} (hl : s.label? u = some l) (hsettled : l.settled = true) :
    (s.relax v d).label? u = some l := by
  rw [label?_relax h]
  by_cases hu : u = v
  · subst hu
    simp [hl, Label.lowered, hsettled]
  · rw [if_neg hu, hl]

theorem of_label?_relax {s : Search α} (h : s.Indexed) {v : Nat} {d : α} {u : Nat} {l : Label α}
    (hl : (s.relax v d).label? u = some l) :
    s.label? u = some l ∨ u = v ∧ l = ⟨v, d, false⟩ ∧ ∀ m, s.label? v = some m → d < m.distance := by
  rw [label?_relax h] at hl
  by_cases hu : u = v
  · subst hu
    rw [if_pos rfl] at hl
    cases hm : s.label? u with
    | none =>
      rw [hm] at hl
      exact .inr ⟨rfl, (Option.some.inj hl).symm, by simp⟩
    | some m =>
      rw [hm] at hl
      by_cases hlower : !m.settled ∧ d < m.distance
      · refine .inr ⟨rfl, ?_, fun m' hm' => Option.some.inj hm' ▸ hlower.2⟩
        have hnode := node_of_label? h hm
        have hopen : m.settled = false := by simpa using hlower.1
        simpa [Label.lowered, hlower, hnode, hopen] using hl.symm
      · left
        rw [Option.map_some, Option.getD_some, Label.lowered, if_neg hlower] at hl
        exact hl
  · rw [if_neg hu] at hl
    exact .inl hl

theorem settled_label?_relax {s : Search α} (h : s.Indexed) (v : Nat) (d : α) {u : Nat}
    {l : Label α} (hsettled : l.settled = true) :
    (s.relax v d).label? u = some l ↔ s.label? u = some l := by
  refine ⟨fun hl => ?_, fun hl => label?_relax_of_settled h v d hl hsettled⟩
  rcases of_label?_relax h hl with hl | ⟨-, rfl, -⟩
  · exact hl
  · cases hsettled

theorem counted_start (v : Nat) : (start v : Search α).Counted := by
  refine ⟨∅, rfl, fun u => ⟨fun hu => absurd hu (Finset.notMem_empty u), ?_⟩⟩
  rintro ⟨l, hl, hsettled⟩
  rw [label?_start] at hl
  split at hl
  case isTrue =>
    obtain rfl := Option.some.inj hl
    cases hsettled
  case isFalse => cases hl

theorem Counted.relax {s : Search α} (hc : s.Counted) (h : s.Indexed) (v : Nat) (d : α) :
    (s.relax v d).Counted := by
  obtain ⟨nodes, hcard, hnodes⟩ := hc
  refine ⟨nodes, by rw [hcard, settled_relax], fun u => ?_⟩
  rw [hnodes]
  exact exists_congr fun l => and_congr_left fun hsettled =>
    (settled_label?_relax h v d hsettled).symm

variable [Scalar.LawfulOrder α]

theorem exists_label?_relax {s : Search α} (h : s.Indexed) (v : Nat) (d : α) {u : Nat}
    {l : Label α} (hl : s.label? u = some l) (hnumber : Scalar.IsNumber l.distance) :
    ∃ m, (s.relax v d).label? u = some m ∧ m.distance ≤ l.distance := by
  rw [label?_relax h]
  by_cases hu : u = v
  · subst hu
    rw [if_pos rfl, hl]
    refine ⟨l.lowered d, rfl, ?_⟩
    unfold Label.lowered
    split
    case isTrue hlower => exact Scalar.le_of_lt hlower.2
    case isFalse => exact hnumber
  · rw [if_neg hu]
    exact ⟨l, hl, hnumber⟩

theorem exists_label?_relax_self {s : Search α} (h : s.Indexed) {v : Nat} {d : α}
    (hd : Scalar.IsNumber d) (hnumber : ∀ l, s.label? v = some l → Scalar.IsNumber l.distance)
    (hsettled : ∀ l, s.label? v = some l → l.settled = true → l.distance ≤ d) :
    ∃ m, (s.relax v d).label? v = some m ∧ m.distance ≤ d := by
  rw [label?_relax h, if_pos rfl]
  cases hl : s.label? v with
  | none => exact ⟨_, rfl, hd⟩
  | some l =>
    refine ⟨l.lowered d, rfl, ?_⟩
    unfold Label.lowered
    split
    case isTrue => exact hd
    case isFalse hkeep =>
      by_cases hs : l.settled = true
      · exact hsettled l hl hs
      · exact Scalar.le_of_not_lt hd (hnumber l hl) fun hlt => hkeep ⟨by simpa using hs, hlt⟩

end Search
end RoadAudit
