import RoadAudit.Proofs.Graph.NearestLabel
import RoadAudit.Proofs.Graph.Walk

/-! # Labels and walks

Every label of a search stands for a walk of its distance, and so does what a search finds. For this
nothing has to be known of the lengths of the edges, which may be negative or no numbers. -/

namespace RoadAudit

open scoped Scalar

variable {α : Type} [Scalar α]

namespace Search

/-- Whether the labels of a search stand for walks from the source. -/
structure Walks (g : RoadGraph α) (source : Nat) (s : Search α) : Prop where
  indexed : s.Indexed
  walk : ∀ v l, s.label? v = some l → g.Walk source l.distance v

/-- Whether a search goes on with labels that stand for walks, or has found none but a walk to the
target. -/
def Progress.Walks (g : RoadGraph α) (source target : Nat) : Progress α → Prop
  | .ended r => r.status = .ok → g.Walk source r.distance target
  | .running s => Search.Walks g source s

variable {g : RoadGraph α} {source target : Nat} {limits : SearchLimits α} {s : Search α}

theorem walks_start (g : RoadGraph α) (source : Nat) : Walks g source (start source) := by
  refine ⟨indexed_start source, fun v l hl => ?_⟩
  rw [label?_start] at hl
  obtain ⟨rfl, heq⟩ := Option.ite_none_right_eq_some.mp hl
  obtain rfl := Option.some.inj heq
  exact .start

theorem Walks.settle (h : Walks g source s) {i : Nat} {l : Label α} (hi : s.labels[i]? = some l) :
    Walks g source (s.settle i) := by
  refine ⟨h.indexed.settle i, fun v m hm => ?_⟩
  rcases of_label?_settle h.indexed hi hm with ⟨rfl, rfl⟩ | ⟨-, hm⟩
  · exact h.walk l.node l (label?_of_getElem? h.indexed hi)
  · exact h.walk v m hm

theorem Walks.relax (h : Walks g source s) {v : Nat} {d : α} (hwalk : g.Walk source d v) :
    Walks g source (s.relax v d) := by
  refine ⟨h.indexed.relax v d, fun u l hl => ?_⟩
  rcases of_label?_relax h.indexed hl with hl | ⟨rfl, rfl, -⟩
  · exact h.walk u l hl
  · exact hwalk

/-- What is accepted is the length of a walk: that of the label of the target, or the one that has
just been seen. -/
theorem Walks.accepted (h : Walks g source s) {d w : α} (hwalk : g.Walk source d target)
    (haccept : s.accepted? limits target d = some w) : g.Walk source w target := by
  unfold accepted? at haccept
  obtain ⟨-, heq⟩ := Option.ite_none_right_eq_some.mp haccept
  obtain rfl := Option.some.inj heq
  cases hl : s.label? target with
  | none => exact hwalk
  | some l =>
    dsimp only
    unfold Scalar.lesser
    split
    · exact hwalk
    · exact h.walk target l hl

theorem Walks.relaxAll (h : Walks g source s) {d : α} {todo : List (EdgeView α)}
    (htodo : ∀ e ∈ todo, g.Walk source (d + e.edge.length) e.adj) :
    (Search.relaxAll limits target d todo s).Walks g source target := by
  induction todo generalizing s with
  | nil => exact h
  | cons e rest ih =>
    obtain ⟨he, hrest⟩ := List.forall_mem_cons.mp htodo
    rw [Search.relaxAll]
    split
    case h_1 w haccept =>
      obtain ⟨htarget, haccept⟩ := Option.ite_none_right_eq_some.mp haccept
      exact fun _ => h.accepted (htarget ▸ he) haccept
    case h_2 => exact ih (h.relax he) hrest

variable [Scalar.LawfulOrder α]

theorem Walks.step (h : Walks g source s) : (s.step g limits target).Walks g source target := by
  unfold Search.step
  split
  case h_1 => exact nofun
  case h_2 i l hnearest =>
    obtain ⟨hi, -, -⟩ := of_nearest?_some h.indexed hnearest
    split
    · exact nofun
    · have hwalk := h.walk l.node l (label?_of_getElem? h.indexed hi)
      exact (h.settle hi).relaxAll fun e he => hwalk.along he

theorem Walks.run (h : Walks g source s) (budget : Nat)
    (hok : (Search.run g limits target budget s).status = .ok) :
    g.Walk source (Search.run g limits target budget s).distance target := by
  induction budget generalizing s with
  | zero => cases hok
  | succ budget ih =>
    rw [Search.run] at hok ⊢
    have hstep : (s.step g limits target).Walks g source target := h.step
    generalize s.step g limits target = p at hok hstep ⊢
    cases p with
    | ended r => exact hstep hok
    | running s' => exact ih hstep hok

end Search

namespace RoadGraph

variable [Scalar.LawfulOrder α] {g : RoadGraph α} {limits : SearchLimits α} {source target : Nat}

theorem walk_of_route (hok : (g.route limits source target).status = .ok) :
    g.Walk source (g.route limits source target).distance target := by
  unfold route at hok ⊢
  split
  case isTrue h => exact h ▸ .start
  case isFalse h =>
    rw [if_neg h] at hok
    exact (Search.walks_start g source).run limits.maxNodes hok

end RoadGraph
end RoadAudit
