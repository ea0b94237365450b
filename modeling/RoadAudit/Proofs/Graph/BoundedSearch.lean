import RoadAudit.Proofs.Graph.SearchInvariant

/-! # What a bounded search answers

A run keeps the invariant of a search and, beside it, that all settled nodes are within the limit
while the target has not been seen within it. What the search answers at its end is read off the
last state. -/

namespace RoadAudit

open scoped Scalar
open RoadGraph

variable {α : Type} [Scalar α]

namespace Search

/-- A search that goes on within its limits and has not come to its target. -/
structure Searching (g : RoadGraph α) (limits : SearchLimits α) (source target : Nat) (d : α)
    (todo : List (EdgeView α)) (s : Search α) : Prop extends Invariant g source d todo s where
  within : ∀ v l, s.label? v = some l → l.settled = true → l.distance ≤ limits.maxDistance
  missed : ∀ l, s.label? target = some l → ¬ l.distance ≤ limits.maxDistance

/-- How a run ends: at an edge that leads from a settled node to the target, with nothing left to
settle within the limit, or with as many nodes settled as `count`. -/
inductive Ends (g : RoadGraph α) (limits : SearchLimits α) (source target count : Nat) :
    Route α → Prop
  | found {d : α} {todo : List (EdgeView α)} {s : Search α} {n : Nat} {e : EdgeView α}
      (h : Searching g limits source target d (e :: todo) s) (hn : s.SettledAt n d)
      (he : e ∈ g.edgesOf n) (htarget : e.adj = target)
      (hwithin : d + e.edge.length ≤ limits.maxDistance) (hrest : ∀ e' ∈ todo, e' ∈ g.edgesOf n) :
      Ends g limits source target count (SearchLimits.found (d + e.edge.length))
  | tooLong {d : α} {s : Search α} (h : Searching g limits source target d [] s)
      (hopen : ∀ v l, s.label? v = some l → l.settled = false → limits.maxDistance < l.distance) :
      Ends g limits source target count (limits.exhausted .tooLong)
  | tooManyNodes {d : α} {s : Search α} (h : Searching g limits source target d [] s)
      (hcount : s.settled = count) :
      Ends g limits source target count (limits.exhausted .tooManyNodes)

/-- The target is accepted at the distance that it is relaxed to: no label of it is within the
limit. -/
theorem Searching.accepted {g : RoadGraph α} {limits : SearchLimits α} {source target : Nat} {d : α}
    {todo : List (EdgeView α)} {s : Search α} (h : Searching g limits source target d todo s)
    {w w' : α} (haccept : s.accepted? limits target w = some w') :
    w' = w ∧ w ≤ limits.maxDistance := by
  unfold accepted? at haccept
  cases hl : s.label? target with
  | none =>
    simp only [hl] at haccept
    split at haccept
    case isTrue hle => exact ⟨(Option.some.inj haccept).symm, hle⟩
    case isFalse => cases haccept
  | some l =>
    simp only [hl, Scalar.lesser] at haccept
    by_cases hlower : w < l.distance ∨ ¬ l.distance ≤ l.distance
    · rw [if_pos hlower] at haccept
      split at haccept
      case isTrue hle => exact ⟨(Option.some.inj haccept).symm, hle⟩
      case isFalse => cases haccept
    · rw [if_neg hlower, if_neg (h.missed l hl)] at haccept
      cases haccept

theorem not_le_of_accepted?_none {limits : SearchLimits α} {target : Nat} {s : Search α} {w : α}
    (hnone : s.accepted? limits target w = none)
    (hlower : ∀ l, s.label? target = some l → w < l.distance) : ¬ w ≤ limits.maxDistance := by
  unfold accepted? at hnone
  cases hl : s.label? target with
  | none => simpa [hl] using hnone
  | some l => simpa [hl, Scalar.lesser, hlower l hl] using hnone

section Laws

variable [Scalar.LawfulLength α] {g : RoadGraph α} {limits : SearchLimits α}
  {source target : Nat} {d : α} {todo : List (EdgeView α)} {s : Search α}

theorem searching_start (g : RoadGraph α) (limits : SearchLimits α) (hne : source ≠ target) :
    Searching g limits source target 0 [] (start source) := by
  refine ⟨invariant_start g source, fun v l hl hsettled => ?_, fun l hl => ?_⟩
  · rw [label?_start] at hl
    split at hl
    case isTrue =>
      obtain rfl := Option.some.inj hl
      cases hsettled
    case isFalse => cases hl
  · rw [label?_start, if_neg hne.symm] at hl
    cases hl

theorem Searching.settle (hg : g.HasLengths) (h : Searching g limits source target d [] s)
    {i : Nat} {l : Label α} (hsome : s.nearest? = some (i, l))
    (hwithin : l.distance ≤ limits.maxDistance) :
    Searching g limits source target l.distance (g.edgesOf l.node) (s.settle i) := by
  obtain ⟨hi, -, -⟩ := of_nearest?_some h.indexed hsome
  refine ⟨h.toInvariant.settle hg hsome, fun v m hm hsettled => ?_, fun m hm => ?_⟩
  · rcases of_label?_settle h.indexed hi hm with ⟨-, rfl⟩ | ⟨-, hm⟩
    · exact hwithin
    · exact h.within v m hm hsettled
  · rcases of_label?_settle h.indexed hi hm with ⟨htarget, rfl⟩ | ⟨-, hm⟩
    · exact h.missed l (htarget ▸ label?_of_getElem? h.indexed hi)
    · exact h.missed m hm

theorem Searching.relax (hg : g.HasLengths) {n : Nat} {e : EdgeView α}
    (h : Searching g limits source target d (e :: todo) s) (hn : s.SettledAt n d)
    (he : e ∈ g.edgesOf n)
    (hmiss : e.adj = target → s.accepted? limits target (d + e.edge.length) = none) :
    Searching g limits source target d todo (s.relax e.adj (d + e.edge.length)) := by
  refine ⟨h.toInvariant.relax hg hn he, fun v l hl hsettled => ?_, fun l hl => ?_⟩
  · exact h.within v l ((settled_label?_relax h.indexed _ _ hsettled).mp hl) hsettled
  · rcases of_label?_relax h.indexed hl with hl | ⟨htarget, rfl, hlower⟩
    · exact h.missed l hl
    · exact not_le_of_accepted?_none (hmiss htarget.symm) (htarget ▸ hlower)

theorem relaxAll_cases (hg : g.HasLengths) {n : Nat} (todo : List (EdgeView α))
    (htodo : ∀ e ∈ todo, e ∈ g.edgesOf n) (h : Searching g limits source target d todo s)
    (hn : s.SettledAt n d) (count : Nat) :
    (∃ r, relaxAll limits target d todo s = .ended r ∧ Ends g limits source target count r) ∨
      ∃ s', relaxAll limits target d todo s = .running s' ∧
        Searching g limits source target d [] s' ∧ s'.settled = s.settled := by
  induction todo generalizing s with
  | nil => exact .inr ⟨s, rfl, h, rfl⟩
  | cons e rest ih =>
    obtain ⟨he, hrest⟩ := List.forall_mem_cons.mp htodo
    rw [relaxAll]
    cases haccept : if e.adj = target then s.accepted? limits target (d + e.edge.length)
      else none with
    | some w =>
      have htarget : e.adj = target := by
        by_contra hne
        rw [if_neg hne] at haccept
        cases haccept
      rw [if_pos htarget] at haccept
      obtain ⟨rfl, hwithin⟩ := h.accepted haccept
      exact .inl ⟨_, rfl, .found h hn he htarget hwithin hrest⟩
    | none =>
      have hmiss : e.adj = target → s.accepted? limits target (d + e.edge.length) = none := by
        intro htarget
        rwa [if_pos htarget] at haccept
      have hnext := ih hrest (h.relax hg hn he hmiss) (hn.relax h.indexed _ _)
      rwa [settled_relax] at hnext

theorem step_cases (hg : g.HasLengths) (hmax : Scalar.IsNumber limits.maxDistance)
    (h : Searching g limits source target d [] s) (count : Nat) :
    (∃ r, s.step g limits target = .ended r ∧ Ends g limits source target count r) ∨
      ∃ d' s', s.step g limits target = .running s' ∧
        Searching g limits source target d' [] s' ∧ s'.settled = s.settled + 1 := by
  unfold step
  cases hnearest : s.nearest? with
  | none =>
    refine .inl ⟨_, rfl, .tooLong h fun v l hl hopen => ?_⟩
    rw [settled_of_nearest?_none h.indexed hnearest hl] at hopen
    cases hopen
  | some p =>
    obtain ⟨i, l⟩ := p
    obtain ⟨hi, hopen, hleast⟩ := of_nearest?_some h.indexed hnearest
    have hnumber := h.number hg (label?_of_getElem? h.indexed hi)
    by_cases hbeyond : limits.maxDistance < l.distance
    · simp only [if_pos hbeyond]
      refine .inl ⟨_, rfl, .tooLong h fun v m hm hm' => ?_⟩
      have hle := Scalar.le_of_not_lt (h.number hg hm) hnumber (hleast v m hm hm')
      exact Scalar.lt_of_lt_of_le hbeyond hle
    · simp only [if_neg hbeyond]
      have hwithin := Scalar.le_of_not_lt hmax hnumber hbeyond
      rcases relaxAll_cases hg (g.edgesOf l.node) (fun _ he => he)
        (h.settle hg hnearest hwithin) (h.settledAt hnearest) count with
        ⟨r, hrun, hends⟩ | ⟨s', hrun, hs', hsettled⟩
      · exact .inl ⟨r, hrun, hends⟩
      · exact .inr ⟨_, s', hrun, hs', hsettled⟩

/-- A run ends on the way to the target, with nothing left within the limit, or with its budget
spent. -/
theorem run_ends (hg : g.HasLengths) (hmax : Scalar.IsNumber limits.maxDistance) (budget : Nat)
    (h : Searching g limits source target d [] s) :
    Ends g limits source target (s.settled + budget) (run g limits target budget s) := by
  induction budget generalizing d s with
  | zero => exact .tooManyNodes h rfl
  | succ budget ih =>
    rw [run]
    rcases step_cases hg hmax h (s.settled + (budget + 1)) with
      ⟨r, hstep, hends⟩ | ⟨d', s', hstep, hs', hsettled⟩
    · rw [hstep]
      exact hends
    · rw [hstep]
      have hends := ih hs'
      rwa [hsettled, Nat.add_assoc, Nat.add_comm 1] at hends

end Laws

end Search
end RoadAudit
