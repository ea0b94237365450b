import RoadAudit.Graph.Route
import RoadAudit.Proofs.Geo.Polyline
import RoadAudit.Proofs.Lists
import RoadAudit.Proofs.Numeric.Shifts

/-! # The segment under a place, from either end

Of the segments with a point in their widened boxes the one that deviates least is found, and of
several that deviate alike the first. A segment of a line walked the other way can deviate by
another number and another one can be found, but its widened box holds the same points. So a place
on an edge that has a distance from one end of it has one from the other end too. -/

namespace RoadAudit

open scoped Scalar

variable {α : Type} [Scalar α]

/-! ## The first of the least -/

/-- Whether `i` is the first of the numbered candidates that deviate least. What is no number is
neither less than anything nor equal to it. -/
structure IsFirstLeast (candidate : Nat → α → Prop) (i : Nat) (d : α) : Prop where
  mem : candidate i d
  least : ∀ j e, candidate j e → ¬ e < d
  first : ∀ j e, j < i → candidate j e → ¬ e ≤ d

/-- Whether the `i`th of some segments has the point in its widened box and deviates by `d`. -/
def IsCandidate (segs : List (Point α × Point α)) (p : Point α) (i : Nat) (d : α) : Prop :=
  ∃ s, segs[i]? = some s ∧ inWidenedBox p s.1 s.2 = true ∧ deviation p s.1 s.2 = d

/-- Whether a choice among some segments is the best one, or none if there is no candidate. -/
def IsBest (segs : List (Point α × Point α)) (p : Point α) : Option (Nat × α) → Prop
  | none => ∀ i d, ¬ IsCandidate segs p i d
  | some (i, d) => IsFirstLeast (IsCandidate segs p) i d

section Candidates

variable {segs : List (Point α × Point α)} {s : Point α × Point α} {p : Point α} {i : Nat} {d e : α}
  {best : Option (Nat × α)}

theorem IsCandidate.lt (h : IsCandidate segs p i d) : i < segs.length := by
  obtain ⟨s, hs, -⟩ := h
  exact (List.getElem?_eq_some_iff.mp hs).1

theorem isCandidate_snoc_iff : IsCandidate (segs ++ [s]) p i d ↔ IsCandidate segs p i d ∨
    i = segs.length ∧ inWidenedBox p s.1 s.2 = true ∧ deviation p s.1 s.2 = d := by
  constructor
  · rintro ⟨t, ht, hbox, hd⟩
    rcases getElem?_snoc_eq_some_iff.mp ht with hold | ⟨hi, rfl⟩
    · exact .inl ⟨t, hold, hbox, hd⟩
    · exact .inr ⟨hi, hbox, hd⟩
  · rintro (⟨t, ht, hbox, hd⟩ | ⟨hi, hbox, hd⟩)
    · exact ⟨t, getElem?_snoc_eq_some_iff.mpr (.inl ht), hbox, hd⟩
    · exact ⟨s, getElem?_snoc_eq_some_iff.mpr (.inr ⟨hi, rfl⟩), hbox, hd⟩

theorem IsBest.skip (h : IsBest segs p best) (hout : inWidenedBox p s.1 s.2 = false) :
    IsBest (segs ++ [s]) p best := by
  have hsame : IsCandidate (segs ++ [s]) p = IsCandidate segs p := by
    funext i d
    simp [isCandidate_snoc_iff, hout]
  cases best with
  | none => rwa [IsBest, hsame]
  | some b => rwa [IsBest, hsame]

theorem isFirstLeast_last [Scalar.LawfulOrder α] (hin : inWidenedBox p s.1 s.2 = true)
    (hless : ∀ j e, IsCandidate segs p j e → ¬ e ≤ deviation p s.1 s.2) :
    IsFirstLeast (IsCandidate (segs ++ [s]) p) segs.length (deviation p s.1 s.2) := by
  refine ⟨isCandidate_snoc_iff.mpr (.inr ⟨rfl, hin, rfl⟩), fun j e hj => ?_, fun j e hlt hj => ?_⟩
  · rcases isCandidate_snoc_iff.mp hj with hold | ⟨-, -, rfl⟩
    · exact fun hlt => hless j e hold (Scalar.le_of_lt hlt)
    · exact Scalar.lt_irrefl _
  · rcases isCandidate_snoc_iff.mp hj with hold | ⟨rfl, -⟩
    · exact hless j e hold
    · exact absurd hlt (Nat.lt_irrefl _)

theorem IsFirstLeast.keep (h : IsFirstLeast (IsCandidate segs p) i d)
    (hnot : ¬ deviation p s.1 s.2 < d) : IsFirstLeast (IsCandidate (segs ++ [s]) p) i d := by
  refine ⟨isCandidate_snoc_iff.mpr (.inl h.mem), fun j e hj => ?_, fun j e hlt hj => ?_⟩
  · rcases isCandidate_snoc_iff.mp hj with hold | ⟨-, -, rfl⟩
    · exact h.least j e hold
    · exact hnot
  · rcases isCandidate_snoc_iff.mp hj with hold | ⟨rfl, -⟩
    · exact h.first j e hlt hold
    · exact absurd hlt (Nat.lt_asymm h.mem.lt)

theorem IsBest.better [Scalar.LawfulOrder α] (h : IsBest segs p best)
    (hin : inWidenedBox p s.1 s.2 = true) :
    IsBest (segs ++ [s]) p (betterSegment best segs.length (deviation p s.1 s.2)) := by
  rcases best with _ | ⟨i, d⟩
  · exact isFirstLeast_last hin fun j e hj => absurd hj (h j e)
  · have hbest : IsFirstLeast (IsCandidate segs p) i d := h
    rw [betterSegment]
    split
    case isTrue hless =>
      exact isFirstLeast_last hin fun j e hj hle =>
        hbest.least j e hj (Scalar.lt_of_le_of_lt hle hless)
    case isFalse hnot => exact hbest.keep hnot

/-- The best of the segments that have been seen becomes the best of them all. -/
theorem IsBest.bestSegment [Scalar.LawfulOrder α] {rest : List (Point α × Point α)}
    (h : IsBest segs p best) :
    IsBest (segs ++ rest) p (bestSegment p segs.length best rest) := by
  induction rest generalizing segs best with
  | nil => rwa [List.append_nil]
  | cons s rest ih =>
    have hlength : segs.length + 1 = (segs ++ [s]).length := by simp
    rw [List.append_cons, RoadAudit.bestSegment, hlength]
    apply ih
    cases hbox : inWidenedBox p s.1 s.2 with
    | false => exact h.skip hbox
    | true => exact h.better hbox

end Candidates

theorem isFirstLeast_of_segmentUnder? [Scalar.LawfulOrder α] {line : List (Point α)} {p : Point α}
    {i : Nat} (h : segmentUnder? line p = some i) :
    ∃ d, IsFirstLeast (IsCandidate (segments line) p) i d := by
  obtain ⟨⟨j, d⟩, hbest, rfl⟩ := Option.map_eq_some_iff.mp h
  have hnone : IsBest ([] : List (Point α × Point α)) p none := by
    rintro i d ⟨s, hs, -⟩
    cases hs
  have hall : IsBest (segments line) p (bestSegment p 0 none (segments line)) := hnone.bestSegment
  rw [hbest] at hall
  exact ⟨d, hall⟩

/-! ## The line walked the other way -/

section Reverse

variable [Scalar.LawfulShift α] {line : List (Point α)} {p a b : Point α}

theorem inWidenedBox_swap : inWidenedBox p a b = inWidenedBox p b a := by
  have hless (x y z : α) : Scalar.lesser x y - boxSlack ≤ z ↔ Scalar.lesser y x - boxSlack ≤ z :=
    ⟨Scalar.LawfulShift.sub_le _ (Scalar.alike_lesser x y),
      Scalar.LawfulShift.sub_le _ (Scalar.alike_lesser y x)⟩
  have hgreat (x y z : α) : z ≤ Scalar.greater x y + boxSlack ↔ z ≤ Scalar.greater y x + boxSlack :=
    ⟨Scalar.LawfulShift.le_add _ (Scalar.alike_greater x y),
      Scalar.LawfulShift.le_add _ (Scalar.alike_greater y x)⟩
  simp only [inWidenedBox, hless a.lat b.lat, hless a.lon b.lon, hgreat a.lat b.lat,
    hgreat a.lon b.lon]

theorem segmentUnder?_reverse_eq_none_iff :
    segmentUnder? line.reverse p = none ↔ segmentUnder? line p = none := by
  have hswap (s : Point α × Point α) : inWidenedBox p s.swap.1 s.swap.2 = inWidenedBox p s.1 s.2 :=
    inWidenedBox_swap
  rw [segmentUnder?_eq_none_iff, segmentUnder?_eq_none_iff, segments_reverse]
  simp only [List.mem_reverse, List.forall_mem_map, hswap]

end Reverse

/-! ## Places on an edge -/

/-- A place has a route to it just when it has a distance along the edge from the base. -/
theorem RoadGraph.routeToPoint?_eq_none_iff [Scalar.LawfulShift α] {g : RoadGraph α}
    {limits : SearchLimits α} {m : Metric} {source : Nat} {v : EdgeView α} {p : Point α} :
    g.routeToPoint? limits m source v p = none ↔ m.distanceAlong? (g.geometry v) p = none := by
  have hboth : m.distanceAlong? (g.geometry v).reverse p = none ↔
      m.distanceAlong? (g.geometry v) p = none :=
    distanceAlong?_eq_none_iff.trans
      (segmentUnder?_reverse_eq_none_iff.trans distanceAlong?_eq_none_iff.symm)
  unfold routeToPoint?
  cases hbase : m.distanceAlong? (g.geometry v) p with
  | none => simp [hbase]
  | some fromBase =>
    obtain ⟨fromAdj, hadj⟩ := Option.ne_none_iff_exists'.mp
      (mt hboth.mp (hbase ▸ Option.some_ne_none fromBase))
    simp [hbase, hadj]

/-- No segment of a line is found under a point just when the point is in no widened box, and one
that is found is the first of those that deviate least. One is found on the line walked the other
way just when one is found on the line, so a place on an edge that has a distance from the base has
a route to it. -/
theorem segment_under [Scalar.LawfulShift α] (line : List (Point α)) (p : Point α) :
    (segmentUnder? line p = none ↔ ∀ s ∈ segments line, inWidenedBox p s.1 s.2 = false) ∧
    (∀ i, segmentUnder? line p = some i →
      i + 1 < line.length ∧ ∃ d, IsFirstLeast (IsCandidate (segments line) p) i d) ∧
    (segmentUnder? line.reverse p = none ↔ segmentUnder? line p = none) ∧
    ∀ (g : RoadGraph α) (limits : SearchLimits α) (m : Metric) (source : Nat) (v : EdgeView α),
      g.routeToPoint? limits m source v p = none ↔ m.distanceAlong? (g.geometry v) p = none :=
  ⟨segmentUnder?_eq_none_iff,
    fun _ hi => ⟨lt_of_segmentUnder? hi, isFirstLeast_of_segmentUnder? hi⟩,
    segmentUnder?_reverse_eq_none_iff, fun _ _ _ _ _ => RoadGraph.routeToPoint?_eq_none_iff⟩

def corner : List (Point Float) := [⟨0, 0⟩, ⟨0, 1⟩, ⟨1, 1⟩]

/-- A point on the first segment of the line is found there, whatever the directions are, and on a
segment of the line walked the other way. -/
theorem segment_under_corner :
    segmentUnder? corner ⟨0, 0.5⟩ = some 0 ∧ segmentUnder? corner.reverse ⟨0, 0.5⟩ ≠ none := by
  obtain ⟨hnone, hfound, hreverse, -⟩ := segment_under corner ⟨0, 0.5⟩
  have hsome : segmentUnder? corner ⟨0, 0.5⟩ ≠ none := fun h =>
    absurd (hnone.mp h (⟨0, 0⟩, ⟨0, 1⟩) (List.mem_cons_self ..)) (by decide)
  refine ⟨?_, mt hreverse.mp hsome⟩
  obtain ⟨i, hi⟩ := Option.ne_none_iff_exists'.mp hsome
  obtain ⟨hlt, d, ⟨s, hs, hbox, -⟩, -⟩ := hfound i hi
  match i, hlt with
  | 0, _ => exact hi
  | 1, _ =>
    obtain rfl := Option.some.inj hs
    exact absurd hbox (by decide)

end RoadAudit
