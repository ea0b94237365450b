import RoadAudit.Geo.Polyline

/-! # The segment under a point

The segment that a point is found on is one of the polyline, with the point in its widened box; and
one is found whenever there is a segment with the point in its widened box. No law of the scalars is
needed for that: which of several segments wins depends on their directions, that one wins does not.
-/

namespace RoadAudit

open scoped Scalar

/-! ## Segments -/

section Segments

variable {β : Type}

/-- The segments of a polyline join neighbours. -/
theorem getElem?_segments_eq_some_iff {course : List β} {i : Nat} {a b : β} :
    (segments course)[i]? = some (a, b) ↔ course[i]? = some a ∧ course[i + 1]? = some b := by
  induction course generalizing i with
  | nil => simp
  | cons x rest ih =>
    cases rest with
    | nil => simp
    | cons y rest =>
      cases i with
      | zero => simp
      | succ i => simpa using ih (i := i)

theorem segments_append_pair (line : List β) (a b : β) :
    segments (line ++ [a, b]) = segments (line ++ [a]) ++ [(a, b)] := by
  induction line with
  | nil => rfl
  | cons x rest ih =>
    cases rest with
    | nil => rfl
    | cons y rest => simpa using ih

/-- Walked the other way, a polyline has its segments in the opposite order and direction. -/
theorem segments_reverse (line : List β) :
    segments line.reverse = ((segments line).map Prod.swap).reverse := by
  induction line with
  | nil => rfl
  | cons a rest ih =>
    cases rest with
    | nil => rfl
    | cons b rest =>
      rw [List.reverse_cons] at ih
      rw [List.reverse_cons, List.reverse_cons, List.append_assoc]
      change segments (rest.reverse ++ [b, a]) = _
      rw [segments_append_pair, ih, segments_cons_cons, List.map_cons, List.reverse_cons]
      rfl

end Segments

/-! ## The segment that is found -/

variable {α : Type} [Scalar α]

theorem betterSegment_cases (best : Option (Nat × α)) (i : Nat) (d : α) :
    betterSegment best i d = some (i, d) ∨ betterSegment best i d = best ∧ best ≠ none := by
  cases best with
  | none => exact .inl rfl
  | some b =>
    rw [betterSegment]
    split
    · exact .inl rfl
    · exact .inr ⟨rfl, Option.some_ne_none b⟩

theorem of_bestSegment {p : Point α} {i j : Nat} {d : α} {best : Option (Nat × α)}
    {segs : List (Point α × Point α)} (h : bestSegment p i best segs = some (j, d)) :
    best = some (j, d) ∨ ∃ k s, j = i + k ∧ segs[k]? = some s ∧ inWidenedBox p s.1 s.2 = true := by
  induction segs generalizing i best with
  | nil => exact .inl h
  | cons s rest ih =>
    rcases ih h with hbest | ⟨k, t, rfl, ht, hbox⟩
    · split at hbest
      case isTrue hbox =>
        rcases betterSegment_cases best i (deviation p s.1 s.2) with hbetter | ⟨hbetter, -⟩
        · rw [hbetter] at hbest
          obtain ⟨rfl, -⟩ := Prod.mk.inj (Option.some.inj hbest)
          exact .inr ⟨0, s, rfl, rfl, hbox⟩
        · exact .inl (hbetter.symm.trans hbest)
      case isFalse => exact .inl hbest
    · exact .inr ⟨k + 1, t, by omega, ht, hbox⟩

theorem bestSegment_eq_none_iff {p : Point α} {i : Nat} {best : Option (Nat × α)}
    {segs : List (Point α × Point α)} :
    bestSegment p i best segs = none ↔
      best = none ∧ ∀ s ∈ segs, inWidenedBox p s.1 s.2 = false := by
  induction segs generalizing i best with
  | nil => simp [bestSegment]
  | cons s rest ih =>
    rw [bestSegment, ih, List.forall_mem_cons]
    cases hbox : inWidenedBox p s.1 s.2 with
    | false => simp
    | true =>
      have hne : betterSegment best i (deviation p s.1 s.2) ≠ none := by
        rcases betterSegment_cases best i (deviation p s.1 s.2) with hbetter | ⟨hbetter, hbest⟩
        · rw [hbetter]
          exact Option.some_ne_none _
        · rw [hbetter]
          exact hbest
      simp [hne]

section SegmentUnder

variable {line : List (Point α)} {p : Point α}

/-- No segment is found just when the point is in none of the widened boxes. -/
theorem segmentUnder?_eq_none_iff :
    segmentUnder? line p = none ↔ ∀ s ∈ segments line, inWidenedBox p s.1 s.2 = false := by
  rw [segmentUnder?, Option.map_eq_none_iff, bestSegment_eq_none_iff]
  exact and_iff_right rfl

theorem lt_of_segmentUnder? {i : Nat} (h : segmentUnder? line p = some i) :
    i + 1 < line.length := by
  obtain ⟨⟨j, d⟩, hbest, rfl⟩ := Option.map_eq_some_iff.mp h
  rcases of_bestSegment hbest with hnone | ⟨k, s, rfl, hs, -⟩
  · cases hnone
  · have hlt := (List.getElem?_eq_some_iff.mp hs).1
    rw [length_segments] at hlt
    omega

/-- A point has a distance along a line just when a segment is found under it. -/
theorem distanceAlong?_eq_none_iff {m : Metric} :
    m.distanceAlong? line p = none ↔ segmentUnder? line p = none := by
  unfold Metric.distanceAlong?
  cases hi : segmentUnder? line p with
  | none => simp
  | some i =>
    have hlt : i < line.length := Nat.lt_of_succ_lt (lt_of_segmentUnder? hi)
    simp [hlt]

end SegmentUnder

end RoadAudit
