import RoadAudit.Proofs.Barrier.Segments
import RoadAudit.Proofs.Numeric.ExactValue

/-! # Barriers that are crossed

A barrier is found to be crossed just when a segment of its course has a point in common with the
segment asked for, on the plane of the exact coordinates. The test of two segments only compares
coordinates and asks for sides, which binary64 numbers answer as the real numbers do; and boxes
that do not meet have no point in common. -/

namespace RoadAudit

/-! ## Boxes -/

section Boxes

variable {α : Type} [Scalar α]

theorem Box.ofLine_cons (p : Point α) (rest : List (Point α)) :
    Box.ofLine (p :: rest) = some
      ⟨⟨(rest.map Point.lat).foldl Scalar.lesser p.lat,
          (rest.map Point.lon).foldl Scalar.lesser p.lon⟩,
        ⟨(rest.map Point.lat).foldl Scalar.greater p.lat,
          (rest.map Point.lon).foldl Scalar.greater p.lon⟩⟩ := by
  have hfold : ∀ b : Box α, rest.foldl (fun b q =>
      ⟨⟨Scalar.lesser b.low.lat q.lat, Scalar.lesser b.low.lon q.lon⟩,
        ⟨Scalar.greater b.high.lat q.lat, Scalar.greater b.high.lon q.lon⟩⟩) b =
      ⟨⟨(rest.map Point.lat).foldl Scalar.lesser b.low.lat,
          (rest.map Point.lon).foldl Scalar.lesser b.low.lon⟩,
        ⟨(rest.map Point.lat).foldl Scalar.greater b.high.lat,
          (rest.map Point.lon).foldl Scalar.greater b.high.lon⟩⟩ := by
    induction rest with
    | nil => exact fun _ => rfl
    | cons q rest ih => exact fun b => ih _
  exact congrArg some (hfold ⟨p, p⟩)

/-- The boxes of a line and of a segment meet if in neither coordinate one of them lies beyond the
other. -/
theorem Box.meets_ofSegment [Scalar.LawfulOrder α] {line : List (Point α)} {p q : Point α}
    (hsouth : ∃ r ∈ line, r.lat ≤ p.lat ∨ r.lat ≤ q.lat)
    (hnorth : ∃ r ∈ line, p.lat ≤ r.lat ∨ q.lat ≤ r.lat)
    (hwest : ∃ r ∈ line, r.lon ≤ p.lon ∨ r.lon ≤ q.lon)
    (heast : ∃ r ∈ line, p.lon ≤ r.lon ∨ q.lon ≤ r.lon) :
    (Box.ofLine line).any (fun box => box.meets (Box.ofSegment p q)) = true := by
  obtain ⟨first, rest, rfl⟩ : ∃ first rest, line = first :: rest := by
    obtain ⟨r, hr, -⟩ := hsouth
    exact List.exists_cons_of_ne_nil (List.ne_nil_of_mem hr)
  rw [Box.ofLine_cons]
  simp only [Option.any_some, Box.meets, Box.ofSegment, Bool.and_eq_true]
  refine ⟨⟨⟨?_, ?_⟩, ?_⟩, ?_⟩
  · obtain ⟨r, hr, hle⟩ := hsouth
    exact decide_eq_true (Scalar.foldl_lesser_le_iff.mpr
      ⟨r.lat, List.mem_map_of_mem hr, Scalar.le_greater_iff.mpr hle⟩)
  · obtain ⟨r, hr, hle⟩ := hnorth
    exact decide_eq_true (Scalar.le_foldl_greater_iff.mpr
      ⟨r.lat, List.mem_map_of_mem hr, Scalar.lesser_le_iff.mpr hle⟩)
  · obtain ⟨r, hr, hle⟩ := hwest
    exact decide_eq_true (Scalar.foldl_lesser_le_iff.mpr
      ⟨r.lon, List.mem_map_of_mem hr, Scalar.le_greater_iff.mpr hle⟩)
  · obtain ⟨r, hr, hle⟩ := heast
    exact decide_eq_true (Scalar.le_foldl_greater_iff.mpr
      ⟨r.lon, List.mem_map_of_mem hr, Scalar.lesser_le_iff.mpr hle⟩)

end Boxes

theorem mem_of_mem_segments {β : Type} {s : β × β} : ∀ {line : List β}, s ∈ segments line →
    s.1 ∈ line ∧ s.2 ∈ line
  | [], h => nomatch h
  | [_], h => nomatch h
  | a :: b :: rest, h => by
    rcases List.mem_cons.mp h with rfl | h
    · simp
    · obtain ⟨h₁, h₂⟩ := mem_of_mem_segments h
      exact ⟨List.mem_cons_of_mem a h₁, List.mem_cons_of_mem a h₂⟩

/-! ## Exact coordinates -/

def Point.IsFinite (p : Point Float) : Prop := p.lat.isFinite ∧ p.lon.isFinite

noncomputable def Point.exact (p : Point Float) : Point ℝ :=
  ⟨Binary64.realOf p.lat, Binary64.realOf p.lon⟩

section Exact

open Binary64

variable {a b c d p q : Point Float} {x u v : Float}

theorem side_exact (ha : a.IsFinite) (hb : b.IsFinite) (hc : c.IsFinite) :
    side a.exact b.exact c.exact = side a b c :=
  turn_realOf ha.2 ha.1 hb.2 hb.1 hc.2 hc.1

theorem same_exact (ha : a.IsFinite) (hb : b.IsFinite) : a.exact.same b.exact = a.same b := by
  simp only [Point.same, Scalar.same, Point.exact, realOf_le_realOf, ha.1, ha.2, hb.1, hb.2]

theorem isBetween_realOf (hx : x.isFinite) (hu : u.isFinite) (hv : v.isFinite) :
    isBetween (realOf x) (realOf u) (realOf v) = isBetween x u v := by
  simp only [isBetween, realOf_le_realOf, realOf_lt_realOf, hx, hu, hv]

theorem inBox_exact (hp : p.IsFinite) (ha : a.IsFinite) (hb : b.IsFinite) :
    inBox p.exact a.exact b.exact = inBox p a b := by
  simp only [inBox, Point.exact, isBetween_realOf, hp.1, hp.2, ha.1, ha.2, hb.1, hb.2]

theorem onSegment_exact (hp : p.IsFinite) (ha : a.IsFinite) (hb : b.IsFinite) :
    onSegment p.exact a.exact b.exact = onSegment p a b := by
  rw [onSegment, side_exact ha hb hp, inBox_exact hp ha hb, onSegment]

/-- The test of two segments is that of exact arithmetic. -/
theorem segmentsMeet_exact (ha : a.IsFinite) (hb : b.IsFinite) (hc : c.IsFinite)
    (hd : d.IsFinite) :
    segmentsMeet a.exact b.exact c.exact d.exact = segmentsMeet a b c d := by
  simp only [segmentsMeet, same_exact ha hb, onSegment_exact ha hc hd, side_exact ha hb hc,
    side_exact ha hb hd, side_exact hc hd ha, side_exact hc hd hb, inBox_exact hc ha hb,
    inBox_exact hd ha hb, inBox_exact hb hc hd]

theorem le_or_le_of_mem_uIcc (hx : x.isFinite) (hu : u.isFinite) (hv : v.isFinite) {z : ℝ}
    (hxz : realOf x ≤ z) (hz : z ∈ Set.uIcc (realOf u) (realOf v)) : x ≤ u ∨ x ≤ v :=
  (le_max_iff.mp hz.2).imp (fun h => (realOf_le_realOf hx hu).mp (hxz.trans h))
    fun h => (realOf_le_realOf hx hv).mp (hxz.trans h)

theorem ge_or_ge_of_mem_uIcc (hx : x.isFinite) (hu : u.isFinite) (hv : v.isFinite) {z : ℝ}
    (hzx : z ≤ realOf x) (hz : z ∈ Set.uIcc (realOf u) (realOf v)) : u ≤ x ∨ v ≤ x :=
  (min_le_iff.mp hz.1).imp (fun h => (realOf_le_realOf hu hx).mp (h.trans hzx))
    fun h => (realOf_le_realOf hv hx).mp (h.trans hzx)

theorem not_beyond (coord : Point Float → Float) {line : List (Point Float)} (ha : a ∈ line)
    (hb : b ∈ line) (hfinite : ∀ r ∈ [a, b, p, q], (coord r).isFinite) {z : ℝ}
    (hab : z ∈ Set.uIcc (realOf (coord a)) (realOf (coord b)))
    (hpq : z ∈ Set.uIcc (realOf (coord p)) (realOf (coord q))) :
    (∃ r ∈ line, coord r ≤ coord p ∨ coord r ≤ coord q) ∧
      ∃ r ∈ line, coord p ≤ coord r ∨ coord q ≤ coord r := by
  simp only [List.mem_cons, List.not_mem_nil, or_false, forall_eq_or_imp, forall_eq] at hfinite
  obtain ⟨hfa, hfb, hfp, hfq⟩ := hfinite
  constructor
  · rcases min_le_iff.mp hab.1 with hz | hz
    · exact ⟨a, ha, le_or_le_of_mem_uIcc hfa hfp hfq hz hpq⟩
    · exact ⟨b, hb, le_or_le_of_mem_uIcc hfb hfp hfq hz hpq⟩
  · rcases le_max_iff.mp hab.2 with hz | hz
    · exact ⟨a, ha, ge_or_ge_of_mem_uIcc hfa hfp hfq hz hpq⟩
    · exact ⟨b, hb, ge_or_ge_of_mem_uIcc hfb hfp hfq hz hpq⟩

end Exact

namespace BarrierIndex

open Binary64

variable {lines : List (List (Point Float))} {p q : Point Float}

theorem box_meets {line : List (Point Float)} {s : Point Float × Point Float}
    (hline : ∀ r ∈ line, r.IsFinite) (hp : p.IsFinite) (hq : q.IsFinite) (hs : s ∈ segments line)
    (hmeets : (segment ℝ s.1.exact.xy s.2.exact.xy ∩ segment ℝ p.exact.xy q.exact.xy).Nonempty) :
    (Box.ofLine line).any (fun box => box.meets (Box.ofSegment p q)) = true := by
  obtain ⟨z, hz, hz'⟩ := hmeets
  obtain ⟨hlon, hlat⟩ := mem_uIcc_of_mem_segment hz
  obtain ⟨hlon', hlat'⟩ := mem_uIcc_of_mem_segment hz'
  obtain ⟨h₁, h₂⟩ := mem_of_mem_segments hs
  have hfinite : ∀ r ∈ [s.1, s.2, p, q], r.IsFinite := by
    simp [hline _ h₁, hline _ h₂, hp, hq]
  obtain ⟨hsouth, hnorth⟩ :=
    not_beyond Point.lat h₁ h₂ (fun r hr => (hfinite r hr).1) hlat hlat'
  obtain ⟨hwest, heast⟩ :=
    not_beyond Point.lon h₁ h₂ (fun r hr => (hfinite r hr).2) hlon hlon'
  exact Box.meets_ofSegment hsouth hnorth hwest heast

theorem crosses_iff (hlines : ∀ line ∈ lines, ∀ r ∈ line, r.IsFinite) (hp : p.IsFinite)
    (hq : q.IsFinite) : (ofLines lines).crosses p q = true ↔
      ∃ line ∈ lines, 2 ≤ line.length ∧ ∃ s ∈ segments line,
        (segment ℝ s.1.exact.xy s.2.exact.xy ∩ segment ℝ p.exact.xy q.exact.xy).Nonempty := by
  have hmeet : ∀ line ∈ lines, ∀ s ∈ segments line, (segmentsMeet s.1 s.2 p q = true ↔
      (segment ℝ s.1.exact.xy s.2.exact.xy ∩ segment ℝ p.exact.xy q.exact.xy).Nonempty) := by
    intro line hline s hs
    obtain ⟨h₁, h₂⟩ := mem_of_mem_segments hs
    rw [← segmentsMeet_exact (hlines line hline _ h₁) (hlines line hline _ h₂) hp hq,
      segmentsMeet_iff]
  simp only [crosses, lines_ofLines, List.any_eq_true, List.mem_filter, decide_eq_true_eq,
    Bool.and_eq_true]
  constructor
  · rintro ⟨line, ⟨hline, htwo⟩, -, s, hs, h⟩
    exact ⟨line, hline, htwo, s, hs, (hmeet line hline s hs).mp h⟩
  · rintro ⟨line, hline, htwo, s, hs, h⟩
    exact ⟨line, ⟨hline, htwo⟩, box_meets (hlines line hline) hp hq hs h, s, hs,
      (hmeet line hline s hs).mpr h⟩

/-- With finite coordinates a segment is said to cross a barrier just when it has a point in common
with a segment of the course of one: single points are no barriers, touching is crossing, and the
direction of the segment does not matter. -/
theorem crosses_iff_common_point (lines : List (List (Point Float))) (p q : Point Float)
    (hlines : ∀ line ∈ lines, ∀ r ∈ line, r.IsFinite) (hp : p.IsFinite) (hq : q.IsFinite) :
    ((ofLines lines).crosses p q = true ↔
      ∃ line ∈ lines, 2 ≤ line.length ∧ ∃ s ∈ segments line,
        (segment ℝ s.1.exact.xy s.2.exact.xy ∩ segment ℝ p.exact.xy q.exact.xy).Nonempty) ∧
    (ofLines lines).crosses q p = (ofLines lines).crosses p q := by
  refine ⟨crosses_iff hlines hp hq, ?_⟩
  rw [Bool.eq_iff_iff, crosses_iff hlines hp hq, crosses_iff hlines hq hp]
  simp only [segment_symm ℝ q.exact.xy p.exact.xy]

/-- A segment that goes on north where a fence ends meets the fence in the end alone. -/
theorem crosses_iff_common_point_fence :
    let fence : List (List (Point Float)) := [[⟨49, 8⟩, ⟨51, 8⟩], [⟨52, 8⟩]]
    let p : Point Float := ⟨51, 8⟩
    let q : Point Float := ⟨53, 8⟩
    (∀ line ∈ fence, ∀ r ∈ line, r.IsFinite) ∧ p.IsFinite ∧ q.IsFinite ∧
      (ofLines fence).crosses p q = true ∧ (ofLines fence).crosses q p = true ∧
      ∃ line ∈ fence, 2 ≤ line.length ∧ ∃ s ∈ segments line,
        (segment ℝ s.1.exact.xy s.2.exact.xy ∩ segment ℝ p.exact.xy q.exact.xy).Nonempty := by
  intro fence p q
  have hfence : ∀ line ∈ fence, ∀ r ∈ line, r.IsFinite := by
    simp only [fence, List.mem_cons, List.not_mem_nil, or_false, forall_eq_or_imp, forall_eq,
      Point.IsFinite]
    decide +kernel
  have hp : p.IsFinite := by constructor <;> decide +kernel
  have hq : q.IsFinite := by constructor <;> decide +kernel
  have hcrosses : (ofLines fence).crosses p q = true := by decide +kernel
  obtain ⟨hiff, hback⟩ := crosses_iff_common_point fence p q hfence hp hq
  exact ⟨hfence, hp, hq, hcrosses, hback.trans hcrosses, hiff.mp hcrosses⟩

end BarrierIndex

end RoadAudit
