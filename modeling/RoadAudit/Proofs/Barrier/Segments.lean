import Mathlib.Analysis.Convex.Segment
import Mathlib.Tactic
import RoadAudit.Barrier.Index
import RoadAudit.Proofs.Numeric.RealScalar

/-! # Segments of the plane

With exact arithmetic the test of two segments is right: it holds just when they have a point in
common. Where the ends of one lie on different sides of the other and the other way round, the
common point is where the two lines cross; where all four ends lie on one line, one of the ends is
a common point. -/

namespace RoadAudit

def Point.xy (p : Point ℝ) : ℝ × ℝ := (p.lon, p.lat)

def area (a b c : Point ℝ) : ℝ :=
  (a.lon - c.lon) * (b.lat - c.lat) - (a.lat - c.lat) * (b.lon - c.lon)

def along (a b : Point ℝ) (t : ℝ) : Point ℝ :=
  ⟨a.lat + t * (b.lat - a.lat), a.lon + t * (b.lon - a.lon)⟩

variable {a b c d p : Point ℝ} {s t u v : ℝ}

theorem xy_injective : Function.Injective Point.xy := by
  rintro ⟨lat, lon⟩ ⟨lat', lon'⟩ h
  obtain ⟨rfl, rfl⟩ := Prod.mk.inj h
  rfl

theorem mem_segment_xy {z : ℝ × ℝ} :
    z ∈ segment ℝ a.xy b.xy ↔ ∃ t, 0 ≤ t ∧ t ≤ 1 ∧ z = (along a b t).xy := by
  simp only [segment_eq_image', Set.mem_image, Set.mem_Icc, and_assoc]
  refine exists_congr fun t => and_congr_right fun _ => and_congr_right fun _ => eq_comm.trans ?_
  rfl

/-! ## Sides -/

theorem side_eq_compare : side a b c = compare (area a b c) 0 := by
  change compare _ _ = _
  rcases lt_trichotomy (area a b c) 0 with h | h | h
  · rw [compare_lt_iff_lt.mpr h]
    exact compare_lt_iff_lt.mpr (sub_neg.mp h)
  · rw [compare_eq_iff_eq.mpr h]
    exact compare_eq_iff_eq.mpr (sub_eq_zero.mp h)
  · rw [compare_gt_iff_gt.mpr h]
    exact compare_gt_iff_gt.mpr (sub_pos.mp h)

theorem side_eq_iff : side a b c = .eq ↔ area a b c = 0 := by
  rw [side_eq_compare, compare_eq_iff_eq]

theorem area_along : area c d (along a b t) = (1 - t) * area c d a + t * area c d b := by
  simp only [area, along]
  ring

theorem area_along_self : area a b (along a b t) = 0 := by
  simp only [area, along]
  ring

theorem area_sub_area : area a b c - area a b d = area c d b - area c d a := by
  simp only [area]
  ring

theorem eq_zero_of_mean (h₀ : 0 ≤ t) (h₁ : t ≤ 1) (hsign : compare u 0 = compare v 0)
    (hmean : (1 - t) * u + t * v = 0) : u = 0 ∧ v = 0 := by
  have hsum : (1 - t) + t = 1 := sub_add_cancel 1 t
  rcases lt_trichotomy u 0 with hu | hu | hu
  · have hv : v < 0 := compare_lt_iff_lt.mp (hsign ▸ compare_lt_iff_lt.mpr hu)
    have hneg : (1 - t) * u + t * v < 0 := convex_Iio (0 : ℝ) hu hv (sub_nonneg.mpr h₁) h₀ hsum
    exact absurd hmean hneg.ne
  · exact ⟨hu, compare_eq_iff_eq.mp (hsign ▸ compare_eq_iff_eq.mpr hu)⟩
  · have hv : 0 < v := compare_gt_iff_gt.mp (hsign ▸ compare_gt_iff_gt.mpr hu)
    have hpos : 0 < (1 - t) * u + t * v := convex_Ioi (0 : ℝ) hu hv (sub_nonneg.mpr h₁) h₀ hsum
    exact absurd hmean hpos.ne'

theorem area_eq_zero_of_meets (hside : side c d a = side c d b) {z : ℝ × ℝ}
    (hab : z ∈ segment ℝ a.xy b.xy) (hcd : z ∈ segment ℝ c.xy d.xy) :
    area c d a = 0 ∧ area c d b = 0 := by
  obtain ⟨s, hs₀, hs₁, rfl⟩ := mem_segment_xy.mp hab
  obtain ⟨t, -, -, hz⟩ := mem_segment_xy.mp hcd
  rw [side_eq_compare, side_eq_compare] at hside
  refine eq_zero_of_mean hs₀ hs₁ hside ?_
  rw [← area_along, xy_injective hz, area_along_self]

theorem nonpos_nonneg_of_lt (h : compare u 0 ≠ compare v 0) (hlt : u < v) : u ≤ 0 ∧ 0 ≤ v := by
  constructor
  · by_contra! hu
    exact h ((compare_gt_iff_gt.mpr hu).trans (compare_gt_iff_gt.mpr (hu.trans hlt)).symm)
  · by_contra! hv
    exact h ((compare_lt_iff_lt.mpr (hlt.trans hv)).trans (compare_lt_iff_lt.mpr hv).symm)

theorem div_sub_mem (h : compare u 0 ≠ compare v 0) :
    u - v ≠ 0 ∧ 0 ≤ u / (u - v) ∧ u / (u - v) ≤ 1 := by
  have hne : u ≠ v := fun he => h (by rw [he])
  rcases lt_or_gt_of_ne hne with hlt | hgt
  · obtain ⟨hu, hv⟩ := nonpos_nonneg_of_lt h hlt
    have hneg : u - v < 0 := sub_neg.mpr hlt
    refine ⟨hneg.ne, div_nonneg_of_nonpos hu hneg.le, (div_le_one_of_neg hneg).mpr ?_⟩
    exact sub_le_self u hv
  · obtain ⟨hv, hu⟩ := nonpos_nonneg_of_lt h.symm hgt
    have hpos : 0 < u - v := sub_pos.mpr hgt
    refine ⟨hpos.ne', div_nonneg hu hpos.le, (div_le_one hpos).mpr ?_⟩
    exact le_sub_self_iff u |>.mpr hv

theorem meets_of_sides (hab : side a b c ≠ side a b d) (hcd : side c d a ≠ side c d b) :
    (segment ℝ a.xy b.xy ∩ segment ℝ c.xy d.xy).Nonempty := by
  rw [side_eq_compare, side_eq_compare] at hab hcd
  obtain ⟨hne, ht₀, ht₁⟩ := div_sub_mem hab
  obtain ⟨hne', hs₀, hs₁⟩ := div_sub_mem hcd
  refine ⟨(along a b (area c d a / (area c d a - area c d b))).xy,
    mem_segment_xy.mpr ⟨_, hs₀, hs₁, rfl⟩, mem_segment_xy.mpr ⟨_, ht₀, ht₁, ?_⟩⟩
  have hdet : area a b c - area a b d = -(area c d a - area c d b) := by
    rw [area_sub_area, neg_sub]
  -- the point of either line at which the area with the other one is zero
  have hlat : (area c d a - area c d b) * a.lat + area c d a * (b.lat - a.lat) =
      (area c d a - area c d b) * c.lat - area a b c * (d.lat - c.lat) := by
    simp only [area]
    ring
  have hlon : (area c d a - area c d b) * a.lon + area c d a * (b.lon - a.lon) =
      (area c d a - area c d b) * c.lon - area a b c * (d.lon - c.lon) := by
    simp only [area]
    ring
  rw [hdet, div_neg]
  simp only [Point.xy, along, Prod.mk.injEq]
  constructor
  · field_simp
    linear_combination hlon
  · field_simp
    linear_combination hlat

/-! ## Points on a segment -/

theorem along_one : along a b 1 = b := by
  simp [along]

theorem along_along : along (along a b u) (along a b v) t = along a b (u + t * (v - u)) := by
  simp only [along, Point.mk.injEq]
  constructor <;> ring

theorem lat_sub_ne_zero (hab : a ≠ b) (h : a.lon = b.lon) : b.lat - a.lat ≠ 0 := fun hzero =>
  hab (xy_injective (Prod.ext h (sub_eq_zero.mp hzero).symm))

theorem along_injective (hab : a ≠ b) : Function.Injective (along a b) := by
  intro s t h
  obtain ⟨hlat, hlon⟩ := Point.mk.inj h
  by_cases hne : a.lon = b.lon
  · exact mul_right_cancel₀ (lat_sub_ne_zero hab hne) (add_left_cancel hlat)
  · exact mul_right_cancel₀ (sub_ne_zero.mpr (Ne.symm hne)) (add_left_cancel hlon)

theorem exists_along (hab : a ≠ b) (h : area a b p = 0) : ∃ t, p = along a b t := by
  simp only [area] at h
  by_cases hne : a.lon = b.lon
  · have hne' := lat_sub_ne_zero hab hne
    have hlon : (p.lon - a.lon) * (b.lat - a.lat) = 0 := by
      rw [← hne] at h
      linear_combination -h
    refine ⟨(p.lat - a.lat) / (b.lat - a.lat), xy_injective (Prod.ext ?_ ?_)⟩
    · have hsame := (mul_eq_zero.mp hlon).resolve_right hne'
      simp only [Point.xy, along, ← hne]
      linarith
    · simp only [Point.xy, along, div_mul_cancel₀ _ hne']
      ring
  · have hne' : b.lon - a.lon ≠ 0 := sub_ne_zero.mpr (Ne.symm hne)
    refine ⟨(p.lon - a.lon) / (b.lon - a.lon), xy_injective (Prod.ext ?_ ?_)⟩
    · simp only [Point.xy, along, div_mul_cancel₀ _ hne']
      ring
    · simp only [Point.xy, along]
      field_simp
      linear_combination h

theorem mem_uIcc_iff_share {x : ℝ} :
    x ∈ Set.uIcc u v ↔ ∃ t, 0 ≤ t ∧ t ≤ 1 ∧ x = u + t * (v - u) := by
  rw [← segment_eq_uIcc, segment_eq_image']
  simp only [Set.mem_image, Set.mem_Icc, and_assoc, smul_eq_mul]
  exact exists_congr fun t => and_congr_right fun _ => and_congr_right fun _ => eq_comm

theorem isBetween_iff {x : ℝ} : isBetween x u v = true ↔ x ∈ Set.uIcc u v := by
  unfold isBetween
  by_cases h : u < v
  · simp [h, Set.uIcc_of_lt h]
  · simp [h, Set.uIcc_of_ge (not_lt.mp h)]

theorem inBox_iff :
    inBox p a b = true ↔ p.lon ∈ Set.uIcc a.lon b.lon ∧ p.lat ∈ Set.uIcc a.lat b.lat := by
  rw [inBox, Bool.and_eq_true, isBetween_iff, isBetween_iff]

theorem mem_segment_of_inBox (harea : area a b p = 0) (hbox : inBox p a b = true) :
    p.xy ∈ segment ℝ a.xy b.xy := by
  obtain ⟨hlon, hlat⟩ := inBox_iff.mp hbox
  by_cases hab : a = b
  · subst hab
    rw [Set.uIcc_self, Set.mem_singleton_iff] at hlon hlat
    rw [show p = a from xy_injective (Prod.ext hlon hlat)]
    exact left_mem_segment ℝ _ _
  · obtain ⟨t, rfl⟩ := exists_along hab harea
    obtain ⟨s, hs₀, hs₁, hs⟩ := mem_uIcc_iff_share.mp hlon
    obtain ⟨s', hs₀', hs₁', hs'⟩ := mem_uIcc_iff_share.mp hlat
    -- the share is that of the longitudes, or of the latitudes where the longitudes are the same
    by_cases hne : a.lon = b.lon
    · obtain rfl : t = s' :=
        mul_right_cancel₀ (lat_sub_ne_zero hab hne) (add_left_cancel hs')
      exact mem_segment_xy.mpr ⟨t, hs₀', hs₁', rfl⟩
    · obtain rfl : t = s := mul_right_cancel₀ (sub_ne_zero.mpr (Ne.symm hne)) (add_left_cancel hs)
      exact mem_segment_xy.mpr ⟨t, hs₀, hs₁, rfl⟩

theorem mem_uIcc_of_mem_segment {z : ℝ × ℝ} (h : z ∈ segment ℝ a.xy b.xy) :
    z.1 ∈ Set.uIcc a.lon b.lon ∧ z.2 ∈ Set.uIcc a.lat b.lat := by
  obtain ⟨t, h₀, h₁, rfl⟩ := mem_segment_xy.mp h
  exact ⟨mem_uIcc_iff_share.mpr ⟨t, h₀, h₁, rfl⟩, mem_uIcc_iff_share.mpr ⟨t, h₀, h₁, rfl⟩⟩

theorem inBox_of_mem_segment (h : p.xy ∈ segment ℝ a.xy b.xy) : inBox p a b = true :=
  inBox_iff.mpr (mem_uIcc_of_mem_segment h)

theorem onSegment_iff : onSegment p a b = true ↔ p.xy ∈ segment ℝ a.xy b.xy := by
  rw [onSegment, Bool.and_eq_true, beq_iff_eq, side_eq_iff]
  refine ⟨fun h => mem_segment_of_inBox h.1 h.2, fun h => ⟨?_, inBox_of_mem_segment h⟩⟩
  obtain ⟨t, -, -, hp⟩ := mem_segment_xy.mp h
  rw [xy_injective hp, area_along_self]

/-! ## Segments on one line -/

theorem mem_or_mem_or_mem_uIcc (h : s ∈ Set.uIcc u v) (hs : s ∈ Set.Icc (0 : ℝ) 1) :
    u ∈ Set.Icc (0 : ℝ) 1 ∨ v ∈ Set.Icc (0 : ℝ) 1 ∨ (1 : ℝ) ∈ Set.uIcc u v := by
  obtain ⟨hs₀, hs₁⟩ := hs
  by_cases hu : 0 ≤ u ∧ u ≤ 1
  · exact .inl hu
  · by_cases hv : 0 ≤ v ∧ v ≤ 1
    · exact .inr (.inl hv)
    · refine .inr (.inr (Set.mem_uIcc.mpr ?_))
      rcases Set.mem_uIcc.mp h with ⟨hus, hsv⟩ | ⟨hvs, hsu⟩
      · exact .inl ⟨hus.trans hs₁, (not_le.mp fun hle => hv ⟨hs₀.trans hsv, hle⟩).le⟩
      · exact .inr ⟨hvs.trans hs₁, (not_le.mp fun hle => hu ⟨hs₀.trans hsu, hle⟩).le⟩

theorem meets_iff_of_collinear (hab : a ≠ b) (hc : area a b c = 0) (hd : area a b d = 0) :
    (segment ℝ a.xy b.xy ∩ segment ℝ c.xy d.xy).Nonempty ↔
      c.xy ∈ segment ℝ a.xy b.xy ∨ d.xy ∈ segment ℝ a.xy b.xy ∨ b.xy ∈ segment ℝ c.xy d.xy := by
  constructor
  · rintro ⟨z, hz, hz'⟩
    obtain ⟨u, rfl⟩ := exists_along hab hc
    obtain ⟨v, rfl⟩ := exists_along hab hd
    obtain ⟨s, hs₀, hs₁, rfl⟩ := mem_segment_xy.mp hz
    obtain ⟨t, ht₀, ht₁, hz'⟩ := mem_segment_xy.mp hz'
    rw [along_along] at hz'
    have hs : s ∈ Set.uIcc u v :=
      mem_uIcc_iff_share.mpr ⟨t, ht₀, ht₁, along_injective hab (xy_injective hz')⟩
    rcases mem_or_mem_or_mem_uIcc hs ⟨hs₀, hs₁⟩ with ⟨hu₀, hu₁⟩ | ⟨hv₀, hv₁⟩ | hone
    · exact .inl (mem_segment_xy.mpr ⟨u, hu₀, hu₁, rfl⟩)
    · exact .inr (.inl (mem_segment_xy.mpr ⟨v, hv₀, hv₁, rfl⟩))
    · obtain ⟨w, hw₀, hw₁, hw⟩ := mem_uIcc_iff_share.mp hone
      refine .inr (.inr (mem_segment_xy.mpr ⟨w, hw₀, hw₁, ?_⟩))
      rw [along_along, ← hw, along_one]
  · rintro (h | h | h)
    · exact ⟨_, h, left_mem_segment ℝ _ _⟩
    · exact ⟨_, h, right_mem_segment ℝ _ _⟩
    · exact ⟨_, right_mem_segment ℝ _ _, h⟩

/-! ## Two segments -/

theorem same_iff : a.same b = true ↔ a = b := by
  simp only [Point.same, Scalar.same, Bool.and_eq_true, decide_eq_true_eq, ← le_antisymm_iff]
  exact ⟨fun h => xy_injective (Prod.ext h.2 h.1), fun h => h ▸ ⟨rfl, rfl⟩⟩

/-- The test of two segments holds just when they have a point in common. -/
theorem segmentsMeet_iff :
    segmentsMeet a b c d = true ↔ (segment ℝ a.xy b.xy ∩ segment ℝ c.xy d.xy).Nonempty := by
  unfold segmentsMeet
  by_cases hab : a = b
  · subst hab
    rw [if_pos (same_iff.mpr rfl), onSegment_iff, segment_same, Set.singleton_inter_nonempty]
  · rw [if_neg fun h => hab (same_iff.mp h)]
    dsimp only
    by_cases hsides : side a b c = side a b d
    · rw [if_neg (not_not.mpr hsides)]
      by_cases hline : side a b c = .eq
      · have hc : area a b c = 0 := side_eq_iff.mp hline
        have hd : area a b d = 0 := side_eq_iff.mp (hsides ▸ hline)
        have hb : area c d b = 0 := by
          obtain ⟨u, rfl⟩ := exists_along hab hc
          obtain ⟨v, rfl⟩ := exists_along hab hd
          simp only [area, along]
          ring
        rw [if_pos hline, Bool.or_eq_true, Bool.or_eq_true, or_assoc,
          meets_iff_of_collinear hab hc hd]
        exact or_congr ⟨mem_segment_of_inBox hc, inBox_of_mem_segment⟩
          (or_congr ⟨mem_segment_of_inBox hd, inBox_of_mem_segment⟩
            ⟨mem_segment_of_inBox hb, inBox_of_mem_segment⟩)
      · rw [if_neg hline]
        refine iff_of_false Bool.false_ne_true fun ⟨z, hz, hz'⟩ => hline ?_
        exact side_eq_iff.mpr (area_eq_zero_of_meets hsides hz' hz).1
    · rw [if_pos hsides, bne_iff_ne]
      refine ⟨meets_of_sides hsides, fun ⟨z, hz, hz'⟩ hsame => hsides ?_⟩
      obtain ⟨ha, hb⟩ := area_eq_zero_of_meets hsame hz hz'
      have hsub := area_sub_area (a := a) (b := b) (c := c) (d := d)
      rw [ha, hb, sub_self] at hsub
      rw [side_eq_compare, side_eq_compare, sub_eq_zero.mp hsub]

end RoadAudit
