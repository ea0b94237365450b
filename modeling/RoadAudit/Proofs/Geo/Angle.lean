import Mathlib.Data.Set.Image
import Mathlib.Order.Bounds.Basic
import Mathlib.Tactic
import RoadAudit.Geo.Angle
import RoadAudit.Proofs.Numeric.RealScalar

/-! # Angles in exact arithmetic

An angle between two directions is the least turn from one to the other. In exact arithmetic that is
what the remainder and the foldings come to, for headings of any size and sign: a heading is only
known up to whole turns, a line up to half turns. -/

namespace RoadAudit

open scoped Scalar

/-! ## Least turns -/

/-- The sizes of all turns by `x`, up or down to whole turns of `period`. -/
def turns (period x : ℝ) : Set ℝ := Set.range fun k : ℤ => |x + period * k|

variable {period x : ℝ}

theorem turns_neg (period x : ℝ) : turns period (-x) = turns period x := by
  have hsubset : ∀ y, turns period (-y) ⊆ turns period y := by
    rintro y _ ⟨k, rfl⟩
    refine ⟨-k, ?_⟩
    dsimp only
    rw [← abs_neg]
    push_cast
    ring_nf
  refine (hsubset x).antisymm ?_
  simpa only [neg_neg] using hsubset (-x)

theorem turns_add (period x : ℝ) (m : ℤ) : turns period (x + period * m) = turns period x := by
  have hsubset : ∀ (y : ℝ) (n : ℤ), turns period (y + period * n) ⊆ turns period y := by
    rintro y n _ ⟨k, rfl⟩
    refine ⟨n + k, ?_⟩
    dsimp only
    push_cast
    ring_nf
  refine (hsubset x m).antisymm ?_
  have hback := hsubset (x + period * m) (-m)
  push_cast at hback
  rwa [mul_neg, add_neg_cancel_right] at hback

theorem isLeast_turns (hperiod : 0 < period) {k : ℤ} (hhalf : |x + period * k| ≤ period / 2) :
    IsLeast (turns period x) |x + period * k| := by
  refine ⟨⟨k, rfl⟩, ?_⟩
  rintro _ ⟨j, rfl⟩
  dsimp only
  rcases eq_or_ne j k with rfl | hne
  · rfl
  · have hstep : (1 : ℝ) ≤ |((j - k : ℤ) : ℝ)| := by
      exact_mod_cast Int.one_le_abs (sub_ne_zero.mpr hne)
    have hapart : period ≤ |x + period * j - (x + period * k)| := by
      have heq : x + period * j - (x + period * k) = period * ((j - k : ℤ) : ℝ) := by
        push_cast
        ring
      rw [heq, abs_mul, abs_of_pos hperiod]
      exact le_mul_of_one_le_right hperiod.le hstep
    have htriangle := abs_sub (x + period * j) (x + period * k)
    linarith

/-- What an angle between directions is to be that are known up to whole turns of `period`. -/
structure IsAngleModulo (period : ℝ) (angle : ℝ → ℝ → ℝ) : Prop where
  symm : ∀ a b, angle a b = angle b a
  mem : ∀ a b, angle a b ∈ Set.Icc 0 (period / 2)
  add_turns : ∀ (a b : ℝ) (k l : ℤ), angle (a + period * k) (b + period * l) = angle a b
  isLeast : ∀ a b, IsLeast (turns period (a - b)) (angle a b)

theorem isAngleModulo_of_turn {angle : ℝ → ℝ → ℝ} (hperiod : 0 < period)
    (hle : ∀ a b, angle a b ≤ period / 2) (hturn : ∀ a b, angle a b ∈ turns period (a - b)) :
    IsAngleModulo period angle := by
  have hleast : ∀ a b, IsLeast (turns period (a - b)) (angle a b) := by
    intro a b
    obtain ⟨k, hk⟩ := hturn a b
    have hhalf := hle a b
    rw [← hk] at hhalf ⊢
    exact isLeast_turns hperiod hhalf
  refine ⟨fun a b => ?_, fun a b => ⟨?_, hle a b⟩, fun a b k l => ?_, hleast⟩
  · have hback := hleast b a
    rw [← neg_sub, turns_neg] at hback
    exact (hleast a b).unique hback
  · obtain ⟨k, hk⟩ := hturn a b
    rw [← hk]
    exact abs_nonneg _
  · have hmoved := hleast (a + period * k) (b + period * l)
    have hdifference : a + period * k - (b + period * l) = a - b + period * ((k - l : ℤ) : ℝ) := by
      push_cast
      ring
    rw [hdifference, turns_add] at hmoved
    exact hmoved.unique (hleast a b)

/-! ## Headings and lines -/

theorem magnitude_real (x : ℝ) : Scalar.magnitude x = |x| := by
  unfold Scalar.magnitude
  rw [Scalar.ofNat_real, Nat.cast_zero]
  split
  case isTrue hneg => exact (abs_of_neg hneg).symm
  case isFalse hnonneg => exact (abs_of_nonneg (not_lt.mp hnonneg)).symm

theorem truncatedRem_mem (hx : 0 ≤ x) (hperiod : 0 < period) :
    truncatedRem x period ∈ Set.Ico 0 period ∧
      ∃ k : ℤ, truncatedRem x period = x + period * k := by
  have hrem : truncatedRem x period = x - period * ⌊x / period⌋ := by
    rw [truncatedRem, if_neg (not_lt.mpr (div_nonneg hx hperiod.le))]
  rw [hrem, mul_comm]
  refine ⟨⟨?_, ?_⟩, -⌊x / period⌋, ?_⟩
  · exact Int.sub_floor_div_mul_nonneg x hperiod
  · exact Int.sub_floor_div_mul_lt x hperiod
  · push_cast
    ring

theorem headingAngle_real (a b : ℝ) : headingAngle a b =
    if 180 < truncatedRem |a - b| 360 then 360 - truncatedRem |a - b| 360
    else truncatedRem |a - b| 360 := by
  have h360 : (Scalar.ofNat 360 : ℝ) = 360 := Nat.cast_ofNat
  have h180 : (Scalar.ofNat 180 : ℝ) = 180 := Nat.cast_ofNat
  rw [← magnitude_real, ← h360, ← h180]
  rfl

theorem lineAngle_real (a b : ℝ) :
    lineAngle a b = min (headingAngle a b) (180 - headingAngle a b) := by
  have h180 : (Scalar.ofNat 180 : ℝ) = 180 := Nat.cast_ofNat
  rw [← Scalar.lesser_real, ← h180]
  rfl

theorem headingAngle_mem_turns (a b : ℝ) :
    headingAngle a b ≤ 180 ∧ headingAngle a b ∈ turns 360 (a - b) := by
  obtain ⟨⟨hnonneg, hlt⟩, k, hk⟩ :=
    truncatedRem_mem (abs_nonneg (a - b)) (show (0 : ℝ) < 360 by norm_num)
  have hmem : ∀ y, turns 360 |y| = turns 360 y := by
    intro y
    rcases abs_choice y with h | h
    · rw [h]
    · rw [h, turns_neg]
  rw [headingAngle_real, ← hmem]
  split
  case isTrue hfar =>
    refine ⟨by linarith, k - 1, ?_⟩
    have hbelow : |a - b| + 360 * ((k - 1 : ℤ) : ℝ) = truncatedRem |a - b| 360 - 360 := by
      push_cast
      rw [hk]
      ring
    dsimp only
    rw [hbelow, abs_of_nonpos (by linarith), neg_sub]
  case isFalse hnear =>
    refine ⟨not_lt.mp hnear, k, ?_⟩
    dsimp only
    rw [← hk, abs_of_nonneg hnonneg]

theorem turns_subset (x : ℝ) : turns 360 x ⊆ turns 180 x := by
  rintro _ ⟨k, rfl⟩
  refine ⟨2 * k, ?_⟩
  dsimp only
  push_cast
  ring_nf

theorem lineAngle_mem_turns (a b : ℝ) :
    lineAngle a b ≤ 90 ∧ lineAngle a b ∈ turns 180 (a - b) := by
  obtain ⟨hle, hmem⟩ := headingAngle_mem_turns a b
  rw [lineAngle_real]
  have hhalf : min (headingAngle a b) (180 - headingAngle a b) ≤ 90 := by
    rcases min_cases (headingAngle a b) (180 - headingAngle a b) with h | h <;> linarith
  refine ⟨hhalf, ?_⟩
  rcases min_choice (headingAngle a b) (180 - headingAngle a b) with h | h
  · rw [h]
    exact turns_subset _ hmem
  · rw [h]
    obtain ⟨k, hk⟩ := hmem
    dsimp only at hk
    rcases abs_choice (a - b + 360 * k) with hsign | hsign
    · refine ⟨2 * k - 1, ?_⟩
      have hbelow : a - b + 180 * ((2 * k - 1 : ℤ) : ℝ) = headingAngle a b - 180 := by
        push_cast
        linarith
      dsimp only
      rw [hbelow, abs_of_nonpos (by linarith), neg_sub]
    · refine ⟨2 * k + 1, ?_⟩
      have habove : a - b + 180 * ((2 * k + 1 : ℤ) : ℝ) = 180 - headingAngle a b := by
        push_cast
        linarith
      dsimp only
      rw [habove, abs_of_nonneg (by linarith)]

/-- The angle between headings is the least turn from one to the other up to whole turns, and the
angle between a heading and a line is the least one up to half turns, whatever the headings are. -/
theorem angles_are_least_turns :
    IsAngleModulo 360 (headingAngle : ℝ → ℝ → ℝ) ∧ IsAngleModulo 180 (lineAngle : ℝ → ℝ → ℝ) := by
  constructor
  · refine isAngleModulo_of_turn (by norm_num) (fun a b => ?_) fun a b =>
      (headingAngle_mem_turns a b).2
    have hle := (headingAngle_mem_turns a b).1
    linarith
  · refine isAngleModulo_of_turn (by norm_num) (fun a b => ?_) fun a b =>
      (lineAngle_mem_turns a b).2
    have hle := (lineAngle_mem_turns a b).1
    linarith

end RoadAudit
