import Mathlib
import RoadAudit.Numeric.Shortest
import RoadAudit.Proofs.Numeric.BinaryProducts

/-! # Shortest decimals read back

The decimal that a binary64 number is written as lies between the midpoints to the two neighbouring
numbers, so the number is the nearest to it. It is found: on the grid of seventeen digits the step
is shorter than the interval between the midpoints. -/

namespace RoadAudit

noncomputable def Decimal.value (d : Decimal) : ℝ := d.mantissa * 10 ^ d.exponent

theorem zpow_eq_div {b : ℝ} (p : ℤ) : b ^ p = b ^ p.toNat / b ^ (-p).toNat := by
  rcases le_total 0 p with hp | hp
  · obtain ⟨n, rfl⟩ := Int.eq_ofNat_of_zero_le hp
    simp
  · obtain ⟨n, hn⟩ := Int.eq_ofNat_of_zero_le (neg_nonneg.mpr hp)
    obtain rfl : p = -(n : ℤ) := by omega
    simp

namespace Decimal

theorem lt_pow_length_digitsOf (n : ℕ) : n < 10 ^ (digitsOf n).length :=
  (Nat.length_toDigits_le_iff (by norm_num) Nat.length_toDigits_pos).mp le_rfl

theorem pow_length_digitsOf_le {n : ℕ} (hn : 0 < n) : 10 ^ ((digitsOf n).length - 1) ≤ n := by
  rcases Nat.eq_zero_or_pos ((digitsOf n).length - 1) with hzero | hpos
  · rw [hzero]
    exact hn
  · refine Nat.le_of_not_lt fun hlt => ?_
    have hle := (Nat.length_toDigits_le_iff (b := 10) (by norm_num) hpos).mpr hlt
    change (digitsOf n).length ≤ (digitsOf n).length - 1 at hle
    omega

end Decimal

namespace Shortest

open Decimal

theorem zpow_decade_le {n d : ℕ} (hn : 0 < n) (hd : 0 < d) :
    (10 : ℝ) ^ (decade n d - 1) ≤ n / d := by
  have hd' : (0 : ℝ) < d := Nat.cast_pos.mpr hd
  have hn' : (0 : ℝ) < n := Nat.cast_pos.mpr hn
  unfold decade
  split
  case isTrue hle =>
    have hquotient : 0 < n / d := Nat.div_pos hle hd
    have hdigits := pow_length_digitsOf_le hquotient
    have hpos : 0 < (digitsOf (n / d)).length := Nat.length_toDigits_pos
    rw [show ((digitsOf (n / d)).length : ℤ) - 1 = (((digitsOf (n / d)).length - 1 : ℕ) : ℤ) by
      omega, zpow_natCast]
    calc (10 : ℝ) ^ ((digitsOf (n / d)).length - 1) ≤ (n / d : ℕ) := by exact_mod_cast hdigits
      _ ≤ n / d := Nat.cast_div_le
  case isFalse hlt =>
    obtain ⟨len, hlen⟩ : ∃ len, len = (digitsOf (d / n)).length := ⟨_, rfl⟩
    have hpos : 0 < len := hlen ▸ Nat.length_toDigits_pos
    rw [← hlen]
    dsimp only
    split
    case isTrue hborder =>
      have hborder' : (n : ℝ) * 10 ^ (len - 1) = d := by exact_mod_cast hborder
      rw [show (2 : ℤ) - len - 1 = -((len - 1 : ℕ) : ℤ) by omega, zpow_neg, zpow_natCast,
        ← hborder', div_mul_cancel_left₀ hn'.ne']
    case isFalse =>
      have hdigits : d / n < 10 ^ len := hlen ▸ lt_pow_length_digitsOf (d / n)
      have hle : d ≤ n * 10 ^ len := (Nat.lt_mul_of_div_lt hdigits hn).le.trans_eq (mul_comm _ _)
      have hle' : (d : ℝ) ≤ n * 10 ^ len := by exact_mod_cast hle
      rw [show (1 : ℤ) - len - 1 = -(len : ℤ) by omega, zpow_neg, zpow_natCast, le_div_iff₀ hd',
        inv_mul_le_iff₀ (by positivity), mul_comm]
      exact hle'

/-! ## The interval that reads back -/

namespace Interval

variable {i : Interval} {tie : Tie} {c : ℕ} {p : ℤ}

noncomputable def lower (i : Interval) : ℝ := i.low / i.denominator

noncomputable def middle (i : Interval) : ℝ := i.value / i.denominator

noncomputable def upper (i : Interval) : ℝ := i.high / i.denominator

def reals (i : Interval) : Set ℝ :=
  if i.closed then Set.Icc i.lower i.upper else Set.Ioo i.lower i.upper

theorem mem_reals_of_lt {x : ℝ} (hlow : i.lower < x) (hhigh : x < i.upper) : x ∈ i.reals := by
  unfold reals
  split
  · exact ⟨hlow.le, hhigh.le⟩
  · exact ⟨hlow, hhigh⟩

theorem contains_iff (hd : 0 < i.denominator) :
    i.contains c p = true ↔ (c : ℝ) * 10 ^ p ∈ i.reals := by
  have hd' : (0 : ℝ) < i.denominator := Nat.cast_pos.mpr hd
  have hunit : (0 : ℝ) < 10 ^ (-p).toNat := by positivity
  obtain ⟨x, hx⟩ : ∃ x : ℝ, x = c * 10 ^ p.toNat * i.denominator := ⟨_, rfl⟩
  have hvalue : (c : ℝ) * 10 ^ p = x / i.denominator / 10 ^ (-p).toNat := by
    rw [zpow_eq_div, hx, mul_div_cancel_right₀ _ hd'.ne', mul_div_assoc]
  have hle : ∀ n : ℕ, n * tenPow (-p).toNat ≤ c * tenPow p.toNat * i.denominator ↔
      (n : ℝ) / i.denominator ≤ c * 10 ^ p := fun n => by
    rw [hvalue, le_div_iff₀ hunit, div_mul_eq_mul_div, div_le_div_iff_of_pos_right hd', hx]
    norm_cast
  have hge : ∀ n : ℕ, c * tenPow p.toNat * i.denominator ≤ n * tenPow (-p).toNat ↔
      (c : ℝ) * 10 ^ p ≤ n / i.denominator := fun n => by
    rw [hvalue, div_le_iff₀ hunit, div_mul_eq_mul_div, div_le_div_iff_of_pos_right hd', hx]
    norm_cast
  unfold contains reals
  dsimp only
  split
  · rw [Bool.and_eq_true, decide_eq_true_iff, decide_eq_true_iff, hle, hge, Set.mem_Icc]
    rfl
  · rw [Bool.and_eq_true, decide_eq_true_iff, decide_eq_true_iff, ← not_le, ← not_le, hle, hge,
      not_le, not_le, Set.mem_Ioo]
    rfl

/-- The number of steps of a grid that are below a number. -/
def below (i : Interval) (p : ℤ) : ℕ :=
  i.value * tenPow (-p).toNat / (i.denominator * tenPow p.toNat)

/-- What is found on a grid reads back, and where nothing is found neither neighbour does. -/
theorem onGrid?_cases (i : Interval) (tie : Tie) (p : ℤ) :
    (∃ c, i.onGrid? tie p = some c ∧ i.contains c p = true) ∨
      i.onGrid? tie p = none ∧ i.contains (i.below p) p = false ∧
        i.contains (i.below p + 1) p = false := by
  unfold onGrid?
  dsimp only
  split
  case h_1 hbelow habove =>
    left
    split
    · exact ⟨_, rfl, hbelow⟩
    · split
      · exact ⟨_, rfl, habove⟩
      · cases tie with
        | up => exact ⟨_, rfl, habove⟩
        | even =>
          dsimp only
          split
          · exact ⟨_, rfl, hbelow⟩
          · exact ⟨_, rfl, habove⟩
  case h_2 hbelow _ => exact .inl ⟨_, rfl, hbelow⟩
  case h_3 _ habove => exact .inl ⟨_, rfl, habove⟩
  case h_4 hbelow habove => exact .inr ⟨rfl, hbelow, habove⟩

theorem contains_of_onGrid? (h : i.onGrid? tie p = some c) : i.contains c p = true := by
  rcases i.onGrid?_cases tie p with ⟨c', hsome, hcontains⟩ | ⟨hnone, -⟩
  · obtain rfl := Option.some.inj (h.symm.trans hsome)
    exact hcontains
  · cases h.symm.trans hnone

/-- A number is between its neighbours on a grid. -/
theorem middle_mem_step (hd : 0 < i.denominator) (p : ℤ) :
    (i.below p : ℝ) * 10 ^ p ≤ i.middle ∧ i.middle < ((i.below p + 1 : ℕ) : ℝ) * 10 ^ p := by
  have hden : (0 : ℝ) < i.denominator * 10 ^ p.toNat :=
    mul_pos (Nat.cast_pos.mpr hd) (by positivity)
  have hstep : 0 < i.denominator * tenPow p.toNat := by exact_mod_cast hden
  have hmiddle : i.middle =
      i.value * 10 ^ (-p).toNat / (i.denominator * 10 ^ p.toNat) * 10 ^ p := by
    have hpow : (10 : ℝ) ^ (-p).toNat ≠ 0 := by positivity
    rw [zpow_eq_div, middle]
    field_simp
  have hfloor := Nat.div_mul_le_self (i.value * tenPow (-p).toNat) (i.denominator * tenPow p.toNat)
  have hnext := Nat.lt_mul_of_div_lt (Nat.lt_succ_self (i.below p)) hstep
  rw [hmiddle]
  constructor
  · refine mul_le_mul_of_nonneg_right ((le_div_iff₀ hden).mpr ?_) (by positivity)
    exact_mod_cast hfloor
  · refine mul_lt_mul_of_pos_right ((div_lt_iff₀ hden).mpr ?_) (by positivity)
    exact_mod_cast hnext

/-- The step of a grid without a hit is at least the width of the interval. -/
theorem width_le_of_onGrid? (hd : 0 < i.denominator) (hlow : i.lower < i.middle)
    (hhigh : i.middle < i.upper) (h : i.onGrid? tie p = none) :
    i.upper - i.lower ≤ 10 ^ p := by
  rcases i.onGrid?_cases tie p with ⟨c, hsome, -⟩ | ⟨-, hbelow, habove⟩
  · cases h.symm.trans hsome
  · have hmiss := mt (contains_iff hd).mpr (Bool.eq_false_iff.mp hbelow)
    have hmiss' := mt (contains_iff hd).mpr (Bool.eq_false_iff.mp habove)
    obtain ⟨hfloor, hnext⟩ := middle_mem_step hd p
    have hleft : (i.below p : ℝ) * 10 ^ p ≤ i.lower := not_lt.mp fun hlt =>
      hmiss (mem_reals_of_lt hlt (hfloor.trans_lt hhigh))
    have hright : i.upper ≤ ((i.below p + 1 : ℕ) : ℝ) * 10 ^ p := not_lt.mp fun hlt =>
      hmiss' (mem_reals_of_lt (hlow.trans hnext) hlt)
    push_cast at hright
    linarith

end Interval

/-! ## The interval of a number -/

variable {m : ℕ} {e : ℤ}

theorem denominator_pos : 0 < (interval m e).denominator := Nat.two_pow_pos _

/-- How far the lower midpoint is below a number, in steps of its mantissa. -/
noncomputable def belowGap (m : ℕ) (e : ℤ) : ℝ :=
  ((if Binary64.isPowerBorder m e then 1 else 2 : ℕ) : ℝ) / (4 : ℕ)

theorem quarters_div (n : ℕ) :
    ((n * twoPow (e - 2).toNat : ℕ) : ℝ) / (twoPow (2 - e).toNat : ℕ) = n / 4 * 2 ^ e := by
  have hshift : (2 : ℝ) ^ e = 4 * 2 ^ (e - 2) := by
    rw [zpow_sub₀ two_ne_zero]
    norm_num
    ring
  rw [hshift, zpow_eq_div (e - 2), neg_sub, twoPow, twoPow]
  push_cast [Nat.pow_eq]
  ring

theorem lower_interval (hm : 0 < m) : (interval m e).lower = (m - belowGap m e) * 2 ^ e := by
  change (((4 * m - if Binary64.isPowerBorder m e then 1 else 2) * twoPow (e - 2).toNat : ℕ) : ℝ) /
    (twoPow (2 - e).toNat : ℕ) = _
  rw [quarters_div, belowGap]
  split
  · rw [Nat.cast_sub (by omega)]
    push_cast
    ring
  · rw [Nat.cast_sub (by omega)]
    push_cast
    ring

theorem middle_interval : (interval m e).middle = m * 2 ^ e := by
  change ((4 * m * twoPow (e - 2).toNat : ℕ) : ℝ) / (twoPow (2 - e).toNat : ℕ) = _
  rw [quarters_div]
  push_cast
  ring

theorem upper_interval : (interval m e).upper = (m + 1 / 2) * 2 ^ e := by
  change (((4 * m + 2) * twoPow (e - 2).toNat : ℕ) : ℝ) / (twoPow (2 - e).toNat : ℕ) = _
  rw [quarters_div]
  push_cast
  ring

theorem belowGap_pos : 0 < belowGap m e := by
  unfold belowGap
  split <;> norm_num

theorem zpow_decade_lt_width (h : Binary64.IsCanonical m e) :
    (10 : ℝ) ^ (decade (interval m e).value (interval m e).denominator - (17 : ℕ)) <
      (interval m e).upper - (interval m e).lower := by
  have hvalue : 0 < (interval m e).value :=
    Nat.mul_pos (Nat.mul_pos (by norm_num) h.pos) (Nat.two_pow_pos _)
  have hle := zpow_decade_le hvalue denominator_pos (d := (interval m e).denominator)
  have hmiddle : ((interval m e).value : ℝ) / (interval m e).denominator = m * 2 ^ e :=
    middle_interval
  have hscale : (0 : ℝ) < 2 ^ e := by positivity
  have hmantissa : (m : ℝ) < (1 / 2 + belowGap m e) * 10 ^ 16 := by
    unfold belowGap
    split
    case isTrue hborder =>
      have hm : m = 2 ^ 52 := beq_iff_eq.mp (Bool.and_eq_true_iff.mp hborder).1
      rw [hm]
      norm_num
    case isFalse =>
      have hm : (m : ℝ) < 2 ^ 53 := by exact_mod_cast h.lt
      norm_num at hm ⊢
      linarith
  generalize decade (interval m e).value (interval m e).denominator = k at hle
  rw [hmiddle] at hle
  rw [upper_interval, lower_interval h.pos]
  calc (10 : ℝ) ^ (k - (17 : ℕ)) = 10 ^ (k - 1) / 10 ^ 16 := by
        rw [show k - (17 : ℕ) = k - 1 - (16 : ℕ) by push_cast; ring, zpow_sub₀ (by norm_num),
          zpow_natCast]
    _ ≤ m * 2 ^ e / 10 ^ 16 := div_le_div_of_nonneg_right hle (by positivity)
    _ < (1 / 2 + belowGap m e) * 2 ^ e := by
        rw [div_lt_iff₀ (by positivity), mul_right_comm]
        exact mul_lt_mul_of_pos_right hmantissa hscale
    _ = (m + 1 / 2) * 2 ^ e - (m - belowGap m e) * 2 ^ e := by ring

/-- The shortest decimal of a number reads back as it. -/
theorem value_shortestDecimal_mem (tie : Tie) (h : Binary64.IsCanonical m e) :
    (shortestDecimal tie m e).value ∈ (interval m e).reals := by
  obtain ⟨k, hk⟩ : ∃ k, k = decade (interval m e).value (interval m e).denominator := ⟨_, rfl⟩
  have hscale : (0 : ℝ) < 2 ^ e := by positivity
  have hlow : (interval m e).lower < (interval m e).middle := by
    rw [lower_interval h.pos, middle_interval]
    exact mul_lt_mul_of_pos_right (sub_lt_self _ belowGap_pos) hscale
  have hhigh : (interval m e).middle < (interval m e).upper := by
    rw [upper_interval, middle_interval]
    exact mul_lt_mul_of_pos_right (by norm_num) hscale
  have hdecimal : shortestDecimal tie m e = ((List.range 18).findSome? fun (n : ℕ) =>
      ((interval m e).onGrid? tie (k - n)).map fun c => Decimal.mk c (k - n)).getD ⟨0, 0⟩ := by
    rw [shortestDecimal, if_neg h.pos.ne', hk]
    rfl
  rw [hdecimal]
  cases hfound : (List.range 18).findSome? fun (n : ℕ) =>
      ((interval m e).onGrid? tie (k - n)).map fun c => Decimal.mk c (k - n) with
  | none =>
    -- the grid of seventeen digits has a hit
    have hmiss := List.findSome?_eq_none_iff.mp hfound 17 (by decide)
    have hwidth := Interval.width_le_of_onGrid? denominator_pos hlow hhigh
      (Option.map_eq_none_iff.mp hmiss)
    have hlt := zpow_decade_lt_width h
    rw [← hk] at hlt
    exact absurd hwidth (not_le.mpr hlt)
  | some d =>
    obtain ⟨n, -, hn⟩ := List.exists_of_findSome?_eq_some hfound
    obtain ⟨c, hc, rfl⟩ := Option.map_eq_some_iff.mp hn
    exact (Interval.contains_iff denominator_pos).mp (Interval.contains_of_onGrid? hc)

theorem pos_of_mem_reals (hm : 0 < m) {x : ℝ} (h : x ∈ (interval m e).reals) : 0 < x := by
  have hm' : (1 : ℝ) ≤ m := by exact_mod_cast hm
  have hlow : 0 < (interval m e).lower := by
    rw [lower_interval hm]
    refine mul_pos ?_ (by positivity)
    unfold belowGap
    split <;> linarith
  unfold Interval.reals at h
  split at h
  · exact hlow.trans_le h.1
  · exact hlow.trans h.1

theorem exponent_shortestDecimal (tie : Tie) (h : m = 0 ∨ Binary64.IsCanonical m e)
    (hzero : (shortestDecimal tie m e).mantissa = 0) : (shortestDecimal tie m e).exponent = 0 := by
  rcases h with rfl | h
  · rfl
  · have hpos := pos_of_mem_reals h.pos (value_shortestDecimal_mem tie h)
    rw [Decimal.value, hzero, Nat.cast_zero, zero_mul] at hpos
    exact absurd hpos (lt_irrefl _)

end Shortest

/-! ## Nearest numbers -/

namespace Binary64

/-- Whether a real number is rounded to a finite number: that is nearer to it than all others, or
as near as another one and with an even mantissa. -/
def RoundsTo (v : ℝ) (x : Float) : Prop :=
  ∀ y : Float, y.isFinite → realOf y ≠ realOf x →
    |v - realOf x| < |v - realOf y| ∨ |v - realOf x| = |v - realOf y| ∧ (parts x).2.1 % 2 = 0

variable {m n : ℕ} {e f : ℤ}

theorem twice_belowGap_le : 2 * Shortest.belowGap m e ≤ 1 := by
  unfold Shortest.belowGap
  split <;> norm_num

/-- The next number above is a step of the mantissa away, and the next one below too, unless the
mantissa is the least of its exponent. -/
theorem gap_of_ne (h : IsCanonical m e) (h' : n = 0 ∨ IsCanonical n f)
    (hne : (n : ℝ) * 2 ^ f ≠ m * 2 ^ e) :
    ((m : ℝ) + 1) * 2 ^ e ≤ n * 2 ^ f ∨
      (n : ℝ) * 2 ^ f ≤ (m - 2 * Shortest.belowGap m e) * 2 ^ e := by
  have hscale : (0 : ℝ) < 2 ^ e := by positivity
  have hgap := twice_belowGap_le (m := m) (e := e)
  rcases h' with rfl | h'
  · have hm : (1 : ℝ) ≤ m := by exact_mod_cast h.pos
    right
    rw [Nat.cast_zero, zero_mul]
    exact mul_nonneg (by linarith) hscale.le
  rcases le_or_gt e f with hef | hfe
  · -- both are whole multiples of the same power
    obtain ⟨k, hk⟩ : ∃ k : ℕ, k = n * 2 ^ (f - e).toNat := ⟨_, rfl⟩
    have hvalue : (n : ℝ) * 2 ^ f = k * 2 ^ e := by
      rw [two_zpow_eq_mul hef, hk]
      push_cast
      ring
    rw [hvalue] at hne ⊢
    have hkm : k ≠ m := fun hkm => hne (hkm ▸ rfl)
    rcases Nat.lt_or_gt_of_ne hkm with hlt | hgt
    · have hle : (k : ℝ) + 1 ≤ m := by exact_mod_cast hlt
      exact .inr (mul_le_mul_of_nonneg_right (by linarith) hscale.le)
    · have hle : (m : ℝ) + 1 ≤ k := by exact_mod_cast hgt
      exact .inl (mul_le_mul_of_nonneg_right hle hscale.le)
  · -- the other one has a lower exponent, so its mantissa counts at most half
    have hlow := h'.low
    have hm : 2 ^ 52 ≤ m := h.normal.resolve_left (by omega)
    have hhalf : (n : ℝ) * 2 ^ f ≤ n / 2 * 2 ^ e := by
      have hpow : (2 : ℝ) ^ f ≤ 2 ^ (e - 1) := zpow_le_zpow_right₀ one_le_two (by omega)
      calc (n : ℝ) * 2 ^ f ≤ n * 2 ^ (e - 1) := mul_le_mul_of_nonneg_left hpow n.cast_nonneg
        _ = n / 2 * 2 ^ e := by rw [zpow_sub_one₀ two_ne_zero]; ring
    refine .inr (hhalf.trans (mul_le_mul_of_nonneg_right ?_ hscale.le))
    have hn : (n : ℝ) + 1 ≤ 2 * 2 ^ 52 := by exact_mod_cast h'.lt
    unfold Shortest.belowGap
    split
    case isTrue hborder =>
      have hm' : m = 2 ^ 52 := beq_iff_eq.mp (Bool.and_eq_true_iff.mp hborder).1
      have hreal : (m : ℝ) = 2 ^ 52 := by exact_mod_cast hm'
      linarith
    case isFalse hborder =>
      have hm' : m ≠ 2 ^ 52 := fun hm' => hborder (Bool.and_eq_true_iff.mpr
        ⟨beq_iff_eq.mpr hm', decide_eq_true (by omega)⟩)
      have hlt : (2 : ℝ) ^ 52 + 1 ≤ m := by exact_mod_cast lt_of_le_of_ne hm (Ne.symm hm')
      linarith

theorem canonical_of_ofUnpacked {a : Float.Model.UnpackedFloat} (ha : IsUnpacked a) {s : Bool}
    (h : ofUnpacked a = .finite s m e) : m = 0 ∨ IsCanonical m e := by
  cases ha with
  | notANumber => cases h
  | infinity => cases h
  | zero =>
    cases h
    exact .inl rfl
  | finite _ hcanonical =>
    cases h
    exact .inr hcanonical

theorem canonical_of_parts {x : Float} {s : Bool} (hx : ofFloat x = .finite s m e) :
    m = 0 ∨ IsCanonical m e :=
  canonical_of_ofUnpacked (isUnpacked_unpack _) ((ofFloat_eq x).symm.trans hx)

theorem abs_sub_lt_or_eq {a t v : ℝ} (h : 0 ≤ (t - a) * (a + t - 2 * v)) :
    |v - a| < |v - t| ∨ |v - a| = |v - t| ∧ (t - a) * (a + t - 2 * v) = 0 := by
  have hsq : (v - t) ^ 2 - (v - a) ^ 2 = (t - a) * (a + t - 2 * v) := by ring
  rcases h.lt_or_eq with hlt | heq
  · exact .inl (sq_lt_sq.mp (by linarith))
  · exact .inr ⟨(sq_eq_sq_iff_abs_eq_abs _ _).mp (by linarith), heq.symm⟩

theorem midpoint_of_mem (h : IsCanonical m e) {v t : ℝ} (hv : v ∈ (Shortest.interval m e).reals)
    (ht : (m + 1) * 2 ^ e ≤ t ∨ t ≤ (m - 2 * Shortest.belowGap m e) * 2 ^ e) :
    0 ≤ (t - m * 2 ^ e) * (m * 2 ^ e + t - 2 * v) ∧
      ((t - m * 2 ^ e) * (m * 2 ^ e + t - 2 * v) = 0 → m % 2 = 0) := by
  have hscale : (0 : ℝ) < 2 ^ e := by positivity
  have hgap := Shortest.belowGap_pos (m := m) (e := e)
  unfold Shortest.Interval.reals at hv
  rw [Shortest.lower_interval h.pos, Shortest.upper_interval] at hv
  split at hv
  case isTrue hclosed =>
    refine ⟨?_, fun _ => beq_iff_eq.mp hclosed⟩
    rcases ht with ht | ht
    · exact mul_nonneg (by linarith) (by linarith [hv.2])
    · exact mul_nonneg_of_nonpos_of_nonpos (by nlinarith) (by linarith [hv.1])
  case isFalse =>
    have hpos : 0 < (t - m * 2 ^ e) * (m * 2 ^ e + t - 2 * v) := by
      rcases ht with ht | ht
      · exact mul_pos (by linarith) (by linarith [hv.2])
      · exact mul_pos_of_neg_of_neg (by nlinarith) (by linarith [hv.1])
    exact ⟨hpos.le, fun hzero => absurd hzero hpos.ne'⟩

theorem gap_of_abs (h : IsCanonical m e) (h' : n = 0 ∨ IsCanonical n f) {t : ℝ}
    (habs : |t| = n * 2 ^ f) (hne : t ≠ m * 2 ^ e) :
    ((m : ℝ) + 1) * 2 ^ e ≤ t ∨ t ≤ (m - 2 * Shortest.belowGap m e) * 2 ^ e := by
  rcases le_total 0 t with ht | ht
  · rw [abs_of_nonneg ht] at habs
    rw [habs] at hne ⊢
    exact gap_of_ne h h' hne
  · have hm : (1 : ℝ) ≤ m := by exact_mod_cast h.pos
    have hgap := twice_belowGap_le (m := m) (e := e)
    exact .inr (ht.trans (mul_nonneg (by linarith) (by positivity)))

theorem roundsTo_of_mem {x : Float} {s : Bool} (hx : ofFloat x = .finite s m e)
    (h : IsCanonical m e) {v : ℝ} (hv : v ∈ (Shortest.interval m e).reals) :
    RoundsTo ((if s then -1 else 1) * v) x := by
  intro y hy hne
  obtain ⟨r, n, f, hn⟩ := ofFloat_of_isFinite hy
  obtain ⟨σ, hσ⟩ : ∃ σ : ℝ, σ = if s then -1 else 1 := ⟨_, rfl⟩
  have hsign : σ * σ = 1 := by rw [hσ]; split <;> norm_num
  have hone : |σ| = 1 := by rw [hσ]; split <;> norm_num
  -- the sign of the number is taken out of all three
  have habs : ∀ w : ℝ, |σ * v - w| = |v - σ * w| := fun w => by
    calc |σ * v - w| = |σ| * |v - σ * w| := by
          rw [← abs_mul, mul_sub, ← mul_assoc, hsign, one_mul]
      _ = |v - σ * w| := by rw [hone, one_mul]
  have hreal : σ * realOf x = m * 2 ^ e := by
    rw [realOf_of_parts hx, ← hσ, ← mul_assoc, ← mul_assoc, hsign, one_mul]
  have hother : (m + 1) * 2 ^ e ≤ σ * realOf y ∨
      σ * realOf y ≤ (m - 2 * Shortest.belowGap m e) * 2 ^ e := by
    refine gap_of_abs h (canonical_of_parts hn) ?_ fun heq => hne ?_
    · rw [abs_mul, hone, one_mul, realOf, hn]
      exact abs_value_finite r n f
    · calc realOf y = σ * (σ * realOf y) := by rw [← mul_assoc, hsign, one_mul]
        _ = σ * (σ * realOf x) := by rw [heq, hreal]
        _ = realOf x := by rw [← mul_assoc, hsign, one_mul]
  rw [← hσ, habs, habs, hreal]
  obtain ⟨hside, heven⟩ := midpoint_of_mem h hv hother
  have hparts : (parts x).2.1 = m := by simp only [parts, hx]
  rw [hparts]
  exact (abs_sub_lt_or_eq hside).imp_right fun heq => ⟨heq.1, heven heq.2⟩

theorem roundsTo_shortestDecimal {x : Float} {s : Bool} (tie : Tie)
    (hx : ofFloat x = .finite s m e) :
    RoundsTo ((if s then -1 else 1) * (shortestDecimal tie m e).value) x := by
  rcases canonical_of_parts hx with rfl | h
  · intro y _ hne
    have hx' : realOf x = 0 := by rw [realOf_of_parts hx]; simp
    rw [hx'] at hne ⊢
    left
    simpa [shortestDecimal, Decimal.value] using hne
  · exact roundsTo_of_mem hx h (Shortest.value_shortestDecimal_mem tie h)

end Binary64
end RoadAudit
