import Mathlib.Tactic

/-! # Rounding to 53 bits

Natural numbers rounded to the nearest one of at most 53 significant bits, the even one of two
equally near. Rounding keeps the order, and what needs no more bits it keeps as it is. -/

namespace RoadAudit

open Float.Model.UnpackedFloat

/-- The natural number nearest to `m / 2 ^ k`, the even one of two equally near. -/
def nearestQuotient (m k : ℕ) : ℕ :=
  if 2 * (m % 2 ^ k) < 2 ^ k then m / 2 ^ k
  else if 2 * (m % 2 ^ k) = 2 ^ k then m / 2 ^ k + m / 2 ^ k % 2
  else m / 2 ^ k + 1

theorem div_le_nearestQuotient (m k : ℕ) : m / 2 ^ k ≤ nearestQuotient m k := by
  unfold nearestQuotient
  split
  · exact le_rfl
  · split
    · exact Nat.le_add_right _ _
    · exact Nat.le_add_right _ _

theorem nearestQuotient_le (m k : ℕ) : nearestQuotient m k ≤ m / 2 ^ k + 1 := by
  unfold nearestQuotient
  have hparity := Nat.mod_lt (m / 2 ^ k) (y := 2) (by decide)
  split
  · omega
  · split <;> omega

theorem nearestQuotient_mono {m n : ℕ} (h : m ≤ n) (k : ℕ) :
    nearestQuotient m k ≤ nearestQuotient n k := by
  have hdiv : m / 2 ^ k ≤ n / 2 ^ k := Nat.div_le_div_right h
  rcases Nat.lt_or_eq_of_le hdiv with hlt | heq
  · calc nearestQuotient m k ≤ m / 2 ^ k + 1 := nearestQuotient_le m k
      _ ≤ n / 2 ^ k := hlt
      _ ≤ nearestQuotient n k := div_le_nearestQuotient n k
  · -- with equal quotients, the remainders are in order
    have hmod : m % 2 ^ k ≤ n % 2 ^ k := by
      have hm := Nat.div_add_mod m (2 ^ k)
      have hn := Nat.div_add_mod n (2 ^ k)
      rw [heq] at hm
      omega
    unfold nearestQuotient
    rw [heq]
    have hparity := Nat.mod_lt (n / 2 ^ k) (y := 2) (by decide)
    split
    · split
      · exact le_rfl
      · split <;> omega
    · split
      · rw [if_neg (by omega)]
        split <;> omega
      · rw [if_neg (by omega), if_neg (by omega)]

theorem nearestQuotient_mul (m k j : ℕ) :
    nearestQuotient (m * 2 ^ j) (k + j) = nearestQuotient m k := by
  have hpos : 0 < 2 ^ j := Nat.two_pow_pos j
  have hlt : ∀ a b : ℕ, a * 2 ^ j < b * 2 ^ j ↔ a < b := fun a b => Nat.mul_lt_mul_right hpos
  have heq : ∀ a b : ℕ, a * 2 ^ j = b * 2 ^ j ↔ a = b := fun a b => Nat.mul_left_inj hpos.ne'
  unfold nearestQuotient
  rw [pow_add, Nat.mul_div_mul_right _ _ hpos, Nat.mul_mod_mul_right, ← mul_assoc]
  simp only [hlt, heq]

theorem nearestQuotient_zero (m : ℕ) : nearestQuotient m 0 = m := by
  simp [nearestQuotient, Nat.mod_one]

theorem nearestQuotient_of_mul (m k : ℕ) : nearestQuotient (m * 2 ^ k) k = m := by
  have hscale := nearestQuotient_mul m 0 k
  rwa [Nat.zero_add, nearestQuotient_zero] at hscale

def excess (n : ℕ) : ℕ := n.log2 - 52

def rounded (n : ℕ) : ℕ := nearestQuotient n (excess n) * 2 ^ excess n

theorem log2_mul_two_pow {m : ℕ} (hm : m ≠ 0) (j : ℕ) : (m * 2 ^ j).log2 = m.log2 + j := by
  rw [Nat.log2_eq_iff (Nat.mul_ne_zero hm (Nat.two_pow_pos j).ne')]
  have hpos : 0 < 2 ^ j := Nat.two_pow_pos j
  constructor
  · rw [pow_add]
    exact Nat.mul_le_mul_right _ (Nat.log2_self_le hm)
  · rw [show m.log2 + j + 1 = m.log2 + 1 + j by omega, pow_add]
    exact (Nat.mul_lt_mul_right hpos).mpr Nat.lt_log2_self

theorem log2_mono {m n : ℕ} (h : m ≤ n) : m.log2 ≤ n.log2 := by
  by_cases hm : m = 0
  · subst hm
    simp
  · rw [Nat.le_log2 (by omega)]
    exact (Nat.log2_self_le hm).trans h

theorem div_two_pow_lt {m k : ℕ} (h : m.log2 ≤ 52 + k) : m / 2 ^ k < 2 ^ 53 := by
  rw [Nat.div_lt_iff_lt_mul (Nat.two_pow_pos k), ← pow_add]
  calc m < 2 ^ (m.log2 + 1) := Nat.lt_log2_self
    _ ≤ 2 ^ (53 + k) := Nat.pow_le_pow_right two_pos (by omega)

theorem div_two_pow_excess_lt (n : ℕ) : n / 2 ^ excess n < 2 ^ 53 :=
  div_two_pow_lt (by unfold excess; omega)

theorem le_div_two_pow_excess {n : ℕ} (h : excess n ≠ 0) : 2 ^ 52 ≤ n / 2 ^ excess n := by
  have hn : n ≠ 0 := by
    rintro rfl
    exact h rfl
  rw [Nat.le_div_iff_mul_le (Nat.two_pow_pos _), ← pow_add]
  calc 2 ^ (52 + excess n) = 2 ^ n.log2 := by congr 1; unfold excess at *; omega
    _ ≤ n := Nat.log2_self_le hn

theorem rounded_mono {m n : ℕ} (h : m ≤ n) : rounded m ≤ rounded n := by
  have hexcess : excess m ≤ excess n := Nat.sub_le_sub_right (log2_mono h) 52
  unfold rounded
  rcases Nat.lt_or_eq_of_le hexcess with hlt | heq
  · -- between numbers of different excess lies a power of two
    calc nearestQuotient m (excess m) * 2 ^ excess m
        ≤ 2 ^ 53 * 2 ^ excess m := by
          apply Nat.mul_le_mul_right
          have := nearestQuotient_le m (excess m)
          have := div_two_pow_excess_lt m
          omega
      _ = 2 ^ 52 * 2 ^ (excess m + 1) := by ring
      _ ≤ 2 ^ 52 * 2 ^ excess n := Nat.mul_le_mul_left _ (Nat.pow_le_pow_right (by decide) hlt)
      _ ≤ nearestQuotient n (excess n) * 2 ^ excess n := by
          apply Nat.mul_le_mul_right
          exact (le_div_two_pow_excess (by omega)).trans (div_le_nearestQuotient n _)
  · rw [heq]
    exact Nat.mul_le_mul_right _ (nearestQuotient_mono h _)

theorem rounded_of_fits {m : ℕ} (h : m < 2 ^ 53) (k : ℕ) : rounded (m * 2 ^ k) = m * 2 ^ k := by
  by_cases hm : m = 0
  · simp [hm, rounded, nearestQuotient]
  have hle : excess (m * 2 ^ k) ≤ k := by
    have hlog : m.log2 < 53 := (Nat.log2_lt hm).mpr h
    rw [excess, log2_mul_two_pow hm]
    omega
  unfold rounded
  generalize excess (m * 2 ^ k) = e at hle
  obtain ⟨i, rfl⟩ := Nat.exists_eq_add_of_le' hle
  rw [pow_add, ← mul_assoc, nearestQuotient_of_mul]

/-! ## Shifting with two residual bits -/

theorem mantissa_shiftRight (em : ExtendedMantissa) (k : ℕ) :
    (em >>> k).mantissa = em.mantissa / 2 ^ k := by
  induction k with
  | zero => exact (Nat.div_one _).symm
  | succ k ih =>
    change (em >>> k).mantissa / 2 = _
    rw [ih, Nat.div_div_eq_div_mul, pow_succ]

theorem mantissa_ofMantissaAndAccuracy (m : ℕ) (acc : Accuracy) :
    (ExtendedMantissa.ofMantissaAndAccuracy m acc).mantissa = m := by
  rcases acc with _ | ⟨⟨⟩⟩ <;> rfl

theorem roundedMantissa_mem (em : ExtendedMantissa) :
    em.mantissa ≤ em.roundedMantissa ∧ em.roundedMantissa ≤ em.mantissa + 1 := by
  obtain ⟨m, round, sticky⟩ := em
  have hparity := Nat.mod_lt m (y := 2) (by decide)
  cases round <;> cases sticky <;>
    simp only [ExtendedMantissa.roundedMantissa, ExtendedMantissa.accuracy,
      Accuracy.roundToNearestEven] <;> omega

/-- What is left of a mantissa after `k` shifts: the quotient, whether the rest is at least one
half, and whether anything remains beyond that. -/
theorem shiftRight_exact (m k : ℕ) :
    ExtendedMantissa.ofMantissaAndAccuracy m .exact >>> k =
      ⟨m / 2 ^ k, decide (2 ^ k ≤ 2 * (m % 2 ^ k)), decide (2 * (m % 2 ^ k) % 2 ^ k ≠ 0)⟩ := by
  induction k with
  | zero =>
    change (⟨m, false, false⟩ : ExtendedMantissa) = _
    simp [Nat.mod_one]
  | succ k ih =>
    change (ExtendedMantissa.ofMantissaAndAccuracy m .exact >>> k).shiftRightOne = _
    have hmod : m % 2 ^ (k + 1) = m % 2 ^ k + 2 ^ k * (m / 2 ^ k % 2) := Nat.mod_pow_succ
    have hlt : m % 2 ^ k < 2 ^ k := Nat.mod_lt m (Nat.two_pow_pos k)
    have hdouble : 2 * (m % 2 ^ (k + 1)) % 2 ^ (k + 1) = 2 * (m % 2 ^ k) := by
      rw [pow_succ', Nat.mul_mod_mul_left, ← pow_succ', hmod, Nat.add_mul_mod_self_left,
        Nat.mod_mod]
    rw [ih, ExtendedMantissa.shiftRightOne, hdouble]
    dsimp only
    rw [ExtendedMantissa.mk.injEq]
    refine ⟨?_, ?_, ?_⟩
    · rw [Nat.div_div_eq_div_mul, pow_succ]
    · rw [hmod, pow_succ']
      rcases Nat.mod_two_eq_zero_or_one (m / 2 ^ k) with hbit | hbit
      · rw [hbit]
        simpa using hlt
      · rw [hbit]
        simp
    · by_cases hzero : m % 2 ^ k = 0
      · simp [hzero]
      · by_cases hhalf : 2 ^ k ≤ 2 * (m % 2 ^ k)
        · simp [hhalf, hzero]
        · rw [Nat.mod_eq_of_lt (Nat.lt_of_not_le hhalf)]
          simp [hhalf]

theorem roundedMantissa_shiftRight (m k : ℕ) :
    (ExtendedMantissa.ofMantissaAndAccuracy m .exact >>> k).roundedMantissa =
      nearestQuotient m k := by
  rw [shiftRight_exact]
  have hlt := Nat.mod_lt m (Nat.two_pow_pos k)
  unfold nearestQuotient
  rcases Nat.lt_trichotomy (2 * (m % 2 ^ k)) (2 ^ k) with hbelow | hhalf | habove
  · rw [if_pos hbelow, Nat.mod_eq_of_lt hbelow, decide_eq_false (Nat.not_le_of_lt hbelow)]
    by_cases hzero : 2 * (m % 2 ^ k) = 0
    · simp [hzero, ExtendedMantissa.roundedMantissa, ExtendedMantissa.accuracy,
        Accuracy.roundToNearestEven]
    · simp [hzero, ExtendedMantissa.roundedMantissa, ExtendedMantissa.accuracy,
        Accuracy.roundToNearestEven]
  · rw [if_neg (by omega), if_pos hhalf, hhalf]
    simp [ExtendedMantissa.roundedMantissa, ExtendedMantissa.accuracy,
      Accuracy.roundToNearestEven]
  · have hrest : 2 * (m % 2 ^ k) % 2 ^ k = 2 * (m % 2 ^ k) - 2 ^ k := by
      rw [Nat.mod_eq_sub_mod habove.le, Nat.mod_eq_of_lt (by omega)]
    rw [if_neg (by omega), if_neg (by omega), hrest, decide_eq_true habove.le,
      decide_eq_true (by omega)]
    rfl

end RoadAudit
