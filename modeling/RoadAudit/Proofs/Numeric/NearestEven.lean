import RoadAudit.Proofs.Numeric.RealScalar
import RoadAudit.Proofs.Numeric.Rounding

/-! # Nearest whole numbers

What rounding to the nearest whole number means of a real number, the even one of two equally near,
and that a mantissa with its residual bits is rounded so: the bits know of the number what they have
to, and go on knowing it when the mantissa is shifted. -/

namespace RoadAudit

open Float.Model Float.Model.UnpackedFloat

/-- Whether a whole number is nearest to a real one, and even if there are two of them. -/
structure IsNearest (r : ℕ) (x : ℝ) : Prop where
  le_add : x ≤ r + 1 / 2
  sub_le : r - 1 / 2 ≤ x
  even_of_eq : x = r + 1 / 2 ∨ x = r - 1 / 2 → Even r

theorem isNearest_natCast (r : ℕ) : IsNearest r r := by
  refine ⟨by linarith, by linarith, fun h => ?_⟩
  rcases h with h | h <;> linarith

theorem IsNearest.mono {r s : ℕ} {x y : ℝ} (hr : IsNearest r x) (hs : IsNearest s y) (h : x ≤ y) :
    r ≤ s := by
  by_contra hlt
  have hstep : (s : ℝ) + 1 ≤ r := by exact_mod_cast Nat.lt_of_not_le hlt
  have hlow := hr.sub_le
  have hhigh := hs.le_add
  -- both are half way between neighbours, of which only one is even
  have hreven := hr.even_of_eq (.inr (by linarith))
  have hseven := hs.even_of_eq (.inl (by linarith))
  have hsucc : r = s + 1 := by
    have hle : (r : ℝ) ≤ s + 1 := by linarith
    exact le_antisymm (by exact_mod_cast hle) (Nat.lt_of_not_le hlt)
  rw [hsucc, Nat.even_add_one] at hreven
  exact hreven hseven

/-! ## Mantissas with residual bits -/

def halves (em : ExtendedMantissa) : ℕ := 2 * em.mantissa + em.roundBit.toNat

/-- What a mantissa with its residual bits stands for: a real number whose whole halves are known,
and whether it is more than these. -/
structure IsExtended (em : ExtendedMantissa) (x : ℝ) : Prop where
  le : (halves em : ℝ) ≤ 2 * x
  lt : 2 * x < halves em + 1
  stickyBit : em.stickyBit = true ↔ 2 * x ≠ halves em

theorem IsExtended.mantissa_le {em : ExtendedMantissa} {x : ℝ} (h : IsExtended em x) :
    (em.mantissa : ℝ) ≤ x := by
  have hle := h.le
  rw [halves] at hle
  push_cast at hle
  linarith [Nat.cast_nonneg (α := ℝ) em.roundBit.toNat]

theorem IsExtended.lt_mantissa_add_one {em : ExtendedMantissa} {x : ℝ} (h : IsExtended em x) :
    x < em.mantissa + 1 := by
  have hlt := h.lt
  have hbit : (em.roundBit.toNat : ℝ) ≤ 1 := by exact_mod_cast Bool.toNat_le em.roundBit
  rw [halves] at hlt
  push_cast at hlt
  linarith

theorem IsExtended.isNearest {em : ExtendedMantissa} {x : ℝ} (h : IsExtended em x) :
    IsNearest em.roundedMantissa x := by
  obtain ⟨m, round, sticky⟩ := em
  obtain ⟨hle, hlt, hsticky⟩ := h
  cases round with
  | false =>
    have hkept : (⟨m, false, sticky⟩ : ExtendedMantissa).roundedMantissa = m := by
      cases sticky <;> rfl
    have hhalves : halves ⟨m, false, sticky⟩ = 2 * m := rfl
    rw [hhalves] at hle hlt
    push_cast at hle hlt
    rw [hkept]
    exact ⟨by linarith, by linarith, fun h => by rcases h with h | h <;> linarith⟩
  | true =>
    have hhalves : halves ⟨m, true, sticky⟩ = 2 * m + 1 := rfl
    rw [hhalves] at hle hlt hsticky
    push_cast at hle hlt hsticky
    cases sticky with
    | false =>
      have heq : 2 * x = 2 * m + 1 := not_not.mp fun hne => Bool.false_ne_true (hsticky.mpr hne)
      have hbit : ((m % 2 : ℕ) : ℝ) ≤ 1 := by
        exact_mod_cast Nat.le_of_lt_succ (Nat.mod_lt m two_pos)
      change IsNearest (m + m % 2) x
      refine ⟨?_, ?_, fun _ => Nat.even_iff.mpr (by omega)⟩ <;> rw [Nat.cast_add]
      · linarith [Nat.cast_nonneg (α := ℝ) (m % 2)]
      · linarith
    | true =>
      have hne : 2 * x ≠ 2 * m + 1 := hsticky.mp rfl
      have hgt := lt_of_le_of_ne hle hne.symm
      change IsNearest (m + 1) x
      refine ⟨?_, ?_, fun h => ?_⟩ <;> push_cast at *
      · linarith
      · linarith
      · rcases h with h | h <;> linarith

theorem IsExtended.shiftRightOne {em : ExtendedMantissa} {x : ℝ} (h : IsExtended em x) :
    IsExtended em.shiftRightOne (x / 2) := by
  obtain ⟨m, round, sticky⟩ := em
  obtain ⟨hle, hlt, hsticky⟩ := h
  have hhalves : halves (ExtendedMantissa.shiftRightOne ⟨m, round, sticky⟩) = m := by
    rcases Nat.mod_two_eq_zero_or_one m with hm | hm <;>
      simp [halves, ExtendedMantissa.shiftRightOne, hm] <;> omega
  have hshift : (m : ℝ) ≤ x ∧ x < m + 1 ∧ ((round || sticky) = true ↔ x ≠ m) := by
    cases round with
    | false =>
      have hwhole : halves ⟨m, false, sticky⟩ = 2 * m := rfl
      rw [hwhole] at hle hlt hsticky
      push_cast at hle hlt hsticky
      refine ⟨by linarith, by linarith, hsticky.trans (not_congr ?_)⟩
      exact mul_right_inj' two_ne_zero
    | true =>
      have hwhole : halves ⟨m, true, sticky⟩ = 2 * m + 1 := rfl
      rw [hwhole] at hle hlt
      push_cast at hle hlt
      exact ⟨by linarith, by linarith, iff_of_true rfl (by rintro rfl; linarith)⟩
  have hdouble : 2 * (x / 2) = x := mul_div_cancel₀ x two_ne_zero
  refine ⟨?_, ?_, ?_⟩ <;> rw [hhalves, hdouble]
  · exact hshift.1
  · exact hshift.2.1
  · exact hshift.2.2

theorem IsExtended.shiftRight {em : ExtendedMantissa} {x : ℝ} (h : IsExtended em x) (k : ℕ) :
    IsExtended (em >>> k) (x / 2 ^ k) := by
  induction k with
  | zero =>
    rw [pow_zero, div_one]
    exact h
  | succ k ih =>
    rw [pow_succ, ← div_div]
    exact ih.shiftRightOne

/-! ## Quotients of whole numbers -/

theorem isExtended_of_rest {a n : ℕ} {round sticky : Bool} (hn : 0 < n)
    (hle : n * round.toNat ≤ 2 * (a % n)) (hlt : 2 * (a % n) < n * round.toNat + n)
    (hsticky : sticky = true ↔ 2 * (a % n) ≠ n * round.toNat) :
    IsExtended ⟨a / n, round, sticky⟩ ((a : ℝ) / n) := by
  have hpos : (0 : ℝ) < n := Nat.cast_pos.mpr hn
  have hdouble : 2 * ((a : ℝ) / n) = (2 * a : ℕ) / n := by
    push_cast
    ring
  have hdiv := Nat.div_add_mod a n
  have hhalves : n * halves ⟨a / n, round, sticky⟩ = 2 * (n * (a / n)) + n * round.toNat := by
    rw [halves]
    ring
  refine ⟨?_, ?_, hsticky.trans (not_congr ?_)⟩ <;> rw [hdouble]
  · rw [le_div_iff₀' hpos]
    exact_mod_cast (by omega : n * halves ⟨a / n, round, sticky⟩ ≤ 2 * a)
  · rw [div_lt_iff₀' hpos, mul_add_one]
    exact_mod_cast (by omega : 2 * a < n * halves ⟨a / n, round, sticky⟩ + n)
  · rw [div_eq_iff hpos.ne', mul_comm _ (n : ℝ)]
    norm_cast
    omega

theorem isExtended_fraction (a : ℕ) {n : ℕ} (hn : 0 < n) :
    IsExtended (.ofMantissaAndAccuracy (a / n) (accuracyOfFraction (a % n) n)) ((a : ℝ) / n) := by
  have hmod := Nat.mod_lt a hn
  unfold accuracyOfFraction
  by_cases hzero : a % n = 0
  · rw [if_pos hzero]
    exact isExtended_of_rest hn (by simp) (by simpa [hzero] using hn) (by simp [hzero])
  · rw [if_neg hzero]
    rcases lt_trichotomy (2 * (a % n)) n with hlt | heq | hgt
    · rw [compare_lt_iff_lt.mpr hlt]
      exact isExtended_of_rest hn (by simp) (by simpa using hlt) (by simpa using hzero)
    · rw [compare_eq_iff_eq.mpr heq]
      exact isExtended_of_rest hn (by simp [heq]) (by simp [heq, hn]) (by simp [heq])
    · rw [compare_gt_iff_gt.mpr hgt]
      exact isExtended_of_rest hn (by simpa using hgt.le) (by simp; omega) (by simpa using hgt.ne')

end RoadAudit
