import RoadAudit.Proofs.Numeric.BinaryProducts

/-! # Quotients below two

The quotient of two binary64 lengths is rounded from the exact one. The lengths are so far apart, if
one is less than twice the other, that the exact quotient is not above the last number before two,
and so the rounded one is below two as well. -/

namespace RoadAudit
namespace Binary64

open Float.Model Float.Model.UnpackedFloat

/-! ## The gap before two -/

/-- A mantissa of 53 bits that is below a whole number is below it by a share of `2 ^ (-53)` at
least. -/
theorem gap_of_lt {m K : ℕ} (hm : m < 2 ^ 53) (hK : m < K) : 2 ^ 53 * m ≤ (2 ^ 53 - 1) * K := by
  norm_num at hm ⊢
  omega

theorem mul_zpow_lt_of_exponent_lt {m n : ℕ} {e f : ℤ} (h : IsCanonical m e) (hn : n < 2 ^ 53)
    (hlow : -1074 ≤ f) (hlt : f < e) : (n : ℝ) * 2 ^ f < m * 2 ^ e := by
  have hnormal : (2 : ℝ) ^ 52 ≤ m := by exact_mod_cast h.normal.resolve_left (by omega)
  calc (n : ℝ) * 2 ^ f < 2 ^ 53 * 2 ^ f :=
        mul_lt_mul_of_pos_right (by exact_mod_cast hn) (by positivity)
    _ = 2 ^ 52 * 2 ^ (f + 1) := by
        rw [zpow_add_one₀ two_ne_zero f]
        ring
    _ ≤ m * 2 ^ e := mul_le_mul hnormal (zpow_le_zpow_right₀ one_le_two hlt)
        (by positivity) (by positivity)

theorem gap_of_lt_twice {m n : ℕ} {e f : ℤ} (h : IsCanonical m e) (h' : IsCanonical n f)
    (hlt : (m : ℝ) * 2 ^ e < 2 * (n * 2 ^ f)) :
    2 ^ 53 * ((m : ℝ) * 2 ^ e) ≤ (2 ^ 53 - 1) * (2 * (n * 2 ^ f)) := by
  have htwice : 2 * ((n : ℝ) * 2 ^ f) = n * 2 ^ (f + 1) := by
    rw [zpow_add_one₀ two_ne_zero]
    ring
  rw [htwice] at hlt ⊢
  have hlow := h'.low
  rcases le_or_gt e (f + 1) with hle | hgt
  · -- in steps of the lower exponent both are whole numbers
    obtain ⟨c, hc⟩ : ∃ c : ℕ, f + 1 = e + c := ⟨(f + 1 - e).toNat, by omega⟩
    obtain ⟨K, hK⟩ : ∃ K : ℕ, K = n * 2 ^ c := ⟨_, rfl⟩
    have hscale : (n : ℝ) * 2 ^ (f + 1) = K * 2 ^ e := by
      rw [hc, hK, zpow_add₀ two_ne_zero, zpow_natCast]
      push_cast
      ring
    have hpos : (0 : ℝ) < 2 ^ e := by positivity
    rw [hscale] at hlt ⊢
    have hlt' : m < K := by exact_mod_cast lt_of_mul_lt_mul_right hlt hpos.le
    have hgap : (2 : ℝ) ^ 53 * m ≤ (2 ^ 53 - 1) * K := by
      have hcast := (Nat.cast_le (α := ℝ)).mpr (gap_of_lt h.lt hlt')
      norm_num at hcast ⊢
      exact hcast
    calc (2 : ℝ) ^ 53 * (m * 2 ^ e) = 2 ^ 53 * m * 2 ^ e := (mul_assoc _ _ _).symm
      _ ≤ (2 ^ 53 - 1) * (K : ℝ) * 2 ^ e := mul_le_mul_of_nonneg_right hgap hpos.le
      _ = (2 ^ 53 - 1) * (K * 2 ^ e) := mul_assoc _ _ _
  · exact absurd hlt (mul_zpow_lt_of_exponent_lt h h'.lt (by omega) hgt).not_gt

/-! ## Rounding a quotient -/

/-- A quotient of mantissas, the exponent that belongs to it, and what is known of the rest. -/
structure IsQuotient (m : ℕ) (e : ℤ) (n : ℕ) (f : ℤ) (M : ℕ) (E : ℤ) (acc : Accuracy) : Prop where
  target : E ≤ max (M.log2 + E - 52) (-1074)
  le : (M : ℝ) * 2 ^ E * (n * 2 ^ f) ≤ m * 2 ^ e
  exact : (M : ℝ) * 2 ^ E * (n * 2 ^ f) = m * 2 ^ e → acc = .exact

theorem divCore_cases {m n : ℕ} {e f : ℤ} {M : ℕ} {E : ℤ} {acc : Accuracy}
    (hcore : divCore .binary64 m e n f = (M, E, acc)) :
    min (e - f) (max (m.log2 + 1 + e - (n.log2 + 1 + f) - 53) (-1074)) = E ∧
      ∃ k : ℕ, e = k + E + f ∧ m * 2 ^ k / n = M ∧ accuracyOfFraction (m * 2 ^ k % n) n = acc := by
  have hleast : Format.binary64.minExponent = -1074 := by decide
  have hbits : ((Format.binary64.mantissaBits : ℕ) : ℤ) = 53 := by decide
  unfold divCore at hcore
  rw [Format.targetExponent, hleast, hbits, totalExponent, totalExponent] at hcore
  simp only [Prod.mk.injEq, Nat.shiftLeft_eq] at hcore
  obtain ⟨hM, hE, hacc⟩ := hcore
  rw [hE] at hM hacc
  exact ⟨hE, (e - f - E).toNat, by omega, hM, hacc⟩

theorem two_pow_le_div {m n k : ℕ} (hm : 0 < m) (hn : 0 < n)
    (h : 52 + (n.log2 + 1) ≤ m.log2 + k) : 2 ^ 52 ≤ m * 2 ^ k / n := by
  refine (Nat.le_div_iff_mul_le hn).mpr ?_
  calc 2 ^ 52 * n ≤ 2 ^ 52 * 2 ^ (n.log2 + 1) := Nat.mul_le_mul_left _ Nat.lt_log2_self.le
    _ = 2 ^ (52 + (n.log2 + 1)) := (pow_add _ _ _).symm
    _ ≤ 2 ^ (m.log2 + k) := Nat.pow_le_pow_right two_pos h
    _ = 2 ^ m.log2 * 2 ^ k := pow_add _ _ _
    _ ≤ m * 2 ^ k := Nat.mul_le_mul_right _ (Nat.log2_self_le hm.ne')

theorem isQuotient_divCore {m n : ℕ} {e f : ℤ} (hm : 0 < m) (hn : 0 < n) {M : ℕ} {E : ℤ}
    {acc : Accuracy} (hcore : divCore .binary64 m e n f = (M, E, acc)) :
    IsQuotient m e n f M E acc := by
  obtain ⟨hE, k, hexponent, hM, hacc⟩ := divCore_cases hcore
  have hshape : (m : ℝ) * 2 ^ e = (m * 2 ^ k : ℕ) * (2 ^ E * 2 ^ f) := by
    rw [hexponent, zpow_add₀ two_ne_zero, zpow_add₀ two_ne_zero, zpow_natCast]
    push_cast
    ring
  have hproduct : (M : ℝ) * 2 ^ E * (n * 2 ^ f) = (M * n : ℕ) * (2 ^ E * 2 ^ f) := by
    push_cast
    ring
  have hpos : (0 : ℝ) < 2 ^ E * 2 ^ f := by positivity
  constructor
  case target =>
    by_cases hlow : E ≤ -1074
    · exact hlow.trans (le_max_right _ _)
    · -- the dividend has been shifted far enough for a quotient of 53 bits
      have hquotient : 2 ^ 52 ≤ M := hM ▸ two_pow_le_div hm hn (by omega)
      have hlog : 52 ≤ M.log2 := (Nat.le_log2 (by omega)).mpr hquotient
      omega
  case le =>
    rw [hshape, hproduct]
    exact mul_le_mul_of_nonneg_right (Nat.cast_le.mpr (hM ▸ Nat.div_mul_le_self _ _)) hpos.le
  case exact =>
    intro heq
    rw [hshape, hproduct] at heq
    have hwhole : M * n = m * 2 ^ k := by exact_mod_cast mul_right_cancel₀ hpos.ne' heq
    rw [← hacc, ← hwhole, Nat.mul_mod_left]
    rfl

section BelowTwo

variable {m n M : ℕ} {e f E : ℤ} {acc : Accuracy} (h : IsQuotient m e n f M E acc)
  (hgap : 2 ^ 53 * ((m : ℝ) * 2 ^ e) ≤ (2 ^ 53 - 1) * (2 * (n * 2 ^ f)))

include h hgap

theorem IsQuotient.exact_of_eq (heq : (M : ℝ) * 2 ^ E * 2 ^ 52 = 2 ^ 53 - 1) : acc = .exact := by
  refine h.exact (le_antisymm h.le ?_)
  have hscale : 2 ^ 52 * ((M : ℝ) * 2 ^ E * (n * 2 ^ f)) = (2 ^ 53 - 1) * (n * 2 ^ f) := by
    rw [← heq]
    ring
  linarith

variable (hn : 0 < n)

include hn

theorem IsQuotient.mul_le : (M : ℝ) * 2 ^ E * 2 ^ 52 ≤ 2 ^ 53 - 1 := by
  have hpos : (0 : ℝ) < n * 2 ^ f := mul_pos (Nat.cast_pos.mpr hn) (by positivity)
  refine le_of_mul_le_mul_right ?_ hpos
  linarith [h.le]

theorem IsQuotient.log2_add_lt (hM : M ≠ 0) : (M.log2 : ℤ) + E < 1 := by
  have hpow : (2 : ℝ) ^ M.log2 ≤ M := by exact_mod_cast Nat.log2_self_le hM
  have hlt : (2 : ℝ) ^ ((M.log2 : ℤ) + E) < 2 ^ (1 : ℤ) := by
    rw [zpow_add₀ two_ne_zero, zpow_natCast, zpow_one]
    have hle := mul_le_mul_of_nonneg_right hpow (show (0 : ℝ) ≤ 2 ^ E by positivity)
    have hbound := h.mul_le hgap hn
    norm_num at hbound
    linarith
  exact (zpow_lt_zpow_iff_right₀ one_lt_two).mp hlt

variable {k r : ℕ} (hr : r = (ExtendedMantissa.ofMantissaAndAccuracy M acc >>> k).roundedMantissa)

include hr

theorem IsQuotient.rounded_le (hk : E + k = -52) : r ≤ 2 ^ 53 - 1 := by
  have hround := roundedMantissa_mem (ExtendedMantissa.ofMantissaAndAccuracy M acc >>> k)
  rw [mantissa_shiftRight, mantissa_ofMantissaAndAccuracy, ← hr] at hround
  have hone : (2 : ℝ) ^ E * 2 ^ 52 * 2 ^ k = 1 := by
    rw [← zpow_natCast, ← zpow_natCast, ← zpow_add₀ two_ne_zero, ← zpow_add₀ two_ne_zero,
      show E + (52 : ℕ) + k = 0 by omega, zpow_zero]
  have hsteps : (M : ℝ) * 2 ^ E * 2 ^ 52 * 2 ^ k = M := by
    rw [mul_assoc, mul_assoc, ← mul_assoc ((2 : ℝ) ^ E), hone, mul_one]
  have hle : M ≤ (2 ^ 53 - 1) * 2 ^ k := by
    have hreal := mul_le_mul_of_nonneg_right (h.mul_le hgap hn) (show (0 : ℝ) ≤ 2 ^ k by positivity)
    rw [hsteps] at hreal
    have hcast : (M : ℝ) ≤ ((2 ^ 53 - 1) * 2 ^ k : ℕ) := by
      norm_num at hreal ⊢
      exact hreal
    exact_mod_cast hcast
  rcases Nat.lt_or_eq_of_le hle with hlt | rfl
  · have hquotient : M / 2 ^ k < 2 ^ 53 - 1 := (Nat.div_lt_iff_lt_mul (Nat.two_pow_pos k)).mpr hlt
    omega
  · have hexact : acc = .exact := by
      refine h.exact_of_eq hgap (mul_right_cancel₀ (b := (2 : ℝ) ^ k) (by positivity) ?_)
      rw [hsteps]
      norm_num
    rw [hr, hexact, roundedMantissa_shiftRight, nearestQuotient_of_mul]

theorem IsQuotient.rounded_lt (hk : k = (max (M.log2 + E - 52) (-1074) - E).toNat) :
    (r : ℝ) * 2 ^ (E + k) < 2 := by
  have htarget := h.target
  have hexponent : E + k ≤ -52 := by
    by_cases hM : M = 0
    · subst hM
      rw [Nat.log2_zero] at hk htarget
      omega
    · have hlog := h.log2_add_lt hgap hn hM
      omega
  rcases Int.lt_or_eq_of_le hexponent with hlt | heq
  · -- below one a further step does not lead to two
    have hbits : r ≤ 2 ^ 53 := by
      have hround := roundedMantissa_mem (ExtendedMantissa.ofMantissaAndAccuracy M acc >>> k)
      rw [mantissa_shiftRight, mantissa_ofMantissaAndAccuracy, ← hr] at hround
      have hquotient : M / 2 ^ k < 2 ^ 53 := div_two_pow_lt (by omega)
      omega
    calc (r : ℝ) * 2 ^ (E + k) ≤ 2 ^ 53 * 2 ^ (-53 : ℤ) :=
          mul_le_mul (by exact_mod_cast hbits) (zpow_le_zpow_right₀ one_le_two (by omega))
            (by positivity) (by positivity)
      _ < 2 := by norm_num
  · rw [heq]
    calc (r : ℝ) * 2 ^ (-52 : ℤ) ≤ (2 ^ 53 - 1 : ℕ) * 2 ^ (-52 : ℤ) :=
          mul_le_mul_of_nonneg_right (Nat.cast_le.mpr (h.rounded_le hgap hn hr heq)) (by positivity)
      _ < 2 := by norm_num

end BelowTwo

/-! ## Quotients of lengths -/

def two : UnpackedFloat := .finite .positive (2 ^ 52) (-51) (Nat.two_pow_pos 52)

theorem unpack_two : (Scalar.ofNat 2 : Float).toModel.unpack = two := rfl

theorem canonical_two : IsCanonical (2 ^ 52) (-51) := ⟨by decide, by decide, by decide, .inr le_rfl⟩

theorem isLength_two : IsLength two := .finite canonical_two (by decide)

theorem magnitude_two : (magnitude two : ℝ) * 2 ^ (-1074 : ℤ) = 2 := by
  rw [two, magnitude, ← natCast_mul_zpow canonical_two.low]
  norm_num

theorem magnitude_two_mul_le {q : UnpackedFloat} (hq : IsLength q) {p : UnpackedFloat}
    (hp : p = repacked (UnpackedFloat.mul .binary64 two q)) :
    IsLength p ∧ magnitude p ≤ 2 * magnitude q := by
  cases hq with
  | zero s =>
    have hzero : IsLength (.zero (.positive * s)) := .zero _
    obtain rfl : p = .zero (.positive * s) := hp.trans (repacked_of_isLength hzero)
    exact ⟨hzero, Nat.zero_le _⟩
  | infinity =>
    obtain rfl : p = .infinity .positive := hp.trans (repacked_of_isLength .infinity)
    exact ⟨.infinity, Nat.le_mul_of_pos_left _ two_pos⟩
  | @finite m e h hhigh =>
    have hlow := h.low
    have hlog : (2 ^ 52 * m).log2 = m.log2 + 52 := by
      rw [mul_comm, log2_mul_two_pow h.pos.ne']
    have hlog' : m.log2 < 53 := (Nat.log2_lt h.pos.ne').mpr h.lt
    have htarget := le_targetExponent_mul canonical_two h
    obtain ⟨k, hk⟩ : ∃ k : ℕ,
        k = (max ((2 ^ 52 * m).log2 + (-51 + e) - 52) (-1074) - (-51 + e)).toNat := ⟨_, rfl⟩
    have hk' : k ≤ 52 := by omega
    -- no bit is lost
    have hquotient : nearestQuotient (2 ^ 52 * m) k = m * 2 ^ (52 - k) := by
      have hsplit : 2 ^ 52 * m = m * 2 ^ (52 - k) * 2 ^ k := by
        rw [mul_assoc, ← pow_add, Nat.sub_add_cancel hk', mul_comm]
      rw [hsplit, nearestQuotient_of_mul]
    have hmul :
        p = repacked (roundWithAccuracy .binary64 .positive (2 ^ 52 * m) (-51 + e) .exact) := hp
    rcases roundWithAccuracy_quotient (s := .positive) htarget hk with
      ⟨-, hzero⟩ | ⟨r, f, hcanonical, hfinite, hvalue⟩
    · rw [hzero, repacked_of_isLength (.zero _)] at hmul
      subst hmul
      exact ⟨.zero _, Nat.zero_le _⟩
    · rw [hfinite] at hmul
      subst hmul
      obtain ⟨hlength, hmagnitude⟩ := magnitude_repacked hcanonical
      refine ⟨hlength, hmagnitude.trans_le ((min_le_right _ _).trans_eq ?_)⟩
      rw [hvalue, hquotient, mul_assoc, ← pow_add, magnitude, mul_comm 2, mul_assoc, ← pow_succ]
      congr 2
      omega

theorem zero_below_two (s : Sign) :
    IsLength (repacked (.zero s)) ∧ magnitude (repacked (.zero s)) < magnitude two := by
  rw [repacked_of_isLength (.zero s)]
  exact ⟨.zero s, Nat.mul_pos canonical_two.pos (Nat.two_pow_pos _)⟩

theorem IsQuotient.below_two {m n M : ℕ} {e f E : ℤ} {acc : Accuracy}
    (h : IsQuotient m e n f M E acc) (hn : 0 < n)
    (hgap : 2 ^ 53 * ((m : ℝ) * 2 ^ e) ≤ (2 ^ 53 - 1) * (2 * (n * 2 ^ f))) :
    IsLength (repacked (roundWithAccuracy .binary64 .positive M E acc)) ∧
      magnitude (repacked (roundWithAccuracy .binary64 .positive M E acc)) < magnitude two := by
  have htarget := h.target
  obtain ⟨k, hk⟩ : ∃ k : ℕ, k = (max (M.log2 + E - 52) (-1074) - E).toNat := ⟨_, rfl⟩
  obtain ⟨r, hr⟩ : ∃ r,
    r = (ExtendedMantissa.ofMantissaAndAccuracy M acc >>> k).roundedMantissa := ⟨_, rfl⟩
  rcases roundWithAccuracy_cases (s := .positive) htarget hk hr with
    ⟨-, hround⟩ | ⟨a, b, hcanonical, hround, hvalue⟩
  · rw [hround]
    exact zero_below_two _
  · rw [hround]
    obtain ⟨hlength, hmagnitude⟩ := magnitude_repacked hcanonical
    refine ⟨hlength, hmagnitude.trans_lt ((min_le_right _ _).trans_lt ?_)⟩
    rw [hvalue]
    have hreal : ((r * 2 ^ (E + k + 1074).toNat : ℕ) : ℝ) * 2 ^ (-1074 : ℤ) <
        magnitude two * 2 ^ (-1074 : ℤ) := by
      rw [magnitude_two, ← natCast_mul_zpow (by omega)]
      exact h.rounded_lt hgap hn hr hk
    exact_mod_cast lt_of_mul_lt_mul_right hreal (by positivity)

theorem div_finite {m n : ℕ} {e f : ℤ} (hm : 0 < m) (hn : 0 < n) {M : ℕ} {E : ℤ} {acc : Accuracy}
    (hcore : divCore .binary64 m e n f = (M, E, acc)) :
    UnpackedFloat.div .binary64 (.finite .positive m e hm) (.finite .positive n f hn) =
      roundWithAccuracy .binary64 .positive M E acc := by
  change (let (m, e, acc) := divCore .binary64 m e n f
    roundWithAccuracy .binary64 .positive m e acc) = _
  rw [hcore]

theorem magnitude_div_lt {d q : UnpackedFloat} (hd : IsLength d) (hq : IsLength q)
    (hfinite : magnitude d < 2 ^ top) (hlt : magnitude d < 2 * magnitude q) :
    IsLength (repacked (UnpackedFloat.div .binary64 d q)) ∧
      magnitude (repacked (UnpackedFloat.div .binary64 d q)) < magnitude two := by
  cases hd with
  | infinity => exact absurd hfinite (lt_irrefl _)
  | zero s =>
    cases hq with
    | zero t => exact absurd hlt (Nat.not_lt_zero 0)
    | infinity => exact zero_below_two _
    | finite h' hhigh' => exact zero_below_two _
  | @finite m e h hhigh =>
    cases hq with
    | zero t => exact absurd hlt (Nat.not_lt_zero _)
    | infinity => exact zero_below_two _
    | @finite n f h' hhigh' =>
      have hlt' : (m : ℝ) * 2 ^ e < 2 * (n * 2 ^ f) := by
        rw [natCast_mul_zpow h.low, natCast_mul_zpow h'.low, ← mul_assoc]
        refine mul_lt_mul_of_pos_right ?_ (by positivity)
        exact_mod_cast hlt
      rcases hcore : divCore .binary64 m e n f with ⟨M, E, acc⟩
      rw [div_finite h.pos h'.pos hcore]
      exact (isQuotient_divCore h.pos h'.pos hcore).below_two h'.pos (gap_of_lt_twice h h' hlt')

theorem unpack_mul (x y : Float) : (x * y).toModel.unpack =
    repacked (UnpackedFloat.mul .binary64 x.toModel.unpack y.toModel.unpack) := rfl

theorem unpack_div (x y : Float) : (x / y).toModel.unpack =
    repacked (UnpackedFloat.div .binary64 x.toModel.unpack y.toModel.unpack) := rfl

theorem div_lt_two {d q : Float} (hd : (Scalar.ofNat 0 : Float) ≤ d)
    (hq : (Scalar.ofNat 0 : Float) < q) (hlt : d < Scalar.ofNat 2 * q) :
    d / q < Scalar.ofNat 2 := by
  have hld := isLength_of_nonneg hd
  have hlq := isLength_of_nonneg (Scalar.le_of_lt hq)
  have htwo : IsLength (Scalar.ofNat 2 : Float).toModel.unpack := unpack_two ▸ isLength_two
  have hmul : (Scalar.ofNat 2 * q).toModel.unpack =
      repacked (UnpackedFloat.mul .binary64 two q.toModel.unpack) := by
    rw [unpack_mul, unpack_two]
  obtain ⟨hltwice, hle⟩ := magnitude_two_mul_le hlq hmul
  have hmagnitude : magnitude d.toModel.unpack < magnitude (Scalar.ofNat 2 * q).toModel.unpack :=
    Nat.lt_of_not_le fun hle' => Scalar.not_le_of_lt hlt (le_of_magnitude_le hltwice hld hle')
  obtain ⟨hquotient, hbelow⟩ := magnitude_div_lt hld hlq
    (hmagnitude.trans_le (magnitude_le_top hltwice)) (hmagnitude.trans_le hle)
  rw [← unpack_div] at hquotient hbelow
  rw [← unpack_two] at hbelow
  refine Scalar.LawfulOrder.lt_iff.mpr ⟨le_of_magnitude_le hquotient htwo hbelow.le, fun hge => ?_⟩
  exact absurd (magnitude_le_of_le htwo hquotient hge) hbelow.not_ge

end Binary64

/-- Binary64 division keeps a ratio below two, rounded as it is. -/
instance : Scalar.LawfulRatio Float where
  div_lt_two := Binary64.div_lt_two

end RoadAudit
