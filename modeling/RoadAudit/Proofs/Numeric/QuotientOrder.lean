import RoadAudit.Proofs.Numeric.BinaryQuotients
import RoadAudit.Proofs.Numeric.NearestEven

/-! # The order of quotients

A quotient of two binary64 lengths is the exact one rounded to the nearest number, the even one of
two equally near. So of two lengths that are measured by a third the lesser has the lesser quotient,
and does not contain the third more often. -/

namespace RoadAudit

open Float.Model Float.Model.UnpackedFloat

namespace Binary64

/-! ## Rounding a positive number -/

/-- The exponent of the steps in which a positive number is counted. -/
noncomputable def stepExponent (x : ℝ) : ℤ := max (Int.log 2 x - 52) (-1074)

/-- Whether a magnitude is that of a positive number when it is rounded to the nearest step. -/
inductive IsRounded (v : ℕ) (x : ℝ) : Prop where
  | intro (r : ℕ) (nearest : IsNearest r (x / 2 ^ stepExponent x))
      (value : v = r * 2 ^ (stepExponent x + 1074).toNat)

variable {x y : ℝ} {v w : ℕ}

theorem le_two_pow_step (x : ℝ) : x / 2 ^ stepExponent x ≤ (2 ^ 53 : ℕ) := by
  have hlt : x < 2 ^ (Int.log 2 x + 1) := by
    exact_mod_cast Int.lt_zpow_succ_log_self (b := 2) one_lt_two x
  rw [div_le_iff₀ (by positivity)]
  calc x ≤ 2 ^ (Int.log 2 x + 1) := hlt.le
    _ ≤ 2 ^ (53 + stepExponent x) := zpow_le_zpow_right₀ one_le_two (by unfold stepExponent; omega)
    _ = (2 ^ 53 : ℕ) * 2 ^ stepExponent x := by
        rw [zpow_add₀ two_ne_zero]
        norm_num

theorem two_pow_step_le (hx : 0 < x) (h : -1074 < stepExponent x) :
    ((2 ^ 52 : ℕ) : ℝ) ≤ x / 2 ^ stepExponent x := by
  have hle : (2 : ℝ) ^ Int.log 2 x ≤ x := by
    exact_mod_cast Int.zpow_log_le_self (b := 2) one_lt_two hx
  rw [le_div_iff₀ (by positivity)]
  calc ((2 ^ 52 : ℕ) : ℝ) * 2 ^ stepExponent x = 2 ^ (52 + stepExponent x) := by
        rw [zpow_add₀ two_ne_zero]
        norm_num
    _ = 2 ^ Int.log 2 x := by
        congr 1
        unfold stepExponent at *
        omega
    _ ≤ x := hle

theorem IsRounded.mono (hv : IsRounded v x) (hw : IsRounded w y) (hx : 0 < x) (h : x ≤ y) :
    v ≤ w := by
  obtain ⟨r, hr, rfl⟩ := hv
  obtain ⟨s, hs, rfl⟩ := hw
  have hlog : Int.log 2 x ≤ Int.log 2 y := Int.log_mono_right hx h
  have hstep : stepExponent x ≤ stepExponent y := by
    unfold stepExponent
    omega
  have hlow : -1074 ≤ stepExponent x := le_max_right _ _
  rcases hstep.lt_or_eq with hlt | heq
  · -- between numbers counted in different steps lies a power of two
    have hr53 : r ≤ 2 ^ 53 := hr.mono (isNearest_natCast _) (le_two_pow_step x)
    have hs52 : 2 ^ 52 ≤ s :=
      (isNearest_natCast _).mono hs (two_pow_step_le (hx.trans_le h) (by omega))
    calc r * 2 ^ (stepExponent x + 1074).toNat
        ≤ 2 ^ 53 * 2 ^ (stepExponent x + 1074).toNat := Nat.mul_le_mul_right _ hr53
      _ = 2 ^ 52 * 2 ^ ((stepExponent x + 1074).toNat + 1) := by ring
      _ ≤ s * 2 ^ (stepExponent y + 1074).toNat :=
          Nat.mul_le_mul hs52 (Nat.pow_le_pow_right two_pos (by omega))
  · rw [← heq] at hs ⊢
    exact Nat.mul_le_mul_right _ (hr.mono hs (div_le_div_of_nonneg_right h (by positivity)))

/-- A number between a mantissa and the next is counted in the steps that the mantissa is shifted
to. -/
theorem target_eq_stepExponent {M : ℕ} {E : ℤ} (hx : 0 < x) (hle : (M : ℝ) ≤ x / 2 ^ E)
    (hlt : x / 2 ^ E < M + 1) (htarget : E ≤ max (M.log2 + E - 52) (-1074)) :
    max (M.log2 + E - 52) (-1074) = stepExponent x := by
  rw [le_div_iff₀ (by positivity)] at hle
  rw [div_lt_iff₀ (by positivity)] at hlt
  unfold stepExponent
  by_cases hM : M = 0
  · subst hM
    have hbelow : x < ((2 : ℕ) : ℝ) ^ E := by simpa using hlt
    have hlog := (Int.lt_zpow_iff_log_lt one_lt_two hx).mp hbelow
    rw [Nat.log2_zero] at htarget ⊢
    omega
  · have hlow : (2 : ℝ) ^ M.log2 ≤ M := by exact_mod_cast Nat.log2_self_le hM
    have hhigh : (M : ℝ) + 1 ≤ 2 ^ (M.log2 + 1) := by exact_mod_cast Nat.lt_log2_self
    have hge : ((2 : ℕ) : ℝ) ^ (M.log2 + E) ≤ x := by
      rw [zpow_add₀ (by norm_num), zpow_natCast, Nat.cast_ofNat]
      exact (mul_le_mul_of_nonneg_right hlow (by positivity)).trans hle
    have hless : x < ((2 : ℕ) : ℝ) ^ (M.log2 + 1 + E) := by
      rw [zpow_add₀ (by norm_num), ← Nat.cast_add_one, zpow_natCast, Nat.cast_ofNat]
      exact hlt.trans_le (mul_le_mul_of_nonneg_right hhigh (by positivity))
    have hfirst := (Int.zpow_le_iff_le_log one_lt_two hx).mp hge
    have hsecond := (Int.lt_zpow_iff_log_lt one_lt_two hx).mp hless
    omega

/-- A length has the magnitude of a positive number that is rounded, where what is too great becomes
infinite. -/
structure IsNearestLength (a : UnpackedFloat) (x : ℝ) : Prop where
  isLength : IsLength a
  magnitude_eq : ∃ v, IsRounded v x ∧ magnitude a = min (2 ^ top) v

theorem isNearestLength_roundWithAccuracy {M : ℕ} {E : ℤ} {acc : Accuracy} (hx : 0 < x)
    (htarget : E ≤ max (M.log2 + E - 52) (-1074))
    (h : IsExtended (.ofMantissaAndAccuracy M acc) (x / 2 ^ E)) :
    IsNearestLength (repacked (roundWithAccuracy .binary64 .positive M E acc)) x := by
  obtain ⟨k, hk⟩ : ∃ k : ℕ, k = (max (M.log2 + E - 52) (-1074) - E).toNat := ⟨_, rfl⟩
  obtain ⟨r, hr⟩ : ∃ r,
    r = (ExtendedMantissa.ofMantissaAndAccuracy M acc >>> k).roundedMantissa := ⟨_, rfl⟩
  have hle := h.mantissa_le
  have hlt := h.lt_mantissa_add_one
  rw [mantissa_ofMantissaAndAccuracy] at hle hlt
  have hstep : E + k = stepExponent x := by
    rw [← target_eq_stepExponent hx hle hlt htarget]
    omega
  have hnearest : IsNearest r (x / 2 ^ stepExponent x) := by
    rw [hr, ← hstep, zpow_add₀ two_ne_zero, zpow_natCast, ← div_div]
    exact (h.shiftRight k).isNearest
  rcases roundWithAccuracy_cases (s := .positive) htarget hk hr with
    ⟨hzero, hround⟩ | ⟨m, f, hcanonical, hround, hvalue⟩
  · rw [hround, repacked_of_isLength (.zero _)]
    exact ⟨.zero _, 0, ⟨0, hzero ▸ hnearest, (Nat.zero_mul _).symm⟩, (Nat.min_zero _).symm⟩
  · rw [hround]
    obtain ⟨hlength, hmagnitude⟩ := magnitude_repacked hcanonical
    exact ⟨hlength, _, ⟨r, hnearest, by rw [hvalue, hstep]⟩, hmagnitude⟩

/-! ## Quotients -/

theorem isNearestLength_div {m n : ℕ} {e f : ℤ} (h : IsCanonical m e) (h' : IsCanonical n f) :
    IsNearestLength (repacked (UnpackedFloat.div .binary64 (.finite .positive m e h.pos)
      (.finite .positive n f h'.pos))) (m * 2 ^ e / (n * 2 ^ f)) := by
  have hm : (0 : ℝ) < m := Nat.cast_pos.mpr h.pos
  have hn : (0 : ℝ) < n := Nat.cast_pos.mpr h'.pos
  rcases hcore : divCore .binary64 m e n f with ⟨M, E, acc⟩
  obtain ⟨-, k, hexponent, hM, hacc⟩ := divCore_cases hcore
  have hscaled : (m : ℝ) * 2 ^ e / (n * 2 ^ f) / 2 ^ E = (m * 2 ^ k : ℕ) / n := by
    rw [hexponent, zpow_add₀ two_ne_zero, zpow_add₀ two_ne_zero, zpow_natCast]
    push_cast
    field_simp
  rw [div_finite h.pos h'.pos hcore]
  apply isNearestLength_roundWithAccuracy (by positivity)
    (isQuotient_divCore h.pos h'.pos hcore).target
  rw [hscaled, ← hM, ← hacc]
  exact isExtended_fraction _ h'.pos

theorem IsLength.le_cases {a b : UnpackedFloat} (ha : IsLength a) (hb : IsLength b)
    (hle : magnitude a ≤ magnitude b) :
    (∃ s, a = .zero s) ∨ b = .infinity .positive ∨
      ∃ m e m' e', ∃ (h : IsCanonical m e) (h' : IsCanonical m' e'),
        a = .finite .positive m e h.pos ∧ b = .finite .positive m' e' h'.pos ∧
          (m : ℝ) * 2 ^ e ≤ m' * 2 ^ e' := by
  cases ha with
  | zero s => exact .inl ⟨s, rfl⟩
  | infinity =>
    cases hb with
    | zero s => exact absurd hle (Nat.not_le_of_lt (Nat.two_pow_pos top))
    | infinity => exact .inr (.inl rfl)
    | finite h hhigh => exact absurd hle (Nat.not_le_of_lt (magnitude_lt_top h hhigh))
  | finite h hhigh =>
    cases hb with
    | zero s => exact absurd hle (Nat.not_le_of_lt (Nat.mul_pos h.pos (Nat.two_pow_pos _)))
    | infinity => exact .inr (.inl rfl)
    | finite h' hhigh' =>
      refine .inr (.inr ⟨_, _, _, _, h, h', rfl, rfl, ?_⟩)
      rw [natCast_mul_zpow h.low, natCast_mul_zpow h'.low]
      exact mul_le_mul_of_nonneg_right (Nat.cast_le.mpr hle) (by positivity)

section Divisor

variable {n : ℕ} {f : ℤ} (hw : IsCanonical n f) {a b : UnpackedFloat}

theorem repacked_zero_div (s : Sign) :
    repacked (UnpackedFloat.div .binary64 (.zero s) (.finite .positive n f hw.pos)) =
      .zero (s * .positive) :=
  repacked_of_isLength (.zero _)

theorem repacked_infinity_div :
    repacked (UnpackedFloat.div .binary64 (.infinity .positive) (.finite .positive n f hw.pos)) =
      .infinity .positive :=
  repacked_of_isLength .infinity

theorem isLength_div (ha : IsLength a) :
    IsLength (repacked (UnpackedFloat.div .binary64 a (.finite .positive n f hw.pos))) := by
  cases ha with
  | zero s =>
    rw [repacked_zero_div hw]
    exact .zero _
  | infinity =>
    rw [repacked_infinity_div hw]
    exact .infinity
  | finite h hhigh => exact (isNearestLength_div h hw).isLength

theorem magnitude_div_le (ha : IsLength a) (hb : IsLength b) (hle : magnitude a ≤ magnitude b) :
    magnitude (repacked (UnpackedFloat.div .binary64 a (.finite .positive n f hw.pos))) ≤
      magnitude (repacked (UnpackedFloat.div .binary64 b (.finite .positive n f hw.pos))) := by
  rcases ha.le_cases hb hle with ⟨s, rfl⟩ | rfl | ⟨m, e, m', e', h, h', rfl, rfl, hreal⟩
  · rw [repacked_zero_div hw]
    exact Nat.zero_le _
  · rw [repacked_infinity_div hw]
    exact magnitude_le_top (isLength_div hw ha)
  · obtain ⟨-, v, hv, hmagnitude⟩ := isNearestLength_div h hw
    obtain ⟨-, v', hv', hmagnitude'⟩ := isNearestLength_div h' hw
    have hm : (0 : ℝ) < m := Nat.cast_pos.mpr h.pos
    have hn : (0 : ℝ) < n := Nat.cast_pos.mpr hw.pos
    rw [hmagnitude, hmagnitude']
    exact min_le_min_left _ (hv.mono hv' (by positivity)
      (div_le_div_of_nonneg_right hreal (by positivity)))

end Divisor

/-! ## Whole parts -/

/-- The whole part of an unpacked number, zero below one and at most `2 ^ 63`. -/
def wholeOf : UnpackedFloat → ℕ
  | .infinity .positive => 2 ^ 63
  | .finite .positive m e _ =>
    min (2 ^ 63) (if 0 ≤ e then m * 2 ^ e.toNat else m / 2 ^ (-e).toNat)
  | _ => 0

theorem floor_natCast_mul_zpow (m : ℕ) (e : ℤ) :
    ⌊(m : ℝ) * 2 ^ e⌋₊ = if 0 ≤ e then m * 2 ^ e.toNat else m / 2 ^ (-e).toNat := by
  split
  case isTrue h =>
    obtain ⟨k, rfl⟩ := Int.eq_ofNat_of_zero_le h
    rw [Int.toNat_natCast, zpow_natCast]
    exact_mod_cast Nat.floor_natCast (m * 2 ^ k)
  case isFalse h =>
    obtain ⟨k, hk⟩ : ∃ k : ℕ, e = -k := ⟨(-e).toNat, by omega⟩
    rw [hk, neg_neg, Int.toNat_natCast, zpow_neg, zpow_natCast, ← div_eq_mul_inv]
    exact_mod_cast Nat.floor_div_eq_div m (2 ^ k)

theorem min_mul_two_pow {m : ℕ} (hm : 0 < m) (j : ℕ) :
    min (2 ^ 63) (m * 2 ^ min j 64) = min (2 ^ 63) (m * 2 ^ j) := by
  rcases Nat.le_total j 64 with h | h
  · rw [Nat.min_eq_left h]
  · have hbound : ∀ i, 64 ≤ i → min (2 ^ 63) (m * 2 ^ i) = 2 ^ 63 := by
      intro i hi
      refine Nat.min_eq_left ?_
      calc 2 ^ 63 ≤ 2 ^ i := Nat.pow_le_pow_right two_pos (by omega)
        _ ≤ m * 2 ^ i := Nat.le_mul_of_pos_left _ hm
    rw [Nat.min_eq_right h, hbound 64 le_rfl, hbound j h]

theorem min_whole_eq (m : ℕ) (e : ℤ) :
    min (2 ^ 63) (if 0 ≤ e then m * twoPow (min e 64).toNat else m / twoPow (-e).toNat) =
      min (2 ^ 63) ⌊(m : ℝ) * 2 ^ e⌋₊ := by
  rw [floor_natCast_mul_zpow]
  split
  case isTrue he =>
    rcases Nat.eq_zero_or_pos m with rfl | hm
    · simp
    · rw [← min_mul_two_pow hm, show (min e 64).toNat = min e.toNat 64 by omega]
      rfl
  case isFalse he => rfl

theorem wholePart_eq (x : Float) : Scalar.wholePart x = wholeOf x.toModel.unpack := by
  change (truncate x).toNat = _
  unfold truncate
  rw [ofFloat_eq]
  cases x.toModel.unpack with
  | notANumber => rfl
  | infinity s => cases s <;> rfl
  | zero s => cases s <;> simp [ofUnpacked, wholeOf, isNegative, integerLimit]
  | finite s m e h =>
    obtain ⟨whole, hwhole⟩ : ∃ whole : ℕ, whole =
      if 0 ≤ e then m * twoPow (min e 64).toNat else m / twoPow (-e).toNat := ⟨_, rfl⟩
    simp only [ofUnpacked, ← hwhole]
    cases s with
    | negative =>
      have hnonneg : 0 ≤ min integerLimit whole := le_min (by decide) (Int.natCast_nonneg _)
      simp only [isNegative, if_true]
      exact Int.toNat_of_nonpos (neg_nonpos.mpr hnonneg)
    | positive =>
      have hcut : (min integerLimit whole).toNat = min (2 ^ 63) whole := by
        unfold integerLimit
        omega
      simp only [isNegative, Bool.false_eq_true, if_false, wholeOf]
      rw [hcut, hwhole, min_whole_eq, floor_natCast_mul_zpow]

theorem wholeOf_le {a b : UnpackedFloat} (ha : IsLength a) (hb : IsLength b)
    (hle : magnitude a ≤ magnitude b) : wholeOf a ≤ wholeOf b := by
  rcases ha.le_cases hb hle with ⟨s, rfl⟩ | rfl | ⟨m, e, m', e', h, h', rfl, rfl, hreal⟩
  · exact Nat.zero_le _
  · cases ha with
    | zero s => exact Nat.zero_le _
    | infinity => exact le_rfl
    | finite h hhigh => exact min_le_left _ _
  · rw [wholeOf, wholeOf, ← floor_natCast_mul_zpow, ← floor_natCast_mul_zpow]
    exact min_le_min_left _ (Nat.floor_le_floor hreal)

theorem wholeOf_div_infinity {a : UnpackedFloat} (ha : IsLength a) :
    wholeOf (repacked (UnpackedFloat.div .binary64 a (.infinity .positive))) = 0 := by
  cases ha with
  | zero s =>
    have hzero : UnpackedFloat.div .binary64 (.zero s) (.infinity .positive) =
        .zero (s * .positive) := rfl
    rw [hzero, repacked_of_isLength (.zero _)]
    rfl
  | infinity =>
    have hnan : UnpackedFloat.div .binary64 (.infinity .positive) (.infinity .positive) =
        .notANumber := rfl
    have hrepacked : repacked .notANumber = .notANumber := rfl
    rw [hnan, hrepacked]
    rfl
  | @finite m e h hhigh =>
    have hzero : UnpackedFloat.div .binary64 (.finite .positive m e h.pos) (.infinity .positive) =
        .zero (.positive * .positive) := rfl
    rw [hzero, repacked_of_isLength (.zero _)]
    rfl

/-- Of two lengths in order the lesser does not contain a third more often. -/
theorem wholePart_div_le {d d' w : Float} (hd : (Scalar.ofNat 0 : Float) ≤ d) (hle : d ≤ d')
    (hw : (Scalar.ofNat 0 : Float) < w) : Scalar.wholePart (d / w) ≤ Scalar.wholePart (d' / w) := by
  have hld := isLength_of_nonneg hd
  have hld' := isLength_of_nonneg (Scalar.le_trans hd hle)
  have hlw := isLength_of_nonneg (Scalar.le_of_lt hw)
  have hpositive : magnitude w.toModel.unpack ≠ 0 := fun hzero =>
    Scalar.not_le_of_lt hw (le_of_magnitude_le hlw (.zero .positive) (hzero.trans_le (Nat.zero_le _)))
  have hmagnitude := magnitude_le_of_le hld hld' hle
  rw [wholePart_eq, wholePart_eq, unpack_div, unpack_div]
  generalize w.toModel.unpack = divisor at hlw hpositive
  cases hlw with
  | zero s => exact absurd rfl hpositive
  | infinity => rw [wholeOf_div_infinity hld, wholeOf_div_infinity hld']
  | finite h hhigh =>
    exact wholeOf_le (isLength_div h hld) (isLength_div h hld')
      (magnitude_div_le h hld hld' hmagnitude)

end Binary64

/-- Binary64 division keeps the order of whole parts, rounded as it is. -/
instance : Scalar.LawfulShare Float where
  wholePart_div_le := Binary64.wholePart_div_le

end RoadAudit
