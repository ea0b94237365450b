import Mathlib
import RoadAudit.Proofs.Numeric.Rounding

/-! # Canonical form

A binary64 number that is finite and not zero is a sign, and a mantissa of at most 53 bits times a
power of two; the mantissa has 53 bits unless the power is the least. Packing such a number into a
word and unpacking the word gives it back; one that is too great becomes an infinity. -/

namespace RoadAudit
namespace Binary64

open Float.Model Float.Model.UnpackedFloat

/-- Whether a mantissa has 53 bits, or fewer with the least exponent. -/
structure IsCanonical (m : ℕ) (e : ℤ) : Prop where
  pos : 0 < m
  lt : m < 2 ^ 53
  low : -1074 ≤ e
  normal : e = -1074 ∨ 2 ^ 52 ≤ m

theorem finite_congr {s : Sign} {m n : ℕ} {e f : ℤ} (hm : m = n) (he : e = f) (h : 0 < m)
    (h' : 0 < n) : UnpackedFloat.finite s m e h = .finite s n f h' := by
  subst hm he
  rfl

theorem unpack_packedInfinity (s : Sign) :
    UnpackedFloat.unpack .binary64 (packedInfinity .binary64 s) = .infinity s := by
  unfold UnpackedFloat.unpack packedInfinity
  simp only [unpackMantissa_packComponents, unpackExponent_packComponents,
    unpackSign_packComponents]
  cases s <;> rfl

theorem ofBitVec_toBitVec (s : Sign) : Sign.ofBitVec s.toBitVec = s := by
  cases s <;> rfl

variable {s : Sign}

theorem unpack_normal {b m : ℕ} (hb : b ≠ 0) (hb' : b < 2047) (hm : 2 ^ 52 ≤ m) (hm' : m < 2 ^ 53) :
    UnpackedFloat.unpack .binary64 (packComponents .binary64 s (BitVec.ofNat _ b)
      (BitVec.ofNat _ m)) = .finite s m (b - 1075) (by omega) := by
  unfold UnpackedFloat.unpack
  simp only [unpackMantissa_packComponents, unpackExponent_packComponents,
    unpackSign_packComponents, ofBitVec_toBitVec]
  have hexponent : (BitVec.ofNat 11 b).toNat = b := by
    rw [BitVec.toNat_ofNat, Nat.mod_eq_of_lt (by omega)]
  have hne : BitVec.ofNat 11 b ≠ -1#11 := by
    intro h
    have := congrArg BitVec.toNat h
    rw [hexponent] at this
    simp at this
    omega
  have hne' : BitVec.ofNat 11 b ≠ 0#11 := by
    intro h
    have := congrArg BitVec.toNat h
    rw [hexponent] at this
    simp at this
    omega
  rw [if_neg hne, if_neg hne']
  apply finite_congr
  · have hrest : m % 2 ^ 52 = m - 2 ^ 52 := by
      rw [Nat.mod_eq_sub_mod hm, Nat.mod_eq_of_lt (by omega)]
    rw [BitVec.toNat_append, BitVec.toNat_ofNat]
    change 1 <<< 52 ||| m % 2 ^ 52 = m
    rw [← Nat.shiftLeft_add_eq_or_of_lt (Nat.mod_lt m (Nat.two_pow_pos 52)), hrest,
      Nat.shiftLeft_eq]
    omega
  · change ((BitVec.ofNat 11 b).toNat : ℤ) - (1023 + 52) = b - 1075
    rw [hexponent]
    ring

theorem unpack_subnormal {m : ℕ} (hm : 0 < m) (hm' : m < 2 ^ 52) :
    UnpackedFloat.unpack .binary64 (packComponents .binary64 s 0#_
      (BitVec.ofNat _ m)) = .finite s m (-1074) hm := by
  unfold UnpackedFloat.unpack
  simp only [unpackMantissa_packComponents, unpackExponent_packComponents,
    unpackSign_packComponents, ofBitVec_toBitVec]
  have hmantissa : (BitVec.ofNat 52 m).toNat = m := by
    rw [BitVec.toNat_ofNat, Nat.mod_eq_of_lt hm']
  have hne : BitVec.ofNat 52 m ≠ 0#52 := by
    intro h
    have := congrArg BitVec.toNat h
    rw [hmantissa] at this
    simp at this
    omega
  rw [if_neg (by decide), if_pos trivial, dif_neg hne]
  exact finite_congr hmantissa (by decide) _ _

theorem exponentBias_eq : (Format.binary64.exponentBias : ℤ) = 1023 := by decide

theorem mantissaBits_eq : Format.binary64.mantissaBits = 53 := by decide

/-- What is in canonical form is kept by packing, unless its exponent is too great. -/
theorem unpack_pack {m : ℕ} {e : ℤ} (h : IsCanonical m e) (hhigh : e ≤ 971) :
    UnpackedFloat.unpack .binary64 (UnpackedFloat.pack .binary64 (.finite s m e h.pos)) =
      .finite s m e h.pos := by
  have hlow := h.low
  have hlt := h.lt
  have hm : m ≠ 0 := h.pos.ne'
  have hbias : (e + (Format.binary64.exponentBias : ℤ) +
      (Format.binary64.mantissaBitsWithoutImplicit : ℤ)).toNat = (e + 1075).toNat := by
    rw [exponentBias_eq]
    change (e + 1023 + 52).toNat = (e + 1075).toNat
    congr 1
    omega
  unfold UnpackedFloat.pack
  dsimp only
  rw [hbias, if_neg (by omega), mantissaBits_eq]
  by_cases hnormal : 2 ^ 52 ≤ m
  · have hlog : m.log2 = 52 := (Nat.log2_eq_iff hm).mpr ⟨hnormal, hlt⟩
    rw [hlog, if_pos (by decide), unpack_normal (by omega) (by omega) hnormal hlt]
    exact finite_congr rfl (by omega) _ _
  · have hlog : m.log2 < 52 := (Nat.log2_lt hm).mpr (Nat.lt_of_not_le hnormal)
    rw [if_neg (by omega), unpack_subnormal h.pos (Nat.lt_of_not_le hnormal)]
    exact finite_congr rfl (h.normal.resolve_right hnormal).symm _ _

theorem unpack_pack_overflow {m : ℕ} {e : ℤ} (h : IsCanonical m e) (hhigh : 971 < e) :
    UnpackedFloat.unpack .binary64 (UnpackedFloat.pack .binary64 (.finite s m e h.pos)) =
      .infinity s := by
  have hbias : (e + (Format.binary64.exponentBias : ℤ) +
      (Format.binary64.mantissaBitsWithoutImplicit : ℤ)).toNat = (e + 1075).toNat := by
    rw [exponentBias_eq]
    change (e + 1023 + 52).toNat = (e + 1075).toNat
    congr 1
    omega
  unfold UnpackedFloat.pack
  dsimp only
  rw [hbias, if_pos (by omega)]
  exact unpack_packedInfinity s

/-- What a word can be unpacked to. -/
inductive IsUnpacked : UnpackedFloat → Prop
  | notANumber : IsUnpacked .notANumber
  | infinity (s : Sign) : IsUnpacked (.infinity s)
  | zero (s : Sign) : IsUnpacked (.zero s)
  | finite (s : Sign) {m : ℕ} {e : ℤ} (h : IsCanonical m e) (hhigh : e ≤ 971) :
      IsUnpacked (.finite s m e h.pos)

theorem canonical_subnormal {y : BitVec 52} (hy : y ≠ 0#52) : IsCanonical y.toNat (-1074) := by
  have hlt := y.isLt
  have hpos : y.toNat ≠ 0 := fun h => hy (BitVec.toNat_inj.mp h)
  exact ⟨Nat.pos_of_ne_zero hpos, by omega, le_rfl, .inl rfl⟩

theorem toNat_one_append (y : BitVec 52) : (1#1 ++ y).toNat = 2 ^ 52 + y.toNat := by
  rw [BitVec.toNat_append]
  change 1 <<< 52 ||| y.toNat = 2 ^ 52 + y.toNat
  rw [← Nat.shiftLeft_add_eq_or_of_lt y.isLt, Nat.shiftLeft_eq]
  omega

theorem canonical_normal {x : BitVec 11} (hx : x ≠ 0#11) (y : BitVec 52) :
    IsCanonical (1#1 ++ y).toNat ((x.toNat : ℤ) - 1075) := by
  have hlt := y.isLt
  have hpos : x.toNat ≠ 0 := fun h => hx (BitVec.toNat_inj.mp h)
  rw [toNat_one_append]
  exact ⟨by omega, by omega, by omega, .inr (by omega)⟩

theorem isUnpacked_unpack (b : BitVec Format.binary64.numBits) :
    IsUnpacked (UnpackedFloat.unpack .binary64 b) := by
  unfold UnpackedFloat.unpack
  dsimp only
  split
  · split
    · exact .infinity _
    · exact .notANumber
  case isFalse hx =>
    split
    case isTrue hzero =>
      split
      · exact .zero _
      case isFalse hy =>
        have hleast : ((unpackExponent b).toNat : ℤ) -
            ((Format.binary64.exponentBias : ℤ) + (52 : ℕ)) + 1 = -1074 := by
          rw [hzero, exponentBias_eq]
          rfl
        have h := canonical_subnormal hy
        rw [← hleast] at h
        exact .finite _ h (by rw [hleast]; decide)
    case isFalse hzero =>
      have hsum : ((unpackExponent b).toNat : ℤ) -
          ((Format.binary64.exponentBias : ℤ) + (52 : ℕ)) = (unpackExponent b).toNat - 1075 := by
        rw [exponentBias_eq]
        push_cast
        ring
      have hlt := (unpackExponent b).isLt
      have hne : (unpackExponent b).toNat ≠ 2047 := fun h => hx (BitVec.toNat_inj.mp h)
      have h := canonical_normal hzero (unpackMantissa b)
      rw [← hsum] at h
      refine .finite _ h ?_
      rw [hsum]
      change (unpackExponent b).toNat < 2 ^ 11 at hlt
      omega

/-! ## Rounding to canonical form -/

theorem targetExponent_eq (m : ℕ) (e : ℤ) :
    Format.binary64.targetExponent (totalExponent m e) = max (m.log2 + e - 52) (-1074) := by
  have hleast : Format.binary64.minExponent = -1074 := by decide
  rw [Format.targetExponent, hleast, mantissaBits_eq, totalExponent]
  congr 1
  push_cast
  ring

theorem shiftToTargetExponent_eq (m : ℕ) (e : ℤ) (acc : Accuracy) {k : ℕ}
    (hk : k = (max (m.log2 + e - 52) (-1074) - e).toNat) :
    shiftToTargetExponent .binary64 m e acc =
      (ExtendedMantissa.ofMantissaAndAccuracy m acc >>> k, e + k) := by
  rw [shiftToTargetExponent, targetExponent_eq, shiftToExponent, ← hk]

theorem shiftToTargetExponent_rounded {r : ℕ} {T : ℤ} (hr : 0 < r) (hle : r ≤ 2 ^ 53)
    (hlow : -1074 ≤ T) (hnormal : T = -1074 ∨ 2 ^ 52 ≤ r) :
    ∃ m f, IsCanonical m f ∧ (shiftToTargetExponent .binary64 r T .exact).1.mantissa = m ∧
      (shiftToTargetExponent .binary64 r T .exact).2 = f ∧
        m * 2 ^ (f + 1074).toNat = r * 2 ^ (T + 1074).toNat := by
  rcases Nat.lt_or_eq_of_le hle with hlt | rfl
  · have hlog : r.log2 < 53 := (Nat.log2_lt hr.ne').mpr hlt
    rw [shiftToTargetExponent_eq r T .exact (k := 0) (by omega), shiftRight_exact]
    exact ⟨r, T, ⟨hr, hlt, hlow, hnormal⟩, by simp, by simp, rfl⟩
  · have hlog : (2 ^ 53 : ℕ).log2 = 53 := by decide
    rw [shiftToTargetExponent_eq (2 ^ 53) T .exact (k := 1) (by rw [hlog]; omega), shiftRight_exact]
    refine ⟨2 ^ 52, T + 1, ⟨by decide, by decide, by omega, .inr le_rfl⟩, by norm_num, rfl, ?_⟩
    rw [show (T + 1 + 1074).toNat = (T + 1074).toNat + 1 by omega]
    ring

theorem shiftToTargetExponent_zero {T : ℤ} (hlow : -1074 ≤ T) :
    (shiftToTargetExponent .binary64 0 T .exact).1.mantissa = 0 := by
  rw [shiftToTargetExponent_eq 0 T .exact (k := 0) (by rw [Nat.log2_zero]; omega), shiftRight_exact]
  exact Nat.zero_div _

/-- With the exponent not above the one that is aimed at, rounding only drops bits: what is left of
the mantissa is rounded, and if that gives zero, the number is zero. -/
theorem roundWithAccuracy_cases {M : ℕ} {e : ℤ} {acc : Accuracy}
    (htarget : e ≤ max (M.log2 + e - 52) (-1074)) {k : ℕ}
    (hk : k = (max (M.log2 + e - 52) (-1074) - e).toNat) {r : ℕ}
    (hr : r = (ExtendedMantissa.ofMantissaAndAccuracy M acc >>> k).roundedMantissa) :
    (r = 0 ∧ roundWithAccuracy .binary64 s M e acc = .zero s) ∨
      ∃ m f, ∃ h : IsCanonical m f,
        roundWithAccuracy .binary64 s M e acc = .finite s m f h.pos ∧
          m * 2 ^ (f + 1074).toNat = r * 2 ^ (e + k + 1074).toNat := by
  have hround := roundedMantissa_mem (ExtendedMantissa.ofMantissaAndAccuracy M acc >>> k)
  rw [mantissa_shiftRight, mantissa_ofMantissaAndAccuracy, ← hr] at hround
  unfold roundWithAccuracy
  rw [shiftToTargetExponent_eq M e acc hk]
  dsimp only
  rw [← hr]
  by_cases hzero : r = 0
  · rw [hzero, dif_pos (shiftToTargetExponent_zero (by omega))]
    exact .inl ⟨rfl, rfl⟩
  · have hle : r ≤ 2 ^ 53 := hround.2.trans (div_two_pow_lt (by omega))
    have hnormal : e + k = -1074 ∨ 2 ^ 52 ≤ r := by
      by_cases hleast : e + k = -1074
      · exact .inl hleast
      · have hM : M ≠ 0 := by
          rintro rfl
          rw [Nat.log2_zero] at hk htarget
          omega
        have hquotient : 2 ^ 52 ≤ M / 2 ^ k := by
          rw [Nat.le_div_iff_mul_le (Nat.two_pow_pos k), ← pow_add]
          calc 2 ^ (52 + k) = 2 ^ M.log2 := by congr 1; omega
            _ ≤ M := Nat.log2_self_le hM
        exact .inr (hquotient.trans hround.1)
    obtain ⟨m, f, hcanonical, hm, hf, hmf⟩ :=
      shiftToTargetExponent_rounded (Nat.pos_of_ne_zero hzero) hle (by omega) hnormal
    refine .inr ⟨m, f, hcanonical, ?_, hmf⟩
    rw [dif_neg (by rw [hm]; exact hcanonical.pos.ne')]
    exact finite_congr hm hf _ _

/-- Of an exact mantissa, the nearest quotient is left. -/
theorem roundWithAccuracy_quotient {M : ℕ} {e : ℤ}
    (htarget : e ≤ max (M.log2 + e - 52) (-1074)) {k : ℕ}
    (hk : k = (max (M.log2 + e - 52) (-1074) - e).toNat) :
    (nearestQuotient M k = 0 ∧ roundWithAccuracy .binary64 s M e .exact = .zero s) ∨
      ∃ m f, ∃ h : IsCanonical m f,
        roundWithAccuracy .binary64 s M e .exact = .finite s m f h.pos ∧
          m * 2 ^ (f + 1074).toNat = nearestQuotient M k * 2 ^ (e + k + 1074).toNat :=
  roundWithAccuracy_cases htarget hk (roundedMantissa_shiftRight M k).symm

theorem roundWithAccuracy_exact {M : ℕ} {e : ℤ} (hM : 0 < M) (he : -1074 ≤ e)
    (htarget : e ≤ max (M.log2 + e - 52) (-1074)) :
    ∃ m f, ∃ h : IsCanonical m f,
      roundWithAccuracy .binary64 s M e .exact = .finite s m f h.pos ∧
        m * 2 ^ (f + 1074).toNat = rounded (M * 2 ^ (e + 1074).toNat) := by
  obtain ⟨k, hk⟩ : ∃ k : ℕ, k = (max (M.log2 + e - 52) (-1074) - e).toNat := ⟨_, rfl⟩
  have hvalue : rounded (M * 2 ^ (e + 1074).toNat) =
      nearestQuotient M k * 2 ^ (e + k + 1074).toNat := by
    have hexcess : excess (M * 2 ^ (e + 1074).toNat) = k + (e + 1074).toNat := by
      rw [excess, log2_mul_two_pow hM.ne']
      omega
    have hsum : k + (e + 1074).toNat = (e + k + 1074).toNat := by omega
    rw [rounded, hexcess, nearestQuotient_mul, hsum]
  rw [hvalue]
  refine (roundWithAccuracy_quotient htarget hk).resolve_left ?_
  rintro ⟨hzero, -⟩
  -- bits are dropped only from a mantissa of more than 53
  have hdiv : M / 2 ^ k = 0 := Nat.le_zero.mp (hzero ▸ div_le_nearestQuotient M k)
  rw [Nat.div_eq_zero_iff_lt (Nat.two_pow_pos k)] at hdiv
  have hlog : k ≤ M.log2 := by omega
  exact absurd ((Nat.pow_le_pow_right (by decide) hlog).trans (Nat.log2_self_le hM.ne'))
    (Nat.not_le_of_lt hdiv)

/-- Rounding a number other than zero brings it to canonical form, at the nearest number of 53
bits. -/
theorem round_positive {M : ℕ} {e : ℤ} (hM : 0 < M) (he : -1074 ≤ e) :
    ∃ m f, ∃ h : IsCanonical m f,
      UnpackedFloat.round .binary64 s M e = .finite s m f h.pos ∧
        m * 2 ^ (f + 1074).toNat = rounded (M * 2 ^ (e + 1074).toNat) := by
  obtain ⟨j, hj⟩ : ∃ j : ℕ, j = (e - max (M.log2 + e - 52) (-1074)).toNat := ⟨_, rfl⟩
  have hlog : (M * 2 ^ j).log2 = M.log2 + j := log2_mul_two_pow hM.ne' j
  have hshift : M * 2 ^ (e + 1074).toNat = M * 2 ^ j * 2 ^ (e - j + 1074).toNat := by
    rw [mul_assoc, ← pow_add]
    congr 2
    omega
  unfold UnpackedFloat.round decreaseExponent
  rw [targetExponent_eq]
  dsimp only
  rw [← hj, hshift, Nat.shiftLeft_eq]
  exact roundWithAccuracy_exact (Nat.mul_pos hM (Nat.two_pow_pos j)) (by omega)
    (by rw [hlog]; omega)

end Binary64
end RoadAudit
