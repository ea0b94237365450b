import Mathlib.Tactic
import RoadAudit.Proofs.Numeric.BinaryAddition
import RoadAudit.Proofs.Numeric.ExactValue

/-! # Products and nearest integers

A product of binary64 numbers is rounded from the exact one. If the exact product is at most a whole
number of 53 bits, so is the rounded one, since the whole number is among those that it could be
rounded to. Neither does the nearest integer exceed a whole number that the number does not. -/

namespace RoadAudit
namespace Binary64

open Float.Model Float.Model.UnpackedFloat

/-! ## Rounding below a whole number -/

theorem nearestQuotient_le_of_le {M k b : ℕ} (h : M ≤ b * 2 ^ k) : nearestQuotient M k ≤ b :=
  (nearestQuotient_mono h k).trans_eq (nearestQuotient_of_mul b k)

theorem natCast_mul_zpow {m : ℕ} {e : ℤ} (h : -1074 ≤ e) :
    (m : ℝ) * 2 ^ e = ((m * 2 ^ (e + 1074).toNat : ℕ) : ℝ) * 2 ^ (-1074 : ℤ) := by
  rw [two_zpow_eq_mul h, sub_neg_eq_add, Nat.cast_mul, mul_assoc]

theorem exponent_lt_of_le {m B k : ℕ} {e : ℤ} (hm : 0 < m) (hB : B < 2 ^ k)
    (h : (m : ℝ) * 2 ^ e ≤ B) : e < k := by
  by_contra hhigh
  have hone : (1 : ℝ) ≤ m := by exact_mod_cast hm
  have hlarge : ((2 ^ k : ℕ) : ℝ) ≤ B := by
    calc ((2 ^ k : ℕ) : ℝ) = 2 ^ (k : ℤ) := by rw [Nat.cast_pow, Nat.cast_ofNat, zpow_natCast]
      _ ≤ 2 ^ e := zpow_le_zpow_right₀ one_le_two (not_lt.mp hhigh)
      _ ≤ m * 2 ^ e := le_mul_of_one_le_left (by positivity) hone
      _ ≤ B := h
  exact absurd (Nat.cast_le.mp hlarge) hB.not_ge

theorem add_le_zero_of_le {M B : ℕ} {e : ℤ} {k : ℕ} (hM : 0 < M) (hB : B < 2 ^ 53)
    (h : (M : ℝ) * 2 ^ e ≤ B) (hk : e + k = max (M.log2 + e - 52) (-1074)) : e + k ≤ 0 := by
  have hbelow : ((2 : ℝ) ^ M.log2) ≤ M := by exact_mod_cast Nat.log2_self_le hM.ne'
  have hpower : ((1 : ℕ) : ℝ) * 2 ^ ((M.log2 : ℤ) + e) ≤ B := by
    calc ((1 : ℕ) : ℝ) * 2 ^ ((M.log2 : ℤ) + e) = 2 ^ M.log2 * 2 ^ e := by
          rw [Nat.cast_one, one_mul, zpow_add₀ two_ne_zero, zpow_natCast]
      _ ≤ M * 2 ^ e := mul_le_mul_of_nonneg_right hbelow (by positivity)
      _ ≤ B := h
  have hlog := exponent_lt_of_le Nat.one_pos hB hpower
  omega

theorem nearestQuotient_mul_zpow_le {M B : ℕ} {e : ℤ} {k : ℕ} (hM : 0 < M) (hB : B < 2 ^ 53)
    (h : (M : ℝ) * 2 ^ e ≤ B) (hk : e + k = max (M.log2 + e - 52) (-1074)) :
    (nearestQuotient M k : ℝ) * 2 ^ (e + k) ≤ B := by
  have hle := add_le_zero_of_le hM hB h hk
  obtain ⟨j, hj⟩ : ∃ j : ℕ, e + k = -(j : ℤ) := ⟨(-(e + k)).toNat, by omega⟩
  have hscale : (2 : ℝ) ^ (e + k) * 2 ^ j = 1 := by
    rw [hj, zpow_neg, zpow_natCast]
    exact inv_mul_cancel₀ (by positivity)
  -- the whole number is `B * 2 ^ j` of the steps that are rounded to
  have hM' : M ≤ B * 2 ^ j * 2 ^ k := by
    have hpos : (0 : ℝ) < 2 ^ j * 2 ^ k := by positivity
    have hcancel : (M : ℝ) * 2 ^ e * (2 ^ j * 2 ^ k) = M := by
      rw [zpow_add₀ two_ne_zero, zpow_natCast] at hscale
      linear_combination (M : ℝ) * hscale
    have hreal : (M : ℝ) ≤ ((B * 2 ^ j * 2 ^ k : ℕ) : ℝ) := by
      calc (M : ℝ) = M * 2 ^ e * (2 ^ j * 2 ^ k) := hcancel.symm
        _ ≤ B * (2 ^ j * 2 ^ k) := mul_le_mul_of_nonneg_right h hpos.le
        _ = ((B * 2 ^ j * 2 ^ k : ℕ) : ℝ) := by push_cast; ring
    exact_mod_cast hreal
  have hquotient : (nearestQuotient M k : ℝ) ≤ B * 2 ^ j := by
    exact_mod_cast nearestQuotient_le_of_le hM'
  calc (nearestQuotient M k : ℝ) * 2 ^ (e + k) ≤ B * 2 ^ j * 2 ^ (e + k) :=
        mul_le_mul_of_nonneg_right hquotient (by positivity)
    _ = B := by rw [mul_assoc, mul_comm ((2 : ℝ) ^ j), hscale, mul_one]

/-- The magnitude of a number as a real number; what is not finite has none. -/
noncomputable def realMagnitude (a : UnpackedFloat) : ℝ := |(ofUnpacked a).value|

theorem abs_value_finite (s : Bool) (m : ℕ) (e : ℤ) :
    |(Binary64.finite s m e).value| = m * 2 ^ e := by
  have hpos : (0 : ℝ) ≤ m * 2 ^ e := by positivity
  cases s <;> simp [value]

/-- Whether a number is finite and at most as great as a whole number. -/
structure IsWithin (B : ℕ) (a : UnpackedFloat) : Prop where
  isUnpacked : IsUnpacked a
  isFinite : a.isFinite = true
  le : realMagnitude a ≤ B

theorem isWithin_zero (B : ℕ) (s : Sign) : IsWithin B (.zero s) :=
  ⟨.zero s, rfl, by simp [realMagnitude, ofUnpacked, value]⟩

theorem isWithin_roundWithAccuracy {s : Sign} {M B : ℕ} {e : ℤ} (hM : 0 < M) (hB : B < 2 ^ 53)
    (htarget : e ≤ max (M.log2 + e - 52) (-1074)) (h : (M : ℝ) * 2 ^ e ≤ B) :
    IsWithin B (roundWithAccuracy .binary64 s M e .exact) := by
  obtain ⟨k, hk⟩ : ∃ k : ℕ, k = (max (M.log2 + e - 52) (-1074) - e).toNat := ⟨_, rfl⟩
  rcases roundWithAccuracy_quotient htarget hk with ⟨-, hzero⟩ | ⟨m, f, hcanonical, hfinite, hmf⟩
  · rw [hzero]
    exact isWithin_zero B s
  · have hle : (m : ℝ) * 2 ^ f ≤ B := by
      rw [natCast_mul_zpow hcanonical.low, hmf, ← natCast_mul_zpow (by omega)]
      exact nearestQuotient_mul_zpow_le hM hB h (by omega)
    rw [hfinite]
    have hexponent := exponent_lt_of_le hcanonical.pos hB hle
    exact ⟨.finite s hcanonical (by omega), rfl,
      (abs_value_finite (isNegative s) m f).trans_le hle⟩

/-! ## Products -/

theorem repacked_of_isFinite {a : UnpackedFloat} (ha : IsUnpacked a) (hfinite : a.isFinite = true) :
    repacked a = a := by
  cases ha with
  | notANumber => cases hfinite
  | infinity s => cases hfinite
  | zero s => cases s <;> rfl
  | finite s h hhigh => exact unpack_pack h hhigh

theorem abs_realOf {x : Float} : |realOf x| = realMagnitude x.toModel.unpack := by
  rw [realOf, ofFloat_eq, realMagnitude]

theorem le_targetExponent_mul {m n : ℕ} {e f : ℤ} (h : IsCanonical m e) (h' : IsCanonical n f) :
    e + f ≤ max ((m * n).log2 + (e + f) - 52) (-1074) := by
  have hnormal : ∀ {r : ℕ}, 2 ^ 52 ≤ r → r ≤ m * n → 52 ≤ (m * n).log2 := fun hr hle => by
    have hmono := log2_mono (hr.trans hle)
    rwa [Nat.log2_two_pow] at hmono
  rcases h.normal with he | hm
  · rcases h'.normal with hf | hn
    · omega
    · have hlog := hnormal hn (Nat.le_mul_of_pos_left n h.pos)
      omega
  · have hlog := hnormal hm (Nat.le_mul_of_pos_right m h'.pos)
    omega

theorem isWithin_mul {a b : UnpackedFloat} (ha : IsUnpacked a) (hb : IsUnpacked b)
    (hfa : a.isFinite = true) (hfb : b.isFinite = true) {B : ℕ} (hB : B < 2 ^ 53)
    (h : realMagnitude a * realMagnitude b ≤ B) : IsWithin B (UnpackedFloat.mul .binary64 a b) := by
  cases ha with
  | notANumber => cases hfa
  | infinity s => cases hfa
  | zero s =>
    cases hb with
    | notANumber => cases hfb
    | infinity s => cases hfb
    | zero t => exact isWithin_zero B (s * t)
    | finite t h hhigh => exact isWithin_zero B (s * t)
  | @finite s m e hcanonical hhigh =>
    cases hb with
    | notANumber => cases hfb
    | infinity s => cases hfb
    | zero t => exact isWithin_zero B (s * t)
    | @finite t n f hcanonical' hhigh' =>
      change IsWithin B (roundWithAccuracy .binary64 (s * t) (m * n) (e + f) .exact)
      have hpos : 0 < m * n := Nat.mul_pos hcanonical.pos hcanonical'.pos
      refine isWithin_roundWithAccuracy hpos hB (le_targetExponent_mul hcanonical hcanonical') ?_
      change |(Binary64.finite (isNegative s) m e).value| *
        |(Binary64.finite (isNegative t) n f).value| ≤ B at h
      rw [abs_value_finite, abs_value_finite] at h
      calc ((m * n : ℕ) : ℝ) * 2 ^ (e + f) = m * 2 ^ e * (n * 2 ^ f) := by
            rw [zpow_add₀ two_ne_zero, Nat.cast_mul]
            ring
        _ ≤ B := h

/-- A product is finite and at most as great as a whole number of 53 bits if the exact one is at
most as great. -/
theorem abs_realOf_mul_le {x y : Float} (hx : x.isFinite) (hy : y.isFinite) {B : ℕ}
    (hB : B < 2 ^ 53) (h : |realOf x| * |realOf y| ≤ B) :
    (x * y).isFinite ∧ |realOf (x * y)| ≤ B := by
  rw [abs_realOf, abs_realOf] at h
  have hwithin := isWithin_mul (isUnpacked_unpack x.toModel.toBits.toBitVec)
    (isUnpacked_unpack y.toModel.toBits.toBitVec) hx hy hB h
  have hunpack : (x * y).toModel.unpack =
      UnpackedFloat.mul .binary64 x.toModel.unpack y.toModel.unpack :=
    repacked_of_isFinite hwithin.isUnpacked hwithin.isFinite
  rw [abs_realOf, hunpack]
  refine ⟨?_, hwithin.le⟩
  change (x * y).toModel.unpack.isFinite = true
  rw [hunpack]
  exact hwithin.isFinite

/-! ## Numbers between a bound and its negation -/

theorem isFinite_of_le_of_le {a u b : UnpackedFloat} (ha : a.isFinite = true)
    (hb : b.isFinite = true) (hau : a.le u = true) (hub : u.le b = true) : u.isFinite = true := by
  cases u with
  | zero s => rfl
  | finite s m e h => rfl
  | notANumber =>
    obtain ⟨-, -, l, hl, -⟩ := le_iff_key.mp hau
    cases hl
  | infinity s =>
    cases s with
    | negative =>
      cases a with
      | notANumber => cases ha
      | infinity s => cases ha
      | zero s => cases hau
      | finite s m e h => cases s <;> cases hau
    | positive =>
      cases b with
      | notANumber => cases hb
      | infinity s => cases hb
      | zero s => cases hub
      | finite s m e h => cases s <;> cases hub

theorem isFinite_neg (a : UnpackedFloat) : a.neg.isFinite = a.isFinite := by
  cases a <;> rfl

theorem count_neg (a : UnpackedFloat) : count a.neg = -count a := by
  cases a with
  | notANumber => rfl
  | infinity s => rfl
  | zero s => rfl
  | finite s m e h => cases s <;> simp [UnpackedFloat.neg, count]

theorem isUnpacked_neg {a : UnpackedFloat} (ha : IsUnpacked a) : IsUnpacked a.neg := by
  cases ha with
  | notANumber => exact .notANumber
  | infinity s => exact .infinity (-s)
  | zero s => exact .zero (-s)
  | finite s h hhigh => exact .finite (-s) h hhigh

theorem unpack_neg {x : Float} (hx : x.isFinite) : (-x).toModel.unpack = x.toModel.unpack.neg :=
  repacked_of_isFinite (isUnpacked_neg (isUnpacked_unpack _)) ((isFinite_neg _).trans hx)

theorem realOf_neg {x : Float} (hx : x.isFinite) : realOf (-x) = -realOf x := by
  rw [realOf_eq_count, realOf_eq_count, unpack_neg hx, count_neg, Int.cast_neg, neg_mul]

theorem abs_realOf_le {x b : Float} (hb : b.isFinite) (hlow : -b ≤ x) (hhigh : x ≤ b) :
    x.isFinite ∧ |realOf x| ≤ realOf b := by
  have hneg : (-b).isFinite := (congrArg UnpackedFloat.isFinite (unpack_neg hb)).trans
    ((isFinite_neg _).trans hb)
  have hfinite : x.isFinite := isFinite_of_le_of_le hneg hb
    (of_decide_eq_true hlow) (of_decide_eq_true hhigh)
  refine ⟨hfinite, abs_le.mpr ⟨?_, (realOf_le_realOf hfinite hb).mpr hhigh⟩⟩
  rw [← realOf_neg hb]
  exact (realOf_le_realOf hneg hfinite).mpr hlow

theorem realOf_of_parts {x : Float} {s : Bool} {m : ℕ} {e : ℤ} (hx : ofFloat x = .finite s m e) :
    realOf x = (if s then -1 else 1) * m * 2 ^ e :=
  congrArg value hx

/-! ## Nearest integers -/

theorem abs_roundHalfUp_sub_le (m : ℕ) (e : ℤ) : |(roundHalfUp m e : ℝ) - m * 2 ^ e| ≤ 1 / 2 := by
  unfold roundHalfUp
  by_cases he : 0 ≤ e
  · obtain ⟨n, rfl⟩ := Int.eq_ofNat_of_zero_le he
    rw [if_pos he, zpow_natCast]
    simp [twoPow]
  · obtain ⟨n, rfl⟩ : ∃ n : ℕ, e = -((n + 1 : ℕ) : ℤ) := ⟨(-e).toNat - 1, by omega⟩
    rw [if_neg he, neg_neg, Int.toNat_natCast, zpow_neg, zpow_natCast, ← div_eq_mul_inv]
    obtain ⟨q, hq⟩ : ∃ q, q = (m + twoPow (n + 1) / 2) / twoPow (n + 1) := ⟨_, rfl⟩
    have hpow : twoPow (n + 1) = 2 * 2 ^ n := by rw [twoPow, Nat.pow_eq, pow_succ, mul_comm]
    have hpos : 0 < 2 ^ n := Nat.two_pow_pos n
    rw [hpow, Nat.mul_div_cancel_left _ two_pos] at hq
    have hlow : q * (2 * 2 ^ n) ≤ m + 2 ^ n := hq ▸ Nat.div_mul_le_self _ _
    have hhigh : m + 2 ^ n < (q + 1) * (2 * 2 ^ n) :=
      hq ▸ Nat.lt_mul_of_div_lt (Nat.lt_succ_self _) (by omega)
    have hlow' : (q : ℝ) * (2 * 2 ^ n) ≤ m + 2 ^ n := by exact_mod_cast hlow
    have hhigh' : (m : ℝ) + 2 ^ n < (q + 1) * (2 * 2 ^ n) := by exact_mod_cast hhigh
    have hpos' : (0 : ℝ) < 2 * 2 ^ n := by positivity
    rw [hpow, Nat.mul_div_cancel_left _ two_pos, ← hq, pow_succ, mul_comm (2 ^ n : ℝ), abs_le,
      le_sub_iff_add_le, sub_le_iff_le_add, ← le_sub_iff_add_le', div_le_iff₀ hpos',
      ← sub_le_iff_le_add', le_div_iff₀ hpos']
    constructor <;> linarith

theorem mantissa_pos {x : Float} {s : Bool} {m : ℕ} {e : ℤ} (hx : ofFloat x = .finite s m e)
    (he : -1074 < e) : 0 < m := by
  unfold ofFloat ofBits at hx
  dsimp only at hx
  split_ifs at hx with hspecial hfraction hleast
  · cases hx
    exact absurd he (lt_irrefl _)
  · cases hx
    exact Nat.add_pos_left (Nat.two_pow_pos 52) _

theorem abs_nearestInt_sub_le {x : Float} (hx : x.isFinite) {B : ℕ} (hB : B < 2 ^ 63)
    (h : |realOf x| ≤ B) : |(nearestInt x : ℝ) - realOf x| ≤ 1 / 2 := by
  obtain ⟨s, m, e, hparts⟩ := ofFloat_of_isFinite hx
  have hmagnitude : |realOf x| = m * 2 ^ e := by
    rw [realOf_of_parts hparts]
    cases s <;> simp
  rw [hmagnitude] at h
  have hlow : ¬ 64 ≤ e := fun he => by
    have hexponent := exponent_lt_of_le (mantissa_pos hparts (by omega)) hB h
    omega
  have hround := abs_roundHalfUp_sub_le m e
  have hlimit : (roundHalfUp m e : ℤ) ≤ integerLimit := by
    have hreal : (roundHalfUp m e : ℝ) < ((B + 1 : ℕ) : ℝ) := by
      push_cast
      linarith [(abs_le.mp hround).2]
    have hnat : roundHalfUp m e < B + 1 := by exact_mod_cast hreal
    unfold integerLimit
    omega
  have hnearest : nearestInt x = if s then -(roundHalfUp m e : ℤ) else roundHalfUp m e := by
    unfold nearestInt
    rw [hparts]
    simp only [if_neg hlow, min_eq_right hlimit]
  rw [hnearest, realOf_of_parts hparts]
  cases s with
  | false => simpa using hround
  | true =>
    rw [← abs_neg]
    simpa [add_comm, sub_eq_add_neg] using hround

/-- The nearest integer of a finite number does not exceed a whole number that the number does
not. -/
theorem abs_nearestInt_le {x : Float} (hx : x.isFinite) {B : ℕ} (hB : B < 2 ^ 63)
    (h : |realOf x| ≤ B) : |nearestInt x| ≤ B := by
  have hclose := abs_nearestInt_sub_le hx hB h
  have hreal : |(nearestInt x : ℝ)| < ((B + 1 : ℕ) : ℝ) := by
    push_cast
    linarith [abs_sub_abs_le_abs_sub (nearestInt x : ℝ) (realOf x)]
  have hint : |nearestInt x| < ((B + 1 : ℕ) : ℤ) := by exact_mod_cast hreal
  omega

end Binary64
end RoadAudit
