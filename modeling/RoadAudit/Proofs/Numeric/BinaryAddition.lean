import RoadAudit.Proofs.Numeric.BinaryOrder
import RoadAudit.Proofs.Numeric.Packing

/-! # Adding binary64 lengths

A binary64 number from zero on is a multiple of `2 ^ (-1074)`, or infinite. A sum of two such
numbers is the sum of the multiples, rounded to 53 bits and cut at the infinite one. Both keep the
order, so binary64 addition keeps the laws of lengths. -/

namespace RoadAudit
namespace Binary64

open Float.Model Float.Model.UnpackedFloat

/-- A number from zero on, as it is unpacked. -/
inductive IsLength : UnpackedFloat → Prop
  | zero (s : Sign) : IsLength (.zero s)
  | infinity : IsLength (.infinity .positive)
  | finite {m : ℕ} {e : ℤ} (h : IsCanonical m e) (hhigh : e ≤ 971) :
      IsLength (.finite .positive m e h.pos)

@[irreducible] def top : ℕ := 2098

/-- A length counted in steps of `2 ^ (-1074)`. -/
def magnitude : UnpackedFloat → ℕ
  | .infinity _ => 2 ^ top
  | .notANumber => 0
  | .zero _ => 0
  | .finite _ m e _ => m * 2 ^ (e + 1074).toNat

variable {m n : ℕ} {e f : ℤ}

theorem magnitude_lt_top (h : IsCanonical m e) (hhigh : e ≤ 971) :
    m * 2 ^ (e + 1074).toNat < 2 ^ top := by
  have hlow := h.low
  calc m * 2 ^ (e + 1074).toNat < 2 ^ 53 * 2 ^ (e + 1074).toNat :=
        (Nat.mul_lt_mul_right (Nat.two_pow_pos _)).mpr h.lt
    _ = 2 ^ (53 + (e + 1074).toNat) := (pow_add 2 _ _).symm
    _ ≤ 2 ^ top := Nat.pow_le_pow_right (by decide) (by unfold top; omega)

theorem top_le_magnitude (h : IsCanonical m e) (hhigh : 971 < e) :
    2 ^ top ≤ m * 2 ^ (e + 1074).toNat := by
  have hnormal : 2 ^ 52 ≤ m := h.normal.resolve_left (by omega)
  calc 2 ^ top ≤ 2 ^ (52 + (e + 1074).toNat) :=
        Nat.pow_le_pow_right (by decide) (by unfold top; omega)
    _ = 2 ^ 52 * 2 ^ (e + 1074).toNat := pow_add 2 _ _
    _ ≤ m * 2 ^ (e + 1074).toNat := Nat.mul_le_mul_right _ hnormal

theorem magnitude_lt_of_exponent_lt (h : IsCanonical m e) (h' : IsCanonical n f) (hlt : e < f) :
    m * 2 ^ (e + 1074).toNat < n * 2 ^ (f + 1074).toNat := by
  have hlow := h.low
  have hnormal : 2 ^ 52 ≤ n := h'.normal.resolve_left (by omega)
  calc m * 2 ^ (e + 1074).toNat < 2 ^ 53 * 2 ^ (e + 1074).toNat :=
        (Nat.mul_lt_mul_right (Nat.two_pow_pos _)).mpr h.lt
    _ = 2 ^ 52 * 2 ^ ((e + 1074).toNat + 1) := by ring
    _ ≤ n * 2 ^ (f + 1074).toNat :=
        Nat.mul_le_mul hnormal (Nat.pow_le_pow_right (by decide) (by omega))

theorem finite_le_iff (h : IsCanonical m e) (h' : IsCanonical n f) :
    (UnpackedFloat.finite .positive m e h.pos).le (.finite .positive n f h'.pos) = true ↔
      m * 2 ^ (e + 1074).toNat ≤ n * 2 ^ (f + 1074).toNat := by
  change ((compare e f).then (compare m n)).isLE = true ↔ _
  rcases lt_trichotomy e f with hlt | rfl | hgt
  · rw [compare_lt_iff_lt.mpr hlt]
    exact iff_of_true rfl (magnitude_lt_of_exponent_lt h h' hlt).le
  · rw [compare_eq_iff_eq.mpr rfl, Nat.mul_le_mul_right_iff (Nat.two_pow_pos _)]
    change (compare m n).isLE = true ↔ m ≤ n
    exact Ordering.ne_gt_iff_isLE.symm.trans compare_le_iff_le
  · rw [compare_gt_iff_gt.mpr hgt]
    exact iff_of_false Bool.false_ne_true (magnitude_lt_of_exponent_lt h' h hgt).not_ge

theorem le_iff_magnitude {a b : UnpackedFloat} (ha : IsLength a) (hb : IsLength b) :
    a.le b = true ↔ magnitude a ≤ magnitude b := by
  cases ha with
  | zero s =>
    refine iff_of_true ?_ (Nat.zero_le _)
    cases hb <;> rfl
  | infinity =>
    cases hb with
    | zero s => exact iff_of_false Bool.false_ne_true (Nat.not_le_of_lt (Nat.two_pow_pos top))
    | infinity => exact iff_of_true rfl le_rfl
    | finite h hhigh =>
      exact iff_of_false Bool.false_ne_true (Nat.not_le_of_lt (magnitude_lt_top h hhigh))
  | finite h hhigh =>
    cases hb with
    | zero s =>
      exact iff_of_false Bool.false_ne_true
        (Nat.not_le_of_lt (Nat.mul_pos h.pos (Nat.two_pow_pos _)))
    | infinity => exact iff_of_true rfl (magnitude_lt_top h hhigh).le
    | finite h' hhigh' => exact finite_le_iff h h'

theorem IsUnpacked.isLength {a : UnpackedFloat} (ha : IsUnpacked a)
    (h : (UnpackedFloat.zero .positive).le a = true) : IsLength a := by
  cases ha with
  | notANumber => cases h
  | infinity s =>
    cases s with
    | negative => cases h
    | positive => exact .infinity
  | zero s => exact .zero s
  | finite s hcanonical hhigh =>
    cases s with
    | negative => cases h
    | positive => exact .finite hcanonical hhigh

/-- A number as its word gives it back. -/
def repacked (a : UnpackedFloat) : UnpackedFloat :=
  UnpackedFloat.unpack .binary64 (UnpackedFloat.pack .binary64 a)

theorem repacked_of_isUnpacked {a : UnpackedFloat} (ha : IsUnpacked a) : repacked a = a := by
  cases ha with
  | notANumber => rfl
  | infinity s => exact unpack_packedInfinity s
  | zero s => cases s <;> rfl
  | finite s h hhigh => exact unpack_pack h hhigh

theorem IsLength.isUnpacked {a : UnpackedFloat} (ha : IsLength a) : IsUnpacked a := by
  cases ha with
  | zero s => exact .zero s
  | infinity => exact .infinity .positive
  | finite h hhigh => exact .finite .positive h hhigh

theorem repacked_of_isLength {a : UnpackedFloat} (ha : IsLength a) : repacked a = a :=
  repacked_of_isUnpacked ha.isUnpacked

/-- In canonical form, what is too great becomes infinite, and the rest is kept. -/
theorem magnitude_repacked (h : IsCanonical m e) :
    IsLength (repacked (.finite .positive m e h.pos)) ∧
      magnitude (repacked (.finite .positive m e h.pos)) =
        min (2 ^ top) (m * 2 ^ (e + 1074).toNat) := by
  by_cases hhigh : e ≤ 971
  · rw [repacked_of_isLength (.finite h hhigh)]
    exact ⟨.finite h hhigh, (min_eq_right (magnitude_lt_top h hhigh).le).symm⟩
  · have hover : repacked (.finite .positive m e h.pos) = .infinity .positive :=
      unpack_pack_overflow h (by omega)
    rw [hover]
    exact ⟨.infinity, (min_eq_left (top_le_magnitude h (by omega))).symm⟩

theorem rounded_magnitude {a : UnpackedFloat} (ha : IsLength a) :
    rounded (magnitude a) = magnitude a := by
  cases ha with
  | zero s => exact rounded_of_fits (m := 0) (by decide) 0
  | infinity =>
    have hone := rounded_of_fits (m := 1) (by decide) top
    rwa [Nat.one_mul] at hone
  | finite h hhigh => exact rounded_of_fits h.lt _

theorem magnitude_le_top {a : UnpackedFloat} (ha : IsLength a) : magnitude a ≤ 2 ^ top := by
  cases ha with
  | zero s => exact Nat.zero_le _
  | infinity => exact le_rfl
  | finite h hhigh => exact (magnitude_lt_top h hhigh).le

/-- The magnitude that a sum is rounded to, where what is too great becomes infinite. -/
def clipped (n : ℕ) : ℕ := min (2 ^ top) (rounded n)

theorem clipped_mono {m n : ℕ} (h : m ≤ n) : clipped m ≤ clipped n :=
  min_le_min le_rfl (rounded_mono h)

theorem clipped_magnitude {a : UnpackedFloat} (ha : IsLength a) :
    clipped (magnitude a) = magnitude a := by
  rw [clipped, rounded_magnitude ha, min_eq_right (magnitude_le_top ha)]

theorem clipped_of_top_le {n : ℕ} (h : 2 ^ top ≤ n) : clipped n = 2 ^ top := by
  have htop : clipped (2 ^ top) = 2 ^ top := clipped_magnitude .infinity
  have hmono := clipped_mono h
  rw [htop] at hmono
  exact le_antisymm (min_le_left _ _) hmono

/-- A sum has the magnitude of the sum of the magnitudes, rounded. -/
structure IsSum (a b c : UnpackedFloat) : Prop where
  isLength : IsLength c
  magnitude_eq : magnitude c = clipped (magnitude a + magnitude b)

theorem isSum_finite {m n : ℕ} {e f : ℤ} (h : IsCanonical m e) (h' : IsCanonical n f) :
    IsSum (.finite .positive m e h.pos) (.finite .positive n f h'.pos)
      (repacked (UnpackedFloat.add .binary64 (.finite .positive m e h.pos)
        (.finite .positive n f h'.pos))) := by
  have hlow := h.low
  have hlow' := h'.low
  obtain ⟨g, hg⟩ : ∃ g, g = min e f := ⟨_, rfl⟩
  obtain ⟨M, hM⟩ : ∃ M, M = m * 2 ^ (e - g).toNat + n * 2 ^ (f - g).toNat := ⟨_, rfl⟩
  have hpos : 0 < M := by
    rw [hM]
    exact Nat.add_pos_left (Nat.mul_pos h.pos (Nat.two_pow_pos _)) _
  have hadd : UnpackedFloat.add .binary64 (.finite .positive m e h.pos)
      (.finite .positive n f h'.pos) = UnpackedFloat.round .binary64 .positive M g := by
    change normalize .binary64 ((m <<< (e - min e f).toNat : ℕ) + (n <<< (f - min e f).toNat : ℕ))
      (min e f) .positive = _
    rw [← hg, Nat.shiftLeft_eq, Nat.shiftLeft_eq, ← Nat.cast_add, ← hM, UnpackedFloat.normalize,
      compare_gt_iff_gt.mpr (Int.natCast_pos.mpr hpos)]
    rfl
  have hsum : M * 2 ^ (g + 1074).toNat = m * 2 ^ (e + 1074).toNat + n * 2 ^ (f + 1074).toNat := by
    rw [hM, Nat.add_mul, mul_assoc, mul_assoc, ← pow_add, ← pow_add]
    congr 3 <;> omega
  obtain ⟨r, k, hcanonical, hround, hvalue⟩ := round_positive (s := .positive) hpos (e := g) (by omega)
  obtain ⟨hlength, hmagnitude⟩ := magnitude_repacked hcanonical
  rw [hadd, hround]
  rw [hsum] at hvalue
  exact ⟨hlength, hmagnitude.trans (congrArg (min (2 ^ top)) hvalue)⟩

theorem isSum_of_add_eq {a b c : UnpackedFloat} (hc : IsLength c)
    (hadd : UnpackedFloat.add .binary64 a b = c)
    (hmagnitude : magnitude c = clipped (magnitude a + magnitude b)) :
    IsSum a b (repacked (UnpackedFloat.add .binary64 a b)) := by
  rw [hadd, repacked_of_isLength hc]
  exact ⟨hc, hmagnitude⟩

theorem isSum_add {a b : UnpackedFloat} (ha : IsLength a) (hb : IsLength b) :
    IsSum a b (repacked (UnpackedFloat.add .binary64 a b)) := by
  cases ha with
  | zero s =>
    cases hb with
    | zero t =>
      obtain ⟨u, hu⟩ : ∃ u, UnpackedFloat.add .binary64 (.zero s) (.zero t) = .zero u := by
        cases s <;> cases t <;> exact ⟨_, rfl⟩
      exact isSum_of_add_eq (.zero u) hu (clipped_magnitude (.zero u)).symm
    | infinity =>
      exact isSum_of_add_eq .infinity rfl (clipped_of_top_le (Nat.le_add_left _ _)).symm
    | finite h hhigh =>
      refine isSum_of_add_eq (.finite h hhigh) rfl ?_
      rw [magnitude, Nat.zero_add, clipped_magnitude (.finite h hhigh)]
  | infinity =>
    have hadd : UnpackedFloat.add .binary64 (.infinity .positive) b = .infinity .positive := by
      cases hb <;> rfl
    exact isSum_of_add_eq .infinity hadd (clipped_of_top_le (Nat.le_add_right _ _)).symm
  | finite h hhigh =>
    cases hb with
    | zero s =>
      exact isSum_of_add_eq (.finite h hhigh) rfl (clipped_magnitude (.finite h hhigh)).symm
    | infinity =>
      exact isSum_of_add_eq .infinity rfl (clipped_of_top_le (Nat.le_add_left _ _)).symm
    | finite h' hhigh' => exact isSum_finite h h'

theorem isLength_of_nonneg {x : Float} (h : (Scalar.ofNat 0 : Float) ≤ x) :
    IsLength x.toModel.unpack :=
  (isUnpacked_unpack x.toModel.toBits.toBitVec).isLength (decide_eq_true_iff.mp h)

theorem isSum_unpack {x y : Float} (hx : IsLength x.toModel.unpack)
    (hy : IsLength y.toModel.unpack) :
    IsSum x.toModel.unpack y.toModel.unpack (x + y).toModel.unpack :=
  isSum_add hx hy

theorem le_of_magnitude_le {x y : Float} (hx : IsLength x.toModel.unpack)
    (hy : IsLength y.toModel.unpack)
    (h : magnitude x.toModel.unpack ≤ magnitude y.toModel.unpack) : x ≤ y :=
  decide_eq_true_iff.mpr ((le_iff_magnitude hx hy).mpr h)

theorem magnitude_le_of_le {x y : Float} (hx : IsLength x.toModel.unpack)
    (hy : IsLength y.toModel.unpack) (h : x ≤ y) :
    magnitude x.toModel.unpack ≤ magnitude y.toModel.unpack :=
  (le_iff_magnitude hx hy).mp (decide_eq_true_iff.mp h)

theorem notANumber_add (a : UnpackedFloat) :
    UnpackedFloat.add .binary64 .notANumber a = .notANumber := by
  cases a <;> rfl

theorem add_notANumber (a : UnpackedFloat) :
    UnpackedFloat.add .binary64 a .notANumber = .notANumber := by
  cases a <;> rfl

theorem exists_key_of_ne {a : UnpackedFloat} (h : a ≠ .notANumber) : ∃ k, key a = some k := by
  rcases a with ⟨⟨⟩⟩ | _ | ⟨⟨⟩⟩ | ⟨⟨⟩, m, e, hm⟩
  case notANumber => exact absurd rfl h
  all_goals exact ⟨_, rfl⟩

theorem isNumber_of_unpack_ne {x : Float} (h : x.toModel.unpack ≠ .notANumber) :
    Scalar.IsNumber x :=
  isNumber_iff.mpr (exists_key_of_ne h)

end Binary64

open Binary64

/-- Binary64 addition is monotone on lengths, and a sum is not less than its first term. -/
instance : Scalar.LawfulLength Float where
  number_zero := le_of_magnitude_le (.zero .positive) (.zero .positive) le_rfl
  le_add := by
    intro a c ha hc
    have hla := isLength_of_nonneg ha
    have hsum := isSum_unpack hla (isLength_of_nonneg hc)
    apply le_of_magnitude_le hla hsum.isLength
    rw [hsum.magnitude_eq]
    calc magnitude a.toModel.unpack = clipped (magnitude a.toModel.unpack) :=
          (clipped_magnitude hla).symm
      _ ≤ clipped (magnitude a.toModel.unpack + magnitude c.toModel.unpack) :=
          clipped_mono (Nat.le_add_right _ _)
  add_le_add := by
    intro a b c ha hab hc
    have hla := isLength_of_nonneg ha
    have hlb := isLength_of_nonneg (Scalar.le_trans ha hab)
    have hlc := isLength_of_nonneg hc
    have hsum := isSum_unpack hla hlc
    have hsum' := isSum_unpack hlb hlc
    apply le_of_magnitude_le hsum.isLength hsum'.isLength
    rw [hsum.magnitude_eq, hsum'.magnitude_eq]
    exact clipped_mono (Nat.add_le_add_right (magnitude_le_of_le hla hlb hab) _)

/-- A sum with a NaN is a NaN. -/
instance : Scalar.LawfulSum Float where
  number_of_add := by
    intro a b h
    obtain ⟨k, hk⟩ := isNumber_iff.mp h
    have hsum : key (repacked (.add .binary64 a.toModel.unpack b.toModel.unpack)) = some k := hk
    have hnone : key (repacked .notANumber) = none := rfl
    refine ⟨isNumber_of_unpack_ne ?_, isNumber_of_unpack_ne ?_⟩
    · intro ha
      rw [ha, notANumber_add, hnone] at hsum
      cases hsum
    · intro hb
      rw [hb, add_notANumber, hnone] at hsum
      cases hsum

end RoadAudit
