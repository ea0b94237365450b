import RoadAudit.Numeric.Binary64
import RoadAudit.Proofs.Numeric.Order
import Mathlib.Data.Prod.Lex
import Mathlib.Order.Compare
import Mathlib.Tactic

/-! # The order of binary64 numbers

A binary64 number that is no NaN has a key, made of its sign, its exponent and its mantissa, and
numbers compare as their keys do. So the order keeps the laws of `LawfulOrder`. -/

namespace RoadAudit
namespace Binary64

open Float.Model

/-- Where a number stands in the order: the infinities outermost, zero of either sign in the middle,
and the finite numbers by exponent and mantissa. -/
def key : UnpackedFloat → Option (ℤ ×ₗ ℤ ×ₗ ℤ)
  | .notANumber => none
  | .infinity .negative => some (toLex (-2, toLex (0, 0)))
  | .infinity .positive => some (toLex (2, toLex (0, 0)))
  | .zero _ => some (toLex (0, toLex (0, 0)))
  | .finite .negative m e _ => some (toLex (-1, toLex (-e, -(m : ℤ))))
  | .finite .positive m e _ => some (toLex (1, toLex (e, (m : ℤ))))

theorem compare_neg (a b : ℤ) : compare (-a) (-b) = (compare a b).swap := by
  rcases lt_trichotomy a b with h | h | h
  · rw [compare_lt_iff_lt.mpr h, compare_gt_iff_gt.mpr (neg_lt_neg h), Ordering.swap_lt]
  · subst h; simp
  · rw [compare_gt_iff_gt.mpr h, compare_lt_iff_lt.mpr (neg_lt_neg h), Ordering.swap_gt]

theorem compare_natCast (m n : ℕ) : compare (m : ℤ) (n : ℤ) = compare m n := by
  rcases lt_trichotomy m n with h | h | h
  · rw [compare_lt_iff_lt.mpr h, compare_lt_iff_lt.mpr (Int.ofNat_lt.mpr h)]
  · subst h; simp
  · rw [compare_gt_iff_gt.mpr h, compare_gt_iff_gt.mpr (Int.ofNat_lt.mpr h)]

theorem compare_eq_key (a b : UnpackedFloat) :
    a.compare b = Option.map₂ compare (key a) (key b) := by
  rcases a with ⟨⟨⟩⟩ | _ | ⟨⟨⟩⟩ | ⟨⟨⟩, m, e, hm⟩ <;> rcases b with ⟨⟨⟩⟩ | _ | ⟨⟨⟩⟩ | ⟨⟨⟩, n, f, hn⟩
  all_goals try rfl
  · change some ((compare e f).then (compare m n)).swap =
      some ((compare (-e) (-f)).then (compare (-(m : ℤ)) (-(n : ℤ))))
    rw [compare_neg, compare_neg, compare_natCast, Ordering.swap_then]
  · change some ((compare e f).then (compare m n)) =
      some ((compare e f).then (compare (m : ℤ) (n : ℤ)))
    rw [compare_natCast]

theorem le_iff_key {a b : UnpackedFloat} :
    a.le b = true ↔ ∃ k ∈ key a, ∃ l ∈ key b, k ≤ l := by
  rw [UnpackedFloat.le, compare_eq_key]
  cases key a <;> cases key b <;> simp [← Ordering.ne_gt_iff_isLE, compare_le_iff_le]

theorem lt_iff_key {a b : UnpackedFloat} :
    a.lt b = true ↔ ∃ k ∈ key a, ∃ l ∈ key b, k < l := by
  rw [UnpackedFloat.lt, compare_eq_key]
  cases key a <;> cases key b <;> simp [compare_lt_iff_lt]

def keyOf (x : Float) : Option (ℤ ×ₗ ℤ ×ₗ ℤ) := key x.toModel.unpack

theorem float_le_iff {x y : Float} : x ≤ y ↔ ∃ k ∈ keyOf x, ∃ l ∈ keyOf y, k ≤ l := by
  rw [keyOf, keyOf, ← le_iff_key]
  exact decide_eq_true_iff

theorem float_lt_iff {x y : Float} : x < y ↔ ∃ k ∈ keyOf x, ∃ l ∈ keyOf y, k < l := by
  rw [keyOf, keyOf, ← lt_iff_key]
  exact decide_eq_true_iff

theorem isNumber_iff {x : Float} : Scalar.IsNumber x ↔ ∃ k, keyOf x = some k := by
  change x ≤ x ↔ _
  rw [float_le_iff]
  constructor
  · rintro ⟨k, hk, -⟩
    exact ⟨k, hk⟩
  · rintro ⟨k, hk⟩
    exact ⟨k, hk, k, hk, le_rfl⟩

end Binary64

open Binary64

instance : Scalar.LawfulOrder Float where
  number_of_le := by
    intro a b h
    obtain ⟨k, hk, l, hl, -⟩ := float_le_iff.mp h
    exact ⟨isNumber_iff.mpr ⟨k, hk⟩, isNumber_iff.mpr ⟨l, hl⟩⟩
  total := by
    intro a b ha hb
    obtain ⟨k, hk⟩ := isNumber_iff.mp ha
    obtain ⟨l, hl⟩ := isNumber_iff.mp hb
    rcases le_total k l with h | h
    · exact .inl (float_le_iff.mpr ⟨k, hk, l, hl, h⟩)
    · exact .inr (float_le_iff.mpr ⟨l, hl, k, hk, h⟩)
  trans := by
    intro a b c hab hbc
    obtain ⟨k, hk, l, hl, hkl⟩ := float_le_iff.mp hab
    obtain ⟨l', hl', m, hm, hlm⟩ := float_le_iff.mp hbc
    obtain rfl : l = l' := Option.some.inj (hl.symm.trans hl')
    exact float_le_iff.mpr ⟨k, hk, m, hm, hkl.trans hlm⟩
  lt_iff := by
    intro a b
    constructor
    · intro h
      obtain ⟨k, hk, l, hl, hkl⟩ := float_lt_iff.mp h
      refine ⟨float_le_iff.mpr ⟨k, hk, l, hl, hkl.le⟩, fun hba => ?_⟩
      obtain ⟨l', hl', k', hk', hlk⟩ := float_le_iff.mp hba
      obtain rfl : k = k' := Option.some.inj (hk.symm.trans hk')
      obtain rfl : l = l' := Option.some.inj (hl.symm.trans hl')
      exact hkl.not_ge hlk
    · rintro ⟨hab, hba⟩
      obtain ⟨k, hk, l, hl, hkl⟩ := float_le_iff.mp hab
      refine float_lt_iff.mpr ⟨k, hk, l, hl, lt_of_le_not_ge hkl fun hlk => hba ?_⟩
      exact float_le_iff.mpr ⟨l, hl, k, hk, hlk⟩

end RoadAudit
