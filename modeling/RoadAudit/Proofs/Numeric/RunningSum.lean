import RoadAudit.Proofs.Numeric.BinaryAddition
import RoadAudit.Proofs.Numeric.ExactScalar
import RoadAudit.Proofs.Numeric.ExactValue

/-! # Running sums

A sum that is taken from left to right starts at zero. Binary64 has two zeros, which are the same in
its order, but a sum of this kind is never the negative one: rounding brings nothing but zero to
zero, and of the zeros only two negative ones add up to a negative one. So running sums that are the
same in the order are equal, and which of two such sums is named first does not matter where the
lesser is taken. -/

namespace RoadAudit
namespace Scalar

open scoped Scalar

/-- Whether a number is reached from zero by adding. -/
inductive IsRunningSum {α : Type} [Scalar α] : α → Prop
  | zero : IsRunningSum 0
  | add {a : α} (h : IsRunningSum a) (c : α) : IsRunningSum (a + c)

/-- Running sums that are the same in the order are equal. -/
class LawfulRunningSum (α : Type) [Scalar α] : Prop extends LawfulOrder α where
  eq_of_same : ∀ {a b : α}, IsRunningSum a → IsRunningSum b → a ≤ b → b ≤ a → a = b

/-- Whether some numbers come to the same in whatever order they are added up, as they do where
nothing is rounded. -/
def AddsUp {α : Type} [Scalar α] (as : List α) : Prop :=
  ∀ bs : List α, bs.Perm as → sum bs = sum as

section Sums

variable {α : Type} [Scalar α]

theorem IsRunningSum.foldl_add {a : α} (h : IsRunningSum a) (as : List α) :
    IsRunningSum (as.foldl (· + ·) a) := by
  induction as generalizing a with
  | nil => exact h
  | cons c rest ih => exact ih (h.add c)

theorem isRunningSum_sum (as : List α) : IsRunningSum (sum as) := IsRunningSum.zero.foldl_add as

variable [LawfulRunningSum α]

theorem lesser_comm {a b : α} (ha : IsRunningSum a) (hb : IsRunningSum b)
    (hnumber : IsNumber a ∨ IsNumber b) : lesser a b = lesser b a := by
  by_cases hna : IsNumber a
  · by_cases hnb : IsNumber b
    · by_cases hba : b < a
      · have hab : ¬ (a < b ∨ ¬ b ≤ b) := not_or.mpr ⟨not_lt_of_le (le_of_lt hba), not_not.mpr hnb⟩
        rw [lesser, lesser, if_pos (.inl hba), if_neg hab]
      · by_cases hab : a < b
        · have hba' : ¬ (b < a ∨ ¬ a ≤ a) := not_or.mpr ⟨hba, not_not.mpr hna⟩
          rw [lesser, lesser, if_neg hba', if_pos (.inl hab)]
        · have heq := LawfulRunningSum.eq_of_same ha hb (le_of_not_lt hnb hna hba)
            (le_of_not_lt hna hnb hab)
          rw [heq]
    · have hba : ¬ (b < a ∨ ¬ a ≤ a) :=
        not_or.mpr ⟨fun h => hnb (IsNumber.left (le_of_lt h)), not_not.mpr hna⟩
      rw [lesser, lesser, if_neg hba, if_pos (.inr hnb)]
  · have hnb := hnumber.resolve_left hna
    have hab : ¬ (a < b ∨ ¬ b ≤ b) :=
      not_or.mpr ⟨fun h => hna (IsNumber.left (le_of_lt h)), not_not.mpr hnb⟩
    rw [lesser, lesser, if_pos (.inr hna), if_neg hab]

end Sums

namespace Exact

variable {α : Type} [Scalar α] [Exact α]

theorem value_foldl_add (as : List α) (a : α) :
    value (as.foldl (· + ·) a) = value a + (as.map value).sum := by
  induction as generalizing a with
  | nil => simp
  | cons c rest ih => simp [ih, value_add, add_assoc]

theorem value_sum (as : List α) : value (sum as) = (as.map value).sum := by
  rw [sum, value_foldl_add, value_zero, zero_add]

theorem addsUp [LawfulRunningSum α] (as : List α) : AddsUp as := by
  intro bs h
  have hvalue : value (sum bs) = value (sum as) := by
    rw [value_sum, value_sum, (h.map value).sum_eq]
  exact LawfulRunningSum.eq_of_same (isRunningSum_sum bs) (isRunningSum_sum as)
    ((le_iff _ _).mpr hvalue.le) ((le_iff _ _).mpr hvalue.ge)

end Exact
end Scalar

instance : Scalar.LawfulRunningSum ℝ where
  eq_of_same _ _ h h' := le_antisymm h h'

namespace Binary64

open Float.Model Float.Model.UnpackedFloat

theorem repacked_ne {a : UnpackedFloat} (ha : IsUnpacked a) (hne : a ≠ .zero .negative) :
    repacked a ≠ .zero .negative := by
  rwa [repacked_of_isUnpacked ha]

theorem repacked_round_ne {s : Sign} {M : ℕ} {e : ℤ} (hM : 0 < M) (he : -1074 ≤ e) :
    repacked (UnpackedFloat.round .binary64 s M e) ≠ .zero .negative := by
  obtain ⟨m, f, hcanonical, hround, -⟩ := round_positive (s := s) hM he
  rw [hround]
  by_cases hhigh : f ≤ 971
  · exact repacked_ne (.finite s hcanonical hhigh) nofun
  · rw [repacked, unpack_pack_overflow hcanonical (by omega)]
    exact nofun

theorem repacked_add_ne {a b : UnpackedFloat} (ha : IsUnpacked a) (hb : IsUnpacked b)
    (hne : a ≠ .zero .negative) :
    repacked (UnpackedFloat.add .binary64 a b) ≠ .zero .negative := by
  cases ha with
  | notANumber =>
    rw [notANumber_add]
    exact repacked_ne .notANumber nofun
  | infinity s =>
    have hadd : UnpackedFloat.add .binary64 (.infinity s) b = .infinity s ∨
        UnpackedFloat.add .binary64 (.infinity s) b = .notANumber := by
      cases hb with
      | infinity t => cases s <;> cases t <;> simp [UnpackedFloat.add]
      | notANumber => exact .inr rfl
      | zero t => exact .inl rfl
      | finite t h hhigh => exact .inl rfl
    rcases hadd with hadd | hadd <;> rw [hadd]
    · exact repacked_ne (.infinity s) nofun
    · exact repacked_ne .notANumber nofun
  | zero s =>
    cases s with
    | negative => exact absurd rfl hne
    | positive =>
      cases hb with
      | notANumber => exact repacked_ne .notANumber nofun
      | infinity t => exact repacked_ne (.infinity t) nofun
      | zero t => cases t <;> exact repacked_ne (.zero .positive) nofun
      | finite t h hhigh => exact repacked_ne (.finite t h hhigh) nofun
  | @finite s m e h hhigh =>
    cases hb with
    | notANumber => exact repacked_ne .notANumber nofun
    | infinity t => exact repacked_ne (.infinity t) nofun
    | zero t => exact repacked_ne (.finite s h hhigh) nofun
    | @finite t n f h' hhigh' =>
      have hlow := h.low
      have hlow' := h'.low
      -- the sum is exact before it is rounded, and an exact zero is the positive one
      change repacked (UnpackedFloat.normalize .binary64 _ (min e f) .positive) ≠ _
      unfold UnpackedFloat.normalize
      split
      case h_1 hlt =>
        have hneg := compare_lt_iff_lt.mp hlt
        exact repacked_round_ne (by omega) (by omega)
      case h_2 => exact repacked_ne (.zero .positive) nofun
      case h_3 hgt =>
        have hpos := compare_gt_iff_gt.mp hgt
        exact repacked_round_ne (by omega) (by omega)

theorem unpack_ne_of_isRunningSum {x : Float} (h : Scalar.IsRunningSum x) :
    x.toModel.unpack ≠ .zero .negative := by
  induction h with
  | zero =>
    have hzero : (Scalar.ofNat 0 : Float).toModel.unpack = .zero .positive := rfl
    exact hzero ▸ nofun
  | @add a _ c ih =>
    exact repacked_add_ne (isUnpacked_unpack a.toModel.toBits.toBitVec)
      (isUnpacked_unpack c.toModel.toBits.toBitVec) ih

theorem eq_of_key_eq {a b : UnpackedFloat} {k : ℤ ×ₗ ℤ ×ₗ ℤ} (ha : key a = some k)
    (hb : key b = some k) (hne : a ≠ .zero .negative) (hne' : b ≠ .zero .negative) : a = b := by
  have hkey : key a = key b := ha.trans hb.symm
  clear ha hb
  rcases a with ⟨⟨⟩⟩ | _ | ⟨⟨⟩⟩ | ⟨⟨⟩, m, e, hm⟩ <;> rcases b with ⟨⟨⟩⟩ | _ | ⟨⟨⟩⟩ | ⟨⟨⟩, n, f, hn⟩ <;>
    simp_all [key]

end Binary64

open Binary64 Float.Model

/-- No running sum of binary64 numbers is the negative zero. -/
instance : Scalar.LawfulRunningSum Float where
  eq_of_same := by
    intro a b ha hb hab hba
    obtain ⟨k, hk, l, hl, hkl⟩ := float_le_iff.mp hab
    obtain ⟨l', hl', k', hk', hlk⟩ := float_le_iff.mp hba
    obtain rfl : k = k' := Option.some.inj (hk.symm.trans hk')
    obtain rfl : l = l' := Option.some.inj (hl.symm.trans hl')
    obtain rfl : k = l := le_antisymm hkl hlk
    have hunpack := eq_of_key_eq hk hl (unpack_ne_of_isRunningSum ha)
      (unpack_ne_of_isRunningSum hb)
    have hbits := (UnpackedFloat.unpack_inj_of_valid a.toModel.valid b.toModel.valid).mp hunpack
    exact Float.toBits_inj.mp (UInt64.toBitVec_inj.mp hbits)

end RoadAudit
