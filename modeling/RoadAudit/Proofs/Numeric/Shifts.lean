import RoadAudit.Proofs.Numeric.BinaryAddition
import RoadAudit.Proofs.Numeric.RealScalar

/-! # Shifted bounds

A bound is widened by adding to it or subtracting from it. Which of two numbers is named first where
the lesser or the greater is taken makes no difference to the order, but in binary64 it may make one
to the result: the two zeros are the same in the order. Shifted by a number they stay the same, and
what is no number stays none. -/

namespace RoadAudit
namespace Scalar

open scoped Scalar

/-- Whether the order does not tell two scalars apart: they are the same, or neither is a number. -/
def Alike {α : Type} [Scalar α] (a b : α) : Prop :=
  a ≤ b ∧ b ≤ a ∨ ¬ IsNumber a ∧ ¬ IsNumber b

/-- Scalars that are alike bound the same numbers when they are shifted. -/
class LawfulShift (α : Type) [Scalar α] : Prop extends LawfulOrder α where
  sub_le : ∀ {a b : α} (c : α) {x : α}, Alike a b → a - c ≤ x → b - c ≤ x
  le_add : ∀ {a b : α} (c : α) {x : α}, Alike a b → x ≤ a + c → x ≤ b + c

section Alike

variable {α : Type} [Scalar α] [LawfulOrder α] {a b : α}

theorem alike_of_le_iff (h : ∀ x, a ≤ x ↔ b ≤ x) : Alike a b := by
  by_cases ha : IsNumber a
  · have hba : b ≤ a := (h a).mp ha
    exact .inl ⟨(h b).mpr (IsNumber.left hba), hba⟩
  · exact .inr ⟨ha, fun hb => ha (IsNumber.left ((h b).mpr hb))⟩

theorem alike_of_ge_iff (h : ∀ x, x ≤ a ↔ x ≤ b) : Alike a b := by
  by_cases ha : IsNumber a
  · have hab : a ≤ b := (h a).mp ha
    exact .inl ⟨hab, (h b).mpr (IsNumber.right hab)⟩
  · exact .inr ⟨ha, fun hb => ha (IsNumber.right ((h b).mpr hb))⟩

theorem alike_lesser (a b : α) : Alike (lesser a b) (lesser b a) :=
  alike_of_le_iff fun _ => lesser_le_iff.trans (or_comm.trans lesser_le_iff.symm)

theorem alike_greater (a b : α) : Alike (greater a b) (greater b a) :=
  alike_of_ge_iff fun _ => le_greater_iff.trans (or_comm.trans le_greater_iff.symm)

end Alike

end Scalar

instance : Scalar.LawfulShift ℝ where
  sub_le := by
    rintro a b c x (⟨hab, hba⟩ | ⟨ha, -⟩) h
    · rwa [le_antisymm hba hab]
    · exact absurd (Scalar.isNumber_real a) ha
  le_add := by
    rintro a b c x (⟨hab, hba⟩ | ⟨ha, -⟩) h
    · rwa [le_antisymm hba hab]
    · exact absurd (Scalar.isNumber_real a) ha

namespace Binary64

open Float.Model Float.Model.UnpackedFloat

theorem eq_or_zero_of_key_eq {a b : UnpackedFloat} (h : key a = key b) :
    a = b ∨ ∃ s t, a = .zero s ∧ b = .zero t := by
  rcases a with ⟨⟨⟩⟩ | _ | ⟨⟨⟩⟩ | ⟨⟨⟩, m, e, hm⟩ <;>
    rcases b with ⟨⟨⟩⟩ | _ | ⟨⟨⟩⟩ | ⟨⟨⟩, n, f, hn⟩ <;>
      simp_all [key]

theorem keyOf_eq_of_alike {x y : Float} (h : Scalar.Alike x y) : keyOf x = keyOf y := by
  rcases h with ⟨hxy, hyx⟩ | ⟨hx, hy⟩
  · obtain ⟨k, hk, l, hl, hkl⟩ := float_le_iff.mp hxy
    obtain ⟨l', hl', k', hk', hlk⟩ := float_le_iff.mp hyx
    obtain rfl : k = k' := Option.some.inj (hk.symm.trans hk')
    obtain rfl : l = l' := Option.some.inj (hl.symm.trans hl')
    rw [Option.mem_def.mp hk, Option.mem_def.mp hl, le_antisymm hkl hlk]
  · have hnone : ∀ {z : Float}, ¬ Scalar.IsNumber z → keyOf z = none := fun hz =>
      Option.eq_none_iff_forall_not_mem.mpr fun k hk => hz (isNumber_iff.mpr ⟨k, hk⟩)
    rw [hnone hx, hnone hy]

theorem key_repacked_add_zero (s t : Sign) (c : UnpackedFloat) :
    key (repacked (UnpackedFloat.add .binary64 (.zero s) c)) =
      key (repacked (UnpackedFloat.add .binary64 (.zero t) c)) := by
  cases c with
  | zero u => cases s <;> cases t <;> cases u <;> rfl
  | _ => rfl

theorem key_repacked_sub_zero (s t : Sign) (c : UnpackedFloat) :
    key (repacked (UnpackedFloat.sub .binary64 (.zero s) c)) =
      key (repacked (UnpackedFloat.sub .binary64 (.zero t) c)) := by
  cases c with
  | zero u => cases s <;> cases t <;> cases u <;> rfl
  | _ => rfl

theorem unpack_add (x y : Float) : (x + y).toModel.unpack =
    repacked (UnpackedFloat.add .binary64 x.toModel.unpack y.toModel.unpack) := rfl

theorem unpack_sub (x y : Float) : (x - y).toModel.unpack =
    repacked (UnpackedFloat.sub .binary64 x.toModel.unpack y.toModel.unpack) := rfl

theorem keyOf_add_eq {x y : Float} (h : Scalar.Alike x y) (c : Float) :
    keyOf (x + c) = keyOf (y + c) := by
  unfold keyOf
  rw [unpack_add, unpack_add]
  rcases eq_or_zero_of_key_eq (keyOf_eq_of_alike h) with heq | ⟨s, t, hx, hy⟩
  · rw [heq]
  · rw [hx, hy]
    exact key_repacked_add_zero s t c.toModel.unpack

theorem keyOf_sub_eq {x y : Float} (h : Scalar.Alike x y) (c : Float) :
    keyOf (x - c) = keyOf (y - c) := by
  unfold keyOf
  rw [unpack_sub, unpack_sub]
  rcases eq_or_zero_of_key_eq (keyOf_eq_of_alike h) with heq | ⟨s, t, hx, hy⟩
  · rw [heq]
  · rw [hx, hy]
    exact key_repacked_sub_zero s t c.toModel.unpack

end Binary64

open Binary64

/-- Binary64 numbers that the order does not tell apart are shifted alike. -/
instance : Scalar.LawfulShift Float where
  sub_le := by
    intro a b c x halike h
    rw [float_le_iff] at h ⊢
    rwa [← keyOf_sub_eq halike]
  le_add := by
    intro a b c x halike h
    rw [float_le_iff] at h ⊢
    rwa [← keyOf_add_eq halike]

end RoadAudit
