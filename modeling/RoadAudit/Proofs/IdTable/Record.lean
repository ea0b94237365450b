import RoadAudit.IdTable.Basic
import Mathlib.Data.Nat.Bitwise
import Mathlib.Tactic

/-! # The word of a record

Sentinel, map id and no-exit mark share one word. For the map ids that a layout has room for, the
three never collide: a record is read back as it was written and is never taken for a vacant word. -/

namespace RoadAudit
namespace IdTable

/-- The map ids that a layout has room for: 56 bits for nodes, all but the word of ones for ways. -/
def InRange : IdLayout → UInt64 → Prop
  | .nodes, osmId => osmId.toNat < 2 ^ 56
  | .ways, osmId => osmId.toNat ≠ 2 ^ 64 - 1

theorem fits_iff_inRange (layout : IdLayout) (osmId : UInt64) :
    fits layout osmId = true ↔ InRange layout osmId := by
  cases layout with
  | nodes =>
    have hmask : idMask.toNat = 2 ^ 56 - 1 := rfl
    simp only [fits, InRange, decide_eq_true_eq, UInt64.le_iff_toNat_le, hmask]
    omega
  | ways =>
    have hvacant : vacant.toNat = 2 ^ 64 - 1 := rfl
    simp [fits, InRange, ← UInt64.toNat_inj, hvacant]

theorem toNat_and_idMask (w : UInt64) : (w &&& idMask).toNat = w.toNat % 2 ^ 56 := by
  have hmask : idMask.toNat = 2 ^ 56 - 1 := rfl
  rw [UInt64.toNat_and, hmask, Nat.and_two_pow_sub_one_eq_mod]

theorem toNat_encodeRecord_nodes {osmId : UInt64} (h : InRange .nodes osmId) (noExit : Bool) :
    (encodeRecord .nodes osmId noExit).toNat = (if noExit then 2 ^ 63 else 0) + osmId.toNat := by
  have hlt : osmId.toNat < 2 ^ 56 := h
  have hid : (osmId &&& idMask).toNat = osmId.toNat := by
    rw [toNat_and_idMask, Nat.mod_eq_of_lt hlt]
  cases noExit with
  | false => simpa [encodeRecord] using hid
  | true =>
    have hbit : noExitBit.toNat = 2 ^ 63 := rfl
    have hsum := Nat.two_pow_add_eq_or_of_lt (i := 63) (hlt.trans (by norm_num)) 1
    simp only [encodeRecord, if_true, UInt64.toNat_or, hid, hbit, Nat.or_comm osmId.toNat]
    simpa using hsum.symm

theorem encodeRecord_ne_vacant {layout : IdLayout} {osmId : UInt64} (h : InRange layout osmId)
    (noExit : Bool) : encodeRecord layout osmId noExit ≠ vacant := by
  have hvacant : vacant.toNat = 2 ^ 64 - 1 := rfl
  intro he
  have hnat := congrArg UInt64.toNat he
  cases layout with
  | nodes =>
    have hlt : osmId.toNat < 2 ^ 56 := h
    rw [toNat_encodeRecord_nodes h, hvacant] at hnat
    split at hnat <;> omega
  | ways => exact h (hnat.trans hvacant)

theorem idOf?_encodeRecord {layout : IdLayout} {osmId : UInt64} (h : InRange layout osmId)
    (noExit : Bool) : idOf? layout (encodeRecord layout osmId noExit) = some osmId := by
  unfold idOf?
  rw [if_neg (encodeRecord_ne_vacant h noExit)]
  cases layout with
  | nodes =>
    have hlt : osmId.toNat < 2 ^ 56 := h
    simp only [Option.some.injEq]
    rw [← UInt64.toNat_inj, toNat_and_idMask, toNat_encodeRecord_nodes h]
    split <;> omega
  | ways => rfl

/-- Of a node the mark is read back, of a way there is none. -/
theorem noExitOf_encodeRecord {layout : IdLayout} {osmId : UInt64} (h : InRange layout osmId)
    (noExit : Bool) :
    noExitOf layout (encodeRecord layout osmId noExit) = (layout == .nodes && noExit) := by
  have hne : (encodeRecord layout osmId noExit != vacant) = true := by
    simpa using encodeRecord_ne_vacant h noExit
  rw [noExitOf, hne, Bool.true_and]
  cases layout with
  | nodes =>
    have hlt : osmId.toNat < 2 ^ 56 := h
    have hbit : noExitBit.toNat = 2 ^ 63 := rfl
    have hand : (encodeRecord .nodes osmId noExit &&& noExitBit).toNat
        = (if noExit then 2 ^ 63 else 0) := by
      rw [UInt64.toNat_and, toNat_encodeRecord_nodes h, hbit, Nat.and_two_pow]
      cases noExit with
      | false => simp [Nat.testBit_lt_two_pow (hlt.trans (by norm_num : 2 ^ 56 < 2 ^ 63))]
      | true =>
        rw [if_pos rfl, Nat.testBit_two_pow_add_eq,
          Nat.testBit_lt_two_pow (hlt.trans (by norm_num : 2 ^ 56 < 2 ^ 63))]
        rfl
    cases noExit <;> simp [← UInt64.toNat_inj, hand, bne_iff_ne]
  | ways => rfl

theorem idOf?_vacant (layout : IdLayout) : idOf? layout vacant = none := if_pos rfl

theorem noExitOf_vacant (layout : IdLayout) : noExitOf layout vacant = false := by
  simp [noExitOf]

end IdTable
end RoadAudit
