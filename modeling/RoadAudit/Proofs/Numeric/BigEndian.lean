import Mathlib.Data.List.Induction
import Mathlib.Tactic
import RoadAudit.Numeric.BigEndian

/-! # Bytes as words

Writing a number as bytes and reading bytes as a number undo each other, as long as the number fits
the width. -/

namespace RoadAudit

theorem ofBigEndian_lt (bytes : List UInt8) : ofBigEndian bytes < 256 ^ bytes.length := by
  induction bytes using List.reverseRecOn with
  | nil => simp [ofBigEndian]
  | append_singleton bytes b ih =>
    have hb := b.toNat_lt
    rw [ofBigEndian_append, List.length_append, List.length_singleton, pow_succ]
    omega

theorem bigEndian_ofBigEndian (bytes : List UInt8) :
    bigEndian bytes.length (ofBigEndian bytes) = bytes := by
  induction bytes using List.reverseRecOn with
  | nil => rfl
  | append_singleton bytes b ih =>
    have hb := b.toNat_lt
    have hdiv : (256 * ofBigEndian bytes + b.toNat) / 256 = ofBigEndian bytes := by omega
    have hlast : UInt8.ofNat (256 * ofBigEndian bytes + b.toNat) = b := by
      apply UInt8.toNat_inj.mp
      rw [UInt8.toNat_ofNat']
      omega
    rw [List.length_append, List.length_singleton, bigEndian, ofBigEndian_append, hdiv, hlast, ih]

theorem ofBigEndian_bigEndian_of_lt {width n : Nat} (h : n < 256 ^ width) :
    ofBigEndian (bigEndian width n) = n := by
  rw [ofBigEndian_bigEndian]
  exact Nat.mod_eq_of_lt h

theorem takeBytes?_append {front rest : List UInt8} {n : Nat} (h : front.length = n) :
    takeBytes? n (front ++ rest) = some (front, rest) := by
  subst h
  simp [takeBytes?]

theorem takeBytes?_eq_some {n : Nat} {bytes front rest : List UInt8}
    (h : takeBytes? n bytes = some (front, rest)) : front.length = n ∧ bytes = front ++ rest := by
  unfold takeBytes? at h
  split at h
  case isTrue hle =>
    simp only [Option.some.injEq, Prod.mk.injEq] at h
    obtain ⟨rfl, rfl⟩ := h
    exact ⟨by simpa using hle, (List.take_append_drop n bytes).symm⟩
  case isFalse => cases h

end RoadAudit
