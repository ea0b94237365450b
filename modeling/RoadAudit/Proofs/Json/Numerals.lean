import Mathlib
import RoadAudit.Json.Printer
import RoadAudit.Json.Reader
import RoadAudit.Proofs.Numeric.ShortestDecimal

/-! # The numerals of JSON

The grammar of numbers that are not whole: digits, digits after a point, and a power of ten. A
binary64 number is written as a numeral of which it is the nearest number, so it is read back. -/

namespace RoadAudit

/-! ## Digits -/

namespace Decimal

variable {n : ℕ} {ds es : List Char}

theorem ofDigits_append : ofDigits (ds ++ es) = 10 ^ es.length * ofDigits ds + ofDigits es :=
  (Nat.ofDigitChars_append 0).trans Nat.ofDigitChars_eq_ofDigitChars_zero

theorem ofDigits_digitsOf : ofDigits (digitsOf n) = n := Nat.ofDigitChars_ten_toDigits

theorem ofDigits_zeros (k : ℕ) : ofDigits (zeros k) = 0 := by
  induction k with
  | zero => rfl
  | succ k ih => exact ih

theorem ofDigits_zeros_append (k : ℕ) : ofDigits (zeros k ++ ds) = ofDigits ds := by
  rw [ofDigits_append, ofDigits_zeros, mul_zero, zero_add]

theorem isDigit_of_mem_digitsOf {c : Char} (h : c ∈ digitsOf n) : Reading.isDigit c = true :=
  Nat.isDigit_of_mem_toDigits (by norm_num) le_rfl h

theorem isDigit_of_mem_zeros {c : Char} {k : ℕ} (h : c ∈ zeros k) : Reading.isDigit c = true := by
  rw [(List.mem_replicate.mp h).2]
  rfl

theorem exists_digitsOf_cons (hn : 0 < n) : ∃ d ds, digitsOf n = d :: ds ∧ d ≠ '0' := by
  induction n using Nat.strongRecOn with
  | ind n ih =>
    by_cases hlt : n < 10
    · refine ⟨n.digitChar, [], Nat.toDigits_of_lt_base hlt, ?_⟩
      interval_cases n <;> decide
    · obtain ⟨d, ds, hds, hd⟩ := ih (n / 10) (by omega) (by omega)
      refine ⟨d, ds ++ [(n % 10).digitChar], ?_, hd⟩
      change Nat.toDigits 10 n = _
      rw [Nat.toDigits_of_base_le (by norm_num) (not_lt.mp hlt)]
      exact congrArg (· ++ _) hds

end Decimal

namespace Json

open Decimal

/-! ## The grammar -/

/-- How the power of ten at the end of a numeral is written, if there is one. -/
inductive WritesPower : ℤ → List Char → Prop
  | absent : WritesPower 0 []
  | plus {ds : List Char} (hne : ds ≠ []) (hds : ∀ c ∈ ds, Reading.isDigit c = true) :
      WritesPower (ofDigits ds) ('e' :: '+' :: ds)
  | minus {ds : List Char} (hne : ds ≠ []) (hds : ∀ c ∈ ds, Reading.isDigit c = true) :
      WritesPower (-(ofDigits ds : ℤ)) ('e' :: '-' :: ds)

/-- How a real number that is not negative is written: a whole part, with no zero before other
digits, the digits after the point, and the power of ten. -/
inductive WritesNumeral (v : ℝ) : List Char → Prop
  | mk {whole fraction power : List Char} {p : ℤ} (hwhole : isWholePart whole = true)
      (hdigits : ∀ c ∈ whole ++ fraction, Reading.isDigit c = true) (hpower : WritesPower p power)
      (hv : v = ofDigits (whole ++ fraction) * 10 ^ (p - fraction.length)) :
      WritesNumeral v (whole ++ (if fraction = [] then [] else '.' :: fraction) ++ power)

/-- How a binary64 number is written: with its sign, as a numeral that is read back as it. What is
not finite is written as no value. -/
inductive WritesFloat (x : Float) : String → Prop
  | null (h : ¬ x.isFinite) : WritesFloat x "null"
  | numeral {s : Bool} {m : ℕ} {e : ℤ} {v : ℝ} {t : List Char}
      (hx : Binary64.ofFloat x = .finite s m e) (ht : WritesNumeral v t)
      (hv : Binary64.RoundsTo ((if s then -1 else 1) * v) x) :
      WritesFloat x ((if s then "-" else "") ++ String.ofList t)

/-! ## What is printed -/

theorem isWholePart_cons {d : Char} {ds : List Char} (hd : d ≠ '0') :
    isWholePart (d :: ds) = true := by
  unfold isWholePart
  split
  case h_1 heq => cases heq
  case h_2 => rfl
  case h_3 heq =>
    cases heq
    exact bne_iff_ne.mpr hd

theorem isWholePart_singleton (d : Char) : isWholePart [d] = true := by
  by_cases hd : d = '0'
  · rw [hd]
    rfl
  · exact isWholePart_cons hd

theorem isWholePart_of_head? {n : ℕ} (hn : 0 < n) {ds : List Char}
    (h : ds.head? = (digitsOf n).head?) : isWholePart ds = true := by
  obtain ⟨d, es, hdigits, hd⟩ := exists_digitsOf_cons hn
  rw [hdigits] at h
  obtain ⟨es', rfl⟩ := List.head?_eq_some_iff.mp h
  exact isWholePart_cons hd

section Decimals

variable {d : Decimal}

theorem writes_integral (hzero : d.mantissa = 0 → d.exponent = 0) (he : 0 ≤ d.exponent) :
    WritesNumeral d.value (digitsOf d.mantissa ++ zeros d.exponent.toNat ++ ['.', '0']) := by
  obtain ⟨k, hk⟩ := Int.eq_ofNat_of_zero_le he
  have hwhole : isWholePart (digitsOf d.mantissa ++ zeros d.exponent.toNat) = true := by
    rcases Nat.eq_zero_or_pos d.mantissa with hm | hm
    · rw [hm, hzero hm]
      rfl
    · exact isWholePart_of_head? hm (List.head?_append_of_ne_nil _ Nat.toDigits_ne_nil)
  have hdigits : ∀ c ∈ digitsOf d.mantissa ++ zeros d.exponent.toNat ++ ['0'],
      Reading.isDigit c = true := by
    simp only [List.mem_append, List.mem_singleton]
    rintro c ((h | h) | rfl)
    · exact isDigit_of_mem_digitsOf h
    · exact isDigit_of_mem_zeros h
    · rfl
  have h := WritesNumeral.mk (v := d.value) hwhole hdigits .absent ?_
  · simpa using h
  · have hofDigits : ofDigits (digitsOf d.mantissa ++ zeros d.exponent.toNat ++ ['0']) =
        10 ^ (k + 1) * d.mantissa := by
      rw [List.append_assoc, ofDigits_append, ofDigits_digitsOf, ofDigits_zeros_append]
      simp [zeros, hk, ofDigits]
    rw [Decimal.value, hofDigits, hk]
    push_cast
    rw [List.length_singleton, Nat.cast_one, zero_sub, zpow_neg_one, zpow_natCast, pow_succ]
    ring

theorem exists_split (he : d.exponent < 0) : ∃ whole fraction, d.split = (whole, fraction) ∧
    (whole = [] ∨ whole.head? = (digitsOf d.mantissa).head?) ∧
    (∀ c ∈ whole ++ fraction, Reading.isDigit c = true) ∧
    ofDigits (whole ++ fraction) = d.mantissa ∧ (fraction.length : ℤ) = -d.exponent := by
  obtain ⟨places, hplaces⟩ : ∃ places, places = (-d.exponent).toNat := ⟨_, rfl⟩
  obtain ⟨padded, hpadded⟩ : ∃ padded, padded =
    zeros (places - (digitsOf d.mantissa).length) ++ digitsOf d.mantissa := ⟨_, rfl⟩
  obtain ⟨k, hk⟩ : ∃ k, k = padded.length - places := ⟨_, rfl⟩
  have hlength : padded.length = places - (digitsOf d.mantissa).length +
      (digitsOf d.mantissa).length := by
    simp [hpadded, zeros]
  refine ⟨padded.take k, padded.drop k, ?_, ?_, ?_, ?_, ?_⟩
  · rw [hk, hpadded, hplaces]
    exact if_neg (not_le.mpr he)
  · rcases Nat.eq_zero_or_pos k with hzero | hpos
    · exact .inl (by rw [hzero, List.take_zero])
    · -- with digits in front of the point no zeros were needed
      have hnone : places - (digitsOf d.mantissa).length = 0 := by omega
      right
      rw [List.head?_take, if_neg hpos.ne', hpadded, hnone]
      rfl
  · rw [List.take_append_drop, hpadded]
    exact fun c hc => (List.mem_append.mp hc).elim isDigit_of_mem_zeros isDigit_of_mem_digitsOf
  · rw [List.take_append_drop, hpadded, ofDigits_zeros_append, ofDigits_digitsOf]
  · rw [List.length_drop]
    omega

theorem writes_places (hzero : d.mantissa = 0 → d.exponent = 0) (he : d.exponent < 0) :
    WritesNumeral d.value d.positional.toList := by
  have hm : 0 < d.mantissa := Nat.pos_of_ne_zero fun hm => by omega
  obtain ⟨whole, fraction, hsplit, hhead, hdigits, hnumber, hlength⟩ := exists_split he
  have hne : fraction ≠ [] := List.ne_nil_of_length_pos (by omega)
  have hvalue : d.value = ofDigits (whole ++ fraction) * 10 ^ (0 - (fraction.length : ℤ)) := by
    rw [Decimal.value, hnumber, hlength, zero_sub, neg_neg]
  by_cases hempty : whole = []
  · have htext : d.positional.toList =
        ['0'] ++ (if fraction = [] then [] else '.' :: fraction) ++ [] := by
      simp [positional, hsplit, hne, hempty]
    rw [hempty, List.nil_append] at hdigits hvalue
    rw [htext]
    refine .mk (isWholePart_singleton '0') ?_ .absent (hvalue.trans ?_)
    · exact List.forall_mem_cons.mpr ⟨rfl, hdigits⟩
    · rw [show ['0'] ++ fraction = zeros 1 ++ fraction from rfl, ofDigits_zeros_append]
  · have htext : d.positional.toList =
        whole ++ (if fraction = [] then [] else '.' :: fraction) ++ [] := by
      simp [positional, hsplit, hne, hempty]
    rw [htext]
    exact .mk (isWholePart_of_head? hm (hhead.resolve_left hempty)) hdigits .absent hvalue

theorem writesPower (p : ℤ) :
    WritesPower p ('e' :: (if p < 0 then '-' else '+') :: digitsOf p.natAbs) := by
  have hne : digitsOf p.natAbs ≠ [] := Nat.toDigits_ne_nil
  have hdigits : ∀ c ∈ digitsOf p.natAbs, Reading.isDigit c = true :=
    fun c => isDigit_of_mem_digitsOf
  split
  case isTrue hneg =>
    have h := WritesPower.minus hne hdigits
    rwa [ofDigits_digitsOf, show -(p.natAbs : ℤ) = p by omega] at h
  case isFalse hnonneg =>
    have h := WritesPower.plus hne hdigits
    rwa [ofDigits_digitsOf, show (p.natAbs : ℤ) = p by omega] at h

theorem writes_scientific (d : Decimal) : WritesNumeral d.value d.scientific.toList := by
  obtain ⟨a, ds, hds⟩ := List.exists_cons_of_ne_nil
    (show digitsOf d.mantissa ≠ [] from Nat.toDigits_ne_nil)
  have hdigits : ∀ c ∈ [a] ++ ds, Reading.isDigit c = true := by
    rw [List.singleton_append, ← hds]
    exact fun c => isDigit_of_mem_digitsOf
  have htext : d.scientific.toList = [a] ++ (if ds = [] then [] else '.' :: ds) ++
      'e' :: (if d.magnitude < 0 then '-' else '+') :: digitsOf d.magnitude.natAbs := by
    have hpower : (toString d.magnitude.natAbs).toList = digitsOf d.magnitude.natAbs := by
      rw [Nat.toString_eq_ofList_toDigits, String.toList_ofList]
      rfl
    have hsign : (if d.magnitude < 0 then "-" else "+").toList =
        [if d.magnitude < 0 then '-' else '+'] := by
      split <;> rfl
    simp only [scientific, hds, String.toList_append, hpower, hsign]
    cases ds <;> simp
  rw [htext]
  refine .mk (isWholePart_singleton a) hdigits (writesPower d.magnitude) ?_
  rw [Decimal.value, List.singleton_append, ← hds, ofDigits_digitsOf]
  congr 2
  rw [magnitude, hds, List.length_cons]
  omega

theorem writes_decimalText (hzero : d.mantissa = 0 → d.exponent = 0) :
    WritesNumeral d.value (decimalText d).toList := by
  unfold decimalText
  split
  · split
    case isTrue he =>
      have hsplit : d.split = (digitsOf d.mantissa ++ zeros d.exponent.toNat, []) := if_pos he
      have hne : (digitsOf d.mantissa ++ zeros d.exponent.toNat).isEmpty = false := by
        simp [digitsOf]
      simpa [positional, hsplit, hne] using writes_integral hzero he
    case isFalse he => simpa using writes_places hzero (not_le.mp he)
  · exact writes_scientific d

end Decimals

theorem writes_floatText (x : Float) : WritesFloat x (floatText x) := by
  unfold floatText
  cases hx : Binary64.ofFloat x with
  | nan =>
    refine .null fun hfinite => ?_
    obtain ⟨s, m, e, hparts⟩ := Binary64.ofFloat_of_isFinite hfinite
    cases hx.symm.trans hparts
  | infinite s =>
    refine .null fun hfinite => ?_
    obtain ⟨s, m, e, hparts⟩ := Binary64.ofFloat_of_isFinite hfinite
    cases hx.symm.trans hparts
  | finite s m e =>
    have hzero := Shortest.exponent_shortestDecimal .even (Binary64.canonical_of_parts hx)
    have h := WritesFloat.numeral hx (writes_decimalText hzero)
      (Binary64.roundsTo_shortestDecimal .even hx)
    rwa [String.ofList_toList] at h

end Json
end RoadAudit
