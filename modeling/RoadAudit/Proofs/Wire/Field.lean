import Mathlib.Tactic
import RoadAudit.Proofs.Numeric.BigEndian
import RoadAudit.Wire.Field

/-! # Messages read back

What is written is read back, whatever follows it: a number, a value, a field and at last a whole
message, as long as every number fits the bits that are kept for it. -/

namespace RoadAudit

/-- The values that the wire format has room for. -/
def WireValue.Fits : WireValue → Prop
  | .varint n | .fixed64 n => n < 2 ^ 64
  | .delimited bytes => bytes.length < 2 ^ 64
  | .fixed32 n => n < 2 ^ 32
  | .group => True

def WireValue.payload : WireValue → Nat
  | .delimited bytes => bytes.length
  | _ => 0

/-- The fields that the wire format has room for. -/
structure WireField.Fits (f : WireField) : Prop where
  number_pos : 1 ≤ f.1
  number_lt : f.1 < 2 ^ 29
  value : f.2.Fits

namespace Wire

/-! ## Numbers -/

theorem toNat_ofNat_of_lt {n : Nat} (h : n < 256) : (UInt8.ofNat n).toNat = n := by
  rw [UInt8.toNat_ofNat']
  exact Nat.mod_eq_of_lt h

theorem takeVarint_putVarint {count n : Nat} (h : n < 2 * 128 ^ count) (rest : List UInt8) :
    takeVarint (count + 1) (putVarint n ++ rest) = some (n, rest) := by
  induction n using putVarint.induct generalizing count with
  | case1 n hlast =>
    have hbyte : (UInt8.ofNat n).toNat = n := toNat_ofNat_of_lt (by omega)
    -- in the last byte that is allowed the bound leaves only one bit
    have hone : ¬ (count = 0 ∧ 1 < n) := by
      rintro ⟨rfl, hn⟩
      omega
    rw [putVarint, if_pos hlast, List.singleton_append, takeVarint, hbyte, if_pos hlast, if_neg hone]
  | case2 n hmore ih =>
    have hbyte : (UInt8.ofNat (n % 128 + 128)).toNat = n % 128 + 128 :=
      toNat_ofNat_of_lt (by omega)
    cases count with
    | zero => omega
    | succ count =>
      have hrest : n / 128 < 2 * 128 ^ count := by
        rw [pow_succ] at h
        omega
      have hjoin : n % 128 + 128 - 128 + 128 * (n / 128) = n := by omega
      rw [putVarint, if_neg hmore, List.cons_append, takeVarint, hbyte, if_neg (by omega), ih hrest]
      simp only [Option.map_some, hjoin]

theorem varint?_putVarint {n : Nat} (h : n < 2 ^ 64) (rest : List UInt8) :
    varint? (putVarint n ++ rest) = some (n, rest) :=
  takeVarint_putVarint (lt_of_lt_of_eq h (by norm_num)) rest

theorem length_putVarint_le {count n : Nat} (h : n < 128 ^ (count + 1)) :
    (putVarint n).length ≤ count + 1 := by
  induction n using putVarint.induct generalizing count with
  | case1 n hlast => simp [putVarint, hlast]
  | case2 n hmore ih =>
    cases count with
    | zero => omega
    | succ count =>
      have hrest : n / 128 < 128 ^ (count + 1) := by
        rw [pow_succ] at h
        omega
      rw [putVarint, if_neg hmore, List.length_cons]
      exact Nat.succ_le_succ (ih hrest)

theorem length_putVarint_pos (n : Nat) : 0 < (putVarint n).length := by
  unfold putVarint
  split <;> simp

theorem fixed?_putFixed {width n : Nat} (h : n < 256 ^ width) (rest : List UInt8) :
    fixed? width (putFixed width n ++ rest) = some (n, rest) := by
  have hlength : (putFixed width n).length = width := by simp [putFixed]
  rw [fixed?, takeBytes?_append hlength]
  simp only [Option.map_some, putFixed, List.reverse_reverse, ofBigEndian_bigEndian_of_lt h]

theorem delimited?_append {bytes : List UInt8} (h : bytes.length < 2 ^ 64) (rest : List UInt8) :
    delimited? (putVarint bytes.length ++ bytes ++ rest) = some (bytes, rest) := by
  rw [delimited?, List.append_assoc, varint?_putVarint h]
  exact takeBytes?_append rfl

/-! ## Fields -/

theorem key?_putVarint {number kind : Nat} (hpos : 1 ≤ number) (hlt : number < 2 ^ 29)
    (hkind : kind < 8) (rest : List UInt8) :
    key? (putVarint (8 * number + kind) ++ rest) = some (number, kind, rest) := by
  have hsize : 8 * number + kind < Word.size32 := by
    rw [Word.size32]
    omega
  have hnumber : (8 * number + kind) / 8 = number := by omega
  have hkind : (8 * number + kind) % 8 = kind := by omega
  rw [key?, varint?_putVarint (by omega)]
  change (if 8 * number + kind < Word.size32 ∧ 8 ≤ 8 * number + kind then _ else _) = _
  rw [if_pos ⟨hsize, by omega⟩, hnumber, hkind]

theorem field?_of_plain? (depth : Nat) {number kind : Nat} {v : WireValue}
    {bytes rest : List UInt8} (hpos : 1 ≤ number) (hlt : number < 2 ^ 29) (hkind : kind < 8)
    (hgroup : kind ≠ 3) (h : plain? kind bytes = some (v, rest)) :
    field? depth (putVarint (8 * number + kind) ++ bytes) = some ((number, v), rest) := by
  rw [field?, key?_putVarint hpos hlt hkind]
  simp [hgroup, h]

theorem field?_group (depth : Nat) {number : Nat} (hpos : 1 ≤ number) (hlt : number < 2 ^ 29)
    (rest : List UInt8) :
    field? depth (putField (number, .group) ++ rest) = some ((number, .group), rest) := by
  have hend : (putVarint (8 * number + 4) ++ rest).length ≠ 0 := by
    have := length_putVarint_pos (8 * number + 4)
    rw [List.length_append]
    omega
  obtain ⟨fuel, hfuel⟩ := Nat.exists_eq_succ_of_ne_zero hend
  have hafter : afterGroup? (putVarint (8 * number + 4) ++ rest).length depth number
      (putVarint (8 * number + 4) ++ rest) = some rest := by
    rw [hfuel, afterGroup?, key?_putVarint hpos hlt (by norm_num)]
    simp
  rw [putField, List.append_assoc, field?, key?_putVarint hpos hlt (by norm_num)]
  simp [-List.length_append, hafter]

theorem field?_putField (depth : Nat) {f : WireField} (h : f.Fits) (rest : List UInt8) :
    field? depth (putField f ++ rest) = some (f, rest) := by
  obtain ⟨number, value⟩ := f
  obtain ⟨hpos, hlt, hvalue⟩ := h
  cases value with
  | varint n =>
    have hplain : plain? 0 (putVarint n ++ rest) = some (.varint n, rest) := by
      rw [plain?, varint?_putVarint hvalue]
      rfl
    rw [putField, List.append_assoc]
    exact field?_of_plain? depth hpos hlt (by norm_num) (by norm_num) hplain
  | fixed64 n =>
    have hplain : plain? 1 (putFixed 8 n ++ rest) = some (.fixed64 n, rest) := by
      rw [plain?, fixed?_putFixed (lt_of_lt_of_eq hvalue (by norm_num))]
      rfl
    rw [putField, List.append_assoc]
    exact field?_of_plain? depth hpos hlt (by norm_num) (by norm_num) hplain
  | delimited bytes =>
    have hplain : plain? 2 (putVarint bytes.length ++ bytes ++ rest) =
        some (.delimited bytes, rest) := by
      rw [plain?, delimited?_append hvalue]
      rfl
    rw [putField, List.append_assoc, List.append_assoc, ← List.append_assoc (putVarint bytes.length)]
    exact field?_of_plain? depth hpos hlt (by norm_num) (by norm_num) hplain
  | fixed32 n =>
    have hplain : plain? 5 (putFixed 4 n ++ rest) = some (.fixed32 n, rest) := by
      rw [plain?, fixed?_putFixed (lt_of_lt_of_eq hvalue (by norm_num))]
      rfl
    rw [putField, List.append_assoc]
    exact field?_of_plain? depth hpos hlt (by norm_num) (by norm_num) hplain
  | group => exact field?_group depth hpos hlt rest

theorem length_putField_pos (f : WireField) : 0 < (putField f).length := by
  obtain ⟨number, value⟩ := f
  cases value <;> simp [putField, length_putVarint_pos]

/-- Every field of a message is read back. -/
theorem fields?_putFields (depth : Nat) {fields : List WireField} (h : ∀ f ∈ fields, f.Fits) :
    fields? depth (putFields fields) = some fields := by
  -- every field takes a byte, so one unit of fuel for each byte is enough
  have hwithin : ∀ fuel, (putFields fields).length ≤ fuel →
      fieldsWithin? fuel depth (putFields fields) = some fields := by
    induction fields with
    | nil =>
      intro fuel _
      cases fuel <;> rfl
    | cons f fields ih =>
      intro fuel hfuel
      have hf := length_putField_pos f
      have hsplit : putFields (f :: fields) = putField f ++ putFields fields := List.flatMap_cons
      rw [hsplit, List.length_append] at hfuel
      cases fuel with
      | zero => omega
      | succ fuel =>
        have hrest := ih (fun g hg => h g (List.mem_cons_of_mem f hg)) fuel (by omega)
        have hne : (putField f ++ putFields fields).isEmpty = false := by
          rw [List.isEmpty_eq_false_iff, ← List.length_pos_iff, List.length_append]
          omega
        rw [hsplit, fieldsWithin?, hne, field?_putField depth (h f List.mem_cons_self)]
        change (fieldsWithin? fuel depth (putFields fields)).map (f :: ·) = _
        rw [hrest]
        rfl
  exact hwithin _ le_rfl

/-! ## The length of a message -/

/-- Some fields that the wire format has room for, of no more than so many bytes. -/
structure Bounded (fields : List WireField) (bound : Nat) : Prop where
  fits : ∀ f ∈ fields, f.Fits
  length_le : (putFields fields).length ≤ bound

theorem bounded_nil (bound : Nat) : Bounded [] bound := ⟨by simp, Nat.zero_le bound⟩

theorem Bounded.append {fields more : List WireField} {m n : Nat} (h : Bounded fields m)
    (hmore : Bounded more n) : Bounded (fields ++ more) (m + n) where
  fits f hf := (List.mem_append.mp hf).elim (h.fits f) (hmore.fits f)
  length_le := by
    rw [putFields, List.flatMap_append, List.length_append]
    exact Nat.add_le_add h.length_le hmore.length_le

theorem bounded_singleton {number : Nat} {value : WireValue} (hpos : 1 ≤ number)
    (hlt : number < 16) (hvalue : value.Fits) :
    Bounded [(number, value)] (value.payload + 11) := by
  refine ⟨by simpa using WireField.Fits.mk hpos (hlt.trans (by norm_num)) hvalue, ?_⟩
  have hkey : ∀ kind, kind < 8 → (putVarint (8 * number + kind)).length ≤ 0 + 1 :=
    fun kind hkind => length_putVarint_le (by omega)
  have hten : ∀ n, n < 2 ^ 64 → (putVarint n).length ≤ 9 + 1 :=
    fun n hn => length_putVarint_le (hn.trans (by norm_num))
  rw [putFields, List.flatMap_singleton]
  cases value with
  | varint n =>
    have hkey := hkey 0 (by norm_num)
    have hn := hten n hvalue
    simp only [putField, WireValue.payload, List.length_append, Nat.add_zero] at hkey ⊢
    omega
  | fixed64 n =>
    have hkey := hkey 1 (by norm_num)
    simp only [putField, WireValue.payload, putFixed, List.length_append, List.length_reverse,
      length_bigEndian]
    omega
  | delimited bytes =>
    have hkey := hkey 2 (by norm_num)
    have hn := hten bytes.length hvalue
    simp only [putField, WireValue.payload, List.length_append]
    omega
  | fixed32 n =>
    have hkey := hkey 5 (by norm_num)
    simp only [putField, WireValue.payload, putFixed, List.length_append, List.length_reverse,
      length_bigEndian]
    omega
  | group =>
    have hstart := hkey 3 (by norm_num)
    have hend := hkey 4 (by norm_num)
    simp only [putField, WireValue.payload, List.length_append]
    omega

end Wire
end RoadAudit
