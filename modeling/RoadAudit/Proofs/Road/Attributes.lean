import RoadAudit.Proofs.Lists
import RoadAudit.Road.Attributes
import Mathlib.Tactic

/-! # Attributes read back from their word

The attributes of a way stand in fields of their own in its word, so each is read back as it was
put there. For the level that takes more, since the word has only room for some ranges: what is
encoded is cut to them, and one code says that there is no range. But what is parsed from a tag is
always a range that the word has room for, or none. -/

namespace RoadAudit

/-! ## Levels -/

namespace LevelRange

/-- The ranges that a word has room for, and the one that is none. -/
inductive Encodable : LevelRange → Prop
  | invalid : Encodable .invalid
  | range {low span : Int} (hlow : lowest ≤ low) (hhigh : low + span ≤ highest)
      (hspan : span = 0 ∨ span = 1) : Encodable ⟨low, span, true⟩

theorem Encodable.span_eq {r : LevelRange} (h : r.Encodable) : r.span = 0 ∨ r.span = 1 := by
  cases h with
  | invalid => exact .inl rfl
  | range _ _ hspan => exact hspan

theorem Encodable.cut_low {r : LevelRange} (h : r.Encodable) :
    min (max r.low lowest) highest = r.low := by
  cases h with
  | invalid => rfl
  | range hlow hhigh hspan =>
    have hle : _ ≤ highest := Int.le_trans (Int.le_add_of_nonneg_right (by omega)) hhigh
    rw [max_eq_left hlow, min_eq_left hle]

theorem encodable_between {least greatest : Int} (h : least ≤ greatest) :
    (between least greatest).Encodable := by
  unfold between
  split
  case isTrue => exact .invalid
  case isFalse hfits => exact .range (by omega) (by omega) (by omega)

theorem foldl_extremes_bounds (levels : List Int) (s : Int × Int) :
    let r := levels.foldl (fun s v => (min s.1 v, max s.2 v)) s
    r.1 ≤ s.1 ∧ s.2 ≤ r.2 ∧ ∀ v ∈ levels, r.1 ≤ v ∧ v ≤ r.2 := by
  induction levels generalizing s with
  | nil => simp
  | cons v rest ih =>
    obtain ⟨hleast, hgreatest, hrest⟩ := ih (min s.1 v, max s.2 v)
    dsimp only [List.foldl_cons] at hleast hgreatest ⊢
    exact ⟨by omega, by omega, List.forall_mem_cons.mpr ⟨by omega, hrest⟩⟩

theorem extremes_ordered {levels : List Int} (h : levels ≠ []) :
    (extremes levels).1 ≤ (extremes levels).2 := by
  obtain ⟨v, hv⟩ := List.exists_mem_of_ne_nil levels h
  obtain ⟨-, -, hbounds⟩ := foldl_extremes_bounds levels (Word.greatest, Word.least)
  obtain ⟨hleast, hgreatest⟩ := hbounds v hv
  exact hleast.trans hgreatest

theorem ne_nil_of_levels? {value : String} {levels : List Int} (h : levels? value = some levels) :
    levels ≠ [] := by
  rintro rfl
  have hparts := mapM_eq_some_iff.mp h
  exact partsAt_ne_nil ';' value.toList (List.forall₂_nil_right_iff.mp hparts)

theorem encodable_parse (value : Option String) : (parse value).Encodable := by
  have hground : ground.Encodable := .range (by decide) (by decide) (.inl rfl)
  unfold parse
  split
  case h_1 => exact hground
  case h_2 value =>
    split
    case isTrue => exact hground
    case isFalse =>
      split
      case h_1 => exact .invalid
      case h_2 levels hlevels =>
        exact encodable_between (extremes_ordered (ne_nil_of_levels? hlevels))

end LevelRange

namespace RoadFlags

/-! ## Fields of a word -/

/-- Whether a word has bits only where another has. -/
def Within (x mask : UInt32) : Prop := x &&& mask = x

instance (x mask : UInt32) : Decidable (Within x mask) := inferInstanceAs (Decidable (_ = _))

theorem or_and (x y mask : UInt32) : (x ||| y) &&& mask = x &&& mask ||| y &&& mask := by
  apply UInt32.toBitVec_inj.mp
  ext i
  simp [Bool.and_or_distrib_right]

theorem Within.and_eq_zero {x mask other : UInt32} (h : Within x mask)
    (hother : mask &&& other = 0) : x &&& other = 0 := by
  rw [← h, UInt32.and_assoc, hother, UInt32.and_zero]

theorem within_code (c : RoadClass) : Within c.code.toUInt32 classMask := by
  cases c <;> decide

theorem within_flag (b : Bool) (bit : UInt32) : Within (flag b bit) bit := by
  cases b with
  | false => exact UInt32.zero_and
  | true => exact UInt32.and_self

theorem within_encodeLevel (r : LevelRange) : Within (encodeLevel r) (levelMask ||| spanBit) := by
  unfold encodeLevel
  split
  case isTrue =>
    have hlow : LevelRange.lowest ≤ min (max r.low LevelRange.lowest) LevelRange.highest :=
      le_min (le_max_right _ _) (by decide)
    have hhigh := min_le_right (max r.low LevelRange.lowest) LevelRange.highest
    generalize min (max r.low LevelRange.lowest) LevelRange.highest = low at hlow hhigh
    generalize decide (r.span > 0) = wide
    -- once it is cut, the level is one of fifteen
    unfold LevelRange.lowest LevelRange.highest at *
    interval_cases low <;> cases wide <;> decide
  case isFalse => decide

/-! ## Packing and reading back -/

section Pack

variable (c : RoadClass) (p : Bool) (r : LevelRange) (a : Bool)

theorem pack_and (mask : UInt32) :
    (pack c p r a).bits &&& mask = c.code.toUInt32 &&& mask ||| flag p privateBit &&& mask |||
      encodeLevel r &&& mask ||| flag a areaBit &&& mask := by
  rw [pack, or_and, or_and, or_and]

theorem pack_and_classMask : (pack c p r a).bits &&& classMask = c.code.toUInt32 := by
  have hprivate : flag p privateBit &&& classMask = 0 :=
    (within_flag p privateBit).and_eq_zero (by decide)
  have hlevel : encodeLevel r &&& classMask = 0 := (within_encodeLevel r).and_eq_zero (by decide)
  have harea : flag a areaBit &&& classMask = 0 := (within_flag a areaBit).and_eq_zero (by decide)
  rw [pack_and, within_code c, hprivate, hlevel, harea]
  simp only [UInt32.or_zero]

theorem pack_and_privateBit : (pack c p r a).bits &&& privateBit = flag p privateBit := by
  have hclass : c.code.toUInt32 &&& privateBit = 0 := (within_code c).and_eq_zero (by decide)
  have hlevel : encodeLevel r &&& privateBit = 0 := (within_encodeLevel r).and_eq_zero (by decide)
  have harea : flag a areaBit &&& privateBit = 0 := (within_flag a areaBit).and_eq_zero (by decide)
  rw [pack_and, within_flag p privateBit, hclass, hlevel, harea]
  simp only [UInt32.or_zero, UInt32.zero_or]

theorem pack_and_areaBit : (pack c p r a).bits &&& areaBit = flag a areaBit := by
  have hclass : c.code.toUInt32 &&& areaBit = 0 := (within_code c).and_eq_zero (by decide)
  have hprivate : flag p privateBit &&& areaBit = 0 :=
    (within_flag p privateBit).and_eq_zero (by decide)
  have hlevel : encodeLevel r &&& areaBit = 0 := (within_encodeLevel r).and_eq_zero (by decide)
  rw [pack_and, within_flag a areaBit, hclass, hprivate, hlevel]
  simp only [UInt32.zero_or]

theorem pack_and_of_level {mask : UInt32} (hclass : classMask &&& mask = 0)
    (hprivate : privateBit &&& mask = 0) (harea : areaBit &&& mask = 0) :
    (pack c p r a).bits &&& mask = encodeLevel r &&& mask := by
  rw [pack_and, (within_code c).and_eq_zero hclass,
    (within_flag p privateBit).and_eq_zero hprivate, (within_flag a areaBit).and_eq_zero harea]
  simp only [UInt32.or_zero, UInt32.zero_or]

theorem roadClass_pack : (pack c p r a).roadClass = c := by
  have hroom : c.code < UInt32.size := Nat.lt_trans c.code_lt (by decide)
  rw [roadClass, pack_and_classMask, Nat.toUInt32_eq, UInt32.toNat_ofNat_of_lt' hroom,
    RoadClass.ofCode_code]

theorem isPrivate_pack : (pack c p r a).isPrivate = p := by
  rw [isPrivate, pack_and_privateBit]
  cases p <;> decide

theorem isArea_pack : (pack c p r a).isArea = a := by
  rw [isArea, pack_and_areaBit]
  cases a <;> decide

theorem level_pack_eq : (pack c p r a).level = (⟨encodeLevel r⟩ : RoadFlags).level := by
  have hlevel : (pack c p r a).bits &&& levelMask = encodeLevel r &&& levelMask :=
    pack_and_of_level c p r a (by decide) (by decide) (by decide)
  have hspan : (pack c p r a).bits &&& spanBit = encodeLevel r &&& spanBit :=
    pack_and_of_level c p r a (by decide) (by decide) (by decide)
  rw [level, level, hlevel, hspan]

end Pack

theorem level_encodeLevel {r : LevelRange} (h : r.Encodable) :
    (⟨encodeLevel r⟩ : RoadFlags).level = r := by
  cases h with
  | invalid => decide
  | @range low span hlow hhigh hspan =>
    unfold LevelRange.lowest LevelRange.highest at *
    have hlast : low ≤ 7 := by omega
    rcases hspan with rfl | rfl
    · interval_cases low <;> decide
    · have hlast' : low ≤ 6 := by omega
      interval_cases low <;> decide

theorem levelCode_eq_invalidLevel_iff {r : LevelRange} (h : r.Encodable) :
    (encodeLevel r &&& levelMask) >>> levelShift = invalidLevel ↔ r = .invalid := by
  constructor
  · intro hcode
    rw [← level_encodeLevel h, level]
    exact if_pos hcode
  · rintro rfl
    decide

/-- The word of the attributes that the tags of a way give it says of each attribute what the tags
say. No range that is parsed is cut to the levels that can be encoded, and only where there is none
the word has the code that is kept for that. -/
theorem attributes_of_tags (tag : String → Option String) :
    (ofTags tag).roadClass = RoadClass.ofTags tag ∧
    ((ofTags tag).isPrivate = true ↔ tag "access" = some "private" ∨ tag "access" = some "no") ∧
    ((ofTags tag).isArea = true ↔ tag "area" = some "yes") ∧
    (ofTags tag).level = LevelRange.parse (tag "level") ∧
    (let r := LevelRange.parse (tag "level")
     min (max r.low LevelRange.lowest) LevelRange.highest = r.low ∧ (r.span = 0 ∨ r.span = 1) ∧
       (((ofTags tag).bits &&& levelMask) >>> levelShift = invalidLevel ↔ r = .invalid)) := by
  have hroom := LevelRange.encodable_parse (tag "level")
  refine ⟨roadClass_pack .., ?_, ?_, ?_, hroom.cut_low, hroom.span_eq, ?_⟩
  · rw [ofTags, isPrivate_pack, decide_eq_true_iff]
  · rw [ofTags, isArea_pack, decide_eq_true_iff]
  · rw [ofTags, level_pack_eq, level_encodeLevel hroom]
  · rw [ofTags, pack_and_of_level _ _ _ _ (by decide) (by decide) (by decide)]
    exact levelCode_eq_invalidLevel_iff hroom

end RoadFlags
end RoadAudit
