import RoadAudit.Proofs.Numeric.Truncation
import RoadAudit.Proofs.Road.Attributes

/-! # The levels that a value names

The range of a `level` value is told by the set of the levels that its parts name, whatever their
order is and however often one of them is named. Where it is computed in words of 32 bits, only one
set is an exception: no level comes after the greatest word, and so a value that names nothing else
has no range. -/

namespace RoadAudit

theorem partsAt_eq_splitOn (separator : Char) (cs : List Char) :
    partsAt separator cs = cs.splitOn separator := by
  induction cs with
  | nil => rfl
  | cons c rest ih =>
    have hcons := List.splitOnP_cons_eq_if_modifyHead (p := (· == separator)) c rest
    rw [partsAt, List.splitOn, hcons, ih, List.splitOn]
    simp only [beq_iff_eq]
    congr 1
    cases h : List.splitOnP (· == separator) rest with
    | nil => exact absurd h (List.splitOnP_ne_nil _ _)
    | cons part parts => rfl

namespace LevelRange

/-! ## Parts and their levels -/

/-- The parts of a value between its semicolons; a missing or empty value has none. -/
def writtenParts (value : Option String) : List (List Char) :=
  if value.getD "" = "" then [] else (value.getD "").toList.splitOn ';'

noncomputable def levelOf (x : Float) : ℤ :=
  if x.isNaN then 0
  else if x.isInf then if 0 < x then Word.greatest else Word.least
  else max Word.least (min Word.greatest (towardZero (Binary64.realOf x)))

/-- Whether every part of a value is a number. -/
def IsReadable (value : Option String) : Prop :=
  ∀ part ∈ writtenParts value, ∃ x, readFloat? (trimBlanks part) = some x

def named (value : Option String) : Set ℤ :=
  {v | ∃ part ∈ writtenParts value, ∃ x, readFloat? (trimBlanks part) = some x ∧ levelOf x = v}

theorem ofNumber_eq_levelOf (x : Float) : ofNumber x = levelOf x := by
  unfold ofNumber levelOf
  split
  case isTrue hnan =>
    rw [Binary64.truncate_of_isNaN hnan]
    rfl
  case isFalse hnan =>
    split
    case isTrue hinf =>
      rw [Binary64.truncate_of_isInf hinf]
      split <;> rfl
    case isFalse hinf =>
      rw [Binary64.truncate_of_isFinite (Binary64.isFinite_of_not_isNaN hnan hinf)]
      unfold Word.cut Word.least Word.greatest Binary64.integerLimit
      omega

theorem part?_eq_some_iff {part : List Char} {v : ℤ} :
    part? part = some v ↔ ∃ x, readFloat? (trimBlanks part) = some x ∧ levelOf x = v := by
  simp only [part?, Option.map_eq_some_iff, ofNumber_eq_levelOf]

theorem mem_named_iff {value : Option String} {v : ℤ} :
    v ∈ named value ↔ ∃ part ∈ writtenParts value, part? part = some v := by
  simp only [part?_eq_some_iff]
  rfl

theorem least_le_of_mem_named {value : Option String} {v : ℤ} (h : v ∈ named value) :
    Word.least ≤ v := by
  obtain ⟨part, -, x, -, rfl⟩ := h
  rw [← ofNumber_eq_levelOf]
  exact le_min (le_max_right _ _) (by decide)

theorem le_greatest_of_mem_named {value : Option String} {v : ℤ} (h : v ∈ named value) :
    v ≤ Word.greatest := by
  obtain ⟨part, -, x, -, rfl⟩ := h
  rw [← ofNumber_eq_levelOf]
  exact min_le_right _ _

theorem writtenParts_of_isEmpty {value : String} (h : value.isEmpty = true) :
    writtenParts (some value) = [] :=
  if_pos (String.isEmpty_iff.mp h)

theorem writtenParts_of_not_isEmpty {value : String} (h : ¬ value.isEmpty = true) :
    writtenParts (some value) = partsAt ';' value.toList := by
  rw [partsAt_eq_splitOn]
  exact if_neg (mt String.isEmpty_iff.mpr h)

section Levels

variable {value : String} (hvalue : ¬ value.isEmpty = true)

include hvalue

theorem isReadable_iff_levels? :
    IsReadable (some value) ↔ ∃ levels, levels? value = some levels := by
  have hparts : ∀ levels, levels? value = some levels ↔
      List.Forall₂ (fun part v => part? part = some v) (partsAt ';' value.toList) levels :=
    fun levels => mapM_eq_some_iff
  simp only [hparts, exists_forall₂_iff, IsReadable, writtenParts_of_not_isEmpty hvalue,
    part?_eq_some_iff]
  simp

theorem mem_named_iff_of_levels? {levels : List ℤ} (h : levels? value = some levels) (v : ℤ) :
    v ∈ named (some value) ↔ v ∈ levels := by
  rw [mem_named_iff, writtenParts_of_not_isEmpty hvalue, mem_iff_of_mapM_eq_some h]

end Levels

/-! ## The least and the greatest level -/

theorem foldl_extremes_mem (levels : List ℤ) (s : ℤ × ℤ) :
    let r := levels.foldl (fun s v => (min s.1 v, max s.2 v)) s
    (r.1 = s.1 ∨ r.1 ∈ levels) ∧ (r.2 = s.2 ∨ r.2 ∈ levels) := by
  induction levels generalizing s with
  | nil => simp
  | cons v rest ih =>
    obtain ⟨hleast, hgreatest⟩ := ih (min s.1 v, max s.2 v)
    dsimp only [List.foldl_cons] at hleast hgreatest ⊢
    constructor
    · rcases hleast with hstart | hmem
      · exact (min_choice s.1 v).imp hstart.trans fun h => hstart.trans h ▸ List.mem_cons_self
      · exact .inr (List.mem_cons_of_mem v hmem)
    · rcases hgreatest with hstart | hmem
      · exact (max_choice s.2 v).imp hstart.trans fun h => hstart.trans h ▸ List.mem_cons_self
      · exact .inr (List.mem_cons_of_mem v hmem)

theorem isLeast_extremes {levels : List ℤ} (hne : levels ≠ [])
    (hword : ∀ v ∈ levels, v ≤ Word.greatest) : IsLeast {v | v ∈ levels} (extremes levels).1 := by
  obtain ⟨-, -, hbounds⟩ := foldl_extremes_bounds levels (Word.greatest, Word.least)
  refine ⟨?_, fun v hv => (hbounds v hv).1⟩
  rcases (foldl_extremes_mem levels (Word.greatest, Word.least)).1 with hstart | hmem
  · -- the start is kept only if every level is that word
    obtain ⟨v, hv⟩ := List.exists_mem_of_ne_nil levels hne
    have hle : (extremes levels).1 ≤ v := (hbounds v hv).1
    have heq : v = (extremes levels).1 := le_antisymm ((hword v hv).trans hstart.ge) hle
    exact heq ▸ hv
  · exact hmem

theorem isGreatest_extremes {levels : List ℤ} (hne : levels ≠ [])
    (hword : ∀ v ∈ levels, Word.least ≤ v) : IsGreatest {v | v ∈ levels} (extremes levels).2 := by
  obtain ⟨-, -, hbounds⟩ := foldl_extremes_bounds levels (Word.greatest, Word.least)
  refine ⟨?_, fun v hv => (hbounds v hv).2⟩
  rcases (foldl_extremes_mem levels (Word.greatest, Word.least)).2 with hstart | hmem
  · obtain ⟨v, hv⟩ := List.exists_mem_of_ne_nil levels hne
    have hle : v ≤ (extremes levels).2 := (hbounds v hv).2
    have heq : v = (extremes levels).2 := le_antisymm hle (hstart.le.trans (hword v hv))
    exact heq ▸ hv
  · exact hmem

/-- What is made of a value: of one without parts, of one with a part that is no number, and of one
that names levels. -/
theorem parse_cases (value : Option String) :
    (writtenParts value = [] ∧ parse value = ground ∧ parseInWords value = .ok ground) ∨
    (¬ IsReadable value ∧ parse value = invalid ∧ parseInWords value = .ok invalid) ∨
    (IsReadable value ∧ ∃ least greatest, IsLeast (named value) least ∧
      IsGreatest (named value) greatest ∧ parse value = between least greatest ∧
      parseInWords value = betweenInWords least greatest) := by
  unfold parse parseInWords
  split
  case h_1 => exact .inl ⟨rfl, rfl, rfl⟩
  case h_2 value =>
    by_cases hvalue : value.isEmpty = true
    · rw [if_pos hvalue, if_pos hvalue]
      exact .inl ⟨writtenParts_of_isEmpty hvalue, rfl, rfl⟩
    · right
      rw [isReadable_iff_levels? hvalue, if_neg hvalue, if_neg hvalue]
      cases hlevels : levels? value with
      | none => exact .inl ⟨by simp, rfl, rfl⟩
      | some levels =>
        have hmem : ∀ v, v ∈ named (some value) ↔ v ∈ levels :=
          mem_named_iff_of_levels? hvalue hlevels
        have hnamed : named (some value) = {v | v ∈ levels} := Set.ext hmem
        have hne := ne_nil_of_levels? hlevels
        have hleast : IsLeast {v | v ∈ levels} (extremes levels).1 :=
          isLeast_extremes hne fun v hv => le_greatest_of_mem_named ((hmem v).mpr hv)
        have hgreatest : IsGreatest {v | v ∈ levels} (extremes levels).2 :=
          isGreatest_extremes hne fun v hv => least_le_of_mem_named ((hmem v).mpr hv)
        exact .inr ⟨⟨levels, rfl⟩, _, _, hnamed ▸ hleast, hnamed ▸ hgreatest, rfl, rfl⟩

/-! ## The range -/

/-- Whether the levels of a value, from `low` to `high`, make up a range. -/
structure Spans (value : Option String) (low high : ℤ) : Prop where
  readable : IsReadable value
  least : IsLeast (named value) low
  greatest : IsGreatest (named value) high
  within : ∀ v ∈ named value, lowest ≤ v ∧ v ≤ highest
  short : high - low ≤ 1

/-- The range that a value should have. -/
inductive IsRangeFor (value : Option String) : LevelRange → Prop
  | ground (h : writtenParts value = []) : IsRangeFor value .ground
  | range {low high : ℤ} (h : Spans value low high) : IsRangeFor value ⟨low, high - low, true⟩
  | invalid (hparts : writtenParts value ≠ []) (h : ∀ low high, ¬ Spans value low high) :
    IsRangeFor value .invalid

/-- Whether a value names the greatest word and nothing else. -/
def IsTopmost (value : Option String) : Prop := IsReadable value ∧ named value = {Word.greatest}

theorem named_eq_empty {value : Option String} (h : writtenParts value = []) :
    named value = ∅ := by
  ext v
  simp [mem_named_iff, h]

theorem writtenParts_ne_nil_of_mem {value : Option String} {v : ℤ} (h : v ∈ named value) :
    writtenParts value ≠ [] := by
  intro hnil
  rw [named_eq_empty hnil] at h
  exact h

theorem writtenParts_ne_nil_of_not_isReadable {value : Option String} (h : ¬ IsReadable value) :
    writtenParts value ≠ [] := by
  intro hnil
  refine h fun part hpart => ?_
  rw [hnil] at hpart
  cases hpart

/-- In words there is no level above the greatest word; everything else has room. -/
theorem betweenInWords_eq {least greatest : ℤ} (hle : least ≤ greatest)
    (hleast : Word.least ≤ least) (hgreatest : greatest ≤ Word.greatest) :
    betweenInWords least greatest =
      if least = Word.greatest then .error .next else .ok (between least greatest) := by
  unfold betweenInWords between Word.checked Word.isSigned highest lowest
  unfold Word.least Word.greatest at *
  by_cases htop : least = 2147483647
  · subst htop
    rfl
  · have hnext : (-2147483648 ≤ least + 1 && least + 1 ≤ 2147483647) = true := by simp; omega
    rw [if_pos hnext, if_neg htop]
    dsimp only [bind, Except.bind]
    split
    case isTrue => rfl
    case isFalse hfit =>
      have hspan : (-2147483648 ≤ greatest - least && greatest - least ≤ 2147483647) = true := by
        simp
        omega
      rw [if_pos hspan]
      rfl

section Extremes

variable {value : Option String} {least greatest : ℤ}

theorem isTopmost_iff_least_eq (hread : IsReadable value) (hleast : IsLeast (named value) least) :
    IsTopmost value ↔ least = Word.greatest := by
  constructor
  · rintro ⟨-, hnamed⟩
    have hmem := hleast.1
    rwa [hnamed] at hmem
  · rintro rfl
    refine ⟨hread, Set.eq_singleton_iff_unique_mem.mpr ⟨hleast.1, fun v hv => ?_⟩⟩
    exact le_antisymm (le_greatest_of_mem_named hv) (hleast.2 hv)

theorem isRangeFor_between (hread : IsReadable value) (hleast : IsLeast (named value) least)
    (hgreatest : IsGreatest (named value) greatest) :
    IsRangeFor value (between least greatest) := by
  unfold between
  split
  case isTrue hunfit =>
    refine .invalid (writtenParts_ne_nil_of_mem hleast.1) fun low high h => ?_
    obtain rfl := h.least.unique hleast
    obtain rfl := h.greatest.unique hgreatest
    have hlow := (h.within low hleast.1).1
    have hhigh := (h.within high hgreatest.1).2
    have hshort := h.short
    omega
  case isFalse hfit =>
    push Not at hfit
    obtain ⟨hshort, hhigh, hlow⟩ := hfit
    exact .range ⟨hread, hleast, hgreatest,
      fun v hv => ⟨hlow.trans (hleast.2 hv), (hgreatest.2 hv).trans hhigh⟩, by omega⟩

end Extremes

theorem isRangeFor_parse (value : Option String) : IsRangeFor value (parse value) := by
  rcases parse_cases value with ⟨hparts, hparse, -⟩ | ⟨hunread, hparse, -⟩ |
    ⟨hread, least, greatest, hleast, hgreatest, hparse, -⟩ <;> rw [hparse]
  · exact .ground hparts
  · exact .invalid (writtenParts_ne_nil_of_not_isReadable hunread) fun _ _ h => hunread h.readable
  · exact isRangeFor_between hread hleast hgreatest

theorem parseInWords_outcome (value : Option String) :
    (IsTopmost value ∧ parseInWords value = .error .next) ∨
    (¬ IsTopmost value ∧ parseInWords value = .ok (parse value)) := by
  rcases parse_cases value with ⟨hparts, hparse, hok⟩ | ⟨hunread, hparse, hok⟩ |
    ⟨hread, least, greatest, hleast, hgreatest, hparse, h⟩
  · refine .inr ⟨fun htop => ?_, hparse ▸ hok⟩
    exact Set.singleton_ne_empty _ (htop.2.symm.trans (named_eq_empty hparts))
  · exact .inr ⟨fun htop => hunread htop.1, hparse ▸ hok⟩
  · have hle : least ≤ greatest := hleast.2 hgreatest.1
    rw [h, hparse, isTopmost_iff_least_eq hread hleast, betweenInWords_eq hle
      (least_le_of_mem_named hleast.1) (le_greatest_of_mem_named hgreatest.1)]
    split
    case isTrue htop => exact .inl ⟨htop, rfl⟩
    case isFalse htop => exact .inr ⟨htop, rfl⟩

theorem Spans.unique {value : Option String} {low high low' high' : ℤ} (h : Spans value low high)
    (h' : Spans value low' high') : low = low' ∧ high = high' :=
  ⟨h.least.unique h'.least, h.greatest.unique h'.greatest⟩

theorem IsRangeFor.unique {value : Option String} {r s : LevelRange} (hr : IsRangeFor value r)
    (hs : IsRangeFor value s) : r = s := by
  cases hr with
  | ground h =>
    cases hs with
    | ground => rfl
    | range h' => exact absurd h (writtenParts_ne_nil_of_mem h'.least.1)
    | invalid h' => exact absurd h h'
  | range h =>
    cases hs with
    | ground h' => exact absurd h' (writtenParts_ne_nil_of_mem h.least.1)
    | range h' =>
      obtain ⟨rfl, rfl⟩ := h.unique h'
      rfl
    | invalid _ h' => exact absurd h (h' _ _)
  | invalid hparts h =>
    cases hs with
    | ground h' => exact absurd h' hparts
    | range h' => exact absurd h' (h _ _)
    | invalid => rfl

/-- Whether two values name the same levels. Where a part is no number, the levels that the others
name do not matter. -/
structure SameLevels (value other : Option String) : Prop where
  written : writtenParts value = [] ↔ writtenParts other = []
  readable : IsReadable value ↔ IsReadable other
  named : IsReadable value → named value = named other

namespace SameLevels

variable {value other : Option String}

theorem of_parts (h : ∀ part, part ∈ writtenParts value ↔ part ∈ writtenParts other) :
    SameLevels value other where
  written := by simp only [List.eq_nil_iff_forall_not_mem, h]
  readable := by simp only [IsReadable, h]
  named := fun _ => by simp only [LevelRange.named, h]

theorem symm (h : SameLevels value other) : SameLevels other value :=
  ⟨h.written.symm, h.readable.symm, fun hread => (h.named (h.readable.mpr hread)).symm⟩

theorem isTopmost (h : SameLevels value other) (htop : IsTopmost value) : IsTopmost other :=
  ⟨h.readable.mp htop.1, (h.named htop.1).symm.trans htop.2⟩

theorem spans (h : SameLevels value other) {low high : ℤ} (hs : Spans value low high) :
    Spans other low high where
  readable := h.readable.mp hs.readable
  least := h.named hs.readable ▸ hs.least
  greatest := h.named hs.readable ▸ hs.greatest
  within := h.named hs.readable ▸ hs.within
  short := hs.short

theorem isRangeFor (h : SameLevels value other) {r : LevelRange} (hr : IsRangeFor value r) :
    IsRangeFor other r := by
  cases hr with
  | ground hparts => exact .ground (h.written.mp hparts)
  | range hs => exact .range (h.spans hs)
  | invalid hparts hnot =>
    exact .invalid (mt h.written.mpr hparts) fun low high hs => hnot low high (h.symm.spans hs)

theorem parse_eq (h : SameLevels value other) : parse value = parse other :=
  (h.isRangeFor (isRangeFor_parse value)).unique (isRangeFor_parse other)

theorem parseInWords_eq (h : SameLevels value other) : parseInWords value = parseInWords other := by
  rcases parseInWords_outcome value with ⟨htop, herror⟩ | ⟨htop, hok⟩ <;>
    rcases parseInWords_outcome other with ⟨htop', herror'⟩ | ⟨htop', hok'⟩
  · rw [herror, herror']
  · exact absurd (h.isTopmost htop) htop'
  · exact absurd (h.symm.isTopmost htop') htop
  · rw [hok, hok', h.parse_eq]

end SameLevels

/-- In words the range of a value is computed, and it is the one that the value should have, exactly
unless the value names nothing but the greatest word. It depends only on the levels that the value
names; neither the order nor the repetition of parts matters. -/
theorem parseInWords_isRangeFor_iff (value : Option String) :
    (parseInWords value = .ok (parse value) ∧ IsRangeFor value (parse value) ↔
      ¬ IsTopmost value) ∧
    (∀ other, SameLevels value other → parseInWords value = parseInWords other) ∧
    ∀ other, (∀ part, part ∈ writtenParts value ↔ part ∈ writtenParts other) →
      parseInWords value = parseInWords other := by
  refine ⟨?_, fun _ h => h.parseInWords_eq, fun _ h => (SameLevels.of_parts h).parseInWords_eq⟩
  rcases parseInWords_outcome value with ⟨htop, herror⟩ | ⟨htop, hok⟩
  · simp [herror, htop]
  · exact iff_of_true ⟨hok, isRangeFor_parse value⟩ htop

theorem parseInWords_isRangeFor_twoLevels :
    (parseInWords (some "1;2.9") = .ok (parse (some "1;2.9")) ∧
      IsRangeFor (some "1;2.9") (parse (some "1;2.9"))) ∧
    parseInWords (some "1;2.9") = parseInWords (some "2.9;1;1") := by
  obtain ⟨hrange, -, hparts⟩ := parseInWords_isRangeFor_iff (some "1;2.9")
  have hone : (1 : ℤ) ∈ named (some "1;2.9") :=
    mem_named_iff.mpr ⟨['1'], by decide, by decide +kernel⟩
  refine ⟨hrange.mpr fun htop => ?_, hparts (some "2.9;1;1") fun part => ?_⟩
  · rw [htop.2] at hone
    cases hone
  · have hsame : writtenParts (some "2.9;1;1") = [['2', '.', '9'], ['1'], ['1']] := by decide
    have hwritten : writtenParts (some "1;2.9") = [['1'], ['2', '.', '9']] := by decide
    simp [hsame, hwritten, or_comm]

/-- A number beyond the words means the greatest of them, and so its range is not computed, though
it should be the invalid one. -/
theorem not_isRangeFor_greatNumber :
    IsRangeFor (some "3000000000") .invalid ∧
    ¬ ∃ r, parseInWords (some "3000000000") = .ok r ∧ IsRangeFor (some "3000000000") r := by
  have hparts : writtenParts (some "3000000000") = ["3000000000".toList] := by decide
  have hmem : Word.greatest ∈ named (some "3000000000") :=
    mem_named_iff.mpr ⟨"3000000000".toList, by simp [hparts], by decide +kernel⟩
  have herror : parseInWords (some "3000000000") = .error .next := by decide +kernel
  refine ⟨.invalid (writtenParts_ne_nil_of_mem hmem) fun low high h => ?_, fun ⟨r, hok, _⟩ => ?_⟩
  · exact absurd (h.within _ hmem).2 (by decide)
  · rw [herror] at hok
    cases hok

end LevelRange
end RoadAudit
