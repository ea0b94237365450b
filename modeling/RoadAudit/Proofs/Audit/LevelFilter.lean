import RoadAudit.Osm.Object
import RoadAudit.Proofs.Audit.DeadEnds
import RoadAudit.Proofs.Road.NamedLevels

/-! # Roads kept apart by their levels

A road is no match for a dead end if the levels of their ways are known and none is in common. The
audit finds that out from the words with the attributes of the two edges; here it is said by the
levels that the tags of the two ways name. A range covers just the levels that are named since it
holds two neighbouring ones at most. -/

namespace RoadAudit

open scoped Scalar

namespace LevelRange

/-- Whether a value has a range: it has no parts, or all of them name levels that make up one. -/
def HasRange (value : Option String) : Prop :=
  writtenParts value = [] ∨ ∃ low high, Spans value low high

/-- The levels that a value stands for: those that it names, and the ground if it has no parts. -/
def levelsOf (value : Option String) : Set ℤ :=
  {v | v ∈ named value ∨ writtenParts value = [] ∧ v = 0}

variable {value : Option String} {r : LevelRange}

theorem IsRangeFor.valid_iff (h : IsRangeFor value r) : r.valid = true ↔ HasRange value := by
  unfold HasRange
  cases h with
  | ground h => exact iff_of_true rfl (.inl h)
  | range h => exact iff_of_true rfl (.inr ⟨_, _, h⟩)
  | invalid hparts h => exact iff_of_false Bool.false_ne_true (by simp [hparts, h])

theorem mem_levelsOf_iff_mem_named (hparts : writtenParts value ≠ []) {level : ℤ} :
    level ∈ levelsOf value ↔ level ∈ named value :=
  or_iff_left fun h => hparts h.1

theorem Spans.mem_named_iff {low high level : ℤ} (h : Spans value low high) :
    level ∈ named value ↔ low ≤ level ∧ level ≤ high := by
  refine ⟨fun hmem => ⟨h.least.2 hmem, h.greatest.2 hmem⟩, fun ⟨hlow, hhigh⟩ => ?_⟩
  have hshort := h.short
  obtain rfl | rfl : level = low ∨ level = high := by omega
  · exact h.least.1
  · exact h.greatest.1

theorem IsRangeFor.covers_iff (h : IsRangeFor value r) (hvalid : r.valid = true) (level : ℤ) :
    r.Covers level ↔ level ∈ levelsOf value := by
  cases h with
  | ground h =>
    have hlevels : level ∈ levelsOf value ↔ level = 0 := by simp [levelsOf, named_eq_empty h, h]
    rw [hlevels]
    exact ⟨fun ⟨hlow, hhigh⟩ => le_antisymm hhigh hlow, by rintro rfl; decide⟩
  | range h =>
    rw [mem_levelsOf_iff_mem_named (writtenParts_ne_nil_of_mem h.least.1), h.mem_named_iff, Covers,
      LevelRange.high, add_sub_cancel]
  | invalid => cases hvalid

end LevelRange

namespace RoadFlags

theorem level_ofTags (tag : String → Option String) :
    (ofTags tag).level = LevelRange.parse (tag "level") := by
  rw [ofTags, level_pack_eq, level_encodeLevel (LevelRange.encodable_parse _)]

end RoadFlags

namespace AuditContext

/-- Whether two values name no level in common, though both have a range. -/
structure AreApart (value other : Option String) : Prop where
  left : LevelRange.HasRange value
  right : LevelRange.HasRange other
  disjoint : Disjoint (LevelRange.levelsOf value) (LevelRange.levelsOf other)

theorem AreApart.symm {value other : Option String} (h : AreApart value other) :
    AreApart other value :=
  ⟨h.right, h.left, h.disjoint.symm⟩

theorem compatible_parse_iff (value other : Option String) :
    (LevelRange.parse value).Compatible (LevelRange.parse other) ↔ ¬ AreApart value other := by
  have hvalue := LevelRange.isRangeFor_parse value
  have hother := LevelRange.isRangeFor_parse other
  constructor
  · intro hcompatible hapart
    have hvalid := hvalue.valid_iff.mpr hapart.left
    have hvalid' := hother.valid_iff.mpr hapart.right
    obtain ⟨level, hlevel, hlevel'⟩ := hcompatible hvalid hvalid'
    exact Set.disjoint_left.mp hapart.disjoint ((hvalue.covers_iff hvalid level).mp hlevel)
      ((hother.covers_iff hvalid' level).mp hlevel')
  · intro hnot hvalid hvalid'
    by_contra hnone
    refine hnot ⟨hvalue.valid_iff.mp hvalid, hother.valid_iff.mp hvalid', ?_⟩
    refine Set.disjoint_left.mpr fun level hlevel hlevel' => hnone ⟨level, ?_, ?_⟩
    · exact (hvalue.covers_iff hvalid level).mpr hlevel
    · exact (hother.covers_iff hvalid' level).mpr hlevel'

theorem excludesLevel_ofTags_iff (tag other : String → Option String) :
    excludesLevel (RoadFlags.ofTags tag).level (RoadFlags.ofTags other).level = true ↔
      AreApart (tag "level") (other "level") := by
  rw [← Bool.not_eq_false, excludesLevel_eq_false_iff, RoadFlags.level_ofTags,
    RoadFlags.level_ofTags, compatible_parse_iff, not_not]

variable {α : Type} [Scalar α]

/-- Of the roads found near a dead end, the levels leave out just those whose way names no level in
common with the way of the dead end, where the levels of both make up a range. It does not matter
which of the two ways is the one of the dead end, and no road is left out if one of them has no
range. -/
theorem levels_leave_out (ctx : AuditContext α) (n : Nat) (e : EdgeView α) (s : Snap α)
    (dead candidate : String → Option String) (he : e.edge.flags = .ofTags dead)
    (hs : s.edge.edge.flags = .ofTags candidate) :
    (excludesLevel e.edge.flags.level s.edge.edge.flags.level = true ↔
      AreApart (dead "level") (candidate "level")) ∧
    (ctx.isEligible n e s = true ↔ (s.edge.id ≠ e.id ∧ s.closestNode ≠ e.adj ∧
      s.closestNode ∉ ctx.beyond n e ∧ 0 < s.distance) ∧
        ¬ AreApart (dead "level") (candidate "level")) ∧
    excludesLevel e.edge.flags.level s.edge.edge.flags.level =
      excludesLevel s.edge.edge.flags.level e.edge.flags.level ∧
    (¬ LevelRange.HasRange (dead "level") ∨ ¬ LevelRange.HasRange (candidate "level") →
      excludesLevel e.edge.flags.level s.edge.edge.flags.level = false) := by
  rw [isEligible, he, hs]
  have hexcludes := excludesLevel_ofTags_iff dead candidate
  have hswapped := excludesLevel_ofTags_iff candidate dead
  refine ⟨hexcludes, ?_, ?_, fun hnone => ?_⟩
  · rw [← hexcludes]
    simp only [Bool.and_eq_true, bne_iff_ne, Bool.not_eq_true', decide_eq_true_eq,
      List.contains_eq_mem, decide_eq_false_iff_not, Bool.not_eq_true]
    tauto
  · rw [Bool.eq_iff_iff, hexcludes, hswapped]
    exact ⟨AreApart.symm, AreApart.symm⟩
  · rw [← Bool.not_eq_true, hexcludes]
    exact fun hapart => hnone.elim (· hapart.left) (· hapart.right)

def levelTag (level : String) : String → Option String := Tags.value? ⟨[("level", level)]⟩

def roadAtLevel (id : Nat) (level : String) : EdgeView Float :=
  ⟨id, ⟨2 * id, 2 * id + 1, 5, .ofTags (levelTag level), []⟩, false⟩

theorem levels_leave_out_roadAbove :
    AreApart (some "0;1") (some "2") ∧
    ¬ isEligible ⟨default, ⟨.nodes, #[]⟩, ⟨.ways, #[]⟩, default, default⟩ 1 (roadAtLevel 0 "0;1")
      ⟨roadAtLevel 1 "2", 2, ⟨0, 0⟩, ⟨0, 0⟩, 1, .tower, 0⟩ = true := by
  obtain ⟨hexcludes, heligible, -⟩ := levels_leave_out
    ⟨default, ⟨.nodes, #[]⟩, ⟨.ways, #[]⟩, default, default⟩ 1 (roadAtLevel 0 "0;1")
    ⟨roadAtLevel 1 "2", 2, ⟨0, 0⟩, ⟨0, 0⟩, 1, .tower, 0⟩ (levelTag "0;1") (levelTag "2") rfl rfl
  have hapart := hexcludes.mp (by decide +kernel)
  exact ⟨hapart, fun h => (heligible.mp h).2 hapart⟩

end AuditContext
end RoadAudit
