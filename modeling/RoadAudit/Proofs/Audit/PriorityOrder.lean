import RoadAudit.Proofs.Audit.Priorities

/-! # Nearer gaps are no less important

In a row of numbers that do not fall, a nearer gap has no greater priority number than a farther
one: its bucket has no greater number, and of two gaps the nearer one is lowered at least as much as
a near miss. In words of 32 bits that is so wherever the farther gap has a priority at all. It has
none on a road without public access if the greatest word stands in its bucket and nothing is taken
off it. -/

namespace RoadAudit

open scoped Scalar

namespace PriorityTable

variable {α : Type} [Scalar α] {t : PriorityTable} {c : RoadClass} {row : PriorityRow}
  {isPrivate : Bool} {distance nearer farther maxDistance : α} {m n : Int}

/-! ## Near misses -/

/-- Whether a gap is so narrow that it is taken for a mistake in the map. -/
def IsNearMiss (distance : α) : Prop := distance < 1 ∨ distance < 2

instance : Decidable (IsNearMiss distance) :=
  inferInstanceAs (Decidable (distance < 1 ∨ distance < 2))

theorem nearMiss_of_not (h : ¬ IsNearMiss distance) : nearMiss distance n = n := by
  obtain ⟨hone, htwo⟩ := not_or.mp h
  rw [nearMiss, if_neg hone, if_neg htwo]

theorem nearMiss_le_one (h : IsNearMiss distance) : nearMiss distance n ≤ 1 := by
  unfold nearMiss
  split
  case isTrue => exact min_le_left _ _
  case isFalse hone =>
    rw [if_pos (h.resolve_left hone)]
    exact min_le_left _ _

theorem nearMiss_le (distance : α) (n : Int) : nearMiss distance n ≤ n := by
  unfold nearMiss
  split
  · omega
  · split <;> omega

theorem neg_one_le_nearMiss (distance : α) (hn : 1 ≤ n) : -1 ≤ nearMiss distance n := by
  unfold nearMiss
  split
  · omega
  · split <;> omega

theorem nearMiss_mono [Scalar.LawfulOrder α] (hle : nearer ≤ farther) (hmn : m ≤ n) :
    nearMiss nearer m ≤ nearMiss farther n := by
  by_cases hone : farther < 1
  · have hnearer : nearer < 1 := Scalar.lt_of_le_of_lt hle hone
    rw [nearMiss, nearMiss, if_pos hone, if_pos hnearer]
    omega
  · by_cases htwo : farther < 2
    · have hnearer : nearer < 2 := Scalar.lt_of_le_of_lt hle htwo
      rw [nearMiss, nearMiss, if_neg hone, if_pos htwo, if_pos hnearer]
      split <;> omega
    · rw [nearMiss_of_not (not_or.mpr ⟨hone, htwo⟩)]
      exact (nearMiss_le nearer m).trans hmn

/-! ## Priorities of one row -/

section Row

variable (hrow : t.row? c = some row) (hpos : ∀ i : Fin 4, 1 ≤ row.get i)

include hrow hpos in
theorem base_mono [Scalar.LawfulShare α] (hmono : ∀ i j : Fin 4, i ≤ j → row.get i ≤ row.get j)
    (hnearer : 0 ≤ nearer) (hle : nearer ≤ farther) :
    t.base c isPrivate nearer maxDistance ≤ t.base c isPrivate farther maxDistance := by
  rw [base_of_row hrow hpos, base_of_row hrow hpos]
  have hentry : row.get (bucket nearer maxDistance) ≤ row.get (bucket farther maxDistance) :=
    hmono _ _ (bucket_le hnearer hle)
  exact Int.add_le_add_right (nearMiss_mono hle hentry) _

variable (hword : ∀ i : Fin 4, row.get i ≤ Word.greatest)

include hrow hpos hword

/-- Of a row of words, only a number that is the greatest word and is not lowered has no room for
the penalty of a road without public access. -/
theorem greatest_lt_base_iff : Word.greatest < t.base c isPrivate distance maxDistance ↔
    isPrivate = true ∧ ¬ IsNearMiss distance ∧
      row.get (bucket distance maxDistance) = Word.greatest := by
  rw [base_of_row hrow hpos, accessPenalty]
  have hentry := hword (bucket distance maxDistance)
  by_cases hnear : IsNearMiss distance
  · have hone := nearMiss_le_one (n := row.get (bucket distance maxDistance)) hnear
    simp only [hnear, not_true, false_and, and_false, iff_false, Word.greatest]
    split <;> omega
  · rw [nearMiss_of_not hnear]
    cases isPrivate with
    | false => simpa using hentry
    | true =>
      simp only [hnear, if_true, not_false_eq_true, true_and]
      omega

end Row

/-! ## Priorities in words -/

def number (t : PriorityTable) (c : RoadClass) (distance maxDistance : α) : Int :=
  ((t.row? c).getD (.of 0 0 0 0)).get (bucket distance maxDistance)

theorem number_of_row (hrow : t.row? c = some row) :
    t.number c distance maxDistance = row.get (bucket distance maxDistance) := by
  rw [number, hrow]
  rfl

theorem baseInWords?_eq (hword : t.number c distance maxDistance ≤ Word.greatest) :
    t.baseInWords? c isPrivate distance maxDistance =
      if t.base c isPrivate distance maxDistance ≤ Word.greatest then
        some (t.base c isPrivate distance maxDistance) else none := by
  have hbase : t.base c isPrivate distance maxDistance =
      if t.number c distance maxDistance ≤ 0 then 0
      else nearMiss distance (t.number c distance maxDistance) + if isPrivate then 1 else 0 := rfl
  have hwords : t.baseInWords? c isPrivate distance maxDistance =
      if t.number c distance maxDistance ≤ 0 then some 0
      else if isPrivate then
        if Word.isSigned (nearMiss distance (t.number c distance maxDistance) + 1) then
          some (nearMiss distance (t.number c distance maxDistance) + 1) else none
      else some (nearMiss distance (t.number c distance maxDistance)) := rfl
  rw [hbase, hwords]
  by_cases hn : t.number c distance maxDistance ≤ 0
  · rw [if_pos hn, if_pos hn, if_pos (by decide)]
  · have hle := (nearMiss_le distance _).trans hword
    have hge := neg_one_le_nearMiss distance (Int.not_le.mp hn)
    rw [if_neg hn, if_neg hn]
    cases isPrivate with
    | false => simp [hle]
    | true =>
      have hleast := (show Word.least ≤ -1 + 1 by decide).trans (Int.add_le_add_right hge 1)
      simp [Word.isSigned, hleast]

/-! ## Gaps in order -/

/-- Whether both of two gaps on roads of one class and access have a priority in words, and the
first one no greater number. -/
def InOrder (t : PriorityTable) (c : RoadClass) (isPrivate : Bool)
    (nearer farther maxDistance : α) : Prop :=
  ∃ p q, t.baseInWords? c isPrivate nearer maxDistance = some p ∧
    t.baseInWords? c isPrivate farther maxDistance = some q ∧ p ≤ q

/-- Two gaps are in order unless the farther one has no priority, which is so if its road has no
public access, it is no near miss and the greatest word stands in its bucket. The numbers of the
class are positive words that do not fall from bucket to bucket; nothing is asked of the search
radius. -/
theorem inOrder_iff [Scalar.LawfulShare α] (hrow : t.row? c = some row)
    (hmono : ∀ i j : Fin 4, i ≤ j → row.get i ≤ row.get j) (hpos : ∀ i : Fin 4, 1 ≤ row.get i)
    (hword : ∀ i : Fin 4, row.get i ≤ Word.greatest) (hnearer : 0 ≤ nearer)
    (hle : nearer ≤ farther) :
    t.InOrder c isPrivate nearer farther maxDistance ↔
      ¬ (isPrivate = true ∧ ¬ IsNearMiss farther ∧
        row.get (bucket farther maxDistance) = Word.greatest) := by
  have hbase : t.base c isPrivate nearer maxDistance ≤ t.base c isPrivate farther maxDistance :=
    base_mono hrow hpos hmono hnearer hle
  rw [← greatest_lt_base_iff hrow hpos hword, not_lt]
  unfold InOrder
  have hnumber : ∀ d : α, t.number c d maxDistance ≤ Word.greatest := fun d => by
    rw [number_of_row hrow]
    exact hword _
  rw [baseInWords?_eq (hnumber _), baseInWords?_eq (hnumber _)]
  constructor
  · rintro ⟨p, q, -, hfarther, -⟩
    exact (Option.ite_none_right_eq_some.mp hfarther).1
  · intro hroom
    exact ⟨_, _, if_pos (hbase.trans hroom), if_pos hroom, hbase⟩

/-- A table in which the numbers of residential roads rise to the greatest word. -/
def greatestLast : PriorityTable :=
  ofRows [(.residential, PriorityRow.of 1 1 2147483646 2147483647)]

/-- In the third bucket a private residential road has the greatest word as its number, and one that
nearly misses another road has a lesser one. -/
theorem inOrder_greatestLast :
    greatestLast.row? .residential = some (PriorityRow.of 1 1 2147483646 2147483647) ∧
      greatestLast.baseInWords? .residential true (9 : Float) 16 = some Word.greatest ∧
      greatestLast.InOrder .residential true (1.5 : Float) 9 16 := by
  have hrow : greatestLast.row? .residential =
    some (PriorityRow.of 1 1 2147483646 2147483647) := rfl
  have hroom : (PriorityRow.of 1 1 2147483646 2147483647).get (bucket (9 : Float) 16) ≠
    Word.greatest := by decide
  refine ⟨hrow, by decide, ?_⟩
  exact (inOrder_iff hrow (by decide) (by decide) (by decide) (by decide) (by decide)).mpr
    fun h => hroom h.2.2

/-- In the last bucket it has no number. -/
theorem greatestLast_not_inOrder :
    ¬ ∀ (t : PriorityTable) (c : RoadClass) (row : PriorityRow), t.row? c = some row →
      (∀ i j : Fin 4, i ≤ j → row.get i ≤ row.get j) →
      (∀ i : Fin 4, 1 ≤ row.get i ∧ row.get i ≤ Word.greatest) →
      ∀ (isPrivate : Bool) (nearer farther maxDistance : Float), 0 < maxDistance → 0 ≤ nearer →
        nearer ≤ farther → t.InOrder c isPrivate nearer farther maxDistance := by
  intro hall
  obtain ⟨p, q, -, hfarther, -⟩ := hall greatestLast .residential _ rfl (by decide) (by decide) true
    9 15 16 (by decide) (by decide) (by decide)
  have hnone : greatestLast.baseInWords? .residential true (15 : Float) 16 = none := by decide
  cases hnone.symm.trans hfarther

end PriorityTable
end RoadAudit
