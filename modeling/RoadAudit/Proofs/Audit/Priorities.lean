import RoadAudit.Audit.Priority
import RoadAudit.Proofs.Numeric.QuotientOrder

/-! # Priorities and the width of gaps

In a row of numbers that do not fall, a nearer gap falls into a bucket with a number that is not
greater. So a nearer gap is reported where a farther one is, unless it is a near miss whose number
is so low already that nothing is left of it. -/

namespace RoadAudit

open scoped Scalar

namespace PriorityTable

variable {α : Type} [Scalar α] {t : PriorityTable} {c : RoadClass} {row : PriorityRow}
  {isPrivate : Bool} {distance nearer farther maxDistance : α} {n : Int}

theorem bucket_le [Scalar.LawfulShare α] (hnearer : 0 ≤ nearer) (hle : nearer ≤ farther) :
    bucket nearer maxDistance ≤ bucket farther maxDistance := by
  unfold bucket
  dsimp only
  split
  case isTrue hwidth =>
    exact Fin.mk_le_mk.mpr
      (min_le_min_right 3 (Scalar.LawfulShare.wholePart_div_le hnearer hle hwidth))
  case isFalse => exact le_rfl

def accessPenalty (isPrivate : Bool) : Int := if isPrivate then 1 else 0

theorem accessPenalty_mem (isPrivate : Bool) :
    0 ≤ accessPenalty isPrivate ∧ accessPenalty isPrivate ≤ 1 := by
  cases isPrivate <;> decide

theorem base_of_row (hrow : t.row? c = some row) (hpos : ∀ i : Fin 4, 1 ≤ row.get i) :
    t.base c isPrivate distance maxDistance =
      nearMiss distance (row.get (bucket distance maxDistance)) + accessPenalty isPrivate := by
  have hentry : row[bucket distance maxDistance] = row.get (bucket distance maxDistance) := rfl
  have hone := hpos (bucket distance maxDistance)
  unfold base
  rw [hrow]
  dsimp only [Option.getD_some]
  rw [hentry, if_neg (by omega), accessPenalty]

/-- Whether a gap is so near that the adjustment of near misses leaves nothing of a number, to which
the penalty has been added. -/
def IsUsedUp (distance : α) (n : Int) : Prop :=
  distance < 1 ∧ n ≤ 2 ∨ ¬ distance < 1 ∧ distance < 2 ∧ n ≤ 1

instance : Decidable (IsUsedUp distance n) :=
  inferInstanceAs (Decidable (distance < 1 ∧ n ≤ 2 ∨ ¬ distance < 1 ∧ distance < 2 ∧ n ≤ 1))

theorem isReported_nearMiss_iff {penalty : Int} (hn : 1 ≤ n)
    (hpenalty : 0 ≤ penalty ∧ penalty ≤ 1) :
    isReported (nearMiss distance n + penalty) = true ↔
      ¬ IsUsedUp distance (n + penalty) ∧ (distance < 1 ∨ distance < 2 ∨ n + penalty ≤ 6) := by
  rw [isReported_iff, IsUsedUp, nearMiss]
  by_cases hone : distance < 1
  · simp only [hone, if_true, true_and, not_true, false_and, or_false, true_or, and_true]
    omega
  · by_cases htwo : distance < 2
    · simp only [hone, htwo, if_false, if_true, false_and, false_or, true_and, not_false_eq_true,
        true_or, and_true]
      omega
    · simp only [hone, htwo, if_false, false_and, and_false, or_self, not_false_eq_true, true_and,
        false_or]
      omega

/-- Where a gap is reported, a nearer one on a road of the same class and access is reported too
unless its number is used up. The numbers of the class are positive and do not fall from bucket to
bucket; nothing is asked of the search radius. -/
theorem nearer_isReported_iff [Scalar.LawfulShare α] (hrow : t.row? c = some row)
    (hmono : ∀ i j : Fin 4, i ≤ j → row.get i ≤ row.get j) (hpos : ∀ i : Fin 4, 1 ≤ row.get i)
    (hnearer : 0 ≤ nearer) (hle : nearer ≤ farther)
    (h : isReported (t.base c isPrivate farther maxDistance) = true) :
    isReported (t.base c isPrivate nearer maxDistance) = true ↔
      ¬ IsUsedUp nearer (row.get (bucket nearer maxDistance) + accessPenalty isPrivate) := by
  rw [base_of_row hrow hpos, isReported_nearMiss_iff (hpos _) (accessPenalty_mem _)] at h ⊢
  refine and_iff_left ?_
  rcases h.2 with hone | htwo | hsix
  · exact .inl (Scalar.lt_of_le_of_lt hle hone)
  · exact .inr (.inl (Scalar.lt_of_le_of_lt hle htwo))
  · have hentry : row.get (bucket nearer maxDistance) ≤ row.get (bucket farther maxDistance) :=
      hmono _ _ (bucket_le hnearer hle)
    exact .inr (.inr (by omega))

theorem nearer_isReported_footway :
    isReported ((default : PriorityTable).base .footway true (9 : Float) 16) = true ∧
      isReported ((default : PriorityTable).base .footway true (0.5 : Float) 16) = true := by
  have hrow : (default : PriorityTable).row? .footway = some (PriorityRow.of 4 5 5 5) := rfl
  have hfarther : isReported ((default : PriorityTable).base .footway true (9 : Float) 16) = true := by
    decide
  have hkept : ¬ IsUsedUp (0.5 : Float)
      ((PriorityRow.of 4 5 5 5).get (bucket (0.5 : Float) 16) + accessPenalty true) := by
    decide
  exact ⟨hfarther, (nearer_isReported_iff hrow (by decide) (by decide) (by decide) (by decide)
    hfarther).mpr hkept⟩

/-- A motorway that ends half a metre from a road is hidden although one that ends three metres from
it is reported. -/
theorem near_motorway_hidden :
    ¬ ∀ (t : PriorityTable) (c : RoadClass) (row : PriorityRow), t.row? c = some row →
      (∀ i j : Fin 4, i ≤ j → row.get i ≤ row.get j) → (∀ i : Fin 4, 1 ≤ row.get i ∧ row.get i ≤ 6) →
      ∀ (isPrivate : Bool) (nearer farther maxDistance : Float), 0 < maxDistance → 0 < nearer →
        nearer ≤ farther → farther ≤ maxDistance →
        isReported (t.base c isPrivate farther maxDistance) = true →
        isReported (t.base c isPrivate nearer maxDistance) = true := by
  intro hall
  have hreported := hall default .motorway #v[1, 1, 1, 2] rfl (by decide) (by decide) false 0.5 3 16
    (by decide) (by decide) (by decide) (by decide) (by decide)
  exact absurd hreported (by decide)

end PriorityTable
end RoadAudit
