/-! # Batches

The nodes of a graph are checked in batches: ranges of a fixed size in ascending order, the last
one cut at the end. -/

namespace RoadAudit

/-- The nodes from `start` up to `stop`, which is not included. -/
structure NodeRange where
  start : Nat
  stop : Nat
deriving DecidableEq, Repr

namespace NodeRange

def size (r : NodeRange) : Nat := r.stop - r.start

def batchAt (count batchSize start : Nat) : NodeRange := ⟨start, min (start + batchSize) count⟩

/-- The batches from `start` on; a batch size of zero counts as one. -/
def batchesFrom (count batchSize start : Nat) : List NodeRange :=
  if start < count then
    batchAt count (max batchSize 1) start
      :: batchesFrom count batchSize (min (start + max batchSize 1) count)
  else []
termination_by count - start

def batches (count batchSize : Nat) : List NodeRange := batchesFrom count batchSize 0

theorem batchesFrom_of_le {count batchSize start : Nat} (h : count ≤ start) :
    batchesFrom count batchSize start = [] := by
  rw [batchesFrom, if_neg (by omega)]

theorem batchesFrom_of_lt {count batchSize start : Nat} (h : start < count) :
    batchesFrom count batchSize start =
      batchAt count (max batchSize 1) start
        :: batchesFrom count batchSize (min (start + max batchSize 1) count) := by
  rw [batchesFrom, if_pos h]

end NodeRange

end RoadAudit
