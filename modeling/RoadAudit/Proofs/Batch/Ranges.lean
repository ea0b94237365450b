import Mathlib.Algebra.Order.Floor.Div
import Mathlib.Data.List.Chain
import Mathlib.Tactic
import RoadAudit.Batch.Words

/-! # The batches of a run

Batches are cut one after the other, each where the one before ends, so none is empty, none is
longer than the batch size, and together they are all nodes. They begin at the multiples of the
batch size. In words the same batches are cut: a sum that is held at the greatest word is beyond the
last node. -/

namespace RoadAudit
namespace NodeRange

variable {count batchSize start : Nat} {r : NodeRange}

def nodes (r : NodeRange) : List Nat := List.range' r.start r.size

/-- What is expected of the batches that some nodes are cut into. -/
structure IsCut (count batchSize : Nat) (ranges : List NodeRange) : Prop where
  /-- No batch is empty. -/
  start_lt : ∀ r ∈ ranges, r.start < r.stop
  /-- No batch is too long. -/
  size_le : ∀ r ∈ ranges, r.size ≤ max batchSize 1
  /-- Each batch begins where the one before ends. -/
  consecutive : ranges.IsChain fun r s => r.stop = s.start
  /-- Together they are all nodes in ascending order. -/
  covers : ranges.flatMap nodes = List.range count
  /-- There are no more of them than it takes. -/
  length_eq : ranges.length = count ⌈/⌉ max batchSize 1

/-! ## At the multiples of the batch size -/

theorem eq_or_add_le_of_dvd {d a b : Nat} (ha : d ∣ a) (hb : d ∣ b) (hle : a ≤ b) :
    a = b ∨ a + d ≤ b := by
  rcases hle.eq_or_lt with heq | hlt
  · exact .inl heq
  · have hstep := Nat.le_of_dvd (Nat.sub_pos_of_lt hlt) (Nat.dvd_sub hb ha)
    exact .inr (by omega)

theorem mem_batchesFrom_iff (hstart : max batchSize 1 ∣ start) :
    r ∈ batchesFrom count batchSize start ↔
      start ≤ r.start ∧ r.start < count ∧ max batchSize 1 ∣ r.start ∧
        r.stop = min (r.start + max batchSize 1) count := by
  induction start using batchesFrom.induct count batchSize with
  | case1 start hlt ih =>
    have hmem : r ∈ batchesFrom count batchSize (min (start + max batchSize 1) count) ↔
        start + max batchSize 1 ≤ r.start ∧ r.start < count ∧ max batchSize 1 ∣ r.start ∧
          r.stop = min (r.start + max batchSize 1) count := by
      rcases Nat.lt_or_ge (start + max batchSize 1) count with hmore | hlast
      · rw [Nat.min_eq_left hmore.le] at ih ⊢
        exact ih (hstart.add (dvd_refl _))
      · rw [batchesFrom_of_le (by omega)]
        simp only [List.not_mem_nil, false_iff]
        omega
    rw [batchesFrom_of_lt hlt, List.mem_cons, hmem]
    constructor
    · rintro (rfl | ⟨hle, hrest⟩)
      · exact ⟨le_rfl, hlt, hstart, rfl⟩
      · exact ⟨by omega, hrest⟩
    · rintro ⟨hle, hrlt, hdvd, hstop⟩
      rcases eq_or_add_le_of_dvd hstart hdvd hle with rfl | hnext
      · exact .inl (by cases r; simp_all [batchAt])
      · exact .inr ⟨hnext, hrlt, hdvd, hstop⟩
  | case2 start hge =>
    rw [batchesFrom_of_le (by omega)]
    simp only [List.not_mem_nil, false_iff]
    omega

theorem mem_batches_iff : r ∈ batches count batchSize ↔
    r.start < count ∧ max batchSize 1 ∣ r.start ∧
      r.stop = min (r.start + max batchSize 1) count := by
  rw [batches, mem_batchesFrom_iff (Nat.dvd_zero _), and_iff_right (Nat.zero_le _)]

theorem exists_stop_iff {m : Nat} (hm : 0 < m) :
    (∃ r ∈ batches count batchSize, m ≤ r.stop ∧ r.stop < count) ↔
      m + (count - 1) % max batchSize 1 < count := by
  have hmod := Nat.mod_lt (count - 1) (show 0 < max batchSize 1 by omega)
  have hlast := Nat.div_add_mod (count - 1) (max batchSize 1)
  have hborder := Nat.dvd_mul_right (max batchSize 1) ((count - 1) / max batchSize 1)
  -- the last border between two batches
  generalize max batchSize 1 * ((count - 1) / max batchSize 1) = border at hlast hborder
  constructor
  · rintro ⟨r, hr, hle, hlt⟩
    obtain ⟨-, hstart, hstop⟩ := mem_batches_iff.mp hr
    have hend : r.stop = r.start + max batchSize 1 := by omega
    have hdvd : max batchSize 1 ∣ r.stop := hend ▸ hstart.add (dvd_refl _)
    have hbound : r.stop ≤ border := by
      by_contra! hpast
      rcases eq_or_add_le_of_dvd hborder hdvd hpast.le with heq | hnext <;> omega
    omega
  · intro hlt
    have hfull : max batchSize 1 ≤ border := Nat.le_of_dvd (by omega) hborder
    have hstop : border - max batchSize 1 + max batchSize 1 = border := Nat.sub_add_cancel hfull
    refine ⟨⟨border - max batchSize 1, border⟩, mem_batches_iff.mpr ⟨?_, ?_, ?_⟩, ?_, ?_⟩
    · change border - max batchSize 1 < count
      omega
    · exact Nat.dvd_sub hborder (dvd_refl _)
    · change border = min (border - max batchSize 1 + max batchSize 1) count
      omega
    · change m ≤ border
      omega
    · change border < count
      omega

/-! ## One after the other -/

theorem start_eq_of_mem_head? (h : r ∈ (batchesFrom count batchSize start).head?) :
    r.start = start := by
  by_cases hlt : start < count
  · rw [batchesFrom_of_lt hlt, List.head?_cons, Option.mem_some_iff] at h
    rw [← h]
    rfl
  · rw [batchesFrom_of_le (by omega)] at h
    cases h

theorem isChain_batchesFrom (count batchSize start : Nat) :
    (batchesFrom count batchSize start).IsChain fun r s => r.stop = s.start := by
  induction start using batchesFrom.induct count batchSize with
  | case1 start hlt ih =>
    rw [batchesFrom_of_lt hlt, List.isChain_cons]
    exact ⟨fun s hs => (start_eq_of_mem_head? hs).symm, ih⟩
  | case2 start hge =>
    rw [batchesFrom_of_le (by omega)]
    exact .nil

theorem flatMap_nodes_batchesFrom (count batchSize start : Nat) :
    (batchesFrom count batchSize start).flatMap nodes = List.range' start (count - start) := by
  induction start using batchesFrom.induct count batchSize with
  | case1 start hlt ih =>
    have hsize : min (start + max batchSize 1) count - start +
        (count - min (start + max batchSize 1) count) = count - start := by
      omega
    have hstop : start + (min (start + max batchSize 1) count - start) =
        min (start + max batchSize 1) count := by
      omega
    rw [batchesFrom_of_lt hlt, List.flatMap_cons, ih, nodes, batchAt, size, ← hsize,
      ← List.range'_append_1, hstop]
  | case2 start hge =>
    rw [batchesFrom_of_le (by omega), Nat.sub_eq_zero_of_le (by omega)]
    rfl

theorem length_batchesFrom (count batchSize start : Nat) :
    (batchesFrom count batchSize start).length = (count - start) ⌈/⌉ max batchSize 1 := by
  induction start using batchesFrom.induct count batchSize with
  | case1 start hlt ih =>
    have hpos : 0 < max batchSize 1 := by omega
    rw [batchesFrom_of_lt hlt, List.length_cons, ih, Nat.ceilDiv_eq_add_pred_div,
      Nat.ceilDiv_eq_add_pred_div]
    rcases Nat.lt_or_ge (start + max batchSize 1) count with hmore | hlast
    · have hrest : count - start + max batchSize 1 - 1 =
          count - min (start + max batchSize 1) count + max batchSize 1 - 1 + max batchSize 1 := by
        omega
      rw [hrest, Nat.add_div_right _ hpos]
    · have hzero : count - min (start + max batchSize 1) count = 0 := by omega
      rw [hzero, Nat.div_eq_of_lt (by omega),
        Nat.div_eq_of_lt_le (k := 1) (by omega) (by omega)]
  | case2 start hge =>
    rw [batchesFrom_of_le (by omega), Nat.sub_eq_zero_of_le (by omega)]
    simp

/-- Every number of nodes is cut into batches of every size. -/
theorem isCut_batches (count batchSize : Nat) :
    IsCut count batchSize (batches count batchSize) where
  start_lt r hr := by
    obtain ⟨hlt, -, hstop⟩ := mem_batches_iff.mp hr
    omega
  size_le r hr := by
    obtain ⟨-, -, hstop⟩ := mem_batches_iff.mp hr
    simp only [size]
    omega
  consecutive := isChain_batchesFrom count batchSize 0
  covers := by
    rw [batches, flatMap_nodes_batchesFrom, Nat.sub_zero, List.range_eq_range']
  length_eq := by rw [batches, length_batchesFrom, Nat.sub_zero]

theorem IsCut.sum_size {ranges : List NodeRange} (h : IsCut count batchSize ranges) :
    (ranges.map size).sum = count := by
  have hlength := congrArg List.length h.covers
  rw [List.length_flatMap, List.length_range] at hlength
  rw [← hlength]
  congr 1
  exact List.map_congr_left fun r _ => by rw [nodes, List.length_range']

/-! ## The batches before one -/

theorem bounds_of_mem_batchesFrom (h : r ∈ batchesFrom count batchSize start) :
    start ≤ r.start ∧ r.start < r.stop ∧ r.stop ≤ count := by
  induction start using batchesFrom.induct count batchSize with
  | case1 start hlt ih =>
    rw [batchesFrom_of_lt hlt, List.mem_cons] at h
    rcases h with rfl | h
    · simp only [batchAt]
      omega
    · have := ih h
      omega
  | case2 start hge =>
    rw [batchesFrom_of_le (by omega)] at h
    cases h

theorem before_of_batchesFrom {before after : List NodeRange}
    (h : batchesFrom count batchSize start = before ++ r :: after) :
    (∀ b ∈ before, b.stop ≤ r.start) ∧
      (before = [] ∧ r.start = start ∨ ∃ b ∈ before, b.stop = r.start) := by
  induction before generalizing start with
  | nil =>
    have hhead : r ∈ (batchesFrom count batchSize start).head? := by
      rw [h]
      rfl
    exact ⟨by simp, .inl ⟨rfl, start_eq_of_mem_head? hhead⟩⟩
  | cons b more ih =>
    have hlt : start < count := by
      by_contra hge
      rw [batchesFrom_of_le (by omega)] at h
      cases h
    rw [batchesFrom_of_lt hlt, List.cons_append, List.cons.injEq] at h
    obtain ⟨hb, hrest⟩ := h
    have hstop : b.stop = min (start + max batchSize 1) count := by
      rw [← hb]
      rfl
    have hmem : r ∈ batchesFrom count batchSize (min (start + max batchSize 1) count) := by
      rw [hrest]
      simp
    obtain ⟨hle, -⟩ := bounds_of_mem_batchesFrom hmem
    obtain ⟨hmore, hlast⟩ := ih hrest
    refine ⟨List.forall_mem_cons.mpr ⟨by omega, hmore⟩, .inr ?_⟩
    rcases hlast with ⟨-, hstart⟩ | ⟨b', hb', heq⟩
    · exact ⟨b, List.mem_cons_self, by omega⟩
    · exact ⟨b', List.mem_cons_of_mem b hb', heq⟩

/-! ## In words -/

theorem batchesInWordsFrom_eq (count batchSize start : UInt32) :
    batchesInWordsFrom count batchSize start =
      batchesFrom count.toNat batchSize.toNat start.toNat := by
  induction start using batchesInWordsFrom.induct count batchSize with
  | case1 start hlt ih =>
    rw [batchesInWordsFrom, if_pos hlt, batchesFrom_of_lt (UInt32.lt_iff_toNat_lt.mp hlt), ih,
      toNat_stopInWords, batchAt]
  | case2 start hge =>
    rw [batchesInWordsFrom, if_neg hge, batchesFrom_of_le]
    exact Nat.le_of_not_lt (mt UInt32.lt_iff_toNat_lt.mpr hge)

/-- No sum is lost where batches are cut in words. -/
theorem batchesInWords_eq (count batchSize : UInt32) :
    batchesInWords count batchSize = batches count.toNat batchSize.toNat :=
  batchesInWordsFrom_eq count batchSize 0

end NodeRange
end RoadAudit
