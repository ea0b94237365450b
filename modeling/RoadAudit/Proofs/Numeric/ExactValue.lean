import RoadAudit.Proofs.Lists
import RoadAudit.Proofs.Numeric.BinaryAddition
import RoadAudit.Proofs.Numeric.RealScalar

/-! # Exact values

A finite binary64 number stands for a real number. Finite numbers compare as the real numbers do,
and the side of a line on which a point lies is the one that exact arithmetic on the real numbers
gives, since all six coordinates are taken as multiples of one power of two. -/

namespace RoadAudit
namespace Binary64

open Float.Model Float.Model.UnpackedFloat

/-- The real number that the parts stand for; what is not finite stands for zero. -/
noncomputable def value : Binary64 → ℝ
  | .nan | .infinite _ => 0
  | .finite s m e => (if s then -1 else 1) * m * ((2 : ℕ) : ℝ) ^ e

/-- The real number that a binary64 number is. -/
noncomputable def realOf (x : Float) : ℝ := (ofFloat x).value

/-! ## The parts of a word -/

def isNegative : Sign → Bool
  | .negative => true
  | .positive => false

def ofUnpacked : UnpackedFloat → Binary64
  | .notANumber => .nan
  | .infinity s => .infinite (isNegative s)
  | .zero s => .finite (isNegative s) 0 (-1074)
  | .finite s m e _ => .finite (isNegative s) m e

section Fields

variable (b : BitVec Format.binary64.numBits)

theorem toNat_unpackMantissa : (unpackMantissa b).toNat = b.toNat % twoPow 52 := by
  unfold unpackMantissa
  rw [BitVec.toNat_cast, BitVec.extractLsb_toNat]
  rfl

theorem toNat_unpackExponent : (unpackExponent b).toNat = b.toNat / twoPow 52 % 2048 := by
  unfold unpackExponent
  rw [BitVec.toNat_cast, BitVec.extractLsb_toNat, Nat.shiftRight_eq_div_pow]
  rfl

theorem toNat_unpackSign : (unpackSign b).toNat = b.toNat / twoPow 63 := by
  have hlt : b.toNat < 2 ^ 64 := b.isLt
  unfold unpackSign
  rw [BitVec.toNat_cast, BitVec.extractLsb_toNat, Nat.shiftRight_eq_div_pow]
  change b.toNat / 2 ^ 63 % 2 = b.toNat / 2 ^ 63
  omega

theorem isNegative_unpackSign :
    isNegative (Sign.ofBitVec (unpackSign b)) = (b.toNat / twoPow 63 == 1) := by
  rw [← toNat_unpackSign]
  have hlt : (unpackSign b).toNat < 2 := (unpackSign b).isLt
  unfold Sign.ofBitVec
  split
  case isTrue hzero => rw [hzero]; rfl
  case isFalse hne =>
    have : (unpackSign b).toNat ≠ 0 := fun h => hne (BitVec.toNat_inj.mp h)
    have hone : (unpackSign b).toNat = 1 := by omega
    rw [hone]
    rfl

end Fields

/-- What is read off the bits of a number is what the number is unpacked to. -/
theorem ofFloat_eq (x : Float) : ofFloat x = ofUnpacked x.toModel.unpack := by
  obtain ⟨b, hb⟩ : ∃ b : BitVec Format.binary64.numBits, b = x.toModel.toBits.toBitVec := ⟨_, rfl⟩
  have hbits : x.toBits.toNat = b.toNat := by rw [hb]; rfl
  change ofBits x.toBits = ofUnpacked (UnpackedFloat.unpack .binary64 x.toModel.toBits.toBitVec)
  rw [← hb]
  unfold ofBits UnpackedFloat.unpack
  dsimp only
  rw [hbits, ← toNat_unpackMantissa b, ← toNat_unpackExponent b, ← isNegative_unpackSign b]
  have hbias : ((unpackExponent b).toNat : ℤ) - ((Format.binary64.exponentBias : ℤ) + (52 : ℕ)) =
      (unpackExponent b).toNat - 1075 := by
    rw [exponentBias_eq]
    norm_num
  by_cases htop : unpackExponent b = -1#11
  · have htop' : (unpackExponent b).toNat = 2047 := by rw [htop]; rfl
    rw [if_pos htop', if_pos htop]
    by_cases hzero : unpackMantissa b = 0#52
    · have hzero' : (unpackMantissa b).toNat = 0 := by rw [hzero]; rfl
      rw [if_pos hzero', if_pos hzero]
      rfl
    · have hzero' : (unpackMantissa b).toNat ≠ 0 := fun h => hzero (BitVec.toNat_inj.mp h)
      rw [if_neg hzero', if_neg hzero]
      rfl
  · have htop' : (unpackExponent b).toNat ≠ 2047 := fun h => htop (BitVec.toNat_inj.mp h)
    rw [if_neg htop', if_neg htop]
    by_cases hleast : unpackExponent b = 0#11
    · have hleast' : (unpackExponent b).toNat = 0 := by rw [hleast]; rfl
      rw [if_pos hleast', if_pos hleast]
      by_cases hzero : unpackMantissa b = 0#52
      · rw [dif_pos hzero, hzero]
        rfl
      · rw [dif_neg hzero, hbias, hleast']
        rfl
    · have hleast' : (unpackExponent b).toNat ≠ 0 := fun h => hleast (BitVec.toNat_inj.mp h)
      rw [if_neg hleast', if_neg hleast, hbias]
      exact congrArg (Binary64.finite _ · _) (toNat_one_append _).symm

/-! ## The order -/

/-- A finite number counted in steps of `2 ^ (-1074)`. -/
def count : UnpackedFloat → ℤ
  | .notANumber | .infinity _ | .zero _ => 0
  | .finite .negative m e _ => -(m * 2 ^ (e + 1074).toNat : ℕ)
  | .finite .positive m e _ => (m * 2 ^ (e + 1074).toNat : ℕ)

theorem count_negative {m : ℕ} {e : ℤ} (h : 0 < m) : count (.finite .negative m e h) < 0 :=
  neg_lt_zero.mpr (Int.natCast_pos.mpr (Nat.mul_pos h (Nat.two_pow_pos _)))

theorem count_positive {m : ℕ} {e : ℤ} (h : 0 < m) : 0 < count (.finite .positive m e h) :=
  Int.natCast_pos.mpr (Nat.mul_pos h (Nat.two_pow_pos _))

theorem negative_le_negative {m n : ℕ} {e f : ℤ} (h : 0 < m) (h' : 0 < n) :
    (UnpackedFloat.finite .negative m e h).le (.finite .negative n f h') =
      (UnpackedFloat.finite .positive n f h').le (.finite .positive m e h) := by
  change ((compare e f).then (compare m n)).swap.isLE = ((compare f e).then (compare n m)).isLE
  rw [Ordering.swap_then, ← Std.OrientedCmp.eq_swap, ← Std.OrientedCmp.eq_swap]

theorem le_iff_count {a b : UnpackedFloat} (ha : IsUnpacked a) (hb : IsUnpacked b)
    (hfa : a.isFinite = true) (hfb : b.isFinite = true) :
    a.le b = true ↔ count a ≤ count b := by
  cases ha with
  | notANumber => cases hfa
  | infinity s => cases hfa
  | zero s =>
    cases hb with
    | notANumber => cases hfb
    | infinity s => cases hfb
    | zero s => exact iff_of_true rfl le_rfl
    | finite s h hhigh =>
      cases s with
      | negative => exact iff_of_false Bool.false_ne_true (count_negative h.pos).not_ge
      | positive => exact iff_of_true rfl (count_positive h.pos).le
  | finite s h hhigh =>
    cases hb with
    | notANumber => cases hfb
    | infinity s => cases hfb
    | zero s' =>
      cases s with
      | negative => exact iff_of_true rfl (count_negative h.pos).le
      | positive => exact iff_of_false Bool.false_ne_true (count_positive h.pos).not_ge
    | finite s' h' hhigh' =>
      cases s with
      | negative =>
        cases s' with
        | negative =>
          rw [negative_le_negative, finite_le_iff h' h, count, count, neg_le_neg_iff,
            Int.ofNat_le]
        | positive =>
          exact iff_of_true rfl ((count_negative h.pos).trans (count_positive h'.pos)).le
      | positive =>
        cases s' with
        | negative =>
          exact iff_of_false Bool.false_ne_true
            ((count_negative h'.pos).trans (count_positive h.pos)).not_ge
        | positive => rw [finite_le_iff h h', count, count, Int.ofNat_le]

theorem two_zpow_eq_mul {least e : ℤ} (h : least ≤ e) :
    (2 : ℝ) ^ e = ((2 ^ (e - least).toNat : ℕ) : ℝ) * 2 ^ least := by
  have hsum : e = ((e - least).toNat : ℤ) + least := by omega
  conv_lhs => rw [hsum, zpow_add₀ two_ne_zero, zpow_natCast]
  push_cast
  rfl

theorem value_ofUnpacked {a : UnpackedFloat} (ha : IsUnpacked a) :
    (ofUnpacked a).value = count a * 2 ^ (-1074 : ℤ) := by
  cases ha with
  | notANumber => simp [ofUnpacked, value, count]
  | infinity s => simp [ofUnpacked, value, count]
  | zero s => simp [ofUnpacked, value, count]
  | finite s h hhigh =>
    simp only [ofUnpacked, value, Nat.cast_ofNat, two_zpow_eq_mul h.low, sub_neg_eq_add]
    generalize (2 : ℝ) ^ (-1074 : ℤ) = step
    cases s with
    | negative =>
      simp only [isNegative, count, if_true]
      push_cast
      ring
    | positive =>
      simp only [isNegative, count, Bool.false_eq_true, if_false]
      push_cast
      ring

theorem realOf_eq_count (x : Float) : realOf x = count x.toModel.unpack * 2 ^ (-1074 : ℤ) :=
  (congrArg value (ofFloat_eq x)).trans (value_ofUnpacked (isUnpacked_unpack _))

variable {x y : Float}

/-- Finite numbers compare as the real numbers that they are. -/
theorem realOf_le_realOf (hx : x.isFinite) (hy : y.isFinite) : realOf x ≤ realOf y ↔ x ≤ y := by
  have hle : x ≤ y ↔ x.toModel.unpack.le y.toModel.unpack = true := decide_eq_true_iff
  have hcount : x.toModel.unpack.le y.toModel.unpack = true ↔
      count x.toModel.unpack ≤ count y.toModel.unpack :=
    le_iff_count (isUnpacked_unpack _) (isUnpacked_unpack _) hx hy
  rw [hle, hcount, realOf_eq_count, realOf_eq_count, mul_le_mul_iff_left₀ (by positivity),
    Int.cast_le]

theorem isNumber_of_isFinite (hx : x.isFinite) : Scalar.IsNumber x :=
  (realOf_le_realOf hx hx).mp le_rfl

theorem realOf_lt_realOf (hx : x.isFinite) (hy : y.isFinite) : realOf x < realOf y ↔ x < y := by
  rw [← not_le, realOf_le_realOf hy hx]
  constructor
  · exact Scalar.lt_of_not_le (isNumber_of_isFinite hy) (isNumber_of_isFinite hx)
  · exact Scalar.not_le_of_lt

/-! ## The side of a line -/

theorem ofFloat_of_isFinite (hx : x.isFinite) : ∃ s m e, ofFloat x = .finite s m e := by
  have hfinite : x.toModel.unpack.isFinite = true := hx
  rw [ofFloat_eq]
  cases hu : x.toModel.unpack with
  | notANumber => simp [hu, UnpackedFloat.isFinite] at hfinite
  | infinity s => simp [hu, UnpackedFloat.isFinite] at hfinite
  | zero s => exact ⟨_, _, _, rfl⟩
  | finite s m e h => exact ⟨_, _, _, rfl⟩

def parts (x : Float) : Bool × ℕ × ℤ :=
  match ofFloat x with
  | .finite s m e => (s, m, e)
  | .nan | .infinite _ => default

def multiple (least : ℤ) (x : Float) : ℤ :=
  let n : ℤ := (parts x).2.1 * twoPow ((parts x).2.2 - least).toNat
  if (parts x).1 then -n else n

theorem realOf_eq_multiple (hx : x.isFinite) {least : ℤ} (hle : least ≤ (parts x).2.2) :
    realOf x = multiple least x * 2 ^ least := by
  obtain ⟨s, m, e, hparts⟩ := ofFloat_of_isFinite hx
  simp only [parts, hparts] at hle
  simp only [realOf, multiple, parts, hparts, value, Nat.cast_ofNat, two_zpow_eq_mul hle, twoPow]
  cases s <;> simp <;> ring

theorem foldl_min_le (ps : List (Bool × ℕ × ℤ)) (start : ℤ) :
    ps.foldl (fun l p => min l p.2.2) start ≤ start ∧
      ∀ p ∈ ps, ps.foldl (fun l p => min l p.2.2) start ≤ p.2.2 := by
  induction ps generalizing start with
  | nil => simp
  | cons p rest ih =>
    obtain ⟨hstart, hrest⟩ := ih (min start p.2.2)
    rw [List.foldl_cons]
    refine ⟨hstart.trans (min_le_left _ _), fun q hq => ?_⟩
    rcases List.mem_cons.mp hq with rfl | hq
    · exact hstart.trans (min_le_right _ _)
    · exact hrest q hq

theorem exists_commonIntegers {xs : List Float} (hxs : ∀ x ∈ xs, x.isFinite) :
    ∃ least : ℤ, commonIntegers? xs = some (xs.map (multiple least)) ∧
      ∀ x ∈ xs, realOf x = multiple least x * 2 ^ least := by
  obtain ⟨least, hleast⟩ : ∃ l, l = (xs.map parts).foldl (fun l p => min l p.2.2) 1024 := ⟨_, rfl⟩
  refine ⟨least, ?_, fun x hx => realOf_eq_multiple (hxs x hx) ?_⟩
  · unfold commonIntegers?
    rw [mapM_eq_some_map (g := parts)]
    · simp only [Option.bind_eq_bind, Option.bind_some, ← hleast, List.map_map]
      rfl
    · intro x hx
      obtain ⟨s, m, e, hx⟩ := ofFloat_of_isFinite (hxs x hx)
      simp only [parts, hx]
  · rw [hleast]
    exact (foldl_min_le _ _).2 _ (List.mem_map_of_mem hx)

theorem compare_eq_of_pos {c : ℝ} (hc : 0 < c) (m n : ℤ) :
    compare (m * c : ℝ) (n * c : ℝ) = compare m n := by
  rcases lt_trichotomy m n with h | rfl | h
  · rw [compare_lt_iff_lt.mpr h, compare_lt_iff_lt.mpr]
    exact mul_lt_mul_of_pos_right (Int.cast_lt.mpr h) hc
  · rw [compare_eq_iff_eq.mpr rfl, compare_eq_iff_eq.mpr rfl]
  · rw [compare_gt_iff_gt.mpr h, compare_gt_iff_gt.mpr]
    exact mul_lt_mul_of_pos_right (Int.cast_lt.mpr h) hc

/-- The side of a line is that of exact arithmetic. -/
theorem turn_realOf {ax ay bx by' cx cy : Float} (hax : ax.isFinite) (hay : ay.isFinite)
    (hbx : bx.isFinite) (hby : by'.isFinite) (hcx : cx.isFinite) (hcy : cy.isFinite) :
    Scalar.turn (realOf ax) (realOf ay) (realOf bx) (realOf by') (realOf cx) (realOf cy) =
      Scalar.turn ax ay bx by' cx cy := by
  have hall : ∀ x ∈ [ax, ay, bx, by', cx, cy], x.isFinite := by simp [*]
  obtain ⟨least, hcommon, hmultiple⟩ := exists_commonIntegers hall
  change compare ((realOf ax - realOf cx) * (realOf by' - realOf cy))
    ((realOf ay - realOf cy) * (realOf bx - realOf cx)) = turn ax ay bx by' cx cy
  simp only [List.mem_cons, List.not_mem_nil, or_false, forall_eq_or_imp, forall_eq] at hmultiple
  obtain ⟨hax, hay, hbx, hby, hcx, hcy⟩ := hmultiple
  rw [turn, hcommon]
  simp only [List.map_cons, List.map_nil, turnOfIntegers]
  rw [← compare_eq_of_pos (c := 2 ^ least * 2 ^ least) (by positivity), hax, hay, hbx, hby, hcx,
    hcy]
  push_cast
  congr 1 <;> ring

end Binary64
end RoadAudit
