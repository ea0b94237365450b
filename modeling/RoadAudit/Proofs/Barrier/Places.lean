import RoadAudit.Barrier.Location
import RoadAudit.Proofs.Numeric.BinaryProducts

/-! # What an index of places keeps

An index is compared with the calls that led to it: a node has the last place where it was seen
after it was first asked for, in whole 1e-7 degrees. There is one exception. The word of a place
one unit south and one unit west of the origin is the word of ones, which stands for no place. -/

namespace RoadAudit

open scoped Scalar

/-! ## Numbers of 32 bits -/

namespace Word

theorem isSigned_iff {n : ℤ} : isSigned n ↔ -2147483648 ≤ n ∧ n ≤ 2147483647 := by
  rw [isSigned, Bool.and_eq_true, decide_eq_true_iff, decide_eq_true_iff]
  rfl

theorem cut_of_isSigned {n : ℤ} (h : isSigned n) : cut n = n := by
  rw [isSigned_iff] at h
  unfold cut least greatest
  omega

theorem toBits_lt (n : ℤ) : toBits n < size32 := by
  unfold toBits size32
  omega

theorem ofBits_toBits {n : ℤ} (h : isSigned n) : ofBits (toBits n) = n := by
  rw [isSigned_iff] at h
  unfold ofBits toBits greatest size32
  split <;> omega

theorem toBits_eq_ones_iff {n : ℤ} (h : isSigned n) : toBits n = size32 - 1 ↔ n = -1 := by
  rw [isSigned_iff] at h
  unfold toBits size32
  omega

end Word

/-! ## The word of a place -/

namespace Location

variable {α : Type} [Scalar α] {p : Point α}

/-- Whether the coordinates of a place are degrees of latitude and longitude. -/
structure InRange (p : Point α) : Prop where
  south : -90 ≤ p.lat
  north : p.lat ≤ 90
  west : -180 ≤ p.lon
  east : p.lon ≤ 180

instance (p : Point α) : Decidable (InRange p) :=
  decidable_of_iff (((-90 : α) ≤ p.lat ∧ p.lat ≤ 90) ∧ (-180 : α) ≤ p.lon ∧ p.lon ≤ 180)
    ⟨fun h => ⟨h.1.1, h.1.2, h.2.1, h.2.2⟩, fun h => ⟨⟨h.south, h.north⟩, h.west, h.east⟩⟩

def wholeUnits (x : α) : ℤ := Scalar.nearestInt (x * 10000000)

/-- Whether 32 bits suffice for either coordinate. -/
structure Fits (p : Point α) : Prop where
  lat : Word.isSigned (wholeUnits p.lat)
  lon : Word.isSigned (wholeUnits p.lon)

def rounded (p : Point α) : Point α :=
  ⟨Scalar.ofInt (wholeUnits p.lat) / 10000000, Scalar.ofInt (wholeUnits p.lon) / 10000000⟩

/-- Whether a place is one unit south and one unit west of the origin when it is rounded. -/
def IsOneUnitSouthWest (p : Point α) : Prop := wholeUnits p.lat = -1 ∧ wholeUnits p.lon = -1

instance (p : Point α) : Decidable (IsOneUnitSouthWest p) := inferInstanceAs (Decidable (_ ∧ _))

theorem toNat_pack (h : Fits p) : (pack p).toNat =
    Word.toBits (wholeUnits p.lon) * Word.size32 + Word.toBits (wholeUnits p.lat) := by
  have hlat := Word.toBits_lt (wholeUnits p.lat)
  have hlon := Word.toBits_lt (wholeUnits p.lon)
  rw [pack, units, units, ← wholeUnits, ← wholeUnits, Word.cut_of_isSigned h.lat,
    Word.cut_of_isSigned h.lon, UInt64.toNat_ofNat']
  refine Nat.mod_eq_of_lt ?_
  unfold Word.size32 at *
  omega

theorem unpack_pack (h : Fits p) : unpack (pack p) = rounded p := by
  have hlat := Word.toBits_lt (wholeUnits p.lat)
  have hlow : (pack p).toNat % Word.size32 = Word.toBits (wholeUnits p.lat) := by
    rw [toNat_pack h, Nat.mul_add_mod_self_right, Nat.mod_eq_of_lt hlat]
  have hhigh : (pack p).toNat / Word.size32 = Word.toBits (wholeUnits p.lon) := by
    rw [toNat_pack h, Nat.mul_comm, Nat.mul_add_div (by decide), Nat.div_eq_of_lt hlat,
      Nat.add_zero]
  rw [unpack, hlow, hhigh, Word.ofBits_toBits h.lat, Word.ofBits_toBits h.lon, rounded]

/-- Just one place has the word that stands for none. -/
theorem pack_eq_unseen_iff (h : Fits p) : pack p = unseen ↔ IsOneUnitSouthWest p := by
  have hlat := Word.toBits_lt (wholeUnits p.lat)
  have hlon := Word.toBits_lt (wholeUnits p.lon)
  rw [← UInt64.toNat_inj, toNat_pack h, IsOneUnitSouthWest, ← Word.toBits_eq_ones_iff h.lat,
    ← Word.toBits_eq_ones_iff h.lon]
  change _ = 18446744073709551615 ↔ _
  unfold Word.size32 at *
  omega

/-! ### Binary64 coordinates -/

theorem realOf_ninety : Binary64.realOf 90 = 90 := by
  have hparts : Binary64.ofFloat 90 = .finite false 6333186975989760 (-46) := by decide +kernel
  rw [Binary64.realOf_of_parts hparts]
  norm_num

theorem realOf_oneEighty : Binary64.realOf 180 = 180 := by
  have hparts : Binary64.ofFloat 180 = .finite false 6333186975989760 (-45) := by decide +kernel
  rw [Binary64.realOf_of_parts hparts]
  norm_num

theorem realOf_unitsPerDegree : Binary64.realOf 10000000 = 10000000 := by
  have hparts : Binary64.ofFloat 10000000 = .finite false 5368709120000000 (-29) := by
    decide +kernel
  rw [Binary64.realOf_of_parts hparts]
  norm_num

theorem isSigned_wholeUnits {x b : Float} (hb : b.isFinite) (hdegrees : Binary64.realOf b ≤ 180)
    (hlow : -b ≤ x) (hhigh : x ≤ b) : Word.isSigned (wholeUnits x) := by
  obtain ⟨hfinite, hle⟩ := Binary64.abs_realOf_le hb hlow hhigh
  have hexact : |Binary64.realOf x| * |Binary64.realOf 10000000| ≤ ((1800000000 : ℕ) : ℝ) := by
    rw [realOf_unitsPerDegree]
    norm_num
    linarith
  obtain ⟨hproduct, hbound⟩ :=
    Binary64.abs_realOf_mul_le hfinite (by decide +kernel) (by decide) hexact
  have hunits : |wholeUnits x| ≤ (1800000000 : ℕ) :=
    Binary64.abs_nearestInt_le hproduct (by decide) hbound
  rw [abs_le] at hunits
  rw [Word.isSigned_iff]
  omega

theorem InRange.fits {p : Point Float} (h : InRange p) : Fits p where
  lat := isSigned_wholeUnits (b := 90) (by decide +kernel) (realOf_ninety.trans_le (by norm_num))
    h.south h.north
  lon := isSigned_wholeUnits (b := 180) (by decide +kernel) realOf_oneEighty.le h.west h.east

end Location

/-! ## Calls -/

/-- A call that may change an index of places. -/
inductive PlaceCall (α : Type) where
  | ask (osmId : UInt64)
  | see (osmId : UInt64) (p : Point α)

namespace PlaceCall

variable {α : Type} {id : UInt64} {calls : List (PlaceCall α)} {p : Point α}

def asked? : PlaceCall α → Option UInt64
  | .ask osmId => some osmId
  | .see _ _ => none

def askedIds (calls : List (PlaceCall α)) : List UInt64 := calls.filterMap asked?

/-- Whether a call sees a node, if any, on the globe. -/
def InRange [Scalar α] : PlaceCall α → Prop
  | .ask _ => True
  | .see _ p => Location.InRange p

instance [Scalar α] : (c : PlaceCall α) → Decidable c.InRange
  | .ask _ => isTrue trivial
  | .see _ p => inferInstanceAs (Decidable (Location.InRange p))

def seenAt? (id : UInt64) : PlaceCall α → Option (Point α)
  | .ask _ => none
  | .see osmId p => if osmId = id then some p else none

/-- The last place where a node is seen after it has first been asked for. -/
def lastSeen (id : UInt64) (calls : List (PlaceCall α)) : Option (Point α) :=
  ((calls.dropWhile fun c => c.asked? != some id).filterMap (seenAt? id)).getLast?

theorem mem_askedIds : id ∈ askedIds calls ↔ .ask id ∈ calls := by
  rw [askedIds, List.mem_filterMap]
  constructor
  · rintro ⟨c | c, hc, hid⟩
    · cases hid
      exact hc
    · cases hid
  · exact fun h => ⟨_, h, rfl⟩

theorem askedIds_append (calls : List (PlaceCall α)) (c : PlaceCall α) :
    askedIds (calls ++ [c]) = askedIds calls ++ c.asked?.toList := by
  rw [askedIds, List.filterMap_append, askedIds]
  cases c <;> rfl

theorem dropWhile_eq_nil_iff :
    calls.dropWhile (fun c => c.asked? != some id) = [] ↔ id ∉ askedIds calls := by
  simp [List.dropWhile_eq_nil_iff, askedIds]

theorem dropWhile_append_of_mem (h : id ∈ askedIds calls) (more : List (PlaceCall α)) :
    (calls ++ more).dropWhile (fun c => c.asked? != some id) =
      calls.dropWhile (fun c => c.asked? != some id) ++ more := by
  rw [List.dropWhile_append, if_neg]
  rw [List.isEmpty_iff, dropWhile_eq_nil_iff, not_not]
  exact h

theorem lastSeen_append (calls : List (PlaceCall α)) (c : PlaceCall α) :
    lastSeen id (calls ++ [c]) =
      if id ∈ askedIds calls then (c.seenAt? id).or (lastSeen id calls) else none := by
  by_cases h : id ∈ askedIds calls
  · rw [if_pos h, lastSeen, dropWhile_append_of_mem h, List.filterMap_append, List.getLast?_append,
      lastSeen]
    cases hc : c.seenAt? id <;> simp [hc]
  · rw [if_neg h, lastSeen, List.dropWhile_append, dropWhile_eq_nil_iff.mpr h]
    cases c with
    | ask osmId => by_cases hid : osmId = id <;> simp [asked?, seenAt?, hid]
    | see osmId q => simp [asked?]

theorem seenAt?_eq_some_iff {c : PlaceCall α} : c.seenAt? id = some p ↔ c = .see id p := by
  cases c with
  | ask osmId => simp [seenAt?]
  | see osmId q => simp [seenAt?]

theorem lastSeen_eq_some_iff : lastSeen id calls = some p ↔
    ∃ before after, calls = before ++ .see id p :: after ∧ .ask id ∈ before ∧
      ∀ q, .see id q ∉ after := by
  constructor
  · intro h
    -- the last call either is the one that is looked for or comes after it
    induction calls using List.reverseRecOn with
    | nil => cases h
    | append_singleton calls c ih =>
      rw [lastSeen_append] at h
      split at h
      case isFalse => cases h
      case isTrue hid =>
        cases hc : c.seenAt? id with
        | some q =>
          rw [hc, Option.some_or] at h
          cases h
          exact ⟨calls, [], by rw [seenAt?_eq_some_iff.mp hc], mem_askedIds.mp hid, by simp⟩
        | none =>
          rw [hc, Option.none_or] at h
          obtain ⟨before, after, rfl, hbefore, hafter⟩ := ih h
          refine ⟨before, after ++ [c], by simp, hbefore, fun q hq => ?_⟩
          rcases List.mem_append.mp hq with hq | hq
          · exact hafter q hq
          · rw [← List.mem_singleton.mp hq] at hc
            simp [seenAt?] at hc
  · rintro ⟨before, after, rfl, hbefore, hafter⟩
    have hnone : after.filterMap (seenAt? id) = [] := by
      refine List.filterMap_eq_nil_iff.mpr fun c hc => ?_
      cases hseen : c.seenAt? id with
      | none => rfl
      | some q => exact absurd (seenAt?_eq_some_iff.mp hseen ▸ hc) (hafter q)
    rw [lastSeen, dropWhile_append_of_mem (mem_askedIds.mpr hbefore), List.filterMap_append,
      List.filterMap_cons_some (seenAt?_eq_some_iff.mpr rfl), hnone, List.getLast?_concat]

end PlaceCall

/-! ## The index after some calls -/

namespace LocationIndex

open PlaceCall

variable {α : Type} [Scalar α] {x : LocationIndex} {calls : List (PlaceCall α)}

def after (x : LocationIndex) : PlaceCall α → LocationIndex
  | .ask osmId => x.ask osmId
  | .see osmId p => x.see osmId p

def replay (calls : List (PlaceCall α)) : LocationIndex := calls.foldl after empty

/-- The word that an index should have for a node after some calls. -/
def wordAfter (calls : List (PlaceCall α)) (id : UInt64) : Option UInt64 :=
  if id ∈ askedIds calls then some ((lastSeen id calls).elim Location.unseen Location.pack)
  else none

theorem wordAfter_ask (calls : List (PlaceCall α)) (osmId id : UInt64) :
    wordAfter (calls ++ [.ask osmId]) id =
      if osmId = id ∧ id ∉ askedIds calls then some Location.unseen else wordAfter calls id := by
  rw [wordAfter, wordAfter, askedIds_append, lastSeen_append]
  by_cases hid : id ∈ askedIds calls
  · simp [hid, seenAt?]
  · by_cases heq : osmId = id <;> simp [hid, heq, asked?, eq_comm]

theorem wordAfter_see (calls : List (PlaceCall α)) (osmId id : UInt64) (p : Point α) :
    wordAfter (calls ++ [.see osmId p]) id =
      if osmId = id ∧ id ∈ askedIds calls then some (Location.pack p) else wordAfter calls id := by
  rw [wordAfter, wordAfter, askedIds_append, lastSeen_append]
  by_cases hid : id ∈ askedIds calls
  · by_cases heq : osmId = id <;> simp [hid, heq, seenAt?, asked?]
  · simp [hid, asked?]

/-- An index holds the outcome of some calls: it has a word for just the nodes asked for, that of
the last place. -/
structure Holds (x : LocationIndex) (calls : List (PlaceCall α)) : Prop where
  word_eq : ∀ id, x.words[id]? = wordAfter calls id
  size_eq : x.words.size = (askedIds calls).toFinset.card

theorem holds_empty : Holds empty ([] : List (PlaceCall α)) where
  word_eq _ := Std.HashMap.getElem?_emptyWithCapacity
  size_eq := Std.HashMap.size_emptyWithCapacity

theorem Holds.mem_iff (h : Holds x calls) (id : UInt64) : id ∈ x.words ↔ id ∈ askedIds calls := by
  rw [Std.HashMap.mem_iff_isSome_getElem?, h.word_eq, wordAfter]
  split
  case isTrue hid => exact iff_of_true rfl hid
  case isFalse hid => exact iff_of_false Bool.false_ne_true hid

theorem Holds.ask (h : Holds x calls) (osmId : UInt64) :
    Holds (x.ask osmId) (calls ++ [.ask osmId]) where
  word_eq id := by
    rw [LocationIndex.ask, Std.HashMap.getElem?_insertIfNew, h.word_eq, wordAfter_ask]
    by_cases hid : osmId = id
    · subst hid
      simp only [beq_self_eq_true, h.mem_iff]
    · simp only [beq_iff_eq, hid, false_and]
  size_eq := by
    rw [LocationIndex.ask, Std.HashMap.size_insertIfNew, h.size_eq, askedIds_append]
    simp only [h.mem_iff, asked?, Option.toList_some, List.toFinset_append, List.toFinset_cons,
      List.toFinset_nil, Finset.union_insert, Finset.union_empty, Finset.card_insert_eq_ite,
      List.mem_toFinset]

theorem Holds.see (h : Holds x calls) (osmId : UInt64) (p : Point α) :
    Holds (x.see osmId p) (calls ++ [.see osmId p]) := by
  have hasked : askedIds (calls ++ [.see osmId p]) = askedIds calls := by
    rw [askedIds_append, asked?, Option.toList_none, List.append_nil]
  unfold LocationIndex.see
  by_cases hmem : osmId ∈ x.words
  · have hid := (h.mem_iff osmId).mp hmem
    rw [if_pos (Std.HashMap.contains_iff_mem.mpr hmem)]
    constructor
    case word_eq =>
      intro id
      rw [Std.HashMap.getElem?_insert, h.word_eq, wordAfter_see]
      by_cases heq : osmId = id
      · subst heq
        simp only [beq_self_eq_true, hid, and_self]
      · simp only [beq_iff_eq, heq, false_and]
    case size_eq => rw [Std.HashMap.size_insert, if_pos hmem, hasked, h.size_eq]
  · rw [if_neg (mt Std.HashMap.contains_iff_mem.mp hmem)]
    constructor
    case word_eq =>
      intro id
      rw [h.word_eq, wordAfter_see, if_neg]
      rintro ⟨rfl, hid⟩
      exact hmem ((h.mem_iff _).mpr hid)
    case size_eq => rw [hasked, h.size_eq]

theorem Holds.after (h : Holds x calls) (c : PlaceCall α) : Holds (x.after c) (calls ++ [c]) := by
  cases c with
  | ask osmId => exact h.ask osmId
  | see osmId p => exact h.see osmId p

theorem holds_replay (calls : List (PlaceCall α)) : Holds (replay calls) calls := by
  induction calls using List.reverseRecOn with
  | nil => exact holds_empty
  | append_singleton calls c ih =>
    rw [replay, List.foldl_append]
    exact ih.after c

theorem isAsked_replay (calls : List (PlaceCall α)) (id : UInt64) :
    (replay calls).isAsked id ↔ .ask id ∈ calls :=
  Std.HashMap.contains_iff_mem.trans (((holds_replay calls).mem_iff id).trans mem_askedIds)

/-- The place of a node is its last one, unless that has the word of no place. -/
theorem place?_replay (calls : List (PlaceCall α)) (id : UInt64)
    (hfits : ∀ p, .see id p ∈ calls → Location.Fits p) :
    (replay calls).place? id =
      ((lastSeen id calls).filter fun p => ¬ Location.IsOneUnitSouthWest p).map
        Location.rounded := by
  rw [place?, (holds_replay calls).word_eq, wordAfter]
  cases hseen : lastSeen id calls with
  | none => by_cases hid : id ∈ askedIds calls <;> simp [hid]
  | some p =>
    obtain ⟨before, after, hcalls, hasked, -⟩ := lastSeen_eq_some_iff.mp hseen
    have hid : id ∈ askedIds calls := mem_askedIds.mpr (by simp [hcalls, hasked])
    have hp : Location.Fits p := hfits p (by simp [hcalls])
    rw [if_pos hid]
    change (if Location.pack p = Location.unseen then none
      else some (Location.unpack (Location.pack p))) = _
    rw [Location.unpack_pack hp]
    by_cases hlost : Location.IsOneUnitSouthWest p <;>
      simp [Location.pack_eq_unseen_iff hp, hlost]

/-- What an index answers after some calls on the globe: which nodes were asked for, how many they
are, and the last place of each, except for the one place whose word stands for none. -/
theorem answers_replay (calls : List (PlaceCall Float)) (hrange : ∀ c ∈ calls, c.InRange) :
    (replay calls).size = (askedIds calls).toFinset.card ∧
      ∀ id, ((replay calls).isAsked id ↔ .ask id ∈ calls) ∧
        ((replay calls).place? id = (lastSeen id calls).map Location.rounded ↔
          ∀ p ∈ lastSeen id calls, ¬ Location.IsOneUnitSouthWest p) ∧
        ∀ p ∈ lastSeen id calls, Location.IsOneUnitSouthWest p →
          (replay calls).place? id = (none : Option (Point Float)) := by
  refine ⟨(holds_replay calls).size_eq, fun id => ⟨isAsked_replay calls id, ?_⟩⟩
  rw [place?_replay calls id fun p hp => Location.InRange.fits (hrange _ hp)]
  cases lastSeen id calls with
  | none => simp
  | some p => by_cases hlost : Location.IsOneUnitSouthWest p <;> simp [hlost]

/-- A node seen before it is asked for and after that, and asked for again. -/
def hedgeCalls : List (PlaceCall Float) :=
  [.see 17 ⟨1, 2⟩, .ask 17, .see 17 ⟨48.1234567, -11.7654321⟩, .see 18 ⟨1, 2⟩, .ask 17]

theorem answers_replay_hedge :
    (replay hedgeCalls).size = 1 ∧ (replay hedgeCalls).isAsked 17 ∧
      ¬ (replay hedgeCalls).isAsked 18 ∧
      (replay hedgeCalls).place? 17 = some (⟨48.1234567, -11.7654321⟩ : Point Float) := by
  obtain ⟨hsize, hanswers⟩ := answers_replay hedgeCalls (by decide +kernel)
  have hlast : lastSeen 17 hedgeCalls = some ⟨48.1234567, -11.7654321⟩ := rfl
  have hkept : ∀ p ∈ lastSeen 17 hedgeCalls, ¬ Location.IsOneUnitSouthWest p := by
    rw [hlast]
    rintro p ⟨rfl⟩
    decide +kernel
  have hrounded : Location.rounded (⟨48.1234567, -11.7654321⟩ : Point Float) =
      ⟨48.1234567, -11.7654321⟩ := by decide +kernel
  refine ⟨hsize.trans (by decide), (hanswers 17).1.mpr (by simp [hedgeCalls]), ?_, ?_⟩
  · rw [(hanswers 18).1]
    simp [hedgeCalls]
  · rw [(hanswers 17).2.1.mpr hkept, hlast, Option.map_some, hrounded]

/-- A node asked for and seen one unit south and one unit west of the origin. -/
def southWestCalls : List (PlaceCall Float) := [.ask 1, .see 1 ⟨-1e-7, -1e-7⟩]

/-- Its place is not kept. -/
theorem southWest_not_kept :
    (∀ c ∈ southWestCalls, c.InRange) ∧
      (lastSeen 1 southWestCalls).map Location.rounded = some ⟨-1e-7, -1e-7⟩ ∧
      (replay southWestCalls).place? 1 ≠ (lastSeen 1 southWestCalls).map Location.rounded := by
  have hrange : ∀ c ∈ southWestCalls, c.InRange := by decide +kernel
  have hlast : lastSeen 1 southWestCalls = some ⟨-1e-7, -1e-7⟩ := rfl
  have hlost : Location.IsOneUnitSouthWest (⟨-1e-7, -1e-7⟩ : Point Float) := by decide +kernel
  have hrounded : Location.rounded (⟨-1e-7, -1e-7⟩ : Point Float) = ⟨-1e-7, -1e-7⟩ := by
    decide +kernel
  refine ⟨hrange, by rw [hlast, Option.map_some, hrounded], ?_⟩
  rw [place?_replay southWestCalls 1 fun p hp => Location.InRange.fits (hrange _ hp), hlast]
  simp [hlost]

end LocationIndex
end RoadAudit
