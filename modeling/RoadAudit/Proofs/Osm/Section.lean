import Mathlib.Data.List.Chain
import Mathlib.Data.List.Forall2
import RoadAudit.Osm.Assembly

/-! # Sections of a way

A section is a stretch whose inner stops are still known by their map ids. The sections of a way
follow on from one another, and joined where they meet they give the stops of the way again. -/

namespace RoadAudit

/-- Lists that each begin with the last member of the one before, joined there. -/
def joined {β : Type} : List (List β) → List β
  | [] => []
  | first :: rest => first ++ rest.flatMap List.tail

theorem joined_map_map {β γ : Type} (f : β → γ) (parts : List (List β)) :
    joined (parts.map (List.map f)) = (joined parts).map f := by
  cases parts with
  | nil => rfl
  | cons first rest =>
    simp [joined, List.flatMap_map, List.map_flatMap, List.map_tail]

theorem joined_of_forall₂ {β γ δ : Type} {f : δ → List γ} {g : β → γ} {l : List δ}
    {parts : List (List β)} (h : List.Forall₂ (fun d part => f d = part.map g) l parts) :
    joined (l.map f) = (joined parts).map g := by
  have hparts : l.map f = parts.map (List.map g) := by
    rwa [← List.forall₂_eq_eq_eq, List.forall₂_map_left_iff, List.forall₂_map_right_iff]
  rw [hparts, joined_map_map]

/-- A stretch that knows the ids of the stops between its ends. -/
structure Section (α : Type) where
  first : Stop α
  inner : List (Stop α)
  last : Stop α

namespace Section

variable {α : Type}

def stretch (s : Section α) : Stretch α := ⟨s.first, s.inner.map Stop.point, s.last⟩

def stops (s : Section α) : List (Stop α) := s.first :: s.inner ++ [s.last]

theorem course_stretch (s : Section α) : s.stretch.course = s.stops.map Stop.point := by
  simp [stretch, Stretch.course, stops]

/-- The sections from a stop on through some others; they end where `Stretch.split` ends its
stretches. -/
def split (cuts : Int64 → Bool) (start : Stop α) : List (Stop α) → List (Section α)
  | [] => []
  | s :: rest =>
    if cuts s.osmId || rest.isEmpty then ⟨start, [], s⟩ :: split cuts s rest
    else
      match split cuts s rest with
      | [] => []
      | t :: more => ⟨start, s :: t.inner, t.last⟩ :: more

variable (cuts : Int64 → Bool)

theorem split_stretch (start : Stop α) (rest : List (Stop α)) :
    Stretch.split cuts start rest = (split cuts start rest).map stretch := by
  induction rest generalizing start with
  | nil => rfl
  | cons s rest ih =>
    rw [Stretch.split, split, ih]
    split
    · rfl
    · cases split cuts s rest <;> rfl

/-- What holds of the sections from `start` on through `rest`: they follow on from one another and
lose no stop, and of the stops only the last and those at which a section may end do end one. -/
structure Covers (start : Stop α) (rest : List (Stop α)) (sections : List (Section α)) : Prop where
  head : ∀ s ∈ sections.head?, s.first = start
  chain : sections.IsChain fun s t => t.first = s.last
  stops_eq : sections.flatMap (fun s => s.inner ++ [s.last]) = rest
  inner : ∀ s ∈ sections, ∀ p ∈ s.inner, cuts p.osmId = false
  last : ∀ s ∈ sections, cuts s.last.osmId = true ∨ s.last ∈ rest.getLast?

theorem covers_split (start : Stop α) (rest : List (Stop α)) :
    Covers cuts start rest (split cuts start rest) := by
  induction rest generalizing start with
  | nil => constructor <;> simp [split]
  | cons s rest ih =>
    have hs := ih s
    have hlast : ∀ p ∈ rest.getLast?, p ∈ (s :: rest).getLast? := fun p hp => by
      rw [List.getLast?_cons, Option.mem_def.mp hp]
      rfl
    rw [split]
    split
    case isTrue hends =>
      rw [Bool.or_eq_true, List.isEmpty_iff] at hends
      constructor
      case head => simp
      case chain => exact List.isChain_cons.mpr ⟨hs.head, hs.chain⟩
      case stops_eq => simp [hs.stops_eq]
      case inner => simpa using hs.inner
      case last =>
        intro t ht
        rcases List.mem_cons.mp ht with rfl | ht
        · exact hends.imp_right fun hnil => by simp [hnil]
        · exact (hs.last t ht).imp_right (hlast t.last)
    case isFalse hinner =>
      rw [Bool.or_eq_true, not_or, Bool.not_eq_true, List.isEmpty_iff] at hinner
      -- the section that goes on from `s` gets `s` as one more inner stop
      cases hsplit : split cuts s rest with
      | nil =>
        have hnil := hs.stops_eq
        rw [hsplit] at hnil
        exact absurd hnil.symm hinner.2
      | cons t more =>
        rw [hsplit] at hs
        constructor
        case head => simp
        case chain =>
          have hchain := List.isChain_cons.mp hs.chain
          exact List.isChain_cons.mpr ⟨hchain.1, hchain.2⟩
        case stops_eq => simpa using congrArg (s :: ·) hs.stops_eq
        case inner =>
          intro u hu p hp
          rcases List.mem_cons.mp hu with rfl | hu
          · rcases List.mem_cons.mp hp with rfl | hp
            · exact hinner.1
            · exact hs.inner t List.mem_cons_self p hp
          · exact hs.inner u (List.mem_cons_of_mem t hu) p hp
        case last =>
          intro u hu
          rcases List.mem_cons.mp hu with rfl | hu
          · exact (hs.last t List.mem_cons_self).imp_right (hlast t.last)
          · exact (hs.last u (List.mem_cons_of_mem t hu)).imp_right (hlast u.last)

theorem stops_subset_of_mem_split {start : Stop α} {rest : List (Stop α)} {s : Section α}
    (h : s ∈ split cuts start rest) : s.stops ⊆ start :: rest := by
  induction rest generalizing start s with
  | nil => cases h
  | cons p rest ih =>
    rw [split] at h
    split at h
    case isTrue =>
      rcases List.mem_cons.mp h with rfl | h
      · simp [stops]
      · exact List.subset_cons_of_subset start (ih h)
    case isFalse =>
      cases hsplit : split cuts p rest with
      | nil =>
        rw [hsplit] at h
        cases h
      | cons t more =>
        rw [hsplit] at h
        have ht : t.inner ++ [t.last] ⊆ p :: rest :=
          List.Subset.trans (List.subset_cons_self t.first _) (ih (hsplit ▸ List.mem_cons_self))
        rcases List.mem_cons.mp h with rfl | h
        · exact List.cons_subset_cons start (List.cons_subset.mpr ⟨List.mem_cons_self, ht⟩)
        · exact List.subset_cons_of_subset start (ih (hsplit ▸ List.mem_cons_of_mem t h))

variable {cuts : Int64 → Bool} {start : Stop α} {rest : List (Stop α)}
  {sections : List (Section α)}

/-- Joined where they meet, the sections give all stops in order. -/
theorem Covers.joined_eq (h : Covers cuts start rest sections) (hrest : rest ≠ []) :
    joined (sections.map stops) = start :: rest := by
  cases sections with
  | nil => exact absurd h.stops_eq.symm hrest
  | cons s more =>
    have hfirst : s.first = start := h.head s rfl
    have hstops := h.stops_eq
    rw [List.flatMap_cons] at hstops
    simp [joined, stops, List.flatMap_map, hfirst, ← hstops]

theorem Covers.ne_nil (h : Covers cuts start rest sections) (hrest : rest ≠ []) :
    sections ≠ [] := by
  rintro rfl
  exact hrest h.stops_eq.symm

end Section

namespace RoadWay

variable {α : Type} (cuts : Int64 → Bool) (place? : Int64 → Option (Point α)) (w : RoadWay)

/-- The sections of a way; with fewer than two stops there are none. -/
def sections : List (Section α) :=
  match w.stops place? with
  | [] => []
  | start :: rest => Section.split cuts start rest

theorem stretches_eq : w.stretches cuts place? = (w.sections cuts place?).map Section.stretch := by
  unfold stretches sections
  cases w.stops place? with
  | nil => rfl
  | cons start rest => exact Section.split_stretch cuts start rest

theorem sections_eq_nil_iff : w.sections cuts place? = [] ↔ (w.stops place?).length < 2 := by
  unfold sections
  split
  case h_1 hstops => simp [hstops]
  case h_2 start rest hstops =>
    cases rest with
    | nil => simp [hstops, Section.split]
    | cons s rest =>
      have hne := (Section.covers_split cuts start (s :: rest)).ne_nil (List.cons_ne_nil s rest)
      simp [hstops, hne]

theorem chain_sections : (w.sections cuts place?).IsChain fun s t => t.first = s.last := by
  unfold sections
  split
  · exact .nil
  · exact (Section.covers_split cuts _ _).chain

theorem not_cuts_of_mem_inner {s : Section α} (h : s ∈ w.sections cuts place?) {p : Stop α}
    (hp : p ∈ s.inner) : cuts p.osmId = false := by
  unfold sections at h
  split at h
  · cases h
  · exact (Section.covers_split cuts _ _).inner s h p hp

theorem cuts_or_last_of_mem {s : Section α} (h : s ∈ w.sections cuts place?) :
    cuts s.last.osmId = true ∨ s.last ∈ (w.stops place?).getLast? := by
  unfold sections at h
  split at h
  case h_1 => cases h
  case h_2 start rest hstops =>
    rw [hstops]
    refine ((Section.covers_split cuts start rest).last s h).imp_right fun hlast => ?_
    rw [List.getLast?_cons, Option.mem_def.mp hlast]
    rfl

/-- Joined where they meet, the sections of a way give all its stops in order. -/
theorem joined_sections (h : 2 ≤ (w.stops place?).length) :
    joined ((w.sections cuts place?).map Section.stops) = w.stops place? := by
  unfold sections
  split
  case h_1 hstops => simp [hstops] at h
  case h_2 start rest hstops =>
    rw [hstops]
    refine (Section.covers_split cuts start rest).joined_eq ?_
    rintro rfl
    simp [hstops] at h

theorem stops_subset_of_mem_sections {s : Section α} (h : s ∈ w.sections cuts place?) :
    s.stops ⊆ w.stops place? := by
  unfold sections at h
  split at h
  case h_1 => cases h
  case h_2 start rest hstops =>
    rw [hstops]
    exact Section.stops_subset_of_mem_split cuts h

theorem place?_of_mem_stops {s : Stop α} (h : s ∈ w.stops place?) :
    place? s.osmId = some s.point ∧ s.osmId ∈ w.nodes := by
  obtain ⟨id, hid, hs⟩ := List.mem_filterMap.mp h
  obtain ⟨p, hp, rfl⟩ := Option.map_eq_some_iff.mp hs
  exact ⟨hp, hid⟩

end RoadWay
end RoadAudit
