import RoadAudit.Proofs.IdTable.Record

/-! # An id table as a finite map

A table is compared with the journal of the records it has accepted: the last entry for a graph id
is what the table answers for it. Which records are accepted is said of the journal alone. -/

namespace RoadAudit

/-- What a call to `IdTable.add` asks to be recorded. -/
structure IdRecord where
  id : Nat
  osmId : UInt64
  noExit : Bool

namespace IdTable

def after (t : IdTable) (r : IdRecord) : IdTable :=
  match t.add r.id r.osmId r.noExit with
  | .ok t => t
  | .error _ => t

def replay (layout : IdLayout) (calls : List IdRecord) : IdTable := calls.foldl after (empty layout)

end IdTable

namespace IdRecord

/-- Whether a record follows on from the last one of a journal. -/
def Follows (r : IdRecord) (journal : List IdRecord) : Prop := ∀ w ∈ journal.getLast?, w.id ≤ r.id

instance (r : IdRecord) (journal : List IdRecord) : Decidable (r.Follows journal) :=
  inferInstanceAs (Decidable (∀ w ∈ journal.getLast?, w.id ≤ r.id))

instance (layout : IdLayout) (osmId : UInt64) : Decidable (IdTable.InRange layout osmId) :=
  decidable_of_iff _ (IdTable.fits_iff_inRange layout osmId)

/-- A journal with one more record, if it is one that is accepted. -/
def enter (layout : IdLayout) (journal : List IdRecord) (r : IdRecord) : List IdRecord :=
  if r.Follows journal ∧ IdTable.InRange layout r.osmId then journal ++ [r] else journal

/-- The accepted ones of some calls, in order. -/
def journal (layout : IdLayout) (calls : List IdRecord) : List IdRecord :=
  calls.foldl (enter layout) []

def lookup (journal : List IdRecord) (id : Nat) : Option IdRecord :=
  journal.reverse.find? fun r => r.id = id

theorem lookup_append (journal : List IdRecord) (r : IdRecord) (id : Nat) :
    lookup (journal ++ [r]) id = if r.id = id then some r else lookup journal id := by
  by_cases h : r.id = id <;> simp [lookup, h]

theorem mem_of_lookup {journal : List IdRecord} {id : Nat} {r : IdRecord}
    (h : lookup journal id = some r) : r ∈ journal :=
  List.mem_reverse.mp (List.mem_of_find?_eq_some h)

end IdRecord

namespace IdTable
open IdRecord

theorem word_writeWord (words : Array UInt64) (i j : Nat) (w : UInt64) :
    ((writeWord words i w)[j]?).getD vacant = if j = i then w else (words[j]?).getD vacant := by
  have hsize : (words ++ Array.replicate (i + 1 - words.size) vacant).size = max words.size (i + 1) := by
    simp only [Array.size_append, Array.size_replicate]
    omega
  by_cases h : j = i
  · subst h
    rw [writeWord, Array.getElem?_setIfInBounds_self_of_lt (by omega), if_pos rfl]
    rfl
  · rw [writeWord, Array.getElem?_setIfInBounds, if_neg (Ne.symm h), if_neg h, Array.getElem?_append]
    split
    · rfl
    · next hge =>
      rw [Array.getElem?_replicate, Array.getElem?_eq_none (by omega)]
      split <;> rfl

/-- A record that is accepted is in range, and its word is written. -/
theorem of_add {t next : IdTable} {id : Nat} {osmId : UInt64} {noExit : Bool}
    (h : t.add id osmId noExit = .ok next) :
    InRange t.layout osmId ∧
      next = { t with words := writeWord t.words id (encodeRecord t.layout osmId noExit) } := by
  unfold add at h
  split at h
  · cases h
  · split at h
    case isTrue hfits =>
      cases h
      exact ⟨(fits_iff_inRange _ _).mp hfits, rfl⟩
    case isFalse => cases h

theorem osmId?_of_add {t next : IdTable} {id : Nat} {osmId : UInt64} {noExit : Bool}
    (h : t.add id osmId noExit = .ok next) (i : Nat) :
    next.osmId? i = if i = id then some osmId else t.osmId? i := by
  obtain ⟨hrange, rfl⟩ := of_add h
  rw [osmId?, word, word_writeWord]
  split
  · exact idOf?_encodeRecord hrange noExit
  · rfl

theorem exists_add_size {t : IdTable} {osmId : UInt64} (h : InRange t.layout osmId)
    (noExit : Bool) : ∃ next, t.add t.size osmId noExit = .ok next := by
  rw [add, if_neg (by omega), if_pos ((fits_iff_inRange _ _).mpr h)]
  exact ⟨_, rfl⟩

/-- A table holds a journal: its size is one more than the last id, and the word of each graph id
is the one of the last entry for it. -/
structure Holds (layout : IdLayout) (t : IdTable) (journal : List IdRecord) : Prop where
  layout_eq : t.layout = layout
  size_eq : t.size = (journal.getLast?).elim 0 (fun w => w.id + 1)
  word_eq : ∀ id, t.word id =
    (lookup journal id).elim vacant (fun r => encodeRecord layout r.osmId r.noExit)
  inRange : ∀ r ∈ journal, InRange layout r.osmId
  ascending : journal.Pairwise fun v w => v.id ≤ w.id

theorem holds_empty (layout : IdLayout) : Holds layout (empty layout) [] where
  layout_eq := rfl
  size_eq := rfl
  word_eq _ := rfl
  inRange := by simp
  ascending := .nil

variable {layout : IdLayout} {t : IdTable} {journal : List IdRecord}

theorem Holds.osmId?_eq (h : Holds layout t journal) (id : Nat) :
    t.osmId? id = (lookup journal id).map IdRecord.osmId := by
  rw [osmId?, h.layout_eq, h.word_eq]
  cases hr : lookup journal id with
  | none => exact idOf?_vacant layout
  | some r => exact idOf?_encodeRecord (h.inRange r (mem_of_lookup hr)) r.noExit

theorem Holds.noExit_eq (h : Holds layout t journal) (id : Nat) :
    t.noExit id = (lookup journal id).any (fun r => layout == .nodes && r.noExit) := by
  rw [noExit, h.layout_eq, h.word_eq]
  cases hr : lookup journal id with
  | none => exact noExitOf_vacant layout
  | some r => exact noExitOf_encodeRecord (h.inRange r (mem_of_lookup hr)) r.noExit

theorem Holds.size_highest (h : Holds layout t journal) :
    (journal = [] ∧ t.size = 0) ∨
      ∃ w ∈ journal, t.size = w.id + 1 ∧ ∀ v ∈ journal, v.id ≤ w.id := by
  rcases List.eq_nil_or_concat journal with hnil | ⟨before, w, hw⟩
  · exact .inl ⟨hnil, by simpa [hnil] using h.size_eq⟩
  · subst hw
    have hasc := h.ascending
    rw [List.concat_eq_append, List.pairwise_append] at hasc
    refine .inr ⟨w, by simp, by simpa using h.size_eq, fun v hv => ?_⟩
    rw [List.concat_eq_append, List.mem_append, List.mem_singleton] at hv
    rcases hv with hv | rfl
    · exact hasc.2.2 v hv w (by simp)
    · exact le_rfl

theorem Holds.add_outOfOrder (h : Holds layout t journal) {r w : IdRecord}
    (hw : journal.getLast? = some w) (hr : r.id < w.id) :
    t.add r.id r.osmId r.noExit = .error (.outOfOrder r.id w.id) := by
  have hsize : t.size = w.id + 1 := by simpa [hw] using h.size_eq
  rw [add, hsize, if_pos (by omega)]
  rfl

theorem Holds.add_of_follows (h : Holds layout t journal) {r : IdRecord} (hr : r.Follows journal) :
    t.add r.id r.osmId r.noExit =
      if fits layout r.osmId then
        .ok { t with words := writeWord t.words r.id (encodeRecord layout r.osmId r.noExit) }
      else .error (.idOutOfRange r.id r.osmId) := by
  have hsize : ¬ r.id + 1 < t.size := by
    rw [h.size_eq]
    cases hlast : journal.getLast? with
    | none => simp
    | some w =>
      have := hr w hlast
      simp only [Option.elim_some]
      omega
  rw [add, if_neg hsize, h.layout_eq]

theorem Holds.add_idOutOfRange (h : Holds layout t journal) {r : IdRecord}
    (hr : r.Follows journal) (hrange : ¬ InRange layout r.osmId) :
    t.add r.id r.osmId r.noExit = .error (.idOutOfRange r.id r.osmId) := by
  rw [h.add_of_follows hr, if_neg (fun hfits => hrange ((fits_iff_inRange _ _).mp hfits))]

theorem Holds.add_ok (h : Holds layout t journal) {r : IdRecord} (hr : r.Follows journal)
    (hrange : InRange layout r.osmId) :
    ∃ next, t.add r.id r.osmId r.noExit = .ok next ∧ Holds layout next (journal ++ [r]) := by
  refine ⟨_, (h.add_of_follows hr).trans (if_pos ((fits_iff_inRange _ _).mpr hrange)), ?_⟩
  have hbefore : ∀ v ∈ journal, v.id ≤ r.id := by
    intro v hv
    rcases List.eq_nil_or_concat journal with rfl | ⟨before, w, rfl⟩
    · cases hv
    · have hw : w.id ≤ r.id := hr w (by simp)
      have hasc := h.ascending
      rw [List.concat_eq_append, List.pairwise_append] at hasc
      rw [List.concat_eq_append, List.mem_append, List.mem_singleton] at hv
      rcases hv with hv | rfl
      · exact (hasc.2.2 v hv w (by simp)).trans hw
      · exact hw
  constructor
  · exact h.layout_eq
  · have hsize : t.words.size ≤ r.id + 1 := by
      rcases h.size_highest with ⟨-, hzero⟩ | ⟨w, hw, hsize, -⟩
      · exact hzero.le.trans (Nat.zero_le _)
      · exact hsize.le.trans (Nat.succ_le_succ (hbefore w hw))
    simpa [size, size_writeWord] using hsize
  · intro id
    rw [word, word_writeWord, lookup_append]
    by_cases hid : id = r.id
    · simp [hid]
    · rw [if_neg hid, if_neg (Ne.symm hid)]
      exact h.word_eq id
  · intro v hv
    rcases List.mem_append.mp hv with hv | hv
    · exact h.inRange v hv
    · rwa [List.mem_singleton.mp hv]
  · rw [List.pairwise_append]
    exact ⟨h.ascending, List.pairwise_singleton _ _, fun v hv w hw =>
      List.mem_singleton.mp hw ▸ hbefore v hv⟩

theorem Holds.add_cases (h : Holds layout t journal) (r : IdRecord) :
    (∃ w, journal.getLast? = some w ∧ r.id < w.id ∧
      t.add r.id r.osmId r.noExit = .error (.outOfOrder r.id w.id)) ∨
    (r.Follows journal ∧ ¬ InRange layout r.osmId ∧
      t.add r.id r.osmId r.noExit = .error (.idOutOfRange r.id r.osmId)) ∨
    (r.Follows journal ∧ InRange layout r.osmId ∧
      ∃ next, t.add r.id r.osmId r.noExit = .ok next ∧ Holds layout next (journal ++ [r])) := by
  by_cases hr : r.Follows journal
  · by_cases hrange : InRange layout r.osmId
    · exact .inr (.inr ⟨hr, hrange, h.add_ok hr hrange⟩)
    · exact .inr (.inl ⟨hr, hrange, h.add_idOutOfRange hr hrange⟩)
  · have hlast : ∃ w, journal.getLast? = some w ∧ r.id < w.id := by
      simpa [Follows] using hr
    obtain ⟨w, hw, hlt⟩ := hlast
    exact .inl ⟨w, hw, hlt, h.add_outOfOrder hw hlt⟩

theorem not_follows {r w : IdRecord} (hw : journal.getLast? = some w) (hr : r.id < w.id) :
    ¬ r.Follows journal := fun hfollows => Nat.not_le.mpr hr (hfollows w hw)

theorem Holds.after (h : Holds layout t journal) (r : IdRecord) :
    Holds layout (t.after r) (enter layout journal r) := by
  unfold IdTable.after enter
  rcases h.add_cases r with ⟨w, hw, hlt, hadd⟩ | ⟨-, hrange, hadd⟩ | ⟨hr, hrange, next, hadd, hnext⟩
  · rw [hadd, if_neg (fun hok => not_follows hw hlt hok.1)]
    exact h
  · rw [hadd, if_neg (fun hok => hrange hok.2)]
    exact h
  · rw [hadd, if_pos ⟨hr, hrange⟩]
    exact hnext

theorem holds_replay (layout : IdLayout) (calls : List IdRecord) :
    Holds layout (replay layout calls) (IdRecord.journal layout calls) := by
  have hfold : ∀ (calls : List IdRecord) (t : IdTable) (journal : List IdRecord),
      Holds layout t journal → Holds layout (calls.foldl IdTable.after t)
        (calls.foldl (enter layout) journal) := by
    intro calls
    induction calls with
    | nil => exact fun t journal h => h
    | cons r rest ih => exact fun t journal h => ih _ _ (h.after r)
  exact hfold calls _ _ (holds_empty layout)

/-- After any calls, refused ones among them, a table answers as the journal of its accepted
records does: for each graph id with the map id and the mark of the last entry, and with nothing
where there is none. The next record is out of order exactly when its id is below the last one
written, otherwise out of range exactly when the layout has no room for its map id, and accepted in
all other cases; a refused one leaves the table as it was. -/
theorem replay_refines (layout : IdLayout) (calls : List IdRecord) (r : IdRecord) :
    let t := replay layout calls
    let journal := IdRecord.journal layout calls
    (∀ id, t.osmId? id = (lookup journal id).map IdRecord.osmId) ∧
    (∀ id, t.noExit id = (lookup journal id).any (fun w => layout == .nodes && w.noExit)) ∧
    ((journal = [] ∧ t.size = 0) ∨
      ∃ w ∈ journal, t.size = w.id + 1 ∧ ∀ v ∈ journal, v.id ≤ w.id) ∧
    (∀ last, t.add r.id r.osmId r.noExit = .error (.outOfOrder r.id last) ↔
      ∃ w, journal.getLast? = some w ∧ w.id = last ∧ r.id < w.id) ∧
    (t.add r.id r.osmId r.noExit = .error (.idOutOfRange r.id r.osmId) ↔
      r.Follows journal ∧ ¬ InRange layout r.osmId) ∧
    (∀ e, t.add r.id r.osmId r.noExit = .error e →
      replay layout (calls ++ [r]) = t ∧ IdRecord.journal layout (calls ++ [r]) = journal) ∧
    (r.Follows journal ∧ InRange layout r.osmId → ∃ next, t.add r.id r.osmId r.noExit = .ok next ∧
      replay layout (calls ++ [r]) = next ∧
      IdRecord.journal layout (calls ++ [r]) = journal ++ [r]) := by
  intro t journal
  have h : Holds layout t journal := holds_replay layout calls
  have hreplay : replay layout (calls ++ [r]) = t.after r := by
    simp [replay, t]
  have hjournal : IdRecord.journal layout (calls ++ [r]) = enter layout journal r := by
    simp [IdRecord.journal, journal]
  rw [hreplay, hjournal]
  unfold IdTable.after enter
  refine ⟨h.osmId?_eq, h.noExit_eq, h.size_highest, ?_⟩
  rcases h.add_cases r with ⟨w, hw, hlt, hadd⟩ | ⟨hr, hrange, hadd⟩ | ⟨hr, hrange, next, hadd, -⟩
  · have hnot := not_follows hw hlt
    simp [hadd, hw, hnot, hlt]
  · have hlast : ∀ w, journal.getLast? = some w → ¬ r.id < w.id :=
      fun w hw => Nat.not_lt.mpr (hr w hw)
    simp +contextual [hadd, hr, hrange, hlast]
  · have hlast : ∀ w, journal.getLast? = some w → ¬ r.id < w.id :=
      fun w hw => Nat.not_lt.mpr (hr w hw)
    simp +contextual [hadd, hr, hrange, hlast]

end IdTable
end RoadAudit
