import RoadAudit.CommandLine.Session
import RoadAudit.Proofs.Road.NamedLevels

/-! # Imports that a level ends

The range of a `level` value is computed with two sums in words of 32 bits. The span of a range that
is kept always has room; the level above the least one has none if the value names nothing but the
greatest word. One way with such a value, road or not, ends the import of its extract. -/

namespace RoadAudit

theorem LevelRange.overflow?_eq_some_iff (value : Option String) (sum : LevelOverflow) :
    overflow? value = some sum ↔ sum = .next ∧ IsTopmost value := by
  unfold overflow?
  rcases parseInWords_outcome value with ⟨htop, herror⟩ | ⟨htop, hok⟩
  · rw [herror]
    simp [htop, eq_comm]
  · rw [hok]
    simp [htop]

namespace Import

theorem exists_of_overflow? {x : Extract} {sum : LevelOverflow} (h : overflow? x = some sum) :
    sum = .next ∧ ∃ objects way, x = .objects objects ∧ .way way ∈ objects ∧
      LevelRange.IsTopmost (way.tags.value? "level") := by
  cases x with
  | missing => cases h
  | broken => cases h
  | objects objects =>
    obtain ⟨object, hmem, hsum⟩ := List.exists_of_findSome?_eq_some h
    cases object with
    | node n => cases hsum
    | relation => cases hsum
    | way way =>
      obtain ⟨rfl, htop⟩ := (LevelRange.overflow?_eq_some_iff _ sum).mp hsum
      exact ⟨rfl, objects, way, rfl, hmem, htop⟩

theorem overflow?_ne_none {objects : List OsmObject} {way : OsmWay} (hmem : .way way ∈ objects)
    (htop : LevelRange.IsTopmost (way.tags.value? "level")) :
    overflow? (.objects objects) ≠ none := by
  intro hnone
  have hway : LevelRange.overflow? (way.tags.value? "level") = none :=
    List.findSome?_eq_none_iff.mp hnone (.way way) hmem
  rw [(LevelRange.overflow?_eq_some_iff _ .next).mpr ⟨rfl, htop⟩] at hway
  cases hway

theorem overflow?_eq_some_iff (x : Extract) (sum : LevelOverflow) :
    overflow? x = some sum ↔ sum = .next ∧ ∃ objects way, x = .objects objects ∧
      .way way ∈ objects ∧ LevelRange.IsTopmost (way.tags.value? "level") := by
  constructor
  · exact exists_of_overflow?
  · rintro ⟨rfl, objects, way, rfl, hmem, htop⟩
    obtain ⟨sum, hsum⟩ := Option.ne_none_iff_exists'.mp (overflow?_ne_none hmem htop)
    obtain ⟨rfl, -⟩ := exists_of_overflow? hsum
    exact hsum

end Import

namespace Session

/-- The network of a workspace: it is read if it is stored, and else it is imported unless that is
ended by a sum. -/
theorem network_run (w : Workspace) :
    StateT.run (ExceptT.run network) w =
      match RoadNetwork.isStored w.storage.contents, Import.overflow? w.extract with
      | false, some sum => (.error (.aborted sum), w)
      | _, _ => ((RoadNetwork.obtain w.extract w.storage).2.mapError .noNetwork,
          { w with storage := (RoadNetwork.obtain w.extract w.storage).1 }) := by
  have hget : StateT.run (ExceptT.run (get : Session Workspace)) w = (.ok w, w) := rfl
  unfold network
  rw [ExceptT.run_bind, StateT.run_bind, hget]
  dsimp only [bind, Id]
  cases RoadNetwork.isStored w.storage.contents with
  | true => cases (RoadNetwork.obtain w.extract w.storage).2 <;> rfl
  | false =>
    cases Import.overflow? w.extract with
    | some sum => rfl
    | none => cases (RoadNetwork.obtain w.extract w.storage).2 <;> rfl

theorem network_eq_aborted_iff (w : Workspace) (sum : LevelOverflow) :
    (StateT.run (ExceptT.run network) w).1 = .error (.aborted sum) ↔
      RoadNetwork.isStored w.storage.contents = false ∧ Import.overflow? w.extract = some sum := by
  have hother : ∀ result : Except NetworkError RoadNetwork,
      result.mapError Failure.noNetwork ≠ .error (.aborted sum) := by
    rintro (e | n) h <;> cases h
  rw [network_run]
  cases RoadNetwork.isStored w.storage.contents with
  | true => simp [hother]
  | false => cases Import.overflow? w.extract <;> simp [hother]

/-- Of the two sums of a level range, the span always has room, and the level above the least one
has room unless the value names nothing but the greatest word. The import of a network is ended by a
sum exactly if it is not stored yet and some way has such a value. -/
theorem network_aborted_iff (value : Option String) (w : Workspace) (sum : LevelOverflow) :
    (LevelRange.overflow? value = some sum ↔ sum = .next ∧ LevelRange.IsTopmost value) ∧
    ((StateT.run (ExceptT.run network) w).1 = .error (.aborted sum) ↔
      sum = .next ∧ RoadNetwork.isStored w.storage.contents = false ∧ ∃ objects way,
        w.extract = .objects objects ∧ .way way ∈ objects ∧
          LevelRange.IsTopmost (way.tags.value? "level")) := by
  refine ⟨LevelRange.overflow?_eq_some_iff value sum, ?_⟩
  rw [network_eq_aborted_iff, Import.overflow?_eq_some_iff]
  exact and_left_comm

/-- A way with the greatest word as its level ends an import. -/
theorem network_aborted_lastLevel :
    LevelRange.overflow? (some "2147483647") = some .next ∧
    (StateT.run (ExceptT.run network) ⟨.objects [.way ⟨1, [], ⟨[("level", "2147483647")]⟩⟩],
      .absent, .absent, none⟩).1 = .error (.aborted .next) :=
  ⟨by decide +kernel, (network_eq_aborted_iff _ _).mpr ⟨by decide, by decide +kernel⟩⟩

end Session
end RoadAudit
