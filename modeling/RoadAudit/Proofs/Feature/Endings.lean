import RoadAudit.Feature.File
import RoadAudit.Proofs.Feature.Collection
import RoadAudit.Proofs.Files.Folder

/-! # How feature files end

Whatever is written to a feature file and however that ends, its place is taken only by a complete
collection, and only if every step of finishing goes well. The temporary file goes too, unless a
step of finishing fails. -/

namespace RoadAudit

/-- What is written to a feature file at once. -/
inductive Portion where
  | feature (f : Feature)
  | findings (fs : List (Finding Float))

def Portion.features : Portion → List Feature
  | feature f => [f]
  | findings fs => fs.flatMap Feature.ofFinding

namespace FeatureFile

/-- How the writing of a file ends. -/
inductive Ending where
  /-- The file is finished, which may fail at a step. -/
  | finished (failing : Option FinishStep)
  /-- A feature cannot be written, and the file is given up. -/
  | refused
  /-- The file is dropped without being finished. -/
  | dropped

def endBy (file : FeatureFile) : Ending → Folder String × Bool
  | .finished failing => file.finishWith failing
  | .refused | .dropped => (file.drop, false)

def write (file : FeatureFile) : Portion → FeatureFile
  | .feature f => file.add f
  | .findings fs => file.addFindings fs

def writeAll (file : FeatureFile) (portions : List Portion) : FeatureFile := portions.foldl write file

/-- What is expected of a file of some features that has been written in a folder: a file in its
place is complete, and one that is not there has left no trace. -/
structure EndsCleanly (before : Folder String) (name : String) (fs : List Feature)
    (after : Folder String × Bool) : Prop where
  complete : after.2 = true → after.1.read? name = some (Collection.document fs)
  kept : after.2 = false → after.1.lookup? name = before.lookup? name
  tidy : after.2 = false → after.1.lookup? (temporaryName name) = none

variable {before : Folder String} {name other : String} {file : FeatureFile}

theorem ne_temporaryName : name ≠ temporaryName name := by
  intro h
  have hlength := congrArg String.length h
  rw [temporaryName, String.length_append] at hlength
  simp at hlength

/-! ## Writing -/

theorem create_eq_ok_iff : create before name = .ok file ↔
    isNested name = false ∧ before.isFolder (temporaryName name) = false ∧
      file = ⟨name, before.put (temporaryName name) (.file ""), Collection.start⟩ := by
  cases hnested : isNested name <;> cases hfolder : before.isFolder (temporaryName name) <;>
    simp [create, Folder.write?, hnested, hfolder, eq_comm]

theorem write_eq (portion : Portion) : file.write portion =
    { file with collection := portion.features.foldl Collection.add file.collection } := by
  cases portion <;> rfl

theorem writeAll_eq (portions : List Portion) : file.writeAll portions =
    { file with
      collection := (portions.flatMap Portion.features).foldl Collection.add file.collection } := by
  induction portions generalizing file with
  | nil => rfl
  | cons portion portions ih =>
    rw [writeAll, List.foldl_cons, ← writeAll, ih, write_eq, List.flatMap_cons, List.foldl_append]

/-- What a folder has in the place of a file and beside it; all else is as before. -/
structure Leaves (before : Folder String) (name : String)
    (placed temporary : Option (FolderEntry String)) (after : Folder String) : Prop where
  lookup?_name : after.lookup? name = placed
  lookup?_temporary : after.lookup? (temporaryName name) = temporary
  lookup?_other : ∀ other, other ≠ name → other ≠ temporaryName name →
    after.lookup? other = before.lookup? other

namespace Leaves

variable {placed temporary : Option (FolderEntry String)} {after : Folder String}

theorem refl :
    Leaves before name (before.lookup? name) (before.lookup? (temporaryName name)) before :=
  ⟨rfl, rfl, fun _ _ _ => rfl⟩

theorem put_temporary (h : Leaves before name placed temporary after) (entry : FolderEntry String) :
    Leaves before name placed (some entry) (after.put (temporaryName name) entry) := by
  refine ⟨?_, Folder.lookup?_put_self _ _ _, fun other hname htemporary => ?_⟩
  · rw [Folder.lookup?_put_of_ne _ _ (Ne.symm ne_temporaryName), h.lookup?_name]
  · rw [Folder.lookup?_put_of_ne _ _ (Ne.symm htemporary), h.lookup?_other other hname htemporary]

theorem remove_temporary (h : Leaves before name placed temporary after) :
    Leaves before name placed none (after.remove (temporaryName name)) := by
  refine ⟨?_, Folder.lookup?_remove_self, fun other hname htemporary => ?_⟩
  · rw [Folder.lookup?_remove_of_ne (Ne.symm ne_temporaryName), h.lookup?_name]
  · rw [Folder.lookup?_remove_of_ne (Ne.symm htemporary), h.lookup?_other other hname htemporary]

theorem put_name (h : Leaves before name placed temporary after) (entry : FolderEntry String) :
    Leaves before name (some entry) temporary (after.put name entry) := by
  refine ⟨Folder.lookup?_put_self _ _ _, ?_, fun other hname htemporary => ?_⟩
  · rw [Folder.lookup?_put_of_ne _ _ ne_temporaryName, h.lookup?_temporary]
  · rw [Folder.lookup?_put_of_ne _ _ (Ne.symm hname), h.lookup?_other other hname htemporary]

end Leaves

/-- A file that is being written, before it has come to an end. -/
structure Holds (file : FeatureFile) (before : Folder String) (name : String) (fs : List Feature) :
    Prop where
  name_eq : file.name = name
  leaves : Leaves before name (before.lookup? name) (some (.file "")) file.folder
  close_eq : file.collection.close = Collection.document fs

theorem holds_writeAll (h : create before name = .ok file) (portions : List Portion) :
    (file.writeAll portions).Holds before name (portions.flatMap Portion.features) := by
  obtain ⟨-, -, rfl⟩ := create_eq_ok_iff.mp h
  rw [writeAll_eq]
  exact ⟨rfl, Leaves.refl.put_temporary _, Collection.close_foldl_add _⟩

/-! ## Ending -/

namespace Holds

variable {fs : List Feature}

theorem leaves_drop (h : file.Holds before name fs) :
    Leaves before name (before.lookup? name) none file.drop := by
  rw [drop, h.name_eq]
  exact h.leaves.remove_temporary

theorem leaves_flushed (h : file.Holds before name fs) :
    Leaves before name (before.lookup? name) (some (.file (Collection.document fs)))
      file.flushed := by
  rw [flushed, h.name_eq, h.close_eq]
  exact h.leaves.put_temporary _

theorem finish_cases (h : file.Holds before name fs) :
    (before.isFolder name = false ∧ file.finish.2 = true ∧
      Leaves before name (some (.file (Collection.document fs))) none file.finish.1) ∨
    (before.isFolder name = true ∧ file.finish = (file.flushed, false)) := by
  have hread : file.flushed.read? (temporaryName name) = some (Collection.document fs) := by
    rw [Folder.read?, h.leaves_flushed.lookup?_temporary]
  have hfolder : file.flushed.isFolder name = before.isFolder name := by
    rw [Folder.isFolder, Folder.isFolder, h.leaves_flushed.lookup?_name]
  cases hblocked : before.isFolder name with
  | true =>
    refine .inr ⟨rfl, ?_⟩
    simp [finish, finishWith, Folder.rename?, h.name_eq, hread, hfolder, hblocked]
  | false =>
    have hmoved : file.finish = ((file.flushed.remove (temporaryName name)).put name
        (.file (Collection.document fs)), true) := by
      simp [finish, finishWith, Folder.rename?, h.name_eq, hread, hfolder, hblocked]
    rw [hmoved]
    exact .inl ⟨rfl, rfl, h.leaves_flushed.remove_temporary.put_name _⟩

/-- A file gets to its place, or finishing fails and the temporary file stays, or the file is given
up and nothing stays. -/
theorem endBy_cases (h : file.Holds before name fs) (ending : Ending) :
    (ending = .finished none ∧ before.isFolder name = false ∧ (file.endBy ending).2 = true ∧
      Leaves before name (some (.file (Collection.document fs))) none (file.endBy ending).1) ∨
    (∃ failing, ending = .finished failing ∧ (failing = none → before.isFolder name = true) ∧
      (file.endBy ending).2 = false ∧ ∃ text,
        Leaves before name (before.lookup? name) (some (.file text)) (file.endBy ending).1) ∨
    ((∀ failing, ending ≠ .finished failing) ∧ (file.endBy ending).2 = false ∧
      Leaves before name (before.lookup? name) none (file.endBy ending).1) := by
  cases ending with
  | refused => exact .inr (.inr ⟨nofun, rfl, h.leaves_drop⟩)
  | dropped => exact .inr (.inr ⟨nofun, rfl, h.leaves_drop⟩)
  | finished failing =>
    match failing with
    | some .footer | some .flush =>
      exact .inr (.inl ⟨_, rfl, nofun, rfl, _, h.leaves⟩)
    | some .sync | some .rename =>
      exact .inr (.inl ⟨_, rfl, nofun, rfl, _, h.leaves_flushed⟩)
    | none =>
      rcases h.finish_cases with ⟨hfree, hplaced, hleaves⟩ | ⟨hblocked, hfinish⟩
      · exact .inl ⟨rfl, hfree, hplaced, hleaves⟩
      · refine .inr (.inl ⟨none, rfl, fun _ => hblocked, ?_⟩)
        rw [endBy, ← finish, hfinish]
        exact ⟨rfl, _, h.leaves_flushed⟩

end Holds

/-- However a feature file is written and ends, it gets to its place just when every step of
finishing goes well and no folder has the name. There it is the complete collection of just what
has been written, and no temporary file is left; otherwise the place is as before. Only finishing
that fails leaves the temporary file, and that is the one case in which a file does not end
cleanly. -/
theorem endsCleanly_iff (h : create before name = .ok file) (portions : List Portion)
    (ending : Ending) :
    let fs := portions.flatMap Portion.features
    let after := (file.writeAll portions).endBy ending
    (after.2 = true ↔ ending = .finished none ∧ before.isFolder name = false) ∧
    (after.2 = true → after.1.read? name = some (Collection.document fs) ∧
      after.1.lookup? (temporaryName name) = none) ∧
    (after.2 = false → after.1.lookup? name = before.lookup? name) ∧
    (∀ other, other ≠ name → other ≠ temporaryName name →
      after.1.lookup? other = before.lookup? other) ∧
    (EndsCleanly before name fs after ↔ ∀ failing, ending = .finished failing → after.2 = true) := by
  intro fs after
  rcases (holds_writeAll h portions).endBy_cases ending with
    ⟨hending, hfree, hplaced, hleaves⟩ | ⟨failing, hending, hblocked, hfailed, text, hleaves⟩ |
    ⟨hending, hfailed, hleaves⟩
  · have hread : after.1.read? name = some (Collection.document fs) := by
      rw [Folder.read?, hleaves.lookup?_name]
    have hnot : ¬after.2 = false := ne_false_of_eq_true hplaced
    refine ⟨iff_of_true hplaced ⟨hending, hfree⟩, fun _ => ⟨hread, hleaves.lookup?_temporary⟩,
      fun hf => absurd hf hnot, hleaves.lookup?_other, iff_of_true ?_ fun _ _ => hplaced⟩
    exact ⟨fun _ => hread, fun hf => absurd hf hnot, fun hf => absurd hf hnot⟩
  · have hnot : ¬after.2 = true := ne_true_of_eq_false hfailed
    refine ⟨iff_of_false hnot ?_, fun ht => absurd ht hnot, fun _ => hleaves.lookup?_name,
      hleaves.lookup?_other, iff_of_false ?_ fun hall => hnot (hall failing hending)⟩
    · rintro ⟨hnone, hfree⟩
      obtain rfl := Ending.finished.inj (hending.symm.trans hnone)
      rw [hblocked rfl] at hfree
      cases hfree
    · intro hclean
      have hgone := hclean.tidy hfailed
      rw [hleaves.lookup?_temporary] at hgone
      cases hgone
  · have hnot : ¬after.2 = true := ne_true_of_eq_false hfailed
    refine ⟨iff_of_false hnot fun hfinished => hending none hfinished.1,
      fun ht => absurd ht hnot, fun _ => hleaves.lookup?_name, hleaves.lookup?_other,
      iff_of_true ?_ fun failing hfinished => absurd hfinished (hending failing)⟩
    exact ⟨fun ht => absurd ht hnot, fun _ => hleaves.lookup?_name,
      fun _ => hleaves.lookup?_temporary⟩

theorem endsCleanly_iff_oneDuplicate :
    ∃ file, create Folder.empty "unconnected_ways.json" = .ok file ∧
      ((file.writeAll [.findings [.duplicate ⟨[⟨50, 8⟩, ⟨50, 9⟩], some 100, none, 2⟩]]).endBy
        (.finished none)).1.read? "unconnected_ways.json" =
        some (Collection.document
          [Feature.ofDuplicate ⟨[⟨50, 8⟩, ⟨50, 9⟩], some 100, none, 2⟩]) := by
  have hcreate := create_eq_ok_iff.mpr ⟨show isNested "unconnected_ways.json" = false by decide,
    show Folder.empty.isFolder (temporaryName "unconnected_ways.json") = false from rfl, rfl⟩
  obtain ⟨hplaced, hread, -⟩ := endsCleanly_iff hcreate
    [.findings [.duplicate ⟨[⟨50, 8⟩, ⟨50, 9⟩], some 100, none, 2⟩]] (.finished none)
  exact ⟨_, hcreate, (hread (hplaced.mpr ⟨rfl, rfl⟩)).1⟩

def blockedFolder : Folder String := ⟨[("unconnected_ways.json", .folder)]⟩

/-- Where a folder has the name of the findings, their temporary file stays. -/
theorem blockedFolder_not_endsCleanly :
    ∃ file, create blockedFolder "unconnected_ways.json" = .ok file ∧
      ¬EndsCleanly blockedFolder "unconnected_ways.json" [] (file.endBy (.finished none)) := by
  have hcreate := create_eq_ok_iff.mpr ⟨show isNested "unconnected_ways.json" = false by decide,
    show blockedFolder.isFolder (temporaryName "unconnected_ways.json") = false by decide, rfl⟩
  refine ⟨_, hcreate, fun hclean => ?_⟩
  have hholds := holds_writeAll hcreate []
  rcases hholds.finish_cases with ⟨hfree, -⟩ | ⟨-, hfinish⟩
  · exact absurd hfree (by decide)
  · have hgone := hclean.tidy (congrArg Prod.snd hfinish)
    have hleft := hholds.leaves_flushed.lookup?_temporary
    have hmoved := congrArg (·.1.lookup? (temporaryName "unconnected_ways.json")) hfinish
    exact absurd (hleft.symm.trans (hmoved.symm.trans hgone)) nofun

end FeatureFile
end RoadAudit
