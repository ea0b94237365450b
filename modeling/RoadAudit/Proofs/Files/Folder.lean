import RoadAudit.Files.Folder

/-! # Writing and moving files

What is read after a file has been written or moved: the file itself under its name, and what has
another name as before. -/

namespace RoadAudit
namespace Folder

variable {κ : Type} {f g : Folder κ} {name other : String} {content : κ}

theorem lookup?_remove_of_ne (h : name ≠ other) :
    (f.remove name).lookup? other = f.lookup? other := by
  rw [← lookup?_put_of_ne f .folder h]
  simp [put, lookup?, h]

theorem lookup?_remove_self : (f.remove name).lookup? name = none := by
  simp [remove, lookup?, List.find?_filter]

theorem read?_put_self : (f.put name (.file content)).read? name = some content := by
  rw [read?, lookup?_put_self]

theorem read?_put_of_ne {e : FolderEntry κ} (h : name ≠ other) :
    (f.put name e).read? other = f.read? other := by
  rw [read?, read?, lookup?_put_of_ne f e h]

theorem read?_remove_of_ne (h : name ≠ other) : (f.remove name).read? other = f.read? other := by
  rw [read?, read?, lookup?_remove_of_ne h]

theorem put_put {e e' : FolderEntry κ} : (f.put name e).put name e' = f.put name e' := by
  simp [put, remove]

theorem isFolder_put_file_self : (f.put name (.file content)).isFolder name = false := by
  rw [isFolder, lookup?_put_self]

theorem isFolder_put_of_ne {e : FolderEntry κ} (h : name ≠ other) :
    (f.put name e).isFolder other = f.isFolder other := by
  rw [isFolder, isFolder, lookup?_put_of_ne f e h]

theorem isFolder_remove_of_ne (h : name ≠ other) :
    (f.remove name).isFolder other = f.isFolder other := by
  rw [isFolder, isFolder, lookup?_remove_of_ne h]

theorem write?_eq_some_iff : f.write? name content = some g ↔
    f.isFolder name = false ∧ g = f.put name (.file content) := by
  cases hfolder : f.isFolder name <;> simp [write?, hfolder, eq_comm]

theorem rename?_eq_some_iff (h : f.read? name = some content) :
    f.rename? name other = some g ↔
      f.isFolder other = false ∧ g = (f.remove name).put other (.file content) := by
  cases hfolder : f.isFolder other <;> simp [rename?, h, hfolder, eq_comm]

end Folder
end RoadAudit
