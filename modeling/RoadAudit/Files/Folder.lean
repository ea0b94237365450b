/-! # Folders

The contents of one folder as a value: names with files or, as obstacles, further folders. Names
are listed in ascending order. -/

namespace RoadAudit

/-- What a name stands for; `κ` is what a file holds. -/
inductive FolderEntry (κ : Type) where
  | file (content : κ)
  | folder

/-- The entries of a folder; of equal names the first counts. -/
structure Folder (κ : Type) where
  entries : List (String × FolderEntry κ)

namespace Folder

variable {κ : Type}

def empty : Folder κ := ⟨[]⟩

def lookup? (f : Folder κ) (name : String) : Option (FolderEntry κ) :=
  (f.entries.find? fun e => e.1 == name).map (·.2)

def read? (f : Folder κ) (name : String) : Option κ :=
  match f.lookup? name with
  | some (.file content) => some content
  | _ => none

def isFile (f : Folder κ) (name : String) : Bool := (f.read? name).isSome

def isFolder (f : Folder κ) (name : String) : Bool :=
  match f.lookup? name with
  | some .folder => true
  | _ => false

def remove (f : Folder κ) (name : String) : Folder κ :=
  ⟨f.entries.filter fun e => e.1 != name⟩

def put (f : Folder κ) (name : String) (e : FolderEntry κ) : Folder κ :=
  ⟨(name, e) :: (f.remove name).entries⟩

/-- The folder after a file has been written, unless a folder has its name. -/
def write? (f : Folder κ) (name : String) (content : κ) : Option (Folder κ) :=
  if f.isFolder name then none else some (f.put name (.file content))

/-- The folder after a file has got another name; a file of that name is replaced, a folder is
not. -/
def rename? (f : Folder κ) (old new : String) : Option (Folder κ) :=
  match f.read? old with
  | none => none
  | some content => if f.isFolder new then none else some ((f.remove old).put new (.file content))

def names (f : Folder κ) : List String :=
  (f.entries.map (·.1)).mergeSort fun a b => decide (a ≤ b)

theorem lookup?_put_self (f : Folder κ) (name : String) (e : FolderEntry κ) :
    (f.put name e).lookup? name = some e := by
  simp [put, lookup?]

theorem lookup?_put_of_ne (f : Folder κ) {name other : String} (e : FolderEntry κ)
    (h : name ≠ other) : (f.put name e).lookup? other = f.lookup? other := by
  have keep : ∀ es : List (String × FolderEntry κ),
      (es.filter fun x => x.1 != name).find? (fun x => x.1 == other)
        = es.find? fun x => x.1 == other := by
    intro es
    rw [List.find?_filter]
    congr 1
    funext x
    by_cases hx : x.1 = other
    · subst hx; simp [Ne.symm h]
    · simp [hx]
  simp [put, lookup?, remove, h, keep]

end Folder

/-- What may be found at a path. -/
inductive Place (κ : Type) where
  | absent
  | file
  | folder (f : Folder κ)

namespace Place

variable {κ : Type}

/-- The folder at a path, which is made if nothing is there. -/
def open? : Place κ → Option (Folder κ)
  | absent => some Folder.empty
  | file => none
  | folder f => some f

def contents : Place κ → Folder κ
  | folder f => f
  | _ => Folder.empty

end Place

end RoadAudit
