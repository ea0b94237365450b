import RoadAudit.Batch.Outcome
import RoadAudit.Feature.Collection
import RoadAudit.Files.Folder

/-! # Feature files

A collection is written to a temporary file beside its place and moved there once it is complete.
A file that is dropped before that takes its temporary file along. -/

namespace RoadAudit

/-- A feature file that is being written into a folder. -/
structure FeatureFile where
  name : String
  folder : Folder String
  collection : Collection

/-- The steps of finishing a file, each of which may fail. -/
inductive FinishStep where
  | footer
  | flush
  | sync
  | rename
deriving DecidableEq, Repr

/-- Why a feature file cannot be opened. -/
inductive OpenError where
  /-- The folder of the file is not there. -/
  | notFound
  /-- A folder has the name of the temporary file. -/
  | isFolder
deriving DecidableEq, Repr

namespace FeatureFile

def temporaryName (name : String) : String := name ++ ".tmp"

def isNested (name : String) : Bool := name.toList.contains '/'

/-- A new file; its temporary file is there at once. -/
def create (folder : Folder String) (name : String) : Except OpenError FeatureFile :=
  if isNested name then .error .notFound
  else
    match folder.write? (temporaryName name) "" with
    | none => .error .isFolder
    | some folder => .ok ⟨name, folder, Collection.start⟩

def add (f : FeatureFile) (feature : Feature) : FeatureFile :=
  { f with collection := f.collection.add feature }

def addFindings (f : FeatureFile) (fs : List (Finding Float)) : FeatureFile :=
  { f with collection := f.collection.addFindings fs }

def drop (f : FeatureFile) : Folder String := f.folder.remove (temporaryName f.name)

def flushed (f : FeatureFile) : Folder String :=
  f.folder.put (temporaryName f.name) (.file f.collection.close)

/-- The folder after the file has been closed and moved to its place, and whether that went well.
Once closing has begun, a failure leaves the temporary file where it is. -/
def finishWith (f : FeatureFile) (failing : Option FinishStep) : Folder String × Bool :=
  match failing with
  | some .footer | some .flush => (f.folder, false)
  | some .sync | some .rename => (f.flushed, false)
  | none =>
    match f.flushed.rename? (temporaryName f.name) f.name with
    | some folder => (folder, true)
    | none => (f.flushed, false)

/-- The folder after the file has been finished, and whether it is in its place; it is not where a
folder has its name. -/
def finish (f : FeatureFile) : Folder String × Bool := f.finishWith none

def findingSink : FindingSink FeatureFile Float := ⟨fun f fs => .ok (f.addFindings fs)⟩

def featureSink : FeatureSink FeatureFile := ⟨fun f feature => .ok (f.add feature)⟩

end FeatureFile

end RoadAudit
