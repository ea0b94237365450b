import RoadAudit.CommandLine.Session

/-! # The program

Reads what there is at the paths of a run and writes what the run has changed. -/

namespace RoadAudit.Program

def usageLines : List String :=
  ["Usage: thistle [OPTIONS] <INPUT_FILE> <GRAPH_DIRECTORY> <OUTPUT_DIRECTORY>",
    "",
    "Options:",
    "  -d, --do-routing                Compare network and beeline distance on paths",
    "  -r, --radius <METERS>           Search radius around dead ends [default: 15]",
    "  -w, --worker-threads <COUNT>    [default: 2]",
    "      --batch-size <NODES>        Nodes per job [default: 1000]",
    "      --min-network-size <NODES>  Smaller subnetworks are removed [default: 200]",
    "      --priorities <FILE>         Priority table overrides",
    "  -v, --verbose",
    "  -h, --help",
    "  -V, --version"]

def usage : String := String.join (usageLines.map (· ++ "\n"))

def version : String := "thistle 0.1.0"

def located (path : String) := (IO.FS.DirEntry.mk "." path).path

def inFolder (folder name : String) : String := folder ++ "/" ++ name

def bytes? (path : String) : IO (Option (List UInt8)) := do
  try return some (← IO.FS.readBinFile (located path)).toList
  catch _ => return none

def text? (path : String) : IO (Option String) := do
  try return some (← IO.FS.readFile (located path))
  catch _ => return none

def entry {κ : Type} (content : String → IO κ) (folder name : String) :
    IO (Option (String × FolderEntry κ)) := do
  let path := inFolder folder name
  if ← (located path).isDir then return some (name, .folder)
  else if ← (located path).pathExists then return some (name, .file (← content path))
  else return none

/-- What there is at a path, of a folder only the given names. -/
def place {κ : Type} (content : String → IO κ) (names : List String) (path : String) :
    IO (Place κ) := do
  if ← (located path).isDir then
    return .folder ⟨(← names.mapM (entry content path)).filterMap id⟩
  else if ← (located path).pathExists then return .file
  else return .absent

/-- A file written beside its place and then moved there. -/
def writeFile (path : String) (bytes : ByteArray) : IO Unit := do
  let beside := path ++ ".part"
  IO.FS.writeBinFile (located beside) bytes
  IO.FS.rename (located beside) (located path)

/-- The changes from one state of a folder to another made at its path. -/
def apply {κ : Type} [BEq κ] (encode : κ → ByteArray) (path : String) (old new : Place κ) :
    IO Unit := do
  match new with
  | .folder f =>
    IO.FS.createDirAll (located path)
    for name in old.contents.names do
      if old.contents.isFile name && !f.isFile name then
        IO.FS.removeFile (located (inFolder path name))
    for name in f.names.reverse do
      match f.read? name with
      | some content =>
        if old.contents.read? name != some content then
          writeFile (inFolder path name) (encode content)
      | none => pure ()
  | _ => pure ()

def resultNames : List String :=
  [Session.islandFile, Session.findingFile].flatMap fun name =>
    [name, FeatureFile.temporaryName name]

def storedNames : List String :=
  [RoadNetwork.graphFile, RoadNetwork.nodeIdFile, RoadNetwork.wayIdFile,
    RoadNetwork.partialGraphFile]

def workspace (o : Options) : IO Workspace := do
  return {
    extract := match ← bytes? o.input with
      | some bytes => Extract.ofBytes bytes
      | none => .missing
    storage := ← place (fun path => return (← bytes? path).getD []) storedNames o.storage
    output := ← place (fun _ => return "") resultNames o.output
    overrides := ← match o.priorities with
      | some path => text? path
      | none => pure none }

def run (o : Options) : IO ExitStatus := do
  let w ← workspace o
  let (after, result) := o.run w
  apply (fun bytes => ⟨bytes.toArray⟩) o.storage w.storage after.storage
  apply String.toUTF8 o.output w.output after.output
  match result with
  | .ok _ => return .success
  | .error e =>
    IO.eprintln e.message
    return e.exitStatus

end RoadAudit.Program

open RoadAudit in
def main (arguments : List String) : IO UInt32 := do
  let settings ← OptionName.ofEnvironment.filterMapM fun o => do
    match o.environmentName? with
    | some name => return (← IO.getEnv name).map (name, ·)
    | none => return none
  let status ← match Options.read (fun name => settings.lookup name) arguments with
    | .ok o => Program.run o
    | .error stop => do
      match stop with
      | .help => IO.print Program.usage
      | .version => IO.println Program.version
      | .invalid => IO.eprint Program.usage
      pure stop.exitStatus
  return status.code.toUInt32
