import RoadAudit.Numeric.Reading
import RoadAudit.Numeric.Word

/-! # Arguments

The command line and the environment as options. Arguments are read from the left, and the first
that settles the matter ends the reading: one that is wrong, or one that asks for help or for the
version. An option that is not given may be set by a variable of the environment. -/

namespace RoadAudit

/-- The options, those without a value first. -/
inductive OptionName where
  | help
  | version
  | doRouting
  | verbose
  | radius
  | workers
  | batchSize
  | minNetworkSize
  | priorities
deriving DecidableEq, Repr

namespace OptionName

def ofLetter? : Char → Option OptionName
  | 'h' => some help
  | 'V' => some version
  | 'd' => some doRouting
  | 'v' => some verbose
  | 'r' => some radius
  | 'w' => some workers
  | _ => none

def ofWord? : String → Option OptionName
  | "help" => some help
  | "version" => some version
  | "do-routing" => some doRouting
  | "verbose" => some verbose
  | "radius" => some radius
  | "worker-threads" => some workers
  | "batch-size" => some batchSize
  | "min-network-size" => some minNetworkSize
  | "priorities" => some priorities
  | _ => none

def takesValue : OptionName → Bool
  | help | version | doRouting | verbose => false
  | _ => true

def environmentName? : OptionName → Option String
  | doRouting => some "THISTLE_DO_ROUTING"
  | radius => some "THISTLE_RADIUS"
  | workers => some "THISTLE_WORKER_THREADS"
  | priorities => some "THISTLE_PRIORITIES"
  | _ => none

/-- The options that the environment can set. -/
def ofEnvironment : List OptionName := [doRouting, radius, workers, priorities]

def count? (value : String) : Option Nat := (readNat? value.toList).filter (· < Word.size64)

/-- A whole number of 32 bits, which may be a zero with a minus. -/
def batch? (value : String) : Option Nat :=
  (readInt? value.toList).bind fun n => if 0 ≤ n ∧ n < Word.size32 then some n.toNat else none

/-- Whether an option can have a value; a switch is on or off. -/
def accepts (o : OptionName) (value : String) : Bool :=
  match o with
  | help | version => false
  | doRouting | verbose => value == "true" || value == "false"
  | radius => (readFloat? value.toList).isSome
  | workers | minNetworkSize => (count? value).isSome
  | batchSize => (batch? value).isSome
  | priorities => !value.isEmpty

end OptionName

/-- Why the reading of arguments ends early. -/
inductive ArgumentStop where
  | invalid
  | help
  | version
deriving DecidableEq, Repr

/-- The arguments read so far. -/
structure Given where
  values : List (OptionName × String)
  paths : List String
  /-- An option whose value comes next. -/
  awaiting : Option OptionName
  /-- Whether all that follows is a path. -/
  pathsOnly : Bool
deriving DecidableEq, Repr

namespace Given

def start : Given := ⟨[], [], none, false⟩

def value? (g : Given) (o : OptionName) : Option String :=
  (g.values.find? fun v => v.1 = o).map (·.2)

/-- The arguments with one more option, which must not have been given before. -/
def addValue (g : Given) (o : OptionName) (value : String) : Except ArgumentStop Given :=
  match o with
  | .help => .error .help
  | .version => .error .version
  | o =>
    if (g.value? o).isSome || !o.accepts value then .error .invalid
    else .ok { g with values := (o, value) :: g.values, awaiting := none }

/-- The arguments with one more path; there are three at most, and none is empty. -/
def addPath (g : Given) (path : String) : Except ArgumentStop Given :=
  if path.isEmpty || 3 ≤ g.paths.length then .error .invalid
  else .ok { g with paths := g.paths ++ [path] }

/-- The arguments with the option of a long word, its value after an equals sign or to come. -/
def addWord (g : Given) (word : List Char) : Except ArgumentStop Given :=
  match OptionName.ofWord? (String.ofList (word.takeWhile (· != '='))) with
  | none => .error .invalid
  | some o =>
    match o.takesValue, word.dropWhile (· != '=') with
    | true, _ :: value => g.addValue o (String.ofList value)
    | true, [] => .ok { g with awaiting := some o }
    | false, _ :: _ => .error .invalid
    | false, [] => g.addValue o "true"

/-- The arguments with the options of some letters. What follows the letter of an option with a
value is that value, after an equals sign or without one. -/
def addLetters (g : Given) : List Char → Except ArgumentStop Given
  | [] => .ok g
  | c :: rest =>
    match OptionName.ofLetter? c with
    | none => .error .invalid
    | some o =>
      if o.takesValue then
        match rest with
        | [] => .ok { g with awaiting := some o }
        | '=' :: value => g.addValue o (String.ofList value)
        | value => g.addValue o (String.ofList value)
      else do addLetters (← g.addValue o "true") rest

/-- The arguments with one more. What looks like an option is no value of another one; two dashes
alone end the options. -/
def add (g : Given) (argument : String) : Except ArgumentStop Given :=
  if g.pathsOnly then g.addPath argument
  else
    match g.awaiting, argument.toList with
    | none, ['-', '-'] => .ok { g with pathsOnly := true }
    | none, '-' :: '-' :: word => g.addWord word
    | none, '-' :: c :: letters => g.addLetters (c :: letters)
    | none, _ => g.addPath argument
    | some _, '-' :: _ :: _ => .error .invalid
    | some o, _ => g.addValue o argument

def addVariable (environment : String → Option String) (g : Given) (o : OptionName) :
    Except ArgumentStop Given :=
  match g.value? o, o.environmentName?.bind environment with
  | none, some value => g.addValue o value
  | _, _ => .ok g

end Given

/-- What a run is told to do. -/
structure Options where
  input : String
  storage : String
  output : String
  doRouting : Bool
  verbose : Bool
  radius : Float
  workers : Nat
  batchSize : Nat
  minNetworkSize : Nat
  priorities : Option String

namespace Options

/-- The options that some arguments come to: three paths, and standard values for what is not
given. -/
def ofGiven? (g : Given) : Option Options :=
  match g.awaiting, g.paths with
  | none, [input, storage, output] =>
    some
      { input := input
        storage := storage
        output := output
        doRouting := g.value? .doRouting == some "true"
        verbose := g.value? .verbose == some "true"
        radius := ((g.value? .radius).bind fun v => readFloat? v.toList).getD 15
        workers := ((g.value? .workers).bind OptionName.count?).getD 2
        batchSize := ((g.value? .batchSize).bind OptionName.batch?).getD 1000
        minNetworkSize := ((g.value? .minNetworkSize).bind OptionName.count?).getD 200
        priorities := g.value? .priorities }
  | _, _ => none

/-- The options that a command line and an environment give. -/
def read (environment : String → Option String) (arguments : List String) :
    Except ArgumentStop Options := do
  let g ← arguments.foldlM Given.add Given.start
  if g.awaiting.isSome then .error .invalid
  else
    let g ← OptionName.ofEnvironment.foldlM (Given.addVariable environment) g
    match ofGiven? g with
    | some o => .ok o
    | none => .error .invalid

end Options

end RoadAudit
