import Blueprints.Cli.Arguments
import Blueprints.Compile
import Blueprints.Graph.Edit
import Blueprints.Storage.Project
import Blueprints.Time.Duration

/-! # Running commands

    A command works on a host and leaves a transcript: what it writes to the
    standard output and the standard error output, and a code that tells
    whether it failed. -/

namespace Blueprints.Cli

/-- Where a command runs. -/
class Host (m : Type → Type) extends Disk m where
  /-- The time. -/
  now : m Time.Timestamp
  /-- The nanoseconds since the command started. -/
  elapsed : m Nat

/-- What a command has written. -/
structure Transcript where
  out : String := ""
  err : String := ""
  deriving DecidableEq, Repr

/-- What is left of a command. -/
structure Outcome where
  exit : Nat
  transcript : Transcript
  deriving DecidableEq, Repr

/-- A command that may fail with a message. -/
abbrev Running (m : Type → Type) := ExceptT String (StateT Transcript m)

section

variable {m : Type → Type} [Monad m] [Host m]

/-- Asks the host. -/
def ask {α : Type} (act : m α) : Running m α := ExceptT.lift (StateT.lift act)

/-- Writes to the standard output. -/
def say (text : String) : Running m Unit :=
  modify fun t => { t with out := t.out ++ text }

/-- Writes a line to the standard error output. -/
def warn (text : String) : Running m Unit :=
  modify fun t => { t with err := t.err ++ text ++ "\n" }

/-- Goes on with a result; a failure is put behind what was to be done. -/
def orFail {ε α : Type} (aim : String) (message : ε → String) : Except ε α → Running m α
  | .ok a => pure a
  | .error e => throw (aim ++ ": " ++ message e)

/-- Does something with stored things. -/
def attempt {α : Type} (aim : String) (act : ExceptT StorageError m α) : Running m α := do
  orFail aim StorageError.message (← ask act.run)

/-- Does something with a file. -/
def attemptDisk {α : Type} (aim : String) (act : m (Except DiskError α)) : Running m α := do
  orFail aim DiskError.message (← ask act)

/-- The catalog of a project. -/
def catalogOf (p : ProjectFolder) : Running m Catalog :=
  attempt "Failed to load node catalog" p.loadCatalog

/-- Writes a text to a file, or to the standard output. -/
def writeOutput (out : Option String) (text : String) : Running m Unit :=
  match out with
  | some path => attemptDisk s!"Failed to write '{path}'" (Disk.writeText path text)
  | none => say text

/-- The text for the time since the command started. -/
def elapsedText : Running m String := do
  return Time.durationText (← ask Host.elapsed)

/-- Compiles one document. -/
def runCompile (p : ProjectFolder) (options : Options) (input : String) (out : Option String)
    (json : Bool) : Running m Unit := do
  let text ← attemptDisk s!"Failed to read blueprint file '{input}'" (Disk.readText input)
  let document ← orFail s!"Failed to load blueprint '{input}'" DocumentError.message
    (Document.deserialize text)
  let catalog ← catalogOf p
  let program := compileDocument document catalog options (← ask Host.now).offsetText
  writeOutput out program.source
  if json then
    let report := (compileReport document program).pretty
    if out.isSome then say (report ++ "\n") else warn report
  else
    for d in program.diagnostics do
      warn ("warning: " ++ d.text)
  let elapsed ← elapsedText
  warn s!"Compiled '{document.name}' in {elapsed}"

/-- Writes a file of a project. -/
def persistFile (p : ProjectFolder) (name text : String) : Running m Unit := do
  let path ← attempt s!"Failed to write '{name}'" (p.persist name text)
  say s!"Wrote {path}\n"

/-- Writes the units of a build, each under its file name, and tells what there
    is to report about it. -/
def writeUnits (p : ProjectFolder) (units : List CompiledUnit) : Running m Unit := do
  for u in units do
    persistFile p u.fileName u.program.source
    for d in u.program.diagnostics do
      warn s!"warning: {u.fileName}: {d.text}"

/-- The documents of a project. -/
def loadAll (p : ProjectFolder) (names : List String) : Running m (List Document) :=
  names.mapM fun name => attempt s!"Failed to load blueprint '{name}'" (p.loadBlueprint name)

/-- A catalog with the definitions of documents. -/
def mergeAll (catalog : Catalog) (documents : List Document) : Catalog :=
  documents.foldl (fun c d => (c.merge d.definitions).2) catalog

/-- A text without any `./` in front of it. -/
def dropHere : List Char → List Char
  | '.' :: '/' :: cs => dropHere cs
  | cs => cs

/-- Compiles all documents of a project. -/
def runBuild (p : ProjectFolder) (options : Options) : Running m Unit := do
  let catalog ← catalogOf p
  let names ← attempt "Failed to list blueprints" p.listBlueprints
  if names.isEmpty then
    say s!"No blueprints found under {p.blueprintsPath}\n"
  else
    let documents ← loadAll p names
    let time := (← ask Host.now).offsetText
    let project := compileProject (documents.map Document.blueprint) (mergeAll catalog documents)
      options time
    writeUnits p project.units
    if let some library := project.helperLibrary then
      persistFile p (String.ofList (dropHere options.helperModule.toList) ++ ".ts") library
    let elapsed ← elapsedText
    say s!"Built {project.units.length} blueprint(s) in {elapsed}\n"

/-- A text with blanks behind it up to a width. -/
def padded (width : Nat) (s : String) : String :=
  s ++ String.ofList (List.replicate (width - s.length) ' ')

/-- Lists the catalog of a project. -/
def runCatalog (p : ProjectFolder) : Running m Unit := do
  for (category, definitions) in (← catalogOf p).groups do
    say (category ++ "\n")
    for d in definitions do
      say s!"  {padded 20 d.id} {d.name}\n"

/-- Makes a document with the entry nodes of a kind. -/
def runNew (p : ProjectFolder) (name : String) (kind : BlueprintKind) : Running m Unit := do
  if FileName.isValid name then
    let catalog ← catalogOf p
    let document := Document.withCatalog (.scaffold name kind catalog) catalog (← ask Host.now)
    let path ← attempt "Failed to save blueprint" (p.saveDocument document)
    say s!"Created {kind.name} blueprint at {path}\n"
  else throw s!"'{name}' is not a valid blueprint name"

/-- The options of an invocation. -/
def optionsOf (i : Invocation) : Running m Options := do
  let options ← match i.options with
    | some path => attempt s!"Failed to load options '{path}'" (Options.load path)
    | none => pure {}
  return if i.inlineHelpers then { options with helperMode := .inlined } else options

/-- Runs an invocation. -/
def Invocation.run (i : Invocation) : Running m Unit := do
  let p : ProjectFolder := ⟨i.project⟩
  let options ← optionsOf i
  match i.command with
  | .compile input out json => runCompile p options input out json
  | .build => runBuild p options
  | .helpers out => writeOutput out Helper.library
  | .catalog => runCatalog p
  | .new name kind => runNew p name kind

/-- How the program is used. -/
def usageText : String :=
  "Usage: bgc [OPTIONS] <COMMAND>\n\nCommands: compile, build, helpers, catalog, new\n"

/-- The name and version of the program. -/
def versionText : String := "bgc 0.1.0\n"

/-- Runs a command line. -/
def runArguments (args : List String) : m Outcome := do
  match parse args with
  | .error .usage => return ⟨2, { err := usageText }⟩
  | .error .help => return ⟨0, { out := usageText }⟩
  | .error .version => return ⟨0, { out := versionText }⟩
  | .ok i =>
    let (result, transcript) ← (i.run : Running m Unit).run.run {}
    match result with
    | .ok () => return ⟨0, transcript⟩
    | .error message =>
      return ⟨1, { transcript with err := transcript.err ++ s!"\nError: {message}\n" }⟩

end

end Blueprints.Cli
