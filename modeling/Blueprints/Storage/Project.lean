import Blueprints.Catalog.Palette
import Blueprints.Document
import Blueprints.Options
import Blueprints.Storage.Disk
import Blueprints.Storage.FileName

/-! # Project folders

    A project folder has a catalog, a folder of blueprints and a folder of
    generated scripts.  Blueprints are referred to by their names, with or
    without the extension. -/

namespace Blueprints

/-- Why something was not loaded or saved. -/
inductive StorageError where
  | document (e : DocumentError)
  | notReadable (fault : Json.Fault)
  | invalidFileName (name : String)
  | disk (path : String) (e : DiskError)
  deriving DecidableEq, Repr

/-- Why something was not loaded or saved, in words. -/
def StorageError.message : StorageError → String
  | .document e => e.message
  | .notReadable fault => "Failed to parse blueprint JSON: " ++ fault.message
  | .invalidFileName name => s!"Invalid file name '{name}'"
  | .disk path e => s!"I/O error on '{path}': {e.message}"

/-- A project, by the path of its folder. -/
structure ProjectFolder where
  root : String
  deriving DecidableEq, Repr

/-- The extension of blueprint files. -/
def blueprintExtension : String := "bp"

/-- Whether a file name is that of a blueprint. -/
def isBlueprintFile (name : String) : Bool :=
  FileName.extension? name == some blueprintExtension

/-- Reads options. -/
def Options.read (text : String) : Except StorageError Options :=
  (Options.parse text).mapError .notReadable

/-- Reads a list of definitions as a catalog. -/
def Catalog.read (text : String) : Except StorageError Catalog :=
  match Json.Reader.run (.list Definition.reader) text with
  | .ok definitions => .ok (.ofList definitions)
  | .error fault => .error (.notReadable fault)

/-- Reads a document. -/
def Document.read (text : String) : Except StorageError Document :=
  (Document.deserialize text).mapError .document

/-- Puts a text in order among texts in ascending order. -/
def insertName (s : String) : List String → List String
  | [] => [s]
  | t :: rest => if s ≤ t then s :: t :: rest else t :: insertName s rest

/-- Texts in ascending order. -/
def sortNames (names : List String) : List String := names.foldr insertName []

section

variable {m : Type → Type} [Monad m] [Disk m]

/-- What a disk is asked for, with the path in the error. -/
def onDisk {α : Type} (path : String) (act : String → m (Except DiskError α)) :
    ExceptT StorageError m α :=
  ExceptT.mk do return (← act path).mapError (.disk path)

namespace ProjectFolder

/-- The file of the catalog. -/
def catalogPath (p : ProjectFolder) : String := joinPath p.root "catalog.json"

/-- The folder of the blueprints. -/
def blueprintsPath (p : ProjectFolder) : String := joinPath p.root "blueprints"

/-- The folder of the generated scripts. -/
def scriptsPath (p : ProjectFolder) : String := joinPath p.root "scripts"

/-- The file of a blueprint. -/
def blueprintPath (p : ProjectFolder) (reference : String) : String :=
  let ending := "." ++ blueprintExtension
  joinPath p.blueprintsPath
    (if ending.toList.isSuffixOf reference.toList then reference else reference ++ ending)

/-- The catalog of a project, the built-in one if it has none. -/
def loadCatalog (p : ProjectFolder) : ExceptT StorageError m Catalog := do
  if ← (Disk.holds p.catalogPath : m Bool) then
    Catalog.read (← onDisk p.catalogPath Disk.readText)
  else return .builtin

/-- The document of a blueprint. -/
def loadBlueprint (p : ProjectFolder) (reference : String) : ExceptT StorageError m Document := do
  if FileName.isValid reference then
    Document.read (← onDisk (p.blueprintPath reference) Disk.readText)
  else throw (.invalidFileName reference)

/-- Writes a file under a name, a blueprint among the blueprints and
    anything else among the scripts; its path. -/
def persist (p : ProjectFolder) (name text : String) : ExceptT StorageError m String := do
  if FileName.isValid name then
    let folder := if isBlueprintFile name then p.blueprintsPath else p.scriptsPath
    onDisk folder Disk.makeFolders
    let path := joinPath folder name
    onDisk path (Disk.writeText · text)
    return path
  else throw (.invalidFileName name)

/-- The file name of a document. -/
def documentFile (d : Document) : String :=
  (if Text.isBlankText d.name then "blueprint" else d.name) ++ "." ++ blueprintExtension

/-- Writes a document under its name; its path. -/
def saveDocument (p : ProjectFolder) (d : Document) : ExceptT StorageError m String :=
  p.persist (documentFile d) d.serialize

/-- The names of the blueprints of a project, in order. -/
def listBlueprints (p : ProjectFolder) : ExceptT StorageError m (List String) := do
  if ← (Disk.holds p.blueprintsPath : m Bool) then
    let names ← onDisk p.blueprintsPath Disk.list
    return sortNames ((names.filter isBlueprintFile).map FileName.stem)
  else return []

end ProjectFolder

/-- Loads options from a file. -/
def Options.load (path : String) : ExceptT StorageError m Options := do
  Options.read (← onDisk path Disk.readText)

end

end Blueprints
