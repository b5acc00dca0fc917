import Blueprints.Storage.Disk

/-! # File trees — a disk in memory

    A file tree holds folders and files below one root.  A path is followed
    part by part, from the root if it is absolute and else from the working
    folder: each part but the last has to lead to a folder, `.` stays and
    `..` goes up, which at the root is to stay too. -/

namespace Blueprints

/-- The names that lead from the root to a place. -/
abbrev Location := List String

/-- Folders and files by location.  The root itself is not listed. -/
structure FileTree where
  /-- Where relative paths start. -/
  working : Location := []
  folders : List Location := []
  files : List (Location × String) := []
  deriving DecidableEq, Repr

/-- What stands at a location. -/
inductive FileEntry where
  | folder
  | file (text : String)
  deriving DecidableEq, Repr

/-- A path, taken apart. -/
structure PathParts where
  parts : List String
  isAbsolute : Bool
  /-- Whether a slash ends it. -/
  slashAtEnd : Bool
  deriving DecidableEq, Repr

/-- The texts between slashes. -/
def splitSlash : List Char → List (List Char)
  | [] => [[]]
  | c :: cs =>
    match splitSlash cs with
    | [] => [[c]]
    | part :: rest => if c == '/' then [] :: part :: rest else (c :: part) :: rest

/-- Takes a path apart. -/
def PathParts.of (path : String) : PathParts where
  parts := ((splitSlash path.toList).filter (!·.isEmpty)).map String.ofList
  isAbsolute := isAbsolutePath path
  slashAtEnd := endsInSlash path

namespace FileTree

/-- What stands at a location. -/
def entry? (t : FileTree) (loc : Location) : Option FileEntry :=
  if loc.isEmpty || t.folders.contains loc then some .folder
  else (t.files.lookup loc).map .file

/-- Follows the parts of a path from a location. -/
def follow (t : FileTree) (loc : Location) : List String → Except DiskError Location
  | [] => .ok loc
  | part :: rest =>
    match t.entry? loc with
    | none => .error .notFound
    | some (.file _) => .error .notDirectory
    | some .folder =>
      if part == "." then t.follow loc rest
      else if part == ".." then t.follow loc.dropLast rest
      else t.follow (loc ++ [part]) rest

/-- The location that a path leads to; nothing has to be there.  The empty
    path leads nowhere. -/
def locate (t : FileTree) (path : PathParts) : Except DiskError Location :=
  if path.isAbsolute then t.follow [] path.parts
  else if path.parts.isEmpty then .error .notFound
  else t.follow t.working path.parts

/-- The text of a file. -/
def readText (t : FileTree) (path : String) : Except DiskError String :=
  match t.locate (.of path) with
  | .error e => .error e
  | .ok loc =>
    match t.entry? loc with
    | none => .error .notFound
    | some .folder => .error .isDirectory
    | some (.file text) =>
      if (PathParts.of path).slashAtEnd then .error .notDirectory else .ok text

/-- Gives a location its text, in place of the one that it had. -/
def setFile (loc : Location) (text : String) :
    List (Location × String) → List (Location × String)
  | [] => [(loc, text)]
  | (l, old) :: rest =>
    if l == loc then (loc, text) :: rest else (l, old) :: setFile loc text rest

/-- Gives a file its text. -/
def writeText (t : FileTree) (path text : String) : Except DiskError FileTree :=
  match t.locate (.of path) with
  | .error e => .error e
  | .ok loc =>
    if t.entry? loc == some .folder || (PathParts.of path).slashAtEnd then .error .isDirectory
    else .ok { t with files := setFile loc text t.files }

/-- Makes one folder. -/
def makeFolder (t : FileTree) (path : PathParts) : Except DiskError FileTree :=
  match t.locate path with
  | .error e => .error e
  | .ok loc =>
    match t.entry? loc with
    | some _ => .error .alreadyExists
    | none => .ok { t with folders := t.folders ++ [loc] }

/-- Whether a path leads to a folder. -/
def isFolder (t : FileTree) (path : PathParts) : Bool :=
  match t.locate path with
  | .error _ => false
  | .ok loc => t.entry? loc == some .folder

/-- Makes a folder if there is none. -/
def ensureFolder (t : FileTree) (path : PathParts) : Except DiskError FileTree :=
  match t.makeFolder path with
  | .ok t => .ok t
  | .error e => if t.isFolder path then .ok t else .error e

/-- Makes a folder whose path has these parts, the last one first; where one
    that it stands in is missing, makes that one first. -/
def makeFoldersUp (t : FileTree) (isAbsolute : Bool) : List String → Except DiskError FileTree
  | [] => .ok t
  | part :: above =>
    let path : PathParts := ⟨(part :: above).reverse, isAbsolute, false⟩
    match t.makeFolder path with
    | .error .notFound =>
      match t.makeFoldersUp isAbsolute above with
      | .error e => .error e
      | .ok t => t.ensureFolder path
    | _ => t.ensureFolder path

/-- Makes a folder and those that it stands in. -/
def makeFolders (t : FileTree) (path : String) : Except DiskError FileTree :=
  let path := PathParts.of path
  t.makeFoldersUp path.isAbsolute path.parts.reverse

/-- The last name of a location that stands right below another. -/
def nameBelow? (loc below : Location) : Option String :=
  match below.getLast? with
  | some name => if below.dropLast == loc then some name else none
  | none => none

/-- The names in a folder. -/
def list (t : FileTree) (path : String) : Except DiskError (List String) :=
  match t.locate (.of path) with
  | .error e => .error e
  | .ok loc =>
    match t.entry? loc with
    | none => .error .notFound
    | some (.file _) => .error .notDirectory
    | some .folder =>
      .ok ((t.folders ++ t.files.map Prod.fst).filterMap (nameBelow? loc))

/-- Whether a path leads to a file or folder. -/
def holds (t : FileTree) (path : String) : Bool :=
  match t.locate (.of path) with
  | .error _ => false
  | .ok loc =>
    match t.entry? loc with
    | none => false
    | some .folder => true
    | some (.file _) => !(PathParts.of path).slashAtEnd

end FileTree

/-- The change that an attempt makes to a tree: none, if it fails. -/
def FileTree.attempt (change : FileTree → Except DiskError FileTree) :
    StateM FileTree (Except DiskError Unit) := fun t =>
  match change t with
  | .ok t => (.ok (), t)
  | .error e => (.error e, t)

instance : Disk (StateM FileTree) where
  readText path := fun t => (t.readText path, t)
  writeText path text := FileTree.attempt (·.writeText path text)
  makeFolders path := FileTree.attempt (·.makeFolders path)
  list path := fun t => (t.list path, t)
  holds path := fun t => (t.holds path, t)

end Blueprints
