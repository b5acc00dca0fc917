/-! # Disks

    What storage asks of the place where files are kept.  A disk may be the
    real one or a tree of files in memory; programs that store things are
    written for any. -/

namespace Blueprints

/-- Why a disk refused to do something. -/
inductive DiskError where
  | notFound
  | alreadyExists
  | notDirectory
  | isDirectory
  | other (reason : String)
  deriving DecidableEq, Repr

/-- Why a disk refused to do something, in words. -/
def DiskError.message : DiskError → String
  | .notFound => "No such file or directory (os error 2)"
  | .alreadyExists => "File exists (os error 17)"
  | .notDirectory => "Not a directory (os error 20)"
  | .isDirectory => "Is a directory (os error 21)"
  | .other reason => reason

/-- A place where files are kept under paths. -/
class Disk (m : Type → Type) where
  /-- The text of a file. -/
  readText (path : String) : m (Except DiskError String)
  /-- Gives a file its text. -/
  writeText (path text : String) : m (Except DiskError Unit)
  /-- Makes a folder, and those that it stands in. -/
  makeFolders (path : String) : m (Except DiskError Unit)
  /-- The names in a folder. -/
  list (path : String) : m (Except DiskError (List String))
  /-- Whether there is a file or folder. -/
  holds (path : String) : m Bool

/-- Whether a path starts at the root of all files. -/
def isAbsolutePath (path : String) : Bool := path.toList.head? == some '/'

/-- Whether a path ends in a slash. -/
def endsInSlash (path : String) : Bool := path.toList.getLast? == some '/'

/-- A path below another one; an absolute path stands alone. -/
def joinPath (base path : String) : String :=
  if isAbsolutePath path then path
  else if base.isEmpty || endsInSlash base then base ++ path
  else base ++ "/" ++ path

end Blueprints
