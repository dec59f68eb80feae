import ModuleBundler.Path.Basic
import ModuleBundler.Text.Utf8

/-!
# What can go wrong

An error says what happened, with the paths and names it happened to; `Error.message` puts it into
words. Errors keep the reason they arose from: a fault found on the way along a path is kept inside
the fault that names the path, and its words inside the words of the other.
-/

namespace ModuleBundler

/-- What the operating system answers when it refuses. It refuses nothing for the want of a right,
and every place has a name that is a text. -/
inductive OsFault where
  /-- There is no such file or directory. -/
  | notFound
  /-- Something stands there already. -/
  | alreadyExists
  /-- A file stands where a directory is needed. -/
  | notDirectory
  /-- A directory stands where a file is needed. -/
  | isDirectory
  /-- A name, or the whole path, is longer than the system takes. -/
  | nameTooLong
  /-- More symbolic links than the system follows. -/
  | tooManyLinks
  /-- The path holds the character that ends a path. -/
  | nulInName
  deriving DecidableEq, Repr

namespace OsFault

/-- The words of the system for a fault. -/
def message : OsFault → String
  | .notFound => "No such file or directory (os error 2)"
  | .alreadyExists => "File exists (os error 17)"
  | .notDirectory => "Not a directory (os error 20)"
  | .isDirectory => "Is a directory (os error 21)"
  | .nameTooLong => "File name too long (os error 36)"
  | .tooManyLinks => "Too many levels of symbolic links (os error 40)"
  | .nulInName => "file name contained an unexpected NUL byte"

end OsFault

/-- Why a path names nothing that can be used. `shown` is the path as the reader knows it. -/
inductive PathFault where
  /-- The path has no last segment. -/
  | noBasename (path : Path)
  /-- The path has nothing above it. -/
  | noParent (path : Path)
  /-- The path leads above the root, whatever stands on the disk. -/
  | ascendsPastRoot (path : Path)
  /-- The bytes of the path are no text. -/
  | notUtf8 (shown : String)
  /-- A step up from the root. -/
  | aboveRoot
  /-- A step up from a file. -/
  | ascendsFromFile (shown : String)
  /-- A step down from a file. -/
  | notDirectory (shown : String)
  /-- A directory has no entry of that name. -/
  | noEntry (directory name : String)
  /-- A path that runs through an entry that is gone. -/
  | removedNode
  /-- An entry cannot be named `..`. -/
  | namesParent (path : Path)
  /-- What should hold the entry is a file. -/
  | parentNotDirectory (path : Path)
  /-- What should hold the entry does not exist. -/
  | parentMissing (shown : String)
  /-- A file is needed. -/
  | notFile (shown : String)
  /-- A directory stands where a file is needed. -/
  | isDirectory (shown : String)
  /-- Directories are not removed. -/
  | removesDirectory (shown : String)
  /-- Nothing of that name stands there. -/
  | missing (path : Path)
  /-- Something of that name stands there already. -/
  | alreadyExists (path : Path)
  /-- Directories are made along absolute paths only. -/
  | needsAbsolute (path : Path)
  /-- A fault met on the way along `path`. -/
  | along (path : Path) (cause : PathFault)
  /-- A fault met on the way along `relative` from the directory `context`. -/
  | alongFrom (relative context : Path) (cause : PathFault)
  /-- The system refuses the path. -/
  | refused (shown : String) (cause : OsFault)
  /-- A request names something that is no file and holds no index file. -/
  | noIndexFile (request directory found : Path)
  /-- A package table refuses the request. -/
  | refusedPackage (request : String) (directory : Path)
  /-- A fault met while following an import of `importer`. -/
  | importedBy (cause : PathFault) (importer : Path)
  deriving DecidableEq, Repr

namespace PathFault

/-- The words for a fault; every fault but the outermost is announced as an invalid path. -/
def message : PathFault → String
  | .noBasename path => s!"'{path}' has no basename"
  | .noParent path => s!"'{path}' has no parent directory"
  | .ascendsPastRoot path => s!"'{path}' ascends past the root"
  | .notUtf8 shown => s!"{shown} is not valid UTF-8"
  | .aboveRoot => "cannot ascend past the root"
  | .ascendsFromFile shown => s!"cannot ascend from file '{shown}'"
  | .notDirectory shown => s!"'{shown}' is not a directory"
  | .noEntry directory name => s!"'{directory}' has no entry named '{name}'"
  | .removedNode => "path runs through a removed node"
  | .namesParent path => s!"{path}: cannot name an entry '..'"
  | .parentNotDirectory path => s!"{path}: parent is not a directory"
  | .parentMissing shown => s!"{shown}: parent directory does not exist"
  | .notFile shown => s!"{shown} is not a file"
  | .isDirectory shown => s!"{shown} is a directory"
  | .removesDirectory shown => s!"{shown} is a directory; directory removal is not supported"
  | .missing path => s!"{path} does not exist"
  | .alreadyExists path => s!"{path} already exists"
  | .needsAbsolute path => s!"mkdir_all needs an absolute path: {path}"
  | .along path cause => s!"{path}: invalid path: " ++ cause.message
  | .alongFrom relative context cause =>
    s!"{relative} from {context}: invalid path: " ++ cause.message
  | .refused shown cause => s!"{shown}: {cause.message}"
  | .noIndexFile request directory found =>
    s!"{request} from {directory} names {found}, which is not a file and has no index file"
  | .refusedPackage request directory => s!"{request} from {directory}"
  | .importedBy cause importer => cause.message ++ s!" (imported by {importer})"

end PathFault

/-- Why the content of a file cannot be had or changed. -/
inductive IoFault where
  /-- The system refuses. -/
  | os (cause : OsFault)
  /-- The handle is not open. -/
  | notOpen (handle : Nat)
  /-- The file that was opened at `path` is gone. -/
  | removed (path : Path)
  /-- The file behind the handle is gone. -/
  | removedTarget (handle : Nat)
  deriving DecidableEq, Repr

namespace IoFault

/-- The words for a fault. -/
def message : IoFault → String
  | .os cause => cause.message
  | .notOpen handle => s!"handle #{handle} is not open"
  | .removed path => s!"{path} was removed"
  | .removedTarget handle => s!"handle #{handle} points at a removed file"

end IoFault

/-- Why a reference to another module cannot be read out of a source. -/
inductive ReferenceFault where
  /-- An import statement that names no source. -/
  | noSource
  /-- The source, which begins at `start`, is no string literal with something in it. -/
  | notLiteral (start : Nat)
  /-- The source lies outside the file. -/
  | outside
  /-- The source is no text. -/
  | notUtf8 (cause : Utf8.Fault)
  deriving DecidableEq, Repr

namespace ReferenceFault

/-- The words for a fault. -/
def message : ReferenceFault → String
  | .noSource => "import statement without a source"
  | .notLiteral start => s!"expected a non-empty string literal at byte {start}"
  | .outside => "import source outside of the buffer"
  | .notUtf8 cause => s!"import source is not UTF-8: {cause.message}"

end ReferenceFault

/-- What can go wrong between an entry file and its bundle. -/
inductive Error where
  /-- A path names nothing that can be used. -/
  | invalidPath (cause : PathFault)
  /-- The content of a file cannot be had or changed. -/
  | io (cause : IoFault)
  /-- The references of the file at `path` cannot be read. -/
  | parse (path : Path) (cause : ReferenceFault)
  /-- The references of a file are asked for before it was read. -/
  | notParsed (path : Path)
  /-- Nothing says what a package request of `importer` stands for. -/
  | unsupportedImport (request : String) (importer : Path)
  deriving DecidableEq, Repr

namespace Error

/-- The words for an error. -/
def message : Error → String
  | .invalidPath cause => s!"invalid path: {cause.message}"
  | .io cause => s!"i/o error: {cause.message}"
  | .parse path cause => s!"parse error in {path}: {cause.message}"
  | .notParsed path => s!"file is not parsed: {path}"
  | .unsupportedImport request importer => s!"unsupported import '{request}' in {importer}"

/-- Whether the error is about a path. -/
def isInvalidPath : Error → Bool
  | .invalidPath _ => true
  | _ => false

end Error

/-- A failure because of a path. -/
def invalid {α : Type} (cause : PathFault) : Except Error α :=
  .error (.invalidPath cause)

end ModuleBundler
