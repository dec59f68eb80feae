import ModuleBundler.Store.Handles
import ModuleBundler.Path.Operations

/-!
# Stores of files

What a collection of files has to offer for its modules to be bundled. A single operation that fails
leaves the store as it was: its type gives no store for that case. The operations built from several
steps, `load`, `save` and `makeDirectories`, keep what the steps before the failing one did,
and so answer with a store whether they fail or not.
-/

namespace ModuleBundler

/-- How many handles of a store are open, and how many files it counts. -/
structure Stat where
  /-- The open handles. -/
  openHandles : Nat
  /-- The files. -/
  files : Nat
  deriving DecidableEq, Repr

/-- The operations of a store of files with states in `σ`. -/
class FileStore (σ : Type) where
  /-- Opens a file. -/
  openFile (path : Path) : σ → Except Error (Handle × σ)
  /-- Makes a file with nothing in it, or empties the file that stands there. -/
  create (path : Path) : σ → Except Error σ
  /-- Removes a file. -/
  remove (path : Path) : σ → Except Error σ
  /-- Makes a directory in a directory that exists. -/
  makeDirectory (path : Path) : σ → Except Error σ
  /-- The content of an open file. -/
  read (handle : Handle) : σ → Except Error Bytes
  /-- Replaces the content of an open file. -/
  write (handle : Handle) (bytes : Bytes) : σ → Except Error σ
  /-- Closes an open file. -/
  close (handle : Handle) : σ → Except Error σ
  /-- The canonical path an open file had when it was opened. -/
  realPath (handle : Handle) : σ → Except Error Path
  /-- The canonical path of what `relative` names from the directory `context`. -/
  resolve (context relative : Path) : σ → Except Error Path
  /-- Whether a path names a file. -/
  isFile (path : Path) : σ → Bool
  /-- How many handles are open, and how many files the store counts. -/
  stat : σ → Stat
  /-- A number of files that the store does not exceed. -/
  fileBound : σ → Nat

namespace FileStore

variable {σ : Type} [FileStore σ]

/-- The answer of an operation, and the store as it then stands. -/
def attempt {α : Type} (operation : σ → Except Error (α × σ)) (s : σ) : Except Error α × σ :=
  match operation s with
  | .ok (a, s') => (.ok a, s')
  | .error e => (.error e, s)

/-- Whether a change succeeds, and the store as it then stands. -/
def change (operation : σ → Except Error σ) (s : σ) : Except Error Unit × σ :=
  match operation s with
  | .ok s' => (.ok (), s')
  | .error e => (.error e, s)

/-- The written form of the path an open file had when it was opened. -/
def displayPath (handle : Handle) (s : σ) : Except Error String :=
  (realPath handle s).map Path.render

/-- The content of the file at `path`. The file is closed again also when it cannot be read. -/
def load (path : Path) (s : σ) : Except Error Bytes × σ :=
  match openFile path s with
  | .error e => (.error e, s)
  | .ok (handle, opened) =>
    match close handle opened with
    | .error e => (.error e, opened)
    | .ok closed => (read handle opened, closed)

/-- Makes or replaces the file at `path`. -/
def save (path : Path) (bytes : Bytes) (s : σ) : Except Error Unit × σ :=
  match create path s with
  | .error e => (.error e, s)
  | .ok created =>
    match openFile path created with
    | .error e => (.error e, created)
    | .ok (handle, opened) =>
      let (outcome, written) := change (write handle bytes) opened
      match close handle written with
      | .error e => (.error e, written)
      | .ok closed => (outcome, closed)

/-- Makes the directories named by `segments`, one below the other, from `above` down. What resolves
is left alone. -/
def descend (above : Path) : List String → σ → Except Error Unit × σ
  | [], s => (.ok (), s)
  | segment :: rest, s =>
    let next := above.child segment
    match resolve Path.root next s with
    | .ok _ => descend next rest s
    | .error _ =>
      match makeDirectory next s with
      | .ok made => descend next rest made
      | .error e => (.error e, s)

/-- Makes the directory at `path` and all that are missing above it. -/
def makeDirectories (path : Path) (s : σ) : Except Error Unit × σ :=
  if path.absolute then descend Path.root path.segments s
  else (invalid (.needsAbsolute path), s)

/-! ### Filling a store -/

/-- Puts a file at `path`, with the directories above it. -/
def put (path : Path) (bytes : Bytes) (s : σ) : Except Error Unit × σ :=
  match path.parent with
  | .error e => (.error e, s)
  | .ok directory =>
    match makeDirectories directory s with
    | (.error e, s') => (.error e, s')
    | (.ok _, s') => save path bytes s'

/-- Runs an action on each item in turn, up to the first failure. -/
def each {ι : Type} (action : ι → σ → Except Error Unit × σ) : List ι → σ → Except Error Unit × σ
  | [], s => (.ok (), s)
  | item :: rest, s =>
    match action item s with
    | (.error e, s') => (.error e, s')
    | (.ok _, s') => each action rest s'

/-- Makes directories, then puts files. -/
def fill (directories : List Path) (files : List (Path × Bytes)) (s : σ) : Except Error Unit × σ :=
  match each makeDirectories directories s with
  | (.error e, s') => (.error e, s')
  | (.ok _, s') => each (fun file ↦ put file.1 file.2) files s'

end FileStore

end ModuleBundler
