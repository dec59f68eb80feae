import ModuleBundler.Disk.Calls
import ModuleBundler.Store.FileStore

/-!
# Files on a disk

A store that works on a disk through the operating system. A handle keeps the canonical place of its
file, and every reading or writing goes to whatever stands at that place then; the file may be gone
or made anew in between.

Faults that say that a path leads nowhere are faults of the path, as they are in memory; all others
are the system's. Absolute paths that leave the root are refused before the disk is asked, for the
system would let them stay at the root.
-/

namespace ModuleBundler

/-- A store on a disk. -/
structure DiskStore where
  /-- The disk. -/
  disk : Disk
  /-- The working directory, from which relative paths start. -/
  cwd : Place
  /-- The open files, by their place. -/
  handles : HandleTable Place := {}
  deriving DecidableEq, Repr

/-- Whether a fault says that a path leads nowhere, or to something else than it should. -/
def OsFault.isOfPath : OsFault → Bool
  | .notFound => true
  | .alreadyExists => true
  | .notDirectory => true
  | .isDirectory => false
  | .nameTooLong => false
  | .tooManyLinks => false
  | .nulInName => false

/-- The error for a fault met along a path. -/
def OsFault.along (fault : OsFault) (shown : String) : Error :=
  if fault.isOfPath then .invalidPath (.refused shown fault) else .io (.os fault)

namespace DiskStore

/-- The answer of the system to an operation along a path. -/
def asked {α : Type} (shown : String) : Except OsFault α → Except Error α
  | .ok a => .ok a
  | .error fault => .error (fault.along shown)

/-- The answer of the system to an operation on an open file. -/
def served {α : Type} : Except OsFault α → Except Error α
  | .ok a => .ok a
  | .error fault => .error (.io (.os fault))

/-- The place a path leads to. -/
def place (path : Path) (s : DiskStore) : Except Error Place := do
  if path.absolute then
    let _ ← path.normalize
  asked path.toOsText (s.disk.canonical s.cwd path.toOsText)

/-- The directory in whose text the last part of a path is not: `.` has the empty text, from which
the working directory is meant, and the root has none. -/
def textAbove? (path : Path) : Option String :=
  if path.segments.isEmpty then (if path.absolute then none else some "")
  else
    let above : Path := ⟨path.absolute, path.segments.dropLast⟩
    some above.toOsText

/-- Whether what should hold the file at a path is a directory. -/
def hasDirectoryAbove (path : Path) (s : DiskStore) : Bool :=
  match textAbove? path with
  | none => false
  | some above => above.isEmpty || s.disk.leadsToDirectory s.cwd above

/-- Opens a file. -/
def openFile (path : Path) (s : DiskStore) : Except Error (Handle × DiskStore) := do
  let target ← s.place path
  if s.disk.isFile target then
    let (handle, handles) := s.handles.insert ⟨target, target.path⟩
    return (handle, { s with handles })
  else invalid (.notFile target.text)

/-- Makes an empty file, or empties the file that stands there. -/
def create (path : Path) (s : DiskStore) : Except Error DiskStore := do
  let shown := path.toOsText
  if !s.hasDirectoryAbove path then invalid (.parentMissing shown)
  else if s.disk.leadsToDirectory s.cwd shown then invalid (.isDirectory shown)
  else return { s with disk := ← asked shown (s.disk.save s.cwd shown []) }

/-- Removes a file, or a link whatever it leads to. -/
def remove (path : Path) (s : DiskStore) : Except Error DiskStore := do
  let shown := path.toOsText
  match ← asked shown (s.disk.reach s.cwd shown .useItself) with
  | .found _ .directory => invalid (.removesDirectory shown)
  | _ => return { s with disk := ← asked shown (s.disk.unlink s.cwd shown) }

/-- Makes a directory. -/
def makeDirectory (path : Path) (s : DiskStore) : Except Error DiskStore := do
  let shown := path.toOsText
  return { s with disk := ← asked shown (s.disk.make s.cwd shown .directory) }

/-! ### Open files -/

/-- The content of an open file. -/
def read (handle : Handle) (s : DiskStore) : Except Error Bytes := do
  let file ← s.handles.get handle
  served (s.disk.contentAt s.cwd file.target.text)

/-- Replaces the content of an open file. -/
def write (handle : Handle) (bytes : Bytes) (s : DiskStore) : Except Error DiskStore := do
  let file ← s.handles.get handle
  return { s with disk := ← served (s.disk.save s.cwd file.target.text bytes) }

/-- Closes an open file. -/
def close (handle : Handle) (s : DiskStore) : Except Error DiskStore := do
  return { s with handles := ← s.handles.close handle }

/-- The canonical path an open file had when it was opened. -/
def realPath (handle : Handle) (s : DiskStore) : Except Error Path := do
  return (← s.handles.get handle).realPath

/-! ### Resolving -/

/-- One step from a canonical place. The place is asked for anew after every name, so that a step up
leads from where a link led to. -/
def step (s : DiskStore) (current : Place) (segment : String) : Except Error Place :=
  if segment = Path.parentName then
    if !s.disk.isDirectory current then invalid (.ascendsFromFile current.text)
    else if current.isEmpty then invalid .aboveRoot
    else .ok current.dropLast
  else if !s.disk.isDirectory current then invalid (.notDirectory current.text)
  else
    let next := Place.text (current ++ [segment])
    asked next (s.disk.canonical s.cwd next)

/-- The canonical path of what the segments of `relative` lead to from `context`. -/
def resolve (context relative : Path) (s : DiskStore) : Except Error Path := do
  let start ← s.place context
  let found ← relative.segments.foldlM s.step start
  return found.path

/-- Whether a path leads to a file. -/
def isFile (path : Path) (s : DiskStore) : Bool :=
  s.disk.leadsToFile s.cwd path.toOsText

/-- How many handles are open, and to how many files. -/
def stat (s : DiskStore) : Stat :=
  ⟨s.handles.size, ((s.handles.entries.map (·.2.target)).eraseDups).length⟩

instance : FileStore DiskStore where
  openFile := openFile
  create := create
  remove := remove
  makeDirectory := makeDirectory
  read := read
  write := write
  close := close
  realPath := realPath
  resolve := resolve
  isFile := isFile
  stat := stat
  fileBound s := s.disk.fileCount

end DiskStore

end ModuleBundler
