import ModuleBundler.Path.Os

/-!
# Disks

A disk as a program sees it that may read and write all of it: files, directories and symbolic
links, each at one place. A place is the list of names that leads to it from the root, through
directories only. The root is always there.

Names, and what links lead to, are texts. On a disk where some are not, a path could lead to a place
that no path of this library names, and to ask for that path is an error there (`Path.ofOs`); no
disk here gives this error, nor one for the want of a right.
-/

namespace ModuleBundler

/-- Where something stands on a disk: the names from the root. -/
abbrev Place := List String

/-- The path of a place. -/
def Place.path (p : Place) : Path := ⟨true, p⟩

/-- The text that names a place for the operating system. -/
def Place.text (p : Place) : String := (Place.path p).toOsText

/-- What stands at a place. -/
inductive DiskEntry where
  /-- A file. -/
  | file (content : Bytes)
  /-- A directory. -/
  | directory
  /-- A symbolic link, and the text that it leads to. -/
  | link (target : String)
  deriving DecidableEq, Repr

/-- Whether something is a file. -/
def DiskEntry.isFile : DiskEntry → Bool
  | .file _ => true
  | .directory => false
  | .link _ => false

/-- A disk. All names on it are texts, and all of it may be read and written. -/
structure Disk where
  /-- What stands at which place, apart from the root. -/
  entries : List (Place × DiskEntry) := []
  deriving DecidableEq, Repr, Inhabited

namespace Disk

/-- What stands at a place. -/
def entry? (d : Disk) (p : Place) : Option DiskEntry :=
  if p = [] then some .directory else d.entries.lookup p

/-- The disk without what stands at a place. -/
def erase (d : Disk) (p : Place) : Disk :=
  ⟨d.entries.filter (·.1 != p)⟩

/-- The disk with something else at a place. -/
def put (d : Disk) (p : Place) (entry : DiskEntry) : Disk :=
  ⟨(p, entry) :: (d.erase p).entries⟩

/-- Whether a directory stands at a place. -/
def isDirectory (d : Disk) (p : Place) : Bool :=
  d.entry? p == some .directory

/-- Whether a file stands at a place. -/
def isFile (d : Disk) (p : Place) : Bool :=
  (d.entry? p).any DiskEntry.isFile

/-- How many files there are. -/
def fileCount (d : Disk) : Nat :=
  d.entries.countP (·.2.isFile)

end Disk

end ModuleBundler
