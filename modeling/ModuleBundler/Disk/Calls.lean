import ModuleBundler.Disk.Walk

/-!
# Operations on a disk

What a program can ask of the operating system. Paths are texts, and those that do not start with a
slash are taken from the working directory, which is given by its place. Every operation refuses a
path with the character that ends paths, and a path that is too long; only `canonical` measures the
path part by part, as it goes along.
-/

namespace ModuleBundler.Disk

/-- Whether a path holds the character that ends paths. -/
def hasNul (text : String) : Bool :=
  text.toList.contains '\x00'

/-- Where a path leads to. -/
def reach (d : Disk) (cwd : Place) (text : String) (ending : Ending) : Except OsFault Landing :=
  if hasNul text then .error .nulInName
  else if longestPath < text.utf8ByteSize then .error .nameTooLong
  else d.walk ending false mostLinks (Step.start cwd text) (Step.ofText text)

/-- The place that a path leads to. -/
def canonical (d : Disk) (cwd : Place) (text : String) : Except OsFault Place :=
  if hasNul text then .error .nulInName
  else
    match d.walk .use true mostLinks (Step.start cwd text) (Step.ofText text) with
    | .ok (.found place _) => .ok place
    | .ok (.vacant ..) => .error .notFound
    | .error fault => .error fault

/-! ### Looking -/

/-- What a path leads to. -/
def look? (d : Disk) (cwd : Place) (text : String) : Option DiskEntry :=
  match d.reach cwd text .use with
  | .ok (.found _ entry) => some entry
  | _ => none

/-- Whether a path leads to a file. -/
def leadsToFile (d : Disk) (cwd : Place) (text : String) : Bool :=
  (d.look? cwd text).any DiskEntry.isFile

/-- Whether a path leads to a directory. -/
def leadsToDirectory (d : Disk) (cwd : Place) (text : String) : Bool :=
  d.look? cwd text == some .directory

/-- The content of the file that a path leads to. -/
def contentAt (d : Disk) (cwd : Place) (text : String) : Except OsFault Bytes :=
  match d.reach cwd text .use with
  | .ok (.found _ (.file content)) => .ok content
  | .ok (.found _ _) => .error .isDirectory
  | .ok (.vacant ..) => .error .notFound
  | .error fault => .error fault

/-! ### Changing -/

/-- Gives the file that a path leads to a new content; makes the file if it is missing. -/
def save (d : Disk) (cwd : Place) (text : String) (content : Bytes) : Except OsFault Disk :=
  match d.reach cwd text .obtain with
  | .ok (.found place (.file _)) => .ok (d.put place (.file content))
  | .ok (.found _ _) => .error .isDirectory
  | .ok (.vacant directory name) => .ok (d.put (directory ++ [name]) (.file content))
  | .error fault => .error fault

/-- Makes something that was not there. -/
def make (d : Disk) (cwd : Place) (text : String) (entry : DiskEntry) : Except OsFault Disk :=
  match d.reach cwd text .make with
  | .ok (.found ..) => .error .alreadyExists
  | .ok (.vacant directory name) => .ok (d.put (directory ++ [name]) entry)
  | .error fault => .error fault

/-- Removes what stands under the last name of a path, unless it is a directory. -/
def unlink (d : Disk) (cwd : Place) (text : String) : Except OsFault Disk :=
  match d.reach cwd text .useItself with
  | .ok (.found _ .directory) => .error .isDirectory
  | .ok (.found place _) => .ok (d.erase place)
  | .ok (.vacant ..) => .error .notFound
  | .error fault => .error fault

end ModuleBundler.Disk
