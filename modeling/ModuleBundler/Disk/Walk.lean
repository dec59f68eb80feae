import ModuleBundler.Disk.Basic

/-!
# Walks on a disk

How the operating system gets from a text to a place. The text is cut into steps, and the steps are
followed one by one. Every step, also one that stays where it is, starts from a directory. A link is
replaced by the steps of its target, and `..` afterwards leads up from where the link led to.

Two shape decisions record what the system does, not only where a walk ends:

* the links that may still be followed are counted down, so that links that lead in a circle end
  the walk with a fault of their own;
* operations differ in what they do with the last name of a path (`Ending`), so that one walk serves
  them all: it may be left alone where it is a link, and it may be missing where something is to be
  made.
-/

namespace ModuleBundler

/-- One step of a walk. -/
inductive Step where
  /-- Up to the directory above; the root is above itself. -/
  | up
  /-- To stay where one is. -/
  | here
  /-- To stay, because a slash ends the path. -/
  | slash
  /-- To what has a name. -/
  | name (n : String)
  deriving DecidableEq, Repr

namespace Step

/-- The step that a part of a path between slashes stands for. -/
def ofPiece (piece : String) : Option Step :=
  if piece = "" then none
  else if piece = "." then some .here
  else if piece = ".." then some .up
  else some (.name piece)

/-- The steps of a path. -/
def ofText (text : String) : List Step :=
  (Path.pieces text).filterMap ofPiece ++
    (if text.toList.getLast? = some '/' then [.slash] else [])

/-- Where the steps of a path start, for one who stands at `place`. -/
def start (place : Place) (text : String) : Place :=
  if text.toList.head? = some '/' then [] else place

end Step

/-- What an operation does with the last name of a path. -/
structure Ending where
  /-- Whether a link is followed. -/
  follows : Bool
  /-- Whether the name may be missing. -/
  mayMiss : Bool
  deriving DecidableEq, Repr

namespace Ending

/-- To use what the path leads to. -/
def use : Ending := ⟨true, false⟩

/-- To use what stands under the last name, be it a link. -/
def useItself : Ending := ⟨false, false⟩

/-- To make a file, or use the one the path leads to. -/
def obtain : Ending := ⟨true, true⟩

/-- To make something that was not there. -/
def make : Ending := ⟨false, true⟩

end Ending

/-- Where a walk ends. -/
inductive Landing where
  /-- At something. -/
  | found (place : Place) (entry : DiskEntry)
  /-- At a name that a directory does not have. -/
  | vacant (directory : Place) (name : String)
  deriving DecidableEq, Repr

namespace Disk

/-- The longest name, in bytes. -/
def longestName : Nat := 255

/-- The longest path, in bytes. -/
def longestPath : Nat := 4095

/-- How many links a walk follows. -/
def mostLinks : Nat := 40

/-- Whether the system takes a name; with `whole`, the path up to it has to be short enough too. -/
def isTooLong (whole : Bool) (directory : Place) (name : String) : Bool :=
  longestName < name.utf8ByteSize ||
    whole && longestPath < (Place.text (directory ++ [name])).utf8ByteSize

/-- Follows steps from a place, along at most `links` links. -/
def walk (d : Disk) (ending : Ending) (whole : Bool) :
    (links : Nat) → Place → List Step → Except OsFault Landing
  | _, place, [] =>
    match d.entry? place with
    | some entry => .ok (.found place entry)
    | none => .error .notFound
  | links, place, step :: rest =>
    if !d.isDirectory place then .error .notDirectory
    else
      match step with
      | .up => d.walk ending whole links place.dropLast rest
      | .here => d.walk ending whole links place rest
      | .slash => d.walk ending whole links place rest
      | .name n =>
        if ending = .obtain ∧ rest = [.slash] then .error .isDirectory
        else if isTooLong whole place n then .error .nameTooLong
        else
          match d.entry? (place ++ [n]) with
          | none => if ending.mayMiss ∧ rest = [] then .ok (.vacant place n) else .error .notFound
          | some (.link target) =>
            if !ending.follows ∧ rest = [] then .ok (.found (place ++ [n]) (.link target))
            else
              match links with
              | 0 => .error .tooManyLinks
              | links + 1 =>
                d.walk ending whole links (Step.start place target) (Step.ofText target ++ rest)
          | some _ => d.walk ending whole links (place ++ [n]) rest
termination_by links _ steps => (links, steps.length)

end Disk

end ModuleBundler
