/-!
# Paths

A path is a list of segments and a mark that says whether it starts at the root. Reading a path
drops empty segments and `.`; `..` is kept, for what it means depends on the tree the path is
used on (`Path.normalize` gives its lexical meaning).

The written form of a path says everything: a relative path begins with `./`, an absolute one with
`/`, so that a path whose segments are well formed is read back from its written form.
-/

namespace ModuleBundler

/-- The name of a file or directory. -/
structure Path where
  /-- Whether the path starts at the root. -/
  absolute : Bool
  /-- The names to follow, in order. -/
  segments : List String
  deriving DecidableEq, Repr, Inhabited

namespace Path

/-- The segment that leads one directory up. -/
def parentName : String := ".."

/-- The parts of a text between slashes. -/
def pieces (s : String) : List String :=
  (s.toList.splitOn '/').map String.ofList

/-- Whether a part of a text becomes a segment: the empty part and `.` do not. -/
def isSegment (piece : String) : Bool :=
  piece != "" && piece != "."

/-- The segments that a text names. -/
def split (s : String) : List String :=
  (pieces s).filter isSegment

/-- The path that a text names; a leading slash makes it absolute. -/
def parse (s : String) : Path :=
  ⟨s.toList.head? == some '/', split s⟩

/-- The path `/`. -/
def root : Path := ⟨true, []⟩

/-- The written form of segments, each behind a slash. -/
def slashed (segments : List String) : String :=
  segments.foldr (fun segment rest ↦ "/" ++ segment ++ rest) ""

/-- The written form of a path. -/
def render (p : Path) : String :=
  if p.segments.isEmpty then (if p.absolute then "/" else "./")
  else (if p.absolute then "" else ".") ++ slashed p.segments

instance : ToString Path := ⟨render⟩

/-- Whether the path has no segment. -/
def isEmpty (p : Path) : Bool :=
  p.segments.isEmpty

/-- Whether the path is absolute and leads nowhere up. -/
def isCanonical (p : Path) : Bool :=
  p.absolute && !p.segments.contains parentName

/-- The path that `other` names when it is followed from `p`: an absolute path leaves `p` behind. -/
def join (p other : Path) : Path :=
  if other.absolute then other else ⟨p.absolute, p.segments ++ other.segments⟩

/-- The path with the segments of `name` at its end. -/
def child (p : Path) (name : String) : Path :=
  ⟨p.absolute, p.segments ++ split name⟩

end Path

end ModuleBundler
