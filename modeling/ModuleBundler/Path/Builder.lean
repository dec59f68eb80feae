import ModuleBundler.Path.Basic

/-!
# Building a path from both ends

A builder gathers segments in front and behind. Like a path it never holds an empty segment
or `.`, and a text with slashes gives several segments at once, in the order they are written.
-/

namespace ModuleBundler.Path

/-- Segments gathered so far. -/
structure Builder where
  /-- The segments, in order. -/
  segments : List String := []
  deriving DecidableEq, Repr, Inhabited

namespace Builder

/-- The builder that holds the segments of a path. -/
def ofPath (p : Path) : Builder := ⟨p.segments⟩

/-- Puts one segment behind the others. -/
def putBack (b : Builder) (segment : String) : Builder := ⟨b.segments ++ [segment]⟩

/-- Puts one segment in front of the others. -/
def putFront (b : Builder) (segment : String) : Builder := ⟨segment :: b.segments⟩

/-- Adds the segments of `s` behind the others, one after the other from the first piece of `s`. -/
def push (b : Builder) (s : String) : Builder :=
  ((pieces s).filter isSegment).foldl putBack b

/-- Adds the segments of `s` in front of the others, one after the other from the last piece of
`s`. -/
def pushFront (b : Builder) (s : String) : Builder :=
  ((pieces s).reverse.filter isSegment).foldl putFront b

/-- How many segments the builder holds. -/
def length (b : Builder) : Nat := b.segments.length

/-- Whether the builder holds no segment. -/
def isEmpty (b : Builder) : Bool := b.segments.isEmpty

/-- The path along the segments. -/
def finish (b : Builder) (absolute : Bool) : Path := ⟨absolute, b.segments⟩

/-- The path from the root along the segments. -/
def toAbsolute (b : Builder) : Path := b.finish true

/-- The path along the segments from wherever it is used. -/
def toRelative (b : Builder) : Path := b.finish false

end Builder

end ModuleBundler.Path
