import ModuleBundler.Path.Operations
import ModuleBundler.Path.Builder

/-!
# Paths of the operating system

The operating system names files by bytes. `Component.ofBytes` says what such a name means part by
part, `Path.ofOs` builds a path from the parts, and `Path.toOs` writes a name for a path: a relative
one starts at `.`. Only the parts that become segments have to be text.
-/

namespace ModuleBundler

/-- One part of an operating-system path. -/
inductive Component where
  /-- The root. -/
  | root
  /-- A leading `.`. -/
  | current
  /-- A step up. -/
  | parent
  /-- A name. -/
  | normal (name : Bytes)
  deriving DecidableEq, Repr

namespace Component

/-- The byte between the parts of a path. -/
def separator : UInt8 := 0x2F

/-- The bytes of `.`. -/
def dot : Bytes := [0x2E]

/-- The bytes of `..`. -/
def dotDot : Bytes := [0x2E, 0x2E]

/-- The part a piece between slashes stands for; empty pieces and `.` stand for none. -/
def ofPiece (piece : Bytes) : Option Component :=
  if piece = [] ∨ piece = dot then none
  else if piece = dotDot then some .parent
  else some (.normal piece)

/-- The parts of an operating-system path. A `.` counts only where the path starts with it. -/
def ofBytes (os : Bytes) : List Component :=
  let parts := (os.splitOn separator).filterMap ofPiece
  if os.head? = some separator then .root :: parts
  else if (os.splitOn separator).head? = some dot then .current :: parts
  else parts

end Component

namespace Path

/-- The builder with what a part of the operating-system path `os` stands for behind the others. -/
def Builder.pushPart (os : Bytes) (b : Builder) : Component → Except Error Builder
  | .normal name =>
    match Utf8.decode? name with
    | some text => .ok (b.push text)
    | none => invalid (.notUtf8 (Utf8.lossy os))
  | .parent => .ok (b.push parentName)
  | .root => .ok b
  | .current => .ok b

/-- The path an operating-system path stands for. -/
def ofOs (os : Bytes) : Except Error Path := do
  let b ← (Component.ofBytes os).foldlM (Builder.pushPart os) {}
  return b.finish (os.head? = some Component.separator)

/-- The operating-system path for a path, as text. -/
def toOsText (p : Path) : String :=
  if p.segments.isEmpty then (if p.absolute then "/" else ".")
  else (if p.absolute then "" else ".") ++ slashed p.segments

/-- The operating-system path for a path. -/
def toOs (p : Path) : Bytes :=
  Utf8.encode p.toOsText

end Path

end ModuleBundler
