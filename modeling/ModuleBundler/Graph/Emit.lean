import ModuleBundler.Graph.Order

/-!
# The text of a bundle

A bundle is one section per module: a line that names the file, then its bytes as they are. Where
the bytes do not end a line, one line end follows, so that every section starts on a line of its
own.
-/

namespace ModuleBundler

/-- The byte that ends a line. -/
def lineEnd : UInt8 := 0x0A

/-- What a file lacks to end with the end of a line. -/
def missingLineEnd (content : Bytes) : Bytes :=
  if content.getLast? = some lineEnd then [] else [lineEnd]

/-- The line that names the file of a section. -/
def Module.header (m : Module) : Bytes :=
  Utf8.encode ("// " ++ m.path.render ++ "\n")

/-- The part of the bundle that a module makes up. -/
def Module.section (m : Module) : Bytes :=
  m.header ++ m.content ++ missingLineEnd m.content

/-- The bundle with its modules in the given order. -/
def Graph.emit (g : Graph) (order : Order) : Bytes :=
  (g.order order).flatMap fun i ↦ (g.modules[i]?.map Module.section).getD []

end ModuleBundler
