import ModuleBundler.Syntax.Edit
import ModuleBundler.Syntax.Node

/-!
# Engines

What reads the syntax tree of a file is not up to the modules that go by the tree. They take it as
an `Engine`: any function from contents to trees. An engine may be handed the tree of the last
reading and what has changed since then, and keep what has not.
-/

namespace ModuleBundler

/-- Which marks a file may use. -/
inductive Dialect where
  /-- Types, and no markup. -/
  | plain
  /-- Types and markup. -/
  | markup
  deriving DecidableEq, Repr

/-- What reads syntax trees. -/
class Engine where
  /-- The tree of a content, read from the content and, if the file was read before, from the tree
  of the last reading and the edit since then. There is no edit if the content has not changed. -/
  parse : Dialect → Bytes → Option (Node × Option Edit) → Node

end ModuleBundler
