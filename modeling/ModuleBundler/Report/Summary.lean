import ModuleBundler.Graph.Order
import ModuleBundler.Json.Printer

/-!
# Summaries of a graph

A summary says what is in a bundle by the paths of its files: every module with its size and the
modules it imports, in the order they were found, the same paths in the order of the bundle, and the
requests that were left out, sorted. It is what other programs read, as JSON.
-/

namespace ModuleBundler

/-! ### Sorted sets of texts -/

/-- A sorted list with a text in its place, unless the list has it. -/
def insertSorted (s : String) : List String → List String
  | [] => [s]
  | t :: rest => if s < t then s :: t :: rest else if s = t then t :: rest else t :: insertSorted s rest

/-- The texts of a list, sorted and each once. Texts are compared character by character, which is
how their bytes compare. -/
def sortedTexts (l : List String) : List String :=
  l.foldr insertSorted []

/-! ### What a graph says as a whole -/

namespace Graph

/-- The written path of the module at place `i`. -/
def pathText (g : Graph) (i : Nat) : String :=
  (g.modules[i]?.map (·.path.render)).getD ""

/-- All requests that are left out of the bundle, sorted. -/
def externalRequests (g : Graph) : List String :=
  sortedTexts (g.modules.flatMap Module.externals)

/-- How many bytes the modules have together. -/
def byteCount (g : Graph) : Nat :=
  g.modules.foldr (fun m bytes ↦ m.content.length + bytes) 0

/-- How many edges there are. -/
def edgeCount (g : Graph) : Nat :=
  g.modules.foldr (fun m edges ↦ m.dependencies.length + edges) 0

end Graph

/-! ### Summaries -/

/-- What a summary says about a module. -/
structure ModuleSummary where
  /-- The path of the file. -/
  path : String
  /-- The size of the file. -/
  bytes : Nat
  /-- The paths of the modules it imports. -/
  dependencies : List String
  deriving DecidableEq, Repr

/-- What a bundle holds. -/
structure Summary where
  /-- The path of the entry. -/
  entry : String
  /-- The paths of the modules in the order of the bundle. -/
  order : List String
  /-- The modules in the order they were found. -/
  modules : List ModuleSummary
  /-- The requests that were left out, sorted. -/
  externals : List String
  deriving DecidableEq, Repr

namespace Summary

/-- The summary of a graph whose bundle has the given order. -/
def ofGraph (g : Graph) (order : Order) : Summary where
  entry := (g.entry?.map (·.path.render)).getD ""
  order := (g.order order).map g.pathText
  modules := g.modules.map fun m ↦
    ⟨m.path.render, m.content.length, m.dependencies.map g.pathText⟩
  externals := g.externalRequests

/-- A summary as JSON. -/
def toJson (s : Summary) : JsonValue :=
  .record [("entry", .text s.entry), ("order", .texts s.order),
    ("modules", .array (s.modules.map fun m ↦
      .record [("path", .text m.path), ("bytes", .nat m.bytes),
        ("dependencies", .texts m.dependencies)])),
    ("externals", .texts s.externals)]

/-- A summary as it is printed. -/
def print (s : Summary) : String :=
  s.toJson.pretty 0 ++ "\n"

end Summary

end ModuleBundler
