import ModuleBundler.Path.Relative
import ModuleBundler.Report.Paint
import ModuleBundler.Report.Summary

/-!
# Listings of a graph

A listing is what a person reads: each module of the bundle with its size, and below it what it
imports, followed by figures for the whole bundle. Files are named as they are seen from the
directory the reader is in.
-/

namespace ModuleBundler

/-- The name of an order. -/
def Order.name : Order → String
  | .discovery => "Discovery"
  | .dependency => "Dependency"

namespace Listing

/-- Where a listing is read. -/
structure View where
  /-- Whether it is colored. -/
  coloring : Coloring := .plain
  /-- The directory the reader is in, if it can be named. -/
  directory : Option Path := some .root

namespace View

/-- A text in a look. -/
def paint (view : View) (paint : Paint) (text : String) : String :=
  view.coloring.paint paint text

/-- A number in a look. -/
def count (view : View) (paint : Paint) (n : Nat) : String :=
  view.paint paint (toString n)

/-- A file as it is seen by the reader. -/
def file (view : View) (path : Path) : String :=
  match view.directory with
  | some directory => path.relativeTo directory
  | none => path.render

end View

/-- The line that heads a listing, and the blank line below it. -/
def heading (view : View) (g : Graph) (order : Order) : String :=
  let mark := view.paint .boldGreen "✓"
  s!"{mark} Bundled {view.count .cyan g.size} modules ({order.name} order)\n\n"

/-- What a module imports, as it stands below the module. -/
def children (view : View) (g : Graph) (m : Module) : List String :=
  (m.dependencies.filterMap fun i ↦ g.modules[i]?.map fun imported ↦ view.file imported.path) ++
    m.externals.map fun request ↦ view.paint .faint (request ++ " (external)")

/-- The lines below a module that imports `left` things in all. -/
def branches (view : View) (left : Nat) : List String → List String
  | [] => []
  | child :: rest =>
    let stem := if left = 1 then "└──" else "├──"
    s!"{view.paint .faint stem}  {child}\n" :: branches view (left - 1) rest

/-- The lines for the module at place `i`. -/
def moduleLines (view : View) (g : Graph) (i : Nat) (m : Module) : List String :=
  let label := view.paint (if i = 0 then .boldWhite else .blue) (view.file m.path)
  s!"{label} ({view.count .cyan m.content.length} bytes)\n" ::
    branches view (m.dependencies.length + m.externals.length) (children view g m)

/-- The figures at the end of a listing. -/
def figures (view : View) (g : Graph) : List String :=
  let externals := g.externalRequests
  let line := view.paint .faint (String.ofList (List.replicate 60 '─'))
  let title := view.paint .bold "Summary"
  let list := view.paint .faint (", ".intercalate externals)
  [s!"\n{line}\n",
    s!"{title}\n",
    s!"  Modules: {view.count .boldYellow g.size}\n",
    s!"  Import edges: {view.count .yellow g.edgeCount}\n",
    s!"  Total size: {view.count .yellow g.byteCount} bytes\n"] ++
  (if externals.isEmpty then []
    else [s!"  Externals: {list}\n"])

/-- The listing of a graph whose bundle has the given order. -/
def print (view : View) (g : Graph) (order : Order) : String :=
  let modules := (g.order order).flatMap fun i ↦
    (g.modules[i]?.map (moduleLines view g i)).getD []
  String.join (heading view g order :: modules ++ figures view g)

end Listing

end ModuleBundler
