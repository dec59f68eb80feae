import ModuleBundler.Reference

/-!
# Graphs of modules

A graph holds modules in the order they were found, the entry first, and a module is known by its
place in that order. What it imports is kept on the module that imports: the places of other
modules, and the requests that are left to the place where the bundle runs, each once and in the
order of the file.
-/

namespace ModuleBundler

/-- A file of a graph. -/
structure Module where
  /-- The path the file is known by. -/
  path : Path
  /-- The bytes of the file. -/
  content : Bytes
  /-- The references of the file. -/
  references : List Reference
  /-- The places of the modules it imports. -/
  dependencies : List Nat := []
  /-- The requests that are left out of the bundle. -/
  externals : List String := []
  deriving DecidableEq, Repr

/-- The files that can be reached from an entry. -/
structure Graph where
  /-- The modules, in the order they were found. -/
  modules : List Module := []
  deriving DecidableEq, Repr

/-- A list with an element at its end, unless the list has it. -/
def addNew {α : Type} [DecidableEq α] (a : α) (l : List α) : List α :=
  if a ∈ l then l else l ++ [a]

/-- The module with the place of one that it imports. -/
def Module.addDependency (m : Module) (imported : Nat) : Module :=
  { m with dependencies := addNew imported m.dependencies }

/-- The module with a request that is left out of the bundle. -/
def Module.addExternal (m : Module) (request : String) : Module :=
  { m with externals := addNew request m.externals }

namespace Graph

/-- How many modules there are. -/
def size (g : Graph) : Nat :=
  g.modules.length

/-- The paths of the modules. -/
def paths (g : Graph) : List Path :=
  g.modules.map Module.path

/-- The place of the module at a path. -/
def indexOf? (g : Graph) (path : Path) : Option Nat :=
  g.paths.idxOf? path

/-- The module at a path. -/
def find? (g : Graph) (path : Path) : Option Module :=
  g.modules.find? (·.path == path)

/-- Whether there is a module at a path. -/
def contains (g : Graph) (path : Path) : Bool :=
  g.paths.contains path

/-- The module the others were found from. -/
def entry? (g : Graph) : Option Module :=
  g.modules.head?

/-- The places of the modules that the module at place `i` imports. -/
def dependenciesOf (g : Graph) (i : Nat) : List Nat :=
  (g.modules[i]?.map Module.dependencies).getD []

/-! ### Growing a graph -/

/-- Puts a module behind the others. -/
def insert (g : Graph) (m : Module) : Graph :=
  ⟨g.modules ++ [m]⟩

/-- Records that the module at place `importer` imports the one at place `imported`. -/
def addDependency (g : Graph) (importer imported : Nat) : Graph :=
  ⟨g.modules.modify importer (·.addDependency imported)⟩

/-- Records a request of the module at place `importer` that is left out of the bundle. -/
def addExternal (g : Graph) (importer : Nat) (request : String) : Graph :=
  ⟨g.modules.modify importer (·.addExternal request)⟩

end Graph

end ModuleBundler
