import ModuleBundler.Graph.Basic
import ModuleBundler.Resolution.Locate
import ModuleBundler.Resolution.Packages
import ModuleBundler.SourceFile

/-!
# Collecting a bundle

From an entry file, the modules it needs are collected depth first: a module is read and recorded,
then its references are followed in the order of the file, each down to its end before the next. A
path that is recorded already is not read again, which also ends cycles. The first failure ends
everything, and no graph is left.

How deep the walk goes depends on the packages. Relative requests only lead to files of the store,
so they cannot lead deeper than the store has files; but a resolver may name one file in any number
of ways, and each is a path of its own. `collect` therefore takes a bound on the depth and answers
`none` if it does not suffice. A table of packages names finitely many paths, so that `bundle` can
choose a bound that always suffices.
-/

namespace ModuleBundler

/-- What is followed from a module. -/
structure BundleOptions (σ : Type) where
  /-- What tells what packages stand for, if anything does. -/
  resolver : Option (Resolver σ) := none
  /-- Whether references that only use types are followed. -/
  followTypes : Bool := false

/-- What a reference of a module adds to the graph. -/
inductive Target where
  /-- Nothing. -/
  | skipped
  /-- A request that is left out of the bundle. -/
  | external
  /-- An edge to the module at a path. -/
  | module (path : Path)
  deriving DecidableEq, Repr

/-- A fault of a path, extended by the module that imports along it. -/
def Error.importedBy (importer : Path) : Error → Error
  | .invalidPath cause => .invalidPath (.importedBy cause importer)
  | e => e

/-- The file at `path` as a module without edges. -/
def Module.load [Engine] {σ : Type} [FileStore σ] (path : Path) (s : σ) : Except Error Module × σ :=
  match SourceFile.refresh ⟨path, none⟩ s with
  | (.error e, _, s') => (.error e, s')
  | (.ok _, file, s') =>
    (file.references.map fun references ↦
      { path, content := file.content?.getD [], references }, s')

namespace BundleOptions

variable {σ : Type} [FileStore σ]

/-- What a package request of the module at `importer`, which stands in `directory`, adds to the
graph. -/
def packageTarget (options : BundleOptions σ) (s : σ) (importer directory : Path)
    (request : String) : Except Error Target :=
  match options.resolver with
  | none => .error (.unsupportedImport request importer)
  | some resolver =>
    match resolver s directory request with
    | .error e => .error e
    | .ok (.module path) => .ok (.module path)
    | .ok .external => .ok .external
    | .ok .unresolved => .error (.unsupportedImport request importer)

/-- What a reference of the module at `importer`, which stands in `directory`, adds to the graph. -/
def target (options : BundleOptions σ) (s : σ) (importer directory : Path)
    (reference : Reference) : Except Error Target :=
  if reference.typeOnly && !options.followTypes then .ok .skipped
  else if reference.isRelative then
    match Locate.locate directory reference.path s with
    | .ok path => .ok (.module path)
    | .error e => .error (e.importedBy importer)
  else options.packageTarget s importer directory reference.request

end BundleOptions

/-! ### The walk -/

/-- Where a walk stands: the store it reads from, and what it found. -/
structure Walk (σ : Type) where
  /-- The store. -/
  store : σ
  /-- The modules found so far. -/
  graph : Graph

namespace Walk

variable {σ : Type} [FileStore σ]

/-- Follows references of the module at `importer`, which has the place `index` and stands in
`directory`, where `visit` goes to the module at a path and tells its place. -/
def follow (options : BundleOptions σ) (visit : Path → Walk σ → Option (Except Error Nat × Walk σ))
    (importer directory : Path) (index : Nat) :
    List Reference → Walk σ → Option (Except Error Unit × Walk σ)
  | [], w => some (.ok (), w)
  | reference :: rest, w =>
    match options.target w.store importer directory reference with
    | .error e => some (.error e, w)
    | .ok .skipped => follow options visit importer directory index rest w
    | .ok .external =>
      follow options visit importer directory index rest
        { w with graph := w.graph.addExternal index reference.request }
    | .ok (.module path) =>
      match visit path w with
      | none => none
      | some (.error e, w') => some (.error e, w')
      | some (.ok imported, w') =>
        follow options visit importer directory index rest
          { w' with graph := w'.graph.addDependency index imported }

/-- Goes to the module at `path`, records it and all it needs unless that happened before, and tells
its place; `none` if the walk leads deeper than `depth`. -/
def visit [Engine] (options : BundleOptions σ) :
    (depth : Nat) → (path : Path) → Walk σ → Option (Except Error Nat × Walk σ)
  | depth, path, w =>
    match w.graph.indexOf? path with
    | some index => some (.ok index, w)
    | none =>
      match depth with
      | 0 => none
      | depth + 1 =>
        match Module.load path w.store with
        | (.error e, s) => some (.error e, { w with store := s })
        | (.ok m, s) =>
          match path.parent with
          | .error e => some (.error e, { w with store := s })
          | .ok directory =>
            let index := w.graph.size
            match follow options (visit options depth) path directory index m.references
                ⟨s, w.graph.insert m⟩ with
            | none => none
            | some (.error e, w') => some (.error e, w')
            | some (.ok _, w') => some (.ok index, w')

end Walk

/-! ### Bundles -/

variable {σ : Type} [FileStore σ]

/-- The canonical path of the file at `entry`. -/
def entryPath (entry : Path) (s : σ) : Except Error Path × σ :=
  match FileStore.openFile entry s with
  | .error e => (.error e, s)
  | .ok (handle, opened) =>
    match FileStore.close handle opened with
    | .error e => (.error e, opened)
    | .ok closed => (FileStore.realPath handle opened, closed)

/-- The graph of the modules that `entry` needs; `none` if the walk leads deeper than `depth`. -/
def collect [Engine] (options : BundleOptions σ) (depth : Nat) (entry : Path) (s : σ) :
    Option (Except Error Graph × σ) :=
  match entryPath entry s with
  | (.error e, s') => some (.error e, s')
  | (.ok path, s') =>
    match Walk.visit options depth path ⟨s', {}⟩ with
    | none => none
    | some (.error e, w) => some (.error e, w.store)
    | some (.ok _, w) => some (.ok w.graph, w.store)

/-- What packages stand for in a bundle: nothing, if there is no table. -/
def BundleOptions.ofTable (packages : Option PackageTable) (followTypes : Bool) :
    BundleOptions σ :=
  ⟨packages.map PackageTable.resolver, followTypes⟩

/-- A depth that no walk exceeds: every module on it is a file of the store under its canonical
path, or a path of the table. -/
def sufficientDepth (packages : Option PackageTable) (s : σ) : Nat :=
  FileStore.fileBound s + ((packages.map PackageTable.targets).getD []).length + 1

/-- The graph of the modules that `entry` needs, with a table of packages. -/
def bundle [Engine] (packages : Option PackageTable) (followTypes : Bool) (entry : Path) (s : σ) :
    Option (Except Error Graph × σ) :=
  collect (.ofTable packages followTypes) (sufficientDepth packages s) entry s

end ModuleBundler
