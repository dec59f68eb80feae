import ModuleBundler.Error

/-!
# Package requests

A request that does not start with a point names a package, and nothing in the store says which file
that is. A `Resolver` does: it sends a request to a file, leaves it to the place where the bundle
will run, or knows nothing about it.

Two resolvers are given. `ExternalPackages` leaves every request below its prefixes to the place
where the bundle will run. `PackageTable` looks requests up in a list first, which may say anything
about them that a resolver can say. Both look at nothing but the request and the directory it is
made in.
-/

namespace ModuleBundler

/-- What a package request stands for. -/
inductive Resolution where
  /-- A file that belongs to the bundle. -/
  | module (path : Path)
  /-- Something that is there where the bundle runs. -/
  | external
  /-- Nothing that is known. -/
  | unresolved
  deriving DecidableEq, Repr

/-- What tells, in a store and for the directory of the importing file, what a package request
stands for. -/
abbrev Resolver (σ : Type) := σ → Path → String → Except Error Resolution

/-! ### Packages left out of the bundle -/

/-- The packages that are left out of a bundle. -/
structure ExternalPackages where
  /-- The names they go by. A name that ends in a slash covers what is below it only. -/
  prefixes : List String
  deriving DecidableEq, Repr, Inhabited

namespace ExternalPackages

/-- Whether a request is one of the packages that `name` covers, or lies below it. -/
def covers (name request : List Char) : Bool :=
  if name.getLast? = some '/' then name.isPrefixOf request
  else request = name || (name ++ ['/']).isPrefixOf request

/-- Whether a request is left out of the bundle. -/
def contains (packages : ExternalPackages) (request : String) : Bool :=
  packages.prefixes.any fun name ↦ covers name.toList request.toList

/-- What a request stands for. -/
def classify (packages : ExternalPackages) (request : String) : Resolution :=
  if packages.contains request then .external else .unresolved

/-- The resolver that knows nothing but these packages. -/
def resolver {σ : Type} (packages : ExternalPackages) : Resolver σ :=
  fun _ _ request ↦ .ok (packages.classify request)

end ExternalPackages

/-! ### A table of packages -/

/-- What a table says about a request. -/
inductive PackageEntry where
  /-- It stands for the file at `path`, which is taken as it is written. -/
  | file (path : Path)
  /-- It is there where the bundle runs. -/
  | external
  /-- Nothing is known about it. -/
  | unresolved
  /-- It is refused. -/
  | refused
  /-- Finding out what it stands for fails. -/
  | failing (error : Error)
  deriving DecidableEq, Repr

/-- A finite table of packages. -/
structure PackageTable where
  /-- The requests that the table lists. -/
  entries : List (String × PackageEntry) := []
  /-- What is said about the others. -/
  others : ExternalPackages := ⟨[]⟩
  deriving DecidableEq, Repr, Inhabited

namespace PackageTable

/-- What a request from `directory` stands for. -/
def resolve (table : PackageTable) (directory : Path) (request : String) :
    Except Error Resolution :=
  match table.entries.lookup request with
  | some (.file path) => .ok (.module path)
  | some .external => .ok .external
  | some .unresolved => .ok .unresolved
  | some .refused => invalid (.refusedPackage request directory)
  | some (.failing error) => .error error
  | none => .ok (table.others.classify request)

/-- The resolver that goes by the table. -/
def resolver {σ : Type} (table : PackageTable) : Resolver σ :=
  fun _ directory request ↦ table.resolve directory request

/-- The files that the table sends requests to. -/
def targets (table : PackageTable) : List Path :=
  table.entries.filterMap fun entry ↦
    match entry.2 with
    | .file path => some path
    | _ => none

end PackageTable

end ModuleBundler
