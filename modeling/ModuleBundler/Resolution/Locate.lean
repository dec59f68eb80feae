import ModuleBundler.Store.FileStore

/-!
# Relative requests

A request such as `./math` names a file without saying all of its name. `locate` looks at the
request as it stands first, then at the request with each extension behind it, then for an index
file inside what the request names, and takes the first of these that is a file.

When none is, the answer tells what went wrong with the request as it stands: either it leads
nowhere, or it leads to something that is neither a file nor a directory with an index file.
-/

namespace ModuleBundler.Locate

/-- The extensions a request may leave out, the preferred ones first. -/
def extensions : List String :=
  ["ts", "tsx", "mts", "cts", "js", "jsx", "mjs", "cjs"]

/-- The files that stand for the directory they are in, the preferred ones first. -/
def indexFiles : List String :=
  extensions.map ("index." ++ ·)

/-- The request with each extension behind its last name. A request that ends in a step up, or that
names nothing, has no such name. -/
def extended (request : Path) : List Path :=
  match request.segments.getLast? with
  | none => []
  | some name =>
    if name = Path.parentName then []
    else extensions.filterMap fun extension ↦ (request.withExtension extension).toOption

/-- The index files inside what the request names. -/
def indexed (request : Path) : List Path :=
  indexFiles.map request.child

/-- What a request may stand for besides itself, in the order of preference. -/
def candidates (request : Path) : List Path :=
  extended request ++ indexed request

variable {σ : Type} [FileStore σ]

/-- The canonical path of the file that `request` names as it stands from `directory`. -/
def file? (directory : Path) (s : σ) (request : Path) : Option Path :=
  match FileStore.resolve directory request s with
  | .ok path => if FileStore.isFile path s then some path else none
  | .error _ => none

/-- The canonical path of the file that a request from `directory` stands for. -/
def locate (directory request : Path) (s : σ) : Except Error Path :=
  match (request :: candidates request).findSome? (file? directory s) with
  | some path => .ok path
  | none =>
    match FileStore.resolve directory request s with
    | .ok found => invalid (.noIndexFile request directory found)
    | .error e => .error e

end ModuleBundler.Locate
