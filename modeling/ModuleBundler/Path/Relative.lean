import ModuleBundler.Path.Builder

/-!
# Paths as seen from a directory

`relativeTo` leads from a base to a path: out of the segments of the base that the path does not
share, then down the segments of the path that the base does not share.
-/

namespace ModuleBundler.Path

/-- The two lists without the front they share. -/
def dropShared : List String → List String → List String × List String
  | a :: as, b :: bs => if a = b then dropShared as bs else (a :: as, b :: bs)
  | as, bs => (as, bs)

/-- The segments that lead from `base` to `path`. -/
def stepsFrom (base path : Path) : List String :=
  let (below, out) := dropShared path.segments base.segments
  out.map (fun _ ↦ parentName) ++ below.flatMap split

/-- The text that names `path` for a reader in the directory `base`. -/
def relativeTo (path base : Path) : String :=
  let steps := stepsFrom base path
  if steps.isEmpty then "." else "/".intercalate steps

end ModuleBundler.Path
