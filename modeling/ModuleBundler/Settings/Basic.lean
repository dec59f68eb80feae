import ModuleBundler.Graph.Order
import ModuleBundler.Resolution.Packages

/-!
# Settings

What a run of the command is asked to do. The arguments of the command come first; a settings file
adds to them and fills in what they leave open, and what neither says is left at its default.
-/

namespace ModuleBundler

/-- How a bundle is reported. -/
inductive Format where
  /-- As a listing for a reader. -/
  | text
  /-- As JSON. -/
  | json
  deriving DecidableEq, Repr, Inhabited

/-- What a settings file says. -/
structure FileSettings where
  /-- The packages that are left out of the bundle. -/
  externals : List String := []
  /-- The order of the bundle. -/
  order : Option Order := none
  /-- Whether references that only use types are followed. -/
  followTypes : Option Bool := none
  deriving DecidableEq, Repr, Inhabited

/-- What a run of the command is asked to do. -/
structure Settings where
  /-- The entry file. -/
  entry : String
  /-- The order of the bundle. -/
  order : Option Order := none
  /-- How the bundle is reported. -/
  format : Format := .text
  /-- The packages that are left out of the bundle. -/
  externals : List String := []
  /-- The file that the bundle is written to. -/
  output : Option String := none
  /-- The settings file. -/
  config : Option String := none
  /-- Whether references that only use types are followed. -/
  followTypes : Bool := false
  deriving DecidableEq, Repr, Inhabited

namespace Settings

/-- The settings with what a settings file adds. -/
def merge (s : Settings) (file : FileSettings) : Settings :=
  { s with
    externals := file.externals.foldl (fun externals name ↦ addNew name externals) s.externals
    order := s.order <|> file.order
    followTypes := s.followTypes || file.followTypes.getD false }

/-- The order of the bundle: dependencies come first unless something else is said. -/
def bundleOrder (s : Settings) : Order :=
  s.order.getD .dependency

/-- What packages stand for: nothing, unless some are left out of the bundle. -/
def packages (s : Settings) : Option PackageTable :=
  if s.externals.isEmpty then none else some ⟨[], ⟨s.externals⟩⟩

end Settings

end ModuleBundler
