import ModuleBundler.Settings.File

/-!
# Failures of a run

A run that fails says in its first words what it could not do, and below that what caused it. A
cause may have one of its own: behind a failed access to a file stands what the system said. Several
causes are numbered, from the nearest on.
-/

namespace ModuleBundler

/-- Why a run of the command fails. -/
inductive Failure where
  /-- The settings file cannot be used. -/
  | config (cause : ConfigFault)
  /-- The entry file cannot be named. -/
  | entry (cause : Error)
  /-- The bundle of `entry` cannot be collected. -/
  | bundle (entry : String) (cause : Error)
  /-- The modules of the bundle of `entry` hang together too deeply. -/
  | tooDeep (entry : String)
  /-- The file that the bundle is written to cannot be made. -/
  | create (output : String) (cause : OsFault)
  deriving DecidableEq, Repr

namespace Failure

/-- What could not be done. -/
def headline : Failure → String
  | .config cause => cause.message
  | .entry cause => cause.message
  | .bundle file _ => s!"Failed to bundle {file}"
  | .tooDeep file => s!"Failed to bundle {file}"
  | .create output _ => s!"Failed to create {output}"

/-- What stands behind an error. -/
def behind : Error → List String
  | .io cause => [cause.message]
  | _ => []

/-- The causes of a failure, the nearest first. -/
def causes : Failure → List String
  | .config (.unreadable _ cause) => [cause.message]
  | .config (.malformed _) => ["the file does not hold settings"]
  | .entry cause => behind cause
  | .bundle _ cause => cause.message :: behind cause
  | .tooDeep _ => ["the modules hang together too deeply"]
  | .create _ cause => [cause.message]

/-- A text of several lines with something in front of each. -/
def indented (first others : String) (text : String) : String :=
  first ++ ("\n" ++ others).intercalate ((text.toList.splitOn '\n').map String.ofList)

/-- The place of a cause, right-aligned to five columns. -/
def number (n : Nat) : String :=
  let digits := toString n
  String.ofList (List.replicate (5 - digits.length) ' ') ++ digits ++ ": "

/-- The lines for causes. -/
def causeLines : List String → List String
  | [] => []
  | [cause] => [indented "    " "    " cause]
  | causes => causes.mapIdx fun i cause ↦ indented (number i) "       " cause

/-- A failure as it is printed. -/
def print (f : Failure) : String :=
  let lines := causeLines f.causes
  let below := if lines.isEmpty then "" else "\n\nCaused by:\n" ++ "\n".intercalate lines
  s!"Error: {f.headline}{below}\n"

end Failure

end ModuleBundler
