import ModuleBundler.Settings.Arguments

/-!
# How the command is called

The command has one task, `bundle`, which takes the arguments of `ModuleBundler.Arguments`. This
module tells the task from what stands in front of it, and holds the texts for those who ask how the
command is called or call it wrongly.
-/

namespace ModuleBundler.Usage

/-- What the command is called for. -/
inductive Call where
  /-- To bundle. -/
  | bundle (settings : Settings)
  /-- To tell how the command is called. -/
  | help
  /-- To tell how its task is called. -/
  | bundleHelp
  deriving DecidableEq, Repr

/-- Why a call is refused. -/
inductive Fault where
  /-- No task is named. -/
  | noTask
  /-- What stands where the task should stand is none. -/
  | unknownTask (text : String)
  /-- The arguments of the task are wrong. -/
  | arguments (cause : Arguments.Fault)
  deriving DecidableEq, Repr

/-- What a call with the given arguments asks for. -/
def read : List String → Except Fault Call
  | [] => .error .noTask
  | "bundle" :: arguments =>
    match Arguments.read arguments with
    | .ok settings => .ok (.bundle settings)
    | .error .help => .ok .bundleHelp
    | .error (.fault cause) => .error (.arguments cause)
  | ["help"] => .ok .help
  | ["help", "bundle"] => .ok .bundleHelp
  | "--help" :: _ => .ok .help
  | first :: _ => if first.startsWith "-h" then .ok .help else .error (.unknownTask first)

/-! ### Texts -/

/-- How the command is called. -/
def help : String :=
  "Collects the module graph of TypeScript/TSX projects\n\n" ++
  "Usage: tsbundle <COMMAND>\n\n" ++
  "Commands:\n" ++
  "  bundle  Resolve every module reachable from an entry file\n" ++
  "  help    Print this message or the help of the given subcommand(s)\n\n" ++
  "Options:\n" ++
  "  -h, --help  Print help\n"

/-- How the task is called. -/
def bundleHelp : String :=
  "Resolve every module reachable from an entry file\n\n" ++
  "Usage: tsbundle bundle [OPTIONS] <ENTRY>\n\n" ++
  "Arguments:\n" ++
  "  <ENTRY>  Entry file of the bundle\n\n" ++
  "Options:\n" ++
  "      --order <ORDER>         Module order used for the report and the bundle output " ++
  "[default: dependency] [possible values: discovery, dependency]\n" ++
  "      --format <FORMAT>       Report format [default: text] [possible values: text, json]\n" ++
  "      --external <EXTERNALS>  Package provided at runtime instead of bundled (repeatable)\n" ++
  "      --output <OUTPUT>       Write the concatenated bundle to this file\n" ++
  "      --config <CONFIG>       JSON configuration file (defaults to ./tsbundle.json when present)\n" ++
  "      --follow-type-imports   Also follow `import type` edges\n" ++
  "  -h, --help                  Print help\n"

/-- The words for wrong arguments. -/
def argumentMessage : Arguments.Fault → String
  | .missingRequired => "a required argument is missing"
  | .unknownArgument => "an argument is not known"
  | .invalidValue => "a value is missing or not possible"
  | .tooManyValues => "an argument has a value and takes none"
  | .repeated => "an argument is given twice"

/-- The words for a refused call. -/
def Fault.message : Fault → String
  | .noTask => help
  | .unknownTask text => s!"error: unrecognized subcommand '{text}'\n\n" ++ help
  | .arguments cause => s!"error: {argumentMessage cause}\n\n" ++ bundleHelp

end ModuleBundler.Usage
