import ModuleBundler.Settings.Basic

/-!
# Arguments of the command

The arguments are read one by one. An argument that takes a value is not settled when it is read:
its value is checked when the next argument that stands for something begins, or at the end. So an
argument that is not known at all is refused before a wrong value in front of it.

After `--` every argument is a value, also if it looks like an option.
-/

namespace ModuleBundler.Arguments

/-- What is wrong with arguments. -/
inductive Fault where
  /-- There is no entry file. -/
  | missingRequired
  /-- An argument is not known, or there is no place left for a value. -/
  | unknownArgument
  /-- A value is missing, empty or none of the possible ones. -/
  | invalidValue
  /-- A value is given to an argument that takes none. -/
  | tooManyValues
  /-- An argument is given twice. -/
  | repeated
  deriving DecidableEq, Repr

/-- Why reading stops before the end. -/
inductive Stop where
  /-- Something is wrong. -/
  | fault (cause : Fault)
  /-- Help is asked for. -/
  | help
  deriving DecidableEq, Repr

/-! ### Single arguments -/

/-- What an argument looks like. -/
inductive Argument where
  /-- The mark after which all arguments are values. -/
  | separator
  /-- A long option, perhaps with a value behind an equals sign. -/
  | long (name : String) (value : Option String)
  /-- Short options. -/
  | short (letters : List Char)
  /-- A value. -/
  | value (text : String)
  deriving DecidableEq, Repr

/-- The long option whose text after the dashes is given. -/
def Argument.ofLong (text : List Char) : Argument :=
  let name := text.takeWhile (· != '=')
  let given := match text.dropWhile (· != '=') with
    | [] => none
    | _ :: rest => some (String.ofList rest)
  .long (String.ofList name) given

/-- What an argument looks like. -/
def Argument.ofText (text : String) : Argument :=
  match text.toList with
  | ['-', '-'] => .separator
  | '-' :: '-' :: rest => .ofLong rest
  | ['-'] => .value text
  | '-' :: letters => .short letters
  | _ => .value text

/-- The options that take a value. -/
inductive ValuedOption where
  /-- The order of the bundle. -/
  | order
  /-- The format of the report. -/
  | format
  /-- A package that is left out of the bundle. -/
  | external
  /-- The file that the bundle is written to. -/
  | output
  /-- The settings file. -/
  | config
  deriving DecidableEq, Repr

/-- What a long option means. -/
inductive Meaning where
  /-- An option that takes a value. -/
  | valued (option : ValuedOption)
  /-- To follow references that only use types. -/
  | followTypes
  /-- To show help. -/
  | help
  deriving DecidableEq, Repr

/-- What the long options mean. -/
def meanings : List (String × Meaning) :=
  [("order", .valued .order), ("format", .valued .format), ("external", .valued .external),
    ("output", .valued .output), ("config", .valued .config),
    ("follow-type-imports", .followTypes), ("help", .help)]

/-! ### What is settled -/

/-- The arguments that are settled. -/
structure Settled where
  /-- The entry file. -/
  entry : Option String := none
  /-- The order of the bundle. -/
  order : Option Order := none
  /-- The format of the report. -/
  format : Option Format := none
  /-- The packages that are left out of the bundle. -/
  externals : List String := []
  /-- The file that the bundle is written to. -/
  output : Option String := none
  /-- The settings file. -/
  config : Option String := none
  /-- Whether references that only use types are followed. -/
  followTypes : Bool := false
  deriving DecidableEq, Repr

/-- The order that a value names. -/
def order? (value : String) : Option Order :=
  [("discovery", Order.discovery), ("dependency", Order.dependency)].lookup value

/-- The format that a value names. -/
def format? (value : String) : Option Format :=
  [("text", Format.text), ("json", Format.json)].lookup value

/-- The path that a value names. -/
def path? (value : String) : Option String :=
  if value.isEmpty then none else some value

/-- What is settled once an option that may be given once has a value: `read` tells what the value
is. -/
def once {α : Type} (present : Option α) (read : String → Option α) (value : String)
    (set : α → Settled) : Except Stop Settled :=
  if present.isSome then .error (.fault .repeated)
  else
    match read value with
    | some a => .ok (set a)
    | none => .error (.fault .invalidValue)

namespace Settled

/-- What is settled with the value of an option. -/
def set (s : Settled) (option : ValuedOption) (value : String) : Except Stop Settled :=
  match option with
  | .order => once s.order order? value fun order ↦ { s with order }
  | .format => once s.format format? value fun format ↦ { s with format := some format }
  | .external => .ok { s with externals := s.externals ++ [value] }
  | .output => once s.output path? value fun output ↦ { s with output }
  | .config => once s.config path? value fun config ↦ { s with config }

/-- The settings, if nothing is missing. -/
def settings (s : Settled) : Except Stop Settings :=
  match s.entry with
  | none => .error (.fault .missingRequired)
  | some entry =>
    .ok ⟨entry, s.order, s.format.getD .text, s.externals, s.output, s.config, s.followTypes⟩

end Settled

/-! ### Reading -/

/-- An argument that is not settled. -/
inductive Pending where
  /-- The entry file. -/
  | entry (value : String)
  /-- An option and its value, if that was read. -/
  | option (option : ValuedOption) (value : Option String)
  deriving DecidableEq, Repr

/-- Where the reading of arguments stands. -/
structure Reading where
  /-- What is settled. -/
  settled : Settled := {}
  /-- What is read but not settled. -/
  pending : Option Pending := none
  /-- Whether the entry file was read. -/
  hasEntry : Bool := false
  /-- Whether all that follows are values. -/
  onlyValues : Bool := false
  deriving DecidableEq, Repr

namespace Reading

/-- The reading with nothing pending. -/
def settle (r : Reading) : Except Stop Reading :=
  match r.pending with
  | none => .ok r
  | some (.entry value) => do
    let settled ← once r.settled.entry path? value fun entry ↦ { r.settled with entry }
    return { r with settled, pending := none }
  | some (.option _ none) => .error (.fault .invalidValue)
  | some (.option option (some value)) => do
    return { r with settled := ← r.settled.set option value, pending := none }

/-- The reading after a value. -/
def value (r : Reading) (text : String) : Except Stop Reading :=
  match r.pending, r.onlyValues with
  | some (.option option none), false => .ok { r with pending := some (.option option (some text)) }
  | _, _ =>
    if r.hasEntry then .error (.fault .unknownArgument)
    else do
      let r ← r.settle
      return { r with pending := some (.entry text), hasEntry := true }

/-- The reading after a long option. -/
def long (r : Reading) (name : String) (value : Option String) : Except Stop Reading :=
  match meanings.lookup name, value with
  | none, _ => .error (.fault .unknownArgument)
  | some (.valued option), none => do
    let r ← r.settle
    return { r with pending := some (.option option none) }
  | some (.valued option), some value => do
    let r ← r.settle
    return { r with settled := ← r.settled.set option value }
  | some _, some _ => .error (.fault .tooManyValues)
  | some .followTypes, none => do
    let r ← r.settle
    if r.settled.followTypes then .error (.fault .repeated)
    else return { r with settled := { r.settled with followTypes := true } }
  | some .help, none => do
    let _ ← r.settle
    .error .help

/-- The reading after short options: there is one, which asks for help. -/
def short (r : Reading) (letters : List Char) : Except Stop Reading :=
  if letters.head? = some 'h' then do
    let _ ← r.settle
    .error .help
  else .error (.fault .unknownArgument)

/-- The reading after one more argument. -/
def step (r : Reading) (text : String) : Except Stop Reading :=
  if r.onlyValues then r.value text
  else
    match Argument.ofText text with
    | .separator => .ok { r with onlyValues := true }
    | .long name value => r.long name value
    | .short letters => r.short letters
    | .value text => r.value text

end Reading

/-- The settings that arguments ask for. -/
def read (arguments : List String) : Except Stop Settings := do
  let r ← arguments.foldlM Reading.step {}
  let r ← r.settle
  r.settled.settings

end ModuleBundler.Arguments
