import ModuleBundler.Disk.Calls
import ModuleBundler.Json.Reader
import ModuleBundler.Settings.Basic
import ModuleBundler.Settings.Comments

/-!
# Settings files

A settings file holds an object, or the values of its members as a list. A key that is not known is
left alone, whatever stands under it; a known one may not come twice. `null` leaves open what is
under it, where something may be left open.
-/

namespace ModuleBundler

/-- The text that a value is. -/
def JsonValue.text? : JsonValue → Option String
  | .string s => s.text?
  | _ => none

namespace FileSettings

/-- The order of a name. -/
def orderNamed? (name : String) : Option Order :=
  if name = "discovery" then some .discovery
  else if name = "dependency" then some .dependency
  else none

/-- The order that a value is: its name, or an object with `null` under its name. -/
def order? : JsonValue → Option Order
  | .object [(key, .null)] => key.text?.bind orderNamed?
  | value => value.text?.bind orderNamed?

/-- The truth value that a value is. -/
def bool? : JsonValue → Option Bool
  | .bool b => some b
  | _ => none

/-- The list of texts that a value is. -/
def texts? : JsonValue → Option (List String)
  | .array items => items.mapM JsonValue.text?
  | _ => none

/-- What `read` makes of a value, where `null` stands for nothing. -/
def orNull {α : Type} (read : JsonValue → Option α) : JsonValue → Option (Option α)
  | .null => some none
  | value => (read value).map some

/-- The settings with the value under a known key. -/
def set (settings : FileSettings) (key : String) (value : JsonValue) : Option FileSettings :=
  if key = "externals" then (texts? value).map fun externals ↦ { settings with externals }
  else if key = "order" then (orNull order? value).map fun order ↦ { settings with order }
  else if key = "followTypeImports" then
    (orNull bool? value).map fun followTypes ↦ { settings with followTypes }
  else some settings

/-- The keys that mean something, in the order of a list of their values. -/
def keys : List String := ["externals", "order", "followTypeImports"]

/-- The settings that members make up. Keys have to be text, and the known ones differ. -/
def ofMembers (members : List (JsonString × JsonValue)) : Option FileSettings := do
  let named ← members.mapM fun member ↦ member.1.text?.map fun key ↦ (key, member.2)
  let known := (named.map Prod.fst).filter keys.contains
  if known.eraseDups.length = known.length then
    named.foldlM (fun settings member ↦ settings.set member.1 member.2) {}
  else none

/-- The settings that a value is. -/
def ofJson? : JsonValue → Option FileSettings
  | .object members => ofMembers members
  | .array items =>
    if items.length ≤ keys.length then
      (keys.zip items).foldlM (fun settings member ↦ settings.set member.1 member.2) {}
    else none
  | _ => none

/-- The settings that a text writes. -/
def ofText? (text : String) : Option FileSettings :=
  (JsonValue.read? (Comments.drop text)).bind ofJson?

end FileSettings

/-! ### Reading a settings file -/

/-- Why there is no text in a file. -/
inductive TextFault where
  /-- The system does not give the content of the file. -/
  | os (cause : OsFault)
  /-- The content is no text. -/
  | notUtf8
  deriving DecidableEq, Repr

/-- The words for a fault. -/
def TextFault.message : TextFault → String
  | .os cause => cause.message
  | .notUtf8 => "stream did not contain valid UTF-8"

/-- What is wrong with the settings file at `path`. -/
inductive ConfigFault where
  /-- It cannot be read. -/
  | unreadable (path : String) (cause : TextFault)
  /-- It does not say what settings files say. -/
  | malformed (path : String)
  deriving DecidableEq, Repr

/-- The words for a fault. -/
def ConfigFault.message : ConfigFault → String
  | .unreadable path _ => s!"Failed to read config {path}"
  | .malformed path => s!"Failed to parse config {path}"

/-- The text in a file. -/
def Disk.readText (d : Disk) (cwd : Place) (path : String) : Except TextFault String :=
  match d.contentAt cwd path with
  | .error cause => .error (.os cause)
  | .ok bytes =>
    match Utf8.decode? bytes with
    | some text => .ok text
    | none => .error .notUtf8

namespace FileSettings

/-- What the settings file at `path` says. -/
def read (d : Disk) (cwd : Place) (path : String) : Except ConfigFault FileSettings :=
  match d.readText cwd path with
  | .error cause => .error (.unreadable path cause)
  | .ok text =>
    match ofText? text with
    | some settings => .ok settings
    | none => .error (.malformed path)

/-- The name of the settings file that is used where no other is given. -/
def defaultName : String := "tsbundle.json"

/-- The settings file for a run, if there is one: the one that is given, or else the one that stands
in the working directory. -/
def pathFor (d : Disk) (cwd : Place) (given : Option String) : Option String :=
  let default := Place.text (cwd ++ [defaultName])
  given <|> if d.leadsToFile cwd default then some default else none

end FileSettings

/-- The settings with what the settings file adds, if there is one. -/
def Settings.complete (s : Settings) (d : Disk) (cwd : Place) : Except ConfigFault Settings :=
  match FileSettings.pathFor d cwd s.config with
  | none => .ok s
  | some path => (FileSettings.read d cwd path).map s.merge

end ModuleBundler
