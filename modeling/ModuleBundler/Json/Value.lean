/-!
# JSON values

A JSON string is a sequence of sixteen-bit units, and nothing in the format asks that the halves of
surrogate pairs stand together. `Letter` keeps what the format allows: characters, and halves that
stand alone. Only strings without such halves are text (`JsonString.text?`).

A number is kept as it is written. Objects keep their members in order, also if a key comes twice.
-/

namespace ModuleBundler

/-- A letter of a JSON string. -/
inductive Letter where
  /-- A character. -/
  | char (c : Char)
  /-- Half of a surrogate pair that stands alone. -/
  | half (unit : Nat)
  deriving DecidableEq, Repr

/-- A JSON string. -/
abbrev JsonString := List Letter

namespace JsonString

/-- A text as a JSON string. -/
def ofText (text : String) : JsonString :=
  text.toList.map .char

/-- The character a letter is. -/
def char? : Letter → Option Char
  | .char c => some c
  | .half _ => none

/-- The text a JSON string is, if it is text. -/
def text? (s : JsonString) : Option String :=
  (s.mapM char?).map String.ofList

end JsonString

/-- A JSON value. -/
inductive JsonValue where
  /-- The value `null`. -/
  | null
  /-- A truth value. -/
  | bool (b : Bool)
  /-- A number as it is written. -/
  | number (literal : String)
  /-- A string. -/
  | string (s : JsonString)
  /-- A list of values. -/
  | array (items : List JsonValue)
  /-- A list of values under keys. -/
  | object (members : List (JsonString × JsonValue))
  deriving Repr

namespace JsonValue

/-- A text as a JSON value. -/
def text (s : String) : JsonValue :=
  .string (.ofText s)

/-- A natural number as a JSON value. -/
def nat (n : Nat) : JsonValue :=
  .number (toString n)

/-- A list of texts as a JSON value. -/
def texts (l : List String) : JsonValue :=
  .array (l.map text)

/-- Values under keys that are text. -/
def record (members : List (String × JsonValue)) : JsonValue :=
  .object (members.map fun member ↦ (.ofText member.1, member.2))

end JsonValue

end ModuleBundler
