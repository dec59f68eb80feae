import ModuleBundler.Json.Value

/-!
# Writing JSON

Values are written over several lines, one item or member a line, indented by two blanks for each
value around it; empty arrays and objects stay on one line. Strings escape what the format does not
take as it is, by a letter where there is one.
-/

namespace ModuleBundler.JsonValue

/-- A number in hexadecimal, with zeros in front up to `width` digits. -/
def hexadecimal (width n : Nat) : String :=
  let digits := Nat.toDigits 16 n
  String.ofList (List.replicate (width - digits.length) '0' ++ digits)

/-- A character as it stands inside a string. -/
def escape (c : Char) : String :=
  if c = '"' then "\\\""
  else if c = '\\' then "\\\\"
  else if c = '\x08' then "\\b"
  else if c = '\x0c' then "\\f"
  else if c = '\n' then "\\n"
  else if c = '\r' then "\\r"
  else if c = '\t' then "\\t"
  else if c.toNat < 0x20 then "\\u" ++ hexadecimal 4 c.toNat
  else c.toString

/-- A letter as it stands inside a string. -/
def writtenLetter : Letter → String
  | .char c => escape c
  | .half unit => "\\u" ++ hexadecimal 4 unit

/-- A string with its quotes. -/
def quoted (s : JsonString) : String :=
  "\"" ++ String.join (s.map writtenLetter) ++ "\""

/-- A line end, and the blanks in front of a line that stands inside `depth` values. -/
def newLine (depth : Nat) : String :=
  "\n" ++ String.ofList (List.replicate (2 * depth) ' ')

/-- Lines that stand inside `depth` values, between two brackets. -/
def bracketed (left right : String) (depth : Nat) (lines : List String) : String :=
  if lines.isEmpty then left ++ right
  else
    left ++ newLine (depth + 1) ++ (("," ++ newLine (depth + 1)).intercalate lines) ++
      newLine depth ++ right

mutual

/-- A value as it is written inside `depth` others. -/
def pretty (depth : Nat) : JsonValue → String
  | .null => "null"
  | .bool b => if b then "true" else "false"
  | .number literal => literal
  | .string s => quoted s
  | .array items => bracketed "[" "]" depth (prettyItems (depth + 1) items)
  | .object members => bracketed "\x7b" "\x7d" depth (prettyMembers (depth + 1) members)

/-- The items of an array as they are written. -/
def prettyItems (depth : Nat) : List JsonValue → List String
  | [] => []
  | item :: rest => pretty depth item :: prettyItems depth rest

/-- The members of an object as they are written. -/
def prettyMembers (depth : Nat) : List (JsonString × JsonValue) → List String
  | [] => []
  | (key, value) :: rest =>
    (quoted key ++ ": " ++ pretty depth value) :: prettyMembers depth rest

end

end ModuleBundler.JsonValue
