import ModuleBundler.Text.Utf8

/-!
# Comments in a settings file

A settings file is JSON with comments: on each line, what follows two slashes outside of a string is
dropped. A string is closed at the end of its line at the latest, so that every line stands for
itself. What is left are the lines joined by line feeds, whatever ended them before.

A line is read character by character, but it is cut at an offset, and offsets count bytes. A text
cannot be cut inside of a character; `slice?` has no answer there.
-/

namespace ModuleBundler.Comments

/-! ### One line -/

/-- What is known at a place in a line. -/
structure Scan where
  /-- Whether the place is inside a string. -/
  inString : Bool := false
  /-- Whether a backslash in the string escapes the next character. -/
  escaped : Bool := false
  /-- The character before. -/
  previous : Option Char := none
  deriving DecidableEq, Repr

namespace Scan

/-- What is known after one more character. -/
def next (s : Scan) (c : Char) : Scan :=
  if s.inString then
    if s.escaped then ⟨true, false, some c⟩
    else ⟨c != '"', c == '\\', some c⟩
  else ⟨c == '"', s.escaped, some c⟩

/-- Whether the next character is the second slash of a comment. -/
def opens (s : Scan) (c : Char) : Bool :=
  !s.inString && c == '/' && s.previous == some '/'

/-- The offset of the comment on a line, where `offset` bytes were read and characters are left. -/
def comment? (s : Scan) (offset : Nat) : List Char → Option Nat
  | [] => none
  | c :: rest =>
    if s.opens c then some (offset - 1) else (s.next c).comment? (offset + c.utf8Size) rest

end Scan

/-- The text in front of an offset, unless the offset is inside of a character or past the end. -/
def slice? (line : String) (offset : Nat) : Option String :=
  if offset ≤ (Utf8.encode line).length then Utf8.decode? ((Utf8.encode line).take offset) else none

/-- A line up to its comment. -/
def code (line : String) : String :=
  match Scan.comment? {} 0 line.toList with
  | none => line
  | some offset => (slice? line offset).getD ""

/-! ### All lines -/

/-- A line without the carriage return before its line feed. -/
def withoutReturn (line : List Char) : List Char :=
  if line.getLast? = some '\r' then line.dropLast else line

/-- The lines that pieces between line feeds make up. The last piece is a line only if there is
something in it, and no line feed follows it. -/
def linesOfPieces : List (List Char) → List (List Char)
  | [] => []
  | [last] => if last.isEmpty then [] else [last]
  | piece :: rest => withoutReturn piece :: linesOfPieces rest

/-- The lines of a text. -/
def lines (text : String) : List String :=
  (linesOfPieces (text.toList.splitOn '\n')).map String.ofList

/-- A text without its comments. -/
def drop (text : String) : String :=
  "\n".intercalate ((lines text).map code)

end ModuleBundler.Comments
