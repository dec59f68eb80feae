import ModuleBundler.Text.Utf8

/-!
# Lexemes

The smallest parts of a source, measured on its bytes: how many bytes at the front of a byte string
are a blank, a comment, a word, a number, a string or a regular expression. A length of zero says
that none stands there.

A source is read as bytes so that a file which is no text can still be read; all marks of the
grammar are ASCII, and the bytes past ASCII are letters unless they spell one of the blanks of
`blankLength`.
-/

namespace ModuleBundler.Lexeme

/-- The byte of an ASCII character. -/
def byte (c : Char) : UInt8 := c.toNat.toUInt8

/-- The bytes of an ASCII text. -/
def bytes (s : String) : Bytes := s.toList.map byte

/-- Whether the byte string starts with the ASCII text `s`. -/
def starts (s : String) (input : Bytes) : Bool := (bytes s).isPrefixOf input

/-! ### Blanks and comments -/

/-- The length of the line end past ASCII at the front: U+2028 or U+2029. -/
def wideLineEnd : Bytes → Nat
  | 0xE2 :: 0x80 :: 0xA8 :: _ => 3
  | 0xE2 :: 0x80 :: 0xA9 :: _ => 3
  | _ => 0

/-- The length of the blank at the front: a space, a control character that separates, the byte
order mark, a line end, or one of the spaces past ASCII. -/
def blankLength : Bytes → Nat
  | 0xC2 :: 0xA0 :: _ => 2
  | 0xE1 :: 0x9A :: 0x80 :: _ => 3
  | 0xE2 :: 0x80 :: b :: _ => if b ≤ 0x8B ∨ b = 0xA8 ∨ b = 0xA9 ∨ b = 0xAF then 3 else 0
  | 0xE2 :: 0x81 :: b :: _ => if b = 0x9F ∨ b = 0xA0 then 3 else 0
  | 0xE3 :: 0x80 :: 0x80 :: _ => 3
  | 0xEF :: 0xBB :: 0xBF :: _ => 3
  | b :: _ => if b = 0x20 ∨ (0x09 ≤ b ∧ b ≤ 0x0D) then 1 else 0
  | [] => 0

/-- The length of the line at the front, without its end. -/
def lineLength : Bytes → Nat
  | [] => 0
  | b :: rest =>
    if b = 0x0A ∨ b = 0x0D ∨ wideLineEnd (b :: rest) ≠ 0 then 0 else lineLength rest + 1

/-- The length up to and with the end of a block comment, from inside it. -/
def blockLength : Bytes → Nat
  | [] => 0
  | 0x2A :: 0x2F :: _ => 2
  | _ :: rest => blockLength rest + 1

/-- The length of the comment at the front. -/
def commentLength (input : Bytes) : Nat :=
  if starts "//" input then lineLength input
  else if starts "/*" input then blockLength (input.drop 2) + 2
  else 0

/-- The length of the blanks and comments at the front; `fuel` bounds how many there are. -/
def gapLength : Nat → Bytes → Nat
  | 0, _ => 0
  | fuel + 1, input =>
    match max (blankLength input) (commentLength input) with
    | 0 => 0
    | n + 1 => n + 1 + gapLength fuel (input.drop (n + 1))

/-! ### Words and numbers -/

/-- Whether the byte is an ASCII digit. -/
def isDigit (b : UInt8) : Bool := 0x30 ≤ b && b ≤ 0x39

/-- Whether the byte is an ASCII letter, `_`, `$` or a backslash, with which a letter can be
written as an escape. -/
def isLetter (b : UInt8) : Bool :=
  (0x61 ≤ b && b ≤ 0x7A) || (0x41 ≤ b && b ≤ 0x5A) || b == 0x5F || b == 0x24 || b == 0x5C

/-- Whether the byte continues a word. -/
def isWordByte (b : UInt8) : Bool := isLetter b || isDigit b || 0x80 ≤ b

/-- The length of the word at the front. The braces of an escape belong to it; an escape that is
never closed goes on to the end. -/
def wordLength : Bytes → Nat
  | [] => 0
  | 0x5C :: 0x75 :: 0x7B :: rest =>
    let digits := (rest.takeWhile (· != 0x7D)).length
    min (digits + 1) rest.length + 3 + wordLength (rest.drop (digits + 1))
  | b :: rest => if isWordByte b && blankLength (b :: rest) == 0 then wordLength rest + 1 else 0
termination_by input => input.length
decreasing_by
  · simp only [List.length_drop, List.length_cons]
    omega
  · simp only [List.length_cons]
    omega

/-- The length of the decimal digits at the front, with the marks between them. -/
def digitsLength (input : Bytes) : Nat :=
  (input.takeWhile fun b ↦ isDigit b || b == 0x5F).length

/-- The length of the exponent at the front. -/
def exponentLength : Bytes → Nat
  | e :: rest =>
    if e = 0x65 ∨ e = 0x45 then
      match rest with
      | sign :: digits =>
        if sign = 0x2B ∨ sign = 0x2D then digitsLength digits + 2
        else digitsLength (sign :: digits) + 1
      | [] => 1
    else 0
  | [] => 0

/-- The length of the number at the front. A zero with a letter starts a number in another base. -/
def numberLength (input : Bytes) : Nat :=
  let whole := digitsLength input
  match input.drop whole with
  | 0x2E :: fraction =>
    let n := whole + 1 + digitsLength fraction
    n + exponentLength (input.drop n)
  | rest =>
    match exponentLength rest with
    | 0 => whole + wordLength rest
    | n => whole + n

/-! ### Literals -/

/-- The length up to and with the quote that closes a string, from inside it; `none` where the line
ends first. A backslash takes the next character with it, and a line end after a backslash does not
end the string. -/
def quotedLength (quote : UInt8) : Bytes → Option Nat
  | [] => none
  | 0x5C :: 0x0D :: 0x0A :: rest => (quotedLength quote rest).map (· + 3)
  | 0x5C :: _ :: rest => (quotedLength quote rest).map (· + 2)
  | b :: rest =>
    if b = quote then some 1
    else if b = 0x0A ∨ b = 0x0D then none
    else (quotedLength quote rest).map (· + 1)

/-- The length of a regular expression after its first slash, with its flags; `none` where the line
ends first. A slash between square brackets does not close it. -/
def regexLength (inClass : Bool) : Bytes → Option Nat
  | [] => none
  | 0x5C :: b :: rest => if b = 0x0A then none else (regexLength inClass rest).map (· + 2)
  | b :: rest =>
    if b = 0x0A then none
    else if b = 0x2F ∧ !inClass then some (1 + wordLength rest)
    else if b = 0x5B then (regexLength true rest).map (· + 1)
    else if b = 0x5D then (regexLength false rest).map (· + 1)
    else (regexLength inClass rest).map (· + 1)

/-- The length of the text of a template up to its next `${` or its closing mark. -/
def templateLength : Bytes → Nat
  | [] => 0
  | 0x5C :: _ :: rest => templateLength rest + 2
  | 0x60 :: _ => 0
  | 0x24 :: 0x7B :: _ => 0
  | _ :: rest => templateLength rest + 1

/-- The length of the text between markup tags. -/
def markupLength (input : Bytes) : Nat :=
  (input.takeWhile fun b ↦ b != 0x3C && b != 0x3E && b != 0x7B && b != 0x7D).length

/-- The length of the name of a tag or attribute: a word whose parts may be joined by `-`, `.` and
`:`. -/
def tagNameLength (input : Bytes) : Nat :=
  if wordLength input = 0 then 0
  else (input.takeWhile fun b ↦ isWordByte b || b == 0x2D || b == 0x2E || b == 0x3A).length

end ModuleBundler.Lexeme
