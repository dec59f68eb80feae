/-!
# UTF-8

Files are bytes, and text is read out of them. `pieces` cuts a byte string into characters and
into pieces that are no text; `decode` refuses the second kind and `lossy` shows a replacement
character for each. A piece that is no text is as long as the part of it that could still have
become a character, and at least one byte.

What the cut rests on is the table `lead`: for a first byte, how many bytes are owed after it and
the bounds of the next one. The narrow bounds after `0xE0`, `0xED`, `0xF0` and `0xF4` are what
excludes overlong forms, surrogates and numbers past the last code point.
-/

namespace ModuleBundler

/-- The content of a file, or any text as it is stored. -/
abbrev Bytes := List UInt8

namespace Utf8

/-- The bytes of a text. -/
def encode (s : String) : Bytes :=
  s.toList.flatMap String.utf8EncodeChar

/-! ### Pieces -/

/-- One piece of a byte string. -/
inductive Piece where
  /-- A character. -/
  | char (c : Char)
  /-- As many bytes as stated, which begin no character. -/
  | malformed (length : Nat)
  /-- A character that the end of the string cuts off. -/
  | truncated
  deriving DecidableEq, Repr

/-- What a first byte past ASCII promises: the bytes owed after it, the bounds of the next of them,
and the bits it gives to the code point. -/
def lead (b : UInt8) : Option (Nat × UInt8 × UInt8 × Nat) :=
  if b < 0xC2 then none
  else if b ≤ 0xDF then some (1, 0x80, 0xBF, b.toNat - 0xC0)
  else if b = 0xE0 then some (2, 0xA0, 0xBF, 0)
  else if b = 0xED then some (2, 0x80, 0x9F, 0xD)
  else if b ≤ 0xEF then some (2, 0x80, 0xBF, b.toNat - 0xE0)
  else if b = 0xF0 then some (3, 0x90, 0xBF, 0)
  else if b ≤ 0xF3 then some (3, 0x80, 0xBF, b.toNat - 0xF0)
  else if b = 0xF4 then some (3, 0x80, 0x8F, 4)
  else none

/-- Reads the `owed` bytes that complete a character of which `seen` bytes are read and whose code
point so far is `value`; the first of them lies between `low` and `high`. -/
def tails (value seen : Nat) : Nat → UInt8 → UInt8 → Bytes → Piece × Bytes
  | 0, _, _, rest => (.char (Char.ofNat value), rest)
  | _ + 1, _, _, [] => (.truncated, [])
  | owed + 1, low, high, b :: rest =>
    if low ≤ b ∧ b ≤ high then
      tails (value * 64 + (b.toNat - 0x80)) (seen + 1) owed 0x80 0xBF rest
    else (.malformed seen, b :: rest)

/-- The first piece of the byte string `b :: rest`, and what follows it. -/
def front (b : UInt8) (rest : Bytes) : Piece × Bytes :=
  if b < 0x80 then (.char (Char.ofNat b.toNat), rest)
  else
    match lead b with
    | none => (.malformed 1, rest)
    | some (owed, low, high, value) => tails value 1 owed low high rest

theorem length_tails_le (value seen owed : Nat) (low high : UInt8) (bytes : Bytes) :
    (tails value seen owed low high bytes).2.length ≤ bytes.length := by
  fun_induction tails value seen owed low high bytes <;> simp_all
  omega

/-- Cutting off a piece makes the byte string shorter. -/
theorem length_front_le (b : UInt8) (bytes : Bytes) :
    (front b bytes).2.length ≤ bytes.length := by
  unfold front
  split
  · exact Nat.le_refl _
  · split
    · exact Nat.le_refl _
    · exact length_tails_le ..

/-- The pieces of a byte string, in order. -/
def pieces : Bytes → List Piece
  | [] => []
  | b :: bytes => (front b bytes).1 :: pieces (front b bytes).2
termination_by bytes => bytes.length
decreasing_by exact Nat.lt_succ_of_le (length_front_le b bytes)

/-! ### Reading -/

/-- Where a byte string stops being text. -/
inductive Fault where
  /-- A piece of `length` bytes at `index` begins no character. -/
  | malformed (length index : Nat)
  /-- The character that begins at `index` is cut off. -/
  | truncated (index : Nat)
  deriving DecidableEq, Repr

/-- The words for a fault. -/
def Fault.message : Fault → String
  | .malformed length index => s!"invalid utf-8 sequence of {length} bytes from index {index}"
  | .truncated index => s!"incomplete utf-8 byte sequence from index {index}"

/-- The characters of pieces that begin at `index`, or the first piece that is no character. -/
def characters (index : Nat) : List Piece → Except Fault (List Char)
  | [] => .ok []
  | .char c :: rest => (characters (index + c.utf8Size) rest).map (c :: ·)
  | .malformed length :: _ => .error (.malformed length index)
  | .truncated :: _ => .error (.truncated index)

/-- The text of a byte string, or the first piece of it that is no text. -/
def decode (bytes : Bytes) : Except Fault String :=
  (characters 0 (pieces bytes)).map String.ofList

/-- The text of a byte string, if all of it is text. -/
def decode? (bytes : Bytes) : Option String :=
  (decode bytes).toOption

/-- A piece as it is shown to a reader: what is no text shows as U+FFFD. -/
def Piece.shown : Piece → Char
  | .char c => c
  | .malformed _ => Char.ofNat 0xFFFD
  | .truncated => Char.ofNat 0xFFFD

/-- A byte string as it is shown to a reader. -/
def lossy (bytes : Bytes) : String :=
  String.ofList ((pieces bytes).map Piece.shown)

end Utf8

end ModuleBundler
