import ModuleBundler.Json.Value

/-!
# The tokens of JSON

A JSON text is cut into marks and values without parts. Numbers and words are cut off as the longest
run of characters they could be made of: no two values stand side by side in JSON, so whatever is
wrong with such a run is wrong with the text.
-/

namespace ModuleBundler

/-- A token of JSON. -/
inductive JsonToken where
  /-- A bracket, a colon or a comma. -/
  | mark (c : Char)
  /-- A value without parts. -/
  | scalar (value : JsonValue)
  deriving Repr

namespace JsonToken

/-- Whether a character only separates tokens. -/
def isBlank (c : Char) : Bool :=
  c = ' ' || c = '\n' || c = '\t' || c = '\r'

/-- Whether a character is a token of its own. -/
def isMark (c : Char) : Bool :=
  ['[', ']', '\x7b', '\x7d', ':', ','].contains c

/-! ### Strings -/

/-- The value of a hexadecimal digit. -/
def hexDigit? (c : Char) : Option Nat :=
  if c.isDigit then some (c.toNat - 48)
  else if 'a' ≤ c ∧ c ≤ 'f' then some (c.toNat - 87)
  else if 'A' ≤ c ∧ c ≤ 'F' then some (c.toNat - 55)
  else none

/-- The number that four hexadecimal digits write. -/
def unit? (digits : List Char) : Option Nat := do
  let values ← digits.mapM hexDigit?
  return values.foldl (fun n digit ↦ 16 * n + digit) 0

/-- Whether a unit is the first half of a surrogate pair. -/
def isFirstHalf (unit : Nat) : Bool := 0xD800 ≤ unit && unit < 0xDC00

/-- Whether a unit is the second half of a surrogate pair. -/
def isSecondHalf (unit : Nat) : Bool := 0xDC00 ≤ unit && unit < 0xE000

/-- The letter that a unit is as long as it stands alone. -/
def letterOfUnit (unit : Nat) : Letter :=
  if isFirstHalf unit || isSecondHalf unit then .half unit else .char (Char.ofNat unit)

/-- The letter that a backslash and the given character stand for. -/
def escaped? (c : Char) : Option Letter :=
  if c = '"' ∨ c = '\\' ∨ c = '/' then some (.char c)
  else if c = 'b' then some (.char '\x08')
  else if c = 'f' then some (.char '\x0c')
  else if c = 'n' then some (.char '\n')
  else if c = 'r' then some (.char '\r')
  else if c = 't' then some (.char '\t')
  else none

/-- The letter at the front of `text`, which stands in a string and does not end it, and what
follows the letter. -/
def letter? : List Char → Option (Letter × List Char)
  | '\\' :: 'u' :: text => do
    let unit ← unit? (text.take 4)
    if (text.take 4).length = 4 then some (letterOfUnit unit, text.drop 4) else none
  | '\\' :: c :: text => (escaped? c).map fun letter ↦ (letter, text)
  | c :: text => if c.toNat < 0x20 ∨ c = '\\' then none else some (.char c, text)
  | [] => none

theorem length_letter? {text after : List Char} {letter : Letter}
    (h : letter? text = some (letter, after)) : after.length < text.length := by
  unfold letter? at h
  split at h
  · simp only [Option.bind_eq_bind, Option.bind_eq_some_iff] at h
    obtain ⟨_, _, h⟩ := h
    split at h
    · simp only [Option.some.injEq, Prod.mk.injEq] at h
      simp only [← h.2, List.length_drop, List.length_cons]
      omega
    · simp at h
  · simp only [Option.map_eq_some_iff, Prod.mk.injEq] at h
    obtain ⟨_, _, _, rfl⟩ := h
    simp only [List.length_cons]
    omega
  · split at h
    · simp at h
    · simp only [Option.some.injEq, Prod.mk.injEq] at h
      simp [← h.2]
  · simp at h

/-- The letters up to the quote that ends a string, and what follows the quote. -/
def letters (text : List Char) : Option (List Letter × List Char) :=
  if text.head? = some '"' then some ([], text.tail)
  else
    match _h : letter? text with
    | none => none
    | some (letter, after) =>
      match letters after with
      | none => none
      | some (more, rest) => some (letter :: more, rest)
termination_by text.length
decreasing_by exact length_letter? _h

theorem length_letters {text : List Char} : ∀ {l : List Letter} {after : List Char},
    letters text = some (l, after) → after.length ≤ text.length := by
  fun_induction letters text with
  | case1 =>
    intro l after h
    simp only [Option.some.injEq, Prod.mk.injEq] at h
    rw [← h.2, List.length_tail]
    omega
  | case2 => simp
  | case3 => simp
  | case4 text _ _ after hletter more rest hrest ih =>
    intro l stop h
    simp only [Option.some.injEq, Prod.mk.injEq] at h
    have := length_letter? hletter
    have := ih hrest
    rw [← h.2]
    omega

/-- The character that two halves of a surrogate pair stand for. -/
def joined (first second : Nat) : Char :=
  Char.ofNat (0x10000 + (first - 0xD800) * 0x400 + (second - 0xDC00))

/-- Letters with the halves that stand side by side put together. -/
def joinHalves : List Letter → JsonString
  | .half first :: .half second :: rest =>
    if isFirstHalf first && isSecondHalf second then .char (joined first second) :: joinHalves rest
    else .half first :: joinHalves (.half second :: rest)
  | letter :: rest => letter :: joinHalves rest
  | [] => []

/-! ### Numbers and words -/

/-- Whether a character can stand in a number or in a word. -/
def isWordChar (c : Char) : Bool :=
  c.isAlphanum || c = '+' || c = '-' || c = '.'

/-- Whether characters are digits, and at least one. -/
def isDigits (cs : List Char) : Bool :=
  !cs.isEmpty && cs.all Char.isDigit

/-- Whether characters are a power of ten that ends a number, or nothing. -/
def isExponent : List Char → Bool
  | [] => true
  | e :: sign :: rest =>
    (e = 'e' || e = 'E') &&
      (if sign = '+' ∨ sign = '-' then isDigits rest else isDigits (sign :: rest))
  | [_] => false

/-- Whether characters are what may follow the whole part of a number. -/
def isFraction : List Char → Bool
  | '.' :: rest =>
    isDigits (rest.takeWhile Char.isDigit) && isExponent (rest.dropWhile Char.isDigit)
  | rest => isExponent rest

/-- Whether characters are a number without a sign. -/
def isUnsigned (cs : List Char) : Bool :=
  let whole := cs.takeWhile Char.isDigit
  (whole = ['0'] || (isDigits whole && whole.head? != some '0')) &&
    isFraction (cs.dropWhile Char.isDigit)

/-- Whether characters are a number. -/
def isNumber : List Char → Bool
  | '-' :: rest => isUnsigned rest
  | cs => isUnsigned cs

/-- The value that a run of characters is. -/
def word? (cs : List Char) : Option JsonValue :=
  if cs = "null".toList then some .null
  else if cs = "true".toList then some (.bool true)
  else if cs = "false".toList then some (.bool false)
  else if isNumber cs then some (.number (String.ofList cs))
  else none

/-! ### Texts -/

theorem length_dropWhile_le (p : Char → Bool) (cs : List Char) :
    (cs.dropWhile p).length ≤ cs.length :=
  (List.dropWhile_sublist p).length_le

/-- The tokens of a text, if it consists of tokens. -/
def tokens (text : List Char) : Option (List JsonToken) :=
  match text with
  | [] => some []
  | c :: rest =>
    if isBlank c then tokens rest
    else if isMark c then (tokens rest).map (.mark c :: ·)
    else if c = '"' then
      match _h : letters rest with
      | none => none
      | some (l, after) => (tokens after).map (.scalar (.string (joinHalves l)) :: ·)
    else
      match word? ((c :: rest).takeWhile isWordChar) with
      | none => none
      | some value => (tokens (rest.dropWhile isWordChar)).map (.scalar value :: ·)
termination_by text.length
decreasing_by
  · exact Nat.lt_succ_self _
  · exact Nat.lt_succ_self _
  · exact Nat.lt_succ_of_le (length_letters _h)
  · exact Nat.lt_succ_of_le (length_dropWhile_le _ _)

end JsonToken

end ModuleBundler
