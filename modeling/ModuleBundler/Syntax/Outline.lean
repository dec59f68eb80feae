import ModuleBundler.Syntax.Node
import ModuleBundler.Syntax.Lexeme

/-!
# Outlines

The outline of a source is its tokens, with brackets, templates and markup nested. Most of it can be
read without knowing the grammar around it; two marks cannot:

* `/` divides, or starts a regular expression;
* `<` compares, or starts a markup element (only where the dialect has markup).

Both start something exactly where a value may start. So the outline is read with a small `Context`,
which says what may come next, and which each token moves on by one rule. Closing braces are the
interesting case: after a block a value may start, after an object or a function expression an
operator follows, and which of them a brace closes was settled where it was opened.

An element is only taken for one if it is closed: type parameters look like a tag, but what follows
them is no markup, and then `<` is a mark.

Every call consumes input or hands over to one that does, so a number of steps in the order of the
length of the input is enough; `outline` supplies it.
-/

namespace ModuleBundler.Outline

open Lexeme

/-! ### What may come next -/

/-- What a token may be followed by. -/
inductive Expect where
  /-- A statement. -/
  | statement
  /-- A value. -/
  | value
  /-- Something that goes on with a value. -/
  | operator
  deriving DecidableEq, Repr

/-- What stands before the next token. -/
structure Context where
  /-- What may come next. -/
  expect : Expect := .statement
  /-- The token before. -/
  previous : String := ""
  /-- A head that waits for its body, and what may follow that body. -/
  head : Option Expect := none
  /-- Whether a `case` waits for its colon. -/
  inCase : Bool := false
  deriving Repr

/-- Words whose parenthesis is followed by a statement. -/
def controlWords : List String := ["if", "while", "for", "with"]

/-- Words that a statement follows. -/
def clauseWords : List String := ["else", "do", "try", "finally"]

/-- Words that a value follows. -/
def valueWords : List String :=
  ["return", "throw", "typeof", "void", "delete", "new", "case", "yield", "await", "default",
    "extends", "export"]

/-- Words that a value follows where they stand behind a value, and that are names elsewhere. -/
def joiningWords : List String := ["in", "instanceof", "of", "as", "satisfies", "is"]

/-- Words whose braces are a body. -/
def headWords : List String := ["function", "class", "interface"]

/-- Whether the previous token makes the next word the name of a member. -/
def Context.isMember (c : Context) : Bool :=
  c.previous == "." || c.previous == "?." || c.previous == "#"

/-- The context after a value. -/
def Context.afterValue (c : Context) : Context :=
  { c with expect := .operator, previous := "" }

/-- The context after a word. -/
def Context.afterWord (c : Context) (word : String) : Context :=
  if c.isMember then c.afterValue
  else
    let next := { c with previous := word }
    if controlWords.contains word then { next with expect := .value }
    else if clauseWords.contains word then { next with expect := .statement }
    else if word = "await" ∧ c.previous = "for" then { next with expect := .value, previous := "for" }
    else if headWords.contains word then
      let declares := c.expect != .value || c.previous == "export" || c.previous == "default"
      { next with expect := .operator, head := some (if declares then .statement else .operator) }
    else if valueWords.contains word then
      let opensCase := word == "case" || (word == "default" && c.expect == .statement)
      { next with expect := .value, inCase := c.inCase || opensCase }
    else if joiningWords.contains word ∧ c.expect = .operator then { next with expect := .value }
    else { next with expect := .operator }

/-- The context after a mark that is no bracket. -/
def Context.afterMark (c : Context) (mark : String) : Context :=
  let next := { c with previous := mark, expect := Expect.value }
  if mark = "++" ∨ mark = "--" ∨ mark = "!" then
    { next with expect := if c.expect = .operator then .operator else .value }
  else if mark = ";" then { next with expect := .statement, head := none }
  else if mark = ":" ∧ c.inCase then { next with expect := .statement, inCase := false }
  else next

/-- What may follow the closing brace, if a brace opens here, and what its content starts with. -/
def Context.brace (c : Context) : Expect × Expect :=
  match c.expect with
  | .statement => (.statement, .statement)
  | .operator => (c.head.getD .statement, .statement)
  | .value =>
    if c.previous = "=>" then (.operator, .statement)
    else if c.previous = ">" ∧ c.head.isSome then (c.head.getD .statement, .statement)
    else (.operator, .value)

/-- The context after a bracket that opened with `mark`. -/
def Context.afterBracket (c : Context) (mark : String) : Context :=
  if mark = "(" ∧ controlWords.contains c.previous then
    { c with expect := .statement, previous := ")" }
  else if mark = "\x7b" then
    let isBody := c.expect = .operator ∨ (c.expect = .value ∧ c.previous = ">")
    { c with expect := c.brace.1, previous := "\x7d", head := if isBody then none else c.head }
  else { c with expect := .operator, previous := ")" }

/-- The context in which the content of a bracket starts. -/
def Context.inside (c : Context) (mark : String) : Context :=
  { expect := if mark = "\x7b" then c.brace.2 else .value }

/-! ### Tokens -/

/-- The text of a token, byte by byte. -/
def tokenText (bytes : Bytes) : String :=
  String.ofList (bytes.map fun b ↦ Char.ofNat b.toNat)

/-- Marks of more than one character that are read as a whole. -/
def longMarks : List String := ["=>", "...", "++", "--"]

/-- The length of the mark at the front. A question mark and a point belong together unless a digit
follows. -/
def markLength (input : Bytes) : Nat :=
  match longMarks.find? (starts · input) with
  | some mark => mark.length
  | none =>
    match input with
    | 0x3F :: 0x2E :: b :: _ => if isDigit b then 1 else 2
    | _ => 1

/-- The mark that closes a bracket. -/
def closer (mark : String) : String :=
  if mark = "(" then ")" else if mark = "[" then "]" else "\x7d"

/-- The node for a string of `length` bytes. -/
def stringNode (start length : Nat) : Node :=
  let stop := start + length
  let quotes (middle : List Node) : Node :=
    .mk .string none start stop
      (.leaf (.mark "quote") start (start + 1) ::
        (middle ++ [.leaf (.mark "quote") (stop - 1) stop]))
  if length ≤ 2 then quotes [] else quotes [.leaf .content (start + 1) (stop - 1)]

/-- A token that starts with neither a bracket nor a template nor markup. `!` goes on with a value
unless `=` follows. -/
structure Token where
  /-- The node for the token. -/
  node : Node
  /-- How many bytes it takes. -/
  length : Nat
  /-- The context after it. -/
  context : Context

/-- Whether the front is a comment in the form of markup, which reaches to the end of its line. -/
def startsMarkupComment (c : Context) (input : Bytes) : Bool :=
  (c.expect != .operator && starts "<!--" input) ||
    (c.expect == .statement && starts "-->" input)

/-- Whether the front is a number. -/
def startsNumber (c : Context) : Bytes → Bool
  | 0x2E :: b :: _ => isDigit b && c.expect != .operator
  | b :: _ => isDigit b
  | [] => false

/-- The length of the string at the front. -/
def stringLength? : Bytes → Option Nat
  | b :: rest => if b = 0x22 ∨ b = 0x27 then (quotedLength b rest).map (· + 1) else none
  | [] => none

/-- The length of the regular expression at the front. -/
def regexLength? (c : Context) : Bytes → Option Nat
  | 0x2F :: rest => if c.expect = .operator then none else (regexLength false rest).map (· + 1)
  | _ => none

/-- The token at the front of the input, which starts at `start`. -/
def token (c : Context) (start : Nat) (input : Bytes) : Token :=
  let leaf (kind : NodeKind) (length : Nat) (context : Context) : Token :=
    ⟨.leaf kind start (start + length), length, context⟩
  if commentLength input ≠ 0 then leaf .comment (commentLength input) c
  else if startsMarkupComment c input then leaf .comment (lineLength input) c
  else
    match stringLength? input, regexLength? c input with
    | some n, _ => ⟨stringNode start n, n, c.afterValue⟩
    | none, some n => leaf .regex n c.afterValue
    | none, none =>
      if startsNumber c input then leaf .number (numberLength input) c.afterValue
      else if wordLength input ≠ 0 then
        let word := tokenText (input.take (wordLength input))
        leaf (if c.isMember then .member word else .word word) (wordLength input) (c.afterWord word)
      else
        let mark := tokenText (input.take (markLength input))
        let goesOn := mark = "!" ∧ starts "!=" input
        leaf (.mark mark) (markLength input) (if goesOn then { c with previous := "!=", expect := .value }
          else c.afterMark mark)

/-! ### Nesting -/

/-- What was read: nodes, and where the rest of the input starts. -/
structure Reading (α : Type) where
  /-- What was read. -/
  value : α
  /-- Where the rest starts. -/
  start : Nat
  /-- The rest. -/
  rest : Bytes

/-- Passes over `n` bytes. -/
def Reading.skip {α : Type} (value : α) (start n : Nat) (input : Bytes) : Reading α :=
  ⟨value, start + n, input.drop n⟩

mutual

/-- Reads up to the mark that closes what is read, or to the end. The nodes come in reverse. -/
def nodes (markup : Bool) (closing : String) :
    Nat → Context → List Node → Nat → Bytes → Reading (List Node)
  | 0, _, read, start, input => ⟨read, start, input⟩
  | _ + 1, _, read, start, [] => ⟨read, start, []⟩
  | fuel + 1, c, read, start, b :: rest =>
    let input := b :: rest
    let mark := tokenText [b]
    let blank := blankLength input
    if blank ≠ 0 then nodes markup closing fuel c read (start + blank) (input.drop blank)
    else if mark = closing then ⟨read, start, input⟩
    else if mark = "(" ∨ mark = "[" ∨ mark = "\x7b" then
      let inner := bracket markup mark fuel (c.inside mark) start rest
      nodes markup closing fuel (c.afterBracket mark) (inner.value :: read) inner.start inner.rest
    else if b = 0x60 then
      let opening := Node.leaf (.mark "quote") start (start + 1)
      let inner := template markup fuel start [opening] (start + 1) rest
      nodes markup closing fuel c.afterValue (inner.value :: read) inner.start inner.rest
    else
      let asElement :=
        if markup ∧ mark = "<" ∧ c.expect ≠ .operator ∧ !startsMarkupComment c input then
          element fuel start (start + 1) rest
        else none
      match asElement with
      | some inner =>
        nodes markup closing fuel c.afterValue (inner.value :: read) inner.start inner.rest
      | none =>
        let t := token c start input
        nodes markup closing fuel t.context (t.node :: read) (start + t.length)
          (input.drop t.length)
termination_by structural n => n

/-- Reads the content of a bracket that opened at `start`, and its closing mark. -/
def bracket (markup : Bool) (mark : String) : Nat → Context → Nat → Bytes → Reading Node
  | 0, _, start, input => ⟨.leaf (.mark mark) start (start + 1), start + 1, input⟩
  | fuel + 1, c, start, input =>
    let opening := Node.leaf (.mark mark) start (start + 1)
    let inner := nodes markup (closer mark) fuel c [] (start + 1) input
    let parts := opening :: inner.value.reverse
    match inner.rest with
    | [] => ⟨.mk .group none start inner.start parts, inner.start, []⟩
    | _ :: rest =>
      let stop := inner.start + 1
      let closing := Node.leaf (.mark (closer mark)) inner.start stop
      ⟨.mk .group none start stop (parts ++ [closing]), stop, rest⟩
termination_by structural n => n

/-- Reads a template from inside it: text, and what stands between `${` and `}`. The parts come in
reverse. -/
def template (markup : Bool) : Nat → Nat → List Node → Nat → Bytes → Reading Node
  | 0, opened, parts, start, input => ⟨.mk .template none opened start parts.reverse, start, input⟩
  | fuel + 1, opened, parts, start, input =>
    let n := templateLength input
    let parts := if n = 0 then parts else .leaf .content start (start + n) :: parts
    let start := start + n
    match input.drop n with
    | 0x60 :: rest =>
      let closing := Node.leaf (.mark "quote") start (start + 1)
      ⟨.mk .template none opened (start + 1) (closing :: parts).reverse, start + 1, rest⟩
    | 0x24 :: rest =>
      let inner := bracket markup "\x7b" fuel ⟨.value, "", none, false⟩ (start + 1) (rest.drop 1)
      template markup fuel opened (inner.value :: parts) inner.start inner.rest
    | rest => ⟨.mk .template none opened start parts.reverse, start, rest⟩
termination_by structural n => n

/-- Reads an element from behind its first mark. -/
def element : Nat → Nat → Nat → Bytes → Option (Reading Node)
  | 0, _, _, _ => none
  | fuel + 1, opened, start, input =>
    let gap := gapLength fuel input
    let input := input.drop gap
    let start := start + gap
    if starts ">" input then content fuel opened [] (start + 1) (input.drop 1)
    else
      match tagNameLength input with
      | 0 => none
      | n =>
        attributes fuel opened [.leaf (.member "tag") start (start + n)] (start + n) (input.drop n)
termination_by structural n => n

/-- Reads the attributes of an opening tag and what follows it. The parts come in reverse. -/
def attributes : Nat → Nat → List Node → Nat → Bytes → Option (Reading Node)
  | 0, _, _, _, _ => none
  | fuel + 1, opened, parts, start, input =>
    let gap := gapLength fuel input
    let input := input.drop gap
    let start := start + gap
    match input with
    | [] => none
    | 0x3E :: rest => content fuel opened parts (start + 1) rest
    | 0x2F :: rest =>
      if starts ">" rest then
        some ⟨.mk .element none opened (start + 2) parts.reverse, start + 2, rest.drop 1⟩
      else none
    | 0x7B :: rest =>
      let inner := bracket true "\x7b" fuel ⟨.value, "", none, false⟩ start rest
      attributes fuel opened (inner.value :: parts) inner.start inner.rest
    | 0x3D :: rest =>
      let gap := gapLength fuel rest
      attributeValue fuel opened parts (start + 1 + gap) (rest.drop gap)
    | 0x3C :: rest =>
      let types := nodes true ">" fuel ⟨.operator, "", none, false⟩ [] (start + 1) rest
      if types.rest.isEmpty then none
      else attributes fuel opened (types.value ++ parts) (types.start + 1) (types.rest.drop 1)
    | b :: rest =>
      match tagNameLength (b :: rest) with
      | 0 => none
      | n => attributes fuel opened parts (start + n) (rest.drop (n - 1))
termination_by structural n => n

/-- Reads the value of an attribute, then the attributes after it. A quoted value has no escapes. -/
def attributeValue : Nat → Nat → List Node → Nat → Bytes → Option (Reading Node)
  | 0, _, _, _, _ => none
  | fuel + 1, opened, parts, start, input =>
    match input with
    | [] => none
    | 0x3C :: rest =>
      match element fuel start (start + 1) rest with
      | none => none
      | some inner => attributes fuel opened (inner.value :: parts) inner.start inner.rest
    | 0x7B :: rest =>
      let inner := bracket true "\x7b" fuel ⟨.value, "", none, false⟩ start rest
      attributes fuel opened (inner.value :: parts) inner.start inner.rest
    | b :: rest =>
      if b = 0x22 ∨ b = 0x27 then
        let n := (rest.takeWhile (· != b)).length
        if n = rest.length then none
        else
          attributes fuel opened (stringNode start (n + 2) :: parts) (start + n + 2)
            (rest.drop (n + 1))
      else none
termination_by structural n => n

/-- Reads what stands between an opening tag and its closing tag, and the closing tag. -/
def content : Nat → Nat → List Node → Nat → Bytes → Option (Reading Node)
  | 0, _, _, _, _ => none
  | fuel + 1, opened, parts, start, input =>
    let n := markupLength input
    let parts := if n = 0 then parts else .leaf .text start (start + n) :: parts
    let start := start + n
    match input.drop n with
    | 0x7B :: rest =>
      let inner := bracket true "\x7b" fuel ⟨.value, "", none, false⟩ start rest
      content fuel opened (inner.value :: parts) inner.start inner.rest
    | 0x3C :: rest =>
      let gap := gapLength fuel rest
      let tag := rest.drop gap
      if starts "/" tag then
        let name := gapLength fuel (tag.drop 1) + 1
        let name := name + tagNameLength (tag.drop name)
        let name := name + gapLength fuel (tag.drop name)
        let stop := start + 1 + gap + name + 1
        if starts ">" (tag.drop name) then
          some ⟨.mk .element none opened stop parts.reverse, stop, tag.drop (name + 1)⟩
        else none
      else
        match element fuel start (start + 1) rest with
        | none => none
        | some inner => content fuel opened (inner.value :: parts) inner.start inner.rest
    | _ => none
termination_by structural n => n

end

/-- The length of the line that names the interpreter of a file, if the file starts with one. -/
def interpreterLength (input : Bytes) : Nat :=
  let gap := gapLength input.length input
  if starts "#!" (input.drop gap) then gap + lineLength (input.drop gap) else 0

/-- The outline of a source. -/
def outline (markup : Bool) (source : Bytes) : List Node :=
  let n := interpreterLength source
  (nodes markup "" (2 * source.length + 2) {} [] n (source.drop n)).value.reverse

end ModuleBundler.Outline
