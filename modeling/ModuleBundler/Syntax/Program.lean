import ModuleBundler.Syntax.Engine
import ModuleBundler.Syntax.Outline

/-!
# Programs

The syntax tree of a file: its outline, in which the statements that refer to other modules and the
calls of `import` are put together. All else stays as it is in the outline, for what a file refers
to depends on nothing else.

A statement is recognised by its tokens alone, wherever it stands: `import` and `export` are
reserved words, so nothing else can look like one of these statements. What stands behind a point,
and the content of literals and markup, is no word of the outline and never starts a statement.

Each form is a `Rule` over the siblings that follow one another. A rule passes over comments, which
thus become children of the statement they are written in.

This makes up one engine, `Program.engine`, which a run uses if it is given no other. What is true of
modules and bundles does not rest on it.
-/

namespace ModuleBundler

namespace Program

/-! ### Rules -/

/-- Reads siblings: the nodes to keep, and how many siblings they were. -/
abbrev Rule := List Node → Option (List Node × Nat)

namespace Rule

/-- One sibling behind any comments, as `accept` turns it into nodes. -/
def one (accept : Node → Option (List Node)) : Rule
  | [] => none
  | n :: rest =>
    if n.kind = .comment then (one accept rest).map fun (nodes, k) ↦ (n :: nodes, k + 1)
    else (accept n).map (·, 1)

/-- One rule, then another. -/
def andThen (first second : Rule) : Rule := fun siblings ↦ do
  let (nodes, k) ← first siblings
  let (more, m) ← second (siblings.drop k)
  return (nodes ++ more, k + m)

/-- The first rule, or else the second. -/
def orElse (first second : Rule) : Rule := fun siblings ↦
  (first siblings).or (second siblings)

/-- The rule where it applies. -/
def maybe (rule : Rule) : Rule := fun siblings ↦ (rule siblings).or (some ([], 0))

/-- The nodes of a rule as one node; comments in front of it stay outside. -/
def wrapped (kind : NodeKind) (rule : Rule) : Rule := fun siblings ↦
  (rule siblings).map fun (nodes, k) ↦
    let comments := nodes.takeWhile (·.kind = .comment)
    (comments ++ [Node.around kind (nodes.drop comments.length)], k)

/-- A fixed word. -/
def keyword (text : String) : Rule :=
  one fun n ↦ if n.kind = .word text then some [n.withKind (.keyword text)] else none

/-- Any word. -/
def word : Rule :=
  one fun n ↦
    match n.kind with
    | .word _ => some [n]
    | _ => none

/-- A mark. -/
def mark (text : String) : Rule :=
  one fun n ↦ if n.kind = .mark text then some [n] else none

/-- A string literal. -/
def string : Rule :=
  one fun n ↦ if n.kind = .string then some [n] else none

/-- A string literal that names a module. -/
def source : Rule :=
  one fun n ↦ if n.kind = .string then some [n.withLabel .source] else none

end Rule

/-- Whether a node is a bracket that opens with the mark. -/
def opensWith (text : String) (n : Node) : Bool :=
  n.kind == .group && (n.children.head?.map Node.kind) == some (.mark text)

open Rule

/-- Braces and what stands between them. -/
def braces : Rule :=
  one fun n ↦ if opensWith "\x7b" n then some [n] else none

/-- A string literal in parentheses, which names a module. -/
def sourceInParentheses : Rule :=
  one fun n ↦
    if opensWith "(" n ∧ (n.children.drop 1).dropLast.countP (·.kind ≠ .comment) = 1 ∧
        n.children.any (·.kind = .string) then
      some (n.children.map fun part ↦ if part.kind = .string then part.withLabel .source else part)
    else none

/-! ### Statements -/

/-- `from` and the module it names. -/
def fromSource : Rule := (keyword "from").andThen source

/-- `as` and a name. -/
def otherName : Rule := (keyword "as").andThen (word.orElse string)

/-- `* as` and a name. -/
def wholeModule : Rule := (mark "*").andThen otherName

/-- What an import statement binds. -/
def importClause : Rule :=
  let several := wholeModule.orElse braces
  wrapped .clause <| several.orElse <| word.andThen <| maybe <| (mark ",").andThen several

/-- A name, and `require` with the module in parentheses. -/
def requireClause : Rule :=
  wrapped .requireClause <|
    word.andThen <| (mark "=").andThen <| (keyword "require").andThen sourceInParentheses

/-- What may follow `import`, or the word that limits an import to types. -/
def imported : Rule :=
  (importClause.andThen fromSource).orElse <| requireClause.orElse source

/-- The attributes and the semicolon behind a source. -/
def statementEnd : Rule :=
  (maybe (((keyword "with").orElse (keyword "assert")).andThen braces)).andThen (maybe (mark ";"))

/-- An import statement. A word that limits it is only taken for one where it cannot be the name
that is bound. -/
def importStatement : Rule :=
  let limited := ((keyword "type").orElse (keyword "typeof")).andThen imported
  wrapped .importStatement <|
    (keyword "import").andThen <| (imported.orElse limited).andThen statementEnd

/-- An export statement that names a source. -/
def exportStatement : Rule :=
  let names :=
    (wrapped .clause <| ((mark "*").andThen (maybe otherName)).orElse braces).andThen fromSource
  wrapped .exportStatement <|
    (keyword "export").andThen <|
      (names.orElse ((keyword "type").andThen names)).andThen statementEnd

/-! ### Calls -/

/-- The siblings up to the mark that closes `depth` angle brackets. -/
def angles (depth : Nat) : Rule
  | [] => none
  | n :: rest =>
    let more (depth : Nat) := (angles depth rest).map fun (nodes, k) ↦ (n :: nodes, k + 1)
    if n.kind = .mark "<" then more (depth + 1)
    else if n.kind = .mark ">" then if depth ≤ 1 then some ([n], 1) else more (depth - 1)
    else more depth

/-- Type arguments. -/
def typeArguments : Rule := fun siblings ↦
  match mark "<" siblings with
  | some _ => angles 0 siblings
  | none => none

/-- The argument that `tokens` make up: a token of its own, or an expression. Comments at its ends
stay outside. -/
def argument (tokens : List Node) : List Node :=
  let comments := tokens.takeWhile (·.kind = .comment)
  let inner := tokens.drop comments.length
  let trailing := (inner.reverse.takeWhile (·.kind = .comment)).reverse
  match inner.take (inner.length - trailing.length) with
  | [] => tokens
  | [n] => comments ++ n :: trailing
  | core => comments ++ Node.around .expression core :: trailing

/-- The arguments between the commas of `tokens`; those of the last are in `pending`, in reverse. -/
def separated (pending : List Node) : List Node → List Node
  | [] => argument pending.reverse
  | n :: rest =>
    if n.kind = .mark "," then argument pending.reverse ++ n :: separated [] rest
    else separated (n :: pending) rest

/-- Parentheses as the arguments of a call. -/
def callArguments : Rule :=
  one fun n ↦
    if opensWith "(" n then
      let behind := n.children.drop 1
      let closing := behind.drop (behind.length - 1)
      let parts := n.children.take 1 ++ separated [] behind.dropLast ++ closing
      some [.mk .arguments (some .arguments) n.start n.stop parts]
    else none

/-- A call of `import`. -/
def importCall : Rule :=
  let callee := one fun n ↦
    if n.kind = .word "import" then some [(n.withKind (.keyword "import")).withLabel .function]
    else none
  wrapped .call <| callee.andThen <| (maybe typeArguments).andThen callArguments

/-! ### Trees -/

/-- What the siblings start with, if it is a statement or a call, and how many more siblings than
the first it takes. -/
def construct (siblings : List Node) : Option (Node × Nat) :=
  match siblings with
  | [] => none
  | first :: _ =>
    if first.kind = .comment then none
    else
      match importCall siblings |>.or (importStatement siblings) |>.or (exportStatement siblings) with
      | some ([n], k) => some (n, k - 1)
      | _ => none

/-- Siblings with their statements and calls put together. -/
def assemble : List Node → List Node
  | [] => []
  | n :: rest =>
    match construct (n :: rest) with
    | some (whole, k) => whole :: assemble (rest.drop k)
    | none => n :: assemble rest
termination_by siblings => siblings.length
decreasing_by
  · simp only [List.length_drop, List.length_cons]
    omega
  · simp only [List.length_cons]
    omega

mutual

/-- A node of an outline with all statements and calls in it put together. -/
def assembled : Node → Node
  | .mk kind label start stop children => .mk kind label start stop (assemble (assembledAll children))

/-- Nodes of an outline, each with all statements and calls in it put together. -/
def assembledAll : List Node → List Node
  | [] => []
  | n :: rest => assembled n :: assembledAll rest

end

/-- The syntax tree of a file. -/
def parse (dialect : Dialect) (source : Bytes) : Node :=
  assembled (.mk .program none 0 source.length (Outline.outline (dialect == .markup) source))

/-- The engine that reads every content from its start, whatever it is handed. -/
instance engine : Engine where
  parse dialect source _ := parse dialect source

end Program

end ModuleBundler
