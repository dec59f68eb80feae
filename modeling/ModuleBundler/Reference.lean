import ModuleBundler.Error
import ModuleBundler.Syntax.Cursor

/-!
# References to other modules

What a file says about other modules, read off its syntax tree. Three kinds of node refer to a
module: an import statement always, an export statement if it names a source, and a call of `import`
if its first argument is a string literal. `references` goes by the nodes that a cursor visits, and
stops at the first reference whose source cannot be read.

The request is the text between the quotes as it is written, so that the span of a reference and its
request say the same.
-/

namespace ModuleBundler

/-- How a file refers to a module. -/
inductive ReferenceKind where
  /-- It imports the module. -/
  | static
  /-- It exports what the module exports. -/
  | reExport
  /-- It imports the module while it runs. -/
  | dynamic
  deriving DecidableEq, Repr

/-- A reference of a file to a module. -/
structure Reference where
  /-- How the module is named. -/
  request : String
  /-- How the file refers to it. -/
  kind : ReferenceKind
  /-- Whether only its types are used. -/
  typeOnly : Bool
  /-- Where the request starts in the file. -/
  start : Nat
  /-- Where the request stops in the file. -/
  stop : Nat
  deriving DecidableEq, Repr

namespace Reference

/-- Whether the request starts from the directory of the file. -/
def isRelative (r : Reference) : Bool :=
  r.request.toList.head? == some '.'

/-- The request as a path. -/
def path (r : Reference) : Path :=
  .parse r.request

end Reference

namespace Node

/-- Whether the word that limits a statement to types stands second in it. -/
def isTypeOnly (n : Node) : Bool :=
  (n.children[1]?.map kind) == some (.keyword "type")

/-- The source of an import statement, its own or that of its `require`. -/
def importSource (n : Node) : Option Node :=
  match n.part .source with
  | some source => some source
  | none => (n.namedChildren.find? (·.kind == .requireClause)).bind (·.part .source)

/-- The first argument of a call of `import`, if it is a string literal. -/
def dynamicSource (n : Node) : Option Node := do
  let callee ← n.part .function
  let arguments ← n.part .arguments
  let first ← arguments.namedChildren.head?
  if callee.kind = .keyword "import" ∧ first.kind = .string then some first else none

/-- What a node refers to: the source, and how; `none` if the node is no reference. -/
def referent (n : Node) : Except ReferenceFault (Option (Node × ReferenceKind × Bool)) :=
  match n.kind with
  | .importStatement =>
    match n.importSource with
    | some source => .ok (some (source, .static, n.isTypeOnly))
    | none => .error .noSource
  | .exportStatement =>
    .ok ((n.part .source).map fun source ↦ (source, .reExport, n.isTypeOnly))
  | .call => .ok (n.dynamicSource.map fun source ↦ (source, .dynamic, false))
  | _ => .ok none

/-- The range between the quotes of a string literal that has something between them. -/
def literalSpan (n : Node) : Option (Nat × Nat) :=
  match n.kind, n.children with
  | .string, _ :: first :: last :: rest =>
    some (first.start, ((last :: rest).getLast?.getD last).start)
  | _, _ => none

end Node

namespace Reference

/-- The bytes of `content` from `start` up to `stop`. -/
def slice (content : Bytes) (start stop : Nat) : Option Bytes :=
  if start ≤ stop ∧ stop ≤ content.length then some ((content.drop start).take (stop - start))
  else none

/-- The reference whose source is the given node of a file with the given content. -/
def ofSource (content : Bytes) (source : Node) (kind : ReferenceKind) (typeOnly : Bool) :
    Except ReferenceFault Reference :=
  match source.literalSpan with
  | none => .error (.notLiteral source.start)
  | some (start, stop) =>
    match slice content start stop with
    | none => .error .outside
    | some bytes =>
      match Utf8.decode bytes with
      | .ok request => .ok ⟨request, kind, typeOnly, start, stop⟩
      | .error cause => .error (.notUtf8 cause)

/-- The references among nodes of a file with the given content, up to the first that cannot be
read. -/
def collect (content : Bytes) : List Node → Except ReferenceFault (List Reference)
  | [] => .ok []
  | n :: rest => do
    match ← n.referent with
    | none => collect content rest
    | some (source, kind, typeOnly) =>
      let reference ← ofSource content source kind typeOnly
      return reference :: (← collect content rest)

/-- The references of the file at `path` with the given content and syntax tree, in the order of a
walk through the tree. -/
def references (path : Path) (content : Bytes) (tree : Node) : Except Error (List Reference) :=
  (collect content (Cursor.ofRoot tree).visits).mapError (.parse path)

end Reference

end ModuleBundler
