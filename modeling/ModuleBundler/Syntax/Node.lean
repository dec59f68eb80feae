import ModuleBundler.Text.Utf8

/-!
# Syntax trees

A syntax tree keeps the tokens of its source: every quote, bracket and comment is a node with the
range of bytes it stands for. The children of a node are in the order of the source, and comments
stand among them wherever they were written, so that counting children counts comments too.

Some children carry a label that says what they are to their parent. A node is *named* if it is more
than a fixed word or mark; a comment is named.

Reading the references of a file needs few kinds of node: the statements that import and export,
the call of `import`, and string literals. The rest of a source keeps its brackets and tokens.
-/

namespace ModuleBundler

/-- What a node of a syntax tree stands for. -/
inductive NodeKind where
  /-- A whole file. -/
  | program
  /-- A statement that starts with `import`. -/
  | importStatement
  /-- What an import or export statement binds. -/
  | clause
  /-- The `x = require('…')` of an import statement. -/
  | requireClause
  /-- A statement that starts with `export` and names a source. -/
  | exportStatement
  /-- A call of `import`. -/
  | call
  /-- The arguments of a call with their parentheses. -/
  | arguments
  /-- An argument that is more than one token or bracket. -/
  | expression
  /-- A string literal; its first and last child are its quotes. -/
  | string
  /-- The part of a string literal between its quotes, or of a template between its marks. -/
  | content
  /-- A template literal. -/
  | template
  /-- A regular expression literal. -/
  | regex
  /-- A number. -/
  | number
  /-- A markup element. -/
  | element
  /-- The text between markup tags. -/
  | text
  /-- Brackets and what stands between them. -/
  | group
  /-- A comment. -/
  | comment
  /-- What the grammar has no place for. -/
  | error
  /-- A word that names something. -/
  | word (text : String)
  /-- A word that names a member of what stands before it. -/
  | member (text : String)
  /-- A word that is fixed by the grammar of its statement. -/
  | keyword (text : String)
  /-- A mark. -/
  | mark (text : String)
  deriving DecidableEq, Repr

/-- What a node is to its parent. -/
inductive Label where
  /-- The literal that names the module a statement refers to. -/
  | source
  /-- What is called. -/
  | function
  /-- What it is called with. -/
  | arguments
  deriving DecidableEq, Repr

/-- A node of a syntax tree: what it stands for, what it is to its parent, the range of bytes from
`start` up to `stop`, and its parts. -/
inductive Node where
  /-- The node with the given parts. -/
  | mk (kind : NodeKind) (label : Option Label) (start stop : Nat) (children : List Node)
  deriving Repr

mutual

/-- Whether two nodes are the same. -/
def Node.decEq : (n m : Node) → Decidable (n = m)
  | mk kind label start stop children, mk kind' label' start' stop' children' =>
    have := Node.decEqs children children'
    decidable_of_iff (kind = kind' ∧ label = label' ∧ start = start' ∧ stop = stop' ∧
      children = children') (by rw [mk.injEq])

/-- Whether two lists of nodes are the same. -/
def Node.decEqs : (nodes nodes' : List Node) → Decidable (nodes = nodes')
  | [], [] => isTrue rfl
  | [], _ :: _ => isFalse (List.cons_ne_nil _ _).symm
  | _ :: _, [] => isFalse (List.cons_ne_nil _ _)
  | n :: rest, m :: rest' =>
    have := Node.decEq n m
    have := Node.decEqs rest rest'
    decidable_of_iff (n = m ∧ rest = rest') (by rw [List.cons.injEq])

end

instance : DecidableEq Node := Node.decEq

/-- Whether nodes of the kind are more than a fixed word or mark. -/
def NodeKind.isNamed : NodeKind → Bool
  | .keyword _ => false
  | .mark _ => false
  | _ => true

namespace Node

/-- What the node stands for. -/
def kind : Node → NodeKind
  | mk kind _ _ _ _ => kind

/-- What the node is to its parent. -/
def label : Node → Option Label
  | mk _ label _ _ _ => label

/-- Where the node starts. -/
def start : Node → Nat
  | mk _ _ start _ _ => start

/-- Where the node stops. -/
def stop : Node → Nat
  | mk _ _ _ stop _ => stop

/-- The parts of the node. -/
def children : Node → List Node
  | mk _ _ _ _ children => children

/-- The node with another label. -/
def withLabel (n : Node) (label : Label) : Node :=
  mk n.kind (some label) n.start n.stop n.children

/-- The node as another kind. -/
def withKind (n : Node) (kind : NodeKind) : Node :=
  mk kind n.label n.start n.stop n.children

/-- A node without parts. -/
def leaf (kind : NodeKind) (start stop : Nat) : Node :=
  mk kind none start stop []

/-- The node around `children`, which reaches from the first of them to the last. -/
def around (kind : NodeKind) (children : List Node) : Node :=
  mk kind none ((children.head?.map start).getD 0) ((children.getLast?.map stop).getD 0) children

/-- The part with the given label. -/
def part (n : Node) (label : Label) : Option Node :=
  n.children.find? (·.label == some label)

/-- The parts that are more than a fixed word or mark. -/
def namedChildren (n : Node) : List Node :=
  n.children.filter (·.kind.isNamed)

mutual

/-- How many nodes the tree has. -/
def size : Node → Nat
  | mk _ _ _ _ children => sizes children + 1

/-- How many nodes the trees have. -/
def sizes : List Node → Nat
  | [] => 0
  | n :: rest => size n + sizes rest

end

theorem size_eq (n : Node) : n.size = sizes n.children + 1 := by
  cases n
  rw [size, children]

theorem sizes_append (nodes more : List Node) : sizes
    (nodes ++ more) = sizes nodes + sizes more := by
  induction nodes with
  | nil => simp [sizes]
  | cons n rest ih => simp [sizes, ih, Nat.add_assoc]

end Node

end ModuleBundler
