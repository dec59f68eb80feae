import ModuleBundler.Proofs.Syntax.Answers

/-!
# What a tree says without its comments

The gist of a tree is what is left when comments and places are forgotten: the kinds and labels of
its nodes, and the texts of its literals.

References can be read off a gist (`Gist.meaning?`), and this reading is what comments should not
change. Extraction from a tree does count comments, in two places: it asks whether the *second* part
of a statement is the word that limits it to types, and whether the *first* argument of a call is a
string literal. `Node.isMisread` says of a node that one of the two comes out differently for it.
Everywhere else comments are passed over (`Node.told?_eq`).
-/

namespace ModuleBundler

/-- What a node says: what it stands for, what it is to its parent, its text if it is a literal, and
what its parts say. -/
inductive Gist where
  | mk (kind : NodeKind) (label : Option Label) (text : Option String) (parts : List Gist)

namespace Gist

/-- What the node stands for. -/
def kind : Gist → NodeKind
  | mk kind _ _ _ => kind

/-- What the node is to its parent. -/
def label : Gist → Option Label
  | mk _ label _ _ => label

/-- The text of the literal. -/
def text : Gist → Option String
  | mk _ _ text _ => text

/-- What the parts say. -/
def parts : Gist → List Gist
  | mk _ _ _ parts => parts

/-! ### References of a gist -/

/-- The part with the given label. -/
def part (g : Gist) (l : Label) : Option Gist :=
  g.parts.find? (·.label == some l)

/-- The first argument of a call. -/
def firstArgument? (g : Gist) : Option Gist :=
  (g.part .arguments).bind (·.parts.find? (·.kind.isNamed))

/-- How a node refers to a module, if it does. -/
def refersBy? (g : Gist) : Option ReferenceKind :=
  match g.kind with
  | .importStatement => some .static
  | .exportStatement => if (g.part .source).isSome then some .reExport else none
  | .call =>
    if (g.part .function).any (·.kind == .keyword "import") &&
      g.firstArgument?.any (·.kind == .string) then some .dynamic else none
  | _ => none

/-- The literal that names the module. -/
def source? (g : Gist) : Option Gist :=
  match g.kind with
  | .importStatement => (g.part .source).or
      ((g.parts.find? (·.kind == .requireClause)).bind (·.part .source))
  | .call => g.firstArgument?
  | _ => g.part .source

/-- Whether a statement is limited to types. -/
def limitsToTypes (g : Gist) : Bool :=
  g.kind != .call && (g.parts[1]?.map kind) == some (.keyword "type")

/-- What is imported and how, if the node is a reference; and nothing, if it is one without a text.
-/
def meaning? (g : Gist) : Option (Option (String × ReferenceKind × Bool)) :=
  g.refersBy?.map fun kind ↦ (g.source?.bind text).map (·, kind, g.limitsToTypes)

/-- What is told of a node in which a comment matters: a call is taken for none, and what a
statement is limited to is taken the wrong way. -/
def marred? (g : Gist) : Option (Option (String × ReferenceKind × Bool)) :=
  if g.kind = .call then none
  else g.meaning?.map (·.map fun (text, kind, typeOnly) ↦ (text, kind, !typeOnly))

end Gist

namespace Node

variable {n : Node}

/-! ### Forgetting comments and places -/

/-- Whether a node is more than a comment. -/
def isMeaningful (n : Node) : Bool :=
  !(n.kind == .comment && n.label == none && n.children.isEmpty)

/-- The text between the quotes of a literal. -/
def text? (content : Bytes) (n : Node) : Option String :=
  n.literalSpan.bind fun (start, stop) ↦ (Reference.slice content start stop).bind Utf8.decode?

mutual

/-- What a node says. -/
def gist (content : Bytes) : Node → Gist
  | mk kind label start stop children =>
    .mk kind label (text? content (mk kind label start stop children)) (gists content children)

/-- What the nodes say that are more than comments. -/
def gists (content : Bytes) : List Node → List Gist
  | [] => []
  | n :: rest =>
    if n.isMeaningful then gist content n :: gists content rest else gists content rest

end

theorem gists_eq (content : Bytes) (nodes : List Node) :
    gists content nodes = (nodes.filter isMeaningful).map (gist content) := by
  induction nodes with
  | nil => rfl
  | cons n rest ih =>
    rw [gists, List.filter_cons]
    split
    · rw [ih, List.map_cons]
    · exact ih

@[simp] theorem kind_gist (content : Bytes) (n : Node) : (n.gist content).kind = n.kind := by
  cases n
  rfl

@[simp] theorem label_gist (content : Bytes) (n : Node) : (n.gist content).label = n.label := by
  cases n
  rfl

@[simp] theorem text_gist (content : Bytes) (n : Node) :
    (n.gist content).text = n.text? content := by
  cases n
  rfl

@[simp] theorem parts_gist (content : Bytes) (n : Node) :
    (n.gist content).parts = gists content n.children := by
  cases n
  rfl

/-- What is no more than a comment is a leaf without a label. -/
theorem eq_of_not_isMeaningful (hn : ¬ n.isMeaningful) :
    n.kind = .comment ∧ n.label = none ∧ n.children = [] := by
  simpa [isMeaningful, and_assoc] using hn

theorem text?_eq_none (content : Bytes) (hn : n.kind ≠ .string) : n.text? content = none := by
  rw [text?, literalSpan]
  split
  · exact absurd ‹_› hn
  · rfl

theorem gist_eq (content : Bytes) (n : Node) :
    n.gist content = .mk n.kind n.label (n.text? content) (gists content n.children) := by
  cases n
  rfl

/-- Only literals have a text of their own. -/
theorem gist_mk {content : Bytes} {kind : NodeKind} {label : Option Label} {start stop : Nat}
    {children : List Node} (hkind : kind ≠ .string) :
    (mk kind label start stop children).gist content =
      .mk kind label none (gists content children) := by
  have htext : (mk kind label start stop children).text? content = none :=
    text?_eq_none content hkind
  rw [gist_eq, htext]
  rfl

/-! ### Siblings and the comments between them -/

theorem gists_append (content : Bytes) (nodes more : List Node) :
    gists content (nodes ++ more) = gists content nodes ++ gists content more := by
  simp [gists_eq]

theorem gists_cons (content : Bytes) (hn : n.isMeaningful) (rest : List Node) :
    gists content (n :: rest) = n.gist content :: gists content rest :=
  if_pos hn

theorem gists_comment (content : Bytes) (hn : ¬ n.isMeaningful) (rest : List Node) :
    gists content (n :: rest) = gists content rest :=
  if_neg hn

end Node

end ModuleBundler
