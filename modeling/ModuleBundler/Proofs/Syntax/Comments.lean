import ModuleBundler.Proofs.Failing
import ModuleBundler.Proofs.Syntax.Gist

/-!
# What comments change

Extraction counts comments in two places. It asks whether the *second* part of a statement is the
word that limits it to types, and whether the *first* argument of a call is a string literal: a
comment in front of the word is taken for the second part, and one in front of the literal for the
first argument. `Node.isMisread` says that such a comment is there.

Everywhere else comments are passed over. A node that is not misread tells what its gist says
(`Node.told?_eq`), and so two trees whose nodes have the same gists have the same imports if the
same nodes of them are misread (`Node.imports?_congr`). Where comments are added and none is taken
away, one more misread node is enough to make a difference (`Node.imports?_eq_iff`).
-/

namespace ModuleBundler

/-- What is imported and how. -/
def Reference.summary (r : Reference) : String × ReferenceKind × Bool :=
  (r.request, r.kind, r.typeOnly)

namespace Node

variable {n n' tree tree' : Node} {content content' : Bytes} {nodes nodes' : List Node}
  {found : List (String × ReferenceKind × Bool)}

/-! ### What is told -/

/-- What a node tells when it is asked for its reference: what is imported and how, or nothing if
that cannot be read. -/
def told? (content : Bytes) (n : Node) : Option (Option (String × ReferenceKind × Bool)) :=
  (Reference.answer? content n).map (·.toOption.map Reference.summary)

/-- What is imported and how, in the order of the tree, if all of it can be read. -/
def imports? (content : Bytes) (tree : Node) : Option (List (String × ReferenceKind × Bool)) :=
  (Reference.collect content tree.preorder).toOption.map (·.map Reference.summary)

theorem imports?_eq (content : Bytes) (tree : Node) :
    tree.imports? content = (tree.preorder.filterMap (told? content)).mapM id := by
  rw [imports?]
  induction tree.preorder with
  | nil => rfl
  | cons n rest ih =>
    rw [Reference.collect_cons, List.filterMap_cons, told?]
    rcases Reference.answer? content n with - | fault | r
    · exact ih
    · simp [Except.toOption]
    · simp only [Option.map_some, Except.toOption, List.mapM_cons, id, ← ih]
      cases Reference.collect content rest <;> simp [Except.map]

theorem told?_eq_map (content : Bytes) (n : Node) : n.told? content =
    n.refersBy?.map fun kind ↦ (n.source?.bind (text? content)).map (·, kind, n.limitsToTypes) := by
  rw [told?, Reference.answer?, Option.map_map]
  congr 1
  funext kind
  rcases n.source? with - | s
  · rfl
  · simp only [Function.comp_apply, Option.bind_some, Reference.ofSource, text?]
    rcases s.literalSpan with - | ⟨start, stop⟩
    · rfl
    · simp only [Option.bind_some]
      rcases Reference.slice content start stop with - | bytes
      · rfl
      · rw [Option.bind_some, Utf8.decode?]
        rcases hdecode : Utf8.decode bytes <;> simp [hdecode, Except.toOption, Reference.summary]

/-! ### Nodes that are misread -/

/-- Whether a comment stands in front of the word that limits a statement to types. -/
def hidesLimit (n : Node) : Bool :=
  n.children[1]?.any (!·.isMeaningful) &&
    ((n.children.filter isMeaningful)[1]?.map kind) == some (.keyword "type")

/-- Whether a comment stands in front of the string literal that a call of `import` is for. -/
def hidesLiteral (n : Node) : Bool :=
  (n.part .function).any (·.kind == .keyword "import") &&
    n.firstArgument?.any (!·.isMeaningful) &&
    (n.part .arguments).any fun arguments ↦
      ((arguments.children.filter isMeaningful).find? (·.kind.isNamed)).any (·.kind == .string)

/-- Whether a comment is taken for a part of the node: for the first argument of a call, or for the
second word of a statement that refers to a module. -/
def isMisread (n : Node) : Bool :=
  if n.kind = .call then n.hidesLiteral else n.refersBy?.isSome && n.hidesLimit

/-- The nodes of the tree that are more than comments. -/
def meaningful (tree : Node) : List Node :=
  tree.preorder.filter isMeaningful

/-- Which nodes of the tree are misread. -/
def misreads (tree : Node) : List Bool :=
  tree.meaningful.map isMisread

/-- Whether the node is a statement that may name a module. -/
def isStatement (n : Node) : Bool :=
  n.kind == .importStatement || n.kind == .exportStatement

/-- If the node is a statement, no comment stands first in it. -/
def IsHeaded (n : Node) : Prop :=
  n.isStatement → ∀ c ∈ n.children.head?, c.isMeaningful

/-- No comment stands first in a statement. -/
def Headed (tree : Node) : Prop :=
  ∀ n ∈ tree.preorder, n.IsHeaded

instance (tree : Node) : Decidable tree.Headed :=
  inferInstanceAs (Decidable (∀ n ∈ tree.preorder, n.isStatement → ∀ c ∈ n.children.head?,
    c.isMeaningful))

/-! ### What is read of a gist -/

/-- What is looked for and is no comment is found in the gists. -/
theorem find?_gists {p : Node → Bool} {q : Gist → Bool} (hq : ∀ n, q (n.gist content) = p n)
    (hcomment : ∀ n, ¬ n.isMeaningful → p n = false) (nodes : List Node) :
    (gists content nodes).find? q = (nodes.find? p).map (gist content) := by
  induction nodes with
  | nil => rfl
  | cons n rest ih =>
    rw [gists, List.find?_cons]
    by_cases hn : n.isMeaningful
    · rw [if_pos hn, List.find?_cons, hq]
      cases p n
      · exact ih
      · rfl
    · rw [if_neg hn, hcomment n hn]
      exact ih

@[simp] theorem part_gist (content : Bytes) (n : Node) (l : Label) :
    (n.gist content).part l = (n.part l).map (gist content) := by
  rw [Gist.part, parts_gist]
  refine find?_gists (fun c ↦ by rw [label_gist]) (fun c hc ↦ ?_) _
  rw [(eq_of_not_isMeaningful hc).2.1]
  rfl

theorem firstArgument?_gist (content : Bytes) (n : Node) :
    (n.gist content).firstArgument? = (n.part .arguments).bind fun arguments ↦
      ((arguments.children.filter isMeaningful).find? (·.kind.isNamed)).map (gist content) := by
  rw [Gist.firstArgument?, part_gist, Option.bind_map]
  congr 1
  funext arguments
  rw [Function.comp_apply, parts_gist, gists_eq, List.find?_map]
  congr 2
  funext c
  rw [Function.comp_apply, kind_gist]

/-- The first argument of a call is a comment, or what the gist says it is. -/
theorem firstArgument?_cases (content : Bytes) (n : Node) :
    n.firstArgument?.any (!·.isMeaningful) ∨
      (n.gist content).firstArgument? = n.firstArgument?.map (gist content) := by
  rw [firstArgument?_gist, firstArgument?]
  rcases n.part .arguments with - | arguments
  · exact Or.inr rfl
  · rw [Option.bind_some, Option.bind_some, namedChildren, List.head?_filter, List.find?_filter]
    induction arguments.children with
    | nil => exact Or.inr rfl
    | cons c rest ih =>
      rw [List.find?_cons, List.find?_cons]
      by_cases hc : c.isMeaningful
      · by_cases hnamed : c.kind.isNamed
        · exact Or.inr (by simp [hc, hnamed])
        · simpa [hc, hnamed] using ih
      · have hnamed : c.kind.isNamed := by
          rw [(eq_of_not_isMeaningful hc).1]
          rfl
        rw [hnamed]
        exact Or.inl (by simpa using hc)

/-- A call is read from its gist, unless its first argument is a comment. -/
theorem refersBy?_gist_of_call (content : Bytes) (hn : n.kind = .call) :
    (n.gist content).refersBy? = if (n.part .function).any (·.kind == .keyword "import") &&
      (n.gist content).firstArgument?.any (·.kind == .string) then some .dynamic else none := by
  rw [Gist.refersBy?, kind_gist, hn]
  simp only [part_gist, Option.any_map, kind_gist]

theorem hidesLiteral_eq (content : Bytes) (n : Node) : n.hidesLiteral =
    ((n.part .function).any (·.kind == .keyword "import") &&
      n.firstArgument?.any (!·.isMeaningful) &&
      (n.gist content).firstArgument?.any (·.kind == .string)) := by
  rw [hidesLiteral, firstArgument?_gist]
  congr 1
  rcases n.part .arguments with - | arguments
  · rfl
  · simp only [Option.any_some, Option.bind_some, Option.any_map, kind_gist]

/-- A statement is read from its gist, but for the word that limits it. -/
theorem refersBy?_gist (content : Bytes) (hn : n.kind ≠ .call) :
    (n.gist content).refersBy? = n.refersBy? := by
  rw [Gist.refersBy?, refersBy?, kind_gist, part_gist, Option.isSome_map]
  split <;> simp_all

theorem source?_gist (hn : n.kind ≠ .call) :
    (n.gist content).source? = n.source?.map (gist content) := by
  rw [Gist.source?, source?, kind_gist, part_gist]
  rcases hkind : n.kind
  case importStatement =>
    have hclause : (n.gist content).parts.find? (·.kind == .requireClause) =
        (n.namedChildren.find? (·.kind == .requireClause)).map (gist content) := by
      rw [parts_gist, namedChildren, List.find?_filter]
      refine find?_gists (fun c ↦ ?_) (fun c hc ↦ ?_) _
      · rw [kind_gist]
        cases c.kind <;> rfl
      · rw [(eq_of_not_isMeaningful hc).1]
        rfl
    dsimp only
    rw [hclause, importSource]
    rcases n.part .source with - | source
    · simp [Option.bind_map, Option.map_bind]
    · rfl
  case call => exact absurd hkind hn
  all_goals rfl

theorem second_gist (content : Bytes) (n : Node) : (n.gist content).parts[1]?.map Gist.kind =
    (n.children.filter isMeaningful)[1]?.map kind := by
  have hkind : Gist.kind ∘ gist content = kind := funext (kind_gist content)
  rw [parts_gist, gists_eq, List.getElem?_map, Option.map_map, hkind]

/-- The word that limits a statement is found, unless a comment stands in front of it. -/
theorem limitsToTypes_gist (content : Bytes) (hn : n.kind ≠ .call)
    (hhead : ∀ c ∈ n.children.head?, c.isMeaningful) :
    (n.gist content).limitsToTypes = (n.hidesLimit || n.limitsToTypes) ∧
      ¬ (n.hidesLimit ∧ n.limitsToTypes) := by
  have hsecond : (n.gist content).limitsToTypes =
      (((n.children.filter isMeaningful)[1]?.map kind) == some (.keyword "type")) := by
    rw [Gist.limitsToTypes, kind_gist, second_gist]
    simp [hn]
  rw [hsecond, hidesLimit, limitsToTypes, isTypeOnly]
  rcases hchildren : n.children with - | ⟨first, - | ⟨second, rest⟩⟩
  · simp
  · have hfirst : first.isMeaningful := hhead first (by rw [hchildren]; rfl)
    simp [hfirst]
  · have hfirst : first.isMeaningful := hhead first (by rw [hchildren]; rfl)
    by_cases hsecond : second.isMeaningful
    · simp [hfirst, hsecond, hn]
    · have hcomment := (eq_of_not_isMeaningful hsecond).1
      simp [hfirst, hsecond, hcomment]

theorem bind_text_gist (content : Bytes) (source : Option Node) :
    (source.map (gist content)).bind Gist.text = source.bind (text? content) := by
  rw [Option.bind_map]
  congr 1
  funext s
  exact text_gist content s

/-- A call tells what its gist says, unless its literal is hidden. -/
theorem told?_of_call (hcall : n.kind = .call) :
    n.told? content =
      if n.isMisread then (n.gist content).marred? else (n.gist content).meaning? := by
  have hmisread : n.isMisread = n.hidesLiteral := if_pos hcall
  have hrefers := refersBy?_gist_of_call content hcall
  have hrefers' : n.refersBy? =
      if (n.part .function).any (·.kind == .keyword "import") &&
        n.firstArgument?.any (·.kind == .string) then some .dynamic else none := by
    rw [refersBy?, hcall]
  rw [told?_eq_map, hmisread, hidesLiteral_eq content, Gist.marred?, kind_gist, if_pos hcall,
    Gist.meaning?, hrefers, hrefers']
  rcases firstArgument?_cases content n with hcomment | hfirst
  · -- a comment comes first: it is taken for the argument, and it is no literal
    obtain ⟨c, hc, hcomment⟩ := (Option.any_eq_true _ _).1 hcomment
    have hkind := (eq_of_not_isMeaningful (by simpa using hcomment)).1
    rw [hc]
    simp [hkind, hcomment]
  · have hfirst' : (n.gist content).firstArgument?.any (·.kind == .string) =
        n.firstArgument?.any (·.kind == .string) := by
      rw [hfirst, Option.any_map]
      simp only [kind_gist]
    have hsource : (n.gist content).source? = n.source?.map (gist content) := by
      rw [Gist.source?, source?, kind_gist, hcall]
      exact hfirst
    have hlimits : (n.gist content).limitsToTypes = n.limitsToTypes := by
      rw [Gist.limitsToTypes, limitsToTypes, kind_gist, hcall]
      rfl
    have hstring : (n.firstArgument?.any (!·.isMeaningful) &&
        n.firstArgument?.any (·.kind == .string)) = false := by
      rcases n.firstArgument? with - | c
      · rfl
      · by_cases hc : c.isMeaningful
        · simp [hc]
        · simp [(eq_of_not_isMeaningful hc).1]
    rw [hfirst', hsource, bind_text_gist, hlimits, Bool.and_assoc, hstring, Bool.and_false]
    rfl

theorem isStatement_of_refersBy? {kind : ReferenceKind} (hcall : n.kind ≠ .call)
    (h : n.refersBy? = some kind) : n.isStatement := by
  rw [refersBy?] at h
  rw [isStatement]
  split at h <;> simp_all

/-- A statement tells what its gist says, unless the word that limits it is hidden. -/
theorem told?_of_not_call (hcall : n.kind ≠ .call) (hheaded : n.IsHeaded) :
    n.told? content =
      if n.isMisread then (n.gist content).marred? else (n.gist content).meaning? := by
  have hrefers := refersBy?_gist content hcall
  have hmisread : n.isMisread = (n.refersBy?.isSome && n.hidesLimit) := if_neg hcall
  rw [told?_eq_map, hmisread, Gist.marred?, kind_gist, if_neg hcall, Gist.meaning?, hrefers]
  rcases hkind : n.refersBy? with - | kind
  · rfl
  · have hlimit := limitsToTypes_gist content hcall (hheaded (isStatement_of_refersBy? hcall hkind))
    rw [source?_gist hcall, bind_text_gist, hlimit.1]
    by_cases hhides : n.hidesLimit
    · have hnot : n.limitsToTypes = false := by simpa [hhides] using hlimit.2
      simp [hhides, hnot, Function.comp_def]
    · simp [hhides]

/-- **What a node tells is what its gist says, unless it is misread.** A misread call tells nothing,
and a misread statement the opposite of what it is limited to. -/
theorem told?_eq (hheaded : n.IsHeaded) :
    n.told? content =
      if n.isMisread then (n.gist content).marred? else (n.gist content).meaning? := by
  by_cases hcall : n.kind = .call
  · exact told?_of_call hcall
  · exact told?_of_not_call hcall hheaded

/-- A node that is misread is a reference by its gist. -/
theorem meaning?_ne_none (hn : n.isMisread) : (n.gist content).meaning? ≠ none := by
  rw [Gist.meaning?, Ne, Option.map_eq_none_iff]
  by_cases hcall : n.kind = .call
  · rw [isMisread, if_pos hcall, hidesLiteral_eq content, Bool.and_eq_true, Bool.and_eq_true] at hn
    rw [refersBy?_gist_of_call content hcall, hn.1.1, hn.2]
    simp
  · rw [isMisread, if_neg hcall, Bool.and_eq_true, Option.isSome_iff_ne_none] at hn
    rw [refersBy?_gist content hcall]
    exact hn.1

/-! ### Trees with more comments -/

/-- Whether the first part of the node that is more than a mark is a comment. -/
def opensWithComment (n : Node) : Bool :=
  n.namedChildren.head?.any (!·.isMeaningful)

/-- A node that says the same is misread still, if a comment that stood second or first among the
arguments is not the only one to do so. -/
theorem isMisread_of_gist_eq (hgist : n'.gist content' = n.gist content)
    (hsecond : n.children[1]?.any (!·.isMeaningful) → n'.children[1]?.any (!·.isMeaningful))
    (harguments : (n.part .arguments).any opensWithComment →
      (n'.part .arguments).any opensWithComment)
    (h : n.isMisread) : n'.isMisread := by
  have hkind : n'.kind = n.kind := by simpa using congrArg Gist.kind hgist
  by_cases hcall : n.kind = .call
  · have hargument (n : Node) : n.firstArgument?.any (!·.isMeaningful) =
        (n.part .arguments).any opensWithComment := by
      rw [firstArgument?]
      cases n.part .arguments <;> rfl
    have hfunction : (n'.part .function).any (·.kind == .keyword "import") =
        (n.part .function).any (·.kind == .keyword "import") := by
      simpa [Option.any_map] using
        congrArg (fun g ↦ (g.part .function).any (·.kind == .keyword "import")) hgist
    rw [isMisread, if_pos hcall, hidesLiteral_eq content] at h
    rw [isMisread, if_pos (hkind.trans hcall), hidesLiteral_eq content', hgist, hfunction]
    simp only [Bool.and_eq_true, hargument] at h ⊢
    exact ⟨⟨h.1.1, harguments h.1.2⟩, h.2⟩
  · have hrefers : n'.refersBy? = n.refersBy? := by
      rw [← refersBy?_gist content hcall, ← refersBy?_gist content' (hkind ▸ hcall), hgist]
    rw [isMisread, if_neg hcall, hidesLimit, ← second_gist content] at h
    rw [isMisread, if_neg (hkind ▸ hcall), hidesLimit, ← second_gist content', hgist, hrefers]
    simp only [Bool.and_eq_true] at h ⊢
    exact ⟨h.1, hsecond h.2.1, h.2.2⟩

/-- A node and what becomes of it by comments that are added in it: it says the same, and it is
misread still if it was. -/
structure Remarked (content content' : Bytes) (n n' : Node) : Prop where
  gist_eq : n'.gist content' = n.gist content
  misread : n.isMisread → n'.isMisread
  headed : n.IsHeaded → n'.IsHeaded

/-- The nodes of a tree and what becomes of them by comments that are added in it. -/
def Remarks (content content' : Bytes) (tree tree' : Node) : Prop :=
  List.Forall₂ (Remarked content content') tree.meaningful tree'.meaningful

theorem imports?_eq_meaningful (content : Bytes) (tree : Node) :
    tree.imports? content = (tree.meaningful.filterMap (told? content)).mapM id := by
  rw [imports?_eq, meaningful, List.filterMap_filter]
  congr 1
  refine List.filterMap_congr fun n _ ↦ ?_
  split
  · rfl
  · rw [told?_eq_map, refersBy?, (eq_of_not_isMeaningful ‹_›).1]
    rfl

/-! ### One node among others -/

/-- What is told of a node is put in front of what is told of the rest. -/
theorem mapM_told?_cons (content : Bytes) (n : Node) (rest : List Node) :
    ((n :: rest).filterMap (told? content)).mapM id =
      match n.told? content with
      | none => (rest.filterMap (told? content)).mapM id
      | some told =>
        told.bind fun summary ↦ ((rest.filterMap (told? content)).mapM id).map (summary :: ·) := by
  rcases htold : n.told? content with - | - | summary
  · rw [List.filterMap_cons_none htold]
  · rw [List.filterMap_cons_some htold, List.mapM_cons]
    rfl
  · rw [List.filterMap_cons_some htold, List.mapM_cons]
    cases (rest.filterMap (told? content)).mapM id <;> rfl

namespace Remarked

/-- A node tells the same as before if it is misread as before. -/
theorem told?_eq (h : Remarked content content' n n') (hheaded : n.IsHeaded)
    (hsame : n'.isMisread = n.isMisread) : n'.told? content' = n.told? content := by
  rw [Node.told?_eq hheaded, Node.told?_eq (h.headed hheaded), h.gist_eq, hsame]

/-- A node that is misread for a comment told something. Now it tells nothing, if it is a call, and
the opposite of what it was limited to, if it is a statement. -/
theorem told?_of_ne (h : Remarked content content' n n') (hheaded : n.IsHeaded)
    (hne : n'.isMisread ≠ n.isMisread) (hread : n.told? content ≠ some none) :
    ∃ summary, n.told? content = some (some summary) ∧ (n'.told? content' = none ∨
      n'.told? content' = some (some (summary.1, summary.2.1, !summary.2.2))) := by
  obtain ⟨hclear, hmisread⟩ : n.isMisread = false ∧ n'.isMisread = true := by
    have hkept := h.misread
    revert hne hkept
    cases n.isMisread <;> cases n'.isMisread <;> simp
  have htold : n.told? content = (n.gist content).meaning? := by
    rw [Node.told?_eq hheaded, hclear, if_neg Bool.false_ne_true]
  have htold' : n'.told? content' = (n.gist content).marred? := by
    rw [Node.told?_eq (h.headed hheaded), hmisread, if_pos rfl, h.gist_eq]
  rw [htold] at hread ⊢
  rw [htold', Gist.marred?]
  rcases hmeaning : (n.gist content).meaning? with - | - | summary
  · exact absurd hmeaning (h.gist_eq ▸ meaning?_ne_none hmisread)
  · exact absurd hmeaning hread
  · refine ⟨summary, rfl, ?_⟩
    split
    · exact Or.inl rfl
    · exact Or.inr rfl

end Remarked

/-! ### All nodes of a tree -/

/-- Where the same nodes are misread, the same is told. -/
theorem filterMap_told?_congr (h : List.Forall₂ (Remarked content content') nodes nodes')
    (hheaded : ∀ n ∈ nodes, n.IsHeaded) (hmisread : nodes'.map isMisread = nodes.map isMisread) :
    nodes'.filterMap (told? content') = nodes.filterMap (told? content) := by
  induction h with
  | nil => rfl
  | cons hn hrest ih =>
    obtain ⟨hhead, htail⟩ := List.forall_mem_cons.1 hheaded
    obtain ⟨hsame, hmore⟩ := List.cons.inj hmisread
    rw [List.filterMap_cons, List.filterMap_cons, hn.told?_eq hhead hsame, ih htail hmore]

/-- If all that is told of nodes can be read, it can be with more comments; and it is the same only
if no more of the nodes are misread. -/
theorem exists_told (h : List.Forall₂ (Remarked content content') nodes nodes')
    (hheaded : ∀ n ∈ nodes, n.IsHeaded)
    (hfound : (nodes.filterMap (told? content)).mapM id = some found) :
    ∃ found', (nodes'.filterMap (told? content')).mapM id = some found' ∧
      found'.length ≤ found.length ∧
      (found' = found ↔ nodes'.map isMisread = nodes.map isMisread) := by
  induction h generalizing found with
  | nil =>
    obtain rfl : [] = found := by simpa using hfound
    exact ⟨[], rfl, le_rfl, by simp⟩
  | @cons n n' rest rest' hn hrest ih =>
    obtain ⟨hhead, htail⟩ := List.forall_mem_cons.1 hheaded
    rw [mapM_told?_cons] at hfound
    rw [mapM_told?_cons, List.map_cons, List.map_cons, List.cons.injEq]
    rcases htold : n.told? content with - | - | summary <;> rw [htold] at hfound
    · have hsame : n'.isMisread = n.isMisread := by
        by_contra hne
        obtain ⟨summary, hsome, -⟩ := hn.told?_of_ne hhead hne (by simp [htold])
        cases htold.symm.trans hsome
      rw [(hn.told?_eq hhead hsame).trans htold]
      obtain ⟨found', hfound', hle, hiff⟩ := ih htail hfound
      exact ⟨found', hfound', hle, by simp [hsame, hiff]⟩
    · cases hfound
    · obtain ⟨more, hmore, rfl⟩ := Option.map_eq_some_iff.1 hfound
      obtain ⟨found', hfound', hle, hiff⟩ := ih htail hmore
      by_cases hsame : n'.isMisread = n.isMisread
      · rw [(hn.told?_eq hhead hsame).trans htold, hfound']
        exact ⟨summary :: found', rfl, Nat.succ_le_succ hle, by simp [hsame, hiff]⟩
      · -- the list is shorter for a call, and has another mark in this place for a statement
        obtain ⟨_, hsome, htold'⟩ := hn.told?_of_ne hhead hsame (by simp [htold])
        obtain rfl := Option.some.inj (Option.some.inj (htold.symm.trans hsome))
        rcases htold' with htold' | htold' <;> rw [htold', hfound']
        · refine ⟨found', rfl, hle.trans (Nat.le_succ _), iff_of_false ?_ (by simp [hsame])⟩
          rintro rfl
          exact absurd hle (Nat.not_succ_le_self _)
        · refine ⟨_, rfl, Nat.succ_le_succ hle, iff_of_false (fun h ↦ ?_) (by simp [hsame])⟩
          simpa using congrArg (·.2.2) (List.cons.inj h).1

/-- **Comments make no difference where the same nodes are misread.** -/
theorem imports?_congr (h : Remarks content content' tree tree') (hheaded : tree.Headed)
    (hmisreads : tree'.misreads = tree.misreads) :
    tree'.imports? content' = tree.imports? content := by
  have hmeaningful : ∀ n ∈ tree.meaningful, n.IsHeaded :=
    fun n hn ↦ hheaded n (List.mem_filter.1 hn).1
  rw [imports?_eq_meaningful, imports?_eq_meaningful, filterMap_told?_congr h hmeaningful hmisreads]

/-- **A node that is misread for a comment makes a difference.** A comment in front of the word that
limits a statement turns a use of types into one of values, and one in front of the literal of a
call drops the import. -/
theorem imports?_eq_iff (h : Remarks content content' tree tree') (hheaded : tree.Headed)
    (hfound : tree.imports? content = some found) :
    ∃ found', tree'.imports? content' = some found' ∧
      (found' = found ↔ tree'.misreads = tree.misreads) := by
  rw [imports?_eq_meaningful] at hfound
  obtain ⟨found', hfound', -, hiff⟩ :=
    exists_told h (fun n hn ↦ hheaded n (List.mem_filter.1 hn).1) hfound
  exact ⟨found', (imports?_eq_meaningful content' tree').trans hfound', hiff⟩

end Node

end ModuleBundler
