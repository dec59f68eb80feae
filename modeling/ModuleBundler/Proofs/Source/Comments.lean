import ModuleBundler.Proofs.Syntax.Insertion
import ModuleBundler.SourceFile
import ModuleBundler.Syntax.Program

/-!
# Comments and the imports of a file

A block comment is written between two tokens of a file. Whether the file imports the same then is a
matter of where the comment stands (`SourceFile.imports?_withComment`): it does if the same nodes of
its tree are misread, and one more misread node changes what is imported. The two places where this
happens are in front of the literal of a dynamic import and in front of the word `type`
(`SourceFile.imports?_commented`).

The engine may be any that takes a comment for one (`Engine.TakesComment`): comments are no part of
the grammar, and may stand between any two tokens.
-/

namespace ModuleBundler

variable {content comment : Bytes} {p : Nat}

/-! ### Contents with a comment -/

/-- A block comment on one line. -/
def IsBlockComment (comment : Bytes) : Prop :=
  ∃ text, comment = Utf8.encode "/*" ++ text ++ Utf8.encode "*/" ∧
    ¬ Utf8.encode "*/" <:+: text ∧ 0x0A ∉ text

/-- The content with a comment at an offset, between two spaces. -/
def withComment (content : Bytes) (p : Nat) (comment : Bytes) : Bytes :=
  content.take p ++ 0x20 :: comment ++ 0x20 :: content.drop p

theorem inserted_withComment (hp : p ≤ content.length) :
    Inserted p (comment.length + 2) content (withComment content p comment) where
  inside := hp
  length := by
    simp only [withComment, List.length_append, List.length_cons, List.length_take,
      List.length_drop]
    omega
  front := by
    rw [withComment, List.append_assoc, List.take_append_of_le_length (by simp [hp]),
      List.take_take, Nat.min_self]
  behind := by
    have hfront :
        (content.take p ++ 0x20 :: comment ++ [0x20]).length = p + (comment.length + 2) := by
      simp [hp]
    have hcontent : withComment content p comment =
        content.take p ++ 0x20 :: comment ++ [0x20] ++ content.drop p := by
      simp [withComment]
    rw [hcontent, ← hfront, List.drop_left]

/-- The node of a comment that stands at an offset of a content, behind a space. -/
def Node.ofComment (p : Nat) (comment : Bytes) : Node :=
  .leaf .comment (p + 1) (p + 1 + comment.length)

/-- The engine takes a comment between two tokens for one. In the tree of a file without errors it
is one more part of a node around it, and otherwise nothing changes but that what stands behind it
moves on. -/
def Engine.TakesComment [Engine] (dialect : Dialect) (content : Bytes) (p : Nat)
    (comment : Bytes) : Prop :=
  (Engine.parse dialect content none).Faultless →
    (Engine.parse dialect content none).BetweenTokens p → IsBlockComment comment →
    Node.Commented p (comment.length + 2) (.ofComment p comment) (Engine.parse dialect content none)
      (Engine.parse dialect (withComment content p comment) none)

namespace SourceFile

/-- What a file with the given content imports and how, in order, if all of it can be read. -/
def imports? [Engine] (path : Path) (content : Bytes) :
    Option (List (String × ReferenceKind × Bool)) :=
  (references ⟨path, some (.ofContent path content)⟩).toOption.map (·.map Reference.summary)

/-- The syntax tree of a file with the given content. -/
def tree [Engine] (path : Path) (content : Bytes) : Node :=
  (Snapshot.ofContent path content).tree

theorem imports?_eq_tree [Engine] (path : Path) (content : Bytes) :
    imports? path content = (tree path content).imports? content := by
  have hreferences : references ⟨path, some (.ofContent path content)⟩ =
      Reference.references path content (tree path content) := rfl
  rw [imports?, hreferences, Reference.references, Cursor.visits_ofRoot, Node.imports?]
  cases Reference.collect content (tree path content).preorder <;> rfl

/-- **A comment changes the imports of a file exactly where a node is misread for it.** With a block
comment between two tokens, a file imports what it did before if the same nodes of it are misread.
If all of its references can be read, so can they be with the comment, and the imports are the same
exactly if the same nodes are misread. -/
theorem imports?_withComment [Engine] {path : Path} (hover : (tree path content).Over content)
    (hheaded : (tree path content).Headed) (hfaultless : (tree path content).Faultless)
    (hplace : (tree path content).BetweenTokens p) (hcomment : IsBlockComment comment)
    (hengine : Engine.TakesComment (.ofPath path) content p comment) :
    ((tree path (withComment content p comment)).misreads = (tree path content).misreads →
      imports? path (withComment content p comment) = imports? path content) ∧
    ∀ found, imports? path content = some found →
      ∃ found', imports? path (withComment content p comment) = some found' ∧
        (found' = found ↔
          (tree path (withComment content p comment)).misreads = (tree path content).misreads) := by
  have hcommented := hengine hfaultless hplace hcomment
  have hinside : p ≤ content.length := hcommented.around.2.le.trans hover.inside
  have hremarks := hcommented.remarks (by simp [Node.ofComment, Node.leaf, Node.isMeaningful,
    Node.kind, Node.label, Node.children]) (inserted_withComment hinside) hover
    fun m hm ↦ hplace.kind_ne_string hover hm
  rw [imports?_eq_tree, imports?_eq_tree]
  exact ⟨Node.imports?_congr hremarks hheaded, fun found ↦ Node.imports?_eq_iff hremarks hheaded⟩

/-- A file with types. -/
def typed : Path := .parse "/a.ts"

/-- A dynamic import. -/
def calling : Bytes := Utf8.encode "import('./x')"

/-- A comment. -/
def remark : Bytes := Utf8.encode "/*c*/"

/-- A comment in front of the literal becomes the second part of the parentheses. -/
theorem takesComment_calling : Engine.TakesComment .plain calling 7 remark := by
  let opening := Node.leaf (.mark "(") 6 7
  let literal := Node.mk .string none 7 12
    [.leaf (.mark "quote") 7 8, .leaf .content 8 11, .leaf (.mark "quote") 11 12]
  let closing := Node.leaf (.mark ")") 12 13
  let callee := Node.mk (.keyword "import") (some .function) 0 6 []
  have htree : Engine.parse .plain calling none =
      .mk .program none 0 13 ([] ++ .mk .call none 0 13 ([callee] ++
        .mk .arguments (some .arguments) 6 13 ([opening] ++ [literal, closing]) :: []) :: []) := by
    decide +kernel
  have htree' : Engine.parse .plain (withComment calling 7 remark) none =
      .mk .program none 0 20 ([] ++ .mk .call none 0 20 ([callee] ++
        .mk .arguments (some .arguments) 6 20 ([opening] ++
          .ofComment 7 remark :: [literal, closing].map (Node.moved 7)) :: []) :: []) := by
    decide +kernel
  intro _ _ _
  rw [htree, htree']
  refine .deeper [] [] (by decide) (by decide) (by simp) (by simp) ?_
  refine .deeper [callee] [] (by decide) (by decide) (by decide) (by simp) ?_
  exact .here [opening] [literal, closing] (by decide) (by decide) (by simp) (by decide) (by decide)

/-- The comment in front of the literal drops the import. -/
theorem imports?_withComment_calling :
    (tree typed calling).Over calling ∧ (tree typed calling).Headed ∧
      (tree typed calling).Faultless ∧ (tree typed calling).BetweenTokens 7 ∧
      IsBlockComment remark ∧ Engine.TakesComment (.ofPath typed) calling 7 remark ∧
      imports? typed calling = some [("./x", .dynamic, false)] ∧
      ∃ found, imports? typed (withComment calling 7 remark) = some found ∧
        found ≠ [("./x", .dynamic, false)] := by
  have hover : (tree typed calling).Over calling := {
    inside := by decide +kernel
    ranged := by decide +kernel
    nested := by decide +kernel
    ordered := by decide +kernel
    flat := by decide +kernel }
  have hheaded : (tree typed calling).Headed := by decide +kernel
  have hfaultless : (tree typed calling).Faultless := by decide +kernel
  have hplace : (tree typed calling).BetweenTokens 7 := {
    front := by decide +kernel
    behind := by decide +kernel
    uncut := by decide +kernel
    outside := by decide +kernel }
  have hremark : IsBlockComment remark := ⟨Utf8.encode "c", by decide +kernel⟩
  have hengine : Engine.TakesComment (.ofPath typed) calling 7 remark := takesComment_calling
  have hfound : imports? typed calling = some [("./x", .dynamic, false)] := by decide +kernel
  obtain ⟨-, hother⟩ := imports?_withComment hover hheaded hfaultless hplace hremark hengine
  obtain ⟨found, hfound', hiff⟩ := hother _ hfound
  exact ⟨hover, hheaded, hfaultless, hplace, hremark, hengine, hfound, found, hfound',
    hiff.not.2 (by decide +kernel)⟩

/-- A comment in front of the literal drops a dynamic import, and one in front of the word `type`
turns an import of types into one of values. -/
theorem imports?_commented :
    imports? typed (Utf8.encode "import('./x')") = some [("./x", .dynamic, false)] ∧
    imports? typed (Utf8.encode "import( /*c*/ './x')") = some [] ∧
    imports? typed (Utf8.encode "import type X from './x'") = some [("./x", .static, true)] ∧
    imports? typed (Utf8.encode "import /*c*/ type X from './x'") =
      some [("./x", .static, false)] := by
  decide +kernel

end SourceFile

end ModuleBundler
