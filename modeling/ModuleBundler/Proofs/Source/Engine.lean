import ModuleBundler.Proofs.Syntax.Edit
import ModuleBundler.SourceFile

/-!
# Reading again with an engine

An engine that is told what has changed may keep the parts of a tree that have not, and nobody is to
notice. It is *exact* if it reads the tree that it would read from the start, provided that it is
told the truth: the tree it is handed is the one of an earlier content, and the edit leads from
there to the content (`Edit.Turns`). Of what it does when it is told anything else, nothing is
assumed.

With an exact engine, to read a source file again is to read it from the start
(`SourceFile.Genuine.refresh_eq`). What is behind it is that a source file tells the truth: the
content it keeps is the one that its tree was read from (`SourceFile.Genuine`), and the edit is the
one between the two contents.
-/

namespace ModuleBundler

/-- If what the engine is handed is true, it reads what it reads from the content alone. -/
structure Engine.Exact [Engine] : Prop where
  /-- From the tree of the same content. -/
  same : ∀ dialect content, parse dialect content (some (parse dialect content none, none)) =
    parse dialect content none
  /-- From the tree of another content and an edit that leads from there to the content. -/
  edited : ∀ dialect {old new : Bytes} {e : Edit}, e.Turns old new →
    parse dialect new (some (parse dialect old none, some e)) = parse dialect new none

namespace SourceFile

variable [Engine] {f : SourceFile}

/-- The tree of the last reading is the one of its content. -/
def Genuine (f : SourceFile) : Prop :=
  ∀ last ∈ f.snapshot, last = .ofContent f.path last.content

/-- The source file at a path as it is when a content is read for the first time. -/
def reading (path : Path) (content : Bytes) : SourceFile :=
  ⟨path, some (.ofContent path content)⟩

theorem genuine_none (path : Path) : Genuine ⟨path, none⟩ :=
  fun _ hlast ↦ nomatch hlast

theorem genuine_reading (path : Path) (content : Bytes) : Genuine (reading path content) := by
  intro last hlast
  obtain rfl := Option.some.inj hlast
  rfl

/-- An exact engine reads the tree of the content, for what it is handed is true. -/
theorem Genuine.tree_eq (h : f.Genuine) (hengine : Engine.Exact) (content : Bytes) :
    Engine.parse (.ofPath f.path) content
        (f.snapshot.map fun last ↦ (last.tree, Edit.between? last.content content)) =
      Engine.parse (.ofPath f.path) content none := by
  rcases hlast : f.snapshot with - | last
  · rfl
  · have htree : last.tree = Engine.parse (.ofPath f.path) last.content none :=
      congrArg Snapshot.tree (h last hlast)
    rw [Option.map_some, htree]
    rcases hedit : Edit.between? last.content content with - | e
    · rw [Edit.between?_eq_none.1 hedit]
      exact hengine.same _ _
    · exact hengine.edited _ (Edit.turns_of_between? hedit)

/-- **Reading again is reading from the start**, with an exact engine. -/
theorem Genuine.refresh_eq {σ : Type} [FileStore σ] (h : f.Genuine) (hengine : Engine.Exact)
    (s : σ) : f.refresh s =
      match FileStore.load f.path s with
      | (.ok content, s') => (.ok (), reading f.path content, s')
      | (.error e, s') => (.error e, f, s') := by
  rw [refresh]
  rcases FileStore.load f.path s with ⟨e | content, s'⟩
  · rfl
  · simp only [h.tree_eq hengine content]
    rfl

end SourceFile

end ModuleBundler
