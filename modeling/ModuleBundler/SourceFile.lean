import ModuleBundler.Reference
import ModuleBundler.Store.FileStore
import ModuleBundler.Syntax.Engine

/-!
# Source files

A source file is read from a store, and read again when it changes. It keeps the content and the
tree of its last successful reading: a reading that fails changes nothing, and neither does a change
of the store until the file is read again.

The tree is read by an engine, which is handed the tree of the last reading and what has changed
since then.
-/

namespace ModuleBundler

/-- The last extension of a file name: what follows its last point, if it has one. -/
def extension? (name : String) : Option String :=
  let after := name.toList.reverse.takeWhile (· != '.')
  if after.length < name.length then some (String.ofList after.reverse) else none

namespace Dialect

/-- The extensions of files with markup. -/
def markupExtensions : List String := ["tsx", "jsx"]

/-- The dialect of the file at `path`. -/
def ofPath (path : Path) : Dialect :=
  match path.segments.getLast?.bind extension? with
  | some extension => if markupExtensions.contains extension then .markup else .plain
  | none => .plain

end Dialect

/-- A file as it was read: its bytes and what they say. -/
structure Snapshot where
  /-- The bytes. -/
  content : Bytes
  /-- The syntax tree. -/
  tree : Node
  deriving Repr

/-- The file at `path` with the given content, as it is read for the first time. -/
def Snapshot.ofContent [Engine] (path : Path) (content : Bytes) : Snapshot :=
  ⟨content, Engine.parse (.ofPath path) content none⟩

/-- A file and its last successful reading. -/
structure SourceFile where
  /-- Where the file stands. -/
  path : Path
  /-- The last successful reading, if there was one. -/
  snapshot : Option Snapshot := none
  deriving Repr

namespace SourceFile

/-- Whether the file was read. -/
def isRead (f : SourceFile) : Bool :=
  f.snapshot.isSome

/-- The bytes of the last reading. -/
def content? (f : SourceFile) : Option Bytes :=
  f.snapshot.map Snapshot.content

/-- Reads the file from a store. -/
def refresh [Engine] {σ : Type} [FileStore σ] (f : SourceFile) (s : σ) :
    Except Error Unit × SourceFile × σ :=
  match FileStore.load f.path s with
  | (.ok content, s') =>
    let known := f.snapshot.map fun last ↦ (last.tree, Edit.between? last.content content)
    let tree := Engine.parse (.ofPath f.path) content known
    (.ok (), { f with snapshot := some ⟨content, tree⟩ }, s')
  | (.error e, s') => (.error e, f, s')

/-- The references of the file as it was last read. -/
def references (f : SourceFile) : Except Error (List Reference) :=
  match f.snapshot with
  | none => .error (.notParsed f.path)
  | some snapshot => Reference.references f.path snapshot.content snapshot.tree

end SourceFile

end ModuleBundler
