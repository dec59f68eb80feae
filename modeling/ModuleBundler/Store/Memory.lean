import ModuleBundler.Store.FileStore

/-!
# Files in memory

A tree of files and directories, kept as a list of slots. A node knows its parent by the number of
the parent's slot, and a directory knows its children in the same way. Numbers are never used twice:
removing a file empties its slot, and a handle that still leads there finds nothing, not another
file.

A new node comes after its parent, so the number of a parent is smaller than that of its child.
`namesTo` climbs only as long as this holds, which it always does in a store built by the operations
here, and so needs no other bound.
-/

namespace ModuleBundler

/-- What a node of the tree holds. -/
inductive NodeContent where
  /-- A file. -/
  | file (data : Bytes)
  /-- A directory, with the numbers of its children. -/
  | directory (children : List Nat)
  deriving DecidableEq, Repr

/-- A node of the tree. -/
structure TreeNode where
  /-- The name in the directory above; the root has the empty name. -/
  name : String
  /-- The number of the directory above, if there is one. -/
  parent : Option Nat
  /-- What the node holds. -/
  content : NodeContent
  deriving DecidableEq, Repr

/-- Whether a node is a file. -/
def TreeNode.isFile (node : TreeNode) : Bool :=
  match node.content with
  | .file _ => true
  | .directory _ => false

/-- A tree of files in memory. -/
structure MemoryStore where
  /-- The slots, with the root in the first. -/
  nodes : Array (Option TreeNode)
  /-- The open files, by the number of their slot. -/
  handles : HandleTable Nat
  deriving DecidableEq, Repr

namespace MemoryStore

/-- The tree with only a root. -/
def empty : MemoryStore :=
  ⟨#[some ⟨"", none, .directory []⟩], {}⟩

/-- The node in a slot. -/
def node? (s : MemoryStore) (id : Nat) : Option TreeNode :=
  (s.nodes[id]?).join

/-- Whether a slot holds a file. -/
def holdsFile (s : MemoryStore) (id : Nat) : Bool :=
  (s.node? id).any TreeNode.isFile

/-! ### Walking the tree -/

/-- The child of that name among `children`. -/
def childNamed (s : MemoryStore) (name : String) (children : List Nat) : Option Nat :=
  children.find? fun id ↦ (s.node? id).any (·.name == name)

/-- One step of a path: `..` leads from a directory to the one above, a name to a child. -/
def step (s : MemoryStore) (current : Nat) (segment : String) : Except PathFault Nat :=
  match s.node? current with
  | none => .error .removedNode
  | some node =>
    if segment = Path.parentName then
      if node.isFile then .error (.ascendsFromFile node.name)
      else
        match node.parent with
        | some parent => .ok parent
        | none => .error .aboveRoot
    else
      match node.content with
      | .file _ => .error (.notDirectory node.name)
      | .directory children =>
        match s.childNamed segment children with
        | some child => .ok child
        | none => .error (.noEntry node.name segment)

/-- Follows segments from a slot. -/
def walk (s : MemoryStore) (start : Nat) (segments : List String) : Except PathFault Nat :=
  segments.foldlM s.step start

/-- The slot a path leads to from the root. -/
def lookup (s : MemoryStore) (path : Path) : Except Error Nat :=
  match s.walk 0 path.segments with
  | .ok id => .ok id
  | .error cause => invalid (.along path cause)

/-- The names that lead from the root to a slot. -/
def namesTo (s : MemoryStore) (id : Nat) : List String :=
  match s.node? id with
  | none => []
  | some node =>
    match node.parent with
    | none => []
    | some parent => if parent < id then namesTo s parent ++ [node.name] else [node.name]
termination_by id

/-- The canonical path of a slot. -/
def pathOf (s : MemoryStore) (id : Nat) : Path :=
  ⟨true, s.namesTo id⟩

/-- The directory that holds, or could hold, what a path names, and the name in it. -/
def target (s : MemoryStore) (path : Path) : Except Error (Nat × String) := do
  let name ← path.basename
  if name = Path.parentName then invalid (.namesParent path)
  else
    let parent ← s.lookup (← path.parent)
    if (s.node? parent).any (!·.isFile) then return (parent, name)
    else invalid (.parentNotDirectory path)

/-- The child of that name in a directory. -/
def childOf (s : MemoryStore) (directory : Nat) (name : String) : Option Nat :=
  match (s.node? directory).map TreeNode.content with
  | some (.directory children) => s.childNamed name children
  | _ => none

/-! ### Changing the tree -/

/-- Changes the content of the node in a slot. -/
def modifyContent (s : MemoryStore) (id : Nat) (f : NodeContent → NodeContent) : MemoryStore :=
  { s with
    nodes := s.nodes.modify id fun slot ↦
      slot.map fun node ↦ { node with content := f node.content } }

/-- Changes the children of a directory. -/
def modifyChildren (s : MemoryStore) (id : Nat) (f : List Nat → List Nat) : MemoryStore :=
  s.modifyContent id fun content ↦
    match content with
    | .directory children => .directory (f children)
    | .file data => .file data

/-- Puts a new node into a directory. -/
def addChild (s : MemoryStore) (parent : Nat) (name : String) (content : NodeContent) :
    MemoryStore :=
  { s with nodes := s.nodes.push (some ⟨name, some parent, content⟩) }.modifyChildren parent
    (· ++ [s.nodes.size])

/-- Opens a file. -/
def openFile (path : Path) (s : MemoryStore) : Except Error (Handle × MemoryStore) := do
  let id ← s.lookup path
  if s.holdsFile id then
    let (handle, handles) := s.handles.insert ⟨id, s.pathOf id⟩
    return (handle, { s with handles })
  else invalid (.notFile path.render)

/-- Makes an empty file, or empties the file that stands there. -/
def create (path : Path) (s : MemoryStore) : Except Error MemoryStore := do
  let (parent, name) ← s.target path
  match s.childOf parent name with
  | none => return s.addChild parent name (.file [])
  | some id =>
    if s.holdsFile id then return s.modifyContent id fun _ ↦ .file []
    else invalid (.isDirectory path.render)

/-- Removes a file. -/
def remove (path : Path) (s : MemoryStore) : Except Error MemoryStore := do
  let (parent, name) ← s.target path
  match s.childOf parent name with
  | none => invalid (.missing path)
  | some id =>
    if s.holdsFile id then
      let s := s.modifyChildren parent (·.filter (· != id))
      return { s with nodes := s.nodes.setIfInBounds id none }
    else invalid (.removesDirectory path.render)

/-- Makes a directory. -/
def makeDirectory (path : Path) (s : MemoryStore) : Except Error MemoryStore := do
  let (parent, name) ← s.target path
  match s.childOf parent name with
  | none => return s.addChild parent name (.directory [])
  | some _ => invalid (.alreadyExists path)

/-! ### Open files -/

/-- The content of an open file. -/
def read (handle : Handle) (s : MemoryStore) : Except Error Bytes := do
  let file ← s.handles.get handle
  match (s.node? file.target).map TreeNode.content with
  | some (.file data) => return data
  | _ => .error (.io (.removed file.realPath))

/-- Replaces the content of an open file. -/
def write (handle : Handle) (bytes : Bytes) (s : MemoryStore) : Except Error MemoryStore := do
  let file ← s.handles.get handle
  if s.holdsFile file.target then return s.modifyContent file.target fun _ ↦ .file bytes
  else .error (.io (.removedTarget handle.id))

/-- Closes an open file. -/
def close (handle : Handle) (s : MemoryStore) : Except Error MemoryStore := do
  return { s with handles := ← s.handles.close handle }

/-- The canonical path an open file had when it was opened. -/
def realPath (handle : Handle) (s : MemoryStore) : Except Error Path := do
  return (← s.handles.get handle).realPath

/-- The canonical path of what `relative` names from `context`. -/
def resolve (context relative : Path) (s : MemoryStore) : Except Error Path := do
  let start ← if relative.absolute then pure 0 else s.lookup context
  match s.walk start relative.segments with
  | .ok id => return s.pathOf id
  | .error cause => invalid (.alongFrom relative context cause)

/-- Whether a path names a file. -/
def isFile (path : Path) (s : MemoryStore) : Bool :=
  match s.walk 0 path.segments with
  | .ok id => s.holdsFile id
  | .error _ => false

/-- How many files the tree holds. -/
def fileCount (s : MemoryStore) : Nat :=
  s.nodes.toList.countP fun slot ↦ slot.any TreeNode.isFile

instance : FileStore MemoryStore where
  openFile := openFile
  create := create
  remove := remove
  makeDirectory := makeDirectory
  read := read
  write := write
  close := close
  realPath := realPath
  resolve := resolve
  isFile := isFile
  stat s := ⟨s.handles.size, s.fileCount⟩
  fileBound s := s.nodes.size

/-- The tree with the given files in it. -/
def ofFiles (files : List (Path × Bytes)) : Except Error MemoryStore :=
  match FileStore.fill [] files empty with
  | (.ok _, s) => .ok s
  | (.error e, _) => .error e

/-- The tree with the given files in it, whose paths and contents are given as texts. -/
def ofTexts (files : List (String × String)) : Except Error MemoryStore :=
  ofFiles (files.map fun file ↦ (Path.parse file.1, Utf8.encode file.2))

end MemoryStore

end ModuleBundler
