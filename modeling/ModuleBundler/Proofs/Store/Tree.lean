import Mathlib.Data.List.Nodup
import ModuleBundler.Proofs.Path.WellFormed
import ModuleBundler.Proofs.Store.Reading

/-!
# The tree in memory

A store in memory is a list of slots that name each other by numbers. `MemoryStore.Tree` says that
they make up a tree: a node stands in the directory that lists it and nowhere else, directories come
before what they hold, and no two entries of a directory have one name. Everything else that could
be said of the slots follows. Climbing from a node comes to the root, since the numbers on the way
become smaller; and the names met on the way lead back from the root to the node, since at each
directory only one entry has the name (`MemoryStore.Tree.lookup_pathOf`).

All of it is said of the name of a slot, its parent and what it lists, so that a change of the slots
is understood as soon as it is known what it does to these three.
-/

namespace ModuleBundler

/-- The numbers that a node lists. A file lists none. -/
def NodeContent.children : NodeContent → List Nat
  | .directory children => children
  | .file _ => []

namespace MemoryStore

variable {s : MemoryStore} {id parent child : Nat} {name : String}

/-- The name of the node in a slot. -/
def name? (s : MemoryStore) (id : Nat) : Option String :=
  (s.node? id).map TreeNode.name

/-- The number of the directory in which the node in a slot stands. -/
def parent? (s : MemoryStore) (id : Nat) : Option Nat :=
  (s.node? id).bind TreeNode.parent

/-- The numbers that the directory in a slot lists. -/
def children (s : MemoryStore) (id : Nat) : List Nat :=
  ((s.node? id).map fun node ↦ node.content.children).getD []

theorem name?_eq {node : TreeNode} (h : s.node? id = some node) : s.name? id = some node.name := by
  rw [name?, h, Option.map_some]

theorem parent?_eq {node : TreeNode} (h : s.node? id = some node) : s.parent? id = node.parent := by
  rw [parent?, h, Option.bind_some]

theorem children_eq {node : TreeNode} (h : s.node? id = some node) :
    s.children id = node.content.children := by
  rw [children, h, Option.map_some, Option.getD_some]

theorem lt_size_of_node? {node : TreeNode} (h : s.node? id = some node) : id < s.nodes.size := by
  refine Nat.lt_of_not_le fun hle ↦ ?_
  rw [node?, Array.getElem?_eq_none hle] at h
  cases h

theorem holdsDirectory_iff : s.holdsDirectory id = true ↔
    ∃ name parent children, s.node? id = some ⟨name, parent, .directory children⟩ := by
  rw [holdsDirectory]
  rcases s.node? id with - | ⟨name, parent, data | children⟩ <;> simp [TreeNode.isFile]

theorem holdsFile_iff : s.holdsFile id = true ↔
    ∃ name parent data, s.node? id = some ⟨name, parent, .file data⟩ := by
  rw [holdsFile]
  rcases s.node? id with - | ⟨name, parent, data | children⟩ <;> simp [TreeNode.isFile]

/-- Only directories list anything. -/
theorem holdsDirectory_of_mem_children (h : child ∈ s.children id) :
    s.holdsDirectory id = true := by
  rcases hnode : s.node? id with - | ⟨name, parent, data | children⟩
  · simp [children, hnode] at h
  · rw [children_eq hnode] at h
    cases h
  · exact holdsDirectory_iff.2 ⟨name, parent, children, hnode⟩

/-- A file lists nothing. -/
theorem children_of_holdsFile (h : s.holdsFile id = true) : s.children id = [] := by
  obtain ⟨name, parent, data, hnode⟩ := holdsFile_iff.1 h
  rw [children_eq hnode]
  rfl

/-- The test by which the child of a name is looked for. -/
theorem any_name_iff : (s.node? id).any (fun node ↦ node.name == name) = true ↔
    s.name? id = some name := by
  rw [name?, Option.any_eq_true, Option.map_eq_some_iff]
  simp only [beq_iff_eq]

theorem name?_of_childNamed {children : List Nat} (h : s.childNamed name children = some child) :
    child ∈ children ∧ s.name? child = some name := by
  have htest := List.find?_some h
  exact ⟨List.mem_of_find?_eq_some h, any_name_iff.1 htest⟩

/-! ### What a tree is -/

/-- The slots make up a tree. -/
structure Tree (s : MemoryStore) : Prop where
  /-- The first slot holds a directory. -/
  root : s.holdsDirectory 0 = true
  /-- Nothing is above the first slot. -/
  parent?_root : s.parent? 0 = none
  /-- Any other node stands in a directory that came before it. -/
  exists_parent : ∀ {id name}, s.name? id = some name → id ≠ 0 →
    ∃ parent, s.parent? id = some parent ∧ parent < id
  /-- A directory lists what stands in it. -/
  mem_children_iff : ∀ {id child}, child ∈ s.children id ↔ s.parent? child = some id
  /-- No two entries of a directory have one name. -/
  nodup_names : ∀ id, ((s.children id).map s.name?).Nodup
  /-- Names are plain, and none is `..`. -/
  plain : ∀ {id name}, id ≠ 0 → s.name? id = some name →
    Path.Plain name ∧ name ≠ Path.parentName

theorem exists_node_of_parent? (h : s.parent? id = some parent) :
    ∃ node, s.node? id = some node ∧ node.parent = some parent :=
  Option.bind_eq_some_iff.1 h

namespace Tree

/-- What is above a node is a directory. -/
theorem holdsDirectory_of_parent? (h : s.Tree) (hparent : s.parent? id = some parent) :
    s.holdsDirectory parent = true :=
  holdsDirectory_of_mem_children (h.mem_children_iff.2 hparent)

theorem ne_zero_of_parent? (h : s.Tree) (hparent : s.parent? id = some parent) : id ≠ 0 := by
  rintro rfl
  rw [h.parent?_root] at hparent
  cases hparent

theorem lt_of_parent? (h : s.Tree) (hparent : s.parent? id = some parent) : parent < id := by
  obtain ⟨node, hnode, -⟩ := exists_node_of_parent? hparent
  obtain ⟨parent', hparent', hlt⟩ := h.exists_parent (name?_eq hnode) (h.ne_zero_of_parent? hparent)
  obtain rfl : parent = parent' := Option.some.inj (hparent.symm.trans hparent')
  exact hlt

/-- A directory lists nothing twice. -/
theorem nodup_children (h : s.Tree) (id : Nat) : (s.children id).Nodup :=
  (h.nodup_names id).of_map _

/-- At most one entry of a directory has a name. -/
theorem eq_of_name? (h : s.Tree) {child' : Nat} (hchild : s.parent? child = some parent)
    (hchild' : s.parent? child' = some parent) (hname : s.name? child = s.name? child') :
    child = child' :=
  List.inj_on_of_nodup_map (h.nodup_names parent) (h.mem_children_iff.2 hchild)
    (h.mem_children_iff.2 hchild') hname

/-! ### Looking up a name -/

/-- The entry of a name is the node of that name that stands in the directory. -/
theorem childNamed_eq_some (h : s.Tree) :
    s.childNamed name (s.children id) = some child ↔
      s.parent? child = some id ∧ s.name? child = some name := by
  rw [← h.mem_children_iff]
  constructor
  · exact name?_of_childNamed
  · rintro ⟨hmem, hname⟩
    rcases hfind : s.childNamed name (s.children id) with - | child'
    · exact absurd (any_name_iff.2 hname) (List.find?_eq_none.1 hfind child hmem)
    · obtain ⟨hmem', hname'⟩ := name?_of_childNamed hfind
      exact congrArg some (h.eq_of_name? (h.mem_children_iff.1 hmem')
        (h.mem_children_iff.1 hmem) (hname'.trans hname.symm))

theorem childOf_eq_some (h : s.Tree) :
    s.childOf id name = some child ↔ s.parent? child = some id ∧ s.name? child = some name := by
  rw [← h.childNamed_eq_some, childOf, children]
  rcases s.node? id with - | ⟨name, parent, data | children⟩ <;>
    simp [childNamed, NodeContent.children]

/-- A name leads from a directory to its entry of that name. -/
theorem step_eq_ok (h : s.Tree) (hname : name ≠ Path.parentName) :
    s.step id name = .ok child ↔ s.parent? child = some id ∧ s.name? child = some name := by
  rw [← h.childNamed_eq_some, step, children]
  rcases s.node? id with - | ⟨name', parent, data | children⟩
  · simp [childNamed]
  · simp [hname, childNamed, NodeContent.children]
  · simp only [hname, if_false, Option.map_some, Option.getD_some, NodeContent.children]
    rcases s.childNamed name children with - | child' <;> simp

end Tree

/-- `..` leads from a directory to the one above. -/
theorem step_parentName : s.step id Path.parentName = .ok parent ↔
    s.holdsDirectory id = true ∧ s.parent? id = some parent := by
  rw [step, holdsDirectory, parent?]
  rcases s.node? id with - | ⟨name', - | parent', data | children⟩ <;> simp [TreeNode.isFile]

/-! ### From a node to the root and back -/

/-- Climbing from a slot to the root puts the name met at each step in front of those below. Nothing
says how long a climb may be, so that there is none where the slots lead round in circles. -/
inductive Climbs (s : MemoryStore) : Nat → List String → Prop
  /-- The slot is empty. -/
  | gone {id : Nat} : s.node? id = none → Climbs s id []
  /-- Nothing is above the node. -/
  | root {id : Nat} {node : TreeNode} : s.node? id = some node → node.parent = none →
      Climbs s id []
  /-- The node stands in another. -/
  | up {id parent : Nat} {node : TreeNode} {names : List String} : s.node? id = some node →
      node.parent = some parent → Climbs s parent names →
      Climbs s id (names ++ Path.split node.name)

theorem namesTo_of_parent?_eq_none (h : s.parent? id = none) : s.namesTo id = [] := by
  rw [namesTo]
  rcases hnode : s.node? id with - | node
  · rfl
  · rw [parent?_eq hnode] at h
    simp only [h]

namespace Tree

/-- The names that lead to a node are those that lead to the directory above it, and its own. -/
theorem namesTo_eq (h : s.Tree) (hparent : s.parent? id = some parent)
    (hname : s.name? id = some name) : s.namesTo id = s.namesTo parent ++ [name] := by
  obtain ⟨node, hnode, hup⟩ := exists_node_of_parent? hparent
  obtain rfl : node.name = name := Option.some.inj ((name?_eq hnode).symm.trans hname)
  rw [namesTo, hnode]
  simp only [hup, if_pos (h.lt_of_parent? hparent)]

/-- Nodes are reached from the root down: what holds of the root, and of a node if it holds of the
directory above it, holds of all. -/
theorem induction {motive : Nat → Prop} (h : s.Tree) (root : motive 0)
    (below : ∀ {id parent name}, s.parent? id = some parent → s.name? id = some name →
      motive parent → motive id) {node : TreeNode} (hnode : s.node? id = some node) :
    motive id := by
  induction id using Nat.strongRecOn generalizing node with
  | _ id ih =>
    rcases Nat.eq_zero_or_pos id with rfl | hpos
    · exact root
    · obtain ⟨parent, hparent, hlt⟩ := h.exists_parent (name?_eq hnode) (Nat.ne_of_gt hpos)
      obtain ⟨_, _, _, habove⟩ := holdsDirectory_iff.1 (h.holdsDirectory_of_parent? hparent)
      exact below hparent (name?_eq hnode) (ih parent hlt habove)

/-- The names that lead to a node are plain, and none of them leads up. -/
theorem plain_namesTo (h : s.Tree) {node : TreeNode} (hnode : s.node? id = some node) :
    ∀ name ∈ s.namesTo id, Path.Plain name ∧ name ≠ Path.parentName := by
  refine h.induction (motive := fun id ↦
    ∀ name ∈ s.namesTo id, Path.Plain name ∧ name ≠ Path.parentName) ?_ ?_ hnode
  · rw [namesTo_of_parent?_eq_none h.parent?_root]
    exact fun _ hname ↦ nomatch hname
  · intro id parent name hparent hname ih name' hmem
    rw [h.namesTo_eq hparent hname] at hmem
    rcases List.mem_append.1 hmem with hmem | hmem
    · exact ih name' hmem
    · obtain rfl := List.mem_singleton.1 hmem
      exact h.plain (h.ne_zero_of_parent? hparent) hname

/-- **Climbing from a node comes to the root**, and meets the names that lead to the node. -/
theorem climbs (h : s.Tree) {node : TreeNode} (hnode : s.node? id = some node) :
    s.Climbs id (s.namesTo id) := by
  refine h.induction (motive := fun id ↦ s.Climbs id (s.namesTo id)) ?_ ?_ hnode
  · obtain ⟨_, _, _, hroot⟩ := holdsDirectory_iff.1 h.root
    rw [namesTo_of_parent?_eq_none h.parent?_root]
    exact .root hroot ((parent?_eq hroot).symm.trans h.parent?_root)
  · intro id parent name hparent hname ih
    obtain ⟨node, hnode, hup⟩ := exists_node_of_parent? hparent
    obtain rfl : node.name = name := Option.some.inj ((name?_eq hnode).symm.trans hname)
    have hsplit : Path.split node.name = [node.name] :=
      (h.plain (h.ne_zero_of_parent? hparent) hname).1.split_eq
    rw [h.namesTo_eq hparent hname, ← hsplit]
    exact .up hnode hup ih

/-- The names that lead to a node lead from the root to it. -/
theorem walk_namesTo (h : s.Tree) {node : TreeNode} (hnode : s.node? id = some node) :
    s.walk 0 (s.namesTo id) = .ok id := by
  refine h.induction (motive := fun id ↦ s.walk 0 (s.namesTo id) = .ok id) ?_ ?_ hnode
  · rw [namesTo_of_parent?_eq_none h.parent?_root]
    rfl
  · intro id parent name hparent hname ih
    have hplain := h.plain (h.ne_zero_of_parent? hparent) hname
    have hstep : s.step parent name = .ok id := (h.step_eq_ok hplain.2).2 ⟨hparent, hname⟩
    rw [walk] at ih
    rw [h.namesTo_eq hparent hname, walk, List.foldlM_append, ih]
    simp [bind, Except.bind, hstep, pure, Except.pure]

/-- **The path of a node leads to it.** -/
theorem lookup_pathOf (h : s.Tree) {node : TreeNode} (hnode : s.node? id = some node) :
    s.lookup (s.pathOf id) = .ok id :=
  lookup_eq_ok.2 (h.walk_namesTo hnode)

theorem pathOf_zero (h : s.Tree) : s.pathOf 0 = Path.root := by
  rw [pathOf, namesTo_of_parent?_eq_none h.parent?_root]
  rfl

/-- The path of a slot leads nowhere up, be there a node in it or not. -/
theorem isCanonical_pathOf (h : s.Tree) (id : Nat) : (s.pathOf id).isCanonical = true := by
  have hup : Path.parentName ∉ s.namesTo id := by
    rcases hnode : s.node? id with - | node
    · rw [namesTo, hnode]
      exact List.not_mem_nil
    · exact fun hmem ↦ (h.plain_namesTo hnode Path.parentName hmem).2 rfl
  simp [pathOf, Path.isCanonical, hup]

/-- Different nodes have different paths. -/
theorem pathOf_injective (h : s.Tree) {id' : Nat} {node node' : TreeNode}
    (hnode : s.node? id = some node) (hnode' : s.node? id' = some node')
    (hpath : s.pathOf id = s.pathOf id') : id = id' := by
  have hlookup := h.lookup_pathOf hnode
  rw [hpath, h.lookup_pathOf hnode'] at hlookup
  exact (Except.ok.inj hlookup).symm

end Tree

end MemoryStore

end ModuleBundler
