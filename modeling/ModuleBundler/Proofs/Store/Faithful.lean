import ModuleBundler.Proofs.Store.Resolving

/-!
# Answers without slots

A store in memory is asked for paths and answers with paths, contents and errors. None of this tells
in which slot a file is, or which files came first. What is asked for is found in the catalog, and
what is wrong with a path can be said from the catalog as well: at the place where a walk stops, it
is known what stands there and how it is called (`Catalog.fault`). So the answers of a store are the
answers of its catalog, down to the errors (`MemoryStore.Faithful.resolve_eq` and its companions).

What is said of a directory when a name is not found in it is the name that its node has, and the
root has one too. It is empty and stays so, which is all that has to be known besides what makes a
tree (`MemoryStore.Faithful`).

Two stores with the same catalog therefore give the same answers, and go on to do so when files are
read in both (`MemoryStore.SameFiles`).
-/

namespace ModuleBundler

/-- The name of what stands at a canonical path; the root has the empty name. -/
def Path.lastName (p : Path) : String :=
  p.segments.getLast?.getD ""

/-! ### What catalogs answer -/

namespace Catalog

/-- What is wrong with a step that cannot be taken. -/
def fault (m : Catalog) (current : Path) (segment : String) : PathFault :=
  match m current with
  | none => .removedNode
  | some (.file _) =>
    if segment = Path.parentName then .ascendsFromFile current.lastName
    else .notDirectory current.lastName
  | some .directory =>
    if segment = Path.parentName then .aboveRoot else .noEntry current.lastName segment

/-- One step of a path, or what is wrong with it. -/
def advance (m : Catalog) (current : Path) (segment : String) : Except PathFault Path :=
  match m.step current segment with
  | some next => .ok next
  | none => .error (m.fault current segment)

/-- The canonical path that segments lead to from a canonical path. -/
def follow (m : Catalog) (start : Path) (segments : List String) : Except PathFault Path :=
  segments.foldlM m.advance start

/-- The canonical path that a path leads to from the root. -/
def find (m : Catalog) (path : Path) : Except Error Path :=
  (m.follow Path.root path.segments).mapError fun cause ↦ .invalidPath (.along path cause)

/-- The canonical path of what `relative` names from the directory `context`. -/
def resolve (m : Catalog) (context relative : Path) : Except Error Path :=
  (if relative.absolute then .ok Path.root else m.find context) >>= fun start ↦
    (m.follow start relative.segments).mapError fun cause ↦
      .invalidPath (.alongFrom relative context cause)

/-- The content of the file that a path leads to. -/
def content (m : Catalog) (path : Path) : Except Error Bytes :=
  m.find path >>= fun p ↦
    match m p with
    | some (.file data) => .ok data
    | _ => invalid (.notFile path.render)

end Catalog

namespace MemoryStore

variable {s s' : MemoryStore} {id : Nat} {name : String} {node : TreeNode}
  {context relative path : Path} {segment : String} {segments : List String}

/-! ### The name of the root -/

/-- A new node does not take the place of the root. -/
theorem name?_zero_addChild {parent : Nat} {content : NodeContent} (h : s.name? 0 = some "") :
    (s.addChild parent name content).name? 0 = some "" := by
  obtain ⟨root, hroot, -⟩ := Option.map_eq_some_iff.1 h
  rw [name?_addChild, if_neg (Nat.ne_of_lt (lt_size_of_node? hroot)), h]

/-- The operations leave the root its name. -/
theorem keeps_name_root :
    FileStore.Keeps MemoryStore (fun _ ↦ True) fun s ↦ s.Sound ∧ s.name? 0 = some "" where
  root := trivial
  child _ := trivial
  openFile h hopen := by
    refine ⟨keeps_sound.openFile h.1 hopen, ?_⟩
    obtain ⟨id, -, -, -, rfl⟩ := openFile_eq_ok hopen
    exact h.2
  create _ h hcreate := by
    refine ⟨keeps_sound.create trivial h.1 hcreate, ?_⟩
    obtain ⟨parent, name, -, ⟨-, rfl⟩ | ⟨id, -, -, rfl⟩⟩ := create_eq_ok hcreate
    · exact name?_zero_addChild h.2
    · exact name?_modifyContent.trans h.2
  remove _ h hremove := by
    refine ⟨keeps_sound.remove trivial h.1 hremove, ?_⟩
    obtain ⟨parent, name, id, -, -, hfile, rfl⟩ := remove_eq_ok hremove
    exact name?_unlink.trans ((if_neg (holdsFile_ne hfile h.1.root).symm).trans h.2)
  makeDirectory _ h hmake := by
    refine ⟨keeps_sound.makeDirectory trivial h.1 hmake, ?_⟩
    obtain ⟨parent, name, -, -, rfl⟩ := makeDirectory_eq_ok hmake
    exact name?_zero_addChild h.2
  write h hwrite := by
    refine ⟨keeps_sound.write h.1 hwrite, ?_⟩
    obtain ⟨file, -, -, rfl⟩ := write_eq_ok hwrite
    exact name?_modifyContent.trans h.2
  close h hclose := by
    refine ⟨keeps_sound.close h.1 hclose, ?_⟩
    obtain ⟨handles, -, rfl⟩ := close_eq_ok hclose
    exact h.2

/-! ### Stores that answer as their catalogs -/

/-- What makes a store answer as its catalog does. -/
structure Faithful (s : MemoryStore) : Prop where
  /-- The slots make up a tree. -/
  tree : s.Tree
  /-- Files can be opened and closed. -/
  sound : s.Sound
  /-- The root has the empty name. -/
  name_root : s.name? 0 = some ""

theorem InUse.faithful (h : s.InUse) : s.Faithful where
  tree := h.tree
  sound := h.sound
  name_root := (keeps_name_root.of_reachable ⟨sound_empty, rfl⟩
    (h.reachable.reachableOn fun _ ↦ trivial)).2

namespace Faithful

/-- The name of a node is the last one on the way to it. -/
theorem name_eq (h : s.Faithful) (hnode : s.node? id = some node) :
    node.name = (s.pathOf id).lastName := by
  rcases eq_or_ne id 0 with rfl | hne
  · rw [h.tree.pathOf_zero]
    exact Option.some.inj ((name?_eq hnode).symm.trans h.name_root)
  · obtain ⟨parent, hparent, -⟩ := h.tree.exists_parent (name?_eq hnode) hne
    rw [h.tree.pathOf_eq_below hparent (name?_eq hnode)]
    simp [Path.below, Path.lastName]

/-- What is wrong with a step in the store is what is wrong with it in the catalog. -/
theorem eq_fault (h : s.Faithful) (hnode : s.node? id = some node) {cause : PathFault}
    (hstep : s.step id segment = .error cause) :
    cause = s.catalog.fault (s.pathOf id) segment := by
  have hname := h.name_eq hnode
  rw [Catalog.fault, h.tree.catalog_pathOf hnode]
  rw [step, hnode] at hstep
  obtain ⟨name, parent, data | children⟩ := node
  · simp only [TreeNode.isFile, if_true] at hstep
    simp only [NodeContent.entry, ← hname]
    split at hstep <;> simp_all
  · simp only [TreeNode.isFile, Bool.false_eq_true, if_false] at hstep
    simp only [NodeContent.entry, ← hname]
    by_cases hup : segment = Path.parentName
    · rw [if_pos hup] at hstep ⊢
      rcases parent with - | parent
      · exact (Except.error.inj hstep).symm
      · cases hstep
    · rw [if_neg hup] at hstep ⊢
      rcases hchild : s.childNamed segment children with - | child
      · rw [hchild] at hstep
        exact (Except.error.inj hstep).symm
      · rw [hchild] at hstep
        cases hstep

/-- **A step in the store is a step in the catalog**, and what is wrong with it is the same. -/
theorem map_step (h : s.Faithful) (hnode : s.node? id = some node) :
    (s.step id segment).map s.pathOf = s.catalog.advance (s.pathOf id) segment := by
  rw [Catalog.advance]
  rcases hstep : s.step id segment with cause | child
  · have hnone : s.catalog.step (s.pathOf id) segment = none := by
      refine Option.eq_none_iff_forall_ne_some.2 fun p hp ↦ ?_
      obtain ⟨child, hchild, -⟩ := (h.tree.step_catalog hnode).1 hp
      rw [hstep] at hchild
      cases hchild
    rw [hnone, h.eq_fault hnode hstep]
    rfl
  · rw [(h.tree.step_catalog hnode).2 ⟨child, hstep, rfl⟩]
    rfl

/-- A walk through the store is a walk through the catalog. -/
theorem map_walk (h : s.Faithful) (hnode : s.node? id = some node) :
    (s.walk id segments).map s.pathOf = s.catalog.follow (s.pathOf id) segments := by
  induction segments generalizing id node with
  | nil => rfl
  | cons segment rest ih =>
    rw [walk, Catalog.follow, List.foldlM_cons, List.foldlM_cons, ← h.map_step hnode]
    rcases hstep : s.step id segment with cause | next
    · rfl
    · obtain ⟨below, hbelow⟩ := h.tree.exists_node_of_step hstep
      exact ih hbelow

theorem map_lookup (h : s.Faithful) (path : Path) :
    (s.lookup path).map s.pathOf = s.catalog.find path := by
  obtain ⟨root, hroot⟩ := h.tree.exists_root
  rw [Catalog.find, ← h.tree.pathOf_zero, ← h.map_walk hroot, lookup]
  rcases s.walk 0 path.segments with cause | id <;> rfl

/-- **What a path resolves to in the store, it resolves to in the catalog.** -/
theorem resolve_eq (h : s.Faithful) (context relative : Path) :
    FileStore.resolve context relative s = s.catalog.resolve context relative := by
  have hstart : (if relative.absolute then pure 0 else s.lookup context).map s.pathOf =
      if relative.absolute then .ok Path.root else s.catalog.find context := by
    split
    · exact congrArg Except.ok h.tree.pathOf_zero
    · exact h.map_lookup context
  have hnode : ∀ {start}, (if relative.absolute then pure 0 else s.lookup context) = .ok start →
      ∃ node, s.node? start = some node := by
    intro start hlookup
    split at hlookup
    · exact Except.ok.inj hlookup ▸ h.tree.exists_root
    · exact h.tree.exists_node_of_lookup hlookup
  rw [MemoryStore.resolve_eq, Catalog.resolve, ← hstart]
  rcases hlookup : (if relative.absolute then pure 0 else s.lookup context) with e | start
  · rfl
  · obtain ⟨node, hstart⟩ := hnode hlookup
    simp only [bind, Except.bind, Except.map]
    rw [← h.map_walk hstart]
    rcases s.walk start relative.segments with cause | id <;> rfl

/-- **The content of a file in the store is the content in the catalog.** -/
theorem contentAt_eq (h : s.Faithful) (path : Path) :
    s.contentAt path = s.catalog.content path := by
  rw [contentAt, Catalog.content, ← h.map_lookup]
  rcases hid : s.lookup path with e | id
  · rfl
  · obtain ⟨node, hnode⟩ := h.tree.exists_node_of_lookup hid
    have hentry : s.catalog (s.pathOf id) = some node.content.entry := h.tree.catalog_pathOf hnode
    simp only [Except.map, bind, Except.bind, hentry, data?, hnode]
    obtain ⟨name, parent, data | children⟩ := node <;> rfl

end Faithful

/-! ### Stores with the same files -/

theorem Faithful.skip (h : s.Faithful) (n : Nat) : (s.skip n).Faithful where
  tree := h.tree.sameTree (s.sameTree_skip n)
  sound := h.sound.skip n
  name_root := h.name_root

/-- Two stores have the same files and directories at the same paths, whatever slots they are in. -/
structure SameFiles (s s' : MemoryStore) : Prop where
  /-- The first answers as its catalog. -/
  faithful : s.Faithful
  /-- So does the second. -/
  faithful' : s'.Faithful
  /-- The catalogs are the same. -/
  catalog : s'.catalog = s.catalog

namespace SameFiles

theorem resolve (h : s.SameFiles s') (context relative : Path) :
    FileStore.resolve context relative s' = FileStore.resolve context relative s := by
  rw [h.faithful.resolve_eq, h.faithful'.resolve_eq, h.catalog]

theorem isFile (h : s.SameFiles s') (path : Path) :
    FileStore.isFile path s' = FileStore.isFile path s := by
  rw [h.faithful.tree.isFile_eq, h.faithful'.tree.isFile_eq, h.catalog]

theorem contentAt (h : s.SameFiles s') (path : Path) : s'.contentAt path = s.contentAt path := by
  rw [h.faithful.contentAt_eq, h.faithful'.contentAt_eq, h.catalog]

theorem load (h : s.SameFiles s') (path : Path) :
    (FileStore.load path s').1 = (FileStore.load path s).1 := by
  rw [h.faithful.sound.fst_load, h.faithful'.sound.fst_load, h.contentAt]

/-- **What is used up by reading makes no difference.** -/
theorem skip (h : s.SameFiles s') (n n' : Nat) : (s.skip n).SameFiles (s'.skip n') where
  faithful := h.faithful.skip n
  faithful' := h.faithful'.skip n'
  catalog := (s'.sameTree_skip n').catalog.trans
    (h.catalog.trans (s.sameTree_skip n).catalog.symm)

end SameFiles

end MemoryStore

end ModuleBundler
