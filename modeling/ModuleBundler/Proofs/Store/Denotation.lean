import ModuleBundler.Proofs.Store.Catalog
import ModuleBundler.Proofs.Store.Changes

/-!
# What a store in memory means

The nodes of a store in memory make up a catalog: each stands for an entry, at the path that
climbing from it gives (`MemoryStore.catalog`). In a tree no two nodes have one path, so that each
node is found at its path (`MemoryStore.Tree.catalog_pathOf`), and a walk through the slots is a
walk through the catalog (`MemoryStore.Tree.denoted?_eq_some`).

A change of one slot is a change of one entry. What has to be known for this is that the paths of
all other nodes stay as they are, and they do: names and parents change in this slot only, and
nothing stands below it (`MemoryStore.Tree.catalog_eq_update`).
-/

namespace ModuleBundler

/-- What the content of a node stands for. -/
def NodeContent.entry : NodeContent → Entry
  | .file data => .file data
  | .directory _ => .directory

namespace MemoryStore

variable {s s' : MemoryStore} {id parent child j : Nat} {name segment : String} {node : TreeNode}
  {content : NodeContent} {path p q : Path} {e : Entry} {bytes data : Bytes}

/-! ### The catalog of a store -/

/-- The entry that a slot stands for. -/
def entryAt? (s : MemoryStore) (id : Nat) : Option Entry :=
  (s.node? id).map fun node ↦ node.content.entry

/-- The entries of a store, each at the path of its node. -/
def catalog (s : MemoryStore) : Catalog :=
  fun path ↦ ((List.range s.nodes.size).find? fun id ↦
    (s.node? id).isSome && s.pathOf id == path).bind s.entryAt?

theorem exists_node_of_entryAt? (h : s.entryAt? id = some e) :
    ∃ node, s.node? id = some node ∧ node.content.entry = e :=
  Option.map_eq_some_iff.1 h

theorem entryAt?_eq (h : s.node? id = some node) : s.entryAt? id = some node.content.entry := by
  rw [entryAt?, h, Option.map_some]

theorem entryAt?_eq_directory : s.entryAt? id = some .directory ↔ s.holdsDirectory id = true := by
  rw [entryAt?, holdsDirectory]
  rcases s.node? id with - | ⟨name, parent, data | children⟩ <;>
    simp [NodeContent.entry, TreeNode.isFile]

theorem entryAt?_eq_file : s.entryAt? id = some (.file data) ↔ s.data? id = some data := by
  rw [entryAt?, data?]
  rcases s.node? id with - | ⟨name, parent, data | children⟩ <;> simp [NodeContent.entry]

/-- What is open makes no difference. -/
theorem SameTree.catalog (h : SameTree s s') : s'.catalog = s.catalog := by
  have hnode : s'.node? = s.node? := by
    rw [h.eq_withHandles]
    rfl
  have hsize : s'.nodes.size = s.nodes.size := congrArg Array.size h.symm
  have hentry : s'.entryAt? = s.entryAt? := funext fun id ↦ by rw [entryAt?, entryAt?, hnode]
  funext p
  simp only [MemoryStore.catalog, hentry, hnode, hsize, h.pathOf]

namespace Tree

theorem catalog_eq_some (h : s.Tree) :
    s.catalog p = some e ↔ ∃ id, s.entryAt? id = some e ∧ s.pathOf id = p := by
  rw [catalog, Option.bind_eq_some_iff]
  constructor
  · rintro ⟨id, hfind, hentry⟩
    have htest := List.find?_some hfind
    rw [Bool.and_eq_true, beq_iff_eq] at htest
    exact ⟨id, hentry, htest.2⟩
  · rintro ⟨id, hentry, rfl⟩
    obtain ⟨node, hnode, -⟩ := exists_node_of_entryAt? hentry
    rcases hfind : (List.range s.nodes.size).find? fun id' ↦
      (s.node? id').isSome && s.pathOf id' == s.pathOf id with - | id'
    · have hmem : id ∈ List.range s.nodes.size := List.mem_range.2 (lt_size_of_node? hnode)
      simpa [hnode] using List.find?_eq_none.1 hfind id hmem
    · have htest := List.find?_some hfind
      rw [Bool.and_eq_true, beq_iff_eq] at htest
      obtain ⟨node', hnode'⟩ := Option.isSome_iff_exists.1 htest.1
      obtain rfl : id' = id := h.pathOf_injective hnode' hnode htest.2
      exact ⟨id', rfl, hentry⟩

/-- In the beginning there is the root. -/
theorem catalog_empty :
    empty.catalog = Function.update (fun _ ↦ none) Path.root (some .directory) := by
  have hentry : ∀ id e, empty.entryAt? id = some e ↔ id = 0 ∧ e = .directory := by
    intro id e
    rcases eq_or_ne id 0 with rfl | hne
    · rw [entryAt?_eq (show empty.node? 0 = some ⟨"", none, .directory []⟩ from rfl)]
      simp [NodeContent.entry, eq_comm]
    · simp [entryAt?, node?_empty hne, hne]
  funext p
  refine Option.ext fun e ↦ ?_
  simp only [tree_empty.catalog_eq_some, hentry]
  rcases eq_or_ne p Path.root with rfl | hne
  · simp [tree_empty.pathOf_zero, eq_comm]
  · simp [tree_empty.pathOf_zero, Function.update_of_ne hne, hne.symm]

/-- **A node is found at its path.** -/
theorem catalog_pathOf (h : s.Tree) (hnode : s.node? id = some node) :
    s.catalog (s.pathOf id) = some node.content.entry :=
  h.catalog_eq_some.2 ⟨id, entryAt?_eq hnode, rfl⟩

theorem catalog_pathOf_eq_directory (h : s.Tree) (hnode : s.node? id = some node) :
    s.catalog (s.pathOf id) = some .directory ↔ s.holdsDirectory id = true := by
  rw [h.catalog_pathOf hnode, ← entryAt?_eq hnode, entryAt?_eq_directory]

/-- The paths of what stands in a directory. -/
theorem pathOf_eq_below (h : s.Tree) (hparent : s.parent? child = some parent)
    (hname : s.name? child = some name) : s.pathOf child = (s.pathOf parent).below name := by
  rw [pathOf, h.namesTo_eq hparent hname]
  rfl

/-- What is found below the path of a directory stands in it. -/
theorem parent?_of_pathOf_eq_below (h : s.Tree) (hnode : s.node? id = some node)
    (hchild : s.entryAt? child = some e) (hpath : s.pathOf child = (s.pathOf id).below name) :
    s.parent? child = some id ∧ s.name? child = some name := by
  obtain ⟨below, hbelow, -⟩ := exists_node_of_entryAt? hchild
  have hnames : s.namesTo child = s.namesTo id ++ [name] := congrArg Path.segments hpath
  have hne : child ≠ 0 := by
    rintro rfl
    rw [namesTo_of_parent?_eq_none h.parent?_root] at hnames
    simp at hnames
  obtain ⟨parent, hparent, -⟩ := h.exists_parent (name?_eq hbelow) hne
  rw [h.namesTo_eq hparent (name?_eq hbelow)] at hnames
  obtain ⟨habove, hlast⟩ := List.append_inj' hnames rfl
  obtain ⟨_, _, _, hup⟩ := holdsDirectory_iff.1 (h.holdsDirectory_of_parent? hparent)
  obtain rfl : parent = id :=
    h.pathOf_injective hup hnode (congrArg (Path.mk true) habove)
  exact ⟨hparent, (name?_eq hbelow).trans (congrArg some (List.singleton_inj.1 hlast))⟩

/-- The entry of a name in a directory. -/
theorem catalog_below (h : s.Tree) (hnode : s.node? id = some node) :
    s.catalog ((s.pathOf id).below name) = (s.childOf id name).bind s.entryAt? := by
  rcases hchild : s.childOf id name with - | child
  · rw [Option.bind_none, Option.eq_none_iff_forall_ne_some]
    intro e he
    obtain ⟨child, hentry, hpath⟩ := h.catalog_eq_some.1 he
    have hsome := h.childOf_eq_some.2 (h.parent?_of_pathOf_eq_below hnode hentry hpath)
    rw [hchild] at hsome
    cases hsome
  · obtain ⟨hparent, hname⟩ := h.childOf_eq_some.1 hchild
    obtain ⟨below, hbelow, -⟩ := exists_node_of_parent? hparent
    rw [← h.pathOf_eq_below hparent hname, h.catalog_pathOf hbelow, Option.bind_some,
      entryAt?_eq hbelow]

end Tree

/-! ### Walks -/

/-- Only from a directory does a segment lead anywhere. -/
theorem holdsDirectory_of_step (h : s.step id segment = .ok child) :
    s.holdsDirectory id = true := by
  rw [step] at h
  rw [holdsDirectory]
  rcases hnode : s.node? id with - | ⟨name, parent, data | children⟩
  · simp [hnode] at h
  · simp only [hnode, TreeNode.isFile] at h
    split at h <;> cases h
  · rfl

namespace Tree

theorem exists_node_of_step (h : s.Tree) (hstep : s.step id segment = .ok child) :
    ∃ node, s.node? child = some node := by
  rcases eq_or_ne segment Path.parentName with rfl | hname
  · obtain ⟨_, _, _, hup⟩ :=
      holdsDirectory_iff.1 (h.holdsDirectory_of_parent? (step_parentName.1 hstep).2)
    exact ⟨_, hup⟩
  · obtain ⟨node, hnode, -⟩ := exists_node_of_parent? ((h.step_eq_ok hname).1 hstep).1
    exact ⟨node, hnode⟩

/-- A step through the slots is a step through the catalog. -/
theorem step_catalog (h : s.Tree) (hnode : s.node? id = some node) :
    s.catalog.step (s.pathOf id) segment = some p ↔
      ∃ child, s.step id segment = .ok child ∧ s.pathOf child = p := by
  rw [Catalog.step]
  split
  case isFalse hfile =>
    refine iff_of_false (Option.some_ne_none p).symm ?_
    rintro ⟨child, hstep, -⟩
    exact absurd ((h.catalog_pathOf_eq_directory hnode).2 (holdsDirectory_of_step hstep)) hfile
  case isTrue hdirectory =>
    have hdirectory := (h.catalog_pathOf_eq_directory hnode).1 hdirectory
    split
    case isTrue hup =>
      subst hup
      simp only [step_parentName, hdirectory, true_and]
      rcases hparent : s.parent? id with - | parent
      · simp [pathOf, namesTo_of_parent?_eq_none hparent]
      · simp [pathOf, h.namesTo_eq hparent (name?_eq hnode)]
    case isFalse hname =>
      simp only [h.step_eq_ok hname, ← h.childOf_eq_some]
      rw [h.catalog_below hnode]
      rcases hchild : s.childOf id segment with - | child
      · simp
      · obtain ⟨hparent, hname⟩ := h.childOf_eq_some.1 hchild
        obtain ⟨below, hbelow, -⟩ := exists_node_of_parent? hparent
        simp [entryAt?_eq hbelow, h.pathOf_eq_below hparent hname]

theorem exists_node_of_walk (h : s.Tree) {segments : List String} (hnode : s.node? id = some node)
    (hwalk : s.walk id segments = .ok child) : ∃ node, s.node? child = some node := by
  exact foldlM_keeps (P := fun id ↦ ∃ node, s.node? id = some node)
    (fun _ hstep ↦ h.exists_node_of_step hstep) ⟨node, hnode⟩ hwalk

theorem foldlM_step_catalog (h : s.Tree) {segments : List String} (hnode : s.node? id = some node) :
    segments.foldlM s.catalog.step (s.pathOf id) = some p ↔
      ∃ child, s.walk id segments = .ok child ∧ s.pathOf child = p := by
  induction segments generalizing id node with
  | nil => simp [walk, pure, Except.pure]
  | cons segment rest ih =>
    rw [walk, List.foldlM_cons, List.foldlM_cons]
    constructor
    · intro hfold
      obtain ⟨q, hq, hrest⟩ := Option.bind_eq_some_iff.1 hfold
      obtain ⟨next, hstep, rfl⟩ := (h.step_catalog hnode).1 hq
      obtain ⟨below, hbelow⟩ := h.exists_node_of_step hstep
      obtain ⟨child, hwalk, hchild⟩ := (ih hbelow).1 hrest
      exact ⟨child, bind_eq_ok.2 ⟨next, hstep, hwalk⟩, hchild⟩
    · rintro ⟨child, hwalk, hchild⟩
      obtain ⟨next, hstep, hrest⟩ := bind_eq_ok.1 hwalk
      obtain ⟨below, hbelow⟩ := h.exists_node_of_step hstep
      exact Option.bind_eq_some_iff.2 ⟨s.pathOf next, (h.step_catalog hnode).2 ⟨next, hstep, rfl⟩,
        (ih hbelow).2 ⟨child, hrest, hchild⟩⟩

theorem exists_root (h : s.Tree) : ∃ node, s.node? 0 = some node := by
  obtain ⟨_, _, _, hroot⟩ := holdsDirectory_iff.1 h.root
  exact ⟨_, hroot⟩

theorem exists_node_of_lookup (h : s.Tree) (hid : s.lookup path = .ok id) :
    ∃ node, s.node? id = some node := by
  obtain ⟨root, hroot⟩ := h.exists_root
  exact h.exists_node_of_walk hroot (lookup_eq_ok.1 hid)

/-- Only plain segments lead anywhere. -/
theorem plain_of_step (h : s.Tree) (hstep : s.step id segment = .ok child) :
    Path.Plain segment := by
  rcases eq_or_ne segment Path.parentName with rfl | hname
  · decide
  · obtain ⟨hparent, hname⟩ := (h.step_eq_ok hname).1 hstep
    exact (h.plain (h.ne_zero_of_parent? hparent) hname).1

/-- A path that leads somewhere is well formed. -/
theorem wellFormed_of_lookup (h : s.Tree) (hid : s.lookup path = .ok id) : path.WellFormed := by
  intro segment hsegment
  obtain ⟨current, next, hstep⟩ := exists_of_foldlM_eq_ok (lookup_eq_ok.1 hid) segment hsegment
  exact h.plain_of_step hstep

/-- **A path denotes the path of the node that it leads to.** -/
theorem denoted?_eq_some (h : s.Tree) :
    s.catalog.denoted? path = some p ↔ ∃ id, s.lookup path = .ok id ∧ s.pathOf id = p := by
  obtain ⟨root, hroot⟩ := h.exists_root
  simp only [lookup_eq_ok]
  rw [Catalog.denoted?, ← h.pathOf_zero]
  exact h.foldlM_step_catalog hroot

theorem denoted?_eq_none (h : s.Tree) {e : Error} (hid : s.lookup path = .error e) :
    s.catalog.denoted? path = none := by
  refine Option.eq_none_iff_forall_ne_some.2 fun p hp ↦ ?_
  obtain ⟨id, hid', -⟩ := h.denoted?_eq_some.1 hp
  rw [hid] at hid'
  cases hid'

/-- A canonical path is the path of the node that it leads to. -/
theorem pathOf_of_lookup (h : s.Tree) (hpath : path.isCanonical = true)
    (hid : s.lookup path = .ok id) : s.pathOf id = path :=
  Catalog.eq_of_denoted? hpath (h.denoted?_eq_some.2 ⟨id, hid, rfl⟩)

/-- A change at a path is about the name in the directory that the path is made of. -/
theorem slot?_eq_some (h : s.Tree) :
    s.catalog.slot? path = some p ↔
      ∃ parent name, s.target path = .ok (parent, name) ∧ p = (s.pathOf parent).below name := by
  simp only [Catalog.slot?_eq_some, target_eq_ok, h.denoted?_eq_some, lookup_eq_ok]
  constructor
  · rintro ⟨above, name, q, habove, hname, ⟨parent, hwalk, rfl⟩, hdirectory, rfl⟩
    obtain ⟨root, hroot⟩ := h.exists_root
    obtain ⟨node, hnode⟩ := h.exists_node_of_walk hroot hwalk
    exact ⟨parent, name, ⟨above, habove, hname, hwalk,
      (h.catalog_pathOf_eq_directory hnode).1 hdirectory⟩, rfl⟩
  · rintro ⟨parent, name, ⟨above, habove, hname, hwalk, hdirectory⟩, rfl⟩
    obtain ⟨_, _, _, hnode⟩ := holdsDirectory_iff.1 hdirectory
    exact ⟨above, name, s.pathOf parent, habove, hname, ⟨parent, hwalk, rfl⟩,
      (h.catalog_pathOf_eq_directory hnode).2 hdirectory, rfl⟩

/-! ### One slot, one entry -/

end Tree

/-- Two stores have the same names and parents in all slots but one, and nothing stands below that
one. -/
structure AgreeBut (s s' : MemoryStore) (x : Nat) : Prop where
  /-- The names are the same. -/
  name? : ∀ j, j ≠ x → s'.name? j = s.name? j
  /-- The parents are the same. -/
  parent? : ∀ j, j ≠ x → s'.parent? j = s.parent? j
  /-- No node stands in the slot. -/
  leaf : ∀ j, s.parent? j ≠ some x

namespace Tree

/-- The path of a node depends on names and parents on the way to the root. -/
theorem pathOf_congr (h : s.Tree) (h' : s'.Tree) {x : Nat} (hagree : s.AgreeBut s' x)
    (hnode : s.node? id = some node) (hne : id ≠ x) : s'.pathOf id = s.pathOf id := by
  have hnames : id ≠ x → s'.namesTo id = s.namesTo id := by
    refine h.induction (motive := fun id ↦ id ≠ x → s'.namesTo id = s.namesTo id) ?_ ?_ hnode
    · intro _
      rw [namesTo_of_parent?_eq_none h.parent?_root, namesTo_of_parent?_eq_none h'.parent?_root]
    · intro id parent name hparent hname ih hne
      have habove : parent ≠ x := fun heq ↦ hagree.leaf id (heq ▸ hparent)
      rw [h.namesTo_eq hparent hname, ← ih habove]
      exact h'.namesTo_eq ((hagree.parent? id hne).trans hparent)
        ((hagree.name? id hne).trans hname)
  rw [pathOf, pathOf, hnames hne]

/-- **What changes one slot changes one entry.** The slot has a node before the change or after it,
and nothing stands below this node. -/
theorem catalog_eq_update (h : s.Tree) (h' : s'.Tree) {x : Nat} (hagree : s.AgreeBut s' x)
    (hother : ∀ j, j ≠ x → s'.entryAt? j = s.entryAt? j)
    (hold : ∀ node, s.node? x = some node → s.pathOf x = p)
    (hnew : ∀ node, s'.node? x = some node → s'.pathOf x = p)
    (hsome : (∃ node, s.node? x = some node) ∨ ∃ node, s'.node? x = some node) :
    s'.catalog = Function.update s.catalog p (s'.entryAt? x) := by
  have hpath : ∀ {id node}, s.node? id = some node → id ≠ x → s'.pathOf id = s.pathOf id :=
    fun hnode hne ↦ h.pathOf_congr h' hagree hnode hne
  -- no other node has the path of the slot
  have hfree : ∀ {id node}, s.node? id = some node → id ≠ x → s.pathOf id ≠ p := by
    intro id node hnode hne hp
    rcases hsome with ⟨old, hx⟩ | ⟨new, hx⟩
    · exact hne (h.pathOf_injective hnode hx (hp.trans (hold old hx).symm))
    · obtain ⟨node', hnode', -⟩ :=
        exists_node_of_entryAt? ((hother id hne).trans (entryAt?_eq hnode))
      have hp' : s'.pathOf id = s'.pathOf x := (hpath hnode hne).trans (hp.trans (hnew new hx).symm)
      exact hne (h'.pathOf_injective hnode' hx hp')
  funext q
  refine Option.ext fun e ↦ ?_
  rw [h'.catalog_eq_some]
  rcases eq_or_ne q p with rfl | hq
  · rw [Function.update_self]
    constructor
    · rintro ⟨id, hentry, hid⟩
      rcases eq_or_ne id x with rfl | hne
      · exact hentry
      · obtain ⟨node, hnode, -⟩ := exists_node_of_entryAt? ((hother id hne).symm.trans hentry)
        exact absurd ((hpath hnode hne).symm.trans hid) (hfree hnode hne)
    · intro hentry
      obtain ⟨node, hnode, -⟩ := exists_node_of_entryAt? hentry
      exact ⟨x, hentry, hnew node hnode⟩
  · rw [Function.update_of_ne hq, h.catalog_eq_some]
    constructor
    · rintro ⟨id, hentry, hid⟩
      obtain ⟨node', hnode', -⟩ := exists_node_of_entryAt? hentry
      have hne : id ≠ x := by
        rintro rfl
        exact hq (hid.symm.trans (hnew node' hnode'))
      rw [hother id hne] at hentry
      obtain ⟨node, hnode, -⟩ := exists_node_of_entryAt? hentry
      exact ⟨id, hentry, (hpath hnode hne).symm.trans hid⟩
    · rintro ⟨id, hentry, hid⟩
      obtain ⟨node, hnode, -⟩ := exists_node_of_entryAt? hentry
      have hne : id ≠ x := by
        rintro rfl
        exact hq (hid.symm.trans (hold node hnode))
      exact ⟨id, (hother id hne).trans hentry, (hpath hnode hne).trans hid⟩

end Tree

theorem entryAt?_modifyChildren {f : List Nat → List Nat} :
    (s.modifyChildren id f).entryAt? j = s.entryAt? j := by
  rw [entryAt?, entryAt?, modifyChildren, node?_modifyContent]
  split
  · rcases s.node? j with - | ⟨name, parent, data | children⟩ <;> rfl
  · rfl

theorem entryAt?_addChild : (s.addChild parent name content).entryAt? j =
    if j = s.nodes.size then some content.entry else s.entryAt? j := by
  rw [addChild_eq, entryAt?_modifyChildren, entryAt?, node?_append]
  split <;> rfl

theorem entryAt?_refill (h : s.holdsFile id = true) :
    (s.modifyContent id fun _ ↦ .file bytes).entryAt? j =
      if j = id then some (.file bytes) else s.entryAt? j := by
  rw [entryAt?, node?_modifyContent]
  rcases eq_or_ne j id with rfl | hne
  · obtain ⟨name, parent, data, hnode⟩ := holdsFile_iff.1 h
    rw [if_pos rfl, if_pos rfl, hnode]
    rfl
  · rw [if_neg hne.symm, if_neg hne]
    rfl

theorem entryAt?_unlink : (s.unlink parent id).entryAt? j =
    if j = id then none else s.entryAt? j := by
  rw [unlink, entryAt?, node?_clear]
  split
  · rfl
  · exact entryAt?_modifyChildren

namespace Tree

/-- No node stands in a slot behind the last. -/
theorem parent?_ne_size (h : s.Tree) (j : Nat) : s.parent? j ≠ some s.nodes.size := fun hparent ↦
  Nat.lt_irrefl _ (lt_size_of_holdsDirectory (h.holdsDirectory_of_parent? hparent))

theorem parent?_ne_of_holdsFile (h : s.Tree) (hfile : s.holdsFile id = true) (j : Nat) :
    s.parent? j ≠ some id := fun hparent ↦
  holdsFile_ne hfile (h.holdsDirectory_of_parent? hparent) rfl

theorem agreeBut_addChild (h : s.Tree) :
    s.AgreeBut (s.addChild parent name content) s.nodes.size where
  name? j hj := by rw [name?_addChild, if_neg hj]
  parent? j hj := by rw [parent?_addChild, if_neg hj]
  leaf := h.parent?_ne_size

theorem agreeBut_refill {x : Nat} (hleaf : ∀ j, s.parent? j ≠ some x) :
    s.AgreeBut (s.modifyContent id fun _ ↦ .file bytes) x where
  name? _ _ := name?_modifyContent
  parent? _ _ := parent?_modifyContent
  leaf := hleaf

theorem agreeBut_unlink (h : s.Tree) (hfile : s.holdsFile id = true) :
    s.AgreeBut (s.unlink parent id) id where
  name? j hj := by rw [name?_unlink, if_neg hj]
  parent? j hj := by rw [parent?_unlink, if_neg hj]
  leaf := h.parent?_ne_of_holdsFile hfile

/-- A new node is a new entry. -/
theorem catalog_addChild (h : s.Tree) (hparent : s.holdsDirectory parent = true)
    (hchild : s.childOf parent name = none)
    (hname : Path.Plain name ∧ name ≠ Path.parentName) (hbare : content.children = []) :
    (s.addChild parent name content).catalog =
      Function.update s.catalog ((s.pathOf parent).below name) (some content.entry) := by
  have h' := h.addChild hparent hchild hname hbare
  have hentry : (s.addChild parent name content).entryAt? s.nodes.size = some content.entry := by
    rw [entryAt?_addChild, if_pos rfl]
  have hpath : (s.addChild parent name content).pathOf s.nodes.size =
      (s.pathOf parent).below name := by
    obtain ⟨_, _, _, hnode⟩ := holdsDirectory_iff.1 hparent
    rw [← h.pathOf_congr h' h.agreeBut_addChild hnode (Nat.ne_of_lt (lt_size_of_node? hnode))]
    refine h'.pathOf_eq_below ?_ ?_
    · rw [parent?_addChild, if_pos rfl]
    · rw [name?_addChild, if_pos rfl]
  obtain ⟨node, hnode, -⟩ := exists_node_of_entryAt? hentry
  rw [← hentry]
  refine h.catalog_eq_update h' h.agreeBut_addChild (fun j hj ↦ ?_) (fun old hold ↦ ?_)
    (fun _ _ ↦ hpath) (Or.inr ⟨node, hnode⟩)
  · rw [entryAt?_addChild, if_neg hj]
  · exact absurd (hold.symm.trans node?_size) (Option.some_ne_none old)

/-- A new content is a new content of the entry. -/
theorem catalog_refill (h : s.Tree) (hfile : s.holdsFile id = true) (bytes : Bytes) :
    (s.modifyContent id fun _ ↦ .file bytes).catalog =
      Function.update s.catalog (s.pathOf id) (some (.file bytes)) := by
  have h' := h.refill hfile bytes
  obtain ⟨_, _, _, hnode⟩ := holdsFile_iff.1 hfile
  have hentry : (s.modifyContent id fun _ ↦ .file bytes).entryAt? id = some (.file bytes) := by
    rw [entryAt?_refill hfile, if_pos rfl]
  have hpath : (s.modifyContent id fun _ ↦ .file bytes).pathOf id = s.pathOf id :=
    h.pathOf_congr h' (agreeBut_refill h.parent?_ne_size) hnode
      (Nat.ne_of_lt (lt_size_of_node? hnode))
  rw [← hentry]
  refine h.catalog_eq_update h' (agreeBut_refill (h.parent?_ne_of_holdsFile hfile))
    (fun j hj ↦ ?_) (fun _ _ ↦ rfl) (fun _ _ ↦ hpath) (Or.inl ⟨_, hnode⟩)
  rw [entryAt?_refill hfile, if_neg hj]

/-- A file that is taken out is an entry less. -/
theorem catalog_unlink (h : s.Tree) (hparent : s.parent? id = some parent)
    (hfile : s.holdsFile id = true) :
    (s.unlink parent id).catalog = Function.update s.catalog (s.pathOf id) none := by
  have h' := h.unlink hparent hfile
  obtain ⟨_, _, _, hnode⟩ := holdsFile_iff.1 hfile
  have hentry : (s.unlink parent id).entryAt? id = none := by
    rw [entryAt?_unlink, if_pos rfl]
  rw [← hentry]
  refine h.catalog_eq_update h' (h.agreeBut_unlink hfile) (fun j hj ↦ ?_) (fun _ _ ↦ rfl)
    (fun new hnew ↦ ?_) (Or.inl ⟨_, hnode⟩)
  · rw [entryAt?_unlink, if_neg hj]
  · rw [entryAt?_eq hnew] at hentry
    cases hentry

end Tree

end MemoryStore

end ModuleBundler
