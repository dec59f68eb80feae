import ModuleBundler.Proofs.Store.Tree

/-!
# Operations keep the tree

Three changes make up what operations do to the slots of a store in memory: a node is put into a
directory (`MemoryStore.addChild`), the content of a file is replaced, and a file is taken out of
its directory (`MemoryStore.unlink`). What each does is said slot by slot, for the name of a slot,
its parent and what it lists; that it leaves a tree is read off from that.

The names in the tree are those that paths brought in, and names with slashes in them would not lead
back to their node. `MemoryStore.InUse` therefore asks of the operations on a store that their paths
are well formed, and of nothing else: they may come in any order, and fail. Then the slots are a
tree (`MemoryStore.InUse.arena`).
-/

namespace ModuleBundler

namespace MemoryStore

variable {s s' : MemoryStore} {id parent child j : Nat} {name : String} {node : TreeNode}
  {content : NodeContent} {path : Path}

/-! ### Changes, slot by slot -/

/-- A new slot behind the others. -/
def append (s : MemoryStore) (node : TreeNode) : MemoryStore :=
  { s with nodes := s.nodes.push (some node) }

/-- Empties a slot. -/
def clear (s : MemoryStore) (id : Nat) : MemoryStore :=
  { s with nodes := s.nodes.setIfInBounds id none }

/-- Takes a node out of its directory. -/
def unlink (s : MemoryStore) (parent id : Nat) : MemoryStore :=
  (s.modifyChildren parent (·.filter (· != id))).clear id

theorem addChild_eq : s.addChild parent name content =
    (s.append ⟨name, some parent, content⟩).modifyChildren parent (· ++ [s.nodes.size]) :=
  rfl

theorem node?_append : (s.append node).node? j =
    if j = s.nodes.size then some node else s.node? j := by
  rw [node?, append, Array.getElem?_push]
  split <;> rfl

theorem node?_clear : (s.clear id).node? j = if j = id then none else s.node? j := by
  rw [node?, clear, Array.getElem?_setIfInBounds]
  by_cases h : j = id
  · rw [if_pos h.symm, if_pos h]
    split <;> rfl
  · rw [if_neg (Ne.symm h), if_neg h]
    rfl

section

variable {f : NodeContent → NodeContent} {g : List Nat → List Nat}

/-- No change of a content renames or moves anything. -/
@[simp]
theorem name?_modifyContent : (s.modifyContent id f).name? j = s.name? j := by
  rw [name?, node?_modifyContent]
  split
  · rw [Option.map_map]
    rfl
  · rfl

@[simp]
theorem parent?_modifyContent : (s.modifyContent id f).parent? j = s.parent? j := by
  rw [parent?, parent?, node?_modifyContent]
  split
  · rcases s.node? j with - | node <;> rfl
  · rfl

theorem children_modifyChildren (h : s.holdsDirectory id = true) :
    (s.modifyChildren id g).children j = if j = id then g (s.children j) else s.children j := by
  rw [children, children, modifyChildren, node?_modifyContent]
  split
  case isTrue heq =>
    obtain ⟨name, parent, children, hnode⟩ := holdsDirectory_iff.1 h
    rw [if_pos heq.symm, ← heq, hnode]
    rfl
  case isFalse hne => rw [if_neg (Ne.symm hne)]

/-- Nothing is listed by a slot before and after a file is put there in place of a file. -/
theorem children_refill {bytes : Bytes} (h : s.holdsFile id = true) :
    (s.modifyContent id fun _ ↦ .file bytes).children j = s.children j := by
  rw [children, children, node?_modifyContent]
  split
  case isTrue heq =>
    obtain ⟨name, parent, data, hnode⟩ := holdsFile_iff.1 h
    rw [← heq, hnode]
    rfl
  case isFalse => rfl

end

theorem node?_size : s.node? s.nodes.size = none := by
  rw [node?, Array.getElem?_eq_none (Nat.le_refl _)]
  rfl

theorem lt_size_of_parent? (h : s.parent? id = some parent) : id < s.nodes.size := by
  obtain ⟨node, hnode, -⟩ := exists_node_of_parent? h
  exact lt_size_of_node? hnode

theorem lt_size_of_holdsDirectory (h : s.holdsDirectory id = true) : id < s.nodes.size := by
  obtain ⟨_, _, _, hnode⟩ := holdsDirectory_iff.1 h
  exact lt_size_of_node? hnode

theorem name?_addChild : (s.addChild parent name content).name? j =
    if j = s.nodes.size then some name else s.name? j := by
  rw [addChild_eq, modifyChildren, name?_modifyContent, name?, node?_append]
  split <;> rfl

theorem parent?_addChild : (s.addChild parent name content).parent? j =
    if j = s.nodes.size then some parent else s.parent? j := by
  rw [addChild_eq, modifyChildren, parent?_modifyContent, parent?, node?_append]
  split <;> rfl

/-- The directory lists the new node behind the others. -/
theorem children_addChild (h : s.holdsDirectory parent = true) (hbare : content.children = []) :
    (s.addChild parent name content).children j =
      if j = parent then s.children j ++ [s.nodes.size] else s.children j := by
  have hne : parent ≠ s.nodes.size := Nat.ne_of_lt (lt_size_of_holdsDirectory h)
  have happend : (s.append ⟨name, some parent, content⟩).holdsDirectory parent = true := by
    rwa [holdsDirectory, node?_append, if_neg hne]
  have hlists : (s.append ⟨name, some parent, content⟩).children j = s.children j := by
    rw [children, node?_append]
    split
    case isTrue heq =>
      rw [heq, children, node?_size]
      exact hbare
    case isFalse => rfl
  rw [addChild_eq, children_modifyChildren happend, hlists]

theorem name?_unlink : (s.unlink parent id).name? j = if j = id then none else s.name? j := by
  rw [unlink, name?, node?_clear]
  split
  · rfl
  · exact name?_modifyContent

theorem parent?_unlink : (s.unlink parent id).parent? j =
    if j = id then none else s.parent? j := by
  rw [unlink, parent?, node?_clear]
  split
  · rfl
  · exact parent?_modifyContent

namespace Tree

/-- After a file is taken out, nothing lists it, and all else is listed where it was. -/
theorem children_unlink (h : s.Tree) (hparent : s.parent? id = some parent)
    (hfile : s.holdsFile id = true) :
    (s.unlink parent id).children j = (s.children j).filter (· != id) := by
  rw [MemoryStore.unlink, children, node?_clear]
  split
  case isTrue heq =>
    rw [heq, children_of_holdsFile hfile]
    rfl
  case isFalse =>
    refine (children_modifyChildren (h.holdsDirectory_of_parent? hparent)).trans ?_
    split
    case isTrue => rfl
    case isFalse hne =>
      -- no other directory lists the file
      refine (List.filter_eq_self.2 fun child hmem ↦ bne_iff_ne.2 ?_).symm
      rintro rfl
      have hj : s.parent? child = some j := h.mem_children_iff.1 hmem
      exact hne (Option.some.inj (hj.symm.trans hparent))

/-! ### Changes of a tree -/

/-- What makes a tree are names, parents and what is listed. -/
theorem congr (h : s.Tree) (hroot : s'.holdsDirectory 0 = true)
    (hname : ∀ j, s'.name? j = s.name? j) (hparent : ∀ j, s'.parent? j = s.parent? j)
    (hchildren : ∀ j, s'.children j = s.children j) : s'.Tree where
  root := hroot
  parent?_root := (hparent 0).trans h.parent?_root
  exists_parent {id _} hid hne := by
    rw [hparent]
    exact h.exists_parent ((hname id).symm.trans hid) hne
  mem_children_iff := by
    intro id child
    rw [hchildren, hparent]
    exact h.mem_children_iff
  nodup_names id := by
    rw [hchildren, funext hname]
    exact h.nodup_names id
  plain {id _} hne hid := h.plain hne ((hname id).symm.trans hid)

/-- What is open makes no difference. -/
theorem sameTree (h : s.Tree) (hsame : s.SameTree s') : s'.Tree := by
  rw [hsame.eq_withHandles]
  exact h.congr h.root (fun _ ↦ rfl) (fun _ ↦ rfl) fun _ ↦ rfl

/-- Replacing the content of a file. -/
theorem refill (h : s.Tree) (hfile : s.holdsFile id = true) (bytes : Bytes) :
    (s.modifyContent id fun _ ↦ .file bytes).Tree := by
  have hroot : (s.modifyContent id fun _ ↦ .file bytes).holdsDirectory 0 = true :=
    holdsDirectory_modifyContent h.root fun heq ↦ absurd heq (holdsFile_ne hfile h.root)
  exact h.congr hroot (fun _ ↦ name?_modifyContent) (fun _ ↦ parent?_modifyContent)
    fun _ ↦ children_refill hfile

/-- A directory in which a name is not found has no entry of that name. -/
theorem name?_ne_of_childOf (h : s.Tree) (hchild : s.childOf parent name = none)
    (hmem : child ∈ s.children parent) : s.name? child ≠ some name := by
  intro hname
  have hsome : s.childOf parent name = some child :=
    h.childOf_eq_some.2 ⟨h.mem_children_iff.1 hmem, hname⟩
  rw [hchild] at hsome
  cases hsome

/-- Putting a new node into a directory that has none of that name. -/
theorem addChild (h : s.Tree) (hparent : s.holdsDirectory parent = true)
    (hchild : s.childOf parent name = none)
    (hname : Path.Plain name ∧ name ≠ Path.parentName) (hbare : content.children = []) :
    (s.addChild parent name content).Tree := by
  have hlt : parent < s.nodes.size := lt_size_of_holdsDirectory hparent
  have hold : ∀ {id}, ∀ child ∈ s.children id, child ≠ s.nodes.size := fun child hmem ↦
    Nat.ne_of_lt (lt_size_of_parent? (h.mem_children_iff.1 hmem))
  constructor
  case root => exact holdsDirectory_addChild h.root
  case parent?_root =>
    rw [parent?_addChild, if_neg (by omega)]
    exact h.parent?_root
  case exists_parent =>
    intro id _ hid hne
    rw [name?_addChild] at hid
    rw [parent?_addChild]
    split
    case isTrue heq => exact ⟨parent, rfl, heq ▸ hlt⟩
    case isFalse hold =>
      rw [if_neg hold] at hid
      exact h.exists_parent hid hne
  case mem_children_iff =>
    intro id child
    rw [parent?_addChild, children_addChild hparent hbare]
    rcases eq_or_ne child s.nodes.size with rfl | hne
    · -- the new node stands in `parent` only
      have hnew : s.nodes.size ∉ s.children id := fun hmem ↦ hold _ hmem rfl
      rw [if_pos rfl]
      by_cases hid : id = parent
      · simp [hid]
      · simp [hid, hnew, Ne.symm hid]
    · rw [if_neg hne, ← h.mem_children_iff]
      split <;> simp [hne]
  case nodup_names =>
    intro id
    have hnames : (s.children id).map (s.addChild parent name content).name? =
        (s.children id).map s.name? :=
      List.map_congr_left fun child hmem ↦ by rw [name?_addChild, if_neg (hold child hmem)]
    rw [children_addChild hparent hbare]
    split
    case isTrue heq =>
      -- the one new name of this directory was not found in it
      subst heq
      rw [List.map_append, hnames, List.map_singleton, name?_addChild, if_pos rfl]
      refine (h.nodup_names id).append (List.nodup_singleton _) ?_
      intro entry hentry hnew
      obtain ⟨child, hmem, rfl⟩ := List.mem_map.1 hentry
      exact h.name?_ne_of_childOf hchild hmem (List.mem_singleton.1 hnew)
    case isFalse =>
      rw [hnames]
      exact h.nodup_names id
  case plain =>
    intro id _ hne hid
    rw [name?_addChild] at hid
    split at hid
    case isTrue => exact Option.some.inj hid ▸ hname
    case isFalse => exact h.plain hne hid

/-- Taking a file out of its directory. -/
theorem unlink (h : s.Tree) (hparent : s.parent? id = some parent) (hfile : s.holdsFile id = true) :
    (s.unlink parent id).Tree := by
  have hroot : 0 ≠ id := (holdsFile_ne hfile h.root).symm
  constructor
  case root =>
    rw [holdsDirectory, MemoryStore.unlink, node?_clear, if_neg hroot]
    exact holdsDirectory_modifyChildren h.root
  case parent?_root =>
    rw [parent?_unlink, if_neg hroot]
    exact h.parent?_root
  case exists_parent =>
    intro j _ hj hne
    rw [name?_unlink] at hj
    rw [parent?_unlink]
    split at hj
    case isTrue => cases hj
    case isFalse hother =>
      rw [if_neg hother]
      exact h.exists_parent hj hne
  case mem_children_iff =>
    intro j child
    rw [h.children_unlink hparent hfile, parent?_unlink, List.mem_filter, bne_iff_ne,
      h.mem_children_iff]
    split
    case isTrue heq => simp [heq]
    case isFalse hne => simp [hne]
  case nodup_names =>
    intro j
    have hnames : ((s.children j).filter (· != id)).map (s.unlink parent id).name? =
        ((s.children j).filter (· != id)).map s.name? :=
      List.map_congr_left fun child hmem ↦ by
        rw [name?_unlink, if_neg (bne_iff_ne.1 (List.mem_filter.1 hmem).2)]
    rw [h.children_unlink hparent hfile, hnames]
    exact (h.nodup_names j).sublist (List.filter_sublist.map _)
  case plain =>
    intro j _ hne hj
    rw [name?_unlink] at hj
    split at hj
    case isTrue => cases hj
    case isFalse => exact h.plain hne hj

theorem node?_empty (hne : id ≠ 0) : empty.node? id = none := by
  rw [node?, Array.getElem?_eq_none (Nat.one_le_iff_ne_zero.2 hne)]
  rfl

theorem tree_empty : Tree empty := by
  have hnone : ∀ id, empty.parent? id = none := fun id ↦ by
    rcases eq_or_ne id 0 with rfl | hne
    · rfl
    · rw [parent?, node?_empty hne]
      rfl
  have hnil : ∀ id, empty.children id = [] := fun id ↦ by
    rcases eq_or_ne id 0 with rfl | hne
    · rfl
    · rw [children, node?_empty hne]
      rfl
  constructor
  case root => rfl
  case parent?_root => rfl
  case exists_parent =>
    intro id name hid hne
    rw [name?, node?_empty hne] at hid
    cases hid
  case mem_children_iff =>
    intro id child
    simp [hnil, hnone]
  case nodup_names =>
    intro id
    rw [hnil]
    exact List.nodup_nil
  case plain =>
    intro id name hne hid
    rw [name?, node?_empty hne] at hid
    cases hid

end Tree

/-! ### Where a path changes the tree -/

/-- What a path has to be for a change at it: its last segment is a name, and the segments before
lead to a directory. -/
theorem target_eq_ok : s.target path = .ok (parent, name) ↔
    ∃ above, path.segments = above ++ [name] ∧ name ≠ Path.parentName ∧
      s.walk 0 above = .ok parent ∧ s.holdsDirectory parent = true := by
  rw [target]
  constructor
  · intro h
    obtain ⟨last, hlast, h⟩ := bind_eq_ok.1 h
    obtain ⟨above, habove⟩ := Path.basename_eq_ok.1 hlast
    split at h
    case isTrue => cases h
    case isFalse hname =>
      obtain ⟨directory, hdirectory, h⟩ := bind_eq_ok.1 h
      rw [Path.parent_eq habove] at hdirectory
      obtain rfl := Except.ok.inj hdirectory
      obtain ⟨id, hid, h⟩ := bind_eq_ok.1 h
      split at h
      case isTrue hholds =>
        obtain ⟨rfl, rfl⟩ := Prod.mk.inj (Except.ok.inj h)
        exact ⟨above, habove, hname, lookup_eq_ok.1 hid, hholds⟩
      case isFalse => cases h
  · rintro ⟨above, habove, hname, hwalk, hdirectory⟩
    refine bind_eq_ok.2 ⟨name, Path.basename_eq_ok.2 ⟨above, habove⟩, ?_⟩
    rw [if_neg hname]
    refine bind_eq_ok.2 ⟨_, Path.parent_eq habove, ?_⟩
    exact bind_eq_ok.2 ⟨parent, lookup_eq_ok.2 hwalk, if_pos hdirectory⟩

/-- A name that a well-formed path brings into the tree can be kept there. -/
theorem plain_of_target (hpath : path.WellFormed) (h : s.target path = .ok (parent, name)) :
    Path.Plain name ∧ name ≠ Path.parentName := by
  obtain ⟨above, habove, hname, -, -⟩ := target_eq_ok.1 h
  exact ⟨hpath name (habove ▸ List.mem_concat_self), hname⟩

theorem holdsDirectory_of_target (h : s.target path = .ok (parent, name)) :
    s.holdsDirectory parent = true := by
  obtain ⟨-, -, -, -, hdirectory⟩ := target_eq_ok.1 h
  exact hdirectory

/-! ### Stores in use -/

/-- Operations on well-formed paths keep the tree. -/
theorem keeps_tree : FileStore.Keeps MemoryStore Path.WellFormed Tree where
  root := Path.wellFormed_root
  child hpath := hpath.child _
  openFile h hopen := by
    obtain ⟨id, -, -, -, rfl⟩ := openFile_eq_ok hopen
    exact h.sameTree rfl
  create hpath h hcreate := by
    obtain ⟨parent, name, htarget, ⟨hchild, rfl⟩ | ⟨id, -, hfile, rfl⟩⟩ := create_eq_ok hcreate
    · exact h.addChild (holdsDirectory_of_target htarget) hchild (plain_of_target hpath htarget) rfl
    · exact h.refill hfile []
  remove _ h hremove := by
    obtain ⟨parent, name, id, -, hchild, hfile, rfl⟩ := remove_eq_ok hremove
    exact h.unlink (h.childOf_eq_some.1 hchild).1 hfile
  makeDirectory hpath h hmake := by
    obtain ⟨parent, name, htarget, hchild, rfl⟩ := makeDirectory_eq_ok hmake
    exact h.addChild (holdsDirectory_of_target htarget) hchild (plain_of_target hpath htarget) rfl
  write h hwrite := by
    obtain ⟨file, -, hfile, rfl⟩ := write_eq_ok hwrite
    exact h.refill hfile _
  close h hclose := by
    obtain ⟨handles, -, rfl⟩ := close_eq_ok hclose
    exact h.sameTree rfl

/-- The stores that operations on well-formed paths lead to from the store with only a root. -/
def InUse (s : MemoryStore) : Prop :=
  FileStore.ReachableOn Path.WellFormed empty s

namespace InUse

theorem reachable (h : s.InUse) : s.Reachable :=
  FileStore.ReachableOn.reachable h

theorem sound (h : s.InUse) : s.Sound :=
  h.reachable.sound

theorem tree (h : s.InUse) : s.Tree :=
  keeps_tree.of_reachable Tree.tree_empty h

/-- **The slots of a store in use make up a tree.** The first holds a directory and has nothing
above it. Any other node stands in a directory that came before it and that lists it once. What a
directory lists is there, stands in it, and is told from the rest by a name that a path can have.
So a climb from a node ends, with a path that leads nowhere up, and this path leads back to the
node. -/
theorem arena (h : s.InUse) :
    (∃ name children, s.node? 0 = some ⟨name, none, .directory children⟩) ∧
    (∀ id node, s.node? id = some node → id ≠ 0 →
      ∃ parent name above children, node.parent = some parent ∧ parent < id ∧
        s.node? parent = some ⟨name, above, .directory children⟩ ∧ children.count id = 1) ∧
    (∀ id name above children, s.node? id = some ⟨name, above, .directory children⟩ →
      (∀ child ∈ children, ∃ node, s.node? child = some node ∧ node.parent = some id ∧
        Path.Plain node.name ∧ node.name ≠ Path.parentName) ∧
      (children.map s.name?).Nodup) ∧
    ∀ id node, s.node? id = some node →
      ∃ names, s.Climbs id names ∧ s.pathOf id = ⟨true, names⟩ ∧
        (s.pathOf id).isCanonical = true ∧ s.lookup (s.pathOf id) = .ok id := by
  have htree := h.tree
  refine ⟨?_, ?_, ?_, ?_⟩
  · obtain ⟨name, above, children, hroot⟩ := holdsDirectory_iff.1 htree.root
    obtain rfl : above = none := (parent?_eq hroot).symm.trans htree.parent?_root
    exact ⟨name, children, hroot⟩
  · intro id node hnode hne
    obtain ⟨parent, hparent, hlt⟩ := htree.exists_parent (name?_eq hnode) hne
    have hmem : id ∈ s.children parent := htree.mem_children_iff.2 hparent
    obtain ⟨name, above, children, habove⟩ :=
      holdsDirectory_iff.1 (htree.holdsDirectory_of_parent? hparent)
    have hlists : s.children parent = children := children_eq habove
    refine ⟨parent, name, above, children, (parent?_eq hnode).symm.trans hparent, hlt, habove, ?_⟩
    exact hlists ▸ List.count_eq_one_of_mem (htree.nodup_children parent) hmem
  · intro id name above children hnode
    have hlists : s.children id = children := children_eq hnode
    subst hlists
    refine ⟨fun child hmem ↦ ?_, htree.nodup_names id⟩
    have hparent : s.parent? child = some id := htree.mem_children_iff.1 hmem
    obtain ⟨below, hbelow, hup⟩ := exists_node_of_parent? hparent
    exact ⟨below, hbelow, hup, htree.plain (htree.ne_zero_of_parent? hparent) (name?_eq hbelow)⟩
  · intro id node hnode
    exact ⟨s.namesTo id, htree.climbs hnode, rfl, htree.isCanonical_pathOf id,
      htree.lookup_pathOf hnode⟩

end InUse

/-- Directories in directories, a file that was removed, and a file that was made after it. -/
def nestedStore : MemoryStore :=
  Operation.run
    [.makeDirectories ⟨true, ["lib", "core"]⟩, .save ⟨true, ["lib", "core", "a.ts"]⟩ [],
      .remove ⟨true, ["lib", "core", "..", "core", "a.ts"]⟩, .makeDirectory ⟨true, ["lib"]⟩,
      .save ⟨true, ["lib", "core", "b.ts"]⟩ []] empty

theorem inUse_nestedStore : nestedStore.InUse :=
  FileStore.ReachableOn.start.run (by decide)

/-- The file that was made last has the fifth slot. -/
theorem arena_nestedStore : nestedStore.InUse ∧
    nestedStore.node? 3 = none ∧
    ∃ names, nestedStore.Climbs 4 names ∧ nestedStore.pathOf 4 = ⟨true, names⟩ ∧
      (nestedStore.pathOf 4).isCanonical = true ∧
      nestedStore.lookup (nestedStore.pathOf 4) = .ok 4 :=
  ⟨inUse_nestedStore, by rfl,
    inUse_nestedStore.arena.2.2.2 4 ⟨"b.ts", some 2, .file []⟩ (by rfl)⟩

end MemoryStore

end ModuleBundler
