import ModuleBundler.Proofs.Failing
import ModuleBundler.Proofs.Store.Operations
import ModuleBundler.Store.Memory

/-!
# Reading from memory

A store in memory changes when a file is read: the handle of the reading is given out and taken
back. Nothing else changes, and no answer depends on it. `MemoryStore.SameTree` relates two stores
with the same files and directories, whatever is open in them: reading leads from a store to such a
one (`MemoryStore.Sound.sameTree_load`), and the two give the same answers
(`MemoryStore.SameTree.resolve` and its companions).

This needs two facts that hold of every store that operations reach, `MemoryStore.Sound`: the root
is a directory, and the number of the next handle is new. Without the second, the handle given out
for a file might be one that is in use for another.
-/

namespace ModuleBundler

/-! ### Handles -/

namespace HandleTable

variable {τ : Type} {table : HandleTable τ}

/-- The number of the next handle was not given out before. -/
def Fresh (table : HandleTable τ) : Prop :=
  ∀ entry ∈ table.entries, entry.1 < table.next

theorem Fresh.insert (h : table.Fresh) (file : OpenFile τ) : (table.insert file).2.Fresh := by
  intro entry hentry
  rcases List.mem_append.1 hentry with hentry | hentry
  · exact Nat.lt_succ_of_lt (h entry hentry)
  · obtain rfl := List.mem_singleton.1 hentry
    exact Nat.lt_succ_self _

theorem Fresh.close (h : table.Fresh) {handle : Handle} {closed : HandleTable τ}
    (hclose : table.close handle = .ok closed) : closed.Fresh := by
  rw [HandleTable.close] at hclose
  split at hclose
  · obtain rfl := Except.ok.inj hclose
    exact fun entry hentry ↦ h entry (List.mem_filter.1 hentry).1
  · cases hclose

/-- The handle given out for a file leads to it. -/
theorem Fresh.find?_insert (h : table.Fresh) (file : OpenFile τ) :
    (table.insert file).2.find? (table.insert file).1 = some file := by
  have hnone : table.entries.lookup table.next = none := by
    refine List.lookup_eq_none_iff.2 fun entry hentry ↦ ?_
    have := h entry hentry
    simp only [bne_iff_ne, ne_eq]
    omega
  simp [HandleTable.insert, find?, List.lookup_append, hnone]

theorem Fresh.get_insert (h : table.Fresh) (file : OpenFile τ) :
    (table.insert file).2.get (table.insert file).1 = .ok file := by
  rw [get, h.find?_insert]

/-- Taking back the handle that was given out last leaves the handles before. -/
theorem Fresh.close_insert (h : table.Fresh) (file : OpenFile τ) :
    (table.insert file).2.close (table.insert file).1 =
      .ok { table with next := table.next + 1 } := by
  have hfilter : table.entries.filter (fun entry ↦ entry.1 != table.next) = table.entries := by
    refine List.filter_eq_self.2 fun entry hentry ↦ ?_
    have := h entry hentry
    simp only [bne_iff_ne, ne_eq]
    omega
  rw [HandleTable.close, h.find?_insert]
  simp [HandleTable.insert, hfilter]

end HandleTable

namespace MemoryStore

variable {s s' : MemoryStore} {path : Path}

/-! ### What an operation does when it succeeds -/

theorem lookup_eq_ok {id : Nat} : s.lookup path = .ok id ↔ s.walk 0 path.segments = .ok id := by
  rw [lookup]
  split <;> simp_all [invalid]

theorem openFile_eq_ok {handle : Handle} (h : openFile path s = .ok (handle, s')) :
    ∃ id, s.lookup path = .ok id ∧ s.holdsFile id = true ∧
      handle = (s.handles.insert ⟨id, s.pathOf id⟩).1 ∧
      s' = { s with handles := (s.handles.insert ⟨id, s.pathOf id⟩).2 } := by
  obtain ⟨id, hid, h⟩ := bind_eq_ok.1 h
  split at h
  · obtain ⟨rfl, rfl⟩ := Prod.mk.inj (Except.ok.inj h)
    exact ⟨id, hid, ‹_›, rfl, rfl⟩
  · cases h

theorem create_eq_ok (h : create path s = .ok s') :
    ∃ parent name, s.target path = .ok (parent, name) ∧
      ((s.childOf parent name = none ∧ s' = s.addChild parent name (.file [])) ∨
        ∃ id, s.childOf parent name = some id ∧ s.holdsFile id = true ∧
          s' = s.modifyContent id fun _ ↦ .file []) := by
  obtain ⟨⟨parent, name⟩, htarget, h⟩ := bind_eq_ok.1 h
  refine ⟨parent, name, htarget, ?_⟩
  rcases hchild : s.childOf parent name with - | id
  · simp only [hchild] at h
    exact Or.inl ⟨rfl, (Except.ok.inj h).symm⟩
  · simp only [hchild] at h
    split at h
    · exact Or.inr ⟨id, rfl, ‹_›, (Except.ok.inj h).symm⟩
    · cases h

theorem remove_eq_ok (h : remove path s = .ok s') :
    ∃ parent name id, s.target path = .ok (parent, name) ∧ s.childOf parent name = some id ∧
      s.holdsFile id = true ∧
      s' = { s.modifyChildren parent (·.filter (· != id)) with
        nodes := (s.modifyChildren parent (·.filter (· != id))).nodes.setIfInBounds id none } := by
  obtain ⟨⟨parent, name⟩, htarget, h⟩ := bind_eq_ok.1 h
  rcases hchild : s.childOf parent name with - | id
  · simp [hchild, invalid] at h
  · simp only [hchild] at h
    split at h
    · exact ⟨parent, name, id, htarget, hchild, ‹_›, (Except.ok.inj h).symm⟩
    · cases h

theorem makeDirectory_eq_ok (h : makeDirectory path s = .ok s') :
    ∃ parent name, s.target path = .ok (parent, name) ∧ s.childOf parent name = none ∧
      s' = s.addChild parent name (.directory []) := by
  obtain ⟨⟨parent, name⟩, htarget, h⟩ := bind_eq_ok.1 h
  rcases hchild : s.childOf parent name with - | id
  · simp only [hchild] at h
    exact ⟨parent, name, htarget, hchild, (Except.ok.inj h).symm⟩
  · simp [hchild, invalid] at h

theorem write_eq_ok {handle : Handle} {bytes : Bytes} (h : write handle bytes s = .ok s') :
    ∃ file, s.handles.get handle = .ok file ∧ s.holdsFile file.target = true ∧
      s' = s.modifyContent file.target fun _ ↦ .file bytes := by
  obtain ⟨file, hfile, h⟩ := bind_eq_ok.1 h
  split at h
  · exact ⟨file, hfile, ‹_›, (Except.ok.inj h).symm⟩
  · cases h

theorem close_eq_ok {handle : Handle} (h : close handle s = .ok s') :
    ∃ handles, s.handles.close handle = .ok handles ∧ s' = { s with handles } := by
  obtain ⟨handles, hclose, h⟩ := bind_eq_ok.1 h
  exact ⟨handles, hclose, (Except.ok.inj h).symm⟩

/-! ### Directories stay directories -/

/-- Whether a slot holds a directory. -/
def holdsDirectory (s : MemoryStore) (id : Nat) : Bool :=
  (s.node? id).any (!·.isFile)

theorem holdsFile_ne {id j : Nat} (hid : s.holdsFile id = true) (hj : s.holdsDirectory j = true) :
    id ≠ j := by
  rintro rfl
  rw [holdsFile, Option.any_eq_true] at hid
  rw [holdsDirectory, Option.any_eq_true] at hj
  obtain ⟨node, hnode, hfile⟩ := hid
  obtain ⟨node', hnode', hdirectory⟩ := hj
  obtain rfl : node = node' := Option.some.inj (hnode.symm.trans hnode')
  simp [hfile] at hdirectory

theorem node?_modifyContent (s : MemoryStore) (id j : Nat) (f : NodeContent → NodeContent) :
    (s.modifyContent id f).node? j =
      if id = j then (s.node? j).map fun node ↦ { node with content := f node.content }
      else s.node? j := by
  rw [modifyContent, node?, Array.getElem?_modify]
  split
  · rcases h : s.nodes[j]? with - | - | node <;> simp [node?, h]
  · rfl

/-- A change of a slot that leaves a directory there, if there is one. -/
theorem holdsDirectory_modifyContent {id j : Nat} {f : NodeContent → NodeContent}
    (hj : s.holdsDirectory j = true)
    (hf : id = j → ∀ children, ∃ children', f (.directory children) = .directory children') :
    (s.modifyContent id f).holdsDirectory j = true := by
  rw [holdsDirectory, Option.any_eq_true] at hj ⊢
  obtain ⟨⟨name, parent, content⟩, hnode, hdirectory⟩ := hj
  rw [node?_modifyContent]
  split
  · rcases content with data | children
    · simp [TreeNode.isFile] at hdirectory
    · obtain ⟨children', hchildren⟩ := hf ‹_› children
      refine ⟨⟨name, parent, f (.directory children)⟩, by rw [hnode]; rfl, ?_⟩
      rw [hchildren]
      rfl
  · exact ⟨_, hnode, hdirectory⟩

theorem holdsDirectory_modifyChildren {id j : Nat} {f : List Nat → List Nat}
    (hj : s.holdsDirectory j = true) : (s.modifyChildren id f).holdsDirectory j = true :=
  holdsDirectory_modifyContent hj fun _ children ↦ ⟨f children, rfl⟩

theorem holdsDirectory_addChild {parent j : Nat} {name : String} {content : NodeContent}
    (hj : s.holdsDirectory j = true) :
    (s.addChild parent name content).holdsDirectory j = true := by
  refine holdsDirectory_modifyChildren ?_
  rw [holdsDirectory, Option.any_eq_true] at hj ⊢
  obtain ⟨node, hnode, hdirectory⟩ := hj
  refine ⟨node, ?_, hdirectory⟩
  rcases Nat.lt_or_ge j s.nodes.size with hlt | hge
  · rw [node?, Array.getElem?_push, if_neg (Nat.ne_of_lt hlt)]
    exact hnode
  · simp [node?, Array.getElem?_eq_none hge] at hnode

/-! ### What every store in use has -/

/-- What the operations keep. -/
structure Sound (s : MemoryStore) : Prop where
  /-- The root is a directory. -/
  root : s.holdsDirectory 0 = true
  /-- The number of the next handle is new. -/
  fresh : s.handles.Fresh

theorem sound_empty : Sound empty where
  root := rfl
  fresh := fun _ h ↦ nomatch h

/-- The operations keep soundness. -/
theorem keeps_sound : FileStore.Keeps MemoryStore (fun _ ↦ True) Sound where
  root := trivial
  child _ := trivial
  openFile h hopen := by
    obtain ⟨id, -, -, -, rfl⟩ := openFile_eq_ok hopen
    exact ⟨h.root, h.fresh.insert _⟩
  create _ h hcreate := by
    obtain ⟨parent, name, -, ⟨-, rfl⟩ | ⟨id, -, hfile, rfl⟩⟩ := create_eq_ok hcreate
    · exact ⟨holdsDirectory_addChild h.root, h.fresh⟩
    · exact ⟨holdsDirectory_modifyContent h.root fun heq ↦
        absurd heq (holdsFile_ne hfile h.root), h.fresh⟩
  remove {_ s _} _ h hremove := by
    obtain ⟨parent, name, id, -, -, hfile, rfl⟩ := remove_eq_ok hremove
    refine ⟨?_, h.fresh⟩
    -- the slot that is emptied held a file, so it is not the first
    have hroot : (s.modifyChildren parent (·.filter (· != id))).holdsDirectory 0 = true :=
      holdsDirectory_modifyChildren h.root
    rw [holdsDirectory, node?] at hroot ⊢
    rwa [Array.getElem?_setIfInBounds_ne (holdsFile_ne hfile h.root)]
  makeDirectory _ h hmake := by
    obtain ⟨parent, name, -, -, rfl⟩ := makeDirectory_eq_ok hmake
    exact ⟨holdsDirectory_addChild h.root, h.fresh⟩
  write h hwrite := by
    obtain ⟨file, -, hfile, rfl⟩ := write_eq_ok hwrite
    exact ⟨holdsDirectory_modifyContent h.root fun heq ↦
      absurd heq (holdsFile_ne hfile h.root), h.fresh⟩
  close h hclose := by
    obtain ⟨handles, htable, rfl⟩ := close_eq_ok hclose
    exact ⟨h.root, h.fresh.close htable⟩

/-- The stores that operations lead to from the store with only a root. -/
def Reachable (s : MemoryStore) : Prop :=
  FileStore.Reachable empty s

theorem Reachable.sound (h : s.Reachable) : s.Sound :=
  keeps_sound.of_reachable sound_empty (h.reachableOn fun _ ↦ trivial)

/-- Two files that import each other. The first names the second twice, and a package; the second
also imports itself. -/
def sampleStore : MemoryStore :=
  Operation.run
    [.save ⟨true, ["a.ts"]⟩ (Utf8.encode "import './b'; import 'x'; import './b';"),
      .save ⟨true, ["b.ts"]⟩ (Utf8.encode "import './a'; import './b';")] empty

theorem reachable_sampleStore : sampleStore.Reachable :=
  FileStore.Reachable.start.run _

/-! ### Answers that depend on the tree only -/

/-- Two stores hold the same files and directories, whatever is open in them. -/
def SameTree (s s' : MemoryStore) : Prop :=
  s.nodes = s'.nodes

theorem SameTree.eq_withHandles (h : SameTree s s') : s' = { s with handles := s'.handles } := by
  obtain ⟨nodes, handles⟩ := s'
  obtain rfl : s.nodes = nodes := h
  rfl

/-- The content of the file in a slot. -/
def data? (s : MemoryStore) (id : Nat) : Option Bytes :=
  match (s.node? id).map TreeNode.content with
  | some (.file data) => some data
  | _ => none

/-- The content of the file at a path. -/
def contentAt (s : MemoryStore) (path : Path) : Except Error Bytes :=
  match s.lookup path with
  | .error e => .error e
  | .ok id =>
    match s.data? id with
    | some data => .ok data
    | none => invalid (.notFile path.render)

theorem namesTo_withHandles (s : MemoryStore) (handles : HandleTable Nat) (id : Nat) :
    namesTo { s with handles } id = s.namesTo id := by
  induction id using Nat.strongRecOn with
  | _ id ih =>
    have hnode : node? { s with handles } id = s.node? id := rfl
    rw [namesTo, namesTo, hnode]
    rcases s.node? id with - | ⟨name, - | parent, content⟩
    · rfl
    · rfl
    · simp only
      split
      · rw [ih parent ‹_›]
      · rfl

namespace SameTree

theorem pathOf (h : SameTree s s') (id : Nat) : s'.pathOf id = s.pathOf id := by
  rw [h.eq_withHandles, MemoryStore.pathOf, MemoryStore.pathOf, namesTo_withHandles]

theorem resolve (h : SameTree s s') (context relative : Path) :
    FileStore.resolve context relative s' = FileStore.resolve context relative s := by
  have hwalk : s'.walk = s.walk := by rw [h.eq_withHandles]; rfl
  have hlookup : s'.lookup = s.lookup := by rw [h.eq_withHandles]; rfl
  simp only [FileStore.resolve, MemoryStore.resolve, hwalk, hlookup, h.pathOf]

theorem isFile (h : SameTree s s') (path : Path) :
    FileStore.isFile path s' = FileStore.isFile path s := by
  rw [h.eq_withHandles]
  rfl

theorem contentAt (h : SameTree s s') (path : Path) : s'.contentAt path = s.contentAt path := by
  rw [h.eq_withHandles]
  rfl

end SameTree

/-! ### Reading a file -/

theorem data?_eq_some {id : Nat} {data : Bytes} (h : s.data? id = some data) :
    (s.node? id).map TreeNode.content = some (.file data) := by
  rw [data?] at h
  split at h
  · rwa [← Option.some.inj h]
  · cases h

theorem isSome_data? (s : MemoryStore) (id : Nat) : (s.data? id).isSome = s.holdsFile id := by
  rcases hnode : s.node? id with - | ⟨name, parent, data | children⟩ <;>
    simp [data?, holdsFile, hnode, TreeNode.isFile]

theorem data?_of_not_holdsFile {id : Nat} (h : ¬ s.holdsFile id = true) : s.data? id = none := by
  rwa [← Option.not_isSome_iff_eq_none, isSome_data?]

theorem contentAt_eq_ok {data : Bytes} : s.contentAt path = .ok data ↔
    ∃ id, s.lookup path = .ok id ∧ s.data? id = some data := by
  rw [contentAt]
  rcases s.lookup path with e | id
  · simp
  · rcases hdata : s.data? id with - | data' <;> simp [hdata, invalid]

theorem openFile_eq_error {e : Error} :
    openFile path s = .error e ↔ s.contentAt path = .error e := by
  rw [openFile, contentAt]
  rcases hid : s.lookup path with e' | id
  · simp [bind, Except.bind]
  · rcases hdata : s.data? id with - | data
    · have hfile : ¬ s.holdsFile id = true := by simp [← isSome_data?, hdata]
      simp [bind, Except.bind, hfile, hdata, invalid]
    · have hfile : s.holdsFile id = true := by simp [← isSome_data?, hdata]
      simp [bind, Except.bind, hfile, hdata, pure, Except.pure]

/-- **A file that opens can be read and closed**: the handle leads to it, and taking it back leaves
the handles that were open before. -/
theorem Sound.of_openFile (h : s.Sound) {handle : Handle} {opened : MemoryStore}
    (hopen : openFile path s = .ok (handle, opened)) :
    ∃ id data, s.lookup path = .ok id ∧ s.data? id = some data ∧
      opened.read handle = .ok data ∧ opened.realPath handle = .ok (s.pathOf id) ∧
      opened.close handle =
        .ok { s with handles := { s.handles with next := s.handles.next + 1 } } := by
  obtain ⟨id, hid, hfile, rfl, rfl⟩ := openFile_eq_ok hopen
  obtain ⟨data, hdata⟩ := Option.isSome_iff_exists.1 ((isSome_data? s id).trans hfile)
  have hget := h.fresh.get_insert ⟨id, s.pathOf id⟩
  -- the handle is new, so that it leads to this file and to no other
  refine ⟨id, data, hid, hdata, ?_, ?_, ?_⟩
  · refine bind_eq_ok.2 ⟨_, hget, ?_⟩
    show (match (s.node? id).map TreeNode.content with
      | some (.file data) => Except.ok data
      | _ => .error (Error.io (.removed (s.pathOf id)))) = .ok data
    rw [data?_eq_some hdata]
  · exact bind_eq_ok.2 ⟨_, hget, rfl⟩
  · exact bind_eq_ok.2 ⟨_, h.fresh.close_insert _, rfl⟩

/-- The store after `n` handles were given out and taken back: their numbers are used up. -/
def skip (s : MemoryStore) (n : Nat) : MemoryStore :=
  { s with handles := { s.handles with next := s.handles.next + n } }

theorem skip_skip (s : MemoryStore) (m n : Nat) : (s.skip m).skip n = s.skip (m + n) := by
  simp only [skip, Nat.add_assoc]

theorem sameTree_skip (s : MemoryStore) (n : Nat) : SameTree s (s.skip n) :=
  rfl

theorem Sound.skip (h : s.Sound) (n : Nat) : (s.skip n).Sound where
  root := h.root
  fresh entry hentry := Nat.lt_of_lt_of_le (h.fresh entry hentry) (Nat.le_add_right _ _)

/-- **Reading a file answers with its content**, and uses up one number. -/
theorem Sound.load_eq_ok (h : s.Sound) {data : Bytes} (hdata : s.contentAt path = .ok data) :
    FileStore.load path s = (.ok data, s.skip 1) := by
  rcases hopen : FileStore.openFile path s with e | ⟨handle, opened⟩
  · have herror : s.contentAt path = .error e := openFile_eq_error.1 hopen
    rw [hdata] at herror
    cases herror
  · obtain ⟨id, data', hid, hdata', hread, -, hclose⟩ := h.of_openFile hopen
    have hclose : FileStore.close handle opened = .ok (s.skip 1) := hclose
    obtain rfl : data = data' :=
      Except.ok.inj (hdata.symm.trans (contentAt_eq_ok.2 ⟨id, hid, hdata'⟩))
    rw [FileStore.load, hopen]
    simp only [hclose]
    exact Prod.ext hread rfl

/-- A file without content does not open, and nothing changes. -/
theorem load_eq_error {e : Error} (herror : s.contentAt path = .error e) :
    FileStore.load path s = (.error e, s) := by
  have hopen : FileStore.openFile path s = .error e := openFile_eq_error.2 herror
  rw [FileStore.load, hopen]

theorem Sound.fst_load (h : s.Sound) (path : Path) :
    (FileStore.load path s).1 = s.contentAt path := by
  rcases hcontent : s.contentAt path with e | data
  · rw [load_eq_error hcontent]
  · rw [h.load_eq_ok hcontent]

/-- All that reading a file changes is what number comes next. -/
theorem Sound.snd_load (h : s.Sound) (path : Path) :
    ∃ n, (FileStore.load path s).2 = s.skip n := by
  rcases hcontent : s.contentAt path with e | data
  · exact ⟨0, by rw [load_eq_error hcontent]; rfl⟩
  · exact ⟨1, by rw [h.load_eq_ok hcontent]⟩

/-- Reading a file changes no file. -/
theorem Sound.sameTree_load (h : s.Sound) (path : Path) : SameTree s (FileStore.load path s).2 := by
  obtain ⟨n, hload⟩ := h.snd_load path
  exact hload ▸ s.sameTree_skip n

theorem Sound.not_holdsFile_zero (h : s.Sound) : ¬ s.holdsFile 0 = true :=
  fun hfile ↦ holdsFile_ne hfile h.root rfl

/-- The root is no file, so a file that can be read stands in a directory. -/
theorem Sound.exists_parent (h : s.Sound) {data : Bytes} (hdata : s.contentAt path = .ok data) :
    ∃ directory, path.parent = .ok directory := by
  rcases hsegments : path.segments with - | ⟨first, rest⟩
  · have hlookup : s.lookup path = .ok 0 := by simp [lookup, walk, hsegments, pure, Except.pure]
    simp [contentAt, hlookup, data?_of_not_holdsFile h.not_holdsFile_zero, invalid] at hdata
  · exact ⟨_, by simp [Path.parent, hsegments]; rfl⟩

/-- From the root, a path resolves to the slot it leads to. -/
theorem resolve_root {id : Nat} (h : s.lookup path = .ok id) :
    FileStore.resolve Path.root path s = .ok (s.pathOf id) := by
  have hwalk : s.walk 0 path.segments = .ok id := lookup_eq_ok.1 h
  have hroot : s.lookup Path.root = .ok 0 := rfl
  rw [show FileStore.resolve Path.root path s = s.resolve Path.root path from rfl, resolve]
  split <;> simp [hroot, hwalk, bind, Except.bind, pure, Except.pure]

/-- What a path resolves to is the canonical path of a slot. -/
theorem exists_pathOf_of_resolve {context relative : Path}
    (h : FileStore.resolve context relative s = .ok path) : ∃ id, s.pathOf id = path := by
  simp only [FileStore.resolve, resolve] at h
  split at h
  all_goals
    obtain ⟨start, -, h⟩ := bind_eq_ok.1 h
    split at h
    · exact ⟨_, Except.ok.inj h⟩
    · cases h

/-- Only slots of the store have canonical paths of files: a slot that is not there has the path of
the root. -/
theorem Sound.lt_size_of_isFile (h : s.Sound) {id : Nat}
    (hfile : FileStore.isFile (s.pathOf id) s = true) : id < s.nodes.size := by
  refine Nat.lt_of_not_le fun hge ↦ h.not_holdsFile_zero ?_
  have hnode : s.node? id = none := by simp [node?, Array.getElem?_eq_none hge]
  have hnames : s.namesTo id = [] := by rw [namesTo, hnode]
  have hwalk : s.walk 0 (s.pathOf id).segments = .ok 0 := by
    simp [pathOf, hnames, walk, pure, Except.pure]
  have hfile : s.isFile (s.pathOf id) = true := hfile
  rwa [isFile, hwalk] at hfile

end MemoryStore

end ModuleBundler
