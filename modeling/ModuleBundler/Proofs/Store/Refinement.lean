import ModuleBundler.Proofs.Store.Denotation

/-!
# Stores in memory are catalogs

Whatever is done to a store in memory is done to its catalog, and answered from it. A change that
the catalog does not allow fails with the answer that the path is invalid, and leaves the catalog as
it was; that is `MemoryStore.Carries`. Each operation is settled by what its path leads to, and
`MemoryStore.InUse.refines_catalog` puts them together.

Making directories is the one operation that may fail after it has changed something. Its catalog is
described by a recursion, and two things are said of it besides: it never does anything but add
directories, and when it succeeds the path denotes something.
-/

namespace ModuleBundler

/-- The answer is what is expected or, where nothing is expected, that the path is invalid. -/
def Meets {α : Type} (answer : Except Error α) (expected : Option α) : Prop :=
  match expected with
  | some a => answer = .ok a
  | none => ∃ cause, answer = .error (.invalidPath cause)

namespace MemoryStore

variable {s s' : MemoryStore} {id parent : Nat} {name : String} {path : Path} {cause : PathFault}
  {m m' : Catalog} {m? : Option Catalog} {e : Error}
  {operation : MemoryStore → Except Error MemoryStore}

/-! ### Where paths lead -/

theorem lookup_eq_error (h : s.lookup path = .error e) : ∃ cause, e = .invalidPath cause := by
  rw [lookup] at h
  split at h
  · cases h
  · exact ⟨_, (Except.error.inj h).symm⟩

/-- From the root, a path that leads nowhere does not resolve. -/
theorem resolve_root_eq_error (h : s.lookup path = .error e) :
    ∃ e', FileStore.resolve Path.root path s = .error e' := by
  have hroot : s.lookup Path.root = .ok 0 := rfl
  rcases hwalk : s.walk 0 path.segments with cause | id
  · rw [show FileStore.resolve Path.root path s = s.resolve Path.root path from rfl, resolve]
    split <;> simp [hroot, hwalk, bind, Except.bind, pure, Except.pure, invalid]
  · rw [lookup_eq_ok.2 hwalk] at h
    cases h

theorem target_eq_error (h : s.target path = .error e) : ∃ cause, e = .invalidPath cause := by
  rcases bind_eq_error.1 h with h | ⟨name, -, h⟩
  · rw [Path.basename] at h
    split at h
    · cases h
    · exact ⟨_, (Except.error.inj h).symm⟩
  · split at h
    case isTrue => exact ⟨_, (Except.error.inj h).symm⟩
    case isFalse =>
      rcases bind_eq_error.1 h with h | ⟨directory, -, h⟩
      · rw [Path.parent] at h
        split at h
        · exact ⟨_, (Except.error.inj h).symm⟩
        · cases h
      · rcases bind_eq_error.1 h with h | ⟨id, -, h⟩
        · exact lookup_eq_error h
        · split at h
          · cases h
          · exact ⟨_, (Except.error.inj h).symm⟩

namespace Tree

theorem slot?_eq_none (h : s.Tree) (htarget : s.target path = .error e) :
    s.catalog.slot? path = none := by
  refine Option.eq_none_iff_forall_ne_some.2 fun p hp ↦ ?_
  obtain ⟨parent, name, htarget', -⟩ := h.slot?_eq_some.1 hp
  rw [htarget] at htarget'
  cases htarget'

theorem slot?_of_target (h : s.Tree) (htarget : s.target path = .ok (parent, name)) :
    s.catalog.slot? path = some ((s.pathOf parent).below name) :=
  h.slot?_eq_some.2 ⟨parent, name, htarget, rfl⟩

theorem catalog_of_target (h : s.Tree) (htarget : s.target path = .ok (parent, name)) :
    s.catalog ((s.pathOf parent).below name) = (s.childOf parent name).bind s.entryAt? := by
  obtain ⟨_, _, _, hnode⟩ := holdsDirectory_iff.1 (holdsDirectory_of_target htarget)
  exact h.catalog_below hnode

theorem pathOf_of_childOf (h : s.Tree) (hchild : s.childOf parent name = some id) :
    s.pathOf id = (s.pathOf parent).below name :=
  h.pathOf_eq_below (h.childOf_eq_some.1 hchild).1 (h.childOf_eq_some.1 hchild).2

end Tree

/-! ### Single changes -/

/-- What has become of a store with the catalog `m`. If there is a changed catalog, it is this one,
and the answer is success; if there is none, it is `m` as before, and the path is invalid. -/
def Carries (m : Catalog) (change : Option Catalog) (after : Except Error Unit × MemoryStore) :
    Prop :=
  Meets after.1 (change.map fun _ ↦ ()) ∧ after.2.catalog = change.getD m

theorem Carries.of_error (h : operation s = .error (.invalidPath cause)) :
    Carries s.catalog none (FileStore.change operation s) := by
  rw [FileStore.change, h]
  exact ⟨⟨cause, rfl⟩, rfl⟩

theorem Carries.of_ok (h : operation s = .ok s') (hcatalog : s'.catalog = m') :
    Carries m (some m') (FileStore.change operation s) := by
  rw [FileStore.change, h]
  exact ⟨rfl, hcatalog⟩

theorem Carries.eq_error (h : Carries m m? (FileStore.change operation s))
    (hop : operation s = .error e) : m? = none ∧ ∃ cause, e = .invalidPath cause := by
  rw [FileStore.change, hop] at h
  rcases m? with - | m'
  · obtain ⟨⟨cause, he⟩, -⟩ := h
    exact ⟨rfl, cause, Except.error.inj he⟩
  · cases h.1

theorem Carries.eq_ok (h : Carries m m? (FileStore.change operation s))
    (hop : operation s = .ok s') : m? = some s'.catalog := by
  rw [FileStore.change, hop] at h
  rcases m? with - | m'
  · obtain ⟨⟨cause, he⟩, -⟩ := h
    cases he
  · exact congrArg some h.2.symm

namespace Tree

/-- What stands in a directory is a file or a directory. -/
theorem entryAt?_of_childOf (h : s.Tree) (hchild : s.childOf parent name = some id) :
    (∃ data, s.entryAt? id = some (.file data) ∧ s.holdsFile id = true) ∨
      s.entryAt? id = some .directory ∧ ¬ s.holdsFile id = true := by
  obtain ⟨⟨_, _, data | children⟩, hnode, -⟩ :=
    exists_node_of_parent? (h.childOf_eq_some.1 hchild).1
  · exact Or.inl ⟨data, entryAt?_eq hnode, holdsFile_iff.2 ⟨_, _, data, hnode⟩⟩
  · have hdirectory : s.holdsDirectory id = true := holdsDirectory_iff.2 ⟨_, _, children, hnode⟩
    exact Or.inr ⟨entryAt?_eq hnode, fun hfile ↦ holdsFile_ne hfile hdirectory rfl⟩

/-- An operation that looks for what its path is about and then acts on it is a change of this
entry, if its act is. -/
theorem carries_change (h : s.Tree) {f : Option Entry → Option (Option Entry)}
    {act : Nat × String → Except Error MemoryStore}
    (hoperation : operation s = s.target path >>= act)
    (hact : ∀ parent name, s.target path = .ok (parent, name) →
      match f ((s.childOf parent name).bind s.entryAt?) with
      | some e => ∃ s', act (parent, name) = .ok s' ∧
          s'.catalog = Function.update s.catalog ((s.pathOf parent).below name) e
      | none => ∃ cause, act (parent, name) = .error (.invalidPath cause)) :
    Carries s.catalog (s.catalog.change path f) (FileStore.change operation s) := by
  rcases htarget : s.target path with e | ⟨parent, name⟩
  · obtain ⟨cause, rfl⟩ := target_eq_error htarget
    rw [Catalog.change, h.slot?_eq_none htarget]
    exact Carries.of_error (hoperation.trans (bind_eq_error.2 (Or.inl htarget)))
  · have hact := hact parent name htarget
    rw [Catalog.change, h.slot?_of_target htarget]
    simp only [h.catalog_of_target htarget]
    split at hact
    case h_1 e he =>
      obtain ⟨s', hs', hcatalog⟩ := hact
      rw [he]
      exact Carries.of_ok (hoperation.trans (bind_eq_ok.2 ⟨_, htarget, hs'⟩)) hcatalog
    case h_2 he =>
      obtain ⟨cause, hcause⟩ := hact
      rw [he]
      exact Carries.of_error (hoperation.trans (bind_eq_error.2 (Or.inr ⟨_, htarget, hcause⟩)))

theorem carries_create (h : s.Tree) (hpath : path.WellFormed) :
    Carries s.catalog (s.catalog.put path []) (FileStore.change (create path) s) := by
  refine h.carries_change rfl fun parent name htarget ↦ ?_
  rcases hchild : s.childOf parent name with - | id
  · exact ⟨_, by simp only [hchild]; rfl, h.catalog_addChild (holdsDirectory_of_target htarget)
      hchild (plain_of_target hpath htarget) rfl⟩
  · rw [Option.bind_some]
    rcases h.entryAt?_of_childOf hchild with ⟨data, hentry, hfile⟩ | ⟨hentry, hfile⟩
    · rw [hentry, ← h.pathOf_of_childOf hchild]
      exact ⟨_, by simp only [hchild, if_pos hfile]; rfl, h.catalog_refill hfile []⟩
    · rw [hentry]
      exact ⟨_, by simp only [hchild, if_neg hfile]; rfl⟩

theorem carries_makeDirectory (h : s.Tree) (hpath : path.WellFormed) :
    Carries s.catalog (s.catalog.makeDirectory path)
      (FileStore.change (makeDirectory path) s) := by
  refine h.carries_change rfl fun parent name htarget ↦ ?_
  rcases hchild : s.childOf parent name with - | id
  · exact ⟨_, by simp only [hchild]; rfl, h.catalog_addChild (holdsDirectory_of_target htarget)
      hchild (plain_of_target hpath htarget) rfl⟩
  · rw [Option.bind_some]
    rcases h.entryAt?_of_childOf hchild with ⟨data, hentry, -⟩ | ⟨hentry, -⟩ <;>
    · rw [hentry]
      exact ⟨_, by simp only [hchild]; rfl⟩

theorem carries_remove (h : s.Tree) :
    Carries s.catalog (s.catalog.remove path) (FileStore.change (remove path) s) := by
  refine h.carries_change rfl fun parent name htarget ↦ ?_
  rcases hchild : s.childOf parent name with - | id
  · exact ⟨_, by simp only [hchild]; rfl⟩
  · rw [Option.bind_some]
    rcases h.entryAt?_of_childOf hchild with ⟨data, hentry, hfile⟩ | ⟨hentry, hfile⟩
    · rw [hentry, ← h.pathOf_of_childOf hchild]
      exact ⟨_, by simp only [hchild, if_pos hfile]; rfl,
        h.catalog_unlink (h.childOf_eq_some.1 hchild).1 hfile⟩
    · rw [hentry]
      exact ⟨_, by simp only [hchild, if_neg hfile]; rfl⟩

end Tree

/-! ### Questions -/

theorem contentAt_eq_error (h : s.contentAt path = .error e) : ∃ cause, e = .invalidPath cause := by
  rw [contentAt] at h
  split at h
  case h_1 hlookup => exact Except.error.inj h ▸ lookup_eq_error hlookup
  case h_2 =>
    split at h
    · cases h
    · exact ⟨_, (Except.error.inj h).symm⟩

theorem isFile_eq_true : FileStore.isFile path s = true ↔ ∃ data, s.contentAt path = .ok data := by
  simp only [contentAt_eq_ok, lookup_eq_ok]
  rw [show FileStore.isFile path s = s.isFile path from rfl, isFile]
  rcases s.walk 0 path.segments with e | id
  · simp
  · simp [← isSome_data?, Option.isSome_iff_exists]

namespace Tree

/-- The content of a file in the catalog. -/
theorem read_eq_some (h : s.Tree) {data : Bytes} :
    s.catalog.read path = some data ↔ s.contentAt path = .ok data := by
  rw [contentAt_eq_ok, Catalog.read]
  rcases hid : s.lookup path with e | id
  · simp [h.denoted?_eq_none hid]
  · have hsome : s.catalog.denoted? path = some (s.pathOf id) :=
      h.denoted?_eq_some.2 ⟨id, hid, rfl⟩
    obtain ⟨node, hnode⟩ := h.exists_node_of_lookup hid
    simp only [hsome, Option.bind_some, h.catalog_pathOf hnode, ← entryAt?_eq hnode,
      Except.ok.injEq, exists_eq_left', ← entryAt?_eq_file]
    rcases s.entryAt? id with - | - | data' <;> simp

theorem meets_load (h : s.Tree) (hs : s.Sound) :
    Meets (FileStore.load path s).1 (s.catalog.read path) := by
  rw [hs.fst_load]
  rcases hread : s.catalog.read path with - | data
  · rcases hcontent : s.contentAt path with e | data
    · obtain ⟨cause, rfl⟩ := contentAt_eq_error hcontent
      exact ⟨cause, rfl⟩
    · rw [h.read_eq_some.2 hcontent] at hread
      cases hread
  · exact h.read_eq_some.1 hread

theorem isFile_eq (h : s.Tree) : FileStore.isFile path s = (s.catalog.read path).isSome := by
  rw [Bool.eq_iff_iff, isFile_eq_true, Option.isSome_iff_exists]
  simp only [h.read_eq_some]

end Tree

/-! ### Several changes -/

/-- After a file was made, it is opened, written and closed without fail. -/
theorem Sound.save_eq {created : MemoryStore} (h : created.Sound) (bytes : Bytes)
    (hcreate : create path s = .ok created) (hid : created.lookup path = .ok id)
    (hfile : created.holdsFile id = true) :
    ∃ handles, FileStore.save path bytes s =
      (.ok (), { created.modifyContent id (fun _ ↦ .file bytes) with handles }) := by
  obtain ⟨nodes, handles⟩ := created
  let file : OpenFile Nat := ⟨id, pathOf ⟨nodes, handles⟩ id⟩
  let handle : Handle := (handles.insert file).1
  let opened : MemoryStore := ⟨nodes, (handles.insert file).2⟩
  let written : MemoryStore := opened.modifyContent id fun _ ↦ .file bytes
  have hcreate' : FileStore.create path s = .ok ⟨nodes, handles⟩ := hcreate
  have hopen : FileStore.openFile path (⟨nodes, handles⟩ : MemoryStore) = .ok (handle, opened) :=
    bind_eq_ok.2 ⟨id, hid, if_pos hfile⟩
  have hwrite : FileStore.write handle bytes opened = .ok written :=
    bind_eq_ok.2 ⟨file, h.fresh.get_insert file, if_pos hfile⟩
  have hclose : FileStore.close handle written =
      .ok { written with handles := { handles with next := handles.next + 1 } } :=
    bind_eq_ok.2 ⟨_, h.fresh.close_insert file, rfl⟩
  refine ⟨{ handles with next := handles.next + 1 }, ?_⟩
  rw [FileStore.save, hcreate']
  simp only [hopen, FileStore.change, hwrite, hclose]
  rfl

namespace Tree

/-- Once a file was put somewhere by a path, the path leads to it. -/
theorem exists_file_of_put (h : s.Tree) {bytes : Bytes} (hput : m.put path bytes = some s.catalog) :
    ∃ id, s.lookup path = .ok id ∧ s.holdsFile id = true ∧ m.slot? path = some (s.pathOf id) ∧
      m (s.pathOf id) ≠ some .directory ∧
      s.catalog = Function.update m (s.pathOf id) (some (.file bytes)) := by
  obtain ⟨p, hslot, hdirectory, hcatalog⟩ := Catalog.put_eq_some.1 hput
  have hentry : s.catalog p = some (.file bytes) := by
    rw [← hcatalog, Function.update_self]
  obtain ⟨id, hid, rfl⟩ := h.denoted?_eq_some.1
    ((Catalog.Persists.put hput).denoted?_of_slot? hslot (hentry ▸ Option.some_ne_none _))
  refine ⟨id, hid, ?_, hslot, hdirectory, hcatalog.symm⟩
  obtain ⟨node, hnode⟩ := h.exists_node_of_lookup hid
  rw [h.catalog_pathOf hnode, ← entryAt?_eq hnode, entryAt?_eq_file] at hentry
  rw [← isSome_data?, hentry]
  rfl

theorem carries_save (h : s.Tree) (hs : s.Sound) (hpath : path.WellFormed) (bytes : Bytes) :
    Carries s.catalog (s.catalog.put path bytes) (FileStore.save path bytes s) := by
  have hcarries := h.carries_create hpath
  rcases hcreate : create path s with e | created
  · obtain ⟨hput, cause, rfl⟩ := hcarries.eq_error hcreate
    have hcreate' : FileStore.create path s = .error (.invalidPath cause) := hcreate
    rw [Catalog.put_eq_none hput bytes, FileStore.save, hcreate']
    exact ⟨⟨cause, rfl⟩, rfl⟩
  · have hcreated : created.Tree := keeps_tree.create hpath h hcreate
    obtain ⟨id, hid, hfile, hslot, hdirectory, hcatalog⟩ :=
      hcreated.exists_file_of_put (hcarries.eq_ok hcreate)
    obtain ⟨handles, hsave⟩ :=
      (keeps_sound.create trivial hs hcreate).save_eq bytes hcreate hid hfile
    have hsame : SameTree (created.modifyContent id fun _ ↦ .file bytes)
      { created.modifyContent id (fun _ ↦ .file bytes) with handles } := rfl
    rw [Catalog.put_eq_some.2 ⟨_, hslot, hdirectory, rfl⟩, hsave]
    refine ⟨rfl, ?_⟩
    rw [hsame.catalog, hcreated.catalog_refill hfile, hcatalog, Function.update_idem]
    rfl

theorem carries_descend (h : s.Tree) {above : Path} (habove : above.WellFormed)
    (segments : List String) :
    Meets (FileStore.descend above segments s).1 (Catalog.descend above segments s.catalog).1 ∧
      (FileStore.descend above segments s).2.catalog =
        (Catalog.descend above segments s.catalog).2 := by
  induction segments generalizing above s with
  | nil => exact ⟨rfl, rfl⟩
  | cons segment rest ih =>
    have hnext : (above.child segment).WellFormed := habove.child segment
    rw [FileStore.descend, Catalog.descend]
    rcases hid : s.lookup (above.child segment) with e | id
    · obtain ⟨e', hresolve⟩ := resolve_root_eq_error hid
      have hcarries := h.carries_makeDirectory hnext
      simp only [hresolve, h.denoted?_eq_none hid]
      rcases hmake : makeDirectory (above.child segment) s with e | made
      · obtain ⟨hnone, cause, rfl⟩ := hcarries.eq_error hmake
        have hmake' : FileStore.makeDirectory (above.child segment) s =
          .error (.invalidPath cause) := hmake
        simp only [hmake', hnone]
        exact ⟨⟨cause, rfl⟩, trivial⟩
      · have hmake' : FileStore.makeDirectory (above.child segment) s = .ok made := hmake
        simp only [hmake', hcarries.eq_ok hmake]
        exact ih (keeps_tree.makeDirectory hnext h hmake) hnext
    · simp only [resolve_root hid, h.denoted?_eq_some.2 ⟨id, hid, rfl⟩]
      exact ih h hnext

/-- Making directories in the store is making them in its catalog. -/
theorem carries_makeDirectories (h : s.Tree) (path : Path) :
    Meets (FileStore.makeDirectories path s).1 (s.catalog.makeDirectories path).1 ∧
      (FileStore.makeDirectories path s).2.catalog = (s.catalog.makeDirectories path).2 := by
  rw [FileStore.makeDirectories, Catalog.makeDirectories]
  split
  · exact h.carries_descend Path.wellFormed_root path.segments
  · exact ⟨⟨_, rfl⟩, rfl⟩

end Tree

/-! ### How many files -/

/-- To count the places of a list where something holds is to count what it holds for. -/
theorem ncard_setOf_getElem? {α : Type} (f : α → Bool) (l : List α) :
    {i : Nat | (l[i]?).any f = true}.ncard = l.countP f := by
  induction l using List.reverseRecOn with
  | nil => simp
  | append_singleton l a ih =>
    have hlt : ∀ {i : Nat}, (l[i]?).any f = true → i < l.length := by
      intro i hi
      refine Nat.lt_of_not_le fun hle ↦ ?_
      simp [List.getElem?_eq_none hle] at hi
    have hfinite : {i : Nat | (l[i]?).any f = true}.Finite :=
      (Set.finite_lt_nat l.length).subset fun i hi ↦ hlt hi
    have hlast : l.length ∉ {i : Nat | (l[i]?).any f = true} := fun hi ↦ Nat.lt_irrefl _ (hlt hi)
    -- the new place is counted if and only if what stands there is
    have hget : ∀ i : Nat, ((l ++ [a])[i]?).any f = true ↔
        i = l.length ∧ f a = true ∨ (l[i]?).any f = true := by
      intro i
      rcases lt_trichotomy i l.length with hi | rfl | hi
      · simp [List.getElem?_append_left hi, Nat.ne_of_lt hi]
      · simp
      · have hend : (l ++ [a]).length ≤ i := by
          rw [List.length_append, List.length_singleton]
          omega
        simp [List.getElem?_eq_none hend, List.getElem?_eq_none (Nat.le_of_lt hi), Nat.ne_of_gt hi]
    rcases hf : f a
    · have hset : {i : Nat | ((l ++ [a])[i]?).any f = true} = {i | (l[i]?).any f = true} := by
        simp [hget, hf]
      rw [hset, ih]
      simp [hf]
    · have hset : {i : Nat | ((l ++ [a])[i]?).any f = true} =
          insert l.length {i | (l[i]?).any f = true} := by
        ext i
        simp [hget, hf]
      rw [hset, Set.ncard_insert_of_notMem hlast hfinite, ih]
      simp [hf]

namespace Tree

/-- **The files that are counted are the files of the catalog.** -/
theorem fileCount_eq (h : s.Tree) : s.fileCount = s.catalog.fileCount := by
  have hfiles : {p | ∃ data, s.catalog p = some (.file data)} =
      s.pathOf '' {id | s.holdsFile id = true} := by
    ext p
    simp only [h.catalog_eq_some, entryAt?_eq_file, ← isSome_data?, Option.isSome_iff_exists]
    constructor
    · rintro ⟨data, id, hdata, hpath⟩
      exact ⟨id, ⟨data, hdata⟩, hpath⟩
    · rintro ⟨id, ⟨data, hdata⟩, hpath⟩
      exact ⟨data, id, hdata, hpath⟩
  have hinjective : Set.InjOn s.pathOf {id | s.holdsFile id = true} := by
    intro id hid id' hid' hpath
    obtain ⟨_, _, _, hnode⟩ := holdsFile_iff.1 hid
    obtain ⟨_, _, _, hnode'⟩ := holdsFile_iff.1 hid'
    exact h.pathOf_injective hnode hnode' hpath
  have hslots : {id | s.holdsFile id = true} =
      {id : Nat | (s.nodes.toList[id]?).any (fun slot ↦ slot.any TreeNode.isFile) = true} := by
    ext id
    show s.holdsFile id = true ↔ _
    rw [holdsFile, node?]
    rcases hslot : s.nodes[id]? with - | - | node <;> simp [hslot]
  rw [Catalog.fileCount, hfiles, hinjective.ncard_image, hslots, ncard_setOf_getElem?]
  rfl

/-- The catalog is finite. -/
theorem finite_catalog (h : s.Tree) : {p | s.catalog p ≠ none}.Finite := by
  refine ((Set.finite_lt_nat s.nodes.size).image s.pathOf).subset fun p hp ↦ ?_
  obtain ⟨e, he⟩ := Option.ne_none_iff_exists'.1 hp
  obtain ⟨id, hentry, hpath⟩ := h.catalog_eq_some.1 he
  obtain ⟨node, hnode, -⟩ := exists_node_of_entryAt? hentry
  exact ⟨id, lt_size_of_node? hnode, hpath⟩

end Tree

/-- **A store in use does what its catalog says.** The catalog has an entry for each node, at its
canonical path, and for finitely many paths therefore. For a well-formed path the operations answer
as the catalog does, or that the path is invalid, and leave the catalog that it says they leave. A
failure changes nothing, except where directories were being made; and then there may be some more
directories, but nothing else is different. -/
theorem InUse.refines_catalog (h : s.InUse) (hpath : path.WellFormed) (bytes : Bytes) :
    ((∀ p e, s.catalog p = some e ↔ ∃ id, s.entryAt? id = some e ∧ s.pathOf id = p) ∧
      (∀ p, s.catalog p ≠ none → p.isCanonical = true) ∧ {p | s.catalog p ≠ none}.Finite) ∧
    Carries s.catalog (s.catalog.put path [])
      (FileStore.change (FileStore.create path) s) ∧
    Carries s.catalog (s.catalog.remove path)
      (FileStore.change (FileStore.remove path) s) ∧
    Carries s.catalog (s.catalog.makeDirectory path)
      (FileStore.change (FileStore.makeDirectory path) s) ∧
    Carries s.catalog (s.catalog.put path bytes) (FileStore.save path bytes s) ∧
    (Meets (FileStore.load path s).1 (s.catalog.read path) ∧
      (FileStore.load path s).2.catalog = s.catalog) ∧
    FileStore.isFile path s = (s.catalog.read path).isSome ∧
    (Meets (FileStore.makeDirectories path s).1 (s.catalog.makeDirectories path).1 ∧
      (FileStore.makeDirectories path s).2.catalog = (s.catalog.makeDirectories path).2 ∧
      s.catalog.Grows (FileStore.makeDirectories path s).2.catalog ∧
      ((s.catalog.makeDirectories path).1 = some () →
        (s.catalog.makeDirectories path).2.denoted? path ≠ none)) ∧
    (FileStore.stat s).files = s.catalog.fileCount := by
  have htree := h.tree
  have hmake := htree.carries_makeDirectories path
  refine ⟨⟨fun _ _ ↦ htree.catalog_eq_some, fun p hp ↦ ?_, htree.finite_catalog⟩,
    htree.carries_create hpath, htree.carries_remove, htree.carries_makeDirectory hpath,
    htree.carries_save h.sound hpath bytes,
    ⟨htree.meets_load h.sound, (h.sound.sameTree_load path).catalog⟩, htree.isFile_eq,
    ⟨hmake.1, hmake.2, ?_, Catalog.denoted?_makeDirectories hpath⟩, htree.fileCount_eq⟩
  · obtain ⟨e, he⟩ := Option.ne_none_iff_exists'.1 hp
    obtain ⟨id, -, rfl⟩ := htree.catalog_eq_some.1 he
    exact htree.isCanonical_pathOf id
  · rw [hmake.2]
    exact Catalog.Grows.makeDirectories s.catalog path

/-- Replacing a file by way of the directory above. -/
theorem refines_catalog_nestedStore : nestedStore.InUse ∧
    Path.WellFormed ⟨true, ["lib", "core", "..", "core", "b.ts"]⟩ ∧
    Carries nestedStore.catalog
      (nestedStore.catalog.put ⟨true, ["lib", "core", "..", "core", "b.ts"]⟩ [59])
      (FileStore.save ⟨true, ["lib", "core", "..", "core", "b.ts"]⟩ [59] nestedStore) :=
  ⟨inUse_nestedStore, by decide,
    (inUse_nestedStore.refines_catalog (by decide) [59]).2.2.2.2.1⟩

end MemoryStore

end ModuleBundler
