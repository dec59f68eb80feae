import ModuleBundler.Proofs.Store.Slots

/-!
# Open files

A handle leads to the slot of the file that it was given out for. As long as the file is there, what
is read by the handle is what stands under the path of the file; when it was removed, nothing is
read, for a new file of that path is in another slot (`MemoryStore.InUse.find?_openFile_run`).

That a file has the content that was stored in it last is a fact about catalogs. An operation leaves
no file with a content but what it says to store, and what was there (`Catalog.StoresOnly`), and so
a file has at its path the content that was stored there last, by which path or handle whatsoever
(`MemoryStore.lastStored?_of_catalog`).

`MemoryStore.run_openFiles` puts this together with what is known of handles.
-/

namespace ModuleBundler

namespace Catalog

variable {m m' : Catalog} {path p : Path} {bytes : Bytes}

/-- From one catalog to the other, nothing was stored but what is said: a file has the content that
was stored in it now or, if nothing was, the one that it had. -/
def StoresOnly (m : Catalog) (stored : Option (Path × Bytes)) (m' : Catalog) : Prop :=
  ∀ p data, m' p = some (.file data) →
    stored = some (p, data) ∨ (∀ other, stored ≠ some (p, other)) ∧ m p = some (.file data)

theorem StoresOnly.of_none (h : ∀ p data, m' p = some (.file data) → m p = some (.file data)) :
    m.StoresOnly none m' :=
  fun p data hdata ↦ Or.inr ⟨fun _ ↦ (Option.some_ne_none _).symm, h p data hdata⟩

/-- Directories that are added are no files. -/
theorem StoresOnly.of_grows (h : m.Grows m') : m.StoresOnly none m' := by
  refine .of_none fun p data hdata ↦ ?_
  rcases h p with hsame | ⟨-, hdirectory⟩
  · exact hsame ▸ hdata
  · rw [hdirectory] at hdata
    cases hdata

theorem StoresOnly.remove (h : m.remove path = some m') : m.StoresOnly none m' := by
  obtain ⟨q, -, -, -, rfl⟩ := remove_eq_some.1 h
  refine .of_none fun p data hdata ↦ ?_
  rcases eq_or_ne p q with rfl | hne
  · rw [Function.update_self] at hdata
    cases hdata
  · rwa [Function.update_of_ne hne] at hdata

theorem StoresOnly.update :
    m.StoresOnly (some (p, bytes)) (Function.update m p (some (.file bytes))) := by
  intro q data hdata
  rcases eq_or_ne q p with rfl | hne
  · rw [Function.update_self] at hdata
    obtain rfl : bytes = data := by simpa using hdata
    exact Or.inl rfl
  · rw [Function.update_of_ne hne] at hdata
    exact Or.inr ⟨fun other heq ↦ hne (congrArg Prod.fst (Option.some.inj heq)).symm, hdata⟩

end Catalog

namespace MemoryStore

open Operation (issued? returned? removed? stored? storedAt? lastStored? history run)

variable {s s' : MemoryStore} {id : Nat} {path p : Path} {bytes data : Bytes} {handle : Handle}
  {file : OpenFile Nat} {operation : Operation} {operations : List Operation} {removed : List Path}

/-! ### What open files lead to -/

/-- What is kept of an open file leads to a slot, and to the file that was opened if there is a file
in the slot. -/
def Leads (s : MemoryStore) (file : OpenFile Nat) : Prop :=
  file.target < s.nodes.size ∧ ∀ p ∈ s.fileAt? file.target, p = file.realPath

theorem Leads.of_continues (h : s.Leads file) (hcontinues : Continues s s' removed) :
    s'.Leads file := by
  refine ⟨Nat.lt_of_lt_of_le h.1 hcontinues.size_le, fun p hp ↦ h.2 p ?_⟩
  rw [hcontinues.fileAt?_eq _ h.1, Option.mem_def, Option.filter_eq_some_iff] at hp
  exact hp.1

theorem leads_of_holdsFile (hfile : s.holdsFile id = true) : s.Leads ⟨id, s.pathOf id⟩ := by
  obtain ⟨_, _, _, hnode⟩ := holdsFile_iff.1 hfile
  exact ⟨lt_size_of_node? hnode, fun p hp ↦ (fileAt?_eq_some.1 hp).2.symm⟩

/-- All open files lead to where they should. -/
def Anchored (s : MemoryStore) : Prop :=
  ∀ entry ∈ s.handles.entries, s.Leads entry.2

theorem Anchored.of_continues (h : s.Anchored) (hcontinues : Continues s s' removed)
    (hhandles : s'.handles = s.handles) : s'.Anchored := by
  rw [Anchored, hhandles]
  exact fun entry hentry ↦ (h entry hentry).of_continues hcontinues

theorem Anchored.of_find? (h : s.Anchored) (hfind : s.handles.find? handle = some file) :
    s.Leads file :=
  h _ (HandleTable.mem_entries_of_find? hfind)

/-- Operations on well-formed paths leave open files where they were. -/
theorem keeps_anchored :
    FileStore.Keeps MemoryStore Path.WellFormed fun s ↦ s.Tree ∧ s.Anchored where
  root := Path.wellFormed_root
  child hpath := hpath.child _
  openFile h hopen := by
    refine ⟨keeps_tree.openFile h.1 hopen, ?_⟩
    obtain ⟨id, -, hfile, -, rfl⟩ := openFile_eq_ok hopen
    intro entry hentry
    rcases List.mem_append.1 hentry with hold | hnew
    · exact (h.2 entry hold).of_continues (SameTree.continues rfl)
    · rw [List.mem_singleton.1 hnew]
      exact (leads_of_holdsFile hfile).of_continues (SameTree.continues rfl)
  create hpath h hcreate := ⟨keeps_tree.create hpath h.1 hcreate,
    h.2.of_continues (h.1.continues_create hpath hcreate) (handles_create hcreate)⟩
  remove hpath h hremove := by
    obtain ⟨p, -, hcontinues⟩ := h.1.continues_remove hremove
    exact ⟨keeps_tree.remove hpath h.1 hremove,
      h.2.of_continues hcontinues (handles_remove hremove)⟩
  makeDirectory hpath h hmake := ⟨keeps_tree.makeDirectory hpath h.1 hmake,
    h.2.of_continues (h.1.continues_makeDirectory hpath hmake) (handles_makeDirectory hmake)⟩
  write h hwrite := ⟨keeps_tree.write h.1 hwrite,
    h.2.of_continues (h.1.continues_write hwrite) (handles_write hwrite)⟩
  close h hclose := by
    refine ⟨keeps_tree.close h.1 hclose, ?_⟩
    obtain ⟨handles, htable, rfl⟩ := close_eq_ok hclose
    obtain ⟨-, rfl⟩ := HandleTable.close_eq_ok.1 htable
    intro entry hentry
    exact (h.2 entry (List.mem_filter.1 hentry).1).of_continues (SameTree.continues rfl)

/-! ### What was stored last -/

theorem storedAt?_ok {s : MemoryStore} (h : FileStore.resolve Path.root path s = .ok p) :
    storedAt? path bytes (.ok (), s) = some (p, bytes) := by
  rw [storedAt?, h]
  rfl

/-- A change that is said to put a file into the catalog stores it. -/
theorem Carries.storesOnly {m : Catalog} {after : Except Error Unit × MemoryStore}
    (h : Carries m (m.put path bytes) after) (hafter : after.2.Tree) :
    m.StoresOnly (storedAt? path bytes after) after.2.catalog := by
  obtain ⟨answer, s⟩ := after
  obtain ⟨hanswer, hcatalog⟩ := h
  rcases hput : m.put path bytes with - | m'
  · rw [hput] at hanswer hcatalog
    obtain ⟨cause, rfl⟩ := hanswer
    obtain rfl : s.catalog = m := hcatalog
    exact .of_none fun _ _ hdata ↦ hdata
  · rw [hput] at hanswer hcatalog
    obtain rfl : answer = .ok () := hanswer
    obtain rfl : s.catalog = m' := hcatalog
    obtain ⟨id, hid, -, -, -, hcatalog⟩ := hafter.exists_file_of_put hput
    rw [storedAt?_ok (resolve_root hid), hcatalog]
    exact .update

namespace InUse

theorem anchored (h : s.InUse) : s.Anchored :=
  (keeps_anchored.of_reachable ⟨Tree.tree_empty, fun _ hentry ↦ nomatch hentry⟩ h).2

/-- **What an operation does to the files of the catalog**: it stores what it says to store. -/
theorem storesOnly (h : s.InUse) (hgood : ∀ path ∈ operation.path?, path.WellFormed) :
    s.catalog.StoresOnly (operation.stored? s) (operation.apply s).catalog := by
  have hsame : ∀ {s' : MemoryStore}, SameTree s s' → s.catalog.StoresOnly none s'.catalog :=
    fun hsame ↦ .of_none fun p data hdata ↦ hsame.catalog ▸ hdata
  cases operation with
  | openFile path => exact hsame (sameTree_openFile path)
  | create path =>
    exact (h.tree.carries_create (hgood path rfl)).storesOnly (h.apply hgood).tree
  | remove path =>
    have hcatalog : (Operation.apply (.remove path) s).catalog =
        (s.catalog.remove path).getD s.catalog := h.tree.carries_remove.2
    rw [hcatalog]
    rcases hremove : s.catalog.remove path with - | m'
    · exact hsame rfl
    · exact .remove hremove
  | makeDirectory path =>
    have hcatalog : (Operation.apply (.makeDirectory path) s).catalog =
        (s.catalog.makeDirectory path).getD s.catalog :=
      (h.tree.carries_makeDirectory (hgood path rfl)).2
    rw [hcatalog]
    rcases hmake : s.catalog.makeDirectory path with - | m'
    · exact hsame rfl
    · exact .of_grows (Catalog.Grows.makeDirectory hmake)
  | write handle bytes =>
    rw [stored?, Operation.apply, FileStore.change]
    rcases hwrite : FileStore.write handle bytes s with e | s'
    · exact hsame rfl
    · -- the node of an open file is still at the path that it was opened at
      obtain ⟨file, hget, hfile, rfl⟩ := write_eq_ok hwrite
      have hfind : s.handles.find? handle = some file := HandleTable.get_eq_ok.1 hget
      have hlead : s.pathOf file.target = file.realPath :=
        (h.anchored.of_find? hfind).2 _ (fileAt?_eq_some.2 ⟨hfile, rfl⟩)
      simp only [realPath_of_find? hfind, h.tree.catalog_refill hfile, hlead]
      exact .update
  | close handle => exact hsame (sameTree_close handle)
  | load path => exact hsame (h.sound.sameTree_load path)
  | save path bytes =>
    exact (h.tree.carries_save h.sound (hgood path rfl) bytes).storesOnly (h.apply hgood).tree
  | makeDirectories path =>
    have hcatalog : (Operation.apply (.makeDirectories path) s).catalog =
        (s.catalog.makeDirectories path).2 := (h.tree.carries_makeDirectories path).2
    rw [hcatalog]
    exact .of_grows (Catalog.Grows.makeDirectories _ _)

end InUse

/-- **A file has the content that was stored in it last.** -/
theorem lastStored?_of_catalog
    (hgood : ∀ operation ∈ operations, ∀ path ∈ operation.path?, path.WellFormed)
    (hfile : (run operations empty).catalog p = some (.file data)) :
    lastStored? p operations (empty : MemoryStore) = some data := by
  induction operations using List.reverseRecOn generalizing data with
  | nil =>
    have hnone : ∀ q, empty.catalog q ≠ some (.file data) := fun q ↦ by
      rw [Tree.catalog_empty, Function.update_apply]
      split <;> simp
    exact absurd hfile (hnone p)
  | append_singleton front operation ih =>
    have hfront : ∀ operation ∈ front, ∀ path ∈ operation.path?, path.WellFormed :=
      fun next hnext ↦ hgood next (List.mem_append_left _ hnext)
    have hinUse : InUse (run front empty) := FileStore.ReachableOn.start.run hfront
    have hlast := hinUse.storesOnly (hgood operation List.mem_concat_self)
    rw [Operation.run_append] at hfile
    rw [Operation.lastStored?_concat]
    rcases hlast p data hfile with hnow | ⟨hother, hold⟩
    · simp [hnow]
    · split
      case h_1 stored bytes hstored =>
        have hne : p ≠ stored := fun heq ↦ hother bytes (heq ▸ hstored)
        rw [if_neg hne]
        exact ih hfront hold
      case h_2 => exact ih hfront hold

/-! ### Open files along a run -/

/-- The content of an open file is what stands at its path, while it is there. -/
theorem Tree.read_of_fileAt? (h : s.Tree) (hfind : s.handles.find? handle = some file)
    (hfile : s.fileAt? file.target = some p) :
    ∃ data, FileStore.read handle s = .ok data ∧ s.catalog p = some (.file data) := by
  obtain ⟨hholds, rfl⟩ := fileAt?_eq_some.1 hfile
  obtain ⟨name, above, data, hnode⟩ := holdsFile_iff.1 hholds
  refine ⟨data, bind_eq_ok.2 ⟨file, HandleTable.get_eq_ok.2 hfind, ?_⟩, h.catalog_pathOf hnode⟩
  rw [hnode]
  rfl

/-- A file that is gone can be neither read nor written. -/
theorem fails_of_fileAt?_eq_none (hfind : s.handles.find? handle = some file)
    (hfile : s.fileAt? file.target = none) :
    (∃ cause, FileStore.read handle s = .error (.io cause)) ∧
      ∀ bytes, ∃ cause, FileStore.write handle bytes s = .error (.io cause) := by
  have hget : s.handles.get handle = .ok file := HandleTable.get_eq_ok.2 hfind
  have hgone : ¬ s.holdsFile file.target = true := fileAt?_eq_none.1 hfile
  refine ⟨⟨.removed file.realPath, ?_⟩, fun bytes ↦ ⟨.removedTarget handle.id, ?_⟩⟩
  · refine bind_eq_error.2 (Or.inr ⟨file, hget, ?_⟩)
    rcases hnode : s.node? file.target with - | ⟨name, above, data | children⟩
    · rfl
    · exact absurd (holdsFile_iff.2 ⟨name, above, data, hnode⟩) hgone
    · rfl
  · exact bind_eq_error.2 (Or.inr ⟨file, hget, if_neg hgone⟩)

/-- **What an open file is after a run**: it is kept under the path that it had, and leads to the
file there, unless the run removed it. -/
theorem InUse.find?_openFile_run (h : s.InUse) (hpath : path.WellFormed) {opened : MemoryStore}
    (hopen : FileStore.openFile path s = .ok (handle, opened))
    (hgood : ∀ operation ∈ operations, ∀ path ∈ operation.path?, path.WellFormed)
    (hreturned : handle ∉ history returned? operations opened) :
    ∃ file, (run operations opened).handles.find? handle = some file ∧
      FileStore.resolve Path.root path s = .ok file.realPath ∧ file.realPath.isCanonical = true ∧
      (run operations opened).fileAt? file.target =
        (some file.realPath).filter (· ∉ history removed? operations opened) := by
  have hopened : opened.InUse :=
    Operation.apply_openFile hopen ▸ h.apply fun _ hmem ↦ Option.some.inj hmem ▸ hpath
  obtain ⟨id, hid, hfile, rfl, rfl⟩ := openFile_eq_ok hopen
  obtain ⟨_, _, _, hnode⟩ := holdsFile_iff.1 hfile
  have hsame : SameTree s { s with handles := (s.handles.insert ⟨id, s.pathOf id⟩).2 } := rfl
  have hthere := (hsame.fileAt? id).trans (fileAt?_eq_some.2 ⟨hfile, rfl⟩)
  refine ⟨⟨id, s.pathOf id⟩, hopened.sound.find?_run (h.sound.fresh.find?_insert _) hreturned,
    resolve_root hid, h.tree.isCanonical_pathOf id, ?_⟩
  rw [(hopened.continues_run hgood).fileAt?_eq id (lt_size_of_node? hnode), hthere]

/-- **Open files along a run.** Handles are given out in the order of their numbers, and as many are
open as were given out and not taken back; no other operation opens or closes anything, and what was
taken back is refused. A handle that was given out and not taken back keeps the canonical path that
the file had. While the file is there no other file has this path, and what is read by the handle is
the content that was stored last under it, by any path or handle. Once the file was removed, it can
be neither read nor written by the handle, whatever stands at its path, and trying changes
nothing. -/
theorem run_openFiles
    (hgood : ∀ operation ∈ operations, ∀ path ∈ operation.path?, path.WellFormed) :
    (history issued? operations empty).Pairwise (fun earlier later ↦ earlier.id < later.id) ∧
    (FileStore.stat (run operations empty)).openHandles +
        (history returned? operations empty).length =
      (history issued? operations empty).length ∧
    (∀ operation : Operation, operation.issued? (run operations empty) = none →
      operation.returned? (run operations empty) = none →
        (operation.apply (run operations empty)).handles.entries =
          (run operations empty).handles.entries) ∧
    (∀ handle ∈ history returned? operations empty,
      FileStore.Refuses handle (run operations empty)) ∧
    ∀ before path after handle opened, operations = before ++ .openFile path :: after →
      FileStore.openFile path (run before empty) = .ok (handle, opened) →
      handle ∉ history returned? after opened →
      ∃ p, FileStore.resolve Path.root path (run before empty) = .ok p ∧ p.isCanonical = true ∧
        FileStore.realPath handle (run operations empty) = .ok p ∧
        FileStore.displayPath handle (run operations empty) = .ok p.render ∧
        (p ∉ history removed? after opened →
          ∃ data, lastStored? p operations empty = some data ∧
            FileStore.read handle (run operations empty) = .ok data) ∧
        (p ∈ history removed? after opened →
          (∃ cause, FileStore.read handle (run operations empty) = .error (.io cause)) ∧
          ∀ bytes,
            (∃ cause, FileStore.write handle bytes (run operations empty) = .error (.io cause)) ∧
            (Operation.write handle bytes).apply (run operations empty) =
              run operations empty) := by
  have hinUse : InUse (run operations empty) := FileStore.ReachableOn.start.run hgood
  refine ⟨sound_empty.pairwise_issued operations,
    (sound_empty.size_run .nil operations).trans (Nat.zero_add _), ?_, ?_, ?_⟩
  · intro operation hissued hreturned
    have hmoves := hinUse.sound.moves operation
    rw [hissued, hreturned] at hmoves
    exact hmoves.entries_eq
  · intro handle hreturned
    exact (refuses_run_iff operations).2 fun _ ↦ hreturned
  · rintro before path after handle opened rfl hopen hreturned
    have hbefore : InUse (run before empty) := FileStore.ReachableOn.start.run fun next hnext ↦
      hgood next (List.mem_append_left _ hnext)
    have hrun : run (before ++ .openFile path :: after) empty = run after opened := by
      rw [Operation.run_append]
      exact congrArg (run after) (Operation.apply_openFile hopen)
    obtain ⟨file, hfind, hresolve, hcanonical, hfile⟩ :=
      hbefore.find?_openFile_run (hgood (.openFile path) (by simp) path rfl) hopen
        (fun next hnext ↦ hgood next (by simp [hnext])) hreturned
    rw [← hrun] at hfind hfile
    have hreal := realPath_of_find? hfind
    refine ⟨file.realPath, hresolve, hcanonical, hreal, ?_, fun hstays ↦ ?_, fun hgone ↦ ?_⟩
    · rw [FileStore.displayPath, hreal]
      rfl
    · rw [Option.filter_some, if_pos (decide_eq_true hstays)] at hfile
      obtain ⟨data, hread, hcatalog⟩ := hinUse.tree.read_of_fileAt? hfind hfile
      exact ⟨data, lastStored?_of_catalog hgood hcatalog, hread⟩
    · rw [Option.filter_some, if_neg (by simpa using hgone)] at hfile
      obtain ⟨hread, hwrite⟩ := fails_of_fileAt?_eq_none hfind hfile
      refine ⟨hread, fun bytes ↦ ⟨hwrite bytes, ?_⟩⟩
      obtain ⟨cause, hcause⟩ := hwrite bytes
      rw [Operation.apply, FileStore.change, hcause]

/-- A file is opened twice, written and closed by one handle, and removed under the other; another
file takes its place and is opened. -/
def replacingRun : List Operation :=
  [.makeDirectory ⟨true, ["lib"]⟩, .save ⟨true, ["lib", "a.ts"]⟩ [1],
    .openFile ⟨true, ["lib", "a.ts"]⟩, .openFile ⟨true, ["lib", "..", "lib", "a.ts"]⟩,
    .write ⟨2⟩ [2], .close ⟨2⟩, .remove ⟨true, ["lib", "a.ts"]⟩,
    .save ⟨true, ["lib", "a.ts"]⟩ [3], .openFile ⟨true, ["lib", "a.ts"]⟩, .write ⟨1⟩ [4],
    .load ⟨true, ["lib", "a.ts"]⟩]

/-- The handle of the removed file fails, and the handle of the new file reads what is in it. -/
theorem run_openFiles_replacingRun :
    (∀ operation ∈ replacingRun, ∀ path ∈ operation.path?, path.WellFormed) ∧
    history issued? replacingRun empty = [⟨1⟩, ⟨2⟩, ⟨4⟩] ∧
    FileStore.Refuses ⟨2⟩ (run replacingRun empty) ∧
    (∃ cause, FileStore.read ⟨1⟩ (run replacingRun empty) = .error (.io cause)) ∧
    (∃ data, lastStored? ⟨true, ["lib", "a.ts"]⟩ replacingRun empty = some data ∧
      FileStore.read ⟨4⟩ (run replacingRun empty) = .ok data) := by
  have hgood : ∀ operation ∈ replacingRun, ∀ path ∈ operation.path?, path.WellFormed := by decide
  obtain ⟨-, -, -, hreturned, hopened⟩ := run_openFiles hgood
  refine ⟨hgood, by decide +kernel, hreturned _ (by decide +kernel), ?_, ?_⟩
  · obtain ⟨p, hp, -, -, -, -, hgone⟩ := hopened
      (replacingRun.take 2) ⟨true, ["lib", "a.ts"]⟩ (replacingRun.drop 3) ⟨1⟩ _ rfl rfl
      (by decide +kernel)
    obtain rfl : p = ⟨true, ["lib", "a.ts"]⟩ := Except.ok.inj (hp.symm.trans (by decide +kernel))
    exact (hgone (by decide +kernel)).1
  · obtain ⟨p, hp, -, -, -, hstays, -⟩ := hopened
      (replacingRun.take 8) ⟨true, ["lib", "a.ts"]⟩ (replacingRun.drop 9) ⟨4⟩ _ rfl rfl
      (by decide +kernel)
    obtain rfl : p = ⟨true, ["lib", "a.ts"]⟩ := Except.ok.inj (hp.symm.trans (by decide +kernel))
    exact hstays (by decide +kernel)

end MemoryStore

end ModuleBundler
