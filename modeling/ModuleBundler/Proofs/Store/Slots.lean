import ModuleBundler.Proofs.Store.Handles
import ModuleBundler.Proofs.Store.Resolving

/-!
# Files in slots

Slots are not used twice. So the file in a slot is one file for as long as it is there, under one
path, since files are not moved; and a slot without a file, be it empty or a directory, never gets
one. What becomes of the files in slots along a run is therefore said in one equation
(`MemoryStore.InUse.continues_run`): they are where they were, except those that the run says it
removed.

This is what a handle is about. It keeps the number of a slot, not a path, and a file that is made
later under the path of a file that was removed is in another slot.
-/

namespace ModuleBundler

namespace MemoryStore

open Operation (removed? history run)

variable {s s' s'' : MemoryStore} {id parent : Nat} {name : String} {content : NodeContent}
  {path p : Path} {bytes : Bytes} {operation : Operation} {operations : List Operation}
  {removed removed' : List Path}

/-! ### The files in slots -/

/-- The canonical path of the file in a slot. -/
def fileAt? (s : MemoryStore) (id : Nat) : Option Path :=
  if s.holdsFile id then some (s.pathOf id) else none

theorem fileAt?_eq_some : s.fileAt? id = some p ↔ s.holdsFile id = true ∧ s.pathOf id = p := by
  rw [fileAt?]
  split <;> simp [*]

theorem fileAt?_eq_none : s.fileAt? id = none ↔ ¬ s.holdsFile id = true := by
  rw [fileAt?]
  split <;> simp [*]

theorem holdsFile_iff_entryAt? :
    s.holdsFile id = true ↔ ∃ data, s.entryAt? id = some (.file data) := by
  simp only [entryAt?_eq_file, ← isSome_data?, Option.isSome_iff_exists]

theorem holdsFile_congr (h : s'.entryAt? id = s.entryAt? id) :
    s'.holdsFile id = s.holdsFile id := by
  rw [Bool.eq_iff_iff, holdsFile_iff_entryAt?, holdsFile_iff_entryAt?, h]

/-- From one store to the other, files have been removed and nothing else has become of the files in
slots. -/
structure Continues (s s' : MemoryStore) (removed : List Path) : Prop where
  /-- There are no fewer slots. -/
  size_le : s.nodes.size ≤ s'.nodes.size
  /-- A file is where it was, if it was not removed. -/
  fileAt?_eq : ∀ id < s.nodes.size, s'.fileAt? id = (s.fileAt? id).filter (· ∉ removed)

namespace Continues

theorem trans (h : Continues s s' removed) (h' : Continues s' s'' removed') :
    Continues s s'' (removed ++ removed') where
  size_le := Nat.le_trans h.size_le h'.size_le
  fileAt?_eq id hid := by
    rw [h'.fileAt?_eq id (Nat.lt_of_lt_of_le hid h.size_le), h.fileAt?_eq id hid,
      Option.filter_filter]
    congr
    funext p
    simp

theorem of_fileAt? (hsize : s.nodes.size ≤ s'.nodes.size)
    (hfile : ∀ id < s.nodes.size, s'.fileAt? id = s.fileAt? id) : Continues s s' [] where
  size_le := hsize
  fileAt?_eq id hid := by
    rw [hfile id hid]
    rcases s.fileAt? id with - | p <;> simp [Option.filter]

end Continues

theorem SameTree.fileAt? (h : SameTree s s') (id : Nat) : s'.fileAt? id = s.fileAt? id := by
  have hfile : s'.holdsFile id = s.holdsFile id := by
    rw [h.eq_withHandles]
    rfl
  rw [MemoryStore.fileAt?, MemoryStore.fileAt?, hfile, h.pathOf]

/-- Opening a file changes no file. -/
theorem sameTree_openFile (path : Path) : SameTree s ((Operation.openFile path).apply s) := by
  rw [Operation.apply, FileStore.attempt]
  rcases hopen : FileStore.openFile path s with e | ⟨handle, opened⟩
  · rfl
  · obtain ⟨id, -, -, -, rfl⟩ := openFile_eq_ok hopen
    rfl

/-- Neither does closing it. -/
theorem sameTree_close (handle : Handle) : SameTree s ((Operation.close handle).apply s) := by
  rw [Operation.apply, FileStore.change]
  rcases hclose : FileStore.close handle s with e | closed
  · rfl
  · obtain ⟨handles, -, rfl⟩ := close_eq_ok hclose
    rfl

theorem SameTree.continues (h : SameTree s s') : Continues s s' [] :=
  .of_fileAt? (Nat.le_of_eq (congrArg Array.size h)) fun id _ ↦ h.fileAt? id

namespace Tree

/-- Where the names and parents of two stores agree, so do the paths of their files. -/
theorem fileAt?_congr (h : s.Tree) (h' : s'.Tree) {x : Nat} (hagree : s.AgreeBut s' x)
    (hne : id ≠ x) (hfile : s'.holdsFile id = s.holdsFile id) : s'.fileAt? id = s.fileAt? id := by
  rw [fileAt?, fileAt?, hfile]
  split
  case isTrue hholds =>
    obtain ⟨_, _, _, hnode⟩ := holdsFile_iff.1 hholds
    rw [h.pathOf_congr h' hagree hnode hne]
  case isFalse => rfl

theorem continues_addChild (h : s.Tree) (hparent : s.holdsDirectory parent = true)
    (hchild : s.childOf parent name = none)
    (hname : Path.Plain name ∧ name ≠ Path.parentName) (hbare : content.children = []) :
    Continues s (s.addChild parent name content) [] := by
  have hsize : (s.addChild parent name content).nodes.size = s.nodes.size + 1 := by
    simp [MemoryStore.addChild, modifyChildren, modifyContent]
  refine .of_fileAt? (by omega) fun id hid ↦ ?_
  have hne : id ≠ s.nodes.size := Nat.ne_of_lt hid
  exact h.fileAt?_congr (h.addChild hparent hchild hname hbare) h.agreeBut_addChild hne
    (holdsFile_congr (by rw [entryAt?_addChild, if_neg hne]))

theorem continues_refill (h : s.Tree) (hfile : s.holdsFile id = true) (bytes : Bytes) :
    Continues s (s.modifyContent id fun _ ↦ .file bytes) [] := by
  have hsize : (s.modifyContent id fun _ ↦ .file bytes).nodes.size = s.nodes.size := by
    simp [modifyContent]
  refine .of_fileAt? (Nat.le_of_eq hsize.symm) fun j hj ↦ h.fileAt?_congr (h.refill hfile bytes)
    (agreeBut_refill h.parent?_ne_size) (Nat.ne_of_lt hj) ?_
  rcases eq_or_ne j id with rfl | hne
  · rw [hfile, holdsFile_iff_entryAt?, entryAt?_refill hfile, if_pos rfl]
    exact ⟨bytes, rfl⟩
  · exact holdsFile_congr (by rw [entryAt?_refill hfile, if_neg hne])

/-- The file that is taken out is the only one under its path. -/
theorem continues_unlink (h : s.Tree) (hparent : s.parent? id = some parent)
    (hfile : s.holdsFile id = true) : Continues s (s.unlink parent id) [s.pathOf id] := by
  have hsize : (s.unlink parent id).nodes.size = s.nodes.size := by
    simp [MemoryStore.unlink, clear, modifyChildren, modifyContent]
  refine ⟨Nat.le_of_eq hsize.symm, fun j _ ↦ ?_⟩
  rcases eq_or_ne j id with rfl | hne
  · have hgone : (s.unlink parent j).fileAt? j = none := by
      rw [fileAt?_eq_none, holdsFile_iff_entryAt?, entryAt?_unlink, if_pos rfl]
      rintro ⟨_, hdata⟩
      cases hdata
    rw [hgone, fileAt?_eq_some.2 ⟨hfile, rfl⟩]
    simp [Option.filter]
  · rw [h.fileAt?_congr (h.unlink hparent hfile) (h.agreeBut_unlink hfile) hne
      (holdsFile_congr (by rw [entryAt?_unlink, if_neg hne]))]
    rcases hj : s.fileAt? j with - | p
    · rfl
    · obtain ⟨hholds, rfl⟩ := fileAt?_eq_some.1 hj
      obtain ⟨_, _, _, hnode⟩ := holdsFile_iff.1 hfile
      obtain ⟨_, _, _, hnode'⟩ := holdsFile_iff.1 hholds
      have hpath : s.pathOf j ≠ s.pathOf id := fun heq ↦ hne (h.pathOf_injective hnode' hnode heq)
      simp [Option.filter, hpath]

theorem continues_create (h : s.Tree) (hpath : path.WellFormed) (hcreate : create path s = .ok s') :
    Continues s s' [] := by
  obtain ⟨parent, name, htarget, ⟨hchild, rfl⟩ | ⟨id, -, hfile, rfl⟩⟩ := create_eq_ok hcreate
  · exact h.continues_addChild (holdsDirectory_of_target htarget) hchild
      (plain_of_target hpath htarget) rfl
  · exact h.continues_refill hfile []

theorem continues_makeDirectory (h : s.Tree) (hpath : path.WellFormed)
    (hmake : makeDirectory path s = .ok s') : Continues s s' [] := by
  obtain ⟨parent, name, htarget, hchild, rfl⟩ := makeDirectory_eq_ok hmake
  exact h.continues_addChild (holdsDirectory_of_target htarget) hchild
    (plain_of_target hpath htarget) rfl

theorem continues_write (h : s.Tree) (hwrite : write handle bytes s = .ok s') :
    Continues s s' [] := by
  obtain ⟨file, -, hfile, rfl⟩ := write_eq_ok hwrite
  exact h.continues_refill hfile bytes

/-- What a path is about is what it leads to, if there is anything. -/
theorem lookup_of_target (h : s.Tree) (htarget : s.target path = .ok (parent, name))
    (hchild : s.childOf parent name = some id) : s.lookup path = .ok id := by
  obtain ⟨above, hsegments, hname, hwalk, -⟩ := target_eq_ok.1 htarget
  have hstep : s.step parent name = .ok id := (h.step_eq_ok hname).2 (h.childOf_eq_some.1 hchild)
  have hlast : s.walk parent [name] = .ok id := bind_eq_ok.2 ⟨id, hstep, rfl⟩
  rw [lookup_eq_ok, hsegments, walk_append]
  exact bind_eq_ok.2 ⟨parent, hwalk, hlast⟩

theorem continues_remove (h : s.Tree) (hremove : remove path s = .ok s') :
    ∃ p, FileStore.resolve Path.root path s = .ok p ∧ Continues s s' [p] := by
  obtain ⟨parent, name, id, htarget, hchild, hfile, rfl⟩ := remove_eq_ok hremove
  exact ⟨s.pathOf id, resolve_root (h.lookup_of_target htarget hchild),
    h.continues_unlink (h.childOf_eq_some.1 hchild).1 hfile⟩

theorem continues_save (h : s.Tree) (hs : s.Sound) (hpath : path.WellFormed) (bytes : Bytes) :
    Continues s (FileStore.save path bytes s).2 [] := by
  rcases hcreate : create path s with e | created
  · have hcreate' : FileStore.create path s = .error e := hcreate
    rw [FileStore.save, hcreate']
    exact SameTree.continues rfl
  · have hcreated : created.Tree := keeps_tree.create hpath h hcreate
    obtain ⟨id, hid, hfile, -⟩ :=
      hcreated.exists_file_of_put ((h.carries_create hpath).eq_ok hcreate)
    obtain ⟨handles, hsave⟩ :=
      (keeps_sound.create trivial hs hcreate).save_eq bytes hcreate hid hfile
    have hsame : SameTree (created.modifyContent id fun _ ↦ .file bytes)
      { created.modifyContent id (fun _ ↦ .file bytes) with handles } := rfl
    rw [hsave]
    exact (h.continues_create hpath hcreate).trans
      ((hcreated.continues_refill hfile bytes).trans hsame.continues)

theorem continues_descend (h : s.Tree) {above : Path} (habove : above.WellFormed)
    (segments : List String) : Continues s (FileStore.descend above segments s).2 [] := by
  induction segments generalizing above s with
  | nil => exact SameTree.continues rfl
  | cons segment rest ih =>
    rw [FileStore.descend]
    have hnext : (above.child segment).WellFormed := habove.child segment
    split
    · exact ih h hnext
    · split
      case h_1 made hmake =>
        have hmade : made.Tree := keeps_tree.makeDirectory hnext h hmake
        exact (h.continues_makeDirectory hnext hmake).trans (ih hmade hnext)
      case h_2 => exact SameTree.continues rfl

end Tree

/-! ### The files in slots along a run -/

namespace InUse

theorem apply (h : s.InUse) (hgood : ∀ path ∈ operation.path?, path.WellFormed) :
    InUse (operation.apply s) :=
  FileStore.ReachableOn.step operation hgood h

/-- **What an operation does to the files in slots**: it removes what it says to remove. -/
theorem continues (h : s.InUse) (hgood : ∀ path ∈ operation.path?, path.WellFormed) :
    Continues s (operation.apply s) (operation.removed? s).toList := by
  have hchange : ∀ {act : MemoryStore → Except Error MemoryStore},
      (∀ {s'}, act s = .ok s' → Continues s s' []) → Continues s (FileStore.change act s).2 [] :=
    fun hact ↦ FileStore.snd_change (I := fun s' ↦ Continues s s' []) hact (SameTree.continues rfl)
  cases operation with
  | openFile path => exact (sameTree_openFile path).continues
  | create path => exact hchange (h.tree.continues_create (hgood path rfl))
  | remove path =>
    rw [removed?, Operation.apply, FileStore.change]
    rcases hremove : FileStore.remove path s with e | s'
    · exact SameTree.continues rfl
    · obtain ⟨p, hp, hcontinues⟩ := h.tree.continues_remove hremove
      simp only [hp]
      exact hcontinues
  | makeDirectory path => exact hchange (h.tree.continues_makeDirectory (hgood path rfl))
  | write handle bytes => exact hchange h.tree.continues_write
  | close handle => exact (sameTree_close handle).continues
  | load path => exact (h.sound.sameTree_load path).continues
  | save path bytes => exact h.tree.continues_save h.sound (hgood path rfl) bytes
  | makeDirectories path =>
    show Continues s (FileStore.makeDirectories path s).2 []
    rw [FileStore.makeDirectories]
    split
    · exact h.tree.continues_descend Path.wellFormed_root _
    · exact SameTree.continues rfl

/-- **What becomes of the files in slots along a run.** -/
theorem continues_run (h : s.InUse)
    (hgood : ∀ operation ∈ operations, ∀ path ∈ operation.path?, path.WellFormed) :
    Continues s (run operations s) (history removed? operations s) := by
  induction operations generalizing s with
  | nil => exact SameTree.continues rfl
  | cons operation rest ih =>
    have hfirst := hgood operation List.mem_cons_self
    exact (h.continues hfirst).trans (ih (h.apply hfirst) fun next hnext ↦
      hgood next (List.mem_cons_of_mem _ hnext))

end InUse

end MemoryStore

end ModuleBundler
