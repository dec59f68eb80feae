import ModuleBundler.Proofs.Store.Resolving

/-!
# Where directories were made

Directories are made along a path one after the other, and whatever resolves on the way is passed
over (`FileStore.descend`). So when this succeeds the whole path resolves, all its fronts do, and to
do it once more is to do nothing (`MemoryStore.descend_eq_self`).

What stands at the end is either new, and then a directory, or it was there before. In the second
case nothing has asked what it is. Whether a directory was delivered is therefore decided by the
store as it was: there is one if no file stood at the place that the path reads as
(`MemoryStore.InUse.makeDirectories_delivers`), and if a file did, the success says nothing
(`MemoryStore.not_delivers_nestedStore`).
-/

namespace ModuleBundler

namespace Catalog

variable {m m' : Catalog} {path p q : Path} {name : String}

/-- Below a path that leads to a directory, a name is about the entry of that name in it. -/
theorem slot?_child (hq : m.denoted? path = some q) (hdirectory : m q = some .directory)
    (hplain : Path.Plain name) (hname : name ≠ Path.parentName) :
    m.slot? (path.child name) = some (q.below name) := by
  refine slot?_eq_some.2 ⟨path.segments, name, q, ?_, hname, hq, hdirectory, rfl⟩
  rw [Path.child, hplain.split_eq]

/-- Below a path that does not lead to a directory, a name is about nothing. -/
theorem slot?_child_eq_none (hq : m.denoted? path = some q) (hfile : m q ≠ some .directory)
    (hplain : Path.Plain name) : m.slot? (path.child name) = none := by
  refine Option.eq_none_iff_forall_ne_some.2 fun p hp ↦ ?_
  obtain ⟨above, last, d, hsegments, -, hd, hdirectory, -⟩ := slot?_eq_some.1 hp
  rw [Path.child, hplain.split_eq] at hsegments
  obtain ⟨rfl, -⟩ := List.append_inj' hsegments rfl
  obtain rfl : q = d := Option.some.inj (hq.symm.trans hd)
  exact hfile hdirectory

/-- Where directories were made, no file has come or gone. -/
theorem Grows.eq_file_iff (h : m.Grows m') {data : Bytes} :
    m' p = some (.file data) ↔ m p = some (.file data) := by
  rcases h p with hp | ⟨hnone, hdirectory⟩
  · rw [hp]
  · simp [hnone, hdirectory]

end Catalog

namespace MemoryStore

variable {s s' : MemoryStore} {path p q : Path} {name : String} {segments : List String} {id : Nat}
  {m m' : Catalog} {operation : MemoryStore → Except Error MemoryStore}

/-! ### Changes that are carried out -/

theorem Carries.exists_ok (h : Carries m (some m') (FileStore.change operation s)) :
    ∃ s', operation s = .ok s' ∧ s'.catalog = m' := by
  rcases hop : operation s with e | s'
  · obtain ⟨hnone, -⟩ := h.eq_error hop
    cases hnone
  · exact ⟨s', rfl, (Option.some.inj (h.eq_ok hop)).symm⟩

theorem Carries.exists_error (h : Carries m none (FileStore.change operation s)) :
    ∃ cause, operation s = .error (.invalidPath cause) := by
  rcases hop : operation s with e | s'
  · obtain ⟨-, cause, rfl⟩ := h.eq_error hop
    exact ⟨cause, rfl⟩
  · cases h.eq_ok hop

namespace Tree

/-- A canonical path is that of a file if a file stands there. -/
theorem isFile_iff_catalog (h : s.Tree) (hq : q.isCanonical = true) :
    FileStore.isFile q s = true ↔ ∃ data, s.catalog q = some (.file data) := by
  simp only [isFile_eq_true, h.contentAt_iff, resolve_eq_ok]
  constructor
  · rintro ⟨data, p, ⟨id, hid, hp⟩, hdata⟩
    rw [lookup_eq_ok, segments_join_root, ← lookup_eq_ok] at hid
    obtain rfl : p = q := hp.symm.trans (h.pathOf_of_lookup hq hid)
    exact ⟨data, hdata⟩
  · rintro ⟨data, hdata⟩
    exact ⟨data, q, resolve_eq_ok.1 (h.resolve_self (hdata ▸ Option.some_ne_none _)), hdata⟩

/-- A path denotes what it resolves to. -/
theorem resolve_root_iff (h : s.Tree) :
    FileStore.resolve Path.root path s = .ok q ↔ s.catalog.denoted? path = some q := by
  rw [h.denoted?_eq_some, resolve_eq_ok]
  simp only [lookup_eq_ok, segments_join_root]

/-- In a directory, a free name can be taken. -/
theorem exists_change_child (h : s.Tree) (hpath : path.WellFormed)
    (hq : s.catalog.denoted? path = some q) (hdirectory : s.catalog q = some .directory)
    (hplain : Path.Plain name) (hname : name ≠ Path.parentName)
    (hfree : ∀ p, FileStore.resolve Path.root (path.child name) s ≠ .ok p) :
    (∃ s', FileStore.create (path.child name) s = .ok s' ∧
      s'.catalog = Function.update s.catalog (q.below name) (some (.file []))) ∧
    ∃ s', FileStore.makeDirectory (path.child name) s = .ok s' ∧
      s'.catalog = Function.update s.catalog (q.below name) (some .directory) := by
  have hslot := Catalog.slot?_child hq hdirectory hplain hname
  have hnone : s.catalog (q.below name) = none := by
    by_contra hsome
    exact hfree _ (h.resolve_root_iff.2
      ((Catalog.Grows.refl s.catalog).persists.denoted?_of_slot? hslot hsome))
  have hcreate := h.carries_create (hpath.child name)
  have hmake := h.carries_makeDirectory (hpath.child name)
  rw [Catalog.put_eq_some.2 ⟨_, hslot, by rw [hnone]; nofun, rfl⟩] at hcreate
  rw [Catalog.makeDirectory_eq_some.2 ⟨_, hslot, hnone, rfl⟩] at hmake
  exact ⟨hcreate.exists_ok, hmake.exists_ok⟩

/-- Below a file, nothing can be made. -/
theorem create_child_eq_error (h : s.Tree) (hpath : path.WellFormed)
    (hq : s.catalog.denoted? path = some q) (hfile : s.catalog q ≠ some .directory)
    (hplain : Path.Plain name) :
    ∃ cause, FileStore.create (path.child name) s = .error (.invalidPath cause) := by
  have hcreate := h.carries_create (hpath.child name)
  have hput : s.catalog.put (path.child name) [] = none := by
    rw [Catalog.put, Catalog.change, Catalog.slot?_child_eq_none hq hfile hplain]
  rw [hput] at hcreate
  exact hcreate.exists_error

end Tree

/-! ### Making directories -/

/-- **Where the path leads somewhere, there is nothing to make.** -/
theorem descend_eq_self {above : Path} (hplain : ∀ segment ∈ segments, Path.Plain segment)
    (hid : s.lookup ⟨above.absolute, above.segments ++ segments⟩ = .ok id) :
    FileStore.descend above segments s = (.ok (), s) := by
  induction segments generalizing above with
  | nil => rfl
  | cons segment rest ih =>
    have hchild : above.child segment = ⟨above.absolute, above.segments ++ [segment]⟩ := by
      rw [Path.child, (hplain segment List.mem_cons_self).split_eq]
    rw [List.append_cons] at hid
    -- the way to the end leads through the next directory
    obtain ⟨next, hnext, -⟩ := bind_eq_ok.1 (walk_append.symm.trans (lookup_eq_ok.1 hid))
    have hresolve : FileStore.resolve Path.root (above.child segment) s = .ok (s.pathOf next) :=
      resolve_root (lookup_eq_ok.2 (by rw [hchild]; exact hnext))
    rw [FileStore.descend]
    simp only [hresolve]
    refine ih (fun name hname ↦ hplain name (List.mem_cons_of_mem _ hname)) ?_
    rw [hchild]
    exact hid

theorem makeDirectories_eq_self (hpath : path.WellFormed) (habsolute : path.absolute = true)
    (hid : s.lookup path = .ok id) : FileStore.makeDirectories path s = (.ok (), s) := by
  obtain ⟨absolute, segments⟩ := path
  obtain rfl : absolute = true := habsolute
  rw [FileStore.makeDirectories, if_pos rfl]
  exact descend_eq_self hpath hid

theorem absolute_of_makeDirectories (hdone : (FileStore.makeDirectories path s).1 = .ok ()) :
    path.absolute = true := by
  rw [FileStore.makeDirectories] at hdone
  split at hdone
  · assumption
  · cases hdone

/-- Where directories were made, the path leads somewhere. -/
theorem Tree.exists_denoted?_of_makeDirectories (h : s.Tree) (hpath : path.WellFormed)
    (hdone : FileStore.makeDirectories path s = (.ok (), s')) :
    ∃ q, s'.catalog.denoted? path = some q := by
  obtain ⟨hmeets, hcatalog⟩ := h.carries_makeDirectories path
  rw [hdone] at hmeets hcatalog
  rw [hcatalog]
  refine Option.ne_none_iff_exists'.1 (Catalog.denoted?_makeDirectories hpath ?_)
  rcases hanswer : (s.catalog.makeDirectories path).1 with - | u
  · rw [hanswer] at hmeets
    obtain ⟨cause, hcause⟩ := hmeets
    cases hcause
  · rfl

/-- **Directories are made where there is no file.** When making directories along a path succeeds,
the path resolves to what it reads as, and to make them once more changes nothing.

If no file stood there before, there is a directory then, and any name that is free in it can be
taken, by a file or by a directory. If a file stood there it still does, and nothing can be made
below it. -/
theorem InUse.makeDirectories_delivers (h : s.InUse) (hpath : path.WellFormed)
    (hdone : FileStore.makeDirectories path s = (.ok (), s')) :
    FileStore.makeDirectories path s' = (.ok (), s') ∧
    ∃ q, path.normalize = .ok q ∧ FileStore.resolve Path.root path s' = .ok q ∧
      (FileStore.isFile q s = false → s'.catalog q = some .directory ∧
        ∀ name, Path.Plain name → name ≠ Path.parentName →
          (∀ p, FileStore.resolve Path.root (path.child name) s' ≠ .ok p) →
          (∃ s'', FileStore.create (path.child name) s' = .ok s'' ∧
            s''.catalog = Function.update s'.catalog (q.below name) (some (.file []))) ∧
          ∃ s'', FileStore.makeDirectory (path.child name) s' = .ok s'' ∧
            s''.catalog = Function.update s'.catalog (q.below name) (some .directory)) ∧
      (FileStore.isFile q s = true → s'.catalog q = s.catalog q ∧
        ∀ name, Path.Plain name →
          ∃ cause, FileStore.create (path.child name) s' = .error (.invalidPath cause)) := by
  have htree := h.tree
  have htree' : s'.Tree := by
    have hkept := keeps_tree.makeDirectories htree path
    rwa [hdone] at hkept
  have habsolute : path.absolute = true := absolute_of_makeDirectories (congrArg Prod.fst hdone)
  have hgrows : s.catalog.Grows s'.catalog := by
    have hcatalog := (htree.carries_makeDirectories path).2
    rw [hdone] at hcatalog
    rw [hcatalog]
    exact Catalog.Grows.makeDirectories s.catalog path
  obtain ⟨q, hq⟩ := htree.exists_denoted?_of_makeDirectories hpath hdone
  obtain ⟨id, hid, -⟩ := htree'.denoted?_eq_some.1 hq
  obtain ⟨-, hnormalize, hexists⟩ := htree'.denoted?_iff.1 hq
  have hfile : ∀ {data}, s'.catalog q = some (.file data) ↔ s.catalog q = some (.file data) :=
    hgrows.eq_file_iff
  have hisFile := htree.isFile_iff_catalog (Path.isCanonical_of_normalize hnormalize)
  refine ⟨makeDirectories_eq_self hpath habsolute hid, q, by rw [← hnormalize, ← habsolute],
    htree'.resolve_root_iff.2 hq, fun hno ↦ ?_, fun hyes ↦ ?_⟩
  · have hdirectory : s'.catalog q = some .directory := by
      rcases hentry : s'.catalog q with - | - | data
      · exact absurd hentry hexists
      · rfl
      · rw [hisFile.2 ⟨data, hfile.1 hentry⟩] at hno
        cases hno
    exact ⟨hdirectory, fun name hplain hname ↦
      htree'.exists_change_child hpath hq hdirectory hplain hname⟩
  · obtain ⟨data, hdata⟩ := hisFile.1 hyes
    have hdata' : s'.catalog q = some (.file data) := hfile.2 hdata
    exact ⟨hdata'.trans hdata.symm, fun name hplain ↦
      htree'.create_child_eq_error hpath hq (by rw [hdata']; nofun) hplain⟩

/-- A new directory, by way of one that is there. -/
theorem makeDirectories_delivers_nestedStore : nestedStore.InUse ∧
    Path.WellFormed ⟨true, ["lib", "..", "app"]⟩ ∧
    ∃ s', FileStore.makeDirectories ⟨true, ["lib", "..", "app"]⟩ nestedStore = (.ok (), s') ∧
      FileStore.makeDirectories ⟨true, ["lib", "..", "app"]⟩ s' = (.ok (), s') := by
  have hdone : FileStore.makeDirectories ⟨true, ["lib", "..", "app"]⟩ nestedStore =
      (.ok (), (FileStore.makeDirectories ⟨true, ["lib", "..", "app"]⟩ nestedStore).2) :=
    Prod.ext (by decide +kernel) rfl
  exact ⟨inUse_nestedStore, by decide, _, hdone,
    (inUse_nestedStore.makeDirectories_delivers (by decide) hdone).1⟩

/-- **Where a file stands, success delivers no directory**: making directories along the path of a
file succeeds and leaves the file, and a free name below it cannot be taken. -/
theorem not_delivers_nestedStore : nestedStore.InUse ∧
    Path.WellFormed ⟨true, ["lib", "core", "b.ts"]⟩ ∧
    FileStore.makeDirectories ⟨true, ["lib", "core", "b.ts"]⟩ nestedStore = (.ok (), nestedStore) ∧
    FileStore.isFile ⟨true, ["lib", "core", "b.ts"]⟩ nestedStore = true ∧
    nestedStore.catalog ⟨true, ["lib", "core", "b.ts"]⟩ ≠ some .directory ∧
    FileStore.isFile ⟨true, ["lib", "core", "b.ts", "c.ts"]⟩ nestedStore = false ∧
    FileStore.create ⟨true, ["lib", "core", "b.ts", "c.ts"]⟩ nestedStore =
      .error (.invalidPath (.parentNotDirectory ⟨true, ["lib", "core", "b.ts", "c.ts"]⟩)) :=
  ⟨inUse_nestedStore, by decide, by decide +kernel, by decide +kernel, by decide +kernel,
    by decide +kernel, by decide +kernel⟩

end MemoryStore

end ModuleBundler
