import ModuleBundler.Proofs.Disk.Reading

/-!
# Changing a disk

On a disk without links, making and removing are changes of the catalog: of the entry that the
change is about, if the path is taken without its steps up from the root (`DiskStore.Changes`).
Each operation looks before it acts, in a way of its own; but what it finds is the entry or nothing
(`Disk.reach_of_slot?`, `Disk.reach_of_slot?_eq_none`), and with the same answers to all its
questions it comes to what the catalog says.

The operations of several steps are compared with the store in memory directly. As long as the two
show the same files (`DiskStore.Shows`), they go on alike, and they show the same files afterwards.
-/

namespace ModuleBundler.DiskStore

variable {S : DiskStore} {s : MemoryStore} {m : Catalog} {p q : Path} {segments : List String}
  {bytes : Bytes}

/-! ### Single changes -/

/-- What becomes of a store where a change of the catalog is tried. -/
def Changes (S : DiskStore) (answer : Except Error DiskStore) : Option Catalog → Prop
  | some m => ∃ d, answer = .ok { S with disk := d } ∧ d.Mirrors m
  | none => ∃ cause, answer = .error (.invalidPath cause)

/-- A fault that says that a path leads nowhere is an invalid path. -/
theorem exists_asked {α : Type} {fault : OsFault} (shown : String) (h : fault.isOfPath = true) :
    ∃ cause, asked (α := α) shown (.error fault) = .error (.invalidPath cause) :=
  ⟨_, by rw [asked, OsFault.along, if_pos h]⟩

/-- Where a change is about an entry, its path stands in a directory. -/
theorem hasDirectoryAbove_of_slot? (h : S.disk.Mirrors m) (hm : m.IsTree) (hp : p.absolute = true)
    (hplain : p.WellFormed) (hfits : p.Fits) (hslot : m.slot? p.grounded = some q) :
    S.hasDirectoryAbove p = true := by
  obtain ⟨absolute, segments⟩ := p
  obtain rfl : absolute = true := hp
  obtain rfl | ⟨front, name, rfl⟩ := segments.eq_nil_or_concat'
  · cases hslot
  · have hname : name ≠ Path.parentName := by
      rintro rfl
      rw [Catalog.slot?_grounded_parentName] at hslot
      cases hslot
    rw [Path.grounded, Path.ground_concat hname, Catalog.slot?_concat hname,
      Option.bind_eq_some_iff] at hslot
    obtain ⟨above, habove, hdirectory⟩ := hslot
    have hfront : Path.WellFormed ⟨true, front⟩ :=
      fun segment hsegment ↦ hplain segment (List.mem_append_left _ hsegment)
    have hlands := Disk.reach_lands S.cwd h hm rfl hfront
      (hfits.of_sublist rfl rfl (List.sublist_append_left front [name]))
    rw [show m.denoted? (Path.grounded ⟨true, front⟩) = some above from habove] at hlands
    obtain ⟨entry, hentry, hfound⟩ := hlands
    split at hdirectory
    case isFalse => cases hdirectory
    case isTrue hstands =>
      obtain rfl := Option.some.inj (hstands.symm.trans hentry)
      rw [hasDirectoryAbove, textAbove?]
      simp [Disk.leadsToDirectory, Disk.look?, hfound, Entry.onDisk]

/-- Where a change is about no entry, no operation gets anywhere but to a directory. -/
theorem reach_of_slot?_eq_none (h : S.disk.Mirrors m) (hm : m.IsTree) (hp : p.absolute = true)
    (hplain : p.WellFormed) (hfits : p.Fits) (hslot : m.slot? p.grounded = none) :
    (∃ place, ∀ ending, S.disk.reach S.cwd p.toOsText ending = .ok (.found place .directory)) ∨
      ∃ fault : OsFault, fault.isOfPath = true ∧
        ∀ ending, S.disk.reach S.cwd p.toOsText ending = .error fault := by
  obtain ⟨answer, hanswer, ⟨place, rfl⟩ | rfl | rfl⟩ :=
    Disk.reach_of_slot?_eq_none S.cwd h hm hp hplain hfits hslot
  · exact Or.inl ⟨place, hanswer⟩
  · exact Or.inr ⟨.notFound, rfl, hanswer⟩
  · exact Or.inr ⟨.notDirectory, rfl, hanswer⟩

/-- **Making a file** is making it in the catalog. -/
theorem create_changes (h : S.disk.Mirrors m) (hm : m.IsTree) (hp : p.absolute = true)
    (hplain : p.WellFormed) (hfits : p.Fits) :
    S.Changes (S.create p) (m.put p.grounded []) := by
  have hcreate : S.create p =
      if !S.hasDirectoryAbove p then invalid (.parentMissing p.toOsText)
      else if S.disk.leadsToDirectory S.cwd p.toOsText then invalid (.isDirectory p.toOsText)
      else asked p.toOsText (S.disk.save S.cwd p.toOsText []) >>= fun d ↦
        .ok { S with disk := d } := rfl
  rw [hcreate, Disk.leadsToDirectory, Disk.look?, Disk.save, Catalog.put, Catalog.change]
  rcases hslot : m.slot? p.grounded with - | q
  · rcases reach_of_slot?_eq_none h hm hp hplain hfits hslot with
      ⟨place, hfound⟩ | ⟨fault, hpath, hfault⟩
    · simp only [hfound]
      split <;> exact ⟨_, rfl⟩
    · simp only [hfault]
      split
      · exact ⟨_, rfl⟩
      · obtain ⟨cause, hcause⟩ := exists_asked (α := Disk) p.toOsText hpath
        exact ⟨cause, by rw [hcause]; rfl⟩
  · obtain ⟨directory, name, rfl, hreach⟩ :=
      Disk.reach_of_slot? S.cwd h hm hp hplain hfits hslot
    have hne : directory ++ [name] ≠ [] := by simp
    rw [hasDirectoryAbove_of_slot? h hm hp hplain hfits hslot]
    simp only [hreach]
    rcases hentry : m (Place.path (directory ++ [name])) with - | - | data
    · exact ⟨_, rfl, h.put hne (.file [])⟩
    · exact ⟨_, rfl⟩
    · exact ⟨_, rfl, h.put hne (.file [])⟩

/-- **Removing a file** is removing it from the catalog. -/
theorem remove_changes (h : S.disk.Mirrors m) (hm : m.IsTree) (hp : p.absolute = true)
    (hplain : p.WellFormed) (hfits : p.Fits) :
    S.Changes (S.remove p) (m.remove p.grounded) := by
  rw [remove, Disk.unlink, Catalog.remove, Catalog.change]
  rcases hslot : m.slot? p.grounded with - | q
  · rcases reach_of_slot?_eq_none h hm hp hplain hfits hslot with
      ⟨place, hfound⟩ | ⟨fault, hpath, hfault⟩
    · simp only [hfound]
      exact ⟨_, rfl⟩
    · simp only [hfault]
      obtain ⟨cause, hcause⟩ := exists_asked (α := Landing) p.toOsText hpath
      exact ⟨cause, by rw [hcause]; rfl⟩
  · obtain ⟨directory, name, rfl, hreach⟩ :=
      Disk.reach_of_slot? S.cwd h hm hp hplain hfits hslot
    have hne : directory ++ [name] ≠ [] := by simp
    simp only [hreach]
    rcases hentry : m (Place.path (directory ++ [name])) with - | - | data
    · exact ⟨_, rfl⟩
    · exact ⟨_, rfl⟩
    · exact ⟨_, rfl, h.erase hne⟩

/-- **Making a directory** is making it in the catalog. -/
theorem makeDirectory_changes (h : S.disk.Mirrors m) (hm : m.IsTree) (hp : p.absolute = true)
    (hplain : p.WellFormed) (hfits : p.Fits) :
    S.Changes (S.makeDirectory p) (m.makeDirectory p.grounded) := by
  rw [makeDirectory, Disk.make, Catalog.makeDirectory, Catalog.change]
  rcases hslot : m.slot? p.grounded with - | q
  · rcases reach_of_slot?_eq_none h hm hp hplain hfits hslot with
      ⟨place, hfound⟩ | ⟨fault, hpath, hfault⟩
    · simp only [hfound]
      exact ⟨_, rfl⟩
    · simp only [hfault]
      obtain ⟨cause, hcause⟩ := exists_asked (α := Disk) p.toOsText hpath
      exact ⟨cause, by rw [hcause]; rfl⟩
  · obtain ⟨directory, name, rfl, hreach⟩ :=
      Disk.reach_of_slot? S.cwd h hm hp hplain hfits hslot
    have hne : directory ++ [name] ≠ [] := by simp
    simp only [hreach]
    rcases hentry : m (Place.path (directory ++ [name])) with - | - | data
    · exact ⟨_, rfl, h.put hne .directory⟩
    · exact ⟨_, rfl⟩
    · exact ⟨_, rfl⟩

/-! ### Writing a file -/

/-- A file that stands somewhere is given a new content. -/
theorem save_self (h : S.disk.Mirrors m) (hm : m.IsTree) {place : Place} {data : Bytes}
    (hentry : m (Place.path place) = some (.file data)) (hfits : (Place.path place).Fits)
    (bytes : Bytes) : ∃ d, S.disk.save S.cwd place.text bytes = .ok d ∧
      d.Mirrors (Function.update m (Place.path place) (some (.file bytes))) := by
  have hexists : m (Place.path place) ≠ none := hentry ▸ Option.some_ne_none _
  have hne : place ≠ [] := by
    rintro rfl
    cases hm.root.symm.trans hentry
  have hslot : m.slot? (Path.grounded (Place.path place)) = some (Place.path place) := by
    rw [hm.grounded_eq hexists]
    exact hm.slot?_self hexists hne
  obtain ⟨directory, name, hplace, hreach⟩ :=
    Disk.reach_of_slot? S.cwd h hm rfl (hm.wellFormed hexists) hfits hslot
  obtain rfl : place = directory ++ [name] := (Path.mk.inj hplace).2
  refine ⟨_, ?_, h.put hne (.file bytes)⟩
  rw [Disk.save, Place.text, hreach, hentry]
  rfl

/-- Once a file was made, it is opened, written and closed without fail. -/
theorem save_of_create {created : DiskStore} (hcreate : FileStore.create p S = .ok created)
    (h : created.disk.Mirrors m) (hm : m.IsTree) (hfresh : created.handles.Fresh)
    (hp : p.absolute = true) (hplain : p.WellFormed) (hfits : p.Fits) {data : Bytes}
    (hdenoted : m.denoted? p = some q) (hentry : m q = some (.file data)) (bytes : Bytes) :
    ∃ d, FileStore.save p bytes S = (.ok (), { created.skip 1 with disk := d }) ∧
      d.Mirrors (Function.update m q (some (.file bytes))) := by
  have hexists : m q ≠ none := hentry ▸ Option.some_ne_none _
  obtain ⟨place, rfl⟩ : ∃ place, Place.path place = q := ⟨_, hm.path_segments hexists⟩
  have hplace : created.place p = .ok place := by
    have hmeets := place_meets h hm hp hplain (Disk.takes_of_fits h hm hp hplain hfits)
    rwa [hdenoted] at hmeets
  have hfile : created.disk.isFile place = true := by
    rw [h.isFile_eq]
    exact Catalog.hasFile_iff.2 ⟨data, hentry⟩
  let file : OpenFile Place := ⟨place, place.path⟩
  let handle : Handle := (created.handles.insert file).1
  let opened : DiskStore := { created with handles := (created.handles.insert file).2 }
  have hopen : FileStore.openFile p created = .ok (handle, opened) :=
    openFile_eq_ok.2 ⟨place, hplace, hfile, rfl, rfl⟩
  obtain ⟨d, hsave, hmirrors⟩ := save_self h hm hentry (fits_of_place h hp hplain hplace) bytes
  have hwrite : FileStore.write handle bytes opened = .ok { opened with disk := d } := by
    refine bind_eq_ok.2 ⟨file, hfresh.get_insert file, ?_⟩
    show (served (created.disk.save created.cwd place.text bytes) >>= fun d ↦
      Except.ok { opened with disk := d }) = _
    rw [hsave]
    rfl
  have hclose : FileStore.close handle { opened with disk := d } =
      .ok { created.skip 1 with disk := d } :=
    bind_eq_ok.2 ⟨_, hfresh.close_insert file, rfl⟩
  refine ⟨d, ?_, hmirrors⟩
  rw [FileStore.save, hcreate]
  simp only [hopen, FileStore.change, hwrite, hclose]

/-! ### The two stores together -/

/-- A store on a disk and one in memory show the same files. -/
structure Shows (S : DiskStore) (s : MemoryStore) : Prop where
  /-- The disk has what the store in memory has. -/
  disk : S.disk.Mirrors s.catalog
  /-- The store in memory is a tree. -/
  tree : s.Tree
  /-- The store in memory is sound. -/
  sound : s.Sound
  /-- The store on the disk gives out new handles. -/
  fresh : S.handles.Fresh

/-- What two stores come to is alike, and they show the same files. -/
def Agree {α : Type} (after : Except Error α × DiskStore) (after' : Except Error α × MemoryStore) :
    Prop :=
  Alike Error.Alike after.1 after'.1 ∧ after.2.Shows after'.2

/-- A disk with nothing on it. -/
def blank : DiskStore :=
  ⟨{}, [], {}⟩

/-- A disk with nothing on it shows what an empty store in memory has. -/
theorem shows_blank : blank.Shows .empty where
  disk place := by
    rw [MemoryStore.Tree.catalog_empty]
    by_cases hroot : place = []
    · rw [hroot]
      rfl
    · have hne : place.path ≠ Path.root := fun h ↦ hroot (congrArg Path.segments h)
      rw [Function.update_of_ne hne, Disk.entry?, if_neg hroot]
      rfl
  tree := MemoryStore.Tree.tree_empty
  sound := MemoryStore.sound_empty
  fresh := nofun

/-- Two stores agree after a change that is the same in the catalog. -/
theorem Shows.change (h : S.Shows s) {m? : Option Catalog}
    {operation : DiskStore → Except Error DiskStore}
    {operation' : MemoryStore → Except Error MemoryStore}
    (hdisk : S.Changes (operation S) m?)
    (hmemory : MemoryStore.Carries s.catalog m? (FileStore.change operation' s))
    (htree : ∀ {s'}, operation' s = .ok s' → s'.Tree)
    (hsound : ∀ {s'}, operation' s = .ok s' → s'.Sound) :
    Agree (FileStore.change operation S) (FileStore.change operation' s) := by
  obtain ⟨hmeets, hcatalog⟩ := hmemory
  replace htree := FileStore.snd_change htree h.tree
  replace hsound := FileStore.snd_change hsound h.sound
  rcases m? with - | m'
  · obtain ⟨cause, hcause⟩ := hdisk
    have hanswer : Meets (.error (.invalidPath cause)) (none : Option Unit) := ⟨cause, rfl⟩
    rw [FileStore.change, hcause]
    refine ⟨hanswer.alike hmeets, ⟨?_, htree, hsound, h.fresh⟩⟩
    rw [hcatalog]
    exact h.disk
  · obtain ⟨d, hd, hmirrors⟩ := hdisk
    have hanswer : Meets (.ok ()) (some ()) := rfl
    rw [FileStore.change, hd]
    refine ⟨hanswer.alike hmeets, ⟨?_, htree, hsound, h.fresh⟩⟩
    rw [hcatalog]
    exact hmirrors

section

variable (h : S.Shows s) (hp : p.absolute = true) (hplain : p.WellFormed) (hfits : p.Fits)

include h hp hplain hfits

/-- Making a file on the disk is making it in memory, without the steps up from the root. -/
theorem agree_create : Agree (FileStore.change (FileStore.create p) S)
    (FileStore.change (FileStore.create p.grounded) s) :=
  h.change (create_changes h.disk h.tree.isTree_catalog hp hplain hfits)
    (h.tree.carries_create hplain.grounded)
    (MemoryStore.keeps_tree.create hplain.grounded h.tree)
    (MemoryStore.keeps_sound.create trivial h.sound)

/-- Removing a file on the disk is removing it in memory, without the steps up from the root. -/
theorem agree_remove : Agree (FileStore.change (FileStore.remove p) S)
    (FileStore.change (FileStore.remove p.grounded) s) :=
  h.change (remove_changes h.disk h.tree.isTree_catalog hp hplain hfits) h.tree.carries_remove
    (MemoryStore.keeps_tree.remove hplain.grounded h.tree)
    (MemoryStore.keeps_sound.remove trivial h.sound)

/-- Making a directory on the disk is making it in memory, without the steps up from the root. -/
theorem agree_makeDirectory : Agree (FileStore.change (FileStore.makeDirectory p) S)
    (FileStore.change (FileStore.makeDirectory p.grounded) s) :=
  h.change (makeDirectory_changes h.disk h.tree.isTree_catalog hp hplain hfits)
    (h.tree.carries_makeDirectory hplain.grounded)
    (MemoryStore.keeps_tree.makeDirectory hplain.grounded h.tree)
    (MemoryStore.keeps_sound.makeDirectory trivial h.sound)

/-- Writing a file on the disk is writing it in memory, if the path has no steps up from the root.
-/
theorem agree_save (hground : p.grounded = p) (bytes : Bytes) :
    Agree (FileStore.save p bytes S) (FileStore.save p bytes s) := by
  have htree : (FileStore.save p bytes s).2.Tree := MemoryStore.keeps_tree.save hplain h.tree bytes
  have hsound : (FileStore.save p bytes s).2.Sound :=
    MemoryStore.keeps_sound.save trivial h.sound bytes
  obtain ⟨hmeets, hcatalog⟩ := h.tree.carries_save h.sound hplain bytes
  have hdisk := create_changes h.disk h.tree.isTree_catalog hp hplain hfits
  have hmemory := h.tree.carries_create hplain
  rw [hground] at hdisk
  -- both write by making the file first, and whether it can be made is decided by the catalog
  rcases hput : s.catalog.put p [] with - | m
  · rw [hput] at hdisk
    obtain ⟨cause, hcause⟩ := hdisk
    have hcreate : FileStore.create p S = .error (.invalidPath cause) := hcause
    have hsave : FileStore.save p bytes S = (.error (.invalidPath cause), S) := by
      rw [FileStore.save, hcreate]
    rw [Catalog.put_eq_none hput bytes] at hmeets hcatalog
    rw [hsave]
    have hanswer : Meets (.error (.invalidPath cause)) (none : Option Unit) := ⟨cause, rfl⟩
    refine ⟨hanswer.alike hmeets, ⟨?_, htree, hsound, h.fresh⟩⟩
    rw [hcatalog]
    exact h.disk
  · rw [hput] at hdisk hmemory
    obtain ⟨d, hd, hmirrors⟩ := hdisk
    rcases hcreate : MemoryStore.create p s with e | created
    · cases (hmemory.eq_error hcreate).1
    · -- the catalog after the file was made is that of the store in memory
      obtain rfl : m = created.catalog := Option.some.inj (hmemory.eq_ok hcreate)
      have hm' : created.catalog.IsTree :=
        (MemoryStore.keeps_tree.create hplain h.tree hcreate).isTree_catalog
      obtain ⟨q, hslot, hdirectory, hq⟩ := Catalog.put_eq_some.1 hput
      have hentry : created.catalog q = some (.file []) := by rw [← hq, Function.update_self]
      have hdenoted : created.catalog.denoted? p = some q :=
        (Catalog.Persists.put hput).denoted?_of_slot? hslot (hentry ▸ Option.some_ne_none _)
      have hmade : FileStore.create p S = .ok { S with disk := d } := hd
      obtain ⟨d', hsave, hmirrors'⟩ := save_of_create hmade hmirrors hm' h.fresh hp hplain hfits
        hdenoted hentry bytes
      rw [Catalog.put_eq_some.2 ⟨q, hslot, hdirectory, rfl⟩] at hmeets hcatalog
      rw [← hq, Function.update_idem] at hmirrors'
      have hanswer : Meets (.ok ()) (some ()) := rfl
      rw [hsave]
      refine ⟨hanswer.alike hmeets, ⟨?_, htree, hsound, S.fresh_skip h.fresh 1⟩⟩
      rw [hcatalog]
      exact hmirrors'

end

/-- Reading a file on the disk is reading it in memory. -/
theorem agree_load (h : S.Shows s) (hp : p.absolute = true) (hplain : p.WellFormed)
    (htakes : S.disk.Takes p) : Agree (FileStore.load p S) (FileStore.load p s) := by
  obtain ⟨n, hload⟩ := load_eq h.fresh p
  have hcontent := content_meets h.disk h.tree.isTree_catalog hp hplain htakes
  rw [hload]
  refine ⟨hcontent.alike (h.tree.meets_load h.sound), ⟨?_, ?_, ?_, S.fresh_skip h.fresh n⟩⟩
  · rw [(h.sound.sameTree_load p).catalog]
    exact h.disk
  · exact MemoryStore.keeps_tree.load h.tree p
  · exact MemoryStore.keeps_sound.load h.sound p

/-- Below what is denoted, making a directory on the disk is making it in memory, whatever the last
segment is. -/
theorem agree_makeDirectory_below (h : S.Shows s) {above : List String} {segment : String}
    (habove : s.catalog.denoted? ⟨true, above⟩ ≠ none)
    (hplain : Path.WellFormed ⟨true, above ++ [segment]⟩)
    (hfits : Path.Fits ⟨true, above ++ [segment]⟩) :
    Agree (FileStore.change (FileStore.makeDirectory ⟨true, above ++ [segment]⟩) S)
      (FileStore.change (FileStore.makeDirectory ⟨true, above ++ [segment]⟩) s) := by
  have hdisk := makeDirectory_changes h.disk h.tree.isTree_catalog rfl hplain hfits
  rw [Catalog.makeDirectory, Catalog.change, Catalog.slot?_grounded habove] at hdisk
  exact h.change hdisk (h.tree.carries_makeDirectory hplain)
    (MemoryStore.keeps_tree.makeDirectory hplain h.tree)
    (MemoryStore.keeps_sound.makeDirectory trivial h.sound)

/-- Making directories along segments, from what is denoted on. -/
theorem agree_descend (h : S.Shows s) {above : List String}
    (habove : s.catalog.denoted? ⟨true, above⟩ ≠ none)
    (hplain : Path.WellFormed ⟨true, above ++ segments⟩)
    (hfits : Path.Fits ⟨true, above ++ segments⟩) :
    Agree (FileStore.descend ⟨true, above⟩ segments S)
      (FileStore.descend ⟨true, above⟩ segments s) := by
  induction segments generalizing above S s with
  | nil => exact ⟨.ok (), h⟩
  | cons segment rest ih =>
    have hm := h.tree.isTree_catalog
    let next : Path := ⟨true, above ++ [segment]⟩
    have hchild : Path.child ⟨true, above⟩ segment = next := by
      rw [Path.child, (hplain segment (by simp)).split_eq]
    have hsublist : (above ++ [segment]).Sublist (above ++ segment :: rest) :=
      (List.singleton_sublist.2 List.mem_cons_self).append_left above
    have hnext : next.WellFormed := fun name hname ↦ hplain name (hsublist.subset hname)
    have hnext' : next.Fits := hfits.of_sublist rfl rfl hsublist
    rw [show above ++ segment :: rest = above ++ [segment] ++ rest by simp] at hplain hfits
    have hdisk : Meets (FileStore.resolve Path.root next S) (s.catalog.denoted? next) :=
      resolve_meets h.disk hm rfl hnext (Disk.takes_of_fits h.disk hm rfl hnext hnext')
    have hmemory : Meets (FileStore.resolve Path.root next s) (s.catalog.denoted? next) :=
      h.tree.meets_resolve Path.root next
    -- what is not there is made, on the disk if and only if in memory
    rw [FileStore.descend, FileStore.descend, hchild]
    rcases hdenoted : s.catalog.denoted? next with - | q
    · rw [hdenoted] at hdisk hmemory
      obtain ⟨cause, hcause⟩ := hdisk
      obtain ⟨cause', hcause'⟩ := hmemory
      have hagree := agree_makeDirectory_below h habove hnext hnext'
      simp only [hcause, hcause']
      rcases hmake : FileStore.makeDirectory next S with e | made <;>
        rcases hmake' : FileStore.makeDirectory next s with e' | made' <;>
        rw [FileStore.change, FileStore.change, hmake, hmake'] at hagree
      · exact hagree
      · cases hagree.1
      · cases hagree.1
      · -- the directory that was made is what the path denotes now
        have hcatalog := (h.tree.carries_makeDirectory hnext).eq_ok hmake'
        obtain ⟨p, hslot, -, hp⟩ := Catalog.makeDirectory_eq_some.1 hcatalog
        have hentry : made'.catalog p ≠ none := by
          rw [← hp, Function.update_self]
          exact Option.some_ne_none _
        have hpersists := (Catalog.Grows.makeDirectory hcatalog).persists
        have hfound := hpersists.denoted?_of_slot? hslot hentry
        exact ih hagree.2 (hfound ▸ Option.some_ne_none p) hplain hfits
    · rw [hdenoted] at hdisk hmemory
      have hresolve : FileStore.resolve Path.root next S = .ok q := hdisk
      have hresolve' : FileStore.resolve Path.root next s = .ok q := hmemory
      simp only [hresolve, hresolve']
      exact ih h (hdenoted ▸ Option.some_ne_none q) hplain hfits

/-- **Making a directory and all above it** on the disk is making them in memory. -/
theorem agree_makeDirectories (h : S.Shows s) (hp : p.absolute = true) (hplain : p.WellFormed)
    (hfits : p.Fits) : Agree (FileStore.makeDirectories p S) (FileStore.makeDirectories p s) := by
  obtain ⟨absolute, segments⟩ := p
  obtain rfl : absolute = true := hp
  exact agree_descend h (Option.some_ne_none Path.root) hplain hfits

end ModuleBundler.DiskStore
