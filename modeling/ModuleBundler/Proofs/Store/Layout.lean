import ModuleBundler.Proofs.Resolution.Probing
import ModuleBundler.Proofs.Store.Directories

/-!
# Laying out files

A store in memory is filled file by file, and each file brings the directories along that its path
goes through. With steps up in it, a path also goes through directories that are not above the file.
What a file asks of a store can be read from its path alone, `Path.site?`: these directories, and
the place where the file is going to stand.

To put a file is then one change of the catalog (`MemoryStore.Tree.put_achieves`), and to fill a
store is one such change after the other. Whether all of them succeed, and to what they lead, can be
said without an order:

* they succeed if all files have a site and none of them is to stand where another one, or it
  itself, asks for a directory (`FitTogether`), and only then (`Catalog.exists_foldlM_install_iff`);
* the directories are those that were asked for, and the files stand at their places
  (`Catalog.Layout`).

If no two files have the same place, nothing is left open by this, and the catalog is the same in
whatever order the files come (`Catalog.Layout.eq_of_perm`).
-/

namespace ModuleBundler

/-! ### What a file asks for -/

/-- What a file asks of a store. -/
structure Site where
  /-- The directories that its path goes through. -/
  directories : List Path
  /-- Where the file is going to stand. -/
  place : Path
  deriving DecidableEq, Repr

namespace Path

variable {d p q last path : Path} {way : List Path} {segment name : String}
  {front rest above segments : List String} {site : Site}

/-- The canonical paths that one comes by when segments are followed from `d`, whatever exists, and
the one that they lead to. -/
def trail (d : Path) : List String → Option (List Path × Path)
  | [] => some ([], d)
  | segment :: rest =>
    (d.next? segment).bind fun next ↦
      (trail next rest).map fun found ↦ (d :: found.1, found.2)

/-- What a file at a path asks for. Only an absolute path that ends in a name can be that of a
file. -/
def site? (path : Path) : Option Site :=
  match path.absolute, path.segments.getLast?, trail root path.segments.dropLast with
  | true, some name, some (way, above) =>
    if name = parentName then none else some ⟨above :: way, above.below name⟩
  | _, _, _ => none

/-- A file at the first path asks for a directory at the second. -/
def Crosses (path p : Path) : Prop :=
  ∃ site ∈ path.site?, p ∈ site.directories

/-- A file at the first path is going to stand at the second. -/
def LiesAt (path p : Path) : Prop :=
  ∃ site ∈ path.site?, site.place = p

/-- The two paths do not read as the same. -/
def Apart (p q : Path) : Prop :=
  ∀ r, p.normalize = .ok r → q.normalize ≠ .ok r

theorem Apart.symm (h : p.Apart q) : q.Apart p :=
  fun r hq hp ↦ h r hp hq

theorem crosses_iff (h : path.site? = some site) : path.Crosses p ↔ p ∈ site.directories := by
  simp [Crosses, h]

theorem liesAt_iff (h : path.site? = some site) : path.LiesAt p ↔ site.place = p := by
  simp [LiesAt, h]

theorem start_mem_of_trail (h : d.trail segments = some (way, last)) : d ∈ last :: way := by
  rcases segments with - | ⟨segment, rest⟩
  · obtain ⟨rfl, rfl⟩ := Prod.mk.inj (Option.some.inj h)
    exact List.mem_singleton_self d
  · obtain ⟨next, -, hrest⟩ := Option.bind_eq_some_iff.1 h
    obtain ⟨found, -, hfound⟩ := Option.map_eq_some_iff.1 hrest
    obtain ⟨rfl, -⟩ := Prod.mk.inj hfound
    exact List.mem_cons_of_mem _ List.mem_cons_self

/-- Where segments lead is what a path means with them at its end. -/
theorem normalize_of_trail (h : d.trail rest = some (way, last))
    (hd : normalize ⟨true, front⟩ = .ok d) : normalize ⟨true, front ++ rest⟩ = .ok last := by
  induction rest generalizing d front way with
  | nil =>
    obtain ⟨-, rfl⟩ := Prod.mk.inj (Option.some.inj h)
    rwa [List.append_nil]
  | cons segment rest ih =>
    obtain ⟨next, hnext, hrest⟩ := Option.bind_eq_some_iff.1 h
    obtain ⟨found, hfound, heq⟩ := Option.map_eq_some_iff.1 hrest
    obtain ⟨-, rfl⟩ := Prod.mk.inj heq
    rw [List.append_cons]
    exact ih hfound (normalize_concat.2 ⟨d, hd, hnext⟩)

theorem site?_concat (hname : name ≠ parentName) (h : root.trail above = some (way, d)) :
    site? ⟨true, above ++ [name]⟩ = some ⟨d :: way, d.below name⟩ := by
  simp [site?, h, hname]

theorem exists_of_site? (h : path.site? = some site) :
    ∃ above name way d, path = ⟨true, above ++ [name]⟩ ∧ name ≠ parentName ∧
      root.trail above = some (way, d) ∧ site = ⟨d :: way, d.below name⟩ := by
  obtain ⟨absolute, segments⟩ := path
  rcases segments.eq_nil_or_concat' with rfl | ⟨above, name, rfl⟩
  · simp [site?] at h
  · rcases htrail : root.trail above with - | ⟨way, d⟩
    · simp [site?, htrail] at h
    · cases absolute
      · simp [site?] at h
      · by_cases hname : name = parentName
        · simp [site?, htrail, hname] at h
        · rw [site?_concat hname htrail] at h
          exact ⟨above, name, way, d, rfl, hname, htrail, (Option.some.inj h).symm⟩

/-- **A file is going to stand where its path reads.** -/
theorem LiesAt.normalize (h : path.LiesAt p) : path.normalize = .ok p := by
  obtain ⟨site, hsite, rfl⟩ := h
  obtain ⟨above, name, way, d, rfl, hname, htrail, rfl⟩ := exists_of_site? hsite
  have hd : Path.normalize ⟨true, [] ++ above⟩ = .ok d := normalize_of_trail htrail rfl
  exact normalize_concat.2 ⟨d, hd, next?_of_ne hname⟩

/-- A file has a name, and so it does not stand at the root. -/
theorem LiesAt.ne_root (h : path.LiesAt p) : p ≠ root := by
  obtain ⟨site, hsite, rfl⟩ := h
  obtain ⟨above, name, way, d, -, -, -, rfl⟩ := exists_of_site? hsite
  intro hroot
  have hnil : d.segments ++ [name] = [] := congrArg segments hroot
  simp at hnil

end Path

/-! ### Files and directories in catalogs -/

namespace Catalog

variable {m m' : Catalog} {d p q path : Path} {paths way : List Path} {segment name : String}
  {above rest : List String} {bytes : Bytes} {site : Site}

/-- The catalog with directories where nothing is, at each of the paths. -/
def furnish (m : Catalog) (paths : List Path) : Catalog :=
  fun p ↦ if p ∈ paths ∧ m p = none then some .directory else m p

/-- The catalog with the directories that segments go through from the directory at `d`, if they
can be there. -/
def along? (m : Catalog) (d : Path) (segments : List String) : Option Catalog :=
  (d.trail segments).bind fun found ↦
    if ∀ p ∈ found.1, m.hasFile p = false then some (m.furnish (found.2 :: found.1)) else none

/-- The catalog with a file and all that the file asks for, if that can be there. -/
def install (m : Catalog) (path : Path) (bytes : Bytes) : Option Catalog :=
  path.site?.bind fun site ↦
    if (∀ p ∈ site.directories, m.hasFile p = false) ∧ m site.place ≠ some .directory ∧
        site.place ∉ site.directories then
      some (Function.update (m.furnish site.directories) site.place (some (.file bytes)))
    else none

theorem furnish_of_ne_none (h : m p ≠ none) : m.furnish paths p = m p :=
  if_neg fun hp ↦ h hp.2

theorem furnish_ne_none (h : p ∈ paths) : m.furnish paths p ≠ none := by
  rw [furnish]
  split <;> simp_all

theorem furnish_eq_self (h : ∀ p ∈ paths, m p ≠ none) : m.furnish paths = m :=
  funext fun p ↦ if_neg fun hp ↦ h p hp.1 hp.2

theorem furnish_eq_directory : m.furnish paths p = some .directory ↔
    m p = some .directory ∨ p ∈ paths ∧ m p = none := by
  rw [furnish]
  split <;> simp_all

theorem furnish_eq_file {data : Bytes} :
    m.furnish paths p = some (.file data) ↔ m p = some (.file data) := by
  rw [furnish]
  split <;> simp_all

theorem hasFile_furnish : (m.furnish paths).hasFile p = m.hasFile p := by
  rw [Bool.eq_iff_iff]
  simp only [hasFile_iff, furnish_eq_file]

theorem furnish_singleton (h : m p = none) :
    m.furnish [p] = Function.update m p (some .directory) := by
  funext q
  rcases eq_or_ne q p with rfl | hne
  · simp [furnish, h]
  · simp [furnish, hne]

theorem furnish_furnish : (m.furnish paths).furnish way = m.furnish (paths ++ way) := by
  funext p
  by_cases hpaths : p ∈ paths <;> by_cases hway : p ∈ way <;> by_cases hp : m p = none <;>
    simp [furnish, *]

/-- It only matters which paths are listed at which there is nothing. -/
theorem furnish_congr (h : ∀ p, m p = none → (p ∈ paths ↔ p ∈ way)) :
    m.furnish paths = m.furnish way := by
  funext p
  by_cases hp : m p = none
  · simp only [furnish, h p hp]
  · rw [furnish_of_ne_none hp, furnish_of_ne_none hp]

/-- What stands somewhere is a directory if it is no file. -/
theorem eq_directory_iff (hexists : m p ≠ none) :
    m p = some .directory ↔ m.hasFile p = false := by
  rw [hasFile]
  rcases hentry : m p with - | - | data
  · exact absurd hentry hexists
  · exact iff_of_true rfl rfl
  · exact iff_of_false (by simp) (by simp [Entry.isFile])

/-- To go along segments is to take the first step and go on from there. -/
theorem along?_cons (hd : m d ≠ none) : m.along? d (segment :: rest) =
    if m d = some .directory then
      (d.next? segment).bind fun next ↦ (m.furnish [next]).along? next rest
    else none := by
  have hdirectory : m d = some .directory ↔ m.hasFile d = false := eq_directory_iff hd
  rw [along?, Path.trail]
  rcases hnext : d.next? segment with - | next
  · simp
  · rcases htrail : next.trail rest with - | ⟨way, last⟩
    · simp [along?, htrail]
    · have hsame : m.furnish (last :: d :: way) = (m.furnish [next]).furnish (last :: way) := by
        have hmem : next ∈ last :: way := Path.start_mem_of_trail htrail
        rw [furnish_furnish]
        refine furnish_congr fun p hp ↦ ?_
        have hne : p ≠ d := fun heq ↦ hd (heq ▸ hp)
        simp only [List.singleton_append, List.mem_cons, hne, false_or]
        exact ⟨Or.inr, fun h ↦ h.elim (fun heq ↦ heq ▸ List.mem_cons.1 hmem) id⟩
      simp only [along?, htrail, hasFile_furnish, hsame, Option.map_some, Option.bind_some,
        List.forall_mem_cons, ← hdirectory, ite_and]

/-- A segment more is a step more. -/
theorem denoted?_child (hd : m.denoted? path = some d) (hplain : Path.Plain segment) :
    m.denoted? (path.child segment) = m.step d segment := by
  have hfold : path.segments.foldlM m.step Path.root = some d := hd
  rw [Path.child, hplain.split_eq, denoted?, List.foldlM_append, hfold]
  simp

/-- Below a directory, what a segment does not find it can be made, if it leads anywhere. -/
theorem makeDirectory_child (hd : m.denoted? path = some d) (hplain : Path.Plain segment)
    (hfree : m.step d segment = none) : m.makeDirectory (path.child segment) =
      if m d = some .directory then
        (d.next? segment).map fun next ↦ m.furnish [next]
      else none := by
  by_cases hdirectory : m d = some .directory
  · rw [if_pos hdirectory]
    by_cases hname : segment = Path.parentName
    · have hnext : d.next? segment = none := by
        refine Option.eq_none_iff_forall_ne_some.2 fun q hq ↦ ?_
        rw [step_eq_some.2 ⟨hdirectory, hq, Or.inl hname⟩] at hfree
        cases hfree
      have hslot : m.slot? (path.child segment) = none := by
        have hd' : m.denoted? ⟨path.absolute, path.segments⟩ = some d := hd
        rw [slot?, Path.child, hplain.split_eq]
        simp [hd', hname]
      rw [hnext, makeDirectory, change, hslot, Option.map_none]
    · have hnext : d.next? segment = some (d.below segment) := Path.next?_of_ne hname
      have hnone : m (d.below segment) = none := by
        by_contra hsome
        rw [step_eq_some.2 ⟨hdirectory, hnext, Or.inr hsome⟩] at hfree
        cases hfree
      rw [hnext, Option.map_some, furnish_singleton hnone]
      exact makeDirectory_eq_some.2 ⟨_, slot?_child hd hdirectory hplain hname, hnone, rfl⟩
  · rw [if_neg hdirectory, makeDirectory, change, slot?_child_eq_none hd hdirectory hplain]

/-- A file is put into a directory, in the place of another file or of nothing. -/
theorem put_concat_eq_some (hd : m.denoted? ⟨true, above⟩ = some d) :
    m.put ⟨true, above ++ [name]⟩ bytes = some m' ↔
      name ≠ Path.parentName ∧ m d = some .directory ∧ m (d.below name) ≠ some .directory ∧
        Function.update m (d.below name) (some (.file bytes)) = m' := by
  rw [put_eq_some]
  constructor
  · rintro ⟨p, hslot, hfree, hm'⟩
    obtain ⟨above', name', q, hsegments, hname, hq, hdirectory, rfl⟩ := slot?_eq_some.1 hslot
    obtain ⟨rfl, hlast⟩ := List.append_inj' hsegments rfl
    obtain rfl := List.singleton_inj.1 hlast
    obtain rfl : d = q := Option.some.inj (hd.symm.trans hq)
    exact ⟨hname, hdirectory, hfree, hm'⟩
  · rintro ⟨hname, hdirectory, hfree, hm'⟩
    exact ⟨d.below name, slot?_eq_some.2 ⟨above, name, d, rfl, hname, hd, hdirectory, rfl⟩, hfree,
      hm'⟩

theorem install_eq_some : m.install path bytes = some m' ↔
    ∃ site, path.site? = some site ∧ (∀ p ∈ site.directories, m.hasFile p = false) ∧
      m site.place ≠ some .directory ∧ site.place ∉ site.directories ∧
        Function.update (m.furnish site.directories) site.place (some (.file bytes)) = m' := by
  rw [install, Option.bind_eq_some_iff]
  refine exists_congr fun site ↦ and_congr_right fun _ ↦ ?_
  split <;> simp_all

theorem along?_eq_some : m.along? d rest = some m' ↔
    ∃ way last, d.trail rest = some (way, last) ∧ (∀ p ∈ way, m.hasFile p = false) ∧
      m.furnish (last :: way) = m' := by
  rw [along?, Option.bind_eq_some_iff]
  constructor
  · rintro ⟨⟨way, last⟩, htrail, h⟩
    split at h
    · exact ⟨way, last, htrail, ‹_›, Option.some.inj h⟩
    · cases h
  · rintro ⟨way, last, htrail, hway, rfl⟩
    exact ⟨(way, last), htrail, if_pos hway⟩

/-- Where the way is not open, no file can be. -/
theorem install_eq_none (h : m.along? Path.root above = none) :
    m.install ⟨true, above ++ [name]⟩ bytes = none := by
  refine Option.eq_none_iff_forall_ne_some.2 fun m' hm' ↦ ?_
  obtain ⟨site, hsite, hfiles, -⟩ := install_eq_some.1 hm'
  obtain ⟨above', name', way, d, hpath, -, htrail, rfl⟩ := Path.exists_of_site? hsite
  obtain ⟨rfl, -⟩ := List.append_inj' (congrArg Path.segments hpath) rfl
  rw [along?_eq_some.2 ⟨way, d, htrail, fun p hp ↦ hfiles p (List.mem_cons_of_mem _ hp), rfl⟩] at h
  cases h

/-- Once the directories on the way are there, to install a file is to put it. -/
theorem install_eq_put (htrail : Path.root.trail above = some (way, d))
    (hway : ∀ p ∈ way, m.hasFile p = false)
    (hdenoted : (m.furnish (d :: way)).denoted? ⟨true, above⟩ = some d)
    (hexists : m.furnish (d :: way) d ≠ none) :
    m.install ⟨true, above ++ [name]⟩ bytes =
      (m.furnish (d :: way)).put ⟨true, above ++ [name]⟩ bytes := by
  refine Option.ext fun m' ↦ ?_
  have hdirectory : m.furnish (d :: way) d = some .directory ↔ m.hasFile d = false := by
    rw [eq_directory_iff hexists, hasFile_furnish]
  rw [put_concat_eq_some hdenoted, install_eq_some, hdirectory]
  constructor
  · rintro ⟨site, hsite, hfiles, hfree, hplace, hm'⟩
    obtain ⟨above', name', way', d', hpath, hname, htrail', rfl⟩ := Path.exists_of_site? hsite
    obtain ⟨rfl, hlast⟩ := List.append_inj' (congrArg Path.segments hpath) rfl
    obtain rfl := List.singleton_inj.1 hlast
    obtain ⟨rfl, rfl⟩ := Prod.mk.inj (Option.some.inj (htrail.symm.trans htrail'))
    refine ⟨hname, hfiles d List.mem_cons_self, ?_, hm'⟩
    rw [ne_eq, furnish_eq_directory]
    exact fun h ↦ h.elim hfree fun hmem ↦ hplace hmem.1
  · rintro ⟨hname, hfile, hfree, hm'⟩
    rw [ne_eq, furnish_eq_directory, not_or] at hfree
    have hfiles : ∀ p ∈ d :: way, m.hasFile p = false := List.forall_mem_cons.2 ⟨hfile, hway⟩
    refine ⟨_, Path.site?_concat hname htrail, hfiles, hfree.1, fun hmem ↦ hfree.2 ⟨hmem, ?_⟩, hm'⟩
    by_contra hsome
    exact hfree.1 ((eq_directory_iff hsome).2 (hfiles _ hmem))

end Catalog

/-! ### Files side by side -/

/-- The files at these paths can stand side by side: each of them has a site, and no place is asked
for as a directory. -/
structure FitTogether (paths : List Path) : Prop where
  /-- Each of them asks for something that a file can ask for. -/
  exists_site : ∀ path ∈ paths, ∃ site, path.site? = some site
  /-- Where one of them is going to stand, none asks for a directory. -/
  free : ∀ path ∈ paths, ∀ other ∈ paths, ∀ p, path.LiesAt p → ¬ other.Crosses p

/-- There is nothing in this about an order. -/
theorem FitTogether.of_perm {paths paths' : List Path} (h : FitTogether paths)
    (hperm : paths.Perm paths') : FitTogether paths' where
  exists_site path hpath := h.exists_site path (hperm.mem_iff.2 hpath)
  free path hpath other hother :=
    h.free path (hperm.mem_iff.2 hpath) other (hperm.mem_iff.2 hother)

/-- One more file fits if it stands in no one's way, its own included, and none stands in its. -/
theorem fitTogether_concat {paths : List Path} {path : Path} : FitTogether (paths ++ [path]) ↔
    FitTogether paths ∧ (∃ site, path.site? = some site) ∧
      (∀ other ∈ paths, ∀ p, other.LiesAt p → ¬ path.Crosses p) ∧
      (∀ other ∈ paths, ∀ p, path.LiesAt p → ¬ other.Crosses p) ∧
      ∀ p, path.LiesAt p → ¬ path.Crosses p := by
  have hlast : path ∈ paths ++ [path] := List.mem_concat_self
  have hfront : ∀ {other}, other ∈ paths → other ∈ paths ++ [path] := List.mem_append_left _
  constructor
  · intro h
    exact ⟨⟨fun other hother ↦ h.exists_site other (hfront hother),
      fun other hother other' hother' ↦ h.free other (hfront hother) other' (hfront hother')⟩,
      h.exists_site path hlast, fun other hother ↦ h.free other (hfront hother) path hlast,
      fun other hother ↦ h.free path hlast other (hfront hother), h.free path hlast path hlast⟩
  · rintro ⟨hfit, hsite, hbefore, hafter, hself⟩
    refine ⟨fun other hother ↦ ?_, fun one hone other hother ↦ ?_⟩
    · rcases List.mem_append.1 hother with hother | hother
      · exact hfit.exists_site other hother
      · exact List.mem_singleton.1 hother ▸ hsite
    · rcases List.mem_append.1 hone with hone | hone <;>
        rcases List.mem_append.1 hother with hother | hother
      · exact hfit.free one hone other hother
      · exact List.mem_singleton.1 hother ▸ hbefore one hone
      · exact List.mem_singleton.1 hone ▸ hafter other hother
      · rw [List.mem_singleton.1 hone, List.mem_singleton.1 hother]
        exact hself

namespace Catalog

variable {m m' base : Catalog} {p path : Path} {bytes : Bytes} {files files' : List (Path × Bytes)}

/-- A catalog consists of the files of a list and of the directories that they ask for. -/
structure Layout (m : Catalog) (files : List (Path × Bytes)) : Prop where
  /-- The directories are the root and what the files ask for. -/
  directory_iff : ∀ {p}, m p = some .directory ↔ p = Path.root ∨ ∃ file ∈ files, file.1.Crosses p
  /-- There are files where files of the list are to stand. -/
  file_iff : ∀ {p}, m.hasFile p = true ↔ ∃ file ∈ files, file.1.LiesAt p
  /-- A file has a content that was given for its place. -/
  content : ∀ {p data}, m p = some (.file data) → ∃ file ∈ files, file.1.LiesAt p ∧ file.2 = data

namespace Layout

/-- What a catalog is made of decides whether one more file can be installed. -/
theorem exists_install_iff (h : m.Layout files) : (∃ m', m.install path bytes = some m') ↔
    (∃ site, path.site? = some site) ∧
      (∀ other ∈ files.map Prod.fst, ∀ p, other.LiesAt p → ¬ path.Crosses p) ∧
      (∀ other ∈ files.map Prod.fst, ∀ p, path.LiesAt p → ¬ other.Crosses p) ∧
      ∀ p, path.LiesAt p → ¬ path.Crosses p := by
  simp only [install_eq_some, List.forall_mem_map]
  constructor
  · rintro ⟨m', site, hsite, hfiles, hfree, hplace, -⟩
    simp only [Path.crosses_iff hsite, Path.liesAt_iff hsite]
    refine ⟨⟨site, hsite⟩, fun file hfile p hlies hp ↦ ?_, ?_, ?_⟩
    · have hfound := h.file_iff.2 ⟨file, hfile, hlies⟩
      rw [hfiles p hp] at hfound
      cases hfound
    · rintro file hfile p rfl hcrosses
      exact hfree (h.directory_iff.2 (Or.inr ⟨file, hfile, hcrosses⟩))
    · rintro p rfl
      exact hplace
  · rintro ⟨⟨site, hsite⟩, hbefore, hafter, hself⟩
    have hlies : path.LiesAt site.place := (Path.liesAt_iff hsite).2 rfl
    refine ⟨_, site, hsite, fun p hp ↦ ?_, fun hdirectory ↦ ?_, ?_, rfl⟩
    · refine Bool.eq_false_iff.2 fun hfound ↦ ?_
      obtain ⟨file, hfile, hother⟩ := h.file_iff.1 hfound
      exact hbefore file hfile p hother ((Path.crosses_iff hsite).2 hp)
    · rcases h.directory_iff.1 hdirectory with hroot | ⟨file, hfile, hcrosses⟩
      · exact hlies.ne_root hroot
      · exact hafter file hfile site.place hlies hcrosses
    · exact fun hmem ↦ hself site.place hlies ((Path.crosses_iff hsite).2 hmem)

/-- One more file that is installed is one more file of the list. -/
theorem install (h : m.Layout files) (hinstall : m.install path bytes = some m') :
    m'.Layout (files ++ [(path, bytes)]) := by
  obtain ⟨site, hsite, hfiles, hfree, hplace, rfl⟩ := install_eq_some.1 hinstall
  have hlies : path.LiesAt site.place := (Path.liesAt_iff hsite).2 rfl
  have hnew : Function.update (m.furnish site.directories) site.place (some (.file bytes))
      site.place = some (.file bytes) := Function.update_self ..
  have hother : ∀ {p}, p ≠ site.place →
      Function.update (m.furnish site.directories) site.place (some (.file bytes)) p =
        m.furnish site.directories p := fun hne ↦ Function.update_of_ne hne ..
  constructor
  case directory_iff =>
    intro p
    simp only [List.mem_append, List.mem_singleton, or_and_right, exists_or, exists_eq_left,
      Path.crosses_iff hsite]
    rcases eq_or_ne p site.place with rfl | hne
    · rw [hnew]
      refine iff_of_false nofun ?_
      rintro (hroot | ⟨file, hfile, hcrosses⟩ | hmem)
      · exact hlies.ne_root hroot
      · exact hfree (h.directory_iff.2 (Or.inr ⟨file, hfile, hcrosses⟩))
      · exact hplace hmem
    · rw [hother hne, furnish_eq_directory, ← or_assoc, ← h.directory_iff]
      refine ⟨Or.imp_right And.left, fun hp ↦ ?_⟩
      -- where a directory is asked for, there is one or nothing
      by_cases hsome : m p = none
      · exact hp.imp_right fun hmem ↦ ⟨hmem, hsome⟩
      · exact Or.inl (hp.elim id fun hmem ↦ (eq_directory_iff hsome).2 (hfiles p hmem))
  case file_iff =>
    intro p
    simp only [hasFile_iff, List.mem_append, List.mem_singleton, or_and_right, exists_or,
      exists_eq_left, Path.liesAt_iff hsite]
    rcases eq_or_ne p site.place with rfl | hne
    · rw [hnew]
      exact iff_of_true ⟨bytes, rfl⟩ (Or.inr rfl)
    · simp only [hother hne, furnish_eq_file, ← hasFile_iff, h.file_iff, hne.symm,
        or_false]
  case content =>
    intro p data hp
    rcases eq_or_ne p site.place with rfl | hne
    · rw [hnew] at hp
      exact ⟨(path, bytes), List.mem_concat_self, hlies, Entry.file.inj (Option.some.inj hp)⟩
    · rw [hother hne, furnish_eq_file] at hp
      obtain ⟨file, hfile, hrest⟩ := h.content hp
      exact ⟨file, List.mem_append_left _ hfile, hrest⟩

/-- A file is in both of two catalogs, if the lists have the same elements and each place has one
file only. -/
theorem eq_file (h : m.Layout files) (h' : m'.Layout files')
    (hmem : ∀ {file}, file ∈ files ↔ file ∈ files')
    (hsame : ∀ {p file other}, file ∈ files → other ∈ files → file.1.LiesAt p →
      other.1.LiesAt p → file = other) {data : Bytes} (hp : m p = some (.file data)) :
    m' p = some (.file data) := by
  obtain ⟨file, hfile, hlies, rfl⟩ := h.content hp
  obtain ⟨data', hdata'⟩ :=
    hasFile_iff.1 (h'.file_iff.2 ⟨file, hmem.1 hfile, hlies⟩)
  obtain ⟨other, hother, hlies', rfl⟩ := h'.content hdata'
  rwa [hsame hfile (hmem.2 hother) hlies hlies']

/-- **The order of the list makes no difference** to what consists of it, if no two files of the
list have the same place. -/
theorem eq_of_perm (h : m.Layout files) (h' : m'.Layout files') (hperm : files.Perm files')
    (hapart : files.Pairwise fun file other ↦ file.1.Apart other.1) : m = m' := by
  have hsame : ∀ {p file other}, file ∈ files → other ∈ files → file.1.LiesAt p →
      other.1.LiesAt p → file = other := by
    intro p file other hfile hother hp hp'
    by_contra hne
    have hsymm : Std.Symm fun file other : Path × Bytes ↦ file.1.Apart other.1 :=
      ⟨fun _ _ ↦ Path.Apart.symm⟩
    exact hapart.forall hfile hother hne p hp.normalize hp'.normalize
  funext p
  refine Option.ext fun e ↦ ?_
  rcases e with - | data
  · simp only [h.directory_iff, h'.directory_iff, hperm.mem_iff]
  · refine ⟨h.eq_file h' hperm.mem_iff hsame, h'.eq_file h hperm.symm.mem_iff ?_⟩
    intro p file other hfile hother
    exact hsame (hperm.mem_iff.2 hfile) (hperm.mem_iff.2 hother)

end Layout

/-- What one file after the other is installed in consists of the files. -/
theorem layout_of_foldlM (hbase : base.Layout [])
    (h : files.foldlM (fun m file ↦ m.install file.1 file.2) base = some m) : m.Layout files := by
  induction files using List.reverseRecOn generalizing m with
  | nil => exact Option.some.inj h ▸ hbase
  | append_singleton front file ih =>
    rw [List.foldlM_append] at h
    obtain ⟨before, hbefore, hlast⟩ := Option.bind_eq_some_iff.1 h
    exact (ih hbefore).install (by simpa using hlast)

/-- **All files can be installed if they fit together**, and only then. -/
theorem exists_foldlM_install_iff (hbase : base.Layout []) :
    (∃ m, files.foldlM (fun m file ↦ m.install file.1 file.2) base = some m) ↔
      FitTogether (files.map Prod.fst) := by
  induction files using List.reverseRecOn with
  | nil => exact iff_of_true ⟨base, rfl⟩ ⟨nofun, nofun⟩
  | append_singleton front file ih =>
    rw [List.map_append, List.map_singleton, fitTogether_concat, ← ih, List.foldlM_append]
    constructor
    · rintro ⟨m, hm⟩
      obtain ⟨before, hbefore, hlast⟩ := Option.bind_eq_some_iff.1 hm
      exact ⟨⟨before, hbefore⟩, (layout_of_foldlM hbase hbefore).exists_install_iff.1
        ⟨m, by simpa using hlast⟩⟩
    · rintro ⟨⟨before, hbefore⟩, hfits⟩
      obtain ⟨m, hm⟩ := (layout_of_foldlM hbase hbefore).exists_install_iff.2 hfits
      exact ⟨m, Option.bind_eq_some_iff.2 ⟨before, hbefore, by simpa using hm⟩⟩

end Catalog

/-! ### Filling a store -/

namespace MemoryStore

variable {s : MemoryStore} {path above d : Path} {segment : String} {segments rest : List String}
  {m : Catalog} {m? : Option Catalog} {after : Except Error Unit × MemoryStore}
  {files : List (Path × Bytes)}

/-- What becomes of a change that may stop half-way. If there is a changed catalog, the change
succeeds and leads to it; if there is none, it fails. -/
def Achieves (change : Option Catalog) (after : Except Error Unit × MemoryStore) : Prop :=
  match change with
  | some m => after.1 = .ok () ∧ after.2.catalog = m
  | none => ∃ e, after.1 = .error e

theorem Carries.achieves (h : Carries m m? after) : Achieves m? after := by
  obtain ⟨hanswer, hcatalog⟩ := h
  rcases m? with - | m'
  · obtain ⟨cause, hcause⟩ := hanswer
    exact ⟨_, hcause⟩
  · exact ⟨hanswer, hcatalog⟩

/-- One step of making directories one below the other: it arrives at what the segment leads to,
which is there or is made, or else the whole of it fails. -/
theorem Tree.descend_cons (h : s.Tree) (habove : above.WellFormed) (hplain : Path.Plain segment)
    (hd : s.catalog.denoted? above = some d) :
    (∃ q next, s.catalog d = some .directory ∧ d.next? segment = some q ∧ next.Tree ∧
      next.catalog = s.catalog.furnish [q] ∧
      next.catalog.denoted? (above.child segment) = some q ∧
      FileStore.descend above (segment :: rest) s =
        FileStore.descend (above.child segment) rest next) ∨
    (s.catalog d = some .directory → d.next? segment = none) ∧
      ∃ e, (FileStore.descend above (segment :: rest) s).1 = .error e := by
  have hnext : (above.child segment).WellFormed := habove.child segment
  have hdenoted : s.catalog.denoted? (above.child segment) = s.catalog.step d segment :=
    Catalog.denoted?_child hd hplain
  rw [FileStore.descend]
  rcases hid : s.lookup (above.child segment) with e | id
  · obtain ⟨e', hresolve⟩ := resolve_root_eq_error hid
    have hnone : s.catalog.step d segment = none := hdenoted.symm.trans (h.denoted?_eq_none hid)
    have hmake := Catalog.makeDirectory_child hd hplain hnone
    have hcarries := h.carries_makeDirectory hnext
    simp only [hresolve]
    -- what is not found is made where `above` leads, if a directory is there
    rcases hmade : s.catalog.makeDirectory (above.child segment) with - | m
    · rw [hmade] at hmake hcarries
      obtain ⟨cause, hcause⟩ := hcarries.exists_error
      have hcause : FileStore.makeDirectory (above.child segment) s = _ := hcause
      refine Or.inr ⟨fun hdirectory ↦ ?_, by simp only [hcause]; exact ⟨_, rfl⟩⟩
      rw [if_pos hdirectory] at hmake
      exact Option.map_eq_none_iff.1 hmake.symm
    · have hpersists := (Catalog.Grows.makeDirectory hmade).persists
      rw [hmade] at hmake hcarries
      obtain ⟨next, hstore, rfl⟩ := hcarries.exists_ok
      have hstore : FileStore.makeDirectory (above.child segment) s = .ok next := hstore
      obtain ⟨hdirectory, hq⟩ := Option.ite_none_right_eq_some.1 hmake.symm
      obtain ⟨q, hq, hcatalog⟩ := Option.map_eq_some_iff.1 hq
      have hexists : s.catalog d ≠ none := (h.denoted?_iff.1 hd).2.2
      have hfound : next.catalog.denoted? (above.child segment) = some q := by
        rw [Catalog.denoted?_child (hpersists.denoted? hd) hplain]
        refine Catalog.step_eq_some.2 ⟨(hpersists d hexists).2 hdirectory, hq, Or.inr ?_⟩
        rw [← hcatalog]
        exact Catalog.furnish_ne_none (List.mem_singleton_self q)
      exact Or.inl ⟨q, next, hdirectory, hq, keeps_tree.makeDirectory hnext h hstore,
        hcatalog.symm, hfound, by simp only [hstore]⟩
  · have hfound : s.catalog.denoted? (above.child segment) = some (s.pathOf id) :=
      h.denoted?_eq_some.2 ⟨id, hid, rfl⟩
    obtain ⟨hdirectory, hstep, -⟩ := Catalog.step_eq_some.1 (hdenoted.symm.trans hfound)
    have hthere : s.catalog.furnish [s.pathOf id] = s.catalog :=
      Catalog.furnish_eq_self fun p hp ↦
        List.mem_singleton.1 hp ▸ (h.denoted?_iff.1 hfound).2.2
    simp only [resolve_root hid]
    exact Or.inl ⟨s.pathOf id, s, hdirectory, hstep, h, hthere.symm, hfound, rfl⟩

/-- To make directories one below the other is to go along segments. -/
theorem Tree.descend_achieves (h : s.Tree) (habove : above.WellFormed)
    (hplain : ∀ segment ∈ segments, Path.Plain segment)
    (hd : s.catalog.denoted? above = some d) :
    Achieves (s.catalog.along? d segments) (FileStore.descend above segments s) := by
  have hexists : s.catalog d ≠ none := (h.denoted?_iff.1 hd).2.2
  induction segments generalizing above d s with
  | nil =>
    have hsame : s.catalog.furnish [d] = s.catalog :=
      Catalog.furnish_eq_self fun p hp ↦ List.mem_singleton.1 hp ▸ hexists
    exact ⟨rfl, hsame.symm⟩
  | cons segment rest ih =>
    obtain ⟨hsegment, hrest⟩ := List.forall_mem_cons.1 hplain
    rw [Catalog.along?_cons hexists]
    rcases h.descend_cons habove hsegment hd with
      ⟨q, next, hdirectory, hq, htree, hcatalog, hdenoted, hdescend⟩ | ⟨hstuck, e, hfails⟩
    · rw [if_pos hdirectory, hq, Option.bind_some, ← hcatalog, hdescend]
      exact ih htree (habove.child segment) hrest hdenoted (htree.denoted?_iff.1 hdenoted).2.2
    · have hnothing : (if s.catalog d = some .directory then
          (d.next? segment).bind fun next ↦ (s.catalog.furnish [next]).along? next rest
        else none) = none := by
        split
        · rw [hstuck ‹_›, Option.bind_none]
        · rfl
      rw [hnothing]
      exact ⟨e, hfails⟩

/-- **To put a file is one change of the catalog**, with all the directories that it needs. -/
theorem Tree.put_achieves (h : s.Tree) (hs : s.Sound) (hpath : path.WellFormed) (bytes : Bytes) :
    Achieves (s.catalog.install path bytes) (FileStore.put path bytes s) := by
  obtain ⟨absolute, segments⟩ := path
  rcases segments.eq_nil_or_concat' with rfl | ⟨above, name, rfl⟩
  · have hsite : Path.site? ⟨absolute, []⟩ = none := by simp [Path.site?]
    rw [Catalog.install, hsite]
    exact ⟨_, rfl⟩
  have hplain : ∀ segment ∈ above, Path.Plain segment :=
    fun segment hsegment ↦ hpath segment (List.mem_append_left _ hsegment)
  have hparent : Path.parent ⟨absolute, above ++ [name]⟩ = .ok ⟨absolute, above⟩ :=
    Path.parent_eq rfl
  rw [FileStore.put, hparent]
  cases absolute
  case false => exact ⟨_, rfl⟩
  case true =>
    have hmake : Achieves (s.catalog.along? Path.root above)
        (FileStore.makeDirectories ⟨true, above⟩ s) :=
      h.descend_achieves Path.wellFormed_root hplain rfl
    have hmade : (FileStore.makeDirectories ⟨true, above⟩ s).2.Tree :=
      keeps_tree.makeDirectories h _
    have hsound : (FileStore.makeDirectories ⟨true, above⟩ s).2.Sound :=
      keeps_sound.makeDirectories hs _
    rcases hdone : FileStore.makeDirectories ⟨true, above⟩ s with ⟨answer, made⟩
    rw [hdone] at hmake hmade hsound
    simp only [hdone]
    rcases halong : s.catalog.along? Path.root above with - | m
    · rw [halong] at hmake
      obtain ⟨e, rfl⟩ := hmake
      rw [Catalog.install_eq_none halong]
      exact ⟨e, rfl⟩
    · rw [halong] at hmake
      obtain ⟨rfl, rfl⟩ := hmake
      obtain ⟨way, d, htrail, hway, hcatalog⟩ := Catalog.along?_eq_some.1 halong
      have habove : Path.WellFormed ⟨true, above⟩ := hplain
      obtain ⟨q, hq⟩ := h.exists_denoted?_of_makeDirectories habove hdone
      -- where the steps along `above` arrive is what `above` denotes by then
      obtain ⟨-, hnormalize, hexists⟩ := hmade.denoted?_iff.1 hq
      have hd : Path.normalize ⟨true, [] ++ above⟩ = .ok d := Path.normalize_of_trail htrail rfl
      obtain rfl : q = d := Except.ok.inj (hnormalize.symm.trans hd)
      have hsave := (hmade.carries_save hsound hpath bytes).achieves
      rw [← hcatalog] at hq hexists hsave
      rwa [Catalog.install_eq_put htrail hway hq hexists]

/-- A file that is put leads from a store in use to a store in use. -/
theorem InUse.put (h : s.InUse) (hpath : path.WellFormed) (bytes : Bytes) :
    (FileStore.put path bytes s).2.InUse := by
  rw [FileStore.put]
  split
  · exact h
  case h_2 directory hparent =>
    have hdirectory : directory.WellFormed := hpath.parent hparent
    have hmade : (FileStore.makeDirectories directory s).2.InUse :=
      FileStore.ReachableOn.step (.makeDirectories directory)
        (fun _ hp ↦ Option.some.inj hp ▸ hdirectory) h
    split
    case h_1 hdone =>
      rw [hdone] at hmade
      exact hmade
    case h_2 hdone =>
      rw [hdone] at hmade
      exact FileStore.ReachableOn.step (.save path bytes) (fun _ hp ↦ Option.some.inj hp ▸ hpath)
        hmade

/-- **To put one file after the other is one change of the catalog after the other.** -/
theorem InUse.each_put (h : s.InUse) (hfiles : ∀ file ∈ files, file.1.WellFormed) :
    (FileStore.each (fun file ↦ FileStore.put file.1 file.2) files s).2.InUse ∧
      Achieves (files.foldlM (fun m file ↦ m.install file.1 file.2) s.catalog)
        (FileStore.each (fun file ↦ FileStore.put file.1 file.2) files s) := by
  induction files generalizing s with
  | nil => exact ⟨h, rfl, rfl⟩
  | cons file rest ih =>
    obtain ⟨hfile, hrest⟩ := List.forall_mem_cons.1 hfiles
    have hput := h.tree.put_achieves h.sound hfile file.2
    have hafter := h.put hfile file.2
    rw [FileStore.each, List.foldlM_cons]
    rcases hdone : FileStore.put file.1 file.2 s with ⟨answer, next⟩
    rw [hdone] at hput hafter
    rcases hinstall : s.catalog.install file.1 file.2 with - | m
    · rw [hinstall] at hput
      obtain ⟨e, rfl⟩ := hput
      exact ⟨hafter, e, rfl⟩
    · rw [hinstall] at hput
      obtain ⟨rfl, rfl⟩ := hput
      exact ih hafter hrest

/-- In the beginning there are no files. -/
theorem layout_empty : empty.catalog.Layout [] := by
  have hroot : ∀ {p e}, empty.catalog p = some e ↔ p = Path.root ∧ e = .directory := by
    intro p e
    rw [Tree.catalog_empty]
    rcases eq_or_ne p Path.root with rfl | hne
    · simp [eq_comm]
    · simp [hne]
  exact ⟨by simp [hroot], by simp [Catalog.hasFile_iff, hroot], by simp [hroot]⟩

theorem ofFiles_eq_ok : ofFiles files = .ok s ↔
    FileStore.each (fun file ↦ FileStore.put file.1 file.2) files empty = (.ok (), s) := by
  rw [ofFiles, FileStore.fill, FileStore.each]
  rcases hdone : FileStore.each (fun file ↦ FileStore.put file.1 file.2) files empty
    with ⟨e | u, s'⟩ <;> simp [hdone]

/-- **A store can be made of files that fit together**, and of no others. -/
theorem exists_ofFiles_iff (hfiles : ∀ file ∈ files, file.1.WellFormed) :
    (∃ s, ofFiles files = .ok s) ↔ FitTogether (files.map Prod.fst) := by
  obtain ⟨-, hachieves⟩ := InUse.each_put (s := empty) .start hfiles
  rw [← Catalog.exists_foldlM_install_iff layout_empty]
  simp only [ofFiles_eq_ok]
  rcases hinstall : files.foldlM (fun m file ↦ m.install file.1 file.2) empty.catalog with - | m
  · rw [hinstall] at hachieves
    obtain ⟨e, he⟩ := hachieves
    refine iff_of_false ?_ fun ⟨m, hm⟩ ↦ Option.some_ne_none m (hm.symm.trans hinstall)
    rintro ⟨s, hs⟩
    rw [hs] at he
    cases he
  · rw [hinstall] at hachieves
    exact iff_of_true ⟨_, Prod.ext hachieves.1 rfl⟩ ⟨m, hinstall⟩

/-- A store that was made of files is in use, and consists of them. -/
theorem layout_of_ofFiles (hfiles : ∀ file ∈ files, file.1.WellFormed)
    (h : ofFiles files = .ok s) : s.InUse ∧ s.catalog.Layout files := by
  obtain ⟨hinUse, hachieves⟩ := InUse.each_put (s := empty) .start hfiles
  rw [ofFiles_eq_ok.1 h] at hinUse hachieves
  refine ⟨hinUse, Catalog.layout_of_foldlM layout_empty ?_⟩
  rcases hinstall : files.foldlM (fun m file ↦ m.install file.1 file.2) empty.catalog with - | m
  · rw [hinstall] at hachieves
    obtain ⟨e, he⟩ := hachieves
    cases he
  · rw [hinstall] at hachieves
    exact hinstall.trans (congrArg some hachieves.2.symm)

end MemoryStore

end ModuleBundler
