import ModuleBundler.Proofs.Bundle.Ending
import ModuleBundler.Proofs.Bundle.Transfer
import ModuleBundler.Proofs.Disk.Changes
import ModuleBundler.Syntax.Program

/-!
# Bundles of files on a disk

A disk without links and a store in memory may hold the same files. A bundle then comes to the same
with both of them (`bundle_onDisk`): there is a bundle of the one if and only if there is one of the
other, the two graphs are equal, and where there is none, the error is the same up to what is said
about a path.

The disk has to answer as far as the bundle asks. It is asked for the entry, for the modules that
the entry leads to, and for all that a relative request may stand for, `BundleOptions.Looks`; of
these paths, and no others, the system must not refuse one for its length or for a character that
ends paths.

The two stores walk in ways of their own. They are compared with the catalog one question at a time,
and the walks are compared by what they are answered (`Project.Transfers`).
-/

namespace ModuleBundler

variable {packages : Option PackageTable} {followTypes : Bool}
  {S : DiskStore} {s : MemoryStore} {m : Catalog}
  {entry start path importer directory request : Path} {reference : Reference}

/-! ### Alike answers -/

theorem Error.Alike.importedBy {e e' : Error} (h : e.Alike e') (importer : Path) :
    (e.importedBy importer).Alike (e'.importedBy importer) := by
  rcases h with rfl | ⟨h, h'⟩
  · exact .refl _
  · rcases e with cause | _ | _ | _ | _ <;> cases h
    rcases e' with cause' | _ | _ | _ | _ <;> cases h'
    exact Or.inr ⟨rfl, rfl⟩

section

variable {σ τ : Type} [FileStore σ] [FileStore τ] {s : σ} {t : τ} {E : Error → Error → Prop}

/-- Files that read alike are alike as modules. -/
theorem Module.alike_visited [Engine] (hE : ∀ e, E e e)
    (h : Alike E (FileStore.load path s).1 (FileStore.load path t).1) :
    Alike E (Module.visited path s) (Module.visited path t) := by
  rw [Module.visited, Module.visited, Module.load_eq, Module.load_eq]
  generalize (FileStore.load path s).1 = answer at h
  generalize (FileStore.load path t).1 = answer' at h
  cases h with
  | ok content => exact .refl hE _
  | error he => exact .error he

/-- A request leads to alike answers where its candidates are the same files. -/
theorem Locate.alike_locate
    (hfile : ∀ candidate ∈ request :: candidates request,
      file? directory s candidate = file? directory t candidate)
    (hresolve : Alike Error.Alike (FileStore.resolve directory request s)
      (FileStore.resolve directory request t)) :
    Alike Error.Alike (locate directory request s) (locate directory request t) := by
  have hanswers : (request :: candidates request).map (file? directory s) =
      (request :: candidates request).map (file? directory t) := List.map_congr_left hfile
  have hfirst : (request :: candidates request).findSome? (file? directory s) =
      (request :: candidates request).findSome? (file? directory t) := by
    simpa only [List.findSome?_map, Function.id_comp] using congrArg (List.findSome? id) hanswers
  rw [locate, locate, hfirst]
  split
  · exact .ok _
  · generalize FileStore.resolve directory request s = answer at hresolve
    generalize FileStore.resolve directory request t = answer' at hresolve
    cases hresolve with
    | ok found => exact .refl Error.Alike.refl _
    | error he => exact .error he

end

namespace BundleOptions

section

variable {σ τ : Type} [FileStore σ] [FileStore τ] {s : σ} {t : τ}

/-- A reference leads to alike targets where its path does. Packages are looked up in the table,
whatever the store. -/
theorem alike_target
    (hlocate : (reference.typeOnly && !followTypes) = false → reference.isRelative = true →
      Alike Error.Alike (Locate.locate directory reference.path s)
        (Locate.locate directory reference.path t)) :
    Alike Error.Alike ((ofTable packages followTypes).target s importer directory reference)
      ((ofTable packages followTypes).target t importer directory reference) := by
  have hflag : (ofTable packages followTypes : BundleOptions σ).followTypes = followTypes := rfl
  have hflag' : (ofTable packages followTypes : BundleOptions τ).followTypes = followTypes := rfl
  rw [target, target, hflag, hflag']
  by_cases hskipped : (reference.typeOnly && !followTypes) = true
  · rw [if_pos hskipped, if_pos hskipped]
    exact .ok _
  · rw [if_neg hskipped, if_neg hskipped]
    by_cases hrelative : reference.isRelative = true
    · have halike := hlocate (Bool.eq_false_iff.2 hskipped) hrelative
      rw [if_pos hrelative, if_pos hrelative]
      generalize Locate.locate directory reference.path s = answer at halike
      generalize Locate.locate directory reference.path t = answer' at halike
      cases halike with
      | ok path => exact .ok _
      | error he => exact .error (he.importedBy importer)
    · rw [if_neg hrelative, if_neg hrelative]
      have hpackage : (ofTable packages followTypes).packageTarget s importer directory
          reference.request =
          (ofTable packages followTypes).packageTarget t importer directory reference.request := by
        rcases packages with - | table <;> rfl
      rw [hpackage]
      exact .refl Error.Alike.refl _

/-- A module that a reference leads to is a file that was located, or the resolver's answer. -/
theorem located_or_answered {options : BundleOptions σ}
    (h : options.target s importer directory reference = .ok (.module path)) :
    Locate.locate directory reference.path s = .ok path ∨
      ∃ resolver, options.resolver = some resolver ∧
        resolver s directory reference.request = .ok (.module path) := by
  rw [target] at h
  split at h
  case isTrue => cases h
  case isFalse =>
    split at h
    case isTrue =>
      split at h
      · obtain rfl := Target.module.inj (Except.ok.inj h)
        exact Or.inl ‹_›
      · cases h
    case isFalse =>
      rw [packageTarget] at h
      rcases hresolver : options.resolver with - | resolver
      · rw [hresolver] at h
        cases h
      · simp only [hresolver] at h
        split at h
        case h_2 path' hpath =>
          obtain rfl := Target.module.inj (Except.ok.inj h)
          exact Or.inr ⟨resolver, rfl, hpath⟩
        all_goals cases h

/-- A module that a reference leads to is a file that was located, or stands in the table. -/
theorem module_of_target
    (h : (ofTable packages followTypes).target s importer directory reference =
      .ok (.module path)) :
    Locate.locate directory reference.path s = .ok path ∨
      path ∈ (packages.map PackageTable.targets).getD [] := by
  rcases located_or_answered h with hlocate | ⟨resolver, hresolver, hanswer⟩
  · exact Or.inl hlocate
  · obtain ⟨table, rfl, rfl⟩ := Option.map_eq_some_iff.1 hresolver
    exact Or.inr (PackageTable.mem_targets hanswer)

end

/-- The project of the answers that a store gives. -/
def answers [Engine] {σ : Type} [FileStore σ] (options : BundleOptions σ) (s : σ) : Project where
  reads path answer := Module.visited path s = answer
  leads importer reference answer :=
    ∃ directory, importer.parent = .ok directory ∧
      options.target s importer directory reference = answer

theorem functional_answers [Engine] {σ : Type} [FileStore σ] (options : BundleOptions σ) (s : σ) :
    (options.answers s).Functional where
  reads h h' := Eq.trans (Eq.symm h) h'
  leads := by
    rintro importer reference answer answer' ⟨directory, hparent, rfl⟩ ⟨directory', hparent', rfl⟩
    obtain rfl := Except.ok.inj (hparent.symm.trans hparent')
    rfl

/-- A walk on a disk gets the answers of the disk, whatever numbers of handles are used up. -/
theorem describes_answers [Engine] (h : S.handles.Fresh) :
    ((ofTable packages followTypes).answers S).Describes (ofTable packages followTypes)
      fun S' ↦ ∃ n, S' = S.skip n where
  keeps := by
    rintro path S' ⟨n, rfl⟩
    obtain ⟨k, hload⟩ := DiskStore.load_eq (S.fresh_skip h n) path
    rw [Module.load_eq, hload]
    exact ⟨n + k, S.skip_skip n k⟩
  reads := by
    rintro path S' ⟨n, rfl⟩
    obtain ⟨k, hload⟩ := DiskStore.load_eq h path
    obtain ⟨k', hload'⟩ := DiskStore.load_eq (S.fresh_skip h n) path
    have halike : Alike Eq (Module.visited path S) (Module.visited path (S.skip n)) := by
      refine Module.alike_visited (fun _ ↦ rfl) ?_
      rw [hload, hload', DiskStore.content_skip]
      exact .refl (fun _ ↦ rfl) _
    exact halike.eq
  leads := by
    rintro importer directory S' reference ⟨n, rfl⟩ hparent
    refine ⟨directory, hparent, ?_⟩
    rcases packages with - | table <;> rfl

end BundleOptions

/-! ### Bundles of files on a disk end -/

namespace Disk

variable {d : Disk} {place : Place}

/-- The places of the files on a disk. -/
def files (d : Disk) : List Place :=
  (d.entries.filter (·.2.isFile)).map Prod.fst

theorem length_files (d : Disk) : d.files.length = d.fileCount := by
  rw [files, List.length_map, fileCount, List.countP_eq_length_filter]

theorem mem_files (h : d.isFile place = true) : place ∈ d.files := by
  rw [isFile, entry?] at h
  split at h
  case isTrue => cases h
  case isFalse =>
    obtain ⟨entry, hlookup, hfile⟩ := (Option.any_eq_true _ _).1 h
    obtain ⟨before, after, hentries, -⟩ := List.lookup_eq_some_iff.1 hlookup
    refine List.mem_map.2 ⟨(place, entry), List.mem_filter.2 ⟨?_, hfile⟩, rfl⟩
    simp [hentries]

end Disk

namespace DiskStore

/-- Looking up the canonical path of an entry: it opens, or it does not. -/
theorem entryPath_cases (h : S.handles.Fresh) (entry : Path) :
    (∃ e, FileStore.openFile entry S = .error e ∧ entryPath entry S = (.error e, S)) ∨
      ∃ place, S.place entry = .ok place ∧ S.disk.isFile place = true ∧
        entryPath entry S = (.ok place.path, S.skip 1) := by
  rcases hopen : FileStore.openFile entry S with e | ⟨handle, opened⟩
  · exact Or.inl ⟨e, rfl, by rw [entryPath, hopen]⟩
  · obtain ⟨-, hreal, hclose⟩ := of_openFile h hopen
    obtain ⟨place, hplace, hfile, -, -⟩ := openFile_eq_ok.1 hopen
    refine Or.inr ⟨place, hplace, hfile, ?_⟩
    rw [entryPath, hopen]
    simp only [hclose]
    rw [hreal, hplace]
    rfl

/-- All that looking up an entry changes is what number comes next. -/
theorem snd_entryPath (h : S.handles.Fresh) (entry : Path) :
    ∃ n, (entryPath entry S).2 = S.skip n := by
  rcases entryPath_cases h entry with ⟨e, -, hentry⟩ | ⟨place, -, -, hentry⟩
  · exact ⟨0, by rw [hentry]; rfl⟩
  · exact ⟨1, by rw [hentry]⟩

/-- A bundle on a disk has an answer, if what relative requests lead to are files where they
stand. -/
theorem isSome_bundle_of_locate [Engine] (hfresh : S.handles.Fresh)
    (hlocate : ∀ {directory request path}, Locate.locate directory request S = .ok path →
      ∃ place, S.disk.isFile place = true ∧ Place.path place = path)
    (packages : Option PackageTable) (followTypes : Bool) (entry : Path) :
    (bundle packages followTypes entry S).isSome = true := by
  let paths := S.disk.files.map Place.path ++ (packages.map PackageTable.targets).getD []
  have hfiles : ∀ {place}, S.disk.isFile place = true → Place.path place ∈ paths :=
    fun hfile ↦ List.mem_append_left _ (List.mem_map_of_mem (Disk.mem_files hfile))
  have hpaths : ∀ {importer reference path},
      ((BundleOptions.ofTable packages followTypes).answers S).leads importer reference
        (.ok (.module path)) → path ∈ paths := by
    rintro importer reference path ⟨directory, -, htarget⟩
    rcases BundleOptions.module_of_target htarget with hfound | htable
    · obtain ⟨place, hfile, rfl⟩ := hlocate hfound
      exact hfiles hfile
    · exact List.mem_append_right _ htable
  have hstart : ∀ {start}, (entryPath entry S).1 = .ok start → start ∈ paths := by
    intro start hstart
    rcases entryPath_cases hfresh entry with ⟨e, -, hentry⟩ | ⟨place, -, hfile, hentry⟩
    · rw [hentry] at hstart
      cases hstart
    · rw [hentry] at hstart
      exact Except.ok.inj hstart ▸ hfiles hfile
  have hdepth : paths.length ≤ sufficientDepth packages S := by
    simp [paths, sufficientDepth, FileStore.fileBound, Disk.length_files]
  exact isSome_collect_of_describes (BundleOptions.describes_answers hfresh)
    (snd_entryPath hfresh entry) hpaths hstart hdepth

/-- **A bundle of files on a disk without links always has an answer.** -/
theorem isSome_bundle [Engine] (h : S.disk.Mirrors m) (hm : m.IsTree) (hfresh : S.handles.Fresh)
    (packages : Option PackageTable) (followTypes : Bool) (entry : Path) :
    (bundle packages followTypes entry S).isSome = true := by
  refine isSome_bundle_of_locate hfresh (fun hlocate ↦ ?_) packages followTypes entry
  obtain ⟨candidate, -, hresolve, hfile⟩ := Locate.exists_candidate_of_locate hlocate
  obtain ⟨place, rfl, hexists⟩ := exists_place_of_resolve h hm hresolve
  exact ⟨place, isFile_of_isFile h hm hexists hfile, rfl⟩

/-- **Bundling leaves the disk as it is**, whether there is a bundle or not. -/
theorem disk_of_bundle [Engine] (hfresh : S.handles.Fresh) {outcome : Except Error Graph}
    {S' : DiskStore} (hbundle : bundle packages followTypes entry S = some (outcome, S')) :
    S'.disk = S.disk := by
  have hdescribes : ((BundleOptions.ofTable packages followTypes).answers S).Describes
      (.ofTable packages followTypes) fun S' ↦ ∃ n, S' = S.skip n :=
    BundleOptions.describes_answers hfresh
  obtain ⟨n, rfl⟩ := collect_keeps (I := fun S' ↦ ∃ n, S' = S.skip n) hdescribes.keeps
    (snd_entryPath hfresh entry) hbundle
  rfl

end DiskStore

/-! ### What a bundle looks at -/

/-- The paths that a bundle looks at: the entry, the modules it leads to, and all that a relative
request of one of them may stand for. -/
inductive BundleOptions.Looks [Engine] (options : BundleOptions MemoryStore) (s : MemoryStore)
    (entry : Path) : Path → Prop
  /-- The entry is looked at. -/
  | entry : Looks options s entry entry
  /-- The modules are looked at. -/
  | module {start path : Path} : s.Opens entry start →
      path ∈ (options.project s).needed start → Looks options s entry path
  /-- What relative requests may stand for is looked at. -/
  | candidate {start importer directory candidate : Path} {content : Bytes}
      {references : List Reference} {reference : Reference} : s.Opens entry start →
      importer ∈ (options.project s).needed start →
      s.source importer = .ok (content, references) → reference ∈ references →
      options.isFollowed reference = true → reference.isRelative = true →
      importer.parent = .ok directory →
      candidate ∈ reference.path :: Locate.candidates reference.path →
      Looks options s entry (directory.join candidate)

/-- What a request may stand for is relative, if the request is, and has plain segments. -/
theorem Locate.wellFormed_candidate {candidate : Path} (hrequest : request.WellFormed)
    (hmem : candidate ∈ request :: candidates request) :
    candidate.absolute = request.absolute ∧ candidate.WellFormed := by
  have hsuffixes : ∀ suffix ∈ suffixes, '/' ∉ suffix.toList ∧ suffix ≠ "" := by decide
  rcases mem_candidates hmem with rfl | ⟨front, name, suffix, hsegments, -, hsuffix, rfl⟩ |
    ⟨suffix, -, rfl⟩
  · exact ⟨rfl, hrequest⟩
  · refine ⟨rfl, fun segment hsegment ↦ ?_⟩
    rcases List.mem_append.1 hsegment with hsegment | hsegment
    · exact hrequest segment (hsegments ▸ List.mem_append_left _ hsegment)
    · obtain rfl := List.mem_singleton.1 hsegment
      exact (hrequest name (hsegments ▸ List.mem_append_right _ (List.mem_singleton_self name)))
        |>.append (hsuffixes suffix hsuffix).1 (hsuffixes suffix hsuffix).2
  · exact ⟨rfl, hrequest.child _⟩

/-! ### The two stores compared -/

section

open BundleOptions

/-- The entry of a bundle is the file that it opens, if files that are opened can be closed. -/
theorem fst_entryPath {σ : Type} [FileStore σ] {s : σ}
    (hclose : ∀ {handle opened}, FileStore.openFile entry s = .ok (handle, opened) →
      ∃ closed, FileStore.close handle opened = .ok closed) :
    (entryPath entry s).1 = FileStore.openedPath entry s := by
  rw [entryPath, FileStore.openedPath]
  rcases hopen : FileStore.openFile entry s with e | ⟨handle, opened⟩
  · rfl
  · obtain ⟨closed, hclosed⟩ := hclose hopen
    simp only [hclosed]

/-- Both stores start from the same canonical path, or have none. -/
theorem alike_entryPath (h : S.disk.Mirrors s.catalog) (hs : s.InUse) (hfresh : S.handles.Fresh)
    (hentry : entry.absolute = true) (hplain : entry.WellFormed) (htakes : S.disk.Takes entry) :
    Alike Error.Alike (entryPath entry s).1 (entryPath entry S).1 := by
  have hmemory : (entryPath entry s).1 = FileStore.openedPath entry s := by
    refine fst_entryPath fun hopen ↦ ?_
    obtain ⟨-, -, -, -, -, -, hclose⟩ := hs.sound.of_openFile hopen
    exact ⟨_, hclose⟩
  have hdisk : (entryPath entry S).1 = FileStore.openedPath entry S := fst_entryPath fun hopen ↦
    ⟨_, (DiskStore.of_openFile hfresh hopen).2.2⟩
  rw [hmemory, hdisk]
  exact (hs.tree.meets_openedPath hs.sound entry).alike
    (DiskStore.openedPath_meets h hs.tree.isTree_catalog hfresh hentry hplain htakes)

/-- A candidate is the same file in memory and on the disk, and resolves alike. -/
theorem alike_file? (h : S.disk.Mirrors s.catalog) (hs : s.InUse) {candidate : Path}
    (hdirectory : directory.absolute = true) (hcandidate : candidate.absolute = false)
    (hplain : (directory.join candidate).WellFormed)
    (htakes : S.disk.Takes (directory.join candidate)) :
    Locate.file? directory s candidate = Locate.file? directory S candidate ∧
      Alike Error.Alike (FileStore.resolve directory candidate s)
        (FileStore.resolve directory candidate S) := by
  have hm := hs.tree.isTree_catalog
  have hjoin : directory.join candidate = ⟨true, directory.segments ++ candidate.segments⟩ := by
    rw [Path.join, hcandidate, if_neg Bool.false_ne_true, hdirectory]
  have hmemory := hs.tree.meets_resolve directory candidate
  rw [hjoin] at hplain htakes hmemory
  have hdisk := DiskStore.resolve_meets h hm hdirectory hplain htakes
  refine ⟨?_, hmemory.alike hdisk⟩
  rw [Locate.file?, Locate.file?]
  rcases hdenoted : s.catalog.denoted? ⟨true, directory.segments ++ candidate.segments⟩ with - | q
  · rw [hdenoted] at hmemory hdisk
    obtain ⟨cause, hcause⟩ := hmemory
    obtain ⟨cause', hcause'⟩ := hdisk
    rw [hcause, hcause']
  · -- both resolve to the same path, and what stands there is a file in both or in neither
    rw [hdenoted] at hmemory hdisk
    have hfound : FileStore.resolve directory candidate s = .ok q := hmemory
    have hfound' : FileStore.resolve directory candidate S = .ok q := hdisk
    have hexists := hm.ne_none_of_denoted? hdenoted
    have hfits : q.Fits := Disk.fits_of_denoted? h hm rfl hplain htakes hdenoted
    have hfile : FileStore.isFile q s = s.catalog.hasFile q := by
      rw [hs.tree.isFile_eq, Catalog.read, hm.denoted?_self hexists, Option.bind_some,
        Catalog.hasFile]
      rcases s.catalog q with - | - | data <;> rfl
    rw [hfound, hfound']
    simp only [hfile, DiskStore.isFile_self h hm hexists hfits]

/-- The modules that an entry leads to have absolute paths with plain segments. -/
theorem wellFormed_of_needed [Engine] (hs : s.InUse)
    (htable : ∀ path ∈ (packages.map PackageTable.targets).getD [],
      path.absolute = true ∧ path.WellFormed)
    (hopens : s.Opens entry start)
    (hneeded : path ∈ ((ofTable packages followTypes).project s).needed start) :
    path.absolute = true ∧ path.WellFormed := by
  have hm := hs.tree.isTree_catalog
  have hexisting : ∀ {q}, s.catalog q ≠ none → q.absolute = true ∧ q.WellFormed :=
    fun hq ↦ ⟨Path.absolute_of_isCanonical (hm.canonical hq), hm.wellFormed hq⟩
  have hresolved : ∀ {context relative q}, FileStore.resolve context relative s = .ok q →
      q.absolute = true ∧ q.WellFormed :=
    fun hresolve ↦ hexisting (hs.tree.resolve_iff.1 hresolve).2.2
  induction hneeded with
  | refl => exact hresolved hopens.2
  | tail _ hlink _ =>
    obtain ⟨content, references, reference, -, -, directory, -, hanswer⟩ := hlink
    rcases module_of_target (Answers.eq_target hanswer).symm with hlocate | htarget
    · obtain ⟨candidate, -, hresolve, -⟩ := Locate.exists_candidate_of_locate hlocate
      exact hresolved hresolve
    · exact htable _ htarget

/-- **The disk answers as the store in memory does**, about all that the entry leads to. -/
theorem transfers_onDisk [Engine] (h : S.disk.Mirrors s.catalog) (hs : s.InUse)
    (hfresh : S.handles.Fresh)
    (htable : ∀ path ∈ (packages.map PackageTable.targets).getD [],
      path.absolute = true ∧ path.WellFormed)
    (htakes : ∀ path, (ofTable packages followTypes).Looks s entry path → S.disk.Takes path)
    (hopens : s.Opens entry start) :
    ((ofTable packages followTypes).project s).Transfers
      ((ofTable packages followTypes).answers S) Error.Alike start where
  reads := by
    rintro path answer hneeded rfl
    refine ⟨_, rfl, ?_⟩
    obtain ⟨habsolute, hplain⟩ := wellFormed_of_needed hs htable hopens hneeded
    obtain ⟨n, hload⟩ := DiskStore.load_eq hfresh path
    rw [← hs.sound.visited_eq]
    refine Module.alike_visited Error.Alike.refl ?_
    rw [hload]
    exact (hs.tree.meets_load hs.sound).alike (DiskStore.content_meets h hs.tree.isTree_catalog
      habsolute hplain (htakes path (.module hopens hneeded)))
  leads := by
    -- Where a request leads is settled by its candidates, and each is looked at by the entry.
    rintro importer content references reference answer hneeded hreads hmem
      ⟨directory, hparent, hanswer⟩
    refine ⟨_, ⟨directory, hparent, rfl⟩, ?_⟩
    rw [hanswer.eq_target]
    refine alike_target fun hskipped hrelative ↦ ?_
    have hfollowed : (ofTable packages followTypes).isFollowed reference = true := by
      have hnot := not_isFollowed (ofTable packages followTypes) reference
      rw [show (ofTable packages followTypes : BundleOptions MemoryStore).followTypes = followTypes
        from rfl, hskipped] at hnot
      simpa using hnot
    obtain ⟨habsolute, hplain⟩ := wellFormed_of_needed hs htable hopens hneeded
    have hdirectory : directory.absolute = true := by rwa [Path.eq_of_parent hparent]
    have hcandidates : ∀ candidate ∈ reference.path :: Locate.candidates reference.path,
        Locate.file? directory s candidate = Locate.file? directory S candidate ∧
          Alike Error.Alike (FileStore.resolve directory candidate s)
            (FileStore.resolve directory candidate S) := by
      intro candidate hcandidate
      obtain ⟨hrel, hwell⟩ := Locate.wellFormed_candidate (Path.wellFormed_parse _) hcandidate
      replace hrel : candidate.absolute = false := hrel.trans (Reference.absolute_path hrelative)
      exact alike_file? h hs hdirectory hrel ((hplain.parent hparent).join hwell)
        (htakes _ (.candidate hopens hneeded hreads hmem hfollowed hrelative hparent hcandidate))
    exact Locate.alike_locate (fun candidate hmem ↦ (hcandidates candidate hmem).1)
      (hcandidates _ List.mem_cons_self).2

end

/-- **A bundle comes to the same on a disk and in memory**, if the disk has no links and the same
files as the store in memory, and the system takes what the bundle looks at. With both of them there
is an answer. Either both answers are the same graph, or both are the same error, or both say that a
path is invalid.

It does not matter which files are open, and not what the working directory is, for the entry is
absolute and so are the files of the table. -/
theorem bundle_onDisk [Engine] (packages : Option PackageTable) (followTypes : Bool)
    (entry : Path) (S : DiskStore) (s : MemoryStore) (hs : s.InUse) (h : S.disk.Mirrors s.catalog)
    (hfresh : S.handles.Fresh) (hentry : entry.absolute = true) (hplain : entry.WellFormed)
    (htable : ∀ path ∈ (packages.map PackageTable.targets).getD [],
      path.absolute = true ∧ path.WellFormed)
    (htakes : ∀ path, (BundleOptions.ofTable packages followTypes).Looks s entry path →
      S.disk.Takes path) :
    ∃ outcome outcome' s' S',
      bundle packages followTypes entry s = some (outcome, s') ∧
      bundle packages followTypes entry S = some (outcome', S') ∧
      Alike Error.Alike outcome outcome' := by
  obtain ⟨⟨outcome, s'⟩, hbundle⟩ := Option.isSome_iff_exists.1
    (isSome_bundle packages followTypes entry hs.sound)
  obtain ⟨⟨outcome', S'⟩, hbundle'⟩ := Option.isSome_iff_exists.1
    (DiskStore.isSome_bundle h hs.tree.isTree_catalog hfresh packages followTypes entry)
  refine ⟨outcome, outcome', s', S', hbundle, hbundle', ?_⟩
  have htree : (BundleOptions.ofTable packages followTypes).ReadsTree :=
    BundleOptions.readsTree_ofTable packages followTypes
  exact alike_of_collect (BundleOptions.describes_project hs.sound htree)
    (BundleOptions.describes_answers hfresh) (BundleOptions.functional_answers _ S)
    (hs.sound.entryPath entry) (DiskStore.snd_entryPath hfresh entry)
    (alike_entryPath h hs hfresh hentry hplain (htakes _ .entry))
    (fun hstart ↦
      transfers_onDisk h hs hfresh htable htakes (hs.sound.fst_entryPath_eq_ok.1 hstart))
    hbundle hbundle'

/-- Two files that lead to each other, the one by a request and the other by way of a package. -/
def twinFiles : List Operation :=
  [.makeDirectories ⟨true, ["lib"]⟩,
    .save ⟨true, ["lib", "a.ts"]⟩ (Utf8.encode "import 'x'; import 'y';"),
    .save ⟨true, ["b.ts"]⟩ (Utf8.encode "import './lib/a';")]

/-- The two files on a disk. -/
def twinDisk : DiskStore :=
  Operation.run twinFiles .blank

/-- The two files in memory. -/
def twinStore : MemoryStore :=
  Operation.run twinFiles .empty

theorem inUse_twinStore : twinStore.InUse :=
  FileStore.ReachableOn.start.run (by decide)

theorem shows_twinStore : twinDisk.Shows twinStore := by
  have hlib := (DiskStore.agree_makeDirectories DiskStore.shows_blank (p := ⟨true, ["lib"]⟩) rfl
    (by decide) (by decide +kernel)).2
  have ha := (DiskStore.agree_save hlib (p := ⟨true, ["lib", "a.ts"]⟩) rfl (by decide)
    (by decide +kernel) rfl (Utf8.encode "import 'x'; import 'y';")).2
  exact (DiskStore.agree_save ha (p := ⟨true, ["b.ts"]⟩) rfl (by decide) (by decide +kernel) rfl
    (Utf8.encode "import './lib/a';")).2

/-- The one package is the other file, the other one is left out. -/
def twinTable : PackageTable :=
  ⟨[("x", .file ⟨true, ["b.ts"]⟩)], ⟨["y"]⟩⟩

/-- The bundle of the two files, with an entry that takes a step up. -/
theorem bundle_onDisk_twinStore :
    twinStore.InUse ∧ twinDisk.disk.Mirrors twinStore.catalog ∧ twinDisk.handles.Fresh ∧
    (∀ path, (BundleOptions.ofTable (some twinTable) false).Looks twinStore
      ⟨true, ["lib", "..", "lib", "a.ts"]⟩ path → twinDisk.disk.Takes path) ∧
    ∃ g s' S', g.paths = [⟨true, ["lib", "a.ts"]⟩, ⟨true, ["b.ts"]⟩] ∧
      bundle (some twinTable) false ⟨true, ["lib", "..", "lib", "a.ts"]⟩ twinStore =
        some (.ok g, s') ∧
      bundle (some twinTable) false ⟨true, ["lib", "..", "lib", "a.ts"]⟩ twinDisk =
        some (.ok g, S') := by
  have hs := inUse_twinStore
  have h := shows_twinStore
  have hrun : ∃ g s', bundle (some twinTable) false ⟨true, ["lib", "..", "lib", "a.ts"]⟩ twinStore =
      some (.ok g, s') ∧ g.paths = [⟨true, ["lib", "a.ts"]⟩, ⟨true, ["b.ts"]⟩] :=
    exists_of_map_collect (by decide +kernel)
  obtain ⟨g, s', hbundle, hpaths⟩ := hrun
  -- the modules that are needed are those of the graph, so that all the paths can be listed
  obtain ⟨start, hopens, hvisits⟩ := BundleOptions.exists_visits_of_collect hs.sound
    (BundleOptions.readsTree_ofTable (some twinTable) false) hbundle
  have hneeded : ∀ {start' path}, twinStore.Opens ⟨true, ["lib", "..", "lib", "a.ts"]⟩ start' →
      path ∈ ((BundleOptions.ofTable (some twinTable) false).project twinStore).needed start' →
      path ∈ [(⟨true, ["lib", "a.ts"]⟩ : Path), ⟨true, ["b.ts"]⟩] := by
    intro start' path hopens' hpath
    obtain rfl := Except.ok.inj (hopens'.2.symm.trans hopens.2)
    rw [← hpaths]
    exact (Project.isLeast_needed _ start').2
      (hvisits.isLeast_paths (BundleOptions.functional_project _ twinStore)).1 hpath
  have hfits : ∀ importer ∈ [(⟨true, ["lib", "a.ts"]⟩ : Path), ⟨true, ["b.ts"]⟩],
      ∀ source ∈ (twinStore.source importer).toOption, ∀ reference ∈ source.2,
      ∀ directory ∈ importer.parent.toOption,
      ∀ candidate ∈ reference.path :: Locate.candidates reference.path,
        (directory.join candidate).absolute = true ∧ (directory.join candidate).WellFormed ∧
          (directory.join candidate).Fits := by
    decide +kernel
  have htakes : ∀ {path : Path}, path.absolute = true → path.WellFormed → path.Fits →
      twinDisk.disk.Takes path :=
    fun hpath hplain hfits ↦ Disk.takes_of_fits h.disk h.tree.isTree_catalog hpath hplain hfits
  have hlooks : ∀ path, (BundleOptions.ofTable (some twinTable) false).Looks twinStore
      ⟨true, ["lib", "..", "lib", "a.ts"]⟩ path → twinDisk.disk.Takes path := by
    intro path hlooks
    cases hlooks with
    | entry => exact htakes rfl (by decide) (by decide +kernel)
    | module hopens' hpath =>
      have hmem := hneeded hopens' hpath
      have hall : ∀ path ∈ [(⟨true, ["lib", "a.ts"]⟩ : Path), ⟨true, ["b.ts"]⟩],
          path.absolute = true ∧ path.WellFormed ∧ path.Fits := by
        decide +kernel
      obtain ⟨hpath, hplain, hfits⟩ := hall path hmem
      exact htakes hpath hplain hfits
    | candidate hopens' himporter hsource hreference _ _ hparent hcandidate =>
      obtain ⟨hpath, hplain, hfits⟩ := hfits _ (hneeded hopens' himporter) (_, _)
        (by rw [hsource]; rfl) _ hreference _ (by rw [hparent]; rfl) _ hcandidate
      exact htakes hpath hplain hfits
  obtain ⟨outcome, outcome', s₁, S', hmemory, hdisk, halike⟩ := bundle_onDisk (some twinTable) false
    ⟨true, ["lib", "..", "lib", "a.ts"]⟩ twinDisk twinStore hs h.disk h.fresh rfl (by decide)
    (by decide) hlooks
  obtain ⟨rfl, rfl⟩ := Prod.mk.inj (Option.some.inj (hmemory.symm.trans hbundle))
  cases halike
  exact ⟨hs, h.disk, h.fresh, hlooks, g, _, S', hpaths, hmemory, hdisk⟩

end ModuleBundler
