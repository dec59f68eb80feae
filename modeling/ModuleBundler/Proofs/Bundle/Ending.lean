import Mathlib.Data.List.Perm.Basic
import ModuleBundler.Proofs.Bundle.Sources

/-!
# Walks end

A walk counts down a depth and gives up when there is none left. It does not come to that if there
is a list of all the paths that references lead to, and the depth makes up for what is left of it: a
walk goes down only to a path that it has not come to, and each time it does there is one path less
(`Walk.isSome_visit`).

For files in memory and a table of packages there is such a list, `BundleOptions.destinations`. A
relative request resolves to the canonical path of a slot that holds a file, and a package to a path
of the table; `sufficientDepth` is as long as the list.
-/

namespace ModuleBundler

namespace Walk

variable {σ : Type} {I : σ → Prop} {P : Project} {paths : List Path}

/-- A walk that has not left `paths`, and has come to no path twice. -/
structure Within (I : σ → Prop) (paths : List Path) (w : Walk σ) : Prop where
  store : I w.store
  nodup : w.graph.paths.Nodup
  subset : ∀ path ∈ w.graph.paths, path ∈ paths

/-- A walk with something left to find has found less than there is. -/
theorem Within.size_lt {w : Walk σ} (h : Within I paths w) {path : Path} (hpath : path ∈ paths)
    (hnew : path ∉ w.graph.paths) : w.graph.size < paths.length := by
  have hsubset : path :: w.graph.paths ⊆ paths := List.cons_subset.2 ⟨hpath, h.subset⟩
  have hle := (List.subperm_of_subset (List.nodup_cons.2 ⟨hnew, h.nodup⟩) hsubset).length_le
  rwa [List.length_cons, Graph.length_paths] at hle

theorem Within.insert {w : Walk σ} (h : Within I paths w) {m : Module} (hpath : m.path ∈ paths)
    (hnew : m.path ∉ w.graph.paths) {s : σ} (hs : I s) : Within I paths ⟨s, w.graph.insert m⟩ where
  store := hs
  nodup := by
    rw [Graph.paths_insert, ← List.concat_eq_append]
    exact h.nodup.concat hnew
  subset path hmem := by
    rw [Graph.paths_insert] at hmem
    rcases List.mem_append.1 hmem with hmem | hmem
    · exact h.subset path hmem
    · exact List.mem_singleton.1 hmem ▸ hpath

/-- Going to a module does not leave the paths that references lead to. -/
theorem Within.of_visits (hpaths : ∀ {importer reference path},
      P.leads importer reference (.ok (.module path)) → path ∈ paths)
    {w w' : Walk σ} (h : Within I paths w) {path : Path} (hpath : path ∈ paths) {index : Nat}
    (hvisits : P.Visits path w.graph index w'.graph) (hstore : I w'.store) :
    Within I paths w' ∧ w.graph.size ≤ w'.graph.size := by
  obtain ⟨-, hsame⟩ | ⟨hindex, -, content, references, -, hfollows⟩ := hvisits
  · exact ⟨⟨hstore, hsame ▸ h.nodup, hsame ▸ h.subset⟩, hsame ▸ le_rfl⟩
  · have hread : Within I paths ⟨w'.store, w.graph.insert { path, content, references }⟩ :=
      h.insert hpath (Graph.indexOf?_eq_none.1 hindex) hstore
    have hsize := hfollows.size_le
    rw [Graph.size_insert] at hsize
    exact ⟨⟨hstore, hfollows.nodup_paths hread.nodup, hfollows.mem_paths hpaths hread.subset⟩,
      (Nat.le_succ _).trans hsize⟩

variable [FileStore σ] {options : BundleOptions σ}

/-- Following references ends, if going to a module does from a graph as large as this one. -/
theorem isSome_follow [Engine] (h : P.Describes options I)
    (hpaths : ∀ {importer reference path},
      P.leads importer reference (.ok (.module path)) → path ∈ paths)
    {depth bound : Nat}
    (hvisit : ∀ {path} {w : Walk σ}, Within I paths w → path ∈ paths → bound ≤ w.graph.size →
      (visit options depth path w).isSome = true)
    {importer directory : Path} (hparent : importer.parent = .ok directory) {index : Nat}
    {references : List Reference} {w : Walk σ} (hw : Within I paths w)
    (hbound : bound ≤ w.graph.size) :
    (follow options (visit options depth) importer directory index references w).isSome = true := by
  induction references generalizing w with
  | nil => rfl
  | cons reference rest ih =>
    have hleads : P.leads importer reference
        (options.target w.store importer directory reference) := h.leads hw.store hparent
    rw [follow]
    rcases htarget : options.target w.store importer directory reference with e | - | - | path
    · rfl
    · exact ih hw hbound
    · refine ih ⟨hw.store, ?_, ?_⟩ ?_
      · simpa using hw.nodup
      · simpa using hw.subset
      · simpa using hbound
    · rw [htarget] at hleads
      have hpath : path ∈ paths := hpaths hleads
      obtain ⟨⟨outcome, w'⟩, hsome⟩ := Option.isSome_iff_exists.1 (hvisit hw hpath hbound)
      obtain ⟨hstore, houtcome⟩ := visit_spec h hw.store hsome
      simp only [hsome]
      rcases outcome with e | imported
      · rfl
      · obtain ⟨hw', hsize⟩ := hw.of_visits hpaths hpath houtcome hstore
        refine ih ⟨hw'.store, ?_, ?_⟩ ?_
        · simpa using hw'.nodup
        · simpa using hw'.subset
        · simpa using hbound.trans hsize

/-- **A walk ends** that leads to finitely many paths, if its depth and what it has found make up
for them. -/
theorem isSome_visit [Engine] (h : P.Describes options I)
    (hpaths : ∀ {importer reference path},
      P.leads importer reference (.ok (.module path)) → path ∈ paths)
    {depth : Nat} {path : Path} {w : Walk σ} (hw : Within I paths w) (hpath : path ∈ paths)
    (hdepth : paths.length ≤ depth + w.graph.size) :
    (visit options depth path w).isSome = true := by
  induction depth generalizing path w with
  | zero =>
    rw [visit]
    rcases hindex : w.graph.indexOf? path with - | index
    · -- without depth left, everything there is to find was found
      have hlt := hw.size_lt hpath (Graph.indexOf?_eq_none.1 hindex)
      omega
    · rfl
  | succ depth ih =>
    rw [visit]
    rcases hindex : w.graph.indexOf? path with - | index
    · simp only
      have hkept : I (Module.load path w.store).2 := h.keeps hw.store
      rcases hload : Module.load path w.store with ⟨e | m, s⟩
      · rfl
      · rw [hload] at hkept
        have hm : m.path = path := congrArg Module.path (Module.load_eq_ok hload)
        have hread : Within I paths ⟨s, w.graph.insert m⟩ :=
          hw.insert (hm ▸ hpath) (hm ▸ Graph.indexOf?_eq_none.1 hindex) hkept
        rcases hparent : path.parent with e | directory
        · rfl
        · -- one level down, the graph has one module more
          have hdeeper : ∀ {q} {w' : Walk σ}, Within I paths w' → q ∈ paths →
              w.graph.size + 1 ≤ w'.graph.size → (visit options depth q w').isSome = true :=
            fun hw' hq hsize ↦ ih hw' hq (by omega)
          have hfollow : (follow options (visit options depth) path directory w.graph.size
              m.references ⟨s, w.graph.insert m⟩).isSome = true :=
            isSome_follow h hpaths hdeeper hparent hread (Graph.size_insert _ _).ge
          obtain ⟨⟨outcome, w'⟩, hsome⟩ := Option.isSome_iff_exists.1 hfollow
          simp only [hsome]
          rcases outcome with e | _ <;> rfl
    · rfl

end Walk

/-- **A bundle has an answer**, if there is a list of all that its references lead to and the depth
is as large. -/
theorem isSome_collect_of_describes [Engine] {σ : Type} [FileStore σ] {options : BundleOptions σ}
    {I : σ → Prop} {P : Project} {depth : Nat} {entry : Path} {s : σ} (h : P.Describes options I)
    (hs : I (entryPath entry s).2) {paths : List Path}
    (hpaths : ∀ {importer reference path},
      P.leads importer reference (.ok (.module path)) → path ∈ paths)
    (hstart : ∀ {start}, (entryPath entry s).1 = .ok start → start ∈ paths)
    (hdepth : paths.length ≤ depth) : (collect options depth entry s).isSome = true := by
  rw [collect]
  rcases hentry : entryPath entry s with ⟨e | start, s'⟩
  · rfl
  · rw [hentry] at hs hstart
    have hwithin : Walk.Within I paths ⟨s', {}⟩ := ⟨hs, List.nodup_nil, by simp [Graph.paths]⟩
    have hvisit : (Walk.visit options depth start ⟨s', {}⟩).isSome = true :=
      Walk.isSome_visit h hpaths hwithin (hstart rfl) hdepth
    obtain ⟨⟨outcome, w⟩, hsome⟩ := Option.isSome_iff_exists.1 hvisit
    simp only [hsome]
    rcases outcome with e | index <;> rfl

/-- A bundle of files in memory has an answer. -/
theorem isSome_collect [Engine] {options : BundleOptions MemoryStore} {depth : Nat} {entry : Path}
    {s : MemoryStore} (hs : s.Sound) (htree : options.ReadsTree) {paths : List Path}
    (hpaths : ∀ {importer reference path},
      (options.project s).leads importer reference (.ok (.module path)) → path ∈ paths)
    (hstart : ∀ {start}, s.Opens entry start → start ∈ paths) (hdepth : paths.length ≤ depth) :
    (collect options depth entry s).isSome = true :=
  isSome_collect_of_describes (BundleOptions.describes_project hs htree) (hs.entryPath entry) hpaths
    (fun hentry ↦ hstart (hs.fst_entryPath_eq_ok.1 hentry)) hdepth

/-! ### Bundles with a table -/

theorem PackageTable.mem_targets {table : PackageTable} {directory path : Path} {request : String}
    (h : table.resolve directory request = .ok (.module path)) : path ∈ table.targets := by
  rw [resolve] at h
  split at h
  case h_1 file hlookup =>
    obtain rfl := Resolution.module.inj (Except.ok.inj h)
    obtain ⟨before, after, hentries, -⟩ := List.lookup_eq_some_iff.1 hlookup
    exact List.mem_filterMap.2 ⟨(request, .file file), by simp [hentries], rfl⟩
  case h_6 =>
    rw [ExternalPackages.classify] at h
    split at h <;> cases h
  all_goals cases h

/-- A relative request leads to a file that one of its candidates resolves to. -/
theorem Locate.exists_candidate_of_locate {σ : Type} [FileStore σ] {s : σ}
    {directory request path : Path} (h : Locate.locate directory request s = .ok path) :
    ∃ candidate ∈ request :: candidates request,
      FileStore.resolve directory candidate s = .ok path ∧ FileStore.isFile path s = true := by
  rw [locate] at h
  split at h
  case h_1 found hfound =>
    obtain rfl := Except.ok.inj h
    obtain ⟨candidate, hmem, hfile⟩ := List.exists_of_findSome?_eq_some hfound
    rw [file?] at hfile
    split at hfile
    · split at hfile
      · obtain rfl := Option.some.inj hfile
        exact ⟨candidate, hmem, ‹_›, ‹_›⟩
      · cases hfile
    · cases hfile
  case h_2 =>
    split at h <;> cases h

theorem Locate.isFile_of_locate {s : MemoryStore} {directory request path : Path}
    (h : Locate.locate directory request s = .ok path) :
    ∃ id, s.pathOf id = path ∧ FileStore.isFile path s = true := by
  obtain ⟨candidate, -, hresolve, hfile⟩ := exists_candidate_of_locate h
  obtain ⟨id, hid⟩ := MemoryStore.exists_pathOf_of_resolve hresolve
  exact ⟨id, hid, hfile⟩

namespace BundleOptions

/-- All that references can lead to: the files of the store under their canonical paths, and the
paths of the table. -/
def destinations (packages : Option PackageTable) (s : MemoryStore) : List Path :=
  (List.range s.nodes.size).map s.pathOf ++ (packages.map PackageTable.targets).getD []

theorem length_destinations_le (packages : Option PackageTable) (s : MemoryStore) :
    (destinations packages s).length ≤ sufficientDepth packages s := by
  simp [destinations, sufficientDepth, FileStore.fileBound]

theorem mem_destinations [Engine] {packages : Option PackageTable} {followTypes : Bool}
    {s : MemoryStore} (hs : s.Sound) {importer path : Path} {reference : Reference}
    (h : ((ofTable packages followTypes).project s).leads importer reference (.ok (.module path))) :
    path ∈ destinations packages s := by
  obtain ⟨directory, -, h⟩ := h
  obtain ⟨-, ⟨-, hlocate⟩ | ⟨-, hanswer⟩⟩ := destination?_eq_some.1 h
  · obtain ⟨id, rfl, hfile⟩ := Locate.isFile_of_locate hlocate
    exact List.mem_append_left _ (List.mem_map.2
      ⟨id, List.mem_range.2 (hs.lt_size_of_isFile hfile), rfl⟩)
  · rcases packages with - | table
    · cases hanswer
    · exact List.mem_append_right _ (PackageTable.mem_targets (Option.some.inj hanswer))

theorem mem_destinations_of_opens {packages : Option PackageTable} {s : MemoryStore} (hs : s.Sound)
    {entry start : Path} (h : s.Opens entry start) : start ∈ destinations packages s := by
  obtain ⟨⟨handle, opened, hopen⟩, hstart⟩ := h
  obtain ⟨id, data, hid, hdata, -, -, -⟩ := hs.of_openFile hopen
  obtain rfl := Except.ok.inj ((MemoryStore.resolve_root hid).symm.trans hstart)
  refine List.mem_append_left _ (List.mem_map.2 ⟨id, List.mem_range.2 ?_, rfl⟩)
  refine Nat.lt_of_not_le fun hge ↦ ?_
  simp [MemoryStore.data?, MemoryStore.node?, Array.getElem?_eq_none hge] at hdata

end BundleOptions

/-- **A bundle with a table always has an answer.** -/
theorem isSome_bundle [Engine] (packages : Option PackageTable) (followTypes : Bool)
    (entry : Path) {s : MemoryStore} (hs : s.Sound) :
    (bundle packages followTypes entry s).isSome = true :=
  isSome_collect hs (BundleOptions.readsTree_ofTable packages followTypes)
    (BundleOptions.mem_destinations hs) (BundleOptions.mem_destinations_of_opens hs)
    (BundleOptions.length_destinations_le packages s)

end ModuleBundler
