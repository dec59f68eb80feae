import ModuleBundler.Proofs.Bundle.Sources
import ModuleBundler.Syntax.Program

/-!
# A bundle is exact

A bundle of files in memory has the modules that its entry needs, each once, and each module has the
edges that its references name: no module too many, no edge too many, none missing.

Which modules it has was shown of walks in general (`Project.Visits.isLeast_paths`). The edges are
recorded one after the other, and each only when the walk comes back from the module it leads to, so
that the places they name are places of a graph that still grows. `Module.Lists` says that a module
has the edges of the references followed so far, with places read off the paths: these do not change
when modules are put behind the others.
-/

namespace ModuleBundler

/-! ### The edges of a module -/

/-- A module has the edges of `done`, where a reference leads to the module at `destination?`, or
out of the bundle if it is `external`, or nowhere. -/
structure Module.Lists (destination? : Reference → Option Path) (external : Reference → Bool)
    (paths : List Path) (done : List Reference) (m : Module) : Prop where
  /-- The references lead to modules of the graph. -/
  mem : ∀ path ∈ done.filterMap destination?, path ∈ paths
  /-- The places of these modules, each once. -/
  dependencies : m.dependencies = ((done.filterMap destination?).map paths.idxOf).eraseDups
  /-- The requests that are left out, each once. -/
  externals : m.externals = ((done.filter external).map Reference.request).eraseDups

namespace Module.Lists

variable {destination? : Reference → Option Path} {external : Reference → Bool}
  {paths paths' : List Path} {done : List Reference} {m : Module} {reference : Reference}

/-- A module that was read has the edges of no reference yet. -/
theorem nil {path : Path} {content : Bytes} {references : List Reference} :
    Module.Lists destination? external paths [] { path, content, references } :=
  ⟨by simp, rfl, rfl⟩

/-- New modules are put behind the others, so the places stay. -/
theorem mono (h : m.Lists destination? external paths done) (hpaths : paths <+: paths') :
    m.Lists destination? external paths' done where
  mem path hpath := hpaths.subset (h.mem path hpath)
  dependencies := by
    rw [h.dependencies]
    refine congrArg List.eraseDups (List.map_congr_left fun path hpath ↦ ?_)
    exact hpaths.idxOf_eq_of_mem (h.mem path hpath)
  externals := h.externals

/-- One more reference, that leads nowhere. -/
theorem skip (h : m.Lists destination? external paths done)
    (hdestination : destination? reference = none) (hexternal : external reference = false) :
    m.Lists destination? external paths (done ++ [reference]) := by
  have hmodules : (done ++ [reference]).filterMap destination? = done.filterMap destination? := by
    simp [hdestination]
  have hrequests : (done ++ [reference]).filter external = done.filter external := by
    simp [hexternal]
  exact ⟨hmodules ▸ h.mem, hmodules ▸ h.dependencies, hrequests ▸ h.externals⟩

/-- One more reference, that is left out of the bundle. -/
theorem addExternal (h : m.Lists destination? external paths done)
    (hdestination : destination? reference = none) (hexternal : external reference = true) :
    (m.addExternal reference.request).Lists destination? external paths (done ++ [reference]) := by
  have hmodules : (done ++ [reference]).filterMap destination? = done.filterMap destination? := by
    simp [hdestination]
  refine ⟨hmodules ▸ h.mem, hmodules ▸ h.dependencies, ?_⟩
  rw [Module.addExternal, h.externals, addNew_eraseDups]
  simp [hexternal]

/-- One more reference, that leads to a module. -/
theorem addDependency (h : m.Lists destination? external paths done) {path : Path}
    (hdestination : destination? reference = some path) (hexternal : external reference = false)
    (hpath : path ∈ paths) :
    (m.addDependency (paths.idxOf path)).Lists destination? external paths
      (done ++ [reference]) := by
  have hmodules :
      (done ++ [reference]).filterMap destination? = done.filterMap destination? ++ [path] := by
    simp [hdestination]
  have hrequests : (done ++ [reference]).filter external = done.filter external := by
    simp [hexternal]
  refine ⟨fun q hq ↦ ?_, ?_, hrequests ▸ h.externals⟩
  · rw [hmodules] at hq
    rcases List.mem_append.1 hq with hq | hq
    · exact h.mem q hq
    · exact List.mem_singleton.1 hq ▸ hpath
  · rw [Module.addDependency, h.dependencies, addNew_eraseDups, hmodules, List.map_append]
    rfl

end Module.Lists

/-- Two modules are the same file, whatever edges they have. -/
def Module.SameFile (m m' : Module) : Prop :=
  m'.path = m.path ∧ m'.content = m.content ∧ m'.references = m.references

namespace Project

variable {P : Project} {index : Nat} {importer : Path} {references : List Reference} {g g' : Graph}
  {destination? : Reference → Option Path} {external : Reference → Bool}

/-- Where the references of a module lead to is read off two functions. -/
structure Tells (P : Project) (importer : Path) (destination? : Reference → Option Path)
    (external : Reference → Bool) : Prop where
  of_skipped : ∀ {reference}, P.leads importer reference (.ok .skipped) →
    destination? reference = none ∧ external reference = false
  of_external : ∀ {reference}, P.leads importer reference (.ok .external) →
    destination? reference = none ∧ external reference = true
  of_module : ∀ {reference path}, P.leads importer reference (.ok (.module path)) →
    destination? reference = some path ∧ external reference = false

/-- **Following references records their edges**, behind those that the module has. -/
theorem Follows.exists_lists (h : P.Follows index importer references g g')
    (htells : P.Tells importer destination? external) {m : Module} {done : List Reference}
    (hm : g.modules[index]? = some m) (hlists : m.Lists destination? external g.paths done) :
    ∃ m', g'.modules[index]? = some m' ∧ m.SameFile m' ∧
      m'.Lists destination? external g'.paths (done ++ references) := by
  induction h generalizing m done with
  | nil => exact ⟨m, hm, ⟨rfl, rfl, rfl⟩, by rwa [List.append_nil]⟩
  | skipped hleads _ ih =>
    obtain ⟨hdestination, hexternal⟩ := htells.of_skipped hleads
    have hnext := ih htells hm (hlists.skip hdestination hexternal)
    rwa [List.append_assoc] at hnext
  | @external index _ reference _ g _ hleads _ ih =>
    obtain ⟨hdestination, hexternal⟩ := htells.of_external hleads
    have hrecorded : (m.addExternal reference.request).Lists destination? external
        (g.addExternal index reference.request).paths (done ++ [reference]) := by
      rw [Graph.paths_addExternal]
      exact hlists.addExternal hdestination hexternal
    have hnext := ih htells (Graph.getElem?_addExternal hm _) hrecorded
    rwa [List.append_assoc] at hnext
  | @known index imported _ path reference _ g _ hleads hindex _ ih =>
    obtain ⟨hdestination, hexternal⟩ := htells.of_module hleads
    obtain ⟨hpath, rfl⟩ := Graph.indexOf?_eq_some.1 hindex
    have hrecorded : (m.addDependency (g.paths.idxOf path)).Lists destination? external
        (g.addDependency index (g.paths.idxOf path)).paths (done ++ [reference]) := by
      rw [Graph.paths_addDependency]
      exact hlists.addDependency hdestination hexternal hpath
    have hnext := ih htells (Graph.getElem?_addDependency hm _) hrecorded
    rwa [List.append_assoc] at hnext
  | @found index importer path reference _ _ _ g found _ hleads hnone _ hinner _ _ ih =>
    obtain ⟨hdestination, hexternal⟩ := htells.of_module hleads
    have hindex : index < g.size := (List.getElem?_eq_some_iff.1 hm).1
    have hprefix := hinner.paths_prefix
    rw [Graph.paths_insert] at hprefix
    -- the new module stands behind the others, and what is found from it behind that
    have hpath : path ∈ found.paths := hinner.mem_paths_of_insert
    have hplace : found.paths.idxOf path = g.size := by
      rw [← hprefix.idxOf_eq_of_mem (List.mem_append_right _ (List.mem_singleton_self _)),
        List.idxOf_append_of_notMem (Graph.indexOf?_eq_none.1 hnone), g.length_paths]
      simp
    -- the edge is recorded on the module as it was before the walk went down
    have hkept : found.modules[index]? = some m := (hinner.getElem?_of_insert hindex).trans hm
    have hrecorded : (m.addDependency g.size).Lists destination? external
        (found.addDependency index g.size).paths (done ++ [reference]) := by
      rw [Graph.paths_addDependency, ← hplace]
      exact (hlists.mono hinner.paths_prefix_of_insert).addDependency hdestination hexternal hpath
    have hnext := ih htells (Graph.getElem?_addDependency hkept _) hrecorded
    rwa [List.append_assoc] at hnext

/-- **A module that was found has the edges of its references.** -/
theorem Found.exists_lists {i : Nat} (h : P.Found g i) {m : Module} (hm : g.modules[i]? = some m)
    (htells : P.Tells m.path destination? external) :
    P.reads m.path (.ok (m.content, m.references)) ∧
      m.Lists destination? external g.paths m.references := by
  obtain ⟨path, content, references, before, after, rfl, hreads, hfollows, hprefix, hsame⟩ := h
  obtain rfl : path = m.path := by
    have hpath := Graph.getElem?_paths_of_insert (hfollows.paths_prefix.trans hprefix)
    rw [Graph.paths, List.getElem?_map, hm] at hpath
    exact (Option.some.inj hpath).symm
  obtain ⟨m', hm', ⟨-, hcontent, hreferences⟩, hlists⟩ :=
    hfollows.exists_lists htells (Graph.getElem?_insert_size _ _) .nil
  obtain rfl : m = m' := Option.some.inj (hm.symm.trans (hsame.trans hm'))
  obtain rfl : m.content = content := hcontent
  obtain rfl : m.references = references := hreferences
  exact ⟨hreads, hlists.mono hprefix⟩

end Project

namespace BundleOptions

variable {options : BundleOptions MemoryStore} {s : MemoryStore}

theorem tells_project [Engine] {importer directory : Path}
    (hparent : importer.parent = .ok directory) :
    (options.project s).Tells importer (options.destination? s directory)
      (options.isExternal s directory) where
  of_skipped := by
    rintro reference ⟨directory', hparent', h⟩
    obtain rfl := Except.ok.inj (hparent.symm.trans hparent')
    have hfollowed : options.isFollowed reference = false := h
    simp [destination?, isExternal, hfollowed]
  of_external := by
    rintro reference ⟨directory', hparent', h⟩
    obtain rfl := Except.ok.inj (hparent.symm.trans hparent')
    refine ⟨Option.eq_none_iff_forall_ne_some.2 fun path hpath ↦ ?_, h⟩
    have hmodule : options.Answers s importer directory reference (.ok (.module path)) := hpath
    cases h.eq_target.trans hmodule.eq_target.symm
  of_module := by
    rintro reference path ⟨directory', hparent', h⟩
    obtain rfl := Except.ok.inj (hparent.symm.trans hparent')
    refine ⟨h, Bool.eq_false_iff.2 fun hpath ↦ ?_⟩
    have hexternal : options.Answers s importer directory reference (.ok .external) := hpath
    cases h.eq_target.trans hexternal.eq_target.symm

end BundleOptions

/-- **A bundle is exact.** Its first module is the file at the entry, under its canonical path; no
path is there twice, and the paths are the least set that has this one and is closed under the
references that are followed. Each module has the content and the references of its file. Its
dependencies are the places of the modules that its references lead to, and its externals the
requests that are left out, both in the order of the references and without repeats. -/
theorem collect_exact [Engine] (options : BundleOptions MemoryStore) (depth : Nat) (entry : Path)
    (s s' : MemoryStore) (g : Graph) (hs : s.Reachable) (htree : options.ReadsTree)
    (h : collect options depth entry s = some (.ok g, s')) :
    ∃ start, s.Opens entry start ∧ g.paths.head? = some start ∧ g.paths.Nodup ∧
      IsLeast {S | (options.project s).Closed start S} {p | p ∈ g.paths} ∧
      ∀ m ∈ g.modules, s.source m.path = .ok (m.content, m.references) ∧
        ∃ directory, m.path.parent = .ok directory ∧
          m.dependencies = ((m.references.filterMap (options.destination? s directory)).map
            g.paths.idxOf).eraseDups ∧
          (∀ v ∈ m.dependencies, v < g.size) ∧
          m.externals = ((m.references.filter (options.isExternal s directory)).map
            Reference.request).eraseDups := by
  have hsound : s.Sound := hs.sound
  obtain ⟨start, hentry, hvisits⟩ := BundleOptions.exists_visits_of_collect hsound htree h
  refine ⟨start, hentry, hvisits.head?_paths, hvisits.nodup_paths,
    hvisits.isLeast_paths (options.functional_project s), fun m hm ↦ ?_⟩
  obtain ⟨i, hi⟩ := List.mem_iff_getElem?.1 hm
  have hfound := hvisits.found_of_lt (List.getElem?_eq_some_iff.1 hi).1
  -- the file was read, so that it is not the root
  obtain ⟨directory, hparent⟩ : ∃ directory, m.path.parent = .ok directory := by
    have hpath : g.paths[i]? = some m.path := by rw [Graph.paths, List.getElem?_map, hi]; rfl
    obtain ⟨content, references, hsource, -⟩ := hfound.exists_lead hpath
    exact hsound.exists_parent_of_source hsource
  obtain ⟨hsource, hlists⟩ := hfound.exists_lists hi (options.tells_project hparent)
  refine ⟨hsource, directory, hparent, hlists.dependencies, fun v hv ↦ ?_, hlists.externals⟩
  rw [hlists.dependencies] at hv
  obtain ⟨path, hpath, rfl⟩ := List.mem_map.1 (List.mem_eraseDups.1 hv)
  exact g.length_paths ▸ List.idxOf_lt_length_of_mem (hlists.mem path hpath)

/-- The bundle of the sample store has the modules that its entry needs. -/
theorem collect_exact_sampleStore :
    MemoryStore.sampleStore.Reachable ∧ sampleOptions.ReadsTree ∧
      ∃ g s', collect sampleOptions 2 ⟨true, ["a.ts"]⟩ MemoryStore.sampleStore = some (.ok g, s') ∧
        ∃ start, g.paths.head? = some start ∧
          IsLeast {S | (sampleOptions.project MemoryStore.sampleStore).Closed start S}
            {p | p ∈ g.paths} := by
  have hreachable := MemoryStore.reachable_sampleStore
  have htree : sampleOptions.ReadsTree := BundleOptions.readsTree_ofTable _ _
  obtain ⟨g, s', hcollect, -⟩ := exists_collect_sampleStore
  obtain ⟨start, -, hhead, -, hleast, -⟩ := collect_exact _ _ _ _ _ g hreachable htree hcollect
  exact ⟨hreachable, htree, g, s', hcollect, start, hhead, hleast⟩

end ModuleBundler
