import ModuleBundler.Proofs.Bundle.Ending
import ModuleBundler.Proofs.Store.Resolving
import ModuleBundler.Syntax.Program

/-!
# One module for each file

A graph tells its modules apart by their paths. Whether it tells files apart thereby depends on
where the paths come from, and there are three ways into a graph: the entry is opened and known by
the path it opened under, a relative request is resolved, and a resolver answers a package request.
The first two give the path of a slot, which is canonical; and a canonical path that leads to a file
is the one path of this file (`MemoryStore.Tree.pathOf_of_lookup`). The answer of a resolver is
taken as it is.

So a graph has one module for each file, `Graph.OnePerFile`, **if the resolver answers canonically,
and not otherwise** (`collect_onePerFile`). A resolver need not: `not_onePerFile_aliasStore` is a
bundle with a file that is recorded twice.

The resolver may look at the open handles here, so that there need not be one answer to each
request. What is used of a walk is only that each path of the graph was linked to from a path of the
graph (`Project.Visits.exists_link`).
-/

namespace ModuleBundler

namespace Project

variable {P : Project} {index : Nat} {importer path start : Path} {references : List Reference}
  {g g' : Graph}

/-- What a walk along references of a module finds is linked to from what the graph then has. -/
theorem Follows.exists_link (h : P.Follows index importer references g g') {content : Bytes}
    {all : List Reference} (hreads : P.reads importer (.ok (content, all)))
    (hall : references ⊆ all) (himporter : importer ∈ g.paths) (hpath : path ∈ g'.paths) :
    path ∈ g.paths ∨ ∃ p ∈ g'.paths, P.Links p path := by
  induction h generalizing content all with
  | nil => exact Or.inl hpath
  | skipped _ _ ih => exact ih hreads (List.subset_of_cons_subset hall) himporter hpath
  | external _ _ ih =>
    rw [Graph.paths_addExternal] at ih
    exact ih hreads (List.subset_of_cons_subset hall) himporter hpath
  | known _ _ _ ih =>
    rw [Graph.paths_addDependency] at ih
    exact ih hreads (List.subset_of_cons_subset hall) himporter hpath
  | @found index importer imported reference _ references rest g found g' hleads _ hread hinner
      hrest ihinner ihrest =>
    have hkept : g.paths ⊆ found.paths := hinner.paths_prefix_of_insert.subset
    have hgrown : found.paths ⊆ g'.paths := hrest.paths_prefix_of_addDependency.subset
    rw [Graph.paths_addDependency] at ihrest
    rw [Graph.paths_insert] at ihinner
    -- found after the new module, or from it, or there before, or the new module itself
    rcases ihrest hreads (List.subset_of_cons_subset hall) (hkept himporter) hpath
      with hfound | hlinked
    · rcases ihinner hread (List.Subset.refl _)
        (List.mem_append_right _ (List.mem_singleton_self _)) hfound with hold | ⟨p, hp, hlink⟩
      · rcases List.mem_append.1 hold with hold | hnew
        · exact Or.inl hold
        · obtain rfl := List.mem_singleton.1 hnew
          exact Or.inr ⟨importer, hgrown (hkept himporter), content, all, reference, hreads,
            hall List.mem_cons_self, hleads⟩
      · exact Or.inr ⟨p, hgrown hp, hlink⟩
    · exact Or.inr hlinked

/-- **Each module of a graph is the start or linked to from a module of the graph.** -/
theorem Visits.exists_link (h : P.Visits start {} index g) (hpath : path ∈ g.paths) :
    path = start ∨ ∃ p ∈ g.paths, P.Links p path := by
  obtain ⟨hindex, -⟩ | ⟨-, -, content, references, hreads, hfollows⟩ := h
  · cases hindex
  · rcases hfollows.exists_link hreads (List.Subset.refl _) (List.mem_singleton_self _) hpath
      with hstart | hlinked
    · exact Or.inl (List.mem_singleton.1 hstart)
    · exact Or.inr hlinked

/-- Each module of a graph was read. -/
theorem Visits.reads_of_mem (h : P.Visits start {} index g) (hpath : path ∈ g.paths) :
    ∃ content references, P.reads path (.ok (content, references)) := by
  obtain ⟨i, hi⟩ := List.mem_iff_getElem?.1 hpath
  have hlt : i < g.size := g.length_paths ▸ (List.getElem?_eq_some_iff.1 hi).1
  obtain ⟨content, references, hreads, -⟩ := (h.found_of_lt hlt).exists_lead hi
  exact ⟨content, references, hreads⟩

end Project

/-! ### Where paths come from -/

namespace MemoryStore

variable {s : MemoryStore} {path : Path}

/-- What a path resolves to is canonical. -/
theorem Tree.isCanonical_of_resolve (h : s.Tree) {context relative : Path}
    (hresolve : FileStore.resolve context relative s = .ok path) : path.isCanonical = true := by
  obtain ⟨id, rfl⟩ := exists_pathOf_of_resolve hresolve
  exact h.isCanonical_pathOf id

theorem Tree.isCanonical_of_locate (h : s.Tree) {directory request : Path}
    (hlocate : Locate.locate directory request s = .ok path) : path.isCanonical = true := by
  obtain ⟨id, rfl, -⟩ := Locate.isFile_of_locate hlocate
  exact h.isCanonical_pathOf id

/-- An entry opens where it resolves to a file, and is known by the path that it resolves to. -/
theorem Tree.opens_iff (h : s.Tree) {entry : Path} : s.Opens entry path ↔
    FileStore.resolve Path.root entry s = .ok path ∧
      ∃ data, s.catalog path = some (.file data) := by
  rw [Opens, openFile_iff]
  simp only [h.contentAt_iff]
  constructor
  · rintro ⟨⟨data, q, hq, hfile⟩, hpath⟩
    obtain rfl := Except.ok.inj (hq.symm.trans hpath)
    exact ⟨hpath, data, hfile⟩
  · rintro ⟨hpath, data, hfile⟩
    exact ⟨⟨data, path, hpath, hfile⟩, hpath⟩

/-- What says something is a file. -/
theorem Sound.exists_file_of_source [Engine] (h : s.Sound) {content : Bytes}
    {references : List Reference} (hsource : s.source path = .ok (content, references)) :
    ∃ id, s.lookup path = .ok id ∧ s.holdsFile id = true := by
  obtain ⟨id, hid, hdata⟩ := contentAt_eq_ok.1 (h.source_eq_ok.1 hsource).1
  exact ⟨id, hid, by rw [← isSome_data?, hdata]; rfl⟩

end MemoryStore

/-- Every module is a file of the store, known by a canonical path, and no file is there twice. -/
structure Graph.OnePerFile (g : Graph) (s : MemoryStore) : Prop where
  /-- Paths are canonical. -/
  canonical : ∀ p ∈ g.paths, p.isCanonical = true
  /-- Every path leads to a file. -/
  file : ∀ p ∈ g.paths, ∃ id, s.lookup p = .ok id ∧ s.holdsFile id = true
  /-- No two paths lead to the same file. -/
  distinct : ∀ {i j id : Nat} {p q : Path}, g.paths[i]? = some p → g.paths[j]? = some q →
    s.lookup p = .ok id → s.lookup q = .ok id → i = j

namespace BundleOptions

variable {options : BundleOptions MemoryStore} {s s' : MemoryStore} {entry : Path} {depth : Nat}
  {g : Graph}

/-- The paths that the resolver answers to the package requests of a graph are canonical, whatever
is open in the store when it is asked. -/
def AnswersCanonically [Engine] (options : BundleOptions MemoryStore) (s : MemoryStore)
    (g : Graph) : Prop :=
  ∀ importer ∈ g.paths, ∀ content references, s.source importer = .ok (content, references) →
    ∀ reference ∈ references, options.isFollowed reference = true → reference.isRelative = false →
    ∀ directory, importer.parent = .ok directory → ∀ s', s.SameTree s' →
    ∀ path, options.answer? s' directory reference.request = some (.ok (.module path)) →
      path.isCanonical = true

/-- The answers that the store and the resolver may give, whatever is open. -/
def possible [Engine] (options : BundleOptions MemoryStore) (s : MemoryStore) : Project where
  reads path answer := s.source path = answer
  leads importer reference answer :=
    ∃ s' directory, s.SameTree s' ∧ importer.parent = .ok directory ∧
      options.Answers s' importer directory reference answer

theorem describes_possible [Engine] (hs : s.Sound) :
    (options.possible s).Describes options fun s' ↦ s'.Sound ∧ s.SameTree s' where
  keeps {path _} hs' := hs'.1.load_module hs'.2 path
  reads {path _} hs' := hs.source_eq_visited hs'.1 hs'.2 path
  leads {_ directory s' _} hs' hparent := ⟨s', directory, hs'.2, hparent, answers_target⟩

theorem answer?_of_sameTree (htree : options.ReadsTree) (h : s.SameTree s') (directory : Path)
    (request : String) :
    options.answer? s' directory request = options.answer? s directory request := by
  rw [answer?_congr fun resolver hresolver ↦ htree resolver hresolver s s' h]

theorem answersCanonically_ofTable [Engine] {packages : Option PackageTable} {followTypes : Bool}
    (h : ∀ table ∈ packages, ∀ path ∈ table.targets, path.isCanonical = true) (s : MemoryStore)
    (g : Graph) : (ofTable packages followTypes).AnswersCanonically s g := by
  intro _ _ _ _ _ _ _ _ _ directory _ s' _ path hanswer
  rcases packages with - | table
  · cases hanswer
  · exact h table rfl path (PackageTable.mem_targets (Option.some.inj hanswer))

/-- Only what the resolver answers can make a path of the graph not canonical. -/
theorem isCanonical_of_mem_paths [Engine] (hs : s.Tree)
    (hanswers : options.AnswersCanonically s g) {start : Path} (hopens : s.Opens entry start)
    (hvisits : (options.possible s).Visits start {} 0 g) {p : Path} (hp : p ∈ g.paths) :
    p.isCanonical = true := by
  rcases hvisits.exists_link hp with rfl | ⟨importer, himporter, content, references, reference,
    hsource, hmem, s', directory, hsame, hparent, hleads⟩
  · exact hs.isCanonical_of_resolve hopens.2
  · obtain ⟨hfollowed, ⟨-, hlocate⟩ | ⟨hrelative, hanswer⟩⟩ := destination?_eq_some.1 hleads
    · rw [locate_of_sameTree hsame] at hlocate
      exact hs.isCanonical_of_locate hlocate
    · exact hanswers importer himporter content references hsource reference hmem hfollowed
        hrelative directory hparent s' hsame p hanswer

end BundleOptions

/-- **A graph has one module for each file if the resolver answers canonically**, and for a resolver
that goes by the tree of the store only if it does. -/
theorem collect_onePerFile [Engine] {options : BundleOptions MemoryStore} {depth : Nat}
    {entry : Path} {s s' : MemoryStore} {g : Graph} (hs : s.InUse)
    (h : collect options depth entry s = some (.ok g, s')) :
    (options.AnswersCanonically s g → g.OnePerFile s) ∧
      (options.ReadsTree → g.OnePerFile s → options.AnswersCanonically s g) := by
  obtain ⟨start, hopens, hvisits⟩ :=
    BundleOptions.exists_visits_of_describes hs.sound
      (BundleOptions.describes_possible hs.sound) h
  constructor
  · intro hanswers
    have hcanonical : ∀ p ∈ g.paths, p.isCanonical = true := fun p hp ↦
      BundleOptions.isCanonical_of_mem_paths hs.tree hanswers hopens hvisits hp
    refine ⟨hcanonical, fun p hp ↦ ?_, ?_⟩
    · obtain ⟨content, references, hsource⟩ := hvisits.reads_of_mem hp
      exact hs.sound.exists_file_of_source hsource
    · intro i j id p q hi hj hp hq
      -- a canonical path that leads to the file is the path of the file
      have hpath : p = q :=
        (hs.tree.pathOf_of_lookup (hcanonical p (List.mem_of_getElem? hi)) hp).symm.trans
          (hs.tree.pathOf_of_lookup (hcanonical q (List.mem_of_getElem? hj)) hq)
      have hlt : i < g.paths.length := (List.getElem?_eq_some_iff.1 hi).1
      exact (List.getElem?_inj hlt hvisits.nodup_paths).1 (hi.trans (hpath ▸ hj.symm))
  · intro htree hone importer himporter content references hsource reference hmem hfollowed
      hrelative directory hparent s'' hsame path hanswer
    obtain ⟨start, -, hvisits⟩ := BundleOptions.exists_visits_of_collect hs.sound htree h
    have hclosed := (hvisits.isLeast_paths (BundleOptions.functional_project options s)).1
    rw [BundleOptions.answer?_of_sameTree htree hsame] at hanswer
    have hleads : options.destination? s directory reference = some path :=
      BundleOptions.destination?_eq_some.2 ⟨hfollowed, Or.inr ⟨hrelative, hanswer⟩⟩
    exact hone.canonical path (hclosed.2 importer himporter path
      ⟨content, references, reference, hsource, hmem, directory, hparent, hleads⟩)

/-- A package of the sample store that stands for one of its files. -/
theorem collect_onePerFile_sampleStore :
    MemoryStore.sampleStore.InUse ∧
    ∃ g s', collect (.ofTable (some ⟨[("x", .file ⟨true, ["b.ts"]⟩)], ⟨[]⟩⟩) false) 2
        ⟨true, ["a.ts"]⟩ MemoryStore.sampleStore = some (.ok g, s') ∧
      g.paths = [⟨true, ["a.ts"]⟩, ⟨true, ["b.ts"]⟩] ∧ g.OnePerFile MemoryStore.sampleStore := by
  have hs : MemoryStore.sampleStore.InUse := FileStore.ReachableOn.start.run (by decide)
  have hrun : ∃ g s', collect (.ofTable (some ⟨[("x", .file ⟨true, ["b.ts"]⟩)], ⟨[]⟩⟩) false) 2
        ⟨true, ["a.ts"]⟩ MemoryStore.sampleStore = some (.ok g, s') ∧
      g.paths = [⟨true, ["a.ts"]⟩, ⟨true, ["b.ts"]⟩] :=
    exists_of_map_collect (by decide +kernel)
  obtain ⟨g, s', hcollect, hpaths⟩ := hrun
  refine ⟨hs, g, s', hcollect, hpaths, (collect_onePerFile hs hcollect).1 ?_⟩
  refine BundleOptions.answersCanonically_ofTable (fun table htable path hpath ↦ ?_) _ _
  obtain rfl := Option.some.inj htable
  obtain rfl : path = ⟨true, ["b.ts"]⟩ := List.mem_singleton.1 hpath
  rfl

/-- A file that imports another one twice: by a relative request, and by a package. -/
def aliasStore : MemoryStore :=
  Operation.run
    [.makeDirectories ⟨true, ["lib"]⟩,
      .save ⟨true, ["a.ts"]⟩ (Utf8.encode "import './b'; import 'x';"),
      .save ⟨true, ["b.ts"]⟩ []] .empty

/-- The package stands for the file, by way of a directory beside it. -/
def aliasOptions : BundleOptions MemoryStore :=
  .ofTable (some ⟨[("x", .file ⟨true, ["lib", "..", "b.ts"]⟩)], ⟨[]⟩⟩) false

/-- **A graph may have two modules for one file**, where a package table says so. -/
theorem not_onePerFile_aliasStore :
    aliasStore.InUse ∧
    (∃ id, aliasStore.lookup ⟨true, ["b.ts"]⟩ = .ok id ∧
      aliasStore.lookup ⟨true, ["lib", "..", "b.ts"]⟩ = .ok id) ∧
    ∃ g s', collect aliasOptions 3 ⟨true, ["a.ts"]⟩ aliasStore = some (.ok g, s') ∧
      g.paths = [⟨true, ["a.ts"]⟩, ⟨true, ["b.ts"]⟩, ⟨true, ["lib", "..", "b.ts"]⟩] ∧
      ¬ g.OnePerFile aliasStore := by
  have hs : aliasStore.InUse := FileStore.ReachableOn.start.run (by decide)
  have hrun : ∃ g s', collect aliasOptions 3 ⟨true, ["a.ts"]⟩ aliasStore = some (.ok g, s') ∧
      g.paths = [⟨true, ["a.ts"]⟩, ⟨true, ["b.ts"]⟩, ⟨true, ["lib", "..", "b.ts"]⟩] :=
    exists_of_map_collect (by decide +kernel)
  obtain ⟨g, s', hcollect, hpaths⟩ := hrun
  refine ⟨hs, ⟨3, by rfl, by rfl⟩, g, s', hcollect, hpaths, fun hone ↦ ?_⟩
  have hcanonical := hone.canonical ⟨true, ["lib", "..", "b.ts"]⟩ (by rw [hpaths]; simp)
  revert hcanonical
  decide

end ModuleBundler
