import Mathlib.Data.Finset.Card
import ModuleBundler.Proofs.Bundle.Depth
import ModuleBundler.Proofs.Bundle.Ending
import ModuleBundler.Proofs.Bundle.Identity
import ModuleBundler.Proofs.Resolution.Probing
import ModuleBundler.Syntax.Program

/-!
# What a bundle leaves behind

Collecting a bundle does nothing to a store but read files. In memory, reading a file that opens
uses up the number of one handle, and reading any other does nothing at all. So whether a bundle is
collected or fails, and however deep it fails, the files are what they were and the same handles are
open (`collect_readOnly`). Nothing is asked of the resolver for this.

A bundle that succeeds has used up one number for the entry, and one for each of its modules, since
each is read once. And where it is known to which paths packages lead, a bundle ends at a depth that
can be told from the number of files (`collect_ends`): a reference leads to a file by its canonical
path, or to a path that is the answer of the resolver.
-/

namespace ModuleBundler

namespace MemoryStore

variable {s : MemoryStore} {path : Path}

/-- Reading files uses up one number for each, if all of them can be read. -/
theorem Sound.run_load (hs : s.Sound) {paths : List Path}
    (hpaths : ∀ path ∈ paths, ∃ data, s.contentAt path = .ok data) :
    Operation.run (paths.map .load) s = s.skip paths.length := by
  induction paths generalizing s with
  | nil => rfl
  | cons path rest ih =>
    obtain ⟨data, hdata⟩ := hpaths path List.mem_cons_self
    have hload : (Operation.load path).apply s = s.skip 1 := by
      rw [Operation.apply, hs.load_eq_ok hdata]
    have hrest : ∀ p ∈ rest, ∃ data, (s.skip 1).contentAt p = .ok data := by
      intro p hp
      rw [(s.sameTree_skip 1).contentAt]
      exact hpaths p (List.mem_cons_of_mem _ hp)
    calc Operation.run ((path :: rest).map .load) s
        = Operation.run (rest.map .load) (s.skip 1) := by rw [← hload]; rfl
      _ = (s.skip 1).skip rest.length := ih (hs.skip 1) hrest
      _ = s.skip (path :: rest).length := by rw [skip_skip, List.length_cons, Nat.add_comm]

end MemoryStore

/-- All that collecting a bundle changes is what number comes next. -/
theorem exists_skip_of_collect [Engine] {options : BundleOptions MemoryStore} {depth : Nat}
    {entry : Path} {s s' : MemoryStore} {outcome : Except Error Graph} (hs : s.Sound)
    (h : collect options depth entry s = some (outcome, s')) : ∃ n, s' = s.skip n := by
  have hkeeps : ∀ {path : Path} {s₁ : MemoryStore}, (∃ n, s₁ = s.skip n) →
      ∃ n, (Module.load path s₁).2 = s.skip n := by
    rintro path _ ⟨n, rfl⟩
    obtain ⟨m, hload⟩ := (hs.skip n).snd_load_module path
    exact ⟨n + m, by rw [hload, MemoryStore.skip_skip]⟩
  exact collect_keeps (I := fun s₁ ↦ ∃ n, s₁ = s.skip n) hkeeps (hs.snd_entryPath entry) h

/-- **Collecting a bundle only reads.** Whatever is open in the store and whatever the resolver
answers, and whether there is a graph or an error in the end: the files and directories are the
same, with the same contents, the same handles are open and lead to the same files, and only the
number of the next handle may be larger. -/
theorem collect_readOnly [Engine] (options : BundleOptions MemoryStore) (depth : Nat)
    (entry : Path) (s s' : MemoryStore) (outcome : Except Error Graph) (hs : s.Reachable)
    (h : collect options depth entry s = some (outcome, s')) :
    s'.nodes = s.nodes ∧ s'.catalog = s.catalog ∧ s'.handles.entries = s.handles.entries ∧
      s.handles.next ≤ s'.handles.next := by
  obtain ⟨n, rfl⟩ := exists_skip_of_collect hs.sound h
  exact ⟨rfl, (s.sameTree_skip n).catalog, rfl, Nat.le_add_right _ _⟩

/-- A store in which a file is open. The file imports another one, which names a package. -/
def openedStore : MemoryStore :=
  Operation.run
    [.save ⟨true, ["a.ts"]⟩ (Utf8.encode "import './b';"),
      .save ⟨true, ["b.ts"]⟩ (Utf8.encode "import 'x';"),
      .openFile ⟨true, ["a.ts"]⟩] .empty

/-- A bundle that fails one level down, while a file is open. -/
theorem collect_readOnly_openedStore :
    openedStore.Reachable ∧ openedStore.handles.size = 1 ∧
    ∃ s', collect (.ofTable none false) 3 ⟨true, ["a.ts"]⟩ openedStore =
        some (.error (.unsupportedImport "x" ⟨true, ["b.ts"]⟩), s') ∧
      s'.nodes = openedStore.nodes ∧ s'.catalog = openedStore.catalog ∧
      s'.handles.entries = openedStore.handles.entries ∧
      openedStore.handles.next ≤ s'.handles.next := by
  have hs : openedStore.Reachable := FileStore.Reachable.start.run _
  have hrun : (collect (.ofTable none false) 3 ⟨true, ["a.ts"]⟩ openedStore).map Prod.fst =
      some (.error (.unsupportedImport "x" ⟨true, ["b.ts"]⟩)) := by
    decide +kernel
  obtain ⟨⟨outcome, s'⟩, hcollect, rfl⟩ := Option.map_eq_some_iff.1 hrun
  exact ⟨hs, by decide +kernel, s', hcollect, collect_readOnly _ _ _ _ _ _ hs hcollect⟩

/-! ### Ends and numbers -/

namespace BundleOptions

/-- The paths of modules that the resolver answers with are among `targets`. -/
def AnswersIn (options : BundleOptions MemoryStore) (targets : Finset Path) : Prop :=
  ∀ resolver, options.resolver = some resolver → ∀ s directory request path,
    resolver s directory request = .ok (.module path) → path ∈ targets

theorem answersIn_ofTable (packages : Option PackageTable) (followTypes : Bool) :
    AnswersIn (.ofTable packages followTypes)
      ((packages.map PackageTable.targets).getD []).toFinset := by
  intro resolver hresolver s directory request path hanswer
  obtain ⟨table, rfl, rfl⟩ := Option.map_eq_some_iff.1 hresolver
  exact List.mem_toFinset.2 (PackageTable.mem_targets hanswer)

variable {options : BundleOptions MemoryStore} {targets : Finset Path} {s : MemoryStore}

/-- A reference leads to a file, by its canonical path, or to one of the targets. -/
theorem AnswersIn.file_or_mem [Engine] (h : options.AnswersIn targets) (hs : s.Tree)
    {importer path : Path} {reference : Reference}
    (hleads : (options.project s).leads importer reference (.ok (.module path))) :
    (∃ data, s.catalog path = some (.file data)) ∨ path ∈ targets := by
  obtain ⟨directory, -, hleads⟩ := hleads
  obtain ⟨-, ⟨-, hlocate⟩ | ⟨-, hanswer⟩⟩ := destination?_eq_some.1 hleads
  · exact Or.inl (hs.isCanonical_and_file_of_locate hlocate).2
  · obtain ⟨resolver, hresolver, hanswer⟩ := Option.map_eq_some_iff.1 hanswer
    exact Or.inr (h resolver hresolver s directory reference.request path hanswer)

end BundleOptions

/-- The files of a store and some more paths are no more than these together. -/
theorem MemoryStore.Tree.exists_files_or_mem {s : MemoryStore} (h : s.Tree)
    (targets : Finset Path) : ∃ paths : Finset Path,
      (∀ path, (∃ data, s.catalog path = some (.file data)) ∨ path ∈ targets → path ∈ paths) ∧
      paths.card ≤ (FileStore.stat s).files + targets.card := by
  have hfinite : {path | ∃ data, s.catalog path = some (.file data)}.Finite := by
    refine h.finite_catalog.subset ?_
    rintro path ⟨data, hfile⟩
    exact Option.ne_none_iff_exists'.2 ⟨_, hfile⟩
  have hcard : hfinite.toFinset.card = (FileStore.stat s).files :=
    (Set.ncard_eq_toFinset_card _ hfinite).symm.trans h.fileCount_eq.symm
  refine ⟨hfinite.toFinset ∪ targets, fun path hpath ↦ ?_, ?_⟩
  · exact Finset.mem_union.2 (hpath.imp_left hfinite.mem_toFinset.2)
  · exact hcard ▸ Finset.card_union_le _ _

/-- **Bundles end, and read each module once.** Where the answers of the resolver are among finitely
many paths, there is an answer for all depths from the number of the files and these paths on. If it
is a graph, the store is as it was but for the numbers of handles: one for the entry, and one for
each of the modules, which are read in the order of the graph, none of them twice. They are no more
than the files and the paths of the resolver. -/
theorem collect_ends [Engine] (options : BundleOptions MemoryStore) (targets : Finset Path)
    (entry : Path) (s : MemoryStore) (hs : s.InUse) (htree : options.ReadsTree)
    (hanswers : options.AnswersIn targets) :
    ∃ outcome s', (∀ depth, (FileStore.stat s).files + targets.card ≤ depth →
        collect options depth entry s = some (outcome, s')) ∧
      ∀ g, outcome = .ok g →
        s' = Operation.run (g.paths.map .load) (entryPath entry s).2 ∧ g.paths.Nodup ∧
        s' = s.skip (g.size + 1) ∧ g.size ≤ (FileStore.stat s).files + targets.card := by
  obtain ⟨paths, hpaths, hcard⟩ := hs.tree.exists_files_or_mem targets
  have hleads : ∀ {importer reference path},
      (options.project s).leads importer reference (.ok (.module path)) → path ∈ paths :=
    fun hleads ↦ hpaths _ (hanswers.file_or_mem hs.tree hleads)
  have hstart : ∀ {start}, s.Opens entry start → start ∈ paths :=
    fun hopens ↦ hpaths _ (Or.inl (hs.tree.opens_iff.1 hopens).2)
  have hsome : (collect options ((FileStore.stat s).files + targets.card) entry s).isSome = true :=
    isSome_collect hs.sound htree (fun h ↦ Finset.mem_toList.2 (hleads h))
      (fun h ↦ Finset.mem_toList.2 (hstart h)) (paths.length_toList.trans_le hcard)
  obtain ⟨⟨outcome, s'⟩, hcollect⟩ := Option.isSome_iff_exists.1 hsome
  refine ⟨outcome, s', fun depth hdepth ↦ collect_mono hdepth hcollect, ?_⟩
  rintro g rfl
  obtain ⟨start, hopens, hvisits⟩ := BundleOptions.exists_visits_of_collect hs.sound htree hcollect
  have hrun := BundleOptions.run_of_collect hs.sound htree hcollect
  refine ⟨hrun, hvisits.nodup_paths, ?_, ?_⟩
  · -- each module of the graph was read, so that its file opens
    obtain ⟨e, hopen, -⟩ | ⟨_, -, hentry⟩ := hs.sound.entryPath_cases entry
    · exact absurd hopen hopens.ne_error
    · have hread : ∀ path ∈ g.paths, ∃ data, (s.skip 1).contentAt path = .ok data := by
        intro path hpath
        obtain ⟨content, references, hsource⟩ := hvisits.reads_of_mem hpath
        rw [(s.sameTree_skip 1).contentAt]
        exact ⟨content, (hs.sound.source_eq_ok.1 hsource).1⟩
      rw [hrun, hentry, (hs.sound.skip 1).run_load hread, MemoryStore.skip_skip,
        Graph.length_paths, Nat.add_comm]
  · have hsubset : g.paths.toFinset ⊆ paths := by
      intro path hpath
      rcases hvisits.exists_link (List.mem_toFinset.1 hpath) with rfl | ⟨importer, -, hlink⟩
      · exact hstart hopens
      · obtain ⟨content, references, reference, -, -, hlink⟩ := hlink
        exact hleads hlink
    calc g.size = g.paths.toFinset.card := by
          rw [List.toFinset_card_of_nodup hvisits.nodup_paths, Graph.length_paths]
      _ ≤ paths.card := Finset.card_le_card hsubset
      _ ≤ (FileStore.stat s).files + targets.card := hcard

/-- Two files that import each other, one of them by way of a package. -/
theorem collect_ends_sampleStore :
    MemoryStore.sampleStore.InUse ∧
    ∃ s' g, collect (.ofTable (some ⟨[("x", .file ⟨true, ["b.ts"]⟩)], ⟨[]⟩⟩) false) 3
        ⟨true, ["a.ts"]⟩ MemoryStore.sampleStore = some (.ok g, s') ∧
      g.modules.map Module.dependencies = [[1], [0, 1]] ∧
      s' = MemoryStore.sampleStore.skip (g.size + 1) := by
  have hs : MemoryStore.sampleStore.InUse := FileStore.ReachableOn.start.run (by decide)
  have hrun : ∃ g s', collect (.ofTable (some ⟨[("x", .file ⟨true, ["b.ts"]⟩)], ⟨[]⟩⟩) false) 3
        ⟨true, ["a.ts"]⟩ MemoryStore.sampleStore = some (.ok g, s') ∧
      g.modules.map Module.dependencies = [[1], [0, 1]] :=
    exists_of_map_collect (by decide +kernel)
  obtain ⟨g, s', hcollect, hdependencies⟩ := hrun
  obtain ⟨outcome, s'', hends, hg⟩ := collect_ends
    (.ofTable (some ⟨[("x", .file ⟨true, ["b.ts"]⟩)], ⟨[]⟩⟩) false) _ ⟨true, ["a.ts"]⟩ _ hs
    (BundleOptions.readsTree_ofTable _ _) (BundleOptions.answersIn_ofTable _ _)
  obtain ⟨rfl, rfl⟩ :=
    Prod.mk.inj (Option.some.inj ((hends 3 (by decide +kernel)).symm.trans hcollect))
  exact ⟨hs, s'', g, hcollect, hdependencies, (hg g rfl).2.2.1⟩

end ModuleBundler
