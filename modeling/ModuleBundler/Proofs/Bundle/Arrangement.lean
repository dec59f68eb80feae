import ModuleBundler.Proofs.Bundle.Depth
import ModuleBundler.Proofs.Bundle.Ending
import ModuleBundler.Proofs.Store.Faithful
import ModuleBundler.Proofs.Store.Layout
import ModuleBundler.Syntax.Program

/-!
# Bundles of files in any order

A store in memory that is made of a list of files keeps the order of the list in its slots: in the
numbers of the files and directories, in the order in which a directory lists what it holds, and in
the handles that were used up. A bundle sees none of it. In two stores with the same files a walk
gets the same answers, so that the two walks stay in step (`Walk.inStep_visit`) and come to the
same, be it a graph, an error, or nothing within the depth (`MemoryStore.SameFiles.collect_eq`).

Whether a list of files makes up a store, and which files and directories the store then has, can be
said without the order of the list, if no two of its files have one place. So all that is asked of
the store has the same answer for all orders (`MemoryStore.ofTexts_perm`).
-/

namespace ModuleBundler

variable {options : BundleOptions MemoryStore} {depth index : Nat}
  {entry path importer directory : Path} {reference : Reference} {references : List Reference}

/-- The resolver looks at nothing but the files of the store, the directory and the request. -/
def BundleOptions.ReadsFiles (options : BundleOptions MemoryStore) : Prop :=
  ∀ resolver, options.resolver = some resolver →
    ∀ s s' : MemoryStore, s.SameFiles s' → resolver s = resolver s'

theorem BundleOptions.IgnoresStore.readsFiles (h : options.IgnoresStore) : options.ReadsFiles :=
  fun resolver hresolver s s' _ ↦ h resolver hresolver s s'

/-! ### What a walk asks of stores with the same files -/

namespace MemoryStore.SameFiles

variable {s s' : MemoryStore}

theorem locate (h : s.SameFiles s') (directory request : Path) :
    Locate.locate directory request s' = Locate.locate directory request s :=
  BundleOptions.locate_congr h.resolve h.isFile directory request

theorem target (h : s.SameFiles s') (hoptions : options.ReadsFiles) :
    options.target s' importer directory reference =
      options.target s importer directory reference :=
  BundleOptions.target_congr h.locate fun resolver hresolver ↦ hoptions resolver hresolver s s' h

/-- A module reads the same in both stores, and they have the same files after it. -/
theorem load_module [Engine] (h : s.SameFiles s') (path : Path) :
    (Module.load path s').1 = (Module.load path s).1 ∧
      (Module.load path s).2.SameFiles (Module.load path s').2 := by
  obtain ⟨n, hn⟩ := h.faithful.sound.snd_load_module path
  obtain ⟨n', hn'⟩ := h.faithful'.sound.snd_load_module path
  rw [hn, hn', Module.load_eq, Module.load_eq, h.load]
  exact ⟨rfl, h.skip n n'⟩

theorem opens_iff (h : s.SameFiles s') : s'.Opens entry path ↔ s.Opens entry path := by
  rw [Opens, Opens, openFile_iff, openFile_iff, h.contentAt, h.resolve]

/-- An entry has the same canonical path in both stores, or fails with the same error. -/
theorem entryPath (h : s.SameFiles s') (entry : Path) :
    (entryPath entry s').1 = (ModuleBundler.entryPath entry s).1 ∧
      (ModuleBundler.entryPath entry s).2.SameFiles (ModuleBundler.entryPath entry s').2 := by
  obtain ⟨n, hn⟩ := h.faithful.sound.snd_entryPath entry
  obtain ⟨n', hn'⟩ := h.faithful'.sound.snd_entryPath entry
  refine ⟨?_, by rw [hn, hn']; exact h.skip n n'⟩
  rcases h.faithful.sound.entryPath_cases entry with ⟨e, hopen, hentry⟩ | ⟨start, hopens, hentry⟩
  · rcases h.faithful'.sound.entryPath_cases entry with ⟨e', hopen', hentry'⟩ | ⟨start', hopens', -⟩
    · have hfault : s.contentAt entry = .error e := openFile_eq_error.1 hopen
      have hfault' : s'.contentAt entry = .error e' := openFile_eq_error.1 hopen'
      rw [h.contentAt, hfault] at hfault'
      rw [hentry, hentry', Except.error.inj hfault']
    · exact absurd hopen (h.opens_iff.1 hopens').ne_error
  · rw [hentry]
    exact h.faithful'.sound.fst_entryPath_eq_ok.2 (h.opens_iff.2 hopens)

end MemoryStore.SameFiles

/-! ### Two walks in step -/

namespace Walk

variable {α : Type} {w w' : Walk MemoryStore}

/-- Two walks stand in stores with the same files, and found the same. -/
structure Matches (w w' : Walk MemoryStore) : Prop where
  /-- The stores have the same files. -/
  store : w.store.SameFiles w'.store
  /-- The graphs are the same. -/
  graph : w'.graph = w.graph

/-- Two walks led too deep, both of them, or to the same answer and stand alike. -/
inductive InStep : Option (α × Walk MemoryStore) → Option (α × Walk MemoryStore) → Prop
  /-- Both led too deep. -/
  | tooDeep : InStep none none
  /-- Both came to an answer. -/
  | answered {answer : α} {w w' : Walk MemoryStore} : w.Matches w' →
      InStep (some (answer, w)) (some (answer, w'))

/-- Walks that go to modules in step follow references in step. -/
theorem inStep_follow (hoptions : options.ReadsFiles)
    {visit : Path → Walk MemoryStore → Option (Except Error Nat × Walk MemoryStore)}
    (hvisit : ∀ {path w w'}, w.Matches w' → InStep (visit path w) (visit path w'))
    (h : w.Matches w') :
    InStep (follow options visit importer directory index references w)
      (follow options visit importer directory index references w') := by
  induction references generalizing w w' with
  | nil => exact .answered h
  | cons reference rest ih =>
    rw [follow, follow, h.store.target hoptions]
    rcases options.target w.store importer directory reference with e | - | - | path
    · exact .answered h
    · exact ih h
    · exact ih ⟨h.store, by rw [h.graph]⟩
    · have hfirst : InStep (visit path w) (visit path w') := hvisit h
      simp only
      generalize visit path w = answer at hfirst
      generalize visit path w' = answer' at hfirst
      rcases hfirst with - | @⟨e | imported, w, w', hmatches⟩
      · exact .tooDeep
      · exact .answered hmatches
      · exact ih ⟨hmatches.store, by rw [hmatches.graph]⟩

/-- **Two walks to a module stay in step.** -/
theorem inStep_visit [Engine] (hoptions : options.ReadsFiles) (h : w.Matches w') :
    InStep (visit options depth path w) (visit options depth path w') := by
  induction depth generalizing path w w' with
  | zero =>
    rw [visit, visit, h.graph]
    split
    · exact .answered h
    · exact .tooDeep
  | succ depth ih =>
    obtain ⟨hload, hstore⟩ := h.store.load_module path
    rw [visit, visit, h.graph]
    rcases w.graph.indexOf? path with - | index
    · simp only
      rcases hmodule : Module.load path w.store with ⟨answer, opened⟩
      rcases hmodule' : Module.load path w'.store with ⟨answer', opened'⟩
      rw [hmodule, hmodule'] at hload hstore
      obtain rfl : answer' = answer := hload
      rcases answer' with e | m
      · exact .answered ⟨hstore, rfl⟩
      · simp only
        rcases path.parent with e | directory
        · exact .answered ⟨hstore, rfl⟩
        · simp only
          have hfollow : InStep
              (follow options (visit options depth) path directory w.graph.size m.references
                ⟨opened, w.graph.insert m⟩)
              (follow options (visit options depth) path directory w.graph.size m.references
                ⟨opened', w.graph.insert m⟩) :=
            inStep_follow hoptions ih ⟨hstore, rfl⟩
          -- the two answers, as any two that are in step
          generalize follow options (visit options depth) path directory w.graph.size m.references
            ⟨opened, w.graph.insert m⟩ = answer at hfollow
          generalize follow options (visit options depth) path directory w.graph.size m.references
            ⟨opened', w.graph.insert m⟩ = answer' at hfollow
          rcases hfollow with - | @⟨e | u, w, w', hmatches⟩
          · exact .tooDeep
          · exact .answered hmatches
          · exact .answered hmatches
    · exact .answered h

end Walk

/-! ### Bundles -/

namespace MemoryStore

variable {s s' : MemoryStore}

/-- **Bundles of stores with the same files come to the same**, within any depth. -/
theorem SameFiles.collect_eq [Engine] (h : s.SameFiles s') (hoptions : options.ReadsFiles)
    (depth : Nat) (entry : Path) : (collect options depth entry s').map Prod.fst =
      (collect options depth entry s).map Prod.fst := by
  obtain ⟨hstart, hstore⟩ := h.entryPath entry
  rcases hentry : ModuleBundler.entryPath entry s with ⟨answer, opened⟩
  rcases hentry' : ModuleBundler.entryPath entry s' with ⟨answer', opened'⟩
  rw [hentry, hentry'] at hstart hstore
  obtain rfl : answer' = answer := hstart
  rw [collect, collect, hentry, hentry']
  rcases answer' with e | start
  · rfl
  · have hvisit : Walk.InStep (Walk.visit options depth start ⟨opened, {}⟩)
        (Walk.visit options depth start ⟨opened', {}⟩) := Walk.inStep_visit hoptions ⟨hstore, rfl⟩
    simp only
    generalize Walk.visit options depth start ⟨opened, {}⟩ = answer at hvisit
    generalize Walk.visit options depth start ⟨opened', {}⟩ = answer' at hvisit
    rcases hvisit with - | @⟨e | index, w, w', hmatches⟩
    · rfl
    · rfl
    · simp only [Option.map_some, hmatches.graph]

/-- With a table, the bundles of both stores have an answer, and it is the same. -/
theorem SameFiles.exists_bundle [Engine] (h : s.SameFiles s') (packages : Option PackageTable)
    (followTypes : Bool) (entry : Path) : ∃ outcome t t',
      bundle packages followTypes entry s = some (outcome, t) ∧
      bundle packages followTypes entry s' = some (outcome, t') := by
  obtain ⟨⟨outcome, t⟩, hbundle⟩ := Option.isSome_iff_exists.1
    (isSome_bundle packages followTypes entry h.faithful.sound)
  obtain ⟨⟨outcome', t'⟩, hbundle'⟩ := Option.isSome_iff_exists.1
    (isSome_bundle packages followTypes entry h.faithful'.sound)
  -- the depths differ if the stores have different numbers of slots, but a larger one does as well
  have hcollect := collect_mono (le_max_left _ (sufficientDepth packages s')) hbundle
  have hcollect' := collect_mono (le_max_right (sufficientDepth packages s) _) hbundle'
  have heq := h.collect_eq (BundleOptions.ignoresStore_ofTable packages followTypes).readsFiles
    (max (sufficientDepth packages s) (sufficientDepth packages s')) entry
  rw [hcollect, hcollect'] at heq
  obtain rfl : outcome' = outcome := Option.some.inj heq
  exact ⟨outcome', t, t', hbundle, hbundle'⟩

variable {files files' : List (String × String)}

theorem wellFormed_of_texts (files : List (String × String)) :
    ∀ file ∈ files.map fun file ↦ (Path.parse file.1, Utf8.encode file.2), file.1.WellFormed :=
  List.forall_mem_map.2 fun file _ ↦ Path.wellFormed_parse file.1

/-- A store can be made of files in every order, or in none. -/
theorem exists_ofTexts_of_perm (h : files.Perm files') (hs : ∃ s, ofTexts files = .ok s) :
    ∃ s', ofTexts files' = .ok s' :=
  (exists_ofFiles_iff (wellFormed_of_texts files')).2
    (((exists_ofFiles_iff (wellFormed_of_texts files)).1 hs).of_perm ((h.map _).map _))

/-- Stores that are made of the same files have the same files, if no two of them have one place. -/
theorem sameFiles_of_ofTexts (h : files.Perm files') (hs : ofTexts files = .ok s)
    (hs' : ofTexts files' = .ok s')
    (hapart : files.Pairwise fun file other ↦ (Path.parse file.1).Apart (Path.parse other.1)) :
    s.SameFiles s' := by
  obtain ⟨hinUse, hlayout⟩ := layout_of_ofFiles (wellFormed_of_texts files) hs
  obtain ⟨hinUse', hlayout'⟩ := layout_of_ofFiles (wellFormed_of_texts files') hs'
  exact ⟨hinUse.faithful, hinUse'.faithful,
    (hlayout.eq_of_perm hlayout' (h.map _) (List.pairwise_map.2 hapart)).symm⟩

/-- **The order in which files are given makes no difference.** A store can be made of them in every
order, or in none. If no two of the paths read as the same, two stores that are made of the files in
different orders give the same answers: whether a path is that of a file, what a path resolves to
from a directory, which content a file has, which file a relative request stands for, and which
bundle an entry has, errors included.

The resolver of the bundle may look at the files of the store as well, but not at their slots. -/
theorem ofTexts_perm [Engine] (h : files.Perm files') :
    ((∃ s, ofTexts files = .ok s) ↔ ∃ s', ofTexts files' = .ok s') ∧
    ∀ s s', ofTexts files = .ok s → ofTexts files' = .ok s' →
      files.Pairwise (fun file other ↦ (Path.parse file.1).Apart (Path.parse other.1)) →
      (∀ path, FileStore.isFile path s' = FileStore.isFile path s) ∧
      (∀ context relative,
        FileStore.resolve context relative s' = FileStore.resolve context relative s) ∧
      (∀ path, (FileStore.load path s').1 = (FileStore.load path s).1) ∧
      (∀ directory request,
        Locate.locate directory request s' = Locate.locate directory request s) ∧
      (∀ options : BundleOptions MemoryStore, options.ReadsFiles → ∀ depth entry,
        (collect options depth entry s').map Prod.fst =
          (collect options depth entry s).map Prod.fst) ∧
      ∀ packages followTypes entry, ∃ outcome t t',
        bundle packages followTypes entry s = some (outcome, t) ∧
        bundle packages followTypes entry s' = some (outcome, t') := by
  refine ⟨⟨exists_ofTexts_of_perm h, exists_ofTexts_of_perm h.symm⟩, fun s s' hs hs' hapart ↦ ?_⟩
  have hsame := sameFiles_of_ofTexts h hs hs' hapart
  exact ⟨hsame.isFile, hsame.resolve, hsame.load, hsame.locate,
    fun options hoptions ↦ hsame.collect_eq hoptions, hsame.exists_bundle⟩

/-- Two files, the first of which imports the second. The path of the second one goes through the
directory of the first. -/
def sideFiles : List (String × String) :=
  [("/lib/a.ts", "import '../b';"), ("/lib/../b.ts", "")]

/-- The store that is made of the two files. -/
def sideStore : MemoryStore :=
  (ofTexts sideFiles).toOption.getD empty

/-- The store that is made of the two files, the imported one first. -/
def reverseStore : MemoryStore :=
  (ofTexts sideFiles.reverse).toOption.getD empty

/-- The two files in both orders: the slots of the stores differ, and the bundles do not. -/
theorem ofTexts_perm_sideFiles :
    sideFiles.Perm sideFiles.reverse ∧
    ofTexts sideFiles = .ok sideStore ∧ ofTexts sideFiles.reverse = .ok reverseStore ∧
    sideFiles.Pairwise (fun file other ↦ (Path.parse file.1).Apart (Path.parse other.1)) ∧
    sideStore.nodes ≠ reverseStore.nodes ∧
    (∀ path, FileStore.isFile path reverseStore = FileStore.isFile path sideStore) ∧
    (BundleOptions.ofTable none false : BundleOptions MemoryStore).ReadsFiles ∧
    ∃ g s s', g.paths = [⟨true, ["lib", "a.ts"]⟩, ⟨true, ["b.ts"]⟩] ∧
      collect (.ofTable none false) 2 ⟨true, ["lib", "a.ts"]⟩ sideStore = some (.ok g, s) ∧
      collect (.ofTable none false) 2 ⟨true, ["lib", "a.ts"]⟩ reverseStore = some (.ok g, s') := by
  have hperm : sideFiles.Perm sideFiles.reverse := (List.reverse_perm _).symm
  have hside : ofTexts sideFiles = .ok sideStore := rfl
  have hreverse : ofTexts sideFiles.reverse = .ok reverseStore := rfl
  have hapart : sideFiles.Pairwise
      (fun file other ↦ (Path.parse file.1).Apart (Path.parse other.1)) := by
    refine List.pairwise_pair.2 fun r hr hr' ↦ absurd (hr.trans hr'.symm) ?_
    decide +kernel
  have hreads : (BundleOptions.ofTable none false : BundleOptions MemoryStore).ReadsFiles :=
    (BundleOptions.ignoresStore_ofTable none false).readsFiles
  obtain ⟨hisFile, -, -, -, hcollect, -⟩ :=
    (ofTexts_perm hperm).2 sideStore reverseStore hside hreverse hapart
  have hrun : ∃ g s, collect (.ofTable none false) 2 ⟨true, ["lib", "a.ts"]⟩ sideStore =
      some (.ok g, s) ∧ g.paths = [⟨true, ["lib", "a.ts"]⟩, ⟨true, ["b.ts"]⟩] :=
    exists_of_map_collect (by decide +kernel)
  obtain ⟨g, s, hg, hpaths⟩ := hrun
  have hsame := hcollect _ hreads 2 ⟨true, ["lib", "a.ts"]⟩
  rw [hg] at hsame
  obtain ⟨⟨answer, s'⟩, hg', hanswer⟩ := Option.map_eq_some_iff.1 hsame
  obtain rfl : answer = .ok g := hanswer
  exact ⟨hperm, hside, hreverse, hapart, by decide +kernel, hisFile, hreads, g, s, s', hpaths, hg,
    hg'⟩

end MemoryStore

end ModuleBundler
