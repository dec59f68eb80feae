import ModuleBundler.Proofs.Bundle.Embedding
import ModuleBundler.Proofs.Bundle.Footprint
import ModuleBundler.Syntax.Program

/-!
# What a bundle depends on

A bundle that succeeds depends on little of the store: on the contents of its own modules, and on
what kind of entry stands where a path leads by. It does not depend on other contents, nor on what
is open and which numbers of handles are used up. So it is collected again after other bundles, and
after files were overwritten that are none of its modules (`MemoryStore.Bypasses`), and from any
entry with the same canonical path (`collect_undisturbed`).

The proof has two halves. `MemoryStore.Undisturbed` says of a store as much as is needed to find the
modules in it again, and whatever may happen in between keeps this. And a project in which the
modules are found has the walk through them (`Project.Visits.rename`). The resolver has to be a
function of the directory and the request, since one that looks into the store could depend on
anything in it.
-/

namespace ModuleBundler

namespace MemoryStore

variable {s s' s'' : MemoryStore} {path q : Path} {paths : List Path}

/-! ### Overwriting a file -/

/-- A path that leads to something else than a directory is the path of a place below one. -/
theorem Tree.slot?_of_resolve (h : s.Tree) (hq : FileStore.resolve Path.root path s = .ok q)
    (hnot : s.catalog q ≠ some .directory) : s.catalog.slot? path = some q := by
  obtain ⟨absolute, segments⟩ := path
  obtain ⟨hway, hplace, -⟩ := h.resolve_iff.1 hq
  rw [segments_join_root] at hway hplace
  rcases segments.eq_nil_or_concat' with rfl | ⟨above, name, rfl⟩
  · obtain rfl : Path.root = q := Except.ok.inj hplace
    exact absurd h.catalog_root hnot
  · obtain ⟨hway, d, hd, hdirectory⟩ := Catalog.passable_concat.1 hway
    obtain ⟨d', hd', hnext⟩ := Path.normalize_concat.1 hplace
    obtain rfl : d = d' := Except.ok.inj (hd.symm.trans hd')
    have hexists : s.catalog d ≠ none := hdirectory ▸ Option.some_ne_none _
    -- what is above a directory is no file, so that the path ends in a name
    have hname : name ≠ Path.parentName := by
      rintro rfl
      rw [Path.next?, if_pos rfl] at hnext
      split at hnext
      · cases hnext
      · exact hnot (Option.some.inj hnext ▸ h.catalog_dropLast hexists ‹_›)
    rw [Path.next?_of_ne hname, Option.some.injEq] at hnext
    exact Catalog.slot?_eq_some.2
      ⟨above, name, d, rfl, hname, h.denoted?_iff.2 ⟨hway, hd, hexists⟩, hdirectory, hnext.symm⟩

/-- To put something where a file stands is to replace this file. -/
theorem Tree.put_of_file (h : s.Tree) {data : Bytes}
    (hq : FileStore.resolve Path.root path s = .ok q) (hfile : s.catalog q = some (.file data))
    (bytes : Bytes) :
    s.catalog.put path bytes = some (Function.update s.catalog q (some (.file bytes))) := by
  have hnot : s.catalog q ≠ some .directory := by
    rw [hfile]
    exact nofun
  exact Catalog.put_eq_some.2 ⟨q, h.slot?_of_resolve hq hnot, hnot, rfl⟩

/-- Overwriting a file replaces the content of its entry. -/
theorem Tree.catalog_save (h : s.Tree) (hs : s.Sound) {data : Bytes}
    (hq : FileStore.resolve Path.root path s = .ok q) (hfile : s.catalog q = some (.file data))
    (bytes : Bytes) : (FileStore.save path bytes s).2.Tree ∧
      (FileStore.save path bytes s).2.catalog =
        Function.update s.catalog q (some (.file bytes)) := by
  obtain ⟨id, hid, -⟩ := resolve_eq_ok.1 hq
  have hpath : path.WellFormed := by
    intro segment hsegment
    rw [← segments_join_root path] at hsegment
    exact h.wellFormed_of_lookup hid segment hsegment
  have hcarries := (h.carries_save hs hpath bytes).2
  rw [h.put_of_file hq hfile, Option.getD_some] at hcarries
  exact ⟨keeps_tree.save hpath h bytes, hcarries⟩

/-! ### What stays the same -/

/-- What has become of a store in which the files at `paths` are what they were, and anything else
has changed its content at most. -/
structure Undisturbed (s s' : MemoryStore) (paths : List Path) : Prop where
  /-- It still is a store in use. -/
  sound : s'.Sound
  /-- It still is a tree. -/
  tree : s'.Tree
  /-- Directories and files stand where they stood. -/
  sameKind : ∀ p, s.catalog.SameKindAt s'.catalog p
  /-- The files at `paths` have their contents. -/
  contentAt : ∀ p ∈ paths, ∀ data, s.contentAt p = .ok data → s'.contentAt p = .ok data

/-- What may happen in a store away from the files at `paths`. -/
inductive Bypasses [Engine] (paths : List Path) : MemoryStore → MemoryStore → Prop
  /-- Some bundle is collected, or fails. -/
  | bundle {options : BundleOptions MemoryStore} {depth : Nat} {entry : Path} {s s' : MemoryStore}
      {outcome : Except Error Graph} :
      collect options depth entry s = some (outcome, s') → Bypasses paths s s'
  /-- A file is overwritten that is none of those at `paths`. -/
  | overwrite {path : Path} {bytes : Bytes} {s : MemoryStore} :
      FileStore.isFile path s = true →
      (∀ p ∈ paths, FileStore.resolve Path.root p s ≠ FileStore.resolve Path.root path s) →
      Bypasses paths s (FileStore.save path bytes s).2

namespace Undisturbed

theorem refl (hs : s.Sound) (htree : s.Tree) : s.Undisturbed s paths where
  sound := hs
  tree := htree
  sameKind _ := rfl
  contentAt _ _ _ hdata := hdata

theorem trans (h : s.Undisturbed s' paths) (h' : s'.Undisturbed s'' paths) :
    s.Undisturbed s'' paths where
  sound := h'.sound
  tree := h'.tree
  sameKind p := (h.sameKind p).trans (h'.sameKind p)
  contentAt p hp data hdata := h'.contentAt p hp data (h.contentAt p hp data hdata)

/-- What is open makes no difference. -/
theorem of_sameTree (htree : s.Tree) (hs' : s'.Sound) (h : s.SameTree s') :
    s.Undisturbed s' paths where
  sound := hs'
  tree := htree.sameTree h
  sameKind p := by rw [h.catalog]; rfl
  contentAt p _ data hdata := by rwa [h.contentAt]

/-- Overwriting a file leaves all others. -/
theorem save (hs : s.Sound) (htree : s.Tree) (hfile : FileStore.isFile path s = true)
    (hother : ∀ p ∈ paths, FileStore.resolve Path.root p s ≠ FileStore.resolve Path.root path s)
    (bytes : Bytes) : s.Undisturbed (FileStore.save path bytes s).2 paths := by
  obtain ⟨old, hold⟩ := isFile_eq_true.1 hfile
  obtain ⟨q, hq, hentry⟩ := htree.contentAt_iff.1 hold
  obtain ⟨htree', hcatalog⟩ := htree.catalog_save hs hq hentry bytes
  have hkind : ∀ p, s.catalog.SameKindAt (FileStore.save path bytes s).2.catalog p := by
    intro p
    rw [Catalog.SameKindAt, hcatalog]
    rcases eq_or_ne p q with rfl | hne
    · rw [hentry, Function.update_self]
      rfl
    · rw [Function.update_of_ne hne]
  refine ⟨keeps_sound.save trivial hs bytes, htree', hkind, fun p hp data hdata ↦ ?_⟩
  obtain ⟨r, hr, hdata⟩ := htree.contentAt_iff.1 hdata
  have hne : r ≠ q := by
    rintro rfl
    exact hother p hp (hr.trans hq.symm)
  refine htree'.contentAt_iff.2 ⟨r, htree.resolve_of_sameKind htree' hkind hr, ?_⟩
  rw [hcatalog, Function.update_of_ne hne]
  exact hdata

/-- One thing that happens leaves the files undisturbed that it bypasses. -/
theorem of_bypasses [Engine] (hs : s.Sound) (htree : s.Tree) (h : Bypasses paths s s') :
    s.Undisturbed s' paths := by
  cases h with
  | bundle hcollect =>
    obtain ⟨n, rfl⟩ := exists_skip_of_collect hs hcollect
    exact of_sameTree htree (hs.skip n) (s.sameTree_skip n)
  | overwrite hfile hother => exact save hs htree hfile hother _

/-- **Whatever happens away from the files leaves them undisturbed.** -/
theorem of_bypassing [Engine] (hs : s.Sound) (htree : s.Tree)
    (h : Relation.ReflTransGen (Bypasses paths) s s') : s.Undisturbed s' paths := by
  induction h with
  | refl => exact refl hs htree
  | tail _ hlast ih => exact ih.trans (of_bypasses ih.sound ih.tree hlast)

/-- An entry opens with the same path. -/
theorem opens (h : s.Undisturbed s' paths) (htree : s.Tree) {entry start : Path}
    (hopens : s.Opens entry start) : s'.Opens entry start := by
  obtain ⟨hresolve, hfile⟩ := htree.opens_iff.1 hopens
  refine h.tree.opens_iff.2 ⟨htree.resolve_of_sameKind h.tree h.sameKind hresolve, ?_⟩
  rw [← Catalog.hasFile_iff] at hfile ⊢
  rwa [← (h.sameKind start).hasFile]

end Undisturbed

end MemoryStore

namespace BundleOptions

variable {options : BundleOptions MemoryStore} {s s' : MemoryStore} {paths : List Path}

/-- What becomes of a reference that leads somewhere does not change. -/
theorem Answers.of_undisturbed (hoptions : options.IgnoresStore) (htree : s.Tree)
    (h : s.Undisturbed s' paths) {importer directory : Path} {reference : Reference}
    {target : Target} (hanswer : options.Answers s importer directory reference (.ok target)) :
    options.Answers s' importer directory reference (.ok target) := by
  have hpackages : options.answer? s' = options.answer? s :=
    answer?_congr fun resolver hresolver ↦ hoptions resolver hresolver s s'
  rcases target with - | - | path
  · exact hanswer
  · simp only [Answers, isExternal] at hanswer ⊢
    rwa [hpackages]
  · have hleads : options.destination? s directory reference = some path := hanswer
    refine destination?_eq_some.2 ?_
    rw [hpackages]
    refine (destination?_eq_some.1 hleads).imp_right (Or.imp_left (And.imp_right fun hlocate ↦ ?_))
    exact htree.locate_of_sameKind h.tree (fun _ d _ _ _ ↦ h.sameKind d)
      (fun _ p _ _ ↦ h.sameKind p) hlocate

/-- The modules at `paths` are in what has become of the store. -/
theorem embeds_of_undisturbed [Engine] (hoptions : options.IgnoresStore) (hs : s.Sound)
    (htree : s.Tree) (h : s.Undisturbed s' paths) :
    (options.project s).Embeds (options.project s') id {p | p ∈ paths} where
  injOn := Set.injOn_id _
  reads := by
    intro path content references hpath hsource
    obtain ⟨hcontent, hreferences⟩ := hs.source_eq_ok.1 hsource
    exact h.sound.source_eq_ok.2 ⟨h.contentAt path hpath content hcontent, hreferences⟩
  leads := by
    rintro importer reference target - ⟨directory, hparent, hanswer⟩
    have hrename : target.rename id = target := by cases target <;> rfl
    rw [hrename]
    exact ⟨directory, hparent, hanswer.of_undisturbed hoptions htree h⟩

end BundleOptions

/-- **A bundle is not disturbed** by other bundles, whether they succeed or fail, by overwriting
files that are none of its modules, or by any number of both: it is collected again, from each entry
that opened with the same canonical path, and the graph is the same. The resolver is a function of
the directory and the request. -/
theorem collect_undisturbed [Engine] (options : BundleOptions MemoryStore) (depth : Nat)
    (entry entry' : Path) (s s' t : MemoryStore) (g : Graph) (hs : s.InUse)
    (hoptions : options.IgnoresStore) (h : collect options depth entry s = some (.ok g, s'))
    (hentry : (entryPath entry' s).1 = (entryPath entry s).1)
    (hrun : Relation.ReflTransGen (MemoryStore.Bypasses g.paths) s t) :
    ∃ t', options.Yields entry' t (.ok g) t' := by
  obtain ⟨start, hopens, hvisits⟩ :=
    BundleOptions.exists_visits_of_collect hs.sound hoptions.readsTree h
  rw [hs.sound.fst_entryPath_eq_ok.2 hopens, hs.sound.fst_entryPath_eq_ok] at hentry
  have ht := MemoryStore.Undisturbed.of_bypassing hs.sound hs.tree hrun
  have hvisits' : (options.project t).Visits start {} 0 g := by
    have hrename := hvisits.rename
      (BundleOptions.embeds_of_undisturbed hoptions hs.sound hs.tree ht) fun _ hp ↦ hp
    rwa [Graph.rename_id] at hrename
  exact ⟨_, BundleOptions.yields_of_visits ht.sound hoptions.readsTree (ht.opens hs.tree hentry)
    hvisits'⟩

/-- Two modules, and a file below a directory that is none of them. -/
def besideStore : MemoryStore :=
  Operation.run
    [.makeDirectories ⟨true, ["lib"]⟩, .save ⟨true, ["a.ts"]⟩ (Utf8.encode "import './b';"),
      .save ⟨true, ["b.ts"]⟩ [], .save ⟨true, ["lib", "c.ts"]⟩ (Utf8.encode "import 'x';")] .empty

/-- A bundle of the other file fails, and then the file is made to import a module of the first. The
entry is found by way of the directory. -/
theorem collect_undisturbed_besideStore :
    besideStore.InUse ∧
    ∃ g s₁ s₂ t, collect (.ofTable none false) 2 ⟨true, ["a.ts"]⟩ besideStore =
        some (.ok g, s₁) ∧
      g.paths = [⟨true, ["a.ts"]⟩, ⟨true, ["b.ts"]⟩] ∧
      collect (.ofTable none true) 2 ⟨true, ["lib", "c.ts"]⟩ besideStore =
        some (.error (.unsupportedImport "x" ⟨true, ["lib", "c.ts"]⟩), s₂) ∧
      BundleOptions.Yields (.ofTable none false) ⟨true, ["lib", "..", "a.ts"]⟩
        (FileStore.save ⟨true, ["lib", "c.ts"]⟩ (Utf8.encode "import '../a';") s₂).2 (.ok g) t := by
  have hs : besideStore.InUse := FileStore.ReachableOn.start.run (by decide)
  have hrun : ∃ g s₁, collect (.ofTable none false) 2 ⟨true, ["a.ts"]⟩ besideStore =
      some (.ok g, s₁) ∧ g.paths = [⟨true, ["a.ts"]⟩, ⟨true, ["b.ts"]⟩] :=
    exists_of_map_collect (by decide +kernel)
  obtain ⟨g, s₁, hcollect, hpaths⟩ := hrun
  have hfails : (collect (.ofTable none true) 2 ⟨true, ["lib", "c.ts"]⟩ besideStore).map Prod.fst =
      some (.error (.unsupportedImport "x" ⟨true, ["lib", "c.ts"]⟩)) := by
    decide +kernel
  obtain ⟨⟨outcome, s₂⟩, hother, rfl⟩ := Option.map_eq_some_iff.1 hfails
  have hsame : besideStore.SameTree s₂ := by
    obtain ⟨n, rfl⟩ := exists_skip_of_collect hs.sound hother
    exact besideStore.sameTree_skip n
  have hfile : FileStore.isFile ⟨true, ["lib", "c.ts"]⟩ s₂ = true := by
    rw [hsame.isFile]
    decide +kernel
  have hoverwrite : ∀ p ∈ g.paths, FileStore.resolve Path.root p s₂ ≠
      FileStore.resolve Path.root ⟨true, ["lib", "c.ts"]⟩ s₂ := by
    intro p hp
    rw [hsame.resolve, hsame.resolve]
    rw [hpaths] at hp
    revert p
    decide +kernel
  obtain ⟨t, ht⟩ := collect_undisturbed (.ofTable none false) 2 ⟨true, ["a.ts"]⟩
    ⟨true, ["lib", "..", "a.ts"]⟩ besideStore s₁ _ g hs (BundleOptions.ignoresStore_ofTable _ _)
    hcollect (by decide +kernel)
    ((Relation.ReflTransGen.single (.bundle hother)).tail (.overwrite hfile hoverwrite))
  exact ⟨hs, g, s₁, s₂, t, hcollect, hpaths, hother, ht⟩

end ModuleBundler
