import ModuleBundler.Proofs.Bundle.Embedding
import ModuleBundler.Proofs.Bundle.Footprint
import ModuleBundler.Proofs.Syntax.Answers
import ModuleBundler.Syntax.Program

/-!
# Moving a project

When all files of a store are moved to a directory of another store, a bundle moves with them: its
modules have the path of the directory in front of theirs, and nothing else is different
(`collect_relocates`). The other store may have anything outside the directory.

That is not clear from the start, because a request may lead up. Where it leads above the root it
fails; in the other store it leads out of the directory, to files that happen to be there. But a
bundle that succeeds resolves no such request. What is probed for a request differs from it in the
last names only, so that the request has stayed below the root if anything is found at all
(`MemoryStore.Tree.locate_eq_ok`). Then it reads under the directory as what it reads as from the
root (`Path.normalize_under`), the same directories are on its way, and the same places are probed.

Packages are left out of the bundle here, or not known. A resolver that names files would have to
move with them.
-/

namespace ModuleBundler

/-! ### Probes -/

namespace Locate

variable {base request place p : Path} {suffix : String}

theorem appended_under (hplace : place.segments ≠ []) (suffix : String) :
    (base.under place).appended suffix = base.under (place.appended suffix) := by
  obtain ⟨absolute, segments⟩ := place
  obtain ⟨front, name, rfl⟩ := segments.eq_nil_or_concat'.resolve_left hplace
  simp [Path.appended, Path.under, List.dropLast_append_of_ne_nil]

/-- The places around a place are moved with it. -/
theorem probes_under (hplace : isNamed request = true → place.segments ≠ []) :
    probes request (base.under place) = (probes request place).map base.under := by
  have hbelow : ∀ name, (base.under place).below name = base.under (place.below name) :=
    fun name ↦ by simp [Path.below, Path.under]
  rw [probes, probes, List.map_cons, List.map_append, List.map_map]
  simp only [hbelow]
  split
  case isTrue hnamed =>
    have happended : (base.under place).appended = base.under ∘ place.appended :=
      funext (appended_under (hplace hnamed))
    rw [happended, List.map_map]
    rfl
  case isFalse => rfl

/-- All places that are probed are absolute. -/
theorem absolute_of_mem_probes (hplace : place.absolute = true) (hp : p ∈ probes request place) :
    p.absolute = true := by
  have happended : ∀ suffix, (place.appended suffix).absolute = true := by
    intro suffix
    rw [Path.appended]
    split
    · exact hplace
    · exact hplace
  rcases List.mem_cons.1 hp with rfl | hp
  · exact hplace
  · rcases List.mem_append.1 hp with hp | hp
    · split at hp
      · obtain ⟨suffix, -, rfl⟩ := List.mem_map.1 hp
        exact happended suffix
      · cases hp
    · obtain ⟨suffix, -, rfl⟩ := List.mem_map.1 hp
      rfl

/-- A request that ends in a name does not read as the root. -/
theorem segments_ne_nil_of_isNamed {directory : Path} (hnamed : isNamed request = true)
    (hplace : Path.normalize ⟨true, (directory.join request).segments⟩ = .ok place) :
    place.segments ≠ [] := by
  obtain ⟨front, name, hsegments, hname⟩ := exists_of_isNamed hnamed
  obtain ⟨absolute, segments⟩ := request
  obtain rfl : segments = front ++ [name] := hsegments
  rw [Path.join_concat] at hplace
  obtain ⟨d, -, hnext⟩ := Path.normalize_concat.1 hplace
  rw [Path.next?_of_ne hname] at hnext
  rw [← Option.some.inj hnext]
  simp

end Locate

namespace MemoryStore

variable {s s' : MemoryStore} {base path directory request p q : Path} {segments : List String}

/-- What stands in `s` stands in `s'` at the directory `base`, and nothing else does. -/
def HasAt (s' : MemoryStore) (base : Path) (s : MemoryStore) : Prop :=
  ∀ segments, s'.catalog ⟨true, base.segments ++ segments⟩ = s.catalog ⟨true, segments⟩

namespace HasAt

theorem catalog_under (h : s'.HasAt base s) (hp : p.absolute = true) :
    s'.catalog (base.under p) = s.catalog p := by
  obtain ⟨absolute, segments⟩ := p
  obtain rfl : absolute = true := hp
  exact h segments

/-- The directory is there, and its path leads to it. -/
theorem resolve_base (h : s'.HasAt base s) (hs : s.Tree) (hs' : s'.Tree) :
    s'.catalog (base.under Path.root) = some .directory ∧
      FileStore.resolve Path.root (base.under Path.root) s' = .ok (base.under Path.root) := by
  have hdirectory : s'.catalog (base.under Path.root) = some .directory :=
    (h.catalog_under rfl).trans hs.catalog_root
  exact ⟨hdirectory, hs'.resolve_self (hdirectory ▸ Option.some_ne_none _)⟩

/-- The way to the directory is open, and reads as its path. -/
theorem way_base (h : s'.HasAt base s) (hs : s.Tree) (hs' : s'.Tree) :
    s'.catalog.Passable base.segments ∧
      Path.normalize ⟨true, base.segments⟩ = .ok (base.under Path.root) := by
  obtain ⟨hway, hplace, -⟩ := hs'.resolve_iff.1 (h.resolve_base hs hs').2
  have hsegments : (base.under Path.root).segments = base.segments := List.append_nil _
  rw [segments_join_root, hsegments] at hway hplace
  exact ⟨hway, hplace⟩

/-- What segments read as from the root, they read as under the directory. -/
theorem normalize (h : s'.HasAt base s) (hs : s.Tree) (hs' : s'.Tree)
    (hq : Path.normalize ⟨true, segments⟩ = .ok q) :
    Path.normalize ⟨true, base.segments ++ segments⟩ = .ok (base.under q) :=
  Path.normalize_under (h.way_base hs hs').2 hq

/-- A way that is open from the root is open under the directory. -/
theorem passable (h : s'.HasAt base s) (hs : s.Tree) (hs' : s'.Tree)
    (hway : s.catalog.Passable segments) : s'.catalog.Passable (base.segments ++ segments) := by
  induction segments using List.reverseRecOn with
  | nil => exact (List.append_nil base.segments).symm ▸ (h.way_base hs hs').1
  | append_singleton front segment ih =>
    obtain ⟨hfront, d, hd, hdirectory⟩ := Catalog.passable_concat.1 hway
    rw [← List.append_assoc]
    refine Catalog.passable_concat.2 ⟨ih hfront, base.under d, h.normalize hs hs' hd, ?_⟩
    rw [h.catalog_under (Path.absolute_of_normalize hd), hdirectory]

/-- A path from the root resolves under the directory. -/
theorem resolve (h : s'.HasAt base s) (hs : s.Tree) (hs' : s'.Tree)
    (hq : FileStore.resolve Path.root path s = .ok q) :
    FileStore.resolve Path.root (base.under path) s' = .ok (base.under q) := by
  obtain ⟨hway, hplace, hexists⟩ := hs.resolve_iff.1 hq
  rw [segments_join_root] at hway hplace
  refine hs'.resolve_iff.2 ?_
  rw [segments_join_root, h.catalog_under (Path.absolute_of_normalize hplace)]
  exact ⟨h.passable hs hs' hway, h.normalize hs hs' hplace, hexists⟩

theorem contentAt (h : s'.HasAt base s) (hs : s.Tree) (hs' : s'.Tree) {data : Bytes}
    (hdata : s.contentAt path = .ok data) : s'.contentAt (base.under path) = .ok data := by
  obtain ⟨q, hq, hfile⟩ := hs.contentAt_iff.1 hdata
  refine hs'.contentAt_iff.2 ⟨base.under q, h.resolve hs hs' hq, ?_⟩
  rwa [h.catalog_under (Path.absolute_of_isCanonical (hs.isCanonical_of_resolve hq))]

/-- An entry opens under the directory. -/
theorem opens (h : s'.HasAt base s) (hs : s.Tree) (hs' : s'.Tree) {entry start : Path}
    (hopens : s.Opens entry start) : s'.Opens (base.under entry) (base.under start) := by
  obtain ⟨hresolve, hfile⟩ := hs.opens_iff.1 hopens
  refine hs'.opens_iff.2 ⟨h.resolve hs hs' hresolve, ?_⟩
  rwa [h.catalog_under (Path.absolute_of_isCanonical (hs.isCanonical_of_resolve hresolve))]

/-- **What a relative request leads to, it leads to under the directory.** -/
theorem locate (h : s'.HasAt base s) (hs : s.Tree) (hs' : s'.Tree)
    (hrelative : request.absolute = false) (hp : Locate.locate directory request s = .ok p) :
    Locate.locate (base.under directory) request s' = .ok (base.under p) := by
  obtain ⟨hway, place, hplace, hfind⟩ := hs.locate_eq_ok.1 hp
  have hsegments : ((base.under directory).join request).segments =
      base.segments ++ (directory.join request).segments := by
    simp [Path.join, Path.under, hrelative]
  have hprobes : ∀ q ∈ Locate.probes request place,
      (s'.catalog.hasFile ∘ base.under) q = s.catalog.hasFile q := by
    intro q hq
    have habsolute := Locate.absolute_of_mem_probes (Path.absolute_of_normalize hplace) hq
    rw [Function.comp_apply, Catalog.hasFile, h.catalog_under habsolute, Catalog.hasFile]
  refine hs'.locate_eq_ok.2 ?_
  rw [hsegments]
  refine ⟨h.passable hs hs' hway, base.under place, h.normalize hs hs' hplace, ?_⟩
  rw [Locate.probes_under fun hnamed ↦ Locate.segments_ne_nil_of_isNamed hnamed hplace,
    List.find?_map, List.find?_congr hprobes, hfind]
  rfl

/-- That the slots of a store have their counterparts under the directory, and the slots there have
theirs, is all that there is to see. -/
theorem of_slots (hs : s.Tree) (hs' : s'.Tree)
    (hmoved : ∀ i < s.nodes.size, (s.node? i).isSome = true → ∃ j < s'.nodes.size,
      s'.pathOf j = base.under (s.pathOf i) ∧ s'.entryAt? j = s.entryAt? i)
    (hfound : ∀ j < s'.nodes.size, (s'.node? j).isSome = true →
      base.segments <+: (s'.pathOf j).segments → ∃ i < s.nodes.size,
        s'.pathOf j = base.under (s.pathOf i) ∧ s'.entryAt? j = s.entryAt? i) :
    s'.HasAt base s := by
  have hunder : ∀ i segments, base.under (s.pathOf i) = ⟨true, base.segments ++ segments⟩ ↔
      s.pathOf i = ⟨true, segments⟩ := by
    intro i segments
    simp [Path.under, pathOf]
  intro segments
  refine Option.ext fun e ↦ ?_
  rw [hs'.catalog_eq_some, hs.catalog_eq_some]
  constructor
  · rintro ⟨j, hentry, hpath⟩
    obtain ⟨node, hnode, -⟩ := exists_node_of_entryAt? hentry
    obtain ⟨i, -, hj, hsame⟩ := hfound j (lt_size_of_node? hnode) (by rw [hnode]; rfl)
      (by rw [hpath]; exact List.prefix_append _ _)
    exact ⟨i, hsame.symm.trans hentry, (hunder i segments).1 (hj.symm.trans hpath)⟩
  · rintro ⟨i, hentry, hpath⟩
    obtain ⟨node, hnode, -⟩ := exists_node_of_entryAt? hentry
    obtain ⟨j, -, hj, hsame⟩ := hmoved i (lt_size_of_node? hnode) (by rw [hnode]; rfl)
    exact ⟨j, hsame.trans hentry, hj.trans ((hunder i segments).2 hpath)⟩

end HasAt

end MemoryStore

/-! ### Sources -/

theorem Dialect.ofPath_under {base path : Path} (hpath : path.segments ≠ []) :
    Dialect.ofPath (base.under path) = Dialect.ofPath path := by
  rw [ofPath, ofPath, Path.under, List.getLast?_append_of_ne_nil _ hpath]

namespace BundleOptions

/-- What is followed where packages are known only as left out of the bundle, if they are known. -/
def ofExternals (packages : Option ExternalPackages) (followTypes : Bool) :
    BundleOptions MemoryStore :=
  ⟨packages.map ExternalPackages.resolver, followTypes⟩

variable {packages : Option ExternalPackages} {followTypes : Bool} {s s' : MemoryStore}
  {base directory path : Path} {reference : Reference}

theorem answer?_ofExternals (s : MemoryStore) (directory : Path) (request : String) :
    (ofExternals packages followTypes).answer? s directory request =
      packages.map fun known ↦ .ok (known.classify request) := by
  cases packages <;> rfl

/-- Only relative requests lead to modules. -/
theorem destination?_ofExternals :
    (ofExternals packages followTypes).destination? s directory reference = some path ↔
      (ofExternals packages followTypes).isFollowed reference = true ∧
        reference.isRelative = true ∧ Locate.locate directory reference.path s = .ok path := by
  rw [destination?_eq_some, answer?_ofExternals]
  refine and_congr_right fun _ ↦ or_iff_left ?_
  rintro ⟨-, hanswer⟩
  obtain ⟨known, -, hanswer⟩ := Option.map_eq_some_iff.1 hanswer
  rw [ExternalPackages.classify] at hanswer
  split at hanswer <;> cases hanswer

theorem ignoresStore_ofExternals (packages : Option ExternalPackages) (followTypes : Bool) :
    (ofExternals packages followTypes).IgnoresStore := by
  intro resolver hresolver s s'
  obtain ⟨known, -, rfl⟩ := Option.map_eq_some_iff.1 hresolver
  rfl

/-- What becomes of a reference that leads somewhere moves with the module. -/
theorem Answers.under (h : s'.HasAt base s) (hs : s.Tree) (hs' : s'.Tree) {importer : Path}
    {target : Target}
    (hanswer : (ofExternals packages followTypes).Answers s importer directory reference
      (.ok target)) :
    (ofExternals packages followTypes).Answers s' (base.under importer) (base.under directory)
      reference (.ok (target.rename base.under)) := by
  rcases target with - | - | path
  · exact hanswer
  · simp only [Answers, Target.rename, isExternal, answer?_ofExternals] at hanswer ⊢
    exact hanswer
  · have hleads : (ofExternals packages followTypes).destination? s directory reference =
      some path := hanswer
    obtain ⟨hfollowed, hrelative, hlocate⟩ := destination?_ofExternals.1 hleads
    exact destination?_ofExternals.2
      ⟨hfollowed, hrelative, h.locate hs hs' (Reference.absolute_path hrelative) hlocate⟩

/-- The modules of the store are in the other store, under the directory. -/
theorem embeds_under [Engine] (h : s'.HasAt base s) (hs : s.InUse) (hs' : s'.InUse) :
    ((ofExternals packages followTypes).project s).Embeds
      ((ofExternals packages followTypes).project s') base.under {p | p.isCanonical = true} where
  injOn := by
    rintro ⟨absolute, segments⟩ hp ⟨absolute', segments'⟩ hq heq
    obtain rfl : absolute = true := Path.absolute_of_isCanonical hp
    obtain rfl : absolute' = true := Path.absolute_of_isCanonical hq
    have hsegments := congrArg Path.segments heq
    rw [Path.mk.injEq]
    exact ⟨rfl, List.append_cancel_left hsegments⟩
  reads := by
    intro path content references _ hsource
    obtain ⟨hcontent, hreferences⟩ := hs.sound.source_eq_ok.1 hsource
    obtain ⟨directory, hparent⟩ := hs.sound.exists_parent_of_source hsource
    have hpath : path.segments ≠ [] := by
      rintro hnil
      simp [Path.parent, hnil, invalid] at hparent
    refine hs'.sound.source_eq_ok.2 ⟨h.contentAt hs.tree hs'.tree hcontent, ?_⟩
    rw [Reference.references_eq_ok] at hreferences ⊢
    rwa [Dialect.ofPath_under hpath]
  leads := by
    rintro importer reference target - ⟨directory, hparent, hanswer⟩
    exact ⟨base.under directory, Path.parent_under hparent, hanswer.under h hs.tree hs'.tree⟩

end BundleOptions

/-- **A bundle moves with its files.** When all that stands in a store stands in another one at the
directory `base`, and whatever else there is outside of it, an entry that has a bundle in the first
store has it in the other: with the same contents, dependencies and externals in the same places,
and with the path of the directory in front of the path of each module. Packages are left out of the
bundle, or not known. -/
theorem collect_relocates [Engine] (packages : Option ExternalPackages) (followTypes : Bool)
    (depth : Nat) (base entry : Path) (s s' t : MemoryStore) (g : Graph) (hs : s.InUse)
    (hs' : s'.InUse) (hbase : s'.HasAt base s)
    (h : collect (.ofExternals packages followTypes) depth entry s = some (.ok g, t)) :
    ∃ t', (BundleOptions.ofExternals packages followTypes).Yields (base.under entry) s'
      (.ok (g.rename base.under)) t' := by
  have hreads := (BundleOptions.ignoresStore_ofExternals packages followTypes).readsTree
  obtain ⟨start, hopens, hvisits⟩ := BundleOptions.exists_visits_of_collect hs.sound hreads h
  have hcanonical : ∀ p ∈ g.paths, p.isCanonical = true := by
    intro p hp
    rcases hvisits.exists_link hp with rfl | ⟨_, -, _, _, _, -, -, _, -, hleads⟩
    · exact hs.tree.isCanonical_of_resolve hopens.2
    · exact hs.tree.isCanonical_of_locate (BundleOptions.destination?_ofExternals.1 hleads).2.2
  exact ⟨_, BundleOptions.yields_of_visits hs'.sound hreads (hbase.opens hs.tree hs'.tree hopens)
    (hvisits.rename (BundleOptions.embeds_under hbase hs hs') hcanonical)⟩

/-- A file that imports one in the directory above, which imports it, and a package. -/
def movedStore : MemoryStore :=
  Operation.run
    [.makeDirectories ⟨true, ["lib"]⟩,
      .save ⟨true, ["lib", "a.ts"]⟩ (Utf8.encode "import '../b'; import 'x/y';"),
      .save ⟨true, ["b.ts"]⟩ (Utf8.encode "import './lib/a';")] .empty

/-- The same files in a directory, and others outside of it. -/
def hostStore : MemoryStore :=
  Operation.run
    [.save ⟨true, ["b.ts"]⟩ [], .makeDirectories ⟨true, ["app", "lib"]⟩,
      .save ⟨true, ["app", "b.ts"]⟩ (Utf8.encode "import './lib/a';"),
      .makeDirectories ⟨true, ["lib"]⟩,
      .save ⟨true, ["app", "lib", "a.ts"]⟩ (Utf8.encode "import '../b'; import 'x/y';")] .empty

/-- A bundle with a request that leads up, from a directory with a file of this name above it. -/
theorem collect_relocates_hostStore :
    movedStore.InUse ∧ hostStore.InUse ∧ hostStore.HasAt ⟨true, ["app"]⟩ movedStore ∧
    ∃ g t t', collect (.ofExternals (some ⟨["x/"]⟩) false) 3 ⟨true, ["lib", "a.ts"]⟩ movedStore =
        some (.ok g, t) ∧
      g.paths = [⟨true, ["lib", "a.ts"]⟩, ⟨true, ["b.ts"]⟩] ∧
      BundleOptions.Yields (.ofExternals (some ⟨["x/"]⟩) false) ⟨true, ["app", "lib", "a.ts"]⟩
        hostStore (.ok (g.rename (Path.under ⟨true, ["app"]⟩))) t' := by
  have hs : movedStore.InUse := FileStore.ReachableOn.start.run (by decide)
  have hs' : hostStore.InUse := FileStore.ReachableOn.start.run (by decide)
  have hbase : hostStore.HasAt ⟨true, ["app"]⟩ movedStore :=
    .of_slots hs.tree hs'.tree (by decide +kernel) (by decide +kernel)
  have hrun : ∃ g t, collect (.ofExternals (some ⟨["x/"]⟩) false) 3 ⟨true, ["lib", "a.ts"]⟩
      movedStore = some (.ok g, t) ∧ g.paths = [⟨true, ["lib", "a.ts"]⟩, ⟨true, ["b.ts"]⟩] :=
    exists_of_map_collect (by decide +kernel)
  obtain ⟨g, t, hcollect, hpaths⟩ := hrun
  obtain ⟨t', ht'⟩ := collect_relocates (some ⟨["x/"]⟩) false 3 ⟨true, ["app"]⟩
    ⟨true, ["lib", "a.ts"]⟩ movedStore hostStore t g hs hs' hbase hcollect
  exact ⟨hs, hs', hbase, g, t, t', hcollect, hpaths, ht'⟩

end ModuleBundler
