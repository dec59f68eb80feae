import ModuleBundler.Proofs.Bundle.Exactness
import ModuleBundler.Proofs.Bundle.Failure
import ModuleBundler.Syntax.Program

/-!
# Following references that only use types

A reference that only uses types is followed if the options ask for it. Following them as well only
adds to a bundle (`bundle_partOf_of_followTypes`): what is found without them is found with them,
and each module keeps the edges that it has.

The two walks cannot be compared step by step. The longer one comes to modules by other ways, so
that it meets them in another order, and what is found for the first time in one walk may be known
in the other. What is compared instead is what each walk finds in the end: the least set of paths
that has the start and is closed under references. With more references it is larger
(`BundleOptions.needed_subset_followTypes`). The edges of a module are a matter of its own
references, `BundleOptions.edges_of_visits`.
-/

namespace ModuleBundler

namespace Graph

/-- The graph has an edge from its module `m` to the one at a path. -/
def Imports (g : Graph) (m : Module) (path : Path) : Prop :=
  ∃ v ∈ m.dependencies, g.paths[v]? = some path

/-- All modules of a graph are in another one, with the same contents, and there they have all the
edges that they have here. The order may be another one. -/
def PartOf (g g' : Graph) : Prop :=
  ∀ m ∈ g.modules, ∃ m' ∈ g'.modules, m'.path = m.path ∧ m'.content = m.content ∧
    (∀ path, g.Imports m path → g'.Imports m' path) ∧ m.externals ⊆ m'.externals

end Graph

/-- The edges of a module, as edges to paths. -/
theorem Module.Lists.imports_iff {g : Graph} {m : Module} {destination? : Reference → Option Path}
    {external : Reference → Bool} {done : List Reference}
    (h : m.Lists destination? external g.paths done) {path : Path} :
    g.Imports m path ↔ ∃ reference ∈ done, destination? reference = some path := by
  rw [Graph.Imports, h.dependencies]
  constructor
  · rintro ⟨v, hv, hpath⟩
    obtain ⟨q, hq, rfl⟩ := List.mem_map.1 (List.mem_eraseDups.1 hv)
    rw [List.getElem?_idxOf (h.mem q hq)] at hpath
    obtain rfl := Option.some.inj hpath
    exact List.mem_filterMap.1 hq
  · intro hreference
    have hq : path ∈ done.filterMap destination? := List.mem_filterMap.2 hreference
    exact ⟨g.paths.idxOf path, List.mem_eraseDups.2 (List.mem_map_of_mem hq),
      List.getElem?_idxOf (h.mem path hq)⟩

/-- The requests of a module that are left out. -/
theorem Module.Lists.mem_externals_iff {paths : List Path} {m : Module}
    {destination? : Reference → Option Path} {external : Reference → Bool} {done : List Reference}
    (h : m.Lists destination? external paths done) {request : String} :
    request ∈ m.externals ↔
      ∃ reference ∈ done, external reference = true ∧ reference.request = request := by
  simp [h.externals, List.mem_eraseDups, and_assoc]

namespace BundleOptions

variable {s : MemoryStore} {start path : Path}

/-- **The edges of a module are those of its references**: what its references lead to, and what
they leave out. -/
theorem edges_of_visits [Engine] {options : BundleOptions MemoryStore} (hs : s.Sound)
    {index : Nat} {g : Graph} (hvisits : (options.project s).Visits start {} index g) {m : Module}
    (hm : m ∈ g.modules) :
    s.source m.path = .ok (m.content, m.references) ∧
      ∃ directory, m.path.parent = .ok directory ∧
        (∀ path, g.Imports m path ↔
          ∃ reference ∈ m.references, options.destination? s directory reference = some path) ∧
        ∀ request, request ∈ m.externals ↔
          ∃ reference ∈ m.references, options.isExternal s directory reference = true ∧
            reference.request = request := by
  obtain ⟨i, hi⟩ := List.mem_iff_getElem?.1 hm
  have hfound := hvisits.found_of_lt (List.getElem?_eq_some_iff.1 hi).1
  have hpath : g.paths[i]? = some m.path := by rw [Graph.paths, List.getElem?_map, hi]; rfl
  obtain ⟨content, references, hread, -⟩ := hfound.exists_lead hpath
  obtain ⟨directory, hparent⟩ := hs.exists_parent_of_source hread
  obtain ⟨hsource, hlists⟩ := hfound.exists_lists hi (options.tells_project hparent)
  exact ⟨hsource, directory, hparent, fun _ ↦ hlists.imports_iff,
    fun _ ↦ hlists.mem_externals_iff⟩

/-! ### With and without types -/

variable {packages : Option PackageTable} {directory : Path} {reference : Reference}

/-- With types, every reference is followed. -/
theorem isFollowed_followTypes (reference : Reference) :
    (ofTable packages true).isFollowed reference = true := by
  simp [isFollowed, ofTable]

/-- A reference that is followed without types leads to the same module with them. -/
theorem destination?_followTypes
    (h : (ofTable packages false).isFollowed reference = true) :
    (ofTable packages true).destination? s directory reference =
      (ofTable packages false).destination? s directory reference := by
  rw [destination?, destination?, h, isFollowed_followTypes]
  rfl

/-- A reference that is followed without types is left out without them if it is with them. -/
theorem isExternal_followTypes
    (h : (ofTable packages false).isFollowed reference = true) :
    (ofTable packages true).isExternal s directory reference =
      (ofTable packages false).isExternal s directory reference := by
  rw [isExternal, isExternal, h, isFollowed_followTypes]
  rfl

/-- What a reference leads to without types, it leads to with them. -/
theorem destination?_followTypes_of_eq_some
    (h : (ofTable packages false).destination? s directory reference = some path) :
    (ofTable packages true).destination? s directory reference = some path :=
  (destination?_followTypes (destination?_eq_some.1 h).1).trans h

/-- What is left out without types is left out with them. -/
theorem isExternal_followTypes_of_eq_true
    (h : (ofTable packages false).isExternal s directory reference = true) :
    (ofTable packages true).isExternal s directory reference = true := by
  have hfollowed : (ofTable packages false).isFollowed reference = true := by
    simp only [isExternal, Bool.and_eq_true] at h
    exact h.1.1
  rwa [isExternal_followTypes hfollowed]

variable [Engine]

/-- **With types, a start needs all that it needs without them.** -/
theorem needed_subset_followTypes :
    ((ofTable packages false).project s).needed start ⊆
      ((ofTable packages true).project s).needed start := by
  intro p hp
  induction hp with
  | refl => exact .refl
  | tail _ hlink ih =>
    obtain ⟨content, references, reference, hreads, hmem, directory, hparent, hleads⟩ := hlink
    exact ih.tail ⟨content, references, reference, hreads, hmem, directory, hparent,
      destination?_followTypes_of_eq_some hleads⟩

/-- A module that resolves with types resolves without them. -/
theorem Resolves.of_followTypes (h : (ofTable packages true).Resolves s path) :
    (ofTable packages false).Resolves s path := by
  obtain ⟨content, references, directory, hsource, hparent, hall⟩ := h
  refine ⟨content, references, directory, hsource, hparent, fun reference hmem hfollowed ↦ ?_⟩
  have hlead := hall reference hmem (isFollowed_followTypes reference)
  rwa [destination?_followTypes hfollowed, isExternal_followTypes hfollowed] at hlead

/-- A bundle without types does not fail, if there is one with them. -/
theorem not_failsWith_of_followTypes (hs : s.Sound) {entry : Path} (hopens : s.Opens entry start)
    {index : Nat} {g : Graph}
    (hvisits : ((ofTable packages true).project s).Visits start {} index g) (e : Error) :
    ¬ (ofTable packages false).FailsWith s entry e := by
  intro hfails
  obtain ⟨p, hneeded, hnot⟩ := hfails.exists_not_resolves hs hopens
  have hcomplete := hvisits.complete (functional_project _ s) (needed_subset_followTypes hneeded)
  exact hnot ((resolves_iff hs).2 hcomplete).of_followTypes

/-- What is found without types is a part of what is found with them. -/
theorem partOf_of_visits (hs : s.Sound) {index index' : Nat} {g g' : Graph}
    (hvisits : ((ofTable packages false).project s).Visits start {} index g)
    (hvisits' : ((ofTable packages true).project s).Visits start {} index' g') : g.PartOf g' := by
  intro m hm
  have hneeded : m.path ∈ ((ofTable packages false).project s).needed start := by
    rw [(Project.isLeast_needed _ start).unique
      (hvisits.isLeast_paths (functional_project _ s))]
    exact List.mem_map_of_mem hm
  have hpath : m.path ∈ g'.paths :=
    (Project.isLeast_needed _ start).2 (hvisits'.isLeast_paths (functional_project _ s)).1
      (needed_subset_followTypes hneeded)
  obtain ⟨m', hm', hsame⟩ := List.mem_map.1 hpath
  obtain ⟨hsource, directory, hparent, himports, hexternals⟩ := edges_of_visits hs hvisits hm
  obtain ⟨hsource', directory', hparent', himports', hexternals'⟩ :=
    edges_of_visits hs hvisits' hm'
  -- both modules are the same file, so the same references are looked at on both sides
  rw [hsame] at hsource' hparent'
  obtain ⟨hcontent, hreferences⟩ := Prod.mk.inj (Except.ok.inj (hsource'.symm.trans hsource))
  obtain rfl := Except.ok.inj (hparent.symm.trans hparent')
  rw [hreferences] at himports' hexternals'
  refine ⟨m', hm', hsame, hcontent, fun path hedge ↦ ?_, fun request hrequest ↦ ?_⟩
  · obtain ⟨reference, hmem, hdestination⟩ := (himports path).1 hedge
    exact (himports' path).2 ⟨reference, hmem, destination?_followTypes_of_eq_some hdestination⟩
  · obtain ⟨reference, hmem, hexternal, hname⟩ := (hexternals request).1 hrequest
    exact (hexternals' request).2
      ⟨reference, hmem, isExternal_followTypes_of_eq_true hexternal, hname⟩

end BundleOptions

/-- **Following types only adds.** Where there is a bundle with the references that only use types,
there is one without them, and it is a part of the other: all its modules are there with the same
contents, and each module has all its edges there, to modules and to what is left out. -/
theorem bundle_partOf_of_followTypes [Engine] (packages : Option PackageTable) (entry : Path)
    (s s₁ : MemoryStore) (g₁ : Graph) (hs : s.Reachable)
    (h : bundle packages true entry s = some (.ok g₁, s₁)) :
    ∃ g₀ s₀, bundle packages false entry s = some (.ok g₀, s₀) ∧ g₀.PartOf g₁ := by
  have hsound : s.Sound := hs.sound
  obtain ⟨start, hopens, hvisits₁⟩ :=
    BundleOptions.exists_visits_of_collect hsound (BundleOptions.readsTree_ofTable _ _) h
  obtain ⟨⟨outcome, s₀⟩, hbundle⟩ :=
    Option.isSome_iff_exists.1 (isSome_bundle packages false entry hsound)
  rcases outcome with e | g₀
  · have hfails :=
      BundleOptions.failsWith_of_collect hsound (BundleOptions.readsTree_ofTable _ _) hbundle
    exact absurd hfails (BundleOptions.not_failsWith_of_followTypes hsound hopens hvisits₁ e)
  · obtain ⟨start', hopens', hvisits₀⟩ :=
      BundleOptions.exists_visits_of_collect hsound (BundleOptions.readsTree_ofTable _ _) hbundle
    obtain rfl := hopens.unique hopens'
    exact ⟨g₀, s₀, hbundle, BundleOptions.partOf_of_visits hsound hvisits₀ hvisits₁⟩

/-- A file that imports the types of another one before it imports a third, which imports the second
one for more than its types. -/
def typedStore : MemoryStore :=
  Operation.run
    [.save ⟨true, ["a.ts"]⟩ (Utf8.encode "import type T from './t'; import './b';"),
      .save ⟨true, ["b.ts"]⟩ (Utf8.encode "import './t'; import 'x';"),
      .save ⟨true, ["t.ts"]⟩ (Utf8.encode "import type U from './u';"),
      .save ⟨true, ["u.ts"]⟩ []] .empty

/-- With types, the third file is found second and a fourth one is found at all. -/
theorem bundle_partOf_of_followTypes_typedStore :
    typedStore.Reachable ∧
    ∃ g₁ s₁, bundle (some ⟨[], ⟨["x"]⟩⟩) true ⟨true, ["a.ts"]⟩ typedStore = some (.ok g₁, s₁) ∧
      g₁.paths = [⟨true, ["a.ts"]⟩, ⟨true, ["t.ts"]⟩, ⟨true, ["u.ts"]⟩, ⟨true, ["b.ts"]⟩] ∧
      ∃ g₀ s₀, bundle (some ⟨[], ⟨["x"]⟩⟩) false ⟨true, ["a.ts"]⟩ typedStore =
        some (.ok g₀, s₀) ∧ g₀.PartOf g₁ := by
  have hs : typedStore.Reachable := FileStore.Reachable.start.run _
  have hrun : ∃ g₁ s₁, bundle (some ⟨[], ⟨["x"]⟩⟩) true ⟨true, ["a.ts"]⟩ typedStore =
      some (.ok g₁, s₁) ∧
      g₁.paths = [⟨true, ["a.ts"]⟩, ⟨true, ["t.ts"]⟩, ⟨true, ["u.ts"]⟩, ⟨true, ["b.ts"]⟩] :=
    exists_of_map_collect (by decide +kernel)
  obtain ⟨g₁, s₁, hbundle, hpaths⟩ := hrun
  exact ⟨hs, g₁, s₁, hbundle, hpaths, bundle_partOf_of_followTypes _ _ _ _ _ hs hbundle⟩

end ModuleBundler
