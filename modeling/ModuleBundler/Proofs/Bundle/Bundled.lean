import ModuleBundler.Proofs.Bundle.Agreement
import ModuleBundler.Proofs.Bundle.Footprint
import ModuleBundler.Proofs.Bundle.Links
import ModuleBundler.Proofs.Path.RoundTrip

/-!
# The graphs that bundles end with

A bundle may be collected from a store in memory or from one on a disk, with any resolver. What the
graph says of places and edges does not depend on this (`Project.Follows`). What it says of paths
does: a path comes into a graph because the entry opened under it, because a relative request
resolved to it, or because the resolver answered with it. Whatever is true of all paths that come in
these three ways is true of the paths of the graph (`forall_paths_of_collect`).

Here it is used to see that all of them are well formed (`Graph.Bundled.wellFormed`), so that no two
modules have paths that are written alike (`Graph.Bundled.nodup_texts`).
-/

namespace ModuleBundler

/-! ### Where paths come from -/

/-- The project of which is known only that references lead to paths with a property. -/
def Project.leadingTo (good : Path → Prop) : Project where
  reads _ _ := True
  leads _ _ answer := ∀ path, answer = .ok (.module path) → good path

section

variable {σ : Type} [FileStore σ] {options : BundleOptions σ} {depth : Nat} {entry : Path}
  {s s' : σ} {g : Graph}

/-- **What is true of the paths that come into a graph is true of its paths**: of the entry, of what
resolves, and of what the resolver answers. -/
theorem forall_paths_of_collect [Engine] {I : σ → Prop} {good : Path → Prop}
    (hload : ∀ {path s}, I s → I (Module.load path s).2)
    (hresolve : ∀ {context relative path s}, I s →
      FileStore.resolve context relative s = .ok path → good path)
    (hanswers : ∀ resolver, options.resolver = some resolver → ∀ s directory request path,
      resolver s directory request = .ok (.module path) → good path)
    (hopened : I (entryPath entry s).2)
    (hentry : ∀ path, (entryPath entry s).1 = .ok path → good path)
    (h : collect options depth entry s = some (.ok g, s')) :
    ∀ path ∈ g.paths, good path := by
  have hdescribes : (Project.leadingTo good).Describes options I := by
    refine ⟨hload, fun _ ↦ trivial, fun {importer directory s reference} hs _ path htarget ↦ ?_⟩
    rcases BundleOptions.located_or_answered htarget with hlocate | ⟨resolver, hresolver, hanswer⟩
    · obtain ⟨candidate, -, hfound, -⟩ := Locate.exists_candidate_of_locate hlocate
      exact hresolve hs hfound
    · exact hanswers resolver hresolver s directory reference.request path hanswer
  obtain ⟨start, hstart, hvisits⟩ := collect_eq_ok hdescribes hopened h
  intro path hpath
  rcases hvisits.exists_link hpath with rfl | ⟨_, _, _, _, _, _, _, hleads⟩
  · exact hentry _ hstart
  · exact hleads path rfl

end

/-- The paths that the resolver answers with have plain segments, as all paths do that are read from
texts. -/
def BundleOptions.AnswersWellFormed {σ : Type} (options : BundleOptions σ) : Prop :=
  ∀ resolver, options.resolver = some resolver → ∀ s directory request path,
    resolver s directory request = .ok (.module path) → path.WellFormed

theorem BundleOptions.answersWellFormed_ofTable {σ : Type} [FileStore σ]
    {packages : Option PackageTable} (followTypes : Bool)
    (h : ∀ table ∈ packages, ∀ path ∈ table.targets, path.WellFormed) :
    (ofTable packages followTypes : BundleOptions σ).AnswersWellFormed := by
  intro resolver hresolver s directory request path hanswer
  obtain ⟨table, htable, rfl⟩ := Option.map_eq_some_iff.1 hresolver
  exact h table htable path (PackageTable.mem_targets hanswer)

/-- In memory, what an entry opens under and what resolves is well formed. -/
theorem MemoryStore.InUse.wellFormed_of_collect [Engine] {options : BundleOptions MemoryStore}
    {depth : Nat} {entry : Path} {s s' : MemoryStore} {g : Graph} (hs : s.InUse)
    (hanswers : options.AnswersWellFormed) (h : collect options depth entry s = some (.ok g, s')) :
    ∀ p ∈ g.paths, p.WellFormed := by
  have hresolve : ∀ {context relative path}, FileStore.resolve context relative s = .ok path →
      path.WellFormed := fun hpath ↦
    hs.tree.isTree_catalog.wellFormed (hs.tree.resolve_iff.1 hpath).2.2
  refine forall_paths_of_collect (I := fun s₁ ↦ ∃ n, s₁ = s.skip n) ?_ ?_ hanswers
    (hs.sound.snd_entryPath entry) ?_ h
  · rintro path _ ⟨n, rfl⟩
    obtain ⟨m, hload⟩ := (hs.sound.skip n).snd_load_module path
    exact ⟨n + m, by rw [hload, MemoryStore.skip_skip]⟩
  · rintro context relative path _ ⟨n, rfl⟩ hpath
    rw [(s.sameTree_skip n).resolve] at hpath
    exact hresolve hpath
  · intro path hpath
    exact hresolve (hs.sound.fst_entryPath_eq_ok.1 hpath).2

/-- On a disk, what an entry opens under and what resolves is well formed. -/
theorem DiskStore.wellFormed_of_collect [Engine] {options : BundleOptions DiskStore} {depth : Nat}
    {entry : Path} {S S' : DiskStore} {g : Graph} (hnames : S.disk.Nameable)
    (hcwd : S.disk.IsCanonical S.cwd) (hfresh : S.handles.Fresh)
    (hanswers : options.AnswersWellFormed) (h : collect options depth entry S = some (.ok g, S')) :
    ∀ p ∈ g.paths, p.WellFormed := by
  refine forall_paths_of_collect (I := fun S₁ ↦ ∃ n, S₁ = S.skip n) ?_ ?_ hanswers
    (snd_entryPath hfresh entry) ?_ h
  · rintro path _ ⟨n, rfl⟩
    obtain ⟨m, hload⟩ := load_eq (S.fresh_skip hfresh n) path
    rw [Module.load_eq, hload]
    exact ⟨n + m, S.skip_skip n m⟩
  · rintro context relative path _ ⟨n, rfl⟩ hpath
    obtain ⟨place, hplace, rfl⟩ := isCanonical_of_resolve hnames hcwd hpath
    exact hplace.wellFormed
  · intro path hpath
    rcases entryPath_cases hfresh entry with ⟨e, -, hentry⟩ | ⟨place, hplace, -, hentry⟩
    · rw [hentry] at hpath
      cases hpath
    · rw [hentry] at hpath
      obtain rfl := Except.ok.inj hpath
      exact (isCanonical_of_place hnames hcwd hplace).wellFormed

/-! ### What is recorded -/

/-- Changing one element of a list keeps what the change keeps. -/
theorem forall_mem_modify {α : Type} {p : α → Prop} {f : α → α} (hf : ∀ a, p a → p (f a)) {i : Nat}
    {l : List α} (h : ∀ a ∈ l, p a) : ∀ a ∈ l.modify i f, p a := by
  intro a ha
  obtain ⟨j, hj⟩ := List.mem_iff_getElem?.1 ha
  rw [List.getElem?_modify] at hj
  obtain ⟨b, hb, rfl⟩ := Option.map_eq_some_iff.1 hj
  have hpb : p b := h b (List.mem_of_getElem? hb)
  split
  · exact hf b hpb
  · exact hpb

theorem nodup_addNew {α : Type} [DecidableEq α] {a : α} {l : List α} (h : l.Nodup) :
    (addNew a l).Nodup := by
  rw [addNew]
  split
  · exact h
  · rw [← List.concat_eq_append]
    exact h.concat ‹_›

/-- No edge is recorded twice. -/
theorem Project.Follows.nodup_dependencies {P : Project} {index : Nat} {importer : Path}
    {references : List Reference} {g g' : Graph} (h : P.Follows index importer references g g')
    (hg : ∀ m ∈ g.modules, m.dependencies.Nodup) : ∀ m ∈ g'.modules, m.dependencies.Nodup := by
  have hdependency (imported : Nat) (m : Module) (hm : m.dependencies.Nodup) :
      (m.addDependency imported).dependencies.Nodup := nodup_addNew hm
  have hexternal (request : String) (m : Module) (hm : m.dependencies.Nodup) :
      (m.addExternal request).dependencies.Nodup := hm
  induction h with
  | nil => exact hg
  | skipped _ _ ih => exact ih hg
  | external _ _ ih => exact ih (forall_mem_modify (hexternal _) hg)
  | known _ _ _ ih => exact ih (forall_mem_modify (hdependency _) hg)
  | found _ _ _ _ _ ihinner ihrest =>
    refine ihrest (forall_mem_modify (hdependency _) (ihinner ?_))
    exact List.forall_mem_append.2 ⟨hg, List.forall_mem_singleton.2 List.nodup_nil⟩

namespace Graph

/-- A graph is what a bundle ended with. -/
inductive Bundled [Engine] (g : Graph) : Prop
  /-- The store is in memory and in use. -/
  | inMemory {options : BundleOptions MemoryStore} {depth : Nat} {entry : Path}
      {s s' : MemoryStore} :
      s.InUse → options.AnswersWellFormed →
      collect options depth entry s = some (.ok g, s') → Bundled g
  /-- The store is on a disk, and the directory that it works in is found by its own text. -/
  | onDisk {options : BundleOptions DiskStore} {depth : Nat} {entry : Path} {S S' : DiskStore} :
      S.disk.Nameable → S.disk.canonical [] S.cwd.text = .ok S.cwd → S.handles.Fresh →
      options.AnswersWellFormed →
      collect options depth entry S = some (.ok g, S') → Bundled g

namespace Bundled

variable [Engine] {g : Graph}

/-- A bundle is a walk along references. -/
theorem exists_visits (h : g.Bundled) : ∃ (P : Project) (start : Path), P.Visits start {} 0 g := by
  rcases h with ⟨-, -, hcollect⟩ | ⟨-, -, -, -, hcollect⟩ <;>
  · obtain ⟨start, -, hvisits⟩ :=
      collect_eq_ok (I := fun _ ↦ True) (describes_anything _ id) trivial hcollect
    exact ⟨_, start, hvisits⟩

/-- All modules are found from the first. -/
theorem exists_explores (h : g.Bundled) : ∃ post, g.Explores 0 [0] g.size post := by
  rcases h with ⟨-, -, hcollect⟩ | ⟨-, -, -, -, hcollect⟩ <;>
  exact exists_explores_zero_of_collect hcollect

/-- There is a module, and no module has an edge twice. -/
theorem nodup_dependencies (h : g.Bundled) :
    0 < g.size ∧ ∀ m ∈ g.modules, m.dependencies.Nodup := by
  obtain ⟨P, start, ⟨hindex, -⟩ | ⟨-, -, content, references, -, hfollows⟩⟩ := h.exists_visits
  · cases hindex
  · refine ⟨hfollows.size_le, hfollows.nodup_dependencies ?_⟩
    exact List.forall_mem_singleton.2 List.nodup_nil

/-- All paths have plain segments. -/
theorem wellFormed (h : g.Bundled) : ∀ p ∈ g.paths, p.WellFormed := by
  rcases h with ⟨hs, hanswers, hcollect⟩ | ⟨hnames, hcwd, hfresh, hanswers, hcollect⟩
  · exact hs.wellFormed_of_collect hanswers hcollect
  · exact DiskStore.wellFormed_of_collect hnames ((Disk.isCanonical_iff hnames []).2 hcwd) hfresh
      hanswers hcollect

/-- **No two modules have paths that are written alike.** -/
theorem nodup_texts (h : g.Bundled) : (g.paths.map Path.render).Nodup := by
  obtain ⟨P, start, hvisits⟩ := h.exists_visits
  exact hvisits.nodup_paths.map_on fun p hp q hq ↦
    Path.render_injOn (h.wellFormed p hp) (h.wellFormed q hq)

end Bundled

end Graph

end ModuleBundler
