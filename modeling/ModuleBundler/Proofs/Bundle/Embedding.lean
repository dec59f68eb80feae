import Mathlib.Data.Set.Function
import ModuleBundler.Proofs.Bundle.Course

/-!
# Projects inside projects

A graph does not say what its paths are, only which of them are equal. So when the modules of a
project are found again in another one, under other paths, a walk finds the same graph there, with
the other paths in it. What is asked for is small: that different paths go to different paths, and
that reading and resolving give the same answers wherever they give any (`Project.Embeds`). Nothing
is asked of files that the walk does not come to, or of what fails; the second project may have more
of everything.

`Graph.rename` replaces the paths of a graph and leaves the places of the modules, and so what they
import. With the same paths on both sides, `Project.Visits.rename` compares a store before and after
a change.
-/

namespace ModuleBundler

/-- The module at another path. -/
def Module.rename (f : Path → Path) (m : Module) : Module :=
  { m with path := f m.path }

/-- What a reference adds to a graph, with another path if it is a module. -/
def Target.rename (f : Path → Path) : Target → Target
  | .skipped => .skipped
  | .external => .external
  | .module path => .module (f path)

/-- Elements keep their places in a list, if different ones go to different ones. -/
theorem idxOf?_map {α β : Type} [DecidableEq α] [DecidableEq β] {f : α → β} {good : Set α}
    (hf : Set.InjOn f good) {a : α} (ha : a ∈ good) {l : List α} (hl : ∀ b ∈ l, b ∈ good) :
    (l.map f).idxOf? (f a) = l.idxOf? a := by
  induction l with
  | nil => rfl
  | cons b rest ih =>
    have hb : f b = f a ↔ b = a := hf.eq_iff (hl b List.mem_cons_self) ha
    rw [List.map_cons, List.idxOf?_cons, List.idxOf?_cons,
      ih fun c hc ↦ hl c (List.mem_cons_of_mem _ hc)]
    simp only [beq_iff_eq, hb]

namespace Graph

/-- The graph with other paths. -/
def rename (f : Path → Path) (g : Graph) : Graph :=
  ⟨g.modules.map (Module.rename f)⟩

variable {f : Path → Path} {g : Graph} {path : Path}

theorem rename_id (g : Graph) : g.rename id = g := by
  have hmodule : Module.rename id = id := rfl
  rw [rename, hmodule, List.map_id]

theorem paths_rename (f : Path → Path) (g : Graph) : (g.rename f).paths = g.paths.map f := by
  simp only [rename, paths, List.map_map]
  rfl

@[simp]
theorem size_rename (f : Path → Path) (g : Graph) : (g.rename f).size = g.size :=
  List.length_map _

theorem rename_insert (f : Path → Path) (g : Graph) (m : Module) :
    (g.insert m).rename f = (g.rename f).insert (m.rename f) := by
  simp only [rename, insert, List.map_append, List.map_singleton]

theorem rename_addDependency (f : Path → Path) (g : Graph) (importer imported : Nat) :
    (g.addDependency importer imported).rename f =
      (g.rename f).addDependency importer imported :=
  congrArg Graph.mk
    (map_modify (Module.rename f) (·.addDependency imported) _ (fun _ ↦ rfl) importer g.modules)

theorem rename_addExternal (f : Path → Path) (g : Graph) (importer : Nat) (request : String) :
    (g.addExternal importer request).rename f = (g.rename f).addExternal importer request :=
  congrArg Graph.mk
    (map_modify (Module.rename f) (·.addExternal request) _ (fun _ ↦ rfl) importer g.modules)

/-- Modules keep their places, if different paths go to different paths. -/
theorem indexOf?_rename {good : Set Path} (hf : Set.InjOn f good) (hpaths : ∀ p ∈ g.paths, p ∈ good)
    (hpath : path ∈ good) : (g.rename f).indexOf? (f path) = g.indexOf? path := by
  rw [indexOf?, indexOf?, paths_rename, idxOf?_map hf hpath hpaths]

end Graph

namespace Project

/-- The modules of a project at the paths in `good` are in another project, at other paths. -/
structure Embeds (P P' : Project) (f : Path → Path) (good : Set Path) : Prop where
  /-- Different paths go to different paths. -/
  injOn : Set.InjOn f good
  /-- What can be read, can be read there too. -/
  reads : ∀ {path content references}, path ∈ good → P.reads path (.ok (content, references)) →
    P'.reads (f path) (.ok (content, references))
  /-- What leads somewhere, leads to the same module there. -/
  leads : ∀ {importer reference target}, importer ∈ good → P.leads importer reference (.ok target) →
    P'.leads (f importer) reference (.ok (target.rename f))

variable {P P' : Project} {f : Path → Path} {good : Set Path} {index : Nat} {importer path : Path}
  {references : List Reference} {g g' : Graph}

/-- A walk along references is a walk along them in a project that has the modules. -/
theorem Follows.rename (hP : P.Embeds P' f good) (h : P.Follows index importer references g g')
    (himporter : importer ∈ good) (hgood : ∀ p ∈ g'.paths, p ∈ good) :
    P'.Follows index (f importer) references (g.rename f) (g'.rename f) := by
  induction h with
  | nil => exact .nil
  | skipped hleads _ ih => exact .skipped (hP.leads himporter hleads) (ih himporter hgood)
  | external hleads _ ih =>
    have hrest := ih himporter hgood
    rw [Graph.rename_addExternal] at hrest
    exact .external (hP.leads himporter hleads) hrest
  | @known _ imported _ path _ _ g _ hleads hindex hrest ih =>
    have hbefore : ∀ p ∈ g.paths, p ∈ good := fun p hp ↦
      hgood p (hrest.paths_prefix_of_addDependency.subset hp)
    have hpath : path ∈ good := hbefore path (Graph.indexOf?_eq_some.1 hindex).1
    have hrest' := ih himporter hgood
    rw [Graph.rename_addDependency] at hrest'
    exact .known (hP.leads himporter hleads)
      ((Graph.indexOf?_rename hP.injOn hbefore hpath).trans hindex) hrest'
  | @found index importer path reference content references rest g found g' hleads hindex hreads
      hinner hrest ihinner ihrest =>
    -- what the graph had before, and the new module, are among what it has in the end
    have hfound : ∀ p ∈ found.paths, p ∈ good := fun p hp ↦
      hgood p (hrest.paths_prefix_of_addDependency.subset hp)
    have hbefore : ∀ p ∈ g.paths, p ∈ good := fun p hp ↦
      hfound p (hinner.paths_prefix_of_insert.subset hp)
    have hpath : path ∈ good := hfound path hinner.mem_paths_of_insert
    have hinner' := ihinner hpath hfound
    have hrest' := ihrest himporter hgood
    rw [Graph.rename_insert] at hinner'
    rw [Graph.rename_addDependency] at hrest'
    rw [← g.size_rename f] at hinner' hrest'
    exact .found (hP.leads himporter hleads)
      ((Graph.indexOf?_rename hP.injOn hbefore hpath).trans hindex) (hP.reads hpath hreads) hinner'
      hrest'

/-- **A project that has the modules of a walk has the walk**, and it finds the same graph, with its
paths. -/
theorem Visits.rename (hP : P.Embeds P' f good) (h : P.Visits path {} index g)
    (hgood : ∀ p ∈ g.paths, p ∈ good) : P'.Visits (f path) {} index (g.rename f) := by
  obtain ⟨hindex, -⟩ | ⟨-, rfl, content, references, hreads, hfollows⟩ := h
  · cases hindex
  · have hpath : path ∈ good := hgood path hfollows.mem_paths_of_insert
    exact Or.inr ⟨rfl, rfl, content, references, hP.reads hpath hreads,
      hfollows.rename hP hpath hgood⟩

end Project

end ModuleBundler
