import Mathlib.Order.Bounds.Basic
import ModuleBundler.Proofs.Bundle.Course

/-!
# What a walk finds

The modules that a start needs are the least set that has it and is closed under references,
`Project.needed`. A walk that succeeds finds these and no others: what it finds is linked to the
start (`Project.Follows.subset_needed`), and a module is left only when all its references led
somewhere (`Project.Follows.exists_lead`).

The second half is about one module. That it holds for all of them is `Project.Follows.found_of_le`:
**every module that a walk finds was followed to its end in a walk of its own**, which is a part of
the whole one. What is shown along the references of one module is so shown for every module of a
bundle.
-/

namespace ModuleBundler

namespace Project

variable (P : Project)

/-- The module at `p` has a reference that leads to the one at `q`. -/
def Links (p q : Path) : Prop :=
  ∃ content references reference, P.reads p (.ok (content, references)) ∧
    reference ∈ references ∧ P.leads p reference (.ok (.module q))

/-- A set of paths that has the start, and with a path all it links to. -/
def Closed (start : Path) (S : Set Path) : Prop :=
  start ∈ S ∧ ∀ p ∈ S, ∀ q, P.Links p q → q ∈ S

/-- The paths that a start leads to. -/
def needed (start : Path) : Set Path :=
  {p | Relation.ReflTransGen P.Links start p}

/-- What a start leads to is the least closed set. -/
theorem isLeast_needed (start : Path) : IsLeast {S | P.Closed start S} (P.needed start) := by
  refine ⟨⟨.refl, fun p hp q hpq ↦ hp.tail hpq⟩, fun S hS p hp ↦ ?_⟩
  induction hp with
  | refl => exact hS.1
  | tail _ hpq ih => exact hS.2 _ ih _ hpq

variable {P} {index : Nat} {importer : Path} {references : List Reference} {g g' : Graph}

/-- Each reference led somewhere, to a module of the graph if to any. -/
theorem Follows.exists_lead (h : P.Follows index importer references g g') {reference : Reference}
    (hmem : reference ∈ references) :
    ∃ target, P.leads importer reference (.ok target) ∧
      ∀ path, target = .module path → path ∈ g'.paths := by
  induction h with
  | nil => simp at hmem
  | skipped hleads _ ih =>
    rcases List.mem_cons.1 hmem with rfl | hmem
    · exact ⟨_, hleads, fun _ h ↦ nomatch h⟩
    · exact ih hmem
  | external hleads _ ih =>
    rcases List.mem_cons.1 hmem with rfl | hmem
    · exact ⟨_, hleads, fun _ h ↦ nomatch h⟩
    · exact ih hmem
  | known hleads hindex hrest ih =>
    rcases List.mem_cons.1 hmem with rfl | hmem
    · refine ⟨_, hleads, fun _ h ↦ ?_⟩
      obtain rfl := Target.module.inj h
      exact hrest.paths_prefix_of_addDependency.subset (Graph.indexOf?_eq_some.1 hindex).1
    · exact ih hmem
  | found hleads _ _ hinner hrest _ ih =>
    rcases List.mem_cons.1 hmem with rfl | hmem
    · refine ⟨_, hleads, fun _ h ↦ ?_⟩
      obtain rfl := Target.module.inj h
      exact hrest.paths_prefix_of_addDependency.subset hinner.mem_paths_of_insert
    · exact ih hmem

/-- A walk along references of a module finds what the module leads to. -/
theorem Follows.subset_needed (h : P.Follows index importer references g g') {content : Bytes}
    {all : List Reference} (hreads : P.reads importer (.ok (content, all)))
    (hall : references ⊆ all) {path : Path} (hpath : path ∈ g'.paths) :
    path ∈ g.paths ∨ path ∈ P.needed importer := by
  induction h generalizing content all path with
  | nil => exact Or.inl hpath
  | skipped _ _ ih => exact ih hreads (List.subset_of_cons_subset hall) hpath
  | external _ _ ih =>
    rw [Graph.paths_addExternal] at ih
    exact ih hreads (List.subset_of_cons_subset hall) hpath
  | known _ _ _ ih =>
    rw [Graph.paths_addDependency] at ih
    exact ih hreads (List.subset_of_cons_subset hall) hpath
  | @found index importer imported reference _ references rest g found g' hleads _ hread _ _ ihinner
      ihrest =>
    rw [Graph.paths_addDependency] at ihrest
    -- a path of the result was there, or comes from the inner walk, or from the rest of the outer
    rcases ihrest hreads (List.subset_of_cons_subset hall) hpath with hfound | hneeded
    · have hlink : P.Links importer imported :=
        ⟨content, all, reference, hreads, hall List.mem_cons_self, hleads⟩
      rcases ihinner hread (List.Subset.refl _) hfound with hbefore | hneeded
      · rw [Graph.paths_insert] at hbefore
        rcases List.mem_append.1 hbefore with hbefore | hnew
        · exact Or.inl hbefore
        · exact Or.inr (List.mem_singleton.1 hnew ▸ .single hlink)
      · exact Or.inr (.head hlink hneeded)
    · exact Or.inr hneeded

/-! ### Every module in its own walk -/

/-- The module at place `i` of a graph was read and followed to its end, and has not changed since.
-/
def Found (P : Project) (g : Graph) (i : Nat) : Prop :=
  ∃ path content references, ∃ before after : Graph, before.size = i ∧
    P.reads path (.ok (content, references)) ∧
    P.Follows i path references (before.insert { path, content, references }) after ∧
    after.paths <+: g.paths ∧ g.modules[i]? = after.modules[i]?

theorem Found.mono {i : Nat} (h : P.Found g i) (hpaths : g.paths <+: g'.paths)
    (hmodule : g'.modules[i]? = g.modules[i]?) : P.Found g' i := by
  obtain ⟨path, content, references, before, after, hi, hreads, hfollows, hprefix, hsame⟩ := h
  exact ⟨path, content, references, before, after, hi, hreads, hfollows, hprefix.trans hpaths,
    hmodule.trans hsame⟩

/-- **Every module that a walk finds is followed to its end**, in a walk that is part of it. -/
theorem Follows.found_of_le (h : P.Follows index importer references g g') (hindex : index < g.size)
    {i : Nat} (hi : g.size ≤ i) (hlt : i < g'.size) : P.Found g' i := by
  induction h with
  | nil => omega
  | skipped _ _ ih => exact ih hindex hi hlt
  | external _ _ ih => exact ih (by simpa using hindex) (by simpa using hi) hlt
  | known _ _ _ ih => exact ih (by simpa using hindex) (by simpa using hi) hlt
  | @found index importer path reference content references rest g found g' _ _ hreads hinner hrest
      ihinner ihrest =>
    have hsize : g.size + 1 ≤ found.size := by simpa using hinner.size_le
    rcases Nat.lt_or_ge i found.size with hfound | hge
    · -- found on the way down, and not touched by what follows
      have hpaths : found.paths <+: g'.paths := hrest.paths_prefix_of_addDependency
      have hmodule : g'.modules[i]? = found.modules[i]? := by
        rw [hrest.getElem?_eq (by simpa using hfound) (by omega),
          Graph.getElem?_addDependency_of_ne (by omega)]
      rcases Nat.eq_or_lt_of_le hi with rfl | hgt
      · exact ⟨path, content, references, g, found, rfl, hreads, hinner, hpaths, hmodule⟩
      · exact (ihinner (by simp) (by rwa [Graph.size_insert]) hfound).mono hpaths hmodule
    · exact ihrest (by simpa using Nat.lt_of_lt_of_le hindex (by omega)) (by simpa using hge) hlt

/-- A walk from the graph without modules: it reads the start, and follows each module to its end.
-/
theorem Visits.found_of_lt {path : Path} (h : P.Visits path {} index g) {i : Nat}
    (hi : i < g.size) :
    P.Found g i := by
  obtain ⟨hindex, -⟩ | ⟨-, -, content, references, hreads, hfollows⟩ := h
  · cases hindex
  · rcases Nat.eq_zero_or_pos i with rfl | hpos
    · exact ⟨path, content, references, {}, g, rfl, hreads, hfollows, List.prefix_rfl, rfl⟩
    · exact hfollows.found_of_le Nat.one_pos hpos hi

/-- The references of a module that was found led somewhere, to modules of the graph if to any. -/
theorem Found.exists_lead {i : Nat} (h : P.Found g i) {path : Path}
    (hpath : g.paths[i]? = some path) :
    ∃ content references, P.reads path (.ok (content, references)) ∧
      ∀ reference ∈ references, ∃ target, P.leads path reference (.ok target) ∧
        ∀ q, target = .module q → q ∈ g.paths := by
  obtain ⟨found, content, references, before, after, rfl, hreads, hfollows, hprefix, -⟩ := h
  have hfound : g.paths[before.size]? = some found :=
    Graph.getElem?_paths_of_insert (hfollows.paths_prefix.trans hprefix)
  obtain rfl : found = path := Option.some.inj (hfound.symm.trans hpath)
  refine ⟨content, references, hreads, fun reference hmem ↦ ?_⟩
  obtain ⟨target, hleads, hmodule⟩ := hfollows.exists_lead hmem
  exact ⟨target, hleads, fun q hq ↦ hprefix.subset (hmodule q hq)⟩

/-! ### Projects with one answer -/

/-- A project answers each question in one way only. -/
structure Functional (P : Project) : Prop where
  reads : ∀ {path answer answer'}, P.reads path answer → P.reads path answer' → answer = answer'
  leads : ∀ {importer reference answer answer'}, P.leads importer reference answer →
    P.leads importer reference answer' → answer = answer'

/-- The start is the first module of a walk from the graph without modules. -/
theorem Visits.head?_paths {path : Path} (h : P.Visits path {} index g) :
    g.paths.head? = some path := by
  obtain ⟨hindex, -⟩ | ⟨-, -, content, references, hreads, hfollows⟩ := h
  · cases hindex
  · obtain ⟨rest, hrest⟩ := hfollows.paths_prefix
    rw [← hrest]
    rfl

theorem Visits.nodup_paths {path : Path} (h : P.Visits path {} index g) : g.paths.Nodup := by
  obtain ⟨hindex, -⟩ | ⟨-, -, content, references, hreads, hfollows⟩ := h
  · cases hindex
  · exact hfollows.nodup_paths (List.nodup_singleton path)

/-- **A walk finds the modules that the start needs**, and no others. -/
theorem Visits.isLeast_paths (h : P.Visits path {} index g) (hP : P.Functional) :
    IsLeast {S | P.Closed path S} {p | p ∈ g.paths} := by
  refine ⟨⟨List.mem_of_mem_head? (by rw [h.head?_paths]; rfl), fun p hp q hpq ↦ ?_⟩, ?_⟩
  · obtain ⟨i, hi⟩ := List.mem_iff_getElem?.1 hp
    have hlt : i < g.size := g.length_paths ▸ (List.getElem?_eq_some_iff.1 hi).1
    obtain ⟨content, references, hreads, hlead⟩ := (h.found_of_lt hlt).exists_lead hi
    -- the module was read and followed to its end, with the one answer that reading it has
    obtain ⟨content', references', reference, hreads', hmem, hleads⟩ := hpq
    obtain ⟨rfl, rfl⟩ := Prod.mk.inj (Except.ok.inj (hP.reads hreads hreads'))
    obtain ⟨target, htarget, hmodule⟩ := hlead reference hmem
    exact hmodule q (Except.ok.inj (hP.leads htarget hleads))
  · refine fun S hS p hp ↦ (P.isLeast_needed path).2 hS ?_
    obtain ⟨hindex, -⟩ | ⟨-, -, content, references, hreads, hfollows⟩ := h
    · cases hindex
    · rcases hfollows.subset_needed hreads (List.Subset.refl _) hp with hstart | hneeded
      · obtain rfl := List.mem_singleton.1 hstart
        exact .refl
      · exact hneeded

end Project

end ModuleBundler
