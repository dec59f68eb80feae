import ModuleBundler.Proofs.Bundle.Bundled
import ModuleBundler.Proofs.Graph.Listed
import ModuleBundler.Proofs.Text.Order
import ModuleBundler.Report.Summary
import ModuleBundler.Syntax.Program

/-!
# Summaries speak of what they list

In a graph a module is known by its place, in a summary by its written path. Two things can go wrong
where the one becomes the other. A place may be none of the graph, and its text is then empty; and
two modules may have paths that are written alike, so that one of them can no longer be spoken of.

Neither happens to the graph that a bundle ended with. All its edges lead to places of the graph
(`Graph.Explores.lt_of_dependsOn`), and its paths are read back from what is written
(`Graph.Bundled.nodup_texts`). So a summary is closed (`Summary.Closed`): the entry, the order and
all edges speak of modules that are listed, and each is listed once (`Summary.closed_ofGraph`).

The requests that are left out are sorted by inserting one after the other. They are sorted for
those who compare bytes as well, since texts compare as their bytes do
(`Utf8.encode_lt_encode_iff`).
-/

namespace ModuleBundler

/-! ### Sorted texts -/

variable {s t : String} {l : List String}

theorem mem_insertSorted : t ∈ insertSorted s l ↔ t = s ∨ t ∈ l := by
  induction l with
  | nil => rw [insertSorted, List.mem_singleton, or_iff_left List.not_mem_nil]
  | cons u rest ih =>
    rw [insertSorted]
    split_ifs with hlt heq
    · exact List.mem_cons
    · rw [heq, List.mem_cons, ← or_assoc, or_self]
    · rw [List.mem_cons, ih, List.mem_cons, or_left_comm]

/-- A text is put in its place. -/
theorem pairwise_insertSorted (h : l.Pairwise (· < ·)) : (insertSorted s l).Pairwise (· < ·) := by
  induction l with
  | nil => exact List.pairwise_singleton _ s
  | cons u rest ih =>
    obtain ⟨hu, hrest⟩ := List.pairwise_cons.1 h
    rw [insertSorted]
    split_ifs with hlt heq
    · exact h.cons (List.forall_mem_cons.2 ⟨hlt, fun t ht ↦ hlt.trans (hu t ht)⟩)
    · exact h
    · have hus : u < s := (lt_trichotomy s u).resolve_left hlt |>.resolve_left heq
      refine (ih hrest).cons fun t ht ↦ ?_
      rcases mem_insertSorted.1 ht with rfl | ht
      · exact hus
      · exact hu t ht

theorem mem_sortedTexts : t ∈ sortedTexts l ↔ t ∈ l := by
  induction l with
  | nil => exact Iff.rfl
  | cons u rest ih => exact mem_insertSorted.trans ((or_congr_right ih).trans List.mem_cons.symm)

/-- The texts are sorted, each once. -/
theorem pairwise_sortedTexts (l : List String) : (sortedTexts l).Pairwise (· < ·) := by
  induction l with
  | nil => exact List.Pairwise.nil
  | cons u rest ih => exact pairwise_insertSorted ih

/-! ### Places and texts -/

theorem Path.render_ne_empty {p : Path} (h : p.WellFormed) : p.render ≠ "" := by
  intro hempty
  have hread := parse_render h
  rw [hempty] at hread
  rw [← hread] at hempty
  revert hempty
  decide

namespace Graph

variable {g : Graph} {i j : Nat} {order : Order} {post : List Nat}

/-- The text of a place of the graph is the written path of its module. -/
theorem getElem?_texts (h : i < g.size) : (g.paths.map Path.render)[i]? = some (g.pathText i) := by
  have hi : g.modules[i]? = some g.modules[i] := List.getElem?_eq_getElem h
  rw [pathText, paths, List.map_map, List.getElem?_map, hi]
  rfl

theorem pathText_mem (h : i < g.size) : g.pathText i ∈ g.paths.map Path.render :=
  List.mem_of_getElem? (getElem?_texts h)

/-- Where no two paths are written alike, a place is known by its text. -/
theorem pathText_inj (htexts : (g.paths.map Path.render).Nodup) (hi : i < g.size) (hj : j < g.size)
    (h : g.pathText i = g.pathText j) : i = j := by
  have hlt : i < (g.paths.map Path.render).length := by rwa [List.length_map, g.length_paths]
  refine (List.getElem?_inj hlt htexts).1 ?_
  rw [getElem?_texts hi, getElem?_texts hj, h]

theorem map_pathText_range (g : Graph) :
    (List.range g.size).map g.pathText = g.paths.map Path.render := by
  refine List.ext_getElem? fun i ↦ ?_
  rcases Nat.lt_or_ge i g.size with hi | hi
  · rw [getElem?_texts hi, List.getElem?_map, List.getElem?_range hi]
    rfl
  · rw [List.getElem?_eq_none (by simpa using hi),
      List.getElem?_eq_none (by simpa [g.length_paths] using hi)]

/-- Every edge leads to a place of the graph. -/
theorem Explores.lt_of_mem_dependencies (h : g.Explores 0 [0] g.size post) {m : Module}
    (hm : m ∈ g.modules) (hj : j ∈ m.dependencies) : j < g.size := by
  obtain ⟨i, hi⟩ := List.mem_iff_getElem?.1 hm
  have hdepends : g.DependsOn i j := by rwa [DependsOn, dependenciesOf_eq hi]
  exact h.lt_of_dependsOn (Nat.zero_le i) hdepends.lt_size hdepends

/-- A request is left out of the bundle if it is left out of some module. -/
theorem mem_externalRequests : s ∈ g.externalRequests ↔ ∃ m ∈ g.modules, s ∈ m.externals := by
  rw [externalRequests, mem_sortedTexts, List.mem_flatMap]

end Graph

/-! ### Summaries -/

namespace Summary

/-- The paths of the modules that a summary lists. -/
def paths (r : Summary) : List String :=
  r.modules.map ModuleSummary.path

/-- A summary speaks of modules that it lists, and lists each of them once. -/
structure Closed (r : Summary) : Prop where
  /-- No two modules have the same path. -/
  nodup : r.paths.Nodup
  /-- Every module has a path. -/
  ne_empty : ∀ p ∈ r.paths, p ≠ ""
  /-- The entry is the first module. -/
  entry : r.paths.head? = some r.entry
  /-- The order lists the modules, each once. -/
  order : r.order.Perm r.paths
  /-- No edge is listed twice, and all lead to modules that are listed. -/
  dependencies : ∀ m ∈ r.modules, m.dependencies.Nodup ∧ ∀ p ∈ m.dependencies, p ∈ r.paths
  /-- The requests that are left out are sorted by their bytes, each once. -/
  externals : r.externals.Pairwise fun a b ↦ Utf8.encode a < Utf8.encode b

theorem paths_ofGraph (g : Graph) (order : Order) :
    (ofGraph g order).paths = g.paths.map Path.render := by
  rw [paths, ofGraph, Graph.paths, List.map_map, List.map_map]
  rfl

/-- **The summary of a bundle is closed**, in either order, and it names the requests that were left
out of some module, and no others. -/
theorem closed_ofGraph [Engine] (g : Graph) (order : Order) (h : g.Bundled) :
    (ofGraph g order).Closed ∧ ∀ request,
      request ∈ (ofGraph g order).externals ↔ ∃ m ∈ g.modules, request ∈ m.externals := by
  obtain ⟨post, hexplores⟩ := h.exists_explores
  obtain ⟨hsize, hedges⟩ := h.nodup_dependencies
  have hpaths := paths_ofGraph g order
  refine ⟨⟨?_, ?_, ?_, ?_, ?_, ?_⟩, fun request ↦ Graph.mem_externalRequests⟩
  · rw [hpaths]
    exact h.nodup_texts
  · rw [hpaths]
    intro p hp
    obtain ⟨path, hpath, rfl⟩ := List.mem_map.1 hp
    exact Path.render_ne_empty (h.wellFormed path hpath)
  · rw [hpaths, List.head?_eq_getElem?, Graph.getElem?_texts hsize, ofGraph, Graph.pathText,
      Graph.entry?, List.head?_eq_getElem?]
  · rw [hpaths, ← g.map_pathText_range]
    exact (hexplores.order_perm order).map g.pathText
  · intro m hm
    obtain ⟨found, hfound, rfl⟩ := List.mem_map.1 hm
    have hlt : ∀ j ∈ found.dependencies, j < g.size := fun j hj ↦
      hexplores.lt_of_mem_dependencies hfound hj
    refine ⟨(hedges found hfound).map_on fun i hi j hj hij ↦
      Graph.pathText_inj h.nodup_texts (hlt i hi) (hlt j hj) hij, fun p hp ↦ ?_⟩
    obtain ⟨j, hj, rfl⟩ := List.mem_map.1 hp
    rw [hpaths]
    exact Graph.pathText_mem (hlt j hj)
  · exact (pairwise_sortedTexts _).imp fun hlt ↦ Utf8.encode_lt_encode_iff.2 hlt

/-- The summaries of the sample store and of a disk with links. -/
theorem closed_ofGraph_sampleStore :
    (∃ g s', collect sampleOptions 2 ⟨true, ["a.ts"]⟩ MemoryStore.sampleStore = some (.ok g, s') ∧
      g.Bundled ∧ (ofGraph g .dependency).Closed) ∧
    ∃ depth g S', collect (.ofTable none false) depth ⟨true, ["app", "a.ts"]⟩
        DiskStore.linkedDisk = some (.ok g, S') ∧
      g.Bundled ∧ (ofGraph g .discovery).Closed := by
  constructor
  · obtain ⟨g, s', hcollect, -⟩ := exists_collect_sampleStore
    have hs : MemoryStore.sampleStore.InUse := FileStore.ReachableOn.start.run (by decide)
    have hanswers : sampleOptions.AnswersWellFormed :=
      BundleOptions.answersWellFormed_ofTable false fun table htable path hpath ↦ by
        obtain rfl := Option.some.inj htable
        exact absurd hpath List.not_mem_nil
    have hg : g.Bundled := .inMemory hs hanswers hcollect
    exact ⟨g, s', hcollect, hg, (closed_ofGraph g .dependency hg).1⟩
  · obtain ⟨depth, g, S', hcollect, -⟩ := DiskStore.exists_collect_linkedDisk
    have hcwd : DiskStore.linkedDisk.disk.canonical [] DiskStore.linkedDisk.cwd.text =
        .ok DiskStore.linkedDisk.cwd :=
      (Disk.isCanonical_root DiskStore.linkedDisk.disk).canonical_text []
    have hanswers : (.ofTable none false : BundleOptions DiskStore).AnswersWellFormed :=
      BundleOptions.answersWellFormed_ofTable false fun table htable ↦
        absurd htable (Option.not_mem_none table)
    have hg : g.Bundled := .onDisk (by decide) hcwd nofun hanswers hcollect
    exact ⟨depth, g, S', hcollect, hg, (closed_ofGraph g .discovery hg).1⟩

end Summary

end ModuleBundler
