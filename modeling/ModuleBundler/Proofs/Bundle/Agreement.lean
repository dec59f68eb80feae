import ModuleBundler.Proofs.Bundle.Course
import ModuleBundler.Proofs.Graph.Discovery
import ModuleBundler.Syntax.Program

/-!
# Collecting and ordering agree

A bundle is walked through twice: once to find its modules, and once along the edges that were
recorded to list them after what they import. The first walk reads files and meets every reference;
the second sees each edge once, in a graph that is complete from the start.

They agree nevertheless. Along the first walk, the new edges of a module are an exploration of the
graph that the walk ends with (`Project.Follows.exists_explores`), whatever the files answer; and
`Explores` is all that the second walk goes by. So **a module that was found later than one that
imports it is listed before it**, and the edges of which this is not true lead back to a module from
which the importing one was found.
-/

namespace ModuleBundler

namespace Graph

/-- Of a module at another place, or with other edges out of the bundle, the dependencies stay. -/
theorem dependenciesOf_congr {g g' : Graph} {i : Nat} (h : g'.modules[i]? = g.modules[i]?) :
    g'.dependenciesOf i = g.dependenciesOf i := by
  rw [dependenciesOf, h, dependenciesOf]

theorem dependenciesOf_addExternal (g : Graph) (importer : Nat) (request : String) (i : Nat) :
    (g.addExternal importer request).dependenciesOf i = g.dependenciesOf i := by
  rcases eq_or_ne i importer with rfl | hne
  · rcases hm : g.modules[i]? with - | m
    · simp [dependenciesOf, addExternal, List.getElem?_modify_eq, hm]
    · rw [dependenciesOf, getElem?_addExternal hm, dependenciesOf, hm]
      rfl
  · exact dependenciesOf_congr (getElem?_addExternal_of_ne hne request)

theorem dependenciesOf_addDependency {g : Graph} {importer : Nat} (h : importer < g.size)
    (imported : Nat) :
    (g.addDependency importer imported).dependenciesOf importer =
      addNew imported (g.dependenciesOf importer) := by
  have hm : g.modules[importer]? = some g.modules[importer] := List.getElem?_eq_getElem h
  rw [dependenciesOf_eq (getElem?_addDependency hm imported), dependenciesOf_eq hm]
  rfl

theorem dependenciesOf_insert_size (g : Graph) (m : Module) :
    (g.insert m).dependenciesOf g.size = m.dependencies :=
  dependenciesOf_eq (getElem?_insert_size g m)

end Graph

namespace Project

variable {P : Project} {index : Nat} {importer : Path} {references : List Reference}
  {g g' : Graph}

/-- **The edges that a walk adds to a module explore the graph**: any graph that has the edges of
the modules found, in particular the one that the whole walk ends with. -/
theorem Follows.exists_explores (h : P.Follows index importer references g g')
    (hindex : index < g.size) (hknown : ∀ v ∈ g.dependenciesOf index, v < g.size) {final : Graph}
    (hfinal : ∀ i, g.size ≤ i → i < g'.size → final.dependenciesOf i = g'.dependenciesOf i) :
    ∃ added post, g'.dependenciesOf index = g.dependenciesOf index ++ added ∧
      final.Explores g.size added g'.size post := by
  induction h with
  | nil => exact ⟨[], [], by simp, .nil⟩
  | skipped _ _ ih => exact ih hindex hknown hfinal
  | external _ _ ih =>
    simp only [Graph.size_addExternal, Graph.dependenciesOf_addExternal] at ih
    exact ih hindex hknown hfinal
  | @known index imported _ _ _ _ g g' _ himported _ ih =>
    have hlt := Graph.lt_size_of_indexOf? himported
    simp only [Graph.size_addDependency, Graph.dependenciesOf_addDependency hindex,
      mem_addNew] at ih
    obtain ⟨added, post, hadded, hexplores⟩ :=
      ih hindex (fun v hv ↦ hv.elim (hknown v) fun hvi ↦ hvi ▸ hlt) hfinal
    by_cases hmem : imported ∈ g.dependenciesOf index
    · -- the edge is there already, and the other walk will not see this reference
      rw [addNew, if_pos hmem] at hadded
      exact ⟨added, post, hadded, hexplores⟩
    · rw [addNew, if_neg hmem, List.append_assoc] at hadded
      exact ⟨imported :: added, post, hadded, .known hlt hexplores⟩
  | @found index _ path _ content references _ g found g' _ _ _ hinner hrest ihinner ihrest =>
    have hsize : g.size + 1 ≤ found.size := by simpa using hinner.size_le
    have hsize' : found.size ≤ g'.size := by simpa using hrest.size_le
    have hindex' : index < found.size := by omega
    -- what the inner walk found is not touched by the outer one
    have hkept : ∀ i, i < found.size → i ≠ index →
        g'.dependenciesOf i = found.dependenciesOf i := by
      intro i hi hne
      refine Graph.dependenciesOf_congr ?_
      rw [hrest.getElem?_eq (by simpa using hi) hne, Graph.getElem?_addDependency_of_ne hne]
    have houter : found.dependenciesOf index = g.dependenciesOf index :=
      Graph.dependenciesOf_congr (hinner.getElem?_of_insert hindex)
    -- no edge led to the place of the new module before it was found
    have hnew : g.size ∉ g.dependenciesOf index := fun hmem ↦ lt_irrefl _ (hknown _ hmem)
    simp only [Graph.size_insert, Graph.dependenciesOf_insert_size] at ihinner
    obtain ⟨inner, postInner, hdeps, hinnerExplores⟩ := ihinner (Nat.lt_succ_self _) (by simp)
      fun i hi hlt ↦ (hfinal i (by omega) (by omega)).trans (hkept i hlt (by omega))
    simp only [Graph.size_addDependency, Graph.dependenciesOf_addDependency hindex',
      houter] at ihrest
    rw [addNew, if_neg hnew] at ihrest
    obtain ⟨outer, postOuter, hadded, houterExplores⟩ := ihrest hindex' (by
      intro v hv
      rcases List.mem_append.1 hv with hv | hv
      · have := hknown v hv
        omega
      · have := List.mem_singleton.1 hv
        omega) fun i hi hlt ↦ hfinal i (by omega) hlt
    rw [List.append_assoc] at hadded
    -- the edges of the new module are the ones that its own walk has added
    refine ⟨g.size :: outer, postInner ++ g.size :: postOuter, hadded, .found ?_ houterExplores⟩
    have hfound : final.dependenciesOf g.size = inner := by
      rw [hfinal g.size le_rfl (by omega), hkept g.size (by omega) (by omega)]
      simpa using hdeps
    rwa [hfound]

end Project

/-! ### The entry last -/

namespace Graph

variable {g : Graph} {post : List Nat}

/-- Every module but the first was found from a module, and from one only. -/
theorem Explores.existsUnique_discovers (h : g.Explores 1 (g.dependenciesOf 0) g.size post)
    {v : Nat} (hpos : 0 < v) (hv : v < g.size) : ∃! u, g.Discovers u v := by
  have hfrom : Relation.ReflTransGen g.Discovers 0 v :=
    h.discovers (fun _ hw ↦ hw) Nat.one_pos (fun a ha₀ ha₁ ↦ by omega) hpos hv
  rcases Relation.ReflTransGen.cases_tail hfrom with rfl | ⟨u, -, huv⟩
  · omega
  · refine ⟨u, huv, fun u' huv' ↦ ?_⟩
    exact le_antisymm (huv.2.2 u' huv'.1 huv'.2.1) (huv'.2.2 u huv.1 huv.2.1)

end Graph

variable {σ : Type} [FileStore σ]

/-- The modules of a bundle behind the first are what exploring its dependencies finds. -/
theorem exists_explores_of_collect [Engine] {options : BundleOptions σ} {depth : Nat}
    {entry : Path} {s s' : σ} {g : Graph} (h : collect options depth entry s = some (.ok g, s')) :
    ∃ post, g.Explores 1 (g.dependenciesOf 0) g.size post := by
  obtain ⟨path, -, hvisits⟩ :=
    collect_eq_ok (I := fun _ ↦ True) (describes_anything options id) trivial h
  obtain ⟨hindex, -⟩ | ⟨-, -, content, references, -, hfollows⟩ := hvisits
  · cases hindex
  · obtain ⟨added, post, hadded, hexplores⟩ : ∃ added post,
        g.dependenciesOf 0 = [] ++ added ∧ g.Explores 1 added g.size post :=
      hfollows.exists_explores Nat.one_pos (fun v hv ↦ nomatch hv) fun _ _ _ ↦ rfl
    rw [hadded]
    exact ⟨post, hexplores⟩

/-- The modules of a bundle are what exploring it from the first one finds. -/
theorem exists_explores_zero_of_collect [Engine] {options : BundleOptions σ} {depth : Nat}
    {entry : Path} {s s' : σ} {g : Graph} (h : collect options depth entry s = some (.ok g, s')) :
    ∃ post, g.Explores 0 [0] g.size post := by
  obtain ⟨post, hexplores⟩ := exists_explores_of_collect h
  exact ⟨post ++ [0], .found hexplores .nil⟩

/-- **The two walks agree.** The order of dependencies of a bundle ends with the entry, and lists a
module that was found later than one that imports it before that one. Only a dependency that was
found no later, and from which the importing module was found, is not listed before it. -/
theorem collect_dependencyOrder [Engine] (options : BundleOptions σ) (depth : Nat) (entry : Path)
    (s s' : σ) (g : Graph) (h : collect options depth entry s = some (.ok g, s')) :
    ∃ l, g.dependencyOrder? = some l ∧ g.order .dependency = l ∧ l.getLast? = some 0 ∧
      (∀ u v, g.DependsOn u v → u < v → StandsBefore l v u) ∧
      (∀ u v, g.DependsOn u v → ¬ StandsBefore l v u →
        v ≤ u ∧ Relation.ReflTransGen g.Discovers v u) ∧
      ∀ v, 0 < v → v < g.size → ∃! u, g.Discovers u v := by
  obtain ⟨post, hexplores⟩ := exists_explores_of_collect h
  have hwhole : g.Explores 0 [0] g.size (post ++ [0]) := .found hexplores .nil
  have horder := hwhole.dependencyOrder?_eq
  have hedge : ∀ u v, g.DependsOn u v →
      StandsBefore (post ++ [0]) v u ∨ (v ≤ u ∧ Relation.ReflTransGen g.Discovers v u) :=
    fun u v huv ↦ hwhole.standsBefore_or_discovers (Nat.zero_le u) huv.lt_size (Nat.zero_le v) huv
  refine ⟨post ++ [0], horder, by simp [Graph.order, horder], by simp, fun u v huv hlt ↦ ?_,
    fun u v huv hnot ↦ (hedge u v huv).resolve_left hnot,
    fun v hpos hv ↦ hexplores.existsUnique_discovers hpos hv⟩
  exact (hedge u v huv).resolve_right fun hle ↦ absurd hlt (Nat.not_lt.2 hle.1)

/-- The two walks through the sample store, whose second module imports the first and itself. -/
theorem collect_dependencyOrder_sampleStore :
    ∃ g s', collect sampleOptions 2 ⟨true, ["a.ts"]⟩ MemoryStore.sampleStore = some (.ok g, s') ∧
      ∃ l, g.order .dependency = l ∧ l.getLast? = some 0 ∧ StandsBefore l 1 0 := by
  obtain ⟨g, s', hcollect, hdependencies⟩ := exists_collect_sampleStore
  obtain ⟨l, -, horder, hlast, hedge, -⟩ := collect_dependencyOrder _ _ _ _ _ g hcollect
  have h01 : g.DependsOn 0 1 := by
    have hfirst := congrArg (fun l ↦ l[0]?) hdependencies
    simp only [List.getElem?_map] at hfirst
    rw [Graph.DependsOn, Graph.dependenciesOf, hfirst]
    decide
  exact ⟨g, s', hcollect, l, horder, hlast, hedge 0 1 h01 Nat.one_pos⟩

end ModuleBundler
