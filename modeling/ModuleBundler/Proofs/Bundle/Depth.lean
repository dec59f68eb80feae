import ModuleBundler.Proofs.Bundle.Sources
import ModuleBundler.Proofs.Store.History

/-!
# A depth that suffices

`collect` takes a depth and gives up below it. The depth is no part of what a bundle is: an answer
that is found with one depth is found with every larger one (`Walk.visit_mono`), so that there is at
most one. `BundleOptions.Yields` is the answer without the depth.

That there is an answer can be seen from a project alone. `Walk.visit_spec` leads from a walk to the
course it has taken through a project; `Walk.exists_visit` leads back. Where a project gives one
answer to each question, a course through it that succeeds is taken by a walk with enough depth. On
its way the walk reads the files of the modules that the graph gets, each once and in the order of
the graph, and nothing else.
-/

namespace ModuleBundler

section

variable {σ : Type} [FileStore σ]

/-- What collecting a bundle comes to, and the store that is left: the answer for all depths from
some depth on. -/
def BundleOptions.Yields [Engine] (options : BundleOptions σ) (entry : Path) (s : σ)
    (outcome : Except Error Graph) (s' : σ) : Prop :=
  ∃ bound, ∀ depth, bound ≤ depth → collect options depth entry s = some (outcome, s')

namespace Walk

variable {options : BundleOptions σ}

/-! ### More depth -/

/-- Following references, where going to a module has the answers that it had before, and perhaps
more. -/
theorem follow_mono {visit visit' : Path → Walk σ → Option (Except Error Nat × Walk σ)}
    (hvisit : ∀ {path w answer}, visit path w = some answer → visit' path w = some answer)
    {importer directory : Path} {index : Nat} {references : List Reference} {w : Walk σ}
    {answer : Except Error Unit × Walk σ}
    (h : follow options visit importer directory index references w = some answer) :
    follow options visit' importer directory index references w = some answer := by
  induction references generalizing w with
  | nil => exact h
  | cons reference rest ih =>
    rw [follow] at h ⊢
    rcases htarget : options.target w.store importer directory reference with e | - | - | path
    · simpa only [htarget] using h
    · simp only [htarget] at h ⊢
      exact ih h
    · simp only [htarget] at h ⊢
      exact ih h
    · simp only [htarget] at h ⊢
      rcases hfirst : visit path w with - | ⟨e | imported, w'⟩
      · simp [hfirst] at h
      · rw [hvisit hfirst]
        simpa only [hfirst] using h
      · rw [hvisit hfirst]
        simp only [hfirst] at h ⊢
        exact ih h

/-- Going to a module that the graph has takes no depth. -/
theorem visit_of_known [Engine] {depth : Nat} {path : Path} {w : Walk σ} {index : Nat}
    (hindex : w.graph.indexOf? path = some index) :
    visit options depth path w = some (.ok index, w) := by
  cases depth <;> rw [visit, hindex]

/-- **An answer that is found is found with more depth.** -/
theorem visit_mono [Engine] {depth depth' : Nat} (hle : depth ≤ depth') {path : Path} {w : Walk σ}
    {answer : Except Error Nat × Walk σ} (h : visit options depth path w = some answer) :
    visit options depth' path w = some answer := by
  induction depth generalizing depth' path w answer with
  | zero =>
    rw [visit] at h
    split at h
    · rw [visit_of_known ‹_›]
      exact h
    · cases h
  | succ depth ih =>
    obtain ⟨deeper, rfl⟩ := Nat.exists_eq_add_of_le' hle
    rw [← Nat.add_assoc, visit]
    rw [visit] at h
    rcases hindex : w.graph.indexOf? path with - | index
    · simp only [hindex] at h ⊢
      rcases hload : Module.load path w.store with ⟨e | m, s⟩
      · simpa only [hload] using h
      · rcases hparent : path.parent with e | directory
        · simpa only [hload, hparent] using h
        · simp only [hload, hparent] at h ⊢
          rcases hfollow : follow options (visit options depth) path directory w.graph.size
              m.references ⟨s, w.graph.insert m⟩ with - | ⟨outcome, w'⟩
          · simp [hfollow] at h
          · rw [follow_mono (ih (Nat.le_add_left depth deeper)) hfollow]
            simpa only [hfollow] using h
    · simpa only [hindex] using h

/-! ### From a course to a walk -/

variable {I : σ → Prop} {P : Project} {g g' : Graph}

/-- A module that is gone to was read, and stands in a directory. -/
theorem load_of_visited [Engine] {path : Path} {s : σ} {content : Bytes}
    {references : List Reference} (h : Module.visited path s = .ok (content, references)) :
    Module.load path s = (.ok { path, content, references }, (Operation.load path).apply s) ∧
      ∃ directory, path.parent = .ok directory := by
  rw [Module.visited] at h
  have hstore : (Module.load path s).2 = (Operation.load path).apply s := by
    rw [Module.load_eq]
    rfl
  rcases hload : Module.load path s with ⟨e | m, s'⟩
  · simp [hload] at h
  · rw [hload] at h hstore
    rcases hparent : path.parent with e | directory
    · simp [hparent, Except.map] at h
    · simp only [hparent, Except.map, Except.ok.injEq, Prod.mk.injEq] at h
      obtain ⟨rfl, rfl⟩ := h
      rw [← hstore, ← Module.load_eq_ok hload]
      exact ⟨rfl, directory, rfl⟩

/-- From one store to another, the modules were read that one graph has behind those of another,
each once and in their order. -/
def Reads (s : σ) (g g' : Graph) (s' : σ) : Prop :=
  ∃ added, g'.paths = g.paths ++ added ∧ s' = Operation.run (added.map .load) s

/-- The modules that are found from a new module are read behind it, and those of the references
after that behind them. -/
theorem Reads.trans {s s' s'' : σ} {path : Path} {content : Bytes} {references : List Reference}
    {found : Graph} {importer imported : Nat}
    (h : Reads ((Operation.load path).apply s) (g.insert { path, content, references }) found s')
    (h' : Reads s' (found.addDependency importer imported) g' s'') : Reads s g g' s'' := by
  obtain ⟨inner, hinner, rfl⟩ := h
  obtain ⟨rest, hrest, rfl⟩ := h'
  rw [Graph.paths_insert] at hinner
  rw [Graph.paths_addDependency] at hrest
  refine ⟨path :: inner ++ rest, by rw [hrest, hinner]; simp, ?_⟩
  rw [List.map_append, Operation.run_append]
  rfl

variable [Engine]

/-- Going to a new module is reading it and following its references. -/
theorem visit_of_follow {depth : Nat} {path directory : Path} {s : σ} {content : Bytes}
    {references : List Reference} {w : Walk σ} (hindex : g.indexOf? path = none)
    (hvisited : Module.visited path s = .ok (content, references))
    (hparent : path.parent = .ok directory)
    (hfollow : follow options (visit options depth) path directory g.size references
      ⟨(Operation.load path).apply s, g.insert { path, content, references }⟩ = some (.ok (), w)) :
    visit options (depth + 1) path ⟨s, g⟩ = some (.ok g.size, w) := by
  rw [visit]
  simp only [hindex, (load_of_visited hvisited).1, hparent, hfollow]

/-- A course along references is taken by a walk. -/
theorem exists_follow (h : P.Describes options I) (hP : P.Functional) {index : Nat}
    {importer : Path} {references : List Reference}
    (hfollows : P.Follows index importer references g g') {directory : Path}
    (hparent : importer.parent = .ok directory) {s : σ} (hs : I s) :
    ∃ depth s', follow options (visit options depth) importer directory index references ⟨s, g⟩ =
      some (.ok (), ⟨s', g'⟩) ∧ I s' ∧ Reads s g g' s' := by
  induction hfollows generalizing s directory with
  | nil => exact ⟨0, s, rfl, hs, [], (List.append_nil _).symm, rfl⟩
  | skipped hleads _ ih =>
    have htarget := hP.leads (h.leads hs hparent) hleads
    obtain ⟨depth, s', hfollow, hs'⟩ := ih hparent hs
    refine ⟨depth, s', ?_, hs'⟩
    rw [follow]
    simpa only [htarget] using hfollow
  | external hleads _ ih =>
    have htarget := hP.leads (h.leads hs hparent) hleads
    obtain ⟨depth, s', hfollow, hs'⟩ := ih hparent hs
    rw [Reads, Graph.paths_addExternal] at hs'
    refine ⟨depth, s', ?_, hs'⟩
    rw [follow]
    simpa only [htarget] using hfollow
  | @known _ imported _ path _ _ g _ hleads hindex _ ih =>
    have htarget := hP.leads (h.leads hs hparent) hleads
    obtain ⟨depth, s', hfollow, hs'⟩ := ih hparent hs
    rw [Reads, Graph.paths_addDependency] at hs'
    refine ⟨depth, s', ?_, hs'⟩
    have hvisit : visit options depth path ⟨s, g⟩ = some (.ok imported, ⟨s, g⟩) :=
      visit_of_known hindex
    rw [follow]
    simpa only [htarget, hvisit] using hfollow
  | found hleads hindex hreads _ _ ihinner ihrest =>
    have htarget := hP.leads (h.leads hs hparent) hleads
    have hvisited := hP.reads (h.reads hs) hreads
    obtain ⟨hload, below, hbelow⟩ := load_of_visited hvisited
    obtain ⟨inner, s₁, hinner, hs₁, hreadsInner⟩ := ihinner hbelow (hload ▸ h.keeps hs)
    obtain ⟨outer, s₂, hrest, hs₂, hreadsRest⟩ := ihrest hparent hs₁
    -- both parts of the walk have their answers with the larger of the two depths
    have hvisit := visit_mono (Nat.le_max_left (inner + 1) outer)
      (visit_of_follow hindex hvisited hbelow hinner)
    refine ⟨max (inner + 1) outer, s₂, ?_, hs₂, hreadsInner.trans hreadsRest⟩
    rw [follow]
    simp only [htarget, hvisit]
    exact follow_mono (visit_mono (Nat.le_max_right _ _)) hrest

/-- **A course through a project is taken by a walk**, which reads each new module once. -/
theorem exists_visit (h : P.Describes options I) (hP : P.Functional) {path : Path} {index : Nat}
    (hvisits : P.Visits path g index g') {s : σ} (hs : I s) :
    ∃ depth s', visit options depth path ⟨s, g⟩ = some (.ok index, ⟨s', g'⟩) ∧
      Reads s g g' s' := by
  obtain ⟨hindex, rfl⟩ | ⟨hindex, rfl, content, references, hreads, hfollows⟩ := hvisits
  · exact ⟨0, s, visit_of_known hindex, [], (List.append_nil _).symm, rfl⟩
  · have hvisited := hP.reads (h.reads hs) hreads
    obtain ⟨hload, directory, hparent⟩ := load_of_visited hvisited
    obtain ⟨depth, s', hfollow, -, added, hadded, hs'⟩ :=
      exists_follow h hP hfollows hparent (hload ▸ h.keeps hs)
    rw [Graph.paths_insert, List.append_assoc] at hadded
    exact ⟨depth + 1, s', visit_of_follow hindex hvisited hparent hfollow, path :: added, hadded,
      hs'⟩

end Walk

/-! ### Bundles -/

variable [Engine] {options : BundleOptions σ} {entry : Path} {s s' s'' : σ}
  {outcome outcome' : Except Error Graph}

/-- An answer is found with every depth from one on that it is found with. -/
theorem collect_mono {depth depth' : Nat} (hle : depth ≤ depth')
    (h : collect options depth entry s = some (outcome, s')) :
    collect options depth' entry s = some (outcome, s') := by
  rw [collect] at h ⊢
  rcases hentry : entryPath entry s with ⟨e | path, opened⟩
  · simpa only [hentry] using h
  · simp only [hentry] at h ⊢
    rcases hvisit : Walk.visit options depth path ⟨opened, {}⟩ with - | answer
    · simp [hvisit] at h
    · rw [Walk.visit_mono hle hvisit]
      simpa only [hvisit] using h

namespace BundleOptions

theorem yields_iff :
    options.Yields entry s outcome s' ↔
      ∃ depth, collect options depth entry s = some (outcome, s') :=
  ⟨fun ⟨bound, h⟩ ↦ ⟨bound, h bound le_rfl⟩,
    fun ⟨depth, h⟩ ↦ ⟨depth, fun _ hle ↦ collect_mono hle h⟩⟩

/-- **A bundle has one answer.** -/
theorem Yields.unique (h : options.Yields entry s outcome s')
    (h' : options.Yields entry s outcome' s'') : outcome = outcome' ∧ s' = s'' := by
  obtain ⟨bound, h⟩ := h
  obtain ⟨bound', h'⟩ := h'
  have hsame := (h (max bound bound') (Nat.le_max_left _ _)).symm.trans
    (h' (max bound bound') (Nat.le_max_right _ _))
  exact Prod.mk.inj (Option.some.inj hsame)

end BundleOptions

end

/-! ### Files in memory -/

namespace BundleOptions

variable [Engine] {options : BundleOptions MemoryStore} {entry start : Path} {s s' : MemoryStore}
  {g : Graph}

/-- **Where the files of a store lead to a graph, this graph is collected.** The store that is left
is the one after looking up the entry, and reading each module once. -/
theorem yields_of_visits (hs : s.Sound) (htree : options.ReadsTree) (hopens : s.Opens entry start)
    (hvisits : (options.project s).Visits start {} 0 g) :
    options.Yields entry s (.ok g)
      (Operation.run (g.paths.map .load) (entryPath entry s).2) := by
  obtain ⟨e, hopen, -⟩ | ⟨start', hopens', hentry⟩ := hs.entryPath_cases entry
  · exact absurd hopen hopens.ne_error
  · obtain rfl := hopens.unique hopens'
    obtain ⟨depth, s', hvisit, added, hadded, hs'⟩ := Walk.exists_visit
      (describes_project hs htree) (functional_project options s) hvisits
      ⟨hs.skip 1, s.sameTree_skip 1⟩
    obtain rfl : g.paths = added := hadded
    refine yields_iff.2 ⟨depth, ?_⟩
    simp only [collect, hentry, hvisit, hs']

/-- A bundle that is collected leaves the store after looking up the entry, and reading each module
once, in the order of the graph. -/
theorem run_of_collect (hs : s.Sound) (htree : options.ReadsTree) {depth : Nat}
    (h : collect options depth entry s = some (.ok g, s')) :
    s' = Operation.run (g.paths.map .load) (entryPath entry s).2 := by
  obtain ⟨start, hopens, hvisits⟩ := exists_visits_of_collect hs htree h
  exact ((yields_iff.2 ⟨depth, h⟩).unique (yields_of_visits hs htree hopens hvisits)).2

end BundleOptions

end ModuleBundler
