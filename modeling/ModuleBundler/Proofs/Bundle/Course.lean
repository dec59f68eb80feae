import Mathlib.Data.List.Nodup
import Mathlib.Logic.Relation
import ModuleBundler.Bundle
import ModuleBundler.Proofs.Graph.Growth
import ModuleBundler.Proofs.Store.Reading
import ModuleBundler.Syntax.Program

/-!
# The course of a walk

`Walk.visit` and `Walk.follow` read files, resolve references, count down a depth and carry a store
along. What they do to the graph depends on none of this, only on the answers they get. A `Project`
says which answers there may be, and two relations say what a walk does with them.

* `Project.Follows` is a walk that succeeds: it builds a graph along the references of one module,
  with everything found on the way down before the next reference.
* `Project.Advances` is a walk step by step, with **an agenda** of what is left to do. It knows the
  paths that were seen and nothing else of the graph; so the first task that fails, `Project.Stops`,
  is determined by the answers alone.

`Walk.visit_spec` leads from the walk to these two: one induction on the depth, and on the
references in it, for every store and every invariant of stores that reading a file keeps. All that
is shown of the graph and of the store rests on it. Only what is shown of the depth, that there is
one that suffices and that no answer depends on it, opens the walk again.
-/

namespace ModuleBundler

/-- What the files of a project may answer. -/
structure Project where
  /-- Reading the file at a path may give a content and references, or fail. -/
  reads : Path → Except Error (Bytes × List Reference) → Prop
  /-- A reference of the module at a path may add this to the graph, or fail. -/
  leads : Path → Reference → Except Error Target → Prop

/-- Something that a walk has to do. -/
inductive Task where
  /-- To go to the module at a path. -/
  | visit (path : Path)
  /-- To follow a reference of the module at a path. -/
  | follow (importer : Path) (reference : Reference)
  deriving DecidableEq, Repr

/-- Where a walk stands, if one looks at what it has to do. -/
structure Agenda where
  /-- The paths of the modules that were read, in the order of reading. -/
  seen : List Path
  /-- What is left to do, the next first. -/
  tasks : List Task
  deriving DecidableEq, Repr

namespace Project

variable (P : Project)

/-! ### Walks step by step -/

/-- One step of a walk. A module that was read is passed over, another is read and its references
come next, before everything that was left to do. -/
inductive Advances : Agenda → Agenda → Prop
  /-- The module was read before. -/
  | known {path : Path} {seen : List Path} {tasks : List Task} :
      path ∈ seen → Advances ⟨seen, .visit path :: tasks⟩ ⟨seen, tasks⟩
  /-- The module is read. -/
  | read {path : Path} {content : Bytes} {references : List Reference} {seen : List Path}
      {tasks : List Task} :
      path ∉ seen → P.reads path (.ok (content, references)) →
      Advances ⟨seen, .visit path :: tasks⟩
        ⟨seen ++ [path], references.map (.follow path) ++ tasks⟩
  /-- The reference is not followed. -/
  | skipped {importer : Path} {reference : Reference} {seen : List Path} {tasks : List Task} :
      P.leads importer reference (.ok .skipped) →
      Advances ⟨seen, .follow importer reference :: tasks⟩ ⟨seen, tasks⟩
  /-- The reference is left out of the bundle. -/
  | external {importer : Path} {reference : Reference} {seen : List Path} {tasks : List Task} :
      P.leads importer reference (.ok .external) →
      Advances ⟨seen, .follow importer reference :: tasks⟩ ⟨seen, tasks⟩
  /-- The reference leads to a module. -/
  | module {importer path : Path} {reference : Reference} {seen : List Path} {tasks : List Task} :
      P.leads importer reference (.ok (.module path)) →
      Advances ⟨seen, .follow importer reference :: tasks⟩ ⟨seen, .visit path :: tasks⟩

/-- A task at which a walk fails. -/
inductive Fails : List Path → Task → Error → Prop
  /-- A module that was not read before cannot be read. -/
  | visit {path : Path} {seen : List Path} {e : Error} :
      path ∉ seen → P.reads path (.error e) → Fails seen (.visit path) e
  /-- A reference leads nowhere. -/
  | follow {importer : Path} {reference : Reference} {seen : List Path} {e : Error} :
      P.leads importer reference (.error e) → Fails seen (.follow importer reference) e

/-- A walk comes to a task at which it fails. -/
def Stops (start : Agenda) (e : Error) : Prop :=
  ∃ seen task rest, Relation.ReflTransGen P.Advances start ⟨seen, task :: rest⟩ ∧
    P.Fails seen task e

variable {P} {a b : Agenda} {e : Error}

theorem Stops.of_fails {seen : List Path} {task : Task} (h : P.Fails seen task e)
    (rest : List Task) : P.Stops ⟨seen, task :: rest⟩ e :=
  ⟨seen, task, rest, .refl, h⟩

theorem Stops.head (hab : Relation.ReflTransGen P.Advances a b) (h : P.Stops b e) :
    P.Stops a e := by
  obtain ⟨seen, task, rest, hb, hfails⟩ := h
  exact ⟨seen, task, rest, hab.trans hb, hfails⟩

/-- A module is read when nothing else is left to do. -/
theorem Advances.read_last {path : Path} {content : Bytes} {references : List Reference}
    {seen : List Path} (hpath : path ∉ seen) (hreads : P.reads path (.ok (content, references))) :
    P.Advances ⟨seen, [.visit path]⟩ ⟨seen ++ [path], references.map (.follow path)⟩ := by
  have h : P.Advances ⟨seen, [.visit path]⟩
      ⟨seen ++ [path], references.map (.follow path) ++ []⟩ := .read hpath hreads
  rwa [List.append_nil] at h

/-- A step looks at the first task only. -/
theorem Advances.append (h : P.Advances a b) (tasks : List Task) :
    P.Advances ⟨a.seen, a.tasks ++ tasks⟩ ⟨b.seen, b.tasks ++ tasks⟩ := by
  cases h with
  | known hmem => exact .known hmem
  | read hmem hreads =>
    rw [List.append_assoc]
    exact .read hmem hreads
  | skipped hleads => exact .skipped hleads
  | external hleads => exact .external hleads
  | module hleads => exact .module hleads

theorem append_of_advances (h : Relation.ReflTransGen P.Advances a b) (tasks : List Task) :
    Relation.ReflTransGen P.Advances ⟨a.seen, a.tasks ++ tasks⟩ ⟨b.seen, b.tasks ++ tasks⟩ :=
  Relation.ReflTransGen.lift (fun a : Agenda ↦ (⟨a.seen, a.tasks ++ tasks⟩ : Agenda))
    (fun _ _ (hab : P.Advances _ _) ↦ hab.append tasks) a b h

theorem Stops.append (h : P.Stops a e) (tasks : List Task) :
    P.Stops ⟨a.seen, a.tasks ++ tasks⟩ e := by
  obtain ⟨seen, task, rest, ha, hfails⟩ := h
  exact ⟨seen, task, rest ++ tasks, append_of_advances ha tasks, hfails⟩

/-! ### Walks that succeed -/

/-- The references of the module at the path `importer`, which has the place `index`, lead from one
graph to another. -/
inductive Follows (P : Project) :
    (index : Nat) → (importer : Path) → List Reference → Graph → Graph → Prop
  /-- There is nothing to follow. -/
  | nil {index : Nat} {importer : Path} {g : Graph} : Follows P index importer [] g g
  /-- A reference is not followed. -/
  | skipped {index : Nat} {importer : Path} {reference : Reference} {rest : List Reference}
      {g g' : Graph} :
      P.leads importer reference (.ok .skipped) → Follows P index importer rest g g' →
      Follows P index importer (reference :: rest) g g'
  /-- A reference is left out of the bundle. -/
  | external {index : Nat} {importer : Path} {reference : Reference} {rest : List Reference}
      {g g' : Graph} :
      P.leads importer reference (.ok .external) →
      Follows P index importer rest (g.addExternal index reference.request) g' →
      Follows P index importer (reference :: rest) g g'
  /-- A reference leads to a module that the graph has. -/
  | known {index imported : Nat} {importer path : Path} {reference : Reference}
      {rest : List Reference} {g g' : Graph} :
      P.leads importer reference (.ok (.module path)) → g.indexOf? path = some imported →
      Follows P index importer rest (g.addDependency index imported) g' →
      Follows P index importer (reference :: rest) g g'
  /-- A reference leads to a new module, and to all that this one needs. -/
  | found {index : Nat} {importer path : Path} {reference : Reference} {content : Bytes}
      {references rest : List Reference} {g found g' : Graph} :
      P.leads importer reference (.ok (.module path)) → g.indexOf? path = none →
      P.reads path (.ok (content, references)) →
      Follows P g.size path references (g.insert { path, content, references }) found →
      Follows P index importer rest (found.addDependency index g.size) g' →
      Follows P index importer (reference :: rest) g g'

/-- Going to the module at a path, which has the place `index` then, leads from one graph to
another. -/
def Visits (P : Project) (path : Path) (g : Graph) (index : Nat) (g' : Graph) : Prop :=
  (g.indexOf? path = some index ∧ g' = g) ∨
    (g.indexOf? path = none ∧ index = g.size ∧ ∃ content references,
      P.reads path (.ok (content, references)) ∧
      P.Follows g.size path references (g.insert { path, content, references }) g')

variable {index : Nat} {importer path : Path} {references : List Reference} {g g' : Graph}

/-- A reference that leads to a module, and the references after it. -/
theorem Follows.of_visits {imported : Nat} {reference : Reference} {rest : List Reference}
    {found : Graph} (hleads : P.leads importer reference (.ok (.module path)))
    (hvisits : P.Visits path g imported found)
    (hrest : P.Follows index importer rest (found.addDependency index imported) g') :
    P.Follows index importer (reference :: rest) g g' := by
  obtain ⟨hindex, rfl⟩ | ⟨hindex, rfl, content, references, hreads, hfollows⟩ := hvisits
  · exact .known hleads hindex hrest
  · exact .found hleads hindex hreads hfollows hrest

/-- A walk that succeeds, step by step. -/
theorem Follows.advances (h : P.Follows index importer references g g') :
    Relation.ReflTransGen P.Advances ⟨g.paths, references.map (.follow importer)⟩
      ⟨g'.paths, []⟩ := by
  induction h with
  | nil => exact .refl
  | skipped hleads _ ih => exact ih.head (.skipped hleads)
  | external hleads _ ih =>
    rw [Graph.paths_addExternal] at ih
    exact ih.head (.external hleads)
  | known hleads hindex _ ih =>
    rw [Graph.paths_addDependency] at ih
    have hmem := (Graph.indexOf?_eq_some.1 hindex).1
    exact (ih.head (.known hmem)).head (.module hleads)
  | found hleads hindex hreads _ _ ihinner ihrest =>
    rename_i importer path _ _ references rest g found g' _ _
    rw [Graph.paths_insert] at ihinner
    rw [Graph.paths_addDependency] at ihrest
    have hmem := Graph.indexOf?_eq_none.1 hindex
    have hinner := append_of_advances ihinner (rest.map (.follow importer))
    exact ((hinner.trans ihrest).head (.read hmem hreads)).head (.module hleads)

theorem Visits.advances (h : P.Visits path g index g') :
    Relation.ReflTransGen P.Advances ⟨g.paths, [.visit path]⟩ ⟨g'.paths, []⟩ := by
  obtain ⟨hindex, rfl⟩ | ⟨hindex, rfl, content, references, hreads, hfollows⟩ := h
  · exact .single (.known (Graph.indexOf?_eq_some.1 hindex).1)
  · have hsteps := hfollows.advances
    rw [Graph.paths_insert] at hsteps
    exact hsteps.head (.read_last (Graph.indexOf?_eq_none.1 hindex) hreads)

/-! ### What a walk that succeeds leaves as it was -/

/-- Modules are put behind the others only. -/
theorem Follows.paths_prefix (h : P.Follows index importer references g g') :
    g.paths <+: g'.paths := by
  induction h with
  | nil => exact List.prefix_rfl
  | skipped _ _ ih => exact ih
  | external _ _ ih => exact Graph.paths_addExternal _ _ _ ▸ ih
  | known _ _ _ ih => exact Graph.paths_addDependency _ _ _ ▸ ih
  | found _ _ _ _ _ ihinner ihrest =>
    rw [Graph.paths_insert] at ihinner
    rw [Graph.paths_addDependency] at ihrest
    exact (List.prefix_append _ _).trans (ihinner.trans ihrest)

theorem Follows.paths_prefix_of_addDependency {imported : Nat}
    (h : P.Follows index importer references (g.addDependency index imported) g') :
    g.paths <+: g'.paths := by
  simpa using h.paths_prefix

theorem Follows.paths_prefix_of_insert {m : Module}
    (h : P.Follows index importer references (g.insert m) g') : g.paths <+: g'.paths := by
  have hprefix := h.paths_prefix
  rw [Graph.paths_insert] at hprefix
  exact (List.prefix_append _ _).trans hprefix

/-- A new module stays in the graph while its references are followed. -/
theorem Follows.mem_paths_of_insert {m : Module}
    (h : P.Follows index importer references (g.insert m) g') : m.path ∈ g'.paths := by
  refine h.paths_prefix.subset ?_
  rw [Graph.paths_insert]
  exact List.mem_append_right _ (List.mem_singleton_self _)

theorem Follows.size_le (h : P.Follows index importer references g g') : g.size ≤ g'.size := by
  rw [← g.length_paths, ← g'.length_paths]
  exact h.paths_prefix.length_le

/-- No path is recorded twice. -/
theorem Follows.nodup_paths (h : P.Follows index importer references g g')
    (hg : g.paths.Nodup) : g'.paths.Nodup := by
  induction h with
  | nil => exact hg
  | skipped _ _ ih => exact ih hg
  | external _ _ ih => exact ih (by rwa [Graph.paths_addExternal])
  | known _ _ _ ih => exact ih (by rwa [Graph.paths_addDependency])
  | found _ hindex _ _ _ ihinner ihrest =>
    refine ihrest ?_
    rw [Graph.paths_addDependency]
    refine ihinner ?_
    rw [Graph.paths_insert, ← List.concat_eq_append]
    exact hg.concat (Graph.indexOf?_eq_none.1 hindex)

/-- **Of the modules that a walk starts with, it changes one only**: the one whose references it
follows. -/
theorem Follows.getElem?_eq (h : P.Follows index importer references g g') {i : Nat}
    (hi : i < g.size) (hne : i ≠ index) : g'.modules[i]? = g.modules[i]? := by
  induction h with
  | nil => rfl
  | skipped _ _ ih => exact ih hi hne
  | external _ _ ih =>
    rw [ih (by simpa using hi) hne, Graph.getElem?_addExternal_of_ne hne]
  | known _ _ _ ih =>
    rw [ih (by simpa using hi) hne, Graph.getElem?_addDependency_of_ne hne]
  | found _ _ _ hinner _ ihinner ihrest =>
    rename_i found _ _ _ _ _
    have hsize : i < found.size := by
      have := hinner.size_le
      rw [Graph.size_insert] at this
      omega
    rw [ihrest (by simpa using hsize) hne, Graph.getElem?_addDependency_of_ne hne,
      ihinner (by simpa using Nat.lt_succ_of_lt hi) (Nat.ne_of_lt hi),
      Graph.getElem?_insert_of_lt hi]

/-- The modules that were there stay as they are while the references of a new one are followed. -/
theorem Follows.getElem?_of_insert {m : Module}
    (h : P.Follows g.size importer references (g.insert m) g') {i : Nat} (hi : i < g.size) :
    g'.modules[i]? = g.modules[i]? := by
  rw [h.getElem?_eq (by simpa using Nat.lt_succ_of_lt hi) (Nat.ne_of_lt hi),
    Graph.getElem?_insert_of_lt hi]

/-- What a walk finds is what the project leads to. -/
theorem Follows.mem_paths (h : P.Follows index importer references g g') {paths : List Path}
    (hpaths : ∀ {importer reference path}, P.leads importer reference (.ok (.module path)) →
      path ∈ paths) (hg : ∀ p ∈ g.paths, p ∈ paths) : ∀ p ∈ g'.paths, p ∈ paths := by
  induction h with
  | nil => exact hg
  | skipped _ _ ih => exact ih hg
  | external _ _ ih => exact ih (by rwa [Graph.paths_addExternal])
  | known _ _ _ ih => exact ih (by rwa [Graph.paths_addDependency])
  | found hleads _ _ _ _ ihinner ihrest =>
    refine ihrest ?_
    rw [Graph.paths_addDependency]
    refine ihinner fun p hp ↦ ?_
    rw [Graph.paths_insert] at hp
    rcases List.mem_append.1 hp with hp | hp
    · exact hg p hp
    · exact List.mem_singleton.1 hp ▸ hpaths hleads

end Project

/-! ### The walk that reads files -/

section

variable [Engine] {σ : Type} [FileStore σ]

/-- What going to the file at a path answers: the file has to be read, and to stand in a
directory. -/
def Module.visited (path : Path) (s : σ) : Except Error (Bytes × List Reference) :=
  match (Module.load path s).1 with
  | .error e => .error e
  | .ok m => path.parent.map fun _ ↦ (m.content, m.references)

/-- A project has all the answers that a walk gets from the stores with an invariant. -/
structure Project.Describes (P : Project) (options : BundleOptions σ) (I : σ → Prop) : Prop where
  /-- Reading a file keeps the invariant. -/
  keeps : ∀ {path s}, I s → I (Module.load path s).2
  /-- The project has the answer of reading a file. -/
  reads : ∀ {path s}, I s → P.reads path (Module.visited path s)
  /-- The project has the answer of resolving a reference. -/
  leads : ∀ {importer directory s reference}, I s → importer.parent = .ok directory →
    P.leads importer reference (options.target s importer directory reference)

/-- The module that is read has no edges. -/
theorem Module.load_eq_ok {path : Path} {s s' : σ} {m : Module}
    (h : Module.load path s = (.ok m, s')) :
    m = { path, content := m.content, references := m.references } := by
  rw [Module.load] at h
  split at h
  · cases h
  · rename_i file s'' _
    rcases hrefs : file.references with e | references
    · rw [hrefs] at h
      cases h
    · rw [hrefs] at h
      obtain rfl := Except.ok.inj (Prod.mk.inj h).1
      rfl

namespace Walk

variable {options : BundleOptions σ} {I : σ → Prop} {P : Project}

/-- What may come of going to a module. -/
def Outcome (P : Project) (path : Path) (g : Graph) (outcome : Except Error Nat) (g' : Graph) :
    Prop :=
  match outcome with
  | .ok index => P.Visits path g index g'
  | .error e => P.Stops ⟨g.paths, [.visit path]⟩ e

/-- What may come of following references. -/
def FollowOutcome (P : Project) (index : Nat) (importer : Path) (references : List Reference)
    (g : Graph) (outcome : Except Error Unit) (g' : Graph) : Prop :=
  match outcome with
  | .ok _ => P.Follows index importer references g g'
  | .error e => P.Stops ⟨g.paths, references.map (.follow importer)⟩ e

omit [Engine] in
/-- Going to a new module is reading it and following its references. -/
theorem FollowOutcome.outcome {path : Path} {content : Bytes} {references : List Reference}
    {g g' : Graph} {followed : Except Error Unit} (hindex : g.indexOf? path = none)
    (hreads : P.reads path (.ok (content, references)))
    (h : FollowOutcome P g.size path references (g.insert { path, content, references })
      followed g') :
    Outcome P path g (followed.map fun _ ↦ g.size) g' := by
  rcases followed with e | _
  · have hstops : P.Stops ⟨g.paths ++ [path], references.map (.follow path)⟩ e := by
      rw [← g.paths_insert { path, content, references }]
      exact h
    exact hstops.head (.single (.read_last (Graph.indexOf?_eq_none.1 hindex) hreads))
  · exact Or.inr ⟨hindex, rfl, content, references, hreads, h⟩

/-- Following references, where going to a module is what it should be. -/
theorem follow_spec (h : P.Describes options I)
    {visit : Path → Walk σ → Option (Except Error Nat × Walk σ)}
    (hvisit : ∀ {path w outcome w'}, I w.store → visit path w = some (outcome, w') →
      I w'.store ∧ Outcome P path w.graph outcome w'.graph)
    {importer directory : Path} (hparent : importer.parent = .ok directory) {index : Nat}
    {references : List Reference} {w w' : Walk σ} {outcome : Except Error Unit}
    (hw : I w.store)
    (hfollow : follow options visit importer directory index references w = some (outcome, w')) :
    I w'.store ∧ FollowOutcome P index importer references w.graph outcome w'.graph := by
  induction references generalizing w with
  | nil =>
    obtain ⟨rfl, rfl⟩ := Prod.mk.inj (Option.some.inj hfollow)
    exact ⟨hw, .nil⟩
  | cons reference rest ih =>
    have hleads : P.leads importer reference
        (options.target w.store importer directory reference) := h.leads hw hparent
    -- one case for each answer; in each, the rest is followed from a graph with the same paths
    rw [follow] at hfollow
    split at hfollow
    case h_1 e htarget =>
      obtain ⟨rfl, rfl⟩ := Prod.mk.inj (Option.some.inj hfollow)
      rw [htarget] at hleads
      exact ⟨hw, .of_fails (.follow hleads) _⟩
    case h_2 htarget =>
      rw [htarget] at hleads
      obtain ⟨hw', hrest⟩ := ih hw hfollow
      refine ⟨hw', ?_⟩
      rcases outcome with e | _
      · exact hrest.head (.single (.skipped hleads))
      · exact .skipped hleads hrest
    case h_3 htarget =>
      rw [htarget] at hleads
      obtain ⟨hw', hrest⟩ :=
        ih (w := ⟨w.store, w.graph.addExternal index reference.request⟩) hw hfollow
      refine ⟨hw', ?_⟩
      rcases outcome with e | _
      · simp only [FollowOutcome, Graph.paths_addExternal] at hrest
        exact hrest.head (.single (.external hleads))
      · exact .external hleads hrest
    case h_4 path htarget =>
      rw [htarget] at hleads
      split at hfollow
      -- a walk without depth left gives no answer at all
      case h_1 => cases hfollow
      case h_2 e w₁ hsome =>
        obtain ⟨rfl, rfl⟩ := Prod.mk.inj (Option.some.inj hfollow)
        obtain ⟨hw₁, hstops⟩ := hvisit hw hsome
        exact ⟨hw₁, (hstops.append (rest.map (.follow importer))).head (.single (.module hleads))⟩
      case h_3 imported w₁ hsome =>
        obtain ⟨hw₁, hvisits⟩ := hvisit hw hsome
        obtain ⟨hw', hrest⟩ :=
          ih (w := ⟨w₁.store, w₁.graph.addDependency index imported⟩) hw₁ hfollow
        refine ⟨hw', ?_⟩
        rcases outcome with e | _
        · -- the steps of the module that was found come before the failing rest
          simp only [FollowOutcome, Graph.paths_addDependency] at hrest
          have hsteps := Project.append_of_advances hvisits.advances (rest.map (.follow importer))
          exact hrest.head (hsteps.head (.module hleads))
        · exact .of_visits hleads hvisits hrest

/-- **What a walk does.** If it succeeds, the graph has grown along the references of the module; if
it fails, it does so at the first task that fails. In both cases the invariant is kept. -/
theorem visit_spec (h : P.Describes options I) {depth : Nat} {path : Path} {w w' : Walk σ}
    {outcome : Except Error Nat} (hw : I w.store)
    (hvisit : visit options depth path w = some (outcome, w')) :
    I w'.store ∧ Outcome P path w.graph outcome w'.graph := by
  induction depth generalizing path w w' outcome with
  | zero =>
    rw [visit] at hvisit
    split at hvisit
    · obtain ⟨rfl, rfl⟩ := Prod.mk.inj (Option.some.inj hvisit)
      exact ⟨hw, Or.inl ⟨‹_›, rfl⟩⟩
    · cases hvisit
  | succ depth ih =>
    have hreads : P.reads path (Module.visited path w.store) := h.reads hw
    have hkept : I (Module.load path w.store).2 := h.keeps hw
    rw [visit] at hvisit
    split at hvisit
    case h_1 index hindex =>
      obtain ⟨rfl, rfl⟩ := Prod.mk.inj (Option.some.inj hvisit)
      exact ⟨hw, Or.inl ⟨hindex, rfl⟩⟩
    case h_2 hindex =>
      have hnew := Graph.indexOf?_eq_none.1 hindex
      simp only at hvisit
      split at hvisit
      case h_1 e s hload =>
        obtain ⟨rfl, rfl⟩ := Prod.mk.inj (Option.some.inj hvisit)
        simp only [Module.visited, hload] at hreads hkept
        exact ⟨hkept, .of_fails (.visit hnew hreads) _⟩
      case h_2 m s hload =>
        simp only [Module.visited, hload] at hreads hkept
        rcases hparent : path.parent with e | directory
        · simp only [hparent] at hvisit hreads
          obtain ⟨rfl, rfl⟩ := Prod.mk.inj (Option.some.inj hvisit)
          exact ⟨hkept, .of_fails (.visit hnew hreads) _⟩
        · simp only [hparent] at hvisit hreads
          have hm := Module.load_eq_ok hload
          -- whether it fails or not, the answer is the one of following the references
          have hfollowed : ∃ followed, follow options (visit options depth) path directory
              w.graph.size m.references ⟨s, w.graph.insert m⟩ = some (followed, w') ∧
              outcome = followed.map fun _ ↦ w.graph.size := by
            split at hvisit
            · cases hvisit
            · obtain ⟨rfl, rfl⟩ := Prod.mk.inj (Option.some.inj hvisit)
              exact ⟨_, ‹_›, rfl⟩
            · obtain ⟨rfl, rfl⟩ := Prod.mk.inj (Option.some.inj hvisit)
              exact ⟨_, ‹_›, rfl⟩
          obtain ⟨followed, hfollow, rfl⟩ := hfollowed
          obtain ⟨hw', hspec⟩ := follow_spec h ih hparent (w := ⟨s, w.graph.insert m⟩) hkept hfollow
          rw [hm] at hspec
          exact ⟨hw', hspec.outcome hindex hreads⟩

end Walk

section

variable {options : BundleOptions σ} {I : σ → Prop} {P : Project} {depth : Nat} {entry : Path}
  {s s' : σ}

/-- A bundle that is collected is a walk from the graph without modules. -/
theorem collect_eq_ok (h : P.Describes options I) (hs : I (entryPath entry s).2) {g : Graph}
    (hcollect : collect options depth entry s = some (.ok g, s')) :
    ∃ path, (entryPath entry s).1 = .ok path ∧ P.Visits path {} 0 g := by
  rw [collect] at hcollect
  rcases hentry : entryPath entry s with ⟨e | path, opened⟩
  · simp [hentry] at hcollect
  · rw [hentry] at hcollect hs
    rcases hvisit : Walk.visit options depth path ⟨opened, {}⟩ with - | ⟨e | index, w⟩
    · simp [hvisit] at hcollect
    · simp [hvisit] at hcollect
    · simp only [hvisit] at hcollect
      obtain rfl := Except.ok.inj (Prod.mk.inj (Option.some.inj hcollect)).1
      have hvisits : P.Visits path {} index w.graph :=
        (Walk.visit_spec h (w := ⟨opened, {}⟩) hs hvisit).2
      obtain ⟨hindex, -⟩ | ⟨-, rfl, -⟩ := id hvisits
      · cases hindex
      · exact ⟨path, rfl, hvisits⟩

/-- A bundle that fails has an entry that does not open, or fails at the first task that does. -/
theorem collect_eq_error (h : P.Describes options I) (hs : I (entryPath entry s).2) {e : Error}
    (hcollect : collect options depth entry s = some (.error e, s')) :
    (entryPath entry s).1 = .error e ∨
      ∃ path, (entryPath entry s).1 = .ok path ∧ P.Stops ⟨[], [.visit path]⟩ e := by
  rw [collect] at hcollect
  rcases hentry : entryPath entry s with ⟨e' | path, opened⟩
  · simp only [hentry] at hcollect
    obtain rfl := Except.error.inj (Prod.mk.inj (Option.some.inj hcollect)).1
    exact Or.inl rfl
  · rw [hentry] at hcollect hs
    rcases hvisit : Walk.visit options depth path ⟨opened, {}⟩ with - | ⟨e' | index, w⟩
    · simp [hvisit] at hcollect
    · simp only [hvisit] at hcollect
      obtain rfl := Except.error.inj (Prod.mk.inj (Option.some.inj hcollect)).1
      exact Or.inr ⟨path, rfl, (Walk.visit_spec h (w := ⟨opened, {}⟩) hs hvisit).2⟩
    · simp [hvisit] at hcollect

/-- The project of which nothing is known describes every bundle. -/
theorem describes_anything (options : BundleOptions σ)
    (hkeeps : ∀ {path s}, I s → I (Module.load path s).2) :
    Project.Describes ⟨fun _ _ ↦ True, fun _ _ _ ↦ True⟩ options I :=
  ⟨hkeeps, fun _ ↦ trivial, fun _ _ ↦ trivial⟩

/-- **Collecting a bundle keeps what reading a module keeps**, whether it succeeds or fails. -/
theorem collect_keeps (hkeeps : ∀ {path s}, I s → I (Module.load path s).2)
    (hs : I (entryPath entry s).2) {outcome : Except Error Graph}
    (h : collect options depth entry s = some (outcome, s')) : I s' := by
  rw [collect] at h
  rcases hentry : entryPath entry s with ⟨e | path, opened⟩
  · simp only [hentry] at h
    obtain ⟨-, rfl⟩ := Prod.mk.inj (Option.some.inj h)
    rwa [hentry] at hs
  · rw [hentry] at h hs
    rcases hvisit : Walk.visit options depth path ⟨opened, {}⟩ with - | ⟨walked, w⟩
    · simp [hvisit] at h
    · have hw : I w.store :=
        (Walk.visit_spec (describes_anything options hkeeps) (w := ⟨opened, {}⟩) hs hvisit).1
      simp only [hvisit] at h
      rcases walked with e | index <;>
      · obtain ⟨-, rfl⟩ := Prod.mk.inj (Option.some.inj h)
        exact hw

end

end

/-- What running a walk tells about the bundle it collects. -/
theorem exists_of_map_collect [Engine] {σ β : Type} [FileStore σ] {options : BundleOptions σ}
    {depth : Nat} {entry : Path} {s : σ} {f : Graph → β} {b : β}
    (h : (collect options depth entry s).map (fun answer ↦ answer.1.toOption.map f) =
      some (some b)) :
    ∃ g s', collect options depth entry s = some (.ok g, s') ∧ f g = b := by
  obtain ⟨⟨outcome, s'⟩, hcollect, hgraph⟩ := Option.map_eq_some_iff.1 h
  rcases outcome with e | g
  · cases hgraph
  · exact ⟨g, s', hcollect, Option.some.inj hgraph⟩

/-- What is followed in the bundle of the sample store: its package is left out. -/
def sampleOptions : BundleOptions MemoryStore :=
  .ofTable (some ⟨[("x", .external)], ⟨[]⟩⟩) false

/-- The sample store has a bundle, with a cycle and a module that imports itself. -/
theorem exists_collect_sampleStore :
    ∃ g s', collect sampleOptions 2 ⟨true, ["a.ts"]⟩ MemoryStore.sampleStore = some (.ok g, s') ∧
      g.modules.map Module.dependencies = [[1], [0, 1]] :=
  exists_of_map_collect (by decide +kernel)

end ModuleBundler
