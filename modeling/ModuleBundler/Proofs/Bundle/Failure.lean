import ModuleBundler.Proofs.Bundle.Ending
import ModuleBundler.Syntax.Program

/-!
# When a bundle fails

A bundle fails as a whole or not at all. It fails exactly if some module that the entry needs cannot
be read, or has a reference that leads nowhere, and then with the error of the task at which a walk
stops first.

Three facts make this up.

* Every task on the agenda of a walk is about a module that the start needs
  (`Project.due_of_advances`): **no other module can make it fail**.
* A walk that succeeds has read every module that the start needs and followed each reference of it:
  none is passed over because it was met before, on a cycle or otherwise.
* A walk through files ends. The modules it finds are files of the store or of the table, each under
  one path, so that there is a bound on how deep it leads (`Walk.isSome_visit`).

With one answer to every question there is one walk only, and no more than one error that it can
stop with (`Project.Stops.unique`).
-/

namespace ModuleBundler

/-! ### The tasks of a walk -/

/-- Every task is about a module that the start needs. -/
def Agenda.Due (P : Project) (start : Path) (a : Agenda) : Prop :=
  ∀ task ∈ a.tasks,
    match task with
    | .visit path => path ∈ P.needed start
    | .follow importer reference => importer ∈ P.needed start ∧
        ∃ content references, P.reads importer (.ok (content, references)) ∧ reference ∈ references

namespace Project

variable {P : Project} {start : Path} {a b : Agenda} {e e' : Error}

/-- A step leaves tasks about needed modules only. -/
theorem Advances.due (h : P.Advances a b) (ha : a.Due P start) : b.Due P start := by
  cases h with
  | known => exact fun task htask ↦ ha task (List.mem_cons_of_mem _ htask)
  | @read path content references seen tasks _ hreads =>
    have hneeded : path ∈ P.needed start := ha _ List.mem_cons_self
    intro task htask
    rcases List.mem_append.1 htask with htask | htask
    · obtain ⟨reference, hmem, rfl⟩ := List.mem_map.1 htask
      exact ⟨hneeded, content, references, hreads, hmem⟩
    · exact ha task (List.mem_cons_of_mem _ htask)
  | skipped => exact fun task htask ↦ ha task (List.mem_cons_of_mem _ htask)
  | external => exact fun task htask ↦ ha task (List.mem_cons_of_mem _ htask)
  | @module importer path reference seen tasks hleads =>
    -- the importing module is needed and was read, so what it links to is needed
    obtain ⟨hneeded, content, references, hreads, hmem⟩ := ha _ List.mem_cons_self
    intro task htask
    rcases List.mem_cons.1 htask with rfl | htask
    · exact hneeded.tail ⟨content, references, reference, hreads, hmem, hleads⟩
    · exact ha task (List.mem_cons_of_mem _ htask)

/-- **Every task of a walk is about a module that the start needs.** -/
theorem due_of_advances (h : Relation.ReflTransGen P.Advances ⟨[], [.visit start]⟩ a) :
    a.Due P start := by
  induction h with
  | refl =>
    intro task htask
    obtain rfl := List.mem_singleton.1 htask
    exact .refl
  | tail _ hstep ih => exact hstep.due ih

/-- The module at a path can be read, and each of its references leads somewhere. -/
def Complete (P : Project) (path : Path) : Prop :=
  ∃ content references, P.reads path (.ok (content, references)) ∧
    ∀ reference ∈ references, ∃ target, P.leads path reference (.ok target)

/-- A walk that fails does so at a module that is needed. -/
theorem Stops.exists_not_complete (hP : P.Functional) (h : P.Stops ⟨[], [.visit start]⟩ e) :
    ∃ path ∈ P.needed start, ¬ P.Complete path := by
  obtain ⟨seen, task, rest, hsteps, hfails⟩ := h
  have hdue := due_of_advances hsteps task List.mem_cons_self
  cases hfails with
  | @visit path _ _ _ hreads =>
    refine ⟨path, hdue, ?_⟩
    rintro ⟨content, references, hreads', -⟩
    cases hP.reads hreads hreads'
  | @follow importer reference _ _ hleads =>
    obtain ⟨hneeded, content, references, hreads, hmem⟩ := hdue
    refine ⟨importer, hneeded, ?_⟩
    rintro ⟨content', references', hreads', hall⟩
    obtain ⟨rfl, rfl⟩ := Prod.mk.inj (Except.ok.inj (hP.reads hreads hreads'))
    obtain ⟨target, htarget⟩ := hall reference hmem
    cases hP.leads hleads htarget

/-- A walk that succeeds leaves nothing out. -/
theorem Visits.complete {index : Nat} {g : Graph} (h : P.Visits start {} index g)
    (hP : P.Functional) {path : Path} (hpath : path ∈ P.needed start) : P.Complete path := by
  have hmem : path ∈ g.paths := (P.isLeast_needed start).2 (h.isLeast_paths hP).1 hpath
  obtain ⟨i, hi⟩ := List.mem_iff_getElem?.1 hmem
  have hlt : i < g.size := g.length_paths ▸ (List.getElem?_eq_some_iff.1 hi).1
  obtain ⟨content, references, hreads, hlead⟩ := (h.found_of_lt hlt).exists_lead hi
  refine ⟨content, references, hreads, fun reference hreference ↦ ?_⟩
  obtain ⟨target, hleads, -⟩ := hlead reference hreference
  exact ⟨target, hleads⟩

/-! ### One walk only -/

theorem Functional.rightUnique_advances (hP : P.Functional) : Relator.RightUnique P.Advances := by
  intro a b c hb hc
  cases hb with
  | known hmem =>
    cases hc with
    | known => rfl
    | read hnot => exact absurd hmem hnot
  | read hnot hreads =>
    cases hc with
    | known hmem => exact absurd hmem hnot
    | read _ hreads' =>
      obtain ⟨rfl, rfl⟩ := Prod.mk.inj (Except.ok.inj (hP.reads hreads hreads'))
      rfl
  | skipped hleads =>
    cases hc with
    | skipped => rfl
    | external => rfl
    | module hleads' => cases hP.leads hleads hleads'
  | external hleads =>
    cases hc with
    | skipped => rfl
    | external => rfl
    | module hleads' => cases hP.leads hleads hleads'
  | module hleads =>
    cases hc with
    | skipped hleads' => cases hP.leads hleads hleads'
    | external hleads' => cases hP.leads hleads hleads'
    | module hleads' =>
      cases hP.leads hleads hleads'
      rfl

/-- A walk does not go on from a task at which it fails. -/
theorem Functional.not_advances (hP : P.Functional) {seen : List Path} {task : Task}
    {rest : List Task} (hfails : P.Fails seen task e) : ¬ P.Advances ⟨seen, task :: rest⟩ b := by
  intro hstep
  cases hfails with
  | visit hnot hreads =>
    cases hstep with
    | known hmem => exact hnot hmem
    | read _ hreads' => cases hP.reads hreads hreads'
  | follow hleads =>
    cases hstep with
    | skipped hleads' => cases hP.leads hleads hleads'
    | external hleads' => cases hP.leads hleads hleads'
    | module hleads' => cases hP.leads hleads hleads'

/-- **A walk stops with one error only.** -/
theorem Stops.unique (hP : P.Functional) (h : P.Stops a e) (h' : P.Stops a e') : e = e' := by
  obtain ⟨seen, task, rest, hsteps, hfails⟩ := h
  obtain ⟨seen', task', rest', hsteps', hfails'⟩ := h'
  -- one of the two walks is a part of the other, and neither goes on
  have hsame : (⟨seen, task :: rest⟩ : Agenda) = ⟨seen', task' :: rest'⟩ := by
    rcases Relation.ReflTransGen.total_of_right_unique hP.rightUnique_advances hsteps hsteps'
      with hon | hon
    · rcases hon.cases_head with heq | ⟨next, hnext, -⟩
      · exact heq
      · exact absurd hnext (hP.not_advances hfails)
    · rcases hon.cases_head with heq | ⟨next, hnext, -⟩
      · exact heq.symm
      · exact absurd hnext (hP.not_advances hfails')
  obtain ⟨rfl, htasks⟩ := Agenda.mk.inj hsame
  obtain ⟨rfl, -⟩ := List.cons.inj htasks
  cases hfails with
  | visit _ hreads =>
    cases hfails' with
    | visit _ hreads' => exact Except.error.inj (hP.reads hreads hreads')
  | follow hleads =>
    cases hfails' with
    | follow hleads' => exact Except.error.inj (hP.leads hleads hleads')

end Project

/-! ### Bundles with a table -/

namespace BundleOptions

variable [Engine] (options : BundleOptions MemoryStore) (s : MemoryStore)

/-- The module at a path can be read, its references can be extracted, and each that is followed
leads to a module or out of the bundle. -/
def Resolves (path : Path) : Prop :=
  ∃ content references directory, s.source path = .ok (content, references) ∧
    path.parent = .ok directory ∧
    ∀ reference ∈ references, options.isFollowed reference = true →
      (options.destination? s directory reference).isSome = true ∨
        options.isExternal s directory reference = true

theorem resolves_iff {options : BundleOptions MemoryStore} {s : MemoryStore} (hs : s.Sound)
    {path : Path} : options.Resolves s path ↔ (options.project s).Complete path := by
  constructor
  · rintro ⟨content, references, directory, hsource, hparent, hall⟩
    refine ⟨content, references, hsource, fun reference hmem ↦ ?_⟩
    cases hfollowed : options.isFollowed reference with
    | false => exact ⟨.skipped, directory, hparent, hfollowed⟩
    | true =>
      rcases hall reference hmem hfollowed with hdestination | hexternal
      · obtain ⟨q, hq⟩ := Option.isSome_iff_exists.1 hdestination
        exact ⟨.module q, directory, hparent, hq⟩
      · exact ⟨.external, directory, hparent, hexternal⟩
  · rintro ⟨content, references, hsource, hall⟩
    obtain ⟨directory, hparent⟩ := hs.exists_parent_of_source hsource
    refine ⟨content, references, directory, hsource, hparent, fun reference hmem hfollowed ↦ ?_⟩
    obtain ⟨target, directory', hparent', htarget⟩ := hall reference hmem
    obtain rfl := Except.ok.inj (hparent.symm.trans hparent')
    cases target with
    | skipped => exact absurd hfollowed (Bool.eq_false_iff.1 htarget)
    | external => exact Or.inr htarget
    | module q => exact Or.inl (Option.isSome_iff_exists.2 ⟨q, htarget⟩)

theorem FailsWith.unique {options : BundleOptions MemoryStore} {s : MemoryStore} {entry : Path}
    {e e' : Error} (h : options.FailsWith s entry e) (h' : options.FailsWith s entry e') :
    e = e' := by
  rcases h with hopen | ⟨start, hopens, hstops⟩ <;>
    rcases h' with hopen' | ⟨start', hopens', hstops'⟩
  · exact Except.error.inj (hopen.symm.trans hopen')
  · exact absurd hopen hopens'.ne_error
  · exact absurd hopen' hopens.ne_error
  · obtain rfl := hopens.unique hopens'
    exact hstops.unique (options.functional_project s) hstops'

/-- What makes a bundle fail is not resolved. -/
theorem FailsWith.exists_not_resolves {options : BundleOptions MemoryStore} {s : MemoryStore}
    (hs : s.Sound) {entry start : Path} {e : Error} (h : options.FailsWith s entry e)
    (hopens : s.Opens entry start) :
    ∃ path ∈ (options.project s).needed start, ¬ options.Resolves s path := by
  rcases h with hopen | ⟨start', hopens', hstops⟩
  · exact absurd hopen hopens.ne_error
  · obtain rfl := hopens.unique hopens'
    obtain ⟨path, hneeded, hnot⟩ := hstops.exists_not_complete (options.functional_project s)
    exact ⟨path, hneeded, mt (resolves_iff hs).1 hnot⟩

end BundleOptions

/-- **All or nothing.** With a table of packages there always is an answer. It is a graph if and
only if the entry opens and every module that it needs can be read and resolves; and an error if and
only if the entry does not open, with the error of opening it, or the walk from it stops, with the
error of the first task that fails. -/
theorem bundle_all_or_nothing [Engine] (packages : Option PackageTable) (followTypes : Bool)
    (entry : Path) (s : MemoryStore) (hs : s.Reachable) :
    ∃ outcome s', bundle packages followTypes entry s = some (outcome, s') ∧
      ((∃ g, outcome = .ok g) ↔
        ∃ start, s.Opens entry start ∧
          ∃ needed,
            IsLeast {S | ((BundleOptions.ofTable packages followTypes).project s).Closed start S}
              needed ∧
            ∀ path ∈ needed, (BundleOptions.ofTable packages followTypes).Resolves s path) ∧
      ∀ e, outcome = .error e ↔
        (BundleOptions.ofTable packages followTypes).FailsWith s entry e := by
  have hsound : s.Sound := hs.sound
  have htree := BundleOptions.readsTree_ofTable packages followTypes
  obtain ⟨⟨outcome, s'⟩, hbundle⟩ :=
    Option.isSome_iff_exists.1 (isSome_bundle packages followTypes entry hsound)
  refine ⟨outcome, s', hbundle, ?_⟩
  rcases outcome with e | g
  · have hfails := BundleOptions.failsWith_of_collect hsound htree hbundle
    refine ⟨⟨by simp, ?_⟩, fun e' ↦ ⟨fun h ↦ Except.error.inj h ▸ hfails, fun hfails' ↦ ?_⟩⟩
    · rintro ⟨start, hopens, needed, hleast, hall⟩
      obtain ⟨path, hneeded, hnot⟩ := hfails.exists_not_resolves hsound hopens
      obtain rfl := hleast.unique (Project.isLeast_needed _ start)
      exact absurd (hall path hneeded) hnot
    · rw [hfails.unique hfails']
  · obtain ⟨start, hopens, hvisits⟩ := BundleOptions.exists_visits_of_collect hsound htree hbundle
    have hall : ∀ path ∈ ((BundleOptions.ofTable packages followTypes).project s).needed start,
        (BundleOptions.ofTable packages followTypes).Resolves s path :=
      fun path hpath ↦ (BundleOptions.resolves_iff hsound).2
        (hvisits.complete (BundleOptions.functional_project _ s) hpath)
    refine ⟨⟨fun _ ↦ ⟨start, hopens, _, Project.isLeast_needed _ start, hall⟩, fun _ ↦ ⟨g, rfl⟩⟩,
      fun e ↦ ⟨by simp, fun hfails ↦ ?_⟩⟩
    obtain ⟨path, hneeded, hnot⟩ := hfails.exists_not_resolves hsound hopens
    exact absurd (hall path hneeded) hnot

/-- Without a table, nothing is known about the package that the sample store names, and the bundle
fails with it, although the reference before it leads to a module. -/
theorem bundle_all_or_nothing_sampleStore :
    MemoryStore.sampleStore.Reachable ∧
      (BundleOptions.ofTable none false).FailsWith MemoryStore.sampleStore ⟨true, ["a.ts"]⟩
        (.unsupportedImport "x" ⟨true, ["a.ts"]⟩) := by
  have hreachable := MemoryStore.reachable_sampleStore
  obtain ⟨outcome, s', hbundle, -, herror⟩ :=
    bundle_all_or_nothing none false ⟨true, ["a.ts"]⟩ _ hreachable
  have hrun : (bundle none false ⟨true, ["a.ts"]⟩ MemoryStore.sampleStore).map
      (fun answer ↦ match answer.1 with | .error e => some e | .ok _ => none) =
        some (some (.unsupportedImport "x" ⟨true, ["a.ts"]⟩)) := by
    decide +kernel
  rw [hbundle] at hrun
  refine ⟨hreachable, (herror _).1 ?_⟩
  rcases outcome with e | g
  · exact congrArg _ (Option.some.inj (Option.some.inj hrun))
  · cases Option.some.inj hrun

end ModuleBundler
