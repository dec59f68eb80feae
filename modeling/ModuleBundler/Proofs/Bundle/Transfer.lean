import ModuleBundler.Proofs.Bundle.Failure
import ModuleBundler.Proofs.Store.Alike

/-!
# Walks in two projects

Two bundles are compared without running them side by side. What a walk does is settled by the
answers it gets, so that two walks are alike if they get alike answers; and a walk only asks about
the modules that its start needs. `Project.Transfers` says this of two projects: all that the first
answers about these modules, the second answers too, up to which error it is among those that a
relation takes for alike.

* A walk that succeeds in the first project succeeds in the second, with the same graph
  (`Project.Transfers.visits`).
* A walk that stops in the first project stops in the second, with an alike error
  (`Project.Transfers.stops`).

In a project with one answer to each question there is one walk, and it does not both succeed and
stop. So whatever two bundles come to, it is alike (`alike_of_collect`): the stores may be of two
kinds, and neither depth nor order of the answers is looked at.
-/

namespace ModuleBundler

namespace Project

variable {P P' : Project} {E : Error → Error → Prop} {start path importer : Path}
  {index index' : Nat} {references : List Reference} {g g' g'' : Graph} {a b : Agenda} {e : Error}

/-! ### One graph only -/

/-- A walk along references builds one graph. -/
theorem Follows.unique (hP : P.Functional) (h : P.Follows index importer references g g')
    (h' : P.Follows index importer references g g'') : g' = g'' := by
  -- where a reference leads decides which step is taken for it: the other steps are contradictions
  induction h generalizing g'' with
  | nil =>
    cases h'
    rfl
  | skipped hleads _ ih =>
    cases h' with
    | skipped _ hrest => exact ih hrest
    | external hleads' => cases hP.leads hleads hleads'
    | known hleads' => cases hP.leads hleads hleads'
    | found hleads' => cases hP.leads hleads hleads'
  | external hleads _ ih =>
    cases h' with
    | skipped hleads' => cases hP.leads hleads hleads'
    | external _ hrest => exact ih hrest
    | known hleads' => cases hP.leads hleads hleads'
    | found hleads' => cases hP.leads hleads hleads'
  | known hleads hindex _ ih =>
    cases h' with
    | skipped hleads' => cases hP.leads hleads hleads'
    | external hleads' => cases hP.leads hleads hleads'
    | known hleads' hindex' hrest =>
      cases hP.leads hleads hleads'
      obtain rfl := Option.some.inj (hindex.symm.trans hindex')
      exact ih hrest
    | found hleads' hindex' =>
      cases hP.leads hleads hleads'
      cases hindex.symm.trans hindex'
  | found hleads hindex hreads _ _ ihinner ihrest =>
    cases h' with
    | skipped hleads' => cases hP.leads hleads hleads'
    | external hleads' => cases hP.leads hleads hleads'
    | known hleads' hindex' =>
      cases hP.leads hleads hleads'
      cases hindex.symm.trans hindex'
    | found hleads' _ hreads' hinner hrest =>
      cases hP.leads hleads hleads'
      cases hP.reads hreads hreads'
      obtain rfl := ihinner hinner
      exact ihrest hrest

/-- **A walk from the graph without modules builds one graph.** -/
theorem Visits.unique (hP : P.Functional) (h : P.Visits path {} index g)
    (h' : P.Visits path {} index' g') : g = g' := by
  obtain ⟨hindex, -⟩ | ⟨-, rfl, content, references, hreads, hfollows⟩ := h
  · cases hindex
  · obtain ⟨hindex, -⟩ | ⟨-, rfl, content', references', hreads', hfollows'⟩ := h'
    · cases hindex
    · cases hP.reads hreads hreads'
      exact hfollows.unique hP hfollows'

/-- What a walk from a start comes to: a graph, or the error with which it stops. -/
inductive Ends (P : Project) (start : Path) : Except Error Graph → Prop
  /-- The walk succeeds. -/
  | ok {g : Graph} : P.Visits start {} 0 g → Ends P start (.ok g)
  /-- The walk stops. -/
  | error {e : Error} : P.Stops ⟨[], [.visit start]⟩ e → Ends P start (.error e)

/-- A walk that succeeds does not stop. -/
theorem Visits.not_stops (hP : P.Functional) (h : P.Visits start {} index g) :
    ¬ P.Stops ⟨[], [.visit start]⟩ e := by
  intro hstops
  obtain ⟨path, hneeded, hnot⟩ := hstops.exists_not_complete hP
  exact hnot (h.complete hP hneeded)

/-- **A walk comes to one thing only.** -/
theorem Ends.unique (hP : P.Functional) {outcome outcome' : Except Error Graph}
    (h : P.Ends start outcome) (h' : P.Ends start outcome') : outcome = outcome' := by
  cases h with
  | ok hvisits =>
    cases h' with
    | ok hvisits' => rw [hvisits.unique hP hvisits']
    | error hstops' => exact absurd hstops' (hvisits.not_stops hP)
  | error hstops =>
    cases h' with
    | ok hvisits' => exact absurd hstops (hvisits'.not_stops hP)
    | error hstops' => rw [hstops.unique hP hstops']

/-! ### From one project to the other -/

/-- All that a project answers about modules that the start needs, another one answers too. -/
structure Transfers (P P' : Project) (E : Error → Error → Prop) (start : Path) : Prop where
  /-- What reading a module answers. -/
  reads : ∀ {path answer}, path ∈ P.needed start → P.reads path answer →
    ∃ answer', P'.reads path answer' ∧ Alike E answer answer'
  /-- What becomes of a reference of a module. -/
  leads : ∀ {importer content references reference answer}, importer ∈ P.needed start →
    P.reads importer (.ok (content, references)) → reference ∈ references →
    P.leads importer reference answer →
    ∃ answer', P'.leads importer reference answer' ∧ Alike E answer answer'

namespace Transfers

theorem reads_ok (h : P.Transfers P' E start) {answer : Bytes × List Reference}
    (hneeded : path ∈ P.needed start) (hreads : P.reads path (.ok answer)) :
    P'.reads path (.ok answer) := by
  obtain ⟨answer', hreads', ⟨⟩⟩ := h.reads hneeded hreads
  exact hreads'

theorem leads_ok (h : P.Transfers P' E start) {content : Bytes} {reference : Reference}
    {target : Target} (hneeded : importer ∈ P.needed start)
    (hreads : P.reads importer (.ok (content, references))) (hmem : reference ∈ references)
    (hleads : P.leads importer reference (.ok target)) :
    P'.leads importer reference (.ok target) := by
  obtain ⟨answer', hleads', ⟨⟩⟩ := h.leads hneeded hreads hmem hleads
  exact hleads'

/-- A step with tasks about needed modules is a step in the other project. -/
theorem advances (h : P.Transfers P' E start) (hstep : P.Advances a b) (ha : a.Due P start) :
    P'.Advances a b := by
  cases hstep with
  | known hmem => exact .known hmem
  | read hnot hreads => exact .read hnot (h.reads_ok (ha _ List.mem_cons_self) hreads)
  | skipped hleads =>
    obtain ⟨hneeded, content, references, hreads, hmem⟩ := ha _ List.mem_cons_self
    exact .skipped (h.leads_ok hneeded hreads hmem hleads)
  | external hleads =>
    obtain ⟨hneeded, content, references, hreads, hmem⟩ := ha _ List.mem_cons_self
    exact .external (h.leads_ok hneeded hreads hmem hleads)
  | module hleads =>
    obtain ⟨hneeded, content, references, hreads, hmem⟩ := ha _ List.mem_cons_self
    exact .module (h.leads_ok hneeded hreads hmem hleads)

/-- A walk from the start is a walk in the other project. -/
theorem run (h : P.Transfers P' E start)
    (hsteps : Relation.ReflTransGen P.Advances ⟨[], [.visit start]⟩ a) :
    Relation.ReflTransGen P'.Advances ⟨[], [.visit start]⟩ a := by
  induction hsteps with
  | refl => exact .refl
  | tail hbefore hstep ih => exact ih.tail (h.advances hstep (due_of_advances hbefore))

/-- A task about a needed module that fails, fails in the other project. -/
theorem fails (h : P.Transfers P' E start) {seen : List Path} {task : Task} {rest : List Task}
    (hfails : P.Fails seen task e) (hdue : Agenda.Due P start ⟨seen, task :: rest⟩) :
    ∃ e', E e e' ∧ P'.Fails seen task e' := by
  cases hfails with
  | visit hnot hreads =>
    obtain ⟨answer', hreads', halike⟩ := h.reads (hdue _ List.mem_cons_self) hreads
    cases halike with
    | error hE => exact ⟨_, hE, .visit hnot hreads'⟩
  | follow hleads =>
    obtain ⟨hneeded, content, references, hreads, hmem⟩ := hdue _ List.mem_cons_self
    obtain ⟨answer', hleads', halike⟩ := h.leads hneeded hreads hmem hleads
    cases halike with
    | error hE => exact ⟨_, hE, .follow hleads'⟩

/-- **A walk that stops, stops in the other project**, with an alike error. -/
theorem stops (h : P.Transfers P' E start) (hstops : P.Stops ⟨[], [.visit start]⟩ e) :
    ∃ e', E e e' ∧ P'.Stops ⟨[], [.visit start]⟩ e' := by
  obtain ⟨seen, task, rest, hsteps, hfails⟩ := hstops
  obtain ⟨e', hE, hfails'⟩ := h.fails hfails (due_of_advances hsteps)
  exact ⟨e', hE, seen, task, rest, h.run hsteps, hfails'⟩

/-- A walk along references of a needed module is a walk along them in the other project. -/
theorem follows (h : P.Transfers P' E start) (hfollows : P.Follows index importer references g g')
    {content : Bytes} {all : List Reference} (hneeded : importer ∈ P.needed start)
    (hreads : P.reads importer (.ok (content, all))) (hall : references ⊆ all) :
    P'.Follows index importer references g g' := by
  induction hfollows generalizing content all with
  | nil => exact .nil
  | skipped hleads _ ih =>
    exact .skipped (h.leads_ok hneeded hreads (hall List.mem_cons_self) hleads)
      (ih hneeded hreads (List.subset_of_cons_subset hall))
  | external hleads _ ih =>
    exact .external (h.leads_ok hneeded hreads (hall List.mem_cons_self) hleads)
      (ih hneeded hreads (List.subset_of_cons_subset hall))
  | known hleads hindex _ ih =>
    exact .known (h.leads_ok hneeded hreads (hall List.mem_cons_self) hleads) hindex
      (ih hneeded hreads (List.subset_of_cons_subset hall))
  | found hleads hindex hread _ _ ihinner ihrest =>
    -- the module that is found is needed as well, being linked to the one that imports it
    have hneeded' := Relation.ReflTransGen.tail hneeded
      ⟨content, all, _, hreads, hall List.mem_cons_self, hleads⟩
    exact .found (h.leads_ok hneeded hreads (hall List.mem_cons_self) hleads) hindex
      (h.reads_ok hneeded' hread) (ihinner hneeded' hread (List.Subset.refl _))
      (ihrest hneeded hreads (List.subset_of_cons_subset hall))

/-- **A walk that succeeds, succeeds in the other project**, with the same graph. -/
theorem visits (h : P.Transfers P' E start) (hvisits : P.Visits start {} index g) :
    P'.Visits start {} index g := by
  obtain ⟨hindex, -⟩ | ⟨hindex, rfl, content, references, hreads, hfollows⟩ := hvisits
  · cases hindex
  · exact Or.inr ⟨hindex, rfl, content, references, h.reads_ok .refl hreads,
      h.follows hfollows .refl hreads (List.Subset.refl _)⟩

/-- What a walk comes to, it comes to in the other project, up to alike errors. -/
theorem ends (h : P.Transfers P' E start) {outcome : Except Error Graph}
    (hends : P.Ends start outcome) :
    ∃ outcome', P'.Ends start outcome' ∧ Alike E outcome outcome' := by
  cases hends with
  | @ok g hvisits => exact ⟨.ok g, .ok (h.visits hvisits), .ok g⟩
  | error hstops =>
    obtain ⟨e', hE, hstops'⟩ := h.stops hstops
    exact ⟨.error e', .error hstops', .error hE⟩

end Transfers

end Project

/-! ### Bundles -/

section

variable {σ τ : Type} [FileStore σ] [FileStore τ] {options : BundleOptions σ}
  {options' : BundleOptions τ} {I : σ → Prop} {I' : τ → Prop} {P P' : Project}
  {E : Error → Error → Prop} {entry : Path} {s s' : σ} {t t' : τ} {depth depth' : Nat}
  {outcome outcome' : Except Error Graph}

/-- A bundle comes to what the walk from its entry comes to. -/
theorem ends_of_collect [Engine] (h : P.Describes options I) (hs : I (entryPath entry s).2)
    (hcollect : collect options depth entry s = some (outcome, s')) :
    (∃ e, (entryPath entry s).1 = .error e ∧ outcome = .error e) ∨
      ∃ start, (entryPath entry s).1 = .ok start ∧ P.Ends start outcome := by
  rcases outcome with e | g
  · rcases collect_eq_error h hs hcollect with hentry | ⟨start, hentry, hstops⟩
    · exact Or.inl ⟨e, hentry, rfl⟩
    · exact Or.inr ⟨start, hentry, .error hstops⟩
  · obtain ⟨start, hentry, hvisits⟩ := collect_eq_ok h hs hcollect
    exact Or.inr ⟨start, hentry, .ok hvisits⟩

/-- **Bundles of projects with alike answers come to alike outcomes**, if the entries do. -/
theorem alike_of_collect [Engine] (h : P.Describes options I) (h' : P'.Describes options' I')
    (hP' : P'.Functional) (hs : I (entryPath entry s).2) (ht : I' (entryPath entry t).2)
    (hentry : Alike E (entryPath entry s).1 (entryPath entry t).1)
    (htransfers : ∀ {start}, (entryPath entry s).1 = .ok start → P.Transfers P' E start)
    (hcollect : collect options depth entry s = some (outcome, s'))
    (hcollect' : collect options' depth' entry t = some (outcome', t')) :
    Alike E outcome outcome' := by
  rcases ends_of_collect h hs hcollect with ⟨e, hfault, rfl⟩ | ⟨start, hstart, hends⟩
  · rcases ends_of_collect h' ht hcollect' with ⟨e', hfault', rfl⟩ | ⟨start', hstart', -⟩
    · rw [hfault, hfault'] at hentry
      cases hentry with
      | error hE => exact .error hE
    · rw [hfault, hstart'] at hentry
      cases hentry
  · rcases ends_of_collect h' ht hcollect' with ⟨e', hfault', rfl⟩ | ⟨start', hstart', hends'⟩
    · rw [hstart, hfault'] at hentry
      cases hentry
    · obtain rfl : start = start' := by
        rw [hstart, hstart'] at hentry
        cases hentry
        rfl
      obtain ⟨outcome'', hends'', halike⟩ := (htransfers hstart).ends hends
      rwa [hends''.unique hP' hends'] at halike

end

end ModuleBundler
