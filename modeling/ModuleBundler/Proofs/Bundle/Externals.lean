import ModuleBundler.Proofs.Bundle.Relocation
import ModuleBundler.Proofs.Bundle.Transfer
import ModuleBundler.Proofs.Bundle.TypeImports
import ModuleBundler.Syntax.Program

/-!
# Packages that are left out

Where packages are known as left out of the bundle only, a list of prefixes says which. The list
decides whether there is a bundle, and never what is in it (`bundle_externals`).

Such packages lead to no module, so that a start needs the same modules whatever the list is
(`BundleOptions.needed_ofExternals`), and the list is asked about package requests of these modules
only, `BundleOptions.Asks`. What it says about one of them makes no difference but one: the request
is left out, or the bundle fails with it.

* A bundle that succeeds knows each of these requests (`BundleOptions.knows_of_visits`). Two lists
  with which it succeeds know the same of them, so that the walks get the same answers and find the
  same graph.
* If it succeeds with one list and fails with another, the walk with the other stops at a request
  that only the first knows (`BundleOptions.exists_request_of_stops`).
* Without any list it is as with one that knows none of these requests.
-/

namespace ModuleBundler

/-- The table that lists no request, and leaves out these packages. -/
def ExternalPackages.table (packages : ExternalPackages) : PackageTable :=
  ⟨[], packages⟩

/-- Whether a request is left out of the bundle by what is known, if anything is. -/
def ExternalPackages.knows (known : Option ExternalPackages) (request : String) : Bool :=
  known.any (·.contains request)

namespace BundleOptions

variable {known known' : Option ExternalPackages} {followTypes : Bool} {s : MemoryStore}
  {importer directory start path : Path} {reference : Reference} {request : String}

theorem ofTable_externals (known : Option ExternalPackages) (followTypes : Bool) :
    ofTable (known.map ExternalPackages.table) followTypes = ofExternals known followTypes := by
  cases known <;> rfl

/-- A reference of a module that the start needs asks about a package: it is followed, and does not
start from the directory of its file. -/
def Asks [Engine] (options : BundleOptions MemoryStore) (s : MemoryStore) (start : Path)
    (request : String) : Prop :=
  ∃ importer ∈ (options.project s).needed start, ∃ content references,
    s.source importer = .ok (content, references) ∧
    ∃ reference ∈ references, options.isFollowed reference = true ∧
      reference.isRelative = false ∧ reference.request = request

/-! ### What a list is asked -/

/-- A package is left out if it is known, and makes the bundle fail if not. -/
theorem target_ofExternals (hfollowed : (ofExternals known followTypes).isFollowed reference = true)
    (hpackage : reference.isRelative = false) :
    (ofExternals known followTypes).target s importer directory reference =
      if ExternalPackages.knows known reference.request then .ok .external
      else .error (.unsupportedImport reference.request importer) := by
  rw [target_of_not_isRelative hfollowed hpackage, answer?_ofExternals]
  rcases known with - | packages
  · rfl
  · cases hcontains : packages.contains reference.request <;>
      simp [ExternalPackages.knows, ExternalPackages.classify, hcontains]

/-- **A list is only asked about packages that are followed.** Where two lists say the same about
these, a reference becomes the same. -/
theorem target_ofExternals_congr
    (h : (ofExternals known followTypes).isFollowed reference = true →
      reference.isRelative = false →
      ExternalPackages.knows known reference.request =
        ExternalPackages.knows known' reference.request) :
    (ofExternals known followTypes).target s importer directory reference =
      (ofExternals known' followTypes).target s importer directory reference := by
  cases hfollowed : (ofExternals known followTypes).isFollowed reference with
  | false =>
    have hfollowed' : (ofExternals known' followTypes).isFollowed reference = false := hfollowed
    rw [target_of_not_isFollowed hfollowed, target_of_not_isFollowed hfollowed']
  | true =>
    have hfollowed' : (ofExternals known' followTypes).isFollowed reference = true := hfollowed
    cases hrelative : reference.isRelative with
    | true =>
      rw [target_of_isRelative hfollowed hrelative, target_of_isRelative hfollowed' hrelative]
    | false =>
      rw [target_ofExternals hfollowed hrelative, target_ofExternals hfollowed' hrelative,
        h hfollowed hrelative]

/-- **Where a reference leads somewhere with one list and nowhere with another**, it asks about a
package that only the first knows. -/
theorem Fault.of_ofExternals {target : Target} {e : Error}
    (hanswer : (ofExternals known followTypes).Answers s importer directory reference (.ok target))
    (hfault : (ofExternals known' followTypes).Fault s importer directory reference e) :
    (ofExternals known followTypes).isExternal s directory reference = true ∧
      e = .unsupportedImport reference.request importer ∧
      ExternalPackages.knows known reference.request = true ∧
      ExternalPackages.knows known' reference.request = false := by
  have htarget := hanswer.eq_target
  have hanswer' : (ofExternals known' followTypes).Answers s importer directory reference
      (.error e) := hfault
  have he := hanswer'.eq_target
  -- the two lists differ here, so the reference is one that they are asked about
  have hdiffers : ¬ ((ofExternals known followTypes).isFollowed reference = true →
      reference.isRelative = false → ExternalPackages.knows known reference.request =
        ExternalPackages.knows known' reference.request) := by
    intro hsame
    rw [target_ofExternals_congr hsame, ← he] at htarget
    cases htarget
  rw [Classical.not_imp, Classical.not_imp] at hdiffers
  obtain ⟨hfollowed, hpackage, hdiffers⟩ := hdiffers
  have hfollowed' : (ofExternals known' followTypes).isFollowed reference = true := hfollowed
  rw [target_ofExternals hfollowed hpackage] at htarget
  rw [target_ofExternals hfollowed' hpackage] at he
  split at htarget
  case isTrue hknown =>
    obtain rfl := Except.ok.inj htarget
    have hunknown : ExternalPackages.knows known' reference.request = false :=
      Bool.eq_false_iff.2 fun hknown' ↦ hdiffers (hknown.trans hknown'.symm)
    rw [hunknown, if_neg Bool.false_ne_true] at he
    exact ⟨hanswer, Except.error.inj he, hknown, hunknown⟩
  case isFalse => cases htarget

/-- **No relative request is left out of the bundle.** -/
theorem not_isExternal_of_isRelative {options : BundleOptions MemoryStore}
    (h : reference.isRelative = true) : options.isExternal s directory reference = false := by
  simp [isExternal, h]

theorem target_ne_external {options : BundleOptions MemoryStore}
    (h : reference.isRelative = true) :
    options.target s importer directory reference ≠ .ok .external := by
  intro htarget
  have hanswer : options.Answers s importer directory reference (.ok .external) :=
    htarget ▸ answers_target
  have hexternal : options.isExternal s directory reference = true := hanswer
  rw [not_isExternal_of_isRelative h] at hexternal
  cases hexternal

variable [Engine]

/-- A start needs the same modules, whatever packages are left out. -/
theorem needed_ofExternals (known known' : Option ExternalPackages) (followTypes : Bool)
    (s : MemoryStore) (start : Path) :
    ((ofExternals known followTypes).project s).needed start =
      ((ofExternals known' followTypes).project s).needed start := by
  have hlinks : ((ofExternals known followTypes).project s).Links =
      ((ofExternals known' followTypes).project s).Links := by
    funext p q
    simp only [Project.Links, project, Answers, destination?_ofExternals]
    rfl
  simp only [Project.needed, hlinks]

/-- What is asked about packages does not depend on which are known. -/
theorem asks_ofExternals (h : (ofExternals known followTypes).Asks s start request)
    (known' : Option ExternalPackages) : (ofExternals known' followTypes).Asks s start request := by
  obtain ⟨importer, hneeded, hrest⟩ := h
  rw [needed_ofExternals known known'] at hneeded
  exact ⟨importer, hneeded, hrest⟩

/-! ### Two lists -/

/-- A list that says the same about all that is asked gets a walk the same answers. -/
theorem transfers_ofExternals
    (h : ∀ request, (ofExternals known followTypes).Asks s start request →
      ExternalPackages.knows known request = ExternalPackages.knows known' request) :
    ((ofExternals known followTypes).project s).Transfers
      ((ofExternals known' followTypes).project s) Eq start where
  reads {path answer} _ hreads := ⟨answer, hreads, .refl (fun _ ↦ rfl) answer⟩
  leads {importer content references reference answer} hneeded hreads hmem := by
    rintro ⟨directory, hparent, hanswer⟩
    refine ⟨answer, ⟨directory, hparent, ?_⟩, .refl (fun _ ↦ rfl) answer⟩
    have hsame : (ofExternals known followTypes).target s importer directory reference =
        (ofExternals known' followTypes).target s importer directory reference :=
      target_ofExternals_congr fun hfollowed hpackage ↦
        h _ ⟨importer, hneeded, content, references, hreads, reference, hmem, hfollowed, hpackage,
          rfl⟩
    rw [hanswer.eq_target, hsame]
    exact answers_target

/-- **A walk that succeeds knows all packages that are asked about.** -/
theorem knows_of_visits {index : Nat} {g : Graph}
    (hvisits : ((ofExternals known followTypes).project s).Visits start {} index g)
    (hasks : (ofExternals known followTypes).Asks s start request) :
    ExternalPackages.knows known request = true := by
  obtain ⟨importer, hneeded, content, references, hsource, reference, hmem, hfollowed, hpackage,
    rfl⟩ := hasks
  obtain ⟨content', references', hreads, hall⟩ :=
    hvisits.complete (functional_project _ s) hneeded
  obtain ⟨rfl, rfl⟩ := Prod.mk.inj (Except.ok.inj (hsource.symm.trans hreads))
  obtain ⟨target, directory, hparent, hanswer⟩ := hall reference hmem
  have htarget := hanswer.eq_target
  rw [target_ofExternals hfollowed hpackage] at htarget
  by_contra hknown
  rw [if_neg hknown] at htarget
  cases htarget

/-- Two walks that succeed find the same graph, whatever packages are left out. -/
theorem eq_of_visits {index index' : Nat} {g g' : Graph}
    (hvisits : ((ofExternals known followTypes).project s).Visits start {} index g)
    (hvisits' : ((ofExternals known' followTypes).project s).Visits start {} index' g') :
    g = g' := by
  have htransfers : ((ofExternals known followTypes).project s).Transfers
      ((ofExternals known' followTypes).project s) Eq start :=
    transfers_ofExternals fun request hasks ↦ by
      rw [knows_of_visits hvisits hasks, knows_of_visits hvisits' (asks_ofExternals hasks known')]
  exact (htransfers.visits hvisits).unique (functional_project _ s) hvisits'

/-- **A walk that stops where another one succeeds**, stops at a request that is left out there and
not known here. -/
theorem exists_request_of_stops (hs : s.Sound) {index : Nat} {g : Graph} {e : Error}
    (hvisits : ((ofExternals known followTypes).project s).Visits start {} index g)
    (hstops : ((ofExternals known' followTypes).project s).Stops ⟨[], [.visit start]⟩ e) :
    ∃ m ∈ g.modules, ∃ request ∈ m.externals, e = .unsupportedImport request m.path ∧
      ExternalPackages.knows known request = true ∧
      ExternalPackages.knows known' request = false := by
  obtain ⟨seen, task, rest, hsteps, hfails⟩ := hstops
  have hdue := Project.due_of_advances hsteps task List.mem_cons_self
  cases hfails with
  | @visit path _ _ _ hreads =>
    -- the file is needed by the other walk too, which has read it
    replace hdue : path ∈ ((ofExternals known' followTypes).project s).needed start := hdue
    rw [needed_ofExternals known' known] at hdue
    obtain ⟨content, references, hreads', -⟩ := hvisits.complete (functional_project _ s) hdue
    cases Eq.trans (Eq.symm hreads) hreads'
  | @follow importer reference _ _ hleads =>
    obtain ⟨hneeded, content, references, hsource, hmem⟩ := hdue
    rw [needed_ofExternals known' known] at hneeded
    obtain ⟨content', references', hreads, hall⟩ :=
      hvisits.complete (functional_project _ s) hneeded
    obtain ⟨rfl, rfl⟩ := Prod.mk.inj (Except.ok.inj (Eq.trans (Eq.symm hsource) hreads))
    obtain ⟨target, directory, hparent, hanswer⟩ := hall reference hmem
    obtain ⟨directory', hparent', hfault⟩ := hleads
    obtain rfl := Except.ok.inj (hparent.symm.trans hparent')
    obtain ⟨hexternal, rfl, hknown, hunknown⟩ := Fault.of_ofExternals hanswer hfault
    obtain ⟨m, hm, rfl⟩ := List.mem_map.1 <| (Project.isLeast_needed _ start).2
      (hvisits.isLeast_paths (functional_project _ s)).1 hneeded
    obtain ⟨hsource', directory', hparent', -, hexternals⟩ := edges_of_visits hs hvisits hm
    obtain ⟨-, rfl⟩ := Prod.mk.inj (Except.ok.inj (hsource'.symm.trans hreads))
    obtain rfl := Except.ok.inj (hparent.symm.trans hparent')
    exact ⟨m, hm, reference.request, (hexternals _).2 ⟨reference, hmem, hexternal, rfl⟩, rfl,
      hknown, hunknown⟩

end BundleOptions

/-! ### Bundles with a list, and without -/

section

open BundleOptions

variable [Engine] {followTypes : Bool} {entry : Path} {s s₁ s₂ : MemoryStore} {g g' : Graph}

/-- A bundle that is collected is a walk that does not depend on how the packages are listed. -/
theorem exists_visits_of_externals {known : Option ExternalPackages} (hs : s.Sound)
    (h : bundle (known.map ExternalPackages.table) followTypes entry s = some (.ok g, s₁)) :
    ∃ start, s.Opens entry start ∧
      ((ofExternals known followTypes).project s).Visits start {} 0 g := by
  rw [bundle, ofTable_externals] at h
  exact exists_visits_of_collect hs (ignoresStore_ofExternals known followTypes).readsTree h

/-- Two bundles that are collected have the same graph. -/
theorem graph_eq_of_externals (known known' : Option ExternalPackages) (hs : s.Sound)
    (h : bundle (known.map ExternalPackages.table) followTypes entry s = some (.ok g, s₁))
    (h' : bundle (known'.map ExternalPackages.table) followTypes entry s = some (.ok g', s₂)) :
    g = g' := by
  obtain ⟨start, hopens, hvisits⟩ := exists_visits_of_externals hs h
  obtain ⟨start', hopens', hvisits'⟩ := exists_visits_of_externals hs h'
  obtain rfl := hopens.unique hopens'
  exact eq_of_visits hvisits hvisits'

/-- A bundle that fails where another one is collected fails with a package. -/
theorem exists_request_of_externals (known known' : Option ExternalPackages) (hs : s.Sound)
    {e : Error}
    (h : bundle (known.map ExternalPackages.table) followTypes entry s = some (.ok g, s₁))
    (h' : bundle (known'.map ExternalPackages.table) followTypes entry s = some (.error e, s₂)) :
    ∃ m ∈ g.modules, ∃ request ∈ m.externals, e = .unsupportedImport request m.path ∧
      ExternalPackages.knows known request = true ∧
      ExternalPackages.knows known' request = false := by
  obtain ⟨start, hopens, hvisits⟩ := exists_visits_of_externals hs h
  rw [bundle, ofTable_externals] at h'
  rcases failsWith_of_collect hs (ignoresStore_ofExternals known' followTypes).readsTree h' with
    hopen | ⟨start', hopens', hstops⟩
  · exact absurd hopen hopens.ne_error
  · obtain rfl := hopens.unique hopens'
    exact exists_request_of_stops hs hvisits hstops

/-- A bundle is collected with every list that knows as much. -/
theorem exists_bundle_of_externals (known known' : Option ExternalPackages) (hs : s.Sound)
    (hknown : ∀ request, ExternalPackages.knows known request = true →
      ExternalPackages.knows known' request = true)
    (h : bundle (known.map ExternalPackages.table) followTypes entry s = some (.ok g, s₁)) :
    ∃ s₂, bundle (known'.map ExternalPackages.table) followTypes entry s = some (.ok g, s₂) := by
  obtain ⟨⟨outcome, s₂⟩, h'⟩ := Option.isSome_iff_exists.1
    (isSome_bundle (known'.map ExternalPackages.table) followTypes entry hs)
  rcases outcome with e | g'
  · obtain ⟨-, -, request, -, -, hrequest, hunknown⟩ := exists_request_of_externals _ _ hs h h'
    rw [hknown request hrequest] at hunknown
    cases hunknown
  · obtain rfl := graph_eq_of_externals _ _ hs h h'
    exact ⟨s₂, h'⟩

/-- Two lists that say the same about all that is asked come to the same, errors included. -/
theorem outcome_eq_of_externals (known known' : Option ExternalPackages) (hs : s.Sound)
    (h : ∀ start, s.Opens entry start →
      ∀ request, (ofExternals known followTypes).Asks s start request →
        ExternalPackages.knows known request = ExternalPackages.knows known' request) :
    ∃ outcome s₁ s₂,
      bundle (known.map ExternalPackages.table) followTypes entry s = some (outcome, s₁) ∧
      bundle (known'.map ExternalPackages.table) followTypes entry s = some (outcome, s₂) := by
  obtain ⟨⟨outcome, s₁⟩, hbundle⟩ := Option.isSome_iff_exists.1
    (isSome_bundle (known.map ExternalPackages.table) followTypes entry hs)
  obtain ⟨⟨outcome', s₂⟩, hbundle'⟩ := Option.isSome_iff_exists.1
    (isSome_bundle (known'.map ExternalPackages.table) followTypes entry hs)
  have hcollect := hbundle
  have hcollect' := hbundle'
  rw [bundle, ofTable_externals] at hcollect hcollect'
  have halike : Alike Eq outcome outcome' :=
    alike_of_collect (describes_project hs (ignoresStore_ofExternals known followTypes).readsTree)
      (describes_project hs (ignoresStore_ofExternals known' followTypes).readsTree)
      (functional_project _ s) (hs.entryPath entry) (hs.entryPath entry)
      (.refl (fun _ ↦ rfl) _)
      (fun hstart ↦ transfers_ofExternals (h _ (hs.fst_entryPath_eq_ok.1 hstart)))
      hcollect hcollect'
  exact ⟨outcome, s₁, s₂, hbundle, halike.eq ▸ hbundle'⟩

/-- What is left out of a bundle does not start from the directory of a file. -/
theorem not_relative_of_externals (known : Option ExternalPackages) (hs : s.Sound)
    (h : bundle (known.map ExternalPackages.table) followTypes entry s = some (.ok g, s₁))
    {m : Module} (hm : m ∈ g.modules) {request : String} (hrequest : request ∈ m.externals) :
    request.toList.head? ≠ some '.' := by
  obtain ⟨start, -, hvisits⟩ := exists_visits_of_externals hs h
  obtain ⟨-, directory, -, -, hexternals⟩ := edges_of_visits hs hvisits hm
  obtain ⟨reference, -, hexternal, rfl⟩ := (hexternals request).1 hrequest
  intro hdot
  have hrelative : reference.isRelative = true := by simp [Reference.isRelative, hdot]
  rw [not_isExternal_of_isRelative hrelative] at hexternal
  cases hexternal

end

/-- **A list of packages that are left out decides whether there is a bundle, not what is in it.**

* Two lists with which there is a bundle have the same one, in every respect.
* Where there is a bundle with one list and none with another, the failure is an unsupported import
  of a module of the bundle, which the first list has and the other does not.
* With every list that has as much there is a bundle as well.
* Without any list it comes to the same, errors included, as with one that has no package request of
  the files that the entry leads to.
* No list has relative requests left out: not of a reference, and not of a bundle. -/
theorem bundle_externals [Engine] (followTypes : Bool) (entry : Path) (s : MemoryStore)
    (hs : s.Reachable) :
    (∀ (P Q : ExternalPackages) (g g' : Graph) (s₁ s₂ : MemoryStore),
      bundle (some P.table) followTypes entry s = some (.ok g, s₁) →
      bundle (some Q.table) followTypes entry s = some (.ok g', s₂) → g = g') ∧
    (∀ (P Q : ExternalPackages) (g : Graph) (e : Error) (s₁ s₂ : MemoryStore),
      bundle (some P.table) followTypes entry s = some (.ok g, s₁) →
      bundle (some Q.table) followTypes entry s = some (.error e, s₂) →
      ∃ m ∈ g.modules, ∃ request ∈ m.externals, e = .unsupportedImport request m.path ∧
        P.contains request = true ∧ Q.contains request = false) ∧
    (∀ (P Q : ExternalPackages) (g : Graph) (s₁ : MemoryStore),
      (∀ request, P.contains request = true → Q.contains request = true) →
      bundle (some P.table) followTypes entry s = some (.ok g, s₁) →
      ∃ s₂, bundle (some Q.table) followTypes entry s = some (.ok g, s₂)) ∧
    (∀ P : ExternalPackages,
      (∀ start, s.Opens entry start → ∀ request,
        (BundleOptions.ofTable none followTypes).Asks s start request →
        P.contains request = false) →
      ∃ outcome s₁ s₂, bundle none followTypes entry s = some (outcome, s₁) ∧
        bundle (some P.table) followTypes entry s = some (outcome, s₂)) ∧
    ∀ P : ExternalPackages,
      (∀ (t : MemoryStore) (importer directory : Path) (reference : Reference),
        reference.request.toList.head? = some '.' →
        (BundleOptions.ofTable (some P.table) followTypes).target t importer directory reference ≠
          .ok .external) ∧
      ∀ (g : Graph) (s₁ : MemoryStore),
        bundle (some P.table) followTypes entry s = some (.ok g, s₁) →
        ∀ m ∈ g.modules, ∀ request ∈ m.externals, request.toList.head? ≠ some '.' := by
  have hsound : s.Sound := hs.sound
  refine ⟨fun P Q g g' s₁ s₂ h h' ↦ ?_, fun P Q g e s₁ s₂ h h' ↦ ?_, fun P Q g s₁ hPQ h ↦ ?_,
    fun P hasks ↦ ?_, fun P ↦ ⟨fun t importer directory reference hdot ↦ ?_,
      fun g s₁ h m hm request hrequest ↦ ?_⟩⟩
  · exact graph_eq_of_externals (some P) (some Q) hsound h h'
  · exact exists_request_of_externals (some P) (some Q) hsound h h'
  · exact exists_bundle_of_externals (some P) (some Q) hsound hPQ h
  · exact outcome_eq_of_externals none (some P) hsound
      fun start hopens request hrequest ↦ (hasks start hopens request hrequest).symm
  · exact BundleOptions.target_ne_external (by simp [Reference.isRelative, hdot])
  · exact not_relative_of_externals (some P) hsound h hm hrequest

/-- Files with two packages, of which one is named only further down. -/
def packagedStore : MemoryStore :=
  Operation.run
    [.save ⟨true, ["a.ts"]⟩ (Utf8.encode "import './b'; import 'x';"),
      .save ⟨true, ["b.ts"]⟩ (Utf8.encode "import 'y/z'; import './a';")] .empty

/-- With both packages left out there is a bundle, with a third one as well it is the same, and with
one of the two it fails with the other. -/
theorem bundle_externals_packagedStore :
    packagedStore.Reachable ∧
    ∃ g s₁ s₂ s₃ e,
      bundle (some (ExternalPackages.table ⟨["x", "y"]⟩)) false ⟨true, ["a.ts"]⟩ packagedStore =
        some (.ok g, s₁) ∧
      bundle (some (ExternalPackages.table ⟨["x", "y", "w"]⟩)) false ⟨true, ["a.ts"]⟩
        packagedStore = some (.ok g, s₂) ∧
      bundle (some (ExternalPackages.table ⟨["x"]⟩)) false ⟨true, ["a.ts"]⟩ packagedStore =
        some (.error e, s₃) ∧
      ∃ m ∈ g.modules, ∃ request ∈ m.externals, e = .unsupportedImport request m.path := by
  have hs : packagedStore.Reachable := FileStore.Reachable.start.run _
  have hrun : ∃ g s₁, bundle (some (ExternalPackages.table ⟨["x", "y"]⟩)) false ⟨true, ["a.ts"]⟩
      packagedStore = some (.ok g, s₁) ∧ g.modules.map Module.externals = [["x"], ["y/z"]] :=
    exists_of_map_collect (by decide +kernel)
  have hfail : (bundle (some (ExternalPackages.table ⟨["x"]⟩)) false ⟨true, ["a.ts"]⟩
      packagedStore).map Prod.fst = some (.error (.unsupportedImport "y/z" ⟨true, ["b.ts"]⟩)) := by
    decide +kernel
  obtain ⟨g, s₁, hbundle, -⟩ := hrun
  obtain ⟨⟨outcome, s₃⟩, hbundle₃, rfl⟩ := Option.map_eq_some_iff.1 hfail
  obtain ⟨-, hrequest, hmore, -⟩ := bundle_externals false ⟨true, ["a.ts"]⟩ packagedStore hs
  have hlonger : ∀ request, ExternalPackages.contains ⟨["x", "y"]⟩ request = true →
      ExternalPackages.contains ⟨["x", "y"] ++ ["w"]⟩ request = true := by
    intro request hknown
    rw [ExternalPackages.contains, List.any_append]
    exact Bool.or_eq_true_iff.2 (Or.inl hknown)
  obtain ⟨s₂, hbundle₂⟩ := hmore _ _ g s₁ hlonger hbundle
  obtain ⟨m, hm, request, hmem, he, -, -⟩ := hrequest _ _ g _ s₁ s₃ hbundle hbundle₃
  exact ⟨hs, g, s₁, s₂, s₃, _, hbundle, hbundle₂, hbundle₃, m, hm, request, hmem, he⟩

end ModuleBundler
